import Mathlib.Data.Nat.Digits.Lemmas
import Mathlib.Data.List.TakeWhile

/-!
# SpiderChat.Lib.Text

Texts as C programs build them: byte strings that end at the first zero byte
(`cstr`), `snprintf` with its size limit, and integers printed in decimal.
`natOf` reads a digit string back, and `natOf_decNat` is the round trip.
-/

namespace Lib

/-- The bytes of an ASCII text. -/
def ascii (s : String) : List UInt8 := s.toList.map fun c => UInt8.ofNat c.toNat

/-- What holds of every byte of a text is decided along the text, not along the 256
values of a byte. -/
instance decidableForallBytes (t : List UInt8) (p : UInt8 → Prop) [DecidablePred p] :
    Decidable (∀ b ∈ t, p b) := List.decidableBAll p t

/-- Lists up to the first place of an element. -/
theorem append_cons_inj {α : Type} {x x' y y' : List α} {b : α} (hx : b ∉ x) (hx' : b ∉ x')
    (h : x ++ b :: y = x' ++ b :: y') : x = x' ∧ y = y' := by
  rcases List.append_eq_append_iff.mp h with ⟨z, rfl, hz⟩ | ⟨z, rfl, hz⟩
  · cases z with
    | nil => exact ⟨(List.append_nil x).symm, (List.cons.inj hz).2⟩
    | cons c z =>
        obtain ⟨rfl, -⟩ := List.cons.inj hz
        exact absurd (List.mem_append_right x List.mem_cons_self) hx'
  · cases z with
    | nil => exact ⟨List.append_nil x', (List.cons.inj hz).2.symm⟩
    | cons c z =>
        obtain ⟨rfl, -⟩ := List.cons.inj hz
        exact absurd (List.mem_append_right x' List.mem_cons_self) hx

/-- What a C string function sees of a text: everything before the first zero byte. -/
def cstr (t : List UInt8) : List UInt8 := t.takeWhile (· ≠ 0)

/-- What `snprintf(dest, size, ..)` leaves in `dest`, for the whole `text`. -/
def snprintf (size : Nat) (text : List UInt8) : List UInt8 := text.take (size - 1)

theorem cstr_of_forall {t : List UInt8} (h : ∀ b ∈ t, b ≠ 0) : cstr t = t :=
  List.takeWhile_eq_self_iff.mpr fun b hb => by simpa using h b hb

theorem cstr_append {t : List UInt8} (h : ∀ b ∈ t, b ≠ 0) (u : List UInt8) :
    cstr (t ++ u) = t ++ cstr u :=
  List.takeWhile_append_of_pos fun b hb => by simpa using h b hb

theorem cstr_cons_of_ne {b : UInt8} (hb : b ≠ 0) (l : List UInt8) :
    cstr (b :: l) = b :: cstr l := by
  simp [cstr, hb]

/-- What stands behind a zero byte is not seen. -/
theorem cstr_append_zero (t u : List UInt8) : cstr (t ++ 0 :: u) = cstr t := by
  induction t with
  | nil => rfl
  | cons b t ih =>
      by_cases hb : b = 0
      · simp [cstr, hb]
      · rw [List.cons_append, cstr_cons_of_ne hb, cstr_cons_of_ne hb, ih]

/-- A text with a zero byte goes on with it behind its C string. -/
theorem cstr_append_zero_isPrefix {l : List UInt8} (h : 0 ∈ l) : cstr l ++ [0] <+: l := by
  induction l with
  | nil => cases h
  | cons b l ih =>
      by_cases hb : b = 0
      · subst hb
        simp [cstr]
      · rw [cstr_cons_of_ne hb, List.cons_append, List.cons_prefix_cons]
        exact ⟨rfl, ih ((List.mem_cons.mp h).resolve_left (Ne.symm hb))⟩

/-- Two parts of a text stand one behind the other. -/
theorem append_prefix_iff {α : Type} {a b l : List α} :
    a ++ b <+: l ↔ a <+: l ∧ b <+: l.drop a.length := by
  constructor
  · intro h
    obtain ⟨rest, rfl⟩ := h
    rw [List.append_assoc, List.drop_left]
    exact ⟨List.prefix_append _ _, List.prefix_append _ _⟩
  · intro h
    obtain ⟨⟨rest, rfl⟩, h⟩ := h
    rw [List.drop_left] at h
    exact (List.prefix_append_right_inj a).mpr h

/-- A text that `strcmp` takes for `t` is `t`, or goes on behind a zero byte. -/
theorem eq_of_cstr {l t : List UInt8} (h : cstr l = t) : l = t ∨ ∃ u, l = t ++ 0 :: u := by
  induction l generalizing t with
  | nil => exact .inl h
  | cons b l ih =>
      by_cases hb : b = 0
      · subst hb
        obtain rfl : [] = t := by simpa [cstr] using h
        exact .inr ⟨l, rfl⟩
      · rw [cstr_cons_of_ne hb] at h
        subst h
        rcases ih rfl with heq | ⟨u, heq⟩
        · exact .inl (by rw [← heq])
        · exact .inr ⟨u, by rw [List.cons_append, ← heq]⟩

/-- A C string contains no zero byte. -/
theorem ne_zero_of_mem_cstr {t : List UInt8} {b : UInt8} (h : b ∈ cstr t) : b ≠ 0 := by
  simpa using List.mem_takeWhile_imp h

theorem cstr_isPrefix (t : List UInt8) : cstr t <+: t := List.takeWhile_prefix _

/-- Behind a C string stands one zero byte less. -/
theorem count_zero_drop_cstr (l : List UInt8) :
    (l.drop ((cstr l).length + 1)).count 0 = l.count 0 - 1 := by
  induction l with
  | nil => rfl
  | cons b l ih =>
      by_cases hb : b = 0
      · subst hb
        simp [cstr]
      · rw [cstr_cons_of_ne hb, List.length_cons, List.drop_succ_cons, ih,
          List.count_cons_of_ne hb]

theorem snprintf_of_lt {size : Nat} {text : List UInt8} (h : text.length < size) :
    snprintf size text = text :=
  List.take_of_length_le (by omega)

theorem length_snprintf_le (size : Nat) (text : List UInt8) :
    (snprintf size text).length ≤ size - 1 := by
  rw [snprintf, List.length_take]
  omega

/-- `strncpy(buf + off, src, n)`: writes `n` bytes, of `src` and then zeros; `none`
when they do not all lie in the buffer. -/
def strncpy (buf : List UInt8) (off : Nat) (src : List UInt8) (n : Nat) : Option (List UInt8) :=
  if off + n ≤ buf.length then
    let text := (cstr src).take n
    some (buf.take off ++ text ++ List.replicate (n - text.length) 0 ++ buf.drop (off + n))
  else none

/-- `strcpy(buf, src)`: writes the C string and a zero byte; `none` when they do not fit. -/
def strcpy (buf src : List UInt8) : Option (List UInt8) :=
  if (cstr src).length < buf.length then
    some (cstr src ++ 0 :: buf.drop ((cstr src).length + 1))
  else none

/-- `strchr(s, c) - s`. -/
def strchr (s : List UInt8) (c : UInt8) : Option Nat :=
  if c ∈ cstr s then some ((cstr s).takeWhile (· ≠ c)).length else none

/-- `strlen(buf + off)`; `none` when no zero byte follows in the buffer. -/
def strlen (buf : List UInt8) (off : Nat) : Option Nat :=
  if 0 ∈ buf.drop off then some (cstr (buf.drop off)).length else none

theorem cstr_drop {buf : List UInt8} {off : Nat} (h : off ≤ (cstr buf).length) :
    cstr (buf.drop off) = (cstr buf).drop off := by
  induction buf generalizing off with
  | nil => simp [cstr]
  | cons b l ih =>
      cases off with
      | zero => rfl
      | succ off =>
          have hb : b ≠ 0 := by
            rintro rfl
            simp [cstr] at h
          rw [cstr_cons_of_ne hb, List.length_cons] at h
          rw [cstr_cons_of_ne hb, List.drop_succ_cons, List.drop_succ_cons, ih (by omega)]

theorem zero_mem_of_length_cstr_lt {buf : List UInt8} (h : (cstr buf).length < buf.length) :
    0 ∈ buf := by
  by_contra hzero
  have hall : cstr buf = buf := cstr_of_forall fun b hb heq => hzero (heq ▸ hb)
  rw [hall] at h
  omega

theorem strlen_of_zero_mem {buf : List UInt8} {off : Nat} (hzero : 0 ∈ buf)
    (hoff : off ≤ (cstr buf).length) : strlen buf off = some ((cstr buf).length - off) := by
  have hmem : 0 ∈ buf.drop off := by
    obtain ⟨rest, hrest⟩ := cstr_append_zero_isPrefix hzero
    rw [← hrest, List.append_assoc, List.drop_append_of_le_length hoff]
    simp
  rw [strlen, if_pos hmem, cstr_drop hoff, List.length_drop]

theorem strncpy_eq_none_iff {buf src : List UInt8} {off n : Nat} :
    strncpy buf off src n = none ↔ buf.length < off + n := by
  simp only [strncpy, ite_eq_right_iff, reduceCtorEq, imp_false, Nat.not_le]

theorem le_of_strncpy {buf buf' src : List UInt8} {off n : Nat}
    (h : strncpy buf off src n = some buf') : off + n ≤ buf.length := by
  by_contra hlt
  rw [strncpy_eq_none_iff.mpr (Nat.not_le.mp hlt)] at h
  cases h

theorem length_strncpy {buf buf' src : List UInt8} {off n : Nat}
    (h : strncpy buf off src n = some buf') : buf'.length = buf.length := by
  unfold strncpy at h
  split at h
  · rename_i hle
    obtain rfl := Option.some.inj h
    have htext := List.length_take_le n (cstr src)
    simp only [List.length_append, List.length_take, List.length_replicate, List.length_drop]
      at htext ⊢
    omega
  · cases h

theorem strncpy_zero (buf src : List UInt8) : strncpy buf 0 src 0 = some buf := by
  simp [strncpy]

/-- The text that `strcpy` leaves. -/
theorem strcpy_eq_some {buf src buf' : List UInt8} (h : strcpy buf src = some buf') :
    cstr buf' = cstr src ∧ buf'.length = buf.length := by
  unfold strcpy at h
  split at h
  · obtain rfl := Option.some.inj h
    refine ⟨?_, ?_⟩
    · rw [cstr_append_zero, cstr_of_forall fun b => ne_zero_of_mem_cstr]
    · simp only [List.length_append, List.length_cons, List.length_drop]
      omega
  · cases h

theorem strcpy_eq_none_iff {buf src : List UInt8} :
    strcpy buf src = none ↔ buf.length ≤ (cstr src).length := by
  simp only [strcpy, ite_eq_right_iff, reduceCtorEq, imp_false, Nat.not_lt]

/-- `strncpy` to the end of the text that is there, with a count that leaves a zero byte. -/
theorem strncpy_append {buf buf' src : List UInt8} {off len n : Nat}
    (hoff : off ≤ (cstr buf).length) (hlen : strlen buf off = some len)
    (hsrc : (cstr src).length < n) (h : strncpy buf (off + len) src n = some buf') :
    off + len = (cstr buf).length ∧ cstr buf' = cstr buf ++ cstr src := by
  have hend : off + len = (cstr buf).length := by
    unfold strlen at hlen
    split at hlen
    · obtain rfl := Option.some.inj hlen
      rw [cstr_drop hoff, List.length_drop]
      omega
    · cases hlen
  refine ⟨hend, ?_⟩
  rw [hend] at h
  unfold strncpy at h
  split at h
  · obtain rfl := Option.some.inj h
    obtain ⟨k, hk⟩ : ∃ k, n - (cstr src).length = k + 1 := ⟨n - (cstr src).length - 1, by omega⟩
    have hzero : ∀ rest, cstr (List.replicate (k + 1) 0 ++ rest) = [] := by
      intro rest
      simp [cstr, List.replicate_succ]
    rw [List.take_of_length_le (Nat.le_of_lt hsrc), hk,
      ← List.prefix_iff_eq_take.mp (cstr_isPrefix buf), List.append_assoc, List.append_assoc,
      cstr_append fun b => ne_zero_of_mem_cstr, cstr_append fun b => ne_zero_of_mem_cstr, hzero,
      List.append_nil]
  · cases h

/-! ### `strchr` -/

theorem length_takeWhile_lt {s : List UInt8} {c : UInt8} (h : c ∈ s) :
    (s.takeWhile (· ≠ c)).length < s.length := by
  refine Nat.lt_of_le_of_ne (List.takeWhile_prefix _).length_le fun heq => ?_
  have hall := List.takeWhile_eq_self_iff.mp ((List.takeWhile_prefix _).eq_of_length heq) c h
  simp at hall

/-- The part in front of a byte that is there does not depend on what follows. -/
theorem takeWhile_append_of_mem {s : List UInt8} {c : UInt8} (h : c ∈ s) (rest : List UInt8) :
    (s ++ rest).takeWhile (· ≠ c) = s.takeWhile (· ≠ c) := by
  rw [List.takeWhile_append, if_neg (Nat.ne_of_lt (length_takeWhile_lt h))]

theorem strchr_eq_some {s : List UInt8} {c : UInt8} {p : Nat} (h : strchr s c = some p) :
    c ∈ s ∧ p = (s.takeWhile (· ≠ c)).length := by
  unfold strchr at h
  split at h
  · rename_i hmem
    obtain rfl := Option.some.inj h
    obtain ⟨rest, hrest⟩ := cstr_isPrefix s
    refine ⟨(cstr_isPrefix s).mem hmem, ?_⟩
    conv_rhs => rw [← hrest, takeWhile_append_of_mem hmem]
  · cases h

theorem length_takeWhile_eq_zero_iff {s : List UInt8} {c : UInt8} (h : c ∈ s) :
    (s.takeWhile (· ≠ c)).length = 0 ↔ s.head? = some c := by
  cases s with
  | nil => cases h
  | cons b s =>
      by_cases hb : b = c
      · simp [hb]
      · simp [hb]

/-- The first place of a byte. -/
theorem strchr_append {t : List UInt8} {c : UInt8} (hzero : ∀ b ∈ t, b ≠ 0) (hc : c ≠ 0)
    (hmem : c ∉ t) (rest : List UInt8) : strchr (t ++ c :: rest) c = some t.length := by
  have hall : ∀ b ∈ t, decide (b ≠ c) = true := fun b hb =>
    decide_eq_true fun heq => hmem (heq ▸ hb)
  rw [strchr, cstr_append hzero, cstr_cons_of_ne hc, if_pos (by simp),
    List.takeWhile_append_of_pos hall, List.takeWhile_cons_of_neg (by simp), List.append_nil]

/-! ### Decimal numbers -/

def isDigit (b : UInt8) : Bool := 48 ≤ b && b ≤ 57

/-- The character of a digit below 10. -/
def digitChar (d : Nat) : UInt8 := UInt8.ofNat (48 + d)

/-- `%lu`: a natural number in decimal. -/
def decNat (n : Nat) : List UInt8 :=
  if n = 0 then [48] else (Nat.digits 10 n).reverse.map digitChar

/-- `%ld`: an integer in decimal. -/
def decInt (n : Int) : List UInt8 :=
  if n < 0 then 45 :: decNat n.natAbs else decNat n.natAbs

/-- The number a digit string denotes. -/
def natOf (l : List UInt8) : Nat := l.foldl (fun v b => 10 * v + (b.toNat - 48)) 0

private theorem isDigit_digitChar : ∀ d < 10, isDigit (digitChar d) = true := by decide

private theorem toNat_digitChar : ∀ d < 10, (digitChar d).toNat - 48 = d := by decide

theorem decNat_ne_nil (n : Nat) : decNat n ≠ [] := by
  unfold decNat
  split
  · simp
  · rename_i h
    simpa [Nat.digits_eq_nil_iff_eq_zero] using h

theorem isDigit_of_mem_decNat {n : Nat} {b : UInt8} (h : b ∈ decNat n) : isDigit b = true := by
  unfold decNat at h
  split at h
  · obtain rfl := List.mem_singleton.mp h
    decide
  · obtain ⟨d, hd, rfl⟩ := List.mem_map.mp h
    exact isDigit_digitChar d (Nat.digits_lt_base (by decide) (List.mem_reverse.mp hd))

private theorem natOf_reverse_map (ds : List Nat) (h : ∀ d ∈ ds, d < 10) :
    natOf (ds.reverse.map digitChar) = Nat.ofDigits 10 ds := by
  induction ds with
  | nil => rfl
  | cons d ds ih =>
      have htail := ih fun e he => h e (List.mem_cons_of_mem _ he)
      rw [natOf] at htail ⊢
      rw [List.reverse_cons, List.map_append, List.foldl_append, htail, Nat.ofDigits_cons]
      simp only [List.map_cons, List.map_nil, List.foldl_cons, List.foldl_nil]
      rw [toNat_digitChar d (h d List.mem_cons_self)]
      omega

/-- A number printed and read back. -/
@[simp] theorem natOf_decNat (n : Nat) : natOf (decNat n) = n := by
  unfold decNat
  split
  · rename_i h
    exact h ▸ rfl
  · rw [natOf_reverse_map _ fun d hd => Nat.digits_lt_base (by decide) hd, Nat.ofDigits_digits]

/-- A number is printed without leading zeros. -/
theorem decNat_leading {n : Nat} (h : (decNat n).head? = some 48) : decNat n = [48] := by
  unfold decNat at h ⊢
  split
  · rfl
  · rename_i hn
    rw [if_neg hn, List.head?_map, List.head?_reverse] at h
    obtain ⟨d, hd, hchar⟩ := Option.map_eq_some_iff.mp h
    have hne : Nat.digits 10 n ≠ [] := by simpa [Nat.digits_eq_nil_iff_eq_zero] using hn
    have hlast := Nat.getLast_digit_ne_zero 10 hn
    rw [List.getLast?_eq_getLast_of_ne_nil hne, Option.some.injEq] at hd
    have hlt : d < 10 :=
      Nat.digits_lt_base (by decide) (hd ▸ List.getLast_mem hne)
    have hzero : ∀ e < 10, digitChar e = 48 → e = 0 := by decide
    exact absurd (hd.trans (hzero d hlt hchar)) hlast

/-- The printed length of a number below `10 ^ k`. -/
theorem length_decNat_le {n k : Nat} (hk : 0 < k) (h : n < 10 ^ k) : (decNat n).length ≤ k := by
  unfold decNat
  split
  · exact hk
  · rw [List.length_map, List.length_reverse]
    exact (Nat.digits_length_le_iff (by decide) n).mpr h

/-- The digit at the front of a printed natural number. -/
theorem decNat_cons (n : Nat) : ∃ d ds, decNat n = d :: ds ∧ isDigit d = true := by
  cases h : decNat n with
  | nil => exact absurd h (decNat_ne_nil n)
  | cons d ds => exact ⟨d, ds, rfl, isDigit_of_mem_decNat (h ▸ List.mem_cons_self)⟩

/-- A printed integer starts with its sign or with a digit. -/
theorem decInt_cases (n : Int) :
    (n < 0 ∧ decInt n = 45 :: decNat n.natAbs) ∨ (0 ≤ n ∧ decInt n = decNat n.natAbs) := by
  unfold decInt
  split
  · exact Or.inl ⟨‹_›, rfl⟩
  · exact Or.inr ⟨by omega, rfl⟩

theorem mem_decInt {n : Int} {b : UInt8} (h : b ∈ decInt n) : b = 45 ∨ isDigit b = true := by
  rcases decInt_cases n with ⟨-, heq⟩ | ⟨-, heq⟩
  · rw [heq] at h
    rcases List.mem_cons.mp h with h | h
    · exact Or.inl h
    · exact Or.inr (isDigit_of_mem_decNat h)
  · rw [heq] at h
    exact Or.inr (isDigit_of_mem_decNat h)

/-- A printed integer contains no zero byte. -/
theorem ne_zero_of_mem_decInt {n : Int} {b : UInt8} (h : b ∈ decInt n) : b ≠ 0 := by
  intro heq
  subst heq
  rcases mem_decInt h with h | h <;> cases h

/-- The printed length of an integer with less than `k` digits. -/
theorem length_decInt_le {n : Int} {k : Nat} (hk : 0 < k) (h : n.natAbs < 10 ^ k) :
    (decInt n).length ≤ k + 1 := by
  have := length_decNat_le hk h
  rcases decInt_cases n with ⟨-, heq⟩ | ⟨-, heq⟩ <;> rw [heq]
  · simpa using this
  · omega

/-- Different integers are printed differently. -/
theorem decInt_inj {m n : Int} : decInt m = decInt n ↔ m = n := by
  refine ⟨fun h => ?_, fun h => h ▸ rfl⟩
  have hsign : ∀ k l, 45 :: decNat k ≠ decNat l := by
    intro k l h
    obtain ⟨d, ds, hd, hdig⟩ := decNat_cons l
    rw [hd] at h
    obtain rfl := (List.cons.inj h).1
    cases hdig
  have hnat : ∀ k l, decNat k = decNat l → k = l := by
    intro k l h
    have := congrArg natOf h
    rwa [natOf_decNat, natOf_decNat] at this
  rcases decInt_cases m with ⟨hm, hm'⟩ | ⟨hm, hm'⟩ <;>
    rcases decInt_cases n with ⟨hn, hn'⟩ | ⟨hn, hn'⟩ <;> rw [hm', hn'] at h
  · have := hnat _ _ (List.cons.inj h).2
    omega
  · exact absurd h (hsign _ _)
  · exact absurd h.symm (hsign _ _)
  · have := hnat _ _ h
    omega

/-- A number up to the blank behind it. -/
theorem decInt_blank_isPrefix {m n : Int} {l l' : List UInt8} :
    decInt m ++ 32 :: l <+: decInt n ++ 32 :: l' ↔ m = n ∧ l <+: l' := by
  have hblank : ∀ k : Int, (32 : UInt8) ∉ decInt k := by
    intro k hmem
    rcases mem_decInt hmem with h | h <;> cases h
  constructor
  · intro h
    obtain ⟨t, ht⟩ := h
    rw [List.append_assoc, List.cons_append] at ht
    obtain ⟨hnum, hrest⟩ := append_cons_inj (hblank m) (hblank n) ht
    exact ⟨decInt_inj.mp hnum, t, hrest⟩
  · intro h
    obtain ⟨rfl, t, rfl⟩ := h
    exact ⟨t, by simp⟩

end Lib
