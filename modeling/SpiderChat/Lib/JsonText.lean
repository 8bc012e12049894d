import SpiderChat.Lib.Json

/-!
# SpiderChat.Lib.JsonText

**Texts put together by hand**: which of them are JSON objects. A list of members whose
values are integers and plain strings, printed one behind the other with commas, is read
back between braces (`parse_flat`). A list that ends with a comma is never read, not even
inside another object (`parse_comma_brace`).
-/

namespace Lib

namespace Json

/-! ### Objects of integers and strings -/

/-- The text of an integer, or of a string that needs no escape. -/
inductive Flat : Json → List UInt8 → Prop
  | int (i : Int) : Flat (.int i) (decInt i)
  | str {s : List UInt8} (h : ∀ b ∈ s, PlainByte b) : Flat (.str s) (34 :: (s ++ [34]))

/-- The text of a list of members. -/
inductive FlatMembers : List (List UInt8 × Json) → List UInt8 → Prop
  | last {k t : List UInt8} {v : Json} (hk : ∀ b ∈ k, PlainByte b) (hv : Flat v t) :
      FlatMembers [(k, v)] (34 :: (k ++ 34 :: 58 :: t))
  | cons {k t t' : List UInt8} {v : Json} {ms : List (List UInt8 × Json)}
      (hk : ∀ b ∈ k, PlainByte b) (hv : Flat v t) (hms : FlatMembers ms t') :
      FlatMembers ((k, v) :: ms) (34 :: (k ++ 34 :: 58 :: (t ++ 44 :: t')))

theorem Flat.value {v : Json} {t : List UInt8} (h : Flat v t) (n : Nat) {c : UInt8}
    (hc : isNumChar c = false) (r : List UInt8) :
    value (n + 1) (t ++ c :: r) = some (v, c :: r) := by
  cases h with
  | int i =>
      refine value_int fun b hb => ?_
      obtain rfl := Option.some.inj hb
      exact hc
  | @str s hs =>
      have hstring : string (s ++ 34 :: c :: r) = some (s, c :: r) := string_plain hs _
      rw [List.cons_append, List.append_assoc, value_str]
      show (string (s ++ 34 :: c :: r)).map _ = _
      rw [hstring]
      rfl

theorem FlatMembers.members {ms : List (List UInt8 × Json)} {t : List UInt8}
    (h : FlatMembers ms t) (r : List UInt8) :
    ∀ {n : Nat}, ms.length < n → members n (t ++ 125 :: r) = some (ms, r) := by
  induction h with
  | @last k t v hk hv =>
      intro n hn
      obtain ⟨n, rfl⟩ : ∃ m, n = m + 2 := ⟨n - 2, by rw [List.length_singleton] at hn; omega⟩
      have htext : 34 :: (k ++ 34 :: 58 :: t) ++ 125 :: r =
          34 :: (k ++ 34 :: (58 :: (t ++ 125 :: r))) := by simp
      rw [htext, members_succ rfl (string_plain hk _) rfl (hv.value n rfl r)]
      rfl
  | @cons k t t' v ms hk hv hms ih =>
      intro n hn
      obtain ⟨n, rfl⟩ : ∃ m, n = m + 2 := ⟨n - 2, by rw [List.length_cons] at hn; omega⟩
      rw [List.length_cons] at hn
      have htext : 34 :: (k ++ 34 :: 58 :: (t ++ 44 :: t')) ++ 125 :: r =
          34 :: (k ++ 34 :: (58 :: (t ++ 44 :: (t' ++ 125 :: r)))) := by simp
      rw [htext, members_succ rfl (string_plain hk _) rfl
        (hv.value n rfl (t' ++ 125 :: r))]
      have hmore : moreMembers (n + 1) (44 :: (t' ++ 125 :: r)) =
          Json.members (n + 1) (t' ++ 125 :: r) := rfl
      rw [hmore, ih (by omega)]
      rfl

theorem FlatMembers.length_lt {ms : List (List UInt8 × Json)} {t : List UInt8}
    (h : FlatMembers ms t) : ms.length < t.length := by
  induction h with
  | last hk hv =>
      simp only [List.length_cons, List.length_nil, List.length_append]
      omega
  | cons hk hv hms ih =>
      simp only [List.length_cons, List.length_append]
      omega

theorem ne_zero_of_plain {s : List UInt8} (h : ∀ b ∈ s, PlainByte b) : ∀ b ∈ s, b ≠ 0 := by
  rintro b hb rfl
  exact absurd (h 0 hb).1 (by decide)

theorem Flat.ne_zero {v : Json} {t : List UInt8} (h : Flat v t) : ∀ b ∈ t, b ≠ 0 := by
  cases h with
  | int i => exact fun b => ne_zero_of_mem_decInt
  | str hs =>
      simp only [List.forall_mem_cons, List.forall_mem_append]
      exact ⟨by decide, ne_zero_of_plain hs, by decide, by simp⟩

/-- There is no zero byte in the text of a list of members. -/
theorem FlatMembers.ne_zero {ms : List (List UInt8 × Json)} {t : List UInt8}
    (h : FlatMembers ms t) : ∀ b ∈ t, b ≠ 0 := by
  induction h with
  | last hk hv =>
      simp only [List.forall_mem_cons, List.forall_mem_append]
      exact ⟨by decide, ne_zero_of_plain hk, by decide, by decide, hv.ne_zero⟩
  | cons hk hv hms ih =>
      simp only [List.forall_mem_cons, List.forall_mem_append]
      exact ⟨by decide, ne_zero_of_plain hk, by decide, by decide, hv.ne_zero, by decide, ih⟩

/-- **An object of integers and strings** is read back. -/
theorem parse_flat {ms : List (List UInt8 × Json)} {t : List UInt8} (h : FlatMembers ms t) :
    parse (123 :: (t ++ [125])) = some (.obj ms) := by
  have hlen := h.length_lt
  have heat : eat 125 (t ++ [125]) = none := by cases h <;> rfl
  have hmembers : Json.members (t.length + 2) (t ++ [125]) = some (ms, []) :=
    h.members [] (by omega)
  have hfuel : (123 :: (t ++ [125])).length + 1 = t.length + 2 + 1 := by simp
  rw [parse, hfuel, value_obj heat, hmembers]
  rfl

/-- An object whose first member is put together by hand. -/
theorem parse_first {k t r : List UInt8} {v : Json} {ms : List (List UInt8 × Json)}
    (hk : ∀ b ∈ k, PlainByte b) (hv : Flat v t)
    (h : parse (123 :: 34 :: (k ++ 34 :: 58 :: (t ++ 44 :: r))) = some (.obj ms)) :
    ∃ ms', ms = (k, v) :: ms' := by
  obtain ⟨n, hn⟩ : ∃ n, (123 :: 34 :: (k ++ 34 :: 58 :: (t ++ 44 :: r))).length + 1 =
      n + 1 + 1 + 1 := ⟨_, rfl⟩
  have heat : eat 125 (34 :: (k ++ 34 :: 58 :: (t ++ 44 :: r))) = none := rfl
  rw [parse, hn, value_obj heat, members_succ rfl (string_plain hk _) rfl
    (hv.value n rfl r)] at h
  cases hmore : moreMembers (n + 1) (44 :: r) with
  | none =>
      rw [hmore] at h
      cases h
  | some p =>
      rw [hmore] at h
      simp only [Option.map_some] at h
      split at h
      · obtain rfl := Json.obj.inj (Option.some.inj h)
        exact ⟨p.1, rfl⟩
      · cases h

/-- An object whose first member is put together by hand, and the name of its second one. -/
theorem parse_second {k t k' l : List UInt8} {v : Json} {ms : List (List UInt8 × Json)}
    (hk : ∀ b ∈ k, PlainByte b) (hv : Flat v t) (hk' : ∀ b ∈ k', PlainByte b)
    (h : parse (123 :: 34 :: (k ++ 34 :: 58 :: (t ++ 44 :: 34 :: (k' ++ 34 :: 58 :: l)))) =
      some (.obj ms)) :
    ∃ n v' r ms', value (n + 1) l = some (v', r) ∧ ms = (k, v) :: (k', v') :: ms' := by
  obtain ⟨n, hn⟩ : ∃ n, (123 :: 34 :: (k ++ 34 :: 58 :: (t ++ 44 :: 34 :: (k' ++ 34 :: 58 ::
      l)))).length + 1 = n + 1 + 1 + 1 + 1 := by
    refine ⟨(k ++ 34 :: 58 :: (t ++ 44 :: 34 :: (k' ++ 34 :: 58 :: l))).length - 1, ?_⟩
    simp only [List.length_cons, List.length_append]
    omega
  have heat : eat 125 (34 :: (k ++ 34 :: 58 :: (t ++ 44 :: 34 :: (k' ++ 34 :: 58 :: l)))) =
      none := rfl
  have hmore : moreMembers (n + 1 + 1) (44 :: 34 :: (k' ++ 34 :: 58 :: l)) =
      members (n + 1 + 1) (34 :: (k' ++ 34 :: 58 :: l)) := rfl
  rw [parse, hn, value_obj heat, members_succ rfl (string_plain hk _) rfl
    (hv.value (n + 1) rfl _), hmore] at h
  cases hvalue : value (n + 1) l with
  | none =>
      have hnone : members (n + 1 + 1) (34 :: (k' ++ 34 :: 58 :: l)) = none := by
        have heat₁ : eat 34 (34 :: (k' ++ 34 :: 58 :: l)) = some (k' ++ 34 :: 58 :: l) := rfl
        have heat₂ : eat 58 (58 :: l) = some l := rfl
        rw [members]
        simp only [heat₁, string_plain hk', heat₂, hvalue, bind, Option.bind_some,
          Option.bind_none]
      rw [hnone] at h
      cases h
  | some p =>
      obtain ⟨v', r⟩ := p
      rw [members_succ rfl (string_plain hk' _) rfl hvalue] at h
      cases hrest : moreMembers (n + 1) r with
      | none =>
          rw [hrest] at h
          cases h
      | some q =>
          rw [hrest] at h
          simp only [Option.map_some] at h
          split at h
          · obtain rfl := Json.obj.inj (Option.some.inj h)
            exact ⟨n, v', r, q.1, hvalue, rfl⟩
          · cases h

/-! ### An empty array -/

/-- The text begins with an empty array. -/
def opensEmptyArray (l : List UInt8) : Bool :=
  match l.dropWhile isWs with
  | [] => false
  | b :: r => b == 91 && (eat 93 r).isSome

theorem number_ne_arr {tok : List UInt8} {vs : List Json} : number tok ≠ some (.arr vs) := by
  have hnum : ∀ c : Bool, (if c then some (Json.num tok) else none) ≠ some (.arr vs) := by
    intro c
    cases c <;> exact nofun
  unfold number
  split
  · exact nofun
  · exact hnum _

theorem atom_ne_arr {l r : List UInt8} {vs : List Json} : atom l ≠ some (.arr vs, r) := by
  intro h
  simp only [atom] at h
  split at h
  · cases h
  split at h
  · cases h
  split at h
  · cases h
  split at h
  · obtain ⟨j, hnumber, heq⟩ := Option.map_eq_some_iff.mp h
    cases heq
    exact number_ne_arr hnumber
  · cases h

theorem ne_nil_of_elems {n : Nat} {l r : List UInt8} {vs : List Json}
    (h : elems n l = some (vs, r)) : vs ≠ [] := by
  cases n with
  | zero => cases h
  | succ n =>
      rw [elems] at h
      simp only [bind, Option.bind_eq_some_iff] at h
      obtain ⟨⟨v, r₁⟩, -, h⟩ := h
      split at h
      · simp only [Option.bind_eq_some_iff, Option.some.injEq] at h
        obtain ⟨⟨vs', r₂⟩, -, heq⟩ := h
        cases heq
        exact List.cons_ne_nil _ _
      · simp only [Option.bind_eq_some_iff, Option.some.injEq] at h
        obtain ⟨r₂, -, heq⟩ := h
        cases heq
        exact List.cons_ne_nil _ _

/-- The value that is read is an empty array when the text begins with one. -/
theorem value_eq_empty_iff {n : Nat} {l r : List UInt8} {v : Json}
    (h : value (n + 1) l = some (v, r)) : v = .arr [] ↔ opensEmptyArray l = true := by
  rw [value] at h
  split at h
  · cases h
  rename_i b r' hl
  have hopens : opensEmptyArray l = (b == 91 && (eat 93 r').isSome) := by
    unfold opensEmptyArray
    rw [hl]
  rw [hopens]
  simp only [Bool.and_eq_true, beq_iff_eq]
  split at h
  · rename_i hb
    obtain ⟨p, -, heq⟩ := Option.map_eq_some_iff.mp h
    cases heq
    refine iff_of_false ?_ fun harr => absurd (hb.symm.trans harr.1) (by decide)
    intro heq
    cases heq
  split at h
  · rename_i hb
    have hne : b ≠ 91 := by
      rw [hb]
      decide
    refine iff_of_false ?_ fun harr => hne harr.1
    split at h
    · cases h
      intro heq
      cases heq
    · obtain ⟨p, -, heq⟩ := Option.map_eq_some_iff.mp h
      cases heq
      intro heq
      cases heq
  split at h
  · rename_i hb
    split at h
    · rename_i r₁ heat
      cases h
      exact iff_of_true rfl ⟨hb, by rw [heat]; rfl⟩
    · rename_i heat
      obtain ⟨⟨vs, r₁⟩, helems, heq⟩ := Option.map_eq_some_iff.mp h
      cases heq
      refine iff_of_false ?_ fun harr => ?_
      · rintro hnil
        exact ne_nil_of_elems helems (Json.arr.inj hnil)
      · rw [heat] at harr
        cases harr.2
  · rename_i hb
    refine iff_of_false ?_ fun harr => hb harr.1
    rintro rfl
    exact atom_ne_arr h

/-- Braces behind a text do not make it begin with an array. -/
theorem opensEmptyArray_append_brace (l s : List UInt8) :
    opensEmptyArray (l ++ 125 :: s) = opensEmptyArray l := by
  have hdrop : ∀ l : List UInt8, (l ++ 125 :: s).dropWhile isWs =
      l.dropWhile isWs ++ 125 :: s := by
    intro l
    induction l with
    | nil => rfl
    | cons b l ih =>
        rw [List.cons_append, List.dropWhile_cons, List.dropWhile_cons]
        split
        · exact ih
        · rfl
  have heat : ∀ r : List UInt8, (eat 93 (r ++ 125 :: s)).isSome = (eat 93 r).isSome := by
    intro r
    unfold eat
    rw [hdrop]
    cases r.dropWhile isWs with
    | nil => rfl
    | cons c r' =>
        rw [List.cons_append]
        simp only
        split <;> rfl
  unfold opensEmptyArray
  rw [hdrop]
  cases l.dropWhile isWs with
  | nil => rfl
  | cons b r => exact congrArg (b == 91 && ·) (heat r)

/-! ### A comma in front of a brace -/

/-- The byte in front of what `dropWhile` leaves. -/
theorem exists_suffix_dropWhile {p : UInt8 → Bool} {l : List UInt8} (h : l.takeWhile p ≠ []) :
    ∃ b, p b = true ∧ b :: l.dropWhile p <:+ l := by
  rcases List.eq_nil_or_concat (l.takeWhile p) with hnil | ⟨front, b, heq⟩
  · exact absurd hnil h
  · have hmem : b ∈ l.takeWhile p := by simp [heq]
    refine ⟨b, List.mem_takeWhile_imp hmem, front, ?_⟩
    rw [List.append_cons, ← List.concat_eq_append, ← heq, List.takeWhile_append_dropWhile]

/-- White space may stand in front of a byte that is eaten. -/
theorem eat_eq_some {b : UInt8} {l r : List UInt8} (h : eat b l = some r) :
    l = b :: r ∨ ∃ w, isWs w = true ∧ w :: b :: r <:+ l := by
  unfold eat at h
  split at h
  · cases h
  · rename_i c r' hl
    split at h
    · rename_i hc
      obtain rfl := Option.some.inj h
      subst hc
      by_cases hws : l.takeWhile isWs = []
      · left
        have happend := List.takeWhile_append_dropWhile (p := isWs) (l := l)
        rw [hws, List.nil_append, hl] at happend
        exact happend.symm
      · obtain ⟨w, hw, hsuffix⟩ := exists_suffix_dropWhile hws
        exact .inr ⟨w, hw, hl ▸ hsuffix⟩
    · cases h

theorem ne_of_isWs {w : UInt8} (h : isWs w = true) : w ≠ 44 ∧ w ≠ 125 := by
  constructor
  · rintro rfl
    cases h
  · rintro rfl
    cases h

/-- In front of `r` stands no comma, and no brace behind a comma. -/
def NoComma (l r : List UInt8) : Prop :=
  ∃ b, b :: r <:+ l ∧ b ≠ 44 ∧ (b = 125 → ∃ c, c :: 125 :: r <:+ l ∧ c ≠ 44)

theorem NoComma.of_ne {l r : List UInt8} {b : UInt8} (h : b :: r <:+ l) (hb : b ≠ 44 ∧ b ≠ 125) :
    NoComma l r :=
  ⟨b, h, hb.1, fun heq => absurd heq hb.2⟩

theorem NoComma.mono {l l' r : List UInt8} (h : NoComma l r) (hl : l <:+ l') : NoComma l' r := by
  obtain ⟨b, hsuffix, hb, hbrace⟩ := h
  refine ⟨b, hsuffix.trans hl, hb, fun heq => ?_⟩
  obtain ⟨c, hc, hne⟩ := hbrace heq
  exact ⟨c, hc.trans hl, hne⟩

/-- An object, when no comma stands in front of its closing brace. -/
theorem NoComma.close {l r : List UInt8} {b : UInt8} (h : b :: 125 :: r <:+ l) (hb : b ≠ 44) :
    NoComma l r :=
  ⟨125, (List.suffix_cons b _).trans h, by decide, fun _ => ⟨b, h, hb⟩⟩

theorem noComma_atom {l r : List UInt8} {v : Json} (h : atom l = some (v, r)) : NoComma l r := by
  have hletter : ∀ b, isLetter b = true → b ≠ 44 ∧ b ≠ 125 := by
    intro b hb
    constructor
    · rintro rfl
      cases hb
    · rintro rfl
      cases hb
  have hword : ∀ word, l.takeWhile isLetter = word → word ≠ [] →
      NoComma l (l.dropWhile isLetter) := by
    intro word hword hne
    obtain ⟨b, hb, hsuffix⟩ := exists_suffix_dropWhile (hword ▸ hne)
    exact .of_ne hsuffix (hletter b hb)
  simp only [atom] at h
  split at h
  · rename_i hnull
    cases h
    exact hword _ hnull (by decide)
  split at h
  · rename_i htrue
    cases h
    exact hword _ htrue (by decide)
  split at h
  · rename_i hfalse
    cases h
    exact hword _ hfalse (by decide)
  split at h
  · obtain ⟨j, hnumber, heq⟩ := Option.map_eq_some_iff.mp h
    cases heq
    have hne : l.takeWhile isNumChar ≠ [] := by
      intro hnil
      rw [hnil] at hnumber
      cases hnumber
    obtain ⟨b, hb, hsuffix⟩ := exists_suffix_dropWhile hne
    refine .of_ne hsuffix ⟨?_, ?_⟩
    · rintro rfl
      cases hb
    · rintro rfl
      cases hb
  · cases h

/-- **No value ends with a comma, or with a comma and a brace**; neither do the members of an
object in front of its brace. -/
theorem noComma_of_read (n : Nat) :
    (∀ {l v r}, value n l = some (v, r) → NoComma l r) ∧
    ∀ {l ms r}, members n l = some (ms, r) → NoComma l (125 :: r) := by
  induction n with
  | zero => exact ⟨nofun, nofun⟩
  | succ n ih =>
      obtain ⟨ihv, ihm⟩ := ih
      constructor
      · intro l v r h
        rw [value] at h
        split at h
        · cases h
        rename_i b r' hl
        have hsuffix : b :: r' <:+ l := hl ▸ List.dropWhile_suffix isWs
        refine NoComma.mono ?_ hsuffix
        have htail : r' <:+ b :: r' := List.suffix_cons b r'
        split at h
        · obtain ⟨⟨d, r₁⟩, hs, heq⟩ := Option.map_eq_some_iff.mp h
          cases heq
          exact .of_ne ((string_suffix hs).trans htail) (by decide)
        split at h
        · rename_i hbrace
          split at h
          · rename_i he
            cases h
            rcases eat_eq_some he with rfl | ⟨w, hw, hw'⟩
            · exact .close (List.suffix_refl _) (hbrace ▸ by decide)
            · exact .close (hw'.trans htail) (ne_of_isWs hw).1
          · obtain ⟨⟨ms, r₁⟩, hs, heq⟩ := Option.map_eq_some_iff.mp h
            cases heq
            obtain ⟨c, hc, hne, -⟩ := ihm hs
            exact .close (hc.trans htail) hne
        split at h
        · split at h
          · rename_i he
            cases h
            exact .of_ne ((eat_suffix he).trans htail) (by decide)
          · obtain ⟨⟨xs, r₁⟩, hs, heq⟩ := Option.map_eq_some_iff.mp h
            cases heq
            exact .of_ne (((suffix_of_read n).2.2 hs).trans htail) (by decide)
        · exact noComma_atom h
      · intro l ms r h
        rw [members] at h
        simp only [bind, Option.bind_eq_some_iff] at h
        obtain ⟨r₁, h₁, ⟨k, r₂⟩, h₂, r₃, h₃, ⟨v, r₄⟩, h₄, h⟩ := h
        have hsuffix : r₃ <:+ l :=
          (List.suffix_cons _ _).trans ((eat_suffix h₃).trans ((List.suffix_cons _ _).trans
            ((string_suffix h₂).trans ((List.suffix_cons _ _).trans (eat_suffix h₁)))))
        refine NoComma.mono ?_ hsuffix
        have hvalue : r₄ <:+ r₃ := (suffix_of_read n).1 h₄
        split at h
        · rename_i r₅ h₅
          simp only [Option.bind_eq_some_iff, Option.some.injEq] at h
          obtain ⟨⟨ms', r₆⟩, h₆, heq⟩ := h
          cases heq
          exact (ihm h₆).mono (((List.suffix_cons _ _).trans (eat_suffix h₅)).trans hvalue)
        · simp only [Option.bind_eq_some_iff, Option.some.injEq] at h
          obtain ⟨r₅, h₅, heq⟩ := h
          cases heq
          rcases eat_eq_some h₅ with rfl | ⟨w, hw, hw'⟩
          · exact ihv h₄
          · exact .of_ne (hw'.trans hvalue) (ne_of_isWs hw)

theorem eq_of_suffix {x y l : List UInt8} (hx : x <:+ l) (hy : y <:+ l)
    (hlen : x.length = y.length) : x = y :=
  (List.suffix_of_suffix_length_le hx hy (Nat.le_of_eq hlen)).eq_of_length hlen

/-- **A comma in front of two closing braces** at the end of a text: it is no object. -/
theorem parse_comma_brace (t : List UInt8) : parse (123 :: (t ++ [44, 125, 125])) = none := by
  set body : List UInt8 := t ++ [44, 125, 125] with hbody
  have htwo : [125, 125] <:+ body := ⟨t ++ [44], by simp [hbody]⟩
  have hthree : [44, 125, 125] <:+ body := ⟨t, rfl⟩
  rw [Option.eq_none_iff_forall_ne_some]
  intro j h
  rw [parse] at h
  split at h
  · rename_i j' r hvalue
    split at h
    · rename_i hws
      -- the text ends with a brace, so that nothing stands behind the value
      have hnil : r = [] := by
        rcases List.eq_nil_or_concat r with hnil | ⟨front, x, rfl⟩
        · exact hnil
        · have hone : [x] <:+ 123 :: body := by
            refine List.IsSuffix.trans ?_ ((suffix_of_read _).1 hvalue)
            exact ⟨front, List.concat_eq_append.symm⟩
          have hbrace : [125] <:+ 123 :: body := ⟨123 :: (t ++ [44, 125]), by simp [hbody]⟩
          obtain rfl := List.singleton_inj.mp (eq_of_suffix hone hbrace rfl)
          simp [isWs] at hws
      subst hnil
      have hdrop : (123 :: body).dropWhile isWs = 123 :: body := rfl
      rw [value, hdrop] at hvalue
      simp only [show (123 : UInt8) ≠ 34 by decide, if_false, if_true] at hvalue
      split at hvalue
      · rename_i r' he
        cases hvalue
        rcases eat_eq_some he with heq | ⟨w, hw, hsuffix⟩
        · have hlen := congrArg List.length heq
          simp [hbody] at hlen
        · obtain ⟨rfl, -⟩ := List.cons.inj (eq_of_suffix hsuffix htwo rfl)
          cases hw
      · obtain ⟨⟨ms, r'⟩, hms, heq⟩ := Option.map_eq_some_iff.mp hvalue
        cases heq
        obtain ⟨b, hb, -, hbrace⟩ := (noComma_of_read _).2 hms
        obtain ⟨rfl, -⟩ := List.cons.inj (eq_of_suffix hb htwo rfl)
        obtain ⟨c, hc, hne⟩ := hbrace rfl
        obtain ⟨rfl, -⟩ := List.cons.inj (eq_of_suffix hc hthree rfl)
        exact hne rfl
    · cases h
  · cases h

end Json

end Lib
