import SpiderChat.JsonRun

/-!
# SpiderChat.JsonNumber

Numbers in the two passes of `json_parse_ex`. The first pass reads a number byte by
byte and keeps what it says in the value; the second one goes over it at once. Both
end up behind the same byte when no byte of a number follows.
-/

namespace SpiderChat.JsonC

open Lib

variable {settings : JsonSettings} {s t : Scan} {b b₁ : Builder} {a : Addr} {value : JsonValue}
  {l r ds : Bytes} {u : JsonU}

/-! ### The text of a number -/

/-- No byte of a number comes next. -/
def NumEnd (r : Bytes) : Prop := ∀ c, r.head? = some c → Json.isNumChar c = false

theorem isNumChar_of_isDigit {c : UInt8} (h : isDigit c = true) : Json.isNumChar c = true := by
  simp [Json.isNumChar, h]

/-- The rest behind a number is what stands behind its bytes. -/
def SplitsNum (l r : Bytes) : Prop := ∃ tok, l = tok ++ r ∧ ∀ c ∈ tok, Json.isNumChar c = true

theorem SplitsNum.refl (l : Bytes) : SplitsNum l l := ⟨[], rfl, by simp⟩

theorem SplitsNum.trans {l₁ l₂ l₃ : Bytes} (h : SplitsNum l₁ l₂) (h' : SplitsNum l₂ l₃) :
    SplitsNum l₁ l₃ := by
  obtain ⟨x, rfl, hx⟩ := h
  obtain ⟨y, rfl, hy⟩ := h'
  refine ⟨x ++ y, by rw [List.append_assoc], fun c hc => ?_⟩
  rcases List.mem_append.mp hc with hc | hc
  · exact hx c hc
  · exact hy c hc

theorem SplitsNum.digits (l : Bytes) : SplitsNum l (l.dropWhile isDigit) :=
  ⟨l.takeWhile isDigit, List.takeWhile_append_dropWhile.symm,
    fun _ hc => isNumChar_of_isDigit (List.mem_takeWhile_imp hc)⟩

theorem SplitsNum.tail {c : UInt8} (h : l.head? = some c) (hc : Json.isNumChar c = true) :
    SplitsNum l l.tail := by
  cases l with
  | nil => cases h
  | cons d l =>
      cases h
      exact ⟨[c], rfl, by simpa using hc⟩

theorem SplitsNum.dropWhile (h : SplitsNum l r) (hr : NumEnd r) :
    l.dropWhile Json.isNumChar = r := by
  obtain ⟨tok, rfl, htok⟩ := h
  rw [List.dropWhile_append_of_pos htok]
  cases r with
  | nil => rfl
  | cons c r => rw [List.dropWhile_cons_of_neg (by simp [hr c rfl])]

theorem SplitsNum.length_le (h : SplitsNum l r) : r.length ≤ l.length := by
  obtain ⟨tok, rfl, -⟩ := h
  simp

theorem splitsNum_readFraction {ds : Bytes} (h : readFraction ds l = some (u, r)) :
    SplitsNum l r := by
  unfold readFraction at h
  dsimp only at h
  split at h
  · rename_i hpoint
    split at h
    · cases h
    · cases h
      exact (SplitsNum.tail hpoint (by decide)).trans (.digits _)
  · cases h
    exact .refl _

theorem splitsNum_exponentDigits (l : Bytes) : SplitsNum l (exponentDigits l) := by
  unfold exponentDigits
  split
  · rename_i hsign
    rcases hsign with hsign | hsign
    · exact .tail hsign (by decide)
    · exact .tail hsign (by decide)
  · exact .refl _

theorem splitsNum_readExponent {u' : JsonU} (h : readExponent u l = some (u', r)) :
    SplitsNum l r := by
  unfold readExponent at h
  dsimp only at h
  split at h
  · rename_i he
    have htail : SplitsNum l l.tail := by
      rcases he with he | he
      · exact .tail he (by decide)
      · exact .tail he (by decide)
    split at h
    · cases h
    · cases h
      exact htail.trans ((splitsNum_exponentDigits _).trans (.digits _))
  · cases h
    exact .refl _

theorem splitsNum_readUnsigned (h : readUnsigned l = some (u, r)) : SplitsNum l r := by
  unfold readUnsigned at h
  dsimp only at h
  split at h
  · cases h
  · obtain ⟨⟨u', r'⟩, hf, he⟩ := Option.bind_eq_some_iff.mp h
    exact (SplitsNum.digits l).trans
      ((splitsNum_readFraction hf).trans (splitsNum_readExponent he))

/-- A number has bytes. -/
theorem splitsNum_readNumber {c : UInt8} (hc : isDigit c = true ∨ c = 45)
    (h : readNumber (c :: l) = some (u, r)) : SplitsNum (c :: l) r ∧ r.length < l.length + 1 := by
  unfold readNumber at h
  split at h
  · rename_i hminus
    obtain ⟨⟨u', r'⟩, hu, heq⟩ := Option.map_eq_some_iff.mp h
    cases heq
    have hsplit := splitsNum_readUnsigned hu
    exact ⟨(SplitsNum.tail hminus (by decide)).trans hsplit, Nat.lt_succ_of_le hsplit.length_le⟩
  · rename_i hminus
    have hdigit : isDigit c = true := hc.resolve_right fun heq => hminus (by rw [heq]; rfl)
    have hsplit := splitsNum_readUnsigned h
    refine ⟨hsplit, ?_⟩
    unfold readUnsigned at h
    dsimp only at h
    split at h
    · cases h
    · obtain ⟨⟨u', r'⟩, hf, he⟩ := Option.bind_eq_some_iff.mp h
      have hle := ((splitsNum_readFraction hf).trans (splitsNum_readExponent he)).length_le
      rw [List.dropWhile_cons_of_pos hdigit] at hle
      have := (List.dropWhile_sublist (l := l) isDigit).length_le
      omega

/-! ### The second pass -/

theorem Outcome.number_second {c : UInt8} (h : At s (.seek false false) (c :: l) b)
    (hc : isDigit c = true ∨ c = 45)
    (hmiddle : middle settings false s =
      startNumber settings false { s with flags.seek_value := false } c)
    (hr : readNumber (c :: l) = some (u, r)) (hend : NumEnd r) :
    Outcome settings false s r
      (eff (buildNumber settings false u b) >>= fun b => eff (finish false b)) := by
  obtain ⟨hsplit, hlt⟩ := splitsNum_readNumber hc hr
  refine .op_next true (u := { s with flags.seek_value := false })
    (g := fun build => { s with
      build, i := s.i.dropWhile Json.isNumChar, flags.seek_value := false, flags.next := true,
      flags.reproc := true }) ?_ (fun b' => ⟨?_, ?_, rfl⟩) ?_
  · rw [hmiddle, startNumber, buildNumber, ← h.build]
    cases newValue settings false s.build .json_integer <;> rfl
  · show { s.flags.control with seek_value := false, next := true, reproc := true } = _
    rw [h.flags]
    rfl
  · show s.i.dropWhile Json.isNumChar = r
    rw [h.i, hsplit.dropWhile hend]
  · rw [h.i, List.length_cons]
    exact hlt

/-! ### The first pass -/

/-- The loop is in a number that `b₁` holds as `value` at `a`; by now it is `u`. -/
structure InNumber (b₁ : Builder) (a : Addr) (value : JsonValue) (s : Scan) (l : Bytes)
    (flags : Flags) (num_digits : Nat) (num_e num_fraction : Int64) (u : JsonU) : Prop where
  i : s.i = l
  flags : s.flags = flags
  num_digits : s.num_digits = num_digits
  num_e : s.num_e = num_e
  num_fraction : s.num_fraction = num_fraction
  build : s.build = b₁ ∧ u = value.u ∨ s.build = b₁.setU a value u

section
variable {flags : Flags} {nd : Nat} {ne nf : Int64} (hb₁ : b₁.read b₁.top = .ok (a, value))
  (h : InNumber b₁ a value s l flags nd ne nf u)
include hb₁ h

theorem InNumber.read : s.build.read s.build.top = .ok (a, { value with u }) := by
  rcases h.build with ⟨hbuild, rfl⟩ | hbuild
  · rw [hbuild]
    exact hb₁
  · rw [hbuild]
    exact Builder.read_top_setU (Builder.read_eq_ok.mp hb₁).1 value u

omit hb₁ in
theorem InNumber.setU (u' : JsonU) :
    s.build.setU a { value with u } u' = b₁.setU a value u' := by
  rcases h.build with ⟨hbuild, rfl⟩ | hbuild
  · rw [hbuild]
  · rw [hbuild]
    exact Builder.setU_setU b₁ a value u u'

theorem InNumber.middle (hflags : flags.control = {})
    (hu : u.type = .json_integer ∨ u.type = .json_double) :
    middle settings true s = numberSection s a { value with u } (l.headD 0) := by
  have hget : ∀ p : Flags → Bool, p s.flags.control = p {} := fun p => by rw [h.flags, hflags]
  simp only [JsonC.middle, doneSection, stringSection,
    show s.flags.done = false from hget Flags.done,
    show s.flags.string = false from hget Flags.string,
    show s.flags.seek_value = false from hget Flags.seek_value, Bool.false_eq_true, if_false,
    pure_bind, typeSection, h.read hb₁, ofOp, h.i]
  rcases hu with hu | hu <;> rw [hu]

variable (settings) in
/-- A digit of the integer part. -/
theorem InNumber.int_digit {c : UInt8} {n : Int64} {zero : Bool}
    (hl : l = c :: r) (hu : u = .integer n) (hflags : flags.control = {})
    (he : flags.num_e = false) (hzero : flags.num_zero = false) (hc : isDigit c = true)
    (hz : decide (nd + 1 = 1 ∧ c = 48) = zero) :
    ∃ t, body settings true s = .inl t ∧
      InNumber b₁ a value t r { flags with num_zero := zero } (nd + 1) ne nf
        (.integer (n * 10 + .ofNat (c.toNat - 48))) := by
  subst hl hu hz
  have hsf : s.flags = flags := h.flags
  refine ⟨{ s with
    i := r, num_digits := s.num_digits + 1,
    flags.num_zero := s.flags.num_zero || decide (s.num_digits + 1 = 1 ∧ c = 48),
    build := s.build.setU a { value with u := .integer n }
      (.integer (n * 10 + .ofNat (c.toNat - 48))) }, ?_, rfl, ?_, ?_, h.num_e, h.num_fraction,
    .inr (h.setU _)⟩
  · rw [body, h.middle hb₁ hflags (.inl rfl)]
    simp only [List.headD_cons, numberSection, hc, if_true, digitSection, hsf, he, hzero,
      Bool.false_eq_true, if_false, throw_bind, outcome_throw, again, h.i]
    rfl
  · show { s.flags with
      num_zero := s.flags.num_zero || decide (s.num_digits + 1 = 1 ∧ c = 48) } = _
    rw [hsf, hzero, h.num_digits, Bool.false_or]
  · show s.num_digits + 1 = _
    rw [h.num_digits]

/-- Another digit behind a leading zero. -/
theorem InNumber.after_zero {c : UInt8} {n : Int64} (hl : l = c :: r) (hu : u = .integer n)
    (hflags : flags.control = {}) (he : flags.num_e = false) (hzero : flags.num_zero = true)
    (hc : isDigit c = true) :
    ∃ e t, body settings true s = .inr (.failed e t) ∧ t.build = s.build := by
  subst hl hu
  have hsf : s.flags = flags := h.flags
  obtain ⟨e, hbody⟩ := body_of_failedAt settings true (s := s)
    (t := { s with num_digits := s.num_digits + 1 })
    (d := ascii "Unexpected `0` before `" ++ [c, 96]) (by
      rw [h.middle hb₁ hflags (.inl rfl)]
      simp only [List.headD_cons, numberSection, hc, if_true, digitSection, hsf, he, hzero,
        Bool.false_eq_true, if_false])
  exact ⟨e, _, hbody, rfl⟩

variable (settings) in
/-- A digit of the fraction. -/
theorem InNumber.fraction_digit {c : UInt8} {d : Dbl} (hl : l = c :: r) (hu : u = .double d)
    (hflags : flags.control = {}) (he : flags.num_e = false) (hc : isDigit c = true) :
    ∃ t, body settings true s = .inl t ∧
      InNumber b₁ a value t r flags (nd + 1) ne (nf * 10 + .ofNat (c.toNat - 48)) u := by
  subst hl hu
  have hsf : s.flags = flags := h.flags
  refine ⟨{ s with
    i := r, num_digits := s.num_digits + 1,
    num_fraction := s.num_fraction * 10 + .ofNat (c.toNat - 48) }, ?_, rfl, hsf, ?_, h.num_e, ?_,
    h.build⟩
  · rw [body, h.middle hb₁ hflags (.inr rfl)]
    simp only [List.headD_cons, numberSection, hc, if_true, digitSection, hsf, he,
      Bool.false_eq_true, if_false, throw_bind, outcome_throw, again, h.i]
  · show s.num_digits + 1 = _
    rw [h.num_digits]
  · show s.num_fraction * 10 + _ = _
    rw [h.num_fraction]

variable (settings) in
/-- A digit of the exponent. -/
theorem InNumber.exponent_digit {c : UInt8} {d : Dbl} (hl : l = c :: r) (hu : u = .double d)
    (hflags : flags.control = {}) (he : flags.num_e = true) (hc : isDigit c = true) :
    ∃ t, body settings true s = .inl t ∧
      InNumber b₁ a value t r { flags with num_e_got_sign := true } (nd + 1)
        (ne * 10 + .ofNat (c.toNat - 48)) nf u := by
  subst hl hu
  have hsf : s.flags = flags := h.flags
  refine ⟨{ s with
    i := r, num_digits := s.num_digits + 1, flags.num_e_got_sign := true,
    num_e := s.num_e * 10 + .ofNat (c.toNat - 48) }, ?_, rfl, ?_, ?_, ?_, h.num_fraction,
    h.build⟩
  · rw [body, h.middle hb₁ hflags (.inr rfl)]
    simp only [List.headD_cons, numberSection, hc, if_true, digitSection, hsf, he,
      throw_bind, outcome_throw, again, h.i]
  · show { s.flags with num_e_got_sign := true } = _
    rw [hsf]
  · show s.num_digits + 1 = _
    rw [h.num_digits]
  · show s.num_e * 10 + _ = _
    rw [h.num_e]

variable (settings) in
/-- The point behind the integer part. -/
theorem InNumber.point {n : Int64} (hl : l = 46 :: r) (hu : u = .integer n)
    (hflags : flags.control = {}) (hnd : nd ≠ 0) :
    ∃ t, body settings true s = .inl t ∧
      InNumber b₁ a value t r flags 0 ne nf (.double (.ofInteger n)) := by
  subst hl hu
  refine ⟨{ s with
    i := r, num_digits := 0,
    build := s.build.setU a { value with u := .integer n } (.double (.ofInteger n)) }, ?_, rfl,
    h.flags, rfl, h.num_e, h.num_fraction, .inr (h.setU _)⟩
  rw [body, h.middle hb₁ hflags (.inl rfl)]
  simp only [List.headD_cons, numberSection, h.num_digits, hnd, if_false, again, h.i]
  rfl

/-- A point without digits in front of it. -/
theorem InNumber.point_fails {n : Int64} (hl : l = 46 :: r) (hu : u = .integer n)
    (hflags : flags.control = {}) (hnd : nd = 0) :
    ∃ e t, body settings true s = .inr (.failed e t) ∧ t.build = s.build := by
  subst hl hu
  obtain ⟨e, hbody⟩ := body_of_failedAt settings true (s := s)
    (t := s) (d := ascii "Expected digit before `.`") (by
      rw [h.middle hb₁ hflags (.inl rfl)]
      simp only [List.headD_cons, numberSection, h.num_digits, hnd, if_true]
      rfl)
  exact ⟨e, _, hbody, rfl⟩

variable (settings) in
/-- Behind the integer part and the fraction. -/
theorem InNumber.middle_tail (hu : u.type = .json_integer ∨ u.type = .json_double)
    (hflags : flags.control = {}) (he : flags.num_e = false) (hc : isDigit (l.headD 0) = false)
    (hpoint : l.headD 0 = 46 → u.type = .json_double) :
    JsonC.middle settings true s = numberTail s a { value with u } (l.headD 0) := by
  have hsf : s.flags.num_e = false := by rw [h.flags, he]
  rw [h.middle hb₁ hflags hu, numberSection]
  simp only [hc, hsf, Bool.false_eq_true, false_and, if_false]
  split
  · rfl
  · split
    · rename_i hand
      rw [hpoint hand.1] at hand
      cases hand.2
    · rfl

/-- The end of a number without an exponent. -/
theorem InNumber.ends (hu : u.type = .json_integer ∨ u.type = .json_double)
    (hflags : flags.control = {}) (he : flags.num_e = false) (hc : isDigit (l.headD 0) = false)
    (hpoint : l.headD 0 = 46 → u.type = .json_double) (hnd : u.type = .json_double → nd ≠ 0)
    (hexp : l.headD 0 ≠ 101 ∧ l.headD 0 ≠ 69) :
    Yields settings true s l (eff (finish true (b₁.setU a value
      (if flags.num_negative then (u.withFraction nf nd).neg else u.withFraction nf nd)))) := by
  have hmiddle := h.middle_tail settings hb₁ hu hflags he hc hpoint
  have hbuild : s.build.setU a { value with u }
      (if flags.num_negative then (u.withFraction nf nd).neg else u.withFraction nf nd) =
      b₁.setU a value _ := h.setU _
  rw [← hbuild]
  refine Yields.of_next true (w := { s with
    build := s.build.setU a { value with u }
      (if flags.num_negative then (u.withFraction nf nd).neg else u.withFraction nf nd),
    flags.next := true, flags.reproc := true }) ?_ ?_ h.i
  · rw [hmiddle, numberTail]
    have hsf : s.flags.num_e = false := by rw [h.flags, he]
    have hneg : s.flags.num_negative = flags.num_negative := by rw [h.flags]
    have hnd' : ¬ (u.type = .json_double ∧ nd = 0) := fun hand => hnd hand.1 hand.2
    simp only [hsf, Bool.not_false, if_true, hnd', if_false, hexp.1, hexp.2, or_self, endNumber,
      hneg, h.num_digits, h.num_fraction]
  · show { s.flags.control with next := true, reproc := true } = _
    rw [h.flags, hflags]

/-- A point without digits behind it. -/
theorem InNumber.fraction_fails (hu : u.type = .json_double) (hflags : flags.control = {})
    (he : flags.num_e = false) (hc : isDigit (l.headD 0) = false) (hnd : nd = 0) :
    ∃ e t, body settings true s = .inr (.failed e t) ∧ t.build = s.build := by
  obtain ⟨e, hbody⟩ := body_of_failedAt settings true (s := s)
    (t := s) (d := ascii "Expected digit after `.`") (by
      have hsf : s.flags.num_e = false := by rw [h.flags, he]
      rw [h.middle_tail settings hb₁ (.inr hu) hflags he hc fun _ => hu, numberTail]
      simp only [hsf, Bool.not_false, if_true, hu, h.num_digits, hnd, and_self])
  exact ⟨e, _, hbody, rfl⟩

variable (settings) in
/-- The `e` of a number. -/
theorem InNumber.exponent {c : UInt8} (hl : l = c :: r)
    (hu : u.type = .json_integer ∨ u.type = .json_double) (hflags : flags.control = {})
    (he : flags.num_e = false) (hnd : u.type = .json_double → nd ≠ 0) (hc : c = 101 ∨ c = 69) :
    ∃ t, body settings true s = .inl t ∧
      InNumber b₁ a value t r { flags with num_e := true, num_zero := false } 0 ne nf
        (u.withFraction nf nd).toDouble := by
  subst hl
  have hdigit : isDigit c = false := by rcases hc with rfl | rfl <;> decide
  have hpoint : c ≠ 46 := by rcases hc with rfl | rfl <;> decide
  refine ⟨{ s with
    i := r, num_digits := 0, flags.num_e := true, flags.num_zero := false,
    build := s.build.setU a { value with u } (u.withFraction nf nd).toDouble }, ?_, rfl, ?_, rfl,
    h.num_e, h.num_fraction, .inr (h.setU _)⟩
  · rw [body, h.middle_tail settings hb₁ hu hflags he hdigit fun hc' => absurd hc' hpoint,
      numberTail]
    have hsf : s.flags.num_e = false := by rw [h.flags, he]
    have hnd' : ¬ (u.type = .json_double ∧ nd = 0) := fun hand => hnd hand.1 hand.2
    simp only [hsf, Bool.not_false, if_true, hnd', if_false, List.headD_cons, hc, h.num_digits,
      h.num_fraction, throw_bind, outcome_throw, again, h.i]
  · show { s.flags with num_e := true, num_zero := false } = _
    rw [h.flags]

variable (settings) in
/-- The sign of an exponent. -/
theorem InNumber.sign {c : UInt8} {d : Dbl} (hl : l = c :: r) (hu : u = .double d)
    (hflags : flags.control = {}) (he : flags.num_e = true) (hgot : flags.num_e_got_sign = false)
    (hc : c = 43 ∨ c = 45) :
    ∃ t, body settings true s = .inl t ∧
      InNumber b₁ a value t r { flags with
        num_e_got_sign := true, num_e_negative := flags.num_e_negative || c == 45 } nd ne nf u := by
  subst hl hu
  have hsf : s.flags = flags := h.flags
  have hdigit : isDigit c = false := by rcases hc with rfl | rfl <;> decide
  refine ⟨{ s with
    i := r, flags.num_e_got_sign := true,
    flags.num_e_negative := s.flags.num_e_negative || c == 45 }, ?_, rfl, ?_, h.num_digits,
    h.num_e, h.num_fraction, h.build⟩
  · rw [body, h.middle hb₁ hflags (.inr rfl)]
    simp only [List.headD_cons, numberSection, hdigit, Bool.false_eq_true, if_false, hc, if_true,
      hsf, he, hgot, Bool.not_false, and_self, throw_bind, outcome_throw, again, h.i]
  · show { s.flags with
      num_e_got_sign := true, num_e_negative := s.flags.num_e_negative || c == 45 } = _
    rw [hsf]

/-- Behind the digits of an exponent. -/
theorem InNumber.middle_exponent {d : Dbl} (hu : u = .double d) (hflags : flags.control = {})
    (he : flags.num_e = true) (hc : isDigit (l.headD 0) = false)
    (hsign : l.headD 0 = 43 ∨ l.headD 0 = 45 → flags.num_e_got_sign = true) :
    JsonC.middle settings true s =
      if nd = 0 then failedAt s (ascii "Expected digit after `e`")
      else endNumber s a { value with u }
        (.double (d.scale (if flags.num_e_negative then -ne else ne))) := by
  subst hu
  have hsf : s.flags = flags := h.flags
  have htail : numberTail s a { value with u := .double d } (l.headD 0) =
      if nd = 0 then failedAt s (ascii "Expected digit after `e`")
      else endNumber s a { value with u := .double d }
        (.double (d.scale (if flags.num_e_negative then -ne else ne))) := by
    simp only [numberTail, hsf, he, Bool.not_true, Bool.false_eq_true, if_false, h.num_digits,
      h.num_e]
  rw [h.middle hb₁ hflags (.inr rfl), numberSection, ← htail]
  simp only [hc, Bool.false_eq_true, if_false, hsf, he]
  split
  · rename_i hs
    simp only [hsign hs, Bool.not_true, Bool.false_eq_true, and_false, if_false]
  · split
    · rename_i hand
      cases hand.2
    · rfl

/-- The end of a number with an exponent. -/
theorem InNumber.exponent_ends {d : Dbl} (hu : u = .double d) (hflags : flags.control = {})
    (he : flags.num_e = true) (hc : isDigit (l.headD 0) = false)
    (hsign : l.headD 0 = 43 ∨ l.headD 0 = 45 → flags.num_e_got_sign = true) (hnd : nd ≠ 0) :
    Yields settings true s l (eff (finish true (b₁.setU a value
      (if flags.num_negative then
        (JsonU.double (d.scale (if flags.num_e_negative then -ne else ne))).neg
      else .double (d.scale (if flags.num_e_negative then -ne else ne)))))) := by
  rw [← h.setU]
  refine Yields.of_next true (w := { s with
    build := s.build.setU a { value with u }
      (if flags.num_negative then
        (JsonU.double (d.scale (if flags.num_e_negative then -ne else ne))).neg
      else .double (d.scale (if flags.num_e_negative then -ne else ne))),
    flags.next := true, flags.reproc := true }) ?_ ?_ h.i
  · have hneg : s.flags.num_negative = flags.num_negative := by rw [h.flags]
    rw [h.middle_exponent hb₁ hu hflags he hc hsign, if_neg hnd, endNumber]
    simp only [hneg]
  · show { s.flags.control with next := true, reproc := true } = _
    rw [h.flags, hflags]

/-- An exponent without digits. -/
theorem InNumber.exponent_fails {d : Dbl} (hu : u = .double d) (hflags : flags.control = {})
    (he : flags.num_e = true) (hc : isDigit (l.headD 0) = false)
    (hsign : l.headD 0 = 43 ∨ l.headD 0 = 45 → flags.num_e_got_sign = true) (hnd : nd = 0) :
    ∃ e t, body settings true s = .inr (.failed e t) ∧ t.build = s.build := by
  obtain ⟨e, hbody⟩ := body_of_failedAt settings true (s := s)
    (t := s) (d := ascii "Expected digit after `e`") (by
      rw [h.middle_exponent hb₁ hu hflags he hc hsign, if_pos hnd])
  exact ⟨e, _, hbody, rfl⟩

end

variable (settings) in
/-- A run of digits, by what one digit does. -/
theorem after_digits (ds : Bytes) {P : Bytes → Bytes → Scan → Prop}
    (hstep : ∀ ds c l s, isDigit c = true → P ds (c :: l) s →
      ∃ t, body settings true s = .inl t ∧ P (ds ++ [c]) l t) (h : P ds l s) :
    ∃ n t, After (body settings true) n s t ∧ n + (l.dropWhile isDigit).length = l.length ∧
      P (ds ++ l.takeWhile isDigit) (l.dropWhile isDigit) t := by
  induction l generalizing ds s with
  | nil => exact ⟨0, s, .refl s, rfl, by simpa using h⟩
  | cons c l ih =>
      cases hc : isDigit c with
      | false =>
          rw [List.takeWhile_cons_of_neg (by simp [hc]), List.dropWhile_cons_of_neg (by simp [hc])]
          exact ⟨0, s, .refl s, Nat.zero_add _, by simpa using h⟩
      | true =>
          obtain ⟨t, hbody, ht⟩ := hstep ds c l s hc h
          obtain ⟨n, u, hafter, hn, hu⟩ := ih _ ht
          rw [List.takeWhile_cons_of_pos hc, List.dropWhile_cons_of_pos hc]
          refine ⟨n + 1, u, .round hbody hafter, ?_, by rwa [List.append_assoc] at hu⟩
          rw [List.length_cons]
          omega

theorem digitsValue_append (ds : Bytes) (c : UInt8) :
    digitsValue (ds ++ [c]) = digitsValue ds * 10 + .ofNat (c.toNat - 48) := by
  rw [digitsValue, digitsValue, natOf, natOf, List.foldl_append]
  simp only [List.foldl_cons, List.foldl_nil, Int64.ofNat_add, Int64.ofNat_mul]
  rw [Int64.mul_comm]
  rfl

/-- The flags of a number in front of its exponent. -/
def signFlags (negative zero : Bool) : Flags := { num_negative := negative, num_zero := zero }

section
variable {negative zero : Bool} (hb₁ : b₁.read b₁.top = .ok (a, value))
include hb₁

variable (settings) in
/-- The digits of the integer part. -/
theorem InNumber.int_part
    (h : InNumber b₁ a value s l (signFlags negative false) 0 0 0 (.integer 0)) :
    (leadingZero (l.takeWhile isDigit) = false →
      ∃ n t zero, After (body settings true) n s t ∧ n + (l.dropWhile isDigit).length = l.length ∧
        InNumber b₁ a value t (l.dropWhile isDigit) (signFlags negative zero)
          (l.takeWhile isDigit).length 0 0 (.integer (digitsValue (l.takeWhile isDigit)))) ∧
    (leadingZero (l.takeWhile isDigit) = true →
      ∃ n t e u, After (body settings true) n s t ∧ n < l.length ∧
        body settings true t = .inr (.failed e u) ∧ u.build = t.build ∧
        ∃ flags nd u', InNumber b₁ a value t (l.drop n) flags nd 0 0 u') := by
  -- from the second digit on a zero is like any other digit
  have hloop : ∀ ds {l s}, 1 ≤ ds.length → InNumber b₁ a value s l (signFlags negative false)
      ds.length 0 0 (.integer (digitsValue ds)) →
      ∃ n t, After (body settings true) n s t ∧ n + (l.dropWhile isDigit).length = l.length ∧
        (1 ≤ (ds ++ l.takeWhile isDigit).length ∧
          InNumber b₁ a value t (l.dropWhile isDigit) (signFlags negative false)
            (ds ++ l.takeWhile isDigit).length 0 0
            (.integer (digitsValue (ds ++ l.takeWhile isDigit)))) := by
    intro ds l s hlen h
    refine after_digits settings ds (P := fun ds l s => 1 ≤ ds.length ∧ InNumber b₁ a value s l
      (signFlags negative false) ds.length 0 0 (.integer (digitsValue ds))) ?_ ⟨hlen, h⟩
    intro ds c l s hc hP
    have hne : ¬ (ds.length + 1 = 1 ∧ c = 48) := fun hand => by omega
    obtain ⟨t, hbody, ht⟩ := hP.2.int_digit settings hb₁ rfl rfl rfl rfl rfl hc
      (decide_eq_false hne)
    refine ⟨t, hbody, by simp, ?_⟩
    rw [digitsValue_append, List.length_append]
    exact ht
  cases l with
  | nil =>
      exact ⟨fun _ => ⟨0, s, false, .refl s, rfl, h⟩, fun hz => by cases hz⟩
  | cons c l =>
      cases hc : isDigit c with
      | false =>
          rw [List.takeWhile_cons_of_neg (by simp [hc]), List.dropWhile_cons_of_neg (by simp [hc])]
          exact ⟨fun _ => ⟨0, s, false, .refl s, Nat.zero_add _, h⟩, fun hz => by cases hz⟩
      | true =>
          have hone : digitsValue [c] = 0 * 10 + .ofNat (c.toNat - 48) := by
            have heq := digitsValue_append [] c
            rwa [List.nil_append] at heq
          rw [List.takeWhile_cons_of_pos hc, List.dropWhile_cons_of_pos hc]
          -- a leading zero is remembered, and a digit behind it fails
          by_cases hzero : c = 48
          · obtain ⟨t, hbody, ht⟩ := h.int_digit settings hb₁ rfl rfl rfl rfl rfl hc
              (decide_eq_true ⟨rfl, hzero⟩)
            rw [← hone] at ht
            have hfollow : ∀ d l', l = d :: l' → isDigit d = true →
                ∃ e u, body settings true t = .inr (.failed e u) ∧ u.build = t.build :=
              fun d l' hl hd => ht.after_zero hb₁ hl rfl rfl rfl rfl hd
            cases l with
            | nil =>
                exact ⟨fun _ => ⟨1, t, true, .round hbody (.refl t), rfl, ht⟩, fun hz => by
                  rw [hzero] at hz
                  cases hz⟩
            | cons d l =>
                cases hd : isDigit d with
                | false =>
                    rw [List.takeWhile_cons_of_neg (by simp [hd]),
                      List.dropWhile_cons_of_neg (by simp [hd])]
                    exact ⟨fun _ => ⟨1, t, true, .round hbody (.refl t), Nat.add_comm _ _, ht⟩,
                      fun hz => by
                        rw [hzero] at hz
                        cases hz⟩
                | true =>
                    rw [List.takeWhile_cons_of_pos hd]
                    obtain ⟨e, u, hu, hbuild⟩ := hfollow d l rfl hd
                    exact ⟨fun hz => by simp [leadingZero, hzero] at hz,
                      fun _ => ⟨1, t, e, u, .round hbody (.refl t), by simp, hu, hbuild, _, _, _,
                        ht⟩⟩
          · obtain ⟨t, hbody, ht⟩ := h.int_digit settings hb₁ rfl rfl rfl rfl rfl hc
              (decide_eq_false fun hand => hzero hand.2)
            rw [← hone] at ht
            obtain ⟨n, u, hafter, hn, -, hu⟩ := hloop [c] (Nat.le_refl _) ht
            refine ⟨fun _ => ⟨n + 1, u, false, .round hbody hafter, ?_, hu⟩, fun hz => ?_⟩
            · rw [List.length_cons]
              omega
            · rw [leadingZero] at hz
              simp [hzero] at hz

omit hb₁ in
theorem InNumber.built {flags : Flags} {nd : Nat} {ne nf : Int64}
    (h : InNumber b₁ a value s l flags nd ne nf u) :
    s.build = b₁ ∨ ∃ u', s.build = b₁.setU a value u' :=
  h.build.imp And.left fun hb => ⟨_, hb⟩

end

/-- The loop is at a number in memory at `a`, whose text goes on with `l`: it comes to the end
of the number, or fails. -/
def NumberGoes (settings : JsonSettings) (b₁ : Builder) (a : Addr) (value : JsonValue) (s : Scan)
    (l : Bytes) (negative : Bool) : Option (JsonU × Bytes) → Prop
  | some (u, r) => ∃ n t, After (body settings true) n s t ∧ n + r.length = l.length ∧
      Yields settings true t r
        (eff (finish true (b₁.setU a value (if negative then u.neg else u))))
  | none => ∃ n t e u, After (body settings true) n s t ∧ n ≤ l.length ∧
      body settings true t = .inr (.failed e u) ∧
      (u.build = b₁ ∨ ∃ u', u.build = b₁.setU a value u')

theorem NumberGoes.after {n : Nat} {negative : Bool} {x : Option (JsonU × Bytes)}
    (h : After (body settings true) n s t) (hn : n + r.length = l.length)
    (h' : NumberGoes settings b₁ a value t r negative x) :
    NumberGoes settings b₁ a value s l negative x := by
  match x, h' with
  | some (u, r'), h' =>
      obtain ⟨m, t', hafter, hm, hyields⟩ := h'
      exact ⟨n + m, t', h.trans hafter, by omega, hyields⟩
  | none, h' =>
      obtain ⟨m, t', e, u, hafter, hm, hbody, hbuild⟩ := h'
      exact ⟨n + m, t', e, u, h.trans hafter, by omega, hbody, hbuild⟩

theorem NumberGoes.fails {negative : Bool} {flags : Flags} {nd : Nat} {ne nf : Int64}
    (h : InNumber b₁ a value s l flags nd ne nf u)
    (hbody : ∃ e t, body settings true s = .inr (.failed e t) ∧ t.build = s.build) :
    NumberGoes settings b₁ a value s l negative none := by
  obtain ⟨e, t, hbody, hbuild⟩ := hbody
  exact ⟨0, s, e, t, .refl s, Nat.zero_le _, hbody, by rw [hbuild]; exact h.built⟩

theorem isDigit_headD_dropWhile (l : Bytes) : isDigit ((l.dropWhile isDigit).headD 0) = false := by
  induction l with
  | nil => rfl
  | cons c l ih =>
      cases hc : isDigit c with
      | true => rwa [List.dropWhile_cons_of_pos hc]
      | false => rwa [List.dropWhile_cons_of_neg (by simp [hc])]

theorem dropWhile_of_takeWhile_nil (h : l.takeWhile isDigit = []) : l.dropWhile isDigit = l := by
  have happend := List.takeWhile_append_dropWhile (p := isDigit) (l := l)
  rwa [h, List.nil_append] at happend

section
variable {negative zero : Bool} (hb₁ : b₁.read b₁.top = .ok (a, value))
include hb₁

variable (settings) in
/-- The digits of an exponent. -/
theorem InNumber.exponent_digits {nf : Int64} {d : Dbl} {got minus : Bool}
    (h : InNumber b₁ a value s l
      { num_negative := negative, num_e := true, num_e_got_sign := got, num_e_negative := minus }
      0 0 nf (.double d))
    (hgot : l.headD 0 = 43 ∨ l.headD 0 = 45 → got = true) :
    NumberGoes settings b₁ a value s l negative
      (if l.takeWhile isDigit = [] then none
      else some (.double (d.scale (if minus
          then -digitsValue (l.takeWhile isDigit) else digitsValue (l.takeWhile isDigit))),
        l.dropWhile isDigit)) := by
  -- the first digit counts as the sign
  obtain ⟨n, t, hafter, hn, ht⟩ := after_digits settings [] (l := l) (s := s)
    (P := fun ds l s => InNumber b₁ a value s l
      { num_negative := negative, num_e := true, num_e_got_sign := got || !ds.isEmpty,
        num_e_negative := minus } ds.length (digitsValue ds) nf (.double d))
    (by
      intro ds c l s hc hP
      obtain ⟨t, hbody, ht⟩ := hP.exponent_digit settings hb₁ rfl rfl rfl rfl hc
      refine ⟨t, hbody, ?_⟩
      have hgot' : (got || !(ds ++ [c]).isEmpty) = true := by simp
      rw [digitsValue_append, List.length_append, hgot']
      exact ht)
    (by
      simp only [List.isEmpty_nil, Bool.not_true, Bool.or_false]
      exact h)
  refine .after hafter hn ?_
  rw [List.nil_append] at ht
  -- a sign behind digits ends the number
  have hsign : (l.dropWhile isDigit).headD 0 = 43 ∨ (l.dropWhile isDigit).headD 0 = 45 →
      (got || !(l.takeWhile isDigit).isEmpty) = true := by
    intro hs
    cases htake : l.takeWhile isDigit with
    | nil =>
        rw [dropWhile_of_takeWhile_nil htake] at hs
        simp [hgot hs]
    | cons c ds => simp
  split
  · rename_i hnil
    exact .fails ht (ht.exponent_fails hb₁ rfl rfl rfl (isDigit_headD_dropWhile l) hsign
      (by rw [hnil]; rfl))
  · rename_i hne
    exact ⟨0, t, .refl t, Nat.zero_add _, ht.exponent_ends hb₁ rfl rfl rfl
      (isDigit_headD_dropWhile l) hsign (by simpa using hne)⟩

/-- Behind the `e`. -/
theorem InNumber.exponent_part {nf : Int64} {d : Dbl}
    (h : InNumber b₁ a value s l { num_negative := negative, num_e := true } 0 0 nf (.double d)) :
    NumberGoes settings b₁ a value s l negative
      (if (exponentDigits l).takeWhile isDigit = [] then none
      else some (.double (d.scale (if l.head? = some 45
          then -digitsValue ((exponentDigits l).takeWhile isDigit)
          else digitsValue ((exponentDigits l).takeWhile isDigit))),
        (exponentDigits l).dropWhile isDigit)) := by
  unfold exponentDigits
  split
  -- a sign takes a round of its own
  · rename_i hsign
    cases l with
    | nil => simp at hsign
    | cons c r =>
        simp only [List.head?_cons, Option.some.injEq] at hsign ⊢
        obtain ⟨t, hbody, ht⟩ := h.sign settings hb₁ rfl rfl rfl rfl rfl hsign
        have hgoes := InNumber.exponent_digits settings hb₁ ht fun _ => rfl
        simp only [Bool.false_or, beq_iff_eq] at hgoes
        exact .after (.round hbody (.refl t)) (Nat.add_comm _ _) hgoes
  · rename_i hsign
    have hhead : ¬ (l.headD 0 = 43 ∨ l.headD 0 = 45) := by
      cases l with
      | nil => decide
      | cons c r => simpa using hsign
    have hminus : ¬ l.head? = some 45 := fun heq => hsign (.inr heq)
    have hgoes := InNumber.exponent_digits settings hb₁ h fun hs => absurd hs hhead
    simp only [hminus, if_false, Bool.false_eq_true] at hgoes ⊢
    exact hgoes

/-- Behind the integer part and the fraction. -/
theorem InNumber.tail_part {nd : Nat} {nf : Int64}
    (h : InNumber b₁ a value s l (signFlags negative zero) nd 0 nf u)
    (hu : u.type = .json_integer ∨ u.type = .json_double) (hc : isDigit (l.headD 0) = false)
    (hpoint : l.headD 0 = 46 → u.type = .json_double) (hnd : u.type = .json_double → nd ≠ 0) :
    NumberGoes settings b₁ a value s l negative (readExponent (u.withFraction nf nd) l) := by
  unfold readExponent
  split
  · rename_i he
    cases l with
    | nil => simp at he
    | cons c r =>
        simp only [List.head?_cons, Option.some.injEq] at he
        obtain ⟨t, hbody, ht⟩ := h.exponent settings hb₁ rfl hu rfl rfl hnd he
        obtain ⟨d, hd⟩ : ∃ d, (u.withFraction nf nd).toDouble = .double d := by
          cases u with
          | integer n => exact ⟨_, rfl⟩
          | double d => exact ⟨_, rfl⟩
          | _ => rcases hu with hu | hu <;> cases hu
        rw [hd] at ht ⊢
        exact .after (.round hbody (.refl t)) (Nat.add_comm _ _) (InNumber.exponent_part hb₁ ht)
  · rename_i he
    have hexp : l.headD 0 ≠ 101 ∧ l.headD 0 ≠ 69 := by
      cases l with
      | nil => decide
      | cons c r => simpa using he
    exact ⟨0, s, .refl s, Nat.zero_add _, h.ends hb₁ hu rfl rfl hc hpoint hnd hexp⟩

/-- Behind the integer part. -/
theorem InNumber.fraction_part
    (h : InNumber b₁ a value s l (signFlags negative zero) ds.length 0 0
      (.integer (digitsValue ds))) (hc : isDigit (l.headD 0) = false) :
    NumberGoes settings b₁ a value s l negative
      ((readFraction ds l).bind fun p => readExponent p.1 p.2) := by
  unfold readFraction
  dsimp only
  split
  · rename_i hpoint
    cases l with
    | nil => simp at hpoint
    | cons c r =>
        obtain rfl : c = 46 := by simpa using hpoint
        rw [List.tail_cons]
        -- there have to be digits on both sides of the point
        by_cases hds : ds = []
        · rw [if_pos (.inl hds)]
          exact .fails h (h.point_fails hb₁ rfl rfl rfl (by rw [hds]; rfl))
        · obtain ⟨t, hbody, ht⟩ := h.point settings hb₁ rfl rfl rfl
            (by simpa using hds)
          obtain ⟨n, t', hafter, hn, ht'⟩ := after_digits settings []
            (l := r) (s := t)
            (P := fun fs l s => InNumber b₁ a value s l (signFlags negative zero) fs.length 0
              (digitsValue fs) (.double (.ofInteger (digitsValue ds))))
            (by
              intro fs c l s hc hP
              obtain ⟨u, hbody, hu⟩ := hP.fraction_digit settings hb₁ rfl rfl rfl
                rfl hc
              refine ⟨u, hbody, ?_⟩
              rw [digitsValue_append, List.length_append]
              exact hu)
            ht
          rw [List.nil_append] at ht'
          refine .after (.round hbody hafter) (r := r.dropWhile isDigit) ?_ ?_
          · rw [List.length_cons]
            omega
          · by_cases hfs : r.takeWhile isDigit = []
            · rw [if_pos (.inr hfs)]
              exact .fails ht' (ht'.fraction_fails hb₁ rfl rfl rfl (isDigit_headD_dropWhile r)
                (by rw [hfs]; rfl))
            · rw [if_neg (by simp [hds, hfs])]
              exact ht'.tail_part hb₁ (.inr rfl) (isDigit_headD_dropWhile r) (fun _ => rfl)
                fun _ => by simpa using hfs
  · rename_i hpoint
    refine h.tail_part hb₁ (.inl rfl) hc (fun heq => absurd ?_ hpoint) fun hu => by cases hu
    cases l with
    | nil => cases heq
    | cons c r => simpa using heq

variable (settings) in
/-- A number behind its sign. -/
theorem InNumber.unsigned
    (h : InNumber b₁ a value s l (signFlags negative false) 0 0 0 (.integer 0)) :
    NumberGoes settings b₁ a value s l negative (readUnsigned l) := by
  unfold readUnsigned
  dsimp only
  split
  · rename_i hz
    obtain ⟨n, t, e, u, hafter, hn, hbody, hbuild, flags, nd, u', ht⟩ :=
      (h.int_part settings hb₁).2 hz
    exact ⟨n, t, e, u, hafter, Nat.le_of_lt hn, hbody, by rw [hbuild]; exact ht.built⟩
  · rename_i hz
    obtain ⟨n, t, zero, hafter, hn, ht⟩ :=
      (h.int_part settings hb₁).1 (by simpa using hz)
    exact .after hafter hn (ht.fraction_part hb₁ (isDigit_headD_dropWhile l))

end

/-- A number from its first byte on: its value and its rest, or a failure. -/
def NumberRuns (settings : JsonSettings) (b₁ : Builder) (a : Addr) (value : JsonValue) (s : Scan) :
    Option (JsonU × Bytes) → Prop
  | some (u, r) => Outcome settings true s r (eff (finish true (b₁.setU a value u)))
  | none => ∃ e t, Leads (body settings true) rounds s (.inr (.failed e t)) ∧
      (t.build = b₁ ∨ ∃ u', t.build = b₁.setU a value u')

/-- A round for its first byte, and the rounds behind it. -/
theorem NumberGoes.runs {negative : Bool} {x : Option (JsonU × Bytes)}
    (hbody : body settings true s = .inl t)
    (h : NumberGoes settings b₁ a value t l negative x) (hle : l.length ≤ s.i.length)
    (hpos : 0 < s.i.length) (hlt : ∀ u r, x = some (u, r) → r.length < s.i.length) :
    NumberRuns settings b₁ a value s
      (x.map fun p => (if negative then p.1.neg else p.1, p.2)) := by
  cases x with
  | none =>
      obtain ⟨n, t', e, u, hafter, hn, hbody', hbuild⟩ := h
      refine ⟨e, u, (After.round hbody hafter).leads hbody' ?_, hbuild⟩
      rw [left_inr, rounds]
      omega
  | some p =>
      obtain ⟨u, r⟩ := p
      obtain ⟨n, t', hafter, hn, hyields⟩ := h
      have hr := hlt u r rfl
      have hround := After.round hbody hafter
      simp only [Option.map_some, NumberRuns]
      generalize eff (finish true (b₁.setU a value (if negative then u.neg else u))) = y
        at hyields ⊢
      obtain (_ | f) | ⟨m, b'⟩ := y
      · trivial
      · obtain ⟨v, hv⟩ := hyields
        refine ⟨v, hround.leads hv ?_⟩
        rw [left_inr, rounds]
        omega
      · obtain ⟨v, hv, hat⟩ := hyields
        refine ⟨v, (hround.leads hv ?_).reaches, hat⟩
        rw [left_inl, rounds, rounds, hat.i]
        omega

/-- The first pass over a number. -/
theorem NumberRuns.of_at {c : UInt8} (h : At s (.seek false false) (c :: l) b)
    (hc : isDigit c = true ∨ c = 45)
    (hmiddle : middle settings true s =
      startNumber settings true { s with flags.seek_value := false } c)
    (hnew : newValue settings true b .json_integer = .ok b₁)
    (hb₁ : b₁.read b₁.top = .ok (a, value)) (hu : value.u = .integer 0) :
    NumberRuns settings b₁ a value s (readNumber (c :: l)) := by
  have hlt : ∀ u r, readNumber (c :: l) = some (u, r) → r.length < s.i.length := by
    intro u r hr
    rw [h.i, List.length_cons]
    exact (splitsNum_readNumber hc hr).2
  have hflags : ∀ negative, { s.flags.control with seek_value := false, num_negative := negative } =
      signFlags negative false := by
    intro negative
    rw [h.flags]
    rfl
  have hpos : 0 < s.i.length := by
    rw [h.i, List.length_cons]
    omega
  have hbuild : newValue settings true s.build .json_integer = .ok b₁ := by rw [h.build, hnew]
  -- the first digit is read again in the next round, a minus is not
  by_cases hminus : c = 45
  · subst hminus
    have hbody : body settings true s = .inl { s with
        i := l, num_digits := 0, num_e := 0, num_fraction := 0, build := b₁,
        flags := signFlags true false } := by
      rw [body, hmiddle, startNumber, hbuild, ← hflags true]
      simp only [ofOp, pure_bind, Bool.not_true, Bool.false_eq_true, if_false, throw_bind,
        outcome_throw, ne_eq, not_true_eq_false, again, h.i]
      rfl
    have hin : InNumber b₁ a value { s with
        i := l, num_digits := 0, num_e := 0, num_fraction := 0, build := b₁,
        flags := signFlags true false } l (signFlags true false) 0 0 0 (.integer 0) :=
      ⟨rfl, rfl, rfl, rfl, rfl, .inl ⟨rfl, hu.symm⟩⟩
    have hread : readNumber (45 :: l) = (readUnsigned l).map fun p => (p.1.neg, p.2) := by
      rw [readNumber, List.head?_cons, if_pos rfl, List.tail_cons]
    have hruns := (hin.unsigned settings hb₁).runs hbody
      (by rw [h.i, List.length_cons]; omega) hpos
      (fun u r hr => hlt u.neg r (by rw [hread, hr]; rfl))
    rw [hread]
    simpa using hruns
  · have hbody : body settings true s = .inl { s with
        num_digits := 0, num_e := 0, num_fraction := 0, build := b₁,
        flags := signFlags false false } := by
      have hflags' : { s.flags.control with
          seek_value := false, next := false, reproc := false } = signFlags false false := by
        rw [h.flags]
        rfl
      rw [body, hmiddle, startNumber, hbuild, ← hflags']
      simp only [ofOp, pure_bind, Bool.not_true, Bool.false_eq_true, if_false, hminus, ne_eq,
        not_false_eq_true, if_true, endSection, show s.flags.next = false from h.next, advance,
        outcome_throw]
      rfl
    have hin : InNumber b₁ a value { s with
        num_digits := 0, num_e := 0, num_fraction := 0, build := b₁,
        flags := signFlags false false } (c :: l) (signFlags false false) 0 0 0 (.integer 0) :=
      ⟨h.i, rfl, rfl, rfl, rfl, .inl ⟨rfl, hu.symm⟩⟩
    have hread : readNumber (c :: l) = readUnsigned (c :: l) := by
      rw [readNumber, List.head?_cons, if_neg (by simpa using hminus)]
    have hruns := (hin.unsigned settings hb₁).runs hbody
      (by rw [h.i]) hpos (fun u r hr => hlt u r (by rw [hread, hr]))
    rw [hread]
    simpa using hruns

end SpiderChat.JsonC
