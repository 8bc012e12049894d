import Mathlib.Algebra.Field.Rat
import SpiderChat.JsonParse

/-!
# SpiderChat.JsonStandard

Every JSON text of the standard (`Lib.Json.parse`) is read by `json.c`, and says the same
there: integers modulo 2^64, other numbers as the `double` of the same digits, and strings
with the two halves of a surrogate pair as two characters.
-/

namespace SpiderChat.JsonC

open Lib

/-! ### Strings -/

/-- A fact about a byte, by its 256 values. -/
theorem byte_cases {motive : UInt8 → Prop} (h : ∀ i : Fin 256, motive (.ofNat i)) (b : UInt8) :
    motive b := by
  have hb := h ⟨b.toNat, b.toNat_lt⟩
  rwa [UInt8.ofNat_toNat] at hb

theorem hexVal_eq (b : UInt8) :
    Json.hexVal b = if isHex b then some (hexValue b).toNat else none := by
  cases b using byte_cases with
  | h i => revert i; decide +kernel

theorem hexValue_lt (b : UInt8) : isHex b = true → (hexValue b).toNat < 16 := by
  cases b using byte_cases with
  | h i => revert i; decide +kernel

theorem escape_cases (e : UInt8) :
    Json.escape e = none ∨ Json.escape e = some (escapedChar e) ∧ e ≠ 0 ∧ e ≠ 117 := by
  cases e using byte_cases with
  | h i => revert i; decide +kernel

theorem escape_eq {e c : UInt8} (h : Json.escape e = some c) :
    escapedChar e = c ∧ e ≠ 0 ∧ e ≠ 117 := by
  rcases escape_cases e with hnone | ⟨hsome, hne⟩
  · rw [h] at hnone
    cases hnone
  · rw [h] at hsome
    exact ⟨(Option.some.inj hsome).symm, hne⟩

/-- The shifts and masks of a byte, as arithmetic. -/
theorem byte_bits (b : UInt8) :
    (0xE0 : UInt8) ||| ((b &&& 0xF0) >>> 4) = .ofNat (0xE0 + b.toNat / 16) ∧
      (b &&& 0xC0) >>> 6 = .ofNat (b.toNat / 64) ∧
      (0x80 : UInt8) ||| (b &&& 0x3F) = .ofNat (0x80 + b.toNat % 64) ∧
      (b &&& 0xF) <<< 2 = .ofNat (b.toNat % 16 * 4) ∧
      (b &&& 0x7) <<< 2 = .ofNat (b.toNat % 8 * 4) := by
  cases b using byte_cases with
  | h i => revert i; decide +kernel

/-- The first byte of three, for a code unit with the upper byte `b`. -/
theorem lead_eq (b : UInt8) :
    (0xE0 : UInt8) ||| ((b &&& 0xF0) >>> 4) = .ofNat (0xE0 + b.toNat / 16) :=
  (byte_bits b).1

theorem high_eq (b : UInt8) : (b &&& 0xC0) >>> 6 = .ofNat (b.toNat / 64) := (byte_bits b).2.1

theorem low_eq (b : UInt8) : (0x80 : UInt8) ||| (b &&& 0x3F) = .ofNat (0x80 + b.toNat % 64) :=
  (byte_bits b).2.2.1

theorem nibble_eq (b : UInt8) : (b &&& 0xF) <<< 2 = .ofNat (b.toNat % 16 * 4) :=
  (byte_bits b).2.2.2.1

theorem three_eq (b : UInt8) : (b &&& 0x7) <<< 2 = .ofNat (b.toNat % 8 * 4) :=
  (byte_bits b).2.2.2.2

theorem two_or : ∀ x < 8, ∀ y < 4,
    (0xC0 : UInt8) ||| .ofNat y ||| .ofNat (x * 4) = .ofNat (0xC0 + (x * 4 + y)) := by decide

theorem three_or : ∀ x < 16, ∀ y < 4,
    (0x80 : UInt8) ||| .ofNat (x * 4) ||| .ofNat y = .ofNat (0x80 + (x * 4 + y)) := by decide

/-- `\uXXXX` is the character of the code unit, in UTF-8. -/
theorem unicodeChars_eq (uc_b1 uc_b2 : UInt8) :
    unicodeChars uc_b1 uc_b2 = Json.utf8 (uc_b1.toNat * 256 + uc_b2.toNat) := by
  have h1 := uc_b1.toNat_lt
  have h2 := uc_b2.toNat_lt
  have hlow : (uc_b1.toNat * 256 + uc_b2.toNat) % 64 = uc_b2.toNat % 64 := by omega
  unfold unicodeChars Json.utf8
  -- one byte, two bytes or three
  by_cases hone : uc_b1.toNat * 256 + uc_b2.toNat < 0x80
  · have hzero : uc_b1.toNat = 0 := by omega
    have hb1 : uc_b1 = 0 := UInt8.toNat_inj.mp hzero
    have hb2 : uc_b2 ≤ 0x7F := UInt8.le_iff_toNat_le.mpr (by show uc_b2.toNat ≤ 127; omega)
    rw [if_pos ⟨hb1, hb2⟩, if_pos hone, hzero, Nat.zero_mul, Nat.zero_add, UInt8.ofNat_toNat]
  · have hb : ¬ (uc_b1 = 0 ∧ uc_b2 ≤ 0x7F) := by
      rintro ⟨rfl, hle⟩
      have hle := UInt8.le_iff_toNat_le.mp hle
      rw [show (0x7F : UInt8).toNat = 127 from rfl] at hle
      rw [show (0 : UInt8).toNat = 0 from rfl] at hone
      omega
    rw [if_neg hb, if_neg hone]
    by_cases htwo : uc_b1.toNat * 256 + uc_b2.toNat < 0x800
    · have hlead : (uc_b1.toNat * 256 + uc_b2.toNat) / 64 =
          uc_b1.toNat % 8 * 4 + uc_b2.toNat / 64 := by omega
      rw [if_pos (by omega), if_pos htwo, high_eq, three_eq, low_eq, hlow, hlead,
        two_or _ (by omega) _ (by omega)]
    · have hlead : (uc_b1.toNat * 256 + uc_b2.toNat) / 4096 = uc_b1.toNat / 16 := by omega
      have hmiddle : (uc_b1.toNat * 256 + uc_b2.toNat) / 64 % 64 =
          uc_b1.toNat % 16 * 4 + uc_b2.toNat / 64 := by omega
      rw [if_neg (by omega), if_neg htwo, if_pos (by omega), lead_eq, nibble_eq, high_eq, low_eq,
        hlow, hlead, hmiddle, three_or _ (by omega) _ (by omega)]

/-! ### Pieces -/

/-- The value of four hexadecimal digits, as `json.c` puts it together. -/
theorem hex4_eq {l r : Bytes} {n : Nat} (h : Json.hex4 l = some (n, r)) :
    unicodePiece l = some (some (Json.utf8 n), r) ∧ n < 0x10000 := by
  match l, h with
  | u1 :: u2 :: u3 :: u4 :: l, h =>
      simp only [Json.hex4, hexVal_eq, bind, Option.bind_eq_some_iff, Option.some.injEq,
        Prod.mk.injEq, Option.ite_none_right_eq_some] at h
      obtain ⟨_, ⟨h1, rfl⟩, _, ⟨h2, rfl⟩, _, ⟨h3, rfl⟩, _, ⟨h4, rfl⟩, rfl, rfl⟩ := h
      have hlt1 := hexValue_lt u1 h1
      have hlt2 := hexValue_lt u2 h2
      have hlt3 := hexValue_lt u3 h3
      have hlt4 := hexValue_lt u4 h4
      -- two digits make a byte, without a carry
      have hbyte : ∀ x y : UInt8, x.toNat < 16 → y.toNat < 16 →
          (x * 16 + y).toNat = x.toNat * 16 + y.toNat := by
        intro x y hx hy
        rw [UInt8.toNat_add, UInt8.toNat_mul, show (16 : UInt8).toNat = 16 from rfl]
        omega
      refine ⟨?_, by omega⟩
      simp only [unicodePiece, h1, h2, h3, h4, Bool.and_self, if_true, unicodeChars_eq,
        hbyte _ _ hlt1 hlt2, hbyte _ _ hlt3 hlt4]
      congr 4
      omega

/-- What the standard reads in a literal, and what `json.c` reads there. -/
inductive Recodes : Bytes → Bytes → Prop
  | nil : Recodes [] []
  | same (d : Bytes) {s t : Bytes} (h : Recodes s t) : Recodes (d ++ s) (d ++ t)
  /-- The halves of a surrogate pair are two characters. -/
  | pair {hi lo : Nat} (hhi : 0xD800 ≤ hi ∧ hi < 0xDC00) (hlo : 0xDC00 ≤ lo ∧ lo < 0xE000)
      {s t : Bytes} (h : Recodes s t) :
      Recodes (Json.utf8 (0x10000 + (hi - 0xD800) * 1024 + (lo - 0xDC00)) ++ s)
        (Json.utf8 hi ++ (Json.utf8 lo ++ t))

/-- A piece of a literal of the standard is a piece for `json.c`, or two. -/
theorem scans_of_piece {l d l' s r : Bytes} (h : Json.strPiece l = some (some d, l'))
    {ds : Bytes} (hrecodes : Recodes ds s) (hs : quoting.Scans l' s r) :
    ∃ t, Recodes (d ++ ds) t ∧ quoting.Scans l t r := by
  unfold Json.strPiece at h
  split at h
  · cases h
  rename_i b l
  split at h
  · cases h
  rename_i hquote
  split at h
  · rename_i hb
    subst hb
    split at h
    · cases h
    rename_i e l
    split at h
    · rename_i he
      subst he
      unfold Json.unicodePiece at h
      split at h
      · cases h
      rename_i hi l₁ hhex
      obtain ⟨hpiece, -⟩ := hex4_eq hhex
      have hread : quoting.piece (92 :: 117 :: l) = some (some (Json.utf8 hi), l₁) := hpiece
      split at h
      · rename_i hhi
        split at h
        · rename_i l₂
          split at h
          · cases h
          rename_i lo l₃ hhex'
          obtain ⟨hpiece', -⟩ := hex4_eq hhex'
          -- `json.c` reads the halves of a pair one by one
          have hread' : quoting.piece (92 :: 117 :: l₂) = some (some (Json.utf8 lo), l₃) := hpiece'
          split at h
          · rename_i hlo
            simp only [Option.some.injEq, Prod.mk.injEq] at h
            obtain ⟨rfl, rfl⟩ := h
            have hscans : quoting.Scans (92 :: 117 :: l) (Json.utf8 hi ++ (Json.utf8 lo ++ s)) r :=
              .read hread (.read hread' hs)
            exact ⟨_, .pair hhi hlo hrecodes, hscans⟩
          · cases h
        · cases h
      · split at h
        · cases h
        · cases h
          exact ⟨_, .same _ hrecodes, .read hread hs⟩
    · rename_i he
      obtain ⟨c, hc, heq⟩ := Option.map_eq_some_iff.mp h
      cases heq
      obtain ⟨rfl, h0, hu⟩ := escape_eq hc
      have hread : quoting.piece (92 :: e :: l') = some (some [escapedChar e], l') := by
        show charPiece (92 :: e :: l') = _
        simp [charPiece, h0, hu]
      exact ⟨_, .same _ hrecodes, .read hread hs⟩
  -- what the standard takes as it is `json.c` takes as it is
  · rename_i hb
    split at h
    · rename_i hge
      cases h
      have h0 : b ≠ 0 := by
        rintro rfl
        exact absurd hge (by decide)
      exact ⟨_, .same _ hrecodes, .read (charPiece_plain h0 hb hquote l') hs⟩
    · cases h

/-- A literal of the standard is read by `json.c`. -/
theorem scans_of_standard {l d r : Bytes} (h : Json.quoting.Scans l d r) :
    ∃ s, Recodes d s ∧ quoting.Scans l s r := by
  induction h with
  | close hp =>
      obtain rfl := Json.strPiece_close hp
      exact ⟨[], .nil, .close rfl⟩
  | read hp _ ih =>
      obtain ⟨s, hrecodes, hs⟩ := ih
      exact scans_of_piece hp hrecodes hs

theorem readString_of_standard {l d r : Bytes} (h : Json.string l = some (d, r)) :
    ∃ s, Recodes d s ∧ readString l = some (s, r) := by
  obtain ⟨s, hrecodes, hs⟩ := scans_of_standard (Json.string_eq_some.mp h)
  exact ⟨s, hrecodes, readString_eq_some.mpr hs⟩

/-! ### Numbers -/

/-- The number that the operations make, without rounding. -/
def Dbl.value : Dbl → ℚ
  | .ofInteger n => n.toInt
  | .addFraction d f k => d.value + f.toInt / 10 ^ k
  | .scale d e => d.value * 10 ^ e.toInt
  | .neg d => -d.value

def JsonU.number : JsonU → ℚ
  | .integer n => n.toInt
  | .double d => d.value
  | _ => 0

/-- The digits of a fraction. -/
def fractionDigits (f : Bytes) : Bytes :=
  if f.head? = some 46 then f.tail.takeWhile isDigit else []

/-- What stands behind the fraction. -/
def exponentPart (f : Bytes) : Bytes :=
  if f.head? = some 46 then f.tail.dropWhile isDigit else f

def exponentValue (g : Bytes) : Int :=
  if g.tail.head? = some 45 then -(natOf (exponentDigits g.tail) : Int)
  else natOf (exponentDigits g.tail)

/-- The digits of a number do not overflow an `int64_t`, nor those of its exponent a `long`. -/
structure ShortDigits (t : Bytes) : Prop where
  integer : natOf (t.takeWhile isDigit) < 2 ^ 63
  fraction : natOf (fractionDigits (t.dropWhile isDigit)) < 2 ^ 63
  exponent : natOf (exponentDigits (exponentPart (t.dropWhile isDigit)).tail) < 2 ^ 63

/-- The number that a text without a sign denotes. -/
def unsignedValue (t : Bytes) : ℚ :=
  let f := t.dropWhile isDigit
  (natOf (t.takeWhile isDigit) + natOf (fractionDigits f) / 10 ^ (fractionDigits f).length) *
    10 ^ exponentValue (exponentPart f)

/-- The text without its sign. -/
def unsign (t : Bytes) : Bytes := if t.head? = some 45 then t.tail else t

/-- The number that a text denotes. -/
def numberValue (t : Bytes) : ℚ :=
  if t.head? = some 45 then -unsignedValue (unsign t) else unsignedValue (unsign t)

theorem toInt_digitsValue {ds : Bytes} (h : natOf ds < 2 ^ 63) :
    (digitsValue ds).toInt = natOf ds :=
  Int64.toInt_ofNat_of_lt h

theorem toInt_neg_digitsValue {ds : Bytes} (h : natOf ds < 2 ^ 63) :
    (-digitsValue ds).toInt = -(natOf ds : Int) :=
  Int64.toInt_neg_ofNat_of_le h.le

/-- Behind a number there is no byte that could belong to it. -/
def NumEnds (r : Bytes) : Prop := ∀ b, r.head? = some b → Json.isNumChar b = false

section
variable {r : Bytes} (hr : NumEnds r)
include hr

theorem NumEnds.head {b : UInt8} (hb : Json.isNumChar b = true) : r.head? ≠ some b := by
  intro h
  rw [hr b h] at hb
  cases hb

theorem NumEnds.takeWhile_append (x : Bytes) :
    (x ++ r).takeWhile isDigit = x.takeWhile isDigit := by
  induction x with
  | nil =>
      cases r with
      | nil => rfl
      | cons b r =>
          have hb : isDigit b = false := by
            have := hr b rfl
            simp only [Json.isNumChar, Bool.or_eq_false_iff] at this
            exact this.1.1.1.1.1
          simp [hb]
  | cons b x ih => rw [List.cons_append, List.takeWhile_cons, ih, List.takeWhile_cons]

theorem NumEnds.dropWhile_append (x : Bytes) :
    (x ++ r).dropWhile isDigit = x.dropWhile isDigit ++ r := by
  have htake := hr.takeWhile_append x
  have heq : (x ++ r).takeWhile isDigit ++ (x ++ r).dropWhile isDigit =
      x.takeWhile isDigit ++ (x.dropWhile isDigit ++ r) := by
    rw [List.takeWhile_append_dropWhile, ← List.append_assoc, List.takeWhile_append_dropWhile]
  rw [htake] at heq
  exact List.append_cancel_left heq

/-- An exponent of the standard. -/
theorem NumEnds.readExponent {u : JsonU} {g : Bytes} (hg : Json.isExponent g = true) :
    (g = [] ∧ readExponent u (g ++ r) = some (u, r)) ∨
      (g ≠ [] ∧ ∃ e : Int64, readExponent u (g ++ r) = some (u.toDouble.scale e, r) ∧
        (natOf (exponentDigits g.tail) < 2 ^ 63 → e.toInt = exponentValue g)) := by
  cases g with
  | nil =>
      refine .inl ⟨rfl, ?_⟩
      rw [List.nil_append, JsonC.readExponent, if_neg]
      rintro (h | h)
      · exact hr.head (by decide) h
      · exact hr.head (by decide) h
  | cons e t =>
      refine .inr ⟨List.cons_ne_nil _ _, ?_⟩
      simp only [Json.isExponent, Bool.and_eq_true, Bool.or_eq_true, beq_iff_eq,
        Bool.not_eq_true', List.isEmpty_eq_false_iff] at hg
      obtain ⟨⟨he, hne⟩, hall⟩ := hg
      have hhead : (t ++ r).head? = t.head? := by
        cases t with
        | nil => simp at hne
        | cons b t => rfl
      have hdigits : exponentDigits (t ++ r) = exponentDigits t ++ r := by
        unfold exponentDigits
        rw [hhead]
        cases t with
        | nil => simp at hne
        | cons b t =>
            split
            · rfl
            · rfl
      have htake : (exponentDigits t).takeWhile isDigit = exponentDigits t :=
        List.takeWhile_eq_self_iff.mpr fun b hb => List.all_eq_true.mp hall b hb
      have hdrop : (exponentDigits t).dropWhile isDigit = [] :=
        List.dropWhile_eq_nil_iff.mpr fun b hb => List.all_eq_true.mp hall b hb
      have he' : (e :: t ++ r).head? = some 101 ∨ (e :: t ++ r).head? = some 69 := by
        rcases he with rfl | rfl
        · exact .inr rfl
        · exact .inl rfl
      rw [JsonC.readExponent, if_pos he', List.cons_append, List.tail_cons, hdigits,
        hr.takeWhile_append, hr.dropWhile_append, htake, hdrop, List.nil_append, hhead]
      have hsome : exponentDigits t ≠ [] := hne
      dsimp only
      rw [if_neg hsome]
      refine ⟨_, rfl, fun hshort => ?_⟩
      rw [List.tail_cons] at hshort
      rw [exponentValue, List.tail_cons]
      split
      · exact toInt_neg_digitsValue hshort
      · exact toInt_digitsValue hshort

/-- A fraction of the standard. -/
theorem NumEnds.readFraction {ds f : Bytes} (hds : ds ≠ []) (hf : Json.isFraction f = true) :
    readFraction ds (f ++ r) = some (if f.head? = some 46 then
        (JsonU.integer (digitsValue ds)).toDouble.withFraction (digitsValue (fractionDigits f))
          (fractionDigits f).length
      else .integer (digitsValue ds), exponentPart f ++ r) ∧
      Json.isExponent (exponentPart f) = true := by
  unfold fractionDigits exponentPart
  by_cases hpoint : f.head? = some 46
  · obtain ⟨t, rfl⟩ : ∃ t, f = 46 :: t := by
      cases f with
      | nil => cases hpoint
      | cons b t => exact ⟨t, by rw [Option.some.inj hpoint]⟩
    simp only [Json.isFraction, Bool.and_eq_true, Bool.not_eq_true',
      List.isEmpty_eq_false_iff] at hf
    simp only [if_pos hpoint, List.tail_cons]
    refine ⟨?_, hf.2⟩
    have hhead : (46 :: t ++ r).head? = some 46 := rfl
    rw [JsonC.readFraction, if_pos hhead, List.cons_append, List.tail_cons, hr.takeWhile_append,
      hr.dropWhile_append]
    dsimp only
    rw [if_neg (not_or.mpr ⟨hds, hf.1⟩)]
  · simp only [if_neg hpoint]
    have hhead : (f ++ r).head? ≠ some 46 := by
      cases f with
      | nil => exact hr.head (by decide)
      | cons b t => exact hpoint
    refine ⟨by rw [JsonC.readFraction, if_neg hhead], ?_⟩
    unfold Json.isFraction at hf
    split at hf
    · exact absurd rfl hpoint
    · exact hf

/-- A number of the standard without its sign; `f` is what stands behind its integer part. -/
theorem NumEnds.readUnsigned {t : Bytes} (hnat : Json.isNat (t.takeWhile isDigit) = true)
    (hf : Json.isFraction (t.dropWhile isDigit) = true) :
    ∃ u, readUnsigned (t ++ r) = some (u, r) ∧
      (if t.dropWhile isDigit = [] then u = .integer (digitsValue (t.takeWhile isDigit))
      else ∃ d, u = .double d ∧ (ShortDigits t → d.value = unsignedValue t)) := by
  obtain ⟨hne, hlead⟩ : t.takeWhile isDigit ≠ [] ∧ leadingZero (t.takeWhile isDigit) = false := by
    simp only [Json.isNat, Bool.and_eq_true, Bool.not_eq_true', List.isEmpty_eq_false_iff] at hnat
    refine ⟨hnat.1.1, ?_⟩
    rw [leadingZero]
    rcases (Bool.or_eq_true _ _).mp hnat.2 with h | h
    · simp only [beq_iff_eq] at h
      simp [h]
    · simp only [bne_iff_ne, ne_eq] at h
      simp [h]
  obtain ⟨hfraction, hexponent⟩ := hr.readFraction hne hf
  simp only [JsonC.readUnsigned, hr.takeWhile_append, hr.dropWhile_append, hlead,
    Bool.false_eq_true, if_false, hfraction, Option.bind_some]
  -- with a fraction, or with an exponent alone
  by_cases hpoint : (t.dropWhile isDigit).head? = some 46
  · have hsome : t.dropWhile isDigit ≠ [] := by
      intro hnil
      rw [hnil] at hpoint
      cases hpoint
    have hvalue : ShortDigits t → (Dbl.addFraction (.ofInteger (digitsValue (t.takeWhile isDigit)))
        (digitsValue (fractionDigits (t.dropWhile isDigit)))
        (fractionDigits (t.dropWhile isDigit)).length).value *
          10 ^ exponentValue (exponentPart (t.dropWhile isDigit)) = unsignedValue t := by
      intro hshort
      rw [Dbl.value, Dbl.value, toInt_digitsValue hshort.integer,
        toInt_digitsValue hshort.fraction]
      rfl
    simp only [if_neg hsome, if_pos hpoint]
    rcases hr.readExponent hexponent with ⟨hnil, hread⟩ | ⟨-, e, hread, he⟩
    · refine ⟨_, hread, _, rfl, fun hshort => ?_⟩
      rw [← hvalue hshort, hnil]
      exact (mul_one _).symm
    · refine ⟨_, hread, _, rfl, fun hshort => ?_⟩
      rw [Dbl.value, he hshort.exponent, hvalue hshort]
  · have hpart : exponentPart (t.dropWhile isDigit) = t.dropWhile isDigit := if_neg hpoint
    rw [if_neg hpoint]
    rw [hpart] at hexponent ⊢
    rcases hr.readExponent hexponent with ⟨hnil, hread⟩ | ⟨hsome, e, hread, he⟩
    · exact ⟨_, hread, by rw [if_pos hnil]⟩
    · refine ⟨_, hread, ?_⟩
      rw [if_neg hsome]
      refine ⟨_, rfl, fun hshort => ?_⟩
      have hdigits : fractionDigits (t.dropWhile isDigit) = [] := if_neg hpoint
      have hexp := hshort.exponent
      rw [hpart] at hexp
      rw [Dbl.value, Dbl.value, toInt_digitsValue hshort.integer, he hexp]
      simp only [unsignedValue, hdigits, hpart]
      simp [natOf]

end

/-! ### Values -/

mutual

/-- A value of `json.c` says what a value of the standard says. -/
def Value.Says : Value → Json → Prop
  | .object ms, .obj js => membersSay ms js
  | .array xs, .arr js => elemsSay xs js
  | .integer n, .int i => n = .ofInt i
  | .double d, .num t => ShortDigits (unsign t) → d.value = numberValue t
  | .string s, .str t => Recodes t s
  | .boolean a, .bool b => a = b
  | .null, .null => True
  | _, _ => False

def elemsSay : List Value → List Json → Prop
  | [], [] => True
  | x :: xs, j :: js => x.Says j ∧ elemsSay xs js
  | _, _ => False

def membersSay : List (Bytes × Value) → List (Bytes × Json) → Prop
  | [], [] => True
  | (k, x) :: ms, (k', j) :: js => Recodes k' k ∧ x.Says j ∧ membersSay ms js
  | _, _ => False

end

/-- A number of the standard. -/
theorem NumEnds.readNumber {tok r : Bytes} {j : Json} (hr : NumEnds r)
    (h : Json.number tok = some j) :
    (∃ b t, tok = b :: t ∧ (isDigit b = true ∨ b = 45)) ∧
      ∃ u, readNumber (tok ++ r) = some (u, r) ∧ u.toValue.Says j := by
  have hdigits : ∀ {ds : Bytes}, Json.isNat ds = true →
      ds.takeWhile isDigit = ds ∧ ds.dropWhile isDigit = [] := by
    intro ds hds
    simp only [Json.isNat, Bool.and_eq_true, List.all_eq_true] at hds
    exact ⟨List.takeWhile_eq_self_iff.mpr hds.1.2, List.dropWhile_eq_nil_iff.mpr hds.1.2⟩
  have hnat : ∀ {ds : Bytes}, Json.isNat ds = true →
      JsonC.readUnsigned (ds ++ r) = some (.integer (digitsValue ds), r) := by
    intro ds hds
    obtain ⟨htake, hdrop⟩ := hdigits hds
    obtain ⟨u, hu, hval⟩ := hr.readUnsigned (t := ds) (by rw [htake, hds]) (by rw [hdrop]; rfl)
    rw [if_pos hdrop, htake] at hval
    rw [hu, hval]
  have hdouble : ∀ {t : Bytes}, ¬ Json.isNat t = true →
      (Json.isNat (t.takeWhile isDigit) && Json.isFraction (t.dropWhile isDigit)) = true →
      ∃ d, JsonC.readUnsigned (t ++ r) = some (.double d, r) ∧
        (ShortDigits t → d.value = unsignedValue t) := by
    intro t hint hboth
    obtain ⟨htake, hdrop⟩ := Bool.and_eq_true_iff.mp hboth
    obtain ⟨u, hu, hval⟩ := hr.readUnsigned htake hdrop
    have hsome : t.dropWhile isDigit ≠ [] := by
      intro hnil
      have heq := List.takeWhile_append_dropWhile (p := isDigit) (l := t)
      rw [hnil, List.append_nil] at heq
      exact hint (heq ▸ htake)
    rw [if_neg hsome] at hval
    obtain ⟨d, rfl, hd⟩ := hval
    exact ⟨d, hu, hd⟩
  cases tok with
  | nil => cases h
  | cons b t =>
      have hfirst : Json.isNat ((b :: t).takeWhile isDigit) = true → isDigit b = true := by
        intro hnat
        by_contra hb
        rw [List.takeWhile_cons_of_neg hb] at hnat
        cases hnat
      unfold Json.number at h
      -- a minus in front of either form
      by_cases hb : b = 45
      · subst hb
        refine ⟨⟨_, _, rfl, .inr rfl⟩, ?_⟩
        have hhead : (45 :: t ++ r).head? = some 45 := rfl
        rw [JsonC.readNumber, if_pos hhead, List.cons_append, List.tail_cons]
        by_cases hint : Json.isNat t = true
        · rw [Json.intOf, if_pos rfl, if_pos hint] at h
          cases h
          rw [hnat hint]
          refine ⟨_, rfl, ?_⟩
          simp [JsonU.neg, JsonU.toValue, Value.Says, digitsValue, Int64.ofInt_eq_ofNat]
        · rw [Json.intOf, if_pos rfl, if_neg hint] at h
          simp only [List.head?_cons, if_pos, List.tail_cons] at h
          split at h
          · rename_i hboth
            cases h
            obtain ⟨d, hread, hd⟩ := hdouble hint hboth
            rw [hread]
            refine ⟨_, rfl, fun hshort => ?_⟩
            have hd := hd hshort
            rw [Dbl.value, hd]
            rfl
          · cases h
      · have hhead : (b :: t).head? ≠ some 45 := fun heq => hb (Option.some.inj heq)
        have hsign : unsign (b :: t) = b :: t := if_neg hhead
        rw [JsonC.readNumber, if_neg (show (b :: t ++ r).head? ≠ some 45 from hhead)]
        by_cases hint : Json.isNat (b :: t) = true
        · rw [Json.intOf, if_neg hb, if_pos hint] at h
          cases h
          have hdigit := hfirst (by rw [(hdigits hint).1, hint])
          refine ⟨⟨_, _, rfl, .inl hdigit⟩, _, hnat hint, ?_⟩
          simp [JsonU.toValue, Value.Says, digitsValue, Int64.ofInt_eq_ofNat]
        · rw [Json.intOf, if_neg hb, if_neg hint] at h
          simp only [if_neg hhead] at h
          split at h
          · rename_i hboth
            cases h
            obtain ⟨d, hread, hd⟩ := hdouble hint hboth
            refine ⟨⟨_, _, rfl, .inl (hfirst (Bool.and_eq_true_iff.mp hboth).1)⟩, _, hread,
              fun hshort => ?_⟩
            rw [hsign] at hshort
            rw [hd hshort, numberValue, if_neg hhead, hsign]
          · cases h

theorem dropWhile_of_eat {b : UInt8} {l r : Bytes} (h : Json.eat b l = some r) :
    l.dropWhile Json.isWs = b :: r := by
  unfold Json.eat at h
  split at h
  · cases h
  · rename_i c r' hl
    split at h
    · rename_i hc
      rw [hl, hc, Option.some.inj h]
    · cases h

theorem dropWhile_idem (l : Bytes) :
    (l.dropWhile Json.isWs).dropWhile Json.isWs = l.dropWhile Json.isWs := by
  induction l with
  | nil => rfl
  | cons b l ih =>
      by_cases hb : Json.isWs b = true
      · rw [List.dropWhile_cons_of_pos hb, ih]
      · rw [List.dropWhile_cons_of_neg hb, List.dropWhile_cons_of_neg hb]

theorem readValue_dropWhile (n : Nat) (l : Bytes) :
    readValue n (l.dropWhile Json.isWs) = readValue n l := by
  cases n with
  | zero => rfl
  | succ n => rw [readValue, readValue, dropWhile_idem]

theorem letters_eq {l w : Bytes} (h : l.takeWhile Json.isLetter = w) :
    l = w ++ l.dropWhile Json.isLetter := by
  rw [← h, List.takeWhile_append_dropWhile]

theorem readWord_append (w r : Bytes) : readWord w (w ++ r) = some r := by
  rw [readWord, if_pos (List.prefix_append w r), List.drop_left]

/-- A value of the standard that is no string, array or object. -/
theorem readValue_of_atom {l r : Bytes} {j : Json} (hws : l.dropWhile Json.isWs = l)
    (h : Json.atom l = some (j, r)) :
    ∃ v : Value, v.Says j ∧ ∀ m, readValue (m + 1) l = some (v, r) := by
  simp only [Json.atom] at h
  split at h
  · rename_i hw
    cases h
    have hl := letters_eq hw
    generalize l.dropWhile Json.isLetter = r at hl ⊢
    refine ⟨.null, trivial, fun m => ?_⟩
    rw [readValue, hws, hl]
    exact congrArg (Option.map fun r => (Value.null, r)) (readWord_append (ascii "ull") r)
  split at h
  · rename_i hw
    cases h
    have hl := letters_eq hw
    generalize l.dropWhile Json.isLetter = r at hl ⊢
    refine ⟨.boolean true, rfl, fun m => ?_⟩
    rw [readValue, hws, hl]
    exact congrArg (Option.map fun r => (Value.boolean true, r)) (readWord_append (ascii "rue") r)
  split at h
  · rename_i hw
    cases h
    have hl := letters_eq hw
    generalize l.dropWhile Json.isLetter = r at hl ⊢
    refine ⟨.boolean false, rfl, fun m => ?_⟩
    rw [readValue, hws, hl]
    exact congrArg (Option.map fun r => (Value.boolean false, r)) (readWord_append (ascii "alse") r)
  split at h
  · obtain ⟨j', hnumber, heq⟩ := Option.map_eq_some_iff.mp h
    cases heq
    have hends : NumEnds (l.dropWhile Json.isNumChar) := by
      intro b hb
      have := List.head?_dropWhile_not Json.isNumChar l
      rw [hb] at this
      simpa using this
    obtain ⟨⟨b, t, htok, hb⟩, u, hread, hsaid⟩ := hends.readNumber hnumber
    rw [List.takeWhile_append_dropWhile] at hread
    have hl : l = b :: (t ++ l.dropWhile Json.isNumChar) := by
      rw [← List.cons_append, ← htok, List.takeWhile_append_dropWhile]
    refine ⟨u.toValue, hsaid, fun m => ?_⟩
    have hne : ∀ c, isDigit c = false → c ≠ 45 → b ≠ c := by
      rintro c hc h45 rfl
      rcases hb with hb | hb
      · rw [hc] at hb
        cases hb
      · exact h45 hb
    rw [readValue, hws]
    generalize l.dropWhile Json.isNumChar = rest at hl hread ⊢
    subst hl
    simp only [if_neg (hne 123 (by decide) (by decide)), if_neg (hne 91 (by decide) (by decide)),
      if_neg (hne 34 (by decide) (by decide)), if_neg (hne 116 (by decide) (by decide)),
      if_neg (hne 102 (by decide) (by decide)), if_neg (hne 110 (by decide) (by decide)),
      if_pos hb, hread, Option.map_some]
  · cases h

/-- What the standard's reader reads with the fuel `n`, `json.c` reads. -/
def ValueStandard (n : Nat) : Prop :=
  ∀ l j r, Json.value n l = some (j, r) → ∃ v : Value, v.Says j ∧
    ∀ m, 2 * l.length + 1 ≤ m → readValue m l = some (v, r)

def MembersStandard (n : Nat) : Prop :=
  ∀ l js r, Json.members n l = some (js, r) → ∃ ms, membersSay ms js ∧
    ∀ m, 2 * l.length + 2 ≤ m → readMembers m false l = some (ms, r)

def ElemsStandard (n : Nat) : Prop :=
  ∀ l js r, Json.elems n l = some (js, r) → ∃ xs, elemsSay xs js ∧
    ∀ m, 2 * l.length + 2 ≤ m → readElems m false l = some (xs, r)

theorem length_of_dropWhile {b : UInt8} {l r : Bytes} (h : l.dropWhile Json.isWs = b :: r) :
    r.length + 1 ≤ l.length := by
  have hle := (List.dropWhile_suffix Json.isWs (l := l)).length_le
  rwa [h] at hle

theorem readElems_close {l r : Bytes} {comma : Bool} {m : Nat} (h : Json.eat 93 l = some r)
    (hm : 0 < m) : readElems m comma l = some ([], r) := by
  obtain ⟨m, rfl⟩ : ∃ k, m = k + 1 := ⟨m - 1, by omega⟩
  rw [readElems, dropWhile_of_eat h]
  rfl

theorem readMembers_close {l r : Bytes} {comma : Bool} {m : Nat} (h : Json.eat 125 l = some r)
    (hm : 0 < m) : readMembers m comma l = some ([], r) := by
  obtain ⟨m, rfl⟩ : ∃ k, m = k + 1 := ⟨m - 1, by omega⟩
  rw [readMembers, dropWhile_of_eat h]
  rfl

theorem readElems_comma {l r : Bytes} (m : Nat) (h : Json.eat 44 l = some r) :
    readElems (m + 1) true l = readElems m false r := by
  rw [readElems, dropWhile_of_eat h]
  rfl

theorem readMembers_comma {l r : Bytes} (m : Nat) (h : Json.eat 44 l = some r) :
    readMembers (m + 1) true l = readMembers m false r := by
  rw [readMembers, dropWhile_of_eat h]
  rfl

theorem valueStandard_succ {n : Nat} (hmembers : MembersStandard n) (helems : ElemsStandard n) :
    ValueStandard (n + 1) := by
  intro l j r h
  rw [Json.value] at h
  split at h
  · cases h
  rename_i b l' hl
  have hlen := length_of_dropWhile hl
  -- the fuel and the white space are the same for every form of a value
  have hread : ∀ {v : Value}, (∀ m, 2 * l.length ≤ m → readValue (m + 1) (b :: l') = some (v, r)) →
      ∀ m, 2 * l.length + 1 ≤ m → readValue m l = some (v, r) := by
    intro v hv m hm
    obtain ⟨m, rfl⟩ : ∃ k, m = k + 1 := ⟨m - 1, by omega⟩
    rw [← readValue_dropWhile, hl]
    exact hv m (by omega)
  have hws : (b :: l').dropWhile Json.isWs = b :: l' := by rw [← hl, dropWhile_idem]
  split at h
  · rename_i hb
    subst hb
    obtain ⟨⟨d, r'⟩, hd, heq⟩ := Option.map_eq_some_iff.mp h
    cases heq
    obtain ⟨s, hrecodes, hs⟩ := readString_of_standard hd
    refine ⟨.string s, hrecodes, hread fun m _ => ?_⟩
    rw [readValue, hws]
    simp [hs]
  split at h
  · rename_i hb
    subst hb
    split at h
    · rename_i r' heat
      cases h
      refine ⟨.object [], trivial, hread fun m hm => ?_⟩
      rw [readValue, hws]
      simp [readMembers_close heat (show 0 < m by omega)]
    · obtain ⟨⟨js, r'⟩, hjs, heq⟩ := Option.map_eq_some_iff.mp h
      cases heq
      obtain ⟨ms, hsay, hms⟩ := hmembers l' js _ hjs
      refine ⟨.object ms, hsay, hread fun m hm => ?_⟩
      rw [readValue, hws]
      simp [hms m (by omega)]
  split at h
  · rename_i hb
    subst hb
    split at h
    · rename_i r' heat
      cases h
      refine ⟨.array [], trivial, hread fun m hm => ?_⟩
      rw [readValue, hws]
      simp [readElems_close heat (show 0 < m by omega)]
    · obtain ⟨⟨js, r'⟩, hjs, heq⟩ := Option.map_eq_some_iff.mp h
      cases heq
      obtain ⟨xs, hsay, hxs⟩ := helems l' js _ hjs
      refine ⟨.array xs, hsay, hread fun m hm => ?_⟩
      rw [readValue, hws]
      simp [hxs m (by omega)]
  · obtain ⟨v, hsaid, hv⟩ := readValue_of_atom hws h
    exact ⟨v, hsaid, hread fun m _ => hv m⟩

/-- No value starts with a bracket that closes an array. -/
theorem readValue_head {l r : Bytes} {v : Value} {m : Nat} (h : readValue m l = some (v, r)) :
    ∃ b l', l.dropWhile Json.isWs = b :: l' ∧ b ≠ 93 := by
  cases m with
  | zero => cases h
  | succ m =>
      rw [readValue] at h
      split at h
      · cases h
      · rename_i b l' hl
        refine ⟨b, l', hl, ?_⟩
        rintro rfl
        cases h

theorem elemsStandard_succ {n : Nat} (hvalue : ValueStandard n) (helems : ElemsStandard n) :
    ElemsStandard (n + 1) := by
  intro l js r h
  rw [Json.elems] at h
  simp only [bind, Option.bind_eq_some_iff] at h
  obtain ⟨⟨j, r₁⟩, hj, h⟩ := h
  obtain ⟨x, hsaid, hx⟩ := hvalue l j r₁ hj
  have hlen := ((Json.suffix_of_read n).1 hj).length_le
  obtain ⟨b, l', hl, hb⟩ := readValue_head (hx _ (Nat.le_refl _))
  have hread : ∀ {xs : List Value}, (∀ m, 2 * l.length + 1 ≤ m →
      readElems m true r₁ = some (xs, r)) →
      ∀ m, 2 * l.length + 2 ≤ m → readElems m false l = some (x :: xs, r) := by
    intro xs hxs m hm
    obtain ⟨m, rfl⟩ : ∃ k, m = k + 1 := ⟨m - 1, by omega⟩
    have hx := hx m (by omega)
    rw [← readValue_dropWhile, hl] at hx
    rw [readElems, hl]
    simp [if_neg hb, hx, hxs m (by omega)]
  -- another element behind a comma, or the end
  split at h
  · rename_i r₂ hcomma
    simp only [Option.bind_eq_some_iff, Option.some.injEq] at h
    obtain ⟨⟨js', r₃⟩, hjs, heq⟩ := h
    cases heq
    obtain ⟨xs, hsay, hxs⟩ := helems r₂ js' _ hjs
    have hlt : r₂.length + 1 ≤ r₁.length := (Json.eat_suffix hcomma).length_le
    refine ⟨x :: xs, ⟨hsaid, hsay⟩, hread fun m hm => ?_⟩
    obtain ⟨m, rfl⟩ : ∃ k, m = k + 1 := ⟨m - 1, by omega⟩
    rw [readElems_comma m hcomma]
    exact hxs m (by omega)
  · simp only [Option.bind_eq_some_iff, Option.some.injEq] at h
    obtain ⟨r₂, hclose, heq⟩ := h
    cases heq
    exact ⟨[x], ⟨hsaid, trivial⟩, hread fun m hm => readElems_close hclose (by omega)⟩

theorem membersStandard_succ {n : Nat} (hvalue : ValueStandard n)
    (hmembers : MembersStandard n) : MembersStandard (n + 1) := by
  intro l js r h
  rw [Json.members] at h
  simp only [bind, Option.bind_eq_some_iff] at h
  obtain ⟨r₁, hquote, ⟨k, r₂⟩, hk, r₃, hcolon, ⟨j, r₄⟩, hj, h⟩ := h
  obtain ⟨s, hrecodes, hs⟩ := readString_of_standard hk
  obtain ⟨x, hsaid, hx⟩ := hvalue r₃ j r₄ hj
  have hl := dropWhile_of_eat hquote
  have hlen₁ : r₁.length + 1 ≤ l.length := (Json.eat_suffix hquote).length_le
  have hlen₂ : r₂.length + 1 ≤ r₁.length := (Json.string_suffix hk).length_le
  have hlen₃ : r₃.length + 1 ≤ r₂.length := (Json.eat_suffix hcolon).length_le
  have hlen₄ : r₄.length ≤ r₃.length := ((Json.suffix_of_read n).1 hj).length_le
  have hcolon : Json.eat 58 r₂ = some r₃ := hcolon
  have hread : ∀ {ms : List (Bytes × Value)}, (∀ m, 2 * l.length + 1 ≤ m →
      readMembers m true r₄ = some (ms, r)) →
      ∀ m, 2 * l.length + 2 ≤ m → readMembers m false l = some ((s, x) :: ms, r) := by
    intro ms hms m hm
    obtain ⟨m, rfl⟩ : ∃ k, m = k + 1 := ⟨m - 1, by omega⟩
    rw [readMembers, hl]
    simp [hs, hcolon, hx m (by omega), hms m (by omega)]
  -- another member behind a comma, or the end
  split at h
  · rename_i r₅ hcomma
    simp only [Option.bind_eq_some_iff, Option.some.injEq] at h
    obtain ⟨⟨js', r₆⟩, hjs, heq⟩ := h
    cases heq
    obtain ⟨ms, hsay, hms⟩ := hmembers r₅ js' _ hjs
    have hlt : r₅.length + 1 ≤ r₄.length := (Json.eat_suffix hcomma).length_le
    refine ⟨(s, x) :: ms, ⟨hrecodes, hsaid, hsay⟩, hread fun m hm => ?_⟩
    obtain ⟨m, rfl⟩ : ∃ k, m = k + 1 := ⟨m - 1, by omega⟩
    rw [readMembers_comma m hcomma]
    exact hms m (by omega)
  · simp only [Option.bind_eq_some_iff, Option.some.injEq] at h
    obtain ⟨r₅, hclose, heq⟩ := h
    cases heq
    exact ⟨[(s, x)], ⟨hrecodes, hsaid, trivial⟩,
      hread fun m hm => readMembers_close hclose (by omega)⟩

/-- **Texts of the standard**, by the fuel of their reader. -/
theorem read_of_standard (n : Nat) : ValueStandard n ∧ MembersStandard n ∧ ElemsStandard n := by
  induction n with
  | zero =>
      refine ⟨?_, ?_, ?_⟩ <;> (intro l j r h; cases h)
  | succ n ih =>
      obtain ⟨hvalue, hmembers, helems⟩ := ih
      exact ⟨valueStandard_succ hmembers helems, membersStandard_succ hvalue hmembers,
        elemsStandard_succ hvalue helems⟩

/-- **Every text of the standard** is read by `json.c`, which says the same. -/
theorem readText_of_standard {l : Bytes} {j : Json} (h : Json.parse l = some j) :
    ∃ v : Value, v.Says j ∧ readText l = some v := by
  unfold Json.parse at h
  split at h
  · rename_i j' r hvalue
    split at h
    · rename_i hall
      obtain rfl := Option.some.inj h
      obtain ⟨v, hsaid, hv⟩ := (read_of_standard _).1 l j' r hvalue
      refine ⟨v, hsaid, ?_⟩
      have hend : isEnd r = true := by
        have hnil : r.dropWhile Json.isWs = [] :=
          List.dropWhile_eq_nil_iff.mpr fun b hb => List.all_eq_true.mp hall b hb
        rw [isEnd, hnil]
      rw [readText, hv _ (Nat.le_refl _)]
      exact if_pos hend
    · cases h
  · cases h

end SpiderChat.JsonC
