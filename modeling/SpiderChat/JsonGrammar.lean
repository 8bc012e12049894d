import SpiderChat.JsonLoop

/-!
# SpiderChat.JsonGrammar

The language that `json.c` reads, apart from how it reads it: a recursive descent
over the text that returns a value and the rest of the text. It is wider than JSON:
a comma may stand behind the last element, a number may have no digits, a string
may hold any byte but zero, and a zero byte ends the text.
-/

namespace SpiderChat.JsonC

open Lib

/-- What a text says. -/
inductive Value
  | object (members : List (Bytes × Value))
  | array (elems : List Value)
  | integer (n : Int64)
  | double (d : Dbl)
  | string (s : Bytes)
  | boolean (b : Bool)
  | null

mutual

/-- The least number of bytes that a text of the value has. -/
def Value.weight : Value → Nat
  | .object ms => weightMembers ms + 1
  | .array xs => weightElems xs + 1
  | .string s => s.length + 1
  | _ => 1

def weightElems : List Value → Nat
  | [] => 0
  | x :: xs => x.weight + weightElems xs

def weightMembers : List (Bytes × Value) → Nat
  | [] => 0
  | (k, x) :: ms => k.length + 1 + x.weight + weightMembers ms

end

theorem weight_pos (v : Value) : 0 < v.weight := by
  cases v <;> simp [Value.weight]

/-! ### Strings -/

def isHex (b : UInt8) : Bool := hexValue b != 0xFF

/-- The four bytes behind `\u`. -/
def unicodePiece : Bytes → Option (Option Bytes × Bytes)
  | u1 :: u2 :: u3 :: u4 :: r =>
      if isHex u1 && isHex u2 && isHex u3 && isHex u4 then
        some (some (unicodeChars (hexValue u1 * 16 + hexValue u2)
          (hexValue u3 * 16 + hexValue u4)), r)
      else none
  | _ => none

/-- One piece of a string. -/
def charPiece : Bytes → Option (Option Bytes × Bytes)
  | [] => none
  | b :: r =>
      if b = 0 then none
      else if b = 92 then
        match r with
        | [] => none
        | e :: r =>
            if e = 0 then none
            else if e = 117 then unicodePiece r
            else some (some [escapedChar e], r)
      else if b = 34 then some (none, r)
      else some (some [b], r)

/-- The strings of `json.c`. -/
def quoting : Quoting where
  quote := 34
  isEsc b := b == 92
  piece := charPiece

theorem length_unicodeChars_le (uc_b1 uc_b2 : UInt8) : (unicodeChars uc_b1 uc_b2).length ≤ 3 := by
  unfold unicodeChars
  split
  · simp
  · split <;> simp

theorem charPiece_inv {l d r : Bytes} (h : charPiece l = some (some d, r)) :
    (∃ c, l = c :: r ∧ d = [c] ∧ c ≠ 0 ∧ c ≠ 92 ∧ c ≠ 34) ∨
    (∃ e, l = 92 :: e :: r ∧ d = [escapedChar e] ∧ e ≠ 0 ∧ e ≠ 117) ∨
    ∃ u1 u2 u3 u4, l = 92 :: 117 :: u1 :: u2 :: u3 :: u4 :: r ∧
      (isHex u1 = true ∧ isHex u2 = true ∧ isHex u3 = true ∧ isHex u4 = true) ∧
      d = unicodeChars (hexValue u1 * 16 + hexValue u2) (hexValue u3 * 16 + hexValue u4) := by
  unfold charPiece at h
  split at h
  · cases h
  split at h
  · cases h
  rename_i c r' h0
  split at h
  -- behind a backslash
  · rename_i hc
    subst hc
    split at h
    · cases h
    split at h
    · cases h
    rename_i e r' he
    split at h
    · rename_i hu
      subst hu
      unfold unicodePiece at h
      split at h
      · split at h
        · rename_i hhex
          cases h
          simp only [Bool.and_eq_true] at hhex
          obtain ⟨⟨⟨h1, h2⟩, h3⟩, h4⟩ := hhex
          exact .inr (.inr ⟨_, _, _, _, rfl, ⟨h1, h2, h3, h4⟩, rfl⟩)
        · cases h
      · cases h
    · rename_i hu
      cases h
      exact .inr (.inl ⟨_, rfl, rfl, he, hu⟩)
  · rename_i hc
    split at h
    · cases h
    · rename_i hq
      cases h
      exact .inl ⟨_, rfl, rfl, h0, hc, hq⟩

theorem charPiece_close {l r : Bytes} (h : charPiece l = some (none, r)) : l = 34 :: r := by
  unfold charPiece at h
  split at h
  · cases h
  split at h
  · cases h
  split at h
  · split at h
    · cases h
    split at h
    · cases h
    split at h
    · unfold unicodePiece at h
      split at h
      · split at h <;> cases h
      · cases h
    · cases h
  · split at h
    · rename_i hq
      cases h
      rw [hq]
    · cases h

theorem isHex_quote : isHex 34 = false := by decide

theorem charPiece_plain {c : UInt8} (h0 : c ≠ 0) (hc : c ≠ 92) (hq : c ≠ 34) (r : Bytes) :
    charPiece (c :: r) = some (some [c], r) := by
  simp [charPiece, h0, hc, hq]

theorem quoting_lawful : quoting.Lawful where
  close := charPiece_close
  read {l d r} h := by
    rcases charPiece_inv h with ⟨c, rfl, rfl, h0, hc, hq⟩ | ⟨e, rfl, rfl, h0, hu⟩ |
      ⟨u1, u2, u3, u4, rfl, ⟨h1, h2, h3, h4⟩, rfl⟩
    -- a plain character: the text of the piece is the byte itself
    · refine ⟨[c], rfl, by simp, Nat.le_refl _, fun _ => ⟨rfl, charPiece_plain h0 hc hq⟩, ?_⟩
      intro x y hxy hx
      cases x with
      | nil => exact absurd rfl hx
      | cons _ x => simp at hxy
    -- an escape can only be split behind its backslash
    · refine ⟨[92, e], rfl, by simp, by simp, by simp, ?_⟩
      intro x y hxy hx
      match x, hxy with
      | [x₀], hxy =>
          simp only [List.singleton_append, List.cons.injEq] at hxy
          obtain ⟨rfl, rfl, rfl⟩ := hxy
          exact ⟨rfl, ⟨92, rfl, rfl⟩, rfl⟩
      | _ :: _ :: x, hxy => simp at hxy
    · have hlen := length_unicodeChars_le (hexValue u1 * 16 + hexValue u2)
        (hexValue u3 * 16 + hexValue u4)
      refine ⟨[92, 117, u1, u2, u3, u4], rfl, by simp, ?_, ?_, ?_⟩
      · simp only [List.length_cons, List.length_nil]
        omega
      · simp only [List.length_cons, List.length_nil]
        omega
      · intro x y hxy hx
        have hmem : (34 : UInt8) ∈ [92, 117, u1, u2, u3, u4] := by
          rw [hxy]
          exact List.mem_append_right _ List.mem_cons_self
        -- no quote stands among the hexadecimal digits
        have hne : ∀ u, isHex u = true → (34 : UInt8) ≠ u := by
          rintro u hu rfl
          rw [isHex_quote] at hu
          cases hu
        simp [hne u1 h1, hne u2 h2, hne u3 h3, hne u4 h4] at hmem

/-- A string, behind its opening quote. -/
def readString (l : Bytes) : Option (Bytes × Bytes) := quoting.scan (l.length + 1) l

theorem readString_eq_some {l d r : Bytes} : readString l = some (d, r) ↔ quoting.Scans l d r :=
  ⟨Quoting.scans_of_scan, fun h => Quoting.scan_of_scans quoting_lawful h (Nat.lt_succ_self _)⟩

theorem length_readString {l d r : Bytes} (h : readString l = some (d, r)) :
    d.length + 1 + r.length ≤ l.length := by
  obtain ⟨raw, rfl, hle⟩ := (readString_eq_some.mp h).split quoting_lawful
  simp only [List.length_append, List.length_cons]
  omega

/-! ### Numbers -/

/-- The value of digits, as the parser accumulates it. -/
def digitsValue (ds : Bytes) : Int64 := .ofNat (natOf ds)

/-- Digits that start with a zero and go on. -/
def leadingZero (ds : Bytes) : Bool := ds.head? == some 48 && ds.length != 1

def JsonU.scale (u : JsonU) (e : Int64) : JsonU :=
  match u with
  | .double d => .double (d.scale e)
  | u => u

/-- Behind the integer part: a point and digits, or nothing. -/
def readFraction (ds : Bytes) (r : Bytes) : Option (JsonU × Bytes) :=
  let u := JsonU.integer (digitsValue ds)
  if r.head? = some 46 then
    let fs := r.tail.takeWhile isDigit
    if ds = [] ∨ fs = [] then none
    else some (u.toDouble.withFraction (digitsValue fs) fs.length, r.tail.dropWhile isDigit)
  else some (u, r)

/-- The digits of an exponent, behind its sign. -/
def exponentDigits (r : Bytes) : Bytes :=
  if r.head? = some 43 ∨ r.head? = some 45 then r.tail else r

/-- Behind that: an exponent, or nothing. -/
def readExponent (u : JsonU) (r : Bytes) : Option (JsonU × Bytes) :=
  if r.head? = some 101 ∨ r.head? = some 69 then
    let es := (exponentDigits r.tail).takeWhile isDigit
    if es = [] then none
    else
      let e := digitsValue es
      some (u.toDouble.scale (if r.tail.head? = some 45 then -e else e),
        (exponentDigits r.tail).dropWhile isDigit)
  else some (u, r)

/-- A number without its sign. -/
def readUnsigned (l : Bytes) : Option (JsonU × Bytes) :=
  let ds := l.takeWhile isDigit
  if leadingZero ds then none
  else (readFraction ds (l.dropWhile isDigit)).bind fun p => readExponent p.1 p.2

/-- A number, as what the parser keeps of it. -/
def readNumber (l : Bytes) : Option (JsonU × Bytes) :=
  if l.head? = some 45 then (readUnsigned l.tail).map fun p => (p.1.neg, p.2)
  else readUnsigned l

-- The digits of an exponent go round in their `long`, so this is the number one.
example : readNumber (ascii "1e18446744073709551616") =
    some (.double (.scale (.ofInteger 1) 0), []) := by decide

/-! ### Values -/

def JsonU.toValue : JsonU → Value
  | .integer n => .integer n
  | .double d => .double d
  | _ => .null

/-- The rest of a word. -/
def readWord (w : Bytes) (l : Bytes) : Option Bytes :=
  if w <+: l then some (l.drop w.length) else none

mutual

/-- A value, after white space. -/
def readValue : Nat → Bytes → Option (Value × Bytes)
  | 0, _ => none
  | n + 1, l =>
      match l.dropWhile Json.isWs with
      | [] => none
      | b :: r =>
          if b = 123 then (readMembers n false r).map fun p => (.object p.1, p.2)
          else if b = 91 then (readElems n false r).map fun p => (.array p.1, p.2)
          else if b = 34 then (readString r).map fun p => (.string p.1, p.2)
          else if b = 116 then (readWord (ascii "rue") r).map fun r => (.boolean true, r)
          else if b = 102 then (readWord (ascii "alse") r).map fun r => (.boolean false, r)
          else if b = 110 then (readWord (ascii "ull") r).map fun r => (.null, r)
          else if isDigit b ∨ b = 45 then
            (readNumber (b :: r)).map fun p => (p.1.toValue, p.2)
          else none

/-- The elements of an array up to its bracket; behind an element a comma is needed. -/
def readElems : Nat → Bool → Bytes → Option (List Value × Bytes)
  | 0, _, _ => none
  | n + 1, need_comma, l =>
      match l.dropWhile Json.isWs with
      | [] => none
      | b :: r =>
          if b = 93 then some ([], r)
          else if need_comma then if b = 44 then readElems n false r else none
          else
            (readValue n (b :: r)).bind fun p =>
              (readElems n true p.2).map fun q => (p.1 :: q.1, q.2)

/-- The members of an object up to its brace. -/
def readMembers : Nat → Bool → Bytes → Option (List (Bytes × Value) × Bytes)
  | 0, _, _ => none
  | n + 1, need_comma, l =>
      match l.dropWhile Json.isWs with
      | [] => none
      | b :: r =>
          if b = 125 then some ([], r)
          else if need_comma then if b = 44 then readMembers n false r else none
          else if b = 34 then
            (readString r).bind fun k =>
              (Json.eat 58 k.2).bind fun r =>
                (readValue n r).bind fun p =>
                  (readMembers n true p.2).map fun q => ((k.1, p.1) :: q.1, q.2)
          else none

end

/-- Behind the value there is white space only, up to the end or a zero byte. -/
def isEnd (r : Bytes) : Bool :=
  match r.dropWhile Json.isWs with
  | [] => true
  | b :: _ => b == 0

/-- The value of a whole text; two calls for every byte are enough. -/
def readText (l : Bytes) : Option Value :=
  match readValue (2 * l.length + 1) l with
  | some (v, r) => if isEnd r then some v else none
  | none => none

end SpiderChat.JsonC
