import SpiderChat.Lib.Quoted
import SpiderChat.Lib.Text

/-!
# SpiderChat.Lib.Json

A reader of JSON texts by the standard grammar, over bytes: string literals with
their escapes (`\uXXXX` with surrogate pairs included, unescaped control
characters rejected), integers and other numbers, arrays and objects with their
members in order. Bytes from 128 on are taken over as they are, so texts in UTF-8
are read without being checked for it.

The reader is fuelled; `parse` gives one unit for every byte, and every level of
nesting and every member takes a byte at least.
-/

namespace Lib

/-- A JSON value. Numbers that are not integers keep their text. -/
inductive Json
  | null
  | bool (b : Bool)
  | int (n : Int)
  | num (text : List UInt8)
  | str (s : List UInt8)
  | arr (xs : List Json)
  | obj (ms : List (List UInt8 × Json))

namespace Json

/-! ### String literals -/

/-- `\b`, `\f`, `\n`, `\r`, `\t`, and the bytes that may follow a backslash as themselves. -/
def escape (e : UInt8) : Option UInt8 :=
  if e = 34 ∨ e = 92 ∨ e = 47 then some e
  else if e = 98 then some 8
  else if e = 102 then some 12
  else if e = 110 then some 10
  else if e = 114 then some 13
  else if e = 116 then some 9
  else none

/-- The value of a hexadecimal digit. -/
def hexVal (b : UInt8) : Option Nat :=
  if 48 ≤ b ∧ b ≤ 57 then some (b.toNat - 48)
  else if 65 ≤ b ∧ b ≤ 70 then some (b.toNat - 55)
  else if 97 ≤ b ∧ b ≤ 102 then some (b.toNat - 87)
  else none

/-- Four hexadecimal digits. -/
def hex4 : List UInt8 → Option (Nat × List UInt8)
  | a :: b :: c :: d :: r => do
      let a ← hexVal a
      let b ← hexVal b
      let c ← hexVal c
      let d ← hexVal d
      some (((a * 16 + b) * 16 + c) * 16 + d, r)
  | _ => none

/-- A code point in UTF-8. -/
def utf8 (n : Nat) : List UInt8 :=
  if n < 0x80 then [.ofNat n]
  else if n < 0x800 then [.ofNat (0xC0 + n / 64), .ofNat (0x80 + n % 64)]
  else if n < 0x10000 then
    [.ofNat (0xE0 + n / 4096), .ofNat (0x80 + n / 64 % 64), .ofNat (0x80 + n % 64)]
  else
    [.ofNat (0xF0 + n / 262144), .ofNat (0x80 + n / 4096 % 64), .ofNat (0x80 + n / 64 % 64),
      .ofNat (0x80 + n % 64)]

/-- Behind `\u`: a code point, or two halves of a surrogate pair. -/
def unicodePiece (l : List UInt8) : Option (Option (List UInt8) × List UInt8) :=
  match hex4 l with
  | none => none
  | some (hi, r) =>
      if 0xD800 ≤ hi ∧ hi < 0xDC00 then
        match r with
        | 92 :: 117 :: r =>
            match hex4 r with
            | none => none
            | some (lo, r) =>
                if 0xDC00 ≤ lo ∧ lo < 0xE000 then
                  some (some (utf8 (0x10000 + (hi - 0xD800) * 1024 + (lo - 0xDC00))), r)
                else none
        | _ => none
      else if 0xDC00 ≤ hi ∧ hi < 0xE000 then none
      else some (some (utf8 hi), r)

/-- One piece of a string literal. -/
def strPiece : List UInt8 → Option (Option (List UInt8) × List UInt8)
  | [] => none
  | b :: r =>
      if b = 34 then some (none, r)
      else if b = 92 then
        match r with
        | [] => none
        | e :: r => if e = 117 then unicodePiece r else (escape e).map fun c => (some [c], r)
      else if 32 ≤ b then some (some [b], r)
      else none

/-- JSON string literals as a quoting convention. -/
def quoting : Quoting where
  quote := 34
  isEsc b := b == 92
  piece := strPiece

theorem hex4_inv {l r : List UInt8} {n : Nat} (h : hex4 l = some (n, r)) :
    ∃ ds, l = ds ++ r ∧ ds.length = 4 ∧ 34 ∉ ds := by
  have hquote : ∀ b v, hexVal b = some v → b ≠ 34 := by
    intro b v hb heq
    subst heq
    cases hb
  match l, h with
  | a :: b :: c :: d :: l', h =>
      simp only [hex4, bind, Option.bind_eq_some_iff, Option.some.injEq, Prod.mk.injEq] at h
      obtain ⟨a', ha, b', hb, c', hc, d', hd, -, rfl⟩ := h
      refine ⟨[a, b, c, d], rfl, rfl, ?_⟩
      simp [(hquote a a' ha).symm, (hquote b b' hb).symm, (hquote c c' hc).symm,
        (hquote d d' hd).symm]

theorem length_utf8_le (n : Nat) : (utf8 n).length ≤ 4 := by
  unfold utf8
  split
  · simp
  split
  · simp
  split <;> simp

theorem unicodePiece_inv {l r d : List UInt8} (h : unicodePiece l = some (some d, r)) :
    ∃ raw, l = raw ++ r ∧ 34 ∉ raw ∧ d.length ≤ raw.length := by
  unfold unicodePiece at h
  split at h
  · cases h
  rename_i hi r₁ hhi
  obtain ⟨ds, rfl, hlen, hno⟩ := hex4_inv hhi
  split at h
  · split at h
    · rename_i r₂
      split at h
      · cases h
      rename_i lo r₃ hlo
      obtain ⟨ds', rfl, hlen', hno'⟩ := hex4_inv hlo
      split at h
      · simp only [Option.some.injEq, Prod.mk.injEq] at h
        obtain ⟨rfl, rfl⟩ := h
        refine ⟨ds ++ 92 :: 117 :: ds', by simp, by simp [hno, hno'], ?_⟩
        refine Nat.le_trans (length_utf8_le _) ?_
        simp only [List.length_append, List.length_cons]
        omega
      · cases h
    · cases h
  · split at h
    · cases h
    · simp only [Option.some.injEq, Prod.mk.injEq] at h
      obtain ⟨rfl, rfl⟩ := h
      exact ⟨ds, rfl, hno, hlen ▸ length_utf8_le _⟩

/-- The closing quote of a string. -/
theorem strPiece_close {l r : List UInt8} (h : strPiece l = some (none, r)) : l = 34 :: r := by
  have hunicode : ∀ l', unicodePiece l' ≠ some (none, r) := by
    intro l' h'
    unfold unicodePiece at h'
    repeat' split at h'
    all_goals simp at h'
  unfold strPiece at h
  split at h
  · cases h
  split at h
  · rename_i hb
    simp only [Option.some.injEq, Prod.mk.injEq, true_and] at h
    rw [hb, h]
  split at h
  · split at h
    · cases h
    split at h
    · exact absurd h (hunicode _)
    · obtain ⟨c, -, hc⟩ := Option.map_eq_some_iff.mp h
      cases hc
  split at h
  · cases h
  · cases h

/-- The other pieces: a byte as itself, an escape, or a code point. -/
theorem strPiece_inv {l d r : List UInt8} (h : strPiece l = some (some d, r)) :
    (∃ b, l = b :: r ∧ d = [b] ∧ 32 ≤ b ∧ b ≠ 34 ∧ b ≠ 92) ∨
    (∃ e c, l = 92 :: e :: r ∧ escape e = some c ∧ d = [c]) ∨
    ∃ raw, l = 92 :: 117 :: (raw ++ r) ∧ 34 ∉ raw ∧ d.length ≤ raw.length := by
  unfold strPiece at h
  split at h
  · cases h
  rename_i b r₁
  split at h
  · cases h
  rename_i hquote
  split at h
  · rename_i hesc
    split at h
    · cases h
    rename_i e r₂
    split at h
    · rename_i hu
      obtain ⟨raw, rfl, hno, hlen⟩ := unicodePiece_inv h
      exact Or.inr (Or.inr ⟨raw, by rw [hesc, hu], hno, hlen⟩)
    · obtain ⟨c, hc, heq⟩ := Option.map_eq_some_iff.mp h
      simp only [Prod.mk.injEq, Option.some.injEq] at heq
      obtain ⟨rfl, rfl⟩ := heq
      exact Or.inr (Or.inl ⟨e, c, by rw [hesc], hc, rfl⟩)
  · rename_i hesc
    split at h
    · rename_i hge
      simp only [Option.some.injEq, Prod.mk.injEq] at h
      obtain ⟨rfl, rfl⟩ := h
      exact Or.inl ⟨b, rfl, rfl, hge, hquote, hesc⟩
    · cases h

theorem strPiece_plain {b : UInt8} (hge : 32 ≤ b) (hquote : b ≠ 34) (hesc : b ≠ 92)
    (r : List UInt8) : strPiece (b :: r) = some (some [b], r) := by
  simp [strPiece, hge, hquote, hesc]

theorem quoting_lawful : quoting.Lawful where
  close := strPiece_close
  read {l d r} h := by
    rcases strPiece_inv h with ⟨b, rfl, rfl, hge, hquote, hesc⟩ | ⟨e, c, rfl, hc, rfl⟩ |
      ⟨raw, rfl, hno, hlen⟩
    · refine ⟨[b], rfl, by simp, Nat.le_refl _, fun _ => ⟨rfl, strPiece_plain hge hquote hesc⟩, ?_⟩
      intro x y hxy hx
      cases x with
      | nil => exact absurd rfl hx
      | cons _ x => simp at hxy
    · refine ⟨[92, e], rfl, by simp, by simp, by simp, ?_⟩
      intro x y hxy hx
      match x, hxy with
      | [x₀], hxy =>
          simp only [List.singleton_append, List.cons.injEq] at hxy
          obtain ⟨rfl, rfl, rfl⟩ := hxy
          have hc' : c = 34 := (Option.some.inj hc).symm
          exact ⟨rfl, ⟨92, rfl, rfl⟩, by rw [hc']; rfl⟩
      | _ :: _ :: x, hxy => simp at hxy
    · refine ⟨92 :: 117 :: raw, rfl, by simp, by simp only [List.length_cons]; omega, ?_, ?_⟩
      · simp only [List.length_cons]
        omega
      · intro x y hxy hx
        have hmem : (34 : UInt8) ∈ 92 :: 117 :: raw := by
          rw [hxy]
          exact List.mem_append_right _ List.mem_cons_self
        simp [hno] at hmem

/-- A byte that stands for itself in a string literal. -/
def PlainByte (b : UInt8) : Prop := 32 ≤ b ∧ b ≠ 34 ∧ b ≠ 92

instance (b : UInt8) : Decidable (PlainByte b) := inferInstanceAs (Decidable (_ ∧ _))

/-- The texts that can be put between quotes as they are. -/
theorem plain_iff {m : List UInt8} : quoting.Plain m ↔ ∀ b ∈ m, PlainByte b := by
  constructor
  · intro h
    induction h with
    | nil => simp
    | @cons raw m hraw hplain _ ih =>
        intro b hb
        rcases List.mem_append.mp hb with hb | hb
        · rcases strPiece_inv (hplain []) with ⟨c, hc, hd, hge, hquote, hesc⟩ |
            ⟨e, c, hc, -, hd⟩ | ⟨raw', hc, -, hlen⟩
          · rw [hd, List.mem_singleton] at hb
            exact hb ▸ ⟨hge, hquote, hesc⟩
          · rw [hd] at hc
            cases hc
          · have := congrArg List.length hc
            simp only [List.append_nil, List.length_cons] at this
            omega
        · exact ih b hb
  · intro h
    induction m with
    | nil => exact .nil
    | cons b m ih =>
        obtain ⟨hge, hquote, hesc⟩ := h b List.mem_cons_self
        exact .cons (List.cons_ne_nil b []) (strPiece_plain hge hquote hesc)
          (ih fun c hc => h c (List.mem_cons_of_mem _ hc))

/-- A string literal, behind its opening quote. -/
def string (l : List UInt8) : Option (List UInt8 × List UInt8) := quoting.scan (l.length + 1) l

theorem string_eq_some {l d r : List UInt8} :
    string l = some (d, r) ↔ quoting.Scans l d r :=
  ⟨Quoting.scans_of_scan, fun h => Quoting.scan_of_scans quoting_lawful h (Nat.lt_succ_self _)⟩

/-- A plain text between quotes is read back. -/
theorem string_plain {m : List UInt8} (h : ∀ b ∈ m, PlainByte b) (r : List UInt8) :
    string (m ++ 34 :: r) = some (m, r) :=
  string_eq_some.mpr ((plain_iff.mpr h).scans rfl)

theorem not_scans_nil {d r : List UInt8} : ¬ quoting.Scans [] d r := by
  intro h
  cases h with
  | close hp => cases hp
  | read hp _ => cases hp

/-- A plain byte in a literal stands for itself. -/
theorem scans_cons {b : UInt8} (hb : PlainByte b) {l d r : List UInt8}
    (h : quoting.Scans (b :: l) d r) : ∃ d', d = b :: d' ∧ quoting.Scans l d' r := by
  have hpiece : quoting.piece (b :: l) = some (some [b], l) := strPiece_plain hb.1 hb.2.1 hb.2.2 l
  cases h with
  | close hp =>
      rw [hpiece] at hp
      cases hp
  | read hp hs =>
      rw [hpiece] at hp
      cases hp
      exact ⟨_, rfl, hs⟩

theorem scans_quote {l d r : List UInt8} (h : quoting.Scans (34 :: l) d r) : d = [] ∧ r = l := by
  cases h with
  | close hp =>
      cases hp
      exact ⟨rfl, rfl⟩
  | read hp _ => cases hp

/-! ### Numbers and names -/

def isWs (b : UInt8) : Bool := b == 32 || b == 9 || b == 10 || b == 13

def isNumChar (b : UInt8) : Bool :=
  isDigit b || b == 43 || b == 45 || b == 46 || b == 69 || b == 101

def isLetter (b : UInt8) : Bool := 97 ≤ b && b ≤ 122

/-- Digits without a leading zero. -/
def isNat (ds : List UInt8) : Bool :=
  !ds.isEmpty && ds.all isDigit && (ds.length == 1 || ds.head? != some 48)

/-- The integer a token denotes. -/
def intOf : List UInt8 → Option Int
  | [] => none
  | b :: ds =>
      if b = 45 then if isNat ds then some (-(natOf ds : Int)) else none
      else if isNat (b :: ds) then some (natOf (b :: ds)) else none

/-- The exponent of a number, possibly empty. -/
def isExponent : List UInt8 → Bool
  | [] => true
  | e :: r =>
      let ds := if r.head? = some 43 ∨ r.head? = some 45 then r.tail else r
      (e == 69 || e == 101) && !ds.isEmpty && ds.all isDigit

/-- The fraction and the exponent of a number. -/
def isFraction : List UInt8 → Bool
  | 46 :: r => !(r.takeWhile isDigit).isEmpty && isExponent (r.dropWhile isDigit)
  | r => isExponent r

/-- The number a token denotes. -/
def number (tok : List UInt8) : Option Json :=
  match intOf tok with
  | some n => some (.int n)
  | none =>
      let t := if tok.head? = some 45 then tok.tail else tok
      if isNat (t.takeWhile isDigit) && isFraction (t.dropWhile isDigit) then some (.num tok)
      else none

/-- A value that is no string, array or object. -/
def atom (l : List UInt8) : Option (Json × List UInt8) :=
  let w := l.takeWhile isLetter
  let r := l.dropWhile isLetter
  if w = ascii "null" then some (.null, r)
  else if w = ascii "true" then some (.bool true, r)
  else if w = ascii "false" then some (.bool false, r)
  else if w = [] then (number (l.takeWhile isNumChar)).map fun j => (j, l.dropWhile isNumChar)
  else none

theorem isNat_decNat (n : Nat) : isNat (decNat n) = true := by
  have hall : (decNat n).all isDigit = true :=
    List.all_eq_true.mpr fun b hb => isDigit_of_mem_decNat hb
  have hlead : ((decNat n).length == 1 || (decNat n).head? != some 48) = true := by
    by_cases h : (decNat n).head? = some 48
    · rw [decNat_leading h]
      rfl
    · simp [h]
  simp only [isNat, hall, hlead, Bool.and_true, Bool.not_eq_true', List.isEmpty_eq_false_iff]
  exact decNat_ne_nil n

theorem intOf_decInt (n : Int) : intOf (decInt n) = some n := by
  rcases decInt_cases n with ⟨hneg, heq⟩ | ⟨hpos, heq⟩
  · rw [heq, intOf, if_pos rfl, if_pos (isNat_decNat _), natOf_decNat]
    simp only [Option.some.injEq]
    omega
  · obtain ⟨d, ds, hd, hdig⟩ := decNat_cons n.natAbs
    have hne : d ≠ 45 := by
      intro heq
      subst heq
      cases hdig
    rw [heq, hd, intOf, if_neg hne, ← hd, if_pos (isNat_decNat _), natOf_decNat]
    simp only [Option.some.injEq]
    omega

theorem isNumChar_of_mem_decInt {n : Int} {b : UInt8} (h : b ∈ decInt n) : isNumChar b = true := by
  rcases mem_decInt h with rfl | h
  · rfl
  · simp [isNumChar, h]

/-- The front of a printed integer is no letter, no space and no bracket. -/
theorem decInt_cons (n : Int) : ∃ b l, decInt n = b :: l ∧ b ≤ 57 ∧ b ≠ 34 ∧ isWs b = false := by
  have hdigit : ∀ b : UInt8, isDigit b = true → b ≤ 57 ∧ b ≠ 34 ∧ isWs b = false := by
    intro b hb
    simp only [isDigit, Bool.and_eq_true, decide_eq_true_eq, UInt8.le_iff_toNat_le] at hb
    refine ⟨UInt8.le_iff_toNat_le.mpr hb.2, ?_, ?_⟩
    · intro heq
      subst heq
      exact absurd hb.1 (by decide)
    · have hne : ∀ c : UInt8, c.toNat < 48 → (b == c) = false := by
        intro c hc
        refine beq_false_of_ne ?_
        intro heq
        subst heq
        exact absurd hb.1 (by show ¬ 48 ≤ b.toNat; omega)
      simp [isWs, hne 32 (by decide), hne 9 (by decide), hne 10 (by decide), hne 13 (by decide)]
  rcases decInt_cases n with ⟨-, heq⟩ | ⟨-, heq⟩
  · exact ⟨45, _, heq, by decide, by decide, by decide⟩
  · obtain ⟨d, ds, hd, hdig⟩ := decNat_cons n.natAbs
    exact ⟨d, ds, heq.trans hd, hdigit d hdig⟩

/-! ### Values -/

/-- Skips white space and one expected byte. -/
def eat (b : UInt8) (l : List UInt8) : Option (List UInt8) :=
  match l.dropWhile isWs with
  | [] => none
  | c :: r => if c = b then some r else none

mutual

/-- A value, after white space. -/
def value : Nat → List UInt8 → Option (Json × List UInt8)
  | 0, _ => none
  | n + 1, l =>
      match l.dropWhile isWs with
      | [] => none
      | b :: r =>
          if b = 34 then (string r).map fun p => (.str p.1, p.2)
          else if b = 123 then
            match eat 125 r with
            | some r' => some (.obj [], r')
            | none => (members n r).map fun p => (.obj p.1, p.2)
          else if b = 91 then
            match eat 93 r with
            | some r' => some (.arr [], r')
            | none => (elems n r).map fun p => (.arr p.1, p.2)
          else atom (b :: r)

/-- The members of an object, up to its closing brace. -/
def members : Nat → List UInt8 → Option (List (List UInt8 × Json) × List UInt8)
  | 0, _ => none
  | n + 1, l => do
      let r ← eat 34 l
      let (k, r) ← string r
      let r ← eat 58 r
      let (v, r) ← value n r
      match eat 44 r with
      | some r' =>
          let (ms, r') ← members n r'
          some ((k, v) :: ms, r')
      | none =>
          let r ← eat 125 r
          some ([(k, v)], r)

/-- The elements of an array, up to its closing bracket. -/
def elems : Nat → List UInt8 → Option (List Json × List UInt8)
  | 0, _ => none
  | n + 1, l => do
      let (v, r) ← value n l
      match eat 44 r with
      | some r' =>
          let (vs, r') ← elems n r'
          some (v :: vs, r')
      | none =>
          let r ← eat 93 r
          some ([v], r)

end

/-- Behind a member: the other members, or the closing brace. -/
def moreMembers (n : Nat) (r : List UInt8) : Option (List (List UInt8 × Json) × List UInt8) :=
  match eat 44 r with
  | some r' => members n r'
  | none => (eat 125 r).map fun r' => ([], r')

/-- A whole JSON text. -/
def parse (l : List UInt8) : Option Json :=
  match value (l.length + 1) l with
  | some (j, r) => if r.all isWs then some j else none
  | none => none

theorem value_int {n : Nat} {i : Int} {r : List UInt8}
    (hr : ∀ b, r.head? = some b → isNumChar b = false) :
    value (n + 1) (decInt i ++ r) = some (.int i, r) := by
  obtain ⟨b, l, hb, hle, hquote, hws⟩ := decInt_cons i
  have hlt : ∀ c : UInt8, 57 < c → b ≠ c := by
    intro c hc heq
    subst heq
    exact absurd hle (by simpa using hc)
  have htake : (decInt i ++ r).takeWhile isNumChar = decInt i := by
    rw [List.takeWhile_append_of_pos fun _ => isNumChar_of_mem_decInt]
    cases r with
    | nil => simp
    | cons c r => simp [hr c rfl]
  have hdrop : (decInt i ++ r).dropWhile isNumChar = r := by
    rw [List.dropWhile_append_of_pos fun _ => isNumChar_of_mem_decInt]
    cases r with
    | nil => simp
    | cons c r => simp [hr c rfl]
  have hletter : isLetter b = false := by
    simp only [isLetter, Bool.and_eq_false_imp, decide_eq_true_eq]
    intro h
    exact absurd (Nat.le_trans (UInt8.le_iff_toNat_le.mp h) (UInt8.le_iff_toNat_le.mp hle))
      (by decide)
  have hatom : atom (b :: (l ++ r)) = some (.int i, r) := by
    have hw : (b :: (l ++ r)).takeWhile isLetter = [] := by simp [hletter]
    rw [atom, hw, ← List.cons_append, ← hb, htake, hdrop, number, intOf_decInt]
    rfl
  rw [hb, List.cons_append, value, List.dropWhile_cons, hws]
  simp only [Bool.false_eq_true, if_false, if_neg hquote, if_neg (hlt 123 (by decide)),
    if_neg (hlt 91 (by decide)), hatom]

/-- `members` one member at a time. -/
theorem members_succ {n : Nat} {l r₁ r₂ r₃ r₄ k : List UInt8} {v : Json} (h₁ : eat 34 l = some r₁)
    (h₂ : string r₁ = some (k, r₂)) (h₃ : eat 58 r₂ = some r₃) (h₄ : value n r₃ = some (v, r₄)) :
    members (n + 1) l = (moreMembers n r₄).map fun p => ((k, v) :: p.1, p.2) := by
  rw [members, moreMembers]
  simp only [h₁, h₂, h₃, h₄, bind, Option.bind_some]
  cases eat 44 r₄ with
  | none => cases eat 125 r₄ <;> rfl
  | some r' =>
      show ((members n r').bind fun p => some ((k, v) :: p.1, p.2)) = (members n r').map _
      rw [Option.map_eq_bind]
      rfl

theorem value_obj {n : Nat} {r : List UInt8} (h : eat 125 r = none) :
    value (n + 1) (123 :: r) = (members n r).map fun p => (.obj p.1, p.2) := by
  have hws : (123 :: r).dropWhile isWs = 123 :: r := rfl
  rw [value, hws]
  simp only [h, if_pos]
  rfl

theorem value_str (n : Nat) (r : List UInt8) :
    value (n + 1) (34 :: r) = (string r).map fun p => (.str p.1, p.2) := by
  have hws : (34 :: r).dropWhile isWs = 34 :: r := rfl
  rw [value, hws]
  rfl

/-! ### What is read is a front part of the text -/

theorem eat_suffix {b : UInt8} {l r : List UInt8} (h : eat b l = some r) : b :: r <:+ l := by
  unfold eat at h
  split at h
  · cases h
  · rename_i c r' hl
    split at h
    · rename_i hc
      obtain rfl := Option.some.inj h
      rw [← hc, ← hl]
      exact List.dropWhile_suffix _
    · cases h

theorem string_suffix {l d r : List UInt8} (h : string l = some (d, r)) : 34 :: r <:+ l := by
  obtain ⟨raw, rfl, -⟩ := (string_eq_some.mp h).split quoting_lawful
  exact ⟨raw, rfl⟩

theorem atom_suffix {l r : List UInt8} {v : Json} (h : atom l = some (v, r)) : r <:+ l := by
  simp only [atom] at h
  split at h
  · cases h
    exact List.dropWhile_suffix _
  split at h
  · cases h
    exact List.dropWhile_suffix _
  split at h
  · cases h
    exact List.dropWhile_suffix _
  split at h
  · obtain ⟨j, -, hj⟩ := Option.map_eq_some_iff.mp h
    cases hj
    exact List.dropWhile_suffix _
  · cases h

/-- What stands behind a value, behind an object's members and behind an array's
elements is a rest of the text. -/
theorem suffix_of_read (n : Nat) :
    (∀ {l v r}, value n l = some (v, r) → r <:+ l) ∧
    (∀ {l ms r}, members n l = some (ms, r) → 125 :: r <:+ l) ∧
    ∀ {l vs r}, elems n l = some (vs, r) → 93 :: r <:+ l := by
  induction n with
  | zero => exact ⟨nofun, nofun, nofun⟩
  | succ n ih =>
      obtain ⟨ihv, ihm, ihe⟩ := ih
      refine ⟨?_, ?_, ?_⟩
      · intro l v r h
        rw [value] at h
        split at h
        · cases h
        rename_i b r' hl
        have htail : r' <:+ l := (List.suffix_cons b r').trans (hl ▸ List.dropWhile_suffix _)
        refine List.IsSuffix.trans ?_ (hl ▸ List.dropWhile_suffix isWs : b :: r' <:+ l)
        split at h
        · obtain ⟨⟨d, r₁⟩, hs, heq⟩ := Option.map_eq_some_iff.mp h
          cases heq
          exact ((List.suffix_cons _ _).trans (string_suffix hs)).trans (List.suffix_cons b r')
        split at h
        · split at h
          · rename_i he
            cases h
            exact ((List.suffix_cons _ _).trans (eat_suffix he)).trans (List.suffix_cons b r')
          · obtain ⟨⟨ms, r₁⟩, hs, heq⟩ := Option.map_eq_some_iff.mp h
            cases heq
            exact ((List.suffix_cons _ _).trans (ihm hs)).trans (List.suffix_cons b r')
        split at h
        · split at h
          · rename_i he
            cases h
            exact ((List.suffix_cons _ _).trans (eat_suffix he)).trans (List.suffix_cons b r')
          · obtain ⟨⟨vs, r₁⟩, hs, heq⟩ := Option.map_eq_some_iff.mp h
            cases heq
            exact ((List.suffix_cons _ _).trans (ihe hs)).trans (List.suffix_cons b r')
        · exact atom_suffix h
      · intro l ms r h
        rw [members] at h
        simp only [bind, Option.bind_eq_some_iff] at h
        obtain ⟨r₁, h₁, ⟨k, r₂⟩, h₂, r₃, h₃, ⟨v, r₄⟩, h₄, h⟩ := h
        have hsuf : r₄ <:+ l :=
          (ihv h₄).trans ((List.suffix_cons _ _).trans ((eat_suffix h₃).trans
            ((List.suffix_cons _ _).trans ((string_suffix h₂).trans
              ((List.suffix_cons _ _).trans (eat_suffix h₁))))))
        split at h
        · rename_i r₅ h₅
          simp only [Option.bind_eq_some_iff, Option.some.injEq] at h
          obtain ⟨⟨ms', r₆⟩, h₆, heq⟩ := h
          cases heq
          exact (ihm h₆).trans (((List.suffix_cons _ _).trans (eat_suffix h₅)).trans hsuf)
        · simp only [Option.bind_eq_some_iff, Option.some.injEq] at h
          obtain ⟨r₅, h₅, heq⟩ := h
          cases heq
          exact (eat_suffix h₅).trans hsuf
      · intro l vs r h
        rw [elems] at h
        simp only [bind, Option.bind_eq_some_iff] at h
        obtain ⟨⟨v, r₁⟩, h₁, h⟩ := h
        split at h
        · rename_i r₂ h₂
          simp only [Option.bind_eq_some_iff, Option.some.injEq] at h
          obtain ⟨⟨vs', r₃⟩, h₃, heq⟩ := h
          cases heq
          exact (ihe h₃).trans (((List.suffix_cons _ _).trans (eat_suffix h₂)).trans (ihv h₁))
        · simp only [Option.bind_eq_some_iff, Option.some.injEq] at h
          obtain ⟨r₂, h₂, heq⟩ := h
          cases heq
          exact (eat_suffix h₂).trans (ihv h₁)

/-- The members of an object end with a closing brace. -/
theorem brace_mem_of_members {n : Nat} {l r : List UInt8} {ms : List (List UInt8 × Json)}
    (h : members n l = some (ms, r)) : 125 ∈ l :=
  ((suffix_of_read n).2.1 h).subset List.mem_cons_self

theorem brace_mem_of_moreMembers {n : Nat} {l r : List UInt8} {ms : List (List UInt8 × Json)}
    (h : moreMembers n l = some (ms, r)) : 125 ∈ l := by
  rw [moreMembers] at h
  split at h
  · rename_i r' heat
    exact (eat_suffix heat).subset (List.mem_cons_of_mem _ (brace_mem_of_members h))
  · obtain ⟨r', heat, -⟩ := Option.map_eq_some_iff.mp h
    exact (eat_suffix heat).subset List.mem_cons_self

example :
    (parse (ascii "\x7b\"a\" : -12 , \"b\":[1.5,true,\"x\\u0041\\n\"]\x7d ")).isSome = true := by
  decide +kernel

end Json

end Lib
