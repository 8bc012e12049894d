import SpiderChat.Lib.Quoted
import SpiderChat.Lib.Text

/-!
# SpiderChat.Lib.SqlLex

The tokens of MySQL texts, by the server's lexical rules: string literals in
single or double quotes with doubled quotes and backslash escapes (`\%` and `\_`
stay as they are), comments, words, numbers, and `;` between the statements of a
text (`CLIENT_MULTI_STATEMENTS`). `lex` reads the tokens of the first statement.

`strSize_le` bounds what the string literals of a text can denote together: they
end before the last quote of the text.
-/

namespace Lib

namespace Sql

/-! ### String literals -/

/-- What `\e` stands for in a string literal. -/
def unescape (e : UInt8) : List UInt8 :=
  if e = 110 then [10]
  else if e = 116 then [9]
  else if e = 114 then [13]
  else if e = 98 then [8]
  else if e = 48 then [0]
  else if e = 90 then [26]
  else if e = 37 ∨ e = 95 then [92, e]
  else [e]

/-- One piece of a literal in the given quotes. -/
def strPiece (quote : UInt8) : List UInt8 → Option (Option (List UInt8) × List UInt8)
  | [] => none
  | b :: r =>
      if b = quote then
        match r with
        | [] => some (none, [])
        | c :: r' => if c = quote then some (some [quote], r') else some (none, c :: r')
      else if b = 92 then
        match r with
        | [] => none
        | e :: r' => some (some (unescape e), r')
      else some (some [b], r)

/-- String literals in the given quotes as a quoting convention. -/
def quoting (quote : UInt8) : Quoting where
  quote := quote
  isEsc b := b == 92 || b == quote
  piece := strPiece quote

/-- The two quotes of MySQL: neither is a backslash, and both may be escaped. -/
def IsQuote (quote : UInt8) : Prop := quote = 39 ∨ quote = 34

instance (quote : UInt8) : Decidable (IsQuote quote) := inferInstanceAs (Decidable (_ ∨ _))

theorem IsQuote.unescape {quote : UInt8} (h : IsQuote quote) : unescape quote = [quote] := by
  rcases h with rfl | rfl <;> rfl

theorem IsQuote.ne_backslash {quote : UInt8} (h : IsQuote quote) : quote ≠ 92 := by
  rcases h with rfl | rfl <;> decide

theorem length_unescape (e : UInt8) :
    unescape e = [92, e] ∧ (e = 37 ∨ e = 95) ∨ (unescape e).length = 1 := by
  unfold unescape
  repeat' split
  all_goals simp_all

theorem strPiece_close {quote : UInt8} {l r : List UInt8}
    (h : strPiece quote l = some (none, r)) : l = quote :: r := by
  unfold strPiece at h
  split at h
  · cases h
  split at h
  · rename_i hb
    rw [hb]
    split at h
    · cases h
      rfl
    split at h
    · cases h
    · cases h
      rfl
  split at h
  · split at h <;> cases h
  · cases h

/-- The other pieces: a doubled quote, an escape, or a byte as itself. -/
theorem strPiece_inv {quote : UInt8} {l d r : List UInt8}
    (h : strPiece quote l = some (some d, r)) :
    (l = quote :: quote :: r ∧ d = [quote]) ∨
    (∃ e, quote ≠ 92 ∧ l = 92 :: e :: r ∧ d = unescape e) ∨
    ∃ b, l = b :: r ∧ d = [b] ∧ b ≠ quote ∧ b ≠ 92 := by
  unfold strPiece at h
  split at h
  · cases h
  split at h
  · rename_i hb
    split at h
    · cases h
    split at h
    · rename_i hc
      cases h
      exact Or.inl ⟨by rw [hb, hc], rfl⟩
    · cases h
  rename_i hquote
  split at h
  · rename_i hesc
    split at h
    · cases h
    · cases h
      exact Or.inr (Or.inl ⟨_, fun he => hquote (hesc.trans he.symm), by rw [hesc], rfl⟩)
  · rename_i hesc
    cases h
    exact Or.inr (Or.inr ⟨_, rfl, rfl, hquote, hesc⟩)

theorem strPiece_plain {quote b : UInt8} (hquote : b ≠ quote) (hesc : b ≠ 92) (r : List UInt8) :
    strPiece quote (b :: r) = some (some [b], r) := by
  simp [strPiece, hquote, hesc]

theorem strPiece_escape {quote e : UInt8} (hquote : quote ≠ 92) (r : List UInt8) :
    strPiece quote (92 :: e :: r) = some (some (unescape e), r) := by
  simp [strPiece, hquote.symm]

theorem quoting_lawful {quote : UInt8} (hquote : IsQuote quote) : (quoting quote).Lawful where
  close := strPiece_close
  read {l d r} h := by
    rcases strPiece_inv h with ⟨rfl, rfl⟩ | ⟨e, hne, rfl, rfl⟩ | ⟨b, rfl, rfl, hb, hesc⟩
    · refine ⟨[quote, quote], rfl, by simp, by simp, by simp, ?_⟩
      intro x y hxy hx
      match x, hxy with
      | [x₀], hxy =>
          simp only [List.singleton_append, List.cons.injEq] at hxy
          obtain ⟨rfl, -, rfl⟩ := hxy
          exact ⟨rfl, ⟨quote, rfl, by simp [quoting]⟩, rfl⟩
      | _ :: _ :: x, hxy => simp at hxy
    · refine ⟨[92, e], rfl, by simp, ?_, ?_, ?_⟩
      · rcases length_unescape e with ⟨he, -⟩ | he
        · rw [he]
        · rw [he]
          simp
      · intro hlen
        rcases length_unescape e with ⟨he, -⟩ | he
        · refine ⟨he, fun X => ?_⟩
          exact (strPiece_escape hne X).trans (by rw [he])
        · rw [he] at hlen
          simp at hlen
      · intro x y hxy hx
        match x, hxy with
        | [x₀], hxy =>
            simp only [List.singleton_append, List.cons.injEq] at hxy
            obtain ⟨rfl, rfl, rfl⟩ := hxy
            exact ⟨rfl, ⟨92, rfl, rfl⟩, hquote.unescape⟩
        | _ :: _ :: x, hxy => simp at hxy
    · refine ⟨[b], rfl, by simp, Nat.le_refl _, fun _ => ⟨rfl, strPiece_plain hb hesc⟩, ?_⟩
      intro x y hxy hx
      cases x with
      | nil => exact absurd rfl hx
      | cons _ x => simp at hxy

/-- The texts that stand for themselves between the given quotes: no quote, and
backslashes only in `\%` and `\_`. -/
def PlainText (quote : UInt8) : List UInt8 → Bool
  | [] => true
  | [b] => b != quote && b != 92
  | b :: c :: r =>
      if b = 92 then (c == 37 || c == 95) && PlainText quote r
      else b != quote && PlainText quote (c :: r)

theorem plainText_cons {quote b : UInt8} {m : List UInt8} (hquote : b ≠ quote) (hesc : b ≠ 92) :
    PlainText quote (b :: m) = PlainText quote m := by
  cases m with
  | nil => simp [PlainText, hquote, hesc]
  | cons c m => simp [PlainText, hquote, hesc]

theorem plain_iff {quote : UInt8} (hquote : IsQuote quote) {m : List UInt8} :
    (quoting quote).Plain m ↔ PlainText quote m = true := by
  constructor
  · intro h
    induction h with
    | nil => rfl
    | @cons raw m hraw hplain _ ih =>
        rcases strPiece_inv (hplain []) with ⟨hl, hd⟩ | ⟨e, -, hl, hd⟩ | ⟨b, -, hd, hb, hesc⟩
        · rw [hd] at hl
          cases hl
        · rw [List.append_nil] at hl
          rw [hd] at hl
          rcases length_unescape e with ⟨he, hpc⟩ | he
          · rw [hd, he]
            simp only [List.cons_append, List.nil_append, PlainText, if_pos, ih, Bool.and_true]
            simpa using hpc
          · rw [hl] at he
            cases he
        · rw [hd, List.singleton_append, plainText_cons hb hesc, ih]
  · intro h
    fun_induction PlainText quote m with
    | case1 => exact .nil
    | case2 b =>
        simp only [Bool.and_eq_true, bne_iff_ne] at h
        exact .cons (List.cons_ne_nil b []) (strPiece_plain h.1 h.2) .nil
    | case3 c m ih =>
        simp only [Bool.and_eq_true, Bool.or_eq_true, beq_iff_eq] at h
        refine .cons (List.cons_ne_nil 92 [c]) (fun X => ?_) (ih h.2)
        rw [List.cons_append, List.cons_append, List.nil_append]
        refine (strPiece_escape hquote.ne_backslash X).trans ?_
        rcases h.1 with rfl | rfl <;> rfl
    | case4 b c m hesc ih =>
        simp only [Bool.and_eq_true, bne_iff_ne] at h
        exact .cons (List.cons_ne_nil b []) (strPiece_plain h.1 hesc) (ih h.2)

/-- A string literal, behind its opening quote. -/
def string (quote : UInt8) (l : List UInt8) : Option (List UInt8 × List UInt8) :=
  (quoting quote).scan (l.length + 1) l

theorem string_eq_some {quote : UInt8} (hquote : IsQuote quote) {l d r : List UInt8} :
    string quote l = some (d, r) ↔ (quoting quote).Scans l d r :=
  ⟨Quoting.scans_of_scan, fun h =>
    Quoting.scan_of_scans (quoting_lawful hquote) h (Nat.lt_succ_self _)⟩

/-! ### Tokens -/

/-- A token: a keyword or name, a number, a string literal, any other byte. -/
inductive Tok
  | word (w : List UInt8)
  | int (n : Nat)
  | str (s : List UInt8)
  | sym (b : UInt8)
  deriving Repr, DecidableEq

def isSpace (b : UInt8) : Bool := b == 32 || (9 ≤ b && b ≤ 13)

/-- The bytes of names and keywords. -/
def isWord (b : UInt8) : Bool :=
  isDigit b || (65 ≤ b && b ≤ 90) || (97 ≤ b && b ≤ 122) || b == 95 || b == 36 || 128 ≤ b

/-- Behind the end of a block comment. -/
def blockComment : List UInt8 → Option (List UInt8)
  | 42 :: 47 :: r => some r
  | _ :: r => blockComment r
  | [] => none

/-- A line comment starts with `#`, or with `--` and a space or the end. -/
def isLineComment (b : UInt8) (r : List UInt8) : Bool :=
  b == 35 || (b == 45 && r.head? == some 45 && (r.tail.isEmpty || r.tail.head?.any isSpace))

/-- What stands at the front of `b :: r`, which is no `;`: a token, or something
to be skipped (`none`). The comments `/*! .. */`, which the server executes, are
not known. -/
def lexeme (b : UInt8) (r : List UInt8) : Option (Option Tok × List UInt8) :=
  if isSpace b then some (none, r)
  else if isLineComment b r then some (none, r.dropWhile (· != 10))
  else if b = 47 ∧ r.head? = some 42 then
    if r.tail.head? = some 33 then none else (blockComment r.tail).map fun r' => (none, r')
  else if IsQuote b then (string b r).map fun p => (some (.str p.1), p.2)
  else if b = 96 then
    match r.dropWhile (· != 96) with
    | [] => none
    | _ :: r' => some (some (.word (r.takeWhile (· != 96))), r')
  else if isWord b then
    let w := (b :: r).takeWhile isWord
    some (some (if w.all isDigit then .int (natOf w) else .word w), r.dropWhile isWord)
  else some (some (.sym b), r)

/-- The tokens of the first statement, and the text behind its `;`. -/
def lexFuel : Nat → List UInt8 → Option (List Tok × List UInt8)
  | 0, _ => none
  | _ + 1, [] => some ([], [])
  | n + 1, b :: r =>
      if b = 59 then some ([], r)
      else match lexeme b r with
        | none => none
        | some (none, r') => lexFuel n r'
        | some (some t, r') => (lexFuel n r').map fun p => (t :: p.1, p.2)

/-- `lexFuel` with a unit of fuel for every byte. -/
def lex (l : List UInt8) : Option (List Tok × List UInt8) := lexFuel (l.length + 1) l

theorem blockComment_suffix {l r : List UInt8} (h : blockComment l = some r) : r <:+ l := by
  fun_induction blockComment l with
  | case1 r' =>
      obtain rfl := Option.some.inj h
      exact (List.suffix_cons _ _).trans (List.suffix_cons _ _)
  | case2 b l _ ih => exact (ih h).trans (List.suffix_cons _ _)
  | case3 => cases h

/-- A front lexeme is a string literal or reads no literal at all. -/
theorem lexeme_cases {b : UInt8} {r r' : List UInt8} {t : Option Tok}
    (h : lexeme b r = some (t, r')) :
    (∃ d, t = some (.str d) ∧ IsQuote b ∧ (quoting b).Scans r d r') ∨
      ((∀ d, t ≠ some (.str d)) ∧ r' <:+ r) := by
  unfold lexeme at h
  split at h
  · cases h
    exact Or.inr ⟨nofun, List.suffix_refl _⟩
  split at h
  · cases h
    exact Or.inr ⟨nofun, List.dropWhile_suffix _⟩
  split at h
  · split at h
    · cases h
    · obtain ⟨r₁, h₁, heq⟩ := Option.map_eq_some_iff.mp h
      cases heq
      exact Or.inr ⟨nofun, (blockComment_suffix h₁).trans (List.tail_suffix _)⟩
  split at h
  · rename_i hquote
    obtain ⟨⟨d, r₁⟩, h₁, heq⟩ := Option.map_eq_some_iff.mp h
    cases heq
    exact Or.inl ⟨d, rfl, hquote, (string_eq_some hquote).mp h₁⟩
  split at h
  · split at h
    · cases h
    · rename_i c r₁ hdrop
      simp only [Option.some.injEq, Prod.mk.injEq] at h
      obtain ⟨rfl, rfl⟩ := h
      refine Or.inr ⟨nofun, (List.suffix_cons c r₁).trans ?_⟩
      rw [← hdrop]
      exact List.dropWhile_suffix _
  split at h
  · simp only [Option.some.injEq, Prod.mk.injEq] at h
    obtain ⟨rfl, rfl⟩ := h
    refine Or.inr ⟨fun d => ?_, List.dropWhile_suffix _⟩
    split <;> nofun
  · cases h
    exact Or.inr ⟨nofun, List.suffix_refl _⟩

theorem lexeme_length {b : UInt8} {r r' : List UInt8} {t : Option Tok}
    (h : lexeme b r = some (t, r')) : r'.length ≤ r.length := by
  rcases lexeme_cases h with ⟨d, -, hquote, hs⟩ | ⟨-, hsuf⟩
  · obtain ⟨raw, rfl, -⟩ := hs.split (quoting_lawful hquote)
    simp only [List.length_append, List.length_cons]
    omega
  · exact hsuf.length_le

theorem lexFuel_eq {n : Nat} {l : List UInt8} (h : l.length < n) : lexFuel n l = lex l := by
  suffices ∀ n l, l.length < n → ∀ k, l.length < k → lexFuel n l = lexFuel k l from
    this n l h _ (Nat.lt_succ_self _)
  intro n
  induction n with
  | zero => intro l h; omega
  | succ n ih =>
      intro l h k hk
      obtain ⟨k, rfl⟩ : ∃ j, k = j + 1 := ⟨k - 1, by omega⟩
      cases l with
      | nil => rfl
      | cons b r =>
          rw [List.length_cons] at h hk
          rw [lexFuel, lexFuel]
          split
          · rfl
          cases hlex : lexeme b r with
          | none => rfl
          | some p =>
              obtain ⟨t, r'⟩ := p
              have hlen := lexeme_length hlex
              have hrec := ih r' (by omega) k (by omega)
              cases t <;> simp only [hrec]

theorem lex_nil : lex [] = some ([], []) := rfl

/-- `;` ends the first statement. -/
theorem lex_semicolon (r : List UInt8) : lex (59 :: r) = some ([], r) := rfl

theorem lex_skip {b : UInt8} {r r' : List UInt8} (hb : b ≠ 59)
    (h : lexeme b r = some (none, r')) : lex (b :: r) = lex r' := by
  rw [lex, lexFuel, if_neg hb, h]
  exact lexFuel_eq (by have := lexeme_length h; rw [List.length_cons]; omega)

theorem lex_token {b : UInt8} {r r' : List UInt8} {t : Tok} (hb : b ≠ 59)
    (h : lexeme b r = some (some t, r')) :
    lex (b :: r) = (lex r').map fun p => (t :: p.1, p.2) := by
  rw [lex, lexFuel, if_neg hb, h]
  simp only
  rw [lexFuel_eq (by have := lexeme_length h; rw [List.length_cons]; omega)]

/-- How the tokens of a text arise, one lexeme at a time. -/
theorem lex_cons_inv {b : UInt8} {r rest : List UInt8} {ts : List Tok}
    (h : lex (b :: r) = some (ts, rest)) :
    (b = 59 ∧ ts = [] ∧ rest = r) ∨
    (∃ r', b ≠ 59 ∧ lexeme b r = some (none, r') ∧ lex r' = some (ts, rest)) ∨
    ∃ t r' ts', b ≠ 59 ∧ lexeme b r = some (some t, r') ∧ lex r' = some (ts', rest) ∧
      ts = t :: ts' := by
  by_cases hb : b = 59
  · subst hb
    rw [lex_semicolon] at h
    cases h
    exact Or.inl ⟨rfl, rfl, rfl⟩
  · cases hlex : lexeme b r with
    | none =>
        rw [lex, lexFuel, if_neg hb, hlex] at h
        cases h
    | some p =>
        obtain ⟨t, r'⟩ := p
        cases t with
        | none => exact Or.inr (Or.inl ⟨r', hb, rfl, lex_skip hb hlex ▸ h⟩)
        | some t =>
            rw [lex_token hb hlex] at h
            obtain ⟨⟨ts', rest'⟩, h', heq⟩ := Option.map_eq_some_iff.mp h
            cases heq
            exact Or.inr (Or.inr ⟨t, r', ts', hb, rfl, h', rfl⟩)

/-! ### Lexing printed text -/

/-- The next byte does not continue a word. -/
def WordEnd (r : List UInt8) : Prop := ∀ b, r.head? = some b → isWord b = false

theorem wordEnd_cons {b : UInt8} {r : List UInt8} (h : isWord b = false) : WordEnd (b :: r) := by
  intro c hc
  cases hc
  exact h

theorem wordEnd_append {w r : List UInt8} {b : UInt8} (hb : w.head? = some b)
    (h : isWord b = false) : WordEnd (w ++ r) := by
  cases w with
  | nil => cases hb
  | cons c w =>
      obtain rfl := Option.some.inj hb
      exact wordEnd_cons h

theorem lex_space (r : List UInt8) : lex (32 :: r) = lex r :=
  lex_skip (by decide) rfl

/-- Brackets, commas and `=` are tokens of one byte. -/
theorem lex_sym {b : UInt8} (hb : b = 40 ∨ b = 41 ∨ b = 44 ∨ b = 61) (r : List UInt8) :
    lex (b :: r) = (lex r).map fun p => (.sym b :: p.1, p.2) := by
  rcases hb with rfl | rfl | rfl | rfl <;> exact lex_token (by decide) rfl

private theorem isWord_facts :
    ∀ n < 256, isWord (UInt8.ofNat n) = true → isSpace (UInt8.ofNat n) = false ∧
      (UInt8.ofNat n) ≠ 35 ∧ (UInt8.ofNat n) ≠ 45 ∧ (UInt8.ofNat n) ≠ 47 ∧
      ¬ IsQuote (UInt8.ofNat n) ∧ (UInt8.ofNat n) ≠ 96 ∧ (UInt8.ofNat n) ≠ 59 := by
  decide +kernel

theorem lex_isWord {b : UInt8} {w r : List UInt8} (hw : ∀ c ∈ b :: w, isWord c = true)
    (hr : WordEnd r) :
    lex (b :: (w ++ r)) = (lex r).map fun p =>
      ((if (b :: w).all isDigit then .int (natOf (b :: w)) else .word (b :: w)) :: p.1, p.2) := by
  have hb := hw b List.mem_cons_self
  obtain ⟨hspace, h35, h45, h47, hquote, h96, h59⟩ :=
    isWord_facts b.toNat b.toNat_lt (by simpa using hb)
  simp only [UInt8.ofNat_toNat] at hspace h35 h45 h47 hquote h96 h59
  have htake : ∀ l, (∀ c ∈ l, isWord c = true) → (l ++ r).takeWhile isWord = l := by
    intro l hl
    rw [List.takeWhile_append_of_pos hl]
    cases r with
    | nil => simp
    | cons c r => simp [hr c rfl]
  have hdrop : (w ++ r).dropWhile isWord = r := by
    rw [List.dropWhile_append_of_pos fun c hc => hw c (List.mem_cons_of_mem _ hc)]
    cases r with
    | nil => simp
    | cons c r => simp [hr c rfl]
  refine lex_token h59 ?_
  have hline : isLineComment b (w ++ r) = false := by simp [isLineComment, h35, h45]
  rw [lexeme, hspace, hline, if_neg (by simp), if_neg (by simp), if_neg (fun h => h47 h.1),
    if_neg hquote, if_neg h96, if_pos hb, ← List.cons_append, htake _ hw, hdrop]

/-- The text of a word: its bytes can stand in one, and are not all digits. -/
structure IsWordText (w : List UInt8) : Prop where
  bytes : ∀ b ∈ w, isWord b = true
  not_digits : w.all isDigit = false

instance (w : List UInt8) : Decidable (IsWordText w) :=
  decidable_of_iff ((∀ b ∈ w, isWord b = true) ∧ w.all isDigit = false)
    ⟨fun h => ⟨h.1, h.2⟩, fun h => ⟨h.bytes, h.not_digits⟩⟩

/-- A word is read up to the first byte that cannot belong to it. -/
theorem lex_word {w r : List UInt8} (hw : IsWordText w) (hr : WordEnd r) :
    lex (w ++ r) = (lex r).map fun p => (.word w :: p.1, p.2) := by
  cases w with
  | nil => cases hw.not_digits
  | cons b w =>
      rw [List.cons_append, lex_isWord hw.bytes hr, hw.not_digits]
      rfl

/-- A word and the space behind it. -/
theorem lex_word_space {w : List UInt8} (hw : IsWordText w) (r : List UInt8) :
    lex (w ++ 32 :: r) = (lex r).map fun p => (.word w :: p.1, p.2) := by
  rw [lex_word hw (wordEnd_cons (by decide)), lex_space]

/-- A word and the sign behind it, with spaces. -/
theorem lex_word_sym {w : List UInt8} (hw : IsWordText w) {b : UInt8}
    (hb : b = 40 ∨ b = 41 ∨ b = 44 ∨ b = 61) (r : List UInt8) :
    lex (w ++ 32 :: b :: 32 :: r) = (lex r).map fun p => (.word w :: .sym b :: p.1, p.2) := by
  rw [lex_word_space hw, lex_sym hb, lex_space, Option.map_map]
  rfl

/-- A printed natural number is read back. -/
theorem lex_nat {n : Nat} {r : List UInt8} (hr : WordEnd r) :
    lex (decNat n ++ r) = (lex r).map fun p => (.int n :: p.1, p.2) := by
  have hdig : (decNat n).all isDigit = true :=
    List.all_eq_true.mpr fun b hb => isDigit_of_mem_decNat hb
  have hw : ∀ b ∈ decNat n, isWord b = true := fun b hb => by
    simp [isWord, isDigit_of_mem_decNat hb]
  have hnat := natOf_decNat n
  cases h : decNat n with
  | nil => exact absurd h (decNat_ne_nil n)
  | cons b w =>
      rw [h] at hdig hw hnat
      rw [List.cons_append, lex_isWord hw hr, hdig, hnat]
      rfl

/-- The tokens of a printed integer. -/
def intToks (n : Int) : List Tok := if n < 0 then [.sym 45, .int n.natAbs] else [.int n.natAbs]

theorem lex_int {n : Int} {r : List UInt8} (hr : WordEnd r) :
    lex (decInt n ++ r) = (lex r).map fun p => (intToks n ++ p.1, p.2) := by
  rcases decInt_cases n with ⟨hneg, heq⟩ | ⟨hpos, heq⟩
  · obtain ⟨d, ds, hd, hdig⟩ := decNat_cons n.natAbs
    have hd45 : d ≠ 45 := by
      intro heq
      subst heq
      cases hdig
    have hminus : lexeme 45 (decNat n.natAbs ++ r) =
        some (some (.sym 45), decNat n.natAbs ++ r) := by
      have hline : isLineComment 45 (decNat n.natAbs ++ r) = false := by
        simp [isLineComment, hd, hd45]
      rw [lexeme, hline]
      rfl
    rw [heq, List.cons_append, lex_token (by decide) hminus, lex_nat hr, Option.map_map, intToks,
      if_pos hneg]
    rfl
  · rw [heq, lex_nat hr, intToks, if_neg (by omega)]
    rfl

/-- A text put between quotes as it is. -/
theorem lex_plain {quote : UInt8} {m r : List UInt8} (hquote : IsQuote quote)
    (hm : PlainText quote m = true) (hr : r.head? ≠ some quote) :
    lex (quote :: (m ++ quote :: r)) = (lex r).map fun p => (.str m :: p.1, p.2) := by
  have hclose : (quoting quote).piece (quote :: r) = some (none, r) := by
    cases r with
    | nil => simp [quoting, strPiece]
    | cons c r =>
        have hc : c ≠ quote := by simpa using hr
        simp [quoting, strPiece, hc]
  have hstr : string quote (m ++ quote :: r) = some (m, r) :=
    (string_eq_some hquote).mpr (((plain_iff hquote).mpr hm).scans hclose)
  refine lex_token (by rcases hquote with rfl | rfl <;> decide) ?_
  rcases hquote with rfl | rfl
  · show (string 39 (m ++ 39 :: r)).map (fun p => (some (Tok.str p.1), p.2)) = _
    rw [hstr]
    rfl
  · show (string 34 (m ++ 34 :: r)).map (fun p => (some (Tok.str p.1), p.2)) = _
    rw [hstr]
    rfl

/-- What a text in quotes begins with, when it is read at all. -/
theorem lex_quote_inv {quote : UInt8} (hquote : IsQuote quote) {l rest : List UInt8} {ts : List Tok}
    (h : lex (quote :: l) = some (ts, rest)) :
    ∃ d r ts', (Sql.quoting quote).Scans l d r ∧ ts = .str d :: ts' := by
  have hlexeme : lexeme quote l = (string quote l).map fun p => (some (.str p.1), p.2) := by
    rcases hquote with rfl | rfl <;> rfl
  rcases lex_cons_inv h with ⟨hb, -⟩ | ⟨r', -, hlex, -⟩ | ⟨t, r', ts', -, hlex, -, rfl⟩
  · rcases hquote with rfl | rfl <;> cases hb
  · rw [hlexeme] at hlex
    obtain ⟨p, -, heq⟩ := Option.map_eq_some_iff.mp hlex
    cases heq
  · rw [hlexeme] at hlex
    obtain ⟨⟨d, r⟩, hs, heq⟩ := Option.map_eq_some_iff.mp hlex
    cases heq
    exact ⟨d, r, ts', (string_eq_some hquote).mp hs, rfl⟩

/-! ### The size of the string literals -/

/-- The bytes that the string literals among the tokens take at least. -/
def strSize : List Tok → Nat
  | [] => 0
  | .str s :: ts => s.length + 2 + strSize ts
  | _ :: ts => strSize ts

/-- Without its string literals a token list has no size. -/
private theorem strSize_cons_of_ne {t : Tok} {ts : List Tok} (h : ∀ d, t ≠ .str d) :
    strSize (t :: ts) = strSize ts := by
  cases t with
  | str d => exact absurd rfl (h d)
  | word _ => rfl
  | int _ => rfl
  | sym _ => rfl

/-- A text without quotes has no string literal. -/
theorem strSize_eq_zero {l rest : List UInt8} {ts : List Tok} (hno : 39 ∉ l ∧ 34 ∉ l)
    (h : lex l = some (ts, rest)) : strSize ts = 0 := by
  induction hn : l.length using Nat.strong_induction_on generalizing l ts with
  | _ n ih =>
      cases l with
      | nil =>
          rw [lex_nil] at h
          cases h
          rfl
      | cons b r =>
          have hstep : ∀ t r' ts', lexeme b r = some (t, r') → lex r' = some (ts', rest) →
              strSize ts' = 0 ∧ ∀ d, t ≠ some (.str d) := by
            intro t r' ts' hlex h'
            rcases lexeme_cases hlex with ⟨d, -, rfl | rfl, -⟩ | ⟨ht, hsuf⟩
            · exact absurd List.mem_cons_self hno.1
            · exact absurd List.mem_cons_self hno.2
            · have hsub : ∀ q, q ∉ b :: r → q ∉ r' := fun q hq hmem =>
                hq (List.mem_cons_of_mem _ (hsuf.subset hmem))
              have hlt : r'.length < n := by
                have := hsuf.length_le
                subst hn
                rw [List.length_cons]
                omega
              exact ⟨ih r'.length hlt ⟨hsub _ hno.1, hsub _ hno.2⟩ h' rfl, ht⟩
          rcases lex_cons_inv h with ⟨-, rfl, -⟩ | ⟨r', -, hlex, h'⟩ |
            ⟨t, r', ts', -, hlex, h', rfl⟩
          · rfl
          · exact (hstep none r' ts hlex h').1
          · obtain ⟨hzero, ht⟩ := hstep (some t) r' ts' hlex h'
            rw [strSize_cons_of_ne fun d hd => ht d (congrArg some hd), hzero]

/-- The string literals of a text end before its last part without quotes. -/
theorem strSize_le {A tail rest : List UInt8} {ts : List Tok} (htail : 39 ∉ tail ∧ 34 ∉ tail)
    (h : lex (A ++ tail) = some (ts, rest)) : strSize ts ≤ A.length := by
  induction hn : A.length using Nat.strong_induction_on generalizing A ts with
  | _ n ih =>
      have hno : ∀ q, IsQuote q → q ∉ tail := by
        intro q hq
        rcases hq with rfl | rfl
        · exact htail.1
        · exact htail.2
      cases A with
      | nil => exact Nat.le_of_eq ((strSize_eq_zero htail h).trans hn)
      | cons b A =>
          rw [List.cons_append] at h
          rw [List.length_cons] at hn
          -- a lexeme that is no literal leaves a part of `A` or of `tail`
          have hrest : ∀ r' ts', r' <:+ A ++ tail → lex r' = some (ts', rest) →
              strSize ts' ≤ A.length := by
            intro r' ts' hsuf h'
            obtain ⟨u, hu⟩ := hsuf
            rcases List.append_eq_append_iff.mp hu with ⟨v, rfl, rfl⟩ | ⟨v, rfl, rfl⟩
            · rw [List.length_append] at hn ⊢
              have := ih v.length (by omega) h' rfl
              omega
            · have hsub : ∀ q, q ∉ v ++ r' → q ∉ r' := fun q hq hmem =>
                hq (List.mem_append_right _ hmem)
              rw [strSize_eq_zero ⟨hsub _ htail.1, hsub _ htail.2⟩ h']
              exact Nat.zero_le _
          have hone : ∀ t r' ts', lexeme b (A ++ tail) = some (t, r') → lex r' = some (ts', rest) →
              (∃ d, t = some (.str d) ∧ d.length + 2 + strSize ts' ≤ A.length + 1) ∨
                ((∀ d, t ≠ some (.str d)) ∧ strSize ts' ≤ A.length) := by
            intro t r' ts' hlex h'
            rcases lexeme_cases hlex with ⟨d, rfl, hquote, hs⟩ | ⟨ht, hsuf⟩
            · obtain ⟨B, rfl, hlen⟩ := hs.suffix (quoting_lawful hquote) (hno b hquote)
              have := ih B.length (by omega) h' rfl
              exact Or.inl ⟨d, rfl, by omega⟩
            · exact Or.inr ⟨ht, hrest r' ts' hsuf h'⟩
          subst hn
          rcases lex_cons_inv h with ⟨-, rfl, -⟩ | ⟨r', -, hlex, h'⟩ |
            ⟨t, r', ts', -, hlex, h', rfl⟩
          · exact Nat.zero_le _
          · rcases hone none r' ts hlex h' with ⟨d, hd, -⟩ | ⟨-, hle⟩
            · cases hd
            · omega
          · rcases hone (some t) r' ts' hlex h' with ⟨d, hd, hle⟩ | ⟨ht, hle⟩
            · cases hd
              exact hle
            · rw [strSize_cons_of_ne fun d hd => ht d (congrArg some hd)]
              omega

end Sql

end Lib
