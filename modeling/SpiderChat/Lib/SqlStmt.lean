import SpiderChat.Lib.SqlLex

/-!
# SpiderChat.Lib.SqlStmt

The statements of a message store, read from the tokens of a MySQL text:
`INSERT .. VALUES` with one or more rows of literals, and `SELECT` and `DELETE`
by one column. Other statements are not known and read as errors.

`first` reads the first statement alone, as the server does before it looks at
the rest of a text; `read` reads all of them.
-/

namespace Lib

namespace Sql

/-! ### Statements -/

/-- Joins adjacent string literals. -/
def join : List Tok → List Tok
  | [] => []
  | .str a :: ts =>
      match join ts with
      | .str b :: ts' => .str (a ++ b) :: ts'
      | ts' => .str a :: ts'
  | t :: ts => t :: join ts

/-- A literal value. -/
inductive Val
  | int (n : Int)
  | str (s : List UInt8)
  deriving Repr, DecidableEq

/-- The statements of a message store. -/
inductive Stmt
  | insert (table : List UInt8) (cols : List (List UInt8)) (rows : List (List Val))
  | select (cols : List (List UInt8)) (table col : List UInt8) (v : Val)
  | delete (table col : List UInt8) (v : Val)
  deriving Repr, DecidableEq

/-- Keywords are read without regard to case. -/
def keyword (w : List UInt8) : List UInt8 := w.map fun b => if 65 ≤ b ∧ b ≤ 90 then b + 32 else b

/-- Behind a value of a row: a comma and `more` values, or the closing bracket. -/
def afterVal (b : UInt8) (v : Val) (ts : List Tok) (more : Option (List Val × List Tok)) :
    Option (List Val × List Tok) :=
  if b = 44 then more.map fun p => (v :: p.1, p.2)
  else if b = 41 then some ([v], ts)
  else none

/-- The values of a row, up to the closing bracket. -/
def vals : List Tok → Option (List Val × List Tok)
  | .sym m :: .int n :: .sym b :: ts =>
      if m = 45 then afterVal b (.int (-(n : Int))) ts (vals ts) else none
  | .int n :: .sym b :: ts => afterVal b (.int n) ts (vals ts)
  | .str s :: .sym b :: ts => afterVal b (.str s) ts (vals ts)
  | _ => none

/-- `( .. ) , ( .. )`, to the end of the statement. -/
def rows : Nat → List Tok → Option (List (List Val))
  | n + 1, .sym b :: ts =>
      if b = 40 then
        match vals ts with
        | some (vs, []) => some [vs]
        | some (vs, .sym c :: ts') => if c = 44 then (rows n ts').map fun rs => vs :: rs else none
        | _ => none
      else none
  | _, _ => none

/-- Names separated by commas, up to the closing bracket. -/
def names : List Tok → Option (List (List UInt8) × List Tok)
  | .word w :: .sym b :: ts =>
      if b = 44 then (names ts).map fun p => (w :: p.1, p.2)
      else if b = 41 then some ([w], ts)
      else none
  | _ => none

/-- Names separated by commas. -/
def columns : List Tok → Option (List (List UInt8) × List Tok)
  | .word w :: .sym b :: ts =>
      if b = 44 then (columns ts).map fun p => (w :: p.1, p.2) else none
  | .word w :: ts => some ([w], ts)
  | _ => none

/-- `where col=value`, to the end of the statement. -/
def condition : List Tok → Option (List UInt8 × Val)
  | [.word w, .word c, .sym e, .int n] =>
      if keyword w = ascii "where" ∧ e = 61 then some (c, .int n) else none
  | [.word w, .word c, .sym e, .sym m, .int n] =>
      if keyword w = ascii "where" ∧ e = 61 ∧ m = 45 then some (c, .int (-(n : Int))) else none
  | [.word w, .word c, .sym e, .str s] =>
      if keyword w = ascii "where" ∧ e = 61 then some (c, .str s) else none
  | _ => none

/-- Behind `INSERT INTO`. -/
def insertStmt : List Tok → Option Stmt
  | .word t :: .sym b :: ts =>
      if b = 40 then
        match names ts with
        | some (cols, .word v :: ts') =>
            if keyword v = ascii "values" then
              (rows (ts'.length + 1) ts').map fun rs => .insert t cols rs
            else none
        | _ => none
      else none
  | _ => none

/-- Behind `SELECT`. -/
def selectStmt (ts : List Tok) : Option Stmt :=
  match columns ts with
  | some (cols, .word f :: .word t :: ts') =>
      if keyword f = ascii "from" then (condition ts').map fun c => .select cols t c.1 c.2 else none
  | _ => none

/-- Behind `DELETE FROM`. -/
def deleteStmt : List Tok → Option Stmt
  | .word t :: ts => (condition ts).map fun c => .delete t c.1 c.2
  | _ => none

/-- A statement, from its tokens. -/
def stmt : List Tok → Option Stmt
  | .word k :: .word k' :: ts =>
      if keyword k = ascii "select" then selectStmt (.word k' :: ts)
      else if keyword k = ascii "insert" ∧ keyword k' = ascii "into" then insertStmt ts
      else if keyword k = ascii "delete" ∧ keyword k' = ascii "from" then deleteStmt ts
      else none
  | _ => none

/-- The first statement of a text. -/
def first (l : List UInt8) : Option Stmt := (lex l).bind fun p => stmt (join p.1)

/-- The statements of a text. -/
def readFuel : Nat → List UInt8 → Option (List Stmt)
  | 0, _ => none
  | n + 1, l =>
      match lex l with
      | none => none
      | some ([], []) => some []
      | some (ts, rest) =>
          match stmt (join ts), readFuel n rest with
          | some s, some ss => some (s :: ss)
          | _, _ => none

/-- All statements of a text; `none` when one of them is not read. -/
def read (l : List UInt8) : Option (List Stmt) := readFuel (l.length + 1) l

/-- A text of one statement is its first statement. -/
theorem first_of_read {l : List UInt8} {s : Stmt} (h : read l = some [s]) : first l = some s := by
  unfold read readFuel at h
  split at h
  · cases h
  · cases h
  · rename_i ts rest _ hlex
    split at h
    · rename_i s' ss hs _
      simp only [Option.some.injEq, List.cons.injEq] at h
      simp [first, hlex, hs, h.1]
    · cases h

/-- A text whose only `;` is at its end has one statement. -/
theorem read_single {l : List UInt8} {ts : List Tok} {s : Stmt} (hlex : lex l = some (ts, []))
    (hs : stmt (join ts) = some s) : read l = some [s] := by
  cases l with
  | nil =>
      rw [lex_nil] at hlex
      cases hlex
      cases hs
  | cons b l =>
      cases ts with
      | nil => cases hs
      | cons t ts =>
          have hnil : readFuel (l.length + 1) [] = some [] := rfl
          rw [read, List.length_cons, readFuel, hlex]
          simp only [hs, hnil]

/-! ### String literals among the tokens -/

/-- No string literal. -/
def NoStr (ts : List Tok) : Prop := ∀ d, .str d ∉ ts

theorem join_append {ts : List Tok} (h : NoStr ts) (us : List Tok) :
    join (ts ++ us) = ts ++ join us := by
  induction ts with
  | nil => rfl
  | cons t ts ih =>
      have htail := ih fun d hd => h d (List.mem_cons_of_mem _ hd)
      cases t with
      | str d => exact absurd List.mem_cons_self (h d)
      | word _ => exact congrArg _ htail
      | int _ => exact congrArg _ htail
      | sym _ => exact congrArg _ htail

/-- A literal stays as it is, or is joined with the literals behind it, and then
it takes less than these do. -/
theorem join_str (d : List UInt8) (ts : List Tok) :
    join (.str d :: ts) = .str d :: join ts ∨
      ∃ e ts', join ts = .str e :: ts' ∧ join (.str d :: ts) = .str (d ++ e) :: ts' := by
  cases h : join ts with
  | nil => exact Or.inl (by rw [join, h])
  | cons t ts' =>
      cases t with
      | str e => exact Or.inr ⟨e, ts', rfl, by rw [join, h]⟩
      | word _ => exact Or.inl (by rw [join, h])
      | int _ => exact Or.inl (by rw [join, h])
      | sym _ => exact Or.inl (by rw [join, h])

theorem strSize_join_le (ts : List Tok) : strSize (join ts) ≤ strSize ts := by
  induction ts with
  | nil => exact Nat.le_refl _
  | cons t ts ih =>
      cases t with
      | str d =>
          rcases join_str d ts with h | ⟨e, ts', he, h⟩
          · rw [h, strSize, strSize]
            omega
          · rw [he, strSize] at ih
            rw [h, strSize, strSize, List.length_append]
            omega
      | word _ => exact ih
      | int _ => exact ih
      | sym _ => exact ih

theorem le_strSize {ts : List Tok} {d : List UInt8} (h : .str d ∈ ts) :
    d.length + 2 ≤ strSize ts := by
  induction ts with
  | nil => cases h
  | cons t ts ih =>
      rcases List.mem_cons.mp h with rfl | h
      · rw [strSize]
        omega
      · have := ih h
        cases t with
        | str d => rw [strSize]; omega
        | word _ => exact this
        | int _ => exact this
        | sym _ => exact this

/-- A literal as long as all literals together is the first of them, joined with none. -/
theorem eq_of_mem_join {d m : List UInt8} {ts : List Tok} (h : .str m ∈ join (.str d :: ts))
    (hsize : strSize (.str d :: ts) ≤ m.length + 2) : m = d := by
  rw [strSize] at hsize
  rcases join_str d ts with hj | ⟨e, ts', he, hj⟩
  · rw [hj] at h
    rcases List.mem_cons.mp h with heq | h
    · exact Tok.str.inj heq
    · have := le_strSize h
      have := strSize_join_le ts
      omega
  · have hle := strSize_join_le ts
    rw [he, strSize] at hle
    rw [hj] at h
    rcases List.mem_cons.mp h with heq | h
    · rw [Tok.str.inj heq, List.length_append] at hsize
      omega
    · have := le_strSize h
      omega

/-- One value of a row, and the rest of it. -/
theorem vals_inv {ts rest : List Tok} {vs : List Val} (h : vals ts = some (vs, rest)) :
    ∃ v front b us, ts = front ++ .sym b :: us ∧ (∀ s, v = .str s → .str s ∈ front) ∧
      ((∃ vs', vals us = some (vs', rest) ∧ vs = v :: vs') ∨ (vs = [v] ∧ rest = us)) := by
  have hafter : ∀ {b v us}, afterVal b v us (vals us) = some (vs, rest) →
      (∃ vs', vals us = some (vs', rest) ∧ vs = v :: vs') ∨ (vs = [v] ∧ rest = us) := by
    intro b v us hb
    unfold afterVal at hb
    split at hb
    · obtain ⟨⟨vs', r⟩, hmore, heq⟩ := Option.map_eq_some_iff.mp hb
      cases heq
      exact Or.inl ⟨vs', hmore, rfl⟩
    split at hb
    · cases hb
      exact Or.inr ⟨rfl, rfl⟩
    · cases hb
  unfold vals at h
  split at h
  · rename_i m n b us
    split at h
    · exact ⟨.int (-(n : Int)), [.sym m, .int n], b, us, rfl, nofun, hafter h⟩
    · cases h
  · rename_i n b us
    exact ⟨.int n, [.int n], b, us, rfl, nofun, hafter h⟩
  · rename_i s b us
    refine ⟨_, [.str s], b, us, rfl, fun s' hs => ?_, hafter h⟩
    cases hs
    exact List.mem_singleton_self _
  · cases h

/-- The string values of a row are literals of its text. -/
theorem str_mem_of_vals {ts rest : List Tok} {vs : List Val} (h : vals ts = some (vs, rest)) :
    (∀ s, .str s ∈ vs → .str s ∈ ts) ∧ ∀ s, .str s ∈ rest → .str s ∈ ts := by
  induction hn : ts.length using Nat.strong_induction_on generalizing ts vs with
  | _ n ih =>
      obtain ⟨v, front, b, us, rfl, hv, hrest⟩ := vals_inv h
      have hus : ∀ s, .str s ∈ us → .str s ∈ front ++ .sym b :: us := fun s hs =>
        List.mem_append_right _ (List.mem_cons_of_mem _ hs)
      rcases hrest with ⟨vs', h', rfl⟩ | ⟨rfl, rfl⟩
      · obtain ⟨hmem, hsub⟩ := ih us.length
          (by subst hn; simp only [List.length_append, List.length_cons]; omega) h' rfl
        refine ⟨fun s hs => ?_, fun s hs => hus s (hsub s hs)⟩
        rcases List.mem_cons.mp hs with heq | hs
        · exact List.mem_append_left _ (hv s heq.symm)
        · exact hus s (hmem s hs)
      · exact ⟨fun s hs => List.mem_append_left _ (hv s (List.mem_singleton.mp hs).symm), hus⟩

theorem str_mem_of_rows {n : Nat} {ts : List Tok} {rs : List (List Val)} (h : rows n ts = some rs)
    {row : List Val} (hrow : row ∈ rs) {s : List UInt8} (hs : .str s ∈ row) : .str s ∈ ts := by
  induction n generalizing ts rs with
  | zero => simp [rows] at h
  | succ n ih =>
      unfold rows at h
      split at h
      · rename_i n' b us heq
        cases heq
        split at h
        · split at h
          · rename_i vs hvs
            cases h
            obtain rfl := List.mem_singleton.mp hrow
            exact List.mem_cons_of_mem _ ((str_mem_of_vals hvs).1 s hs)
          · rename_i vs c us' hvs
            split at h
            · obtain ⟨rs', h', rfl⟩ := Option.map_eq_some_iff.mp h
              rcases List.mem_cons.mp hrow with rfl | hrow
              · exact List.mem_cons_of_mem _ ((str_mem_of_vals hvs).1 s hs)
              · exact List.mem_cons_of_mem _
                  ((str_mem_of_vals hvs).2 s (List.mem_cons_of_mem _ (ih h' hrow)))
            · cases h
          · cases h
        · cases h
      · cases h

/-- What an `INSERT` is read from. -/
theorem insertStmt_inv {ts : List Tok} {t : List UInt8} {cols : List (List UInt8)}
    {rs : List (List Val)} (h : insertStmt ts = some (.insert t cols rs)) :
    ∃ us, ts = .word t :: .sym 40 :: us ∧
      ∀ row ∈ rs, ∀ s, .str s ∈ row → .str s ∈ us := by
  have hnames : ∀ {us cols vs}, names us = some (cols, vs) → ∀ s, Tok.str s ∈ vs → .str s ∈ us := by
    intro us
    fun_induction names us with
    | case1 w us ih =>
        intro cols vs hn s hs
        obtain ⟨p, hp, heq⟩ := Option.map_eq_some_iff.mp hn
        cases heq
        exact List.mem_cons_of_mem _ (List.mem_cons_of_mem _ (ih hp s hs))
    | case2 w us =>
        intro cols vs hn s hs
        cases hn
        exact List.mem_cons_of_mem _ (List.mem_cons_of_mem _ hs)
    | case3 => nofun
    | case4 => nofun
  unfold insertStmt at h
  split at h
  · split at h
    · rename_i t' b us hb
      subst hb
      split at h
      · rename_i cols' v us' hcols
        split at h
        · obtain ⟨rs', hrs, heq⟩ := Option.map_eq_some_iff.mp h
          cases heq
          exact ⟨us, rfl, fun row hrow s hs =>
            hnames hcols s (List.mem_cons_of_mem _ (str_mem_of_rows hrs hrow hs))⟩
        · cases h
      · cases h
    · cases h
  · cases h

theorem vals_int (n : Int) (b : UInt8) (ts : List Tok) :
    vals (intToks n ++ .sym b :: ts) = afterVal b (.int n) ts (vals ts) := by
  unfold intToks
  split
  · rw [List.cons_append, List.singleton_append, vals, if_pos rfl]
    congr 2
    omega
  · rw [List.singleton_append, vals]
    · congr 2
      omega

theorem noStr_intToks (n : Int) : NoStr (intToks n) := by
  intro d
  unfold intToks
  split <;> simp

end Sql

end Lib
