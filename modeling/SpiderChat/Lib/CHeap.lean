import Mathlib.Data.List.Basic
import Mathlib.Data.List.Perm.Subperm
import Mathlib.Data.List.Nodup

/-!
# SpiderChat.Lib.CHeap

**A heap of C structures and the linked lists in it.** Cells of one structure
type live at addresses; a pointer is an `Option Addr` whose `none` is `NULL`.
Reading, writing or freeing an address that is not allocated is undefined
behaviour, and every operation that may do so returns `none` there.

A linked list is described by the list of its cells, as pairs of an address and
the contents: `Holds` ties them to the heap, and the link fields are facts about
that list alone (`LinkedTo`, `BackLinked`), so pointer surgery becomes list
surgery. `search` is the loop `while (p != NULL && !test) p = p->next`; on a
linked list it is `List.find?` (`search_chain`).
-/

namespace Lib

/-- An address; `NULL` is not one of them. -/
abbrev Addr := Nat

/-- A pointer: `none` is `NULL`. -/
abbrev Ptr := Option Addr

/-- A heap of cells of type `α`: the allocated addresses with their contents. -/
abbrev Heap (α : Type*) := List (Addr × α)

variable {α : Type*}

namespace Heap

/-- The contents of an allocated address. -/
def get : Heap α → Addr → Option α
  | [], _ => none
  | c :: h, a => if c.1 = a then some c.2 else get h a

/-- Take an address out of the heap. -/
def erase (h : Heap α) (a : Addr) : Heap α := h.filter fun c => c.1 ≠ a

/-- Allocate (or overwrite) the cell at `a`. -/
def set (h : Heap α) (a : Addr) (n : α) : Heap α := (a, n) :: h.erase a

/-- `p->field = ..`: rewrite an allocated cell. -/
def update (h : Heap α) (a : Addr) (f : α → α) : Option (Heap α) :=
  (h.get a).map fun n => h.set a (f n)

/-- `free(p)`: fails on an address that is not allocated (a double free). -/
def free (h : Heap α) (a : Addr) : Option (Heap α) :=
  if (h.get a).isSome then some (h.erase a) else none

@[simp] theorem get_nil (a : Addr) : get ([] : Heap α) a = none := rfl

theorem get_erase_self (h : Heap α) (a : Addr) : (h.erase a).get a = none := by
  induction h with
  | nil => rfl
  | cons c h ih =>
      by_cases hc : c.1 = a
      · simpa [erase, hc] using ih
      · simpa [erase, hc, get] using ih

theorem get_erase_ne {h : Heap α} {a b : Addr} (hb : b ≠ a) :
    (h.erase a).get b = h.get b := by
  induction h with
  | nil => rfl
  | cons c h ih =>
      by_cases hc : c.1 = a
      · have hcb : c.1 ≠ b := fun he => hb (he.symm.trans hc)
        simpa [erase, hc, get, hcb, hb.symm] using ih
      · by_cases hcb : c.1 = b
        · simp [erase, get, hcb, hb]
        · simpa [erase, hc, get, hcb] using ih

@[simp] theorem get_set_self (h : Heap α) (a : Addr) (n : α) : (h.set a n).get a = some n := by
  simp [set, get]

theorem get_set_ne {h : Heap α} {a b : Addr} {n : α} (hb : b ≠ a) :
    (h.set a n).get b = h.get b := by
  simp [set, get, hb.symm, get_erase_ne hb]

theorem get_set (h : Heap α) (a b : Addr) (n : α) :
    (h.set a n).get b = if b = a then some n else h.get b := by
  by_cases hb : b = a
  · subst hb
    simp
  · simp [hb, get_set_ne hb]

@[simp] theorem set_set (h : Heap α) (a : Addr) (n m : α) : (h.set a n).set a m = h.set a m := by
  simp [set, erase]

theorem update_eq {h : Heap α} {a : Addr} {n : α} (ha : h.get a = some n) (f : α → α) :
    h.update a f = some (h.set a (f n)) := by
  simp [update, ha]

theorem free_eq {h : Heap α} {a : Addr} {n : α} (ha : h.get a = some n) :
    h.free a = some (h.erase a) := by
  simp [free, ha]

/-- Rewriting a cell neither allocates nor frees. -/
theorem get_update_eq_none {h h' : Heap α} {a : Addr} {f : α → α} (hu : h.update a f = some h')
    (b : Addr) : h'.get b = none ↔ h.get b = none := by
  obtain ⟨n, hn, rfl⟩ := Option.map_eq_some_iff.mp hu
  rw [get_set]
  split
  · rename_i heq
    simp [heq, hn]
  · rfl

theorem get_free {h h' : Heap α} {a : Addr} (hf : h.free a = some h') (b : Addr) :
    h'.get b = if b = a then none else h.get b := by
  unfold free at hf
  split at hf
  · obtain rfl := Option.some.inj hf
    split
    · rename_i heq
      rw [heq, get_erase_self]
    · rename_i hne
      exact get_erase_ne hne
  · cases hf

/-- Every allocated cell satisfies `P`. -/
def Each (P : α → Prop) (h : Heap α) : Prop := ∀ a n, h.get a = some n → P n

theorem Each.set {P : α → Prop} {h : Heap α} (he : h.Each P) (a : Addr) {n : α} (hn : P n) :
    (h.set a n).Each P := by
  intro b m hb
  rw [get_set] at hb
  split at hb
  · exact Option.some.inj hb ▸ hn
  · exact he b m hb

theorem Each.update {P : α → Prop} {h h' : Heap α} (he : h.Each P) {a : Addr} {f : α → α}
    (hf : ∀ n, P n → P (f n)) (hu : h.update a f = some h') : h'.Each P := by
  obtain ⟨n, hn, rfl⟩ := Option.map_eq_some_iff.mp hu
  exact he.set a (hf n (he a n hn))

theorem Each.free {P : α → Prop} {h h' : Heap α} (he : h.Each P) {a : Addr}
    (hf : h.free a = some h') : h'.Each P := by
  intro b n hb
  rw [get_free hf] at hb
  split at hb
  · cases hb
  · exact he b n hb

/-- A heap where nothing is allocated. -/
theorem eq_nil {h : Heap α} (hh : ∀ a, h.get a = none) : h = [] := by
  cases h with
  | nil => rfl
  | cons c h =>
      have hc := hh c.1
      rw [get, if_pos rfl] at hc
      cases hc

/-- An allocated address occurs in the heap. -/
theorem mem_of_get {h : Heap α} {a : Addr} {n : α} (ha : h.get a = some n) :
    a ∈ h.map Prod.fst := by
  induction h with
  | nil => simp at ha
  | cons c h ih =>
      by_cases hc : c.1 = a
      · simp [hc]
      · rw [get, if_neg hc] at ha
        exact List.mem_cons_of_mem _ (ih ha)

end Heap

/-! ### Cells and the heap -/

/-- The heap holds every cell of the list. -/
def Holds (h : Heap α) (cells : List (Addr × α)) : Prop :=
  ∀ c ∈ cells, h.get c.1 = some c.2

theorem holds_cons {h : Heap α} {c : Addr × α} {cs : List (Addr × α)} :
    Holds h (c :: cs) ↔ h.get c.1 = some c.2 ∧ Holds h cs := by
  simp [Holds]

/-- Distinct cells fit in the heap, so its size bounds every loop over them. -/
theorem Holds.length_le {h : Heap α} {cells : List (Addr × α)} (hh : Holds h cells)
    (hnd : (cells.map Prod.fst).Nodup) : cells.length ≤ h.length := by
  have hsub : cells.map Prod.fst ⊆ h.map Prod.fst := by
    intro a ha
    obtain ⟨c, hc, rfl⟩ := List.mem_map.mp ha
    exact Heap.mem_of_get (hh c hc)
  simpa using (List.subperm_of_subset hnd hsub).length_le

/-- The heap consists of exactly these cells, at distinct addresses. -/
structure Owns (h : Heap α) (cells : List (Addr × α)) : Prop where
  get_iff : ∀ a n, h.get a = some n ↔ (a, n) ∈ cells
  nodup : (cells.map Prod.fst).Nodup

namespace Owns

variable {h : Heap α} {cells xs ys : List (Addr × α)} {a : Addr} {n : α}

theorem holds (ho : Owns h cells) : Holds h cells := fun c hc => (ho.get_iff c.1 c.2).mpr hc

theorem get (ho : Owns h (xs ++ (a, n) :: ys)) : h.get a = some n :=
  (ho.get_iff a n).mpr (by simp)

theorem perm (ho : Owns h cells) (hp : cells.Perm ys) : Owns h ys :=
  ⟨fun a n => (ho.get_iff a n).trans hp.mem_iff, (hp.map Prod.fst).nodup_iff.mp ho.nodup⟩

/-- The first cell is the split behind no cell. -/
theorem get_head (ho : Owns h ((a, n) :: ys)) : h.get a = some n :=
  (ho.get_iff a n).mpr List.mem_cons_self

/-- Split one cell further to the right. -/
theorem shift {c d : Addr × α} (ho : Owns h (xs ++ c :: d :: ys)) :
    Owns h ((xs ++ [c]) ++ d :: ys) := by
  simpa using ho

/-- A fresh address is not one of the cells. -/
theorem not_mem (ho : Owns h cells) (ha : h.get a = none) : a ∉ cells.map Prod.fst := by
  intro hmem
  obtain ⟨c, hc, rfl⟩ := List.mem_map.mp hmem
  rw [ho.holds c hc] at ha
  exact absurd ha (by simp)

theorem length_le (ho : Owns h cells) : cells.length ≤ h.length :=
  ho.holds.length_le ho.nodup

/-- In a cell list without repeated addresses, an address splits off one cell. -/
theorem not_mem_of_split (ho : Owns h (xs ++ (a, n) :: ys)) :
    a ∉ xs.map Prod.fst ∧ a ∉ ys.map Prod.fst := by
  have hnd := ho.nodup
  simp only [List.map_append, List.map_cons, List.nodup_append, List.nodup_cons] at hnd
  exact ⟨fun hx => hnd.2.2 a hx a (List.mem_cons_self ..) rfl, hnd.2.1.1⟩

/-- `malloc`: a fresh address adds a cell. -/
theorem set_new (ho : Owns h cells) (ha : h.get a = none) (n : α) :
    Owns (h.set a n) (cells ++ [(a, n)]) := by
  have hnot := ho.not_mem ha
  refine ⟨fun b m => ?_, ?_⟩
  · rw [Heap.get_set]
    by_cases hb : b = a
    · subst hb
      have hm : (b, m) ∉ cells := fun hmem => hnot (List.mem_map_of_mem (f := Prod.fst) hmem)
      simp [hm, eq_comm]
    · simp [hb, ho.get_iff]
  · rw [List.map_append]
    exact List.nodup_append.mpr
      ⟨ho.nodup, by simp, fun b hb c hc => by
        obtain rfl : c = a := by simpa using hc
        exact fun he => hnot (he ▸ hb)⟩

/-- A field write changes one cell in place. -/
theorem set_at (ho : Owns h (xs ++ (a, n) :: ys)) (n' : α) :
    Owns (h.set a n') (xs ++ (a, n') :: ys) := by
  obtain ⟨hx, hy⟩ := ho.not_mem_of_split
  refine ⟨fun b m => ?_, by simpa using ho.nodup⟩
  rw [Heap.get_set]
  by_cases hb : b = a
  · subst hb
    have hmx : (b, m) ∉ xs := fun hmem => hx (List.mem_map_of_mem (f := Prod.fst) hmem)
    have hmy : (b, m) ∉ ys := fun hmem => hy (List.mem_map_of_mem (f := Prod.fst) hmem)
    simp [hmx, hmy, eq_comm]
  · simp [hb, ho.get_iff]

theorem set_head (ho : Owns h ((a, n) :: ys)) (n' : α) : Owns (h.set a n') ((a, n') :: ys) := by
  have hsplit : Owns h ([] ++ (a, n) :: ys) := ho
  exact hsplit.set_at n'

/-- `free` takes one cell out. -/
theorem erase_at (ho : Owns h (xs ++ (a, n) :: ys)) : Owns (h.erase a) (xs ++ ys) := by
  obtain ⟨hx, hy⟩ := ho.not_mem_of_split
  refine ⟨fun b m => ?_, ?_⟩
  · by_cases hb : b = a
    · subst hb
      have hmx : (b, m) ∉ xs := fun hmem => hx (List.mem_map_of_mem (f := Prod.fst) hmem)
      have hmy : (b, m) ∉ ys := fun hmem => hy (List.mem_map_of_mem (f := Prod.fst) hmem)
      simp [Heap.get_erase_self, hmx, hmy]
    · simp [Heap.get_erase_ne hb, ho.get_iff, hb]
  · have hnd := ho.nodup
    simp only [List.map_append, List.map_cons] at hnd ⊢
    exact hnd.sublist (List.Sublist.append_left (List.sublist_cons_self ..) _)

theorem erase_head (ho : Owns h ((a, n) :: ys)) : Owns (h.erase a) ys := by
  have hsplit : Owns h ([] ++ (a, n) :: ys) := ho
  exact hsplit.erase_at

end Owns

/-! ### Links -/

/-- The address of the first cell, or `q` when there is none. -/
def headOr (cells : List (Addr × α)) (q : Ptr) : Ptr :=
  match cells with
  | [] => q
  | c :: _ => some c.1

@[simp] theorem headOr_nil (q : Ptr) : headOr ([] : List (Addr × α)) q = q := rfl
@[simp] theorem headOr_cons (c : Addr × α) (cs : List (Addr × α)) (q : Ptr) :
    headOr (c :: cs) q = some c.1 := rfl

theorem headOr_append (xs ys : List (Addr × α)) (q : Ptr) :
    headOr (xs ++ ys) q = headOr xs (headOr ys q) := by
  cases xs <;> rfl

/-- Each cell's `next` is the address of the following one, and the last one's is `q`. -/
def LinkedTo (next : α → Ptr) : List (Addr × α) → Ptr → Prop
  | [], _ => True
  | c :: cs, q => next c.2 = headOr cs q ∧ LinkedTo next cs q

/-- Each cell's `prev` is the address of the one before it, and the first one's is `p`. -/
def BackLinked (prev : α → Ptr) : Ptr → List (Addr × α) → Prop
  | _, [] => True
  | p, c :: cs => prev c.2 = p ∧ BackLinked prev (some c.1) cs

variable {next prev : α → Ptr}

theorem linkedTo_append {xs ys : List (Addr × α)} {q : Ptr} :
    LinkedTo next (xs ++ ys) q ↔ LinkedTo next xs (headOr ys q) ∧ LinkedTo next ys q := by
  induction xs with
  | nil => simp [LinkedTo]
  | cons c xs ih =>
      simp only [List.cons_append, LinkedTo, headOr_append, ih, and_assoc]

/-- The address of the last cell, or `p` when there is none. -/
def lastOr (p : Ptr) : List (Addr × α) → Ptr
  | [] => p
  | c :: cs => lastOr (some c.1) cs

theorem lastOr_append (p : Ptr) (xs ys : List (Addr × α)) :
    lastOr p (xs ++ ys) = lastOr (lastOr p xs) ys := by
  induction xs generalizing p with
  | nil => rfl
  | cons c xs ih => exact ih (some c.1)

theorem backLinked_append {p : Ptr} {xs ys : List (Addr × α)} :
    BackLinked prev p (xs ++ ys) ↔ BackLinked prev p xs ∧ BackLinked prev (lastOr p xs) ys := by
  induction xs generalizing p with
  | nil => simp [BackLinked, lastOr]
  | cons c xs ih => simp only [List.cons_append, BackLinked, lastOr, ih, and_assoc]

/-! ### The search loop -/

/-- `while (p != NULL) { if (test) break; p = p->next; }`, from pointer `p`.
`none` is undefined behaviour (a cell read after it was freed, or `test` itself
failing) or a loop that does not end within `fuel` steps. -/
def search (next : α → Ptr) (test : α → Option Bool) (h : Heap α) : Nat → Ptr → Option Ptr
  | _, none => some none
  | 0, some _ => none
  | fuel + 1, some a =>
      match h.get a with
      | none => none
      | some n =>
          match test n with
          | none => none
          | some true => some (some a)
          | some false => search next test h fuel (next n)

/-- A cell that the loop finds is allocated and passes the test. -/
theorem search_eq_some {h : Heap α} {test : α → Option Bool} {a : Addr} :
    ∀ {fuel : Nat} {p : Ptr}, search next test h fuel p = some (some a) →
      ∃ n, h.get a = some n ∧ test n = some true := by
  intro fuel
  induction fuel with
  | zero => intro p hp; cases p <;> cases hp
  | succ fuel ih =>
      intro p hp
      cases p with
      | none => cases hp
      | some b =>
          rw [search] at hp
          split at hp
          · cases hp
          rename_i n hget
          split at hp
          · cases hp
          · rename_i htest
            obtain rfl := Option.some.inj (Option.some.inj hp)
            exact ⟨n, hget, htest⟩
          · exact ih hp

/-- A walk that meets a freed cell is undefined. -/
theorem search_dangling {h : Heap α} {test : α → Option Bool} {fuel : Nat} {a : Addr}
    (ha : h.get a = none) : search next test h fuel (some a) = none := by
  cases fuel with
  | zero => rfl
  | succ fuel => simp [search, ha]

/-- On a linked list the loop finds the first cell that passes the test. -/
theorem search_chain {h : Heap α} {test : α → Option Bool} {p : α → Bool} :
    ∀ {cells : List (Addr × α)} {fuel : Nat}, Holds h cells → LinkedTo next cells none →
      cells.length ≤ fuel → (∀ c ∈ cells, test c.2 = some (p c.2)) →
      search next test h fuel (headOr cells none) =
        some ((cells.find? fun c => p c.2).map Prod.fst) := by
  intro cells
  induction cells with
  | nil => intro fuel _ _ _ _; cases fuel <;> rfl
  | cons c cs ih =>
      intro fuel hh hl hf ht
      obtain ⟨fuel, rfl⟩ : ∃ k, fuel = k + 1 := ⟨fuel - 1, by simp at hf; omega⟩
      obtain ⟨hc, hcs⟩ := holds_cons.mp hh
      rw [headOr_cons, search, hc]
      simp only [ht c (List.mem_cons_self ..)]
      by_cases hp : p c.2 = true
      · simp [hp]
      · simp only [hp, Bool.false_eq_true, not_false_eq_true, List.find?_cons_of_neg]
        rw [hl.1]
        exact ih hcs hl.2 (by simpa using hf) fun c' hc' => ht c' (List.mem_cons_of_mem _ hc')

/-- The cells met from pointer `p` on, following `next`: `none` when a cell that
is not allocated is reached, or when the walk takes more than `fuel` cells. -/
def collect (next : α → Ptr) (h : Heap α) : Nat → Ptr → Option (List (Addr × α))
  | _, none => some []
  | 0, some _ => none
  | fuel + 1, some a =>
      match h.get a with
      | none => none
      | some n => (collect next h fuel (next n)).map ((a, n) :: ·)

theorem collect_chain {h : Heap α} :
    ∀ {cells : List (Addr × α)} {fuel : Nat}, Holds h cells → LinkedTo next cells none →
      cells.length ≤ fuel → collect next h fuel (headOr cells none) = some cells := by
  intro cells
  induction cells with
  | nil => intro fuel _ _ _; cases fuel <;> rfl
  | cons c cs ih =>
      intro fuel hh hl hf
      obtain ⟨fuel, rfl⟩ : ∃ k, fuel = k + 1 := ⟨fuel - 1, by simp at hf; omega⟩
      obtain ⟨hc, hcs⟩ := holds_cons.mp hh
      rw [headOr_cons, collect, hc]
      simp only [hl.1, ih hcs hl.2 (by simpa using hf), Option.map_some]

/-- A walk that meets a freed cell has no result. -/
theorem collect_dangling {h : Heap α} {fuel : Nat} {a : Addr} (ha : h.get a = none) :
    collect next h fuel (some a) = none := by
  cases fuel with
  | zero => rfl
  | succ fuel => simp [collect, ha]

/-- On a linked list that is not empty, the loop `while (p->next != NULL) p = p->next`
stops at the last cell. -/
theorem find?_last {xs : List (Addr × α)} {x : Addr × α} (hl : LinkedTo next (xs ++ [x]) none) :
    (xs ++ [x]).find? (fun c => (next c.2).isNone) = some x := by
  induction xs with
  | nil =>
      have hx : next x.2 = none := hl.1
      simp [hx]
  | cons c cs ih =>
      have hc : (next c.2).isNone = false := by
        rw [hl.1]
        cases cs <;> rfl
      rw [List.cons_append, List.find?_cons_of_neg (by simp [hc])]
      exact ih hl.2

end Lib
