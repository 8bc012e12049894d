import Mathlib.Logic.Function.Basic
import SpiderChat.Lib.Text

/-!
# SpiderChat.Lib.Files

**Directories and files by their paths**, with `mkdir`, `fopen(path, "a+")` and writes at the
end of a file. Nothing is removed: `Grows` is the order of the trees that a program which only
makes directories and appends goes through.
-/

namespace Lib

/-- What stands at a path. -/
inductive Node
  | dir
  | file (text : List UInt8)
  deriving Repr, DecidableEq

/-- The path up to its last `/`. -/
def parentPath (path : List UInt8) : List UInt8 :=
  (path.reverse.dropWhile (· ≠ 47)).tail.reverse

theorem parentPath_append {name : List UInt8} (h : 47 ∉ name) (path : List UInt8) :
    parentPath (path ++ 47 :: name) = path := by
  have hreverse : (path ++ 47 :: name).reverse = name.reverse ++ 47 :: path.reverse := by simp
  have hname : ∀ b ∈ name.reverse, decide (b ≠ 47) = true := by
    intro b hb
    have hne : b ≠ 47 := fun heq => h (heq ▸ List.mem_reverse.mp hb)
    exact decide_eq_true hne
  rw [parentPath, hreverse, List.dropWhile_append_of_pos hname]
  simp

/-- A tree of directories and files. -/
structure Files where
  node : List UInt8 → Option Node

namespace Files

def set (t : Files) (path : List UInt8) (n : Node) : Files :=
  ⟨Function.update t.node path (some n)⟩

@[simp] theorem node_set_self (t : Files) (path : List UInt8) (n : Node) :
    (t.set path n).node path = some n := Function.update_self ..

theorem node_set_ne (t : Files) {path p : List UInt8} (n : Node) (h : p ≠ path) :
    (t.set path n).node p = t.node p := Function.update_of_ne h ..

/-- `mkdir` makes a directory where there is nothing, in a directory. -/
def mkdir (t : Files) (path : List UInt8) : Option Files :=
  if t.node path = none ∧ t.node (parentPath path) = some .dir then some (t.set path .dir)
  else none

/-- `fopen(path, "a+")` -/
def openAppend (t : Files) (path : List UInt8) : Option Files :=
  match t.node path with
  | some (.file _) => some t
  | some .dir => none
  | none => if t.node (parentPath path) = some .dir then some (t.set path (.file [])) else none

/-- A write at the end of a file. -/
def append (t : Files) (path text : List UInt8) : Option Files :=
  match t.node path with
  | some (.file l) => some (t.set path (.file (l ++ text)))
  | _ => none

/-- What is read from a path. -/
def content (t : Files) (path : List UInt8) : List UInt8 :=
  match t.node path with
  | some (.file l) => l
  | _ => []

variable {t t' t'' : Files} {path p text : List UInt8}

theorem content_of_none (h : t.node path = none) : t.content path = [] := by
  rw [content, h]

theorem content_of_file {l : List UInt8} (h : t.node path = some (.file l)) :
    t.content path = l := by
  rw [content, h]

theorem content_set_ne (t : Files) (n : Node) (h : p ≠ path) :
    (t.set path n).content p = t.content p := by
  rw [content, content, node_set_ne t n h]

/-! ### What the operations do -/

theorem mkdir_eq_some : t.mkdir path = some t' ↔
    t.node path = none ∧ t.node (parentPath path) = some .dir ∧ t' = t.set path .dir := by
  rw [mkdir]
  constructor
  · intro h
    split at h
    · rename_i hfree
      exact ⟨hfree.1, hfree.2, (Option.some.inj h).symm⟩
    · cases h
  · intro h
    obtain ⟨hnode, hparent, rfl⟩ := h
    exact if_pos ⟨hnode, hparent⟩

theorem mkdir_eq_none : t.mkdir path = none ↔
    t.node path ≠ none ∨ t.node (parentPath path) ≠ some .dir := by
  rw [mkdir]
  constructor
  · intro h
    split at h
    · cases h
    · rename_i hfree
      exact not_and_or.mp hfree
  · intro h
    exact if_neg (not_and_or.mpr h)

theorem openAppend_cases (h : t.openAppend path = some t') :
    (t' = t ∧ ∃ l, t.node path = some (.file l)) ∨
      (t.node path = none ∧ t' = t.set path (.file [])) := by
  rw [openAppend] at h
  split at h
  · rename_i l hl
    exact .inl ⟨(Option.some.inj h).symm, l, hl⟩
  · cases h
  · rename_i hnone
    split at h
    · exact .inr ⟨hnone, (Option.some.inj h).symm⟩
    · cases h

/-- A file can be opened in a directory, if it is no directory. -/
theorem openAppend_ne_none (hparent : t.node (parentPath path) = some .dir)
    (hpath : t.node path ≠ some .dir) : t.openAppend path ≠ none := by
  rw [openAppend]
  cases hnode : t.node path with
  | none => simp [hparent]
  | some n =>
      cases n with
      | dir => exact absurd hnode hpath
      | file l => exact Option.some_ne_none _

theorem append_cases (h : t.append path text = some t') :
    ∃ l, t.node path = some (.file l) ∧ t' = t.set path (.file (l ++ text)) := by
  rw [append] at h
  split at h
  · rename_i l hl
    exact ⟨l, hl, (Option.some.inj h).symm⟩
  · cases h

/-! ### Contents -/

theorem content_mkdir (h : t.mkdir path = some t') (p : List UInt8) :
    t'.content p = t.content p := by
  obtain ⟨hnode, -, rfl⟩ := mkdir_eq_some.mp h
  by_cases hp : p = path
  · subst hp
    rw [content_of_none hnode, content, node_set_self]
  · exact content_set_ne t _ hp

theorem content_openAppend (h : t.openAppend path = some t') (p : List UInt8) :
    t'.content p = t.content p := by
  rcases openAppend_cases h with ⟨rfl, -⟩ | ⟨hnode, rfl⟩
  · rfl
  · by_cases hp : p = path
    · subst hp
      rw [content_of_none hnode, content, node_set_self]
    · exact content_set_ne t _ hp

theorem content_append (h : t.append path text = some t') (p : List UInt8) :
    t'.content p = t.content p ++ if p = path then text else [] := by
  obtain ⟨l, hl, rfl⟩ := append_cases h
  by_cases hp : p = path
  · subst hp
    rw [if_pos rfl, content_of_file hl, content, node_set_self]
  · rw [if_neg hp, List.append_nil, content_set_ne t _ hp]

/-! ### Trees that grow -/

/-- Directories stay directories, and files stay files. -/
structure Grows (t t' : Files) : Prop where
  dir : ∀ p, t.node p = some .dir → t'.node p = some .dir
  file : ∀ p l, t.node p = some (.file l) → ∃ l', t'.node p = some (.file l')

theorem Grows.refl (t : Files) : Grows t t := ⟨fun _ h => h, fun _ l h => ⟨l, h⟩⟩

theorem Grows.trans (h : Grows t t') (h' : Grows t' t'') : Grows t t'' := by
  refine ⟨fun p hp => h'.dir p (h.dir p hp), fun p l hp => ?_⟩
  obtain ⟨l', hl'⟩ := h.file p l hp
  exact h'.file p l' hl'

theorem grows_set_of_none (hnode : t.node path = none) (n : Node) : Grows t (t.set path n) := by
  have hne : ∀ p n', t.node p = some n' → p ≠ path := by
    intro p n' hp heq
    rw [heq, hnode] at hp
    cases hp
  refine ⟨fun p hp => ?_, fun p l hp => ⟨l, ?_⟩⟩
  · rw [node_set_ne t n (hne p _ hp)]
    exact hp
  · rw [node_set_ne t n (hne p _ hp)]
    exact hp

theorem grows_mkdir (h : t.mkdir path = some t') : Grows t t' := by
  obtain ⟨hnode, -, rfl⟩ := mkdir_eq_some.mp h
  exact grows_set_of_none hnode _

theorem grows_openAppend (h : t.openAppend path = some t') : Grows t t' := by
  rcases openAppend_cases h with ⟨rfl, -⟩ | ⟨hnode, rfl⟩
  · exact Grows.refl _
  · exact grows_set_of_none hnode _

theorem grows_append (h : t.append path text = some t') : Grows t t' := by
  obtain ⟨l, hl, rfl⟩ := append_cases h
  refine ⟨fun p hp => ?_, fun p l' hp => ?_⟩
  · have hne : p ≠ path := by
      intro heq
      rw [heq, hl] at hp
      cases hp
    rw [node_set_ne t _ hne]
    exact hp
  · by_cases heq : p = path
    · subst heq
      exact ⟨l ++ text, node_set_self ..⟩
    · exact ⟨l', by rw [node_set_ne t _ heq]; exact hp⟩

end Files

end Lib
