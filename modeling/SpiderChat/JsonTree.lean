import SpiderChat.Lib.Json
import SpiderChat.Types

/-!
# SpiderChat.JsonTree

What the handlers rely on in the values that `json_parse` returns (`json.h`): the
names of an object's members stand one behind the other in memory, each ended by
a zero byte, and `_reserved.next_alloc` leads from a value to the one allocated
next, which is the one that comes next in the text.

The parser is a parameter `parse` of the handlers: it gets the bytes that
`json_parse(data, strlen(data))` reads.
-/

namespace SpiderChat

open Lib

mutual

/-- A value and the values in it, in the order of their allocation. -/
def allocs : Json → List Json
  | .arr xs => .arr xs :: allocsOfElems xs
  | .obj ms => .obj ms :: allocsOfMembers ms
  | .null => [.null]
  | .bool b => [.bool b]
  | .int n => [.int n]
  | .num t => [.num t]
  | .str s => [.str s]

def allocsOfElems : List Json → List Json
  | [] => []
  | x :: xs => allocs x ++ allocsOfElems xs

def allocsOfMembers : List (Bytes × Json) → List Json
  | [] => []
  | (_, v) :: ms => allocs v ++ allocsOfMembers ms

end

/-- The memory of the names of an object's members. -/
def namesOf (ms : List (Bytes × Json)) : Bytes := ms.flatMap fun m => m.1 ++ [0]

/-- The C string at `values->name + off`; `none` when that is past the names. -/
def nameAt (ms : List (Bytes × Json)) (off : Nat) : Option Bytes :=
  if off < (namesOf ms).length then some (cstr ((namesOf ms).drop off)) else none

theorem allocsOfMembers_cons_int (k : Bytes) (n : Int) (ms : List (Bytes × Json)) :
    allocsOfMembers ((k, .int n) :: ms) = .int n :: allocsOfMembers ms := rfl

theorem namesOf_cons (k : Bytes) (v : Json) (ms : List (Bytes × Json)) :
    namesOf ((k, v) :: ms) = k ++ 0 :: namesOf ms := by
  simp [namesOf]

/-- The first name, as a C string. -/
theorem nameAt_zero (k : Bytes) (v : Json) (ms : List (Bytes × Json)) :
    nameAt ((k, v) :: ms) 0 = some (cstr k) := by
  rw [nameAt, namesOf_cons, List.drop_zero, cstr_append_zero, if_pos (by simp)]

/-- The names of the other members stand behind the first one. -/
theorem nameAt_cons {k : Bytes} (v : Json) (ms : List (Bytes × Json)) {off : Nat}
    (hoff : k.length + 1 ≤ off) : nameAt ((k, v) :: ms) off = nameAt ms (off - (k.length + 1)) := by
  obtain ⟨i, rfl⟩ := Nat.exists_eq_add_of_le hoff
  have hdrop : (k ++ 0 :: namesOf ms).drop (k.length + 1 + i) = (namesOf ms).drop i := by
    rw [List.append_cons, ← List.drop_drop, List.drop_left' (by simp)]
  have hlt : k.length + 1 + i < (k ++ 0 :: namesOf ms).length ↔ i < (namesOf ms).length := by
    rw [List.length_append, List.length_cons]
    omega
  rw [nameAt, nameAt, namesOf_cons, Nat.add_sub_cancel_left, hdrop]
  simp only [hlt]

theorem zero_mem_drop_namesOf {ms : List (Bytes × Json)} {off : Nat}
    (hoff : off < (namesOf ms).length) : 0 ∈ (namesOf ms).drop off := by
  induction ms generalizing off with
  | nil => cases hoff
  | cons m ms ih =>
      obtain ⟨k, v⟩ := m
      rw [namesOf_cons] at hoff ⊢
      rw [List.drop_append]
      by_cases hk : off ≤ k.length
      · rw [Nat.sub_eq_zero_of_le hk]
        simp
      · obtain ⟨i, rfl⟩ := Nat.exists_eq_add_of_lt (Nat.lt_of_not_le hk)
        have hsub : k.length + i + 1 - k.length = i + 1 := by omega
        rw [hsub, List.drop_succ_cons]
        refine List.mem_append_right _ (ih ?_)
        rw [List.length_append, List.length_cons] at hoff
        omega

/-- The name at an offset, with the zero byte that ends it. -/
theorem nameAt_eq_some_iff {ms : List (Bytes × Json)} {off : Nat} {key : Bytes} :
    nameAt ms off = some key ↔ (∀ b ∈ key, b ≠ 0) ∧ key ++ [0] <+: (namesOf ms).drop off := by
  unfold nameAt
  constructor
  · intro h
    split at h
    · rename_i hoff
      obtain rfl := Option.some.inj h
      exact ⟨fun b => ne_zero_of_mem_cstr, cstr_append_zero_isPrefix (zero_mem_drop_namesOf hoff)⟩
    · cases h
  · intro h
    obtain ⟨hkey, rest, hrest⟩ := h
    have hlt : off < (namesOf ms).length := by
      have hlen := congrArg List.length hrest
      simp only [List.length_append, List.length_singleton, List.length_drop] at hlen
      omega
    rw [if_pos hlt, ← hrest, List.append_assoc, cstr_append hkey]
    simp [cstr]

/-- A member name without zero bytes, found at its place. -/
theorem nameAt_append {ms ms' : List (Bytes × Json)} {k : Bytes} {v : Json}
    (hk : ∀ b ∈ k, b ≠ 0) {off : Nat} (hoff : (namesOf ms).length = off) :
    nameAt (ms ++ (k, v) :: ms') off = some k := by
  have hnames : namesOf (ms ++ (k, v) :: ms') = namesOf ms ++ (k ++ 0 :: namesOf ms') := by
    simp [namesOf]
  rw [nameAt, hnames, ← hoff, List.drop_left, if_pos (by simp)]
  rw [cstr_append hk]
  simp [cstr]

theorem length_le_count_namesOf (ms : List (Bytes × Json)) : ms.length ≤ (namesOf ms).count 0 := by
  induction ms with
  | nil => exact Nat.zero_le _
  | cons m ms ih =>
      obtain ⟨k, v⟩ := m
      rw [namesOf_cons, List.count_append, List.count_cons_self, List.length_cons]
      omega

/-- There is a name where a zero byte follows, and behind it stands one zero byte less. -/
theorem exists_nameAt {ms : List (Bytes × Json)} {off n : Nat}
    (h : n + 1 ≤ ((namesOf ms).drop off).count 0) :
    ∃ key, nameAt ms off = some key ∧
      n ≤ ((namesOf ms).drop (off + (key.length + 1))).count 0 := by
  have hlt : off < (namesOf ms).length := by
    by_contra hge
    rw [List.drop_eq_nil_of_le (Nat.le_of_not_lt hge)] at h
    cases h
  refine ⟨_, if_pos hlt, ?_⟩
  rw [← List.drop_drop, count_zero_drop_cstr]
  omega

/-- Every member has a value. -/
theorem length_le_allocsOfMembers (ms : List (Bytes × Json)) :
    ms.length ≤ (allocsOfMembers ms).length := by
  induction ms with
  | nil => exact Nat.zero_le _
  | cons m ms ih =>
      obtain ⟨k, v⟩ := m
      have hv : 0 < (allocs v).length := by cases v <;> simp [allocs]
      rw [allocsOfMembers, List.length_append, List.length_cons]
      omega

theorem getElem?_allocs_append (v : Json) (l : List Json) : (allocs v ++ l)[0]? = some v := by
  cases v <;> rfl

end SpiderChat
