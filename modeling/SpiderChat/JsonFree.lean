import SpiderChat.JsonParse

/-!
# SpiderChat.JsonFree

`json_value_free` of what `json_parse` returns. Its loop goes down into the last
element or member that is left, counting the length of the value back, and up again
by `parent` when nothing is left; every value and every block is freed once.
-/

namespace SpiderChat.JsonC

open Lib

variable {m m' : Memory} {v : Value} {total k n K : Nat} {p : Ptr}

/-- The cells from `k` on, `n` of them, are freed, and nothing else has changed. -/
structure Cleared (m m' : Memory) (k n : Nat) : Prop where
  values : ∀ i : Nat, m'.values.get i = if k ≤ i ∧ i < k + n then none else m.values.get i
  blocks : ∀ i : Nat, m'.blocks.get i = if k ≤ i ∧ i < k + n then none else m.blocks.get i

/-- What is freed from `k` on is the value there: the loop comes from it to its parent. -/
def ValueFrees (total : Nat) (v : Value) : Prop :=
  ∀ m k p, Segment m k (filledOf total v p k) →
    ∃ m', After freeRound (2 * v.size - 1) (some k, m) (p, m') ∧ Cleared m m' k v.size

theorem Segment.congr {cells : List Cell} (h : Segment m k cells)
    (hsame : ∀ i : Nat, k ≤ i → i < k + cells.length →
      m'.values.get i = m.values.get i ∧ m'.blocks.get i = m.blocks.get i) :
    Segment m' k cells := by
  intro i c hi
  obtain ⟨hlt, -⟩ := List.getElem?_eq_some_iff.mp hi
  obtain ⟨hvalues, hblocks⟩ := hsame (k + i) (Nat.le_add_right _ _) (by omega)
  rw [hvalues, hblocks]
  exact h i c hi

/-- A freed address. -/
theorem get_erase {α : Type} (h : Heap α) (a i : Nat) :
    (h.erase a).get i = if i = a then none else h.get i := by
  split
  · rename_i hi
    rw [hi, Heap.get_erase_self]
  · rename_i hi
    exact Heap.get_erase_ne hi

/-! ### Single values -/

/-- A value that owns nothing. -/
theorem freeCurrent_none {a : Nat} {value : JsonValue} (hvalue : m.values.get a = some value)
    (hblock : m.blocks.get a = none) (parent : Ptr) :
    ∃ m', freeCurrent m a parent none = .inl (parent, m') ∧ Cleared m m' a 1 := by
  refine ⟨{ m with values := m.values.erase a }, ?_, ?_, ?_⟩
  · simp only [freeCurrent, freeBlock, freeValue, Option.bind_some, Heap.free_eq hvalue,
      Option.map_some]
  · intro i
    refine (get_erase m.values a i).trans (if_congr ?_ rfl rfl)
    omega
  · intro i
    split
    · rename_i hi
      obtain rfl : i = a := by omega
      exact hblock
    · rfl

/-- A value with what it owns. -/
theorem freeCurrent_block {a : Nat} {value : JsonValue} {block : Block}
    (hvalue : m.values.get a = some value) (hblock : m.blocks.get a = some block) (parent : Ptr) :
    ∃ m', freeCurrent m a parent (some a) = .inl (parent, m') ∧ Cleared m m' a 1 := by
  refine ⟨{ m with values := m.values.erase a, blocks := m.blocks.erase a }, ?_, ?_, ?_⟩
  · simp only [freeCurrent, freeBlock, freeValue, Option.bind_some, Heap.free_eq hvalue,
      Heap.free_eq hblock, Option.map_some]
  · intro i
    refine (get_erase m.values a i).trans (if_congr ?_ rfl rfl)
    omega
  · intro i
    refine (get_erase m.blocks a i).trans (if_congr ?_ rfl rfl)
    omega

/-! ### Arrays and objects -/

/-- `u` of an array or an object that owns the block at its own address. -/
inductive Container (a : Addr) : (Nat → JsonU) → Prop
  | array : Container a fun length => .array length (some a)
  | object : Container a fun length => .object length (.block (some a))

variable {a : Nat} {mk : Nat → JsonU} {reserved : Reserved} {block : Block}

theorem freeRound_child {child : Addr} (hmk : Container a mk)
    (hvalue : m.values.get a = some ⟨p, mk (n + 1), reserved⟩)
    (hblock : m.blocks.get a = some block) (hslot : block.slot n = some child) :
    freeRound (some a, m) =
      .inl (some child, { m with values := m.values.set a ⟨p, mk n, reserved⟩ }) := by
  cases hmk with
  | array =>
      simp only [freeRound, hvalue, freeChild, Option.bind_some, hblock, hslot]
  | object =>
      simp only [freeRound, hvalue, freeChild, Option.bind_some, hblock, hslot]

theorem freeRound_empty (hmk : Container a mk)
    (hvalue : m.values.get a = some ⟨p, mk 0, reserved⟩) (hblock : m.blocks.get a = some block) :
    ∃ m', freeRound (some a, m) = .inl (p, m') ∧ Cleared m m' a 1 := by
  obtain ⟨m', hm', hcleared⟩ := freeCurrent_block hvalue hblock p
  refine ⟨m', ?_, hcleared⟩
  rw [← hm']
  cases hmk with
  | array => simp only [freeRound, hvalue]
  | object => simp only [freeRound, hvalue]

theorem addrsOf_append (xs ys : List Value) (k : Nat) :
    addrsOf (xs ++ ys) k = addrsOf xs k ++ addrsOf ys (k + sizeElems xs) := by
  induction xs generalizing k with
  | nil => rfl
  | cons x xs ih =>
      rw [List.cons_append, addrsOf, ih, addrsOf, sizeElems, List.cons_append, Nat.add_assoc]

theorem sizeElems_append (xs ys : List Value) :
    sizeElems (xs ++ ys) = sizeElems xs + sizeElems ys := by
  induction xs with
  | nil => rw [List.nil_append, sizeElems, Nat.zero_add]
  | cons x xs ih => rw [List.cons_append, sizeElems, ih, sizeElems, Nat.add_assoc]

theorem filledElems_append (total : Nat) (xs ys : List Value) (p : Addr) (k : Nat) :
    filledElems total (xs ++ ys) p k =
      filledElems total xs p k ++ filledElems total ys p (k + sizeElems xs) := by
  induction xs generalizing k with
  | nil => rfl
  | cons x xs ih =>
      rw [List.cons_append, filledElems, ih, filledElems, sizeElems, List.append_assoc,
        Nat.add_assoc]

/-- The elements or members of a value go, the last one first, and then the value. -/
theorem elemsFree {xs : List Value} (hxs : ∀ x ∈ xs, ValueFrees total x) (hmk : Container a mk)
    (hK : a < K) (hvalue : m.values.get a = some ⟨p, mk xs.length, reserved⟩)
    (hblock : m.blocks.get a = some block)
    (hslots : ∀ j c, (addrsOf xs K)[j]? = some c → block.slot j = some c)
    (h : Segment m K (filledElems total xs a K)) :
    ∃ m', After freeRound (2 * sizeElems xs + 1) (some a, m) (p, m') ∧
      ∀ i : Nat, m'.values.get i =
          (if i = a ∨ K ≤ i ∧ i < K + sizeElems xs then none else m.values.get i) ∧
        m'.blocks.get i =
          (if i = a ∨ K ≤ i ∧ i < K + sizeElems xs then none else m.blocks.get i) := by
  -- the last element is the first one to go
  induction xs using List.reverseRecOn generalizing m with
  | nil =>
      obtain ⟨m', hround, hcleared⟩ := freeRound_empty hmk hvalue hblock
      refine ⟨m', .round hround (.refl _), fun i => ?_⟩
      rw [hcleared.values, hcleared.blocks, sizeElems]
      have hiff : (a ≤ i ∧ i < a + 1) ↔ (i = a ∨ K ≤ i ∧ i < K + 0) := by omega
      exact ⟨if_congr hiff rfl rfl, if_congr hiff rfl rfl⟩
  | append_singleton ys x ih =>
      rw [filledElems_append, segment_append, length_filledElems, filledElems, filledElems,
        List.append_nil] at h
      obtain ⟨hys, hx⟩ := h
      rw [List.length_append, List.length_singleton] at hvalue
      have hslot : block.slot ys.length = some (K + sizeElems ys) := by
        refine hslots _ _ ?_
        rw [addrsOf_append, List.getElem?_append_right (by rw [length_addrsOf]), length_addrsOf,
          Nat.sub_self]
        rfl
      have hround := freeRound_child hmk hvalue hblock hslot
      have hset : ∀ i : Nat, i ≠ a → (m.values.set a ⟨p, mk ys.length, reserved⟩).get i =
          m.values.get i := fun i hi => Heap.get_set_ne hi
      -- down to the element, and back with what it owned gone
      obtain ⟨m₂, hafter₂, hcleared₂⟩ := hxs x (by simp)
        { m with values := m.values.set a ⟨p, mk ys.length, reserved⟩ } (K + sizeElems ys) (some a)
        (hx.congr fun i hle _ => ⟨hset i (by omega), rfl⟩)
      have hkept : ∀ i : Nat, i ≠ a → (i < K + sizeElems ys) →
          m₂.values.get i = m.values.get i ∧ m₂.blocks.get i = m.blocks.get i := by
        intro i hi hlt
        rw [hcleared₂.values, hcleared₂.blocks, if_neg (by omega), if_neg (by omega)]
        exact ⟨hset i hi, rfl⟩
      obtain ⟨m', hafter', hget⟩ := ih (m := m₂)
        (fun y hy => hxs y (List.mem_append_left _ hy))
        (by
          rw [hcleared₂.values, if_neg (by omega)]
          exact Heap.get_set_self _ _ _)
        (by
          rw [hcleared₂.blocks, if_neg (by omega)]
          exact hblock)
        (fun j c hj => hslots j c (by
          obtain ⟨hlt, -⟩ := List.getElem?_eq_some_iff.mp hj
          rwa [addrsOf_append, List.getElem?_append_left hlt]))
        (hys.congr fun i hle hlt => by
          rw [length_filledElems] at hlt
          exact hkept i (by omega) (by omega))
      have hsize := size_pos x
      refine ⟨m', ?_, fun i => ?_⟩
      · have hafter := After.round hround (hafter₂.trans hafter')
        rw [sizeElems_append, sizeElems, sizeElems]
        rwa [show 2 * (sizeElems ys + (x.size + 0)) + 1 =
          2 * x.size - 1 + (2 * sizeElems ys + 1) + 1 by omega]
      · obtain ⟨hvalues, hblocks⟩ := hget i
        rw [hvalues, hblocks, hcleared₂.values, hcleared₂.blocks, sizeElems_append, sizeElems,
          sizeElems]
        -- what is gone at the end is what the element and what the others took
        by_cases hi : i = a
        · simp [hi]
        · have hiff : (i = a ∨ K ≤ i ∧ i < K + (sizeElems ys + (x.size + 0))) ↔
              (i = a ∨ K ≤ i ∧ i < K + sizeElems ys) ∨
                (K + sizeElems ys ≤ i ∧ i < K + sizeElems ys + x.size) := by omega
          by_cases h₁ : i = a ∨ K ≤ i ∧ i < K + sizeElems ys
          · rw [if_pos h₁, if_pos h₁, if_pos (hiff.mpr (.inl h₁)), if_pos (hiff.mpr (.inl h₁))]
            exact ⟨rfl, rfl⟩
          · rw [if_neg h₁, if_neg h₁]
            have hiff' : (i = a ∨ K ≤ i ∧ i < K + (sizeElems ys + (x.size + 0))) ↔
                (K + sizeElems ys ≤ i ∧ i < K + sizeElems ys + x.size) := by
              rw [hiff]
              exact or_iff_right h₁
            rw [hset i hi]
            exact ⟨if_congr hiff'.symm rfl rfl, if_congr hiff'.symm rfl rfl⟩

/-! ### Values -/

theorem filledMembers_eq (total : Nat) (ms : List (Bytes × Value)) (p : Addr) (k : Nat) :
    filledMembers total ms p k = filledElems total (ms.map Prod.snd) p k := by
  induction ms generalizing k with
  | nil => rfl
  | cons q ms ih => rw [filledMembers, List.map_cons, filledElems, ih]

theorem sizeMembers_eq (ms : List (Bytes × Value)) :
    sizeMembers ms = sizeElems (ms.map Prod.snd) := by
  induction ms with
  | nil => rfl
  | cons q ms ih => rw [sizeMembers, List.map_cons, sizeElems, ih]

theorem slot_elems {xs : List Value} {j : Nat} {c : Addr} (h : (addrsOf xs k)[j]? = some c) :
    (Block.elems ((addrsOf xs k).map some)).slot j = some c := by
  rw [Block.slot, List.getD_eq_getElem?_getD, List.getElem?_map, h]
  rfl

theorem slot_members {ms : List (Bytes × Value)} {names : List (Option UInt8)} {o j : Nat}
    {c : Addr} (h : (addrsOf (ms.map Prod.snd) k)[j]? = some c) :
    (Block.members (slotsOf ms o k) names).slot j = some c := by
  induction ms generalizing o k j with
  | nil => cases h
  | cons q ms ih =>
      rw [List.map_cons, addrsOf] at h
      cases j with
      | zero => exact h
      | succ j => exact ih (o := o + (q.1.length + 1)) h

/-- A value that owns nothing. -/
theorem scalarFrees {u : JsonU} (hu : ∀ m p reserved, m.values.get k = some ⟨p, u, reserved⟩ →
      freeRound (some k, m) = freeCurrent m k p none)
    (h : Segment m k (counted total k [(p, u)])) :
    ∃ m', After freeRound 1 (some k, m) (p, m') ∧ Cleared m m' k 1 := by
  rw [counted, segment_cons] at h
  obtain ⟨m', hround, hcleared⟩ := freeCurrent_none h.1.1 h.1.2 p
  exact ⟨m', .round ((hu m p _ h.1.1).trans hround) (.refl _), hcleared⟩

/-- An array or an object goes with all that is in it. -/
theorem containerFrees {xs : List Value} {mk : Nat → JsonU} {reserved : Reserved} {block : Block}
    (hxs : ∀ x ∈ xs, ValueFrees total x) (hmk : Container k mk)
    (hslots : ∀ j c, (addrsOf xs (k + 1))[j]? = some c → block.slot j = some c)
    (h : Segment m k ((⟨p, mk xs.length, reserved⟩, some block) ::
      filledElems total xs k (k + 1))) :
    ∃ m', After freeRound (2 * (sizeElems xs + 1) - 1) (some k, m) (p, m') ∧
      Cleared m m' k (sizeElems xs + 1) := by
  rw [segment_cons] at h
  obtain ⟨m', hafter, hget⟩ := elemsFree hxs hmk (Nat.lt_succ_self k) h.1.1 h.1.2 hslots h.2
  have hiff : ∀ i : Nat, (i = k ∨ k + 1 ≤ i ∧ i < k + 1 + sizeElems xs) ↔
      (k ≤ i ∧ i < k + (sizeElems xs + 1)) := by
    intro i
    omega
  refine ⟨m', ?_, fun i => ?_, fun i => ?_⟩
  · rwa [show 2 * (sizeElems xs + 1) - 1 = 2 * sizeElems xs + 1 by omega]
  · exact (hget i).1.trans (if_congr (hiff i) rfl rfl)
  · exact (hget i).2.trans (if_congr (hiff i) rfl rfl)

mutual

theorem valueFrees (total : Nat) : (v : Value) → ValueFrees total v
  | .object ms => by
      intro m k p h
      have hlen : ms.length = (ms.map Prod.snd).length := (List.length_map _).symm
      rw [filledOf, filledMembers_eq, hlen] at h
      rw [Value.size, sizeMembers_eq]
      exact containerFrees (membersFreed total ms) .object (fun j c => slot_members) h
  | .array xs => by
      intro m k p h
      rw [filledOf] at h
      rw [Value.size]
      exact containerFrees (elemsFreed total xs) .array (fun j c => slot_elems) h
  | .string s => by
      intro m k p h
      rw [filledOf, segment_cons] at h
      obtain ⟨m', hround, hcleared⟩ := freeCurrent_block h.1.1 h.1.2 p
      refine ⟨m', .round ?_ (.refl _), ?_⟩
      · rw [← hround]
        simp only [freeRound, h.1.1]
      · simpa [Value.size] using hcleared
  | .integer n => by
      intro m k p h
      rw [filledOf] at h
      simpa [Value.size] using scalarFrees (fun m p reserved hm => by simp only [freeRound, hm]) h
  | .double d => by
      intro m k p h
      rw [filledOf] at h
      simpa [Value.size] using scalarFrees (fun m p reserved hm => by simp only [freeRound, hm]) h
  | .boolean b => by
      intro m k p h
      rw [filledOf] at h
      simpa [Value.size] using scalarFrees (fun m p reserved hm => by simp only [freeRound, hm]) h
  | .null => by
      intro m k p h
      rw [filledOf] at h
      simpa [Value.size] using scalarFrees (fun m p reserved hm => by simp only [freeRound, hm]) h

theorem elemsFreed (total : Nat) : (xs : List Value) → ∀ x ∈ xs, ValueFrees total x
  | [] => by simp
  | y :: xs => by
      intro x hx
      rcases List.mem_cons.mp hx with heq | hx
      · rw [heq]
        exact valueFrees total y
      · exact elemsFreed total xs x hx

theorem membersFreed (total : Nat) : (ms : List (Bytes × Value)) →
    ∀ x ∈ ms.map Prod.snd, ValueFrees total x
  | [] => by simp
  | (k, y) :: ms => by
      intro x hx
      rcases List.mem_cons.mp hx with heq | hx
      · rw [heq]
        exact valueFrees total y
      · exact membersFreed total ms x hx

end

theorem length_le_of_image {cells : List Cell} (h : Image m cells) :
    cells.length ≤ m.values.length := by
  have hsub : List.range cells.length ⊆ m.values.map Prod.fst := by
    intro i hi
    have hlt := List.mem_range.mp hi
    exact Heap.mem_of_get (h := m.values) (n := cells[i].1) (by
      rw [h.values, List.getElem?_eq_getElem hlt]
      rfl)
  simpa using (List.subperm_of_subset List.nodup_range hsub).length_le

/-- **Freeing** what was parsed gives all of it back. -/
theorem jsonValueFreeEx_of_image (h : Image m (filledOf v.size v none 0)) :
    ∃ m', jsonValueFreeEx m (some 0) = some m' ∧ m'.Freed := by
  obtain ⟨u, reserved, block, rest, hv⟩ := filledOf_cons v.size v none 0
  have hroot : m.values.get 0 = some ⟨none, u, reserved⟩ := by
    rw [h.values, hv]
    rfl
  -- the root has no parent as it is
  have hsame : ∀ i : Nat, (m.values.set 0 ⟨none, u, reserved⟩).get i = m.values.get i := by
    intro i
    rw [Heap.get_set]
    split
    · rename_i hi
      rw [hi, hroot]
    · rfl
  obtain ⟨m', hafter, hcleared⟩ := valueFrees v.size v
    { m with values := m.values.set 0 ⟨none, u, reserved⟩ } 0 none
    (h.segment.congr fun i _ _ => ⟨hsame i, rfl⟩)
  have hlength := length_le_of_image h
  rw [length_filledOf] at hlength
  have hend : Rounds freeRound 1 (none, m') (.inr (some m')) := .one _
  have hloop : loop freeRound (2 * m.values.length + 1)
      (some 0, { m with values := m.values.set 0 ⟨none, u, reserved⟩ }) = some (some m') :=
    loop_of_rounds (hafter 1 _ hend) (by omega)
  refine ⟨m', ?_, Heap.eq_nil fun i => ?_, Heap.eq_nil fun i => ?_⟩
  · rw [jsonValueFreeEx, Heap.update_eq hroot]
    dsimp only
    rw [hloop]
    rfl
  · rw [hcleared.values]
    split
    · rfl
    · rename_i hi
      rw [hsame, h.values, List.getElem?_eq_none (by rw [length_filledOf]; omega)]
      rfl
  · rw [hcleared.blocks]
    split
    · rfl
    · rename_i hi
      rw [h.blocks, List.getElem?_eq_none (by rw [length_filledOf]; omega)]
      rfl

/-- **What was parsed is freed**: `json_value_free` of a text's value comes to its end and
leaves nothing allocated. -/
theorem json_value_free_frees {malloc : Nat → Nat → Bool} {l : Bytes}
    (hread : readText l = some v) (hlen : l.length < text_max)
    (hmalloc : ∀ calls size, malloc calls size = true) :
    ∃ root mem mem', jsonParse malloc l = some ⟨root, mem, []⟩ ∧ ¬ mem.Freed ∧
      jsonValueFreeEx mem root = some mem' ∧ mem'.Freed := by
  obtain ⟨mem, hparse, himage⟩ := jsonParse_of_readText hread hlen hmalloc
  obtain ⟨mem', hfree, hfreed⟩ := jsonValueFreeEx_of_image himage
  refine ⟨some 0, mem, mem', hparse, fun hnil => ?_, hfree, hfreed⟩
  have hle := length_le_of_image himage
  have hpos := size_pos v
  rw [length_filledOf, hnil.1, List.length_nil] at hle
  omega

theorem json_value_free_frees_array :
    ∃ root mem mem', jsonParse (fun _ _ => true) (ascii "[1,]") = some ⟨root, mem, []⟩ ∧
      ¬ mem.Freed ∧ jsonValueFreeEx mem root = some mem' ∧ mem'.Freed :=
  json_value_free_frees (v := .array [.integer 1]) rfl (by decide) fun _ _ => rfl

end SpiderChat.JsonC
