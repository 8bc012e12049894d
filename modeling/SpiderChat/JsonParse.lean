import SpiderChat.JsonReject
import SpiderChat.JsonSecond

/-!
# SpiderChat.JsonParse

What `json_parse` returns, for every text: the value that the grammar reads in it,
laid out in memory so that reading it back (`load`) gives it again, or `NULL` with
nothing left allocated, or, for the texts that start with `]`, undefined behaviour.
-/

namespace SpiderChat.JsonC

open Lib

variable {settings : JsonSettings} {b : Builder} {l : Bytes} {v : Value} {m : Memory}
  {total k n : Nat} {p : Ptr}

/-! ### Reading a value back -/

/-- The C string at the offset; reading memory that is not written is undefined. -/
def nameFrom (names : List (Option UInt8)) (offset : Nat) : Option Bytes :=
  ((names.drop offset).takeWhile (· ≠ some 0)).mapM id

/-- A member: the name and the value in its slot. -/
def loadSlot (load : Addr → Option Value) (names : List (Option UInt8))
    (slot : Option Nat × Option Addr) : Option (Bytes × Value) := do
  let name ← slot.1.bind (nameFrom names)
  let x ← slot.2.bind load
  some (name, x)

/-- The first so many of what a block holds. -/
def upTo {α : Type} (length : Nat) (cells : List α) : Option (List α) :=
  if length ≤ cells.length then some (cells.take length) else none

/-- What `u` says, with the memory that it points to. -/
def loadU (load : Addr → Option Value) (blocks : Heap Block) : JsonU → Option Value
  | .object length (.block (some a)) =>
      match blocks.get a with
      | some (.members slots names) =>
          (upTo length slots).bind fun slots =>
            (slots.mapM (loadSlot load names)).map .object
      | _ => none
  | .array length (some a) =>
      match blocks.get a with
      | some (.elems cells) =>
          (upTo length cells).bind fun cells =>
            (cells.mapM fun cell : Option Addr => cell.bind load).map .array
      | _ => none
  | .string length (some a) =>
      match blocks.get a with
      | some (.chars cells) =>
          (upTo length cells).bind fun cells => (cells.mapM id).map .string
      | _ => none
  | .integer n => some (.integer n)
  | .double d => some (.double d)
  | .boolean b => some (.boolean b)
  | .null => some .null
  | _ => none

/-- The value at an address, as the users of `json.h` read it: `length` elements or
members, names as C strings, and strings by their length. -/
def load (m : Memory) : Nat → Addr → Option Value
  | 0, _ => none
  | n + 1, a => (m.values.get a).bind fun value => loadU (load m n) m.blocks value.u

mutual

/-- The value with its names as C strings: they end at a zero byte, which `\\u0000` makes. -/
def Value.named : Value → Value
  | .object ms => .object (namedMembers ms)
  | .array xs => .array (namedElems xs)
  | .integer n => .integer n
  | .double d => .double d
  | .string s => .string s
  | .boolean b => .boolean b
  | .null => .null

def namedElems : List Value → List Value
  | [] => []
  | x :: xs => x.named :: namedElems xs

def namedMembers : List (Bytes × Value) → List (Bytes × Value)
  | [] => []
  | (k, x) :: ms => (cstr k, x.named) :: namedMembers ms

end

/-- The cells from the address `k` on. -/
def Segment (m : Memory) (k : Nat) (cells : List Cell) : Prop :=
  ∀ i c, cells[i]? = some c → m.values.get (k + i) = some c.1 ∧ m.blocks.get (k + i) = c.2

theorem segment_append {xs ys : List Cell} :
    Segment m k (xs ++ ys) ↔ Segment m k xs ∧ Segment m (k + xs.length) ys := by
  constructor
  · intro h
    constructor
    · intro i c hi
      obtain ⟨hlt, -⟩ := List.getElem?_eq_some_iff.mp hi
      exact h i c (by rwa [List.getElem?_append_left hlt])
    · intro i c hi
      have := h (xs.length + i) c (by
        rw [List.getElem?_append_right (Nat.le_add_right _ _), Nat.add_sub_cancel_left]
        exact hi)
      rwa [← Nat.add_assoc] at this
  · rintro ⟨hxs, hys⟩ i c hi
    rcases Nat.lt_or_ge i xs.length with hlt | hge
    · rw [List.getElem?_append_left hlt] at hi
      exact hxs i c hi
    · rw [List.getElem?_append_right hge] at hi
      have := hys _ c hi
      rwa [Nat.add_assoc, Nat.add_sub_cancel' hge] at this

theorem segment_cons {c : Cell} {ys : List Cell} :
    Segment m k (c :: ys) ↔
      (m.values.get k = some c.1 ∧ m.blocks.get k = c.2) ∧ Segment m (k + 1) ys := by
  constructor
  · intro h
    refine ⟨h 0 c rfl, fun i d hi => ?_⟩
    have := h (i + 1) d hi
    rwa [Nat.add_comm i, ← Nat.add_assoc] at this
  · rintro ⟨hc, hys⟩ i d hi
    cases i with
    | zero =>
        cases hi
        exact hc
    | succ i =>
        have := hys i d hi
        rwa [Nat.add_assoc, Nat.add_comm 1] at this

theorem Image.segment {cells : List Cell} (h : Image m cells) : Segment m 0 cells := by
  intro i c hi
  rw [Nat.zero_add, h.values, h.blocks, hi]
  exact ⟨rfl, rfl⟩

theorem mapM_id_map_some (cs : Bytes) : (cs.map some).mapM id = some cs := by
  induction cs with
  | nil => rfl
  | cons c cs ih =>
      rw [List.map_cons, List.mapM_cons, ih]
      rfl

theorem upTo_length {α : Type} (xs ys : List α) : upTo xs.length (xs ++ ys) = some xs := by
  rw [upTo, if_pos (by simp), List.take_left]

theorem upTo_eq {α : Type} {n : Nat} {xs : List α} (h : xs.length = n) :
    upTo n xs = some xs := by
  rw [upTo, if_pos (Nat.le_of_eq h.symm), List.take_of_length_le (Nat.le_of_eq h)]

/-- The C string at a place in bytes that are written. -/
theorem nameFrom_map (cs : Bytes) (offset : Nat) :
    nameFrom (cs.map some) offset = some (cstr (cs.drop offset)) := by
  have htake : ∀ ds : Bytes, (ds.map some).takeWhile (· ≠ some 0) = (cstr ds).map some := by
    intro ds
    induction ds with
    | nil => rfl
    | cons c ds ih =>
        by_cases hc : c = 0
        · subst hc
          rfl
        · rw [List.map_cons, List.takeWhile_cons_of_pos (by simp [hc]), ih]
          simp [cstr, hc]
  rw [nameFrom, ← List.map_drop, htake, mapM_id_map_some]

/-- The name that stands at its place among the names. -/
theorem nameFrom_eq (pre k post : Bytes) :
    nameFrom ((pre ++ (k ++ 0 :: post)).map some) pre.length = some (cstr k) := by
  rw [nameFrom_map, List.drop_left, cstr_append_zero]

theorem eq_succ_of_size_le (h : v.size ≤ n) : ∃ i, n = i + 1 :=
  ⟨n - 1, by have := size_pos v; omega⟩

/-- A value that is there is read back. -/
def ValueLoads (total : Nat) (v : Value) : Prop :=
  ∀ m n k p, Segment m k (filledOf total v p k) → v.size ≤ n → load m n k = some v.named

theorem elemsLoad {total : Nat} {xs : List Value} (hxs : ∀ x ∈ xs, ValueLoads total x) (m : Memory)
    (n k : Nat) (p : Addr) (h : Segment m k (filledElems total xs p k)) (hn : sizeElems xs ≤ n) :
    ((addrsOf xs k).map some).mapM (fun cell : Option Addr => cell.bind (load m n)) =
      some (namedElems xs) := by
  induction xs generalizing k with
  | nil => rfl
  | cons x xs ih =>
      rw [filledElems, segment_append, length_filledOf] at h
      rw [sizeElems] at hn
      have hx := hxs x List.mem_cons_self m n k (some p) h.1 (by omega)
      rw [addrsOf, List.map_cons, List.mapM_cons, Option.bind_some, hx,
        ih (fun y hy => hxs y (List.mem_cons_of_mem _ hy)) _ h.2 (by omega)]
      rfl

theorem membersLoad {total : Nat} {ms : List (Bytes × Value)}
    (hms : ∀ q ∈ ms, ValueLoads total q.2) (m : Memory) (n k : Nat) (p : Addr) (pre : Bytes)
    (h : Segment m k (filledMembers total ms p k)) (hn : sizeMembers ms ≤ n) :
    (slotsOf ms pre.length k).mapM (loadSlot (load m n) ((pre ++ namesBytes ms).map some)) =
      some (namedMembers ms) := by
  induction ms generalizing k pre with
  | nil => rfl
  | cons q ms ih =>
      obtain ⟨name, x⟩ := q
      rw [filledMembers, segment_append, length_filledOf] at h
      rw [sizeMembers] at hn
      have hx := hms (name, x) List.mem_cons_self m n k (some p) h.1 (show x.size ≤ n by omega)
      have hrest := ih (fun y hy => hms y (List.mem_cons_of_mem _ hy)) _ (pre ++ (name ++ [0])) h.2
        (by omega)
      have hnames :
          pre ++ (name ++ [0]) ++ namesBytes ms = pre ++ namesBytes ((name, x) :: ms) := by
        rw [namesBytes]
        simp
      have hlen : (pre ++ (name ++ [0])).length = pre.length + (name.length + 1) := by simp
      rw [hnames, hlen] at hrest
      rw [slotsOf, List.mapM_cons, hrest]
      simp only [loadSlot, Option.bind_some, hx, namesBytes, nameFrom_eq]
      rfl

theorem objectLoads (hms : ∀ q ∈ ms, ValueLoads total q.2) : ValueLoads total (.object ms) := by
  intro m n k p h hn
  rw [filledOf, segment_cons] at h
  rw [Value.size] at hn
  obtain ⟨n, rfl⟩ : ∃ i, n = i + 1 := ⟨n - 1, by omega⟩
  have hload := membersLoad hms m n (k + 1) k [] h.2 (by omega)
  have hlen : (slotsOf ms 0 (k + 1)).length = ms.length := length_slotsOf ms _ _
  rw [load, h.1.1, Option.bind_some]
  unfold loadU
  simp only [h.1.2, upTo_eq hlen, Option.bind_some]
  rw [List.length_nil, List.nil_append] at hload
  rw [hload, Value.named]
  rfl

theorem arrayLoads (hxs : ∀ x ∈ xs, ValueLoads total x) : ValueLoads total (.array xs) := by
  intro m n k p h hn
  rw [filledOf, segment_cons] at h
  rw [Value.size] at hn
  obtain ⟨n, rfl⟩ : ∃ i, n = i + 1 := ⟨n - 1, by omega⟩
  have hload := elemsLoad hxs m n (k + 1) k h.2 (by omega)
  have hlen : ((addrsOf xs (k + 1)).map some).length = xs.length := by
    rw [List.length_map, length_addrsOf]
  rw [load, h.1.1, Option.bind_some]
  unfold loadU
  simp only [h.1.2, upTo_eq hlen, Option.bind_some]
  rw [hload, Value.named]
  rfl

theorem stringLoads (s : Bytes) : ValueLoads total (.string s) := by
  intro m n k p h hn
  rw [filledOf, segment_cons] at h
  obtain ⟨n, rfl⟩ := eq_succ_of_size_le hn
  rw [load, h.1.1, Option.bind_some]
  have hup := upTo_length (s.map some) [some (0 : UInt8)]
  rw [List.length_map] at hup
  unfold loadU
  simp only [h.1.2, List.map_append, List.map_cons, List.map_nil, hup, Option.bind_some,
    mapM_id_map_some]
  rw [Value.named]
  rfl

/-- A value that owns no block. -/
theorem scalarLoads {u : JsonU} (hfilled : ∀ k p, filledOf total v p k = counted total k [(p, u)])
    (hload : ∀ load blocks, loadU load blocks u = some v.named) : ValueLoads total v := by
  intro m n k p h hn
  rw [hfilled, counted, segment_cons] at h
  obtain ⟨n, rfl⟩ := eq_succ_of_size_le hn
  rw [load, h.1.1, Option.bind_some]
  exact hload _ _

mutual

theorem valueLoads (total : Nat) : (v : Value) → ValueLoads total v
  | .object ms => objectLoads (membersLoads total ms)
  | .array xs => arrayLoads (elemsLoads total xs)
  | .string s => stringLoads s
  | .integer _ => scalarLoads (fun _ _ => by rw [filledOf]) fun _ _ => by rw [Value.named]; rfl
  | .double _ => scalarLoads (fun _ _ => by rw [filledOf]) fun _ _ => by rw [Value.named]; rfl
  | .boolean _ => scalarLoads (fun _ _ => by rw [filledOf]) fun _ _ => by rw [Value.named]; rfl
  | .null => scalarLoads (fun _ _ => by rw [filledOf]) fun _ _ => by rw [Value.named]; rfl

theorem elemsLoads (total : Nat) : (xs : List Value) → ∀ x ∈ xs, ValueLoads total x
  | [] => by simp
  | y :: xs => by
      intro x hx
      rcases List.mem_cons.mp hx with heq | hx
      · rw [heq]
        exact valueLoads total y
      · exact elemsLoads total xs x hx

theorem membersLoads (total : Nat) : (ms : List (Bytes × Value)) → ∀ q ∈ ms, ValueLoads total q.2
  | [] => by simp
  | (k, y) :: ms => by
      intro q hq
      rcases List.mem_cons.mp hq with heq | hq
      · rw [heq]
        exact valueLoads total y
      · exact membersLoads total ms q hq

end

/-! ### The parser -/

variable (settings) in
/-- The second pass over a text that is read. -/
theorem secondPass_of_readText (hmax : settings.max_memory = 0) (hread : readText l = some v)
    (hlen : l.length < text_max) (h : Layout b (shapesOf v none 0)) :
    (∃ s, runPass settings false (start l b.root b.mem) = some (.done s) ∧
        Image s.build.mem (filledOf v.size v none 0) ∧ s.build.root = some 0) ∨
      Refused settings := by
  have huint : l.length ≤ uint_max := Nat.le_of_lt (Nat.lt_trans hlen text_max_lt)
  obtain ⟨n, hn⟩ := eq_succ_of_size_le (Nat.le_refl v.size)
  have hroot : b.root = some 0 := by rw [h.root, length_shapesOf, hn]; rfl
  have hstage : Stage (before b.root b.mem)
      ([] ++ (counted v.size 0 (shapesOf v none 0) ++ [])) (some 0) none none := by
    refine ⟨?_, h.used, hroot, rfl, rfl⟩
    have himage := h.image
    rw [length_shapesOf] at himage
    rw [List.nil_append, List.append_nil]
    exact himage
  have hweight := Nat.lt_of_le_of_lt (weight_le_of_readText hread) hlen
  -- the loop does what `build` does, and `build` fills in the values
  have hpass := runPass_of_readText settings false b.root b.mem hread huint
    (P := fun b => Image b.mem (filledOf v.size v none 0) ∧ b.root = some 0)
    not_stopped_none (by
      refine (valueFills hmax v hweight v.size _ [] [] none none hstage
        (by simp)).bind fun b₁ h₁ => ?_
      rw [List.nil_append, List.append_nil, List.length_nil] at h₁
      obtain ⟨u, reserved, block, rest, hv⟩ := filledOf_cons v.size v none 0
      have hfinish : finish false b₁ = .ok (.done, b₁) := by
        have hread₁ : b₁.read (some 0) = .ok (0, ⟨none, u, reserved⟩) :=
          Builder.read_eq_ok.mpr ⟨rfl, by rw [h₁.image.values, hv]; rfl⟩
        unfold finish leaveTop
        rw [h₁.top, hread₁]
        rfl
      rw [hfinish]
      exact ⟨rfl, h₁.image, h₁.root⟩)
  rcases hpass with hdone | ⟨f, t, -, hrefused, -⟩
  · exact .inl hdone
  · exact .inr hrefused

/-- `json_parse` over a text that is read. -/
theorem jsonParse_of_readText {malloc : Nat → Nat → Bool} (hread : readText l = some v)
    (hlen : l.length < text_max) (hmalloc : ∀ calls size, malloc calls size = true) :
    ∃ mem, jsonParse malloc l = some ⟨some 0, mem, []⟩ ∧ Image mem (filledOf v.size v none 0) := by
  have huint : l.length ≤ uint_max := Nat.le_of_lt (Nat.lt_trans hlen text_max_lt)
  have hgranted : ¬ Refused ⟨0, 0, malloc⟩ := by
    rintro ⟨calls, size, h⟩
    cases (hmalloc calls size).symm.trans h
  unfold jsonParse jsonParseEx
  rw [skipBom_eq]
  rcases firstPass_of_readText ⟨0, 0, malloc⟩ rfl hread huint
    with ⟨s, hs, hlayout⟩ | ⟨e, t, -, hrefused, -⟩
  · rcases secondPass_of_readText ⟨0, 0, malloc⟩ rfl hread hlen hlayout
      with ⟨t, ht, himage, hroot⟩ | hrefused
    · exact ⟨t.build.mem, by simp only [hs, ht, hroot], himage⟩
    · exact absurd hrefused hgranted
  · exact absurd hrefused hgranted

theorem jsonParse_loads {malloc : Nat → Nat → Bool} (hread : readText l = some v)
    (hlen : l.length < text_max) (hmalloc : ∀ calls size, malloc calls size = true) :
    ∃ mem, jsonParse malloc l = some ⟨some 0, mem, []⟩ ∧ load mem v.size 0 = some v.named := by
  obtain ⟨mem, hparse, himage⟩ := jsonParse_of_readText hread hlen hmalloc
  exact ⟨mem, hparse, valueLoads v.size v mem v.size 0 none himage.segment (Nat.le_refl _)⟩

-- The memory has to be there: when the table of an array is refused, the second pass goes to
-- `json_value_free_ex` with the length that the first pass has counted and no table.
example : (jsonParse (fun calls _ => decide (calls < 2)) (ascii "[1]")).isNone = true := by
  decide

/-- `json_parse` over a text that is not read. -/
theorem jsonParse_of_readText_eq_none (malloc : Nat → Nat → Bool) (hread : readText l = none)
    (hlen : l.length ≤ uint_max) :
    if (l.dropWhile Json.isWs).head? = some 93 then jsonParse malloc l = none
    else ∃ mem e, jsonParse malloc l = some ⟨none, mem, e⟩ ∧ mem.Freed := by
  unfold jsonParse jsonParseEx
  rw [skipBom_eq]
  split
  · rename_i hbracket
    obtain ⟨r, hr⟩ : ∃ r, l.dropWhile Json.isWs = 93 :: r := by
      cases hl : l.dropWhile Json.isWs with
      | nil => simp [hl] at hbracket
      | cons c r =>
          rw [hl, List.head?_cons, Option.some.injEq] at hbracket
          exact ⟨r, by rw [hbracket]⟩
    simp only [firstPass_bracket hr]
  · rename_i hbracket
    obtain ⟨e, t, ht, shapes, hlayout⟩ := firstPass_fails ⟨0, 0, malloc⟩ ⟨rfl, rfl⟩
      hread hlen fun r hr => hbracket (by rw [hr]; rfl)
    simp only [ht]
    exact failedParse_first e hlayout

/-- **A text that is not read** gives `NULL`, with nothing left allocated, whether or not
there is memory, unless it starts with `]`: there the parser looks at the type of a value that
it does not have. -/
theorem json_parse_rejects {malloc : Nat → Nat → Bool} (hread : readText l = none)
    (hlen : l.length ≤ uint_max) :
    if (l.dropWhile Json.isWs).head? = some 93 then jsonParse malloc l = none
    else ∃ mem e, jsonParse malloc l = some ⟨none, mem, e⟩ ∧ mem.Freed :=
  jsonParse_of_readText_eq_none malloc hread hlen

theorem json_parse_rejects_brace :
    if ((ascii "\x7b").dropWhile Json.isWs).head? = some 93 then
      jsonParse (fun _ _ => true) (ascii "\x7b") = none
    else ∃ mem e, jsonParse (fun _ _ => true) (ascii "\x7b") = some ⟨none, mem, e⟩ ∧
      mem.Freed :=
  json_parse_rejects rfl (by decide)

end SpiderChat.JsonC
