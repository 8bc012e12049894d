import SpiderChat.JsonFirst

/-!
# SpiderChat.JsonSecond

The memory of the second pass. It goes through the list of the values again, gives
each one the memory that the first pass counted for it, and fills that in:
`filledOf` is what it leaves of a text's value. No step of it reads or writes past
what was allocated.
-/

namespace SpiderChat.JsonC

open Lib

/-! ### What the second pass leaves -/

mutual

/-- The number of values in a value, with itself. -/
def Value.size : Value → Nat
  | .object ms => sizeMembers ms + 1
  | .array xs => sizeElems xs + 1
  | _ => 1

def sizeElems : List Value → Nat
  | [] => 0
  | x :: xs => x.size + sizeElems xs

def sizeMembers : List (Bytes × Value) → Nat
  | [] => 0
  | (_, x) :: ms => x.size + sizeMembers ms

end

theorem size_pos (v : Value) : 0 < v.size := by
  cases v <;> simp [Value.size]

/-- Where the elements of an array are, from `k` on. -/
def addrsOf : List Value → Nat → List Addr
  | [], _ => []
  | x :: xs, k => k :: addrsOf xs (k + x.size)

/-- The names of the members, one behind the other. -/
def namesBytes : List (Bytes × Value) → Bytes
  | [] => []
  | (k, _) :: ms => k ++ 0 :: namesBytes ms

/-- Where the names and the values of the members are. -/
def slotsOf : List (Bytes × Value) → Nat → Nat → List (Option Nat × Option Addr)
  | [], _, _ => []
  | (k, x) :: ms, offset, a =>
      (some offset, some a) :: slotsOf ms (offset + (k.length + 1)) (a + x.size)

mutual

/-- The values of a text's value that starts at the address `k`, with what they own. -/
def filledOf (total : Nat) : Value → Ptr → Nat → List Cell
  | .object ms, p, k =>
      (⟨p, .object ms.length (.block (some k)), .object_mem (namesSize ms)⟩,
        some (.members (slotsOf ms 0 (k + 1)) ((namesBytes ms).map some))) ::
        filledMembers total ms k (k + 1)
  | .array xs, p, k =>
      (⟨p, .array xs.length (some k), .next_alloc (nextOf total k)⟩,
        some (.elems ((addrsOf xs (k + 1)).map some))) :: filledElems total xs k (k + 1)
  | .integer n, p, k => counted total k [(p, .integer n)]
  | .double d, p, k => counted total k [(p, .double d)]
  | .string s, p, k =>
      [(⟨p, .string s.length (some k), .next_alloc (nextOf total k)⟩,
        some (.chars ((s ++ [0]).map some)))]
  | .boolean b, p, k => counted total k [(p, .boolean b)]
  | .null, p, k => counted total k [(p, .null)]

def filledElems (total : Nat) : List Value → Addr → Nat → List Cell
  | [], _, _ => []
  | x :: xs, p, k => filledOf total x (some p) k ++ filledElems total xs p (k + x.size)

def filledMembers (total : Nat) : List (Bytes × Value) → Addr → Nat → List Cell
  | [], _, _ => []
  | (_, x) :: ms, p, k => filledOf total x (some p) k ++ filledMembers total ms p (k + x.size)

end

mutual

theorem length_shapesOf : (v : Value) → (p : Ptr) → (k : Nat) → (shapesOf v p k).length = v.size
  | .object ms, p, k => by
      rw [shapesOf, List.length_cons, length_shapesOfMembers ms, Value.size]
  | .array xs, p, k => by
      rw [shapesOf, List.length_cons, length_shapesOfElems xs, Value.size]
  | .integer _, _, _ => by simp [shapesOf, Value.size]
  | .double _, _, _ => by simp [shapesOf, Value.size]
  | .string _, _, _ => by simp [shapesOf, Value.size]
  | .boolean _, _, _ => by simp [shapesOf, Value.size]
  | .null, _, _ => by simp [shapesOf, Value.size]

theorem length_shapesOfElems : (xs : List Value) → (p : Addr) → (k : Nat) →
    (shapesOfElems xs p k).length = sizeElems xs
  | [], _, _ => by rw [shapesOfElems, sizeElems, List.length_nil]
  | x :: xs, p, k => by
      rw [shapesOfElems, List.length_append, length_shapesOf x, length_shapesOfElems xs, sizeElems]

theorem length_shapesOfMembers : (ms : List (Bytes × Value)) → (p : Addr) → (k : Nat) →
    (shapesOfMembers ms p k).length = sizeMembers ms
  | [], _, _ => by rw [shapesOfMembers, sizeMembers, List.length_nil]
  | (_, x) :: ms, p, k => by
      rw [shapesOfMembers, List.length_append, length_shapesOf x, length_shapesOfMembers ms,
        sizeMembers]

end

mutual

theorem length_filledOf (total : Nat) : (v : Value) → (p : Ptr) → (k : Nat) →
    (filledOf total v p k).length = v.size
  | .object ms, p, k => by
      rw [filledOf, List.length_cons, length_filledMembers total ms, Value.size]
  | .array xs, p, k => by
      rw [filledOf, List.length_cons, length_filledElems total xs, Value.size]
  | .integer _, _, _ => by simp [filledOf, Value.size]
  | .double _, _, _ => by simp [filledOf, Value.size]
  | .string _, _, _ => by simp [filledOf, Value.size]
  | .boolean _, _, _ => by simp [filledOf, Value.size]
  | .null, _, _ => by simp [filledOf, Value.size]

theorem length_filledElems (total : Nat) : (xs : List Value) → (p : Addr) → (k : Nat) →
    (filledElems total xs p k).length = sizeElems xs
  | [], _, _ => by rw [filledElems, sizeElems, List.length_nil]
  | x :: xs, p, k => by
      rw [filledElems, List.length_append, length_filledOf total x, length_filledElems total xs,
        sizeElems]

theorem length_filledMembers (total : Nat) : (ms : List (Bytes × Value)) → (p : Addr) →
    (k : Nat) → (filledMembers total ms p k).length = sizeMembers ms
  | [], _, _ => by rw [filledMembers, sizeMembers, List.length_nil]
  | (_, x) :: ms, p, k => by
      rw [filledMembers, List.length_append, length_filledOf total x,
        length_filledMembers total ms, sizeMembers]

end

theorem length_addrsOf (xs : List Value) (k : Nat) : (addrsOf xs k).length = xs.length := by
  induction xs generalizing k with
  | nil => rfl
  | cons x xs ih => rw [addrsOf, List.length_cons, ih, List.length_cons]

theorem length_slotsOf (ms : List (Bytes × Value)) (offset k : Nat) :
    (slotsOf ms offset k).length = ms.length := by
  induction ms generalizing offset k with
  | nil => rfl
  | cons m ms ih => rw [slotsOf, List.length_cons, ih, List.length_cons]

/-- The first value of a value is itself. -/
theorem filledOf_cons (total : Nat) (v : Value) (p : Ptr) (k : Nat) :
    ∃ u reserved block rest, filledOf total v p k = (⟨p, u, reserved⟩, block) :: rest := by
  cases v <;> exact ⟨_, _, _, _, by rw [filledOf]; try rfl⟩

/-! ### Writing -/

/-- A block that holds bytes. -/
inductive ByteBlock : (List (Option UInt8) → Block) → Prop
  | chars : ByteBlock .chars
  | members (slots : List (Option Nat × Option Addr)) : ByteBlock (.members slots)

/-- Memory of which the first bytes are written. -/
def written (cs : Bytes) (n : Nat) : List (Option UInt8) := cs.map some ++ List.replicate n none

theorem putByte_written (cs : Bytes) (n : Nat) (c : UInt8) :
    putByte (written cs (n + 1)) cs.length c = some (written (cs ++ [c]) n) := by
  have hset : (written cs (n + 1)).set cs.length (some c) = written (cs ++ [c]) n := by
    rw [written, written, List.set_append_right _ _ (by simp), List.length_map, Nat.sub_self,
      List.replicate_succ, List.set_cons_zero, List.map_append, List.append_assoc]
    rfl
  rw [putByte, if_pos (by simp [written]), hset]

variable {settings : JsonSettings} {b b' : Builder} {xs ys : List Cell} {value : JsonValue}
  {mk : List (Option UInt8) → Block} {cs : Bytes} {offset n total k : Nat} {p : Ptr}

theorem Image.owns {block : Option Block} (h : Image b.mem (xs ++ (value, block) :: ys)) :
    b.mem.blocks.get xs.length = block := by
  rw [h.blocks, getElem?_middle]
  rfl

/-- A byte behind those that are written. -/
theorem writeChar_eq (hmk : ByteBlock mk)
    (h : Image b.mem (xs ++ (value, some (mk (written cs (n + 1)))) :: ys))
    (hstring : b.string = some ⟨xs.length, offset⟩)
    (hlen : offset + b.string_length = cs.length) (c : UInt8) :
    writeChar b c = .ok (b.setBlock xs.length (mk (written (cs ++ [c]) n))) := by
  unfold writeChar
  rw [hstring]
  dsimp only
  rw [h.owns, hlen]
  cases hmk with
  | chars =>
      dsimp only
      rw [putByte_written]
      rfl
  | members slots =>
      dsimp only
      rw [putByte_written]
      rfl

/-- The characters of a string or a name. -/
theorem stringAdd_eq (hmk : ByteBlock mk) (s : Bytes)
    (h : Image b.mem (xs ++ (value, some (mk (written cs (s.length + n)))) :: ys))
    (hstring : b.string = some ⟨xs.length, offset⟩)
    (hlen : offset + b.string_length = cs.length) :
    ∃ mem, stringAdd false b s = .ok { b with string_length := b.string_length + s.length, mem } ∧
      Image mem (xs ++ (value, some (mk (written (cs ++ s) n))) :: ys) ∧
      mem.used_memory = b.mem.used_memory := by
  induction s generalizing b cs with
  | nil =>
      rw [List.length_nil, Nat.zero_add] at h
      exact ⟨b.mem, rfl, by rwa [List.append_nil], rfl⟩
  | cons c s ih =>
      rw [List.length_cons, Nat.add_right_comm] at h
      have hset := h.setBlock (a := xs.length) rfl (mk (written (cs ++ [c]) (s.length + n)))
      obtain ⟨mem, hmem, himage, hused⟩ := ih
        (b := { b.setBlock xs.length (mk (written (cs ++ [c]) (s.length + n))) with
          string_length := b.string_length + 1 }) hset hstring (by
            rw [List.length_append, List.length_singleton, ← hlen, Nat.add_assoc])
      refine ⟨mem, ?_, by rwa [List.append_cons cs c s], hused⟩
      rw [stringAdd, List.foldlM_cons, addChar, inSecond_false,
        writeChar_eq hmk h hstring hlen c]
      refine hmem.trans ?_
      rw [List.length_cons, Nat.add_assoc, Nat.add_comm 1]
      rfl

/-! ### The values again -/

/-- The second pass stops because an allocation fails. -/
def Stopped (settings : JsonSettings) (f : Option Fault) : Prop :=
  Refused settings ∧ ∃ b, f = some (.alloc b)

theorem not_stopped_none : ¬ Stopped settings none := by
  rintro ⟨-, b, h⟩
  cases h

/-- What holds of an operation of the second pass. -/
abbrev Second (settings : JsonSettings) {α : Type} (P : α → Prop) (x : Op α) : Prop :=
  Ensures P (fun f => Stopped settings (some f)) x

theorem Second.eff {α : Type} {P : α → Prop} {x : Op α} (h : Second settings P x) :
    Ensures P (Stopped settings) (eff x) := by
  cases x with
  | ok a => exact h
  | error f => exact h

/-- Between two values of the second pass. -/
structure Stage (b : Builder) (cells : List Cell) (alloc : Ptr) (top root : Ptr) : Prop where
  image : Image b.mem cells
  used : b.mem.used_memory = 0
  alloc : b.alloc = alloc
  top : b.top = top
  root : b.root = root

theorem Stage.read {alloc top root : Ptr} {block : Option Block}
    (h : Stage b (xs ++ (value, block) :: ys) alloc top root) :
    b.read (some xs.length) = .ok (xs.length, value) := h.image.read

theorem Stage.read_top {alloc root : Ptr} {block : Option Block}
    (h : Stage b (xs ++ (value, block) :: ys) alloc (some xs.length) root) :
    b.read b.top = .ok (xs.length, value) := by
  rw [h.top]
  exact h.read

theorem Stage.setU {alloc top root : Ptr} {block : Option Block}
    (h : Stage b (xs ++ (value, block) :: ys) alloc top root) (value' : JsonValue) (u : JsonU) :
    Stage (b.setU xs.length value' u) (xs ++ ({ value' with u }, block) :: ys) alloc top root :=
  ⟨h.image.setU rfl value' u, h.used, h.alloc, h.top, h.root⟩

theorem Stage.setBlock {alloc top root : Ptr} {block : Option Block}
    (h : Stage b (xs ++ (value, block) :: ys) alloc top root) (block' : Block) :
    Stage (b.setBlock xs.length block') (xs ++ (value, some block') :: ys) alloc top root :=
  ⟨h.image.setBlock rfl block', h.used, h.alloc, h.top, h.root⟩

/-- The next value is in hand. -/
theorem Stage.taken {top root : Ptr} {cells : List Cell} (h : Stage b cells (some k) top root)
    (next : Ptr) :
    Stage { b with top := some k, alloc := next, root := b.root.or (some k) } cells next (some k)
      (root.or (some k)) :=
  ⟨h.image, h.used, rfl, rfl, by rw [h.root]⟩

theorem Stage.grant {alloc top root : Ptr} {block : Option Block} {size : Nat}
    (hmax : settings.max_memory = 0) (h : Stage b (xs ++ (value, block) :: ys) alloc top root)
    (hsize : size ≤ ulong_max) (block' : Block) :
    (∃ b', b.grant settings size xs.length block' = some b' ∧
      Stage b' (xs ++ (value, some block') :: ys) alloc top root) ∨
      b.grant settings size xs.length block' = none ∧ Refused settings := by
  rcases jsonAlloc_eq _ hmax h.used hsize with halloc | ⟨halloc, hrefused⟩
  · have hcalls : Stage { b with mem := { b.mem with calls := b.mem.calls + 1 } }
        (xs ++ (value, block) :: ys) alloc top root :=
      ⟨⟨h.image.values, h.image.blocks⟩, h.used, h.alloc, h.top, h.root⟩
    exact .inl ⟨_, by rw [Builder.grant, halloc]; rfl, hcalls.setBlock block'⟩
  · exact .inr ⟨by rw [Builder.grant, halloc]; rfl, hrefused⟩

section
variable {next top root : Ptr} (hmax : settings.max_memory = 0)

variable (settings) in
theorem Stage.fillScalar {u : JsonU} (hu : ∀ n q, u ≠ .array n q) (hu' : ∀ n q, u ≠ .object n q)
    (hu'' : ∀ n q, u ≠ .string n q)
    (h : Stage b (xs ++ (⟨p, u, .next_alloc next⟩, none) :: ys) (some xs.length) top root) :
    Second settings (fun b' => Stage b' (xs ++ (⟨p, u, .next_alloc next⟩, none) :: ys) next
      (some xs.length) (root.or (some xs.length))) (fillValue settings b) := by
  have hfilled := h.taken next
  unfold fillValue
  rw [h.alloc, h.read]
  cases u with
  | array n q => exact absurd rfl (hu n q)
  | object n q => exact absurd rfl (hu' n q)
  | string n q => exact absurd rfl (hu'' n q)
  | _ => exact hfilled

include hmax

theorem Stage.fillString {length : Nat} {ptr : Ptr} (hlen : length + 1 ≤ ulong_max)
    (h : Stage b (xs ++ (⟨p, .string length ptr, .next_alloc next⟩, none) :: ys)
      (some xs.length) top root) :
    Second settings (fun b' => Stage b' (xs ++ (⟨p, .string 0 (some xs.length), .next_alloc next⟩,
      some (.chars (written [] (length + 1)))) :: ys) next (some xs.length)
      (root.or (some xs.length))) (fillValue settings b) := by
  have hfilled := h.taken next
  unfold fillValue
  rw [h.alloc, h.read, ok_bind]
  dsimp only
  rcases hfilled.grant hmax hlen (.chars (List.replicate (length + 1) none))
    with ⟨b', hb', hstage⟩ | ⟨hb', hrefused⟩
  · rw [hb']
    exact hstage.setU _ _
  · rw [hb']
    exact ⟨hrefused, _, rfl⟩

theorem Stage.fillArray {length : Nat} {ptr : Ptr} (hlen : length * 8 ≤ ulong_max)
    (h : Stage b (xs ++ (⟨p, .array length ptr, .next_alloc next⟩, none) :: ys)
      (some xs.length) top root) :
    Second settings (fun b' => Stage b' (xs ++ (⟨p, .array 0 (some xs.length), .next_alloc next⟩,
      some (.elems (List.replicate length none))) :: ys) next (some xs.length)
      (root.or (some xs.length))) (fillValue settings b) := by
  have hfilled := h.taken next
  unfold fillValue
  rw [h.alloc, h.read, ok_bind]
  dsimp only
  rcases hfilled.grant hmax hlen (.elems (List.replicate length none))
    with ⟨b', hb', hstage⟩ | ⟨hb', hrefused⟩
  · rw [hb']
    exact hstage.setU _ _
  · rw [hb']
    exact ⟨hrefused, _, rfl⟩

theorem Stage.fillObject {length bytes : Nat} (hint : 16 * length < 2 ^ 31)
    (hlen : 16 * length + bytes ≤ ulong_max)
    (h : Stage b (xs ++ (⟨p, .object length (.size bytes), .next_alloc next⟩, none) :: ys)
      (some xs.length) top root) :
    Second settings (fun b' => Stage b' (xs ++ (⟨p, .object 0 (.block (some xs.length)),
      .object_mem 0⟩, some (.members (List.replicate length (none, none)) (written [] bytes))) ::
      ys) next (some xs.length) (root.or (some xs.length))) (fillValue settings b) := by
  have hfilled := h.taken next
  unfold fillValue
  rw [h.alloc, h.read, ok_bind]
  dsimp only
  rw [if_neg (Nat.not_le.mpr hint)]
  rcases hfilled.grant hmax hlen (.members (List.replicate length (none, none))
    (List.replicate bytes none)) with ⟨b', hb', hstage⟩ | ⟨hb', hrefused⟩
  · rw [hb']
    exact hstage.setU _ _
  · rw [hb']
    exact ⟨hrefused, _, rfl⟩

end

/-! ### Strings and names -/

section
variable {alloc top root : Ptr}

theorem Stage.add (hmk : ByteBlock mk) (s : Bytes)
    (h : Stage b (xs ++ (value, some (mk (written cs (s.length + n)))) :: ys) alloc top root)
    (hstring : b.string = some ⟨xs.length, offset⟩) (hlen : offset + b.string_length = cs.length) :
    ∃ b', stringAdd false b s = .ok b' ∧
      Stage b' (xs ++ (value, some (mk (written (cs ++ s) n))) :: ys) alloc top root ∧
      b'.string = b.string ∧ b'.string_length = b.string_length + s.length := by
  obtain ⟨mem, hadd, himage, hused⟩ := stringAdd_eq hmk s h.image hstring hlen
  exact ⟨_, hadd, ⟨himage, hused.trans h.used, h.alloc, h.top, h.root⟩, rfl, rfl⟩

theorem Stage.string (cells : List Cell) (h : Stage b cells alloc top root)
    (string : Option CharPtr) (string_length : Nat) :
    Stage { b with string, string_length } cells alloc top root :=
  ⟨h.image, h.used, h.alloc, h.top, h.root⟩

/-- The closing quote of a string. -/
theorem Stage.closeString {length : Nat} {ptr next : Ptr}
    (h : Stage b (xs ++ (⟨p, .string length ptr, .next_alloc next⟩, some (.chars (written cs 1))) ::
      ys) alloc (some xs.length) root) (hstring : b.string = some ⟨xs.length, 0⟩)
    (hlen : b.string_length = cs.length) :
    Second settings (fun q => q.2 = true ∧
      Stage q.1 (xs ++ (⟨p, .string cs.length ptr, .next_alloc next⟩,
        some (.chars (written (cs ++ [0]) 0))) :: ys) alloc (some xs.length) root)
      (closeQuote false b) := by
  have hwrite := writeChar_eq .chars h.image hstring (by rw [hlen, Nat.zero_add]) 0
  have hset := (h.setBlock (.chars (written (cs ++ [0]) 0))).string _ none
    (b.setBlock xs.length (.chars (written (cs ++ [0]) 0))).string_length
  unfold closeQuote
  rw [inSecond_false, hwrite, ok_bind]
  dsimp only
  rw [hset.read_top, ← hlen]
  exact ⟨rfl, hset.setU _ _⟩

theorem endName_eq {a length : Nat} {values : ObjectValues} {names : List (Option UInt8)}
    {slots : List (Option Nat × Option Addr)} {slot : Option Nat × Option Addr}
    (hreserved : value.reserved = .object_mem offset)
    (hblock : b.mem.blocks.get a = some (.members slots names))
    (hslot : slots[length]? = some slot) :
    endName false b a value length values =
      .ok ((b.setBlock a (.members (slots.set length (some offset, slot.2)) names)).setU a
        { value with reserved := .object_mem (offset + (b.string_length + 1)) } value.u) := by
  simp only [endName, hreserved, hblock, hslot]
  rfl

/-- The closing quote of a name: its slot and its place are filled in. -/
theorem Stage.closeName {length : Nat} {slots rest : List (Option Nat × Option Addr)}
    (h : Stage b (xs ++ (⟨p, .object length (.block (some xs.length)), .object_mem offset⟩,
      some (.members (slots ++ (none, none) :: rest) (written cs (n + 1)))) :: ys)
      alloc (some xs.length) root) (hstring : b.string = some ⟨xs.length, offset⟩)
    (hlen : offset + b.string_length = cs.length) (hslots : slots.length = length) :
    Second settings (fun q => q.2 = false ∧
      Stage q.1 (xs ++ (⟨p, .object length (.block (some xs.length)),
        .object_mem (offset + (b.string_length + 1))⟩,
        some (.members (slots ++ (some offset, none) :: rest) (written (cs ++ [0]) n))) :: ys)
        alloc (some xs.length) root) (closeQuote false b) := by
  have hwrite := writeChar_eq (.members _) h.image hstring hlen 0
  have hset := (h.setBlock (.members (slots ++ (none, none) :: rest)
    (written (cs ++ [0]) n))).string _ none (b.setBlock xs.length
      (.members (slots ++ (none, none) :: rest) (written (cs ++ [0]) n))).string_length
  unfold closeQuote
  rw [inSecond_false, hwrite, ok_bind]
  dsimp only
  rw [hset.read_top, ok_bind]
  dsimp only
  subst hslots
  rw [endName_eq rfl hset.image.owns (getElem?_middle _ _ _),
    List.set_append_right _ _ (Nat.le_refl _), Nat.sub_self, List.set_cons_zero]
  exact ⟨rfl, (hset.setBlock _).setU _ _⟩

theorem written_zero (cs : Bytes) : written cs 0 = cs.map some := List.append_nil _

theorem Stage.buildString {s : Bytes} {ptr next : Ptr} (hmax : settings.max_memory = 0)
    (hlen : s.length + 1 ≤ ulong_max)
    (h : Stage b (xs ++ (⟨p, .string s.length ptr, .next_alloc next⟩, none) :: ys)
      (some xs.length) top root) :
    Ensures (fun b' => Stage b' (xs ++ (⟨p, .string s.length (some xs.length), .next_alloc next⟩,
      some (.chars ((s ++ [0]).map some))) :: ys) next (some xs.length)
      (root.or (some xs.length))) (Stopped settings) (build settings false (.string s) b) := by
  rw [build]
  have hopen : Second settings (fun b' => Stage b' (xs ++ (⟨p, .string 0 (some xs.length),
      .next_alloc next⟩, some (.chars (written [] (s.length + 1)))) :: ys) next (some xs.length)
      (root.or (some xs.length)) ∧ b'.string = some ⟨xs.length, 0⟩ ∧ b'.string_length = 0)
      (openString settings false b) := by
    refine (h.fillString hmax hlen).bind fun b₁ hb₁ => ?_
    rw [hb₁.read_top]
    exact ⟨hb₁.string _ _ _, rfl, rfl⟩
  refine hopen.eff.bind fun b₁ hb₁ => ?_
  obtain ⟨h₁, hstring₁, hlen₁⟩ := hb₁
  -- the characters fill the block up to its zero byte
  obtain ⟨b₂, hadd, h₂, hstring₂, hlen₂⟩ := h₁.add .chars s hstring₁ (by rw [hlen₁]; rfl)
  rw [buildChars, hadd, eff_ok, ok_bind]
  refine (h₂.closeString (hstring₂.trans hstring₁) (by
    rw [hlen₂, hlen₁, Nat.zero_add, List.nil_append])).eff.bind fun q hq => ?_
  obtain ⟨hclosed, h₃⟩ := hq
  dsimp only
  rw [if_pos hclosed]
  rw [List.nil_append, written_zero] at h₃
  exact h₃

theorem Stage.buildName {k names : Bytes} {length : Nat}
    {slots rest : List (Option Nat × Option Addr)}
    (h : Stage b (xs ++ (⟨p, .object length (.block (some xs.length)), .object_mem names.length⟩,
      some (.members (slots ++ (none, none) :: rest) (written names (k.length + 1 + n)))) :: ys)
      alloc (some xs.length) root) (hslots : slots.length = length) :
    Ensures (fun b' => Stage b' (xs ++ (⟨p, .object length (.block (some xs.length)),
        .object_mem (names.length + (k.length + 1))⟩,
        some (.members (slots ++ (some names.length, none) :: rest)
          (written (names ++ (k ++ [0])) n))) :: ys) alloc (some xs.length) root)
      (Stopped settings) (eff (openName b) >>= buildChars false false k) := by
  have hopen : openName b =
      .ok { b with string := some ⟨xs.length, names.length⟩, string_length := 0 } := by
    unfold openName
    rw [h.read_top]
    rfl
  -- the name goes behind the names that are there
  have h₁ := h.string _ (some ⟨xs.length, names.length⟩) 0
  rw [Nat.add_right_comm, Nat.add_assoc] at h₁
  obtain ⟨b₂, hadd, h₂, hstring₂, hlen₂⟩ := h₁.add (.members _) k rfl rfl
  rw [hopen, eff_ok, ok_bind, buildChars, hadd, eff_ok, ok_bind]
  have hlen₂' : b₂.string_length = k.length := hlen₂.trans (Nat.zero_add _)
  refine (h₂.closeName hstring₂ (by rw [hlen₂', List.length_append]) hslots).eff.bind
    fun q hq => ?_
  obtain ⟨hclosed, h₃⟩ := hq
  dsimp only
  rw [if_pos hclosed]
  rw [hlen₂', List.append_assoc] at h₃
  exact h₃

end

/-! ### The end of a value -/

variable (settings) in
/-- A value that ends is put into the one it is in. -/
theorem Stage.finishIn {alloc root : Ptr} {u u' : JsonU} {reserved : Reserved}
    {block block' : Block} {length K : Nat} {mode : Mode} {v : Value} {mid : List Cell}
    (h : Stage b (xs ++ (⟨p, u, reserved⟩, some block) ::
      (mid ++ (filledOf total v (some xs.length) K ++ ys))) alloc (some K) root)
    (hK : K = xs.length + 1 + mid.length) (hgrow : u.grow = .ok (length, u'))
    (hlength : length < uint_max) (hmode : modeAfter (some u.type) = mode)
    (hlink : ∀ b : Builder, b.mem.blocks.get xs.length = some block →
      linkTop b K xs.length length = .ok (b.setBlock xs.length block')) :
    Ensures (fun b' => Stage b' (xs ++ (⟨p, u', reserved⟩, some block') ::
      (mid ++ (filledOf total v (some xs.length) K ++ ys))) alloc (some xs.length) root)
      (Stopped settings) (finishIn false mode b) := by
  obtain ⟨w, reserved', blockv, rest, hv⟩ := filledOf_cons total v (some xs.length) K
  have hread : b.read (some K) = .ok (K, ⟨some xs.length, w, reserved'⟩) := by
    have hsplit : xs ++ (⟨p, u, reserved⟩, some block) ::
        (mid ++ (filledOf total v (some xs.length) K ++ ys)) =
        (xs ++ (⟨p, u, reserved⟩, some block) :: mid) ++
          (⟨some xs.length, w, reserved'⟩, blockv) :: (rest ++ ys) := by
      rw [hv]
      simp
    have hlen : (xs ++ ((⟨p, u, reserved⟩, some block) : Cell) :: mid).length = K := by
      rw [hK, List.length_append, List.length_cons]
      omega
    have hread := (hsplit ▸ h).read
    rwa [hlen] at hread
  have hfinish : finish false b = .ok (modeAfter (some u.type),
      { (b.setBlock xs.length block').setU xs.length ⟨p, u, reserved⟩ u' with
        top := some xs.length }) := by
    unfold finish leaveTop
    rw [h.top, hread]
    simp only [ok_bind, h.read, leave, hgrow, inSecond_false, hlink b h.image.owns]
    rw [if_neg (by omega)]
    rfl
  unfold JsonC.finishIn
  rw [hfinish, eff_ok, ok_bind]
  dsimp only
  rw [if_pos hmode]
  have hset := (h.setBlock block').setU ⟨p, u, reserved⟩ u'
  exact ⟨hset.image, hset.used, hset.alloc, rfl, hset.root⟩

theorem linkTop_elems {a K length : Nat} {done rest : List (Option Addr)}
    (hdone : done.length = length)
    (h : b.mem.blocks.get a = some (.elems (done ++ none :: rest))) :
    linkTop b K a length = .ok (b.setBlock a (.elems (done ++ some K :: rest))) := by
  subst hdone
  unfold linkTop
  rw [h]
  dsimp only
  rw [if_pos (by simp), List.set_append_right _ _ (Nat.le_refl _), Nat.sub_self, List.set_cons_zero]
  rfl

theorem linkTop_members {a K length : Nat} {slots rest : List (Option Nat × Option Addr)}
    {names : List (Option UInt8)} {name : Option Nat} (hslots : slots.length = length)
    (h : b.mem.blocks.get a = some (.members (slots ++ (name, none) :: rest) names)) :
    linkTop b K a length =
      .ok (b.setBlock a (.members (slots ++ (name, some K) :: rest) names)) := by
  subst hslots
  unfold linkTop
  rw [h]
  dsimp only
  rw [getElem?_middle]
  dsimp only
  rw [List.set_append_right _ _ (Nat.le_refl _), Nat.sub_self, List.set_cons_zero]
  rfl

/-! ### The second pass -/

/-- The value at `k`, when there are more than `k`. -/
def fromOf (total k : Nat) : Ptr := if k < total then some k else none

theorem nextOf_eq (total k : Nat) : nextOf total k = fromOf total (k + 1) := rfl

theorem fromOf_lt (h : k < total) : fromOf total k = some k := if_pos h

/-- The bytes of a text, up to where the size of an object fits into an `int`. -/
def text_max : Nat := 2 ^ 27

/-- A value of the second pass gets its memory, and the list goes on behind it. -/
def ValueFills (settings : JsonSettings) (v : Value) : Prop :=
  v.weight < text_max → ∀ total b xs ys top root,
    Stage b (xs ++ (counted total xs.length (shapesOf v top xs.length) ++ ys)) (some xs.length)
      top root → xs.length + v.size ≤ total →
    Ensures (fun b' => Stage b' (xs ++ (filledOf total v top xs.length ++ ys))
      (fromOf total (xs.length + v.size)) (some xs.length) (root.or (some xs.length)))
      (Stopped settings) (build settings false v b)

def ElemsFill (settings : JsonSettings) (es : List Value) : Prop :=
  weightElems es < text_max → ∀ total b xs p reserved done mid ys r K,
    K = xs.length + 1 + mid.length → K + sizeElems es ≤ total →
    done.length + es.length ≤ text_max →
    Stage b (xs ++ (⟨p, .array done.length (some xs.length), reserved⟩,
        some (.elems (done ++ List.replicate es.length none))) ::
      (mid ++ (counted total K (shapesOfElems es xs.length K) ++ ys))) (fromOf total K)
      (some xs.length) (some r) →
    Ensures (fun b' => Stage b' (xs ++
        (⟨p, .array (done.length + es.length) (some xs.length), reserved⟩,
          some (.elems (done ++ (addrsOf es K).map some))) ::
        (mid ++ (filledElems total es xs.length K ++ ys))) (fromOf total (K + sizeElems es))
        (some xs.length) (some r))
      (Stopped settings) (buildElems settings false es b)

def MembersFill (settings : JsonSettings) (ms : List (Bytes × Value)) : Prop :=
  weightMembers ms < text_max → ∀ total b xs p slots names mid ys r K,
    K = xs.length + 1 + mid.length → K + sizeMembers ms ≤ total →
    slots.length + ms.length ≤ text_max →
    Stage b (xs ++ (⟨p, .object slots.length (.block (some xs.length)),
        .object_mem names.length⟩, some (.members (slots ++ List.replicate ms.length (none, none))
          (written names (namesSize ms)))) ::
      (mid ++ (counted total K (shapesOfMembers ms xs.length K) ++ ys))) (fromOf total K)
      (some xs.length) (some r) →
    Ensures (fun b' => Stage b' (xs ++
        (⟨p, .object (slots.length + ms.length) (.block (some xs.length)),
          .object_mem (names.length + namesSize ms)⟩,
          some (.members (slots ++ slotsOf ms names.length K)
            (written (names ++ namesBytes ms) 0))) ::
        (mid ++ (filledMembers total ms xs.length K ++ ys))) (fromOf total (K + sizeMembers ms))
        (some xs.length) (some r))
      (Stopped settings) (buildMembers settings false ms b)

theorem text_max_lt : text_max < uint_max := by decide

theorem elemsFill_cons {x : Value} {es : List Value} (hx : ValueFills settings x)
    (hes : ElemsFill settings es) : ElemsFill settings (x :: es) := by
  intro hweight total b xs p reserved done mid ys r K hK htotal hlength h
  rw [weightElems] at hweight
  rw [sizeElems] at htotal
  rw [List.length_cons] at hlength
  have huint := text_max_lt
  have hsize := size_pos x
  have hlen : (xs ++ ((⟨p, .array done.length (some xs.length), reserved⟩,
      some (.elems (done ++ List.replicate (es.length + 1) none))) : Cell) :: mid).length = K := by
    rw [hK, List.length_append, List.length_cons]
    omega
  rw [buildElems]
  -- the element is filled where it stands, between what is done and what is still counted only
  have hbuild := hx (by omega) total b (xs ++ (⟨p, .array done.length (some xs.length), reserved⟩,
      some (.elems (done ++ List.replicate (es.length + 1) none))) :: mid)
    (counted total (K + x.size) (shapesOfElems es xs.length (K + x.size)) ++ ys)
    (some xs.length) (some r)
  rw [hlen] at hbuild
  refine (hbuild ?_ (by omega)).bind fun b₁ h₁ => ?_
  · rw [shapesOfElems, length_shapesOf, counted_append, length_shapesOf, List.length_cons,
      fromOf_lt (by omega)] at h
    simpa only [List.append_assoc, List.cons_append] using h
  · have h₁' : Stage b₁ (xs ++ (⟨p, .array done.length (some xs.length), reserved⟩,
        some (.elems (done ++ none :: List.replicate es.length none))) ::
        (mid ++ (filledOf total x (some xs.length) K ++
          (counted total (K + x.size) (shapesOfElems es xs.length (K + x.size)) ++ ys))))
        (fromOf total (K + x.size)) (some K) (some r) := by
      simpa only [List.append_assoc, List.cons_append, List.replicate_succ, Option.some_or] using h₁
    -- its address is put into the table, and the others follow
    have hfinish := h₁'.finishIn settings hK rfl (by omega) rfl
      fun b hb => linkTop_elems rfl hb
    refine hfinish.bind fun b₂ h₂ => ?_
    have hdone : (done ++ [some K]).length = done.length + 1 := by simp
    have hrest := hes (by omega) total b₂ xs p reserved (done ++ [some K])
      (mid ++ filledOf total x (some xs.length) K) ys r (K + x.size)
      (by rw [hK, List.length_append, length_filledOf]; omega) (by omega) (by rw [hdone]; omega)
    rw [hdone] at hrest
    refine (hrest ?_).mono fun b₃ h₃ => ?_
    · simpa only [List.append_assoc, List.singleton_append] using h₂
    · rw [addrsOf, filledElems, sizeElems, List.map_cons, List.length_cons]
      simpa only [List.append_assoc, List.singleton_append, Nat.add_assoc, Nat.add_comm 1] using h₃

theorem membersFill_cons {k : Bytes} {x : Value} {ms : List (Bytes × Value)}
    (hx : ValueFills settings x) (hms : MembersFill settings ms) :
    MembersFill settings ((k, x) :: ms) := by
  intro hweight total b xs p slots names mid ys r K hK htotal hlength h
  rw [weightMembers] at hweight
  rw [sizeMembers] at htotal
  rw [List.length_cons] at hlength
  have huint := text_max_lt
  have hsize := size_pos x
  have hbuild : buildMembers settings false ((k, x) :: ms) b =
      (eff (openName b) >>= buildChars false false k) >>= fun b =>
        build settings false x b >>= fun b => finishIn false (.inside true) b >>= fun b =>
          buildMembers settings false ms b := by
    rw [buildMembers, bind_assoc]
  rw [List.length_cons, List.replicate_succ, namesSize] at h
  rw [hbuild]
  refine (h.buildName rfl).bind fun b₀ h₀ => ?_
  have hnames : (names ++ (k ++ [0])).length = names.length + (k.length + 1) := by simp
  -- filling the value does not look into the object, which is a cell like any other
  generalize hcell : ((⟨p, .object slots.length (.block (some xs.length)),
      .object_mem (names.length + (k.length + 1))⟩,
      some (.members (slots ++ (some names.length, none) :: List.replicate ms.length (none, none))
        (written (names ++ (k ++ [0])) (namesSize ms)))) : Cell) = cell at h₀
  have hlen : (xs ++ cell :: mid).length = K := by
    rw [hK, List.length_append, List.length_cons]
    omega
  have hvalue := hx (by omega) total b₀ (xs ++ cell :: mid)
    (counted total (K + x.size) (shapesOfMembers ms xs.length (K + x.size)) ++ ys)
    (some xs.length) (some r)
  rw [hlen] at hvalue
  refine (hvalue ?_ (by omega)).bind fun b₁ h₁ => ?_
  · rw [shapesOfMembers, length_shapesOf, counted_append, length_shapesOf,
      fromOf_lt (by omega)] at h₀
    simpa only [List.append_assoc, List.cons_append] using h₀
  · have h₁' : Stage b₁ (xs ++ cell :: (mid ++ (filledOf total x (some xs.length) K ++
        (counted total (K + x.size) (shapesOfMembers ms xs.length (K + x.size)) ++ ys))))
        (fromOf total (K + x.size)) (some K) (some r) := by
      simpa only [List.append_assoc, List.cons_append, Option.some_or] using h₁
    subst hcell
    -- its address is put beside its name, and the others follow
    have hfinish := h₁'.finishIn settings hK rfl (by omega) rfl
      fun b hb => linkTop_members rfl hb
    refine hfinish.bind fun b₂ h₂ => ?_
    have hslots : (slots ++ [(some names.length, some K)]).length = slots.length + 1 := by simp
    have hrest := hms (by omega) total b₂ xs p (slots ++ [(some names.length, some K)])
      (names ++ (k ++ [0])) (mid ++ filledOf total x (some xs.length) K) ys r (K + x.size)
      (by rw [hK, List.length_append, length_filledOf]; omega) (by omega) (by rw [hslots]; omega)
    rw [hslots, hnames] at hrest
    refine (hrest ?_).mono fun b₃ h₃ => ?_
    · simpa only [List.append_assoc, List.singleton_append] using h₂
    · rw [slotsOf, filledMembers, sizeMembers, namesSize, namesBytes, List.length_cons]
      simpa only [List.append_assoc, List.singleton_append, Nat.add_assoc, Nat.add_comm 1] using h₃

theorem namesSize_le_weight (ms : List (Bytes × Value)) : namesSize ms ≤ weightMembers ms := by
  induction ms with
  | nil => exact Nat.le_refl _
  | cons m ms ih =>
      obtain ⟨k, x⟩ := m
      rw [namesSize, weightMembers]
      omega

theorem size_le_ulong_max {n : Nat} (h : n ≤ 16 * text_max) : n ≤ ulong_max :=
  Nat.le_trans h (by decide)

section
variable {top root : Ptr}

/-- The list goes on with the value itself. -/
theorem Stage.counted_cons {u : JsonU} {cs : List Shape}
    (h : Stage b (xs ++ (counted total xs.length ((top, u) :: cs) ++ ys)) (some xs.length) top
      root) :
    Stage b (xs ++ (⟨top, u, .next_alloc (fromOf total (xs.length + 1))⟩, none) ::
      (counted total (xs.length + 1) cs ++ ys)) (some xs.length) top root := h

theorem or_some (root : Ptr) (k : Addr) : ∃ r, root.or (some k) = some r := by
  cases root <;> exact ⟨_, rfl⟩

theorem Stage.fillNumber {u : JsonU} (hu : u.type = .json_integer ∨ u.type = .json_double)
    (h : Stage b (xs ++ (counted total xs.length [(top, u)] ++ ys)) (some xs.length) top root)
    (u' : JsonU) :
    Ensures (fun b' => Stage b' (xs ++ (counted total xs.length [(top, u)] ++ ys))
      (fromOf total (xs.length + 1)) (some xs.length) (root.or (some xs.length)))
      (Stopped settings) (eff (buildNumber settings false u' b)) := by
  have hfill := h.counted_cons.fillScalar settings
    (by rintro n q rfl; rcases hu with hu | hu <;> cases hu)
    (by rintro n q rfl; rcases hu with hu | hu <;> cases hu)
    (by rintro n q rfl; rcases hu with hu | hu <;> cases hu)
  exact Second.eff (hfill.bind fun b₁ h₁ => h₁)

theorem Stage.fillWord {u : JsonU} {type : JsonType} {value : Option Bool}
    (hu : u = (value.map .boolean).getD u) (hu' : u.type = .json_boolean ∨ u.type = .json_null)
    (h : Stage b (xs ++ (counted total xs.length [(top, u)] ++ ys)) (some xs.length) top root) :
    Ensures (fun b' => Stage b' (xs ++ (counted total xs.length [(top, u)] ++ ys))
      (fromOf total (xs.length + 1)) (some xs.length) (root.or (some xs.length)))
      (Stopped settings) (eff (buildWord settings false type value b)) := by
  have hfill := h.counted_cons.fillScalar settings
    (by rintro n q rfl; rcases hu' with hu' | hu' <;> cases hu')
    (by rintro n q rfl; rcases hu' with hu' | hu' <;> cases hu')
    (by rintro n q rfl; rcases hu' with hu' | hu' <;> cases hu')
  refine Second.eff (hfill.bind fun b₁ h₁ => ?_)
  cases value with
  | none => exact h₁
  | some boolean =>
      have hu : u = .boolean boolean := hu
      subst hu
      dsimp only
      rw [h₁.read_top]
      exact h₁.setU _ _

end

mutual

/-- **The second pass** fills in every value that the first one has made. -/
theorem valueFills (hmax : settings.max_memory = 0) : (v : Value) → ValueFills settings v
  | .object ms => by
      intro hweight total b xs ys top root h htotal
      rw [Value.weight] at hweight
      rw [Value.size] at htotal
      have hlen := length_le_weightMembers ms
      have hnames := namesSize_le_weight ms
      rw [shapesOf] at h
      rw [build]
      -- the size of the table is an `int` in the source
      have hint : 16 * ms.length < 2 ^ 31 := by
        have : 16 * text_max = 2 ^ 31 := rfl
        omega
      refine (h.counted_cons.fillObject hmax hint (Nat.le_trans (m := 17 * text_max) (by omega)
        (by decide))).eff.bind fun b₁ h₁ => ?_
      obtain ⟨r, hr⟩ := or_some root xs.length
      rw [inType_of_read .json_object h₁.read_top rfl, ok_bind, hr]
      rw [hr] at h₁
      have hms := membersFill hmax ms (by omega) total b₁ xs top [] [] [] ys r (xs.length + 1) rfl
        (by omega) (by rw [List.length_nil]; omega) h₁
      refine hms.mono fun b₂ h₂ => ?_
      rw [filledOf, Value.size]
      simpa only [List.length_nil, Nat.zero_add, List.nil_append, List.cons_append, written_zero,
        Nat.add_assoc, Nat.add_comm 1] using h₂
  | .array es => by
      intro hweight total b xs ys top root h htotal
      rw [Value.weight] at hweight
      rw [Value.size] at htotal
      have hlen := length_le_weightElems es
      rw [shapesOf] at h
      rw [build]
      refine (h.counted_cons.fillArray hmax (size_le_ulong_max (by omega))).eff.bind fun b₁ h₁ => ?_
      obtain ⟨r, hr⟩ := or_some root xs.length
      rw [inType_of_read .json_array h₁.read_top rfl, ok_bind, hr]
      rw [hr] at h₁
      have hes := elemsFill hmax es (by omega) total b₁ xs top _ [] [] ys r (xs.length + 1) rfl
        (by omega) (by rw [List.length_nil]; omega) h₁
      refine hes.mono fun b₂ h₂ => ?_
      rw [filledOf, Value.size, nextOf_eq]
      simpa only [List.length_nil, Nat.zero_add, List.nil_append, List.cons_append,
        Nat.add_assoc, Nat.add_comm 1] using h₂
  | .integer n => by
      intro hweight total b xs ys top root h htotal
      rw [build, filledOf]
      rw [shapesOf] at h
      exact h.fillNumber (.inl rfl) _
  | .double d => by
      intro hweight total b xs ys top root h htotal
      rw [build, filledOf]
      rw [shapesOf] at h
      exact h.fillNumber (.inr rfl) _
  | .string s => by
      intro hweight total b xs ys top root h htotal
      rw [Value.weight] at hweight
      rw [shapesOf] at h
      rw [filledOf]
      exact h.counted_cons.buildString hmax (size_le_ulong_max (by omega))
  | .boolean true => by
      intro hweight total b xs ys top root h htotal
      rw [build, filledOf]
      rw [shapesOf] at h
      exact h.fillWord rfl (.inl rfl)
  | .boolean false => by
      intro hweight total b xs ys top root h htotal
      rw [build, filledOf]
      rw [shapesOf] at h
      exact h.fillWord rfl (.inl rfl)
  | .null => by
      intro hweight total b xs ys top root h htotal
      rw [build, filledOf]
      rw [shapesOf] at h
      exact h.fillWord rfl (.inr rfl)

theorem elemsFill (hmax : settings.max_memory = 0) : (es : List Value) → ElemsFill settings es
  | [] => by
      intro hweight total b xs p reserved done mid ys r K hK htotal hlength h
      rw [buildElems]
      refine Ensures.pure ?_
      simpa [addrsOf, filledElems, sizeElems, shapesOfElems, counted] using h
  | x :: es => elemsFill_cons (valueFills hmax x) (elemsFill hmax es)

theorem membersFill (hmax : settings.max_memory = 0) :
    (ms : List (Bytes × Value)) → MembersFill settings ms
  | [] => by
      intro hweight total b xs p slots names mid ys r K hK htotal hlength h
      rw [buildMembers]
      refine Ensures.pure ?_
      simpa [slotsOf, filledMembers, sizeMembers, shapesOfMembers, counted, namesSize,
        namesBytes] using h
  | (_, x) :: ms => membersFill_cons (valueFills hmax x) (membersFill hmax ms)

end

end SpiderChat.JsonC
