import SpiderChat.Lib.CHeap
import SpiderChat.Lib.Except
import SpiderChat.Lib.Json
import SpiderChat.Lib.Loop
import SpiderChat.Types

/-!
# SpiderChat.JsonC

The JSON parser of the server (`json.c`): `json_parse_ex` reads the text twice with
one loop, the first time to allocate the values and to count what is in them, the
second time to fill the memory that was counted. `json_value_free` gives it back.

A pointer into the text is the part of the text from it on; the text ends with a
zero byte behind it, as the callers' `json_parse(data, strlen(data))` has it.
Values and what they own (`Block`) are kept on two heaps; the block of a value has
the address of that value. A floating point number is kept as the operations that
make it, and `int64_t` wraps around. A step that reads or writes outside of
allocated memory is `undefined`.
-/

namespace SpiderChat.JsonC

open Lib

/-! ### Values -/

/-- `json_type` -/
inductive JsonType
  | json_object
  | json_array
  | json_integer
  | json_double
  | json_string
  | json_boolean
  | json_null
  deriving Repr, DecidableEq

/-- A `double`, by the operations of the parser that make it. -/
inductive Dbl
  /-- `(double) integer` -/
  | ofInteger (integer : Int64)
  /-- `dbl + num_fraction / pow(10, num_digits)` -/
  | addFraction (dbl : Dbl) (num_fraction : Int64) (num_digits : Nat)
  /-- `dbl * pow(10, num_e)` -/
  | scale (dbl : Dbl) (num_e : Int64)
  /-- `- dbl` -/
  | neg (dbl : Dbl)
  deriving Repr, DecidableEq

/-- `u.object.values`: in the first pass the bytes that the names will take. -/
inductive ObjectValues
  | size (bytes : Nat)
  | block (values : Ptr)
  deriving Repr, DecidableEq

/-- The type of a value with the member of `u` that goes with it. -/
inductive JsonU
  | object (length : Nat) (values : ObjectValues)
  | array (length : Nat) (values : Ptr)
  | integer (integer : Int64)
  | double (dbl : Dbl)
  | string (length : Nat) (ptr : Ptr)
  | boolean (boolean : Bool)
  | null
  deriving Repr, DecidableEq

/-- `value->type` -/
def JsonU.type : JsonU → JsonType
  | .object _ _ => .json_object
  | .array _ _ => .json_array
  | .integer _ => .json_integer
  | .double _ => .json_double
  | .string _ _ => .json_string
  | .boolean _ => .json_boolean
  | .null => .json_null

/-- What `calloc` and `value->type = type` make. -/
def JsonType.zero : JsonType → JsonU
  | .json_object => .object 0 (.size 0)
  | .json_array => .array 0 none
  | .json_integer => .integer 0
  | .json_double => .double (.ofInteger 0)
  | .json_string => .string 0 none
  | .json_boolean => .boolean false
  | .json_null => .null

/-- `_reserved`: `object_mem` is kept as an offset behind the slots of the object. -/
inductive Reserved
  | next_alloc (value : Ptr)
  | object_mem (offset : Nat)
  deriving Repr, DecidableEq

/-- `json_value` -/
structure JsonValue where
  parent : Ptr
  u : JsonU
  reserved : Reserved
  deriving Repr, DecidableEq

/-- What a value owns; `none` is memory that is not written yet. -/
inductive Block
  /-- `u.array.values` -/
  | elems (cells : List (Option Addr))
  /-- `u.object.values`: the slots of name and value, and the names behind them -/
  | members (slots : List (Option Nat × Option Addr)) (names : List (Option UInt8))
  /-- `u.string.ptr` -/
  | chars (cells : List (Option UInt8))
  deriving Repr, DecidableEq

/-- `json_settings`: `mem_alloc calls size` says if the call after `calls` others succeeds. -/
structure JsonSettings where
  max_memory : Nat
  settings : Int32
  mem_alloc : Nat → Nat → Bool

/-- The memory of a parse. -/
structure Memory where
  values : Heap JsonValue
  blocks : Heap Block
  used_memory : Nat
  calls : Nat

/-- `state.uint_max` -/
def uint_max : Nat := 2 ^ 32 - 1 - 8

/-- `state.ulong_max` -/
def ulong_max : Nat := 2 ^ 64 - 1 - 8

/-- `json_alloc`, the memory apart that it returns. -/
def jsonAlloc (settings : JsonSettings) (m : Memory) (size : Nat) : Option Memory :=
  if ulong_max - m.used_memory < size then none
  else
    let m := if settings.max_memory ≠ 0 then { m with used_memory := m.used_memory + size } else m
    if settings.max_memory ≠ 0 ∧ settings.max_memory < m.used_memory then none
    else if settings.mem_alloc m.calls size then some { m with calls := m.calls + 1 }
    else none

/-- A place in the characters of a string or in the names of an object. -/
structure CharPtr where
  block : Addr
  offset : Nat
  deriving Repr, DecidableEq

/-- The values made so far, and where the parser is in them. -/
structure Builder where
  top : Ptr
  root : Ptr
  alloc : Ptr
  string : Option CharPtr
  string_length : Nat
  mem : Memory

/-- What stops the parser from inside of an operation on the values. -/
inductive Fault
  | undefined
  /-- `goto e_alloc_failure` -/
  | alloc (b : Builder)
  /-- `goto e_overflow` -/
  | overflow (b : Builder)

/-- An operation on the values. -/
abbrev Op := Except Fault

namespace Builder

/-- `value->u = ..` -/
def setU (b : Builder) (a : Addr) (value : JsonValue) (u : JsonU) : Builder :=
  { b with mem := { b.mem with values := b.mem.values.set a { value with u } } }

def setBlock (b : Builder) (a : Addr) (block : Block) : Builder :=
  { b with mem := { b.mem with blocks := b.mem.blocks.set a block } }

/-- `*p` -/
def read (b : Builder) : Ptr → Op (Addr × JsonValue)
  | none => .error .undefined
  | some a =>
      match b.mem.values.get a with
      | none => .error .undefined
      | some value => .ok (a, value)

theorem read_eq_ok {b : Builder} {p : Ptr} {a : Addr} {value : JsonValue} :
    b.read p = .ok (a, value) ↔ p = some a ∧ b.mem.values.get a = some value := by
  unfold read
  split
  · simp
  · split
    · rename_i a' hget
      simp only [reduceCtorEq, Option.some.injEq, false_iff, not_and]
      rintro rfl
      simp [hget]
    · rename_i a' value' hget
      simp only [Except.ok.injEq, Prod.mk.injEq, Option.some.injEq]
      constructor
      · rintro ⟨rfl, rfl⟩
        exact ⟨rfl, hget⟩
      · rintro ⟨rfl, hget'⟩
        exact ⟨rfl, Option.some.inj (hget.symm.trans hget')⟩

@[simp] theorem read_setU (b : Builder) (a : Addr) (value : JsonValue) (u : JsonU) :
    (b.setU a value u).read (some a) = .ok (a, { value with u }) :=
  read_eq_ok.mpr ⟨rfl, Heap.get_set_self _ _ _⟩

@[simp] theorem setU_setU (b : Builder) (a : Addr) (value : JsonValue) (u u' : JsonU) :
    (b.setU a value u).setU a { value with u } u' = b.setU a value u' := by
  simp [setU]

theorem read_top_setU {b : Builder} {a : Addr} (h : b.top = some a) (value : JsonValue)
    (u : JsonU) : (b.setU a value u).read (b.setU a value u).top = .ok (a, { value with u }) := by
  rw [show (b.setU a value u).top = some a from h]
  exact read_setU b a value u

/-- The block of a value that is given its memory in the second pass. -/
def grant (settings : JsonSettings) (b : Builder) (size : Nat) (a : Addr) (block : Block) :
    Option Builder :=
  (jsonAlloc settings b.mem size).map fun mem => { b with mem }.setBlock a block

end Builder

/-- `new_value` in the second pass: the next value of the first one gets its memory. -/
def fillValue (settings : JsonSettings) (b : Builder) : Op Builder := do
  let (a, value) ← b.read b.alloc
  match value.reserved with
  | .object_mem _ => throw .undefined
  | .next_alloc next =>
      let b := { b with top := some a, alloc := next, root := b.root.or (some a) }
      match value.u with
      | .array length _ =>
          -- without memory the length stays the one that the first pass has counted
          match b.grant settings (length * 8) a (.elems (List.replicate length none)) with
          | none => throw (.alloc (b.setU a value (.array length none)))
          | some b => pure (b.setU a value (.array 0 (some a)))
      | .object length (.size bytes) =>
          -- `values_size` is an `int`
          if 2 ^ 31 ≤ 16 * length then throw .undefined
          else
            match b.grant settings (16 * length + bytes) a
                (.members (List.replicate length (none, none)) (List.replicate bytes none)) with
            | none => throw (.alloc (b.setU a value (.object length (.block none))))
            | some b =>
                pure (b.setU a { value with reserved := .object_mem 0 }
                  (.object 0 (.block (some a))))
      | .object _ (.block _) => throw .undefined
      | .string length _ =>
          match b.grant settings (length + 1) a (.chars (List.replicate (length + 1) none)) with
          | none => throw (.alloc (b.setU a value (.string length none)))
          | some b => pure (b.setU a value (.string 0 (some a)))
      | _ => pure b

/-- `if (*alloc) (*alloc)->_reserved.next_alloc = value` -/
def linkAlloc (values : Heap JsonValue) (alloc : Ptr) (a : Addr) : Op (Heap JsonValue) :=
  match alloc with
  | none => pure values
  | some last =>
      match values.get last with
      | none => throw .undefined
      | some v => pure (values.set last { v with reserved := .next_alloc (some a) })

/-- `new_value` in the first pass. -/
def allocValue (settings : JsonSettings) (b : Builder) (type : JsonType) : Op Builder :=
  match jsonAlloc settings b.mem 40 with
  | none => throw (.alloc b)
  | some mem => do
      -- in the first pass only values are allocated, so their addresses are consecutive
      let a := b.mem.calls
      let values ← linkAlloc (mem.values.set a ⟨b.top, type.zero, .next_alloc none⟩) b.alloc a
      pure { b with mem := { mem with values }, root := b.root.or (some a), alloc := some a,
                    top := some a }

/-- `new_value` -/
def newValue (settings : JsonSettings) (first_pass : Bool) (b : Builder) (type : JsonType) :
    Op Builder :=
  if first_pass then allocValue settings b type else fillValue settings b

/-- A byte into memory that has room for it. -/
def putByte (cells : List (Option UInt8)) (k : Nat) (c : UInt8) : Option (List (Option UInt8)) :=
  if k < cells.length then some (cells.set k (some c)) else none

/-- `string [string_length] = c` -/
def writeChar (b : Builder) (c : UInt8) : Op Builder :=
  match b.string with
  | none => throw .undefined
  | some p =>
      match b.mem.blocks.get p.block with
      | some (.chars cells) =>
          match putByte cells (p.offset + b.string_length) c with
          | none => throw .undefined
          | some cells => pure (b.setBlock p.block (.chars cells))
      | some (.members slots names) =>
          match putByte names (p.offset + b.string_length) c with
          | none => throw .undefined
          | some names => pure (b.setBlock p.block (.members slots names))
      | _ => throw .undefined

/-- `if (!state.first_pass)` -/
def inSecond (first_pass : Bool) (op : Builder → Op Builder) (b : Builder) : Op Builder :=
  if first_pass then pure b else op b

@[simp] theorem inSecond_true (op : Builder → Op Builder) (b : Builder) :
    inSecond true op b = pure b := rfl

@[simp] theorem inSecond_false (op : Builder → Op Builder) (b : Builder) :
    inSecond false op b = op b := rfl

/-- `string_add` -/
def addChar (first_pass : Bool) (b : Builder) (c : UInt8) : Op Builder := do
  let b ← inSecond first_pass (writeChar · c) b
  pure { b with string_length := b.string_length + 1 }

/-- `string_add`, byte by byte. -/
def stringAdd (first_pass : Bool) (b : Builder) (cs : Bytes) : Op Builder :=
  cs.foldlM (addChar first_pass) b

/-- The opening quote of a string: `string = top->u.string.ptr`. -/
def openString (settings : JsonSettings) (first_pass : Bool) (b : Builder) :
    Op Builder := do
  let b ← newValue settings first_pass b .json_string
  let (a, value) ← b.read b.top
  match value.u with
  | .string _ ptr => pure { b with string := ptr.map fun _ => ⟨a, 0⟩, string_length := 0 }
  | _ => throw .undefined

/-- The opening quote of a name: `string = top->_reserved.object_mem`, which the first pass
does not use. -/
def openName (b : Builder) : Op Builder := do
  let (a, value) ← b.read b.top
  match value.reserved with
  | .object_mem offset => pure { b with string := some ⟨a, offset⟩, string_length := 0 }
  | .next_alloc _ => pure { b with string := none, string_length := 0 }

/-- The closing quote of a name. -/
def endName (first_pass : Bool) (b : Builder) (a : Addr) (value : JsonValue) (length : Nat)
    (values : ObjectValues) : Op Builder :=
  match first_pass, values, value.reserved, b.mem.blocks.get a with
  | true, .size bytes, _, _ =>
      pure (b.setU a value (.object length (.size (bytes + (b.string_length + 1)))))
  | false, _, .object_mem offset, some (.members slots names) =>
      match slots[length]? with
      | none => throw .undefined
      | some slot =>
          let b := b.setBlock a (.members (slots.set length (some offset, slot.2)) names)
          let reserved := Reserved.object_mem (offset + (b.string_length + 1))
          pure (b.setU a { value with reserved } value.u)
  | _, _, _, _ => throw .undefined

/-- The closing quote: what ends is a string (`true`) or the name of a member (`false`). -/
def closeQuote (first_pass : Bool) (b : Builder) : Op (Builder × Bool) := do
  let b ← inSecond first_pass (writeChar · 0) b
  let b := { b with string := none }
  let (a, value) ← b.read b.top
  match value.u with
  | .string _ ptr => pure (b.setU a value (.string b.string_length ptr), true)
  | .object length values => do
      let b ← endName first_pass b a value length values
      pure (b, false)
  -- `default: break;`: a quote is only opened in a string or in an object
  | _ => throw .undefined

/-- `parent->u.object.values[..].value = top` or `parent->u.array.values[..] = top` -/
def linkTop (b : Builder) (a p : Addr) (length : Nat) : Op Builder :=
  match b.mem.blocks.get p with
  | some (.members slots names) =>
      match slots[length]? with
      | none => throw .undefined
      | some slot => pure (b.setBlock p (.members (slots.set length (slot.1, some a)) names))
  | some (.elems cells) =>
      if length < cells.length then pure (b.setBlock p (.elems (cells.set length (some a))))
      else throw .undefined
  | _ => throw .undefined

/-- `++ parent->u.array.length`, which is `parent->u.object.length` as well: the length before,
and what `u` is then. -/
def JsonU.grow : JsonU → Op (Nat × JsonU)
  | .object length values => pure (length, .object (length + 1) values)
  | .array length values => pure (length, .array (length + 1) values)
  | _ => throw .undefined

/-- The end of a value in another one: it is put there and `top` goes back. -/
def leave (first_pass : Bool) (b : Builder) (a p : Addr) (parent : JsonValue) :
    Op Builder := do
  let (length, u) ← parent.u.grow
  -- the slot is the one before the length grows
  let b ← inSecond first_pass (linkTop · a p length) b
  let b := b.setU p parent u
  if uint_max < length + 1 then throw (.overflow b)
  else pure { b with top := some p }

/-- The end of the value `top`, with the type of the value it is in. -/
def leaveTop (first_pass : Bool) (b : Builder) : Op (Option JsonType × Builder) := do
  let (a, top) ← b.read b.top
  match top.parent with
  | none => pure (none, b)
  | some p => do
      let (_, parent) ← b.read (some p)
      let b ← leave first_pass b a p parent
      pure (some parent.u.type, b)

end SpiderChat.JsonC
