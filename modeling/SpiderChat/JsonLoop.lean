import SpiderChat.JsonC

/-!
# SpiderChat.JsonLoop

The loop of `json_parse_ex` (`json.c`), section by section as it stands in the
source, the two passes around it, and `json_value_free`. A `continue` throws the
next state of the loop, and `goto e_failed` and the `break` of the loop throw how it
stops.
-/

namespace SpiderChat.JsonC

open Lib

/-- `flags` -/
structure Flags where
  next : Bool := false
  reproc : Bool := false
  need_comma : Bool := false
  seek_value : Bool := false
  escaped : Bool := false
  string : Bool := false
  need_colon : Bool := false
  done : Bool := false
  num_negative : Bool := false
  num_zero : Bool := false
  num_e : Bool := false
  num_e_got_sign : Bool := false
  num_e_negative : Bool := false
  deriving Repr, DecidableEq

/-- The variables of the loop. -/
structure Scan where
  i : Bytes
  flags : Flags
  cur_line : Nat
  cur_line_begin : Bytes
  num_digits : Nat
  num_e : Int64
  num_fraction : Int64
  build : Builder

/-- How the loop stops. -/
inductive Stop
  /-- the `break` of the loop -/
  | done (s : Scan)
  /-- `goto e_failed` -/
  | failed (error : Bytes) (s : Scan)
  | undefined

/-- A part of the loop's body. -/
abbrev Round := Except (Scan ⊕ Stop)

/-- `++ i` and the next round; behind the zero byte there is nothing to point at. -/
def again (s : Scan) : Scan ⊕ Stop :=
  match s.i with
  | [] => .inr .undefined
  | _ :: i => .inl { s with i }

/-- `%d:%d` of `cur_line` and `e_off` -/
def place (s : Scan) : Bytes :=
  decNat s.cur_line ++ 58 :: decNat (s.cur_line_begin.length - s.i.length)

@[simp] theorem throw_bind {α β : Type} (e : Scan ⊕ Stop) (f : α → Round β) :
    ((throw e : Round α) >>= f) = throw e := rfl

def failed {α : Type} (s : Scan) (error : Bytes) : Round α := throw (.inr (.failed error s))

/-- A failure whose text starts with its place. -/
def failedAt {α : Type} (s : Scan) (text : Bytes) : Round α :=
  failed s (place s ++ ascii ": " ++ text)

/-- Where the fault of an operation stops the loop. -/
def stopOf (s : Scan) : Fault → Stop
  | .undefined => .undefined
  | .alloc build => .failed (ascii "Memory allocation failure") { s with build }
  | .overflow build =>
      .failed (place s ++ ascii ": Too long (caught overflow)") { s with build }

/-- An operation on the values, in the loop. -/
def ofOp {α : Type} (s : Scan) : Op α → Round α
  | .ok a => pure a
  | .error f => throw (.inr (stopOf s f))

/-- The macro `whitespace` -/
def whitespace (s : Scan) (b : UInt8) : Scan :=
  if b = 10 then { s with cur_line := s.cur_line + 1, cur_line_begin := s.i } else s

/-- `if (flags & flag_done)` -/
def doneSection (s : Scan) (b : UInt8) : Round Scan :=
  if s.flags.done then
    if b = 0 then throw (.inr (.done s))
    else if Json.isWs b then throw (again (whitespace s b))
    else failedAt s (ascii "Trailing garbage: `" ++ [b, 96])
  else pure s

/-! ### Strings -/

/-- `hex_value` -/
def hexValue (c : UInt8) : UInt8 :=
  if isDigit c then c - 48
  else if c = 97 ∨ c = 65 then 0x0A
  else if c = 98 ∨ c = 66 then 0x0B
  else if c = 99 ∨ c = 67 then 0x0C
  else if c = 100 ∨ c = 68 then 0x0D
  else if c = 101 ∨ c = 69 then 0x0E
  else if c = 102 ∨ c = 70 then 0x0F
  else 0xFF

/-- `hex_value (*++ i)` so many times, up to the first that is `0xFF`: the values and `i`. -/
def hexValues : Nat → Bytes → Option (List UInt8 × Bytes)
  | 0, i => some ([], i)
  | _ + 1, [] => none
  | n + 1, _ :: i =>
      let v := hexValue (i.headD 0)
      if v = 0xFF then some ([], i)
      else (hexValues n i).map fun p => (v :: p.1, p.2)

/-- What `\uXXXX` adds to the string. -/
def unicodeChars (uc_b1 uc_b2 : UInt8) : Bytes :=
  if uc_b1 = 0 ∧ uc_b2 ≤ 0x7F then [uc_b2]
  else if uc_b1.toNat * 256 + uc_b2.toNat ≤ 0x7FF then
    [(0xC0 : UInt8) ||| ((uc_b2 &&& 0xC0) >>> 6) ||| ((uc_b1 &&& 0x7) <<< 2),
      (0x80 : UInt8) ||| (uc_b2 &&& 0x3F)]
  else
    [(0xE0 : UInt8) ||| ((uc_b1 &&& 0xF0) >>> 4),
      (0x80 : UInt8) ||| ((uc_b1 &&& 0xF) <<< 2) ||| ((uc_b2 &&& 0xC0) >>> 6),
      (0x80 : UInt8) ||| (uc_b2 &&& 0x3F)]

/-- What a backslash and another byte than `u` add to the string. -/
def escapedChar (b : UInt8) : UInt8 :=
  if b = 98 then 8
  else if b = 102 then 12
  else if b = 110 then 10
  else if b = 114 then 13
  else if b = 116 then 9
  else b

/-- `if (flags & flag_escaped)`, in a string -/
def escapedSection (first_pass : Bool) (s : Scan) (b : UInt8) : Round Scan :=
  let s := { s with flags.escaped := false }
  if b = 117 then
    match hexValues 4 s.i with
    | some ([u1, u2, u3, u4], i) => do
        let build ← ofOp s
          (stringAdd first_pass s.build (unicodeChars (u1 * 16 + u2) (u3 * 16 + u4)))
        throw (again { s with i, build })
    | some (_, i) =>
        failed s (ascii "Invalid character value `" ++ [b] ++ ascii "` (at " ++
          place { s with i } ++ [41])
    -- past the end of the text, which its zero byte prevents
    | none => throw (.inr .undefined)
  else do
    let build ← ofOp s (stringAdd first_pass s.build [escapedChar b])
    throw (again { s with build })

/-- `if (flags & flag_string)`; only the end of a string goes on to the rest of the body. -/
def stringSection (first_pass : Bool) (s : Scan) (b : UInt8) : Round Scan :=
  if s.flags.string then
    if b = 0 then
      failed s (ascii "Unexpected EOF in string (at " ++ place s ++ [41])
    else if uint_max < s.build.string_length then ofOp s (throw (.overflow s.build))
    else if s.flags.escaped then escapedSection first_pass s b
    else if b = 92 then throw (again { s with flags.escaped := true })
    else if b = 34 then do
      let (build, isString) ← ofOp s (closeQuote first_pass s.build)
      if isString then pure { s with build, flags.string := false, flags.next := true }
      else
        throw (again { s with build, flags.string := false, flags.seek_value := true,
                              flags.need_colon := true })
    else do
      let build ← ofOp s (stringAdd first_pass s.build [b])
      throw (again { s with build })
  else pure s

/-! ### The start of a value -/

/-- `*(++ i) != c || ..` up to the first byte that differs: if none did, and `i`. -/
def expect : Bytes → Bytes → Option (Bool × Bytes)
  | [], i => some (true, i)
  | _ :: _, [] => none
  | c :: cs, _ :: i => if i.headD 0 = c then expect cs i else some (false, i)

/-- `case 't'`, `case 'f'` and `case 'n'` -/
def literal (settings : JsonSettings) (first_pass : Bool) (s : Scan) (least : Nat) (rest : Bytes)
    (type : JsonType) (value : Option Bool) : Round Scan :=
  -- `(end - i) < 3`, with the first byte of the literal counted
  if s.i.length < least then failedAt s (ascii "Unknown value")
  else
    match expect rest s.i with
    | none => throw (.inr .undefined)
    | some (false, i) => failedAt { s with i } (ascii "Unknown value")
    | some (true, i) => do
        let s := { s with i }
        let build ← ofOp s (newValue settings first_pass s.build type)
        match value with
        | none => pure { s with build, flags.next := true }
        | some boolean => do
            let (a, value) ← ofOp s (build.read build.top)
            pure { s with build := build.setU a value (.boolean boolean), flags.next := true }

/-- `isdigit (b) || b == '-'`; the second pass goes over the number at once. -/
def startNumber (settings : JsonSettings) (first_pass : Bool) (s : Scan) (b : UInt8) :
    Round Scan := do
  let build ← ofOp s (newValue settings first_pass s.build .json_integer)
  let s := { s with build }
  if !first_pass then
    pure { s with i := s.i.dropWhile Json.isNumChar, flags.next := true, flags.reproc := true }
  else
    let flags := { s.flags with
      num_negative := false, num_e := false, num_e_got_sign := false, num_e_negative := false,
      num_zero := false }
    let s := { s with flags, num_digits := 0, num_fraction := 0, num_e := 0 }
    -- a digit is read again as a part of the number
    if b ≠ 45 then pure { s with flags.reproc := true }
    else throw (again { s with flags.num_negative := true })

/-- The first byte of a value. -/
def startValue (settings : JsonSettings) (first_pass : Bool) (s : Scan) (b : UInt8) :
    Round Scan :=
  if b = 123 then do
    let build ← ofOp s (newValue settings first_pass s.build .json_object)
    throw (again { s with build })
  else if b = 91 then do
    let build ← ofOp s (newValue settings first_pass s.build .json_array)
    throw (again { s with build, flags.seek_value := true })
  else if b = 34 then do
    let build ← ofOp s (openString settings first_pass s.build)
    throw (again { s with build, flags.string := true })
  else if b = 116 then
    literal settings first_pass s 3 (ascii "rue") .json_boolean (some true)
  else if b = 102 then
    literal settings first_pass s 4 (ascii "alse") .json_boolean none
  else if b = 110 then
    literal settings first_pass s 3 (ascii "ull") .json_null none
  else if isDigit b ∨ b = 45 then startNumber settings first_pass s b
  else failedAt s (ascii "Unexpected " ++ [b] ++ ascii " when seeking value")

/-- `if (flags & flag_seek_value)` -/
def seekSection (settings : JsonSettings) (first_pass : Bool) (s : Scan) (b : UInt8) :
    Round Scan :=
  if Json.isWs b then throw (again (whitespace s b))
  else if b = 93 then do
    let (_, top) ← ofOp s (s.build.read s.build.top)
    if top.u.type = .json_array then
      pure { s with flags.need_comma := false, flags.seek_value := false, flags.next := true }
    -- `!state.settings.settings & json_relaxed_commas`
    else if settings.settings = 0 then failedAt s (ascii "Unexpected ]")
    -- with relaxed commas the byte is passed over
    else pure s
  else if s.flags.need_comma then
    if b = 44 then throw (again { s with flags.need_comma := false })
    else failedAt s (ascii "Expected , before " ++ [b])
  else if s.flags.need_colon then
    if b = 58 then throw (again { s with flags.need_colon := false })
    else failedAt s (ascii "Expected : before " ++ [b])
  else startValue settings first_pass { s with flags.seek_value := false } b

/-! ### Inside of a value -/

/-- `case json_object` -/
def objectSection (settings : JsonSettings) (s : Scan) (b : UInt8) : Round Scan :=
  if Json.isWs b then throw (again (whitespace s b))
  else if b = 34 then
    if s.flags.need_comma ∧ settings.settings = 0 then
      failedAt s (ascii "Expected , before \"")
    else do
      let build ← ofOp s (openName s.build)
      pure { s with build, flags.string := true }
  else if b = 125 then pure { s with flags.need_comma := false, flags.next := true }
  else if b = 44 ∧ s.flags.need_comma then pure { s with flags.need_comma := false }
  else failedAt s (ascii "Unexpected `" ++ [b] ++ ascii "` in object")

/-- A digit of a number. -/
def digitSection (s : Scan) (a : Addr) (value : JsonValue) (b : UInt8) : Round Scan :=
  let s := { s with num_digits := s.num_digits + 1 }
  let digit : Int64 := .ofNat (b.toNat - 48)
  if s.flags.num_e then
    throw (again { s with flags.num_e_got_sign := true, num_e := s.num_e * 10 + digit })
  else
    match value.u with
    | .integer n =>
        if s.flags.num_zero then failedAt s (ascii "Unexpected `0` before `" ++ [b, 96])
        else
          -- only a zero that is the first digit is remembered
          let num_zero := s.num_digits = 1 ∧ b = 48
          throw (again { s with
            flags.num_zero := s.flags.num_zero || num_zero,
            build := s.build.setU a value (.integer (n * 10 + digit)) })
    | _ => throw (again { s with num_fraction := s.num_fraction * 10 + digit })

/-- `(double) integer`, for a number that goes on behind its integer part. -/
def JsonU.toDouble : JsonU → JsonU
  | .integer n => .double (.ofInteger n)
  | u => u

/-- `dbl += num_fraction / pow (10, num_digits)` of a number with a fraction. -/
def JsonU.withFraction (u : JsonU) (num_fraction : Int64) (num_digits : Nat) : JsonU :=
  match u with
  | .double d => .double (d.addFraction num_fraction num_digits)
  | u => u

/-- `- integer` or `- dbl` -/
def JsonU.neg : JsonU → JsonU
  | .integer n => .integer (-n)
  | .double d => .double d.neg
  | u => u

/-- The end of a number. -/
def endNumber (s : Scan) (a : Addr) (value : JsonValue) (u : JsonU) : Round Scan :=
  let u := if s.flags.num_negative then u.neg else u
  pure { s with build := s.build.setU a value u, flags.next := true, flags.reproc := true }

/-- What follows the digits of a number: `e`, or its end. -/
def numberTail (s : Scan) (a : Addr) (value : JsonValue) (b : UInt8) : Round Scan :=
  if !s.flags.num_e then
    let u := value.u.withFraction s.num_fraction s.num_digits
    if value.u.type = .json_double ∧ s.num_digits = 0 then
      failedAt s (ascii "Expected digit after `.`")
    else if b = 101 ∨ b = 69 then
      throw (again { s with flags.num_e := true, flags.num_zero := false, num_digits := 0,
                            build := s.build.setU a value u.toDouble })
    else endNumber s a value u
  else if s.num_digits = 0 then failedAt s (ascii "Expected digit after `e`")
  else
    let num_e := if s.flags.num_e_negative then -s.num_e else s.num_e
    match value.u with
    | .double d => endNumber s a value (.double (d.scale num_e))
    | _ => throw (.inr .undefined)

/-- `case json_integer` and `case json_double` -/
def numberSection (s : Scan) (a : Addr) (value : JsonValue) (b : UInt8) : Round Scan :=
  if isDigit b then digitSection s a value b
  else if b = 43 ∨ b = 45 then
    if s.flags.num_e ∧ !s.flags.num_e_got_sign then
      throw (again { s with flags.num_e_got_sign := true,
                            flags.num_e_negative := s.flags.num_e_negative || b == 45 })
    else numberTail s a value b
  else if b = 46 ∧ value.u.type = .json_integer then
    if s.num_digits = 0 then failedAt s (ascii "Expected digit before `.`")
    else throw (again { s with build := s.build.setU a value value.u.toDouble, num_digits := 0 })
  else numberTail s a value b

/-- `switch (top->type)` -/
def typeSection (settings : JsonSettings) (s : Scan) (b : UInt8) : Round Scan := do
  let (a, top) ← ofOp s (s.build.read s.build.top)
  match top.u.type with
  | .json_object => objectSection settings s b
  | .json_integer | .json_double => numberSection s a top b
  | _ => pure s

/-! ### The body and the loop -/

/-- `++ i` unless `flag_reproc` takes it back, and the next round. -/
def advance (keep : Bool) (s : Scan) : Scan ⊕ Stop := if keep then .inl s else again s

/-- `if (flags & flag_next)` -/
def nextSection (first_pass keep : Bool) (s : Scan) : Round Scan := do
  let (type, build) ← ofOp s (leaveTop first_pass s.build)
  let s := { s with build, flags.next := false, flags.need_comma := true }
  match type with
  | none => throw (advance keep { s with flags.done := true })
  | some type =>
      throw (advance keep { s with
        flags.seek_value := s.flags.seek_value || type == .json_array })

/-- The end of the body, from `if (flags & flag_reproc)` on. -/
def endSection (first_pass : Bool) (s : Scan) : Round Scan :=
  let keep := s.flags.reproc
  let s := { s with flags.reproc := false }
  if s.flags.next then nextSection first_pass keep s else throw (advance keep s)

/-- The body, up to where its parts meet again. -/
def middle (settings : JsonSettings) (first_pass : Bool) (s : Scan) : Round Scan := do
  let b := s.i.headD 0
  let s ← doneSection s b
  let s ← stringSection first_pass s b
  if s.flags.seek_value then seekSection settings first_pass s b else typeSection settings s b

/-- Where a round goes; without a `continue` it ends with `++ i` as well. -/
def outcome : Round Scan → Scan ⊕ Stop
  | .ok s => again s
  | .error e => e

@[simp] theorem outcome_throw (e : Scan ⊕ Stop) : outcome (throw e) = e := rfl

/-- A round of the loop. -/
def body (settings : JsonSettings) (first_pass : Bool) (s : Scan) : Scan ⊕ Stop :=
  outcome (middle settings first_pass s >>= endSection first_pass)

/-- The state before a pass. -/
def start (json : Bytes) (alloc : Ptr) (mem : Memory) : Scan where
  i := json
  flags := { seek_value := true }
  cur_line := 1
  cur_line_begin := json
  num_digits := 0
  num_e := 0
  num_fraction := 0
  build := ⟨none, none, alloc, none, 0, mem⟩

/-- Rounds for every byte of the text: a byte is looked at twice at most, and a number needs
a round more. -/
def rounds (s : Scan) : Nat := 3 * s.i.length + 1

/-- One pass. -/
def runPass (settings : JsonSettings) (first_pass : Bool) (s : Scan) : Option Stop :=
  loop (body settings first_pass) (rounds s) s

/-! ### Giving the memory back -/

def freeBlock (m : Memory) : Ptr → Option Memory
  | none => some m
  | some a => (m.blocks.free a).map fun blocks => { m with blocks }

def freeValue (m : Memory) (a : Addr) : Option Memory :=
  (m.values.free a).map fun values => { m with values }

/-- `while (alloc) { .. }`: frees the values from `alloc` on. -/
def freeAllocs : Nat → Ptr → Memory → Option Memory
  | _, none, m => some m
  | 0, some _, _ => none
  | fuel + 1, some a, m =>
      match m.values.get a with
      | some ⟨_, _, .next_alloc next⟩ => (freeValue m a).bind (freeAllocs fuel next)
      | _ => none

/-- What a block holds in a slot, as a value. -/
def Block.slot : Block → Nat → Option Addr
  | .elems cells, k => cells.getD k none
  | .members slots _, k => (slots.getD k (none, none)).2
  | .chars _, _ => none

/-- A value whose contents are freed goes, and its parent is next. -/
def freeCurrent (m : Memory) (a : Addr) (parent : Ptr) (block : Ptr) :
    (Ptr × Memory) ⊕ Option Memory :=
  match (freeBlock m block).bind fun m => freeValue m a with
  | none => .inr none
  | some m => .inl (parent, m)

/-- `value = values[-- length]`, and its value is next. -/
def freeChild (m : Memory) (a : Addr) (value : JsonValue) (u : JsonU) (block : Ptr)
    (length : Nat) : (Ptr × Memory) ⊕ Option Memory :=
  match block.bind fun p => (m.blocks.get p).bind (Block.slot · length) with
  | none => .inr none
  | some child => .inl (some child, { m with values := m.values.set a { value with u } })

/-- A round of the loop of `json_value_free_ex`; `none` is undefined behaviour. -/
def freeRound (s : Ptr × Memory) : (Ptr × Memory) ⊕ Option Memory :=
  match s.1 with
  | none => .inr (some s.2)
  | some a =>
      match s.2.values.get a with
      | none => .inr none
      | some value =>
          match value.u with
          | .array 0 values => freeCurrent s.2 a value.parent values
          | .array (length + 1) values =>
              freeChild s.2 a value (.array length values) values length
          | .object 0 (.block values) => freeCurrent s.2 a value.parent values
          | .object (length + 1) (.block values) =>
              freeChild s.2 a value (.object length (.block values)) values length
          | .object _ (.size _) => .inr none
          | .string _ ptr => freeCurrent s.2 a value.parent ptr
          | _ => freeCurrent s.2 a value.parent none

/-- `json_value_free_ex` -/
def jsonValueFreeEx (m : Memory) : Ptr → Option Memory
  | none => some m
  | some a =>
      match m.values.update a fun value => { value with parent := none } with
      | none => none
      | some values =>
          (loop freeRound (2 * m.values.length + 1) (some a, { m with values })).join

/-! ### The parser -/

/-- What `json_parse_ex` returns. -/
structure Parsed where
  root : Ptr
  mem : Memory
  /-- what `error_buf` holds then -/
  error : Bytes

/-- `e_failed` -/
def failedParse (first_pass : Bool) (error : Bytes) (b : Builder) : Option Parsed :=
  let freed :=
    if first_pass then freeAllocs b.mem.calls b.root b.mem
    else (freeAllocs b.mem.calls b.alloc b.mem).bind (jsonValueFreeEx · b.root)
  let error := cstr error
  freed.map fun mem => ⟨none, mem, if error = [] then ascii "Unknown error" else error⟩

/-- `json [0] == 0xEF && ..`, with the `char` of the platform, which is signed. -/
def skipBom (json : Bytes) : Bytes :=
  match json with
  | b0 :: b1 :: b2 :: rest =>
      if b0.toInt8.toInt = 0xEF ∧ b1.toInt8.toInt = 0xBB ∧ b2.toInt8.toInt = 0xBF then rest
      else json
  | _ => json

/-- The memory before a parse. -/
def Memory.empty : Memory := ⟨[], [], 0, 0⟩

/-- `json_parse_ex`; `none` is undefined behaviour. -/
def jsonParseEx (settings : JsonSettings) (json : Bytes) : Option Parsed :=
  let json := skipBom json
  match runPass settings true (start json none Memory.empty) with
  | some (.failed error s) => failedParse true error s.build
  | some (.done s) =>
      match runPass settings false (start json s.build.root s.build.mem) with
      | some (.failed error s) => failedParse false error s.build
      | some (.done s) => some ⟨s.build.root, s.build.mem, []⟩
      | _ => none
  | _ => none

/-- `json_parse`, with the `malloc` given. -/
def jsonParse (malloc : Nat → Nat → Bool) (json : Bytes) : Option Parsed :=
  jsonParseEx ⟨0, 0, malloc⟩ json

end SpiderChat.JsonC
