import SpiderChat.ChatFormat
import SpiderChat.ClientLogin
import SpiderChat.JsonFree
import SpiderChat.JsonStandard
import SpiderChat.Lib.JsonText
import SpiderChat.ModLogin

/-!
# SpiderChat.JsonPayload

`mod_login` and `mod_chat_send_message` on the memory that `json_parse` returns:
`values->name`, `_reserved.next_alloc`, `u.string.ptr`. They do what `modLogin` and
`modChatSendMessage` do with the parse tree (`parseText`), and free what was parsed on
every path, unless the payload starts with `]`.
-/

namespace SpiderChat.JsonC

open Lib Handler

/-! ### Parse trees -/

mutual

def Value.toJson : Value → Json
  | .object ms => .obj (toJsonMembers ms)
  | .array xs => .arr (toJsonElems xs)
  | .integer n => .int n.toInt
  | .double _ => .num []
  | .string s => .str s
  | .boolean b => .bool b
  | .null => .null

def toJsonElems : List Value → List Json
  | [] => []
  | x :: xs => x.toJson :: toJsonElems xs

def toJsonMembers : List (Bytes × Value) → List (Bytes × Json)
  | [] => []
  | (k, x) :: ms => (k, x.toJson) :: toJsonMembers ms

end

/-- `json_parse`, as the handlers' parameter. -/
def parseText (l : Bytes) : Option Json := (readText l).map Value.toJson

theorem namesOf_toJsonMembers (ms : List (Bytes × Value)) :
    namesOf (toJsonMembers ms) = namesBytes ms := by
  induction ms with
  | nil => rfl
  | cons q ms ih => rw [toJsonMembers, namesOf_cons, ih, namesBytes]

theorem length_toJsonMembers (ms : List (Bytes × Value)) :
    (toJsonMembers ms).length = ms.length := by
  induction ms with
  | nil => rfl
  | cons q ms ih => rw [toJsonMembers, List.length_cons, ih, List.length_cons]

/-! ### Reading the memory -/

/-- `*p` -/
def Memory.value (m : Memory) (p : Ptr) : Option JsonValue := p.bind m.values.get

/-- `u.object.values->name` and `u.object.values->value` -/
def Memory.firstMember (m : Memory) (values : ObjectValues) : Option (CharPtr × Ptr) :=
  match values with
  | .block (some a) =>
      match m.blocks.get a with
      | some (.members ((some name, value) :: _) _) => some (⟨a, name⟩, value)
      | _ => none
  | _ => none

/-- `p + n` -/
def CharPtr.add (p : CharPtr) (n : Nat) : CharPtr := { p with offset := p.offset + n }

/-- The bytes up to a zero byte, which has to be there. -/
def cstrFrom (cells : List (Option UInt8)) (offset : Nat) : Option Bytes :=
  if some 0 ∈ cells.drop offset then nameFrom cells offset else none

/-- The C string at `p`. -/
def Memory.cstrAt (m : Memory) (p : CharPtr) : Option Bytes :=
  match m.blocks.get p.block with
  | some (.members _ names) => cstrFrom names p.offset
  | some (.chars cells) => cstrFrom cells p.offset
  | _ => none

/-- `value->_reserved.next_alloc` -/
def JsonValue.next_alloc (value : JsonValue) : Option Ptr :=
  match value.reserved with
  | .next_alloc p => some p
  | .object_mem _ => none

/-- `(0 == strcmp (name, key)) && value->type == json_integer`, with `value->u.integer` and
`value->_reserved.next_alloc`. -/
def Memory.integerField (m : Memory) (name : Bytes) (key : CharPtr) (value : Ptr) :
    Option (Option (Int64 × Ptr)) := do
  if (← m.cstrAt key) = name then
    let value ← m.value value
    match value.u with
    | .integer n => value.next_alloc.map fun next => some (n, next)
    | _ => some none
  else some none

/-- `(0 == strcmp (name, key)) && value->type == json_string`, with `value->u.string.length` and
the C string at `value->u.string.ptr`. -/
def Memory.stringField (m : Memory) (name : Bytes) (key : CharPtr) (value : Ptr) :
    Option (Option (Nat × Bytes)) := do
  if (← m.cstrAt key) = name then
    let value ← m.value value
    match value.u with
    | .string length ptr => (ptr.bind fun a => m.cstrAt ⟨a, 0⟩).map fun s => some (length, s)
    | _ => some none
  else some none

/-! ### The handlers -/

/-- What `mod_login` takes from the values: `none` is undefined, `some none` is an error. -/
def loginData (m : Memory) (login_data : JsonValue) : Option (Option LoginData) := do
  match login_data.u with
  | .object 4 values =>
      let (key, login_data) ← m.firstMember values
      match ← m.integerField (ascii "uid") key login_data with
      | none => some none
      | some (uid, login_data) =>
          match ← m.integerField (ascii "mid") (key.add 4) login_data with
          | none => some none
          | some (mid, login_data) =>
              match ← m.integerField (ascii "gameid") (key.add 8) login_data with
              | none => some none
              | some (gameid, login_data) =>
                  match ← m.stringField (ascii "app_version") (key.add 15) login_data with
                  | none => some none
                  | some (_, app_version) =>
                      some (some { uid, mid, gameid := gameid.toInt32, app_version })
  | _ => some none

/-- What `mod_chat_send_message` takes from the values. -/
def chatData (m : Memory) (chat_data : JsonValue) : Option (Option (Int64 × Bytes)) := do
  match chat_data.u with
  | .object _ values =>
      let (key, value) ← m.firstMember values
      match ← m.integerField (ascii "recv_id") key value with
      | none => some none
      | some (recv_uid, raw) =>
          match ← m.stringField (ascii "msg") (key.add 8) raw with
          | none => some none
          | some (length, send_data) =>
              if length < 1024 then some (some (recv_uid, send_data)) else some none
  | _ => some none

/-- A handler of a payload: `json_parse`, the fields that `fields` takes from the value, what
`act` does with them, and `json_value_free`. What it returns with its code is the memory. -/
def onPayload {α : Type} (malloc : Nat → Nat → Bool) (data : Bytes) (error : Int32)
    (fields : Memory → JsonValue → Option (Option α)) (act : α → Handler Int32) :
    Handler (Int32 × Memory) :=
  match jsonParse malloc (cstr data) with
  | none => undefined
  | some ⟨none, mem, _⟩ => pure (error, mem)
  | some ⟨some raw, mem, _⟩ => do
      let value ← ofOption (mem.value (some raw))
      let found ← ofOption (fields mem value)
      let retcode ← match found with
        | none => pure error
        | some a => act a
      let mem ← ofOption (jsonValueFreeEx mem (some raw))
      pure (retcode, mem)

/-- What `mod_login` does with the fields that it has taken. -/
def storeLogin (client : Addr) (d : LoginData) : Handler Int32 := do
  ask (.setVersion client (versionField d.app_version))
  ask (.setLogin client d.uid d.mid d.gameid)
  pure _HANDLE_SUCCESSFUL

/-- `mod_login` -/
def modLogin (malloc : Nat → Nat → Bool) (client : Addr) (data : Bytes) :
    Handler (Int32 × Memory) :=
  onPayload malloc data _ERROR_HANDLE_LOGIN_DATA_PARSE_ERROR loginData (storeLogin client)

/-- `mod_chat_send_message` -/
def modChatSendMessage (malloc : Nat → Nat → Bool) (send_uid : Int64) (data : Bytes) :
    Handler (Int32 × Memory) :=
  onPayload malloc data _ERROR_MOD_CHAT_PARSE_DATA_ERROR chatData fun p =>
    deliver send_uid p.1 p.2

/-! ### Memory and tree -/

variable {m : Memory} {total k i : Nat} {ms : List (Bytes × Value)} {name : Bytes}

/-- A value in memory and in the tree, as far as the handlers look at it. -/
def CellAgrees (total k : Nat) (c : Cell) : Json → Prop
  | .int n => c.1.u = .integer (.ofInt n) ∧ c.1.reserved = .next_alloc (nextOf total k)
  | .str s => c.1.u = .string s.length (some k) ∧ c.2 = some (.chars ((s ++ [0]).map some))
  | _ => c.1.u.type ≠ .json_integer ∧ c.1.u.type ≠ .json_string

/-- The values from the address `k` on, in the order of their allocation. -/
def CellsAgree (total : Nat) : Nat → List Cell → List Json → Prop
  | _, [], [] => True
  | k, c :: cs, j :: js => CellAgrees total k c j ∧ CellsAgree total (k + 1) cs js
  | _, _, _ => False

theorem CellsAgree.append {cs cs' : List Cell} {js js' : List Json}
    (h : CellsAgree total k cs js) (h' : CellsAgree total (k + cs.length) cs' js') :
    CellsAgree total k (cs ++ cs') (js ++ js') := by
  induction cs generalizing k js with
  | nil =>
      cases js with
      | nil => exact h'
      | cons j js => exact h.elim
  | cons c cs ih =>
      cases js with
      | nil => exact h.elim
      | cons j js =>
          refine ⟨h.1, ih h.2 ?_⟩
          rwa [Nat.add_assoc, Nat.add_comm 1]

theorem CellsAgree.get {cs : List Cell} {js : List Json} (h : CellsAgree total k cs js) {j : Json}
    (hj : js[i]? = some j) : ∃ c, cs[i]? = some c ∧ CellAgrees total (k + i) c j := by
  induction cs generalizing k js i with
  | nil =>
      cases js with
      | nil => cases hj
      | cons j js => exact h.elim
  | cons c cs ih =>
      cases js with
      | nil => exact h.elim
      | cons j' js =>
          cases i with
          | zero =>
              cases hj
              exact ⟨c, rfl, h.1⟩
          | succ i =>
              obtain ⟨c', hc', hagrees⟩ := ih h.2 hj
              refine ⟨c', hc', ?_⟩
              rwa [Nat.add_assoc, Nat.add_comm 1] at hagrees

mutual

theorem cellsAgree_filledOf (total : Nat) : (v : Value) → (p : Ptr) → (k : Nat) →
    CellsAgree total k (filledOf total v p k) (allocs v.toJson)
  | .object ms, p, k => by
      rw [filledOf, Value.toJson, allocs]
      exact ⟨⟨nofun, nofun⟩, cellsAgree_filledMembers total ms k (k + 1)⟩
  | .array xs, p, k => by
      rw [filledOf, Value.toJson, allocs]
      exact ⟨⟨nofun, nofun⟩, cellsAgree_filledElems total xs k (k + 1)⟩
  | .integer n, p, k => by
      rw [filledOf, Value.toJson, allocs]
      exact ⟨⟨by rw [Int64.ofInt_toInt], rfl⟩, trivial⟩
  | .string s, p, k => by
      rw [filledOf, Value.toJson, allocs]
      exact ⟨⟨rfl, rfl⟩, trivial⟩
  | .double d, p, k => by
      rw [filledOf, Value.toJson, allocs]
      exact ⟨⟨nofun, nofun⟩, trivial⟩
  | .boolean b, p, k => by
      rw [filledOf, Value.toJson, allocs]
      exact ⟨⟨nofun, nofun⟩, trivial⟩
  | .null, p, k => by
      rw [filledOf, Value.toJson, allocs]
      exact ⟨⟨nofun, nofun⟩, trivial⟩

theorem cellsAgree_filledElems (total : Nat) : (xs : List Value) → (p : Addr) → (k : Nat) →
    CellsAgree total k (filledElems total xs p k) (allocsOfElems (toJsonElems xs))
  | [], _, _ => trivial
  | x :: xs, p, k => by
      rw [filledElems, toJsonElems, allocsOfElems]
      refine (cellsAgree_filledOf total x (some p) k).append ?_
      rw [length_filledOf]
      exact cellsAgree_filledElems total xs p (k + x.size)

theorem cellsAgree_filledMembers (total : Nat) : (ms : List (Bytes × Value)) → (p : Addr) →
    (k : Nat) → CellsAgree total k (filledMembers total ms p k)
      (allocsOfMembers (toJsonMembers ms))
  | [], _, _ => trivial
  | (_, x) :: ms, p, k => by
      rw [filledMembers, toJsonMembers, allocsOfMembers]
      refine (cellsAgree_filledOf total x (some p) k).append ?_
      rw [length_filledOf]
      exact cellsAgree_filledMembers total ms p (k + x.size)

end

theorem CellsAgree.length_eq {cs : List Cell} {js : List Json} (h : CellsAgree total k cs js) :
    cs.length = js.length := by
  induction cs generalizing k js with
  | nil =>
      cases js with
      | nil => rfl
      | cons j js => exact h.elim
  | cons c cs ih =>
      cases js with
      | nil => exact h.elim
      | cons j js => rw [List.length_cons, List.length_cons, ih h.2]

theorem size_object (ms : List (Bytes × Value)) :
    (Value.object ms).size = (allocsOfMembers (toJsonMembers ms)).length + 1 := by
  have hlength := (cellsAgree_filledMembers 0 ms 0 1).length_eq
  rw [← hlength, length_filledMembers, Value.size]

theorem value_past (hv : (allocsOfMembers (toJsonMembers ms))[i]? = none) :
    m.value (fromOf (Value.object ms).size (i + 1)) = none := by
  have hle := List.getElem?_eq_none_iff.mp hv
  rw [fromOf, if_neg (by rw [size_object]; omega)]
  rfl

/-- `json_parse` has put an object at the address 0. -/
def ObjectAt (m : Memory) (ms : List (Bytes × Value)) : Prop :=
  Image m (filledOf (Value.object ms).size (.object ms) none 0)

section
variable (h : ObjectAt m ms)
include h

/-- The root. -/
theorem ObjectAt.root : m.value (some 0) =
    some ⟨none, .object ms.length (.block (some 0)), .object_mem (namesSize ms)⟩ := by
  rw [Memory.value, Option.bind_some, h.values, filledOf]
  rfl

theorem ObjectAt.block : m.blocks.get 0 =
    some (.members (slotsOf ms 0 1) ((namesBytes ms).map some)) := by
  rw [h.blocks, filledOf]
  rfl

theorem ObjectAt.firstMember : m.firstMember (.block (some 0)) =
    if ms = [] then none else some (⟨0, 0⟩, some 1) := by
  simp only [Memory.firstMember, h.block]
  cases ms with
  | nil => rfl
  | cons q ms => rfl

/-- The names. -/
theorem ObjectAt.cstrAt (offset : Nat) :
    m.cstrAt ⟨0, offset⟩ = nameAt (toJsonMembers ms) offset := by
  simp only [Memory.cstrAt, h.block, cstrFrom, nameAt, nameFrom_map, namesOf_toJsonMembers]
  congr 1
  rw [← List.map_drop, ← namesOf_toJsonMembers]
  refine propext ⟨fun hmem => ?_, fun hlt => ?_⟩
  · by_contra hge
    rw [List.drop_eq_nil_of_le (Nat.le_of_not_lt hge)] at hmem
    cases hmem
  · exact List.mem_map_of_mem (zero_mem_drop_namesOf hlt)

/-- The values. -/
theorem ObjectAt.value {v : Json} (hv : (allocsOfMembers (toJsonMembers ms))[i]? = some v) :
    ∃ c, m.value (fromOf (Value.object ms).size (i + 1)) = some c.1 ∧
      m.blocks.get (i + 1) = c.2 ∧ CellAgrees (Value.object ms).size (i + 1) c v := by
  obtain ⟨hlt, -⟩ := List.getElem?_eq_some_iff.mp hv
  obtain ⟨c, hc, hagrees⟩ := (cellsAgree_filledMembers (Value.object ms).size ms 0 1).get hv
  have hcell : (filledOf (Value.object ms).size (.object ms) none 0)[i + 1]? = some c := by
    rw [filledOf, List.getElem?_cons_succ, hc]
  rw [Nat.add_comm 1] at hagrees
  refine ⟨c, ?_, ?_, hagrees⟩
  · rw [fromOf_lt (by rw [size_object]; omega), Memory.value, Option.bind_some, h.values, hcell]
    rfl
  · rw [h.blocks, hcell]
    rfl

/-- A field that is an integer: what `f` makes of it, and what `g` makes of its name in the
tree. -/
theorem ObjectAt.integer_step {α β : Type} {offset : Nat} {v : Json} {φ : α → β}
    {f : Option (Int64 × Ptr) → Option (Option β)} {g : Bytes → Option (Option α)}
    (hv : (allocsOfMembers (toJsonMembers ms))[i]? = some v) (hf : f none = some none)
    (hint : ∀ n, v = .int n →
      f (some (.ofInt n, fromOf (Value.object ms).size (i + 1 + 1))) = (g name).map (·.map φ))
    (hother : (∀ n, v ≠ .int n) → g name = some none)
    (hkey : ∀ key, key ≠ name → g key = some none) :
    (m.integerField name ⟨0, offset⟩ (fromOf (Value.object ms).size (i + 1))).bind f =
      ((nameAt (toJsonMembers ms) offset).bind g).map (·.map φ) := by
  obtain ⟨c, hvalue, -, hagrees⟩ := h.value hv
  rw [Memory.integerField, h.cstrAt]
  cases nameAt (toJsonMembers ms) offset with
  | none => rfl
  | some key =>
      by_cases hname : key = name
      · subst hname
        simp only [bind, Option.bind_some, if_pos, hvalue]
        -- the handlers look at the type before the value
        by_cases hn : ∃ n, v = .int n
        · obtain ⟨n, rfl⟩ := hn
          obtain ⟨hu, hreserved⟩ := hagrees
          simp only [hu, JsonValue.next_alloc, hreserved, Option.map_some, Option.bind_some,
            nextOf_eq, hint n rfl]
        · have hu : c.1.u.type ≠ .json_integer := by
            cases v with
            | int n => exact absurd ⟨n, rfl⟩ hn
            | str s =>
                rw [hagrees.1]
                nofun
            | _ => exact hagrees.1
          rw [hother fun n hv => hn ⟨n, hv⟩]
          split
          · rename_i n hn
            exact absurd (by rw [hn]; rfl) hu
          · exact hf
      · simp only [bind, Option.bind_some, if_neg hname, hkey key hname, hf, Option.map_some,
          Option.map_none]

/-- A field that is a string; a value that is not there is `NULL`. -/
theorem ObjectAt.string_step {α β : Type} {offset : Nat} {φ : α → β}
    {f : Option (Nat × Bytes) → Option (Option β)} {g : Bytes → Option (Option α)}
    (hf : f none = some none)
    (hstr : ∀ s, (allocsOfMembers (toJsonMembers ms))[i]? = some (.str s) →
      f (some (s.length, cstr s)) = (g name).map (·.map φ))
    (hother : ∀ v, (allocsOfMembers (toJsonMembers ms))[i]? = some v → (∀ s, v ≠ .str s) →
      g name = some none)
    (hnone : (allocsOfMembers (toJsonMembers ms))[i]? = none → g name = none)
    (hkey : ∀ key, key ≠ name → g key = some none) :
    (m.stringField name ⟨0, offset⟩ (fromOf (Value.object ms).size (i + 1))).bind f =
      ((nameAt (toJsonMembers ms) offset).bind g).map (·.map φ) := by
  rw [Memory.stringField, h.cstrAt]
  cases nameAt (toJsonMembers ms) offset with
  | none => rfl
  | some key =>
      by_cases hname : key = name
      · subst hname
        simp only [bind, Option.bind_some, if_pos]
        cases hv : (allocsOfMembers (toJsonMembers ms))[i]? with
        | none =>
            -- `next_alloc` of the last value is `NULL`, and its type is looked at
            rw [value_past hv, hnone hv]
            rfl
        | some v =>
            obtain ⟨c, hvalue, hblock, hagrees⟩ := h.value hv
            simp only [hvalue, Option.bind_some]
            by_cases hs : ∃ s, v = .str s
            · obtain ⟨s, rfl⟩ := hs
              obtain ⟨hu, hc⟩ := hagrees
              have hzero : some (0 : UInt8) ∈ (s ++ [0]).map some := by simp
              simp only [hu, Option.bind_some, Memory.cstrAt, hblock, hc, cstrFrom,
                List.drop_zero, if_pos hzero, nameFrom_map, cstr_append_zero, Option.map_some,
                hstr s hv]
            · have hu : c.1.u.type ≠ .json_string := by
                cases v with
                | str s => exact absurd ⟨s, rfl⟩ hs
                | int n =>
                    rw [hagrees.1]
                    nofun
                | _ => exact hagrees.2
              rw [hother v hv fun s hv => hs ⟨s, hv⟩]
              split
              · rename_i n q hn
                exact absurd (by rw [hn]; rfl) hu
              · exact hf
      · simp only [bind, Option.bind_some, if_neg hname, hkey key hname, hf, Option.map_some,
          Option.map_none]

/-- The fields of a login, with the version as a C string. -/
def cLogin (d : LoginData) : LoginData := { d with app_version := cstr d.app_version }

/-- `mod_login` takes from memory what it takes from the tree; the version as a C string. -/
theorem ObjectAt.loginData {reserved : Reserved} {parent : Ptr} :
    loginData m ⟨parent, .object ms.length (.block (some 0)), reserved⟩ =
      (loginMembers (toJsonMembers ms)).map (·.map cLogin) := by
  unfold JsonC.loginData loginMembers
  rw [length_toJsonMembers]
  by_cases hlen : ms.length = 4
  · have hne : ms ≠ [] := by
      rintro rfl
      cases hlen
    have hle := length_le_allocsOfMembers (toJsonMembers ms)
    rw [length_toJsonMembers] at hle
    have hvalue : ∀ i < 4, ∃ v, (allocsOfMembers (toJsonMembers ms))[i]? = some v :=
      fun i hi => ⟨_, List.getElem?_eq_getElem (by omega)⟩
    obtain ⟨v₀, hv₀⟩ := hvalue 0 (by decide)
    obtain ⟨v₁, hv₁⟩ := hvalue 1 (by decide)
    obtain ⟨v₂, hv₂⟩ := hvalue 2 (by decide)
    obtain ⟨v₃, hv₃⟩ := hvalue 3 (by decide)
    simp only [hlen, h.firstMember, if_neg hne, ne_eq, not_true_eq_false, if_false, bind,
      Option.bind_some, hv₀, hv₁, hv₂, hv₃]
    rw [show some 1 = fromOf (Value.object ms).size (0 + 1) from
      (fromOf_lt (by rw [size_object]; omega)).symm]
    -- the fields in the order in which the handler asks for them
    refine h.integer_step hv₀ rfl (fun uid hv => ?_)
      (fun hv => by cases v₀ <;> first | exact absurd rfl (hv _) | simp)
      fun key hne => by simp [hne]
    subst hv
    simp only [decide_true]
    refine h.integer_step hv₁ rfl (fun mid hv => ?_)
      (fun hv => by cases v₁ <;> first | exact absurd rfl (hv _) | simp)
      fun key hne => by simp [hne]
    subst hv
    simp only [decide_true]
    refine h.integer_step hv₂ rfl (fun gameid hv => ?_)
      (fun hv => by cases v₂ <;> first | exact absurd rfl (hv _) | simp)
      fun key hne => by simp [hne]
    subst hv
    simp only [decide_true]
    refine h.string_step rfl (fun version hv => ?_) (fun v hv hs => ?_) (fun hv => ?_)
      fun key hne => by simp [hne]
    · obtain rfl := Option.some.inj (hv₃.symm.trans hv)
      simp [cLogin]
    · obtain rfl := Option.some.inj (hv₃.symm.trans hv)
      cases v₃ with
      | str s => exact absurd rfl (hs s)
      | _ => simp
    · rw [hv₃] at hv
      cases hv
  · rw [if_pos hlen]
    split
    · rename_i hu
      simp only [JsonU.object.injEq] at hu
      exact absurd hu.1 hlen
    · rfl

/-- `mod_chat_send_message` takes from memory what it takes from the tree; the message as a
C string. -/
theorem ObjectAt.chatData {reserved : Reserved} {parent : Ptr} :
    chatData m ⟨parent, .object ms.length (.block (some 0)), reserved⟩ =
      (chatMembers (toJsonMembers ms)).map (·.map fun p => (p.1, cstr p.2)) := by
  unfold JsonC.chatData chatMembers
  simp only [h.firstMember, bind]
  by_cases hne : ms = []
  · subst hne
    rfl
  · have hle := length_le_allocsOfMembers (toJsonMembers ms)
    rw [length_toJsonMembers] at hle
    have hpos := List.length_pos_iff.mpr hne
    obtain ⟨v₀, hv₀⟩ : ∃ v, (allocsOfMembers (toJsonMembers ms))[0]? = some v :=
      ⟨_, List.getElem?_eq_getElem (by omega)⟩
    rw [if_neg hne, Option.bind_some, hv₀]
    simp only [Option.bind_some]
    rw [show some 1 = fromOf (Value.object ms).size (0 + 1) from
      (fromOf_lt (by rw [size_object]; omega)).symm]
    refine h.integer_step hv₀ rfl (fun recv_uid hv => ?_) (fun hv => ?_)
      fun key hne => by simp [hne]
    · subst hv
      simp only [decide_true]
      -- here a second value need not be there
      refine h.string_step rfl (fun msg hv => ?_) (fun v hv hs => ?_) (fun hv => ?_)
        fun key hne => by simp [hne]
      · simp only [if_pos, hv, Option.bind_some]
        split <;> rfl
      · cases v with
        | str s => exact absurd rfl (hs s)
        | _ => simp [hv]
      · simp only [if_pos, hv, Option.bind_none]
    · cases v₀ with
      | int n => exact absurd rfl (hv n)
      | _ => simp

end

/-! ### Refinement -/

variable {malloc : Nat → Nat → Bool} {data : Bytes}

/-- The value that has been parsed: an object, or not. -/
theorem value_of_image {v : Value} (h : Image m (filledOf v.size v none 0)) :
    (∃ ms, v = .object ms) ∨ (∀ ms, v ≠ .object ms) ∧
      ∃ value, m.value (some 0) = some value ∧ value.u.type ≠ .json_object := by
  cases v with
  | object ms => exact .inl ⟨ms, rfl⟩
  | _ =>
      refine .inr ⟨nofun, _, by rw [Memory.value, Option.bind_some, h.values, filledOf]; rfl, ?_⟩
      nofun

/-- No value starts with `]`. -/
theorem head?_ne_of_readText {l : Bytes} {v : Value} (hread : readText l = some v) :
    (l.dropWhile Json.isWs).head? ≠ some 93 := by
  intro hbracket
  have hnone : readValue (2 * l.length + 1) l = none := by
    rw [readValue]
    split
    · rfl
    · rename_i b r hl
      rw [hl, List.head?_cons, Option.some.injEq] at hbracket
      subst hbracket
      rfl
  rw [readText, hnone] at hread
  cases hread

/-- A handler of a payload over the parse tree. -/
def onTree {β : Type} (data : Bytes) (error : Int32)
    (members : List (Bytes × Json) → Option (Option β)) (act : β → Handler Int32) :
    Handler Int32 :=
  match parseText (cstr data) with
  | some (.obj ms) =>
      match members ms with
      | none => undefined
      | some none => pure error
      | some (some b) => act b
  | _ => pure error

/-- **A handler on the memory of `json_parse`** does what it does with the parse tree, and
nothing of the memory stays; for a payload that starts with `]` it goes wrong. -/
theorem onPayload_eq {α β : Type} (error : Int32) (φ : β → α) (act : α → Handler Int32)
    {fields : Memory → JsonValue → Option (Option α)}
    {members : List (Bytes × Json) → Option (Option β)}
    (hmalloc : ∀ calls size, malloc calls size = true) (hlen : (cstr data).length < text_max)
    (hobject : ∀ m ms parent reserved, ObjectAt m ms →
      fields m ⟨parent, .object ms.length (.block (some 0)), reserved⟩ =
        (members (toJsonMembers ms)).map (·.map φ))
    (hother : ∀ m value, value.u.type ≠ .json_object → fields m value = some none) :
    if ((cstr data).dropWhile Json.isWs).head? = some 93 then
      onPayload malloc data error fields act = undefined
    else ∃ mem, mem.Freed ∧ onPayload malloc data error fields act =
      (onTree data error members (fun b => act (φ b)) >>= fun retcode =>
        pure (retcode, mem)) := by
  unfold onTree
  cases hread : readText (cstr data) with
  | none =>
      have hparse := jsonParse_of_readText_eq_none malloc hread
        (Nat.le_of_lt (Nat.lt_trans hlen text_max_lt))
      simp only [onPayload, parseText, hread]
      split
      · rename_i hbracket
        rw [if_pos hbracket] at hparse
        rw [hparse]
      · rename_i hbracket
        rw [if_neg hbracket] at hparse
        obtain ⟨mem, e, hparse, hfreed⟩ := hparse
        refine ⟨mem, hfreed, ?_⟩
        rw [hparse]
        rfl
  | some v =>
      obtain ⟨mem, hparse, himage⟩ := jsonParse_of_readText hread hlen hmalloc
      obtain ⟨mem', hfree, hfreed⟩ := jsonValueFreeEx_of_image himage
      rw [if_neg (head?_ne_of_readText hread)]
      refine ⟨mem', hfreed, ?_⟩
      simp only [onPayload, parseText, hread, hparse, Option.map_some]
      rcases value_of_image himage with ⟨ms, rfl⟩ | ⟨hne, value, hvalue, htype⟩
      · simp only [ObjectAt.root himage, ofOption_some, Prog.pure_bind, Value.toJson,
          hobject mem ms none _ himage, hfree]
        cases members (toJsonMembers ms) with
        | none => rw [Option.map_none, ofOption_none, undefined_bind, undefined_bind]
        | some found => cases found <;> rfl
      · simp only [hvalue, ofOption_some, Prog.pure_bind, hother mem value htype, hfree]
        cases v with
        | object ms => exact absurd rfl (hne ms)
        | _ => rfl

theorem cstr_cstr (l : Bytes) : cstr (cstr l) = cstr l :=
  cstr_of_forall fun _ => ne_zero_of_mem_cstr

theorem versionField_cstr (version : Bytes) :
    versionField (cstr version) = versionField version := by
  rw [versionField, cstr_cstr]
  rfl

theorem deliver_cstr (send_uid recv_uid : Int64) (send_data : Bytes) :
    deliver send_uid recv_uid (cstr send_data) = deliver send_uid recv_uid send_data := by
  have hinsert : insertSql recv_uid send_uid (cstr send_data) =
      insertSql recv_uid send_uid send_data := by rw [insertSql, cstr_cstr, insertSql]
  have honline : onlinePayload send_uid (cstr send_data) = onlinePayload send_uid send_data := by
    funext now
    rw [onlinePayload, cstr_cstr, onlinePayload]
  rw [deliver, hinsert, honline, deliver]

theorem loginData_eq_none {value : JsonValue} (h : value.u.type ≠ .json_object) :
    loginData m value = some none := by
  unfold loginData
  split
  · rename_i hu
    exact absurd (by rw [hu]; rfl) h
  · rfl

theorem chatData_eq_none {value : JsonValue} (h : value.u.type ≠ .json_object) :
    chatData m value = some none := by
  unfold chatData
  split
  · rename_i hu
    exact absurd (by rw [hu]; rfl) h
  · rfl

theorem storeLogin_cLogin (client : Addr) (d : LoginData) :
    storeLogin client (cLogin d) = storeLogin client d :=
  congrArg (fun version => (do
    ask (.setVersion client version)
    ask (.setLogin client d.uid d.mid d.gameid)
    pure _HANDLE_SUCCESSFUL : Handler Int32)) (versionField_cstr d.app_version)

theorem modLogin_eq_onTree (client : Addr) :
    SpiderChat.modLogin parseText client data =
      onTree data _ERROR_HANDLE_LOGIN_DATA_PARSE_ERROR loginMembers
        fun d => storeLogin client (cLogin d) := by
  simp only [storeLogin_cLogin]
  unfold SpiderChat.modLogin onTree
  cases parseText (cstr data) with
  | none => rfl
  | some j =>
      cases j with
      | obj ms =>
          dsimp only
          cases loginMembers ms with
          | none => rfl
          | some found => cases found <;> rfl
      | _ => rfl

theorem modChatSendMessage_eq_onTree (send_uid : Int64) :
    SpiderChat.modChatSendMessage parseText send_uid data =
      onTree data _ERROR_MOD_CHAT_PARSE_DATA_ERROR chatMembers
        fun p => deliver send_uid p.1 (cstr p.2) := by
  unfold SpiderChat.modChatSendMessage onTree
  simp only [deliver_cstr]
  cases parseText (cstr data) with
  | none => rfl
  | some j =>
      cases j with
      | obj ms =>
          dsimp only
          cases chatMembers ms with
          | none => rfl
          | some found => cases found <;> rfl
      | _ => rfl

/-- `mod_login` over `json.c` does what it does over the parse tree, and keeps no memory;
for a payload that starts with `]` it goes wrong. -/
theorem modLogin_refines (hmalloc : ∀ calls size, malloc calls size = true)
    (hlen : (cstr data).length < text_max) (client : Addr) :
    if ((cstr data).dropWhile Json.isWs).head? = some 93 then
      modLogin malloc client data = undefined
    else ∃ mem, mem.Freed ∧ modLogin malloc client data =
      (SpiderChat.modLogin parseText client data >>= fun retcode => pure (retcode, mem)) := by
  rw [modLogin_eq_onTree, modLogin]
  exact onPayload_eq _ cLogin (storeLogin client) hmalloc hlen
    (fun m ms parent reserved h => h.loginData) fun m value h => loginData_eq_none h

/-- `mod_chat_send_message` over `json.c`, likewise. -/
theorem modChatSendMessage_refines (hmalloc : ∀ calls size, malloc calls size = true)
    (hlen : (cstr data).length < text_max) (send_uid : Int64) :
    if ((cstr data).dropWhile Json.isWs).head? = some 93 then
      modChatSendMessage malloc send_uid data = undefined
    else ∃ mem, mem.Freed ∧ modChatSendMessage malloc send_uid data =
      (SpiderChat.modChatSendMessage parseText send_uid data >>= fun retcode =>
        pure (retcode, mem)) := by
  rw [modChatSendMessage_eq_onTree, modChatSendMessage]
  exact onPayload_eq _ (fun p : Int64 × Bytes => (p.1, cstr p.2))
    (fun p => deliver send_uid p.1 p.2) hmalloc
    hlen (fun m ms parent reserved h => h.chatData) fun m value h => chatData_eq_none h

/-- **The handlers over `json.c`**: with the memory that `json_parse` lays out they do what they
do with the parse tree, and give all of it back; a payload that starts with `]` makes both go
wrong. -/
theorem handlers_over_json_c (hmalloc : ∀ calls size, malloc calls size = true)
    (hlen : (cstr data).length < text_max) (client : Addr) (send_uid : Int64) :
    if ((cstr data).dropWhile Json.isWs).head? = some 93 then
      modLogin malloc client data = undefined ∧
        modChatSendMessage malloc send_uid data = undefined
    else
      (∃ mem, mem.Freed ∧ modLogin malloc client data =
        (SpiderChat.modLogin parseText client data >>= fun retcode => pure (retcode, mem))) ∧
      ∃ mem, mem.Freed ∧ modChatSendMessage malloc send_uid data =
        (SpiderChat.modChatSendMessage parseText send_uid data >>= fun retcode =>
          pure (retcode, mem)) := by
  have hlogin := modLogin_refines hmalloc hlen client
  have hchat := modChatSendMessage_refines hmalloc hlen send_uid
  split
  · rename_i hbracket
    rw [if_pos hbracket] at hlogin hchat
    exact ⟨hlogin, hchat⟩
  · rename_i hbracket
    rw [if_neg hbracket] at hlogin hchat
    exact ⟨hlogin, hchat⟩

/-- A login in JSON. -/
def loginPayload : Bytes :=
  ascii "\x7b\"uid\":7,\"mid\":8,\"gameid\":1004,\"app_version\":\"1.0\"\x7d"

theorem handlers_over_json_c_login :
    (parseText (cstr loginPayload)).isSome = true ∧
      (∃ mem, mem.Freed ∧ modLogin (fun _ _ => true) 1 loginPayload =
        (SpiderChat.modLogin parseText 1 loginPayload >>= fun retcode => pure (retcode, mem))) ∧
      ∃ mem, mem.Freed ∧ modChatSendMessage (fun _ _ => true) 7 loginPayload =
        (SpiderChat.modChatSendMessage parseText 7 loginPayload >>= fun retcode =>
          pure (retcode, mem)) := by
  have hread : (parseText (cstr loginPayload)).isSome = true := by decide +kernel
  have hmalloc : ∀ calls size, (fun _ _ => true : Nat → Nat → Bool) calls size = true :=
    fun _ _ => rfl
  have hlen : (cstr loginPayload).length < text_max := by decide
  have hboth := handlers_over_json_c hmalloc hlen 1 7
  rw [if_neg (by decide)] at hboth
  exact ⟨hread, hboth⟩

/-! ### Payloads of the standard -/

mutual

/-- What `json.c` takes over as it is: integers of 64 bits, and strings without characters of
four bytes. -/
def Fits : Json → Prop
  | .obj js => fitsMembers js
  | .arr js => fitsElems js
  | .int n => -2 ^ 63 ≤ n ∧ n < 2 ^ 63
  | .num _ => False
  | .str s => ∀ b ∈ s, b < 0xF0
  | .bool _ => True
  | .null => True

def fitsElems : List Json → Prop
  | [] => True
  | j :: js => Fits j ∧ fitsElems js

def fitsMembers : List (Bytes × Json) → Prop
  | [] => True
  | (k, j) :: js => (∀ b ∈ k, b < 0xF0) ∧ Fits j ∧ fitsMembers js

end

theorem Recodes.eq {d s : Bytes} (h : Recodes d s) (hd : ∀ b ∈ d, b < 0xF0) : s = d := by
  induction h with
  | nil => rfl
  | same d _ ih => rw [ih fun b hb => hd b (List.mem_append_right _ hb)]
  | @pair hi lo hhi hlo s t _ ih =>
      -- a character above 0xFFFF has a first byte from 0xF0 on
      obtain ⟨hhi₁, hhi₂⟩ := hhi
      obtain ⟨hlo₁, hlo₂⟩ := hlo
      generalize hn : 0x10000 + (hi - 0xD800) * 1024 + (lo - 0xDC00) = n at hd
      have hmem : UInt8.ofNat (0xF0 + n / 262144) ∈ Json.utf8 n ++ s := by
        rw [Json.utf8, if_neg (by omega), if_neg (by omega), if_neg (by omega)]
        exact List.mem_cons_self
      have hlt := UInt8.lt_iff_toNat_lt.mp (hd _ hmem)
      rw [UInt8.toNat_ofNat_of_lt' (by show _ < 256; omega)] at hlt
      exact absurd hlt (by show ¬ _ < 240; omega)

mutual

theorem toJson_of_said : (v : Value) → (j : Json) → v.Says j → Fits j → v.toJson = j
  | .object ms, .obj js, h, hf => by rw [Value.toJson, toJsonMembers_of_say ms js h hf]
  | .array xs, .arr js, h, hf => by rw [Value.toJson, toJsonElems_of_say xs js h hf]
  | .integer n, .int i, h, hf => by
      rw [Value.toJson, show n = .ofInt i from h, Int64.toInt_ofInt_of_le hf.1 hf.2]
  | .string s, .str t, h, hf => by rw [Value.toJson, Recodes.eq h hf]
  | .boolean a, .bool b, h, _ => by rw [Value.toJson, show a = b from h]
  | .null, .null, _, _ => rfl
  | .double _, .num _, _, hf => hf.elim

theorem toJsonElems_of_say : (xs : List Value) → (js : List Json) → elemsSay xs js →
    fitsElems js → toJsonElems xs = js
  | [], [], _, _ => rfl
  | x :: xs, j :: js, h, hf => by
      rw [toJsonElems, toJson_of_said x j h.1 hf.1, toJsonElems_of_say xs js h.2 hf.2]

theorem toJsonMembers_of_say : (ms : List (Bytes × Value)) → (js : List (Bytes × Json)) →
    membersSay ms js → fitsMembers js → toJsonMembers ms = js
  | [], [], _, _ => rfl
  | (k, x) :: ms, (k', j) :: js, h, hf => by
      rw [toJsonMembers, toJson_of_said x j h.2.1 hf.2.1, toJsonMembers_of_say ms js h.2.2 hf.2.2,
        Recodes.eq h.1 hf.1]

end

/-- A text of the standard has the same parse tree for `json.c`. -/
theorem parseText_of_parse {l : Bytes} {j : Json} (h : Json.parse l = some j) (hfits : Fits j) :
    parseText l = some j := by
  obtain ⟨v, hsaid, hread⟩ := readText_of_standard h
  rw [parseText, hread, Option.map_some, toJson_of_said v j hsaid hfits]

/-- The parse tree of a payload that starts a value. -/
theorem head?_ne_of_parseText {l : Bytes} {j : Json} (h : parseText l = some j) :
    (l.dropWhile Json.isWs).head? ≠ some 93 := by
  obtain ⟨v, hread, -⟩ := Option.map_eq_some_iff.mp h
  exact head?_ne_of_readText hread

/-- **A login in JSON** stores what it says, in the client only, and gives its memory back:
whatever the spacing and the escapes, an object of the four members of a login. -/
theorem mod_login_of_standard {js : List (Bytes × Json)} {uid mid gameid : Int} {version : Bytes}
    (hmalloc : ∀ calls size, malloc calls size = true) (hlen : (cstr data).length < text_max)
    (hparse : Json.parse (cstr data) = some (.obj js)) (hfits : Fits (.obj js))
    (hnames : loginNames <+: namesOf js)
    (hvalues : js.map Prod.snd = [.int uid, .int mid, .int gameid, .str version])
    (client : Addr) :
    ∃ mem, mem.Freed ∧ modLogin malloc client data = (do
      ask (.setVersion client (versionField version))
      ask (.setLogin client (.ofInt uid) (.ofInt mid) (Int64.ofInt gameid).toInt32)
      pure (_HANDLE_SUCCESSFUL, mem)) := by
  have htree := parseText_of_parse hparse hfits
  have hrefines := modLogin_refines hmalloc hlen client
  rw [if_neg (head?_ne_of_parseText htree)] at hrefines
  obtain ⟨mem, hfreed, heq⟩ := hrefines
  -- the tree has the members of a login
  have hmembers : loginMembers js = some (some
      { uid := .ofInt uid, mid := .ofInt mid, gameid := (Int64.ofInt gameid).toInt32,
        app_version := version }) :=
    loginMembers_eq_some_iff.mpr ⟨hnames, uid, mid, gameid, version, hvalues, rfl⟩
  have hlogins : logins parseText data = some
      { uid := .ofInt uid, mid := .ofInt mid, gameid := (Int64.ofInt gameid).toInt32,
        app_version := version } := by
    rw [logins, htree]
    exact Option.join_eq_some_iff.mpr hmembers
  refine ⟨mem, hfreed, ?_⟩
  rw [heq, modLogin_of_logins hlogins]
  rfl

def loginObject : List (Bytes × Json) :=
  [(ascii "uid", .int 7), (ascii "mid", .int 8), (ascii "gameid", .int 1004),
    (ascii "app_version", .str (ascii "1.0"))]

theorem parse_loginPayload : Json.parse (cstr loginPayload) = some (.obj loginObject) := by
  have hflat : ∃ t, Json.FlatMembers loginObject t ∧ 123 :: (t ++ [125]) = loginPayload :=
    ⟨_, .cons (by decide) (.int 7) (.cons (by decide) (.int 8) (.cons (by decide) (.int 1004)
      (.last (by decide) (.str (by decide))))), by decide⟩
  obtain ⟨t, ht, heq⟩ := hflat
  have hcstr : cstr loginPayload = loginPayload := by decide
  rw [hcstr, ← heq]
  exact Json.parse_flat ht

theorem fits_loginObject : Fits (.obj loginObject) := by
  have hversion : ∀ b ∈ ascii "1.0", b < 0xF0 := by decide
  exact ⟨by decide, ⟨by decide, by decide⟩, by decide, ⟨by decide, by decide⟩, by decide,
    ⟨by decide, by decide⟩, by decide, hversion, trivial⟩

theorem mod_login_of_standard_payload :
    ∃ mem, mem.Freed ∧ modLogin (fun _ _ => true) 1 loginPayload = (do
      ask (.setVersion 1 (versionField (ascii "1.0")))
      ask (.setLogin 1 (.ofInt 7) (.ofInt 8) (Int64.ofInt 1004).toInt32)
      pure (_HANDLE_SUCCESSFUL, mem)) :=
  mod_login_of_standard (fun _ _ => rfl) (by decide) parse_loginPayload fits_loginObject
    (by decide) rfl 1

/-- **A message in JSON** is handed to `deliver` with the recipient and the text that it says,
and its memory given back. -/
theorem mod_chat_of_standard {j : Json} {recv_uid : Int64} {msg : Bytes}
    (hmalloc : ∀ calls size, malloc calls size = true) (hlen : (cstr data).length < text_max)
    (hparse : Json.parse (cstr data) = some j) (hfits : Fits j)
    (hformat : chatFormat (some j) = some (recv_uid, msg)) (send_uid : Int64) :
    ∃ mem, mem.Freed ∧ modChatSendMessage malloc send_uid data =
      (deliver send_uid recv_uid msg >>= fun retcode => pure (retcode, mem)) := by
  obtain ⟨js, rfl⟩ : ∃ js, j = .obj js := by
    cases j with
    | obj js => exact ⟨js, rfl⟩
    | _ => cases hformat
  have htree := parseText_of_parse hparse hfits
  have hrefines := modChatSendMessage_refines hmalloc hlen send_uid
  rw [if_neg (head?_ne_of_parseText htree)] at hrefines
  obtain ⟨mem, hfreed, heq⟩ := hrefines
  have haccepts : accepts parseText data = some (recv_uid, msg) := by
    rw [accepts, htree]
    exact Option.join_eq_some_iff.mpr (chatMembers_of_chatFormat hformat)
  exact ⟨mem, hfreed, by rw [heq, modChatSendMessage_of_accepts parseText haccepts]⟩

/-- A message in JSON. -/
def messagePayload : Bytes := ascii "\x7b\"recv_id\":7,\"msg\":\"hi\"\x7d"

def messageObject : List (Bytes × Json) :=
  [(ascii "recv_id", .int 7), (ascii "msg", .str (ascii "hi"))]

theorem parse_messagePayload : Json.parse (cstr messagePayload) = some (.obj messageObject) := by
  have hflat : ∃ t, Json.FlatMembers messageObject t ∧ 123 :: (t ++ [125]) = messagePayload :=
    ⟨_, .cons (by decide) (.int 7) (.last (by decide) (.str (by decide))), by decide⟩
  obtain ⟨t, ht, heq⟩ := hflat
  have hcstr : cstr messagePayload = messagePayload := by decide
  rw [hcstr, ← heq]
  exact Json.parse_flat ht

theorem fits_messageObject : Fits (.obj messageObject) := by
  have hmsg : ∀ b ∈ ascii "hi", b < 0xF0 := by decide
  exact ⟨by decide, ⟨by decide, by decide⟩, by decide, hmsg, trivial⟩

theorem mod_chat_of_standard_payload :
    ∃ mem, mem.Freed ∧ modChatSendMessage (fun _ _ => true) 5 messagePayload =
      (deliver 5 7 (ascii "hi") >>= fun retcode => pure (retcode, mem)) :=
  mod_chat_of_standard (fun _ _ => rfl) (by decide) parse_messagePayload fits_messageObject
    rfl 5

/-! ### The payload of the client -/

section

variable {uid gmid : Int64} {gameid : Int32} {app_version : Bytes}

theorem fits_clientMembers (hversion : ∀ b ∈ app_version, b < 0xF0) :
    Fits (.obj (Client.loginMembers uid gmid gameid app_version)) := by
  have hbounds (n : Int64) : -2 ^ 63 ≤ n.toInt ∧ n.toInt < 2 ^ 63 :=
    ⟨n.le_toInt, n.toInt_lt⟩
  have hgameid : -2 ^ 63 ≤ gameid.toInt ∧ gameid.toInt < 2 ^ 63 :=
    ⟨by have := gameid.le_toInt; omega, by have := gameid.toInt_lt; omega⟩
  exact ⟨by decide, hbounds uid, by decide, hbounds gmid, by decide, hgameid, by decide,
    hversion, trivial⟩

/-- **The login of `spider_client.c`**: `json_parse` reads the object that it spells, with its
four members; `mod_login` rejects it, since the second one is `gmid`, and gives the memory
back. -/
theorem client_login_rejected (hmalloc : ∀ calls size, malloc calls size = true)
    (hplain : ∀ b ∈ app_version, Json.PlainByte b) (hversion : ∀ b ∈ app_version, b < 0xF0)
    (hfit : (Client.loginText uid gmid gameid app_version).length < 100) (client : Addr) :
    (∃ (v : Value) (mem : Memory),
      v.toJson = .obj (Client.loginMembers uid gmid gameid app_version) ∧
        jsonParse malloc (cstr (Client.loginPack uid gmid gameid app_version)) =
          some ⟨some 0, mem, []⟩ ∧
        load mem v.size 0 = some v.named) ∧
    ∃ mem, mem.Freed ∧
      modLogin malloc client (Client.loginPack uid gmid gameid app_version) =
        pure (_ERROR_HANDLE_LOGIN_DATA_PARSE_ERROR, mem) := by
  have hpack := (Client.loginHead_valid hfit).2.2
  have hcstr : cstr (Client.loginText uid gmid gameid app_version) =
      Client.loginText uid gmid gameid app_version := Client.cstr_loginText hplain
  have hlen : (cstr (Client.loginText uid gmid gameid app_version)).length < text_max := by
    rw [hcstr]
    exact Nat.lt_trans hfit (by decide)
  have hparse : Json.parse (cstr (Client.loginText uid gmid gameid app_version)) =
      some (.obj (Client.loginMembers uid gmid gameid app_version)) := by
    rw [hcstr]
    exact Client.parse_loginText hplain
  have htree := parseText_of_parse hparse (fits_clientMembers hversion)
  have hrefines := modLogin_refines hmalloc hlen client
  rw [if_neg (head?_ne_of_parseText htree)] at hrefines
  obtain ⟨mem, hfreed, heq⟩ := hrefines
  -- the second name is not `mid`
  have hlogins : logins parseText (Client.loginText uid gmid gameid app_version) = none := by
    rw [logins, htree]
    show (loginMembers (Client.loginMembers uid gmid gameid app_version)).join = none
    rw [Client.loginMembers_rejected]
    rfl
  obtain ⟨v, hread, hjson⟩ := Option.map_eq_some_iff.mp htree
  obtain ⟨mem', hreturned, hload⟩ := jsonParse_loads hread hlen hmalloc
  rw [hpack]
  refine ⟨⟨v, mem', hjson, hreturned, hload⟩, mem, hfreed, ?_⟩
  rw [heq, modLogin_of_logins_eq_none hlogins]
  rfl

theorem client_login_rejected_main :
    (∃ (v : Value) (mem : Memory),
      v.toJson = .obj (Client.loginMembers 10001 200001 1004 (ascii "1.0.1")) ∧
        jsonParse (fun _ _ => true) (cstr (Client.loginPack 10001 200001 1004 (ascii "1.0.1"))) =
          some ⟨some 0, mem, []⟩ ∧
        load mem v.size 0 = some v.named) ∧
    ∃ mem, mem.Freed ∧
      modLogin (fun _ _ => true) 1 (Client.loginPack 10001 200001 1004 (ascii "1.0.1")) =
        pure (_ERROR_HANDLE_LOGIN_DATA_PARSE_ERROR, mem) :=
  client_login_rejected (fun _ _ => rfl) (by decide) (by decide) (by decide) 1

end

end SpiderChat.JsonC
