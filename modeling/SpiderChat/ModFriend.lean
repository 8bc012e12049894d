import SpiderChat.Env

/-!
# SpiderChat.ModFriend

`mod_friend.c`: the list of a user's friends is written into the caller's array,
which the caller has not initialised. Every `strncpy` there writes 210 bytes,
padding with zeros. The connection obtained from the pool is not given back.
-/

namespace SpiderChat

open Lib Handler

/-- The query for a user's friends. -/
def friendsSql (uid : Int64) : Bytes :=
  ascii "select fuid from " ++ getTableNameByInt2mod uid FRIENDS_TABLE_LEVEL 30 ++
    ascii " where uid=" ++ fmtD uid

/-- One round of the loop: the array, and the offset `friend` has moved to. -/
def appendFriend (buf : Bytes) (off : Nat) (row : MysqlRow) : Option (Bytes × Nat) := do
  let str_doule := snprintf 21 (fmtPointer (row.col 0))
  let len ← strlen buf off
  let buf ← strncpy buf (off + len) str_doule 210
  let len ← strlen buf off
  let buf ← strncpy buf (off + len) (ascii ",") 210
  some (buf, off + len)

/-- The loop over the rows, and the closing brace. -/
def appendFriends (buf : Bytes) (off : Nat) : List MysqlRow → Option Bytes
  | [] => do
      let len ← strlen buf off
      strncpy buf (off + len) (ascii "\x7d") 210
  | row :: rows => do
      let (buf, off) ← appendFriend buf off row
      appendFriends buf off rows

/-- `mod_friend_get_friend_list`: the return code and the array `friend`. -/
def modFriendGetFriendList (uid : Int64) (friend : Bytes) : Handler (Int32 × Bytes) := do
  let sql := snprintf 150 (friendsSql uid)
  match ← ask .getConnect with
  | none => pure (_ERROR_MOD_FRIEND_MYSQL_ERROR, friend)
  | some conn => do
      match ← ask (.getRows conn sql) with
      | none => pure (_ERROR_MOD_FRIEND_MYSQL_ERROR, friend)
      | some rows => do
          let friend ← ofOption (appendFriends friend 0 rows)
          pure (_HANDLE_SUCCESSFUL, friend)

theorem length_appendFriends {friend : Bytes} {rows : List MysqlRow} :
    ∀ {buf : Bytes} {off : Nat}, appendFriends buf off rows = some friend →
      friend.length = buf.length := by
  induction rows with
  | nil =>
      intro buf off h
      simp only [appendFriends, bind, Option.bind_eq_some_iff] at h
      obtain ⟨len, -, hbuf⟩ := h
      exact length_strncpy hbuf
  | cons row rows ih =>
      intro buf off h
      simp only [appendFriends, appendFriend, bind, Option.bind_eq_some_iff,
        Option.some.injEq] at h
      obtain ⟨_, ⟨_, -, buf₁, hbuf₁, _, -, buf₂, hbuf₂, rfl⟩, h⟩ := h
      rw [ih h, length_strncpy hbuf₂, length_strncpy hbuf₁]

/-- A round of the loop puts a comma at the end of the text. -/
theorem cstr_appendFriend {buf buf' : Bytes} {off off' : Nat} {row : MysqlRow}
    (hoff : off ≤ (cstr buf).length) (h : appendFriend buf off row = some (buf', off')) :
    (∃ t, cstr buf' = t ++ [44]) ∧ off' ≤ (cstr buf').length := by
  simp only [appendFriend, bind, Option.bind_eq_some_iff, Option.some.injEq, Prod.mk.injEq] at h
  obtain ⟨len₁, hlen₁, buf₁, hbuf₁, len₂, hlen₂, buf₂, hbuf₂, rfl, rfl⟩ := h
  have hshort : (cstr (snprintf 21 (fmtPointer (row.col 0)))).length < 210 := by
    have hle := (cstr_isPrefix (snprintf 21 (fmtPointer (row.col 0)))).length_le
    have hsize := length_snprintf_le 21 (fmtPointer (row.col 0))
    omega
  obtain ⟨-, htext₁⟩ := strncpy_append hoff hlen₁ hshort hbuf₁
  have hoff₁ : off ≤ (cstr buf₁).length := by
    rw [htext₁, List.length_append]
    omega
  obtain ⟨hend, htext₂⟩ := strncpy_append hoff₁ hlen₂ (by decide) hbuf₂
  refine ⟨⟨cstr buf₁, htext₂⟩, ?_⟩
  rw [hend, htext₂, List.length_append]
  omega

/-- Behind a friend, the closing brace stands behind a comma. -/
theorem cstr_appendFriends {friend : Bytes} {rows : List MysqlRow} :
    ∀ {buf : Bytes} {off : Nat}, off ≤ (cstr buf).length →
      appendFriends buf off rows = some friend → (rows = [] → ∃ t, cstr buf = t ++ [44]) →
      ∃ t, cstr friend = t ++ [44, 125] := by
  induction rows with
  | nil =>
      intro buf off hoff h hcomma
      simp only [appendFriends, bind, Option.bind_eq_some_iff] at h
      obtain ⟨len, hlen, hbuf⟩ := h
      obtain ⟨-, htext⟩ := strncpy_append hoff hlen (by decide) hbuf
      obtain ⟨t, ht⟩ := hcomma rfl
      refine ⟨t, ?_⟩
      rw [htext, ht, List.append_assoc]
      rfl
  | cons row rows ih =>
      intro buf off hoff h _
      simp only [appendFriends, bind, Option.bind_eq_some_iff] at h
      obtain ⟨⟨buf', off'⟩, hrow, h⟩ := h
      obtain ⟨hcomma, hoff'⟩ := cstr_appendFriend hoff hrow
      exact ih hoff' h fun _ => hcomma

/-- Without rows, a brace is put behind the text that happens to be in the array, when there
is room for 210 bytes. -/
theorem appendFriends_nil {buf : Bytes} {friend : Option Bytes}
    (h : appendFriends buf 0 [] = friend) :
    (friend = none ∧ buf.length < (cstr buf).length + 210) ∨
      ∃ f, friend = some f ∧ (cstr buf).length + 210 ≤ buf.length ∧
        cstr f = cstr buf ++ [125] := by
  subst h
  simp only [appendFriends, bind, strlen, List.drop_zero]
  split
  · rename_i hzero
    rw [Option.bind_some, Nat.zero_add]
    cases hbuf : strncpy buf (cstr buf).length (ascii "\x7d") 210 with
    | none => exact .inl ⟨rfl, strncpy_eq_none_iff.mp hbuf⟩
    | some f =>
        have hlen : strlen buf 0 = some (cstr buf).length := by
          rw [strlen, List.drop_zero, if_pos hzero]
        have hshort : (cstr (ascii "\x7d")).length < 210 := by decide
        obtain ⟨-, htext⟩ := strncpy_append (Nat.zero_le _) hlen hshort (by rwa [Nat.zero_add])
        exact .inr ⟨f, rfl, le_of_strncpy hbuf, htext⟩
  · rename_i hzero
    -- the array is all text
    have hall : cstr buf = buf := cstr_of_forall fun b hb heq => hzero (heq ▸ hb)
    exact .inl ⟨rfl, by rw [hall]; omega⟩

/-- The text that the loop leaves: with rows, the brace stands behind a comma. -/
theorem cstr_appendFriends_cases {buf friend : Bytes} {rows : List MysqlRow}
    (h : appendFriends buf 0 rows = some friend) :
    (rows = [] ∧ (cstr buf).length + 210 ≤ buf.length ∧ cstr friend = cstr buf ++ [125]) ∨
      rows ≠ [] ∧ ∃ t, cstr friend = t ++ [44, 125] := by
  cases rows with
  | nil =>
      rcases appendFriends_nil h with ⟨hnone, -⟩ | ⟨f, hsome, hroom, htext⟩
      · cases hnone
      · obtain rfl := Option.some.inj hsome
        exact .inl ⟨rfl, hroom, htext⟩
  | cons row rows =>
      have hcons : row :: rows = [] → ∃ t, cstr buf = t ++ [44] := fun hnil => by cases hnil
      exact .inr ⟨List.cons_ne_nil _ _, cstr_appendFriends (Nat.zero_le _) h hcons⟩

theorem calls_modFriendGetFriendList {P : Call → Prop} (hconnect : P .getConnect)
    (hrows : ∀ conn sql, P (.getRows conn sql)) (uid : Int64) (friend : Bytes) :
    (modFriendGetFriendList uid friend).Calls P := by
  refine calls_ask_bind hconnect fun conn => ?_
  cases conn with
  | none => exact Prog.calls_pure _
  | some conn =>
      refine calls_ask_bind (hrows _ _) fun res => ?_
      cases res with
      | none => exact Prog.calls_pure _
      | some rows => exact (calls_ofOption _).bind fun _ => Prog.calls_pure _

/-- The executions: no connection, a query that fails, or the rows that are put together, if
the array has room for them. -/
theorem ends_modFriendGetFriendList {uid : Int64} {friend : Bytes} {es : List HandlerEvent}
    {x : Option (Int32 × Bytes)} (h : (modFriendGetFriendList uid friend).Ends es x) :
    ((∀ conn sql rows, ⟨.getRows conn sql, some rows⟩ ∉ es) ∧
      x = some (_ERROR_MOD_FRIEND_MYSQL_ERROR, friend)) ∨
    ∃ conn rows, es = [⟨.getConnect, some conn⟩,
        ⟨.getRows conn (snprintf 150 (friendsSql uid)), some rows⟩] ∧
      x = (appendFriends friend 0 rows).map fun list => (_HANDLE_SUCCESSFUL, list) := by
  obtain ⟨conn, es₁, rfl, h₁⟩ := (ends_ask_bind rfl).mp h
  cases conn with
  | none =>
      obtain ⟨rfl, rfl⟩ := Prog.ends_pure.mp h₁
      exact .inl ⟨by simp, rfl⟩
  | some conn =>
      obtain ⟨res, es₂, rfl, h₂⟩ := (ends_ask_bind rfl).mp h₁
      cases res with
      | none =>
          obtain ⟨rfl, rfl⟩ := Prog.ends_pure.mp h₂
          exact .inl ⟨by simp, rfl⟩
      | some rows =>
          right
          cases hlist : appendFriends friend 0 rows with
          | none =>
              simp only [hlist, ofOption_none] at h₂
              rcases Prog.ends_bind.mp h₂ with ⟨hstuck, rfl⟩ | ⟨es₃, es₄, list, -, hruns, -⟩
              · obtain ⟨rfl, -⟩ := ends_undefined.mp hstuck
                exact ⟨conn, rows, rfl, by rw [hlist]; rfl⟩
              · exact absurd hruns runs_undefined
          | some list =>
              simp only [hlist, ofOption_some, Prog.pure_bind] at h₂
              obtain ⟨rfl, rfl⟩ := Prog.ends_pure.mp h₂
              exact ⟨conn, rows, rfl, by rw [hlist]; rfl⟩

/-- The rows of the only query among the calls. -/
theorem eq_of_mem_getRows (pre : List HandlerEvent) {rest : List HandlerEvent}
    {conn conn' : Addr} {sql sql' : Bytes} {rows rows' : List MysqlRow}
    (hpre : ∀ e ∈ pre, ∀ conn sql, e.1 ≠ .getRows conn sql)
    (hrest : ∀ e ∈ rest, ∀ conn sql, e.1 ≠ .getRows conn sql)
    (h : ⟨.getRows conn' sql', some rows'⟩ ∈ pre ++ ⟨.getRows conn sql, some rows⟩ :: rest) :
    rows' = rows := by
  rcases List.mem_append.mp h with h | h
  · exact absurd rfl (hpre _ h conn' sql')
  · rcases List.mem_cons.mp h with heq | h
    · cases heq
      rfl
    · exact absurd rfl (hrest _ h conn' sql')

end SpiderChat
