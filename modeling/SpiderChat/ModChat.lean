import SpiderChat.Frame
import SpiderChat.JsonTree

/-!
# SpiderChat.ModChat

`mod_chat.c`: a message is sent to its recipient if a registered client has the
recipient's uid, and is stored in the database otherwise; what is stored is sent
when the recipient logs in.

The texts sent and the SQL texts are put together with `%s`: `onlinePayload`,
`insertSql` and the others are these texts, one definition each.
-/

namespace SpiderChat

open Lib Handler

section

variable (parse : Bytes → Option Json)

/-- The members that `mod_chat_send_message` looks at: `none` when it reads past
the names or through a `NULL` value, `some none` when it rejects them, otherwise
the recipient and the message. -/
def chatMembers (ms : List (Bytes × Json)) : Option (Option (Int64 × Bytes)) := do
  let key ← nameAt ms 0
  -- the object has a member, so it has a first value
  let raw ← (allocsOfMembers ms)[0]?
  match decide (key = ascii "recv_id"), raw with
  | true, .int n =>
      let recv_uid := Int64.ofInt n
      let raw := (allocsOfMembers ms)[1]?
      let key ← nameAt ms 8
      if key = ascii "msg" then
        match ← raw with
        | .str s => if s.length < 1024 then some (some (recv_uid, s)) else some none
        | _ => some none
      else some none
  | _, _ => some none

/-- The recipient and the message of a payload that is accepted. -/
def accepts (data : Bytes) : Option (Int64 × Bytes) :=
  match parse (cstr data) with
  | some (.obj ms) => (chatMembers ms).join
  | _ => none

/-- The text sent to a recipient who is online. -/
def onlinePayload (send_uid : Int64) (send_data : Bytes) (now : Int64) : Bytes :=
  ascii "\x7b\"send_uid\":" ++ fmtD send_uid ++ ascii " , \"msg\":\"" ++ cstr send_data ++
    ascii "\" ,\"time\":" ++ fmtLd now ++ ascii "\x7d"

theorem onlinePayload_ne_zero (send_uid : Int64) (msg : Bytes) (now : Int64) :
    ∀ b ∈ onlinePayload send_uid msg now, b ≠ 0 := by
  intro b hb
  simp only [onlinePayload, List.mem_append] at hb
  rcases hb with (((((hb | hb) | hb) | hb) | hb) | hb) | hb
  · exact (by decide : ∀ b ∈ ascii "\x7b\"send_uid\":", b ≠ 0) b hb
  · exact ne_zero_of_mem_decInt hb
  · exact (by decide : ∀ b ∈ ascii " , \"msg\":\"", b ≠ 0) b hb
  · exact ne_zero_of_mem_cstr hb
  · exact (by decide : ∀ b ∈ ascii "\" ,\"time\":", b ≠ 0) b hb
  · exact ne_zero_of_mem_decInt hb
  · exact (by decide : ∀ b ∈ ascii "\x7d", b ≠ 0) b hb

/-- The statement that stores a message. -/
def insertSql (recv_uid send_uid : Int64) (send_data : Bytes) : Bytes :=
  ascii "insert into " ++ offlineTable send_uid ++ ascii " ( uid , send_uid , msg ) values ( " ++
    fmtD recv_uid ++ ascii " , " ++ fmtD send_uid ++ ascii " , '" ++ cstr send_data ++ ascii "' );"

/-- `mod_chat_send_message` behind the decoding of its payload. -/
def deliver (send_uid recv_uid : Int64) (send_data : Bytes) : Handler Int32 := do
  match ← ask (.findClientByUid recv_uid) with
  | none => do
      let sql := snprintf 2048 (insertSql recv_uid send_uid send_data)
      match ← ask .getConnect with
      | none => pure _ERROR_MOD_CHAT_SEND_MSG_SQL_FAIL
      | some conn => do
          -- a query that fails is only logged
          let _ ← ask (.querySql conn sql)
          ask (.destoryConnect conn)
          pure _HANDLE_SUCCESSFUL
  | some recv_client => do
      let now ← ask .time
      let ret := snprintf 1048 (onlinePayload send_uid send_data now)
      let client ← ask (.readClient recv_client)
      handleSend client.fd HANDLE_SEND_MESSAGE client.gameid ret
      pure _HANDLE_SUCCESSFUL

/-- `mod_chat_send_message`. -/
def modChatSendMessage (send_uid : Int64) (data : Bytes) : Handler Int32 :=
  match parse (cstr data) with
  | some (.obj ms) =>
      match chatMembers ms with
      | none => undefined
      | some none => pure _ERROR_MOD_CHAT_PARSE_DATA_ERROR
      | some (some (recv_uid, send_data)) => deliver send_uid recv_uid send_data
  | _ => pure _ERROR_MOD_CHAT_PARSE_DATA_ERROR

/-- The ways in which a message is delivered: no connection, stored, or sent. -/
theorem runs_deliver {send_uid recv_uid : Int64} {msg : Bytes} {es : List HandlerEvent}
    {ret : Int32} (h : (deliver send_uid recv_uid msg).Runs es ret) :
    (es = [⟨.findClientByUid recv_uid, none⟩, ⟨.getConnect, none⟩] ∧
      ret = _ERROR_MOD_CHAT_SEND_MSG_SQL_FAIL) ∨
    (∃ conn ok, es = [⟨.findClientByUid recv_uid, none⟩, ⟨.getConnect, some conn⟩,
        ⟨.querySql conn (snprintf 2048 (insertSql recv_uid send_uid msg)), ok⟩,
        ⟨.destoryConnect conn, ()⟩] ∧ ret = _HANDLE_SUCCESSFUL) ∨
    ∃ recv_client now client bytes code,
      frame HANDLE_SEND_MESSAGE client.gameid (snprintf 1048 (onlinePayload send_uid msg now)) =
        some bytes ∧
      es = [⟨.findClientByUid recv_uid, some recv_client⟩, ⟨.time, now⟩,
        ⟨.readClient recv_client, client⟩, ⟨.send client.fd bytes, code⟩] ∧
      ret = _HANDLE_SUCCESSFUL := by
  obtain ⟨found, es₁, rfl, h₁⟩ := runs_ask_bind.mp h
  cases found with
  | none =>
      obtain ⟨conn, es₂, rfl, h₂⟩ := runs_ask_bind.mp h₁
      cases conn with
      | none =>
          obtain ⟨rfl, rfl⟩ := Prog.runs_pure.mp h₂
          exact Or.inl ⟨rfl, rfl⟩
      | some conn =>
          obtain ⟨ok, es₃, rfl, h₃⟩ := runs_ask_bind.mp h₂
          obtain ⟨r, es₄, rfl, h₄⟩ := runs_ask_bind.mp h₃
          obtain ⟨rfl, rfl⟩ := Prog.runs_pure.mp h₄
          exact Or.inr (Or.inl ⟨conn, ok, rfl, rfl⟩)
  | some recv_client =>
      obtain ⟨now, es₂, rfl, h₂⟩ := runs_ask_bind.mp h₁
      obtain ⟨client, es₃, rfl, h₃⟩ := runs_ask_bind.mp h₂
      obtain ⟨es₄, es₅, u, rfl, hsend, h₄⟩ := Prog.runs_bind.mp h₃
      obtain ⟨bytes, code, hframe, rfl⟩ := runs_handleSend.mp hsend
      obtain ⟨rfl, rfl⟩ := Prog.runs_pure.mp h₄
      exact Or.inr (Or.inr ⟨recv_client, now, client, bytes, code, hframe, rfl, rfl⟩)

/-- The texts fit their buffers. -/
theorem defined_deliver (send_uid recv_uid : Int64) (msg : Bytes) :
    (deliver send_uid recv_uid msg).Defined := by
  refine defined_ask_bind rfl fun found => ?_
  cases found with
  | none =>
      refine defined_ask_bind rfl fun conn => ?_
      cases conn with
      | none => exact Prog.defined_pure _
      | some conn =>
          exact defined_ask_bind rfl fun _ => defined_ask_bind rfl fun _ =>
            Prog.defined_pure _
  | some recv_client =>
      refine defined_ask_bind rfl fun now => defined_ask_bind rfl fun client => ?_
      have hlen := length_snprintf_le 1048 (onlinePayload send_uid msg now)
      exact (defined_handleSend _ _ _ (by omega)).bind fun _ _ _ => Prog.defined_pure _

/-- The calls of a delivery; its frame is sent to the client that has been found. -/
theorem callsAt_deliver {Q : List HandlerEvent → HandlerEvent → Prop} {send_uid recv_uid : Int64}
    {msg : Bytes} (hfind : ∀ found, Q [] ⟨.findClientByUid recv_uid, found⟩)
    (hquiet : ∀ pre e, e.1.isOutside = true → e.1.isSend = false → Q pre e)
    (hread : ∀ recv_client now client,
      Q [⟨.findClientByUid recv_uid, some recv_client⟩, ⟨.time, now⟩]
        ⟨.readClient recv_client, client⟩)
    (hsend : ∀ recv_client now client bytes code,
      frame HANDLE_SEND_MESSAGE (SpiderClient.gameid client)
        (snprintf 1048 (onlinePayload send_uid msg now)) = some bytes →
      Q [⟨.findClientByUid recv_uid, some recv_client⟩, ⟨.time, now⟩,
        ⟨.readClient recv_client, client⟩] ⟨.send client.fd bytes, code⟩) :
    (deliver send_uid recv_uid msg).CallsAt Q := by
  refine callsAt_ask_bind hfind fun found => ?_
  cases found with
  | none =>
      refine callsAt_ask_bind (fun _ => hquiet _ _ rfl rfl) fun conn => ?_
      cases conn with
      | none => exact Prog.callsAt_pure _
      | some conn =>
          refine callsAt_ask_bind (fun _ => hquiet _ _ rfl rfl) fun _ => ?_
          exact callsAt_ask_bind (fun _ => hquiet _ _ rfl rfl) fun _ => Prog.callsAt_pure _
  | some recv_client =>
      refine callsAt_ask_bind (fun _ => hquiet _ _ rfl rfl) fun now => ?_
      refine callsAt_ask_bind (hread recv_client now) fun client => ?_
      exact (callsAt_handleSend (hsend recv_client now client)).bind fun _ _ _ =>
        Prog.callsAt_pure _

/-- A message that is stored, or whose query fails. -/
theorem runs_deliver_offline (send_uid recv_uid : Int64) (msg : Bytes) (conn : Addr) (ok : Bool) :
    (deliver send_uid recv_uid msg).Runs
      [⟨.findClientByUid recv_uid, none⟩, ⟨.getConnect, some conn⟩,
      ⟨.querySql conn (snprintf 2048 (insertSql recv_uid send_uid msg)), ok⟩,
      ⟨.destoryConnect conn, ()⟩] _HANDLE_SUCCESSFUL := by
  refine runs_ask_bind.mpr ⟨none, _, rfl, ?_⟩
  refine runs_ask_bind.mpr ⟨some conn, _, rfl, ?_⟩
  refine runs_ask_bind.mpr ⟨ok, _, rfl, ?_⟩
  exact runs_ask_bind.mpr ⟨(), _, rfl, .pure _⟩

/-- A message that is sent. -/
theorem runs_deliver_online {send_uid now : Int64} {msg bytes : Bytes} (recv_uid : Int64)
    (recv_client : Addr) (client : SpiderClient) (code : Int32)
    (hframe : frame HANDLE_SEND_MESSAGE client.gameid
      (snprintf 1048 (onlinePayload send_uid msg now)) = some bytes) :
    (deliver send_uid recv_uid msg).Runs
      [⟨.findClientByUid recv_uid, some recv_client⟩, ⟨.time, now⟩,
      ⟨.readClient recv_client, client⟩, ⟨.send client.fd bytes, code⟩] _HANDLE_SUCCESSFUL := by
  refine runs_ask_bind.mpr ⟨some recv_client, _, rfl, ?_⟩
  refine runs_ask_bind.mpr ⟨now, _, rfl, ?_⟩
  refine runs_ask_bind.mpr ⟨client, _, rfl, ?_⟩
  refine Prog.runs_bind.mpr ⟨[⟨.send client.fd bytes, code⟩], [], (), rfl, ?_, .pure _⟩
  exact runs_handleSend.mpr ⟨bytes, code, hframe, rfl⟩

/-- An accepted message is shorter than 1024 bytes. -/
theorem length_of_accepts {data msg : Bytes} {recv_uid : Int64}
    (h : accepts parse data = some (recv_uid, msg)) : msg.length < 1024 := by
  unfold accepts at h
  split at h
  · rename_i ms _
    have hmem : chatMembers ms = some (some (recv_uid, msg)) := Option.join_eq_some_iff.mp h
    simp only [chatMembers, bind, Option.bind_eq_some_iff] at hmem
    obtain ⟨key, -, raw, -, hmem⟩ := hmem
    split at hmem
    · obtain ⟨key', -, hmem⟩ := Option.bind_eq_some_iff.mp hmem
      split at hmem
      · obtain ⟨raw', -, hmem⟩ := Option.bind_eq_some_iff.mp hmem
        split at hmem
        · split at hmem
          · cases hmem
            assumption
          · cases hmem
        · cases hmem
      · cases hmem
    · cases hmem
  · cases h

theorem modChatSendMessage_of_accepts {send_uid recv_uid : Int64} {data send_data : Bytes}
    (h : accepts parse data = some (recv_uid, send_data)) :
    modChatSendMessage parse send_uid data = deliver send_uid recv_uid send_data := by
  unfold accepts at h
  unfold modChatSendMessage
  split at h
  · rename_i ms _
    have hmem : chatMembers ms = some (some (recv_uid, send_data)) := Option.join_eq_some_iff.mp h
    simp only [hmem]
  · cases h

/-- Nothing is called for a payload that is not accepted. -/
theorem calls_modChatSendMessage_of_not_accepts {P : Call → Prop} {send_uid : Int64} {data : Bytes}
    (h : accepts parse data = none) : (modChatSendMessage parse send_uid data).Calls P := by
  unfold accepts at h
  unfold modChatSendMessage
  split
  · rename_i ms hms
    simp only [hms] at h
    split
    · exact calls_undefined
    · exact Prog.calls_pure _
    · rename_i hmem
      simp [hmem] at h
  · exact Prog.calls_pure _

/-- A message is delivered when it is accepted, and nothing is called otherwise. -/
theorem callsAt_modChatSendMessage {Q : List HandlerEvent → HandlerEvent → Prop} {send_uid : Int64}
    {data : Bytes} (h : ∀ recv_uid msg, accepts parse data = some (recv_uid, msg) →
      (deliver send_uid recv_uid msg).CallsAt Q) :
    (modChatSendMessage parse send_uid data).CallsAt Q := by
  cases hacc : accepts parse data with
  | none =>
      have hnone : (modChatSendMessage parse send_uid data).Calls fun _ => False :=
        calls_modChatSendMessage_of_not_accepts parse hacc
      exact hnone.callsAt fun _ _ hfalse => hfalse.elim
  | some acc =>
      rw [modChatSendMessage_of_accepts parse hacc]
      exact h acc.1 acc.2 hacc

end

/-- The query for the messages stored for a user. -/
def selectSql (uid : Int64) : Bytes :=
  ascii "select id , send_uid , msg , time from " ++ offlineTable uid ++ ascii " where uid=" ++
    fmtLd uid ++ ascii " "

/-- The text sent for a stored message. -/
def offlinePayload (row : MysqlRow) (now : Int64) : Bytes :=
  ascii "\x7b\"send_uid\":" ++ fmtColumn (row.col 1) ++ ascii " , \"msg\":\"" ++
    fmtColumn (row.col 2) ++ ascii "\" , \"time\":" ++ fmtLd now ++ ascii "\x7d"

theorem offlinePayload_ne_zero (row : MysqlRow) (now : Int64) :
    ∀ b ∈ offlinePayload row now, b ≠ 0 := by
  intro b hb
  simp only [offlinePayload, List.mem_append] at hb
  rcases hb with (((((hb | hb) | hb) | hb) | hb) | hb) | hb
  · exact (by decide : ∀ b ∈ ascii "\x7b\"send_uid\":", b ≠ 0) b hb
  · exact ne_zero_of_mem_fmtColumn hb
  · exact (by decide : ∀ b ∈ ascii " , \"msg\":\"", b ≠ 0) b hb
  · exact ne_zero_of_mem_fmtColumn hb
  · exact (by decide : ∀ b ∈ ascii "\" , \"time\":", b ≠ 0) b hb
  · exact ne_zero_of_mem_decInt hb
  · exact (by decide : ∀ b ∈ ascii "\x7d", b ≠ 0) b hb

/-- The statement that deletes a stored message. -/
def deleteSql (uid : Int64) (row : MysqlRow) : Bytes :=
  ascii "delete from " ++ offlineTable uid ++ ascii " where id=" ++ fmtColumn (row.col 0)

/-- The loop of `mod_chat_send_offline_msg` over the rows. -/
def sendRows (fd : Int) (uid : Int64) (gameid : Int32) (conn : Addr) : List MysqlRow → Handler Unit
  | [] => pure ()
  | row :: rows => do
      let now ← ask .time
      handleSend fd HANDLE_SEND_MESSAGE gameid (snprintf 1048 (offlinePayload row now))
      let _ ← ask (.querySql conn (snprintf 256 (deleteSql uid row)))
      sendRows fd uid gameid conn rows

/-- A row is sent and deleted, and the others follow. -/
theorem runs_sendRows_cons {fd : Int} {uid : Int64} {gameid : Int32} {conn : Addr}
    {row : MysqlRow} {rows : List MysqlRow} {es : List HandlerEvent} :
    (sendRows fd uid gameid conn (row :: rows)).Runs es () ↔
      ∃ now bytes code ok es',
        frame HANDLE_SEND_MESSAGE gameid (snprintf 1048 (offlinePayload row now)) = some bytes ∧
        es = ⟨.time, now⟩ :: ⟨.send fd bytes, code⟩ ::
          ⟨.querySql conn (snprintf 256 (deleteSql uid row)), ok⟩ :: es' ∧
        (sendRows fd uid gameid conn rows).Runs es' () := by
  constructor
  · intro h
    obtain ⟨now, es₁, rfl, h₁⟩ := runs_ask_bind.mp h
    obtain ⟨es₂, es₃, u, rfl, hsend, h₃⟩ := Prog.runs_bind.mp h₁
    obtain ⟨bytes, code, hframe, rfl⟩ := runs_handleSend.mp hsend
    obtain ⟨ok, es₄, rfl, h₄⟩ := runs_ask_bind.mp h₃
    exact ⟨now, bytes, code, ok, es₄, hframe, rfl, h₄⟩
  · intro h
    obtain ⟨now, bytes, code, ok, es', hframe, rfl, h'⟩ := h
    refine runs_ask_bind.mpr ⟨now, _, rfl, Prog.runs_bind.mpr ⟨[_], _, (), rfl, ?_, ?_⟩⟩
    · exact runs_handleSend.mpr ⟨bytes, code, hframe, rfl⟩
    · exact runs_ask_bind.mpr ⟨ok, es', rfl, h'⟩

theorem calls_sendRows {P : Call → Prop} {fd : Int} {conn : Addr} (htime : P .time)
    (hsend : ∀ bytes, P (.send fd bytes)) (hquery : ∀ sql, P (.querySql conn sql)) (uid : Int64)
    (gameid : Int32) (rows : List MysqlRow) : (sendRows fd uid gameid conn rows).Calls P := by
  induction rows with
  | nil => exact Prog.calls_pure ()
  | cons row rows ih =>
      refine calls_ask_bind htime fun now => ?_
      refine (calls_handleSend hsend _ _ _).bind fun _ => ?_
      exact calls_ask_bind (hquery _) fun _ => ih

/-- The result of the query, which is `NULL` when the query has failed. -/
def sendResult (fd : Int) (uid : Int64) (gameid : Int32) (conn : Addr) :
    Option (List MysqlRow) → Handler Unit
  | none => pure ()
  | some rows => sendRows fd uid gameid conn rows

/-- `mod_chat_send_offline_msg`. -/
def modChatSendOfflineMsg (fd : Int) (uid : Int64) (gameid : Int32) : Handler Unit := do
  let sql := snprintf 256 (selectSql uid)
  match ← ask .getConnect with
  | none => pure ()
  | some conn => do
      let res ← ask (.getRows conn sql)
      sendResult fd uid gameid conn res
      ask (.destoryConnect conn)

theorem calls_modChatSendOfflineMsg {P : Call → Prop} (h : ∀ c, Call.isOutside c = true → P c)
    (fd : Int) (uid : Int64) (gameid : Int32) : (modChatSendOfflineMsg fd uid gameid).Calls P := by
  refine calls_ask_bind (h _ rfl) fun conn => ?_
  cases conn with
  | none => exact Prog.calls_pure _
  | some conn =>
      refine calls_ask_bind (h _ rfl) fun res => Prog.Calls.bind ?_ fun _ => calls_ask (h _ rfl)
      cases res with
      | none => exact Prog.calls_pure _
      | some rows => exact calls_sendRows (h _ rfl) (fun _ => h _ rfl) (fun _ => h _ rfl) _ _ _

theorem defined_sendRows (fd : Int) (uid : Int64) (gameid : Int32) (conn : Addr)
    (rows : List MysqlRow) : (sendRows fd uid gameid conn rows).Defined := by
  induction rows with
  | nil => exact Prog.defined_pure ()
  | cons row rows ih =>
      refine defined_ask_bind rfl fun now => ?_
      have hlen := length_snprintf_le 1048 (offlinePayload row now)
      refine (defined_handleSend _ _ _ (by omega)).bind fun _ _ _ => ?_
      exact defined_ask_bind rfl fun _ => ih

/-- The texts of a flush fit their buffers. -/
theorem defined_modChatSendOfflineMsg (fd : Int) (uid : Int64) (gameid : Int32) :
    (modChatSendOfflineMsg fd uid gameid).Defined := by
  refine defined_ask_bind rfl fun conn => ?_
  cases conn with
  | none => exact Prog.defined_pure _
  | some conn =>
      refine defined_ask_bind rfl fun res => Prog.Defined.bind ?_ fun _ _ _ => defined_ask rfl
      cases res with
      | none => exact Prog.defined_pure _
      | some rows => exact defined_sendRows _ _ _ _ _

/-- Without a connection nothing is sent. -/
theorem runs_modChatSendOfflineMsg {fd : Int} {uid : Int64} {gameid : Int32}
    {es : List HandlerEvent} {u : Unit} (h : (modChatSendOfflineMsg fd uid gameid).Runs es u) :
    es = [⟨.getConnect, none⟩] ∨ ∃ conn res es', es = ⟨.getConnect, some conn⟩ ::
      ⟨.getRows conn (snprintf 256 (selectSql uid)), res⟩ :: (es' ++ [⟨.destoryConnect conn, ()⟩]) ∧
      (sendResult fd uid gameid conn res).Runs es' () := by
  obtain ⟨conn, es₁, rfl, h₁⟩ := runs_ask_bind.mp h
  cases conn with
  | none =>
      obtain ⟨rfl, -⟩ := Prog.runs_pure.mp h₁
      exact .inl rfl
  | some conn =>
      obtain ⟨res, es₂, rfl, h₂⟩ := runs_ask_bind.mp h₁
      obtain ⟨es₃, es₄, u', rfl, h₃, h₄⟩ := Prog.runs_bind.mp h₂
      obtain rfl := Prog.runs_op.mp h₄
      exact .inr ⟨conn, res, es₃, rfl, h₃⟩

end SpiderChat
