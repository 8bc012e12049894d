import SpiderChat.ModChat

/-!
# SpiderChat.SuccessCode

**What the sender of a message is told.** `mod_chat_send_message` returns
`_ERROR_MOD_CHAT_SEND_MSG_SQL_FAIL` when it gets no connection to the database, and
`_HANDLE_SUCCESSFUL` when the statement that stores the message has failed, or the `send`
to the recipient: both are only logged. `told_iff` is the condition under which a success
code means that the message is safe.
-/

namespace SpiderChat

open Lib Handler

/-- The message was handed to the socket of its recipient, by a `send` that did not fail. -/
def Handed (send_uid recv_uid : Int64) (msg : Bytes) (es : List HandlerEvent) : Prop :=
  ∃ recv_client now client bytes code, ⟨.findClientByUid recv_uid, some recv_client⟩ ∈ es ∧
    ⟨.readClient recv_client, client⟩ ∈ es ∧
    frame HANDLE_SEND_MESSAGE client.gameid (snprintf 1048 (onlinePayload send_uid msg now)) =
      some bytes ∧
    ⟨.send client.fd bytes, code⟩ ∈ es ∧ code ≠ -1

/-- The message was inserted, by a query that succeeded. -/
def Inserted (send_uid recv_uid : Int64) (msg : Bytes) (es : List HandlerEvent) : Prop :=
  ∃ conn, ⟨.querySql conn (snprintf 2048 (insertSql recv_uid send_uid msg)), true⟩ ∈ es

section

variable (parse : Bytes → Option Json) (send_uid : Int64) (data : Bytes)

/-- The message of the payload is safe after these calls. -/
def MessageSafe (es : List HandlerEvent) : Prop :=
  ∃ recv_uid msg, accepts parse data = some (recv_uid, msg) ∧
    (Handed send_uid recv_uid msg es ∨ Inserted send_uid recv_uid msg es)

/-- An execution returns success only for a message that is safe, and an error code for the
others. -/
def Told (es : List HandlerEvent) (x : Option Int32) : Prop :=
  (x = some _HANDLE_SUCCESSFUL → MessageSafe parse send_uid data es) ∧
    (¬ MessageSafe parse send_uid data es → x = some _ERROR_MOD_CHAT_PARSE_DATA_ERROR ∨
      x = some _ERROR_MOD_CHAT_SEND_MSG_SQL_FAIL)

/-- An object has the names and values that are read. -/
def Readable : Prop := ∀ ms, parse (cstr data) = some (.obj ms) → chatMembers ms ≠ none

end

/-- A `send` or a query that fails. -/
def Failed : HandlerEvent → Prop
  | ⟨.send _ _, code⟩ => code = -1
  | ⟨.querySql _ _, ok⟩ => ok = false
  | _ => False

variable {parse : Bytes → Option Json} {send_uid recv_uid : Int64} {data msg : Bytes}
  {es : List HandlerEvent} {x : Option Int32}

theorem readable_of_accepts (h : accepts parse data = some (recv_uid, msg)) :
    Readable parse data := by
  intro ms hms hnone
  rw [accepts, hms] at h
  simp [hnone] at h

theorem messageSafe_iff (h : accepts parse data = some (recv_uid, msg)) :
    MessageSafe parse send_uid data es ↔
      Handed send_uid recv_uid msg es ∨ Inserted send_uid recv_uid msg es := by
  constructor
  · intro hsafe
    obtain ⟨recv_uid', msg', heq, hsafe⟩ := hsafe
    rw [h] at heq
    cases heq
    exact hsafe
  · intro hsafe
    exact ⟨recv_uid, msg, h, hsafe⟩

/-- A message of an accepted payload. -/
theorem told_iff_of_accepts (haccepts : accepts parse data = some (recv_uid, msg))
    (h : (modChatSendMessage parse send_uid data).Ends es x) :
    Told parse send_uid data es x ↔ ∀ e ∈ es, ¬ Failed e := by
  rw [modChatSendMessage_of_accepts parse haccepts] at h
  cases x with
  | none => exact absurd h (defined_deliver send_uid recv_uid msg es)
  | some ret =>
      rw [Prog.ends_some] at h
      rw [Told, messageSafe_iff haccepts]
      rcases runs_deliver h with ⟨rfl, rfl⟩ | ⟨conn, ok, rfl, rfl⟩ |
        ⟨recv_client, now, client, bytes, code, hframe, rfl, rfl⟩
      · -- no connection: the error code
        refine iff_of_true ⟨fun hret => ?_, fun _ => .inr rfl⟩ ?_
        · cases hret
        · simp [Failed]
      · -- stored, or the query fails and is only logged
        have hnot : ¬ Handed send_uid recv_uid msg
            [⟨.findClientByUid recv_uid, none⟩, ⟨.getConnect, some conn⟩,
              ⟨.querySql conn (snprintf 2048 (insertSql recv_uid send_uid msg)), ok⟩,
              ⟨.destoryConnect conn, ()⟩] := by
          intro h
          obtain ⟨recv_client, now, client, bytes, code, hfind, -⟩ := h
          simp at hfind
        rw [or_iff_right hnot]
        have hin : Inserted send_uid recv_uid msg
            [⟨.findClientByUid recv_uid, none⟩, ⟨.getConnect, some conn⟩,
              ⟨.querySql conn (snprintf 2048 (insertSql recv_uid send_uid msg)), ok⟩,
              ⟨.destoryConnect conn, ()⟩] ↔ ok = true := by
          simp [Inserted, eq_comm]
        rw [hin]
        simp [Failed, _HANDLE_SUCCESSFUL, _ERROR_MOD_CHAT_PARSE_DATA_ERROR,
          _ERROR_MOD_CHAT_SEND_MSG_SQL_FAIL]
      · -- sent, or `send` fails and is only logged
        have hnot : ¬ Inserted send_uid recv_uid msg
            [⟨.findClientByUid recv_uid, some recv_client⟩, ⟨.time, now⟩,
              ⟨.readClient recv_client, client⟩, ⟨.send client.fd bytes, code⟩] := by
          simp [Inserted]
        rw [or_iff_left hnot]
        have hhanded : Handed send_uid recv_uid msg
            [⟨.findClientByUid recv_uid, some recv_client⟩, ⟨.time, now⟩,
              ⟨.readClient recv_client, client⟩, ⟨.send client.fd bytes, code⟩] ↔ code ≠ -1 := by
          constructor
          · intro h
            obtain ⟨recv_client', now', client', bytes', code', -, -, -, hsend, hcode⟩ := h
            simp only [List.mem_cons, List.not_mem_nil, or_false] at hsend
            generalize client'.fd = fd at hsend
            rcases hsend with h | h | h | h <;> cases h
            exact hcode
          · intro hcode
            exact ⟨recv_client, now, client, bytes, code, by simp, by simp, hframe, by simp, hcode⟩
        rw [hhanded]
        simp [Failed, _HANDLE_SUCCESSFUL, _ERROR_MOD_CHAT_PARSE_DATA_ERROR,
          _ERROR_MOD_CHAT_SEND_MSG_SQL_FAIL]

/-- **When a success code means that the message is safe**: when the object has the names
and values that are read, and neither a `send` nor a query fails. -/
theorem told_iff (h : (modChatSendMessage parse send_uid data).Ends es x) :
    Told parse send_uid data es x ↔ Readable parse data ∧ ∀ e ∈ es, ¬ Failed e := by
  cases haccepts : accepts parse data with
  | some p =>
      obtain ⟨recv_uid, msg⟩ := p
      rw [told_iff_of_accepts haccepts h]
      exact (and_iff_right (readable_of_accepts haccepts)).symm
  | none =>
      have hnot : ¬ MessageSafe parse send_uid data es := by
        intro hsafe
        obtain ⟨recv_uid, msg, heq, -⟩ := hsafe
        rw [haccepts] at heq
        cases heq
      unfold modChatSendMessage at h
      split at h
      · rename_i ms hms
        split at h
        · -- a name or a value is missing
          rename_i hmem
          obtain ⟨-, rfl⟩ := ends_undefined.mp h
          refine iff_of_false (fun htold => ?_) fun hcond => hcond.1 ms hms hmem
          rcases htold.2 hnot with heq | heq <;> cases heq
        · rename_i hmem
          obtain ⟨rfl, rfl⟩ := Prog.ends_pure.mp h
          refine iff_of_true ⟨fun hret => ?_, fun _ => .inl rfl⟩ ⟨fun ms' hms' => ?_, by simp⟩
          · cases hret
          · rw [hms] at hms'
            cases hms'
            rw [hmem]
            exact Option.some_ne_none _
        · rename_i hmem
          rw [accepts, hms] at haccepts
          simp [hmem] at haccepts
      · rename_i hms
        obtain ⟨rfl, rfl⟩ := Prog.ends_pure.mp h
        refine iff_of_true ⟨fun hret => ?_, fun _ => .inl rfl⟩
          ⟨fun ms' hms' => absurd hms' (hms ms'), by simp⟩
        cases hret

/-- A message to user 2. -/
def greeting : Bytes := ascii "\x7b\"recv_id\":2,\"msg\":\"hi\"\x7d"

/-- The recipient is offline, and the statement that stores the message fails. -/
def lostCalls : List HandlerEvent :=
  [⟨.findClientByUid 2, none⟩, ⟨.getConnect, some 7⟩,
    ⟨.querySql 7 (snprintf 2048 (insertSql 2 1 (ascii "hi"))), false⟩, ⟨.destoryConnect 7, ()⟩]

theorem accepts_greeting : accepts Json.parse greeting = some (2, ascii "hi") := by
  decide +kernel

theorem ends_lostCalls : (modChatSendMessage Json.parse 1 greeting).Ends lostCalls
    (some _HANDLE_SUCCESSFUL) := by
  rw [modChatSendMessage_of_accepts Json.parse accepts_greeting, Prog.ends_some]
  exact runs_deliver_offline 1 2 (ascii "hi") 7 false

/-- The sender is told that the message was sent. -/
theorem success_of_lost_message :
    (modChatSendMessage Json.parse 1 greeting).Ends lostCalls (some _HANDLE_SUCCESSFUL) ∧
      ¬ MessageSafe Json.parse 1 greeting lostCalls := by
  refine ⟨ends_lostCalls, fun hsafe => ?_⟩
  rcases (messageSafe_iff accepts_greeting).mp hsafe with ⟨_, _, _, _, _, hfind, -⟩ | ⟨conn, hquery⟩
  · simp [lostCalls] at hfind
  · simp [lostCalls] at hquery

/-- The same calls, and the message is stored. -/
def storedCalls : List HandlerEvent :=
  [⟨.findClientByUid 2, none⟩, ⟨.getConnect, some 7⟩,
    ⟨.querySql 7 (snprintf 2048 (insertSql 2 1 (ascii "hi"))), true⟩, ⟨.destoryConnect 7, ()⟩]

theorem told_iff_stored : Told Json.parse 1 greeting storedCalls (some _HANDLE_SUCCESSFUL) := by
  have hends : (modChatSendMessage Json.parse 1 greeting).Ends storedCalls
      (some _HANDLE_SUCCESSFUL) := by
    rw [modChatSendMessage_of_accepts Json.parse accepts_greeting, Prog.ends_some]
    exact runs_deliver_offline 1 2 (ascii "hi") 7 true
  exact (told_iff hends).mpr
    ⟨readable_of_accepts accepts_greeting, by simp [storedCalls, Failed]⟩

end SpiderChat
