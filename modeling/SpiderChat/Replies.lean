import SpiderChat.ChatPayload
import SpiderChat.ClientHead
import SpiderChat.Handle

/-!
# SpiderChat.Replies

**What the clients are sent.** `Message` lists what a frame of the server can be for,
with the text that is meant, and `Due` says which message is due when a handler calls
`send`, from the calls before. `frame_acceptable_iff` is then about every frame of every
handler: whether the client that it is for takes it depends on the gameid that the
server has stored, on the length of the text and on its zero bytes, and the reply to a
message that was sent is never whole.
-/

namespace SpiderChat

open Lib Handler

/-- What a frame is for. -/
inductive Message
  | login (retcode : Int32)
  | heartbeat
  | online (send_uid : Int64) (msg : Bytes) (now : Int64)
  | offline (row : MysqlRow) (now : Int64)
  | sent (retcode : Int32)
  | friends (retcode : Int32) (friend : Bytes)
  deriving DecidableEq

/-- The whole text of a column. -/
def columnText : Option Column → Bytes
  | none => ascii "(null)"
  | some c => c.text

namespace Message

/-- The text that is meant, without limits and with the uid in full. -/
def text : Message → Bytes
  | .login retcode => retPayload retcode
  | .heartbeat => ascii "\x7b\"ret\":1\x7d"
  | .online send_uid msg now =>
      ascii "\x7b\"send_uid\":" ++ fmtLd send_uid ++ ascii " , \"msg\":\"" ++ msg ++
        ascii "\" ,\"time\":" ++ fmtLd now ++ ascii "\x7d"
  | .offline row now =>
      ascii "\x7b\"send_uid\":" ++ columnText (row.col 1) ++ ascii " , \"msg\":\"" ++
        columnText (row.col 2) ++ ascii "\" , \"time\":" ++ fmtLd now ++ ascii "\x7d"
  | .sent retcode => retPayload retcode
  | .friends retcode friend =>
      if retcode ≠ _HANDLE_SUCCESSFUL then retPayload retcode
      else
        ascii "\x7b\"ret\":" ++ decInt retcode.toInt ++ ascii ",\"list\":" ++ cstr friend ++
          ascii "\x7d"

/-- The frame has the whole text, when that is short enough for the client. The reply to
a message is cut to its first characters. -/
def Complete : Message → Prop
  | .online send_uid msg _ => Fits32 send_uid ∧ ∀ b ∈ msg, b ≠ 0
  | .offline row _ =>
      (∀ b ∈ columnText (row.col 1), b ≠ 0) ∧ ∀ b ∈ columnText (row.col 2), b ≠ 0
  | .sent _ => False
  | .friends retcode friend => (text (.friends retcode friend)).length ≤ 599
  | _ => True

instance : ∀ m : Message, Decidable m.Complete
  | .login _ | .heartbeat => .isTrue trivial
  | .sent _ => .isFalse id
  | .online _ _ _ | .offline _ _ => inferInstanceAs (Decidable (_ ∧ _))
  | .friends _ _ => inferInstanceAs (Decidable (_ ≤ _))

end Message

/-- What a handler passes to `handle_send` for a message. -/
inductive Passed : Message → Bytes → Prop
  | login (retcode : Int32) : Passed (.login retcode) (snprintf 100 (retPayload retcode))
  | heartbeat : Passed .heartbeat (ascii "\x7b\"ret\":1\x7d")
  | online (send_uid : Int64) (msg : Bytes) (now : Int64) :
      Passed (.online send_uid msg now) (snprintf 1048 (onlinePayload send_uid msg now))
  | offline (row : MysqlRow) (now : Int64) :
      Passed (.offline row now) (snprintf 1048 (offlinePayload row now))
  | sent (retcode : Int32) (ret : Bytes)
      (h : strncpy (List.replicate 100 0) 0 (ascii "\x7b\"ret\":%d\x7d")
        retcode.toInt64.toUInt64.toNat = some ret) : Passed (.sent retcode) ret
  | friends (retcode : Int32) (friend : Bytes) :
      Passed (.friends retcode friend) (snprintf 600 (Message.text (.friends retcode friend)))

section

variable (parse : Bytes → Option Json) (task : Task)

/-- The message that is due after the calls `pre` of the handler of a task, and the client
that it is for. -/
inductive Due (pre : List HandlerEvent) : SpiderClient → Message → Prop
  | login {es : List HandlerEvent} {retcode : Int32} {client : SpiderClient}
      (hcmd : task.cmd = HANDLE_LOGIN)
      (hlogin : (modLogin parse task.client task.data).Runs es retcode)
      (hpre : pre = es ++ [⟨.readClient task.client, client⟩]) : Due pre client (.login retcode)
  | offline {es es' : List HandlerEvent} {retcode code : Int32} {client₀ client : SpiderClient}
      {bytes sql : Bytes} {conn : Addr} {rows rows' : List MysqlRow} {row : MysqlRow}
      {now : Int64} (hcmd : task.cmd = HANDLE_LOGIN)
      (hlogin : (modLogin parse task.client task.data).Runs es retcode)
      (hrows : (sendRows task.fd client.uid client.gameid conn rows).Runs es' ())
      (hpre : pre = es ++ ⟨.readClient task.client, client₀⟩ :: ⟨.send task.fd bytes, code⟩ ::
        ⟨.readClient task.client, client⟩ :: ⟨.getConnect, some conn⟩ ::
        ⟨.getRows conn sql, some (rows ++ row :: rows')⟩ :: (es' ++ [⟨.time, now⟩])) :
      Due pre client (.offline row now)
  | heartbeat {now : Int64} {client : SpiderClient} (hcmd : task.cmd = HANDLE_HEARTBEAT)
      (hpre : pre = [⟨.time, now⟩, ⟨.setKeepalive task.client now.toInt32, ()⟩,
        ⟨.readClient task.client, client⟩]) : Due pre client .heartbeat
  | online {sender client : SpiderClient} {recv_uid now : Int64} {recv_client : Addr}
      {msg : Bytes} (hcmd : task.cmd = HANDLE_SEND_MESSAGE)
      (hacc : accepts parse task.data = some (recv_uid, msg))
      (hpre : pre = [⟨.readClient task.client, sender⟩,
        ⟨.findClientByUid recv_uid, some recv_client⟩, ⟨.time, now⟩,
        ⟨.readClient recv_client, client⟩]) : Due pre client (.online sender.uid msg now)
  | sent {es : List HandlerEvent} {sender client : SpiderClient} {retcode : Int32}
      (hcmd : task.cmd = HANDLE_SEND_MESSAGE)
      (hsend : (modChatSendMessage parse sender.uid task.data).Runs es retcode)
      (hpre : pre = ⟨.readClient task.client, sender⟩ ::
        (es ++ [⟨.readClient task.client, client⟩])) : Due pre client (.sent retcode)
  | friends {es : List HandlerEvent} {buf : { b : Bytes // b.length = 512 }}
      {asker client : SpiderClient} {retcode : Int32} {friend : Bytes}
      (hcmd : task.cmd = HANDLE_GET_FRIEND_LIST)
      (hlist : (modFriendGetFriendList asker.uid buf.1).Runs es (retcode, friend))
      (hpre : pre = ⟨.stackArray 512, buf⟩ :: ⟨.readClient task.client, asker⟩ ::
        (es ++ [⟨.readClient task.client, client⟩])) : Due pre client (.friends retcode friend)

end

/-! ### The texts -/

theorem ne_zero_of_mem_retPayload {retcode : Int32} {b : UInt8} (h : b ∈ retPayload retcode) :
    b ≠ 0 := by
  simp only [retPayload, List.mem_append] at h
  rcases h with (h | h) | h
  · exact (by decide : ∀ b ∈ ascii "\x7b\"ret\":", b ≠ 0) b h
  · exact ne_zero_of_mem_decInt h
  · exact (by decide : ∀ b ∈ ascii "\x7d", b ≠ 0) b h

theorem length_retPayload_le (retcode : Int32) : (retPayload retcode).length ≤ 19 := by
  have h1 := retcode.toInt_lt
  have h2 := retcode.le_toInt
  have hlen : (decInt retcode.toInt).length ≤ 11 :=
    length_decInt_le (k := 10) (by decide) (by omega)
  simp only [retPayload, List.length_append]
  show 7 + (decInt retcode.toInt).length + 1 ≤ 19
  omega

/-- What an array of the given size has of a text without zero bytes. -/
theorem cstr_snprintf_eq_iff {size : Nat} {t text : Bytes} (hzero : ∀ b ∈ t, b ≠ 0)
    (hlen : text.length + 1 < size) : cstr (snprintf size t) = text ↔ t = text := by
  have hcstr : cstr (snprintf size t) = t.take (size - 1) :=
    cstr_of_forall fun b hb => hzero b (List.mem_of_mem_take hb)
  rw [hcstr]
  constructor
  · intro h
    have hle := congrArg List.length h
    rw [List.length_take] at hle
    rw [← h, List.take_of_length_le (by omega)]
  · intro h
    rw [h, List.take_of_length_le (by omega)]

/-- The text for a recipient who is online, as it is sent and as it is meant. -/
theorem onlinePayload_eq_text_iff (send_uid : Int64) (msg : Bytes) (now : Int64) :
    onlinePayload send_uid msg now = Message.text (.online send_uid msg now) ↔
      Message.Complete (.online send_uid msg now) := by
  constructor
  · intro h
    have hzero : ∀ b ∈ msg, b ≠ 0 := by
      intro b hb
      refine onlinePayload_ne_zero send_uid msg now b (h ▸ ?_)
      simp [Message.text, hb]
    rw [onlinePayload, cstr_of_forall hzero] at h
    simp only [Message.text, List.append_assoc, List.append_cancel_left_eq,
      List.append_cancel_right_eq] at h
    exact ⟨decInt_inj.mp h, hzero⟩
  · intro h
    obtain ⟨hfits, hzero⟩ := h
    have huid : fmtD send_uid = fmtLd send_uid := decInt_inj.mpr hfits
    rw [onlinePayload, cstr_of_forall hzero, huid]
    rfl

theorem fmtColumn_eq (c : Option Column) : fmtColumn c = cstr (columnText c) := by
  cases c with
  | none => decide
  | some c => rfl

/-- The text for a stored message, as it is sent and as it is meant. -/
theorem offlinePayload_eq_text_iff (row : MysqlRow) (now : Int64) :
    offlinePayload row now = Message.text (.offline row now) ↔
      Message.Complete (.offline row now) := by
  constructor
  · intro h
    have hzero : ∀ b ∈ Message.text (.offline row now), b ≠ 0 :=
      h ▸ offlinePayload_ne_zero row now
    exact ⟨fun b hb => hzero b (by simp [Message.text, hb]),
      fun b hb => hzero b (by simp [Message.text, hb])⟩
  · intro h
    obtain ⟨huid, hmsg⟩ := h
    rw [offlinePayload, fmtColumn_eq, fmtColumn_eq, cstr_of_forall huid, cstr_of_forall hmsg]
    rfl

/-- What `strncpy` leaves of the format of a reply ends in front of the `%` or has it. -/
theorem getElem?_cstr_strncpy : ∀ n < 101, ∀ ret ∈ strncpy (List.replicate 100 0) 0
    (ascii "\x7b\"ret\":%d\x7d") n, (cstr ret)[7]? = none ∨ (cstr ret)[7]? = some 37 := by
  decide +kernel

/-- The reply to a message is never the text that is meant. -/
theorem cstr_ne_retPayload {retcode : Int32} {ret : Bytes} {n : Nat}
    (h : strncpy (List.replicate 100 0) 0 (ascii "\x7b\"ret\":%d\x7d") n = some ret) :
    cstr ret ≠ retPayload retcode := by
  have hn : n < 101 := by
    have hle := le_of_strncpy h
    rw [List.length_replicate] at hle
    omega
  intro heq
  -- in the reply, the sign or the first digit of the code stands there
  obtain ⟨d, ds, hd⟩ := List.exists_cons_of_ne_nil (l := decInt retcode.toInt) (by
    rcases decInt_cases retcode.toInt with ⟨-, h⟩ | ⟨-, h⟩
    · simp [h]
    · rw [h]
      exact decNat_ne_nil _)
  have hchar : (retPayload retcode)[7]? = some d := by
    rw [retPayload, hd]
    rfl
  have hd' : d ≠ 37 := by
    intro h37
    subst h37
    rcases mem_decInt (hd ▸ List.mem_cons_self : (37 : UInt8) ∈ decInt retcode.toInt) with h | h
    · cases h
    · cases h
  rcases getElem?_cstr_strncpy n hn ret h with h7 | h7
  · rw [heq, hchar] at h7
    cases h7
  · rw [heq, hchar] at h7
    exact hd' (Option.some.inj h7)

theorem Message.ne_zero_of_mem_friends {retcode : Int32} {friend : Bytes} :
    ∀ b ∈ Message.text (.friends retcode friend), b ≠ 0 := by
  intro b hb
  simp only [Message.text] at hb
  split at hb
  · exact ne_zero_of_mem_retPayload hb
  · simp only [List.mem_append] at hb
    rcases hb with (((hb | hb) | hb) | hb) | hb
    · exact (by decide : ∀ b ∈ ascii "\x7b\"ret\":", b ≠ 0) b hb
    · exact ne_zero_of_mem_decInt hb
    · exact (by decide : ∀ b ∈ ascii ",\"list\":", b ≠ 0) b hb
    · exact ne_zero_of_mem_cstr hb
    · exact (by decide : ∀ b ∈ ascii "\x7d", b ≠ 0) b hb

/-- **What is passed to `handle_send`** is the text that is meant exactly when the message
is complete. -/
theorem Passed.cstr_eq_iff {m : Message} {ret : Bytes} (h : Passed m ret)
    (hlen : m.text.length ≤ 1024) : cstr ret = m.text ↔ m.Complete := by
  cases h with
  | login retcode =>
      have hshort := length_retPayload_le retcode
      refine iff_of_true ?_ trivial
      rw [Message.text, cstr_snprintf_eq_iff (fun b hb => ne_zero_of_mem_retPayload hb) (by omega)]
  | heartbeat => exact iff_of_true (by decide) trivial
  | online send_uid msg now =>
      rw [cstr_snprintf_eq_iff (onlinePayload_ne_zero send_uid msg now) (by omega)]
      exact onlinePayload_eq_text_iff send_uid msg now
  | offline row now =>
      rw [cstr_snprintf_eq_iff (offlinePayload_ne_zero row now) (by omega)]
      exact offlinePayload_eq_text_iff row now
  | sent retcode ret h => exact iff_of_false (cstr_ne_retPayload h) id
  | friends retcode friend =>
      have hcstr : cstr (snprintf 600 (Message.text (.friends retcode friend))) =
          (Message.text (.friends retcode friend)).take 599 :=
        cstr_of_forall fun b hb => Message.ne_zero_of_mem_friends b (List.mem_of_mem_take hb)
      rw [hcstr, List.take_eq_self_iff]
      rfl

theorem Message.text_ne_nil (m : Message) : m.text ≠ [] := by
  cases m with
  | friends retcode friend =>
      simp only [Message.text]
      split <;> simp [retPayload, ascii]
  | _ => simp [Message.text, retPayload, ascii]

/-! ### What is due at a call of `send` -/

/-- Every row is sent when the ones before it have been. -/
theorem callsAt_sendRows {Q : List HandlerEvent → HandlerEvent → Prop} {fd : Int} {uid : Int64}
    {gameid : Int32} {conn : Addr} (all : List MysqlRow)
    (hquiet : ∀ pre e, e.1.isSend = false → Q pre e)
    (hsend : ∀ rows row rows' es now bytes code, all = rows ++ row :: rows' →
      (sendRows fd uid gameid conn rows).Runs es () →
      frame HANDLE_SEND_MESSAGE gameid (snprintf 1048 (offlinePayload row now)) = some bytes →
      Q (es ++ [⟨.time, now⟩]) ⟨.send fd bytes, code⟩) :
    (sendRows fd uid gameid conn all).CallsAt Q := by
  induction all generalizing Q with
  | nil => exact Prog.callsAt_pure _
  | cons row rows ih =>
      refine callsAt_ask_bind (fun now => hquiet _ _ rfl) fun now => ?_
      refine (callsAt_handleSend fun bytes code hframe => ?_).bind fun es₁ _ hes₁ => ?_
      · exact hsend [] row rows [] now bytes code rfl (.pure _) hframe
      · refine callsAt_ask_bind (fun ok => hquiet _ _ rfl) fun ok => ?_
        refine ih (fun pre e he => hquiet _ e he) ?_
        intro rows₁ row' rows' es now' bytes code hall hrun hframe
        have hrun' : (sendRows fd uid gameid conn (row :: rows₁)).Runs
            (⟨.time, now⟩ :: (es₁ ++ ⟨.querySql conn (snprintf 256 (deleteSql uid row)), ok⟩ :: es))
            () := by
          refine runs_ask_bind.mpr ⟨now, _, rfl, Prog.runs_bind.mpr ⟨es₁, _, (), rfl, hes₁, ?_⟩⟩
          exact runs_ask_bind.mpr ⟨ok, es, rfl, hrun⟩
        have hlast := hsend (row :: rows₁) row' rows' _ now' bytes code (by rw [hall]; rfl) hrun'
          hframe
        simpa using hlast

section

variable (parse : Bytes → Option Json) (task : Task)

/-- A call of `send` has the frame of the message that is due. -/
def Sending (pre : List HandlerEvent) (e : HandlerEvent) : Prop :=
  ∀ fd bytes code, e = ⟨.send fd bytes, code⟩ → ∃ client m cmd ret,
    Due parse task pre client m ∧ Passed m ret ∧ frame cmd client.gameid ret = some bytes

variable {parse task}

theorem sending_quiet (pre : List HandlerEvent) (e : HandlerEvent) (he : e.1.isSend = false) :
    Sending parse task pre e := by
  intro fd bytes code heq
  subst heq
  cases he

theorem sending_of_due {pre : List HandlerEvent} {client : SpiderClient} {m : Message}
    {fd : Int} {cmd : Int32} {ret bytes : Bytes} {code : Int32} (hdue : Due parse task pre client m)
    (hpassed : Passed m ret) (hframe : frame cmd client.gameid ret = some bytes) :
    Sending parse task pre ⟨.send fd bytes, code⟩ := by
  intro fd' bytes' code' heq
  cases heq
  exact ⟨client, m, cmd, ret, hdue, hpassed, hframe⟩

theorem callsAt_handleLogin (hcmd : task.cmd = HANDLE_LOGIN) :
    (handleLogin parse task).CallsAt (Sending parse task) := by
  have hquiet : (modLogin parse task.client task.data).Calls (·.isSend = false) :=
    calls_modLogin (fun _ => rfl) (fun _ _ _ => rfl) parse task.data
  refine (hquiet.callsAt sending_quiet).bind fun es retcode hlogin => ?_
  refine callsAt_ask_bind (fun _ => sending_quiet _ _ rfl) fun client₀ => ?_
  refine (callsAt_handleSend fun bytes code hframe => ?_).bind fun es₁ _ hes₁ => ?_
  · exact sending_of_due (.login hcmd hlogin rfl) (.login retcode) hframe
  obtain ⟨bytes, code, -, rfl⟩ := runs_handleSend.mp hes₁
  split
  · refine callsAt_ask_bind (fun _ => sending_quiet _ _ rfl) fun client => ?_
    refine callsAt_ask_bind (fun _ => sending_quiet _ _ rfl) fun conn => ?_
    cases conn with
    | none => exact Prog.callsAt_pure _
    | some conn =>
        refine callsAt_ask_bind (fun _ => sending_quiet _ _ rfl) fun res => ?_
        refine Prog.CallsAt.bind ?_ fun es₂ _ _ =>
          Prog.Calls.callsAt (P := (·.isSend = false)) (calls_ask rfl) fun _ e he =>
            sending_quiet _ e he
        cases res with
        | none => exact Prog.callsAt_pure _
        | some all =>
            refine callsAt_sendRows all (fun _ e he => sending_quiet _ e he) ?_
            intro rows row rows' es' now bytes' code' hall hrows hframe
            subst hall
            exact sending_of_due (.offline hcmd hlogin hrows rfl) (.offline row now) hframe
  · exact Prog.callsAt_pure _

theorem callsAt_handleHeartbeat (hcmd : task.cmd = HANDLE_HEARTBEAT) :
    (handleHeartbeat task).CallsAt (Sending parse task) := by
  unfold handleHeartbeat
  split
  · refine callsAt_ask_bind (fun _ => sending_quiet _ _ rfl) fun now => ?_
    refine callsAt_ask_bind (fun _ => sending_quiet _ _ rfl) fun _ => ?_
    refine callsAt_ask_bind (fun _ => sending_quiet _ _ rfl) fun client => ?_
    exact callsAt_handleSend fun bytes code hframe =>
      sending_of_due (.heartbeat hcmd rfl) .heartbeat hframe
  · exact Prog.Calls.callsAt (P := (·.isSend = false))
      (calls_ask_bind rfl fun _ => calls_ask rfl) sending_quiet

theorem callsAt_handleSendMessage (hcmd : task.cmd = HANDLE_SEND_MESSAGE) :
    (handleSendMessage parse task).CallsAt (Sending parse task) := by
  refine callsAt_ask_bind (fun _ => sending_quiet _ _ rfl) fun sender => ?_
  refine Prog.CallsAt.bind ?_ fun es retcode hsend => ?_
  · refine callsAt_modChatSendMessage parse fun recv_uid msg hacc => ?_
    refine callsAt_deliver (fun _ => sending_quiet _ _ rfl) (fun _ e _ he => sending_quiet _ e he)
      (fun _ _ _ => sending_quiet _ _ rfl) fun recv_client now client bytes code hframe => ?_
    exact sending_of_due (.online hcmd hacc rfl) (.online sender.uid msg now) hframe
  · cases hret : strncpy (List.replicate 100 0) 0 (ascii "\x7b\"ret\":%d\x7d")
        retcode.toInt64.toUInt64.toNat with
    | none => exact fun _ _ h => absurd h runs_undefined_bind
    | some ret =>
        refine callsAt_ask_bind (fun _ => sending_quiet _ _ rfl) fun client => ?_
        exact callsAt_handleSend fun bytes code hframe =>
          sending_of_due (.sent hcmd hsend rfl) (.sent retcode ret hret) hframe

theorem callsAt_handleGetFriendList (hcmd : task.cmd = HANDLE_GET_FRIEND_LIST) :
    (handleGetFriendList task).CallsAt (Sending parse task) := by
  refine callsAt_ask_bind (fun _ => sending_quiet _ _ rfl) fun buf => ?_
  refine callsAt_ask_bind (fun _ => sending_quiet _ _ rfl) fun asker => ?_
  refine Prog.CallsAt.bind ?_ fun es list hlist => ?_
  · have hquiet : (modFriendGetFriendList asker.uid buf.1).Calls (·.isSend = false) :=
      calls_modFriendGetFriendList (P := (·.isSend = false)) rfl (fun _ _ => rfl) _ _
    exact hquiet.callsAt fun _ e he => sending_quiet _ e he
  · obtain ⟨retcode, friend⟩ := list
    refine callsAt_ask_bind (fun _ => sending_quiet _ _ rfl) fun client => ?_
    have hpassed := Passed.friends retcode friend
    simp only [Message.text, apply_ite (snprintf 600)] at hpassed
    exact callsAt_handleSend fun bytes code hframe =>
      sending_of_due (.friends hcmd hlist rfl) hpassed hframe

/-- **Every call of `send`** has the frame of the message that is due. -/
theorem callsAt_handleData (parse : Bytes → Option Json) (task : Task) :
    (handleData parse task).CallsAt (Sending parse task) := by
  have hbind : ∀ (p : Handler Unit) (n : Int32), p.CallsAt (Sending parse task) →
      (p >>= fun _ => pure n).CallsAt (Sending parse task) :=
    fun p n hp => hp.bind fun _ _ _ => Prog.callsAt_pure _
  unfold handleData
  split
  · exact hbind _ _ (callsAt_handleLogin ‹_›)
  split
  · exact hbind _ _ (Prog.Calls.callsAt (P := (·.isSend = false))
      (calls_ask_bind rfl fun _ => calls_ask rfl) sending_quiet)
  split
  · exact hbind _ _ (callsAt_handleHeartbeat ‹_›)
  split
  · exact hbind _ _ (callsAt_handleSendMessage ‹_›)
  split
  · exact hbind _ _ (callsAt_handleGetFriendList ‹_›)
  · exact Prog.callsAt_pure _

/-! ### One message is due -/

/-- A call for each of the three steps of a row. -/
theorem length_runs_sendRows {fd : Int} {uid : Int64} {gameid : Int32} {conn : Addr}
    {rows : List MysqlRow} {es : List HandlerEvent}
    (h : (sendRows fd uid gameid conn rows).Runs es ()) : es.length = 3 * rows.length := by
  induction rows generalizing es with
  | nil =>
      obtain ⟨rfl, -⟩ := Prog.runs_pure.mp h
      rfl
  | cons row rows ih =>
      obtain ⟨now, bytes, code, ok, es', -, rfl, h'⟩ := runs_sendRows_cons.mp h
      simp only [List.length_cons, ih h']
      omega

/-- The command of the requests that a message is sent for. -/
def Message.request : Message → Int32
  | .login _ => HANDLE_LOGIN
  | .offline _ _ => HANDLE_LOGIN
  | .heartbeat => HANDLE_HEARTBEAT
  | .online _ _ _ => HANDLE_SEND_MESSAGE
  | .sent _ => HANDLE_SEND_MESSAGE
  | .friends _ _ => HANDLE_GET_FRIEND_LIST

theorem Due.request_eq {pre : List HandlerEvent} {client : SpiderClient} {m : Message}
    (h : Due parse task pre client m) : m.request = task.cmd := by
  cases h with
  | login hcmd | offline hcmd | heartbeat hcmd | online hcmd | sent hcmd | friends hcmd =>
      exact hcmd.symm

/-- A message is not delivered when its recipient is about to be sent it. -/
theorem not_sent {data msg : Bytes} {recv_uid now : Int64} {recv_client : Addr}
    {sender sender' client client' : SpiderClient} {es : List HandlerEvent} {retcode : Int32}
    {a : Addr} (hacc : accepts parse data = some (recv_uid, msg))
    (hsend : (modChatSendMessage parse sender'.uid data).Runs es retcode) :
    ([⟨.readClient a, sender⟩, ⟨.findClientByUid recv_uid, some recv_client⟩, ⟨.time, now⟩,
      ⟨.readClient recv_client, client⟩] : List HandlerEvent) ≠
      ⟨.readClient a, sender'⟩ :: (es ++ [⟨.readClient a, client'⟩]) := by
  rw [modChatSendMessage_of_accepts parse hacc] at hsend
  intro heq
  obtain ⟨-, hrest⟩ := List.cons.inj heq
  rcases runs_deliver hsend with ⟨rfl, -⟩ | ⟨conn, ok, rfl, -⟩ |
    ⟨recv_client', now', client₁, bytes, code, -, rfl, -⟩
  · simp at hrest
  · simp at hrest
  · simp at hrest

/-- At most one message is due. -/
theorem Due.unique {pre : List HandlerEvent} {client client' : SpiderClient} {m m' : Message}
    (h : Due parse task pre client m) (h' : Due parse task pre client' m') :
    client' = client ∧ m' = m := by
  have hrequest : m.request = m'.request := h.request_eq.trans h'.request_eq.symm
  cases h with
  | login hcmd hlogin hpre =>
      cases h' with
      | login hcmd' hlogin' hpre' =>
          obtain ⟨rfl, rfl, hrest⟩ := hlogin.append_inj hlogin' (hpre.symm.trans hpre')
          cases hrest
          exact ⟨rfl, rfl⟩
      | offline hcmd' hlogin' hrows' hpre' =>
          obtain ⟨-, -, hrest⟩ := hlogin.append_inj hlogin' (hpre.symm.trans hpre')
          simp at hrest
      | _ => exact absurd hrequest (by simp only [Message.request]; decide)
  | offline hcmd hlogin hrows hpre =>
      cases h' with
      | login hcmd' hlogin' hpre' =>
          obtain ⟨-, -, hrest⟩ := hlogin.append_inj hlogin' (hpre.symm.trans hpre')
          simp at hrest
      | offline hcmd' hlogin' hrows' hpre' =>
          obtain ⟨rfl, rfl, hrest⟩ := hlogin.append_inj hlogin' (hpre.symm.trans hpre')
          simp only [List.cons.injEq] at hrest
          obtain ⟨-, -, hclient, -, hget, hlast⟩ := hrest
          cases hclient
          obtain ⟨hes, htime⟩ := List.append_inj' hlast rfl
          cases htime
          -- as many rows have been sent
          have hlen := length_runs_sendRows hrows
          have hlen' := length_runs_sendRows hrows'
          rw [hes] at hlen
          have hall : _ ++ _ :: _ = _ ++ _ :: _ := Option.some.inj (eq_of_heq (Sigma.mk.inj hget).2)
          obtain ⟨-, hrow⟩ := List.append_inj hall (by omega)
          cases hrow
          exact ⟨rfl, rfl⟩
      | _ => exact absurd hrequest (by simp only [Message.request]; decide)
  | heartbeat hcmd hpre =>
      cases h' with
      | heartbeat hcmd' hpre' =>
          cases hpre.symm.trans hpre'
          exact ⟨rfl, rfl⟩
      | _ => exact absurd hrequest (by simp only [Message.request]; decide)
  | online hcmd hacc hpre =>
      cases h' with
      | online hcmd' hacc' hpre' =>
          cases hpre.symm.trans hpre'
          cases hacc.symm.trans hacc'
          exact ⟨rfl, rfl⟩
      | sent hcmd' hsend' hpre' => exact absurd (hpre.symm.trans hpre') (not_sent hacc hsend')
      | _ => exact absurd hrequest (by simp only [Message.request]; decide)
  | sent hcmd hsend hpre =>
      cases h' with
      | online hcmd' hacc' hpre' => exact absurd (hpre'.symm.trans hpre) (not_sent hacc' hsend)
      | sent hcmd' hsend' hpre' =>
          obtain ⟨hsender, hrest⟩ := List.cons.inj (hpre.symm.trans hpre')
          cases hsender
          obtain ⟨rfl, rfl, hrest⟩ := hsend.append_inj hsend' hrest
          cases hrest
          exact ⟨rfl, rfl⟩
      | _ => exact absurd hrequest (by simp only [Message.request]; decide)
  | friends hcmd hlist hpre =>
      cases h' with
      | friends hcmd' hlist' hpre' =>
          have heq := hpre.symm.trans hpre'
          simp only [List.cons.injEq] at heq
          obtain ⟨hbuf, hasker, hrest⟩ := heq
          cases hbuf
          cases hasker
          obtain ⟨rfl, hfriends, hrest⟩ := hlist.append_inj hlist' hrest
          cases hfriends
          cases hrest
          exact ⟨rfl, rfl⟩
      | _ => exact absurd hrequest (by simp only [Message.request]; decide)

end

/-- **Every frame of the server**: at a call of `send` one message is due, and the client
that it is for takes the frame, with the client's gameid and the whole text, if and only if
the gameid stored for the client is from 1000 to 32767, the text has at most 1024 bytes and
the message is complete. -/
theorem frame_acceptable_iff (parse : Bytes → Option Json) (task : Task) (es : List HandlerEvent)
    (ret : Int32) (hrun : (handleData parse task).Runs es ret) (pre post : List HandlerEvent)
    (fd : Int) (bytes : Bytes) (code : Int32) (hes : es = pre ++ ⟨.send fd bytes, code⟩ :: post) :
    ∃ client m, Due parse task pre client m ∧
      (∀ client' m', Due parse task pre client' m' → client' = client ∧ m' = m) ∧
      (Acceptable client.gameid m.text bytes ↔
        GameidFits client.gameid ∧ m.text.length ≤ 1024 ∧ m.Complete) := by
  obtain ⟨client, m, cmd, passed, hdue, hpassed, hframe⟩ :=
    callsAt_handleData parse task es ret hrun pre _ post hes fd bytes code rfl
  refine ⟨client, m, hdue, fun client' m' h' => hdue.unique h', ?_⟩
  rw [acceptable_iff hframe]
  constructor
  · intro h
    obtain ⟨hgameid, hlen, -, htext⟩ := h
    exact ⟨hgameid, hlen, (hpassed.cstr_eq_iff hlen).mp htext⟩
  · intro h
    obtain ⟨hgameid, hlen, hcomplete⟩ := h
    exact ⟨hgameid, hlen, m.text_ne_nil, (hpassed.cstr_eq_iff hlen).mpr hcomplete⟩

/-- A heartbeat of a client. -/
def heartbeatTask : Task := ⟨5, 0, HANDLE_HEARTBEAT, HEARTBEAT_POLICY⟩

/-- The frame of its reply. -/
def heartbeatFrame (gameid : Int32) : Bytes :=
  (frame HANDLE_HEARTBEAT gameid (ascii "\x7b\"ret\":1\x7d")).getD []

/-- The calls of the heartbeat's handler, when the client is as given. -/
def heartbeatCalls (client : SpiderClient) : List HandlerEvent :=
  [⟨.time, 0⟩, ⟨.setKeepalive 0 0, ()⟩, ⟨.readClient 0, client⟩,
    ⟨.send 5 (heartbeatFrame client.gameid), 24⟩]

/-- The reply to a heartbeat after a login with the gameid 1004. -/
theorem frame_acceptable_iff_heartbeat :
    (handleData Json.parse heartbeatTask).Runs (heartbeatCalls ⟨5, 7, 0, 1004, [], 0⟩) 1 ∧
      Acceptable 1004 (ascii "\x7b\"ret\":1\x7d") (heartbeatFrame 1004) := by
  have hrun : (handleData Json.parse heartbeatTask).Runs
      (heartbeatCalls ⟨5, 7, 0, 1004, [], 0⟩) 1 := Prog.replay_eq_some.mp (by decide)
  refine ⟨hrun, ?_⟩
  obtain ⟨client, m, -, hunique, hiff⟩ := frame_acceptable_iff Json.parse heartbeatTask _ _ hrun
    [⟨.time, 0⟩, ⟨.setKeepalive 0 0, ()⟩, ⟨.readClient 0, ⟨5, 7, 0, 1004, [], 0⟩⟩] [] 5
    (heartbeatFrame 1004) 24 rfl
  obtain ⟨rfl, rfl⟩ := hunique _ _ (.heartbeat rfl rfl)
  exact hiff.mpr ⟨by decide, by decide, trivial⟩

/-- The reply to a heartbeat before any login has the gameid 0, and the client does not take
it. -/
theorem heartbeat_reply_rejected :
    (handleData Json.parse heartbeatTask).Runs
        (heartbeatCalls ⟨5, 0, 0, 0, List.replicate 10 0, 0⟩) 1 ∧
      Client.readHead (heartbeatFrame 0) = none :=
  ⟨Prog.replay_eq_some.mp (by decide), by decide⟩

end SpiderChat
