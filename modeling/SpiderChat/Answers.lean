import SpiderChat.Lib.JsonText
import SpiderChat.Replies

/-!
# SpiderChat.Answers

**The reply to a request**: one frame on the descriptor of the task, with its command and
the return code of the module's function in a JSON object. A login and a heartbeat are
answered like this. The reply to a message never is: `strncpy` puts the first bytes of the
format into the reply. The list of friends is a JSON object only if no friend is found, and
then it depends on what was in the array before.
-/

namespace SpiderChat

open Lib Handler

/-- A JSON object whose member `ret` is the return code. -/
def IsReply (retcode : Int32) (body : Bytes) : Prop :=
  ∃ ms, Json.parse body = some (.obj ms) ∧ ms.lookup (ascii "ret") = some (.int retcode.toInt)

/-- A call of `send` with a whole frame. -/
def SendsFrame (fd : Int) (cmd : Int32) (body : Bytes) (e : HandlerEvent) : Prop :=
  ∃ bytes code head, e = ⟨.send fd bytes, code⟩ ∧ readFrame bytes = some (head, body) ∧
    head.cmd = cmd

/-- A chat message that is pushed to a client. -/
def Pushed (e : HandlerEvent) : Prop := ∃ fd body, SendsFrame fd HANDLE_SEND_MESSAGE body e

/-- The calls of `send`. -/
def sends (es : List HandlerEvent) : List HandlerEvent := es.filter fun e => e.1.isSend

section

variable (parse : Bytes → Option Json) (task : Task)

/-- The module's function that a request is for; the return code of a heartbeat is 1. -/
def moduleFunction : Handler Int32 :=
  if task.cmd = HANDLE_LOGIN then modLogin parse task.client task.data
  else if task.cmd = HANDLE_SEND_MESSAGE then do
    let client ← ask (.readClient task.client)
    modChatSendMessage parse client.uid task.data
  else if task.cmd = HANDLE_GET_FRIEND_LIST then do
    let friend ← ask (.stackArray 512)
    let client ← ask (.readClient task.client)
    let (retcode, _) ← modFriendGetFriendList client.uid friend.1
    pure retcode
  else pure 1

/-- The request is answered in this execution of `handle_data`: it returns, and behind the
module's function one frame is sent that is not a pushed message, with the return code of
that function. -/
def Answers (es : List HandlerEvent) (x : Option Int32) : Prop :=
  x ≠ none ∧ ∃ es₁ es₂ retcode body reply pushed, es = es₁ ++ es₂ ∧
    (moduleFunction parse task).Runs es₁ retcode ∧ sends es₂ = reply :: pushed ∧
    SendsFrame task.fd task.cmd body reply ∧ IsReply retcode body ∧
    ∀ e ∈ sends es₁ ++ pushed, Pushed e

/-- With this text in the array, the list without a friend makes a JSON object. -/
def Completes (text : Bytes) : Prop :=
  ∃ ms, Json.parse (ascii "\x7b\"ret\":1,\"list\":" ++ text ++ ascii "\x7d\x7d") = some (.obj ms)

instance (text : Bytes) : Decidable (Completes text) :=
  match h : Json.parse (ascii "\x7b\"ret\":1,\"list\":" ++ text ++ ascii "\x7d\x7d") with
  | some (.obj ms) => .isTrue ⟨ms, h⟩
  | none | some .null | some (.bool _) | some (.int _) | some (.num _) | some (.str _)
  | some (.arr _) => .isFalse fun hobj => by
      obtain ⟨ms, hparse⟩ := hobj
      cases h.symm.trans hparse

/-- When the query for the friends succeeds, it fetches none, and the array has a text that
leaves room for 210 bytes and makes the reply a JSON object. -/
def ListFits (es : List HandlerEvent) : Prop :=
  ∀ (friend : { b : Bytes // b.length = 512 }) conn sql rows, ⟨.stackArray 512, friend⟩ ∈ es →
    ⟨.getRows conn sql, some rows⟩ ∈ es →
      rows = [] ∧ (cstr friend.1).length ≤ 302 ∧ Completes (cstr friend.1)

/-- The requests that are answered. -/
def Answerable (es : List HandlerEvent) : Prop :=
  task.cmd ≠ HANDLE_SEND_MESSAGE ∧ (task.cmd = HANDLE_GET_FRIEND_LIST → ListFits es)

end

/-! ### The frame of a reply -/

/-- What is passed to `handle_send` is the body of the frame. -/
theorem sendsFrame_of_frame {cmd gameid : Int32} {ret bytes : Bytes}
    (h : frame cmd gameid ret = some bytes) (fd : Int) (code : Int32) :
    SendsFrame fd cmd (cstr ret) ⟨.send fd bytes, code⟩ :=
  ⟨bytes, code, _, rfl, readFrame_frame h, rfl⟩

/-- A frame has one body. -/
theorem SendsFrame.body_eq {fd fd' : Int} {cmd cmd' : Int32} {body body' : Bytes} {e : HandlerEvent}
    (h : SendsFrame fd cmd body e) (h' : SendsFrame fd' cmd' body' e) : body = body' := by
  obtain ⟨bytes, code, head, rfl, hread, -⟩ := h
  obtain ⟨bytes', code', head', heq, hread', -⟩ := h'
  cases heq
  exact (Prod.mk.inj (Option.some.inj (hread.symm.trans hread'))).2

theorem sends_of_quiet {es : List HandlerEvent} (h : ∀ e ∈ es, e.1.isSend = false) :
    sends es = [] :=
  List.filter_eq_nil_iff.mpr fun e he => by simp [h e he]

section

variable {parse : Bytes → Option Json} {task : Task} {es es₁ mid rest : List HandlerEvent}
  {x : Option Int32} {retcode gameid code : Int32} {ret bytes : Bytes}

theorem sends_reply (hmid : ∀ e ∈ mid, e.1.isSend = false) (fd : Int) :
    sends (mid ++ ⟨.send fd bytes, code⟩ :: rest) = ⟨.send fd bytes, code⟩ :: sends rest := by
  rw [sends, List.filter_append, List.filter_cons_of_pos (by rfl)]
  exact congrArg (· ++ _) (sends_of_quiet hmid)

/-- The reply is the first frame that is sent behind the module's function. -/
theorem Answers.isReply (mid : List HandlerEvent)
    (h : Answers parse task (es₁ ++ (mid ++ ⟨.send task.fd bytes, code⟩ :: rest)) x)
    (hmodule : (moduleFunction parse task).Runs es₁ retcode)
    (hmid : ∀ e ∈ mid, e.1.isSend = false)
    (hframe : frame task.cmd gameid ret = some bytes) : IsReply retcode (cstr ret) := by
  obtain ⟨-, es₁', es₂, retcode', body, reply, pushed, hes, hmodule', hes₂, hsent, hbody, -⟩ := h
  obtain ⟨rfl, rfl, rfl⟩ := hmodule.append_inj hmodule' hes
  rw [sends_reply hmid] at hes₂
  obtain ⟨rfl, -⟩ := List.cons.inj hes₂
  exact hsent.body_eq (sendsFrame_of_frame hframe task.fd code) ▸ hbody

theorem answers_of_isReply (es₁ mid : List HandlerEvent) (hx : x ≠ none)
    (hmodule : (moduleFunction parse task).Runs es₁ retcode)
    (hpushed : ∀ e ∈ sends es₁, Pushed e) (hmid : ∀ e ∈ mid, e.1.isSend = false)
    (hframe : frame task.cmd gameid ret = some bytes) (hrest : ∀ e ∈ sends rest, Pushed e)
    (hbody : IsReply retcode (cstr ret)) :
    Answers parse task (es₁ ++ (mid ++ ⟨.send task.fd bytes, code⟩ :: rest)) x := by
  refine ⟨hx, es₁, _, retcode, cstr ret, _, sends rest, rfl, hmodule, sends_reply hmid task.fd,
    sendsFrame_of_frame hframe task.fd code, hbody, ?_⟩
  intro e he
  rcases List.mem_append.mp he with he | he
  · exact hpushed e he
  · exact hrest e he

end

/-! ### The texts -/

/-- The reply with a code alone. -/
theorem isReply_retPayload {size : Nat} (hsize : 21 ≤ size) (retcode : Int32) :
    IsReply retcode (cstr (snprintf size (retPayload retcode))) := by
  have hlen := length_retPayload_le retcode
  have htext : cstr (snprintf size (retPayload retcode)) = retPayload retcode :=
    (cstr_snprintf_eq_iff (fun b => ne_zero_of_mem_retPayload) (by omega)).mpr rfl
  have hmembers : Json.FlatMembers [(ascii "ret", .int retcode.toInt)]
      (34 :: (ascii "ret" ++ 34 :: 58 :: decInt retcode.toInt)) := .last (by decide) (.int _)
  have heq : retPayload retcode =
      123 :: (34 :: (ascii "ret" ++ 34 :: 58 :: decInt retcode.toInt) ++ [125]) := rfl
  rw [htext, heq]
  exact ⟨_, Json.parse_flat hmembers, rfl⟩

/-- What `strncpy` leaves of the format is no JSON text. -/
theorem parse_cstr_strncpy : ∀ n < 101, ∀ ret ∈ strncpy (List.replicate 100 0) 0
    (ascii "\x7b\"ret\":%d\x7d") n, (Json.parse (cstr ret)).isNone := by
  decide +kernel

theorem not_isReply_strncpy {n : Nat} {ret : Bytes} {retcode : Int32}
    (h : strncpy (List.replicate 100 0) 0 (ascii "\x7b\"ret\":%d\x7d") n = some ret) :
    ¬ IsReply retcode (cstr ret) := by
  have hn : n < 101 := by
    have hle := le_of_strncpy h
    rw [List.length_replicate] at hle
    omega
  intro hreply
  obtain ⟨ms, hparse, -⟩ := hreply
  have hnone := parse_cstr_strncpy n hn ret h
  rw [hparse] at hnone
  cases hnone

/-- The text of the reply with a list of friends. -/
theorem cstr_listText {list : Bytes} (hlen : list.length = 512) :
    cstr (snprintf 600 (Message.text (.friends _HANDLE_SUCCESSFUL list))) =
      ascii "\x7b\"ret\":1,\"list\":" ++ cstr list ++ ascii "\x7d" := by
  have hle := (cstr_isPrefix list).length_le
  have htext : Message.text (.friends _HANDLE_SUCCESSFUL list) =
      ascii "\x7b\"ret\":1,\"list\":" ++ cstr list ++ ascii "\x7d" := rfl
  rw [← htext]
  refine (cstr_snprintf_eq_iff Message.ne_zero_of_mem_friends ?_).mpr rfl
  rw [htext]
  simp only [List.length_append]
  show 16 + (cstr list).length + 1 + 1 < 600
  omega

/-- Without a friend, the reply is what the array completes. -/
theorem isReply_list_nil_iff (text : Bytes) :
    IsReply _HANDLE_SUCCESSFUL
      (ascii "\x7b\"ret\":1,\"list\":" ++ (text ++ [125]) ++ ascii "\x7d") ↔ Completes text := by
  have heq : ascii "\x7b\"ret\":1,\"list\":" ++ (text ++ [125]) ++ ascii "\x7d" =
      ascii "\x7b\"ret\":1,\"list\":" ++ text ++ ascii "\x7d\x7d" := by
    simp only [List.append_assoc]
    rfl
  rw [heq]
  constructor
  · intro h
    obtain ⟨ms, hparse, -⟩ := h
    exact ⟨ms, hparse⟩
  · intro h
    obtain ⟨ms, hparse⟩ := h
    obtain ⟨ms', rfl⟩ := Json.parse_first (k := ascii "ret") (t := decInt 1)
      (r := ascii "\"list\":" ++ text ++ ascii "\x7d\x7d") (by decide) (.int 1) hparse
    exact ⟨_, hparse, rfl⟩

/-- With a friend, a comma stands in front of the braces. -/
theorem not_isReply_list_cons (retcode : Int32) (t : Bytes) :
    ¬ IsReply retcode (ascii "\x7b\"ret\":1,\"list\":" ++ (t ++ [44, 125]) ++ ascii "\x7d") := by
  have heq : ascii "\x7b\"ret\":1,\"list\":" ++ (t ++ [44, 125]) ++ ascii "\x7d" =
      123 :: ((ascii "\"ret\":1,\"list\":" ++ t) ++ [44, 125, 125]) := by
    simp only [List.append_assoc]
    rfl
  intro h
  obtain ⟨ms, hparse, -⟩ := h
  rw [heq, Json.parse_comma_brace] at hparse
  cases hparse

/-! ### The handlers -/

section

variable {parse : Bytes → Option Json} {task : Task} {es : List HandlerEvent} {x : Option Int32}

/-- Every frame of a flush is a message. -/
theorem pushed_modChatSendOfflineMsg {fd : Int} {uid : Int64} {gameid : Int32} {u : Unit}
    (h : (modChatSendOfflineMsg fd uid gameid).Runs es u) : ∀ e ∈ sends es, Pushed e := by
  have hrows : ∀ {conn res es'}, (sendResult fd uid gameid conn res).Runs es' () →
      ∀ e ∈ es', e.1.isSend = true → Pushed e := by
    intro conn res es' hruns e he
    obtain ⟨pre, post, heq⟩ := List.append_of_mem he
    cases res with
    | none =>
        obtain ⟨rfl, -⟩ := Prog.runs_pure.mp hruns
        cases he
    | some rows =>
        refine callsAt_sendRows (Q := fun _ e => e.1.isSend = true → Pushed e) rows ?_ ?_ es' ()
          hruns pre e post heq
        · intro _ e hquiet hsend
          rw [hquiet] at hsend
          cases hsend
        · intro _ _ _ _ _ bytes code _ _ hframe _
          exact ⟨fd, _, sendsFrame_of_frame hframe fd code⟩
  intro e he
  obtain ⟨he, hsend⟩ := List.mem_filter.mp he
  rcases runs_modChatSendOfflineMsg h with rfl | ⟨conn, res, es', rfl, hruns⟩
  · obtain rfl := List.mem_singleton.mp he
    cases hsend
  · simp only [List.mem_cons, List.mem_append, List.not_mem_nil, or_false] at he
    rcases he with rfl | rfl | he | rfl
    · cases hsend
    · cases hsend
    · exact hrows hruns e he hsend
    · cases hsend

theorem defined_handleLogin (parse : Bytes → Option Json) (task : Task) :
    (handleLogin parse task).Defined := by
  refine (defined_modLogin _ _ _).bind fun _ retcode _ => defined_ask_bind rfl fun client => ?_
  have hlen := length_snprintf_le 100 (retPayload retcode)
  refine (defined_handleSend _ _ _ (by omega)).bind fun _ _ _ => ?_
  split
  · exact defined_ask_bind rfl fun _ => defined_modChatSendOfflineMsg _ _ _
  · exact Prog.defined_pure _

/-- A login is answered. -/
theorem answers_of_login (h : (handleData parse task).Ends es x) (hcmd : task.cmd = HANDLE_LOGIN) :
    Answers parse task es x := by
  rw [handleData_login hcmd] at h
  obtain ⟨ret, rfl, hruns⟩ := ((defined_handleLogin parse task).bind fun _ _ _ =>
    Prog.defined_pure _).runs h
  obtain ⟨⟨u, hlogin⟩, -⟩ := Prog.runs_bind_pure.mp hruns
  obtain ⟨es₁, es₂, retcode, rfl, hmodule, h₂⟩ := Prog.runs_bind.mp hlogin
  obtain ⟨client, es₃, rfl, h₃⟩ := runs_ask_bind.mp h₂
  obtain ⟨es₄, es₅, u', rfl, hsend, h₅⟩ := Prog.runs_bind.mp h₃
  obtain ⟨bytes, code, hframe, rfl⟩ := runs_handleSend.mp hsend
  have hquiet : (modLogin parse task.client task.data).Calls (·.isSend = false) :=
    calls_modLogin (fun _ => rfl) (fun _ _ _ => rfl) parse task.data
  have hpushed : ∀ e ∈ sends es₁, Pushed e := by
    rw [sends_of_quiet (hquiet es₁ retcode hmodule)]
    simp
  have hrest : ∀ e ∈ sends es₅, Pushed e := by
    split at h₅
    · obtain ⟨client', es₆, rfl, h₆⟩ := runs_ask_bind.mp h₅
      show ∀ e ∈ sends es₆, Pushed e
      exact pushed_modChatSendOfflineMsg h₆
    · obtain ⟨rfl, -⟩ := Prog.runs_pure.mp h₅
      simp [sends]
  have hfunction : moduleFunction parse task = modLogin parse task.client task.data := if_pos hcmd
  exact answers_of_isReply es₁ [_] (Option.some_ne_none _) (hfunction ▸ hmodule) hpushed
    (by simp [Call.isSend]) hframe hrest (isReply_retPayload (by omega) retcode)

/-- A heartbeat is answered. -/
theorem answers_of_heartbeat (h : (handleData parse task).Ends es x)
    (hcmd : task.cmd = HANDLE_HEARTBEAT) (hdata : cstr task.data = HEARTBEAT_POLICY) :
    Answers parse task es x := by
  have htext : ascii "\x7b\"ret\":1\x7d" = snprintf 100 (retPayload 1) := rfl
  rw [handleData_heartbeat hcmd, handleHeartbeat, if_pos hdata] at h
  simp only [htext] at h
  have hlen := length_snprintf_le 100 (retPayload 1)
  obtain ⟨ret, rfl, hruns⟩ := ((defined_ask_bind rfl fun _ => defined_ask_bind rfl fun _ =>
    defined_ask_bind rfl fun _ => defined_handleSend _ _ _ (by omega)).bind fun _ _ _ =>
    Prog.defined_pure _).runs h
  obtain ⟨⟨u, hbeat⟩, -⟩ := Prog.runs_bind_pure.mp hruns
  obtain ⟨now, es₁, rfl, h₁⟩ := runs_ask_bind.mp hbeat
  obtain ⟨_, es₂, rfl, h₂⟩ := runs_ask_bind.mp h₁
  obtain ⟨client, es₃, rfl, h₃⟩ := runs_ask_bind.mp h₂
  obtain ⟨bytes, code, hframe, rfl⟩ := runs_handleSend.mp h₃
  have hmodule : (moduleFunction parse task).Runs [] 1 := by
    rw [moduleFunction, hcmd, if_neg (by decide), if_neg (by decide), if_neg (by decide)]
    exact .pure 1
  exact answers_of_isReply [] [_, _, _] (Option.some_ne_none _) hmodule
    (by simp [sends]) (by simp [Call.isSend]) hframe (by simp [sends])
    (isReply_retPayload (by omega) 1)

/-- A message is not answered. -/
theorem not_answers_of_message (h : (handleData parse task).Ends es x)
    (hcmd : task.cmd = HANDLE_SEND_MESSAGE) : ¬ Answers parse task es x := by
  intro hanswers
  obtain ⟨ret, rfl⟩ := Option.ne_none_iff_exists'.mp hanswers.1
  rw [Prog.ends_some, handleData_sendMessage hcmd] at h
  obtain ⟨⟨u, hsend⟩, -⟩ := Prog.runs_bind_pure.mp h
  obtain ⟨sender, es₁, rfl, h₁⟩ := runs_ask_bind.mp hsend
  obtain ⟨es₂, es₃, retcode, rfl, hmessage, h₃⟩ := Prog.runs_bind.mp h₁
  cases hret : strncpy (List.replicate 100 0) 0 (ascii "\x7b\"ret\":%d\x7d")
      retcode.toInt64.toUInt64.toNat with
  | none =>
      rw [hret] at h₃
      exact runs_undefined_bind h₃
  | some text =>
      rw [hret] at h₃
      obtain ⟨client, es₄, rfl, h₄⟩ := runs_ask_bind.mp h₃
      obtain ⟨bytes, code, hframe, rfl⟩ := runs_handleSend.mp h₄
      have hmodule : (moduleFunction parse task).Runs (⟨.readClient task.client, sender⟩ :: es₂)
          retcode := by
        rw [moduleFunction, hcmd, if_neg (by decide), if_pos rfl]
        exact runs_ask_bind.mpr ⟨sender, es₂, rfl, hmessage⟩
      rw [← List.cons_append] at hanswers
      exact not_isReply_strncpy hret
        (hanswers.isReply [_] hmodule (by simp [Call.isSend]) hframe)

/-! ### The list of friends -/

/-- What holds of every array and all rows among the calls of the handler holds of the one
array and the rows that are fetched. -/
theorem forall_fetched_iff {P : { b : Bytes // b.length = 512 } → List MysqlRow → Prop}
    {friend : { b : Bytes // b.length = 512 }} {client : SpiderClient} {a conn : Addr}
    {sql : Bytes} {rows : List MysqlRow} {rest : List HandlerEvent}
    (hrest : ∀ e ∈ rest, (∀ size, e.1 ≠ .stackArray size) ∧ ∀ conn sql, e.1 ≠ .getRows conn sql) :
    (∀ (friend' : { b : Bytes // b.length = 512 }) conn' sql' rows',
      ⟨.stackArray 512, friend'⟩ ∈ (⟨.stackArray 512, friend⟩ :: ⟨.readClient a, client⟩ ::
        ⟨.getConnect, some conn⟩ :: ⟨.getRows conn sql, some rows⟩ :: rest : List HandlerEvent) →
      ⟨.getRows conn' sql', some rows'⟩ ∈ (⟨.stackArray 512, friend⟩ :: ⟨.readClient a, client⟩ ::
        ⟨.getConnect, some conn⟩ :: ⟨.getRows conn sql, some rows⟩ :: rest : List HandlerEvent) →
      P friend' rows') ↔ P friend rows := by
  constructor
  · intro h
    exact h friend conn sql rows (by simp) (by simp)
  · intro h friend' conn' sql' rows' hfriend hrows
    have hnot : ⟨.stackArray 512, friend'⟩ ∉ rest := fun hmem => (hrest _ hmem).1 512 rfl
    obtain rfl : friend' = friend := by simpa [hnot] using hfriend
    obtain rfl := eq_of_mem_getRows [⟨.stackArray 512, friend'⟩, ⟨.readClient a, client⟩,
      ⟨.getConnect, some conn⟩] (by simp) (fun e he => (hrest e he).2) hrows
    exact h

/-- The condition on the list, for the calls of its handler. -/
theorem listFits_iff {friend : { b : Bytes // b.length = 512 }} {client : SpiderClient}
    {a conn : Addr} {sql : Bytes} {rows : List MysqlRow} {rest : List HandlerEvent}
    (hrest : ∀ e ∈ rest, (∀ size, e.1 ≠ .stackArray size) ∧ ∀ conn sql, e.1 ≠ .getRows conn sql) :
    ListFits (⟨.stackArray 512, friend⟩ :: ⟨.readClient a, client⟩ :: ⟨.getConnect, some conn⟩ ::
        ⟨.getRows conn sql, some rows⟩ :: rest) ↔
      rows = [] ∧ (cstr friend.1).length ≤ 302 ∧ Completes (cstr friend.1) :=
  forall_fetched_iff hrest

/-- The executions of `handle_get_friend_list`: its module's function is stuck, or the reply
is sent. -/
theorem ends_handleGetFriendList {y : Option Unit} (h : (handleGetFriendList task).Ends es y) :
    ∃ friend asker es₁,
      ((modFriendGetFriendList (SpiderClient.uid asker) (Subtype.val friend)).Ends es₁ none ∧
        y = none ∧ es = ⟨.stackArray 512, friend⟩ :: ⟨.readClient task.client, asker⟩ :: es₁) ∨
      ∃ retcode list client bytes code,
        (modFriendGetFriendList (SpiderClient.uid asker) (Subtype.val friend)).Runs es₁
          (retcode, list) ∧
        frame task.cmd (SpiderClient.gameid client)
          (snprintf 600 (Message.text (.friends retcode list))) = some bytes ∧
        es = ⟨.stackArray 512, friend⟩ :: ⟨.readClient task.client, asker⟩ ::
          (es₁ ++ [⟨.readClient task.client, client⟩, ⟨.send task.fd bytes, code⟩]) ∧
        y = some () := by
  obtain ⟨friend, es', rfl, h₁⟩ := (ends_ask_bind rfl).mp h
  obtain ⟨asker, es'', rfl, h₂⟩ := (ends_ask_bind rfl).mp h₁
  rcases Prog.ends_bind.mp h₂ with ⟨hstuck, rfl⟩ | ⟨es₁, es₂, ⟨retcode, list⟩, rfl, hruns, h₃⟩
  · exact ⟨friend, asker, es'', .inl ⟨hstuck, rfl, rfl⟩⟩
  · obtain ⟨client, es₃, rfl, h₄⟩ := (ends_ask_bind rfl).mp h₃
    have hlen := length_snprintf_le 600 (Message.text (.friends retcode list))
    simp only [← apply_ite (snprintf 600)] at h₄
    have hdefined : (handleSend task.fd task.cmd client.gameid
        (snprintf 600 (Message.text (.friends retcode list)))).Defined :=
      defined_handleSend _ _ _ (by omega)
    obtain ⟨u, rfl, hsend⟩ := hdefined.runs h₄
    obtain ⟨bytes, code, hframe, rfl⟩ := runs_handleSend.mp hsend
    exact ⟨friend, asker, es₁, .inr ⟨retcode, list, client, bytes, code, hruns, hframe, rfl, rfl⟩⟩

/-- The list of friends is in a reply only when there are none. -/
theorem isReply_list_iff {friend list : Bytes} {rows : List MysqlRow} (hsize : friend.length = 512)
    (happend : appendFriends friend 0 rows = some list) :
    IsReply _HANDLE_SUCCESSFUL
        (cstr (snprintf 600 (Message.text (.friends _HANDLE_SUCCESSFUL list)))) ↔
      rows = [] ∧ (cstr friend).length ≤ 302 ∧ Completes (cstr friend) := by
  rw [cstr_listText ((length_appendFriends happend).trans hsize)]
  rcases cstr_appendFriends_cases happend with ⟨rfl, hroom, htext⟩ | ⟨hne, t, htext⟩
  · rw [hsize] at hroom
    rw [htext, isReply_list_nil_iff]
    exact ⟨fun hcompletes => ⟨rfl, by omega, hcompletes⟩, fun hfits => hfits.2.2⟩
  · rw [htext]
    exact iff_of_false (not_isReply_list_cons _ t) fun hfits => hne hfits.1

/-- The text of the list decides whether it is a reply. -/
theorem answers_iff_isReply {friend : { b : Bytes // b.length = 512 }}
    {asker client : SpiderClient} {es₁ : List HandlerEvent} {retcode code : Int32}
    {list bytes : Bytes} (hx : x ≠ none) (hcmd : task.cmd = HANDLE_GET_FRIEND_LIST)
    (hruns : (modFriendGetFriendList asker.uid friend.1).Runs es₁ (retcode, list))
    (hframe : frame task.cmd client.gameid
      (snprintf 600 (Message.text (.friends retcode list))) = some bytes) :
    Answers parse task (⟨.stackArray 512, friend⟩ :: ⟨.readClient task.client, asker⟩ ::
        (es₁ ++ [⟨.readClient task.client, client⟩, ⟨.send task.fd bytes, code⟩])) x ↔
      IsReply retcode (cstr (snprintf 600 (Message.text (.friends retcode list)))) := by
  have hquiet : (modFriendGetFriendList asker.uid friend.1).Calls (·.isSend = false) :=
    calls_modFriendGetFriendList (P := fun c => c.isSend = false) rfl (fun _ _ => rfl) _ _
  have hmodule : (moduleFunction parse task).Runs (⟨.stackArray 512, friend⟩ ::
      ⟨.readClient task.client, asker⟩ :: es₁) retcode := by
    rw [moduleFunction, hcmd, if_neg (by decide), if_neg (by decide), if_pos rfl]
    refine runs_ask_bind.mpr ⟨friend, _, rfl, runs_ask_bind.mpr ⟨asker, _, rfl, ?_⟩⟩
    exact Prog.runs_bind.mpr ⟨es₁, [], (retcode, list), by simp, hruns, .pure _⟩
  have hpushed : ∀ e ∈ sends (⟨.stackArray 512, friend⟩ ::
      ⟨.readClient task.client, asker⟩ :: es₁), Pushed e := by
    show ∀ e ∈ sends es₁, Pushed e
    rw [sends_of_quiet (hquiet es₁ _ hruns)]
    simp
  constructor
  · intro hanswers
    exact Answers.isReply [_] hanswers hmodule (by simp [Call.isSend]) hframe
  · intro hbody
    exact answers_of_isReply (_ :: _ :: es₁) [_] hx hmodule hpushed (by simp [Call.isSend])
      hframe (by simp [sends]) hbody

/-- When a request for the list of friends is answered. -/
theorem answers_iff_of_friends (h : (handleData parse task).Ends es x)
    (hcmd : task.cmd = HANDLE_GET_FRIEND_LIST) : Answers parse task es x ↔ ListFits es := by
  rw [handleData_getFriendList hcmd] at h
  obtain ⟨y, hlist, rfl⟩ := Prog.ends_bind_pure.mp h
  obtain ⟨friend, asker, es₁, ⟨hstuck, rfl, rfl⟩ |
    ⟨retcode, list, client, bytes, code, hruns, hframe, rfl, rfl⟩⟩ := ends_handleGetFriendList hlist
  · -- there is no room in the array
    refine iff_of_false (fun hanswers => hanswers.1 rfl) fun hfits => ?_
    rcases ends_modFriendGetFriendList hstuck with ⟨-, hsome⟩ | ⟨conn, rows, rfl, hsome⟩
    · cases hsome
    · obtain ⟨rfl, hroom, -⟩ := (listFits_iff (by simp)).mp hfits
      have hnone := Option.map_eq_none_iff.mp hsome.symm
      rcases appendFriends_nil hnone with ⟨-, hlt⟩ | ⟨f, heq, -⟩
      · rw [friend.2] at hlt
        omega
      · cases heq
  · rw [Option.map_some, answers_iff_isReply (Option.some_ne_none _) hcmd hruns hframe]
    rcases ends_modFriendGetFriendList (Prog.ends_some.mpr hruns) with
      ⟨hnone, hret⟩ | ⟨conn, rows, rfl, hret⟩
    · -- nothing is fetched
      obtain ⟨rfl, rfl⟩ := Prod.mk.inj (Option.some.inj hret)
      refine iff_of_true (isReply_retPayload (by omega) _) ?_
      intro friend' conn sql rows _ hrows
      simp only [List.mem_cons, List.mem_append, Sigma.mk.injEq, reduceCtorEq, false_and,
        false_or, List.not_mem_nil, or_false] at hrows
      exact absurd hrows (hnone conn sql rows)
    · obtain ⟨list', happend, heq⟩ := Option.map_eq_some_iff.mp hret.symm
      obtain ⟨rfl, rfl⟩ := Prod.mk.inj heq
      rw [isReply_list_iff friend.2 happend, List.cons_append, List.cons_append, List.nil_append,
        listFits_iff (by simp)]

/-- **When a request is answered with its own return code**: a login and a heartbeat always,
a message never, and a request for the list of friends when there is no connection, the query
fails, or there are no friends and the array happens to have a text that makes the reply a
JSON object. -/
theorem answers_iff (h : (handleData parse task).Ends es x)
    (hcmd : task.cmd = HANDLE_LOGIN ∨ task.cmd = HANDLE_SEND_MESSAGE ∨
      task.cmd = HANDLE_GET_FRIEND_LIST ∨
      task.cmd = HANDLE_HEARTBEAT ∧ cstr task.data = HEARTBEAT_POLICY) :
    Answers parse task es x ↔ Answerable task es := by
  rcases hcmd with hcmd | hcmd | hcmd | ⟨hcmd, hdata⟩
  · refine iff_of_true (answers_of_login h hcmd) ⟨?_, ?_⟩ <;> rw [hcmd]
    · decide
    · exact fun heq => absurd heq (by decide)
  · exact iff_of_false (not_answers_of_message h hcmd) fun hcond => hcond.1 hcmd
  · rw [answers_iff_of_friends h hcmd]
    refine ⟨fun hfits => ⟨?_, fun _ => hfits⟩, fun hcond => hcond.2 hcmd⟩
    rw [hcmd]
    decide
  · refine iff_of_true (answers_of_heartbeat h hcmd hdata) ⟨?_, ?_⟩ <;> rw [hcmd]
    · decide
    · exact fun heq => absurd heq (by decide)

end

/-- A client who has logged in. -/
def asker : SpiderClient := ⟨5, 1, 1, 1000, List.replicate 10 0, 0⟩

/-- A brace in an array of zero bytes. -/
def braceArray : { b : Bytes // b.length = 512 } :=
  ⟨ascii "\x7b" ++ List.replicate 511 0, by rw [List.length_append, List.length_replicate]; rfl⟩

/-- The calls of a request for the list of friends, when there are none. -/
def noFriendCalls : List HandlerEvent :=
  [⟨.stackArray 512, braceArray⟩, ⟨.readClient 0, asker⟩, ⟨.getConnect, some 7⟩,
    ⟨.getRows 7 (snprintf 150 (friendsSql 1)), some []⟩, ⟨.readClient 0, asker⟩,
    ⟨.send 5 ((frame HANDLE_GET_FRIEND_LIST 1000
      (ascii "\x7b\"ret\":1,\"list\":\x7b\x7d\x7d")).getD []), 34⟩]

/-- The array happens to have the other brace. -/
theorem answers_iff_noFriend :
    Answers Json.parse ⟨5, 0, HANDLE_GET_FRIEND_LIST, []⟩ noFriendCalls (some 1) := by
  have hends : (handleData Json.parse ⟨5, 0, HANDLE_GET_FRIEND_LIST, []⟩).Ends noFriendCalls
      (some 1) := Prog.ends_some.mpr (Prog.replay_eq_some.mp (by decide +kernel))
  have htext : cstr braceArray.1 = ascii "\x7b" := by decide
  have hcompletes : Completes (ascii "\x7b") := by decide +kernel
  refine (answers_iff hends (.inr (.inr (.inl rfl)))).mpr ⟨by decide, fun _ => ?_⟩
  refine (listFits_iff (by simp)).mpr ⟨rfl, ?_, ?_⟩
  · rw [htext]
    decide
  · rw [htext]
    exact hcompletes

/-- The calls of a message that is stored. -/
def messageCalls : List HandlerEvent :=
  [⟨.readClient 0, asker⟩, ⟨.findClientByUid 2, none⟩, ⟨.getConnect, some 7⟩,
    ⟨.querySql 7 (snprintf 2048 (insertSql 2 1 (ascii "hi"))), true⟩, ⟨.destoryConnect 7, ()⟩,
    ⟨.readClient 0, asker⟩,
    ⟨.send 5 ((frame HANDLE_SEND_MESSAGE 1000 (ascii "\x7b")).getD []), 16⟩]

/-- The message is stored, and the reply to its sender is a brace. -/
theorem message_answered_with_brace :
    (handleData Json.parse ⟨5, 0, HANDLE_SEND_MESSAGE,
        ascii "\x7b\"recv_id\":2,\"msg\":\"hi\"\x7d"⟩).Ends messageCalls (some 1) ∧
      ¬ Answers Json.parse ⟨5, 0, HANDLE_SEND_MESSAGE,
        ascii "\x7b\"recv_id\":2,\"msg\":\"hi\"\x7d"⟩ messageCalls (some 1) := by
  have hends : (handleData Json.parse ⟨5, 0, HANDLE_SEND_MESSAGE,
      ascii "\x7b\"recv_id\":2,\"msg\":\"hi\"\x7d"⟩).Ends messageCalls (some 1) :=
    Prog.ends_some.mpr (Prog.replay_eq_some.mp (by decide +kernel))
  exact ⟨hends, not_answers_of_message hends rfl⟩

end SpiderChat
