import SpiderChat.ChatSql
import SpiderChat.ChatPayload
import SpiderChat.Logins

/-!
# SpiderChat.Identities

**Who a chat message is from, and whom it reaches.** `handle_send_message` takes the
uid of the sender from the client of its connection, and `mod_chat_send_message` looks
for a client with the uid of the recipient. Both are 0 for a client that has not logged
in, and no check tells them from uids of users. `FromLogins` says that the handling of a
message keeps to the logins, and `LoggedIn` is the condition under which it does.
-/

namespace SpiderChat

open Lib Handler

/-- A text for an online recipient, up to the uid of its sender. -/
def onlineFront (uid : Int64) : Bytes := ascii "\x7b\"send_uid\":" ++ fmtLd uid ++ ascii " ,"

/-- A statement that stores a message, up to the uid of its sender. -/
def insertFront (recv_uid uid : Int64) : Bytes :=
  ascii "insert into " ++ offlineTable uid ++ ascii " ( uid , send_uid , msg ) values ( " ++
    fmtD recv_uid ++ ascii " , " ++ fmtLd uid ++ ascii " ,"

/-- The frame names the user as the sender. -/
def SentBy (uid : Int64) (bytes : Bytes) : Prop :=
  ∃ head body, readFrame bytes = some (head, body) ∧ onlineFront uid <+: body

/-- The statement names the user as the sender. -/
def StoredBy (uid recv_uid : Int64) (sql : Bytes) : Prop := insertFront recv_uid uid <+: sql

/-- The sender of a message that is sent is named in full when `%d` prints all of the uid. -/
theorem sentBy_iff {cmd gameid : Int32} {uid now : Int64} {msg bytes : Bytes}
    (hframe : frame cmd gameid (snprintf 1048 (onlinePayload uid msg now)) = some bytes) :
    SentBy uid bytes ↔ Fits32 uid := by
  obtain ⟨bytes', head, hframe', hread⟩ := frame_onlinePayload cmd gameid uid msg now
  obtain rfl := Option.some.inj (hframe'.symm.trans hframe)
  have hbody : ∃ l, snprintf 1048 (onlinePayload uid msg now) =
      ascii "\x7b\"send_uid\":" ++ (decInt uid.toInt32.toInt ++ 32 :: 44 :: l) := by
    rw [snprintf_onlinePayload, payloadFront, fmtD]
    simp only [List.append_assoc]
    exact ⟨_, rfl⟩
  obtain ⟨l, hl⟩ := hbody
  have hfront : onlineFront uid =
      ascii "\x7b\"send_uid\":" ++ (decInt uid.toInt ++ 32 :: [44]) := by
    rw [onlineFront, fmtLd, List.append_assoc]
    rfl
  have hiff : onlineFront uid <+: snprintf 1048 (onlinePayload uid msg now) ↔ Fits32 uid := by
    rw [hl, hfront, List.prefix_append_right_inj, decInt_blank_isPrefix]
    exact ⟨fun h => h.1.symm, fun h => ⟨h.symm, l, rfl⟩⟩
  rw [← hiff]
  constructor
  · intro h
    obtain ⟨head', body, hread', hprefix⟩ := h
    obtain ⟨-, rfl⟩ := Prod.mk.inj (Option.some.inj (hread.symm.trans hread'))
    exact hprefix
  · intro h
    exact ⟨head, _, hread, h⟩

/-- The same for a message that is stored. -/
theorem storedBy_iff {uid recv_uid : Int64} {msg : Bytes} (hlen : msg.length < 1024) :
    StoredBy uid recv_uid (snprintf 2048 (insertSql recv_uid uid msg)) ↔ Fits32 uid := by
  obtain ⟨l, hl⟩ : ∃ l, insertSql recv_uid uid msg = ascii "insert into " ++ (offlineTable uid ++
      (ascii " ( uid , send_uid , msg ) values ( " ++ (fmtD recv_uid ++ (ascii " , " ++
        (decInt uid.toInt32.toInt ++ 32 :: 44 :: l))))) := by
    rw [insertSql_eq]
    exact ⟨_, rfl⟩
  have hfront : insertFront recv_uid uid = ascii "insert into " ++ (offlineTable uid ++
      (ascii " ( uid , send_uid , msg ) values ( " ++ (fmtD recv_uid ++ (ascii " , " ++
        (decInt uid.toInt ++ 32 :: [44]))))) := by
    simp only [insertFront, fmtLd, List.append_assoc]
    rfl
  rw [StoredBy, snprintf_insertSql hlen, hl, hfront]
  simp only [List.prefix_append_right_inj, decInt_blank_isPrefix]
  exact ⟨fun h => h.1.symm, fun h => ⟨h.symm, l, rfl⟩⟩

namespace Logged

variable {parse : Bytes → Option Json} {s s' : Logged}

/-- The calls that `mod_chat_send_message` makes in the handling of a message. -/
def ChatCalls (parse : Bytes → Option Json) (task : Task) (es es₁ : List HandlerEvent) : Prop :=
  ∃ sender retcode rest, es = ⟨.readClient task.client, sender⟩ :: (es₁ ++ rest) ∧
    (modChatSendMessage parse sender.uid task.data).Runs es₁ retcode

/-- A statement or a frame that a message for `recv_uid` from the connection is put into
names the user who has logged in there, and a frame goes to a connection on which
`recv_uid` has logged in. -/
def Honest (s : Logged) (conn : Addr) (recv_uid : Int64) : HandlerEvent → Prop
  | ⟨.querySql _ sql, _⟩ => ∃ uid, s.lastLogin conn = some uid ∧ StoredBy uid recv_uid sql
  | ⟨.send fd bytes, _⟩ => (∃ uid, s.lastLogin conn = some uid ∧ SentBy uid bytes) ∧
      ∀ c, s.server.sessions.owner fd = some c → s.lastLogin c = some recv_uid
  | _ => True

/-- When the step handles a message, `mod_chat_send_message` keeps to the logins. -/
def FromLogins (parse : Bytes → Option Json) (s : Logged) (i : Action) : Prop :=
  ∀ worker es s' r recv_uid msg es₁, i = .handle worker es → s.step parse i = some s' →
    s.server.held worker = some r → r.task.cmd = HANDLE_SEND_MESSAGE →
    accepts parse r.task.data = some (recv_uid, msg) → ChatCalls parse r.task es es₁ →
    ∀ e ∈ es₁, s.Honest r.conn recv_uid e

/-- `getConnect` has no connection left. -/
def noConnection : HandlerEvent → Bool
  | ⟨.getConnect, none⟩ => true
  | _ => false

/-- The condition on a step: unless the message is neither sent nor stored, a user whose
uid `%d` prints in full has logged in on its connection, and somebody has on the
connection of the client that is found. -/
def LoggedIn (parse : Bytes → Option Json) (s : Logged) : Action → Prop
  | .handle worker es => ∀ r ∈ s.server.held worker, r.task.cmd = HANDLE_SEND_MESSAGE →
      ∀ p ∈ accepts parse r.task.data, es.any noConnection = false →
        (∃ uid ∈ s.lastLogin r.conn, Fits32 uid) ∧
          ∀ c ∈ (s.server.sessions.findClientByUid p.1).join, s.lastLogin c ≠ none
  | _ => True

/-- The client of a sender has not been freed when the message is handled. -/
def SenderLives (s : Logged) : Action → Prop
  | .handle worker _ => ∀ r ∈ s.server.held worker, r.task.cmd = HANDLE_SEND_MESSAGE →
      s.server.sessions.clients.get r.task.client ≠ none
  | _ => True

instance (s : Logged) : (i : Action) → Decidable (s.SenderLives i)
  | .handle worker _ => inferInstanceAs (Decidable (∀ r ∈ s.server.held worker, _ → _))
  | .accept _ _ _ => .isTrue trivial
  | .event _ _ => .isTrue trivial
  | .push => .isTrue trivial
  | .pop _ => .isTrue trivial
  | .unlock _ => .isTrue trivial
  | .sweep _ => .isTrue trivial

/-- The run of `mod_chat_send_message` in the handling of a message. -/
theorem chatCalls_of_runs {task : Task} {es : List HandlerEvent} {ret : Int32}
    (h : (handleData parse task).Runs es ret) (hcmd : task.cmd = HANDLE_SEND_MESSAGE) :
    ∃ sender retcode es₁ rest, es = ⟨.readClient task.client, sender⟩ :: (es₁ ++ rest) ∧
      (modChatSendMessage parse sender.uid task.data).Runs es₁ retcode ∧
      rest.any noConnection = false := by
  rw [handleData_sendMessage hcmd] at h
  obtain ⟨⟨u, h₂⟩, -⟩ := Prog.runs_bind_pure.mp h
  obtain ⟨sender, es₄, rfl, h₄⟩ := runs_ask_bind.mp h₂
  obtain ⟨es₁, es₅, retcode, rfl, h₁, h₅⟩ := Prog.runs_bind.mp h₄
  refine ⟨sender, retcode, es₁, es₅, rfl, h₁, ?_⟩
  obtain ⟨es₆, es₇, ret, rfl, h₆, h₇⟩ := Prog.runs_bind.mp h₅
  obtain ⟨client, es₈, rfl, h₈⟩ := runs_ask_bind.mp h₇
  obtain ⟨bytes, code, -, rfl⟩ := runs_handleSend.mp h₈
  cases hret : strncpy (List.replicate 100 0) 0 (ascii "\x7b\"ret\":%d\x7d")
      retcode.toInt64.toUInt64.toNat with
  | none =>
      rw [hret] at h₆
      exact absurd h₆ runs_undefined
  | some ret' =>
      rw [hret] at h₆
      obtain ⟨rfl, -⟩ := Prog.runs_pure.mp h₆
      rfl

/-- There is one such run. -/
theorem ChatCalls.unique {task : Task} {es es₁ es₂ : List HandlerEvent}
    (h₁ : ChatCalls parse task es es₁) (h₂ : ChatCalls parse task es es₂) : es₁ = es₂ := by
  obtain ⟨sender, retcode, rest, rfl, hrun⟩ := h₁
  obtain ⟨sender', retcode', rest', heq, hrun'⟩ := h₂
  obtain ⟨hsender, hrest⟩ := List.cons.inj heq
  cases hsender
  exact (hrun.append_inj hrun' hrest).1

/-- The client that is found for a uid, and the frame that is sent to it. -/
theorem Inv.owner_of_found (h : s.Inv) {uid : Int64} {c : Addr} {client : SpiderClient}
    {m : Sessions} (hfind : s.server.sessions.findClientByUid uid = some (some c))
    (hread : s.server.sessions.respond ⟨.readClient c, client⟩ = some m) :
    s.server.sessions.owner client.fd = some c := by
  cases h.sound with
  | dangling hdangling =>
      rw [Sessions.findClientByUid_of_dangling hdangling] at hfind
      cases hfind
  | lists cells hlists =>
      obtain ⟨fd, hmem⟩ := hlists.mem_of_findClientByUid hfind
      obtain ⟨c', hc, howner, hlive⟩ := hlists.linked.entry fd _ hmem
      obtain rfl := Option.some.inj hc
      obtain ⟨-, hget⟩ := Sessions.respond_readClient hlive hread
      have hfd := hlists.fdOf_eq fd c hmem
      rw [Sessions.fdOf, hget, Option.map_some, Option.some.injEq] at hfd
      rw [hfd, howner]

/-- A client that is found carries the uid of its last login. -/
theorem Inv.lastLogin_of_found (h : s.Inv) {uid : Int64} {c : Addr}
    (hfind : s.server.sessions.findClientByUid uid = some (some c)) :
    s.lastLogin c = some uid ↔ s.lastLogin c ≠ none := by
  have huid := (Sessions.uidOf_of_findClientByUid hfind).resolve_left nofun
  obtain ⟨-, heq⟩ := h.uid c uid huid
  cases hlast : s.lastLogin c with
  | none => simp
  | some u =>
      rw [hlast, Option.getD_some] at heq
      simp [heq]

/-- **The handling of one message.** -/
theorem Inv.honest_iff (h : s.Inv) {r : Request} (hr : r ∈ s.server.waiting)
    (hlive : s.server.sessions.clients.get r.task.client ≠ none) {recv_uid : Int64} {msg : Bytes}
    (hacc : accepts parse r.task.data = some (recv_uid, msg)) {es₁ rest : List HandlerEvent}
    {sender : SpiderClient} {retcode : Int32} {sessions : Sessions}
    (hexec : exec Sessions.respond s.server.sessions
      (⟨.readClient r.task.client, sender⟩ :: (es₁ ++ rest)) = some sessions)
    (hrun : (modChatSendMessage parse sender.uid r.task.data).Runs es₁ retcode) :
    (∀ e ∈ es₁, s.Honest r.conn recv_uid e) ↔ (es₁.any noConnection = false →
      (∃ uid ∈ s.lastLogin r.conn, Fits32 uid) ∧
        ∀ c ∈ (s.server.sessions.findClientByUid recv_uid).join, s.lastLogin c ≠ none) := by
  obtain ⟨m, hm, hexec'⟩ := exec_cons.mp hexec
  obtain ⟨rfl, hget⟩ := Sessions.respond_readClient hlive hm
  -- the sender's uid is the one of the last login
  have hsender : ∀ uid, s.lastLogin r.conn = some uid → uid = sender.uid := by
    intro uid hlast
    have huid : s.server.sessions.uidOf (some r.task.client) = some sender.uid := by
      rw [Sessions.uidOf_some, hget]
      rfl
    obtain ⟨-, heq⟩ := h.uid _ _ huid
    rw [(h.waiting r hr).2.1, hlast] at heq
    exact heq.symm
  have hnamed : ∀ P : Int64 → Prop, (P sender.uid ↔ Fits32 sender.uid) →
      ((∃ uid, s.lastLogin r.conn = some uid ∧ P uid) ↔
        ∃ uid ∈ s.lastLogin r.conn, Fits32 uid) := by
    intro P hP
    refine exists_congr fun uid => and_congr_right fun hlast => ?_
    rw [hsender uid hlast]
    exact hP
  rw [modChatSendMessage_of_accepts parse hacc] at hrun
  rcases runs_deliver hrun with ⟨rfl, -⟩ | ⟨conn, ok, rfl, -⟩ |
    ⟨recv_client, now, client, bytes, code, hframe, rfl, -⟩
  · simp [Honest, noConnection]
  · obtain ⟨m, hcall, -⟩ := exec_cons.mp hexec'
    obtain ⟨-, hfind⟩ := Sessions.respond_findClientByUid hcall
    have hstored := hnamed
      (fun uid => StoredBy uid recv_uid (snprintf 2048 (insertSql recv_uid sender.uid msg)))
      (storedBy_iff (length_of_accepts parse hacc))
    rw [hfind]
    simpa [Honest, noConnection] using hstored
  · obtain ⟨m, hcall, hexec''⟩ := exec_cons.mp hexec'
    obtain ⟨rfl, hfind⟩ := Sessions.respond_findClientByUid hcall
    obtain ⟨m₁, htime, hexec₁⟩ := exec_cons.mp hexec''
    obtain rfl := Option.some.inj htime
    obtain ⟨m₂, hread, -⟩ := exec_cons.mp hexec₁
    have hsent := hnamed (fun uid => SentBy uid bytes) (sentBy_iff hframe)
    have howner := h.owner_of_found hfind hread
    have hlast := h.lastLogin_of_found hfind
    rw [hfind]
    simp [Honest, noConnection, howner, hlast, hsent]

/-- **The step lemma**: a step keeps to the logins exactly when it is `LoggedIn`. -/
theorem Inv.fromLogins_iff {i : Action} (h : s.Inv) (hlive : s.SenderLives i)
    (hs : s.step parse i = some s') : s.FromLogins parse i ↔ s.LoggedIn parse i := by
  cases i with
  | handle worker es =>
      have hs₁ := hs
      obtain ⟨server, hserver, -⟩ := server_of_step hs₁
      obtain ⟨r, ret, sessions, hheld, hruns, hexec, -⟩ := Server.step_handle hserver
      have hr := Server.mem_waiting_of_held hheld
      constructor
      · intro hgood r' hr' hcmd p hacc hany
        obtain rfl := Option.some.inj (hheld.symm.trans hr')
        obtain ⟨sender, retcode, es₁, rest, rfl, hchat, -⟩ := chatCalls_of_runs hruns hcmd
        have hall := hgood worker _ s' r p.1 p.2 es₁ rfl hs hheld hcmd hacc
          ⟨sender, retcode, rest, rfl, hchat⟩
        refine (h.honest_iff hr (hlive r hheld hcmd) hacc hexec hchat).mp hall ?_
        simp only [List.any_cons, List.any_append, Bool.or_eq_false_iff] at hany
        exact hany.2.1
      · intro hok worker' es' s'' r' recv_uid msg es₁ heq _ hr' hcmd hacc hcalls e he
        cases heq
        obtain rfl := Option.some.inj (hheld.symm.trans hr')
        obtain ⟨sender, retcode, es₂, rest, rfl, hchat, hrest⟩ := chatCalls_of_runs hruns hcmd
        obtain rfl := hcalls.unique ⟨sender, retcode, rest, rfl, hchat⟩
        refine (h.honest_iff hr (hlive r hheld hcmd) hacc hexec hchat).mpr (fun hany => ?_) e he
        refine hok r hheld hcmd (recv_uid, msg) hacc ?_
        simp only [List.any_cons, List.any_append, hany, hrest]
        rfl
  | _ =>
      refine ⟨fun _ => trivial, fun _ => ?_⟩
      intro _ _ _ _ _ _ _ heq
      cases heq

/-- The calls of a message that is sent from one client to another. -/
def onlineCalls (a b : Addr) (sender recipient : SpiderClient) : List HandlerEvent :=
  [⟨.readClient a, sender⟩, ⟨.findClientByUid recipient.uid, some b⟩, ⟨.time, 0⟩,
    ⟨.readClient b, recipient⟩,
    ⟨.send recipient.fd ((frame HANDLE_SEND_MESSAGE recipient.gameid
      (snprintf 1048 (onlinePayload sender.uid (ascii "hi") 0))).getD []), 0⟩,
    ⟨.readClient a, sender⟩,
    ⟨.send sender.fd ((frame HANDLE_SEND_MESSAGE sender.gameid (ascii "\x7b")).getD []), 0⟩]

/-- Users 7 and 9 log in, and 9 sends a message to 7. -/
def chatRun : List Action :=
  [.accept 5 0 none, .accept 6 0 (some 11)] ++
    served 0 5 HANDLE_LOGIN (loginData 7) (loginCalls 0 5 7) ++
    served 1 6 HANDLE_LOGIN (loginData 9) (loginCalls 1 6 9) ++
    served 0 6 HANDLE_SEND_MESSAGE (ascii "\x7b\"recv_id\":7,\"msg\":\"hi\"\x7d")
      (onlineCalls 1 0 (userClient 6 9) (userClient 5 7))

/-- A message to the uid 0. -/
def zeroData : Bytes := ascii "\x7b\"recv_id\":0,\"msg\":\"hi\"\x7d"

/-- The calls of its handling, when neither client has logged in. -/
def zeroCalls : List HandlerEvent :=
  onlineCalls 1 0 (Sessions.newClient 6 0) (Sessions.newClient 5 0)

end Logged

end SpiderChat
