import SpiderChat.Logins

/-!
# SpiderChat.ClientMutex

**The mutex of a client** while a worker handles one of its tasks. `readtask` locks it
before `handle_data` and unlocks it when that returns 1; `close_client` unlocks it before it
frees the client. `Contract` says that the return value of `handle_data` tells the two
apart. It does, for a task that does not close, and for a logout that takes the client out
of the registry. A heartbeat with another payload than the right one closes and returns 1.

Only what the worker itself does is in these runs: the other threads stand still.
-/

namespace SpiderChat

open Lib Handler

/-- The client that a call is given a pointer to. -/
def Call.points : Call → Ptr
  | .readClient client | .setVersion client _ | .setLogin client _ _ _
  | .setKeepalive client _ => some client
  | _ => none

theorem Call.points_of_isOutside {c : Call} (h : c.isOutside = true) : c.points = none := by
  cases c with
  | readClient client => cases h
  | setVersion client app_version => cases h
  | setLogin client uid gmid gameid => cases h
  | setKeepalive client keepalivetime => cases h
  | _ => rfl

namespace Sessions

/-- The client that a call frees. -/
def closed (s : Sessions) : Call → Ptr
  | .closeClient fd => (s.reg.isExistsFd fd).join
  | _ => none

/-- The client is in no entry of the registry, which can still be read. -/
def Unregistered (s : Sessions) (client : Addr) : Prop :=
  ∃ entries, s.reg.entries = some entries ∧ ∀ fd, (fd, some client) ∉ entries

/-- No heartbeat with another payload than the right one, and no logout of the first client
of the registry while its node's `prev` is not `NULL`. -/
def Truthful (s : Sessions) (task : Task) : Prop :=
  (task.cmd = HANDLE_HEARTBEAT → cstr task.data = HEARTBEAT_POLICY) ∧
    (task.cmd = HANDLE_LOGINOUT → s.CloseOk task.fd)

instance (s : Sessions) (task : Task) : Decidable (s.Truthful task) :=
  inferInstanceAs (Decidable ((_ → _) ∧ (_ → _)))

theorem closed_of_not_isClose (s : Sessions) {c : Call} (h : c.isClose = false) :
    s.closed c = none := by
  cases c with
  | closeClient fd => cases h
  | _ => rfl

variable {s s' : Sessions} {cells : List (Addr × Fd2client)} {fd : Int} {client : Addr}

/-- Where a client is registered, the registry is not dangling. -/
theorem Sound.lists_of_registered (h : s.Sound) (hregistered : s.Registered fd client) :
    ∃ cells, s.Lists cells ∧ (fd, some client) ∈ entriesOf cells := by
  cases h with
  | lists cells h => exact ⟨cells, h, h.linked.registered_iff.mp hregistered⟩
  | dangling h =>
      rw [Registered, h.entries] at hregistered
      cases hregistered

/-- The client of a registered descriptor is found. -/
theorem Linked.isExistsFd_of_mem (h : s.Linked cells) (hmem : (fd, some client) ∈ entriesOf cells) :
    s.reg.isExistsFd fd = some (some client) := by
  have hfound := h.reg.isExistsFd_eq fd
  rcases h.isExistsFd (h.pos_of_mem hmem) hfound with ⟨client', heq, hmem'⟩ | ⟨-, hnot⟩
  · rw [hfound, heq, ← h.owner_of_mem hmem', h.owner_of_mem hmem]
  · exact absurd hmem (hnot _)

/-- A registered client that is closed leaves the registry and is freed. -/
theorem Linked.unregistered_of_closeClient (h : s.Linked cells)
    (hmem : (fd, some client) ∈ entriesOf cells) (hok : s.CloseOk fd)
    (hs : s.closeClient fd = some s') : s'.Unregistered client := by
  obtain ⟨cells', hlinked', hentries⟩ := h.closeClient_of_mem hmem hok hs
  refine ⟨entriesOf cells', hlinked'.reg.entries_eq, fun fd' hin => ?_⟩
  obtain ⟨hne, hin⟩ := (hentries _).mp hin
  obtain rfl := h.owner_inj fd' fd client (h.owner_of_mem hin) (h.owner_of_mem hmem)
  exact hne rfl

/-- A registered client that is closed is freed, whatever becomes of the registry. -/
theorem Linked.freed_of_closeClient (h : s.Linked cells)
    (hmem : (fd, some client) ∈ entriesOf cells) (hs : s.closeClient fd = some s') :
    s'.clients.get client = none := by
  have hexists := h.isExistsFd_of_mem hmem
  simp only [Sessions.closeClient, Option.bind_eq_bind, Option.bind_eq_some_iff] at hs
  obtain ⟨temp, hfind, hs⟩ := hs
  rw [Registry.isExistsFd, hfind] at hexists
  cases temp with
  | none => cases hexists
  | some fd2 =>
      obtain ⟨node, client', hget, hclient, hclients⟩ := release_clients hs
      have heq : node.client = some client := by simpa [hget] using hexists
      obtain rfl : client' = client := Option.some.inj (hclient.symm.trans heq)
      rw [hclients, Heap.get_erase_self]

/-- A first node that is closed while it is its own `prev` leaves nothing to read. -/
theorem Linked.not_unregistered_of_closeClient (h : s.Linked cells) (hok : ¬ s.CloseOk fd)
    (hs : s.closeClient fd = some s') : ¬ s'.Unregistered client := by
  simp only [CloseOk, not_forall] at hok
  obtain ⟨fd2, hfound, hdel⟩ := hok
  have hfind : s.reg.findFd2client fd = some (some fd2) := Option.join_eq_some_iff.mp hfound
  have hrelease : s.release fd2 fd = some s' := by
    simpa [Sessions.closeClient, hfind] using hs
  rintro ⟨entries, hentries, -⟩
  rw [(h.dangling hdel hrelease).entries] at hentries
  cases hentries

end Sessions

/-- The clients, and their mutexes. -/
structure Locked where
  sessions : Sessions
  /-- The worker that holds the mutex of a client. -/
  holder : Addr → Option Nat
  /-- How often the mutex of a client has been unlocked. -/
  unlocks : Addr → Nat

namespace Locked

/-- `pthread_mutex_unlock( &client->client_mutex )` -/
def unlock (s : Locked) (client : Addr) : Locked :=
  { s with
    holder := Function.update s.holder client none
    unlocks := Function.update s.unlocks client (s.unlocks client + 1) }

/-- `close_client` unlocks the mutex of the client that it frees. -/
def unlockClosed (s : Locked) : Ptr → Locked
  | none => s
  | some client => s.unlock client

/-- What a handler's call does. -/
def respond (s : Locked) (e : HandlerEvent) : Option Locked :=
  (s.sessions.respond e).map fun sessions =>
    { s.unlockClosed (s.sessions.closed e.1) with sessions }

/-- What `readtask` does with the mutex behind `handle_data`. -/
def afterTask (s : Locked) (task : Task) (ret : Int32) : Locked :=
  if ret ≠ 0 then s.unlock task.client else s

/-- The client that a call is given, or that it frees, has not been freed. -/
def TouchesLive (s : Locked) (e : HandlerEvent) : Prop :=
  ∀ client : Addr, e.1.points = some client ∨ s.sessions.closed e.1 = some client →
    s.sessions.clients.get client ≠ none

/-- The return value of `handle_data` tells the truth about the client of the task, when a
`worker` that holds its mutex comes from `s` to `s'` by the calls `es`. -/
structure Contract (task : Task) (worker : Nat) (s : Locked) (es : List HandlerEvent)
    (ret : Int32) (s' : Locked) : Prop where
  ret_eq : ret = 1 ∨ ret = 0
  /-- it is there, and the worker holds its mutex -/
  kept : ret = 1 → s'.sessions.Registered task.fd task.client ∧
    s'.sessions.clients.get task.client ≠ none ∧ s'.holder task.client = some worker
  /-- it has been freed, and its mutex released -/
  gone : ret = 0 → s'.sessions.Unregistered task.client ∧
    s'.sessions.clients.get task.client = none ∧ s'.holder task.client = none
  /-- the mutex is unlocked once, by the handler or by `readtask` -/
  unlocked : (s'.afterTask task ret).unlocks task.client = s.unlocks task.client + 1
  /-- no client that has been freed is touched by the handler or by `readtask` -/
  live : AllSteps respond TouchesLive s es ∧
    (ret ≠ 0 → s'.sessions.clients.get task.client ≠ none)

/-! ### The pointers of a handler -/

/-- A call is given the client of the task, or one that has been found before. -/
def Follows (client : Addr) (pre : List HandlerEvent) (e : HandlerEvent) : Prop :=
  ∀ c, e.1.points = some c → c = client ∨ ∃ uid, ⟨.findClientByUid uid, some c⟩ ∈ pre

/-- A call that is given no client other than the one of the task. -/
def Own (client : Addr) (c : Call) : Prop := ∀ a, c.points = some a → a = client

theorem own_of_isOutside (client : Addr) (c : Call) (h : c.isOutside = true) : Own client c := by
  intro a ha
  rw [Call.points_of_isOutside h] at ha
  cases ha

theorem own_of_points {client : Addr} {c : Call} (h : c.points = some client) : Own client c :=
  fun _ ha => Option.some.inj (ha.symm.trans h)

theorem own_of_none {client : Addr} {c : Call} (h : c.points = none) : Own client c := by
  intro a ha
  rw [h] at ha
  cases ha

theorem calls_own_send (client : Addr) (fd : Int) (cmd gameid : Int32) (ret : Bytes) :
    (handleSend fd cmd gameid ret).Calls (Own client) :=
  calls_handleSend (fun _ => own_of_none rfl) _ _ _

section

variable {client : Addr} {α : Type}

theorem follows_of_own {p : Handler α} (h : p.Calls (Own client)) (pre : List HandlerEvent) :
    p.CallsAt fun pre' => Follows client (pre ++ pre') :=
  h.callsAt fun _ _ hown c hc => .inl (hown c hc)

/-- A delivery is given the client that it has found. -/
theorem follows_modChatSendMessage (pre : List HandlerEvent) (parse : Bytes → Option Json)
    (send_uid : Int64) (data : Bytes) : (modChatSendMessage parse send_uid data).CallsAt
      fun pre' => Follows client (pre ++ pre') := by
  have hnone : ∀ {pre' : List HandlerEvent} {e : HandlerEvent}, e.1.points = none →
      Follows client pre' e := by
    intro pre' e he a ha
    rw [he] at ha
    cases ha
  refine callsAt_modChatSendMessage parse fun recv_uid msg _ => ?_
  refine callsAt_deliver (fun _ => hnone rfl)
    (fun _ _ he _ => hnone (Call.points_of_isOutside he)) ?_ fun _ _ _ _ _ _ => hnone rfl
  intro recv_client now recv c hc
  obtain rfl := Option.some.inj hc
  exact .inr ⟨recv_uid, by simp⟩

end

section

variable (parse : Bytes → Option Json) (task : Task)

theorem calls_own_handleLogin : (handleLogin parse task).Calls (Own task.client) := by
  refine (calls_modLogin (fun _ => own_of_points rfl) (fun _ _ _ => own_of_points rfl) parse
    task.data).bind fun retcode => calls_ask_bind (own_of_points rfl) fun _ =>
    (calls_own_send _ _ _ _ _).bind fun _ => ?_
  split
  · exact calls_ask_bind (own_of_points rfl) fun _ =>
      calls_modChatSendOfflineMsg (own_of_isOutside _) _ _ _
  · exact Prog.calls_pure _

theorem calls_own_handleHeartbeat : (handleHeartbeat task).Calls (Own task.client) := by
  unfold handleHeartbeat
  split
  · exact calls_ask_bind (own_of_none rfl) fun _ => calls_ask_bind (own_of_points rfl) fun _ =>
      calls_ask_bind (own_of_points rfl) fun _ => calls_own_send _ _ _ _ _
  · exact calls_ask_bind (own_of_points rfl) fun _ => calls_ask (own_of_none rfl)

theorem calls_own_handleLoginout : (handleLoginout task).Calls (Own task.client) :=
  calls_ask_bind (own_of_points rfl) fun _ => calls_ask (own_of_none rfl)

theorem follows_handleSendMessage :
    (handleSendMessage parse task).CallsAt (Follows task.client) := by
  have hread : ∀ r, Follows task.client [] ⟨.readClient task.client, r⟩ :=
    fun _ c hc => .inl (Option.some.inj hc).symm
  refine callsAt_ask_bind hread fun client => ?_
  refine Prog.CallsAt.bind (follows_modChatSendMessage [⟨_, client⟩] parse _ _)
    fun es ret _ => ?_
  refine Prog.Calls.callsAt (P := Own task.client) ?_ fun _ _ hown c hc => .inl (hown c hc)
  exact (calls_ofOption _).bind fun _ => calls_ask_bind (own_of_points rfl) fun _ =>
    calls_own_send _ _ _ _ _

theorem calls_own_handleGetFriendList : (handleGetFriendList task).Calls (Own task.client) := by
  refine calls_ask_bind (own_of_none rfl) fun _ => calls_ask_bind (own_of_points rfl) fun _ => ?_
  refine (calls_modFriendGetFriendList (own_of_none rfl) (fun _ _ => own_of_none rfl) _ _).bind
    fun _ => calls_ask_bind (own_of_points rfl) fun _ => ?_
  exact calls_own_send _ _ _ _ _

/-- **The pointers of every handler.** -/
theorem follows_handleData : (handleData parse task).CallsAt (Follows task.client) := by
  have hone : ∀ {p : Handler Unit} {n : Int32}, p.Calls (Own task.client) →
      (p >>= fun _ => pure n).CallsAt (Follows task.client) := fun hp =>
    follows_of_own (hp.bind fun _ => Prog.calls_pure _) []
  unfold handleData
  split
  · exact hone (calls_own_handleLogin parse task)
  split
  · exact hone (calls_own_handleLoginout task)
  split
  · exact hone (calls_own_handleHeartbeat task)
  split
  · exact (follows_handleSendMessage parse task).bind fun _ _ _ => Prog.callsAt_pure _
  split
  · exact hone (calls_own_handleGetFriendList task)
  · exact Prog.callsAt_pure _

end

/-! ### What a handler does to the mutexes -/

variable {parse : Bytes → Option Json} {task : Task} {worker : Nat} {es : List HandlerEvent}
  {ret : Int32} {s s' : Locked}

theorem respond_sessions {e : HandlerEvent} (h : s.respond e = some s') :
    s.sessions.respond e = some s'.sessions ∧
      s' = { s.unlockClosed (s.sessions.closed e.1) with sessions := s'.sessions } := by
  obtain ⟨sessions, hsessions, rfl⟩ := Option.map_eq_some_iff.mp h
  exact ⟨hsessions, rfl⟩

/-- A call other than `close_client` leaves the mutexes alone. -/
theorem respond_stay {e : HandlerEvent} (he : e.1.isClose = false) (h : s.respond e = some s') :
    s.sessions.respond e = some s'.sessions ∧ s' = { s with sessions := s'.sessions } := by
  obtain ⟨hsessions, heq⟩ := respond_sessions h
  rw [Sessions.closed_of_not_isClose _ he] at heq
  exact ⟨hsessions, heq⟩

theorem exec_stay (hes : ∀ e ∈ es, e.1.isClose = false) :
    ∀ {s s' : Locked}, exec respond s es = some s' →
      exec Sessions.respond s.sessions es = some s'.sessions ∧
        s' = { s with sessions := s'.sessions } := by
  induction es with
  | nil =>
      intro s s' h
      obtain rfl := Option.some.inj h
      exact ⟨rfl, rfl⟩
  | cons e es ih =>
      intro s s' h
      obtain ⟨m, hm, h'⟩ := exec_cons.mp h
      obtain ⟨he, hes'⟩ := List.forall_mem_cons.mp hes
      obtain ⟨hrespond, heq⟩ := respond_stay he hm
      obtain ⟨hexec, heq'⟩ := ih hes' h'
      refine ⟨exec_cons.mpr ⟨_, hrespond, hexec⟩, ?_⟩
      rw [heq', heq]

/-- **The clients that a handler touches.** As long as nothing is closed, the client of the
task and every one that has been found are there. -/
theorem allSteps_touchesLive {cells : List (Addr × Fd2client)} {client : Addr}
    (hes : ∀ e ∈ es, e.1.isClose = false) :
    ∀ (pre : List HandlerEvent) {s : Locked}, s.sessions.Lists cells →
      s.sessions.clients.get client ≠ none →
      (∀ uid c, ⟨.findClientByUid uid, some c⟩ ∈ pre → s.sessions.clients.get c ≠ none) →
      (∀ pre' e post, es = pre' ++ e :: post → Follows client (pre ++ pre') e) →
      AllSteps respond TouchesLive s es := by
  induction es with
  | nil => intro pre s _ _ _ _; trivial
  | cons e es ih =>
      intro pre s hlists hlive hknown hfollows
      obtain ⟨he, hes'⟩ := List.forall_mem_cons.mp hes
      refine ⟨fun c hc => ?_, fun m hm => ?_⟩
      · rw [Sessions.closed_of_not_isClose _ he] at hc
        have hpoints := hc.resolve_right nofun
        have hfirst := hfollows [] e es rfl c hpoints
        rw [List.append_nil] at hfirst
        rcases hfirst with rfl | ⟨uid, hmem⟩
        · exact hlive
        · exact hknown uid c hmem
      · obtain ⟨hrespond, -⟩ := respond_stay he hm
        have hsame := Sessions.respond_stay he hrespond
        have hstill : ∀ c, s.sessions.clients.get c ≠ none → m.sessions.clients.get c ≠ none :=
          fun c => (hsame.freed_iff c).not.mpr
        refine ih hes' (pre ++ [e])
          (hlists.of_same hsame fun c => Sessions.fdOf_respond he hrespond c)
          (hstill _ hlive) (fun uid c hmem => hstill c ?_) fun pre' e' post heq => ?_
        · rcases List.mem_append.mp hmem with hmem | hmem
          · exact hknown uid c hmem
          · obtain rfl := (List.mem_singleton.mp hmem).symm
            obtain ⟨-, hfind⟩ := Sessions.respond_findClientByUid hrespond
            obtain ⟨fd, hentry⟩ := hlists.mem_of_findClientByUid hfind
            exact hlists.get_ne_none hentry
        · rw [List.append_assoc, List.singleton_append]
          exact hfollows (e :: pre') e' post (by rw [heq, List.cons_append])

/-! ### The contract -/

/-- A task that does not close. -/
theorem contract_of_not_closes {cells : List (Addr × Fd2client)} (h : s.sessions.Lists cells)
    (hmem : (task.fd, some task.client) ∈ entriesOf cells)
    (hheld : s.holder task.client = some worker) (hruns : (handleData parse task).Runs es ret)
    (hexec : exec respond s es = some s') (hc : ¬ task.Closes) :
    Contract task worker s es ret s' := by
  obtain ⟨hes, rfl⟩ := runs_handleData_of_not_closes hruns hc
  obtain ⟨hsessions, heq⟩ := exec_stay hes hexec
  have hsame := Sessions.exec_respond_stay hes hsessions
  have hlive := h.get_ne_none hmem
  have hlive' : s'.sessions.clients.get task.client ≠ none :=
    (hsame.freed_iff _).not.mpr hlive
  have hholder : s'.holder = s.holder := by rw [heq]
  have hunlocks : s'.unlocks = s.unlocks := by rw [heq]
  refine ⟨.inl rfl, fun _ => ⟨?_, hlive', by rw [hholder, hheld]⟩, fun hzero => ?_, ?_,
    allSteps_touchesLive hes [] h hlive nofun ?_, fun _ => hlive'⟩
  · rw [Sessions.Registered, hsame.reg]
    exact h.linked.registered_iff.mpr hmem
  · cases hzero
  · show Function.update s'.unlocks task.client (s'.unlocks task.client + 1) task.client = _
    rw [Function.update_self, hunlocks]
  · exact follows_handleData parse task es 1 hruns

/-- The calls of a handler that closes: the mutex of the client is released. -/
theorem exec_closing {fd : Int} {a : Addr} {client : SpiderClient}
    {cells : List (Addr × Fd2client)} (h : s.sessions.Lists cells)
    (hmem : (fd, some a) ∈ entriesOf cells)
    (hexec : exec respond s [⟨.readClient a, client⟩, ⟨.closeClient fd, ()⟩] = some s') :
    s.sessions.closeClient fd = some s'.sessions ∧
      s' = { s.unlock a with sessions := s'.sessions } := by
  obtain ⟨m, hm, hexec'⟩ := exec_cons.mp hexec
  obtain ⟨m', hm', hexec''⟩ := exec_cons.mp hexec'
  obtain rfl := Option.some.inj hexec''
  obtain ⟨hread, heq⟩ := respond_stay rfl hm
  obtain ⟨hsame, -⟩ := Sessions.respond_readClient (h.get_ne_none hmem) hread
  obtain rfl : m = s := by rw [heq, hsame]
  obtain ⟨hclose, heq'⟩ := respond_sessions hm'
  have hclosed : m.sessions.closed (.closeClient fd) = some a := by
    rw [Sessions.closed, h.linked.isExistsFd_of_mem hmem, Option.join_some]
  rw [hclosed] at heq'
  exact ⟨hclose, heq'⟩

/-- A logout that takes the client out of the registry. -/
theorem contract_of_logout {cells : List (Addr × Fd2client)} (h : s.sessions.Lists cells)
    (hmem : (task.fd, some task.client) ∈ entriesOf cells)
    (hruns : (handleData parse task).Runs es ret) (hexec : exec respond s es = some s')
    (hcmd : task.cmd = HANDLE_LOGINOUT) (hok : s.sessions.CloseOk task.fd) :
    Contract task worker s es ret s' := by
  obtain ⟨⟨client, rfl⟩, hret⟩ := runs_handleData_of_closes hruns (.inl hcmd)
  obtain rfl := hret.mpr hcmd
  obtain ⟨hclose, heq⟩ := exec_closing h hmem hexec
  have hlive := h.get_ne_none hmem
  refine ⟨.inr rfl, fun hone => ?_, fun _ => ⟨?_, ?_, ?_⟩, ?_, ⟨?_, ?_⟩, fun hne => ?_⟩
  · cases hone
  · exact h.linked.unregistered_of_closeClient hmem hok hclose
  · exact h.linked.freed_of_closeClient hmem hclose
  · rw [heq]
    exact Function.update_self _ _ _
  · rw [heq]
    exact Function.update_self _ _ _
  · intro c hc
    obtain rfl := Option.some.inj (hc.resolve_right nofun)
    exact hlive
  · intro m hm
    obtain ⟨hread, -⟩ := respond_stay rfl hm
    obtain ⟨hsame, -⟩ := Sessions.respond_readClient hlive hread
    refine ⟨fun c hc => ?_, fun _ _ => trivial⟩
    have hclosed := hc.resolve_left nofun
    rw [hsame, Sessions.closed, h.linked.isExistsFd_of_mem hmem] at hclosed
    obtain rfl := Option.some.inj hclosed
    rw [hsame]
    exact hlive
  · exact absurd rfl hne

/-- **The return value of `handle_data`** tells the truth about the client of its task
exactly when the task is `Truthful`: the task is no heartbeat with another payload than the
right one, and a logout finds the registry so that it can take the client out. -/
theorem contract_iff (parse : Bytes → Option Json) {task : Task} {worker : Nat}
    {es : List HandlerEvent} {ret : Int32} {s s' : Locked} (hsound : s.sessions.Sound)
    (hregistered : s.sessions.Registered task.fd task.client)
    (hheld : s.holder task.client = some worker) (hruns : (handleData parse task).Runs es ret)
    (hexec : exec respond s es = some s') :
    Contract task worker s es ret s' ↔ s.sessions.Truthful task := by
  obtain ⟨cells, h, hmem⟩ := hsound.lists_of_registered hregistered
  constructor
  · intro hcontract
    constructor
    · intro hcmd
      by_contra hdata
      obtain ⟨⟨client, rfl⟩, hret⟩ := runs_handleData_of_closes hruns (.inr ⟨hcmd, hdata⟩)
      obtain ⟨hclose, -⟩ := exec_closing h hmem hexec
      -- the client is freed, and 0 is not what is returned
      have hne : ret ≠ 0 := by
        rw [ne_eq, hret, hcmd]
        decide
      exact hcontract.live.2 hne (h.linked.freed_of_closeClient hmem hclose)
    · intro hcmd
      by_contra hok
      obtain ⟨⟨client, rfl⟩, hret⟩ := runs_handleData_of_closes hruns (.inl hcmd)
      obtain ⟨hclose, -⟩ := exec_closing h hmem hexec
      exact h.linked.not_unregistered_of_closeClient hok hclose
        (hcontract.gone (hret.mpr hcmd)).1
  · intro htruthful
    obtain ⟨hbeat, hlogout⟩ := htruthful
    by_cases hcloses : task.Closes
    · have hcmd : task.cmd = HANDLE_LOGINOUT :=
        hcloses.resolve_right fun hbad => hbad.2 (hbeat hbad.1)
      exact contract_of_logout h hmem hruns hexec hcmd (hlogout hcmd)
    · exact contract_of_not_closes h hmem hheld hruns hexec hcloses

/-- The connection 0 on the descriptor 5, with the mutex of its client held by the worker 1. -/
def oneClient : Option Locked :=
  ((Sessions.init 10).accept 5 0 none).map fun sessions =>
    ⟨sessions, Function.update (fun _ => none) 0 (some 1), fun _ => 0⟩

theorem sound_oneClient (h : oneClient = some s) : s.sessions.Sound := by
  obtain ⟨cells, hlinked, hnil⟩ := Sessions.linked_init 10
  have hlists : (Sessions.init 10).Lists cells := by
    refine ⟨hlinked, fun fd c hmem => ?_, Sessions.noClient_init 10⟩
    rw [hnil] at hmem
    cases hmem
  obtain ⟨sessions, haccept, rfl⟩ := Option.map_eq_some_iff.mp h
  obtain ⟨cells', hlists', -⟩ := hlists.accept haccept
  exact .lists cells' hlists'

/-- The client of a task with this command and payload, and the handling of it by the calls
of a close. -/
theorem closing_oneClient (cmd : Int32) (data : Bytes) (ret : Int32)
    (hruns : (handleData Json.parse ⟨5, 0, cmd, data⟩).replay (Server.closingCalls 0 5) =
      some ret) :
    ∃ s s', oneClient = some s ∧ s.sessions.Registered 5 0 ∧ s.holder 0 = some 1 ∧
      (handleData Json.parse ⟨5, 0, cmd, data⟩).Runs (Server.closingCalls 0 5) ret ∧
      exec respond s (Server.closingCalls 0 5) = some s' ∧ s.sessions.CloseOk 5 := by
  have hstart : oneClient.map (fun s => (decide (s.sessions.Registered 5 0), s.holder 0,
      (exec respond s (Server.closingCalls 0 5)).isSome, decide (s.sessions.CloseOk 5))) =
      some (true, some 1, true, true) := by decide
  obtain ⟨s, hs, hstart⟩ := Option.map_eq_some_iff.mp hstart
  simp only [Prod.mk.injEq, decide_eq_true_eq] at hstart
  obtain ⟨hregistered, hheld, hexec, hok⟩ := hstart
  obtain ⟨s', hs'⟩ := Option.isSome_iff_exists.mp hexec
  exact ⟨s, s', hs, hregistered, hheld, Prog.replay_eq_some.mp hruns, hs', hok⟩

/-- The only client logs out. -/
theorem contract_iff_logout :
    ∃ s s', oneClient = some s ∧
      Contract ⟨5, 0, HANDLE_LOGINOUT, []⟩ 1 s (Server.closingCalls 0 5) 0 s' := by
  obtain ⟨s, s', hs, hregistered, hheld, hruns, hexec, hok⟩ :=
    closing_oneClient HANDLE_LOGINOUT [] 0 (by decide +kernel)
  refine ⟨s, s', hs, ?_⟩
  exact (contract_iff Json.parse (sound_oneClient hs) hregistered hheld hruns hexec).mpr
    ⟨fun hcmd => absurd hcmd (by decide), fun _ => hok⟩

/-- A heartbeat with the payload `x` frees its client, and `handle_data` returns 1. -/
theorem heartbeat_closes_and_returns_one :
    ∃ s s', s.sessions.Sound ∧ s.sessions.Registered 5 0 ∧ s.holder 0 = some 1 ∧
      (handleData Json.parse ⟨5, 0, HANDLE_HEARTBEAT, ascii "x"⟩).Runs
        (Server.closingCalls 0 5) 1 ∧
      exec respond s (Server.closingCalls 0 5) = some s' ∧
      s'.sessions.clients.get 0 = none ∧
      ¬ Contract ⟨5, 0, HANDLE_HEARTBEAT, ascii "x"⟩ 1 s (Server.closingCalls 0 5) 1 s' := by
  obtain ⟨s, s', hs, hregistered, hheld, hruns, hexec, -⟩ :=
    closing_oneClient HANDLE_HEARTBEAT (ascii "x") 1 (by decide +kernel)
  obtain ⟨cells, h, hmem⟩ := (sound_oneClient hs).lists_of_registered hregistered
  obtain ⟨hclose, -⟩ := exec_closing h hmem hexec
  have hfreed := h.linked.freed_of_closeClient hmem hclose
  refine ⟨s, s', sound_oneClient hs, hregistered, hheld, hruns, hexec, hfreed, ?_⟩
  intro hcontract
  exact (hcontract.kept rfl).2.1 hfreed

end Locked

end SpiderChat
