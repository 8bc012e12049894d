import SpiderChat.ReadPath
import SpiderChat.Release
import SpiderChat.Sessions

/-!
# SpiderChat.Server

**The server as a whole**: the accept loop, `serv_epoll`, the workers of `readtask`
and `serv_heartbeat`, over the clients and connections of `SpiderChat.Sessions`. The
accept of a connection, the handling of an event, the push and the pop of a task, the
handling of a task and a sweep are one step each, taken in any order.

What the sockets answer to `serv_epoll`, and MySQL and the sockets to a handler, is
left open: the step has the list of calls and answers. A task is queued as a
`Request`, which also has the connection that its packet was received on. A handler
that is given a freed client reads whatever is there.
-/

namespace SpiderChat

open Lib

/-- A task, and the connection that it was received on. -/
structure Request where
  task : Task
  conn : Addr
  deriving Repr, DecidableEq

/-- What a worker is at: waiting for a task, holding one it has popped, or about to
unlock the mutex of its client. -/
inductive Worker
  | idle
  | holds (r : Request)
  | unlocks (r : Request)
  deriving Repr, DecidableEq

/-- The task that a worker has. -/
def Worker.request : Worker → Option Request
  | .idle => none
  | .holds r => some r
  | .unlocks r => some r

/-- The task that a worker is still to handle. -/
def Worker.unhandled : Worker → Option Request
  | .idle => none
  | .holds r => some r
  | .unlocks _ => none

/-- The state of the server. The queue is the list of its tasks. -/
structure Server where
  sessions : Sessions
  /-- The task that `serv_epoll` has made and not pushed yet. -/
  pending : Option Request
  queue : List Request
  workers : List Worker

/-- A step of one of the threads. -/
inductive Action
  | accept (fd : Int) (now : Int64) (mem : Ptr)
  | event (fd : Int) (es : List ReadEvent)
  | push
  | pop (worker : Nat)
  | handle (worker : Nat) (es : List HandlerEvent)
  | unlock (worker : Nat)
  | sweep (mytimestamp : Int64)

namespace Sessions

/-- A write to a client. A write to a freed one changes no client here; in memory it can reach
the client that has the block by then, and `Logged.step` leaves such runs out. -/
def write (s : Sessions) (client : Addr) (f : SpiderClient → SpiderClient) : Sessions :=
  { s with clients := (s.clients.update client f).getD s.clients }

/-- What a handler's call does, and whether it can be answered like this. -/
def respond (s : Sessions) : HandlerEvent → Option Sessions
  | ⟨.readClient a, client⟩ =>
      if s.clients.get a = none ∨ s.clients.get a = some client then some s else none
  | ⟨.setVersion a app_version, _⟩ => some (s.write a fun c => { c with app_version })
  | ⟨.setLogin a uid gmid gameid, _⟩ => some (s.write a fun c => { c with uid, gmid, gameid })
  | ⟨.setKeepalive a keepalivetime, _⟩ => some (s.write a fun c => { c with keepalivetime })
  | ⟨.findClientByUid uid, p⟩ =>
      let uidOf (c : Ptr) := (c.bind s.clients.get).map SpiderClient.uid
      if s.reg.findClientByUid uidOf uid = some p then some s
      else none
  | ⟨.closeClient fd, _⟩ => s.closeClient fd
  | _ => some s

end Sessions

namespace Server

/-- The state when `n` workers have been started; the registry's first node is at
address `a`. -/
def start (a : Addr) (n : Nat) : Server :=
  { sessions := .init a, pending := none, queue := [], workers := List.replicate n .idle }

/-- A worker goes on. -/
def setWorker (s : Server) (worker : Nat) (w : Worker) : Server :=
  { s with workers := s.workers.set worker w }

/-- `serv_epoll` has read from a connection. -/
def afterRead (s : Server) (fd : Int) (client conn : Addr) : ReadOutcome → Option Server
  | .close => (s.sessions.closeClient fd).map fun sessions => { s with sessions }
  | .skip => some s
  | .task cmd data => some { s with pending := some ⟨⟨fd, client, cmd, data⟩, conn⟩ }

/-- The step relation. -/
def step (parse : Bytes → Option Json) (s : Server) : Action → Option Server
  | .accept fd now mem => (s.sessions.accept fd now mem).map fun sessions => { s with sessions }
  | .event fd es =>
      if 0 < fd ∧ s.pending.isNone then do
        match ← s.sessions.reg.isExistsFd fd with
        | none => some { s with sessions := s.sessions.close fd }
        | some client => do
            let conn ← s.sessions.owner fd
            let outcome ← readPacket.replay es
            s.afterRead fd client conn outcome
      else none
  | .push => s.pending.map fun r => { s with pending := none, queue := s.queue ++ [r] }
  | .pop worker =>
      match s.workers[worker]?, s.queue with
      | some .idle, r :: queue => some ({ s with queue }.setWorker worker (.holds r))
      | _, _ => none
  | .handle worker es =>
      match s.workers[worker]? with
      | some (.holds r) => do
          let ret ← (handleData parse r.task).replay es
          let sessions ← exec Sessions.respond s.sessions es
          some ({ s with sessions }.setWorker worker (if ret = 0 then .idle else .unlocks r))
      | _ => none
  | .unlock worker =>
      match s.workers[worker]? with
      | some (.unlocks _) => some (s.setWorker worker .idle)
      | _ => none
  | .sweep mytimestamp => (s.sessions.sweep mytimestamp).map fun sessions => { s with sessions }

end Server

/-! ### What the handling of a task does to the clients -/

/-- The handler of this task calls `close_client`. -/
def Task.Closes (task : Task) : Prop :=
  task.cmd = HANDLE_LOGINOUT ∨ task.cmd = HANDLE_HEARTBEAT ∧ cstr task.data ≠ HEARTBEAT_POLICY

instance (task : Task) : Decidable task.Closes := inferInstanceAs (Decidable (_ ∨ _ ∧ _))

section

open Handler

variable {parse : Bytes → Option Json} {task : Task} {es : List HandlerEvent} {ret : Int32}

/-- The calls of a handler that closes, and when it returns 0. -/
theorem runs_handleData_of_closes (h : (handleData parse task).Runs es ret) (hc : task.Closes) :
    (∃ client, es = [⟨.readClient task.client, client⟩, ⟨.closeClient task.fd, ()⟩]) ∧
      (ret = 0 ↔ task.cmd = HANDLE_LOGINOUT) := by
  have hclose : ∀ n : Int32, ((handleLoginout task) >>= fun _ => pure n).Runs es ret →
      (∃ client, es = [⟨.readClient task.client, client⟩, ⟨.closeClient task.fd, ()⟩]) ∧
        ret = n := by
    intro n hrun
    obtain ⟨⟨u, h₁⟩, rfl⟩ := Prog.runs_bind_pure.mp hrun
    obtain ⟨client, es₁, rfl, h₂⟩ := runs_ask_bind.mp h₁
    obtain rfl := Prog.runs_op.mp h₂
    exact ⟨⟨client, rfl⟩, rfl⟩
  rcases hc with hcmd | ⟨hcmd, hdata⟩
  · rw [handleData_loginout hcmd] at h
    obtain ⟨hes, rfl⟩ := hclose 0 h
    exact ⟨hes, by simp [hcmd]⟩
  · rw [handleData_heartbeat hcmd, handleHeartbeat, if_neg hdata] at h
    obtain ⟨hes, rfl⟩ := hclose 1 h
    refine ⟨hes, ?_⟩
    rw [hcmd]
    decide

/-- Behind `mod_login`, `handle_login` leaves the clients alone. -/
theorem runs_handleLogin {u : Unit} (h : (handleLogin parse task).Runs es u) :
    ∃ es₁ retcode es₂, es = es₁ ++ es₂ ∧ (modLogin parse task.client task.data).Runs es₁ retcode ∧
      ∀ e ∈ es₂, e.1.writes = false := by
  obtain ⟨es₁, es₂, retcode, rfl, h₁, h₂⟩ := Prog.runs_bind.mp h
  refine ⟨es₁, retcode, es₂, rfl, h₁, ?_⟩
  have hrest : Prog.Calls (fun c => c.writes = false) (do
      let ret := snprintf 100 (retPayload retcode)
      let client ← ask (.readClient task.client)
      handleSend task.fd task.cmd client.gameid ret
      if retcode = _HANDLE_SUCCESSFUL then do
        let client ← ask (.readClient task.client)
        modChatSendOfflineMsg task.fd client.uid client.gameid
      else pure ()) := by
    refine calls_ask_bind rfl fun _ => (calls_handleSend (fun _ => rfl) _ _ _).bind fun _ => ?_
    split
    · exact calls_ask_bind rfl fun _ =>
        calls_modChatSendOfflineMsg (fun _ => Call.writes_of_isOutside) _ _ _
    · exact Prog.calls_pure _
  exact hrest es₂ u h₂

theorem calls_modChatSendMessage (parse : Bytes → Option Json) (send_uid : Int64) (data : Bytes) :
    (modChatSendMessage parse send_uid data).Calls fun c => c.writes = false := by
  refine Prog.CallsAt.calls (callsAt_modChatSendMessage parse fun recv_uid msg _ => ?_)
  exact callsAt_deliver (fun _ => rfl) (fun _ _ he _ => Call.writes_of_isOutside he)
    (fun _ _ _ => rfl) fun _ _ _ _ _ _ => rfl

theorem calls_handleSendMessage (parse : Bytes → Option Json) (task : Task) :
    (handleSendMessage parse task).Calls fun c => c.writes = false := by
  refine calls_ask_bind rfl fun _ => (calls_modChatSendMessage parse _ _).bind fun _ =>
    (calls_ofOption _).bind fun _ => ?_
  exact calls_ask_bind rfl fun _ => calls_handleSend (fun _ => rfl) _ _ _

/-- A heartbeat with the right payload sets the client's time to the one it has read. -/
theorem runs_handleHeartbeat {u : Unit} (hdata : cstr task.data = HEARTBEAT_POLICY)
    (h : (handleHeartbeat task).Runs es u) :
    ∃ (now : Int64) (rest : List HandlerEvent),
      es = ⟨.time, now⟩ :: ⟨.setKeepalive task.client now.toInt32, ()⟩ :: rest ∧
        ∀ e ∈ rest, e.1.writes = false := by
  unfold handleHeartbeat at h
  rw [if_pos hdata] at h
  obtain ⟨now, es₁, rfl, h₁⟩ := runs_ask_bind.mp h
  obtain ⟨_, es₂, rfl, h₂⟩ := runs_ask_bind.mp h₁
  refine ⟨now, es₂, rfl, ?_⟩
  have hrest : Prog.Calls (fun c => c.writes = false) (do
      let client ← ask (.readClient task.client)
      handleSend task.fd task.cmd client.gameid (ascii "\x7b\"ret\":1\x7d")) :=
    calls_ask_bind rfl fun _ => calls_handleSend (fun _ => rfl) _ _ _
  exact hrest es₂ u h₂

/-- A handler other than the ones for a login, a logout and a heartbeat writes to no
client. -/
theorem runs_handleData_of_reads (h : (handleData parse task).Runs es ret)
    (hlogin : task.cmd ≠ HANDLE_LOGIN) (hlogout : task.cmd ≠ HANDLE_LOGINOUT)
    (hheartbeat : task.cmd ≠ HANDLE_HEARTBEAT) : (∀ e ∈ es, e.1.writes = false) ∧ ret = 1 := by
  have hone : ∀ {p : Handler Unit}, (p >>= fun _ => pure 1).Runs es ret →
      p.Calls (fun c => c.writes = false) → (∀ e ∈ es, e.1.writes = false) ∧ ret = 1 := by
    intro p hp hcalls
    obtain ⟨⟨u, h₁⟩, rfl⟩ := Prog.runs_bind_pure.mp hp
    exact ⟨hcalls _ _ h₁, rfl⟩
  unfold handleData at h
  rw [if_neg hlogin, if_neg hlogout, if_neg hheartbeat] at h
  split at h
  · exact hone h (calls_handleSendMessage _ _)
  split at h
  · exact hone h fun es a h e he => (calls_handleGetFriendList _ es a h e he).2
  · obtain ⟨rfl, rfl⟩ := Prog.runs_pure.mp h
    exact ⟨by simp, rfl⟩

/-- The calls of a heartbeat with the right payload. -/
theorem runs_handleData_of_heartbeat (h : (handleData parse task).Runs es ret)
    (hcmd : task.cmd = HANDLE_HEARTBEAT) (hdata : cstr task.data = HEARTBEAT_POLICY) :
    (∃ (now : Int64) (rest : List HandlerEvent),
      es = ⟨.time, now⟩ :: ⟨.setKeepalive task.client now.toInt32, ()⟩ :: rest ∧
        ∀ e ∈ rest, e.1.writes = false) ∧ ret = 1 := by
  rw [handleData_heartbeat hcmd] at h
  obtain ⟨⟨u, h₁⟩, rfl⟩ := Prog.runs_bind_pure.mp h
  exact ⟨runs_handleHeartbeat hdata h₁, rfl⟩

/-- A handler that does not log a user in sets no uid, and closes nothing unless it is
one of those that do. -/
theorem runs_handleData_of_quiet (h : (handleData parse task).Runs es ret)
    (hcmd : task.cmd ≠ HANDLE_LOGIN) (hc : ¬ task.Closes) :
    (∀ e ∈ es, e.1.Quiet) ∧ ret = 1 := by
  have hlogout : task.cmd ≠ HANDLE_LOGINOUT := fun heq => hc (.inl heq)
  by_cases hheartbeat : task.cmd = HANDLE_HEARTBEAT
  · have hdata : cstr task.data = HEARTBEAT_POLICY := by
      by_contra hdata
      exact hc (.inr ⟨hheartbeat, hdata⟩)
    obtain ⟨⟨now, rest, rfl, hrest⟩, rfl⟩ := runs_handleData_of_heartbeat h hheartbeat hdata
    refine ⟨fun e he => ?_, rfl⟩
    rcases List.mem_cons.mp he with rfl | he
    · exact ⟨rfl, rfl⟩
    · rcases List.mem_cons.mp he with rfl | he
      · exact ⟨rfl, rfl⟩
      · exact Call.quiet_of_writes (hrest e he)
  · obtain ⟨hes, rfl⟩ := runs_handleData_of_reads h hcmd hlogout hheartbeat
    exact ⟨fun e he => Call.quiet_of_writes (hes e he), rfl⟩

/-- The handling of a login: a user is logged in by its first calls or not at all, and
nothing else is written. -/
theorem runs_handleData_of_login (h : (handleData parse task).Runs es ret)
    (hcmd : task.cmd = HANDLE_LOGIN) :
    ((∀ e ∈ es, e.1.writes = false) ∨ ∃ (d : LoginData) (rest : List HandlerEvent), es =
      ⟨.setVersion task.client (versionField d.app_version), ()⟩ ::
        ⟨.setLogin task.client d.uid d.mid d.gameid, ()⟩ :: rest ∧
        ∀ e ∈ rest, e.1.writes = false) ∧
      ret = 1 := by
  rw [handleData_login hcmd] at h
  obtain ⟨⟨u, h₁⟩, rfl⟩ := Prog.runs_bind_pure.mp h
  obtain ⟨es₃, retcode, es₄, rfl, hlogin, hwrites⟩ := runs_handleLogin h₁
  rcases runs_modLogin hlogin with ⟨rfl, -⟩ | ⟨d, rfl, -⟩
  · exact ⟨.inl hwrites, rfl⟩
  · exact ⟨.inr ⟨d, es₄, rfl, hwrites⟩, rfl⟩

/-- Every other handler returns 1 and closes nothing. -/
theorem runs_handleData_of_not_closes (h : (handleData parse task).Runs es ret)
    (hc : ¬ task.Closes) : (∀ e ∈ es, e.1.isClose = false) ∧ ret = 1 := by
  by_cases hcmd : task.cmd = HANDLE_LOGIN
  · obtain ⟨hes | ⟨d, rest, rfl, hrest⟩, rfl⟩ := runs_handleData_of_login h hcmd
    · exact ⟨fun e he => (Call.quiet_of_writes (hes e he)).1, rfl⟩
    · refine ⟨fun e he => ?_, rfl⟩
      rcases List.mem_cons.mp he with rfl | he
      · rfl
      · rcases List.mem_cons.mp he with rfl | he
        · rfl
        · exact (Call.quiet_of_writes (hrest e he)).1
  · obtain ⟨hquiet, rfl⟩ := runs_handleData_of_quiet h hcmd hc
    exact ⟨fun e he => (hquiet e he).1, rfl⟩

end

namespace Sessions

/-- The same connections, and the same clients allocated. -/
structure SameConns (s s' : Sessions) : Prop where
  reg : s'.reg = s.reg
  owner : s'.owner = s.owner
  accepted : s'.accepted = s.accepted
  freed_iff : ∀ c, s'.clients.get c = none ↔ s.clients.get c = none

theorem SameConns.refl (s : Sessions) : SameConns s s := ⟨rfl, rfl, rfl, fun _ => .rfl⟩

theorem SameConns.trans {s₁ s₂ s₃ : Sessions} (h : SameConns s₁ s₂) (h' : SameConns s₂ s₃) :
    SameConns s₁ s₃ :=
  ⟨h'.reg.trans h.reg, h'.owner.trans h.owner, h'.accepted.trans h.accepted,
    fun c => (h'.freed_iff c).trans (h.freed_iff c)⟩

theorem sameConns_write (s : Sessions) (client : Addr) (f : SpiderClient → SpiderClient) :
    SameConns s (s.write client f) := by
  refine ⟨rfl, rfl, rfl, fun c => ?_⟩
  simp only [write, Heap.update]
  cases hget : s.clients.get client with
  | none => rfl
  | some old =>
      simp only [Option.map_some, Option.getD_some, Heap.get_set]
      split
      · rename_i heq
        rw [heq, hget]
        simp
      · rfl

/-- A call that writes to no client and closes none leaves the sessions as they are. -/
theorem respond_of_not_writes {s s' : Sessions} {e : HandlerEvent} (he : e.1.writes = false)
    (h : s.respond e = some s') : s' = s := by
  obtain ⟨c, r⟩ := e
  cases c with
  | readClient a =>
      simp only [respond] at h
      split at h
      · exact (Option.some.inj h).symm
      · cases h
  | findClientByUid uid =>
      simp only [respond] at h
      split at h
      · exact (Option.some.inj h).symm
      · cases h
  | setVersion a app_version => cases he
  | setLogin a uid gmid gameid => cases he
  | setKeepalive a keepalivetime => cases he
  | closeClient fd => cases he
  | _ => exact (Option.some.inj h).symm

theorem exec_respond_of_not_writes {es : List HandlerEvent}
    (hes : ∀ e ∈ es, e.1.writes = false) :
    ∀ {s s' : Sessions}, exec respond s es = some s' → s' = s := by
  induction es with
  | nil =>
      intro s s' h
      exact (Option.some.inj h).symm
  | cons e es ih =>
      intro s s' h
      obtain ⟨m, hm, h'⟩ := exec_cons.mp h
      obtain ⟨he, hes'⟩ := List.forall_mem_cons.mp hes
      rw [ih hes' h', respond_of_not_writes he hm]

/-- A call other than `close_client` leaves the connections alone. -/
theorem respond_stay {s s' : Sessions} {e : HandlerEvent} (he : e.1.isClose = false)
    (h : s.respond e = some s') : SameConns s s' := by
  obtain ⟨c, r⟩ := e
  cases c with
  | readClient a =>
      simp only [respond] at h
      split at h
      · exact Option.some.inj h ▸ .refl s
      · cases h
  | findClientByUid uid =>
      simp only [respond] at h
      split at h
      · exact Option.some.inj h ▸ .refl s
      · cases h
  | setVersion a app_version => exact Option.some.inj h ▸ sameConns_write s _ _
  | setLogin a uid gmid gameid => exact Option.some.inj h ▸ sameConns_write s _ _
  | setKeepalive a keepalivetime => exact Option.some.inj h ▸ sameConns_write s _ _
  | closeClient fd => cases he
  | _ => exact Option.some.inj h ▸ .refl s

theorem exec_respond_stay {es : List HandlerEvent} (hes : ∀ e ∈ es, e.1.isClose = false) :
    ∀ {s s' : Sessions}, exec respond s es = some s' → SameConns s s' := by
  induction es with
  | nil =>
      intro s s' h
      exact Option.some.inj h ▸ .refl s
  | cons e es ih =>
      intro s s' h
      obtain ⟨m, hm, h'⟩ := exec_cons.mp h
      obtain ⟨he, hes'⟩ := List.forall_mem_cons.mp hes
      exact (respond_stay he hm).trans (ih hes' h')

theorem Linked.of_same {s s' : Sessions} {cells : List (Addr × Fd2client)} (h : s.Linked cells)
    (hsame : SameConns s s') : s'.Linked cells := by
  obtain ⟨hreg, howner, haccepted, hfreed⟩ := hsame
  refine ⟨hreg ▸ h.reg, fun fd p hmem => ?_, ?_, ?_⟩
  · obtain ⟨c, hc, hfd, hlive⟩ := h.entry fd p hmem
    exact ⟨c, hc, howner ▸ hfd, (hfreed c).not.mpr hlive⟩
  · rw [howner, haccepted]
    exact h.owner_lt
  · rw [howner]
    exact h.owner_inj

/-- The calls of a handler that closes: the client is read and the descriptor closed. -/
theorem exec_respond_close {s s' : Sessions} {a : Addr} {client : SpiderClient} {fd : Int}
    (h : exec respond s [⟨.readClient a, client⟩, ⟨.closeClient fd, ()⟩] = some s') :
    s.closeClient fd = some s' := by
  obtain ⟨m, hm, h'⟩ := exec_cons.mp h
  obtain ⟨m', hm', h''⟩ := exec_cons.mp h'
  obtain rfl := Option.some.inj h''
  simp only [respond] at hm
  split at hm
  · exact Option.some.inj hm ▸ hm'
  · cases hm

end Sessions

namespace Server

/-- The tasks that are in the queue or held by a worker. -/
def outstanding (s : Server) : List Request := s.queue ++ s.workers.filterMap Worker.request

/-- The tasks that are still to be handled. -/
def waiting (s : Server) : List Request :=
  s.pending.toList ++ (s.queue ++ s.workers.filterMap Worker.unhandled)

/-- The task that a worker is about to handle. -/
def held (s : Server) (worker : Nat) : Option Request :=
  match s.workers[worker]? with
  | some (.holds r) => some r
  | _ => none

variable {parse : Bytes → Option Json} {s s' : Server}

/-- What an event does, when its descriptor is registered: the connection is closed, or
the event is over, or there is a new task. -/
theorem step_event {fd : Int} {es : List ReadEvent} (h : s.step parse (.event fd es) = some s') :
    0 < fd ∧ s.pending = none ∧
      ((s.sessions.reg.isExistsFd fd = some none ∧
          s' = { s with sessions := s.sessions.close fd }) ∨
        ∃ client conn outcome, s.sessions.reg.isExistsFd fd = some (some client) ∧
          s.sessions.owner fd = some conn ∧ readPacket.replay es = some outcome ∧
          s.afterRead fd client conn outcome = some s') := by
  rw [step] at h
  split at h
  · rename_i hguard
    refine ⟨hguard.1, Option.isNone_iff_eq_none.mp hguard.2, ?_⟩
    simp only [Option.bind_eq_bind, Option.bind_eq_some_iff] at h
    obtain ⟨p, hp, h⟩ := h
    cases p with
    | none => exact .inl ⟨hp, (Option.some.inj h).symm⟩
    | some client =>
        simp only [Option.bind_eq_some_iff] at h
        obtain ⟨conn, hconn, outcome, houtcome, h⟩ := h
        exact .inr ⟨client, conn, outcome, hp, hconn, houtcome, h⟩
  · cases h

theorem step_pop {worker : Nat} (h : s.step parse (.pop worker) = some s') :
    ∃ r queue, s.queue = r :: queue ∧
      s' = { s with queue }.setWorker worker (.holds r) := by
  rw [step] at h
  split at h
  · rename_i r queue _ hqueue
    exact ⟨r, queue, hqueue, (Option.some.inj h).symm⟩
  · cases h

theorem step_handle {worker : Nat} {es : List HandlerEvent}
    (h : s.step parse (.handle worker es) = some s') :
    ∃ r ret sessions, s.held worker = some r ∧ (handleData parse r.task).Runs es ret ∧
      exec Sessions.respond s.sessions es = some sessions ∧
      s' = { s with sessions }.setWorker worker (if ret = 0 then .idle else .unlocks r) := by
  rw [step] at h
  split at h
  · rename_i r hholds
    simp only [Option.bind_eq_bind, Option.bind_eq_some_iff] at h
    obtain ⟨ret, hret, sessions, hsessions, h⟩ := h
    have hheld : s.held worker = some r := by simp only [held, hholds]
    exact ⟨r, ret, sessions, hheld, Prog.replay_eq_some.mp hret, hsessions,
      (Option.some.inj h).symm⟩
  · cases h

theorem step_unlock {worker : Nat} (h : s.step parse (.unlock worker) = some s') :
    s' = s.setWorker worker .idle := by
  rw [step] at h
  split at h
  · exact (Option.some.inj h).symm
  · cases h

/-! ### The outstanding tasks -/

theorem mem_workers_of_held {worker : Nat} {r : Request} (h : s.held worker = some r) :
    Worker.holds r ∈ s.workers := by
  unfold held at h
  split at h
  · rename_i r' hholds
    obtain rfl := Option.some.inj h
    exact List.mem_of_getElem? hholds
  · cases h

theorem mem_outstanding_of_held {worker : Nat} {r : Request} (h : s.held worker = some r) :
    r ∈ s.outstanding :=
  List.mem_append_right _ (List.mem_filterMap.mpr ⟨_, mem_workers_of_held h, rfl⟩)

theorem mem_waiting_of_held {worker : Nat} {r : Request} (h : s.held worker = some r) :
    r ∈ s.waiting :=
  List.mem_append_right _
    (List.mem_append_right _ (List.mem_filterMap.mpr ⟨_, mem_workers_of_held h, rfl⟩))

section

variable {f : Worker → Option Request} {l : List Worker} {worker : Nat} {w : Worker} {r : Request}

/-- The tasks of the workers when one of them goes on. -/
theorem mem_filterMap_set (h : r ∈ (l.set worker w).filterMap f) :
    f w = some r ∨ r ∈ (l.set worker .idle).filterMap f := by
  induction l generalizing worker with
  | nil => cases h
  | cons y l ih =>
      cases worker with
      | zero =>
          rw [List.set_cons_zero, List.mem_filterMap] at h ⊢
          obtain ⟨x, hx, hr⟩ := h
          rcases List.mem_cons.mp hx with rfl | hx
          · exact .inl hr
          · exact .inr ⟨x, List.mem_cons_of_mem _ hx, hr⟩
      | succ worker =>
          rw [List.set_cons_succ, List.filterMap_cons] at h ⊢
          cases hy : f y with
          | none =>
              rw [hy] at h
              exact ih h
          | some r' =>
              rw [hy] at h
              rcases List.mem_cons.mp h with rfl | h
              · exact .inr List.mem_cons_self
              · exact (ih h).imp_right (List.mem_cons_of_mem _)

/-- A worker that becomes idle leaves the other tasks as they are. -/
theorem mem_filterMap_of_idle (hf : f .idle = none) (h : r ∈ (l.set worker .idle).filterMap f) :
    r ∈ l.filterMap f := by
  obtain ⟨x, hx, hr⟩ := List.mem_filterMap.mp h
  rcases List.mem_or_eq_of_mem_set hx with hx | rfl
  · exact List.mem_filterMap.mpr ⟨x, hx, hr⟩
  · rw [hf] at hr
    cases hr

end

/-- The outstanding tasks when one worker goes on. -/
theorem mem_outstanding_setWorker {worker : Nat} {w : Worker} {r : Request}
    (h : r ∈ (s.setWorker worker w).outstanding) :
    w.request = some r ∨ r ∈ (s.setWorker worker .idle).outstanding := by
  rcases List.mem_append.mp h with hr | hr
  · exact .inr (List.mem_append_left _ hr)
  · exact (mem_filterMap_set hr).imp_right (List.mem_append_right _)

theorem mem_outstanding_of_idle {worker : Nat} {r : Request}
    (h : r ∈ (s.setWorker worker .idle).outstanding) : r ∈ s.outstanding := by
  rcases List.mem_append.mp h with hr | hr
  · exact List.mem_append_left _ hr
  · exact List.mem_append_right _ (mem_filterMap_of_idle rfl hr)

/-- The tasks still to be handled when a worker goes on to one that is not. -/
theorem mem_waiting_of_setWorker {worker : Nat} {w : Worker} {r : Request}
    (hw : w.unhandled = none) (h : r ∈ (s.setWorker worker w).waiting) : r ∈ s.waiting := by
  rcases List.mem_append.mp h with hr | hr
  · exact List.mem_append_left _ hr
  · rcases List.mem_append.mp hr with hr | hr
    · exact List.mem_append_right _ (List.mem_append_left _ hr)
    · refine List.mem_append_right _ (List.mem_append_right _ ?_)
      rcases mem_filterMap_set hr with hr | hr
      · rw [hw] at hr
        cases hr
      · exact mem_filterMap_of_idle rfl hr

/-- A task that is to be handled after a step was to be handled before, or has been read in
this step. -/
theorem mem_waiting_step {i : Action} (h : s.step parse i = some s') {r : Request}
    (hr : r ∈ s'.waiting) :
    r ∈ s.waiting ∨ ∃ fd es client conn cmd data, i = .event fd es ∧
      s.sessions.reg.isExistsFd fd = some (some client) ∧ s.sessions.owner fd = some conn ∧
      r = ⟨⟨fd, client, cmd, data⟩, conn⟩ := by
  cases i with
  | accept fd now mem =>
      obtain ⟨sessions, -, rfl⟩ := Option.map_eq_some_iff.mp h
      exact .inl hr
  | event fd es =>
      obtain ⟨-, -, ⟨-, rfl⟩ | ⟨client, conn, outcome, hexists, hconn, -, h⟩⟩ := step_event h
      · exact .inl hr
      · cases outcome with
        | skip => exact .inl (Option.some.inj h ▸ hr)
        | close =>
            obtain ⟨sessions, -, rfl⟩ := Option.map_eq_some_iff.mp h
            exact .inl hr
        | task cmd data =>
            obtain rfl := Option.some.inj h
            rcases List.mem_append.mp hr with hr | hr
            · exact .inr ⟨fd, es, client, conn, cmd, data, rfl, hexists, hconn,
                List.mem_singleton.mp hr⟩
            · exact .inl (List.mem_append_right _ hr)
  | push =>
      obtain ⟨r', hr', rfl⟩ := Option.map_eq_some_iff.mp h
      left
      rcases List.mem_append.mp (List.mem_append.mp hr |>.resolve_left nofun) with hr | hr
      · rcases List.mem_append.mp hr with hr | hr
        · exact List.mem_append_right _ (List.mem_append_left _ hr)
        · obtain rfl := List.mem_singleton.mp hr
          exact List.mem_append_left _ (by rw [hr']; exact List.mem_singleton_self _)
      · exact List.mem_append_right _ (List.mem_append_right _ hr)
  | pop worker =>
      obtain ⟨r', queue, hqueue, rfl⟩ := step_pop h
      left
      rw [waiting, hqueue]
      rcases List.mem_append.mp hr with hr | hr
      · exact List.mem_append_left _ hr
      · refine List.mem_append_right _ ?_
        rcases List.mem_append.mp hr with hr | hr
        · exact List.mem_append_left _ (List.mem_cons_of_mem _ hr)
        · rcases mem_filterMap_set hr with hw | hr
          · exact List.mem_append_left _ (Option.some.inj hw ▸ List.mem_cons_self)
          · exact List.mem_append_right _ (mem_filterMap_of_idle rfl hr)
  | handle worker es =>
      obtain ⟨r', ret, sessions, -, -, -, rfl⟩ := step_handle h
      refine .inl (mem_waiting_of_setWorker (s := { s with sessions }) ?_ hr)
      split <;> rfl
  | unlock worker =>
      obtain rfl := step_unlock h
      exact .inl (mem_waiting_of_setWorker rfl hr)
  | sweep mytimestamp =>
      obtain ⟨sessions, -, rfl⟩ := Option.map_eq_some_iff.mp h
      exact .inl hr

/-- Only an event adds a task. -/
theorem waiting_subset_step {i : Action} (h : s.step parse i = some s')
    (hi : ∀ fd es, i ≠ .event fd es) : ∀ r ∈ s'.waiting, r ∈ s.waiting := by
  intro r hr
  rcases mem_waiting_step h hr with hr | ⟨fd, es, -, -, -, -, heq, -⟩
  · exact hr
  · exact absurd heq (hi fd es)

/-! ### Packets of a byte -/

/-- A packet with a body of one byte. -/
def shortPacket (cmd : Int32) : Bytes :=
  PacketHead.encode ⟨1, ascii "BY", 1, cmd, 1000, PACKET_HEAD_CODE⟩ ++ ascii "x"

/-- The calls of an event that finds a short packet. -/
def shortReads (cmd : Int32) : List ReadEvent := whole readPacket (shortPacket cmd)

/-- The calls of the handling of a logout or a bad heartbeat; the client's fields are only
logged. -/
def closingCalls (client : Addr) (fd : Int) : List HandlerEvent :=
  [⟨.readClient client, Sessions.newClient fd 0⟩, ⟨.closeClient fd, ()⟩]

end Server

end SpiderChat
