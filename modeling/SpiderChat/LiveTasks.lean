import SpiderChat.Server

/-!
# SpiderChat.LiveTasks

**Tasks and the clients they point to.** A task has a bare pointer to its client, and
nothing that closes a connection looks for tasks of its client: a close by a logout, by
a bad heartbeat, at the peer's end, on a read error or in the idle sweep leaves the
tasks behind that are queued or held.

`Safe` is the condition on a step under which this does not happen, and every run whose
steps are `Safe` only has tasks with live and registered clients.
-/

namespace SpiderChat

open Lib

namespace Server

variable {parse : Bytes → Option Json} {s s' : Server}

/-- Every task in the queue or held by a worker points to a client that is registered
and not freed. -/
def NoDeadClient (s : Server) : Prop :=
  ∀ r ∈ s.outstanding, s.sessions.Registered r.task.fd r.task.client ∧
    s.sessions.clients.get r.task.client ≠ none

instance (s : Server) : Decidable s.NoDeadClient :=
  inferInstanceAs (Decidable (∀ r ∈ s.outstanding, _))

/-- The condition on a close by the idle sweep, when the clients are as in `m`: the
client of the node has no task in the queue or held. -/
def MaySweep (s : Server) (m : Sessions) (fd2 : Addr) : Prop :=
  m.DelOk fd2 ∧
    ∀ node ∈ m.reg.heap.get fd2, ∀ r ∈ s.outstanding, node.client ≠ some r.task.client

instance (s : Server) (m : Sessions) (fd2 : Addr) : Decidable (s.MaySweep m fd2) :=
  inferInstanceAs (Decidable (_ ∧ ∀ node ∈ m.reg.heap.get fd2, ∀ r ∈ s.outstanding, _))

/-- The condition on a logout by `worker`: the task is the last one of its client. -/
def MayLogout (s : Server) (worker : Nat) (task : Task) : Prop :=
  s.sessions.CloseOk task.fd ∧
    ∀ r ∈ (s.setWorker worker .idle).outstanding, r.task.client ≠ task.client

instance (s : Server) (worker : Nat) (task : Task) : Decidable (s.MayLogout worker task) :=
  inferInstanceAs (Decidable (_ ∧ ∀ r ∈ (s.setWorker worker .idle).outstanding, _))

/-- The condition on a step. -/
def Safe (s : Server) : Action → Prop
  -- a connection that ends has no task in the queue or held
  | .event fd es => readPacket.replay es = some .close →
      s.sessions.CloseOk fd ∧ ∀ r ∈ s.outstanding, ¬ s.sessions.Registered fd r.task.client
  -- the client has not been closed between the read and the push
  | .push => ∀ r ∈ s.pending, s.sessions.Registered r.task.fd r.task.client
  -- no heartbeat is bad
  | .handle worker _ => ∀ r ∈ s.held worker,
      (r.task.cmd = HANDLE_HEARTBEAT → cstr r.task.data = HEARTBEAT_POLICY) ∧
        (r.task.cmd = HANDLE_LOGINOUT → s.MayLogout worker r.task)
  | .sweep mytimestamp => ∀ c ∈ s.sessions.closes mytimestamp, s.MaySweep c.1 c.2
  | _ => True

instance (s : Server) : (i : Action) → Decidable (s.Safe i)
  | .accept _ _ _ => .isTrue trivial
  | .event fd es => inferInstanceAs (Decidable (readPacket.replay es = some .close →
      s.sessions.CloseOk fd ∧ ∀ r ∈ s.outstanding, ¬ s.sessions.Registered fd r.task.client))
  | .push => inferInstanceAs (Decidable (∀ r ∈ s.pending, _))
  | .pop _ => .isTrue trivial
  | .handle worker _ => inferInstanceAs (Decidable (∀ r ∈ s.held worker, _ ∧ _))
  | .unlock _ => .isTrue trivial
  | .sweep mytimestamp => inferInstanceAs (Decidable (∀ c ∈ s.sessions.closes mytimestamp, _))

/-- The registry of `m` is linked, and every outstanding task of `s` has its client's
entry in it. -/
def LiveIn (s : Server) (m : Sessions) : Prop :=
  ∃ cells, m.Linked cells ∧
    ∀ r ∈ s.outstanding, (r.task.fd, some r.task.client) ∈ entriesOf cells

/-- The invariant. -/
def Live (s : Server) : Prop := s.LiveIn s.sessions

theorem Live.noDeadClient (h : s.Live) : s.NoDeadClient := by
  obtain ⟨cells, hlinked, hlive⟩ := h
  intro r hr
  obtain ⟨c, hc, -, hget⟩ := hlinked.entry _ _ (hlive r hr)
  obtain rfl := Option.some.inj hc
  exact ⟨hlinked.registered_iff.mpr (hlive r hr), hget⟩

theorem live_start (a : Addr) (n : Nat) : (start a n).Live := by
  obtain ⟨cells, hlinked, -⟩ := Sessions.linked_init a
  have hnone : (start a n).outstanding = [] := by
    simp [outstanding, start, Worker.request]
  exact ⟨cells, hlinked, fun r hr => by rw [hnone] at hr; cases hr⟩

/-- A client other than the one that is closed keeps its entry. -/
theorem mem_erase_of_client_ne {entries : List (Int × Ptr)} {fd fd' : Int} {client client' : Addr}
    (hmem : (fd', some client') ∈ entries) (hne : client' ≠ client) :
    (fd', some client') ∈ entries.erase (fd, some client) := by
  refine (List.mem_erase_of_ne fun heq => hne ?_).mpr hmem
  exact Option.some.inj (Prod.mk.inj heq).2

/-- An event leaves the outstanding tasks with their clients, unless it closes the
connection of one. -/
theorem Live.event {fd : Int} {es : List ReadEvent} (h : s.Live) (hok : s.Safe (.event fd es))
    (hs : s.step parse (.event fd es) = some s') : s'.Live := by
  obtain ⟨cells, hlinked, hlive⟩ := h
  obtain ⟨hpos, -, ⟨hnull, rfl⟩ | ⟨client, conn, outcome, hfound, -, houtcome, hs⟩⟩ := step_event hs
  · rcases hlinked.isExistsFd hpos hnull with ⟨client, hclient, -⟩ | ⟨-, hnot⟩
    · cases hclient
    · exact ⟨cells, hlinked.close_unregistered hnot, hlive⟩
  · cases outcome with
    | skip => exact Option.some.inj hs ▸ ⟨cells, hlinked, hlive⟩
    | task cmd data => exact Option.some.inj hs ▸ ⟨cells, hlinked, hlive⟩
    | close =>
        obtain ⟨hdel, hnone⟩ := hok houtcome
        obtain ⟨sessions, hclose, rfl⟩ := Option.map_eq_some_iff.mp hs
        rcases hlinked.closeClient hpos hdel hclose with
          ⟨rfl, -⟩ | ⟨client, cells', hmem, hlinked', hentries, -⟩
        · exact ⟨cells, hlinked, hlive⟩
        · refine ⟨cells', hlinked', fun r hr => hentries ▸ mem_erase_of_client_ne (hlive r hr) ?_⟩
          intro heq
          subst heq
          exact hnone r hr (hlinked.registered_iff.mpr hmem)

/-- The handling of a task, where a client that logs out has no other task. -/
theorem Live.handle {worker : Nat} {es : List HandlerEvent} (h : s.Live)
    (hok : s.Safe (.handle worker es)) (hs : s.step parse (.handle worker es) = some s') :
    s'.Live := by
  obtain ⟨cells, hlinked, hlive⟩ := h
  obtain ⟨r, ret, sessions, hholds, hruns, hexec, rfl⟩ := step_handle hs
  obtain ⟨hbeat, hlogout⟩ := hok r hholds
  have hr := hlive r (mem_outstanding_of_held hholds)
  by_cases hcloses : r.task.Closes
  · have hcmd : r.task.cmd = HANDLE_LOGINOUT :=
      hcloses.resolve_right fun ⟨hcmd, hdata⟩ => hdata (hbeat hcmd)
    obtain ⟨hdel, hlast⟩ := hlogout hcmd
    obtain ⟨⟨client, rfl⟩, hret⟩ := runs_handleData_of_closes hruns hcloses
    rw [if_pos (hret.mpr hcmd)]
    have hclose := Sessions.exec_respond_close hexec
    rcases hlinked.closeClient (hlinked.pos_of_mem hr) hdel hclose with
      ⟨rfl, -⟩ | ⟨client', cells', hmem, hlinked', hentries, -⟩
    · exact ⟨cells, hlinked, fun r' hr' => hlive r' (mem_outstanding_of_idle hr')⟩
    · refine ⟨cells', hlinked', fun r' hr' => ?_⟩
      have hne : r'.task.client ≠ client' := by
        have howner := hlinked.owner_of_mem hr
        rw [hlinked.owner_of_mem hmem] at howner
        exact Option.some.inj howner ▸ hlast r' hr'
      exact hentries ▸ mem_erase_of_client_ne (hlive r' (mem_outstanding_of_idle hr')) hne
  · obtain ⟨hstay, -⟩ := runs_handleData_of_not_closes hruns hcloses
    refine ⟨cells, hlinked.of_same (Sessions.exec_respond_stay hstay hexec), fun r' hr' => ?_⟩
    rcases mem_outstanding_setWorker hr' with hw | hr'
    · split at hw
      · cases hw
      · exact Option.some.inj hw ▸ hr
    · exact hlive r' (mem_outstanding_of_idle hr')

/-- A sweep that closes no client of an outstanding task. -/
theorem Live.sweep {mytimestamp : Int64} (h : s.Live) (hok : s.Safe (.sweep mytimestamp))
    (hs : s.step parse (.sweep mytimestamp) = some s') : s'.Live := by
  obtain ⟨sessions, hsweep, rfl⟩ := Option.map_eq_some_iff.mp hs
  have hcloses : ∀ c ∈ s.sessions.closes mytimestamp, s.MaySweep c.1 c.2 := hok
  refine Sessions.sweepFrom_induction (P := s.LiveIn) ?_ h hcloses hsweep
  intro m fd2 node m' hm hmay hget hne hrelease
  obtain ⟨cells, hlinked, hlive⟩ := hm
  obtain ⟨hdel, hnone⟩ := hmay
  obtain ⟨client, cells', hclient, -, hlinked', hentries, -⟩ :=
    hlinked.release hget rfl hne hdel hrelease
  refine ⟨cells', hlinked', fun r hr => hentries ▸ mem_erase_of_client_ne (hlive r hr) ?_⟩
  intro heq
  subst heq
  exact hnone node hget r hr hclient

/-- **The step lemma.** -/
theorem Live.step (s : Server) (i : Action) (s' : Server) (h : s.Live) (hok : s.Safe i)
    (hs : s.step parse i = some s') : s'.Live := by
  cases i with
  | accept fd now mem =>
      obtain ⟨cells, hlinked, hlive⟩ := h
      obtain ⟨sessions, haccept, rfl⟩ := Option.map_eq_some_iff.mp hs
      obtain ⟨cells', hlinked', hentries, -, -⟩ := hlinked.accept haccept
      refine ⟨cells', hlinked', fun r hr => ?_⟩
      rcases hentries with heq | heq
      · exact heq ▸ hlive r hr
      · rw [heq]
        exact List.mem_append_left _ (hlive r hr)
  | event fd es => exact h.event hok hs
  | push =>
      obtain ⟨cells, hlinked, hlive⟩ := h
      obtain ⟨r, hr, rfl⟩ := Option.map_eq_some_iff.mp hs
      refine ⟨cells, hlinked, fun r' hr' => ?_⟩
      rcases List.mem_append.mp hr' with hr' | hr'
      · rcases List.mem_append.mp hr' with hr' | hr'
        · exact hlive r' (List.mem_append_left _ hr')
        · obtain rfl := List.mem_singleton.mp hr'
          exact hlinked.registered_iff.mp (hok r' hr)
      · exact hlive r' (List.mem_append_right _ hr')
  | pop worker =>
      obtain ⟨cells, hlinked, hlive⟩ := h
      obtain ⟨r, queue, hqueue, rfl⟩ := step_pop hs
      refine ⟨cells, hlinked, fun r' hr' => hlive r' ?_⟩
      rw [outstanding, hqueue]
      rcases mem_outstanding_setWorker hr' with hw | hr'
      · obtain rfl := Option.some.inj hw
        exact List.mem_append_left _ List.mem_cons_self
      · rcases List.mem_append.mp (mem_outstanding_of_idle hr') with hr' | hr'
        · exact List.mem_append_left _ (List.mem_cons_of_mem _ hr')
        · exact List.mem_append_right _ hr'
  | handle worker es => exact h.handle hok hs
  | unlock worker =>
      obtain ⟨cells, hlinked, hlive⟩ := h
      obtain rfl := step_unlock hs
      exact ⟨cells, hlinked, fun r' hr' => hlive r' (mem_outstanding_of_idle hr')⟩
  | sweep mytimestamp => exact h.sweep hok hs

/-- **No use of a dead client**, in every state of every run whose steps are `Safe`: no
connection is closed while a task of its client is queued, held or about to be pushed,
no heartbeat is bad, and a first node of the registry is only deleted while its `prev`
is `NULL`. -/
theorem no_dead_client_of_safe (parse : Bytes → Option Json) (a : Addr) (n : Nat)
    (l : List Action) (hsafe : AllSteps (Server.step parse) Safe (start a n) l) :
    Along (Server.step parse) NoDeadClient (start a n) l :=
  along_of_allSteps (fun _ h => h.noDeadClient) Live.step (live_start a n) hsafe

/-- A client connects, sends a packet of a command that the server does not know, and
logs out when that one has been handled; there are two workers. -/
def quietRun : List Action :=
  [.accept 5 0 none, .event 5 (shortReads 0), .push, .pop 0, .handle 0 [], .unlock 0,
    .event 5 (shortReads HANDLE_LOGINOUT), .push, .pop 1,
    .handle 1 (closingCalls 0 5)]

/-- A client that sends one request after the other. -/
theorem no_dead_client_of_safe_quiet :
    (exec (Server.step Json.parse) (start 10 2) quietRun).isSome ∧
      Along (Server.step Json.parse) NoDeadClient (start 10 2) quietRun :=
  ⟨by decide, no_dead_client_of_safe Json.parse 10 2 quietRun (by decide)⟩

/-- A client that sends a second request behind its logout: when the logout has been
handled, the second one is in the queue and its client is freed. -/
theorem logout_leaves_dead_task :
    ∃ t, exec (Server.step Json.parse) (start 10 2)
        [.accept 5 0 none, .event 5 (shortReads HANDLE_LOGINOUT), .push, .event 5 (shortReads 0),
          .push, .pop 0, .handle 0 (closingCalls 0 5)] =
        some t ∧
      ¬ t.NoDeadClient ∧ ∃ r ∈ t.queue, t.sessions.clients.get r.task.client = none := by
  have hend : (exec (Server.step Json.parse) (start 10 2)
      [.accept 5 0 none, .event 5 (shortReads HANDLE_LOGINOUT), .push, .event 5 (shortReads 0),
        .push, .pop 0, .handle 0 (closingCalls 0 5)]).map
      (fun t => (decide t.NoDeadClient,
        decide (∃ r ∈ t.queue, t.sessions.clients.get r.task.client = none))) =
      some (false, true) := by decide
  obtain ⟨t, hrun, hend⟩ := Option.map_eq_some_iff.mp hend
  obtain ⟨hdead, hqueue⟩ := Prod.mk.inj hend
  exact ⟨t, hrun, of_decide_eq_false hdead, of_decide_eq_true hqueue⟩

end Server

end SpiderChat
