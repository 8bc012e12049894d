import SpiderChat.Closing
import SpiderChat.Sweep

/-!
# SpiderChat.Watched

**A connection inside the server.** `Watched` runs one connection, call by call of `recv`,
together with the server that it has been accepted by: `serv_epoll` handles its events as in
`SpiderChat.Traced`, and in between the accept loop, the workers, the sweep and the events of
the other connections take steps of `SpiderChat.Server`.

`Moves` says what a step can do to the registry: it stays a list from which nodes are taken
out, or it is left dangling, by the deletion of a first node that is its own `prev` and by
nothing else. With `Traced.closed_iff` this decides when a peer that has closed its end is
taken out of the registry (`close_noticed_iff`).
-/

namespace SpiderChat

open Lib

namespace Sessions

variable {s s' : Sessions} {cells : List (Addr × Fd2client)}

/-! ### When the registry is left dangling -/

theorem Linked.not_dangling (h : s.Linked cells) : ¬ s.reg.Dangling := by
  intro hdangling
  have hnone := hdangling.entries
  rw [h.reg.entries_eq] at hnone
  cases hnone

theorem Lists.delOk_iff (h : s.Lists cells) {fd2 : Addr} {node : Fd2client}
    (hget : s.reg.heap.get fd2 = some node) (hne : node.fd ≠ 0)
    (hs : s.release fd2 node.fd = some s') : s.DelOk fd2 ↔ ¬ s'.reg.Dangling := by
  constructor
  · intro hok
    obtain ⟨_, _, -, -, hlinked, -⟩ := h.linked.release hget rfl hne hok hs
    exact hlinked.not_dangling
  · intro hnot
    by_contra hok
    exact hnot (h.linked.dangling hok hs)

theorem Lists.closeOk_iff (h : s.Lists cells) {fd : Int} (hpos : 0 < fd)
    (hs : s.closeClient fd = some s') : s.CloseOk fd ↔ ¬ s'.reg.Dangling := by
  simp only [Sessions.closeClient, Option.bind_eq_bind, Option.bind_eq_some_iff] at hs
  obtain ⟨temp, hfind, hs⟩ := hs
  cases temp with
  | none =>
      obtain rfl := Option.some.inj hs
      simp [CloseOk, hfind, h.linked.not_dangling]
  | some fd2 =>
      obtain ⟨node, hget, htest⟩ := search_eq_some hfind
      obtain rfl : fd = node.fd := by simpa using htest
      rw [← h.delOk_iff hget (by omega) hs]
      simp [CloseOk, hfind]

/-- The closes of a round, from a node on. -/
theorem Lists.sweepFrom_iff {mytimestamp : Int64} :
    ∀ {n : Nat} {s : Sessions} {temp : Ptr} {cells : List (Addr × Fd2client)}, s.Lists cells →
      sweepFrom mytimestamp n s temp = some s' →
      ((∀ c ∈ closesFrom mytimestamp n s temp, c.1.DelOk c.2) ↔ ¬ s'.reg.Dangling) := by
  intro n
  induction n with
  | zero => intro s temp cells _ hs; cases hs
  | succ n ih =>
      intro s temp cells h hs
      rcases sweepFrom_cases hs with ⟨rfl, hcloses⟩ | ⟨next, hs, hcloses⟩ |
        ⟨fd2, node, s₁, hget, hfd, hrelease, hs, hcloses⟩
      · simp [hcloses, h.linked.not_dangling]
      · rw [hcloses, ih h hs]
      · rw [hcloses, List.forall_mem_cons]
        rcases h.release hget rfl hfd hrelease with ⟨-, cells', -, -, hlists, -⟩ | hdangling
        · rw [ih hlists hs, h.delOk_iff hget hfd hrelease]
          exact and_iff_right hlists.linked.not_dangling
        · rw [h.delOk_iff hget hfd hrelease]
          exact iff_of_false (fun hboth => hboth.1 hdangling)
            (fun hnot => hnot (sweepFrom_of_dangling hdangling hs))

/-! ### What a step does to the registry -/

/-- What a step does to the sessions. `ok` says that no first node is deleted that is its own
`prev`. -/
inductive Moves (s : Sessions) (ok : Prop) (s' : Sessions) : Prop
  | stays (hok : ok) (hsame : s.SameConns s') (hfd : ∀ c, s'.fdOf c = s.fdOf c)
  | accepts (hok : ok) (fd : Int) (now : Int64) (mem : Ptr)
      (haccept : s.accept fd now mem = some s')
  | drops (fd : Int) (hok : s.CloseOk fd → ok) (hpos : 0 < fd)
      (hnull : s.reg.isExistsFd fd = some none) (hclose : s' = s.close fd)
  | closes (fd : Int) (hok : ok ↔ s.CloseOk fd) (hpos : 0 < fd)
      (hclose : s.closeClient fd = some s')
  | sweeps (mytimestamp : Int64) (hok : ok ↔ ∀ c ∈ s.closes mytimestamp, c.1.DelOk c.2)
      (hsweep : s.sweep mytimestamp = some s')

variable {ok : Prop}

theorem Moves.refl (s : Sessions) (hok : ok) : s.Moves ok s := .stays hok (.refl s) fun _ => rfl

theorem isExistsFd_of_dangling (h : s.reg.Dangling) (fd : Int) : s.reg.isExistsFd fd = none := by
  rw [Registry.isExistsFd, findFd2client_of_dangling h]
  rfl

/-- No step goes through a dangling registry. -/
theorem Moves.of_dangling (h : s.Moves ok s') (hdangling : s.reg.Dangling) : s.SameConns s' := by
  cases h with
  | stays _ hsame _ => exact hsame
  | accepts _ fd now mem haccept =>
      rw [accept_of_dangling hdangling] at haccept
      cases haccept
  | drops fd _ _ hnull _ =>
      rw [isExistsFd_of_dangling hdangling] at hnull
      cases hnull
  | closes fd _ _ hclose =>
      rw [closeClient_of_dangling hdangling] at hclose
      cases hclose
  | sweeps mytimestamp _ hsweep =>
      rw [sweep_of_dangling hdangling] at hsweep
      cases hsweep

theorem Moves.dangling (h : s.Moves ok s') (hdangling : s.reg.Dangling) : s'.reg.Dangling :=
  (h.of_dangling hdangling).reg ▸ hdangling

/-- A descriptor that is not registered has no node. -/
theorem Linked.closeOk_of_null (h : s.Linked cells) {fd : Int} (hpos : 0 < fd)
    (hnull : s.reg.isExistsFd fd = some none) : s.CloseOk fd := by
  intro fd2 hfd2
  obtain ⟨p, hfind, hp⟩ : ∃ p, s.reg.findFd2client fd = some p ∧ p = some fd2 := by
    simpa [Option.join_eq_some_iff] using hfd2
  obtain ⟨node, hget, htest⟩ := search_eq_some (hp ▸ hfind)
  have hfd : fd = node.fd := by simpa using htest
  rcases h.isExistsFd hpos hnull with ⟨client, hclient, -⟩ | ⟨-, hnot⟩
  · cases hclient
  · have hcell := (h.reg.owns.get_iff fd2 node).mp hget
    have hne : node.fd ≠ 0 := by omega
    exact absurd (List.mem_map.mpr ⟨(fd2, node),
      List.mem_filter.mpr ⟨hcell, by simpa using hne⟩, by rw [hfd]⟩) (hnot node.client)

/-- **What leaves a registry dangling.** -/
theorem Moves.ok_iff (h : s.Moves ok s') (hlists : s.Lists cells) : ok ↔ ¬ s'.reg.Dangling := by
  have hlinked := hlists.linked
  cases h with
  | stays hok hsame _ => exact iff_of_true hok (hlinked.of_same hsame).not_dangling
  | accepts hok fd now mem haccept =>
      obtain ⟨cells', hlinked', -⟩ := hlinked.accept haccept
      exact iff_of_true hok hlinked'.not_dangling
  | drops fd hok hpos hnull hclose =>
      exact iff_of_true (hok (hlinked.closeOk_of_null hpos hnull))
        (hclose ▸ hlinked.not_dangling)
  | closes fd hok hpos hclose => exact hok.trans (hlists.closeOk_iff hpos hclose)
  | sweeps mytimestamp hok hsweep => exact hok.trans (hlists.sweepFrom_iff hsweep)

/-- Connections are closed, and nothing is registered but a connection that is accepted. -/
theorem Closes.entries_subset {s' : Sessions} (h : s.Closes cells s') (hlists : s.Lists cells) :
    s'.Sound ∧ s'.accepted = s.accepted ∧ ∀ e ∈ s'.entries, e ∈ s.entries := by
  obtain ⟨hshrinks, ⟨cells', hlists', hsub⟩ | hdangling⟩ := h
  · refine ⟨.lists cells' hlists', hshrinks.1, ?_⟩
    rw [hlists.entries_eq, hlists'.entries_eq]
    exact fun e he => hsub.subset he
  · refine ⟨.dangling hdangling, hshrinks.1, ?_⟩
    rw [entries_of_dangling hdangling]
    exact fun e he => absurd he List.not_mem_nil

/-- **What is registered after a step** was registered before, or has been accepted in it. -/
theorem Moves.sound (h : s.Moves ok s') (hsound : s.Sound) :
    s'.Sound ∧ s.accepted ≤ s'.accepted ∧
      ∀ e ∈ s'.entries, e ∈ s.entries ∨ e.2 = some s.accepted := by
  have hcloses : ∀ {cells}, s.Lists cells → s.Closes cells s' →
      s'.Sound ∧ s.accepted ≤ s'.accepted ∧
        ∀ e ∈ s'.entries, e ∈ s.entries ∨ e.2 = some s.accepted := by
    intro cells hlists hcloses
    obtain ⟨hsound', haccepted, hentries⟩ := hcloses.entries_subset hlists
    exact ⟨hsound', haccepted.ge, fun e he => .inl (hentries e he)⟩
  cases hsound with
  | dangling hdangling =>
      refine ⟨.dangling (h.dangling hdangling), (h.of_dangling hdangling).accepted.ge, ?_⟩
      rw [entries_of_dangling (h.dangling hdangling)]
      exact fun e he => absurd he List.not_mem_nil
  | lists cells hlists =>
      cases h with
      | stays _ hsame hfd =>
          refine ⟨.lists cells (hlists.of_same hsame hfd), hsame.accepted.ge, ?_⟩
          rw [entries, hsame.reg]
          exact fun e he => .inl he
      | accepts _ fd now mem haccept =>
          obtain ⟨cells', hlists', haccepted, hentries, -⟩ := hlists.accept haccept
          refine ⟨.lists cells' hlists', haccepted ▸ Nat.le_succ _, ?_⟩
          rw [hlists.entries_eq, hlists'.entries_eq]
          rcases hentries with heq | heq
          · rw [heq]
            exact fun e he => .inl he
          · rw [heq]
            intro e he
            rcases List.mem_append.mp he with he | he
            · exact .inl he
            · exact .inr (congrArg Prod.snd (List.mem_singleton.mp he))
      | drops fd _ hpos hnull hclose =>
          rcases hlists.linked.isExistsFd hpos hnull with ⟨client, hclient, -⟩ | ⟨-, hnot⟩
          · cases hclient
          · exact hcloses hlists (hclose ▸ hlists.close_unregistered hnot)
      | closes fd _ hpos hclose => exact hcloses hlists (hlists.closeClient hpos hclose)
      | sweeps mytimestamp _ hsweep => exact hcloses hlists (hlists.sweep hsweep)

/-- After `close_client`, no client is registered for the descriptor. -/
theorem Sound.not_mem_of_closeClient (h : s.Sound) {fd : Int} (hpos : 0 < fd)
    (hs : s.closeClient fd = some s') (client : Addr) : (fd, some client) ∉ s'.entries := by
  cases h with
  | dangling hdangling =>
      rw [closeClient_of_dangling hdangling] at hs
      cases hs
  | lists cells hlists =>
      by_cases hok : s.CloseOk fd
      · rcases hlists.linked.closeClient hpos hok hs with
          ⟨rfl, hnot⟩ | ⟨client', cells', -, hlinked', -, howner⟩
        · rw [hlists.entries_eq]
          exact hnot _
        · intro hmem
          have hopen := hlinked'.owner_of_mem (hlinked'.registered_iff.mp hmem)
          rw [howner, Function.update_self] at hopen
          cases hopen
      · have hdangling : s'.reg.Dangling := by
          by_contra hnot
          exact hok ((hlists.closeOk_iff hpos hs).mpr hnot)
        rw [entries_of_dangling hdangling]
        exact List.not_mem_nil

end Sessions

namespace Server

variable {parse : Bytes → Option Json} {s s' : Server}

/-- The step deletes no first node that is its own `prev`. -/
def DeletesOk (s : Server) : Action → Prop
  | .event fd es => readPacket.replay es = some .close → s.sessions.CloseOk fd
  | .handle worker _ => ∀ r ∈ s.held worker, r.task.Closes → s.sessions.CloseOk r.task.fd
  | .sweep mytimestamp => ∀ c ∈ s.sessions.closes mytimestamp, c.1.DelOk c.2
  | _ => True

instance (s : Server) : (i : Action) → Decidable (s.DeletesOk i)
  | .accept _ _ _ => .isTrue trivial
  | .event _ _ => inferInstanceAs (Decidable (_ → _))
  | .push => .isTrue trivial
  | .pop _ => .isTrue trivial
  | .handle worker _ => inferInstanceAs (Decidable (∀ r ∈ s.held worker, _ → _))
  | .unlock _ => .isTrue trivial
  | .sweep mytimestamp => inferInstanceAs (Decidable (∀ c ∈ s.sessions.closes mytimestamp, _))

/-- The tasks have descriptors. -/
def FdsPos (s : Server) : Prop := ∀ r ∈ s.waiting, 0 < r.task.fd

theorem FdsPos.step {i : Action} (h : s.FdsPos) (hs : s.step parse i = some s') : s'.FdsPos := by
  intro r hr
  rcases mem_waiting_step hs hr with hr | ⟨fd, es, client, conn, cmd, data, rfl, -, -, rfl⟩
  · exact h r hr
  · exact (step_event hs).1

theorem FdsPos.afterRead {fd : Int} {client conn : Addr} {outcome : ReadOutcome} (h : s.FdsPos)
    (hpos : 0 < fd) (hs : s.afterRead fd client conn outcome = some s') : s'.FdsPos := by
  intro r hr
  cases outcome with
  | skip => exact h r (Option.some.inj hs ▸ hr)
  | close =>
      obtain ⟨sessions, -, rfl⟩ := Option.map_eq_some_iff.mp hs
      exact h r hr
  | task cmd data =>
      obtain rfl := Option.some.inj hs
      rcases List.mem_append.mp hr with hr | hr
      · obtain rfl := List.mem_singleton.mp hr
        exact hpos
      · exact h r (List.mem_append_right _ hr)

/-- What the end of an event does to the sessions. -/
theorem moves_afterRead {fd : Int} {client conn : Addr} {outcome : ReadOutcome} (hpos : 0 < fd)
    (h : s.afterRead fd client conn outcome = some s') :
    s.sessions.Moves (outcome = .close → s.sessions.CloseOk fd) s'.sessions := by
  cases outcome with
  | skip => exact Option.some.inj h ▸ .refl _ nofun
  | task cmd data => exact Option.some.inj h ▸ .refl _ nofun
  | close =>
      obtain ⟨sessions, hclose, rfl⟩ := Option.map_eq_some_iff.mp h
      exact .closes fd (forall_prop_of_true rfl) hpos hclose

/-- **What a step does to the sessions.** -/
theorem moves_step {i : Action} (h : s.FdsPos) (hs : s.step parse i = some s') :
    s.sessions.Moves (s.DeletesOk i) s'.sessions := by
  cases i with
  | accept fd now mem =>
      obtain ⟨sessions, haccept, rfl⟩ := Option.map_eq_some_iff.mp hs
      exact .accepts trivial fd now mem haccept
  | event fd es =>
      obtain ⟨hpos, -, ⟨hnull, rfl⟩ | ⟨client, conn, outcome, -, -, houtcome, hs⟩⟩ := step_event hs
      · exact .drops fd (fun hok _ => hok) hpos hnull rfl
      · have hmoves := moves_afterRead hpos hs
        rwa [← Option.some_inj, ← houtcome] at hmoves
  | push =>
      obtain ⟨r, -, rfl⟩ := Option.map_eq_some_iff.mp hs
      exact .refl _ trivial
  | pop worker =>
      obtain ⟨r, queue, -, rfl⟩ := step_pop hs
      exact .refl _ trivial
  | handle worker es =>
      obtain ⟨r, ret, sessions, hheld, hruns, hexec, rfl⟩ := step_handle hs
      have hiff : s.DeletesOk (.handle worker es) ↔
          (r.task.Closes → s.sessions.CloseOk r.task.fd) := by
        simp [DeletesOk, hheld]
      rw [hiff]
      by_cases hcloses : r.task.Closes
      · obtain ⟨⟨client, rfl⟩, -⟩ := runs_handleData_of_closes hruns hcloses
        exact .closes r.task.fd (forall_prop_of_true hcloses) (h r (mem_waiting_of_held hheld))
          (Sessions.exec_respond_close hexec)
      · obtain ⟨hstay, -⟩ := runs_handleData_of_not_closes hruns hcloses
        exact .stays (fun hyes => absurd hyes hcloses) (Sessions.exec_respond_stay hstay hexec)
          fun c => Sessions.exec_fdOf hstay c hexec
  | unlock worker =>
      obtain rfl := step_unlock hs
      exact .refl _ trivial
  | sweep mytimestamp =>
      obtain ⟨sessions, hsweep, rfl⟩ := Option.map_eq_some_iff.mp hs
      exact .sweeps mytimestamp .rfl hsweep

/-- The server with tasks that have descriptors, its registry a list or dangling. -/
structure Ready (s : Server) : Prop where
  sound : s.sessions.Sound
  fds : s.FdsPos

theorem ready_start (a : Addr) (n : Nat) : (start a n).Ready := by
  obtain ⟨cells, hlinked, hnil⟩ := Sessions.linked_init a
  refine ⟨.lists cells ⟨hlinked, ?_, Sessions.noClient_init a⟩, ?_⟩
  · intro fd c hmem
    rw [hnil] at hmem
    cases hmem
  · intro r hr
    simp [waiting, start, Worker.unhandled] at hr

theorem Ready.step (s : Server) (i : Action) (s' : Server) (h : s.Ready)
    (hs : s.step parse i = some s') : s'.Ready :=
  ⟨((moves_step h.fds hs).sound h.sound).1, h.fds.step hs⟩

/-- What `serv_epoll` does to the server in a step of the connection `conn`, which has the
descriptor `fd`. While it reads, the descriptor must be open for this connection. -/
def follow (s : Server) (fd : Int) (conn : Addr) (c : Conn) : Conn.Label → Option Server
  | .event =>
      if 0 < fd ∧ s.pending.isNone ∧ s.sessions.owner fd = some conn ∧
          s.sessions.reg.isExistsFd fd = some (some conn) then some s else none
  | .turn =>
      if s.sessions.owner fd = some conn then
        match c.reader.bind Prog.result with
        | some outcome => s.afterRead fd conn conn outcome
        | none => some s
      else none
  | _ => some s

/-- Only the end of an event changes the server. -/
theorem follow_cases {fd : Int} {conn : Addr} {c : Conn} {i : Conn.Label}
    (h : s.follow fd conn c i = some s') :
    (s' = s ∧ (i = .turn → c.reader.bind Prog.result = none)) ∨
      ∃ outcome, i = .turn ∧ c.reader.bind Prog.result = some outcome ∧
        s.afterRead fd conn conn outcome = some s' := by
  cases i with
  | arrive n coalesce => exact .inl ⟨(Option.some.inj h).symm, nofun⟩
  | eof coalesce => exact .inl ⟨(Option.some.inj h).symm, nofun⟩
  | event =>
      rw [follow] at h
      split at h
      · exact .inl ⟨(Option.some.inj h).symm, nofun⟩
      · cases h
  | turn =>
      rw [follow] at h
      split at h
      · split at h
        · rename_i outcome houtcome
          exact .inr ⟨outcome, rfl, houtcome, h⟩
        · rename_i hnone
          exact .inl ⟨(Option.some.inj h).symm, fun _ => hnone⟩
      · cases h

end Server

/-- A connection, and the server that has accepted it. -/
structure Watched where
  peer : Traced
  server : Server

/-- A step of the connection, or of the rest of the server. -/
inductive Watch
  | own (i : Conn.Label)
  | other (i : Action)

/-- The step of the connection, if it is one. -/
def Watch.label : Watch → Option Conn.Label
  | .own i => some i
  | .other _ => none

namespace Watched

/-- `serv_epoll` handles an event of another connection, and none of `conn` meanwhile. -/
def Apart (w : Watched) (fd : Int) (conn : Addr) : Action → Prop
  | .event fd' _ => w.peer.conn.reader.isNone ∧ (fd' = fd → w.server.sessions.owner fd ≠ some conn)
  | _ => True

instance (w : Watched) (fd : Int) (conn : Addr) : (i : Action) → Decidable (w.Apart fd conn i)
  | .event _ _ => inferInstanceAs (Decidable (_ ∧ _))
  | .accept _ _ _ => .isTrue trivial
  | .push => .isTrue trivial
  | .pop _ => .isTrue trivial
  | .handle _ _ => .isTrue trivial
  | .unlock _ => .isTrue trivial
  | .sweep _ => .isTrue trivial

/-- The step relation. -/
def step (parse : Bytes → Option Json) (fd : Int) (conn : Addr) (w : Watched) :
    Watch → Option Watched
  | .own i => do
      let peer ← w.peer.step i
      let server ← w.server.follow fd conn w.peer.conn i
      some ⟨peer, server⟩
  | .other i =>
      if w.Apart fd conn i then
        (w.server.step parse i).map fun server => { w with server }
      else none

/-- The step deletes no first node that is its own `prev`. -/
def DeletesOk (fd : Int) (w : Watched) : Watch → Prop
  | .own i => i = .turn → w.peer.conn.reader.bind Prog.result = some .close →
      w.server.sessions.CloseOk fd
  | .other i => w.server.DeletesOk i

instance (fd : Int) (w : Watched) : (i : Watch) → Decidable (w.DeletesOk fd i)
  | .own _ => inferInstanceAs (Decidable (_ → _ → _))
  | .other i => inferInstanceAs (Decidable (w.server.DeletesOk i))

/-- The connection's client is not registered for its descriptor, and it is not found. -/
def Gone (w : Watched) (fd : Int) (conn : Addr) : Prop :=
  (∃ p, w.server.sessions.reg.isExistsFd fd = some p ∧ p ≠ some conn) ∧
    ∀ uid, w.server.sessions.findClientByUid uid ≠ some (some conn)

variable {parse : Bytes → Option Json} {fd : Int} {conn : Addr} {w w' : Watched}

theorem step_own {i : Conn.Label} (h : w.step parse fd conn (.own i) = some w') :
    w.peer.step i = some w'.peer ∧ w.server.follow fd conn w.peer.conn i = some w'.server := by
  simp only [step, Option.bind_eq_bind, Option.bind_eq_some_iff] at h
  obtain ⟨peer, hpeer, server, hserver, h⟩ := h
  obtain rfl := Option.some.inj h
  exact ⟨hpeer, hserver⟩

theorem step_other {i : Action} (h : w.step parse fd conn (.other i) = some w') :
    w'.peer = w.peer ∧ w.server.step parse i = some w'.server := by
  rw [step] at h
  split at h
  · obtain ⟨server, hserver, rfl⟩ := Option.map_eq_some_iff.mp h
    exact ⟨rfl, hserver⟩
  · cases h

/-- The connection runs as it does on its own. -/
theorem simulates_peer :
    Simulates (fun _ => True) (step parse fd conn) Traced.step peer Watch.label where
  keeps _ _ _ _ _ := trivial
  own w i k w' _ hk hs := by
    cases i with
    | own i => exact Option.some.inj hk ▸ (step_own hs).1
    | other i => cases hk
  other w i w' _ hk hs := by
    cases i with
    | own i => cases hk
    | other i => exact (step_other hs).1

theorem moves_own (hpos : 0 < fd) {i : Conn.Label}
    (h : w.step parse fd conn (.own i) = some w') :
    w.server.sessions.Moves (w.DeletesOk fd (.own i)) w'.server.sessions := by
  rcases Server.follow_cases (step_own h).2 with ⟨heq, hnone⟩ | ⟨outcome, rfl, houtcome, hafter⟩
  · rw [heq]
    refine .refl _ fun hturn hclose => ?_
    rw [hnone hturn] at hclose
    cases hclose
  · have hmoves := Server.moves_afterRead hpos hafter
    simpa [DeletesOk, houtcome] using hmoves

/-- The invariant: when the connection's client is registered, then for its descriptor, and
`serv_epoll` has not closed it. -/
structure Inv (fd : Int) (conn : Addr) (w : Watched) : Prop where
  server : w.server.Ready
  pos : 0 < fd
  accepted : conn < w.server.sessions.accepted
  entry : ∀ e ∈ w.server.sessions.entries, e.2 = some conn → e.1 = fd ∧ w.peer.conn.closed = false

/-- **What a step does to the registry**, from any state of a run. -/
theorem Inv.moves {i : Watch} (h : w.Inv fd conn) (hs : w.step parse fd conn i = some w') :
    w.server.sessions.Moves (w.DeletesOk fd i) w'.server.sessions := by
  cases i with
  | own i => exact moves_own h.pos hs
  | other i => exact Server.moves_step h.server.fds (step_other hs).2

theorem Inv.fds_step {i : Watch} (h : w.Inv fd conn) (hs : w.step parse fd conn i = some w') :
    w'.server.FdsPos := by
  cases i with
  | own i =>
      rcases Server.follow_cases (step_own hs).2 with ⟨heq, -⟩ | ⟨outcome, -, -, hafter⟩
      · exact heq ▸ h.server.fds
      · exact h.server.fds.afterRead h.pos hafter
  | other i => exact h.server.fds.step (step_other hs).2

/-- A step that leaves the client registered does not close its connection. -/
theorem Inv.closed_step {i : Watch} (h : w.Inv fd conn) (hs : w.step parse fd conn i = some w')
    (hmem : (fd, some conn) ∈ w'.server.sessions.entries) :
    w'.peer.conn.closed = w.peer.conn.closed := by
  cases i with
  | other i => rw [(step_other hs).1]
  | own i =>
      obtain ⟨hpeer, hserver⟩ := step_own hs
      rcases Traced.step_cases hpeer with ⟨-, -, hsame, -⟩ | ⟨-, -, -, heq⟩ |
        ⟨outcome, rfl, hreader, heq⟩ | ⟨c, k, -, -, heq⟩
      · exact hsame.closed
      · rw [heq]
      · rcases Server.follow_cases hserver with ⟨-, hnone⟩ | ⟨outcome', -, houtcome, hafter⟩
        · have hcontra := hnone rfl
          rw [hreader] at hcontra
          cases hcontra
        · rw [hreader] at houtcome
          obtain rfl : outcome = outcome' := Option.some.inj houtcome
          rw [heq]
          cases outcome with
          | skip => rfl
          | task cmd data => rfl
          | close =>
              obtain ⟨sessions, hclose, hserver'⟩ := Option.map_eq_some_iff.mp hafter
              rw [← hserver'] at hmem
              exact absurd hmem
                (h.server.sound.not_mem_of_closeClient h.pos hclose conn)
      · rw [heq]

/-- **The step lemma.** -/
theorem Inv.step (w : Watched) (i : Watch) (w' : Watched) (h : w.Inv fd conn)
    (hs : w.step parse fd conn i = some w') : w'.Inv fd conn := by
  obtain ⟨hsound, hle, hentries⟩ := (h.moves hs).sound h.server.sound
  refine ⟨⟨hsound, h.fds_step hs⟩, h.pos, h.accepted.trans_le hle, fun e he hconn => ?_⟩
  have hold : e ∈ w.server.sessions.entries := by
    rcases hentries e he with hold | hnew
    · exact hold
    · have heq : conn = w.server.sessions.accepted := Option.some.inj (hconn.symm.trans hnew)
      exact absurd h.accepted (heq ▸ Nat.lt_irrefl conn)
  obtain ⟨hfd, hclosed⟩ := h.entry e hold hconn
  refine ⟨hfd, ?_⟩
  rw [h.closed_step hs (by rw [← hfd, ← hconn]; exact he), hclosed]

/-- A connection that has just been accepted. -/
theorem inv_accept {s s' : Server} {now : Int64} {mem : Ptr} (sent : Bytes) (closes : Bool)
    (h : s.Ready) (hs : s.step parse (.accept fd now mem) = some s') :
    Inv fd s.sessions.accepted ⟨.start sent closes, s'⟩ := by
  obtain ⟨sessions, haccept, rfl⟩ := Option.map_eq_some_iff.mp hs
  have hready := h.step _ _ _ hs
  cases h.sound with
  | dangling hdangling =>
      rw [Sessions.accept_of_dangling hdangling] at haccept
      cases haccept
  | lists cells hlists =>
      obtain ⟨cells', hlists', haccepted, hentries, -⟩ := hlists.accept haccept
      have hpos : 0 < fd := by
        rw [Sessions.accept] at haccept
        split at haccept
        · rename_i hguard
          exact hguard.1
        · cases haccept
      refine ⟨hready, hpos, haccepted ▸ Nat.lt_succ_self _, fun e he hconn => ⟨?_, rfl⟩⟩
      -- the connections from before have smaller numbers
      have hold : e ∉ entriesOf cells := by
        intro hmem
        obtain ⟨fd', p⟩ := e
        obtain rfl : p = some s.sessions.accepted := hconn
        exact absurd (hlists.linked.owner_lt fd' _ (hlists.linked.owner_of_mem hmem))
          (Nat.lt_irrefl _)
      change e ∈ sessions.entries at he
      rw [hlists'.entries_eq] at he
      rcases hentries with heq | heq
      · exact absurd (heq ▸ he) hold
      · rw [heq] at he
        rcases List.mem_append.mp he with he | he
        · exact absurd he hold
        · exact congrArg Prod.fst (List.mem_singleton.mp he)

/-- **When the registry is intact** at the end of a run. -/
theorem allSteps_deletesOk_iff {l : List Watch} {t : Watched} (h : w.Inv fd conn)
    (hstart : ¬ w.server.sessions.reg.Dangling)
    (hrun : exec (step parse fd conn) w l = some t) :
    AllSteps (step parse fd conn) (DeletesOk fd) w l ↔ ¬ t.server.sessions.reg.Dangling := by
  have hok : ∀ (w : Watched) i w', w.Inv fd conn ∧ ¬ w.server.sessions.reg.Dangling →
      w.step parse fd conn i = some w' →
      (w.DeletesOk fd i ↔ ¬ w'.server.sessions.reg.Dangling) := by
    intro w i w' hw hs
    obtain ⟨hinv, hnot⟩ := hw
    cases hinv.server.sound with
    | lists cells hlists => exact (hinv.moves hs).ok_iff hlists
    | dangling hdangling => exact absurd hdangling hnot
  have hstep : ∀ (w : Watched) i w', w.Inv fd conn ∧ ¬ w.server.sessions.reg.Dangling →
      w.DeletesOk fd i → w.step parse fd conn i = some w' →
      w'.Inv fd conn ∧ ¬ w'.server.sessions.reg.Dangling :=
    fun w i w' hw hdel hs => ⟨hw.1.step w i w' hs, (hok w i w' hw hs).mp hdel⟩
  constructor
  · intro hsteps
    exact (hsteps.last hstep ⟨h, hstart⟩ hrun).2
  · intro hnot
    have hlost : ∀ (w : Watched) i w', (w.Inv fd conn ∧ w.server.sessions.reg.Dangling) →
        w.step parse fd conn i = some w' →
        w'.Inv fd conn ∧ w'.server.sessions.reg.Dangling :=
      fun w i w' hw hs => ⟨hw.1.step w i w' hs, (hw.1.moves hs).dangling hw.2⟩
    refine allSteps_of_last hstep (fun w i w' hw hbad hs => ?_) hlost ⟨h, hstart⟩ hrun
      fun hboth => hnot hboth.2
    exact ⟨hw.1.step w i w' hs, not_not.mp fun hno => hbad ((hok w i w' hw hs).mpr hno)⟩

/-- **When `serv_epoll` has closed the connection**: when an event has found its buffer
empty. -/
theorem closed_iff {sent : Bytes} {closes : Bool} {s : Server} {l : List Watch} {t : Watched}
    (hrun : exec (step parse fd conn) ⟨.start sent closes, s⟩ l = some t)
    (hidle : t.peer.conn.reader = none) :
    t.peer.conn.closed = true ↔ ∃ l₁ l₂ m, l = l₁ ++ .own .turn :: l₂ ∧
      exec (step parse fd conn) ⟨.start sent closes, s⟩ l₁ = some m ∧ m.peer.AtHead ∧
      m.peer.conn.avail = [] := by
  have hpeer := simulates_peer.exec trivial hrun
  rw [Traced.closed_iff hpeer hidle, ← simulates_peer.allSteps_iff trivial hrun,
    not_allSteps_iff hrun]
  constructor
  · intro h
    obtain ⟨l₁, i, l₂, m, rfl, hm, hbad⟩ := h
    simp only [Traced.FindsByte, not_forall, not_not] at hbad
    obtain ⟨k, hk, rfl, hhead, havail⟩ := hbad
    cases i with
    | other i => cases hk
    | own i =>
        obtain rfl := Option.some.inj hk
        exact ⟨l₁, l₂, m, rfl, hm, hhead, havail⟩
  · intro h
    obtain ⟨l₁, l₂, m, rfl, hm, hhead, havail⟩ := h
    exact ⟨l₁, .own .turn, l₂, m, rfl, hm, fun hfinds => hfinds .turn rfl rfl hhead havail⟩

/-- Behind `close_client`, the client is gone when the registry is intact. -/
theorem Inv.gone_iff (h : w.Inv fd conn) (hclosed : w.peer.conn.closed = true) :
    w.Gone fd conn ↔ ¬ w.server.sessions.reg.Dangling := by
  constructor
  · intro hgone hdangling
    obtain ⟨⟨p, hp, -⟩, -⟩ := hgone
    rw [Sessions.isExistsFd_of_dangling hdangling] at hp
    cases hp
  · intro hnot
    cases h.server.sound with
    | dangling hdangling => exact absurd hdangling hnot
    | lists cells hlists =>
        have hgone : ∀ fd', (fd', some conn) ∉ entriesOf cells := by
          intro fd' hmem
          rw [← hlists.entries_eq] at hmem
          rw [(h.entry _ hmem rfl).2] at hclosed
          cases hclosed
        constructor
        · have hp := hlists.linked.reg.isExistsFd_eq fd
          refine ⟨_, hp, fun heq => ?_⟩
          rw [heq] at hp
          rcases hlists.linked.isExistsFd h.pos hp with ⟨client, hclient, hmem⟩ | ⟨hnone, -⟩
          · exact hgone fd (Option.some.inj hclient ▸ hmem)
          · cases hnone
        · intro uid hfound
          obtain ⟨fd', hmem⟩ := hlists.mem_of_findClientByUid hfound
          exact hgone fd' hmem

/-- **A peer that has closed its end is noticed**, and its client taken out of the registry,
if and only if some event finds the buffer empty with its first `recv`, and in no step of the
run a first node of the registry is deleted that is its own `prev`. -/
theorem close_noticed_iff (parse : Bytes → Option Json) (a : Addr) (n : Nat)
    (before : List Action) (s₀ s : Server) (fd : Int) (now : Int64) (mem : Ptr) (sent : Bytes)
    (l : List Watch) (t : Watched)
    (hbefore : exec (Server.step parse) (.start a n) before = some s₀)
    (haccept : s₀.step parse (.accept fd now mem) = some s)
    (hrun : exec (step parse fd s₀.sessions.accepted) ⟨.start sent true, s⟩ l = some t)
    (hdone : t.peer.conn.Complete) :
    (t.peer.conn.closed = true ∧ t.Gone fd s₀.sessions.accepted) ↔
      (∃ l₁ l₂ m, l = l₁ ++ .own .turn :: l₂ ∧
        exec (step parse fd s₀.sessions.accepted) ⟨.start sent true, s⟩ l₁ = some m ∧
        m.peer.AtHead ∧ m.peer.conn.avail = []) ∧
      AllSteps (step parse fd s₀.sessions.accepted) (DeletesOk fd) ⟨.start sent true, s⟩ l := by
  have hready : s₀.Ready := exec_invariant Server.Ready.step (Server.ready_start a n) hbefore
  have hinv := inv_accept sent true hready haccept
  have hend : t.Inv fd s₀.sessions.accepted := exec_invariant Inv.step hinv hrun
  have hstart : ¬ s.sessions.reg.Dangling := by
    cases hready.sound with
    | lists cells hlists =>
        exact ((Server.moves_step hready.fds haccept).ok_iff hlists).mp trivial
    | dangling hdangling =>
        obtain ⟨sessions, hnone, -⟩ := Option.map_eq_some_iff.mp haccept
        rw [Sessions.accept_of_dangling hdangling] at hnone
        cases hnone
  rw [allSteps_deletesOk_iff hinv hstart hrun, ← closed_iff hrun hdone.reader_none]
  exact and_congr_right fun hclosed => hend.gone_iff hclosed

/-- A run of a connection that is accepted behind `before` and sends one packet, with the
server before and after its accept. -/
def watch (before : List Action) (fd : Int) (mem : Ptr) (l : List Watch) :
    Option (Server × Server × Watched) := do
  let s₀ ← exec (Server.step Json.parse) (.start 10 2) before
  let s ← s₀.step Json.parse (.accept fd 0 mem)
  let t ← exec (step Json.parse fd s₀.sessions.accepted) ⟨.start hiPacket.bytes true, s⟩ l
  some (s₀, s, t)

theorem watch_eq_some {before : List Action} {mem : Ptr} {l : List Watch} {s₀ s : Server}
    {t : Watched} (h : watch before fd mem l = some (s₀, s, t)) :
    exec (Server.step Json.parse) (.start 10 2) before = some s₀ ∧
      s₀.step Json.parse (.accept fd 0 mem) = some s ∧
      exec (step Json.parse fd s₀.sessions.accepted) ⟨.start hiPacket.bytes true, s⟩ l =
        some t := by
  simp only [watch, Option.bind_eq_bind, Option.bind_eq_some_iff, Option.some.injEq] at h
  obtain ⟨_, hbefore, _, haccept, _, hrun, heq⟩ := h
  simp only [Prod.mk.injEq] at heq
  obtain ⟨rfl, rfl, rfl⟩ := heq
  exact ⟨hbefore, haccept, hrun⟩

/-- The packet is read by an event of its own, and queued. -/
def apartRun : List Watch :=
  .own (.arrive 17 false) :: wholeEvent.map .own ++ [.other .push, .own (.eof false), .own .event]

/-- A packet and the end of the stream, with an event each, beside another client: the second
event closes. -/
theorem close_noticed_iff_apart :
    ∃ s₀ s t, watch [.accept 6 0 none] 5 (some 2) (apartRun ++ [.own .turn, .own .turn]) =
        some (s₀, s, t) ∧
      t.peer.conn.tasks = [hiPacket.task] ∧ t.peer.conn.closed = true ∧
      t.Gone 5 s₀.sessions.accepted := by
  have hend : (watch [.accept 6 0 none] 5 (some 2) (apartRun ++ [.own .turn, .own .turn])).map
      (fun p => (decide p.2.2.peer.conn.Complete, decide (p.2.2.peer.conn.tasks = [hiPacket.task]),
        (exec (step Json.parse 5 p.1.sessions.accepted) ⟨.start hiPacket.bytes true, p.2.1⟩
          apartRun).map (fun m => decide (m.peer.AtHead ∧ m.peer.conn.avail = [])),
        decide (AllSteps (step Json.parse 5 p.1.sessions.accepted) (DeletesOk 5)
          ⟨.start hiPacket.bytes true, p.2.1⟩ (apartRun ++ [.own .turn, .own .turn])))) =
      some (true, true, some true, true) := by decide
  obtain ⟨⟨s₀, s, t⟩, hwatch, hend⟩ := Option.map_eq_some_iff.mp hend
  simp only [Prod.mk.injEq] at hend
  obtain ⟨hdone, htasks, hmid, hdeletes⟩ := hend
  obtain ⟨m, hm, hhead⟩ := Option.map_eq_some_iff.mp hmid
  obtain ⟨hbefore, haccept, hrun⟩ := watch_eq_some hwatch
  exact ⟨s₀, s, t, hwatch, of_decide_eq_true htasks,
    (close_noticed_iff Json.parse 10 2 _ s₀ s 5 0 (some 2) hiPacket.bytes _ t hbefore haccept hrun
      (of_decide_eq_true hdone)).mpr ⟨⟨apartRun, [.own .turn], m, rfl, hm,
        of_decide_eq_true hhead⟩, of_decide_eq_true hdeletes⟩⟩

/-- A packet and the end of the stream reported by one event, which reads the packet: the
end is not noticed, and the client stays. -/
theorem coalesced_close_missed :
    ∃ s₀ s t, watch [] 5 none
        (.own (.arrive 17 false) :: .own (.eof true) :: wholeEvent.map .own) = some (s₀, s, t) ∧
      t.peer.conn.Complete ∧ t.peer.conn.fin = true ∧ t.peer.conn.closed = false ∧
      t.server.sessions.reg.isExistsFd 5 = some (some s₀.sessions.accepted) ∧
      t.server.sessions.findClientByUid 0 = some (some s₀.sessions.accepted) := by
  have hend : (watch [] 5 none
      (.own (.arrive 17 false) :: .own (.eof true) :: wholeEvent.map .own)).map
      (fun p => (decide p.2.2.peer.conn.Complete, p.2.2.peer.conn.fin, p.2.2.peer.conn.closed,
        decide (p.2.2.server.sessions.reg.isExistsFd 5 = some (some p.1.sessions.accepted)),
        decide (p.2.2.server.sessions.findClientByUid 0 = some (some p.1.sessions.accepted)))) =
      some (true, true, false, true, true) := by decide
  obtain ⟨⟨s₀, s, t⟩, hwatch, hend⟩ := Option.map_eq_some_iff.mp hend
  simp only [Prod.mk.injEq, decide_eq_true_eq] at hend
  exact ⟨s₀, s, t, hwatch, hend⟩

/-- The first client has closed its connection, and the second one does: its node is its own
`prev`, and the registry is left dangling. -/
theorem second_close_dangling :
    ∃ s₀ s t, watch [.accept 5 0 none] 6 (some 2)
        ([.other (.event 5 [⟨.recv 4, .eof⟩])] ++ apartRun ++ [.own .turn, .own .turn]) =
        some (s₀, s, t) ∧
      t.peer.conn.Complete ∧ t.peer.conn.closed = true ∧ ¬ t.Gone 6 s₀.sessions.accepted := by
  have hend : (watch [.accept 5 0 none] 6 (some 2)
      ([.other (.event 5 [⟨.recv 4, .eof⟩])] ++ apartRun ++ [.own .turn, .own .turn])).map
      (fun p => (decide p.2.2.peer.conn.Complete, p.2.2.peer.conn.closed,
        p.2.2.server.sessions.reg.isExistsFd 6)) = some (true, true, none) := by decide +kernel
  obtain ⟨⟨s₀, s, t⟩, hwatch, hend⟩ := Option.map_eq_some_iff.mp hend
  simp only [Prod.mk.injEq] at hend
  obtain ⟨hdone, hclosed, hexists⟩ := hend
  refine ⟨s₀, s, t, hwatch, of_decide_eq_true hdone, hclosed, fun hgone => ?_⟩
  obtain ⟨⟨p, hp, -⟩, -⟩ := hgone
  rw [hexists] at hp
  cases hp

end Watched

end SpiderChat
