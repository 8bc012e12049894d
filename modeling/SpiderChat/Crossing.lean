import SpiderChat.Server

/-!
# SpiderChat.Crossing

**Replies and closes, and the connection they reach.** A task names its connection by
the number of its descriptor, and the kernel hands out the number again once the
descriptor is closed. A task that is handled after that is answered on, or closes, the
connection that has the number then.

`Fresh` is the condition on a step under which this does not happen: `accept` does not
return a number that a task still to be handled has.
-/

namespace SpiderChat

open Lib

/-- A reply on a descriptor, or a call of `close_client` for it. -/
def Call.OnFd (fd : Int) : Call → Prop
  | .send fd' _ => fd' = fd
  | .closeClient fd' => fd' = fd
  | _ => False

namespace Sessions

/-- The connections that a call reaches: `send` writes to the one that the descriptor is
open for, and `close_client` closes it and frees the client that is registered. -/
def Reaches (s : Sessions) (conn : Addr) : Call → Prop
  | .send fd _ => s.owner fd = some conn
  | .closeClient fd => ∃ client, s.reg.isExistsFd fd = some (some client) ∧
      (s.owner fd = some conn ∨ client = conn)
  | _ => False

end Sessions

namespace Server

variable {parse : Bytes → Option Json} {s s' : Server}

/-- When the step handles a task, every reply on the task's descriptor and every close
of it reaches the connection that the task was received on, and no other. -/
def NoCross (parse : Bytes → Option Json) (s : Server) (i : Action) : Prop :=
  ∀ worker es s' r, i = .handle worker es → s.step parse i = some s' → s.held worker = some r →
    ∀ es₁ e es₂ m conn, es = es₁ ++ e :: es₂ → exec Sessions.respond s.sessions es₁ = some m →
      e.1.OnFd r.task.fd → m.Reaches conn e.1 → conn = r.conn

/-- The condition on a step. -/
def Fresh (s : Server) : Action → Prop
  | .accept fd _ _ => ∀ r ∈ s.waiting, r.task.fd ≠ fd
  | .event fd es => readPacket.replay es = some .close → s.sessions.CloseOk fd
  | .handle worker _ => ∀ r ∈ s.held worker, r.task.Closes → s.sessions.CloseOk r.task.fd
  | .sweep mytimestamp => ∀ c ∈ s.sessions.closes mytimestamp, c.1.DelOk c.2
  | _ => True

instance (s : Server) : (i : Action) → Decidable (s.Fresh i)
  | .accept fd _ _ => inferInstanceAs (Decidable (∀ r ∈ s.waiting, r.task.fd ≠ fd))
  | .event _ _ => inferInstanceAs (Decidable (_ → _))
  | .push => .isTrue trivial
  | .pop _ => .isTrue trivial
  | .handle worker _ => inferInstanceAs (Decidable (∀ r ∈ s.held worker, _ → _))
  | .unlock _ => .isTrue trivial
  | .sweep mytimestamp => inferInstanceAs (Decidable (∀ c ∈ s.sessions.closes mytimestamp, _))

/-- The registry of `m` is linked, and the descriptor of a task that is still to be
handled in `s` is open for the task's connection or not at all. -/
def OwnedIn (s : Server) (m : Sessions) : Prop :=
  ∃ cells, m.Linked cells ∧
    ∀ r ∈ s.waiting, 0 < r.task.fd ∧ ∀ conn, m.owner r.task.fd = some conn → conn = r.conn

/-- The invariant. -/
def Owned (s : Server) : Prop := s.OwnedIn s.sessions

theorem Owned.fd_pos {r : Request} (h : s.Owned) (hr : r ∈ s.waiting) : 0 < r.task.fd := by
  obtain ⟨-, -, howned⟩ := h
  exact (howned r hr).1

theorem owned_start (a : Addr) (n : Nat) : (start a n).Owned := by
  obtain ⟨cells, hlinked, -⟩ := Sessions.linked_init a
  have hnone : (start a n).waiting = [] := by
    simp [waiting, start, Worker.unhandled]
  exact ⟨cells, hlinked, fun r hr => by rw [hnone] at hr; cases hr⟩

/-- Closing a descriptor keeps the tasks apart. -/
theorem OwnedIn.of_close {m m' : Sessions} {cells : List (Addr × Fd2client)} {fd : Int}
    (h : s.OwnedIn m) (hlinked : m'.Linked cells)
    (howner : m'.owner = Function.update m.owner fd none) : s.OwnedIn m' := by
  obtain ⟨-, -, howned⟩ := h
  refine ⟨cells, hlinked, fun r hr => ⟨(howned r hr).1, fun conn hconn => (howned r hr).2 conn ?_⟩⟩
  rw [howner, Function.update_apply] at hconn
  split at hconn
  · cases hconn
  · exact hconn

/-- Fewer tasks to be handled. -/
theorem OwnedIn.of_subset {m : Sessions} (h : s.OwnedIn m)
    (hsub : ∀ r ∈ s'.waiting, r ∈ s.waiting) : s'.OwnedIn m := by
  obtain ⟨cells, hlinked, howned⟩ := h
  exact ⟨cells, hlinked, fun r hr => howned r (hsub r hr)⟩

theorem OwnedIn.closeClient {m m' : Sessions} {fd : Int} (h : s.OwnedIn m) (hpos : 0 < fd)
    (hok : m.CloseOk fd) (hs : m.closeClient fd = some m') : s.OwnedIn m' := by
  have howned := h
  obtain ⟨cells, hlinked, -⟩ := h
  rcases hlinked.closeClient hpos hok hs with ⟨rfl, -⟩ | ⟨client, cells', -, hlinked', -, howner⟩
  · exact howned
  · exact howned.of_close hlinked' howner

theorem Owned.handle {worker : Nat} {es : List HandlerEvent} (h : s.Owned)
    (hok : s.Fresh (.handle worker es)) (hs : s.step parse (.handle worker es) = some s') :
    s'.Owned := by
  have hsub := waiting_subset_step hs nofun
  obtain ⟨r, ret, sessions, hheld, hruns, hexec, rfl⟩ := step_handle hs
  refine OwnedIn.of_subset (s := s) ?_ hsub
  by_cases hcloses : r.task.Closes
  · obtain ⟨⟨client, rfl⟩, -⟩ := runs_handleData_of_closes hruns hcloses
    have hclose := Sessions.exec_respond_close hexec
    have hpos := h.fd_pos (mem_waiting_of_held hheld)
    exact OwnedIn.closeClient h hpos (hok r hheld hcloses) hclose
  · obtain ⟨hstay, -⟩ := runs_handleData_of_not_closes hruns hcloses
    have hsame := Sessions.exec_respond_stay hstay hexec
    obtain ⟨cells, hlinked, howned⟩ := h
    exact ⟨cells, hlinked.of_same hsame, fun r' hr' => hsame.owner ▸ howned r' hr'⟩

/-- **The step lemma.** -/
theorem Owned.step (s : Server) (i : Action) (s' : Server) (h : s.Owned) (hok : s.Fresh i)
    (hs : s.step parse i = some s') : s'.Owned := by
  cases i with
  | accept fd now mem =>
      obtain ⟨cells, hlinked, howned⟩ := h
      obtain ⟨sessions, haccept, rfl⟩ := Option.map_eq_some_iff.mp hs
      obtain ⟨cells', hlinked', -, howner, -⟩ := hlinked.accept haccept
      refine ⟨cells', hlinked', fun r hr => ⟨(howned r hr).1, fun conn hconn => ?_⟩⟩
      change sessions.owner r.task.fd = some conn at hconn
      rw [howner, Function.update_of_ne (hok r hr)] at hconn
      exact (howned r hr).2 conn hconn
  | event fd es =>
      obtain ⟨hpos, hpending, ⟨hnull, rfl⟩ | ⟨client, conn, outcome, -, hconn, houtcome, hs⟩⟩ :=
        step_event hs
      · have howned := h
        obtain ⟨cells, hlinked, -⟩ := h
        rcases hlinked.isExistsFd hpos hnull with ⟨client, hclient, -⟩ | ⟨-, hnot⟩
        · cases hclient
        · exact OwnedIn.of_close howned (hlinked.close_unregistered hnot) rfl
      · cases outcome with
        | skip => exact Option.some.inj hs ▸ h
        | task cmd data =>
            obtain rfl := Option.some.inj hs
            obtain ⟨cells, hlinked, howned⟩ := h
            refine ⟨cells, hlinked, fun r hr => ?_⟩
            rcases List.mem_append.mp hr with hr | hr
            · obtain rfl := List.mem_singleton.mp hr
              exact ⟨hpos, fun conn' hconn' => Option.some.inj (hconn'.symm.trans hconn)⟩
            · exact howned r (List.mem_append_right _ hr)
        | close =>
            obtain ⟨sessions, hclose, rfl⟩ := Option.map_eq_some_iff.mp hs
            exact OwnedIn.closeClient h hpos (hok houtcome) hclose
  | push =>
      have hsub := waiting_subset_step hs nofun
      obtain ⟨r, -, rfl⟩ := Option.map_eq_some_iff.mp hs
      exact OwnedIn.of_subset (s := s) h hsub
  | pop worker =>
      have hsub := waiting_subset_step hs nofun
      obtain ⟨r, queue, -, rfl⟩ := step_pop hs
      exact OwnedIn.of_subset (s := s) h hsub
  | handle worker es => exact h.handle hok hs
  | unlock worker =>
      have hsub := waiting_subset_step hs nofun
      obtain rfl := step_unlock hs
      exact OwnedIn.of_subset (s := s) h hsub
  | sweep mytimestamp =>
      obtain ⟨sessions, hsweep, rfl⟩ := Option.map_eq_some_iff.mp hs
      have hcloses : ∀ c ∈ s.sessions.closes mytimestamp, c.1.DelOk c.2 := hok
      refine Sessions.sweepFrom_induction (P := s.OwnedIn) ?_ h hcloses hsweep
      intro m fd2 node m' hm hdel hget hne hrelease
      have howned := hm
      obtain ⟨cells, hlinked, -⟩ := hm
      obtain ⟨client, cells', -, -, hlinked', -, howner⟩ :=
        hlinked.release hget rfl hne hdel hrelease
      exact howned.of_close hlinked' howner

theorem append_cons_eq_pair {α : Type} {l l' : List α} {e a b : α} (h : l ++ e :: l' = [a, b]) :
    (l = [] ∧ e = a) ∨ (l = [a] ∧ e = b) := by
  rcases l with _ | ⟨x, _ | ⟨y, l⟩⟩ <;> simp_all

/-- What the invariant says about the handling of a task. -/
theorem Owned.noCross {i : Action} (h : s.Owned) : s.NoCross parse i := by
  intro worker es s' r heq hs hheld es₁ e es₂ m conn heq₁ hm hon hreach
  subst heq
  subst heq₁
  obtain ⟨r', ret, sessions, hheld', hruns, -, -⟩ := step_handle hs
  obtain rfl := Option.some.inj (hheld.symm.trans hheld')
  have hr := mem_waiting_of_held hheld
  have hpos := h.fd_pos hr
  obtain ⟨cells, hlinked, howned⟩ := h
  by_cases hcloses : r.task.Closes
  · obtain ⟨⟨client, hes⟩, -⟩ := runs_handleData_of_closes hruns hcloses
    have hlast : e = ⟨.closeClient r.task.fd, ()⟩ ∧ m.reg = s.sessions.reg ∧
        m.owner = s.sessions.owner := by
      rcases append_cons_eq_pair hes with ⟨-, rfl⟩ | ⟨rfl, rfl⟩
      · exact hon.elim
      · have hsame := Sessions.exec_respond_stay (by simp [Call.isClose]) hm
        exact ⟨rfl, hsame.reg, hsame.owner⟩
    obtain ⟨rfl, hreg, howner⟩ := hlast
    obtain ⟨client', hexists, hconn⟩ := hreach
    rw [hreg] at hexists
    rcases hlinked.isExistsFd hpos hexists with ⟨client₁, hclient, hmem⟩ | ⟨hclient, -⟩
    · obtain rfl := Option.some.inj hclient
      have hopen := hlinked.owner_of_mem hmem
      rcases hconn with hconn | rfl
      · exact (howned r hr).2 conn (howner ▸ hconn)
      · exact (howned r hr).2 _ hopen
    · cases hclient
  · obtain ⟨hstay, -⟩ := runs_handleData_of_not_closes hruns hcloses
    obtain ⟨hstay₁, hstay₂⟩ := List.forall_mem_append.mp hstay
    have hsame := Sessions.exec_respond_stay hstay₁ hm
    have he := hstay₂ e List.mem_cons_self
    obtain ⟨c, answer⟩ := e
    cases c with
    | send fd bytes =>
        obtain rfl : fd = r.task.fd := hon
        refine (howned r hr).2 conn ?_
        rw [← hsame.owner]
        exact hreach
    | closeClient fd => cases he
    | _ => exact hon.elim

/-- **Replies and closes never cross connections** in a run whose steps are `Fresh`:
`accept` returns no number that a task still to be handled has, and a first node of the
registry is only deleted while its `prev` is `NULL`. -/
theorem no_cross_of_fresh (parse : Bytes → Option Json) (a : Addr) (n : Nat) (l : List Action)
    (hfresh : AllSteps (Server.step parse) Fresh (start a n) l) :
    AllSteps (Server.step parse) (NoCross parse) (start a n) l :=
  hfresh.imp Owned.step (fun _ _ h _ => h.noCross) (owned_start a n)

/-- A client that logs out, and another one that gets its number and logs out as well. -/
def reuseRun : List Action :=
  [.accept 5 0 none, .event 5 (shortReads HANDLE_LOGINOUT), .push, .pop 0,
    .handle 0 (closingCalls 0 5), .accept 5 0 none, .event 5 (shortReads HANDLE_LOGINOUT), .push,
    .pop 1, .handle 1 (closingCalls 1 5)]

/-- A number that is handed out again when no task has it. -/
theorem no_cross_of_fresh_reuse :
    (exec (Server.step Json.parse) (start 10 2) reuseRun).isSome ∧
      AllSteps (Server.step Json.parse) (NoCross Json.parse) (start 10 2) reuseRun :=
  ⟨by decide, no_cross_of_fresh Json.parse 10 2 reuseRun (by decide)⟩

/-- A client that sends a bad heartbeat behind its logout, and another client that gets
its number: the heartbeat closes the connection of the other client. -/
theorem stale_task_closes_other_connection :
    ∃ s, exec (Server.step Json.parse) (start 10 2)
        [.accept 5 0 none, .event 5 (shortReads HANDLE_LOGINOUT), .push,
          .event 5 (shortReads HANDLE_HEARTBEAT), .push, .pop 0, .handle 0 (closingCalls 0 5),
          .accept 5 0 none, .pop 1] = some s ∧
      s.sessions.owner 5 = some 1 ∧ ¬ s.NoCross Json.parse (.handle 1 (closingCalls 0 5)) := by
  have hend : (exec (Server.step Json.parse) (start 10 2)
      [.accept 5 0 none, .event 5 (shortReads HANDLE_LOGINOUT), .push,
        .event 5 (shortReads HANDLE_HEARTBEAT), .push, .pop 0, .handle 0 (closingCalls 0 5),
        .accept 5 0 none, .pop 1]).map
      (fun s => ((s.sessions.owner 5, s.sessions.reg.isExistsFd 5, s.sessions.clients.get 0),
        s.held 1, (s.step Json.parse (.handle 1 (closingCalls 0 5))).isSome)) =
      some ((some 1, some (some 1), none),
        some ⟨⟨5, 0, HANDLE_HEARTBEAT, ascii "x"⟩, 0⟩, true) := by
    decide
  obtain ⟨s, hrun, hend⟩ := Option.map_eq_some_iff.mp hend
  simp only [Prod.mk.injEq] at hend
  obtain ⟨⟨howner, hexists, hfreed⟩, hheld, hstep⟩ := hend
  obtain ⟨s', hs'⟩ := Option.isSome_iff_exists.mp hstep
  refine ⟨s, hrun, howner, fun hcross => ?_⟩
  have hread : exec Sessions.respond s.sessions [⟨.readClient 0, Sessions.newClient 5 0⟩] =
      some s.sessions := by
    simp [exec, Sessions.respond, hfreed]
  have hconn := hcross 1 _ s' _ rfl hs' hheld [_] _ [] s.sessions 1 rfl hread rfl
    ⟨1, hexists, .inl howner⟩
  cases hconn

end Server

end SpiderChat
