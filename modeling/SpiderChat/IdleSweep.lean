import SpiderChat.Sweep

/-!
# SpiderChat.IdleSweep

**Which clients the sweep takes for idle.** `serv_heartbeat` closes the clients that have
had no event for 600 seconds, as it logs. What it compares is `keepalivetime`, which `main`
sets when it accepts a connection, and `handle_heartbeat` alone sets again: neither
`serv_epoll` nor the handler of another command does. So a client that sends only other
packets is closed ten minutes after it was accepted.

The runs here are those of `SpiderChat.Server`, with the clock that each event is received
at. The time of a packet goes with its task, and `stamps` keeps the times that
`keepalivetime` is to be set to.
-/

namespace SpiderChat

open Lib

/-- A step, and the time at which an event is received. -/
structure TimedAction where
  time : Int64
  action : Action

/-- The time that `serv_heartbeat` has read. -/
def Action.sweepAt : Action → Option Int64
  | .sweep mytimestamp => some mytimestamp
  | _ => none

/-- The server, with the times of the packets. -/
structure Timed where
  server : Server
  /-- The time of the packet whose task is not pushed yet. -/
  pendingAt : Option Int64
  queueAt : List Int64
  workersAt : Nat → Int64
  /-- The clients whose tasks have been handled, with the times of the packets. -/
  handled : List (Addr × Int64)
  /-- The times at which clients were accepted or have had a heartbeat handled. -/
  stamps : List (Addr × Int64)

namespace Timed

/-- The time that a handler reads for a heartbeat with the right payload. -/
def heartbeatAt (r : Request) (es : List HandlerEvent) : Option (Addr × Int64) :=
  if r.task.cmd = HANDLE_HEARTBEAT ∧ cstr r.task.data = HEARTBEAT_POLICY then
    match es with
    | ⟨.time, now⟩ :: _ => some (r.task.client, now)
    | _ => none
  else none

/-- The state when `n` workers have been started. -/
def start (a : Addr) (n : Nat) : Timed :=
  { server := .start a n, pendingAt := none, queueAt := [], workersAt := fun _ => 0, handled := [],
    stamps := [] }

/-- The times after a step that leads to the given server. -/
def after (s : Timed) (time : Int64) (server : Server) : Action → Timed
  | .accept _ now _ =>
      { s with server, stamps := (s.server.sessions.accepted, now) :: s.stamps }
  | .event _ _ => { s with server, pendingAt := server.pending.map fun _ => time }
  | .push => { s with server, pendingAt := none, queueAt := s.queueAt ++ s.pendingAt.toList }
  | .pop worker =>
      { s with
        server, queueAt := s.queueAt.tail
        workersAt := Function.update s.workersAt worker (s.queueAt.headD 0) }
  | .handle worker es =>
      match s.server.held worker with
      | some r =>
          { s with
            server, handled := (r.task.client, s.workersAt worker) :: s.handled
            stamps := (heartbeatAt r es).toList ++ s.stamps }
      | none => { s with server }
  | .unlock _ => { s with server }
  | .sweep _ => { s with server }

/-- The step relation. -/
def step (parse : Bytes → Option Json) (s : Timed) (a : TimedAction) : Option Timed :=
  (s.server.step parse a.action).map fun server => s.after a.time server a.action

/-- The time is one of the last 600 seconds. -/
def Recent (mytimestamp τ : Int64) : Prop := τ ≤ mytimestamp ∧ mytimestamp.toInt - τ.toInt ≤ 600

instance (mytimestamp τ : Int64) : Decidable (Recent mytimestamp τ) :=
  inferInstanceAs (Decidable (_ ∧ _))

/-- A packet of the client was received in the last 600 seconds, and has been handled. -/
def Active (s : Timed) (client : Addr) (mytimestamp : Int64) : Prop :=
  ∃ τ, (client, τ) ∈ s.handled ∧ Recent mytimestamp τ

/-- A sweep closes no client that is active. -/
def Spares (s : Timed) (a : TimedAction) : Prop :=
  ∀ mytimestamp ∈ a.action.sweepAt, ∀ client, s.Active client mytimestamp →
    (∀ call ∈ s.server.sessions.closes mytimestamp, ∀ node ∈ call.1.reg.heap.get call.2,
      node.client ≠ some client) ∧
    ∀ sessions, s.server.sessions.sweep mytimestamp = some sessions →
      sessions.clients.get client = s.server.sessions.clients.get client

/-- When a sweep is made, every active client that is still there was accepted, or last had a
heartbeat with the right payload handled, at a time that is at most 600 seconds before, as an
`int`. -/
def Stamped (s : Timed) (a : TimedAction) : Prop :=
  ∀ mytimestamp ∈ a.action.sweepAt, ∀ p ∈ s.handled, Recent mytimestamp p.2 →
    s.server.sessions.clients.get p.1 ≠ none →
      ∀ τ ∈ s.stamps.lookup p.1, ¬ mytimestamp - τ.toInt32.toInt64 > 600

/-- What holds of a time that may be given is decided on that time, not along all times. -/
instance decidableForallTime (o : Option Int64) (p : Int64 → Prop) [DecidablePred p] :
    Decidable (∀ t ∈ o, p t) := Option.decidableForallMem o

instance (s : Timed) (a : TimedAction) : Decidable (s.Stamped a) :=
  inferInstanceAs (Decidable (∀ mytimestamp ∈ a.action.sweepAt, ∀ p ∈ s.handled, _))

end Timed

namespace Sessions

/-- Every client has the time that it was last stamped with. -/
def StampedBy (stamps : List (Addr × Int64)) (s : Sessions) : Prop :=
  ∀ c cl, s.clients.get c = some cl →
    ∃ τ, stamps.lookup c = some τ ∧ cl.keepalivetime = τ.toInt32

variable {stamps : List (Addr × Int64)} {s s' : Sessions} {mytimestamp : Int64}

theorem StampedBy.shrinks (h : s.StampedBy stamps) (hs : s.Shrinks s') :
    s'.StampedBy stamps := by
  intro c cl hcl
  rcases hs.2 c with hnone | heq
  · rw [hnone] at hcl
    cases hcl
  · exact h c cl (heq ▸ hcl)

/-- A write that leaves `keepalivetime` alone. -/
theorem StampedBy.write (h : s.StampedBy stamps) {a : Addr} {f : SpiderClient → SpiderClient}
    (hf : ∀ cl, SpiderClient.keepalivetime (f cl) = cl.keepalivetime) :
    (s.write a f).StampedBy stamps := by
  intro c cl hcl
  have hmap := map_get_write hf s a c
  rw [hcl, Option.map_some] at hmap
  obtain ⟨old, hold, heq⟩ := Option.map_eq_some_iff.mp hmap.symm
  obtain ⟨τ, hτ, hkeep⟩ := h c old hold
  exact ⟨τ, hτ, heq ▸ hkeep⟩

/-- A heartbeat. -/
theorem StampedBy.setKeepalive (h : s.StampedBy stamps) (a : Addr) (now : Int64) :
    (s.write a fun c => { c with keepalivetime := now.toInt32 }).StampedBy
      ((a, now) :: stamps) := by
  intro c cl hcl
  rw [get_write] at hcl
  rw [List.lookup_cons]
  split at hcl
  · rename_i heq
    obtain ⟨old, -, rfl⟩ := Option.map_eq_some_iff.mp hcl
    exact ⟨now, by simp [heq], rfl⟩
  · rename_i hne
    rw [show (c == a) = false from beq_eq_false_iff_ne.mpr hne]
    exact h c cl hcl

/-- A new client has the time at which it was accepted. -/
theorem StampedBy.accept (h : s.StampedBy stamps) {fd : Int} {now : Int64} {mem : Ptr}
    (hs : s.accept fd now mem = some s') : s'.StampedBy ((s.accepted, now) :: stamps) := by
  rw [Sessions.accept] at hs
  split at hs
  · obtain ⟨reg, -, rfl⟩ := Option.map_eq_some_iff.mp hs
    intro c cl hcl
    rw [Heap.get_set] at hcl
    rw [List.lookup_cons]
    split at hcl
    · rename_i heq
      obtain rfl := Option.some.inj hcl
      exact ⟨now, by simp [heq], rfl⟩
    · rename_i hne
      rw [show (c == s.accepted) = false from beq_eq_false_iff_ne.mpr hne]
      exact h c cl hcl
  · cases hs

theorem closeClient_shrinks {fd : Int} (hs : s.closeClient fd = some s') : s.Shrinks s' := by
  simp only [closeClient, Option.bind_eq_bind, Option.bind_eq_some_iff] at hs
  obtain ⟨temp, -, hs⟩ := hs
  cases temp with
  | none => exact Option.some.inj hs ▸ .refl s
  | some fd2 => exact release_shrinks hs

theorem sweep_shrinks (hs : s.sweep mytimestamp = some s') : s.Shrinks s' := by
  have hclose : ∀ m fd2 node m', s.Shrinks m → True → m.reg.heap.get fd2 = some node →
      node.fd ≠ 0 → m.release fd2 node.fd = some m' → s.Shrinks m' :=
    fun m fd2 node m' hm _ _ _ hrelease => hm.trans (release_shrinks hrelease)
  exact sweepFrom_induction hclose (.refl s) (fun _ _ => trivial) hs

/-- **What the handling of a task does to the times.** -/
theorem StampedBy.handle (h : s.StampedBy stamps) {parse : Bytes → Option Json} {r : Request}
    {es : List HandlerEvent} {ret : Int32} (hruns : (handleData parse r.task).Runs es ret)
    (hexec : exec respond s es = some s') :
    s'.StampedBy ((Timed.heartbeatAt r es).toList ++ stamps) := by
  by_cases hheartbeat : r.task.cmd = HANDLE_HEARTBEAT ∧ cstr r.task.data = HEARTBEAT_POLICY
  · obtain ⟨hcmd, hdata⟩ := hheartbeat
    obtain ⟨⟨now, rest, rfl, hrest⟩, -⟩ := runs_handleData_of_heartbeat hruns hcmd hdata
    obtain ⟨m₁, hm₁, hexec⟩ := exec_cons.mp hexec
    obtain ⟨m₂, hm₂, hexec⟩ := exec_cons.mp hexec
    obtain rfl := exec_respond_of_not_writes hrest hexec
    obtain rfl := Option.some.inj hm₁
    obtain rfl := Option.some.inj hm₂
    rw [Timed.heartbeatAt, if_pos ⟨hcmd, hdata⟩]
    exact h.setKeepalive _ _
  · have hnone : Timed.heartbeatAt r es = none := if_neg hheartbeat
    rw [hnone]
    show s'.StampedBy stamps
    by_cases hlogin : r.task.cmd = HANDLE_LOGIN
    · obtain ⟨hes | ⟨d, rest, rfl, hrest⟩, -⟩ := runs_handleData_of_login hruns hlogin
      · exact exec_respond_of_not_writes hes hexec ▸ h
      · obtain ⟨m₁, hm₁, hexec⟩ := exec_cons.mp hexec
        obtain ⟨m₂, hm₂, hexec⟩ := exec_cons.mp hexec
        obtain rfl := exec_respond_of_not_writes hrest hexec
        obtain rfl := Option.some.inj hm₁
        obtain rfl := Option.some.inj hm₂
        refine StampedBy.write (StampedBy.write h ?_) ?_
        · exact fun _ => rfl
        · exact fun _ => rfl
    by_cases hcloses : r.task.Closes
    · obtain ⟨⟨client, rfl⟩, -⟩ := runs_handleData_of_closes hruns hcloses
      exact h.shrinks (closeClient_shrinks (exec_respond_close hexec))
    · have hlogout : r.task.cmd ≠ HANDLE_LOGINOUT := fun heq => hcloses (.inl heq)
      have hother : r.task.cmd ≠ HANDLE_HEARTBEAT := fun heq =>
        hcloses (.inr ⟨heq, fun hdata => hheartbeat ⟨heq, hdata⟩⟩)
      obtain ⟨hes, -⟩ := runs_handleData_of_reads hruns hlogin hlogout hother
      exact exec_respond_of_not_writes hes hexec ▸ h

/-- A client that is idle when others have been freed was idle before. -/
theorem IdleAt.of_shrinks {p : Ptr} (h : s'.IdleAt mytimestamp p) (hs : s.Shrinks s') :
    s.IdleAt mytimestamp p := by
  obtain ⟨cl, hcl, hidle⟩ := h
  refine ⟨cl, ?_, hidle⟩
  cases p with
  | none => exact hcl
  | some c =>
      rw [Option.mem_def, Option.bind_some] at hcl ⊢
      rcases hs.2 c with hnone | heq
      · rw [hnone] at hcl
        cases hcl
      · rw [← heq, hcl]

theorem closeClient2_shrinks {fd2 : Addr} (hs : s.closeClient2 fd2 = some s') : s.Shrinks s' := by
  simp only [closeClient2, Option.bind_eq_bind, Option.bind_eq_some_iff] at hs
  obtain ⟨node, -, hs⟩ := hs
  exact release_shrinks hs

/-- A client whose node is closed in a round was idle before the round. -/
theorem idleAt_of_mem_closesFrom {c : Sessions × Addr} {node : Fd2client} :
    ∀ {n : Nat} {s : Sessions} {temp : Ptr}, c ∈ closesFrom mytimestamp n s temp →
      c.1.reg.heap.get c.2 = some node → s.IdleAt mytimestamp node.client := by
  intro n
  induction n with
  | zero => intro s temp hc _; cases hc
  | succ n ih =>
      intro s temp hc hget
      cases temp with
      | none => cases hc
      | some temp =>
          rw [closesFrom] at hc
          split at hc
          · cases hc
          · rename_i first hfirst
            split at hc
            · cases hc
            split at hc
            · cases hc
            · rename_i client hclient
              split at hc
              · rename_i hidle
                rcases List.mem_cons.mp hc with rfl | hc
                · obtain rfl := Option.some.inj (hfirst.symm.trans hget)
                  exact ⟨client, hclient, hidle⟩
                · cases hclose : s.closeClient2 temp with
                  | none =>
                      rw [hclose] at hc
                      cases hc
                  | some s' =>
                      rw [hclose] at hc
                      exact (ih hc hget).of_shrinks (closeClient2_shrinks hclose)
              · exact ih hc hget

end Sessions

namespace Timed

variable {parse : Bytes → Option Json} {s s' : Timed} {a : TimedAction}

/-- Every client has the time that it was last stamped with. -/
def Inv (s : Timed) : Prop := s.server.sessions.StampedBy s.stamps

theorem inv_start (a : Addr) (n : Nat) : (start a n).Inv := by
  intro c cl hcl
  cases hcl

/-- **Every step keeps the times.** -/
theorem Inv.step (h : s.Inv) (hs : s.step parse a = some s') : s'.Inv := by
  obtain ⟨time, action⟩ := a
  obtain ⟨server, hserver, rfl⟩ := Option.map_eq_some_iff.mp hs
  cases action with
  | accept fd now mem =>
      obtain ⟨sessions, haccept, rfl⟩ := Option.map_eq_some_iff.mp hserver
      exact Sessions.StampedBy.accept h haccept
  | event fd es =>
      obtain ⟨-, -, ⟨-, rfl⟩ | ⟨client, conn, outcome, -, -, -, hread⟩⟩ :=
        Server.step_event hserver
      · exact h
      · cases outcome with
        | skip => exact Option.some.inj hread ▸ h
        | close =>
            obtain ⟨sessions, hclose, rfl⟩ := Option.map_eq_some_iff.mp hread
            exact Sessions.StampedBy.shrinks h (Sessions.closeClient_shrinks hclose)
        | task cmd data => exact Option.some.inj hread ▸ h
  | push =>
      obtain ⟨r, -, rfl⟩ := Option.map_eq_some_iff.mp hserver
      exact h
  | pop worker =>
      obtain ⟨r, queue, -, rfl⟩ := Server.step_pop hserver
      exact h
  | handle worker es =>
      obtain ⟨r, ret, sessions, hheld, hruns, hexec, rfl⟩ := Server.step_handle hserver
      simp only [after, hheld]
      exact Sessions.StampedBy.handle h hruns hexec
  | unlock worker =>
      obtain rfl := Server.step_unlock hserver
      exact h
  | sweep mytimestamp =>
      obtain ⟨sessions, hsweep, rfl⟩ := Option.map_eq_some_iff.mp hserver
      exact Sessions.StampedBy.shrinks h (Sessions.sweep_shrinks hsweep)

/-- An active client whose stamp is recent is not idle. -/
theorem Inv.not_idleAt (h : s.Inv) {mytimestamp : Int64} (hok : s.Stamped a)
    (hsweep : a.action.sweepAt = some mytimestamp) {client : Addr}
    (hactive : s.Active client mytimestamp) :
    ¬ s.server.sessions.IdleAt mytimestamp (some client) := by
  intro hidle
  obtain ⟨cl, hcl, hidle⟩ := hidle
  obtain ⟨τ, hhandled, hrecent⟩ := hactive
  obtain ⟨τ', hlookup, hkeep⟩ := h client cl hcl
  have hlive : s.server.sessions.clients.get client ≠ none := by
    rw [show s.server.sessions.clients.get client = some cl from hcl]
    exact Option.some_ne_none cl
  refine hok mytimestamp hsweep _ hhandled hrecent hlive τ' hlookup ?_
  rw [← hkeep]
  exact hidle

/-- A sweep before which the active clients are stamped spares them. -/
theorem Inv.spares (h : s.Inv) (hok : s.Stamped a) : s.Spares a := by
  intro mytimestamp hsweep client hactive
  have hidle := h.not_idleAt hok hsweep hactive
  have hcloses : ∀ call ∈ s.server.sessions.closes mytimestamp,
      ∀ node ∈ call.1.reg.heap.get call.2, node.client ≠ some client := by
    intro call hcall node hget hclient
    exact hidle (hclient ▸ Sessions.idleAt_of_mem_closesFrom hcall hget)
  refine ⟨hcloses, fun sessions hs => ?_⟩
  have hclose : ∀ m fd2 node m', m.clients.get client = s.server.sessions.clients.get client →
      (∀ node ∈ m.reg.heap.get fd2, node.client ≠ some client) →
      m.reg.heap.get fd2 = some node → node.fd ≠ 0 → Sessions.release m fd2 node.fd = some m' →
      m'.clients.get client = s.server.sessions.clients.get client := by
    intro m fd2 node m' hm hne hget _ hrelease
    obtain ⟨node', c, hget', hc, hclients⟩ := Sessions.release_clients hrelease
    have hclient : client ≠ c := fun heq => hne node' hget' (hc.trans (congrArg some heq.symm))
    rw [hclients, Heap.get_erase_ne hclient, hm]
  exact Sessions.sweepFrom_induction hclose rfl hcloses hs

/-- **The sweep spares the active clients** in every run in which they are stamped whenever it
is made. -/
theorem spares_of_stamped {n : Nat} {head : Addr} {l : List TimedAction}
    (h : AllSteps (step parse) Stamped (start head n) l) :
    AllSteps (step parse) Spares (start head n) l :=
  AllSteps.imp (fun _ _ _ hinv _ hs => hinv.step hs) (fun _ _ hinv hok => hinv.spares hok)
    (inv_start head n) h

/-- A connection accepted at 0 sends a login that fails at 500. -/
def lateLogin : List TimedAction :=
  [⟨0, .accept 5 0 none⟩, ⟨500, .event 5 (Server.shortReads HANDLE_LOGIN)⟩, ⟨500, .push⟩,
    ⟨500, .pop 0⟩,
    ⟨500, .handle 0 [⟨.readClient 0, Sessions.newClient 5 0⟩,
      ⟨.send 5 ((frame HANDLE_LOGIN 0 (ascii "\x7b\"ret\":-1000\x7d")).getD []), 28⟩]⟩,
    ⟨500, .unlock 0⟩]

/-- The sweep that comes within 600 seconds of the accept. -/
theorem spares_of_stamped_login :
    AllSteps (step Json.parse) Spares (start 1 1) (lateLogin ++ [⟨600, .sweep 600⟩]) :=
  spares_of_stamped (by decide)

/-- The one that comes later closes the client, 200 seconds after its packet. -/
theorem sweep_closes_active :
    ∃ s s' : Timed, exec (step Json.parse) (start 1 1) lateLogin = some s ∧
      s.step Json.parse ⟨700, .sweep 700⟩ = some s' ∧ s.Active 0 700 ∧
      ¬ s.Spares ⟨700, .sweep 700⟩ := by
  have hrun : (exec (step Json.parse) (start 1 1) lateLogin).bind (fun s =>
      (s.server.sessions.sweep 700).map fun m =>
        (s.handled, m.clients.get 0, (s.server.sessions.clients.get 0).isSome)) =
      some ([(0, 500)], none, true) := by decide
  obtain ⟨s, hs, hrun⟩ := Option.bind_eq_some_iff.mp hrun
  obtain ⟨m, hm, heq⟩ := Option.map_eq_some_iff.mp hrun
  simp only [Prod.mk.injEq] at heq
  obtain ⟨hhandled, hnone, hsome⟩ := heq
  have hrecent : Recent 700 500 := by decide
  have hactive : s.Active 0 700 := ⟨500, by simp [hhandled], hrecent⟩
  refine ⟨s, _, hs, by rw [step, Server.step, hm]; rfl, hactive, fun hspares => ?_⟩
  have hkept := (hspares 700 rfl 0 hactive).2 m hm
  rw [← hkept, hnone] at hsome
  cases hsome

end Timed

end SpiderChat
