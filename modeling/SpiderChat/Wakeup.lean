import SpiderChat.TaskQueue

/-!
# SpiderChat.Wakeup

**The workers and the condition variable.** `serv_epoll` links a task and signals `t_cond`
under `t_mutex`; a worker of `readtask` that finds the queue empty sleeps in
`pthread_cond_wait`, which unlocks `t_mutex`, and tests `task_head` again when it has been
woken and has locked `t_mutex`. The queue itself is the one of `SpiderChat.TaskQueue`.

A signal wakes at least one of the workers that sleep, if there is one; a worker may wake
without one. `no_lost_wakeup` says that the workers never all sleep on a task.
-/

namespace SpiderChat

open Lib

/-- The global `task_head`. -/
def QueueState.task_head (s : QueueState) : Ptr := s.queue.bind TaskQueue.task_head

/-- What a worker is at. -/
inductive Stage
  /-- is to lock `t_mutex` -/
  | begins
  /-- holds `t_mutex`, and is to test `task_head` -/
  | tests
  /-- has found `NULL`, and is to call `pthread_cond_wait` -/
  | waits
  /-- is in `pthread_cond_wait`, and has unlocked `t_mutex` -/
  | sleeps
  /-- has been woken, and is to lock `t_mutex` again -/
  | wakes
  /-- has found a task -/
  | takes
  /-- has taken the task, and is to unlock `t_mutex` -/
  | has (temp : Addr)
  /-- handles the task -/
  | handles (temp : Addr)
  deriving Repr, DecidableEq

/-- The worker is between the lock and the unlock of `t_mutex`. -/
def Stage.holds : Stage → Bool
  | .tests | .waits | .takes | .has _ => true
  | _ => false

/-- What `serv_epoll` is at. -/
inductive Pusher
  /-- reads from the connections -/
  | reads
  /-- holds `t_mutex`, and is to link the new task -/
  | links
  /-- is to signal `t_cond` -/
  | signals
  /-- is to unlock `t_mutex` -/
  | unlocks
  deriving Repr, DecidableEq

/-- `serv_epoll` is between the lock and the unlock of `t_mutex`. -/
def Pusher.holds : Pusher → Bool
  | .reads => false
  | _ => true

/-- Who holds `t_mutex`. -/
inductive Holder
  | serv_epoll
  | worker (w : Nat)
  deriving Repr, DecidableEq

/-- The queue, `serv_epoll` and the workers. -/
structure Wakeup where
  queue : QueueState
  serv_epoll : Pusher
  workers : List Stage
  t_mutex : Option Holder
  deriving Repr, DecidableEq

/-- A step of one of the threads. -/
inductive Turn
  | alloc (a : Addr) (task : Task)
  | lockPush
  | link
  /-- `pthread_cond_signal`, and the workers that it wakes. -/
  | signal (woken : List Nat)
  | unlockPush
  | lock (w : Nat)
  | test (w : Nat)
  | wait (w : Nat)
  /-- A worker wakes without a signal. -/
  | wake (w : Nat)
  | relock (w : Nat)
  | take (w : Nat)
  | unlock (w : Nat)
  | free (w : Nat)
  deriving Repr, DecidableEq

namespace Wakeup

/-- `n` workers have been started. -/
def start (n : Nat) : Wakeup :=
  { queue := .init, serv_epoll := .reads, workers := List.replicate n .begins, t_mutex := none }

/-- A worker goes on. -/
def move (s : Wakeup) (w : Nat) (p : Stage) : Wakeup := { s with workers := s.workers.set w p }

/-- What `pthread_cond_signal` may wake: workers that sleep, and one of them at least if
there is one. -/
def Signalled (s : Wakeup) (woken : List Nat) : Prop :=
  (∀ w ∈ woken, s.workers[w]? = some .sleeps) ∧ (.sleeps ∈ s.workers → woken ≠ [])

instance (s : Wakeup) (woken : List Nat) : Decidable (s.Signalled woken) :=
  inferInstanceAs (Decidable (_ ∧ _))

/-- The workers after a signal. -/
def wakeAll (workers : List Stage) (woken : List Nat) : List Stage :=
  workers.mapIdx fun w p => if w ∈ woken then .wakes else p

/-- One step. -/
def step (s : Wakeup) : Turn → Option Wakeup
  | .alloc a task =>
      if s.serv_epoll = .reads then
        (s.queue.step (.alloc a task)).map fun queue => { s with queue }
      else none
  | .lockPush =>
      if s.serv_epoll = .reads ∧ s.queue.new_task ≠ none ∧ s.t_mutex = none then
        some { s with serv_epoll := .links, t_mutex := some .serv_epoll }
      else none
  | .link =>
      if s.serv_epoll = .links then
        (s.queue.step .push).map fun queue => { s with queue, serv_epoll := .signals }
      else none
  | .signal woken =>
      if s.serv_epoll = .signals ∧ s.Signalled woken then
        some { s with serv_epoll := .unlocks, workers := wakeAll s.workers woken }
      else none
  | .unlockPush =>
      if s.serv_epoll = .unlocks then some { s with serv_epoll := .reads, t_mutex := none }
      else none
  | .lock w =>
      if s.workers[w]? = some .begins ∧ s.t_mutex = none then
        some ({ s with t_mutex := some (.worker w) }.move w .tests)
      else none
  | .test w =>
      if s.workers[w]? = some .tests then
        some (s.move w (if s.queue.task_head = none then .waits else .takes))
      else none
  | .wait w =>
      if s.workers[w]? = some .waits then some ({ s with t_mutex := none }.move w .sleeps)
      else none
  | .wake w => if s.workers[w]? = some .sleeps then some (s.move w .wakes) else none
  | .relock w =>
      if s.workers[w]? = some .wakes ∧ s.t_mutex = none then
        some ({ s with t_mutex := some (.worker w) }.move w .tests)
      else none
  | .take w =>
      if s.workers[w]? = some .takes then do
        let temp ← s.queue.task_head
        let queue ← s.queue.step .pop
        some ({ s with queue }.move w (.has temp))
      else none
  | .unlock w =>
      match s.workers[w]? with
      | some (.has temp) => some ({ s with t_mutex := none }.move w (.handles temp))
      | _ => none
  | .free w =>
      match s.workers[w]? with
      | some (.handles temp) =>
          (s.queue.step (.free temp)).map fun queue => { s with queue }.move w .begins
      | _ => none

/-! ### What the steps of the queue do to `task_head` -/

theorem task_head_alloc {q q' : QueueState} {a : Addr} {task : Task}
    (h : q.step (.alloc a task) = some q') : q'.task_head = q.task_head := by
  unfold QueueState.step at h
  split at h
  · exact Option.some.inj h ▸ rfl
  · rename_i queue hqueue
    dsimp only at h
    split at h
    · rw [← Option.some.inj h, QueueState.task_head, QueueState.task_head, hqueue]
      rfl
    · cases h

theorem task_head_free {q q' : QueueState} {a : Addr} (h : q.step (.free a) = some q') :
    q'.task_head = none ∨ q'.task_head = q.task_head := by
  unfold QueueState.step at h
  split at h
  · exact .inr (Option.some.inj h ▸ rfl)
  · rename_i queue hqueue
    dsimp only at h
    split at h
    · rw [← Option.some.inj h, QueueState.task_head, QueueState.task_head, hqueue]
      cases queue.heap.free a with
      | none => exact .inl rfl
      | some heap => exact .inr rfl
    · cases h

/-! ### The invariant -/

/-- Who is in a critical section holds `t_mutex`, who is to wait has an empty queue, and
somebody is awake for a task that is queued, or is about to be woken. -/
structure Inv (s : Wakeup) : Prop where
  started : s.workers ≠ []
  worker : ∀ w p, s.workers[w]? = some p → p.holds = true → s.t_mutex = some (.worker w)
  serv_epoll : s.serv_epoll.holds = true → s.t_mutex = some .serv_epoll
  empty : .waits ∈ s.workers → s.queue.task_head = none
  awake : s.queue.task_head ≠ none → s.serv_epoll = .signals ∨ ∃ p ∈ s.workers, p ≠ .sleeps

theorem inv_start {n : Nat} (hn : 0 < n) : (start n).Inv := by
  have hbegins : ∀ p ∈ (start n).workers, p = .begins := fun p hp => List.eq_of_mem_replicate hp
  refine ⟨?_, ?_, ?_, ?_, ?_⟩
  · exact fun hnil => absurd (List.replicate_eq_nil_iff _ |>.mp hnil) (Nat.ne_of_gt hn)
  · intro w p hp hholds
    rw [hbegins p (List.mem_of_getElem? hp)] at hholds
    cases hholds
  · intro hholds
    cases hholds
  · exact fun _ => rfl
  · exact fun hhead => absurd rfl hhead

variable {s s' : Wakeup}

/-- **A worker goes on.** `m` is who holds `t_mutex` then, and `q` the queue. -/
theorem Inv.move (h : s.Inv) {w : Nat} {p old : Stage} {m : Option Holder} {q : QueueState}
    (hold : s.workers[w]? = some old)
    (hmine : p.holds = true → m = some (.worker w))
    (hothers : ∀ x, x ≠ .worker w → s.t_mutex = some x → m = some x)
    (hhead : q.task_head = s.queue.task_head ∨ q.task_head = none ∨ old.holds = true)
    (hwaits : p = .waits → q.task_head = none)
    (hsleeps : p = .sleeps → q.task_head = none) :
    Inv ({ s with queue := q, t_mutex := m }.move w p) := by
  have hlt : w < s.workers.length := (List.getElem?_eq_some_iff.mp hold).1
  have hget : ∀ w' p', (s.workers.set w p)[w']? = some p' →
      (w' = w ∧ p' = p) ∨ (w' ≠ w ∧ s.workers[w']? = some p') := by
    intro w' p' hp'
    rw [List.getElem?_set] at hp'
    by_cases heq : w = w'
    · simp only [heq, ↓reduceIte] at hp'
      split at hp'
      · exact .inl ⟨heq.symm, (Option.some.inj hp').symm⟩
      · cases hp'
    · rw [if_neg heq] at hp'
      exact .inr ⟨Ne.symm heq, hp'⟩
  refine ⟨?_, ?_, ?_, ?_, ?_⟩
  · intro hnil
    exact h.started ((List.set_eq_nil_iff w p).mp hnil)
  · intro w' p' hp' hholds
    rcases hget w' p' hp' with ⟨rfl, rfl⟩ | ⟨hne, hp'⟩
    · exact hmine hholds
    · exact hothers _ (fun heq => hne (Holder.worker.inj heq)) (h.worker w' p' hp' hholds)
  · intro hholds
    exact hothers _ nofun (h.serv_epoll hholds)
  · intro hmem
    obtain ⟨w', hw'⟩ := List.mem_iff_getElem?.mp hmem
    rcases hget w' _ hw' with ⟨-, heq⟩ | ⟨hne, hw'⟩
    · exact hwaits heq.symm
    · rcases hhead with heq | hnone | hholds
      · exact heq.trans (h.empty (List.mem_of_getElem? hw'))
      · exact hnone
      · -- two workers would hold `t_mutex`
        have h₁ := h.worker w old hold hholds
        have h₂ := h.worker w' _ hw' rfl
        rw [h₁] at h₂
        exact absurd (Holder.worker.inj (Option.some.inj h₂)).symm hne
  · intro hne
    refine .inr ⟨p, ?_, fun heq => hne (hsleeps heq)⟩
    exact List.mem_iff_getElem?.mpr ⟨w, by simp [Wakeup.move, hlt]⟩

/-- While `serv_epoll` holds `t_mutex`, no worker does. -/
theorem Inv.not_holds (h : s.Inv) (hholds : s.serv_epoll.holds = true) {p : Stage}
    (hp : p ∈ s.workers) : p.holds = false := by
  obtain ⟨w, hw⟩ := List.mem_iff_getElem?.mp hp
  by_contra hpholds
  have h₁ := h.worker w p hw (by simpa using hpholds)
  rw [h.serv_epoll hholds] at h₁
  cases h₁

/-- The workers after a signal are as before, or have been woken. -/
theorem getElem?_wakeAll {workers : List Stage} {woken : List Nat} {w : Nat} {p : Stage}
    (h : (wakeAll workers woken)[w]? = some p) : p = .wakes ∨ workers[w]? = some p := by
  rw [wakeAll, List.getElem?_mapIdx] at h
  obtain ⟨old, hold, rfl⟩ := Option.map_eq_some_iff.mp h
  split
  · exact .inl rfl
  · exact .inr hold

/-- **A signal** leaves a worker that does not sleep. -/
theorem exists_awake {woken : List Nat} (hstarted : s.workers ≠ []) (h : s.Signalled woken) :
    ∃ p ∈ wakeAll s.workers woken, p ≠ .sleeps := by
  obtain ⟨hsleep, hone⟩ := h
  by_cases hmem : .sleeps ∈ s.workers
  · obtain ⟨w, hw⟩ := List.exists_mem_of_ne_nil woken (hone hmem)
    refine ⟨.wakes, List.mem_iff_getElem?.mpr ⟨w, ?_⟩, nofun⟩
    rw [wakeAll, List.getElem?_mapIdx, hsleep w hw, Option.map_some, if_pos hw]
  · obtain ⟨p, hp⟩ := List.exists_mem_of_ne_nil s.workers hstarted
    obtain ⟨w, hw⟩ := List.mem_iff_getElem?.mp hp
    have hnew : (wakeAll s.workers woken)[w]? = some (if w ∈ woken then .wakes else p) := by
      rw [wakeAll, List.getElem?_mapIdx, hw, Option.map_some]
    refine ⟨_, List.mem_of_getElem? hnew, ?_⟩
    split
    · exact nofun
    · intro heq
      exact hmem (heq ▸ hp)

theorem Inv.signal {woken : List Nat} (h : s.Inv) (hsignals : s.serv_epoll = .signals)
    (hwoken : s.Signalled woken) :
    Inv { s with serv_epoll := .unlocks, workers := wakeAll s.workers woken } := by
  have hholds : s.serv_epoll.holds = true := by rw [hsignals]; rfl
  refine ⟨?_, ?_, ?_, ?_, ?_⟩
  · intro hnil
    exact h.started (List.mapIdx_eq_nil_iff.mp hnil)
  · intro w p hp hpholds
    rcases getElem?_wakeAll hp with rfl | hp
    · cases hpholds
    · exact h.worker w p hp hpholds
  · exact fun _ => h.serv_epoll hholds
  · intro hmem
    obtain ⟨w, hw⟩ := List.mem_iff_getElem?.mp hmem
    rcases getElem?_wakeAll hw with heq | hw
    · cases heq
    · exact h.empty (List.mem_of_getElem? hw)
  · exact fun _ => .inr (exists_awake h.started hwoken)

/-- **The step lemma.** -/
theorem Inv.step (s : Wakeup) (i : Turn) (s' : Wakeup) (h : s.Inv) (hs : s.step i = some s') :
    s'.Inv := by
  cases i with
  | alloc a task =>
      obtain ⟨-, hs⟩ := Option.ite_none_right_eq_some.mp hs
      obtain ⟨q, hq, rfl⟩ := Option.map_eq_some_iff.mp hs
      have hhead := task_head_alloc hq
      exact ⟨h.started, h.worker, h.serv_epoll, fun hmem => hhead.trans (h.empty hmem),
        fun hne => h.awake (hhead ▸ hne)⟩
  | lockPush =>
      obtain ⟨⟨hreads, -, hfree⟩, hs⟩ := Option.ite_none_right_eq_some.mp hs
      obtain rfl := Option.some.inj hs
      refine ⟨h.started, fun w p hp hholds => ?_, fun _ => rfl, h.empty, fun hne => ?_⟩
      · have hnone := h.worker w p hp hholds
        rw [hfree] at hnone
        cases hnone
      · refine .inr ((h.awake hne).resolve_left fun heq => ?_)
        rw [hreads] at heq
        cases heq
  | link =>
      obtain ⟨hlinks, hs⟩ := Option.ite_none_right_eq_some.mp hs
      obtain ⟨q, -, rfl⟩ := Option.map_eq_some_iff.mp hs
      have hholds : s.serv_epoll.holds = true := by rw [hlinks]; rfl
      refine ⟨h.started, h.worker, fun _ => h.serv_epoll hholds, fun hmem => ?_, fun _ => .inl rfl⟩
      cases h.not_holds hholds hmem
  | signal woken =>
      obtain ⟨⟨hsignals, hwoken⟩, hs⟩ := Option.ite_none_right_eq_some.mp hs
      exact Option.some.inj hs ▸ h.signal hsignals hwoken
  | unlockPush =>
      obtain ⟨hunlocks, hs⟩ := Option.ite_none_right_eq_some.mp hs
      obtain rfl := Option.some.inj hs
      have hholds : s.serv_epoll.holds = true := by rw [hunlocks]; rfl
      refine ⟨h.started, fun w p hp hpholds => ?_, nofun, h.empty, fun hne => ?_⟩
      · rw [h.not_holds hholds (List.mem_of_getElem? hp)] at hpholds
        cases hpholds
      · refine .inr ((h.awake hne).resolve_left fun heq => ?_)
        rw [hunlocks] at heq
        cases heq
  | lock w =>
      obtain ⟨⟨hbegins, hfree⟩, hs⟩ := Option.ite_none_right_eq_some.mp hs
      obtain rfl := Option.some.inj hs
      refine h.move hbegins (fun _ => rfl) (fun x _ hx => ?_) (.inl rfl) nofun nofun
      rw [hfree] at hx
      cases hx
  | test w =>
      obtain ⟨htests, hs⟩ := Option.ite_none_right_eq_some.mp hs
      obtain rfl := Option.some.inj hs
      refine h.move htests (fun _ => h.worker w _ htests rfl) (fun x _ hx => hx) (.inl rfl) ?_ ?_
      · intro hwaits
        by_contra hne
        rw [if_neg hne] at hwaits
        cases hwaits
      · intro hsleeps
        split at hsleeps <;> cases hsleeps
  | wait w =>
      obtain ⟨hwaits, hs⟩ := Option.ite_none_right_eq_some.mp hs
      obtain rfl := Option.some.inj hs
      refine h.move hwaits nofun (fun x hne hx => ?_) (.inl rfl) nofun fun _ =>
        h.empty (List.mem_of_getElem? hwaits)
      rw [h.worker w _ hwaits rfl] at hx
      exact absurd (Option.some.inj hx).symm hne
  | wake w =>
      obtain ⟨hsleeps, hs⟩ := Option.ite_none_right_eq_some.mp hs
      obtain rfl := Option.some.inj hs
      exact h.move hsleeps nofun (fun x _ hx => hx) (.inl rfl) nofun nofun
  | relock w =>
      obtain ⟨⟨hwakes, hfree⟩, hs⟩ := Option.ite_none_right_eq_some.mp hs
      obtain rfl := Option.some.inj hs
      refine h.move hwakes (fun _ => rfl) (fun x _ hx => ?_) (.inl rfl) nofun nofun
      rw [hfree] at hx
      cases hx
  | take w =>
      obtain ⟨htakes, hs⟩ := Option.ite_none_right_eq_some.mp hs
      simp only [Option.bind_eq_bind, Option.bind_eq_some_iff] at hs
      obtain ⟨temp, -, q, -, hs⟩ := hs
      obtain rfl := Option.some.inj hs
      exact h.move htakes (fun _ => h.worker w _ htakes rfl) (fun x _ hx => hx)
        (.inr (.inr rfl)) nofun nofun
  | unlock w =>
      rw [Wakeup.step] at hs
      split at hs
      · rename_i temp hhas
        obtain rfl := Option.some.inj hs
        refine h.move hhas nofun (fun x hne hx => ?_) (.inl rfl) nofun nofun
        rw [h.worker w _ hhas rfl] at hx
        exact absurd (Option.some.inj hx).symm hne
      · cases hs
  | free w =>
      rw [Wakeup.step] at hs
      split at hs
      · rename_i temp hhandles
        obtain ⟨q, hq, rfl⟩ := Option.map_eq_some_iff.mp hs
        exact h.move hhandles nofun (fun x _ hx => hx)
          ((task_head_free hq).symm.imp_right .inl) nofun nofun
      · cases hs

/-- **The queue is the one of `SpiderChat.TaskQueue`**: a step leaves it as it is or is one of
its steps. -/
theorem queue_step {i : Turn} (hs : s.step i = some s') :
    s'.queue = s.queue ∨ ∃ op, s.queue.step op = some s'.queue := by
  cases i with
  | alloc a task =>
      obtain ⟨-, hs⟩ := Option.ite_none_right_eq_some.mp hs
      obtain ⟨q, hq, rfl⟩ := Option.map_eq_some_iff.mp hs
      exact .inr ⟨_, hq⟩
  | link =>
      obtain ⟨-, hs⟩ := Option.ite_none_right_eq_some.mp hs
      obtain ⟨q, hq, rfl⟩ := Option.map_eq_some_iff.mp hs
      exact .inr ⟨_, hq⟩
  | take w =>
      obtain ⟨-, hs⟩ := Option.ite_none_right_eq_some.mp hs
      simp only [Option.bind_eq_bind, Option.bind_eq_some_iff] at hs
      obtain ⟨temp, -, q, hq, hs⟩ := hs
      exact .inr ⟨.pop, Option.some.inj hs ▸ hq⟩
  | free w =>
      rw [Wakeup.step] at hs
      split at hs
      · obtain ⟨q, hq, rfl⟩ := Option.map_eq_some_iff.mp hs
        exact .inr ⟨_, hq⟩
      · cases hs
  | unlock w =>
      rw [Wakeup.step] at hs
      split at hs
      · exact .inl (Option.some.inj hs ▸ rfl)
      · cases hs
  | _ =>
      obtain ⟨-, hs⟩ := Option.ite_none_right_eq_some.mp hs
      exact .inl (Option.some.inj hs ▸ rfl)

/-- In every run, `task_head` is `NULL` when all tasks that were pushed have been taken, and
only then. -/
theorem task_head_eq_none_iff {n : Nat} {l : List Turn} {t : Wakeup}
    (hrun : exec step (start n) l = some t) :
    t.queue.task_head = none ↔ t.queue.popped = t.queue.pushed := by
  have hinv : t.queue.Inv := by
    have hstep : ∀ (s : Wakeup) i s', s.queue.Inv → s.step i = some s' → s'.queue.Inv := by
      intro s i s' h hs
      rcases queue_step hs with heq | ⟨op, hop⟩
      · exact heq ▸ h
      · exact h.step op hop
    exact exec_invariant hstep QueueState.init_inv hrun
  obtain ⟨q, cells, new, held, h⟩ := hinv
  rw [QueueState.task_head, h.queue, Option.bind_some, h.head, h.history]
  cases cells with
  | nil => simp
  | cons c cs => simp

/-- **No lost wake-up.** For every number of workers and every interleaving of the pushes
and of the workers' steps: when `t_mutex` is free and the queue is not empty, some worker
does not sleep in `pthread_cond_wait`. -/
theorem no_lost_wakeup (n : Nat) (hn : 0 < n) (l : List Turn) (t : Wakeup)
    (hrun : exec step (start n) l = some t) (hfree : t.t_mutex = none)
    (hqueue : t.queue.task_head ≠ none) : ∃ p ∈ t.workers, p ≠ .sleeps := by
  have hinv : t.Inv := exec_invariant Inv.step (inv_start hn) hrun
  refine (hinv.awake hqueue).resolve_left fun hsignals => ?_
  have hheld := hinv.serv_epoll (by rw [hsignals]; rfl)
  rw [hfree] at hheld
  cases hheld

/-- Two workers sleep, a task is pushed, and the signal wakes one of them. -/
theorem no_lost_wakeup_two :
    ∃ t, exec step (start 2) [.lock 0, .test 0, .wait 0, .lock 1, .test 1, .wait 1,
        .alloc 1 ⟨5, 2, HANDLE_LOGIN, []⟩, .lockPush, .link, .signal [1], .unlockPush] = some t ∧
      t.workers = [.sleeps, .wakes] ∧ ∃ p ∈ t.workers, p ≠ .sleeps :=
  ⟨_, rfl, rfl, no_lost_wakeup 2 (by decide) [.lock 0, .test 0, .wait 0, .lock 1, .test 1, .wait 1,
    .alloc 1 ⟨5, 2, HANDLE_LOGIN, []⟩, .lockPush, .link, .signal [1], .unlockPush] _ rfl rfl
    (by decide)⟩

end Wakeup

end SpiderChat
