import SpiderChat.Handle
import SpiderChat.Lib.Run

/-!
# SpiderChat.Readtask

**The order in which tasks are handled.** The workers of `readtask` take tasks from one
queue, under `t_mutex`, and handle a task while they hold the mutex of its client. The
queue is first in first out, but `t_mutex` is unlocked before the client's mutex is
locked, and `close_client` unlocks it in the middle of a handler. `in_order_iff` says
that these two gaps are all: the tasks of a client are handled in the order in which
they were pushed exactly as long as no worker locks a client's mutex in one of them.

Tasks are numbered in the order of their pushes; `started` and `finished` record the
handlers that have been called and that have returned. What the calls of a handler
answer is left open. A mutex that `close_client` has destroyed is taken to be unlocked.
-/

namespace SpiderChat

open Lib

/-- What a worker is at. -/
inductive Phase
  | idle
  /-- has taken a task, and holds `t_mutex` -/
  | taken (i : Nat)
  /-- has unlocked `t_mutex`, and is to lock the mutex of the client -/
  | waits (i : Nat)
  /-- holds the mutex of the client, and `p` is left of `handle_data` -/
  | handles (i : Nat) (p : Handler Int32)
  /-- `handle_data` has returned, and not 0 -/
  | unlocks (i : Nat)

namespace Phase

/-- The task that a worker has taken and has not locked the client's mutex for. -/
def behind : Phase → Option Nat
  | .taken i => some i
  | .waits i => some i
  | _ => none

/-- The task whose handler runs. -/
def running : Phase → Option Nat
  | .handles i _ => some i
  | _ => none

/-- The task that a worker has taken and not finished. -/
def has (p : Phase) : Option Nat := p.behind.or p.running

theorem has_of_running {p : Phase} {i : Nat} (h : p.running = some i) : p.has = some i := by
  cases p with
  | handles i' q => exact h
  | _ => cases h

end Phase

/-- The queue and the workers. -/
structure Readtask where
  /-- All tasks that have been pushed. The queue is those not taken yet. -/
  pushed : List Task
  /-- How many tasks have been taken from the queue. -/
  popped : Nat
  /-- The worker that holds `t_mutex`. -/
  t_mutex : Option Nat
  workers : List Phase
  /-- The worker that holds the mutex of a client. -/
  client_mutex : Addr → Option Nat
  started : List Nat
  finished : List Nat

/-- A step of `serv_epoll` or of a worker. In a call of `close_client`, `found` is the
client that is registered for the descriptor. -/
inductive Move
  | push (task : Task)
  | pop (worker : Nat)
  | release (worker : Nat)
  | lock (worker : Nat)
  | call (worker : Nat) (e : HandlerEvent) (found : Ptr)
  | finish (worker : Nat)
  | unlock (worker : Nat)

namespace Readtask

/-- `n` workers have been started. -/
def start (n : Nat) : Readtask :=
  { pushed := [], popped := 0, t_mutex := none, workers := List.replicate n .idle,
    client_mutex := fun _ => none, started := [], finished := [] }

/-- A worker goes on. -/
def setWorker (s : Readtask) (worker : Nat) (p : Phase) : Readtask :=
  { s with workers := s.workers.set worker p }

/-- The mutex of a client is locked or unlocked. -/
def setMutex (s : Readtask) (client : Addr) (worker : Option Nat) : Readtask :=
  { s with client_mutex := Function.update s.client_mutex client worker }

/-- What a call of a handler does to the mutexes: `close_client` unlocks one. -/
def afterCall (s : Readtask) (e : HandlerEvent) (found : Ptr) : Readtask :=
  if e.1.isClose then found.elim s fun client => s.setMutex client none else s

/-- One step. -/
def step (parse : Bytes → Option Json) (s : Readtask) : Move → Option Readtask
  | .push task =>
      if s.t_mutex = none then some { s with pushed := s.pushed ++ [task] } else none
  | .pop worker =>
      match s.workers[worker]? with
      | some .idle =>
          if s.t_mutex = none ∧ s.popped < s.pushed.length then
            some ({ s with popped := s.popped + 1, t_mutex := some worker }.setWorker worker
              (.taken s.popped))
          else none
      | _ => none
  | .release worker =>
      match s.workers[worker]? with
      | some (.taken i) => some ({ s with t_mutex := none }.setWorker worker (.waits i))
      | _ => none
  | .lock worker =>
      match s.workers[worker]? with
      | some (.waits i) => do
          let task ← s.pushed[i]?
          if s.client_mutex task.client = none then
            some (({ s with started := s.started ++ [i] }.setMutex task.client worker).setWorker
              worker (.handles i (handleData parse task)))
          else none
      | _ => none
  | .call worker e found =>
      match s.workers[worker]? with
      | some (.handles i p) =>
          (p.advance e).map fun p => (s.afterCall e found).setWorker worker (.handles i p)
      | _ => none
  | .finish worker =>
      match s.workers[worker]? with
      | some (.handles i (.pure ret)) =>
          some ({ s with finished := s.finished ++ [i] }.setWorker worker
            (if ret = 0 then .idle else .unlocks i))
      | _ => none
  | .unlock worker =>
      match s.workers[worker]? with
      | some (.unlocks i) => do
          let task ← s.pushed[i]?
          some ((s.setMutex task.client none).setWorker worker .idle)
      | _ => none

/-- The client of a task. -/
def client (s : Readtask) (i : Nat) : Option Addr := s.pushed[i]?.map Task.client

/-- The task that a worker has taken and not finished. -/
def has (s : Readtask) (worker : Nat) : Option Nat := s.workers[worker]?.bind Phase.has

/-- When the handler of a task has been called, those of the earlier tasks of the same
client have returned. -/
def InOrder (s : Readtask) : Prop :=
  ∀ i j, i < j → s.client i = s.client j → j ∈ s.started → i ∈ s.finished

/-- No other worker is between its two locks with an earlier task of the client. -/
def NoneBehind (s : Readtask) (j : Nat) : Prop :=
  ∀ p ∈ s.workers, ∀ i ∈ p.behind, i < j → s.client i ≠ s.client j

/-- The handlers of earlier tasks of the client run under its mutex. -/
def Guarded (s : Readtask) (j : Nat) : Prop :=
  ∀ p ∈ s.workers, ∀ i ∈ p.running, i < j → s.client i = s.client j →
    ∀ client ∈ s.client j, s.client_mutex client ≠ none

/-- A worker that locks a client's mutex does so in neither of the two gaps. -/
def InTurn (s : Readtask) : Move → Prop
  | .lock worker => ∀ j ∈ s.has worker, s.NoneBehind j ∧ s.Guarded j
  | _ => True

instance (s : Readtask) (j : Nat) : Decidable (s.NoneBehind j) :=
  inferInstanceAs (Decidable (∀ p ∈ s.workers, ∀ i ∈ p.behind, _ → _))

instance (s : Readtask) (j : Nat) : Decidable (s.Guarded j) :=
  inferInstanceAs (Decidable (∀ p ∈ s.workers, ∀ i ∈ p.running, _ → _ → _))

instance (s : Readtask) : ∀ m, Decidable (s.InTurn m)
  | .lock worker => inferInstanceAs (Decidable (∀ j ∈ s.has worker, _))
  | .push _ | .pop _ | .release _ | .call _ _ _ | .finish _ | .unlock _ => .isTrue trivial

variable {parse : Bytes → Option Json} {s s' : Readtask}

/-! ### What a step does -/

theorem has_setWorker {worker : Nat} {p q : Phase} (h : s.workers[worker]? = some q) :
    (s.setWorker worker p).has = Function.update s.has worker p.has := by
  have hlt : worker < s.workers.length := (List.getElem?_eq_some_iff.mp h).1
  funext w
  rw [has, setWorker, List.getElem?_set, Function.update_apply]
  by_cases heq : worker = w
  · subst heq
    simp [hlt]
  · simp [heq, Ne.symm heq, has]

/-- A worker that goes on with the task it has. -/
theorem has_setWorker_same {worker : Nat} {p q : Phase} (h : s.workers[worker]? = some q)
    (hhas : p.has = q.has) : (s.setWorker worker p).has = s.has := by
  rw [has_setWorker h, hhas]
  funext w
  rw [Function.update_apply]
  split
  · rename_i heq
    rw [heq, has, h, Option.bind_some]
  · rfl

/-- What a step does to the tasks: nothing, or a task is taken from the queue, or its
handler is called or returns. -/
inductive Effect (s : Readtask) (m : Move) (s' : Readtask) : Prop
  | stay (hlock : ∀ w, m ≠ .lock w) (hpushed : s.pushed <+: s'.pushed)
      (hpopped : s'.popped = s.popped)
      (hhas : s'.has = s.has) (hstarted : s'.started = s.started)
      (hfinished : s'.finished = s.finished)
  | pop (hlock : ∀ w, m ≠ .lock w) (w : Nat) (hqueue : s.popped < s.pushed.length)
      (hfree : s.has w = none) (hpushed : s'.pushed = s.pushed) (hpopped : s'.popped = s.popped + 1)
      (hhas : s'.has = Function.update s.has w (some s.popped))
      (hstarted : s'.started = s.started) (hfinished : s'.finished = s.finished)
  | start (w j : Nat) (hlock : m = .lock w) (hhad : s.has w = some j) (client : Addr)
      (hclient : s.client j = some client) (hfree : s.client_mutex client = none)
      (hpushed : s'.pushed = s.pushed) (hpopped : s'.popped = s.popped) (hhas : s'.has = s.has)
      (hstarted : s'.started = s.started ++ [j]) (hfinished : s'.finished = s.finished)
  | finish (hlock : ∀ w, m ≠ .lock w) (w i : Nat) (hhad : s.has w = some i)
      (hpushed : s'.pushed = s.pushed)
      (hpopped : s'.popped = s.popped) (hhas : s'.has = Function.update s.has w none)
      (hstarted : s'.started = s.started) (hfinished : s'.finished = s.finished ++ [i])

theorem step_effect {m : Move} (h : s.step parse m = some s') : Effect s m s' := by
  cases m with
  | push task =>
      rw [step] at h
      split at h
      · obtain rfl := Option.some.inj h
        exact .stay nofun (List.prefix_append _ _) rfl rfl rfl rfl
      · cases h
  | pop worker =>
      rw [step] at h
      split at h
      · rename_i hidle
        split at h
        · rename_i hguard
          obtain rfl := Option.some.inj h
          refine .pop nofun worker hguard.2 (by rw [has, hidle]; rfl) rfl rfl ?_ rfl rfl
          exact has_setWorker (s := { s with popped := s.popped + 1, t_mutex := some worker }) hidle
        · cases h
      · cases h
  | release worker =>
      rw [step] at h
      split at h
      · rename_i i htaken
        obtain rfl := Option.some.inj h
        refine .stay nofun (List.prefix_refl _) rfl ?_ rfl rfl
        exact has_setWorker_same (s := { s with t_mutex := none }) htaken rfl
      · cases h
  | lock worker =>
      rw [step] at h
      split at h
      · rename_i j hwaits
        simp only [Option.bind_eq_bind, Option.bind_eq_some_iff] at h
        obtain ⟨task, htask, h⟩ := h
        split at h
        · rename_i hfree
          obtain rfl := Option.some.inj h
          refine .start worker j rfl (by rw [has, hwaits]; rfl) task.client
            (by rw [Readtask.client, htask, Option.map_some]) hfree rfl rfl ?_ rfl rfl
          exact has_setWorker_same (p := .handles j (handleData parse task)) (q := .waits j)
            (s := { s with started := s.started ++ [j] }.setMutex task.client worker) hwaits rfl
        · cases h
      · cases h
  | call worker e found =>
      rw [step] at h
      split at h
      · rename_i i p hhandles
        obtain ⟨p', -, rfl⟩ := Option.map_eq_some_iff.mp h
        -- the mutexes are the only thing that a call changes
        obtain ⟨mutex, hmutex⟩ : ∃ mutex,
            s.afterCall e found = { s with client_mutex := mutex } := by
          unfold afterCall
          split
          · cases found with
            | none => exact ⟨_, rfl⟩
            | some client => exact ⟨_, rfl⟩
          · exact ⟨_, rfl⟩
        rw [hmutex]
        refine .stay nofun (List.prefix_refl _) rfl ?_ rfl rfl
        exact has_setWorker_same (s := { s with client_mutex := mutex }) (p := .handles i p')
          (q := .handles i p) hhandles rfl
      · cases h
  | finish worker =>
      rw [step] at h
      split at h
      · rename_i i ret hhandles
        obtain rfl := Option.some.inj h
        refine .finish nofun worker i (by rw [has, hhandles]; rfl) rfl rfl ?_ rfl rfl
        refine (has_setWorker (s := { s with finished := s.finished ++ [i] }) hhandles).trans ?_
        congr 1
        split <;> rfl
      · cases h
  | unlock worker =>
      rw [step] at h
      split at h
      · rename_i i hunlocks
        simp only [Option.bind_eq_bind, Option.bind_eq_some_iff] at h
        obtain ⟨task, -, h⟩ := h
        obtain rfl := Option.some.inj h
        refine .stay nofun (List.prefix_refl _) rfl ?_ rfl rfl
        exact has_setWorker_same (s := s.setMutex task.client none) (p := .idle) (q := .unlocks i)
          hunlocks rfl
      · cases h

/-! ### The invariant -/

/-- Every task that has been taken is finished or with one worker. -/
structure Inv (s : Readtask) : Prop where
  popped_le : s.popped ≤ s.pushed.length
  has_lt : ∀ w i, s.has w = some i → i < s.popped
  unfinished : ∀ w i, s.has w = some i → i ∉ s.finished
  has_inj : ∀ w w' i, s.has w = some i → s.has w' = some i → w = w'
  cover : ∀ i < s.popped, i ∈ s.finished ∨ ∃ w, s.has w = some i
  started_lt : ∀ j ∈ s.started, j < s.popped
  finished_lt : ∀ i ∈ s.finished, i < s.popped

theorem inv_start (n : Nat) : (start n).Inv := by
  have hhas : ∀ w, (start n).has w = none := by
    intro w
    rw [has, start, List.getElem?_replicate]
    split <;> rfl
  refine ⟨Nat.le_refl _, ?_, ?_, ?_, nofun, nofun, nofun⟩
  · intro w i h; rw [hhas] at h; cases h
  · intro w i h; rw [hhas] at h; cases h
  · intro w w' i h; rw [hhas] at h; cases h

/-- A task is taken from the queue. -/
theorem Inv.pop (h : s.Inv) {w : Nat} (hqueue : s.popped < s.pushed.length) (hfree : s.has w = none)
    (hpushed : s'.pushed = s.pushed) (hpopped : s'.popped = s.popped + 1)
    (hhas : s'.has = Function.update s.has w (some s.popped)) (hstarted : s'.started = s.started)
    (hfinished : s'.finished = s.finished) : s'.Inv := by
  -- nobody has it yet
  have hnew : ∀ w', s.has w' ≠ some s.popped := fun w' h' => Nat.lt_irrefl _ (h.has_lt w' _ h')
  have hcases : ∀ w' i, s'.has w' = some i → (w' = w ∧ i = s.popped) ∨ s.has w' = some i := by
    intro w' i h'
    rw [hhas, Function.update_apply] at h'
    split at h'
    · exact .inl ⟨‹_›, (Option.some.inj h').symm⟩
    · exact .inr h'
  refine ⟨by rw [hpushed, hpopped]; exact hqueue, ?_, ?_, ?_, ?_, ?_, ?_⟩
  · intro w' i h'
    rcases hcases w' i h' with ⟨-, rfl⟩ | h'
    · omega
    · have := h.has_lt w' i h'
      omega
  · intro w' i h'
    rw [hfinished]
    rcases hcases w' i h' with ⟨-, rfl⟩ | h'
    · exact fun hmem => Nat.lt_irrefl _ (h.finished_lt _ hmem)
    · exact h.unfinished w' i h'
  · intro w₁ w₂ i h₁ h₂
    rcases hcases w₁ i h₁ with ⟨rfl, rfl⟩ | h₁
    · rcases hcases w₂ _ h₂ with ⟨rfl, -⟩ | h₂
      · rfl
      · exact absurd h₂ (hnew w₂)
    · rcases hcases w₂ i h₂ with ⟨-, rfl⟩ | h₂
      · exact absurd h₁ (hnew w₁)
      · exact h.has_inj w₁ w₂ i h₁ h₂
  · intro i hi
    rw [hpopped] at hi
    rw [hfinished]
    rcases Nat.lt_succ_iff_lt_or_eq.mp hi with hi | rfl
    · refine (h.cover i hi).imp_right fun hex => ?_
      obtain ⟨w', hw'⟩ := hex
      have hne : w' ≠ w := by
        intro heq
        rw [heq, hfree] at hw'
        cases hw'
      exact ⟨w', by rw [hhas, Function.update_of_ne hne, hw']⟩
    · exact .inr ⟨w, by rw [hhas, Function.update_self]⟩
  · intro j hj
    have := h.started_lt j (hstarted ▸ hj)
    omega
  · intro i hi
    have := h.finished_lt i (hfinished ▸ hi)
    omega

/-- A handler returns. -/
theorem Inv.finish (h : s.Inv) {w i : Nat} (hhad : s.has w = some i)
    (hpushed : s'.pushed = s.pushed) (hpopped : s'.popped = s.popped)
    (hhas : s'.has = Function.update s.has w none) (hstarted : s'.started = s.started)
    (hfinished : s'.finished = s.finished ++ [i]) : s'.Inv := by
  have hcases : ∀ w' i', s'.has w' = some i' → w' ≠ w ∧ s.has w' = some i' := by
    intro w' i' h'
    rw [hhas, Function.update_apply] at h'
    split at h'
    · cases h'
    · exact ⟨‹_›, h'⟩
  refine ⟨by rw [hpushed, hpopped]; exact h.popped_le, ?_, ?_, ?_, ?_, ?_, ?_⟩
  · intro w' i' h'
    exact hpopped ▸ h.has_lt w' i' (hcases w' i' h').2
  · intro w' i' h' hmem
    obtain ⟨hne, h'⟩ := hcases w' i' h'
    rw [hfinished] at hmem
    rcases List.mem_append.mp hmem with hmem | hmem
    · exact h.unfinished w' i' h' hmem
    · obtain rfl := List.mem_singleton.mp hmem
      exact hne (h.has_inj w' w i' h' hhad)
  · intro w₁ w₂ i' h₁ h₂
    exact h.has_inj w₁ w₂ i' (hcases w₁ i' h₁).2 (hcases w₂ i' h₂).2
  · intro i' hi'
    rw [hfinished, List.mem_append, List.mem_singleton]
    rcases h.cover i' (hpopped ▸ hi') with hmem | ⟨w', hw'⟩
    · exact .inl (.inl hmem)
    · by_cases heq : w' = w
      · subst heq
        exact .inl (.inr (Option.some.inj (hw'.symm.trans hhad)))
      · exact .inr ⟨w', by rw [hhas, Function.update_of_ne heq, hw']⟩
  · intro j hj
    exact hpopped ▸ h.started_lt j (hstarted ▸ hj)
  · intro i' hi'
    rw [hfinished] at hi'
    rw [hpopped]
    rcases List.mem_append.mp hi' with hi' | hi'
    · exact h.finished_lt i' hi'
    · exact List.mem_singleton.mp hi' ▸ h.has_lt w i hhad

theorem Inv.step (h : s.Inv) {m : Move} (heffect : Effect s m s') : s'.Inv := by
  cases heffect with
  | stay _ hpushed hpopped hhas hstarted hfinished =>
      have hlen := hpushed.length_le
      obtain ⟨hle, hlt, hun, hinj, hcover, hstarted_lt, hfinished_lt⟩ := h
      refine ⟨by omega, ?_, ?_, ?_, ?_, ?_, ?_⟩
      all_goals simp only [hpopped, hhas, hstarted, hfinished]
      all_goals assumption
  | pop _ w hqueue hfree hpushed hpopped hhas hstarted hfinished =>
      exact h.pop hqueue hfree hpushed hpopped hhas hstarted hfinished
  | start w j hlock hhad client hclient hfree hpushed hpopped hhas hstarted hfinished =>
      obtain ⟨hle, hlt, hun, hinj, hcover, hstarted_lt, hfinished_lt⟩ := h
      refine ⟨by rw [hpushed, hpopped]; exact hle, ?_, ?_, ?_, ?_, ?_, ?_⟩
      all_goals simp only [hpopped, hhas, hstarted, hfinished]
      any_goals assumption
      intro i hi
      rcases List.mem_append.mp hi with hi | hi
      · exact hstarted_lt i hi
      · exact List.mem_singleton.mp hi ▸ hlt w j hhad
  | finish _ w i hhad hpushed hpopped hhas hstarted hfinished =>
      exact h.finish hhad hpushed hpopped hhas hstarted hfinished

/-! ### The order of the handlers -/

/-- The client of a task that has been pushed stays. -/
theorem client_eq (hpushed : s.pushed <+: s'.pushed) {i : Nat} (hi : i < s.pushed.length) :
    s'.client i = s.client i := by
  obtain ⟨l, hl⟩ := hpushed
  rw [client, client, ← hl, List.getElem?_append_left hi]

theorem InOrder.of_started_eq (horder : s.InOrder) (h : s.Inv) (hpushed : s.pushed <+: s'.pushed)
    (hstarted : s'.started = s.started) (hfinished : ∀ i ∈ s.finished, i ∈ s'.finished) :
    s'.InOrder := by
  intro i j hij hclient hj
  rw [hstarted] at hj
  have hlt := h.started_lt j hj
  have hle := h.popped_le
  rw [client_eq hpushed (by omega), client_eq hpushed (by omega)] at hclient
  exact hfinished i (horder i j hij hclient hj)

/-- A worker that is behind with a task, or runs its handler, has it. -/
theorem has_of_mem {p : Phase} {i : Nat} (hp : p ∈ s.workers) (hi : p.has = some i) :
    ∃ w, s.has w = some i := by
  obtain ⟨w, hw⟩ := List.mem_iff_getElem?.mp hp
  exact ⟨w, by rw [has, hw, Option.bind_some, hi]⟩

/-- Who has a task is behind with it or runs its handler. -/
theorem mem_of_has {w i : Nat} (h : s.has w = some i) :
    ∃ p ∈ s.workers, p.behind = some i ∨ p.running = some i := by
  obtain ⟨p, hp, hi⟩ := Option.bind_eq_some_iff.mp h
  refine ⟨p, List.mem_of_getElem? hp, ?_⟩
  cases p with
  | taken i' => exact .inl hi
  | waits i' => exact .inl hi
  | handles i' q => exact .inr hi
  | idle => cases hi
  | unlocks i' => cases hi

/-- **A step in turn** keeps the order. -/
theorem inOrder_step (s : Readtask) (m : Move) (s' : Readtask) (h : s.Inv ∧ s.InOrder)
    (hturn : s.InTurn m) (hstep : s.step parse m = some s') : s'.Inv ∧ s'.InOrder := by
  obtain ⟨hinv, horder⟩ := h
  have heffect := step_effect hstep
  refine ⟨hinv.step heffect, ?_⟩
  cases heffect with
  | stay _ hpushed _ _ hstarted hfinished =>
      exact horder.of_started_eq hinv hpushed hstarted fun i hi => hfinished ▸ hi
  | pop _ _ _ _ hpushed _ _ hstarted hfinished =>
      exact horder.of_started_eq hinv (hpushed ▸ List.prefix_refl _) hstarted
        fun i hi => hfinished ▸ hi
  | finish _ _ _ _ hpushed _ _ hstarted hfinished =>
      exact horder.of_started_eq hinv (hpushed ▸ List.prefix_refl _) hstarted
        fun i hi => hfinished ▸ List.mem_append_left _ hi
  | start w j' hlock hhad client hclient hfree hpushed _ _ hstarted hfinished =>
      subst hlock
      obtain ⟨hbehind, hguarded⟩ := hturn j' hhad
      intro i j hij hsame hj
      rw [hstarted] at hj
      rw [hfinished]
      simp only [Readtask.client, hpushed] at hsame
      rcases List.mem_append.mp hj with hj | hj
      · exact horder i j hij hsame hj
      obtain rfl := List.mem_singleton.mp hj
      -- the queue is first in first out: the earlier task has been taken
      have hlt := hinv.has_lt w j hhad
      rcases hinv.cover i (by omega) with hmem | ⟨w', hw'⟩
      · exact hmem
      obtain ⟨p, hp, hi | hi⟩ := mem_of_has hw'
      · exact absurd hsame (hbehind p hp i hi hij)
      · exact absurd hfree (hguarded p hp i hi hij hsame client hclient)

/-- A step out of turn breaks it. -/
theorem not_inOrder_step (s : Readtask) (m : Move) (s' : Readtask) (h : s.Inv ∧ s.InOrder)
    (hturn : ¬ s.InTurn m) (hstep : s.step parse m = some s') : ¬ s'.InOrder := by
  -- an earlier task of the client is with a worker when the handler is called
  have hbad : ∃ w j w' i, m = .lock w ∧ s.has w = some j ∧ s.has w' = some i ∧ i < j ∧
      s.client i = s.client j := by
    cases m with
    | lock w =>
        simp only [InTurn, not_forall] at hturn
        obtain ⟨j, hj, hturn⟩ := hturn
        rcases not_and_or.mp hturn with hbehind | hguarded
        · simp only [NoneBehind, not_forall, ne_eq, not_not] at hbehind
          obtain ⟨p, hp, i, hi, hij, hsame⟩ := hbehind
          obtain ⟨w', hw'⟩ := has_of_mem hp (by rw [Phase.has, hi]; rfl)
          exact ⟨w, j, w', i, rfl, hj, hw', hij, hsame⟩
        · simp only [Guarded, not_forall] at hguarded
          obtain ⟨p, hp, i, hi, hij, hsame, -⟩ := hguarded
          obtain ⟨w', hw'⟩ := has_of_mem hp (Phase.has_of_running hi)
          exact ⟨w, j, w', i, rfl, hj, hw', hij, hsame⟩
    | _ => exact absurd trivial hturn
  obtain ⟨w, j, w', i, rfl, hj, hi, hij, hsame⟩ := hbad
  intro horder
  cases step_effect hstep with
  | stay hlock => exact hlock w rfl
  | pop hlock => exact hlock w rfl
  | finish hlock => exact hlock w rfl
  | start w₁ j₁ hlock hhad client hclient hfree hpushed _ _ hstarted hfinished =>
      cases hlock
      obtain rfl : j = j₁ := Option.some.inj (hj.symm.trans hhad)
      refine h.1.unfinished w' i hi (hfinished ▸ horder i j hij ?_ ?_)
      · simpa only [Readtask.client, hpushed] using hsame
      · rw [hstarted]
        exact List.mem_append_right _ (List.mem_singleton_self j)

/-- **The tasks of a client are handled in the order in which they were pushed**, each
handler after the ones before it have returned, if and only if no worker locks a client's
mutex while another one is between its two locks with an earlier task of the client, or
runs the handler of one after `close_client` has unlocked the mutex. -/
theorem in_order_iff (parse : Bytes → Option Json) (n : Nat) (l : List Move) (t : Readtask)
    (hrun : exec (step parse) (start n) l = some t) :
    Along (step parse) InOrder (start n) l ↔ AllSteps (step parse) InTurn (start n) l :=
  along_iff_allSteps (fun _ h => h.2) inOrder_step not_inOrder_step
    ⟨inv_start n, fun _ _ _ _ hj => nomatch hj⟩ hrun

/-- A login, and a message that the same client sends after it. -/
def loginThenMessage : List Move :=
  [.push ⟨5, 0, HANDLE_LOGIN, ascii "\x7b\"uid\":7\x7d"⟩,
    .push ⟨5, 0, HANDLE_SEND_MESSAGE, ascii "\x7b\"recv_id\":8,\"msg\":\"hi\"\x7d"⟩]

/-- Two workers handle a login, which is rejected, and the message after it. -/
theorem in_order_iff_two :
    ∃ t, exec (step fun _ => none) (start 2) (loginThenMessage ++ [.pop 0, .release 0, .lock 0,
      .pop 1, .release 1,
      .call 0 ⟨.readClient 0, ⟨5, 0, 0, 0, [], 0⟩⟩ none,
      .call 0 ⟨.send 5 ((frame HANDLE_LOGIN 0 (retPayload (-1000))).getD []), 28⟩ none,
      .finish 0, .unlock 0, .lock 1]) = some t ∧ t.started = [0, 1] ∧ t.InOrder := by
  have hend : (exec (step fun _ => none) (start 2) (loginThenMessage ++ [.pop 0, .release 0,
      .lock 0, .pop 1, .release 1,
      .call 0 ⟨.readClient 0, ⟨5, 0, 0, 0, [], 0⟩⟩ none,
      .call 0 ⟨.send 5 ((frame HANDLE_LOGIN 0 (retPayload (-1000))).getD []), 28⟩ none,
      .finish 0, .unlock 0, .lock 1])).map (fun t => t.started) = some [0, 1] := by decide
  obtain ⟨t, hrun, hend⟩ := Option.map_eq_some_iff.mp hend
  exact ⟨t, hrun, hend, ((in_order_iff _ 2 _ t hrun).mpr (by decide)).last hrun⟩

/-- The worker that has taken the login is overtaken by the one that takes the message: the
message is handled before the login has begun. -/
theorem message_overtakes_login :
    ∃ t, exec (step fun _ => none) (start 2) (loginThenMessage ++ [.pop 0, .release 0, .pop 1,
      .release 1, .lock 1]) = some t ∧ t.started = [1] ∧ t.finished = [] ∧
      t.client 0 = t.client 1 ∧ ¬ t.InOrder := by
  have hend : (exec (step fun _ => none) (start 2) (loginThenMessage ++ [.pop 0, .release 0,
      .pop 1, .release 1, .lock 1])).map
      (fun t => (t.started, t.finished, t.client 0, t.client 1)) =
      some ([1], [], some 0, some 0) := by decide
  obtain ⟨t, hrun, hend⟩ := Option.map_eq_some_iff.mp hend
  simp only [Prod.mk.injEq] at hend
  obtain ⟨hstarted, hfinished, hfirst, hsecond⟩ := hend
  refine ⟨t, hrun, hstarted, hfinished, hfirst.trans hsecond.symm, fun h => ?_⟩
  have hmem := h 0 1 (by decide) (hfirst.trans hsecond.symm) (by simp [hstarted])
  rw [hfinished] at hmem
  cases hmem

end Readtask

end SpiderChat
