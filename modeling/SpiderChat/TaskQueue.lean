import SpiderChat.Lib.Run
import SpiderChat.Types

/-!
# SpiderChat.TaskQueue

The task queue between `serv_epoll` and the `readtask` workers: a singly linked
list behind the globals `task_head` and `task_last`. `serv_epoll` allocates a
task and links it behind `task_last` under `t_mutex`; a worker takes `task_head`
off under the same mutex, handles the task and frees its node.

`pop` never writes `task_last`, which dangles once the last node is popped and
freed. The queue is correct nevertheless, because a push reads `task_last` only
when `task_head` is not `NULL`, and then it is the last node: `QueueInv`. The
nodes a worker still holds and the new node of `serv_epoll` are part of the
invariant too, since `malloc` may hand a freed address out again.
-/

namespace SpiderChat

open Lib

/-- The heap of tasks and the globals `task_head` and `task_last`. -/
structure TaskQueue where
  heap : Heap TaskNode
  task_head : Ptr
  task_last : Ptr
  deriving Repr, DecidableEq

/-- `p->next = ..` -/
def TaskNode.setNext (n : TaskNode) (p : Ptr) : TaskNode := { n with next := p }

@[simp] theorem TaskNode.setNext_task (n : TaskNode) (p : Ptr) : (n.setNext p).task = n.task := rfl

namespace TaskQueue

/-- The critical section of `serv_epoll`: link the new task behind the others.
`none` is undefined behaviour, a write through a stale `task_last`. -/
def push (q : TaskQueue) (new_task : Addr) : Option TaskQueue :=
  match q.task_head with
  | none => some { q with task_head := some new_task, task_last := some new_task }
  | some _ => do
      let last ← q.task_last
      let heap ← q.heap.update last (·.setNext (some new_task))
      some { q with heap, task_last := some new_task }

/-- The critical section of `readtask`: take the first task off. An empty queue
yields `NULL` (the worker waits on `t_cond`); `none` is undefined behaviour. -/
def pop (q : TaskQueue) : Option (Ptr × TaskQueue) :=
  match q.task_head with
  | none => some (none, q)
  | some temp => do
      let n ← q.heap.get temp
      some (some temp, { q with task_head := n.next })

/-- The tasks reachable from `task_head`; `none` when a freed node is reached. -/
def tasks (q : TaskQueue) : Option (List Task) :=
  (collect TaskNode.next q.heap (q.heap.length + 1) q.task_head).map fun cells =>
    cells.map fun c => c.2.task

end TaskQueue

/-! ### The threads around the queue -/

/-- A step of a thread that uses the queue. -/
inductive QueueOp
  /-- `serv_epoll`: `malloc` returns the address, the fields are filled in. -/
  | alloc (a : Addr) (t : Task)
  /-- `serv_epoll`: the critical section that links the new task. -/
  | push
  /-- A worker: the critical section that takes a task, if there is one. -/
  | pop
  /-- A worker: `spider_free_mem(temp)` at the end of a round. -/
  | free (a : Addr)
  deriving Repr, DecidableEq

/-- The queue (`none` after undefined behaviour) with `serv_epoll`'s local
`new_task`, the nodes popped and not yet freed by the workers, and the history of
the tasks pushed and popped. -/
structure QueueState where
  queue : Option TaskQueue
  new_task : Ptr
  held : List Addr
  pushed : List Task
  popped : List Task
  deriving Repr, DecidableEq

namespace QueueState

/-- `task_head` and `task_last` are globals: both are `NULL` at the start. -/
def init : QueueState := ⟨some ⟨[], none, none⟩, none, [], [], []⟩

/-- One step of some thread. Any number of workers may hold nodes. -/
def step (s : QueueState) (op : QueueOp) : Option QueueState :=
  match s.queue with
  | none => some s
  | some q =>
      match op with
      | .alloc a t =>
          if s.new_task = none ∧ q.heap.get a = none then
            some { s with queue := some { q with heap := q.heap.set a ⟨t, none⟩ }
                          new_task := some a }
          else none
      | .push =>
          match s.new_task with
          | none => none
          | some a =>
              some { s with queue := q.push a
                            new_task := none
                            pushed := s.pushed ++ ((q.heap.get a).map TaskNode.task).toList }
      | .pop =>
          match q.pop with
          | none => some { s with queue := none }
          | some (none, _) => some s
          | some (some temp, q') =>
              some { s with queue := some q'
                            held := s.held ++ [temp]
                            popped := s.popped ++ ((q.heap.get temp).map TaskNode.task).toList }
      | .free a =>
          if a ∈ s.held then
            some { s with queue := (q.heap.free a).map fun heap => { q with heap }
                          held := s.held.erase a }
          else none

/-- The queue is a lossless FIFO: the tasks reachable from `task_head` are those
pushed and not yet popped, what was popped is what was pushed first, in order,
and a non-empty chain ends in `task_last`. -/
def Lossless (s : QueueState) : Prop :=
  ∃ q, s.queue = some q ∧
    (∃ waiting, q.tasks = some waiting ∧ s.pushed = s.popped ++ waiting) ∧
    (q.task_head ≠ none → ∃ cells, collect TaskNode.next q.heap (q.heap.length + 1) q.task_head =
      some cells ∧ q.task_last = lastOr none cells)

end QueueState

/-! ### The invariant -/

/-- The heap consists of the chain from `task_head`, the new task and the nodes
the workers hold; a non-empty chain ends in `task_last`. -/
structure QueueInv (s : QueueState) (q : TaskQueue) (cells new held : List (Addr × TaskNode)) :
    Prop where
  queue : s.queue = some q
  owns : Owns q.heap (cells ++ (new ++ held))
  head : q.task_head = headOr cells none
  next : LinkedTo TaskNode.next cells none
  last : cells ≠ [] → q.task_last = lastOr none cells
  new_task : s.new_task = headOr new none
  fresh : new = [] ∨ ∃ a t, new = [(a, ⟨t, none⟩)]
  held : s.held = held.map Prod.fst
  history : s.pushed = s.popped ++ cells.map fun c => c.2.task

def QueueState.Inv (s : QueueState) : Prop := ∃ q cells new held, QueueInv s q cells new held

theorem QueueState.init_inv : QueueState.init.Inv :=
  ⟨_, [], [], [],
    { queue := rfl
      owns := ⟨by simp, by simp⟩
      head := rfl
      next := trivial
      last := fun h => absurd rfl h
      new_task := rfl
      fresh := Or.inl rfl
      held := rfl
      history := rfl }⟩

namespace QueueInv

variable {s s' : QueueState} {q : TaskQueue} {cells new held : List (Addr × TaskNode)}

theorem chain (h : QueueInv s q cells new held) :
    collect TaskNode.next q.heap (q.heap.length + 1) q.task_head = some cells := by
  have hlen : cells.length ≤ q.heap.length := by
    have := h.owns.length_le
    simp only [List.length_append] at this
    omega
  rw [h.head]
  exact collect_chain (fun c hc => h.owns.holds c (List.mem_append_left _ hc)) h.next (by omega)

/-- The invariant gives the specification. -/
theorem lossless (h : QueueInv s q cells new held) : s.Lossless := by
  refine ⟨q, h.queue, ⟨_, by rw [TaskQueue.tasks, h.chain]; rfl, h.history⟩, fun hne => ?_⟩
  refine ⟨cells, h.chain, h.last ?_⟩
  intro heq
  subst heq
  exact hne h.head

/-- `malloc` in `serv_epoll`. -/
theorem alloc {a : Addr} {t : Task} (h : QueueInv s q cells new held)
    (hs : s.step (.alloc a t) = some s') : s'.Inv := by
  simp only [QueueState.step, h.queue] at hs
  split at hs
  · rename_i hguard
    obtain ⟨hnone, hfresh⟩ := hguard
    obtain rfl : new = [] := by
      rcases h.fresh with hn | ⟨a, t, hn⟩
      · exact hn
      · rw [h.new_task, hn] at hnone
        exact absurd hnone (by simp)
    refine ⟨{ q with heap := q.heap.set a ⟨t, none⟩ }, cells, [(a, ⟨t, none⟩)], held, ?_⟩
    rw [← Option.some.inj hs]
    exact
      { queue := rfl
        owns := (h.owns.set_new hfresh ⟨t, none⟩).perm (by
          rw [List.nil_append, List.append_assoc]
          exact List.Perm.append_left _ List.perm_append_comm)
        head := h.head
        next := h.next
        last := h.last
        new_task := rfl
        fresh := Or.inr ⟨a, t, rfl⟩
        held := h.held
        history := h.history }
  · exact absurd hs (by simp)

/-- The push reads `task_last` only when it is the last node of the chain. -/
theorem push (h : QueueInv s q cells new held) (hs : s.step .push = some s') : s'.Inv := by
  simp only [QueueState.step, h.queue] at hs
  rcases h.fresh with rfl | ⟨a, t, rfl⟩
  · rw [h.new_task] at hs
    exact absurd hs (by simp)
  · have hget : q.heap.get a = some ⟨t, none⟩ := h.owns.holds (a, ⟨t, none⟩) (by simp)
    have hnew : s.new_task = some a := h.new_task
    simp only [hnew, hget, Option.map_some, Option.toList_some, Option.some.injEq] at hs
    rcases List.eq_nil_or_concat cells with rfl | ⟨xs, x, rfl⟩
    · have hhead : q.task_head = none := h.head
      have hpush : q.push a = some { q with task_head := some a, task_last := some a } := by
        simp [TaskQueue.push, hhead]
      refine ⟨{ q with task_head := some a, task_last := some a }, [(a, ⟨t, none⟩)], [], held, ?_⟩
      rw [← hs]
      exact
        { queue := hpush
          owns := h.owns
          head := rfl
          next := ⟨rfl, trivial⟩
          last := fun _ => rfl
          new_task := rfl
          fresh := Or.inl rfl
          held := h.held
          history := by simp [h.history] }
    · rw [List.concat_eq_append] at h
      have hlast : q.task_last = some x.1 := by
        rw [h.last (by simp), lastOr_append]
        rfl
      have howns : Owns q.heap (xs ++ (x.1, x.2) :: ([(a, ⟨t, none⟩)] ++ held)) := by
        simpa using h.owns
      have hpush : q.push a =
          some ⟨q.heap.set x.1 (x.2.setNext (some a)), q.task_head, some a⟩ := by
        cases hhead : q.task_head with
        | none =>
            rw [h.head] at hhead
            cases xs <;> exact absurd hhead (by simp)
        | some b => simp [TaskQueue.push, hhead, hlast, Heap.update_eq howns.get]
      have hnext := linkedTo_append.mp h.next
      refine ⟨⟨q.heap.set x.1 (x.2.setNext (some a)), q.task_head, some a⟩,
        xs ++ [(x.1, x.2.setNext (some a)), (a, ⟨t, none⟩)], [], held, ?_⟩
      rw [← hs]
      exact
        { queue := hpush
          owns := by simpa using howns.set_at (x.2.setNext (some a))
          head := by
            have hhead := h.head
            cases xs <;> exact hhead
          next := linkedTo_append.mpr ⟨hnext.1, rfl, rfl, trivial⟩
          last := fun _ => by
            rw [lastOr_append]
            rfl
          new_task := rfl
          fresh := Or.inl rfl
          held := h.held
          history := by simp [h.history] }

/-- The pop moves the first node of the chain to the nodes held. -/
theorem pop (h : QueueInv s q cells new held) (hs : s.step .pop = some s') : s'.Inv := by
  simp only [QueueState.step, h.queue] at hs
  cases cells with
  | nil =>
      have hhead : q.task_head = none := h.head
      simp only [TaskQueue.pop, hhead, Option.some.injEq] at hs
      exact ⟨q, [], new, held, hs ▸ h⟩
  | cons c cs =>
      have hhead : q.task_head = some c.1 := h.head
      have hget : q.heap.get c.1 = some c.2 := h.owns.holds c (by simp)
      simp only [TaskQueue.pop, hhead, hget, Option.bind_eq_bind, Option.bind_some,
        Option.map_some, Option.toList_some, Option.some.injEq] at hs
      refine ⟨{ q with task_head := c.2.next }, cs, new, held ++ [c], ?_⟩
      rw [← hs]
      exact
        { queue := rfl
          owns := h.owns.perm (by
            rw [List.cons_append, ← List.append_assoc, ← List.append_assoc, ← List.append_assoc]
            exact (List.perm_append_singleton c _).symm)
          head := h.next.1
          next := h.next.2
          last := fun hne => by
            have hlast := h.last (by simp)
            cases cs with
            | nil => exact absurd rfl hne
            | cons d ds => exact hlast
          new_task := h.new_task
          fresh := h.fresh
          held := by simp [h.held]
          history := by simp [h.history] }

/-- A worker frees a node it holds, never one of the chain. -/
theorem free {a : Addr} (h : QueueInv s q cells new held) (hs : s.step (.free a) = some s') :
    s'.Inv := by
  simp only [QueueState.step, h.queue] at hs
  split at hs
  · rename_i hmem
    rw [h.held] at hmem
    obtain ⟨c, hc, rfl⟩ := List.mem_map.mp hmem
    obtain ⟨xs, ys, rfl⟩ := List.append_of_mem hc
    have howns : Owns q.heap ((cells ++ (new ++ xs)) ++ (c.1, c.2) :: ys) := by
      simpa using h.owns
    have hnot : c.1 ∉ xs.map Prod.fst := fun hx =>
      howns.not_mem_of_split.1 (by simp only [List.map_append, List.mem_append]; tauto)
    have herase : s.held.erase c.1 = (xs ++ ys).map Prod.fst := by
      rw [h.held, List.map_append, List.map_cons, List.erase_append_right _ hnot,
        List.erase_cons_head, List.map_append]
    refine ⟨{ q with heap := q.heap.erase c.1 }, cells, new, xs ++ ys, ?_⟩
    rw [← Option.some.inj hs]
    exact
      { queue := by rw [Heap.free_eq howns.get]; rfl
        owns := by simpa using howns.erase_at
        head := h.head
        next := h.next
        last := h.last
        new_task := h.new_task
        fresh := h.fresh
        held := herase
        history := h.history }
  · exact absurd hs (by simp)

end QueueInv

theorem QueueState.Inv.step {s s' : QueueState} (op : QueueOp) (h : s.Inv)
    (hs : s.step op = some s') : s'.Inv := by
  obtain ⟨q, cells, new, held, h⟩ := h
  cases op with
  | alloc a t => exact h.alloc hs
  | push => exact h.push hs
  | pop => exact h.pop hs
  | free a => exact h.free hs

/-- **The task queue is a lossless FIFO.** In every state reached by any
interleaving of allocations, pushes, pops and frees of any number of workers, the
tasks reachable from `task_head` are exactly those pushed and not yet popped,
the tasks popped are the first ones pushed, in push order and each once, and
`task_last` is the last node of a non-empty chain. -/
theorem queue_lossless (ops : List QueueOp) (s : QueueState)
    (hrun : exec QueueState.step QueueState.init ops = some s) : s.Lossless := by
  have hinv : s.Inv :=
    exec_invariant (fun _ op _ h hs => h.step op hs) QueueState.init_inv hrun
  obtain ⟨q, cells, new, held, h⟩ := hinv
  exact h.lossless

/-- The address of a popped and freed task is used again while `task_last` still
holds it. -/
theorem queue_lossless_reuse :
    (⟨some ⟨[(1, ⟨⟨6, 2, 0x102, []⟩, none⟩)], some 1, some 1⟩, none, [],
      [⟨5, 2, 0x100, []⟩, ⟨6, 2, 0x102, []⟩], [⟨5, 2, 0x100, []⟩]⟩ : QueueState).Lossless :=
  queue_lossless [.alloc 1 ⟨5, 2, 0x100, []⟩, .push, .pop, .free 1,
    .alloc 1 ⟨6, 2, 0x102, []⟩, .push] _ (by decide)

end SpiderChat
