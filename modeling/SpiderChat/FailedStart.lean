import SpiderChat.PoolInv

/-!
# SpiderChat.FailedStart

**The pool after an `initMysql` that has failed.** `main` only writes a log line and goes on.
`conn_sum` was set to 15 before the first connection was opened, and the list ends where
`mysql_real_connect` returned `NULL`, so `conn_sum` exceeds the free nodes of the list in every
state of every run. A run is sound as long as every `getConnect` finds a free node, and some
run does not (`failed_start`).
-/

namespace SpiderChat

open Lib

/-- The number of free nodes that are linked in `sql_conn->db`. -/
def Pool.freeLinked (p : Pool) : Nat := (freeNodes (p.pooled.getD [])).length

namespace PoolState

/-- The threads hold connections of their own, which are initialised and connected. An overflow
connection is in the heap only once it is connected. -/
def Safe (mem : Nat → NewNode) (s : PoolState) : Prop :=
  ∃ p, s.pool = some p ∧ (s.held.map Prod.snd).Nodup ∧
    ∀ h ∈ s.held, ∃ n, p.heap.get h.2 = some n ∧ (n.normal_flag = true → Connected mem n.conn)

/-- A `getConnect` that begins in this state finds a free node in the list. -/
def GetsFree (s : PoolState) (op : PoolOp) : Prop :=
  ∀ thread p, op = .get thread → s.pool = some p → p.freeLinked ≠ 0

/-- The pool that `initMysql` has left serves every run of calls. -/
def Usable (mem : Nat → NewNode) (p : Pool) : Prop :=
  ∀ ops s, exec step (start p) ops = some s →
    s.Safe mem ∧ ∀ q, s.pool = some q → q.conn_sum ≤ q.freeLinked

/-- A thread in neither function can call `getConnect`. -/
theorem exists_step_get {s : PoolState} (thread : Nat) (h : s.Idle thread) :
    ∃ s', s.step (.get thread) = some s' := by
  unfold step
  split
  · exact ⟨s, rfl⟩
  · simp only [h, if_true]
    split <;> exact ⟨_, rfl⟩

end PoolState

namespace PoolShort

variable {missing : Nat} {mem : Nat → NewNode} {s s' : PoolState} {p : Pool}
  {cells extra : List (Addr × DBConn)}

theorem freeLinked (h : PoolShort missing (Connected mem) s p cells extra) :
    p.freeLinked = (freeNodes cells).length := by
  rw [Pool.freeLinked, h.pooled]

theorem freeLinked_eq_zero_iff (h : PoolShort missing (Connected mem) s p cells extra) :
    p.freeLinked = 0 ↔ freeNodes cells = [] := by
  rw [h.freeLinked, List.length_eq_zero_iff]

theorem safe (h : PoolShort missing (Connected mem) s p cells extra) : s.Safe mem := by
  have hsub : (usedNodes cells ++ extra).Sublist (cells ++ extra) :=
    List.Sublist.append_right List.filter_sublist _
  refine ⟨p, h.pool, h.held.nodup_iff.mpr (h.owns.nodup.sublist (hsub.map Prod.fst)), ?_⟩
  intro held hmem
  have hconn : held.2 ∈ (usedNodes cells ++ extra).map Prod.fst :=
    h.held.mem_iff.mp (List.mem_map_of_mem hmem)
  obtain ⟨c, hc, heq⟩ := List.mem_map.mp hconn
  have hget := h.owns.holds c (hsub.subset hc)
  rw [heq] at hget
  refine ⟨c.2, hget, fun hflag => ?_⟩
  rcases List.mem_append.mp hc with hc | hc
  · exact (h.normal c (List.mem_filter.mp hc).1).2
  · rw [h.overflow c hc] at hflag
    cases hflag

/-- With nodes missing, a step keeps the list exactly when it is no `getConnect` without a free
node. -/
theorem step_of_getsFree {op : PoolOp} (h : PoolShort missing (Connected mem) s p cells extra)
    (hok : s.GetsFree op) (hs : s.step op = some s') : s'.Short missing (Connected mem) := by
  rcases h.step hs with ⟨h', -⟩ | ⟨-, hempty, ⟨thread, rfl⟩, -⟩
  · exact h'
  · exact absurd (h.freeLinked_eq_zero_iff.mpr hempty) (hok thread p rfl h.pool)

theorem step_of_not_getsFree {op : PoolOp} (hmissing : missing ≠ 0)
    (h : PoolShort missing (Connected mem) s p cells extra) (hbad : ¬ s.GetsFree op)
    (hs : s.step op = some s') : s'.pool = none := by
  rcases h.step hs with ⟨-, hzero | hfree | hget⟩ | ⟨-, -, -, hnone⟩
  · exact absurd hzero hmissing
  · refine absurd (fun thread q _ hq => ?_) hbad
    obtain rfl := Option.some.inj (h.pool.symm.trans hq)
    exact fun hempty => hfree (h.freeLinked_eq_zero_iff.mp hempty)
  · exact absurd (fun thread _ hop _ => absurd hop (hget thread)) hbad
  · exact hnone

/-- With nodes missing, every thread is outside the pool. -/
theorem exists_step_get (hmissing : missing ≠ 0)
    (h : PoolShort missing (Connected mem) s p cells extra) (thread : Nat) :
    ∃ s', s.step (.get thread) = some s' := by
  obtain ⟨hbetween, hfreeing, -⟩ := h.no_overflow hmissing
  exact PoolState.exists_step_get thread ⟨by simp [hbetween], by simp [hfreeing]⟩

/-- With nodes missing, the free ones are taken one after the other, and the next `getConnect`
goes through `NULL`. -/
theorem runs_dry (hmissing : missing ≠ 0) :
    ∀ {n : Nat} {s : PoolState} {p : Pool} {cells : List (Addr × DBConn)},
      PoolShort missing (Connected mem) s p cells [] → (freeNodes cells).length = n →
      ∃ ops s', exec PoolState.step s ops = some s' ∧ s'.pool = none := by
  intro n
  induction n with
  | zero =>
      intro s p cells h hlen
      obtain ⟨s', hs⟩ := h.exists_step_get hmissing 0
      refine ⟨[.get 0], s', exec_cons.mpr ⟨s', hs, rfl⟩, ?_⟩
      refine h.step_of_not_getsFree hmissing (fun hfree => ?_) hs
      exact hfree 0 p rfl h.pool (h.freeLinked.trans hlen)
  | succ n ih =>
      intro s p cells h hlen
      obtain ⟨s', hs⟩ := h.exists_step_get hmissing 0
      rcases h.get hs with ⟨hzero, -⟩ | ⟨-, hempty, -⟩ | ⟨p', cells', h', hone⟩
      · exact absurd hzero hmissing
      · rw [hempty] at hlen
        cases hlen
      · obtain ⟨ops, t, hrun, hnone⟩ := ih h' (by omega)
        exact ⟨.get 0 :: ops, t, exec_cons.mpr ⟨s', hs, hrun⟩, hnone⟩

end PoolShort

/-- The list stays as it is until a `getConnect` has gone through `NULL`. -/
theorem PoolState.Short.run {missing : Nat} {mem : Nat → NewNode}
    {s s' : PoolState} {ops : List PoolOp}
    (h : s.Short missing (Connected mem)) (hrun : exec PoolState.step s ops = some s') :
    s'.pool = none ∨ s'.Short missing (Connected mem) := by
  have hstep : ∀ t op t', (t.pool = none ∨ t.Short missing (Connected mem)) →
      PoolState.step t op = some t' → t'.pool = none ∨ t'.Short missing (Connected mem) := by
    intro t op t' ht hs
    rcases ht with hnone | ⟨_, _, _, ht⟩
    · simp only [PoolState.step, hnone, Option.some.injEq] at hs
      exact Or.inl (hs ▸ hnone)
    · rcases ht.step hs with ⟨h', -⟩ | ⟨-, -, -, hnone⟩
      · exact Or.inr h'
      · exact Or.inl hnone
  exact exec_invariant hstep (Or.inr h) hrun

/-- **After a failed `initMysql` the pool is not usable**, wherever it has failed: `conn_sum`
always exceeds the free nodes of the list, by the connections that were not opened; a run of
calls is sound exactly when every `getConnect` in it finds a free node; and there is a run that
goes through `NULL`. -/
theorem failed_start (mem : Nat → NewNode) (p : Pool)
    (hmem : ∀ i < NORMARL_MYSQL_CONNECT, ∀ j < NORMARL_MYSQL_CONNECT,
      (mem i).addr = (mem j).addr → i = j)
    (hinit : initMysql mem = some (p, false)) :
    ¬ PoolState.Usable mem p ∧
    (∀ ops s q, exec PoolState.step (PoolState.start p) ops = some s → s.pool = some q →
      q.conn_sum = q.freeLinked + (15 - opened mem 15 : Nat) ∧ q.freeLinked < q.conn_sum) ∧
    (∀ ops s, exec PoolState.step (PoolState.start p) ops = some s →
      (Along PoolState.step (PoolState.Safe mem) (PoolState.start p) ops ↔
        AllSteps PoolState.step PoolState.GetsFree (PoolState.start p) ops)) ∧
    ∃ ops s, exec PoolState.step (PoolState.start p) ops = some s ∧ s.pool = none := by
  obtain ⟨p', heq, cells, h⟩ := initMysql_short hmem
  rw [hinit, Option.some.injEq, Prod.mk.injEq] at heq
  obtain ⟨rfl, hfail⟩ := heq
  have hlt : opened mem 15 < 15 :=
    Nat.lt_of_le_of_ne (opened_le mem 15) (of_decide_eq_false hfail.symm)
  have hmissing : 15 - opened mem 15 ≠ 0 := Nat.sub_ne_zero_of_lt hlt
  have hstart : (PoolState.start p).Short (15 - opened mem 15) (Connected mem) := ⟨p, cells, [], h⟩
  have hsum : ∀ ops s q, exec PoolState.step (PoolState.start p) ops = some s →
      s.pool = some q → q.conn_sum = q.freeLinked + (15 - opened mem 15 : Nat) := by
    intro ops s q hrun hq
    rcases hstart.run hrun with hnone | ⟨_, _, _, h'⟩
    · rw [hnone] at hq
      cases hq
    · obtain rfl := Option.some.inj (h'.pool.symm.trans hq)
      rw [h'.sum, h'.freeLinked]
  refine ⟨fun husable => ?_, fun ops s q hrun hq => ?_, fun ops s hrun => ?_, ?_⟩
  · have hle := (husable [] _ rfl).2 p rfl
    have heq := hsum [] _ p rfl rfl
    omega
  · have heq := hsum ops s q hrun hq
    exact ⟨heq, by omega⟩
  · refine along_iff_allSteps (fun _ h => ?_) (fun _ _ _ h hok hs => ?_)
      (fun _ _ _ h hbad hs hsafe => ?_) hstart hrun
    · obtain ⟨_, _, _, h⟩ := h
      exact h.safe
    · obtain ⟨_, _, _, h⟩ := h
      exact h.step_of_getsFree hok hs
    · obtain ⟨_, _, _, h⟩ := h
      obtain ⟨q, hq, -⟩ := hsafe
      rw [h.step_of_not_getsFree hmissing hbad hs] at hq
      cases hq
  · exact PoolShort.runs_dry hmissing h rfl

/-- Only the first connection is opened. -/
theorem failed_start_one_opened :
    ∃ p, initMysql (fun k => ⟨k, k, decide (k = 14)⟩) = some (p, false) ∧
      ∀ ops s q, exec PoolState.step (PoolState.start p) ops = some s → s.pool = some q →
        q.conn_sum = q.freeLinked + 14 := by
  obtain ⟨p, hp⟩ : ∃ p, initMysql (fun k => ⟨k, k, decide (k = 14)⟩) = some (p, false) := ⟨_, rfl⟩
  refine ⟨p, hp, fun ops s q hrun hq => ?_⟩
  exact ((failed_start _ p (fun i _ j _ h => h) hp).2.1 ops s q hrun hq).1

/-- Two threads ask for a connection when only the first one was opened: the second one goes
through `NULL`. -/
theorem second_get_through_null :
    ∃ p, initMysql (fun k => ⟨k, k, decide (k = 14)⟩) = some (p, false) ∧
      exec PoolState.step (PoolState.start p) [.get 0, .get 1] = some ⟨none, [(0, 14)], [], []⟩ ∧
      ¬ PoolState.Usable (fun k => ⟨k, k, decide (k = 14)⟩) p := by
  obtain ⟨p, hp⟩ : ∃ p, initMysql (fun k => ⟨k, k, decide (k = 14)⟩) = some (p, false) := ⟨_, rfl⟩
  have hrun : exec PoolState.step (PoolState.start p) [.get 0, .get 1] =
      some ⟨none, [(0, 14)], [], []⟩ := by
    obtain rfl : p = ((initMysql (fun k => ⟨k, k, decide (k = 14)⟩)).get rfl).1 := by
      simp only [hp, Option.get_some]
    rfl
  refine ⟨p, hp, hrun, fun h => ?_⟩
  obtain ⟨q, hq, -⟩ := (h _ _ hrun).1
  cases hq

end SpiderChat
