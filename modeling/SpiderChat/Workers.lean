import SpiderChat.PoolInv
import SpiderChat.Release

/-!
# SpiderChat.Workers

**Requests over the connection pool.** `WorkState` puts the handlers next to the
pool: any number of threads, each with the task it handles and what remains of
its handler. The calls `getConnect` and `destoryConnect` of a handler are the
critical sections of `SpiderChat.PoolInv`, in any interleaving with those of the
other threads.

As long as no request for the friend list obtains a connection, every thread owes
exactly what it holds (`Owes`); so when no request is in progress nothing is lent
out, and the pool is as `initMysql` has left it.
-/

namespace SpiderChat

open Lib

namespace PoolState

/-- The connections that a thread holds. -/
def heldBy (s : PoolState) (thread : Nat) : List Addr :=
  s.held.filterMap fun h => if h.1 = thread then some h.2 else none

/-- The connection that is lent out between two states. -/
def lent (s s' : PoolState) : Ptr :=
  if s.held.length < s'.held.length then s'.held.head?.map Prod.snd else none

/-- All 15 pooled connections are free and no overflow connection is outstanding. -/
def AllFree (s : PoolState) : Prop :=
  ∃ p cells, s.Exact p cells ∧ cells.length = NORMARL_MYSQL_CONNECT ∧
    (∀ c ∈ cells, c.2.is_use = 0) ∧ p.conn_sum = 15 ∧ s.overflow p = [] ∧
    p.mysql_courrent_connet_sum = 15

end PoolState

/-- The thread that runs a critical section. -/
def PoolOp.thread : PoolOp → Nat
  | .get thread => thread
  | .getOverflow thread _ => thread
  | .release thread _ => thread
  | .count thread => thread

/-- The pool, and what is left to do of the request that a thread handles. -/
structure WorkState where
  pool : PoolState
  active : Nat → Option (Task × Handler Int32)

/-- One step: a request is begun, makes a call other than to the pool, runs a
critical section of the pool, or is finished. -/
inductive WorkOp
  | start (thread : Nat) (task : Task)
  | call (thread : Nat) (e : HandlerEvent)
  | pool (op : PoolOp)
  | finish (thread : Nat)

namespace WorkState

/-- No request has been handled yet. -/
def start (p : Pool) : WorkState := ⟨.start p, fun _ => none⟩

/-- The thread goes on with `p`. -/
def resume (s : WorkState) (thread : Nat) (task : Task) (p : Handler Int32) : WorkState :=
  { s with active := Function.update s.active thread (some (task, p)) }

/-- A critical section, for a handler at the call `c`. -/
def poolStep (s : WorkState) (op : PoolOp) (task : Task) (pool : PoolState) :
    (c : Call) → (c.Answer → Handler Int32) → Option WorkState
  | .getConnect, k =>
      match op with
      | .get thread =>
          match s.pool.lent pool with
          | some conn => some ({ s with pool }.resume thread task (k (some conn)))
          | none => some { s with pool }
      | .getOverflow thread _ =>
          some ({ s with pool }.resume thread task (k (s.pool.lent pool)))
      | _ => none
  | .destoryConnect conn, k =>
      match op with
      | .release thread conn' =>
          if conn = conn' then
            if thread ∈ pool.freeing then some { s with pool }
            else some ({ s with pool }.resume thread task (k ()))
          else none
      | .count thread => some ({ s with pool }.resume thread task (k ()))
      | _ => none
  | _, _ => none

/-- One step. -/
def step (parse : Bytes → Option Json) (s : WorkState) : WorkOp → Option WorkState
  | .start thread task =>
      match s.active thread with
      | none => some (s.resume thread task (handleData parse task))
      | some _ => none
  | .call thread ⟨c, r⟩ =>
      match s.active thread with
      | some (task, .call c' k) =>
          if h : c = c' then
            if c.IsPool then none else some (s.resume thread task (k (h ▸ r)))
          else none
      | _ => none
  | .pool op =>
      match s.active op.thread with
      | some (task, .call c k) => (s.pool.step op).bind fun pool => s.poolStep op task pool c k
      | _ => none
  | .finish thread =>
      match s.active thread with
      | some (_, .pure _) => some { s with active := Function.update s.active thread none }
      | _ => none

/-- No request is in progress. -/
def Quiet (s : WorkState) : Prop := ∀ thread, s.active thread = none

end WorkState

/-- In this step no request for the friend list obtains a connection. -/
def NoListLoan (parse : Bytes → Option Json) (s : WorkState) (op : WorkOp) : Prop :=
  ∀ s' thread task p conn, s.step parse op = some s' → s.active thread = some (task, p) →
    s'.pool.held = (thread, conn) :: s.pool.held → task.cmd ≠ HANDLE_GET_FRIEND_LIST

/-! ### The tasks of the threads -/

namespace WorkState

variable {parse : Bytes → Option Json} {s s' : WorkState} {op : WorkOp} {t u : Nat}
  {task task' : Task} {p p' q : Handler Int32}

theorem exists_active_of_resume (h : s.active t = some (task, p))
    (hu : (s.resume t task q).active u = some (task', p')) :
    ∃ p₀, s.active u = some (task', p₀) := by
  simp only [resume, Function.update_apply] at hu
  split at hu
  · rename_i heq
    cases hu
    exact ⟨p, heq ▸ h⟩
  · exact ⟨p', hu⟩

/-- A critical section changes the pool, and a handler that has its answer goes on. -/
theorem poolStep_cases {op : PoolOp} {pool : PoolState} {c : Call} {k : c.Answer → Handler Int32}
    (hs : s.poolStep op task pool c k = some s') :
    s' = { s with pool } ∨ ∃ q, s' = ({ s with pool } : WorkState).resume op.thread task q := by
  cases c with
  | getConnect =>
      cases op with
      | get t =>
          simp only [poolStep] at hs
          split at hs
          · exact .inr ⟨_, (Option.some.inj hs).symm⟩
          · exact .inl (Option.some.inj hs).symm
      | getOverflow t r => exact .inr ⟨_, (Option.some.inj hs).symm⟩
      | release t conn => cases hs
      | count t => cases hs
  | destoryConnect conn =>
      cases op with
      | get t => cases hs
      | getOverflow t r => cases hs
      | release t conn' =>
          simp only [poolStep] at hs
          split at hs
          · split at hs
            · exact .inl (Option.some.inj hs).symm
            · exact .inr ⟨_, (Option.some.inj hs).symm⟩
          · cases hs
      | count t => exact .inr ⟨_, (Option.some.inj hs).symm⟩
  | _ => cases hs

/-- A thread goes on with the task that it handles, or begins with one. -/
theorem active_of_step (hs : s.step parse op = some s') (h : s'.active u = some (task', p')) :
    (∃ p₀, s.active u = some (task', p₀)) ∨ op = .start u task' := by
  cases op with
  | start t task =>
      simp only [step] at hs
      split at hs
      · cases hs
        simp only [resume, Function.update_apply] at h
        split at h
        · rename_i heq
          cases h
          exact .inr (heq ▸ rfl)
        · exact .inl ⟨p', h⟩
      · cases hs
  | call t e =>
      simp only [step] at hs
      split at hs
      · rename_i hactive
        split at hs
        · split at hs
          · cases hs
          · cases hs
            exact .inl (exists_active_of_resume hactive h)
        · cases hs
      · cases hs
  | finish t =>
      simp only [step] at hs
      split at hs
      · cases hs
        simp only [Function.update_apply] at h
        split at h
        · cases h
        · exact .inl ⟨p', h⟩
      · cases hs
  | pool op =>
      simp only [step] at hs
      split at hs
      · rename_i task c k hactive
        obtain ⟨pool, -, hs⟩ := Option.bind_eq_some_iff.mp hs
        rcases poolStep_cases hs with rfl | ⟨q, rfl⟩
        · exact .inl ⟨p', h⟩
        · exact .inl (exists_active_of_resume (s := { s with pool }) hactive h)
      · cases hs

end WorkState

/-- A run in which no request for the friend list is begun. -/
theorem allSteps_noListLoan {parse : Bytes → Option Json} {ops : List WorkOp} {s : WorkState}
    (hs : ∀ t task p, s.active t = some (task, p) → task.cmd ≠ HANDLE_GET_FRIEND_LIST)
    (hops : ∀ t task, .start t task ∈ ops → task.cmd ≠ HANDLE_GET_FRIEND_LIST) :
    AllSteps (WorkState.step parse) (NoListLoan parse) s ops := by
  induction ops generalizing s with
  | nil => trivial
  | cons op ops ih =>
      refine ⟨fun _ t task p _ _ hactive _ => hs t task p hactive, fun s' hstep => ?_⟩
      refine ih (fun t task p hactive => ?_) fun t task hmem =>
        hops t task (List.mem_cons_of_mem op hmem)
      rcases WorkState.active_of_step hstep hactive with ⟨p₀, hp₀⟩ | rfl
      · exact hs t task p₀ hp₀
      · exact hops t task List.mem_cons_self

/-! ### What the critical sections do for a thread -/

namespace PoolState

variable {s s' : PoolState}

theorem heldBy_cons (s : PoolState) {l : List (Nat × Addr)} {t u : Nat} {c : Addr}
    (h : s.held = (t, c) :: l) :
    s.heldBy u = (if t = u then [c] else []) ++
      l.filterMap fun h => if h.1 = u then some h.2 else none := by
  rw [heldBy, h, List.filterMap_cons]
  split <;> simp_all

theorem heldBy_congr (h : s'.held = s.held) (u : Nat) : s'.heldBy u = s.heldBy u := by
  rw [heldBy, h, heldBy]

theorem heldBy_erase_of_ne {l : List (Nat × Addr)} {t u : Nat} (c : Addr) (hne : u ≠ t) :
    (l.erase (t, c)).filterMap (fun h => if h.1 = u then some h.2 else none) =
      l.filterMap fun h => if h.1 = u then some h.2 else none := by
  induction l with
  | nil => rfl
  | cons h l ih =>
      by_cases heq : h = (t, c)
      · rw [heq, List.erase_cons_head, List.filterMap_cons, if_neg (fun hh => hne hh.symm)]
      · rw [List.erase_cons_tail (by simpa using heq), List.filterMap_cons, List.filterMap_cons, ih]

theorem heldBy_erase {l : List (Nat × Addr)} (t : Nat) (c : Addr) :
    (l.erase (t, c)).filterMap (fun h => if h.1 = t then some h.2 else none) =
      (l.filterMap fun h => if h.1 = t then some h.2 else none).erase c := by
  induction l with
  | nil => rfl
  | cons h l ih =>
      by_cases heq : h = (t, c)
      · rw [heq, List.erase_cons_head, List.filterMap_cons, if_pos rfl]
        simp
      · rw [List.erase_cons_tail (by simpa using heq), List.filterMap_cons, List.filterMap_cons, ih]
        by_cases ht : h.1 = t
        · have hc : h.2 ≠ c := fun hc => heq (Prod.ext ht hc)
          rw [if_pos ht]
          exact (List.erase_cons_tail (by simpa using hc)).symm
        · rw [if_neg ht]

theorem mem_heldBy {t : Nat} {c : Addr} (h : (t, c) ∈ s.held) : c ∈ s.heldBy t :=
  List.mem_filterMap.mpr ⟨(t, c), h, by simp⟩

/-- First section of `getConnect`: a connection, or none and the second section
is to be entered. -/
theorem get_effect {t : Nat} (hinv : s.Inv) (hinv' : s'.Inv) (hs : s.step (.get t) = some s') :
    s.Idle t ∧ s'.freeing = s.freeing ∧
      ((s'.held = s.held ∧ s'.between = t :: s.between) ∨
        ∃ c, s'.held = (t, c) :: s.held ∧ s'.between = s.between) := by
  obtain ⟨p, cells, extra, h⟩ := hinv
  obtain ⟨p', cells', extra', h'⟩ := hinv'
  simp only [step, h.pool] at hs
  split at hs
  · rename_i hidle
    refine ⟨hidle, ?_⟩
    split at hs
    · rw [← Option.some.inj hs] at h'
      cases h'.pool
    · rw [← Option.some.inj hs]
      exact ⟨rfl, Or.inl ⟨rfl, rfl⟩⟩
    · rw [← Option.some.inj hs]
      exact ⟨rfl, Or.inr ⟨_, rfl, rfl⟩⟩
  · cases hs

/-- Second section of `getConnect`. -/
theorem getOverflow_effect {t : Nat} {r : Pool.Overflow} (hinv : s.Inv)
    (hs : s.step (.getOverflow t r) = some s') :
    t ∈ s.between ∧ s'.freeing = s.freeing ∧ s'.between = s.between.erase t ∧
      (s'.held = s.held ∨ ∃ c, s'.held = (t, c) :: s.held) := by
  obtain ⟨p, cells, extra, h⟩ := hinv
  simp only [step, h.pool] at hs
  split at hs
  · rename_i hguard
    refine ⟨hguard.1, ?_⟩
    split at hs
    · rw [← Option.some.inj hs]
      exact ⟨rfl, rfl, Or.inl rfl⟩
    · rw [← Option.some.inj hs]
      exact ⟨rfl, rfl, Or.inr ⟨_, rfl⟩⟩
  · cases hs

/-- `destoryConnect`: the connection is no longer held, and an overflow connection
is still to be counted. -/
theorem release_effect {t : Nat} {c : Addr} (hinv : s.Inv) (hinv' : s'.Inv)
    (hs : s.step (.release t c) = some s') :
    s.Idle t ∧ (t, c) ∈ s.held ∧ s'.held = s.held.erase (t, c) ∧ s'.between = s.between ∧
      (s'.freeing = s.freeing ∨ s'.freeing = t :: s.freeing) := by
  obtain ⟨p, cells, extra, h⟩ := hinv
  obtain ⟨p', cells', extra', h'⟩ := hinv'
  simp only [step, h.pool] at hs
  split at hs
  · rename_i hguard
    refine ⟨hguard.1, hguard.2, ?_⟩
    split at hs
    · rw [← Option.some.inj hs] at h'
      cases h'.pool
    · split at hs
      · rw [← Option.some.inj hs]
        exact ⟨rfl, rfl, Or.inl rfl⟩
      · rw [← Option.some.inj hs]
        exact ⟨rfl, rfl, Or.inr rfl⟩
  · cases hs

/-- The section that counts a closed overflow connection. -/
theorem count_effect {t : Nat} (hinv : s.Inv) (hs : s.step (.count t) = some s') :
    t ∈ s.freeing ∧ s'.held = s.held ∧ s'.between = s.between ∧
      s'.freeing = s.freeing.erase t := by
  obtain ⟨p, cells, extra, h⟩ := hinv
  simp only [step, h.pool] at hs
  split at hs
  · rename_i hmem
    rw [← Option.some.inj hs]
    exact ⟨hmem, rfl, rfl, rfl⟩
  · cases hs

theorem lent_of_same (h : s'.held = s.held) : s.lent s' = none := by
  simp [lent, h]

theorem lent_of_cons {t : Nat} {c : Addr} (h : s'.held = (t, c) :: s.held) :
    s.lent s' = some c := by
  simp [lent, h]

/-- With nothing lent out and nothing to be counted, the pool is as at the start. -/
theorem Inv.allFree (h : s.Inv) (hheld : s.held = []) (hfreeing : s.freeing = []) :
    s.AllFree := by
  obtain ⟨p, cells, extra, h⟩ := h
  have hperm := h.held
  rw [hheld] at hperm
  have hnil := List.append_eq_nil_iff.mp (List.map_eq_nil_iff.mp hperm.symm.eq_nil)
  have hfree : ∀ c ∈ cells, c.2.is_use = 0 := by
    intro c hc
    by_contra huse
    have : c ∈ usedNodes cells := List.mem_filter.mpr ⟨hc, by simpa using huse⟩
    rw [hnil.1] at this
    cases this
  have hall : freeNodes cells = cells :=
    List.filter_eq_self.mpr fun c hc => by simpa using hfree c hc
  have hlen := h.length
  have hcourrent := h.courrent
  rw [hnil.2, hfreeing] at hcourrent
  refine ⟨p, cells, h.exact, hlen, hfree, ?_, by simp [overflow, hheld], by simpa using hcourrent⟩
  rw [h.sum, hall, hlen]
  rfl

end PoolState

/-! ### The invariant -/

/-- Every completion of `p` that is allowed to its task releases what is held. -/
def Owes (task : Task) (p : Handler Int32) (conns : List Addr) : Prop :=
  ∀ es ret, p.Runs es ret → (task.cmd = HANDLE_GET_FRIEND_LIST → ¬ Obtains es) →
    exec held conns es = some []

/-- After an answer the rest of the program owes what is held then. -/
theorem Owes.next {task : Task} {c : Call} {k : c.Answer → Handler Int32} {conns conns' : List Addr}
    (h : Owes task (.call c k) conns) {r : c.Answer}
    (hheld : held conns ⟨c, r⟩ = some conns')
    (hlist : task.cmd = HANDLE_GET_FRIEND_LIST → ¬ Obtains [⟨c, r⟩]) :
    Owes task (k r) conns' := by
  intro es ret hrun hob
  have hall : task.cmd = HANDLE_GET_FRIEND_LIST → ¬ Obtains (⟨c, r⟩ :: es) := by
    intro hcmd h
    obtain ⟨conn, hmem⟩ := h
    rcases List.mem_cons.mp hmem with heq | hmem
    · exact hlist hcmd ⟨conn, heq ▸ List.mem_cons_self⟩
    · exact hob hcmd ⟨conn, hmem⟩
  obtain ⟨s, hs, hrest⟩ := exec_cons.mp (h _ ret (.call r hrun) hall)
  rw [hheld] at hs
  exact Option.some.inj hs ▸ hrest

/-- A handler at its beginning owes nothing. -/
theorem owes_handleData (parse : Bytes → Option Json) (task : Task) :
    Owes task (handleData parse task) [] := by
  intro es ret hrun hob
  refine (handleData_released_iff hrun []).mpr ?_
  by_cases hcmd : task.cmd = HANDLE_GET_FRIEND_LIST
  · exact Or.inr (hob hcmd)
  · exact Or.inl hcmd

/-- Every thread owes what it holds; a thread between two critical sections is at
the call that consists of them. -/
structure WorkInv (s : WorkState) : Prop where
  pool : s.pool.Inv
  between : s.pool.between.Nodup
  freeing : s.pool.freeing.Nodup
  idle : ∀ t, s.active t = none → s.pool.heldBy t = []
  waiting : ∀ t ∈ s.pool.between, ∃ task k, s.active t = some (task, .call .getConnect k)
  counting : ∀ t ∈ s.pool.freeing, ∃ task c k,
    s.active t = some (task, .call (.destoryConnect c) k) ∧
      Owes task (k ()) (s.pool.heldBy t)
  owes : ∀ t task p, s.active t = some (task, p) → t ∉ s.pool.freeing →
    Owes task p (s.pool.heldBy t)

/-- What a step of thread `t` leaves as it is: the other threads' part of the pool. -/
structure Others (t : Nat) (pool pool' : PoolState) : Prop where
  held : ∀ u, u ≠ t → pool'.heldBy u = pool.heldBy u
  between : ∀ u, u ≠ t → u ∈ pool'.between → u ∈ pool.between
  freeing : ∀ u, u ≠ t → (u ∈ pool'.freeing ↔ u ∈ pool.freeing)

namespace WorkInv

variable {s : WorkState} {parse : Bytes → Option Json}

theorem not_between (h : WorkInv s) {t : Nat}
    (hactive : ∀ task k, s.active t ≠ some (task, .call .getConnect k)) : t ∉ s.pool.between := by
  intro hmem
  obtain ⟨task, k, heq⟩ := h.waiting t hmem
  exact hactive task k heq

theorem not_freeing (h : WorkInv s) {t : Nat}
    (hactive : ∀ task c k, s.active t ≠ some (task, .call (.destoryConnect c) k)) :
    t ∉ s.pool.freeing := by
  intro hmem
  obtain ⟨task, c, k, heq, -⟩ := h.counting t hmem
  exact hactive task c k heq

/-- Thread `t` goes on with `p`, outside the critical sections. -/
theorem resume (h : WorkInv s) {pool : PoolState} {t : Nat} {task : Task} {p : Handler Int32}
    (hpool : pool.Inv) (hbetween : pool.between.Nodup) (hfreeing : pool.freeing.Nodup)
    (hothers : Others t s.pool pool) (hidle : pool.Idle t)
    (howes : Owes task p (pool.heldBy t)) :
    WorkInv ({ s with pool }.resume t task p) where
  pool := hpool
  between := hbetween
  freeing := hfreeing
  idle u hu := by
    have hne : u ≠ t := by
      intro heq
      subst heq
      simp [WorkState.resume] at hu
    simp only [WorkState.resume, Function.update_of_ne hne] at hu ⊢
    rw [hothers.held u hne]
    exact h.idle u hu
  waiting u hu := by
    have hne : u ≠ t := fun heq => hidle.1 (heq ▸ hu)
    simp only [WorkState.resume, Function.update_of_ne hne]
    exact h.waiting u (hothers.between u hne hu)
  counting u hu := by
    have hne : u ≠ t := fun heq => hidle.2 (heq ▸ hu)
    simp only [WorkState.resume, Function.update_of_ne hne, hothers.held u hne]
    exact h.counting u ((hothers.freeing u hne).mp hu)
  owes u task' p' hu hno := by
    by_cases hne : u = t
    · subst hne
      simp only [WorkState.resume, Function.update_self, Option.some.injEq, Prod.mk.injEq] at hu
      obtain ⟨rfl, rfl⟩ := hu
      exact howes
    · simp only [WorkState.resume, Function.update_of_ne hne, hothers.held u hne] at hu ⊢
      exact h.owes u task' p' hu fun hmem => hno ((hothers.freeing u hne).mpr hmem)

theorem start (h : WorkInv s) {t : Nat} {task : Task} {s' : WorkState}
    (hs : s.step parse (.start t task) = some s') : WorkInv s' := by
  simp only [WorkState.step] at hs
  split at hs
  · rename_i hnone
    rw [← Option.some.inj hs]
    have hidle : s.pool.Idle t :=
      ⟨h.not_between (by simp [hnone]), h.not_freeing (by simp [hnone])⟩
    exact h.resume h.pool h.between h.freeing ⟨fun _ _ => rfl, fun _ _ hu => hu, fun _ _ => Iff.rfl⟩
      hidle ((h.idle t hnone).symm ▸ owes_handleData parse task)
  · cases hs

theorem call (h : WorkInv s) {t : Nat} {e : HandlerEvent} {s' : WorkState}
    (hs : s.step parse (.call t e) = some s') : WorkInv s' := by
  obtain ⟨c, r⟩ := e
  simp only [WorkState.step] at hs
  split at hs
  · rename_i task c' k hactive
    split at hs
    · rename_i hc
      subst hc
      split at hs
      · cases hs
      · rename_i hpool
        have hpool : c.IsPool = false := by simpa using hpool
        have hidle : s.pool.Idle t := by
          refine ⟨h.not_between fun task' k' heq => ?_, h.not_freeing fun task' c' k' heq => ?_⟩
          · rw [hactive] at heq
            cases heq
            cases hpool
          · rw [hactive] at heq
            cases heq
            cases hpool
        rw [← Option.some.inj hs]
        refine h.resume h.pool h.between h.freeing
          ⟨fun _ _ => rfl, fun _ _ hu => hu, fun _ _ => Iff.rfl⟩ hidle ?_
        refine (h.owes t task _ hactive hidle.2).next (held_of_not_isPool hpool r _) ?_
        refine fun _ => not_obtains_singleton fun conn heq => ?_
        cases heq
        cases hpool
    · cases hs
  · cases hs

theorem finish (h : WorkInv s) {t : Nat} {s' : WorkState}
    (hs : s.step parse (.finish t) = some s') : WorkInv s' := by
  simp only [WorkState.step] at hs
  split at hs
  · rename_i task a hactive
    rw [← Option.some.inj hs]
    have hbetween : t ∉ s.pool.between := h.not_between (by simp [hactive])
    have hfreeing : t ∉ s.pool.freeing := h.not_freeing (by simp [hactive])
    -- a finished handler holds nothing
    have hnone : s.pool.heldBy t = [] := by
      have := h.owes t task _ hactive hfreeing [] a (.pure a) fun _ ⟨c, hc⟩ => absurd hc (by simp)
      exact Option.some.inj this
    have hne : ∀ u p, Function.update s.active t none u = some p → u ≠ t := by
      intro u p hu heq
      subst heq
      simp at hu
    exact
      { pool := h.pool
        between := h.between
        freeing := h.freeing
        idle := by
          intro u hu
          by_cases heq : u = t
          · exact heq ▸ hnone
          · simp only [Function.update_of_ne heq] at hu
            exact h.idle u hu
        waiting := by
          intro u hu
          have hut : u ≠ t := fun heq => hbetween (heq ▸ hu)
          simp only [Function.update_of_ne hut]
          exact h.waiting u hu
        counting := by
          intro u hu
          have hut : u ≠ t := fun heq => hfreeing (heq ▸ hu)
          simp only [Function.update_of_ne hut]
          exact h.counting u hu
        owes := by
          intro u task' p hu hno
          have hut := hne u _ hu
          simp only [Function.update_of_ne hut] at hu
          exact h.owes u task' p hu hno }
  · cases hs

/-- A handler at `getConnect`, in its first section. -/
theorem get (h : WorkInv s) {t : Nat} {task : Task} {k : Ptr → Handler Int32} {pool : PoolState}
    {s' : WorkState} (hactive : s.active t = some (task, .call .getConnect k))
    (hpool : s.pool.step (.get t) = some pool)
    (hs : s.poolStep (.get t) task pool .getConnect k = some s')
    (hlist : ∀ conn, s'.pool.held = (t, conn) :: s.pool.held →
      task.cmd ≠ HANDLE_GET_FRIEND_LIST) : WorkInv s' := by
  have hinv := PoolState.Inv.step _ h.pool hpool
  obtain ⟨hidle, hfreeing, ⟨hheld, hbetween⟩ | ⟨conn, hheld, hbetween⟩⟩ :=
    PoolState.get_effect h.pool hinv hpool
  · simp only [WorkState.poolStep, PoolState.lent_of_same hheld, Option.some.injEq] at hs
    rw [← hs]
    exact
      { pool := hinv
        between := hbetween ▸ List.nodup_cons.mpr ⟨hidle.1, h.between⟩
        freeing := hfreeing ▸ h.freeing
        idle := fun u hu => (PoolState.heldBy_congr hheld u).trans (h.idle u hu)
        waiting := by
          intro u hu
          simp only [hbetween] at hu
          rcases List.mem_cons.mp hu with rfl | hu
          · exact ⟨task, k, hactive⟩
          · exact h.waiting u hu
        counting := by
          intro u hu
          simp only [hfreeing, PoolState.heldBy_congr hheld] at hu ⊢
          exact h.counting u hu
        owes := by
          intro u task' p hu hno
          simp only [hfreeing, PoolState.heldBy_congr hheld] at hno ⊢
          exact h.owes u task' p hu hno }
  · simp only [WorkState.poolStep, PoolState.lent_of_cons hheld, Option.some.injEq] at hs
    have hcmd := hlist conn (by rw [← hs]; exact hheld)
    rw [← hs]
    refine h.resume hinv (hbetween ▸ h.between) (hfreeing ▸ h.freeing) ⟨?_, ?_, ?_⟩
      ⟨hbetween ▸ hidle.1, hfreeing ▸ hidle.2⟩ ?_
    · intro u hu
      rw [PoolState.heldBy_cons _ hheld, if_neg (fun heq => hu heq.symm)]
      rfl
    · exact fun u _ hu => hbetween ▸ hu
    · exact fun u _ => by rw [hfreeing]
    · rw [PoolState.heldBy_cons _ hheld, if_pos rfl]
      exact (h.owes t task _ hactive hidle.2).next rfl fun hc => absurd hc hcmd

/-- A handler at `getConnect`, in its second section. -/
theorem getOverflow (h : WorkInv s) {t : Nat} {r : Pool.Overflow} {task : Task}
    {k : Ptr → Handler Int32} {pool : PoolState} {s' : WorkState}
    (hactive : s.active t = some (task, .call .getConnect k))
    (hpool : s.pool.step (.getOverflow t r) = some pool)
    (hs : s.poolStep (.getOverflow t r) task pool .getConnect k = some s')
    (hlist : ∀ conn, s'.pool.held = (t, conn) :: s.pool.held →
      task.cmd ≠ HANDLE_GET_FRIEND_LIST) : WorkInv s' := by
  have hinv := PoolState.Inv.step _ h.pool hpool
  obtain ⟨-, hfreeing, hbetween, hheld⟩ := PoolState.getOverflow_effect h.pool hpool
  have hcount : t ∉ s.pool.freeing := h.not_freeing (by simp [hactive])
  have hidle : pool.Idle t :=
    ⟨hbetween ▸ h.between.not_mem_erase, hfreeing ▸ hcount⟩
  have howes := h.owes t task _ hactive hcount
  simp only [WorkState.poolStep, Option.some.injEq] at hs
  rcases hheld with hheld | ⟨conn, hheld⟩
  · rw [PoolState.lent_of_same hheld] at hs
    rw [← hs]
    refine h.resume hinv (hbetween ▸ h.between.erase t) (hfreeing ▸ h.freeing) ⟨?_, ?_, ?_⟩ hidle ?_
    · exact fun u _ => PoolState.heldBy_congr hheld u
    · exact fun u _ hu => List.mem_of_mem_erase (hbetween ▸ hu)
    · exact fun u _ => by rw [hfreeing]
    · rw [PoolState.heldBy_congr hheld]
      exact howes.next rfl fun _ => not_obtains_singleton fun c heq => by cases heq
  · rw [PoolState.lent_of_cons hheld] at hs
    have hcmd := hlist conn (by rw [← hs]; exact hheld)
    rw [← hs]
    refine h.resume hinv (hbetween ▸ h.between.erase t) (hfreeing ▸ h.freeing) ⟨?_, ?_, ?_⟩ hidle ?_
    · intro u hu
      rw [PoolState.heldBy_cons _ hheld, if_neg (fun heq => hu heq.symm)]
      rfl
    · exact fun u _ hu => List.mem_of_mem_erase (hbetween ▸ hu)
    · exact fun u _ => by rw [hfreeing]
    · rw [PoolState.heldBy_cons _ hheld, if_pos rfl]
      exact howes.next rfl fun hc => absurd hc hcmd

/-- A handler at `destoryConnect`, with a connection it holds. -/
theorem release (h : WorkInv s) {t : Nat} {conn conn' : Addr} {task : Task}
    {k : Unit → Handler Int32} {pool : PoolState} {s' : WorkState}
    (hactive : s.active t = some (task, .call (.destoryConnect conn) k))
    (hpool : s.pool.step (.release t conn') = some pool)
    (hs : s.poolStep (.release t conn') task pool (.destoryConnect conn) k = some s') :
    WorkInv s' := by
  have hinv := PoolState.Inv.step _ h.pool hpool
  obtain ⟨hidle, hmem, hheld, hbetween, hfreeing⟩ := PoolState.release_effect h.pool hinv hpool
  simp only [WorkState.poolStep] at hs
  split at hs
  · rename_i hconn
    subst hconn
    have hby : pool.heldBy t = (s.pool.heldBy t).erase conn := by
      rw [PoolState.heldBy, hheld, PoolState.heldBy_erase]
      rfl
    have hother : ∀ u, u ≠ t → pool.heldBy u = s.pool.heldBy u := by
      intro u hu
      rw [PoolState.heldBy, hheld, PoolState.heldBy_erase_of_ne conn hu]
      rfl
    have hrest : Owes task (k ()) (pool.heldBy t) := by
      refine (h.owes t task _ hactive hidle.2).next ?_ fun _ => ?_
      · rw [hby]
        exact if_pos (PoolState.mem_heldBy hmem)
      · exact not_obtains_singleton fun c heq => by cases heq
    split at hs
    · rename_i hcount
      have hcount : pool.freeing = t :: s.pool.freeing := by
        rcases hfreeing with heq | heq
        · exact absurd (heq ▸ hcount) hidle.2
        · exact heq
      rw [← Option.some.inj hs]
      exact
        { pool := hinv
          between := hbetween ▸ h.between
          freeing := hcount ▸ List.nodup_cons.mpr ⟨hidle.2, h.freeing⟩
          idle := by
            intro u hu
            have hut : u ≠ t := by
              intro heq
              subst heq
              rw [hactive] at hu
              cases hu
            exact (hother u hut).trans (h.idle u hu)
          waiting := fun u hu => h.waiting u (hbetween ▸ hu)
          counting := by
            intro u hu
            by_cases hut : u = t
            · exact hut ▸ ⟨task, conn, k, hactive, hrest⟩
            · simp only [hcount, List.mem_cons, hut, false_or, hother u hut] at hu ⊢
              exact h.counting u hu
          owes := by
            intro u task' p hu hno
            simp only [hcount, List.mem_cons, not_or] at hno
            simp only [hother u hno.1]
            exact h.owes u task' p hu hno.2 }
    · rename_i hcount
      have hcount : pool.freeing = s.pool.freeing := by
        rcases hfreeing with heq | heq
        · exact heq
        · exact absurd (heq ▸ List.mem_cons_self) hcount
      rw [← Option.some.inj hs]
      exact h.resume hinv (hbetween ▸ h.between) (hcount ▸ h.freeing)
        ⟨hother, fun u _ hu => hbetween ▸ hu, fun u _ => by rw [hcount]⟩
        ⟨hbetween ▸ hidle.1, hcount ▸ hidle.2⟩ hrest
  · cases hs

/-- A handler at `destoryConnect`, with a connection it has freed. -/
theorem count (h : WorkInv s) {t : Nat} {conn : Addr} {task : Task} {k : Unit → Handler Int32}
    {pool : PoolState} {s' : WorkState}
    (hactive : s.active t = some (task, .call (.destoryConnect conn) k))
    (hpool : s.pool.step (.count t) = some pool)
    (hs : s.poolStep (.count t) task pool (.destoryConnect conn) k = some s') : WorkInv s' := by
  have hinv := PoolState.Inv.step _ h.pool hpool
  obtain ⟨hmem, hheld, hbetween, hfreeing⟩ := PoolState.count_effect h.pool hpool
  simp only [WorkState.poolStep, Option.some.injEq] at hs
  rw [← hs]
  obtain ⟨task', c, k', heq, howes⟩ := h.counting t hmem
  rw [hactive] at heq
  cases heq
  have hwait : t ∉ s.pool.between := h.not_between (by simp [hactive])
  refine h.resume hinv (hbetween ▸ h.between) (hfreeing ▸ h.freeing.erase t) ⟨?_, ?_, ?_⟩
    ⟨hbetween ▸ hwait, hfreeing ▸ h.freeing.not_mem_erase⟩ ?_
  · exact fun u _ => PoolState.heldBy_congr hheld u
  · exact fun u _ hu => hbetween ▸ hu
  · exact fun u hu => by rw [hfreeing, List.mem_erase_of_ne hu]
  · rw [PoolState.heldBy_congr hheld]
    exact howes

/-- Every step keeps the invariant, as long as no request for the friend list
obtains a connection. -/
theorem step (h : WorkInv s) {op : WorkOp} {s' : WorkState} (hok : NoListLoan parse s op)
    (hs : s.step parse op = some s') : WorkInv s' := by
  cases op with
  | start t task => exact h.start hs
  | call t e => exact h.call hs
  | finish t => exact h.finish hs
  | pool op =>
      have hlist := fun t task p conn => hok s' t task p conn hs
      simp only [WorkState.step] at hs
      split at hs
      · rename_i task c k hactive
        obtain ⟨pool, hpool, hs⟩ := Option.bind_eq_some_iff.mp hs
        cases c with
        | getConnect =>
            cases op with
            | get t => exact h.get hactive hpool hs fun conn => hlist t task _ conn hactive
            | getOverflow t r =>
                exact h.getOverflow hactive hpool hs fun conn => hlist t task _ conn hactive
            | release t conn => cases hs
            | count t => cases hs
        | destoryConnect conn =>
            cases op with
            | get t => cases hs
            | getOverflow t r => cases hs
            | release t conn' => exact h.release hactive hpool hs
            | count t => exact h.count hactive hpool hs
        | _ => cases hs
      · cases hs

/-- When no request is in progress, nothing is lent out. -/
theorem allFree (h : WorkInv s) (hquiet : s.Quiet) : s.pool.AllFree := by
  refine h.pool.allFree ?_ ?_
  · cases hheld : s.pool.held with
    | nil => rfl
    | cons x l =>
        have hmem := PoolState.mem_heldBy (s := s.pool) (t := x.1) (c := x.2)
          (hheld ▸ List.mem_cons_self)
        rw [h.idle x.1 (hquiet x.1)] at hmem
        cases hmem
  · cases hfreeing : s.pool.freeing with
    | nil => rfl
    | cons t l =>
        obtain ⟨task, c, k, heq, -⟩ := h.counting t (hfreeing ▸ List.mem_cons_self)
        rw [hquiet t] at heq
        cases heq

/-- The state that a successful `initMysql` leaves. -/
theorem init {mem : Nat → NewNode} {p : Pool}
    (hmem : ∀ i < NORMARL_MYSQL_CONNECT, ∀ j < NORMARL_MYSQL_CONNECT,
      (mem i).addr = (mem j).addr → i = j)
    (hinit : initMysql mem = some (p, true)) : WorkInv (.start p) where
  pool := initMysql_inv hmem hinit
  between := List.nodup_nil
  freeing := List.nodup_nil
  idle _ _ := rfl
  waiting _ hu := absurd hu List.not_mem_nil
  counting _ hu := absurd hu List.not_mem_nil
  owes _ _ _ hu := nomatch hu

end WorkInv

/-- **Every request but the one for the friend list gives its connection back**:
a request releases each connection it obtains exactly once, if and only if it is
no request for the friend list or obtains none. And in every run, by any number
of threads, in which no request for the friend list obtains a connection, all 15
pooled connections are free and no overflow connection is outstanding whenever no
request is in progress. -/
theorem connections_released_iff (parse : Bytes → Option Json) :
    (∀ (task : Task) (es : List HandlerEvent) (ret : Int32),
      (handleData parse task).Runs es ret →
      (Released es ↔ task.cmd ≠ HANDLE_GET_FRIEND_LIST ∨ ¬ Obtains es)) ∧
    ∀ (mem : Nat → NewNode) (p : Pool),
      (∀ i < NORMARL_MYSQL_CONNECT, ∀ j < NORMARL_MYSQL_CONNECT,
        (mem i).addr = (mem j).addr → i = j) →
      initMysql mem = some (p, true) → ∀ ops : List WorkOp,
      AllSteps (WorkState.step parse) (NoListLoan parse) (.start p) ops →
      Along (WorkState.step parse) (fun s => s.Quiet → s.pool.AllFree) (.start p) ops :=
  ⟨fun _ _ _ hrun => handleData_released_iff hrun [],
    fun _ _ hmem hinit _ hok =>
      along_of_allSteps (fun _ (h : WorkInv _) => h.allFree)
        (fun _ _ _ h hok hs => h.step hok hs) (.init hmem hinit) hok⟩

/-- A message to user 2, by the client at address 1 on descriptor 5. -/
def storingTask : Task :=
  ⟨5, 1, HANDLE_SEND_MESSAGE, ascii "\x7b\"recv_id\":2,\"msg\":\"hi\"\x7d"⟩

/-- The client, which is logged in as user 1. -/
def storingSender : SpiderClient := ⟨5, 1, 0, 1000, [], 0⟩

/-- The frame that answers the message. -/
def storingReply : Bytes := (frame HANDLE_SEND_MESSAGE 1000 (ascii "\x7b")).getD []

/-- The calls of the request: user 2 is offline, and the message is stored. -/
def storingCalls : List HandlerEvent :=
  [⟨.readClient 1, storingSender⟩, ⟨.findClientByUid 2, none⟩, ⟨.getConnect, some 14⟩,
    ⟨.querySql 14 (snprintf 2048 (insertSql 2 1 (ascii "hi"))), true⟩, ⟨.destoryConnect 14, ()⟩,
    ⟨.readClient 1, storingSender⟩, ⟨.send 5 storingReply, 16⟩]

/-- The same request over the pool. -/
def storingOps : List WorkOp :=
  [.start 0 storingTask, .call 0 ⟨.readClient 1, storingSender⟩,
    .call 0 ⟨.findClientByUid 2, none⟩, .pool (.get 0),
    .call 0 ⟨.querySql 14 (snprintf 2048 (insertSql 2 1 (ascii "hi"))), true⟩,
    .pool (.release 0 14), .call 0 ⟨.readClient 1, storingSender⟩,
    .call 0 ⟨.send 5 storingReply, 16⟩, .finish 0]





/-- A run of `storingOps`. -/
theorem exec_storingOps : ∃ p, initMysql (fun k => ⟨k, k, true⟩) = some (p, true) ∧
    (exec (WorkState.step Json.parse) (.start p) storingOps).isSome = true := by
  have hexec : ((initMysql fun k => ⟨k, k, true⟩).bind fun p =>
      if p.2 = true then exec (WorkState.step Json.parse) (.start p.1) storingOps
      else none).isSome = true := by
    decide +kernel
  obtain ⟨s, hs⟩ := Option.isSome_iff_exists.mp hexec
  obtain ⟨⟨p, ok⟩, hp, hs⟩ := Option.bind_eq_some_iff.mp hs
  split at hs
  · rename_i hok
    simp only at hok hs
    exact ⟨p, hok ▸ hp, Option.isSome_iff_exists.mpr ⟨s, hs⟩⟩
  · cases hs

theorem connections_released_iff_message :
    (∃ es, (handleData Json.parse storingTask).Runs es 1 ∧ Obtains es ∧ Released es) ∧
    ∃ p, initMysql (fun k => ⟨k, k, true⟩) = some (p, true) ∧
      (exec (WorkState.step Json.parse) (.start p) storingOps).isSome = true ∧
      Along (WorkState.step Json.parse) (fun s => s.Quiet → s.pool.AllFree) (.start p)
        storingOps := by
  constructor
  · have hrun : (handleData Json.parse storingTask).Runs storingCalls 1 :=
      Prog.replay_eq_some.mp (by decide +kernel)
    exact ⟨storingCalls, hrun, ⟨14, by simp [storingCalls]⟩,
      ((connections_released_iff Json.parse).1 storingTask storingCalls 1 hrun).mpr
        (.inl (by decide))⟩
  · obtain ⟨p, hp, hexec⟩ := exec_storingOps
    refine ⟨p, hp, hexec, (connections_released_iff Json.parse).2 _ p (fun i _ j _ h => h) hp _ ?_⟩
    refine allSteps_noListLoan nofun fun t task hmem => ?_
    obtain ⟨-, rfl⟩ : t = 0 ∧ task = storingTask := by simpa [storingOps] using hmem
    decide
/-- A request for the friend list, by the client at address 1 on descriptor 5. -/
def friendListTask : Task := ⟨5, 1, HANDLE_GET_FRIEND_LIST, []⟩

/-- A request for the friend list whose query fails keeps its connection. -/
theorem friend_list_keeps_connection :
    ∃ es ret, (handleData (fun _ => none) friendListTask).Runs es ret ∧ ¬ Released es := by
  obtain ⟨bytes, _, hframe, -⟩ := frame_eq HANDLE_GET_FRIEND_LIST 1000
    (snprintf 600 (retPayload _ERROR_MOD_FRIEND_MYSQL_ERROR)) (by decide) (by decide)
  obtain ⟨friend⟩ : Nonempty { b : Bytes // b.length = 512 } := ⟨_, List.length_replicate (a := 0)⟩
  refine ⟨[⟨.stackArray 512, friend⟩,
    ⟨.readClient 1, ⟨5, 0, 0, 1000, [], 0⟩⟩, ⟨.getConnect, some 7⟩,
    ⟨.getRows 7 (snprintf 150 (friendsSql 0)), none⟩,
    ⟨.readClient 1, ⟨5, 0, 0, 1000, [], 0⟩⟩, ⟨.send 5 bytes, 0⟩], 1, ?_, ?_⟩
  · refine Prog.runs_bind.mpr ⟨_, [], (), (List.append_nil _).symm, ?_, .pure 1⟩
    refine .call _ (.call _ (.call _ (.call _ (.call _ ?_))))
    exact runs_handleSend.mpr ⟨bytes, 0, hframe, rfl⟩
  · intro h
    cases h

end SpiderChat
