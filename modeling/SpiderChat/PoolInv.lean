import SpiderChat.Lib.Run
import SpiderChat.Pool

/-!
# SpiderChat.PoolInv

The connection pool **never lends a connection twice, and its counters are
exact**. `PoolState` is the pool with the threads that use it: which connections
they hold, which of them are between the two critical sections of `getConnect`,
and which have freed an overflow connection without having counted it yet. There
is a thread for every natural number.

The two counters are guarded by different mutexes, so each is tied to its own
kind of connection: `conn_sum` counts the free nodes of the pooled list, and
`mysql_courrent_connet_sum` the overflow connections (`PoolInv`). The search loop
of `getConnect` finds a node because `conn_sum ≠ 0` counts one.

The steps are followed for a list that may be some nodes too short (`PoolShort`),
as `initMysql` leaves it when a connection fails.
-/

namespace SpiderChat

open Lib

/-! ### Threads over the pool -/

/-- One critical section, by the thread given first. -/
inductive PoolOp
  /-- `getConnect`, first section. -/
  | get (thread : Nat)
  /-- `getConnect`, second section. -/
  | getOverflow (thread : Nat) (r : Pool.Overflow)
  /-- `destoryConnect`: the whole of it for a pooled connection, and up to the
  mutex for an overflow connection. -/
  | release (thread : Nat) (conn : Addr)
  /-- `destoryConnect`, the section that counts an overflow connection. -/
  | count (thread : Nat)
  deriving Repr, DecidableEq

/-- The pool (`none` after undefined behaviour) and the threads that use it. -/
structure PoolState where
  pool : Option Pool
  /-- the connections obtained and not yet released, with their holders -/
  held : List (Nat × Addr)
  /-- threads between the two sections of `getConnect` -/
  between : List Nat
  /-- threads that have freed an overflow connection and not yet counted it -/
  freeing : List Nat
  deriving Repr, DecidableEq

namespace PoolState

/-- All threads are outside the pool, which `initMysql` has left as `p`. -/
def start (p : Pool) : PoolState := ⟨some p, [], [], []⟩

/-- A thread that is in neither function. -/
def Idle (s : PoolState) (thread : Nat) : Prop := thread ∉ s.between ∧ thread ∉ s.freeing

instance (s : PoolState) (thread : Nat) : Decidable (s.Idle thread) :=
  inferInstanceAs (Decidable (_ ∧ _))

/-- One step. A thread enters a function only when it is in none, releases what
it holds, and `malloc` returns an address that is not in use. -/
def step (s : PoolState) (op : PoolOp) : Option PoolState :=
  match s.pool with
  | none => some s
  | some p =>
      match op with
      | .get thread =>
          if s.Idle thread then
            match p.getConnectNormal with
            | none => some { s with pool := none }
            | some (none, p') => some { s with pool := some p', between := thread :: s.between }
            | some (some c, p') => some { s with pool := some p', held := (thread, c) :: s.held }
          else none
      | .getOverflow thread r =>
          if thread ∈ s.between ∧ r.addr.bind p.heap.get = none then
            match p.getConnectCourrent r with
            | (none, p') => some { s with pool := some p', between := s.between.erase thread }
            | (some c, p') =>
                some { s with
                       pool := some p'
                       held := (thread, c) :: s.held
                       between := s.between.erase thread }
          else none
      | .release thread conn =>
          if s.Idle thread ∧ (thread, conn) ∈ s.held then
            match p.heap.get conn with
            | none => some { s with pool := none }
            | some n =>
                if n.normal_flag then
                  some { s with pool := p.destoryNormal conn
                                held := s.held.erase (thread, conn) }
                else
                  some { s with pool := p.destoryOverflow conn
                                held := s.held.erase (thread, conn)
                                freeing := thread :: s.freeing }
          else none
      | .count thread =>
          if thread ∈ s.freeing then
            some { s with pool := some p.destoryCount, freeing := s.freeing.erase thread }
          else none

/-- The overflow connections that are lent out. -/
def overflow (s : PoolState) (p : Pool) : List (Nat × Addr) :=
  s.held.filter fun h => (p.heap.get h.2).map DBConn.normal_flag = some false

/-- The counters are exact, nothing is lent twice, and the search loop of
`getConnect` finds a node. -/
structure Exact (s : PoolState) (p : Pool) (cells : List (Addr × DBConn)) : Prop where
  pool : s.pool = some p
  pooled : p.pooled = some cells
  conn_sum : p.conn_sum = (cells.filter fun c => c.2.is_use = 0).length
  conn_sum_range : 0 ≤ p.conn_sum ∧ p.conn_sum ≤ 15
  not_lent_twice : (s.held.map Prod.snd).Nodup
  search_finds : p.getConnectNormal ≠ none
  courrent : p.mysql_courrent_connet_sum = 15 + (s.overflow p).length + s.freeing.length
  courrent_max : p.mysql_courrent_connet_sum ≤ MAX_MYSQL_CONNECT

end PoolState

/-! ### The invariant -/

/-- The nodes that are lent out, and those that are not. -/
def usedNodes (cells : List (Addr × DBConn)) : List (Addr × DBConn) :=
  cells.filter fun c => c.2.is_use ≠ 0

def freeNodes (cells : List (Addr × DBConn)) : List (Addr × DBConn) :=
  cells.filter fun c => c.2.is_use = 0

theorem usedNodes_append (xs ys : List (Addr × DBConn)) :
    usedNodes (xs ++ ys) = usedNodes xs ++ usedNodes ys :=
  List.filter_append ..

theorem freeNodes_append (xs ys : List (Addr × DBConn)) :
    freeNodes (xs ++ ys) = freeNodes xs ++ freeNodes ys :=
  List.filter_append ..

theorem usedNodes_cons_of_ne {c : Addr × DBConn} (hc : c.2.is_use ≠ 0) (cs : List (Addr × DBConn)) :
    usedNodes (c :: cs) = c :: usedNodes cs := by
  simp [usedNodes, hc]

theorem usedNodes_cons_of_eq {c : Addr × DBConn} (hc : c.2.is_use = 0) (cs : List (Addr × DBConn)) :
    usedNodes (c :: cs) = usedNodes cs := by
  simp [usedNodes, hc]

theorem freeNodes_cons_of_eq {c : Addr × DBConn} (hc : c.2.is_use = 0) (cs : List (Addr × DBConn)) :
    freeNodes (c :: cs) = c :: freeNodes cs := by
  simp [freeNodes, hc]

theorem freeNodes_cons_of_ne {c : Addr × DBConn} (hc : c.2.is_use ≠ 0) (cs : List (Addr × DBConn)) :
    freeNodes (c :: cs) = freeNodes cs := by
  simp [freeNodes, hc]

/-- The heap consists of the pooled list and of the overflow connections; what
the threads hold are the used nodes of the list and the overflow connections. -/
structure PoolInv (s : PoolState) (p : Pool) (cells extra : List (Addr × DBConn)) : Prop where
  pool : s.pool = some p
  owns : Owns p.heap (cells ++ extra)
  db : p.db = some (headOr cells none)
  next : LinkedTo DBConn.next cells none
  length : cells.length = NORMARL_MYSQL_CONNECT
  normal : ∀ c ∈ cells, c.2.normal_flag = true
  overflow : ∀ c ∈ extra, c.2.normal_flag = false
  sum : p.conn_sum = (freeNodes cells).length
  held : (s.held.map Prod.snd).Perm ((usedNodes cells ++ extra).map Prod.fst)
  courrent : p.mysql_courrent_connet_sum = 15 + extra.length + s.freeing.length
  max : p.mysql_courrent_connet_sum ≤ MAX_MYSQL_CONNECT

def PoolState.Inv (s : PoolState) : Prop := ∃ p cells extra, PoolInv s p cells extra

/-- The invariant of a pool with a list that is `missing` nodes too short. The nodes in the
list have handles with `Connected`. With nodes missing, `conn_sum` never comes down to 0, and
there are no overflow connections. -/
structure PoolShort (missing : Nat) (Connected : Addr → Prop) (s : PoolState) (p : Pool)
    (cells extra : List (Addr × DBConn)) : Prop where
  pool : s.pool = some p
  owns : Owns p.heap (cells ++ extra)
  db : p.db = if cells = [] then none else some (headOr cells none)
  next : LinkedTo DBConn.next cells none
  length : cells.length + missing = NORMARL_MYSQL_CONNECT
  normal : ∀ c ∈ cells, c.2.normal_flag = true ∧ Connected c.2.conn
  overflow : ∀ c ∈ extra, c.2.normal_flag = false
  sum : p.conn_sum = (freeNodes cells).length + missing
  held : (s.held.map Prod.snd).Perm ((usedNodes cells ++ extra).map Prod.fst)
  courrent : p.mysql_courrent_connet_sum = 15 + extra.length + s.freeing.length
  max : p.mysql_courrent_connet_sum ≤ MAX_MYSQL_CONNECT
  no_overflow : missing ≠ 0 → s.between = [] ∧ s.freeing = [] ∧ extra = []

def PoolState.Short (missing : Nat) (Connected : Addr → Prop) (s : PoolState) : Prop :=
  ∃ p cells extra, PoolShort missing Connected s p cells extra

section

variable {missing : Nat} {Connected : Addr → Prop} {s s' : PoolState} {p : Pool}
  {cells extra : List (Addr × DBConn)}

/-- The whole list. -/
theorem poolInv_iff : PoolInv s p cells extra ↔ PoolShort 0 (fun _ => True) s p cells extra := by
  constructor
  · intro h
    have hne : cells ≠ [] := List.ne_nil_of_length_pos (by rw [h.length]; exact Nat.zero_lt_succ _)
    exact
      { h with
        db := h.db.trans (if_neg hne).symm
        normal := fun c hc => ⟨h.normal c hc, trivial⟩
        sum := h.sum.trans (Int.add_zero _).symm
        no_overflow := fun h => absurd rfl h }
  · intro h
    have hlen : cells.length = NORMARL_MYSQL_CONNECT := h.length
    have hne : cells ≠ [] := List.ne_nil_of_length_pos (by rw [hlen]; exact Nat.zero_lt_succ _)
    exact
      { h with
        db := h.db.trans (if_neg hne)
        normal := fun c hc => (h.normal c hc).1
        sum := h.sum.trans (Int.add_zero _) }

namespace PoolShort

theorem chain (h : PoolShort missing Connected s p cells extra) :
    Holds p.heap cells ∧ cells.length ≤ p.heap.length + 1 := by
  refine ⟨fun c hc => h.owns.holds c (List.mem_append_left _ hc), ?_⟩
  have := h.owns.length_le
  simp only [List.length_append] at this
  omega

theorem pooled (h : PoolShort missing Connected s p cells extra) : p.pooled.getD [] = cells := by
  obtain ⟨hholds, hfuel⟩ := h.chain
  have hdb := h.db
  split at hdb
  · rename_i hnil
    rw [hnil, Pool.pooled, hdb]
    rfl
  · simp [Pool.pooled, hdb, collect_chain hholds h.next hfuel]

/-- With nodes missing, the second section of `getConnect` is not entered. -/
theorem missing_eq_zero_of_conn_sum (h : PoolShort missing Connected s p cells extra)
    (hz : p.conn_sum = 0) : missing = 0 := by
  have hsum := h.sum
  omega

/-- What the first section of `getConnect` finds. -/
theorem getConnectNormal_cases (h : PoolShort missing Connected s p cells extra) :
    (p.conn_sum = 0 ∧ p.getConnectNormal = some (none, p)) ∨
    (missing ≠ 0 ∧ freeNodes cells = [] ∧ p.getConnectNormal = none) ∨
    ∃ xs c ys, cells = xs ++ c :: ys ∧ c.2.is_use = 0 ∧
      p.getConnectNormal = some (some c.1,
        { p with heap := p.heap.set c.1 (c.2.setUse 1), conn_sum := p.conn_sum - 1 }) := by
  by_cases hz : p.conn_sum = 0
  · exact Or.inl ⟨hz, by simp [Pool.getConnectNormal, hz]⟩
  obtain ⟨hholds, hfuel⟩ := h.chain
  have hsearch : search DBConn.next (fun n => some (decide (n.is_use = 0))) p.heap
      (p.heap.length + 1) (headOr cells none) = _ :=
    search_chain (p := fun n => decide (n.is_use = 0)) hholds h.next hfuel fun _ _ => rfl
  have hdb := h.db
  cases hf : cells.find? fun c => decide (c.2.is_use = 0) with
  | none =>
      have hempty : freeNodes cells = [] := by
        rw [freeNodes, List.filter_eq_nil_iff]
        exact List.find?_eq_none.mp hf
      have hsum := h.sum
      rw [hempty] at hsum
      refine Or.inr (Or.inl ⟨fun hm => hz (by simp [hsum, hm]), hempty, ?_⟩)
      -- without a node, the pointer to the first one has not been written
      split at hdb
      · simp [Pool.getConnectNormal, hz, hdb]
      · rw [hf] at hsearch
        simp [Pool.getConnectNormal, hz, hdb, hsearch]
  | some c =>
      have hc : c ∈ cells := List.mem_of_find?_eq_some hf
      have huse : c.2.is_use = 0 := by simpa using List.find?_some hf
      obtain ⟨xs, ys, hsplit⟩ := List.append_of_mem hc
      refine Or.inr (Or.inr ⟨xs, c, ys, hsplit, huse, ?_⟩)
      rw [if_neg (List.ne_nil_of_mem hc)] at hdb
      rw [hf] at hsearch
      simp [Pool.getConnectNormal, hz, hdb, hsearch, Heap.update_eq (hholds c hc)]

/-- A free node is taken. -/
theorem take {thread : Nat} {xs ys : List (Addr × DBConn)} {c : Addr × DBConn}
    (h : PoolShort missing Connected s p (xs ++ c :: ys) extra) (hc : c.2.is_use = 0) :
    PoolShort missing Connected
      { s with
        pool := some { p with heap := p.heap.set c.1 (c.2.setUse 1), conn_sum := p.conn_sum - 1 }
        held := (thread, c.1) :: s.held }
      { p with heap := p.heap.set c.1 (c.2.setUse 1), conn_sum := p.conn_sum - 1 }
      (xs ++ (c.1, c.2.setUse 1) :: ys) extra := by
  have howns : Owns p.heap (xs ++ (c.1, c.2) :: (ys ++ extra)) := by simpa using h.owns
  have hnext := linkedTo_append.mp h.next
  have hone : (c.2.setUse 1).is_use ≠ 0 := by simp
  exact
    { pool := rfl
      owns := by simpa using howns.set_at (c.2.setUse 1)
      db := by
        have hdb := h.db
        cases xs <;> exact hdb
      next := linkedTo_append.mpr ⟨hnext.1, hnext.2.1, hnext.2.2⟩
      length := by simpa using h.length
      normal := by
        have hnormal := h.normal
        simp only [List.mem_append, List.mem_cons, or_imp, forall_and, forall_eq] at hnormal ⊢
        exact hnormal
      overflow := h.overflow
      sum := by
        have hsum := h.sum
        rw [freeNodes_append, freeNodes_cons_of_eq hc] at hsum
        rw [freeNodes_append, freeNodes_cons_of_ne hone]
        simp only [List.length_append, List.length_cons] at hsum ⊢
        omega
      held := by
        have hheld := h.held
        rw [usedNodes_append, usedNodes_cons_of_eq hc] at hheld
        rw [usedNodes_append, usedNodes_cons_of_ne hone]
        simp only [List.map_append, List.map_cons, List.append_assoc, List.cons_append]
          at hheld ⊢
        exact (hheld.cons c.1).trans List.perm_middle.symm
      courrent := h.courrent
      max := h.max
      no_overflow := h.no_overflow }

/-- First section of `getConnect`. -/
theorem get {thread : Nat} (h : PoolShort missing Connected s p cells extra)
    (hs : s.step (.get thread) = some s') :
    (missing = 0 ∧ PoolShort missing Connected s' p cells extra) ∨
    (missing ≠ 0 ∧ freeNodes cells = [] ∧ s'.pool = none) ∨
    ∃ p' cells', PoolShort missing Connected s' p' cells' extra ∧
      (freeNodes cells).length = (freeNodes cells').length + 1 := by
  simp only [PoolState.step, h.pool] at hs
  split at hs
  · rcases h.getConnectNormal_cases with
      ⟨hz, heq⟩ | ⟨hmissing, hempty, heq⟩ | ⟨xs, c, ys, rfl, hc, heq⟩
    · have hmissing := h.missing_eq_zero_of_conn_sum hz
      simp only [heq, Option.some.injEq] at hs
      exact Or.inl ⟨hmissing, hs ▸ { h with pool := rfl, no_overflow := absurd hmissing }⟩
    · simp only [heq, Option.some.injEq] at hs
      exact Or.inr (Or.inl ⟨hmissing, hempty, hs ▸ rfl⟩)
    · simp only [heq, Option.some.injEq] at hs
      have hone : (c.2.setUse 1).is_use ≠ 0 := by simp
      refine Or.inr (Or.inr ⟨_, xs ++ (c.1, c.2.setUse 1) :: ys, hs ▸ h.take hc, ?_⟩)
      rw [freeNodes_append, freeNodes_append, freeNodes_cons_of_eq hc, freeNodes_cons_of_ne hone]
      simp only [List.length_append, List.length_cons]
      omega
  · exact absurd hs (by simp)

/-- Second section of `getConnect`. -/
theorem getOverflow {thread : Nat} {r : Pool.Overflow}
    (h : PoolShort missing Connected s p cells extra)
    (hs : s.step (.getOverflow thread r) = some s') : s'.Short missing Connected := by
  simp only [PoolState.step, h.pool] at hs
  split at hs
  · rename_i hguard
    obtain ⟨hbetween, hfresh⟩ := hguard
    have hmissing : ¬ missing ≠ 0 := fun hne => by
      rw [(h.no_overflow hne).1] at hbetween
      cases hbetween
    rcases p.getConnectCourrent_cases r with hnull | ⟨a, handle, rfl, hlt, hnew⟩
    · rw [hnull] at hs
      exact ⟨p, cells, extra, Option.some.inj hs ▸
        { h with pool := rfl, no_overflow := fun hne => absurd hne hmissing }⟩
    · rw [hnew] at hs
      have hfresh : p.heap.get a = none := hfresh
      have hcourrent := h.courrent
      refine ⟨{ p with
          heap := p.heap.set a ⟨handle, 0, p.mysql_courrent_connet_sum, false, none, none⟩
          mysql_courrent_connet_sum := p.mysql_courrent_connet_sum + 1 },
        cells, extra ++ [(a, ⟨handle, 0, p.mysql_courrent_connet_sum, false, none, none⟩)], ?_⟩
      rw [← Option.some.inj hs]
      exact
        { pool := rfl
          owns := by
            rw [← List.append_assoc]
            exact h.owns.set_new hfresh _
          db := h.db
          next := h.next
          length := h.length
          normal := h.normal
          overflow := by
            intro c hc
            rcases List.mem_append.mp hc with hc | hc
            · exact h.overflow c hc
            · obtain rfl := List.mem_singleton.mp hc
              rfl
          sum := h.sum
          held := by
            have hheld := h.held.cons a
            rw [← List.append_assoc, List.map_append]
            exact hheld.trans (List.perm_append_singleton a _).symm
          courrent := by
            simp only [List.length_append, List.length_singleton]
            omega
          max := by
            simp only []
            omega
          no_overflow := fun hne => absurd hne hmissing }
  · exact absurd hs (by simp)

/-- Taking one holder's entry out takes its connection out. -/
theorem held_erase {thread : Nat} {conn : Addr} {l : List Addr}
    (hmem : (thread, conn) ∈ s.held) (hheld : (s.held.map Prod.snd).Perm (conn :: l)) :
    ((s.held.erase (thread, conn)).map Prod.snd).Perm l :=
  (((List.perm_cons_erase hmem).map Prod.snd).symm.trans hheld).cons_inv

/-- A pooled connection goes back to the list. -/
theorem destoryNormal {thread : Nat} {c : Addr × DBConn}
    (h : PoolShort missing Connected s p cells extra)
    (hmem : (thread, c.1) ∈ s.held) (hc : c ∈ cells) (huse : c.2.is_use ≠ 0) :
    PoolState.Short missing Connected
      { s with pool := p.destoryNormal c.1, held := s.held.erase (thread, c.1) } := by
  have hget : p.heap.get c.1 = some c.2 := h.chain.1 c hc
  obtain ⟨xs, ys, rfl⟩ := List.append_of_mem hc
  have howns : Owns p.heap (xs ++ (c.1, c.2) :: (ys ++ extra)) := by simpa using h.owns
  have hnext := linkedTo_append.mp h.next
  have hzero : (c.2.setUse 0).is_use = 0 := rfl
  refine ⟨{ p with heap := p.heap.set c.1 (c.2.setUse 0), conn_sum := p.conn_sum + 1 },
    xs ++ (c.1, c.2.setUse 0) :: ys, extra, ?_⟩
  exact
    { pool := by simp [Pool.destoryNormal, Heap.update_eq hget]
      owns := by simpa using howns.set_at (c.2.setUse 0)
      db := by
        have hdb := h.db
        cases xs <;> exact hdb
      next := linkedTo_append.mpr ⟨hnext.1, hnext.2.1, hnext.2.2⟩
      length := by simpa using h.length
      normal := by
        have hnormal := h.normal
        simp only [List.mem_append, List.mem_cons, or_imp, forall_and, forall_eq] at hnormal ⊢
        exact hnormal
      overflow := h.overflow
      sum := by
        have hsum := h.sum
        rw [freeNodes_append, freeNodes_cons_of_ne huse] at hsum
        rw [freeNodes_append, freeNodes_cons_of_eq hzero]
        simp only [List.length_append, List.length_cons] at hsum ⊢
        omega
      held := by
        have hheld := h.held
        rw [usedNodes_append, usedNodes_cons_of_ne huse] at hheld
        rw [usedNodes_append, usedNodes_cons_of_eq hzero]
        simp only [List.map_append, List.map_cons, List.append_assoc, List.cons_append]
          at hheld ⊢
        exact held_erase hmem (hheld.trans List.perm_middle)
      courrent := h.courrent
      max := h.max
      no_overflow := h.no_overflow }

/-- An overflow connection is freed, and not counted yet. -/
theorem destoryOverflow {thread : Nat} {c : Addr × DBConn}
    (h : PoolShort missing Connected s p cells extra)
    (hmem : (thread, c.1) ∈ s.held) (hc : c ∈ extra) :
    PoolState.Short missing Connected { s with
      pool := p.destoryOverflow c.1
      held := s.held.erase (thread, c.1)
      freeing := thread :: s.freeing } := by
  have hget : p.heap.get c.1 = some c.2 := h.owns.holds c (List.mem_append_right _ hc)
  have hmissing : ¬ missing ≠ 0 := fun hne => List.ne_nil_of_mem hc (h.no_overflow hne).2.2
  obtain ⟨xs, ys, rfl⟩ := List.append_of_mem hc
  have howns : Owns p.heap ((cells ++ xs) ++ (c.1, c.2) :: ys) := by simpa using h.owns
  have hcourrent := h.courrent
  refine ⟨{ p with heap := p.heap.erase c.1 }, cells, xs ++ ys, ?_⟩
  exact
    { h with
      pool := by simp [Pool.destoryOverflow, Heap.free_eq hget]
      owns := by simpa using howns.erase_at
      overflow := by
        have hoverflow := h.overflow
        simp only [List.mem_append, List.mem_cons, or_imp, forall_and, forall_eq] at hoverflow ⊢
        exact ⟨hoverflow.1, hoverflow.2.2⟩
      held := by
        have hheld := h.held
        simp only [List.map_append, List.map_cons] at hheld ⊢
        rw [← List.append_assoc] at hheld ⊢
        exact held_erase hmem (hheld.trans List.perm_middle)
      courrent := by
        simp only [List.length_append, List.length_cons] at hcourrent ⊢
        omega
      no_overflow := fun hne => absurd hne hmissing }

/-- `destoryConnect`: a pooled connection goes back to the list, an overflow
connection is freed. -/
theorem release {thread : Nat} {conn : Addr} (h : PoolShort missing Connected s p cells extra)
    (hs : s.step (.release thread conn) = some s') : s'.Short missing Connected := by
  simp only [PoolState.step, h.pool] at hs
  split at hs
  · rename_i hguard
    obtain ⟨-, hmem⟩ := hguard
    have hconn : conn ∈ (usedNodes cells ++ extra).map Prod.fst :=
      h.held.mem_iff.mp (List.mem_map_of_mem (f := Prod.snd) hmem)
    obtain ⟨c, hc, rfl⟩ := List.mem_map.mp hconn
    rcases List.mem_append.mp hc with hc | hc
    · obtain ⟨hc, huse⟩ := List.mem_filter.mp hc
      have hget : p.heap.get c.1 = some c.2 := h.chain.1 c hc
      simp only [hget, (h.normal c hc).1, if_true, Option.some.injEq] at hs
      rw [← hs]
      exact h.destoryNormal hmem hc (by simpa using huse)
    · have hget : p.heap.get c.1 = some c.2 := h.owns.holds c (List.mem_append_right _ hc)
      simp only [hget, h.overflow c hc, Bool.false_eq_true, if_false, Option.some.injEq] at hs
      rw [← hs]
      exact h.destoryOverflow hmem hc
  · exact absurd hs (by simp)

/-- The section that counts a closed overflow connection. -/
theorem count {thread : Nat} (h : PoolShort missing Connected s p cells extra)
    (hs : s.step (.count thread) = some s') : s'.Short missing Connected := by
  simp only [PoolState.step, h.pool] at hs
  split at hs
  · rename_i hmem
    refine ⟨p.destoryCount, cells, extra, ?_⟩
    rw [← Option.some.inj hs]
    have hlen := List.length_erase_add_one hmem
    have hcourrent := h.courrent
    have hmax := h.max
    exact
      { h with
        pool := rfl
        courrent := by simp only [Pool.destoryCount]; omega
        max := by simp only [Pool.destoryCount]; omega
        no_overflow := fun hne => by
          rw [(h.no_overflow hne).2.1] at hmem
          cases hmem }
  · exact absurd hs (by simp)

/-- A step keeps the list, unless it is a `getConnect` that finds no free node in it. -/
theorem step {op : PoolOp} (h : PoolShort missing Connected s p cells extra)
    (hs : s.step op = some s') :
    s'.Short missing Connected ∧ (missing = 0 ∨ freeNodes cells ≠ [] ∨ ∀ thread, op ≠ .get thread) ∨
      missing ≠ 0 ∧ freeNodes cells = [] ∧ (∃ thread, op = .get thread) ∧ s'.pool = none := by
  cases op with
  | get thread =>
      rcases h.get hs with ⟨hmissing, h'⟩ | ⟨hmissing, hempty, hnone⟩ | ⟨p', cells', h', hfree⟩
      · exact Or.inl ⟨⟨_, _, _, h'⟩, Or.inl hmissing⟩
      · exact Or.inr ⟨hmissing, hempty, ⟨thread, rfl⟩, hnone⟩
      · refine Or.inl ⟨⟨_, _, _, h'⟩, Or.inr (Or.inl fun hempty => ?_)⟩
        rw [hempty] at hfree
        cases hfree
  | getOverflow thread r => exact Or.inl ⟨h.getOverflow hs, Or.inr (Or.inr nofun)⟩
  | release thread conn => exact Or.inl ⟨h.release hs, Or.inr (Or.inr nofun)⟩
  | count thread => exact Or.inl ⟨h.count hs, Or.inr (Or.inr nofun)⟩

end PoolShort

end

theorem PoolState.Inv.step {s s' : PoolState} (op : PoolOp) (h : s.Inv)
    (hs : s.step op = some s') : s'.Inv := by
  obtain ⟨p, cells, extra, h⟩ := h
  rcases (poolInv_iff.mp h).step hs with ⟨⟨p', cells', extra', h'⟩, -⟩ | ⟨hmissing, -⟩
  · exact ⟨p', cells', extra', poolInv_iff.mpr h'⟩
  · exact absurd rfl hmissing

namespace PoolInv

variable {s : PoolState} {p : Pool} {cells extra : List (Addr × DBConn)}

theorem search_finds (h : PoolInv s p cells extra) : p.getConnectNormal ≠ none := by
  rcases (poolInv_iff.mp h).getConnectNormal_cases with
    ⟨-, heq⟩ | ⟨hmissing, -⟩ | ⟨xs, c, ys, -, -, heq⟩
  · simp [heq]
  · exact absurd rfl hmissing
  · simp [heq]

/-- The invariant gives the specification. -/
theorem exact (h : PoolInv s p cells extra) : s.Exact p cells := by
  obtain ⟨hholds, hfuel⟩ := (poolInv_iff.mp h).chain
  have hlen : (freeNodes cells).length ≤ cells.length := List.length_filter_le ..
  have hlist : cells.length = 15 := h.length
  have hsum := h.sum
  have hsub : (usedNodes cells ++ extra).Sublist (cells ++ extra) :=
    List.Sublist.append_right List.filter_sublist _
  have hextra : (s.overflow p).length = extra.length := by
    have hcount : (s.overflow p).length = ((s.held.map Prod.snd).filter fun a =>
        (p.heap.get a).map DBConn.normal_flag = some false).length := by
      rw [List.filter_map, List.length_map]
      rfl
    rw [hcount, (h.held.filter _).length_eq, List.filter_map, List.length_map,
      List.filter_append, List.length_append]
    have hused : (usedNodes cells).filter ((fun a => decide ((p.heap.get a).map DBConn.normal_flag =
        some false)) ∘ Prod.fst) = [] := by
      rw [List.filter_eq_nil_iff]
      intro c hc
      have hc : c ∈ cells := (List.mem_filter.mp hc).1
      simp [hholds c hc, h.normal c hc]
    have hall : extra.filter ((fun a => decide ((p.heap.get a).map DBConn.normal_flag =
        some false)) ∘ Prod.fst) = extra := by
      rw [List.filter_eq_self]
      intro c hc
      simp [h.owns.holds c (List.mem_append_right _ hc), h.overflow c hc]
    rw [hused, hall]
    simp
  exact
    { pool := h.pool
      pooled := by
        simp [Pool.pooled, h.db, collect_chain hholds h.next hfuel]
      conn_sum := h.sum
      conn_sum_range := by omega
      not_lent_twice :=
        h.held.nodup_iff.mpr (h.owns.nodup.sublist (hsub.map Prod.fst))
      search_finds := h.search_finds
      courrent := by rw [h.courrent, hextra]
      courrent_max := h.max }

end PoolInv

/-! ### `initMysql` -/

/-- The chain that `initMysql` has built so far, all of it free. -/
structure Built (heap : Heap DBConn) (cells : List (Addr × DBConn)) : Prop where
  owns : Owns heap cells
  next : LinkedTo DBConn.next cells none
  all_free : ∀ c ∈ cells, c.2.is_use = 0 ∧ c.2.normal_flag = true

/-- A round of the loop links a node behind the last one. -/
theorem Built.link {heap : Heap DBConn} {xs : List (Addr × DBConn)} {x : Addr × DBConn}
    {a : Addr} {node : DBConn} (h : Built heap (xs ++ [x])) (hfresh : a ∉ (xs ++ [x]).map Prod.fst)
    (hnext : node.next = none) (hfree : node.is_use = 0 ∧ node.normal_flag = true) :
    (heap.set a node).update x.1 (·.setNext (some a)) =
        some ((heap.set a node).set x.1 (x.2.setNext (some a))) ∧
      Built ((heap.set a node).set x.1 (x.2.setNext (some a)))
        ((xs ++ [(x.1, x.2.setNext (some a))]) ++ [(a, node)]) := by
  have hnone : heap.get a = none := by
    cases hget : heap.get a with
    | none => rfl
    | some n =>
        have hmem := (h.owns.get_iff a n).mp hget
        exact absurd (List.mem_map_of_mem (f := Prod.fst) hmem) hfresh
  have howns := h.owns.set_new hnone node
  rw [List.append_assoc, List.singleton_append] at howns
  have hlink := linkedTo_append.mp h.next
  refine ⟨Heap.update_eq howns.get _, ?_⟩
  exact
    { owns := by simpa using howns.set_at (x.2.setNext (some a))
      next := by
        rw [List.append_assoc]
        exact linkedTo_append.mpr ⟨hlink.1, rfl, hnext, trivial⟩
      all_free := by
        have hall := h.all_free
        simp only [List.mem_append, List.mem_singleton, or_imp, forall_and, forall_eq] at hall ⊢
        tauto }

/-- How many connections of the rounds from `k` down succeed before one fails. -/
def opened (mem : Nat → NewNode) : Nat → Nat
  | 0 => 0
  | k + 1 => if (mem k).connected then opened mem k + 1 else 0

theorem opened_le (mem : Nat → NewNode) : ∀ k, opened mem k ≤ k
  | 0 => Nat.le_refl 0
  | k + 1 => by
      rw [opened]
      split
      · exact Nat.succ_le_succ (opened_le mem k)
      · exact Nat.zero_le _

/-- The handles on which `mysql_real_connect` has succeeded in `initMysql`. -/
def Connected (mem : Nat → NewNode) (handle : Addr) : Prop :=
  ∃ i < NORMARL_MYSQL_CONNECT, (mem i).connected = true ∧ (mem i).handle = handle

/-- The loop appends one free node a round, while the connections succeed. -/
theorem initMysqlLoop_built {mem : Nat → NewNode} :
    ∀ {k : Nat} {heap : Heap DBConn} {xs : List (Addr × DBConn)} {x : Addr × DBConn},
      k < NORMARL_MYSQL_CONNECT →
      (∀ i < k, ∀ j < k, (mem i).addr = (mem j).addr → i = j) →
      (∀ i < k, (mem i).addr ∉ (xs ++ [x]).map Prod.fst) → Built heap (xs ++ [x]) →
      (∀ c ∈ xs ++ [x], Connected mem c.2.conn) → ∃ heap' ys,
        initMysqlLoop mem k heap x.1 = some (heap', decide (opened mem k = k)) ∧
        Built heap' ys ∧ (∀ c ∈ ys, Connected mem c.2.conn) ∧
        ys.length = xs.length + 1 + opened mem k ∧ headOr ys none = headOr (xs ++ [x]) none := by
  intro k
  induction k with
  | zero =>
      intro heap xs x _ _ _ hbuilt hopen
      exact ⟨heap, xs ++ [x], rfl, hbuilt, hopen, by simp [opened], rfl⟩
  | succ k ih =>
      intro heap xs x hk hinj hfresh hbuilt hopen
      set m := mem k with hm
      set node : DBConn := ⟨m.handle, 0, NORMARL_MYSQL_CONNECT - k, true, none, some x.1⟩ with hnode
      obtain ⟨hupdate, hbuilt'⟩ : (heap.set m.addr node).update x.1 (·.setNext (some m.addr)) = _ ∧
          _ := hbuilt.link (hfresh k (Nat.lt_succ_self k)) rfl ⟨rfl, rfl⟩
      rw [initMysqlLoop, opened]
      by_cases hconn : m.connected = true
      · simp only [← hm, hconn, if_true, Option.bind_eq_bind, ← hnode, hupdate,
          Option.bind_some, Nat.add_right_cancel_iff]
        have hopen' : ∀ c ∈ (xs ++ [(x.1, x.2.setNext (some m.addr))]) ++ [(m.addr, node)],
            Connected mem c.2.conn := by
          have hnode : Connected mem node.conn := ⟨k, by omega, hconn, rfl⟩
          simp only [List.mem_append, List.mem_singleton, or_imp, forall_and, forall_eq]
            at hopen ⊢
          exact ⟨hopen, hnode⟩
        obtain ⟨heap', ys, heq, hys, hall, hlen, hhead⟩ := ih (by omega)
          (fun i hi j hj => hinj i (by omega) j (by omega))
          (fun i hi => by
            have h1 := hfresh i (by omega)
            have h2 : (mem i).addr ≠ m.addr := fun he => by
              have := hinj i (by omega) k (by omega) he
              omega
            simp only [List.map_append, List.map_cons, List.map_nil, List.mem_append,
              List.mem_singleton, not_or] at h1 ⊢
            exact ⟨h1, h2⟩)
          hbuilt' hopen'
        refine ⟨heap', ys, heq, hys, hall, ?_, ?_⟩
        · rw [hlen, List.length_append, List.length_singleton]
          omega
        · rw [hhead]
          cases xs <;> rfl
      · refine ⟨heap, xs ++ [x], ?_, hbuilt, hopen, ?_, rfl⟩
        · simp [← hm, hconn]
        · simp [← hm, hconn]

/-- The pool with a list of free connections. -/
theorem Built.short {heap : Heap DBConn} {cells : List (Addr × DBConn)} {a : Addr}
    {missing : Nat} {Connected : Addr → Prop} (h : Built heap cells)
    (hopen : ∀ c ∈ cells, Connected c.2.conn) (hhead : headOr cells none = some a)
    (hlen : cells.length + missing = NORMARL_MYSQL_CONNECT) :
    PoolShort missing Connected
      (PoolState.start ⟨heap, some (some a), NORMARL_MYSQL_CONNECT, NORMARL_MYSQL_CONNECT⟩)
      ⟨heap, some (some a), NORMARL_MYSQL_CONNECT, NORMARL_MYSQL_CONNECT⟩ cells [] := by
  have hfree : freeNodes cells = cells := by
    rw [freeNodes, List.filter_eq_self]
    intro c hc
    simpa using (h.all_free c hc).1
  have hused : usedNodes cells = [] := by
    rw [usedNodes, List.filter_eq_nil_iff]
    intro c hc
    simpa using (h.all_free c hc).1
  have hne : cells ≠ [] := by
    rintro rfl
    cases hhead
  exact
    { pool := rfl
      owns := by simpa using h.owns
      db := by rw [if_neg hne, hhead]
      next := h.next
      length := hlen
      normal := fun c hc => ⟨(h.all_free c hc).2, hopen c hc⟩
      overflow := by simp
      sum := by
        rw [hfree]
        exact congrArg Nat.cast hlen.symm
      held := by simp [PoolState.start, hused]
      courrent := rfl
      max := (by decide : (NORMARL_MYSQL_CONNECT : Int) ≤ MAX_MYSQL_CONNECT)
      no_overflow := fun _ => ⟨rfl, rfl, rfl⟩ }

/-- What `initMysql` leaves: a list of the connections it has opened before one failed. -/
theorem initMysql_short {mem : Nat → NewNode}
    (hmem : ∀ i < NORMARL_MYSQL_CONNECT, ∀ j < NORMARL_MYSQL_CONNECT,
      (mem i).addr = (mem j).addr → i = j) :
    ∃ p, initMysql mem =
        some (p, decide (opened mem NORMARL_MYSQL_CONNECT = NORMARL_MYSQL_CONNECT)) ∧
      ∃ cells, PoolShort (NORMARL_MYSQL_CONNECT - opened mem NORMARL_MYSQL_CONNECT) (Connected mem)
        (PoolState.start p) p cells [] := by
  simp only [initMysql]
  set m := mem (NORMARL_MYSQL_CONNECT - 1) with hm
  have hopened : opened mem NORMARL_MYSQL_CONNECT =
      if m.connected then opened mem (NORMARL_MYSQL_CONNECT - 1) + 1 else 0 := rfl
  rw [hopened]
  by_cases hconn : m.connected = true
  · rw [if_pos hconn, if_pos hconn]
    have hfirst : Built (Heap.set [] m.addr ⟨m.handle, 0, 0, true, none, none⟩)
        ([] ++ [(m.addr, ⟨m.handle, 0, 0, true, none, none⟩)]) :=
      { owns := (⟨by simp, by simp⟩ : Owns [] []).set_new rfl _
        next := ⟨rfl, trivial⟩
        all_free := by simp }
    obtain ⟨heap, cells, hloop, hbuilt, hopen, hlen, hhead⟩ := initMysqlLoop_built
      (x := (m.addr, _)) (k := NORMARL_MYSQL_CONNECT - 1) (by decide)
      (fun i hi j hj => hmem i (by omega) j (by omega))
      (fun i hi => by
        have hne : (mem i).addr ≠ m.addr := fun he => by
          have := hmem i (by omega) (NORMARL_MYSQL_CONNECT - 1) (by decide) he
          omega
        simpa using hne)
      hfirst fun c hc => by
        obtain rfl := List.mem_singleton.mp hc
        exact ⟨NORMARL_MYSQL_CONNECT - 1, by decide, hconn, rfl⟩
    have hle := opened_le mem (NORMARL_MYSQL_CONNECT - 1)
    have hlen : cells.length = opened mem (NORMARL_MYSQL_CONNECT - 1) + 1 :=
      hlen.trans (Nat.add_comm 1 _)
    have hmissing : cells.length + (NORMARL_MYSQL_CONNECT -
        (opened mem (NORMARL_MYSQL_CONNECT - 1) + 1)) = NORMARL_MYSQL_CONNECT := by
      rw [hlen]
      exact Nat.add_sub_cancel' (Nat.succ_le_of_lt (Nat.lt_of_le_of_lt hle (by decide)))
    rw [hloop]
    refine ⟨⟨heap, some (some m.addr), NORMARL_MYSQL_CONNECT, NORMARL_MYSQL_CONNECT⟩, ?_, cells, ?_⟩
    · have hall : opened mem (NORMARL_MYSQL_CONNECT - 1) = NORMARL_MYSQL_CONNECT - 1 ↔
          opened mem (NORMARL_MYSQL_CONNECT - 1) + 1 = NORMARL_MYSQL_CONNECT :=
        Nat.succ_inj.symm
      rw [Option.bind_eq_bind, Option.bind_some, decide_eq_decide.mpr hall]
    · exact hbuilt.short hopen hhead hmissing
  · rw [if_neg hconn, if_neg hconn]
    exact ⟨_, rfl, [],
      { pool := rfl
        owns := ⟨by simp, by simp⟩
        db := rfl
        next := trivial
        length := rfl
        normal := by simp
        overflow := by simp
        sum := rfl
        held := List.Perm.refl _
        courrent := rfl
        max := (by decide : (NORMARL_MYSQL_CONNECT : Int) ≤ MAX_MYSQL_CONNECT)
        no_overflow := fun _ => ⟨rfl, rfl, rfl⟩ }⟩

/-- A successful `initMysql` leaves 15 free connections and exact counters. -/
theorem initMysql_inv {mem : Nat → NewNode} {p : Pool}
    (hmem : ∀ i < NORMARL_MYSQL_CONNECT, ∀ j < NORMARL_MYSQL_CONNECT,
      (mem i).addr = (mem j).addr → i = j)
    (hinit : initMysql mem = some (p, true)) : (PoolState.start p).Inv := by
  obtain ⟨p', heq, cells, h⟩ := initMysql_short hmem
  rw [hinit, Option.some.injEq, Prod.mk.injEq] at heq
  obtain ⟨rfl, hall⟩ := heq
  rw [of_decide_eq_true hall.symm, Nat.sub_self] at h
  exact ⟨p, cells, [], poolInv_iff.mpr
    { h with normal := fun c hc => ⟨(h.normal c hc).1, trivial⟩ }⟩

/-- **The pool never lends a connection twice and its counters stay exact**: in
every state that any number of threads reach, by any interleaving of the critical
sections of `getConnect` and `destoryConnect`, from a successful `initMysql`. -/
theorem pool_exact (mem : Nat → NewNode) (p : Pool)
    (hmem : ∀ i < NORMARL_MYSQL_CONNECT, ∀ j < NORMARL_MYSQL_CONNECT,
      (mem i).addr = (mem j).addr → i = j)
    (hinit : initMysql mem = some (p, true)) (ops : List PoolOp) (s : PoolState)
    (hrun : exec PoolState.step (PoolState.start p) ops = some s) :
    ∃ q cells, s.Exact q cells ∧ cells.length = NORMARL_MYSQL_CONNECT := by
  have hinv : s.Inv :=
    exec_invariant (fun _ op _ h hs => h.step op hs) (initMysql_inv hmem hinit) hrun
  obtain ⟨q, cells, extra, h⟩ := hinv
  exact ⟨q, cells, h.exact, h.length⟩

/-- Two threads take a connection each and the first one gives its own back. -/
theorem pool_exact_two_threads :
    ∃ p s, initMysql (fun k => ⟨k, k, true⟩) = some (p, true) ∧
      exec PoolState.step (PoolState.start p) [.get 0, .get 1, .release 0 14] = some s ∧
      s.held = [(1, 13)] ∧ ∃ q cells, s.Exact q cells ∧ cells.length = NORMARL_MYSQL_CONNECT := by
  obtain ⟨p, hp⟩ : ∃ p, initMysql (fun k => ⟨k, k, true⟩) = some (p, true) := ⟨_, rfl⟩
  obtain ⟨s, hs, hheld⟩ : ∃ s, exec PoolState.step
      (PoolState.start ((initMysql (fun k => ⟨k, k, true⟩)).get (by rw [hp]; rfl)).1)
      [.get 0, .get 1, .release 0 14] = some s ∧ s.held = [(1, 13)] := ⟨_, rfl, rfl⟩
  simp only [hp, Option.get_some] at hs
  exact ⟨p, s, hp, hs, hheld, pool_exact _ p (fun i _ j _ h => h) hp _ s hs⟩

end SpiderChat
