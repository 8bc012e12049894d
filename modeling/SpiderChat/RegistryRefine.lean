import SpiderChat.Lib.Run
import SpiderChat.Registry

/-!
# SpiderChat.RegistryRefine

The client registry **refines a list of connections**: `RegState` runs the code
of `SpiderChat.Registry` side by side with the list of the (fd, client) pairs
added and not yet deleted, and `RegState.Refines` says that the nodes reached
from `fd2clients` are live and are exactly that list.

The representation invariant is `RegInv`: the cells of the heap are one doubly
linked list, whose first cell is its own `prev` or has none. The second
possibility is what `init_fd2client` and `add_fd2client` set up and what
`del_fd2client` tests for; the first one is what `del_fd2client` leaves behind
when it removes a first node that has a successor. A later removal of that first
node then takes the branch for inner nodes, frees it and leaves `fd2clients`
pointing to it. So the refinement holds along a run exactly when no removal of
the first node finds a `prev` there (`RegState.HeadOk`).
-/

namespace SpiderChat

open Lib

/-! ### The registry beside its abstract list -/

/-- A use of the registry: `add_fd2client` with the address `malloc` returns, and
`del_fd2client` on a node. -/
inductive RegOp
  | add (fd : Int) (client : Addr) (mem : Ptr)
  | del (node : Addr)
  deriving Repr, DecidableEq

/-- The registry (`none` once the code has run into undefined behaviour) and the
connections added and not yet deleted, in insertion order. -/
structure RegState where
  reg : Option Registry
  registered : List (Int × Ptr)
  deriving Repr, DecidableEq

namespace RegState

/-- The state after `init_fd2client`, its node at address `a`. -/
def init (a : Addr) : RegState := ⟨some (Registry.empty.initFd2client (some a)).1, []⟩

/-- One call. It is only made with a positive descriptor that is not registered,
with memory from `malloc` that is not in use, and on a registered node. -/
def step (s : RegState) (op : RegOp) : Option RegState :=
  match s.reg, op with
  | none, _ => some s
  | some r, .add fd client mem =>
      if 0 < fd ∧ fd ∉ s.registered.map Prod.fst ∧ (mem.bind r.heap.get) = none then
        match r.addFd2client fd (some client) mem with
        | none => some ⟨none, s.registered⟩
        | some (r', ret) =>
            some ⟨some r', if ret = SUCCESSFUL then s.registered ++ [(fd, some client)]
              else s.registered⟩
      else none
  | some r, .del node =>
      match r.heap.get node with
      | none => none
      | some n =>
          if (n.fd, n.client) ∈ s.registered then
            some ⟨r.delFd2client node, s.registered.erase (n.fd, n.client)⟩
          else none

/-- The nodes reached from `fd2clients` are live and are the registered
connections, in order; the two lookups find exactly these. -/
def Refines (s : RegState) : Prop :=
  ∃ r, s.reg = some r ∧ r.entries = some s.registered ∧
    ∀ fd, 0 < fd →
      r.isExistsFd fd = some ((s.registered.lookup fd).getD none) ∧
      ((fd ∉ s.registered.map Prod.fst ∧ r.findFd2client fd = some none) ∨
        ∃ a n, r.findFd2client fd = some (some a) ∧ r.heap.get a = some n ∧
          n.fd = fd ∧ (n.fd, n.client) ∈ s.registered)

/-- The condition on a call: a first node is deleted only while its `prev` is
`NULL`, that is when it did not become first through such a deletion. -/
def HeadOk (s : RegState) : RegOp → Prop
  | .add _ _ _ => True
  | .del node => ∀ r n, s.reg = some r → r.fd2clients = some node →
      r.heap.get node = some n → n.prev = none

end RegState

/-! ### The representation invariant -/

/-- The connections stored in a list of cells, the placeholder ignored. -/
def entriesOf (cells : List (Addr × Fd2client)) : List (Int × Ptr) :=
  (cells.filter fun c => c.2.fd ≠ 0).map fun c => (c.2.fd, c.2.client)

/-- The heap consists of the given cells, which form one doubly linked list from
`fd2clients`; it is either the placeholder alone or has no placeholder. -/
structure RegInv (r : Registry) (cells : List (Addr × Fd2client)) : Prop where
  owns : Owns r.heap cells
  head : r.fd2clients = headOr cells none
  next : LinkedTo Fd2client.next cells none
  prev : ∃ p, (p = none ∨ p = headOr cells none) ∧ BackLinked Fd2client.prev p cells
  shape : (∃ a n, cells = [(a, n)] ∧ n.fd = 0 ∧ n.prev = none) ∨
    (cells ≠ [] ∧ ∀ c ∈ cells, 0 < c.2.fd)
  fds : ((entriesOf cells).map Prod.fst).Nodup

/-- The refinement as an invariant: the cells witness it. -/
def RegState.Inv (s : RegState) : Prop :=
  ∃ r cells, s.reg = some r ∧ RegInv r cells ∧ s.registered = entriesOf cells

@[simp] theorem entriesOf_nil : entriesOf [] = [] := rfl

/-- The connection stored in one node. -/
def entryOf (n : Fd2client) : List (Int × Ptr) := if n.fd = 0 then [] else [(n.fd, n.client)]

@[simp] theorem entryOf_setNext (n : Fd2client) (p : Ptr) : entryOf (n.setNext p) = entryOf n := rfl
@[simp] theorem entryOf_setPrev (n : Fd2client) (p : Ptr) : entryOf (n.setPrev p) = entryOf n := rfl
@[simp] theorem entryOf_setTail (n : Fd2client) (p : Ptr) : entryOf (n.setTail p) = entryOf n := rfl

theorem entryOf_of_ne {n : Fd2client} (h : n.fd ≠ 0) : entryOf n = [(n.fd, n.client)] := if_neg h

theorem entriesOf_cons (c : Addr × Fd2client) (cs : List (Addr × Fd2client)) :
    entriesOf (c :: cs) = entryOf c.2 ++ entriesOf cs := by
  by_cases hc : c.2.fd = 0 <;> simp [entriesOf, entryOf, hc]

theorem entriesOf_cons_of_pos {c : Addr × Fd2client} (hc : 0 < c.2.fd)
    (cs : List (Addr × Fd2client)) :
    entriesOf (c :: cs) = (c.2.fd, c.2.client) :: entriesOf cs := by
  rw [entriesOf_cons, entryOf_of_ne (by omega), List.singleton_append]

theorem entriesOf_append (xs ys : List (Addr × Fd2client)) :
    entriesOf (xs ++ ys) = entriesOf xs ++ entriesOf ys := by
  simp [entriesOf]

theorem entriesOf_of_pos {cells : List (Addr × Fd2client)} (h : ∀ c ∈ cells, 0 < c.2.fd) :
    entriesOf cells = cells.map fun c => (c.2.fd, c.2.client) := by
  have hall : cells.filter (fun c => c.2.fd ≠ 0) = cells := by
    rw [List.filter_eq_self]
    intro c hc
    have := h c hc
    simp only [ne_eq, decide_eq_true_eq]
    omega
  rw [entriesOf, hall]

/-- The node of a cell, and the connection stored in it. -/
def slotOf (c : Addr × Fd2client) : Addr × Int × Ptr := (c.1, c.2.fd, c.2.client)

theorem entriesOf_eq_slots (cells : List (Addr × Fd2client)) :
    entriesOf cells = ((cells.map slotOf).filter fun c => c.2.1 ≠ 0).map Prod.snd := by
  rw [List.filter_map, List.map_map]
  rfl

/-- The connections do not depend on the links. -/
theorem entriesOf_congr {xs ys : List (Addr × Fd2client)} (h : xs.map slotOf = ys.map slotOf) :
    entriesOf xs = entriesOf ys := by
  rw [entriesOf_eq_slots, entriesOf_eq_slots, h]

theorem entriesOf_sublist {xs ys : List (Addr × Fd2client)}
    (h : (xs.map slotOf).Sublist (ys.map slotOf)) : (entriesOf xs).Sublist (entriesOf ys) := by
  rw [entriesOf_eq_slots, entriesOf_eq_slots]
  exact (h.filter _).map _

theorem pos_of_slots {xs ys : List (Addr × Fd2client)}
    (h : (xs.map slotOf).Sublist (ys.map slotOf)) (hpos : ∀ c ∈ ys, 0 < c.2.fd) :
    ∀ c ∈ xs, 0 < c.2.fd := by
  intro c hc
  have hmem : slotOf c ∈ ys.map slotOf := h.subset (List.mem_map_of_mem hc)
  obtain ⟨d, hd, heq⟩ := List.mem_map.mp hmem
  obtain ⟨-, hfd⟩ := Prod.mk.inj heq
  obtain ⟨hfd, -⟩ := Prod.mk.inj hfd
  exact hfd ▸ hpos d hd

theorem headOr_congr {xs ys : List (Addr × Fd2client)} (h : xs.map slotOf = ys.map slotOf)
    (q : Ptr) : headOr xs q = headOr ys q := by
  cases xs with
  | nil =>
      rw [List.map_nil, eq_comm, List.map_eq_nil_iff] at h
      rw [h]
  | cons x xs =>
      obtain ⟨y, ys', rfl, hy, -⟩ := List.map_eq_cons_iff.mp h.symm
      obtain ⟨haddr, -⟩ := Prod.mk.inj hy
      rw [headOr_cons, headOr_cons, haddr]

namespace RegInv

variable {r : Registry} {cells : List (Addr × Fd2client)}

theorem fuel (h : RegInv r cells) : cells.length ≤ r.heap.length + 1 :=
  Nat.le_succ_of_le h.owns.length_le

/-- The descriptors stay different when cells are left out. -/
theorem fds_of_slots {cells' : List (Addr × Fd2client)} (h : RegInv r cells)
    (hsub : (cells'.map slotOf).Sublist (cells.map slotOf)) :
    ((entriesOf cells').map Prod.fst).Nodup :=
  h.fds.sublist ((entriesOf_sublist hsub).map _)

/-- Every loop of the registry code runs over the cells. -/
theorem search_eq (h : RegInv r cells) {test : Fd2client → Option Bool} {p : Fd2client → Bool}
    (ht : ∀ c ∈ cells, test c.2 = some (p c.2)) :
    search Fd2client.next test r.heap (r.heap.length + 1) r.fd2clients =
      some ((cells.find? fun c => p c.2).map Prod.fst) := by
  rw [h.head]
  exact search_chain h.owns.holds h.next h.fuel ht

theorem entries_eq (h : RegInv r cells) : r.entries = some (entriesOf cells) := by
  rw [Registry.entries, Registry.nodes, h.head, collect_chain h.owns.holds h.next h.fuel]
  rfl

theorem findFd2client_eq (h : RegInv r cells) (fd : Int) :
    r.findFd2client fd = some ((cells.find? fun c => fd = c.2.fd).map Prod.fst) :=
  h.search_eq (p := fun n => fd = n.fd) fun _ _ => rfl

theorem isExistsFd_eq (h : RegInv r cells) (fd : Int) :
    r.isExistsFd fd =
      some (((cells.find? fun c => fd = c.2.fd).map fun c => c.2.client).getD none) := by
  rw [Registry.isExistsFd, h.findFd2client_eq fd]
  cases hf : cells.find? fun c => fd = c.2.fd with
  | none => rfl
  | some c => simp [h.owns.holds c (List.mem_of_find?_eq_some hf)]

end RegInv

/-- Looking a positive descriptor up among the cells is looking it up among the
connections. -/
theorem find?_entriesOf (cells : List (Addr × Fd2client)) {fd : Int} (hfd : 0 < fd) :
    (cells.find? fun c => fd = c.2.fd).map (fun c => c.2.client) =
      (entriesOf cells).lookup fd := by
  induction cells with
  | nil => rfl
  | cons c cs ih =>
      by_cases hc : fd = c.2.fd
      · have hne : c.2.fd ≠ 0 := by omega
        simp [entriesOf, hne, hc]
      · have hbeq : (fd == c.2.fd) = false := by simpa using hc
        rw [List.find?_cons_of_neg (by simpa using hc), ih]
        by_cases hz : c.2.fd = 0
        · simp [entriesOf, hz]
        · simp [entriesOf, hz, List.lookup_cons, hbeq]

/-- The invariant gives the refinement. -/
theorem RegState.Inv.refines {s : RegState} (h : s.Inv) : s.Refines := by
  obtain ⟨r, cells, hr, hinv, hreg⟩ := h
  refine ⟨r, hr, by rw [hinv.entries_eq, hreg], fun fd hfd => ⟨?_, ?_⟩⟩
  · rw [hinv.isExistsFd_eq fd, hreg, find?_entriesOf cells hfd]
  · rw [hinv.findFd2client_eq fd, hreg]
    cases hf : cells.find? fun c => fd = c.2.fd with
    | none =>
        refine Or.inl ⟨fun hmem => ?_, rfl⟩
        simp only [entriesOf, List.map_map, List.mem_map, List.mem_filter] at hmem
        obtain ⟨c, ⟨hc, _⟩, hcfd⟩ := hmem
        have := List.find?_eq_none.mp hf c hc
        exact this (by simpa using hcfd.symm)
    | some c =>
        have hc : c ∈ cells := List.mem_of_find?_eq_some hf
        have hcfd : fd = c.2.fd := by simpa using List.find?_some hf
        refine Or.inr ⟨c.1, c.2, rfl, hinv.owns.holds c hc, hcfd.symm, ?_⟩
        have hne : c.2.fd ≠ 0 := by omega
        exact List.mem_map.mpr ⟨c, List.mem_filter.mpr ⟨hc, by simpa using hne⟩, rfl⟩

/-! ### `init_fd2client` and `add_fd2client` -/

theorem initFd2client_inv (a : Addr) : (RegState.init a).Inv := by
  refine ⟨_, [(a, Registry.placeholder)], rfl, ?_, rfl⟩
  exact
    { owns := (⟨by simp, by simp⟩ : Owns [] []).set_new rfl Registry.placeholder
      head := rfl
      next := ⟨rfl, trivial⟩
      prev := ⟨none, Or.inl rfl, rfl, trivial⟩
      shape := Or.inl ⟨a, _, rfl, rfl, rfl⟩
      fds := by simp [entriesOf, Registry.placeholder] }

section Operations

variable {r : Registry} {cells : List (Addr × Fd2client)} {fd : Int}

/-- The placeholder is filled in place. -/
theorem addFd2client_placeholder (client mem : Ptr) {a : Addr} {n : Fd2client}
    (h : RegInv r [(a, n)])
    (hn : n.fd = 0) (hprev : n.prev = none) (hfd : 0 < fd) :
    ∃ r', r.addFd2client fd client mem = some (r', SUCCESSFUL) ∧
      RegInv r' [(a, ⟨fd, client, none, none, some a⟩)] := by
  have hget : r.heap.get a = some n := h.owns.get_head
  have hhead : r.fd2clients = some a := h.head
  refine ⟨{ r with heap := r.heap.set a ⟨fd, client, none, none, some a⟩ }, ?_, ?_⟩
  · simp [Registry.addFd2client, hhead, hget, hn, hprev, Heap.update_eq hget]
  · exact
      { owns := h.owns.set_head _
        head := h.head
        next := ⟨rfl, trivial⟩
        prev := ⟨none, Or.inl rfl, rfl, trivial⟩
        shape := Or.inr ⟨by simp, by simpa using hfd⟩
        fds := by
          rw [entriesOf_of_pos (by simpa using hfd)]
          simp }

/-- The walk of `add_fd2client` stops at the last node. -/
theorem search_last {xs : List (Addr × Fd2client)} {x : Addr × Fd2client}
    (h : RegInv r (xs ++ [x])) :
    search Fd2client.next (fun n => some n.next.isNone) r.heap (r.heap.length + 1)
      r.fd2clients = some (some x.1) := by
  rw [h.search_eq (p := fun n => n.next.isNone) fun _ _ => rfl, find?_last h.next]
  rfl

/-- A registry without placeholder takes the second branch of `add_fd2client`. -/
theorem addFd2client_branch (client mem : Ptr) {xs : List (Addr × Fd2client)}
    {x : Addr × Fd2client} (h : RegInv r (xs ++ [x])) (hpos : ∀ c ∈ xs ++ [x], 0 < c.2.fd) :
    r.addFd2client fd client mem =
      match mem with
      | none => some (r, FAIL)
      | some new_fd2 =>
          ((r.heap.set new_fd2 ⟨fd, client, none, some x.1, x.2.tail⟩).update x.1
            (·.setNext (some new_fd2))).map
              fun heap => ({ r with heap }, SUCCESSFUL) := by
  obtain ⟨c, cs, hc⟩ : ∃ c cs, xs ++ [x] = c :: cs := by cases xs <;> simp
  have hhead : r.fd2clients = some c.1 := by rw [h.head, hc]; rfl
  have hget : r.heap.get c.1 = some c.2 := h.owns.holds c (by rw [hc]; simp)
  have hx : r.heap.get x.1 = some x.2 := h.owns.holds x (by simp)
  have hne : ¬ (c.2.prev = none ∧ c.2.fd = 0) := by
    have := hpos c (by rw [hc]; simp)
    intro h
    obtain ⟨-, h0⟩ := h
    omega
  have hlast := search_last h
  rw [hhead] at hlast
  simp only [Registry.addFd2client, hhead, hget, Option.bind_eq_bind, Option.bind_some, hne,
    if_false, hlast, hx]
  cases mem with
  | none => rfl
  | some a =>
      dsimp only
      cases Heap.update _ _ _ <;> rfl

/-- A new node is appended at the end. -/
theorem addFd2client_append (client : Ptr) {xs : List (Addr × Fd2client)} {x : Addr × Fd2client}
    {a : Addr} (h : RegInv r (xs ++ [x])) (hpos : ∀ c ∈ xs ++ [x], 0 < c.2.fd)
    (ha : r.heap.get a = none) (hfd : 0 < fd)
    (hnew : fd ∉ (entriesOf (xs ++ [x])).map Prod.fst) :
    ∃ r', r.addFd2client fd client (some a) = some (r', SUCCESSFUL) ∧
      RegInv r' (xs ++ [(x.1, x.2.setNext (some a)),
        (a, ⟨fd, client, none, some x.1, x.2.tail⟩)]) := by
  have howns := h.owns.set_new ha ⟨fd, client, none, some x.1, x.2.tail⟩
  rw [List.append_assoc, List.singleton_append] at howns
  have hx := howns.get
  refine ⟨⟨(r.heap.set a ⟨fd, client, none, some x.1, x.2.tail⟩).set x.1
    (x.2.setNext (some a)), r.fd2clients⟩, ?_, ?_⟩
  · rw [addFd2client_branch client (some a) h hpos]
    simp only [Heap.update_eq hx, Option.map_some]
  · have hpos' : ∀ c ∈ xs ++ [(x.1, x.2.setNext (some a)),
        (a, ⟨fd, client, none, some x.1, x.2.tail⟩)], 0 < c.2.fd := by
      intro c hc
      simp only [List.mem_append, List.mem_cons, List.not_mem_nil, or_false] at hc
      rcases hc with hc | rfl | rfl
      · exact hpos c (by simp [hc])
      · exact hpos x (by simp)
      · exact hfd
    have hnext := linkedTo_append.mp h.next
    obtain ⟨p, hp, hback⟩ := h.prev
    have hback := backLinked_append.mp hback
    exact
      { owns := howns.set_at _
        head := by
          rw [h.head]
          cases xs <;> rfl
        next := linkedTo_append.mpr ⟨hnext.1, rfl, rfl, trivial⟩
        prev := by
          refine ⟨p, ?_, backLinked_append.mpr ⟨hback.1, hback.2.1, rfl, trivial⟩⟩
          cases xs <;> exact hp
        shape := Or.inr ⟨by simp, hpos'⟩
        fds := by
          have hfds := h.fds
          rw [entriesOf_of_pos hpos] at hfds hnew
          rw [entriesOf_of_pos hpos']
          simp only [List.map_append, List.map_cons, List.map_nil] at hfds hnew ⊢
          rw [← List.singleton_append, ← List.append_assoc]
          exact List.nodup_append.mpr ⟨hfds, by simp, fun b hb c hc => by
            obtain rfl : c = fd := by simpa using hc
            exact fun he => hnew (he ▸ hb)⟩ }

/-! ### `del_fd2client` -/

/-- The last connection: its node becomes the placeholder. -/
theorem delFd2client_sole {a : Addr} {n : Fd2client} (h : RegInv r [(a, n)])
    (hprev : n.prev = none) :
    ∃ r', r.delFd2client a = some r' ∧ RegInv r' [(a, Registry.placeholder)] := by
  have hget : r.heap.get a = some n := h.owns.get_head
  have hhead : r.fd2clients = some a := h.head
  have hnext : n.next = none := h.next.1
  refine ⟨{ r with heap := r.heap.set a Registry.placeholder }, ?_, ?_⟩
  · simp [Registry.delFd2client, hget, hprev, hhead, hnext, Heap.update_eq hget]
  · exact
      { owns := h.owns.set_head _
        head := h.head
        next := ⟨rfl, trivial⟩
        prev := ⟨none, Or.inl rfl, rfl, trivial⟩
        shape := Or.inl ⟨a, _, rfl, rfl, rfl⟩
        fds := by simp [entriesOf, Registry.placeholder] }

/-- A first node with a successor: the successor becomes first, and its own `prev`. -/
theorem delFd2client_first {x y : Addr × Fd2client} {ys : List (Addr × Fd2client)}
    (h : RegInv r (x :: y :: ys)) (hpos : ∀ c ∈ x :: y :: ys, 0 < c.2.fd)
    (hprev : x.2.prev = none) :
    ∃ r', r.delFd2client x.1 = some r' ∧
      RegInv r' ((y.1, (y.2.setTail (some y.1)).setPrev (some y.1)) :: ys) := by
  have hget : r.heap.get x.1 = some x.2 := h.owns.get_head
  have hhead : r.fd2clients = some x.1 := h.head
  have hnext : x.2.next = some y.1 := h.next.1
  have howns : Owns r.heap ([x] ++ (y.1, y.2) :: ys) := h.owns
  have howns₁ := howns.set_at (y.2.setTail (some y.1))
  have howns₂ := howns₁.set_at ((y.2.setTail (some y.1)).setPrev (some y.1))
  have hx := howns₂.get_head (a := x.1) (n := x.2)
  refine ⟨⟨((r.heap.set y.1 (y.2.setTail (some y.1))).set y.1
    ((y.2.setTail (some y.1)).setPrev (some y.1))).erase x.1, some y.1⟩, ?_, ?_⟩
  · simp only [Registry.delFd2client, hget, hprev, hhead, hnext, Option.bind_eq_bind,
      Option.bind_some, Heap.update_eq howns.get, Heap.update_eq howns₁.get, Heap.free_eq hx]
  · obtain ⟨p, -, hback⟩ := h.prev
    have hsub : ((((y.1, (y.2.setTail (some y.1)).setPrev (some y.1))) :: ys).map slotOf).Sublist
        ((x :: y :: ys).map slotOf) := List.sublist_cons_self _ _
    exact
      { owns := howns₂.erase_head
        head := rfl
        next := ⟨h.next.2.1, h.next.2.2⟩
        prev := ⟨some y.1, Or.inr rfl, rfl, hback.2.2⟩
        shape := Or.inr ⟨List.cons_ne_nil _ _, pos_of_slots hsub hpos⟩
        fds := h.fds_of_slots hsub }

/-- An inner node with a successor. -/
theorem delFd2client_inner {xs ys : List (Addr × Fd2client)} {b x y : Addr × Fd2client}
    (h : RegInv r (xs ++ b :: x :: y :: ys)) (hpos : ∀ c ∈ xs ++ b :: x :: y :: ys, 0 < c.2.fd) :
    ∃ r', r.delFd2client x.1 = some r' ∧
      RegInv r' (xs ++ (b.1, b.2.setNext (some y.1)) ::
        (y.1, y.2.setPrev (some b.1)) :: ys) := by
  have hlink := linkedTo_append.mp h.next
  have hnext : x.2.next = some y.1 := hlink.2.2.1
  obtain ⟨p, hp, hback⟩ := h.prev
  have hback := backLinked_append.mp hback
  have hprev : x.2.prev = some b.1 := hback.2.2.1
  have howns : Owns r.heap (xs ++ (b.1, b.2) :: x :: y :: ys) := h.owns
  have hget : r.heap.get x.1 = some x.2 := h.owns.holds x (by simp)
  have howns₁ := howns.set_at (b.2.setNext (some y.1))
  have hx₁ := howns₁.holds x (by simp)
  have howns₂ := howns₁.shift.shift.set_at (y.2.setPrev (some b.1))
  have hx₂ := howns₂.holds x (by simp)
  refine ⟨⟨((r.heap.set b.1 (b.2.setNext (some y.1))).set y.1
    (y.2.setPrev (some b.1))).erase x.1, r.fd2clients⟩, ?_, ?_⟩
  · simp only [Registry.delFd2client, hget, hprev, hnext, Option.bind_eq_bind,
      Option.bind_some, Heap.update_eq howns.get, hx₁, Heap.update_eq howns₁.shift.shift.get,
      Heap.free_eq hx₂]
  · have hsub : ((xs ++ (b.1, b.2.setNext (some y.1)) ::
        (y.1, y.2.setPrev (some b.1)) :: ys).map slotOf).Sublist
        ((xs ++ b :: x :: y :: ys).map slotOf) := by simp [slotOf]
    exact
      { owns := by
          rw [List.append_assoc (xs ++ _), List.singleton_append] at howns₂
          simpa using howns₂.erase_at (a := x.1) (n := x.2)
        head := by
          rw [h.head]
          cases xs <;> rfl
        next := linkedTo_append.mpr ⟨hlink.1, rfl, hlink.2.2.2⟩
        prev := by
          refine ⟨p, ?_, backLinked_append.mpr ⟨hback.1, hback.2.1, rfl, hback.2.2.2.2⟩⟩
          cases xs <;> exact hp
        shape := Or.inr ⟨by simp, pos_of_slots hsub hpos⟩
        fds := h.fds_of_slots hsub }

/-- The last of several nodes. -/
theorem delFd2client_last {xs : List (Addr × Fd2client)} {b x : Addr × Fd2client}
    (h : RegInv r (xs ++ [b, x])) (hpos : ∀ c ∈ xs ++ [b, x], 0 < c.2.fd) :
    ∃ r', r.delFd2client x.1 = some r' ∧
      RegInv r' (xs ++ [(b.1, b.2.setNext none)]) := by
  have hlink := linkedTo_append.mp h.next
  have hnext : x.2.next = none := hlink.2.2.1
  obtain ⟨p, hp, hback⟩ := h.prev
  have hback := backLinked_append.mp hback
  have hprev : x.2.prev = some b.1 := hback.2.2.1
  have howns : Owns r.heap (xs ++ (b.1, b.2) :: [x]) := h.owns
  have hget : r.heap.get x.1 = some x.2 := h.owns.holds x (by simp)
  have howns₁ := howns.set_at (b.2.setNext none)
  have hx₁ := howns₁.holds x (by simp)
  refine ⟨⟨(r.heap.set b.1 (b.2.setNext none)).erase x.1, r.fd2clients⟩, ?_, ?_⟩
  · simp only [Registry.delFd2client, hget, hprev, hnext, Option.bind_eq_bind,
      Option.bind_some, Heap.update_eq howns.get, Heap.free_eq hx₁]
  · have hsub : ((xs ++ [(b.1, b.2.setNext none)]).map slotOf).Sublist
        ((xs ++ [b, x]).map slotOf) := by simp [slotOf]
    exact
      { owns := by simpa using howns₁.shift.erase_at (a := x.1) (n := x.2)
        head := by
          rw [h.head]
          cases xs <;> rfl
        next := linkedTo_append.mpr ⟨hlink.1, rfl, trivial⟩
        prev := by
          refine ⟨p, ?_, backLinked_append.mpr ⟨hback.1, hback.2.1, trivial⟩⟩
          cases xs <;> exact hp
        shape := Or.inr ⟨by simp, pos_of_slots hsub hpos⟩
        fds := h.fds_of_slots hsub }

/-- A first node that has a `prev` is its own one. It is freed while `fd2clients` keeps its
address. -/
theorem delFd2client_dangling {x : Addr × Fd2client} {xs : List (Addr × Fd2client)}
    (h : RegInv r (x :: xs)) (hprev : x.2.prev ≠ none) {r' : Registry}
    (hdel : r.delFd2client x.1 = some r') : r'.Dangling := by
  have hget : r.heap.get x.1 = some x.2 := h.owns.get_head
  have hhead : r.fd2clients = some x.1 := h.head
  have hself : x.2.prev = some x.1 := by
    obtain ⟨p, hp, hback⟩ := h.prev
    rw [hback.1]
    exact hp.resolve_left fun hnone => hprev (hback.1.trans hnone)
  have hfreed : ∃ heap : Heap Fd2client, r' = ⟨heap.erase x.1, some x.1⟩ := by
    simp only [Registry.delFd2client, hget, hself, Option.bind_eq_bind, Option.bind_some] at hdel
    cases hnext : x.2.next with
    | none =>
        simp only [hnext, Heap.update_eq hget, Option.bind_some, Heap.free,
          Heap.get_set_self, Option.isSome_some, if_true, Option.some.injEq] at hdel
        exact ⟨_, by rw [← hdel, hhead]⟩
    | some y =>
        simp only [hnext, Heap.update_eq hget, Option.bind_some, Heap.get_set_self] at hdel
        obtain ⟨second, -, hdel⟩ := Option.bind_eq_some_iff.mp hdel
        obtain ⟨heap, -, hdel⟩ := Option.bind_eq_some_iff.mp hdel
        obtain ⟨heap', hfree, hdel⟩ := Option.bind_eq_some_iff.mp hdel
        rw [Heap.free] at hfree
        split at hfree
        · rw [← Option.some.inj hdel, hhead, ← Option.some.inj hfree]
          exact ⟨heap, rfl⟩
        · exact absurd hfree (by simp)
  obtain ⟨heap, rfl⟩ := hfreed
  exact ⟨x.1, rfl, Heap.get_erase_self heap x.1⟩

end Operations

/-! ### One call -/

/-- Deleting a cell takes its connection out of the list, and only that one. -/
theorem erase_entriesOf {xs ys : List (Addr × Fd2client)} {x : Addr × Fd2client}
    (hx : 0 < x.2.fd) (hnd : ((entriesOf (xs ++ x :: ys)).map Prod.fst).Nodup) :
    (entriesOf (xs ++ x :: ys)).erase (x.2.fd, x.2.client) = entriesOf xs ++ entriesOf ys := by
  have hne : x.2.fd ≠ 0 := by omega
  rw [entriesOf_append, entriesOf_cons, entryOf_of_ne hne, List.singleton_append] at hnd ⊢
  have hnot : (x.2.fd, x.2.client) ∉ entriesOf xs := by
    intro hmem
    have hfd : x.2.fd ∈ (entriesOf xs).map Prod.fst := List.mem_map_of_mem (f := Prod.fst) hmem
    simp only [List.map_append, List.map_cons, List.nodup_append] at hnd
    exact hnd.2.2 _ hfd _ (List.mem_cons_self ..) rfl
  rw [List.erase_append_right _ hnot, List.erase_cons_head]

section Calls

variable {r : Registry} {cells : List (Addr × Fd2client)} {fd : Int}

/-- **`add_fd2client`** with memory at hand registers the connection at the end. -/
theorem addFd2client_spec (client : Ptr) {mem : Addr} (h : RegInv r cells)
    (ha : r.heap.get mem = none) (hfd : 0 < fd) (hnew : fd ∉ (entriesOf cells).map Prod.fst) :
    ∃ r' cells', r.addFd2client fd client (some mem) = some (r', SUCCESSFUL) ∧
      RegInv r' cells' ∧ entriesOf cells' = entriesOf cells ++ [(fd, client)] := by
  have hne : fd ≠ 0 := by omega
  rcases h.shape with ⟨a, n, rfl, hn, hprev⟩ | ⟨hcells, hpos⟩
  · obtain ⟨r', hadd, hinv⟩ := addFd2client_placeholder client (some mem) h hn hprev hfd
    exact ⟨r', _, hadd, hinv, by simp [entriesOf_cons, entryOf, hn, hne]⟩
  · obtain ⟨xs, x, rfl⟩ := (List.eq_nil_or_concat cells).resolve_left hcells
    rw [List.concat_eq_append] at h hpos hnew ⊢
    obtain ⟨r', hadd, hinv⟩ := addFd2client_append client h hpos ha hfd hnew
    refine ⟨r', _, hadd, hinv, ?_⟩
    have hentry := entryOf_of_ne (n := ⟨fd, client, none, some x.1, x.2.tail⟩) hne
    simp [entriesOf_append, entriesOf_cons, hentry]

/-- Without memory `add_fd2client` either needs none (the placeholder) or fails. -/
theorem addFd2client_noMem (client : Ptr) (h : RegInv r cells) (hfd : 0 < fd) :
    (∃ r' cells', r.addFd2client fd client none = some (r', SUCCESSFUL) ∧
      RegInv r' cells' ∧ entriesOf cells' = entriesOf cells ++ [(fd, client)]) ∨
    r.addFd2client fd client none = some (r, FAIL) := by
  have hne : fd ≠ 0 := by omega
  rcases h.shape with ⟨a, n, rfl, hn, hprev⟩ | ⟨hcells, hpos⟩
  · obtain ⟨r', hadd, hinv⟩ :=
      addFd2client_placeholder client none h hn hprev hfd
    exact Or.inl ⟨r', _, hadd, hinv, by simp [entriesOf_cons, entryOf, hn, hne]⟩
  · obtain ⟨xs, x, rfl⟩ := (List.eq_nil_or_concat cells).resolve_left hcells
    rw [List.concat_eq_append] at h hpos
    exact Or.inr (addFd2client_branch client none h hpos)

/-- A node that is not the only one is unlinked, provided a first node has no `prev`. -/
theorem delFd2client_slots {xs ys : List (Addr × Fd2client)} {x : Addr × Fd2client}
    (h : RegInv r (xs ++ x :: ys)) (hpos : ∀ c ∈ xs ++ x :: ys, 0 < c.2.fd)
    (hfirst : xs = [] → x.2.prev = none) (hne : xs ++ ys ≠ []) :
    ∃ r' cells', r.delFd2client x.1 = some r' ∧ RegInv r' cells' ∧
      cells'.map slotOf = (xs ++ ys).map slotOf := by
  rcases List.eq_nil_or_concat xs with rfl | ⟨xs, b, rfl⟩
  · -- the first node
    cases ys with
    | nil => exact absurd rfl hne
    | cons y ys =>
        obtain ⟨r', hdel, hinv⟩ := delFd2client_first h hpos (hfirst rfl)
        exact ⟨r', _, hdel, hinv, rfl⟩
  · rw [List.concat_eq_append, List.append_assoc, List.singleton_append] at h hpos
    rw [List.concat_eq_append]
    cases ys with
    | nil =>
        obtain ⟨r', hdel, hinv⟩ := delFd2client_last h hpos
        exact ⟨r', _, hdel, hinv, by simp [slotOf]⟩
    | cons y ys =>
        obtain ⟨r', hdel, hinv⟩ := delFd2client_inner h hpos
        exact ⟨r', _, hdel, hinv, by simp [slotOf]⟩

/-- **`del_fd2client`** unregisters the node's connection, provided a first node
has no `prev`. -/
theorem delFd2client_spec {xs ys : List (Addr × Fd2client)} {x : Addr × Fd2client}
    (h : RegInv r (xs ++ x :: ys)) (hpos : ∀ c ∈ xs ++ x :: ys, 0 < c.2.fd)
    (hfirst : xs = [] → x.2.prev = none) :
    ∃ r' cells', r.delFd2client x.1 = some r' ∧ RegInv r' cells' ∧
      entriesOf cells' = entriesOf xs ++ entriesOf ys := by
  by_cases hne : xs ++ ys = []
  · obtain ⟨rfl, rfl⟩ := List.append_eq_nil_iff.mp hne
    obtain ⟨r', hdel, hinv⟩ := delFd2client_sole h (hfirst rfl)
    exact ⟨r', _, hdel, hinv, rfl⟩
  · obtain ⟨r', cells', hdel, hinv, hslots⟩ := delFd2client_slots h hpos hfirst hne
    exact ⟨r', cells', hdel, hinv, (entriesOf_congr hslots).trans (entriesOf_append xs ys)⟩

/-- A registered node is one of the cells, and none of them is the placeholder. -/
theorem RegInv.registered_cell {node : Addr} {n : Fd2client} (h : RegInv r cells)
    (hget : r.heap.get node = some n) (hmem : (n.fd, n.client) ∈ entriesOf cells) :
    (node, n) ∈ cells ∧ ∀ c ∈ cells, 0 < c.2.fd := by
  refine ⟨(h.owns.get_iff node n).mp hget, ?_⟩
  rcases h.shape with ⟨a, m, rfl, hm, -⟩ | ⟨-, hpos⟩
  · simp [entriesOf, hm] at hmem
  · exact hpos

end Calls

namespace RegState

variable {s s' : RegState}

/-- What a deletion step is: the node is allocated and registered. -/
theorem step_del {node : Addr} {r : Registry} (hr : s.reg = some r)
    (hs : s.step (.del node) = some s') :
    ∃ n, r.heap.get node = some n ∧ (n.fd, n.client) ∈ s.registered ∧
      s' = ⟨r.delFd2client node, s.registered.erase (n.fd, n.client)⟩ := by
  simp only [step, hr] at hs
  cases hget : r.heap.get node with
  | none => simp [hget] at hs
  | some n =>
      simp only [hget] at hs
      split at hs
      · rename_i hmem
        exact ⟨n, rfl, hmem, (Option.some.inj hs).symm⟩
      · exact absurd hs (by simp)

theorem Inv.add {fd : Int} {client : Addr} {mem : Ptr} (h : s.Inv)
    (hs : s.step (.add fd client mem) = some s') : s'.Inv := by
  obtain ⟨r, cells, hr, hinv, hreg⟩ := h
  simp only [step, hr] at hs
  split at hs
  · rename_i hguard
    obtain ⟨hfd, hnew, hfresh⟩ := hguard
    rw [hreg] at hnew hs
    have hadded : ∀ r' cells', r.addFd2client fd (some client) mem = some (r', SUCCESSFUL) →
        RegInv r' cells' → entriesOf cells' = entriesOf cells ++ [(fd, some client)] →
        s'.Inv := by
      intro r' cells' hadd hinv' hent
      simp only [hadd, if_true, Option.some.injEq] at hs
      exact ⟨r', cells', by rw [← hs], hinv', by rw [← hs, hent]⟩
    cases mem with
    | some a =>
        obtain ⟨r', cells', hadd, hinv', hent⟩ :=
          addFd2client_spec (some client) hinv hfresh hfd hnew
        exact hadded r' cells' hadd hinv' hent
    | none =>
        rcases addFd2client_noMem (some client) hinv hfd with
          ⟨r', cells', hadd, hinv', hent⟩ | hfail
        · exact hadded r' cells' hadd hinv' hent
        · simp only [hfail, show (FAIL = SUCCESSFUL) = False by decide, if_false,
            Option.some.injEq] at hs
          exact ⟨r, cells, by rw [← hs], hinv, by rw [← hs]⟩
  · exact absurd hs (by simp)

theorem Inv.del {node : Addr} (h : s.Inv) (hok : s.HeadOk (.del node))
    (hs : s.step (.del node) = some s') : s'.Inv := by
  obtain ⟨r, cells, hr, hinv, hreg⟩ := h
  obtain ⟨n, hget, hmem, rfl⟩ := step_del hr hs
  rw [hreg] at hmem
  obtain ⟨hcell, hpos⟩ := hinv.registered_cell hget hmem
  obtain ⟨xs, ys, rfl⟩ := List.append_of_mem hcell
  have hfirst : xs = [] → n.prev = none := by
    intro heq
    subst heq
    exact hok r n hr hinv.head hget
  obtain ⟨r', cells', hdel, hinv', hent⟩ := delFd2client_spec hinv hpos hfirst
  refine ⟨r', cells', hdel, hinv', ?_⟩
  rw [hreg, hent, erase_entriesOf (hpos (node, n) (by simp)) hinv.fds]

/-- An allowed call keeps the invariant. -/
theorem Inv.step (op : RegOp) (h : s.Inv) (hok : s.HeadOk op) (hs : s.step op = some s') :
    s'.Inv := by
  cases op with
  | add fd client mem => exact h.add hs
  | del node => exact h.del hok hs

/-- A call that is not allowed leaves a freed node behind `fd2clients`. -/
theorem Inv.bad (op : RegOp) (h : s.Inv) (hok : ¬ s.HeadOk op) (hs : s.step op = some s') :
    ¬ s'.Refines := by
  obtain ⟨r, cells, hr, hinv, hreg⟩ := h
  cases op with
  | add fd client mem => exact absurd trivial hok
  | del node =>
      simp only [HeadOk, not_forall] at hok
      obtain ⟨r₁, n, hr₁, hhead, hget, hprev⟩ := hok
      obtain rfl : r = r₁ := Option.some.inj (hr.symm.trans hr₁)
      obtain ⟨m, -, -, rfl⟩ := step_del hr hs
      intro h
      obtain ⟨r', hdel, hent, -⟩ := h
      have hcell := (hinv.owns.get_iff node n).mp hget
      rw [hinv.head] at hhead
      cases cells with
      | nil => simp at hcell
      | cons c cs =>
          rw [headOr_cons] at hhead
          obtain rfl : c.1 = node := Option.some.inj hhead
          obtain rfl : c.2 = n := by
            have := hinv.owns.holds c (List.mem_cons_self ..)
            exact Option.some.inj (this.symm.trans hget)
          rw [(delFd2client_dangling hinv hprev hdel).entries] at hent
          exact absurd hent (by simp)

end RegState

/-! ### The refinement, exactly -/

/-- **The registry refines the list of connections exactly while no first node is
deleted that became first through such a deletion.** For every sequence of calls,
the nodes reached from `fd2clients` are live and are the connections added and
not yet deleted, in order, and both lookups find exactly these, in every state
the sequence passes through, if and only if each deletion of a first node finds
its `prev` to be `NULL`. -/
theorem registry_refines_iff (a : Addr) (ops : List RegOp) {t : RegState}
    (hrun : exec RegState.step (RegState.init a) ops = some t) :
    Along RegState.step RegState.Refines (RegState.init a) ops ↔
      AllSteps RegState.step RegState.HeadOk (RegState.init a) ops :=
  along_iff_allSteps (fun _ h => h.refines) (fun _ op _ h hok hs => h.step op hok hs)
    (fun _ op _ h hok hs => h.bad op hok hs) (initFd2client_inv a) hrun

/-- Three connections, of which the first and the last are closed. -/
theorem registry_refines_iff_three :
    exec RegState.step (RegState.init 10)
        [.add 5 1 none, .add 6 2 (some 11), .add 7 3 (some 12), .del 10, .del 12] =
      some ⟨some ⟨[(11, ⟨6, some 2, none, some 11, some 11⟩)], some 11⟩, [(6, some 2)]⟩ ∧
    (Along RegState.step RegState.Refines (RegState.init 10)
        [.add 5 1 none, .add 6 2 (some 11), .add 7 3 (some 12), .del 10, .del 12] ↔
      AllSteps RegState.step RegState.HeadOk (RegState.init 10)
        [.add 5 1 none, .add 6 2 (some 11), .add 7 3 (some 12), .del 10, .del 12]) :=
  ⟨by decide, registry_refines_iff 10 _ (by decide :
    exec RegState.step (RegState.init 10)
        [.add 5 1 none, .add 6 2 (some 11), .add 7 3 (some 12), .del 10, .del 12] =
      some ⟨some ⟨[(11, ⟨6, some 2, none, some 11, some 11⟩)], some 11⟩, [(6, some 2)]⟩)⟩

/-- Three connections whose first one is closed twice in a row: the second close
frees the node that `fd2clients` points to. -/
theorem registry_first_closed_twice :
    ¬ ∀ (a : Addr) (ops : List RegOp) (t : RegState),
      exec RegState.step (RegState.init a) ops = some t →
        Along RegState.step RegState.Refines (RegState.init a) ops := by
  intro h
  have hrun : exec RegState.step (RegState.init 10)
      [.add 5 1 none, .add 6 2 (some 11), .add 7 3 (some 12), .del 10, .del 11] =
        some ⟨some ⟨[(12, ⟨7, some 3, none, some 11, some 10⟩)], some 11⟩, [(7, some 3)]⟩ := by
    decide
  obtain ⟨r, hr, hent, -⟩ := (h _ _ _ hrun).last hrun
  obtain rfl := Option.some.inj hr
  exact absurd hent (by decide)

end SpiderChat
