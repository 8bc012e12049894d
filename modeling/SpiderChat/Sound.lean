import SpiderChat.Server

/-!
# SpiderChat.Sound

**The clients in every run.** `Linked` of `SpiderChat.Sessions` is kept as long as the
registry's first node is not deleted while it is its own `prev`. When that happens the
registry is `Dangling`: `fd2clients` points to freed memory, and no walk of the registry
is defined from then on. So every state that a run reaches is `Sound`: it is one or the
other, without a condition on the run. What the operations do to the uids of the clients
is said here as well, in terms of `uidOf`.
-/

namespace SpiderChat

open Lib

namespace Registry

/-- A node that is for no descriptor has no client. -/
def NoClient (n : Fd2client) : Prop := n.fd = 0 → n.client = none

variable {r r' : Registry}

theorem Dangling.search {r : Registry} (h : r.Dangling) {test : Fd2client → Option Bool}
    {fuel : Nat} : search Fd2client.next test r.heap fuel r.fd2clients = none := by
  obtain ⟨a, ha, hget⟩ := h
  rw [ha]
  exact search_dangling hget

theorem Dangling.addFd2client (h : r.Dangling) (fd : Int) (client mem : Ptr) :
    r.addFd2client fd client mem = none := by
  obtain ⟨a, ha, hget⟩ := h
  simp [Registry.addFd2client, ha, hget]

theorem Dangling.delFd2client (h : r.Dangling) {fd2 : Addr} (hdel : r.delFd2client fd2 = some r') :
    r'.Dangling := by
  obtain ⟨a, ha, hget⟩ := h
  unfold Registry.delFd2client at hdel
  obtain ⟨node, hnode, hdel⟩ := Option.bind_eq_some_iff.mp hdel
  split at hdel
  · simp [ha, hget] at hdel
  · split at hdel
    · simp only [Option.bind_eq_bind, Option.bind_eq_some_iff] at hdel
      obtain ⟨heap, hheap, node', -, next, -, heap', hheap', heap'', hfree, hdel⟩ := hdel
      obtain rfl := Option.some.inj hdel
      refine ⟨a, ha, ?_⟩
      rw [Heap.get_free hfree]
      split
      · rfl
      · exact (Heap.get_update_eq_none hheap' a).mpr ((Heap.get_update_eq_none hheap a).mpr hget)
    · simp only [Option.bind_eq_bind, Option.bind_eq_some_iff] at hdel
      obtain ⟨heap, hheap, heap', hfree, hdel⟩ := hdel
      obtain rfl := Option.some.inj hdel
      refine ⟨a, ha, ?_⟩
      rw [Heap.get_free hfree]
      split
      · rfl
      · exact (Heap.get_update_eq_none hheap a).mpr hget

theorem noClient_setNext {n : Fd2client} (p : Ptr) (h : NoClient n) : NoClient (n.setNext p) := h

theorem noClient_setPrev {n : Fd2client} (p : Ptr) (h : NoClient n) : NoClient (n.setPrev p) := h

theorem noClient_setTail {n : Fd2client} (p : Ptr) (h : NoClient n) : NoClient (n.setTail p) := h

theorem noClient_addFd2client {fd : Int} {client mem : Ptr} {ret : Int32}
    (h : r.heap.Each NoClient) (hfd : 0 < fd)
    (hadd : r.addFd2client fd client mem = some (r', ret)) : r'.heap.Each NoClient := by
  have hnew : ∀ next prev tail, NoClient ⟨fd, client, next, prev, tail⟩ :=
    fun _ _ _ hzero => absurd hzero (Int.ne_of_gt hfd)
  unfold Registry.addFd2client at hadd
  split at hadd
  · cases hadd
    exact h
  · obtain ⟨first, -, hadd⟩ := Option.bind_eq_some_iff.mp hadd
    split at hadd
    · obtain ⟨heap, hheap, hadd⟩ := Option.bind_eq_some_iff.mp hadd
      cases hadd
      exact h.update (fun _ _ => hnew _ _ _) hheap
    · simp only [Option.bind_eq_bind, Option.bind_eq_some_iff] at hadd
      obtain ⟨last, -, tmp, -, node, -, hadd⟩ := hadd
      cases mem with
      | none =>
          cases hadd
          exact h
      | some a =>
          obtain ⟨heap, hheap, hadd⟩ := Option.bind_eq_some_iff.mp hadd
          cases hadd
          exact (h.set a (hnew _ _ _)).update (fun n hn => noClient_setNext _ hn) hheap

theorem noClient_delFd2client {fd2 : Addr} (h : r.heap.Each NoClient)
    (hdel : r.delFd2client fd2 = some r') : r'.heap.Each NoClient := by
  unfold Registry.delFd2client at hdel
  obtain ⟨node, -, hdel⟩ := Option.bind_eq_some_iff.mp hdel
  split at hdel
  · simp only [Option.bind_eq_bind, Option.bind_eq_some_iff] at hdel
    obtain ⟨tmp, -, first, -, hdel⟩ := hdel
    split at hdel
    · simp only [Option.bind_eq_some_iff] at hdel
      obtain ⟨heap, hheap, heap', hheap', heap'', hfree, hdel⟩ := hdel
      obtain rfl := Option.some.inj hdel
      exact ((h.update (fun _ hn => noClient_setTail _ hn) hheap).update
        (fun _ hn => noClient_setPrev _ hn) hheap').free hfree
    · obtain ⟨heap, hheap, hdel⟩ := Option.bind_eq_some_iff.mp hdel
      obtain rfl := Option.some.inj hdel
      exact h.update (fun _ _ _ => rfl) hheap
  · split at hdel
    · simp only [Option.bind_eq_bind, Option.bind_eq_some_iff] at hdel
      obtain ⟨heap, hheap, node', -, next, -, heap', hheap', heap'', hfree, hdel⟩ := hdel
      obtain rfl := Option.some.inj hdel
      exact ((h.update (fun _ hn => noClient_setNext _ hn) hheap).update
        (fun _ hn => noClient_setPrev _ hn) hheap').free hfree
    · simp only [Option.bind_eq_bind, Option.bind_eq_some_iff] at hdel
      obtain ⟨heap, hheap, heap', hfree, hdel⟩ := hdel
      obtain rfl := Option.some.inj hdel
      exact (h.update (fun _ hn => noClient_setNext _ hn) hheap).free hfree

end Registry

namespace Sessions

/-- `client->fd`, for a client that has not been freed. -/
def fdOf (s : Sessions) (client : Addr) : Option Int := (s.clients.get client).map SpiderClient.fd

theorem uidOf_some (s : Sessions) (client : Addr) :
    s.uidOf (some client) = (s.clients.get client).map SpiderClient.uid := rfl

/-- The registry lists the connections of `cells`, and every client has the descriptor
that it is registered for. -/
structure Lists (s : Sessions) (cells : List (Addr × Fd2client)) : Prop where
  linked : s.Linked cells
  fdOf_eq : ∀ fd c, (fd, some c) ∈ entriesOf cells → s.fdOf c = some fd
  noClient : s.reg.heap.Each Registry.NoClient

theorem noClient_init (a : Addr) : (init a).reg.heap.Each Registry.NoClient :=
  Heap.Each.set (fun _ _ hget => nomatch hget) a fun _ => rfl

/-- The registry is a list, or its first node is freed. -/
inductive Sound (s : Sessions) : Prop
  | lists (cells : List (Addr × Fd2client)) (h : s.Lists cells)
  | dangling (h : s.reg.Dangling)

/-- Clients have been freed, and nothing else has become of them. -/
def Shrinks (s s' : Sessions) : Prop :=
  s'.accepted = s.accepted ∧ ∀ c, s'.clients.get c = none ∨ s'.clients.get c = s.clients.get c

theorem Shrinks.refl (s : Sessions) : s.Shrinks s := ⟨rfl, fun _ => .inr rfl⟩

theorem Shrinks.trans {s₁ s₂ s₃ : Sessions} (h : s₁.Shrinks s₂) (h' : s₂.Shrinks s₃) :
    s₁.Shrinks s₃ := by
  refine ⟨h'.1.trans h.1, fun c => ?_⟩
  rcases h'.2 c with hnone | heq
  · exact .inl hnone
  · rw [heq]
    exact h.2 c

variable {s s' : Sessions} {cells : List (Addr × Fd2client)}

theorem Shrinks.uidOf (h : s.Shrinks s') {c : Addr} {u : Int64}
    (hu : s'.uidOf (some c) = some u) : s.uidOf (some c) = some u := by
  rw [uidOf_some] at hu ⊢
  rcases h.2 c with hnone | heq
  · rw [hnone] at hu
    cases hu
  · rw [← heq, hu]

/-- A client that is registered has not been freed. -/
theorem Lists.get_ne_none (h : s.Lists cells) {fd : Int} {c : Addr}
    (hmem : (fd, some c) ∈ entriesOf cells) : s.clients.get c ≠ none := by
  obtain ⟨c', hc', -, hlive⟩ := h.linked.entry fd _ hmem
  obtain rfl := Option.some.inj hc'
  exact hlive

theorem Lists.uidOf_ne_none (h : s.Lists cells) {fd : Int} {c : Addr}
    (hmem : (fd, some c) ∈ entriesOf cells) : s.uidOf (some c) ≠ none := by
  rw [uidOf_some]
  simpa using h.get_ne_none hmem

/-- A client that is found by its uid is registered. -/
theorem Lists.mem_of_findClientByUid (h : s.Lists cells) {uid : Int64} {c : Addr}
    (hfind : s.findClientByUid uid = some (some c)) : ∃ fd, (fd, some c) ∈ entriesOf cells := by
  simp only [findClientByUid, Registry.findClientByUid, Option.bind_eq_bind,
    Option.bind_eq_some_iff] at hfind
  obtain ⟨found, hfound, hfind⟩ := hfind
  cases found with
  | none => cases hfind
  | some a =>
      obtain ⟨n, hget, -⟩ := search_eq_some hfound
      simp only [hget, Option.map_some, Option.some.injEq] at hfind
      have hcell := (h.linked.reg.owns.get_iff a n).mp hget
      -- the placeholder has no client
      have hne : n.fd ≠ 0 := by
        intro hzero
        rw [h.noClient a n hget hzero] at hfind
        cases hfind
      exact ⟨n.fd, List.mem_map.mpr ⟨(a, n), List.mem_filter.mpr ⟨hcell, by simpa using hne⟩,
        by rw [hfind]⟩⟩

/-- **`findClientByUid`** goes through the connections in their order. -/
theorem Lists.findClientByUid_eq (h : s.Lists cells) (hpos : ∀ y ∈ cells, 0 < y.2.fd)
    (uid : Int64) : s.findClientByUid uid =
      some ((cells.find? fun y => decide (s.uidOf y.2.client = some uid)).bind
        fun y => y.2.client) := by
  have htest : ∀ y ∈ cells, ((s.uidOf y.2.client).map fun v => decide (uid = v)) =
      some (decide (s.uidOf y.2.client = some uid)) := by
    intro y hy
    have hentry : (y.2.fd, y.2.client) ∈ entriesOf cells := by
      rw [entriesOf_of_pos hpos]
      exact List.mem_map.mpr ⟨y, hy, rfl⟩
    obtain ⟨c, hc, -, hlive⟩ := h.linked.entry _ _ hentry
    obtain ⟨cl, hcl⟩ := Option.ne_none_iff_exists'.mp hlive
    rw [hc, uidOf_some, hcl]
    simp [eq_comm]
  rw [findClientByUid, Registry.findClientByUid,
    h.linked.reg.search_eq (p := fun n => decide (s.uidOf n.client = some uid)) htest]
  cases hfind : cells.find? fun y => decide (s.uidOf y.2.client = some uid) with
  | none => rfl
  | some y => simp [h.linked.reg.owns.holds y (List.mem_of_find?_eq_some hfind)]

/-- With a connection, the registry is not the placeholder: every node is for one. -/
theorem Lists.pos_of_mem (h : s.Lists cells) {e : Int × Ptr} (he : e ∈ entriesOf cells) :
    ∀ y ∈ cells, 0 < y.2.fd := by
  obtain ⟨x, hx, -⟩ := List.mem_map.mp he
  obtain ⟨hxmem, hxfd⟩ := List.mem_filter.mp hx
  rcases h.linked.reg.shape with ⟨a, n, rfl, hn, -⟩ | ⟨-, hpos⟩
  · obtain rfl := List.mem_singleton.mp hxmem
    simp [hn] at hxfd
  · exact hpos

/-- A registered client that has the uid is found, or another one. -/
theorem Lists.findClientByUid_ne_none (h : s.Lists cells) {e : Int × Ptr}
    (he : e ∈ entriesOf cells) {u : Int64} (hu : s.uidOf e.2 = some u) :
    s.findClientByUid u ≠ some none := by
  have hpos := h.pos_of_mem he
  rw [entriesOf_of_pos hpos] at he
  obtain ⟨x, hx, rfl⟩ := List.mem_map.mp he
  rw [h.findClientByUid_eq hpos, ne_eq, Option.some.injEq, Option.bind_eq_none_iff]
  intro hnone
  cases hfind : cells.find? fun y => decide (s.uidOf y.2.client = some u) with
  | none =>
      have hnot := List.find?_eq_none.mp hfind x hx
      exact hnot (decide_eq_true hu)
  | some y =>
      have hyu : s.uidOf y.2.client = some u := by simpa using List.find?_some hfind
      rw [hnone y hfind] at hyu
      cases hyu

/-- A registered client is found by its uid when no other registered client has it. -/
theorem Lists.findClientByUid_of_unique (h : s.Lists cells) {fd : Int} {c : Addr} {u : Int64}
    (hmem : (fd, some c) ∈ entriesOf cells) (hu : s.uidOf (some c) = some u)
    (hunique : ∀ e ∈ entriesOf cells, s.uidOf e.2 = some u → e.2 = some c) :
    s.findClientByUid u = some (some c) := by
  have hne := h.findClientByUid_ne_none hmem hu
  rw [h.findClientByUid_eq (h.pos_of_mem hmem)] at hne ⊢
  cases hfind : (cells.find? fun y => decide (s.uidOf y.2.client = some u)) with
  | none =>
      rw [hfind] at hne
      exact absurd rfl hne
  | some y =>
      have hyu : s.uidOf y.2.client = some u := by simpa using List.find?_some hfind
      refine congrArg some (hunique (y.2.fd, y.2.client) ?_ hyu)
      rw [entriesOf_of_pos (h.pos_of_mem hmem)]
      exact List.mem_map.mpr ⟨y, List.mem_of_find?_eq_some hfind, rfl⟩

theorem findClientByUid_of_dangling (h : s.reg.Dangling) (uid : Int64) :
    s.findClientByUid uid = none := by
  rw [findClientByUid, Registry.findClientByUid, h.search]
  rfl

/-- Fewer connections, whose clients are as before. -/
theorem Lists.of_shrinks (h : s.Lists cells) {cells' : List (Addr × Fd2client)}
    (hlinked : s'.Linked cells') (hsub : ∀ e ∈ entriesOf cells', e ∈ entriesOf cells)
    (hshrinks : s.Shrinks s') (hnull : s'.reg.heap.Each Registry.NoClient) : s'.Lists cells' := by
  refine ⟨hlinked, fun fd c hmem => ?_, hnull⟩
  obtain ⟨c', hc', -, hlive⟩ := hlinked.entry fd _ hmem
  obtain rfl := Option.some.inj hc'
  have hfd := h.fdOf_eq fd c (hsub _ hmem)
  rw [fdOf] at hfd ⊢
  rw [(hshrinks.2 c).resolve_left hlive, hfd]

theorem release_shrinks {fd2 : Addr} {fd : Int} (hs : s.release fd2 fd = some s') :
    s.Shrinks s' := by
  obtain ⟨node, client, -, -, hclients⟩ := release_clients hs
  have haccepted : s'.accepted = s.accepted := by
    simp only [release, Option.bind_eq_bind, Option.bind_eq_some_iff] at hs
    obtain ⟨_, _, _, _, _, _, _, _, hs⟩ := hs
    rw [← Option.some.inj hs]
    rfl
  refine ⟨haccepted, fun c => ?_⟩
  rw [hclients]
  by_cases hc : c = client
  · exact .inl (hc ▸ Heap.get_erase_self _ _)
  · exact .inr (Heap.get_erase_ne hc)

/-- The registry after a connection has been closed. -/
theorem release_reg {fd2 : Addr} {fd : Int} (hs : s.release fd2 fd = some s') :
    s.reg.delFd2client fd2 = some s'.reg := by
  simp only [release, Option.bind_eq_bind, Option.bind_eq_some_iff] at hs
  obtain ⟨_, _, _, _, _, _, reg, hreg, hs⟩ := hs
  rw [hreg, ← Option.some.inj hs]
  rfl

/-- A first node that is deleted while it is its own `prev`. -/
theorem Linked.dangling (h : s.Linked cells) {fd2 : Addr} {fd : Int} (hok : ¬ s.DelOk fd2)
    (hs : s.release fd2 fd = some s') : s'.reg.Dangling := by
  have hreg := h.reg
  simp only [DelOk, not_forall] at hok
  obtain ⟨hhead, node, hget, hprev⟩ := hok
  have hcell := (hreg.owns.get_iff fd2 node).mp hget
  rw [hreg.head] at hhead
  cases cells with
  | nil => cases hcell
  | cons c cs =>
      obtain rfl : c.1 = fd2 := Option.some.inj hhead
      obtain rfl : c.2 = node := Option.some.inj (hreg.owns.get_head.symm.trans hget)
      exact delFd2client_dangling hreg hprev (release_reg hs)

/-- **Closing a connection** takes its entry out, or leaves the registry dangling. -/
theorem Lists.release (h : s.Lists cells) {fd2 : Addr} {node : Fd2client} {fd : Int}
    (hget : s.reg.heap.get fd2 = some node) (hfd : node.fd = fd) (hne : fd ≠ 0)
    (hs : s.release fd2 fd = some s') :
    (∃ client cells', node.client = some client ∧ (fd, some client) ∈ entriesOf cells ∧
      s'.Lists cells' ∧ entriesOf cells' = (entriesOf cells).erase (fd, some client)) ∨
    s'.reg.Dangling := by
  by_cases hok : s.DelOk fd2
  · obtain ⟨client, cells', hclient, hmem, hlinked, hentries, -⟩ :=
      h.linked.release hget hfd hne hok hs
    refine .inl ⟨client, cells', hclient, hmem, ?_, hentries⟩
    refine h.of_shrinks hlinked (fun e he => ?_) (release_shrinks hs)
      (Registry.noClient_delFd2client h.noClient (release_reg hs))
    exact List.mem_of_mem_erase (hentries ▸ he)
  · exact .inr (h.linked.dangling hok hs)

/-- Some connections have been closed. -/
def Closes (s : Sessions) (cells : List (Addr × Fd2client)) (s' : Sessions) : Prop :=
  s.Shrinks s' ∧ ((∃ cells', s'.Lists cells' ∧ (entriesOf cells').Sublist (entriesOf cells)) ∨
    s'.reg.Dangling)

theorem Lists.closes_refl (h : s.Lists cells) : s.Closes cells s :=
  ⟨.refl s, .inl ⟨cells, h, .refl _⟩⟩

theorem Lists.closes_release (h : s.Lists cells) {fd2 : Addr} {node : Fd2client} {fd : Int}
    (hget : s.reg.heap.get fd2 = some node) (hfd : node.fd = fd) (hne : fd ≠ 0)
    (hs : s.release fd2 fd = some s') : s.Closes cells s' := by
  refine ⟨release_shrinks hs, ?_⟩
  rcases h.release hget hfd hne hs with ⟨client, cells', -, -, hlists, hentries⟩ | hdangling
  · exact .inl ⟨cells', hlists, hentries ▸ List.erase_sublist⟩
  · exact .inr hdangling

/-- **`close_client`.** -/
theorem Lists.closeClient (h : s.Lists cells) {fd : Int} (hpos : 0 < fd)
    (hs : s.closeClient fd = some s') : s.Closes cells s' := by
  simp only [Sessions.closeClient, Option.bind_eq_bind, Option.bind_eq_some_iff] at hs
  obtain ⟨temp, hfind, hs⟩ := hs
  cases temp with
  | none => exact Option.some.inj hs ▸ h.closes_refl
  | some fd2 =>
      obtain ⟨node, hget, htest⟩ := search_eq_some hfind
      have hfd : fd = node.fd := by simpa using htest
      exact h.closes_release hget hfd.symm (by omega) hs

/-- A descriptor that is not registered is closed. -/
theorem Lists.close_unregistered (h : s.Lists cells) {fd : Int}
    (hfd : ∀ p, (fd, p) ∉ entriesOf cells) : s.Closes cells (s.close fd) :=
  ⟨⟨rfl, fun _ => .inr rfl⟩, .inl ⟨cells,
    ⟨h.linked.close_unregistered hfd, h.fdOf_eq, h.noClient⟩, .refl _⟩⟩

/-- **A round of `serv_heartbeat`.** -/
theorem Lists.sweep (h : s.Lists cells) {mytimestamp : Int64} (hs : s.sweep mytimestamp = some s') :
    s.Closes cells s' := by
  have hclose : ∀ m fd2 node m', s.Closes cells m → True → m.reg.heap.get fd2 = some node →
      node.fd ≠ 0 → m.release fd2 node.fd = some m' → s.Closes cells m' := by
    intro m fd2 node m' hm _ hget hne hrelease
    obtain ⟨hshrinks, ⟨cells', hlists, hsub⟩ | hdangling⟩ := hm
    · obtain ⟨hshrinks', ⟨cells'', hlists', hsub'⟩ | hdangling'⟩ :=
        hlists.closes_release hget rfl hne hrelease
      · exact ⟨hshrinks.trans hshrinks', .inl ⟨cells'', hlists', hsub'.trans hsub⟩⟩
      · exact ⟨hshrinks.trans hshrinks', .inr hdangling'⟩
    · exact ⟨hshrinks.trans (release_shrinks hrelease),
        .inr (hdangling.delFd2client (release_reg hrelease))⟩
  exact sweepFrom_induction hclose h.closes_refl (fun _ _ => trivial) hs

/-- **`accept`.** -/
theorem Lists.accept (h : s.Lists cells) {fd : Int} {now : Int64} {mem : Ptr}
    (hs : s.accept fd now mem = some s') :
    ∃ cells', s'.Lists cells' ∧ s'.accepted = s.accepted + 1 ∧
      (entriesOf cells' = entriesOf cells ∨
        entriesOf cells' = entriesOf cells ++ [(fd, some s.accepted)]) ∧
      ∀ c, s'.uidOf (some c) = if c = s.accepted then some 0 else s.uidOf (some c) := by
  obtain ⟨cells', hlinked, hentries, -, -⟩ := h.linked.accept hs
  rw [Sessions.accept] at hs
  split at hs
  · rename_i hguard
    obtain ⟨⟨reg, ret⟩, hadd, rfl⟩ := Option.map_eq_some_iff.mp hs
    have hfdOf : ∀ c, fdOf ⟨reg, s.clients.set s.accepted (newClient fd now),
        Function.update s.owner fd (some s.accepted), s.accepted + 1⟩ c =
        if c = s.accepted then some fd else s.fdOf c := by
      intro c
      rw [fdOf, fdOf, Heap.get_set]
      split <;> rfl
    refine ⟨cells', ⟨hlinked, fun fd' c hmem => ?_,
      Registry.noClient_addFd2client h.noClient hguard.1 hadd⟩, rfl, hentries, fun c => ?_⟩
    · rw [hfdOf]
      -- a connection from before has a smaller number
      have hold : (fd', some c) ∈ entriesOf cells → c ≠ s.accepted := fun hmem' =>
        Nat.ne_of_lt (h.linked.owner_lt fd' c (h.linked.owner_of_mem hmem'))
      rcases hentries with heq | heq
      · rw [heq] at hmem
        rw [if_neg (hold hmem), h.fdOf_eq fd' c hmem]
      · rw [heq] at hmem
        rcases List.mem_append.mp hmem with hmem | hmem
        · rw [if_neg (hold hmem), h.fdOf_eq fd' c hmem]
        · obtain ⟨rfl, hc⟩ := Prod.mk.inj (List.mem_singleton.mp hmem)
          rw [if_pos (Option.some.inj hc)]
    · rw [uidOf_some, uidOf_some, Heap.get_set]
      split <;> rfl
  · cases hs

/-! ### The calls of a handler -/

theorem get_write (s : Sessions) (a c : Addr) (f : SpiderClient → SpiderClient) :
    (s.write a f).clients.get c = if c = a then (s.clients.get a).map f else s.clients.get c := by
  simp only [write, Heap.update]
  cases hget : s.clients.get a with
  | none =>
      split
      · rename_i heq
        rw [heq]
        exact hget
      · rfl
  | some old =>
      simp only [Option.map_some, Option.getD_some, Heap.get_set]

/-- Reading a client that has not been freed. -/
theorem respond_readClient {a : Addr} {client : SpiderClient} (hlive : s.clients.get a ≠ none)
    (h : s.respond ⟨.readClient a, client⟩ = some s') :
    s' = s ∧ s.clients.get a = some client := by
  simp only [respond] at h
  split at h
  · rename_i hread
    exact ⟨(Option.some.inj h).symm, hread.resolve_left hlive⟩
  · cases h

theorem respond_findClientByUid {uid : Int64} {p : Ptr}
    (h : s.respond ⟨.findClientByUid uid, p⟩ = some s') :
    s' = s ∧ s.findClientByUid uid = some p := by
  simp only [respond] at h
  split at h
  · rename_i hfind
    exact ⟨(Option.some.inj h).symm, hfind⟩
  · cases h

/-- A write that leaves a field alone. -/
theorem map_get_write {β : Type} {f : SpiderClient → SpiderClient} {g : SpiderClient → β}
    (hfg : ∀ cl, g (f cl) = g cl) (s : Sessions) (a c : Addr) :
    ((s.write a f).clients.get c).map g = (s.clients.get c).map g := by
  rw [get_write]
  split
  · rename_i heq
    rw [heq, Option.map_map]
    congr 1
    exact funext hfg
  · rfl

/-- **What a call does to the clients**: nothing, or it writes to one of them. The `fd` is
never written, and the `uid` by a login alone. -/
theorem respond_writes {e : HandlerEvent} (he : e.1.isClose = false) (h : s.respond e = some s') :
    s' = s ∨ ∃ a f, s' = s.write a f ∧ (∀ cl, SpiderClient.fd (f cl) = cl.fd) ∧
      (e.1.isLogin = false → ∀ cl, SpiderClient.uid (f cl) = cl.uid) := by
  obtain ⟨call, r⟩ := e
  cases call with
  | readClient a =>
      simp only [respond] at h
      split at h
      · exact .inl (Option.some.inj h).symm
      · cases h
  | findClientByUid uid =>
      simp only [respond] at h
      split at h
      · exact .inl (Option.some.inj h).symm
      · cases h
  | setVersion a app_version =>
      exact .inr ⟨a, _, (Option.some.inj h).symm, fun _ => rfl, fun _ _ => rfl⟩
  | setLogin a uid gmid gameid =>
      refine .inr ⟨a, _, (Option.some.inj h).symm, fun _ => rfl, fun hlogin => ?_⟩
      cases hlogin
  | setKeepalive a keepalivetime =>
      exact .inr ⟨a, _, (Option.some.inj h).symm, fun _ => rfl, fun _ _ => rfl⟩
  | closeClient fd => cases he
  | _ => exact .inl (Option.some.inj h).symm

theorem fdOf_respond {e : HandlerEvent} (he : e.1.isClose = false) (h : s.respond e = some s')
    (c : Addr) : s'.fdOf c = s.fdOf c := by
  rcases respond_writes he h with rfl | ⟨a, f, rfl, hfd, -⟩
  · rfl
  · exact map_get_write hfd s a c

theorem uidOf_respond {e : HandlerEvent} (he : e.1.isClose = false) (hlogin : e.1.isLogin = false)
    (h : s.respond e = some s') (c : Addr) : s'.uidOf (some c) = s.uidOf (some c) := by
  rcases respond_writes he h with rfl | ⟨a, f, rfl, -, huid⟩
  · rfl
  · exact map_get_write (huid hlogin) s a c

/-- A login sets the uid of its client, if that has not been freed. -/
theorem uidOf_respond_setLogin {a : Addr} {uid gmid : Int64} {gameid : Int32} {r : Unit}
    (h : s.respond ⟨.setLogin a uid gmid gameid, r⟩ = some s') (c : Addr) :
    s'.uidOf (some c) =
      if c = a then (s.uidOf (some a)).map fun _ => uid else s.uidOf (some c) := by
  obtain rfl := Option.some.inj h
  rw [uidOf_some, uidOf_some, uidOf_some, get_write]
  split
  · rw [Option.map_map, Option.map_map]
    rfl
  · rfl

theorem exec_fdOf {es : List HandlerEvent} (hes : ∀ e ∈ es, e.1.isClose = false) (c : Addr) :
    ∀ {s s' : Sessions}, exec respond s es = some s' → s'.fdOf c = s.fdOf c := by
  induction es with
  | nil =>
      intro s s' h
      exact Option.some.inj h ▸ rfl
  | cons e es ih =>
      intro s s' h
      obtain ⟨m, hm, h'⟩ := exec_cons.mp h
      obtain ⟨he, hes'⟩ := List.forall_mem_cons.mp hes
      exact (ih hes' h').trans (fdOf_respond he hm c)

/-- The uid of a client, while calls are made that do not log it in. -/
theorem exec_uidOf {es : List HandlerEvent} (hes : ∀ e ∈ es, e.1.isClose = false) {c : Addr}
    (hlogin : ∀ e ∈ es, e.1.logsIn c = false) :
    ∀ {s s' : Sessions}, exec respond s es = some s' → s'.uidOf (some c) = s.uidOf (some c) := by
  induction es with
  | nil =>
      intro s s' h
      exact Option.some.inj h ▸ rfl
  | cons e es ih =>
      intro s s' h
      obtain ⟨m, hm, h'⟩ := exec_cons.mp h
      obtain ⟨he, hes'⟩ := List.forall_mem_cons.mp hes
      obtain ⟨hl, hlogin'⟩ := List.forall_mem_cons.mp hlogin
      refine (ih hes' hlogin' h').trans ?_
      obtain ⟨call, r⟩ := e
      cases call with
      | setLogin a uid gmid gameid =>
          have hne : c ≠ a := Ne.symm (beq_eq_false_iff_ne.mp hl)
          rw [uidOf_respond_setLogin hm, if_neg hne]
      | _ => exact uidOf_respond he rfl hm c

/-- The handling of a task that closes nothing leaves the connections as they are. -/
theorem Lists.of_same (h : s.Lists cells) (hsame : SameConns s s')
    (hfd : ∀ c, s'.fdOf c = s.fdOf c) : s'.Lists cells :=
  ⟨h.linked.of_same hsame, fun fd c hmem => (hfd c).trans (h.fdOf_eq fd c hmem),
    hsame.reg ▸ h.noClient⟩

end Sessions

end SpiderChat
