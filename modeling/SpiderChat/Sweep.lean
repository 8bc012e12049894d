import SpiderChat.Logins

/-!
# SpiderChat.Sweep

**A round of `serv_heartbeat`** goes through the registry and closes the clients that are
idle while it stands on their nodes. Behind the first two nodes that is right:
`del_fd2client` unlinks the node, and the next one has been read before
(`goes_rest`). When the first client is idle, its node must have no `prev`, and the second
one becomes its own `prev`, so that it must not be idle as well (`HeadSpared`).
-/

namespace SpiderChat

open Lib

namespace Sessions

/-- The test of `serv_heartbeat` on a client. -/
def IdleAt (s : Sessions) (mytimestamp : Int64) (client : Ptr) : Prop :=
  ∃ cl ∈ client.bind s.clients.get, Idle mytimestamp cl

instance (s : Sessions) (mytimestamp : Int64) (client : Ptr) :
    Decidable (s.IdleAt mytimestamp client) :=
  inferInstanceAs (Decidable (∃ cl ∈ client.bind s.clients.get, _))

/-- The connections that `sweepFrom` tests, in their order. -/
def visitsFrom (mytimestamp : Int64) : Nat → Sessions → Ptr → List (Int × Ptr)
  | 0, _, _ => []
  | _ + 1, _, none => []
  | n + 1, s, some temp =>
      match s.reg.heap.get temp with
      | none => []
      | some node =>
          if node.fd = 0 then []
          else
            match node.client.bind s.clients.get with
            | none => []
            | some client =>
                (node.fd, node.client) ::
                  if Idle mytimestamp client then
                    ((s.closeClient2 temp).map fun s' =>
                      visitsFrom mytimestamp n s' node.next).getD []
                  else visitsFrom mytimestamp n s node.next

/-- The connections that a round tests. -/
def visits (s : Sessions) (mytimestamp : Int64) : List (Int × Ptr) :=
  visitsFrom mytimestamp (s.reg.heap.length + 1) s s.reg.fd2clients

/-- Of the given connections the idle ones have been closed, and nothing else. -/
structure Swept (mytimestamp : Int64) (es : List (Int × Ptr)) (s s' : Sessions) : Prop where
  closed : ∀ e ∈ es, s.IdleAt mytimestamp e.2 →
    e.2.bind s'.clients.get = none ∧ s'.owner e.1 = none
  client : ∀ c, (∀ e ∈ es, s.IdleAt mytimestamp e.2 → e.2 ≠ some c) →
    s'.clients.get c = s.clients.get c
  owner : ∀ fd, (∀ e ∈ es, s.IdleAt mytimestamp e.2 → e.1 ≠ fd) → s'.owner fd = s.owner fd

/-- A round ends, tests every registered client once, closes those that are idle, and
leaves the others registered in their order. -/
def SweepsIdle (s : Sessions) (mytimestamp : Int64) : Prop :=
  ∃ s', s.sweep mytimestamp = some s' ∧ s.visits mytimestamp = s.entries ∧
    s'.reg.entries = some (s.entries.filter fun e => ¬ s.IdleAt mytimestamp e.2) ∧
    Swept mytimestamp s.entries s s'

/-- When the first client is idle, its node has no `prev`, and the second one is not idle. -/
def HeadSpared (s : Sessions) (mytimestamp : Int64) : Prop :=
  ∀ head ∈ s.reg.fd2clients, ∀ node ∈ s.reg.heap.get head, s.IdleAt mytimestamp node.client →
    node.prev = none ∧ ∀ second ∈ node.next, ∀ node' ∈ s.reg.heap.get second,
      ¬ s.IdleAt mytimestamp node'.client

instance (s : Sessions) (mytimestamp : Int64) : Decidable (s.HeadSpared mytimestamp) :=
  inferInstanceAs (Decidable (∀ head ∈ s.reg.fd2clients, ∀ node ∈ s.reg.heap.get head, _ →
    node.prev = none ∧ ∀ second ∈ node.next, ∀ node' ∈ s.reg.heap.get second, ¬ _))

variable {s s' : Sessions} {cells xs ys : List (Addr × Fd2client)} {x : Addr × Fd2client}
  {mytimestamp : Int64} {n : Nat}

/-! ### One node -/

/-- A registered client has not been freed. -/
theorem Linked.client_of_cell (h : s.Linked (xs ++ x :: ys)) (hpos : 0 < x.2.fd) :
    ∃ c cl, x.2.client = some c ∧ s.clients.get c = some cl ∧
      (x.2.fd, some c) ∈ entriesOf (xs ++ x :: ys) := by
  have hne : x.2.fd ≠ 0 := by omega
  have hmem : (x.2.fd, x.2.client) ∈ entriesOf (xs ++ x :: ys) :=
    List.mem_map.mpr ⟨x, List.mem_filter.mpr ⟨by simp, by simpa using hne⟩, rfl⟩
  obtain ⟨c, hc, -, hlive⟩ := h.entry _ _ hmem
  obtain ⟨cl, hcl⟩ := Option.ne_none_iff_exists'.mp hlive
  exact ⟨c, cl, hc, hcl, hc ▸ hmem⟩

/-- A node whose client is not idle. -/
theorem Linked.sweepFrom_spared (h : s.Linked (xs ++ x :: ys)) (hpos : 0 < x.2.fd)
    (hidle : ¬ s.IdleAt mytimestamp x.2.client) :
    sweepFrom mytimestamp (n + 1) s (some x.1) = sweepFrom mytimestamp n s (headOr ys none) ∧
      visitsFrom mytimestamp (n + 1) s (some x.1) =
        (x.2.fd, x.2.client) :: visitsFrom mytimestamp n s (headOr ys none) := by
  obtain ⟨c, cl, hc, hcl, -⟩ := h.client_of_cell hpos
  have hget : s.reg.heap.get x.1 = some x.2 := h.reg.owns.get
  have hne : x.2.fd ≠ 0 := by omega
  have hnext : x.2.next = headOr ys none := (linkedTo_append.mp h.reg.next).2.1
  have hno : ¬ Idle mytimestamp cl := by simpa [IdleAt, hc, hcl] using hidle
  constructor
  · simp only [sweepFrom, hget, Option.bind_eq_bind, Option.bind_some, if_neg hne, hc, hcl,
      if_neg hno, hnext]
  · simp only [visitsFrom, hget, if_neg hne, hc, Option.bind_some, hcl, if_neg hno, hnext]

/-- A node whose client is idle. -/
theorem Linked.sweepFrom_idle (h : s.Linked (xs ++ x :: ys)) (hpos : 0 < x.2.fd)
    (hidle : s.IdleAt mytimestamp x.2.client) :
    sweepFrom mytimestamp (n + 1) s (some x.1) =
        ((s.closeClient2 x.1).bind fun s' => sweepFrom mytimestamp n s' (headOr ys none)) ∧
      visitsFrom mytimestamp (n + 1) s (some x.1) = (x.2.fd, x.2.client) ::
        ((s.closeClient2 x.1).map fun s' =>
          visitsFrom mytimestamp n s' (headOr ys none)).getD [] := by
  obtain ⟨c, cl, hc, hcl, -⟩ := h.client_of_cell hpos
  have hget : s.reg.heap.get x.1 = some x.2 := h.reg.owns.get
  have hne : x.2.fd ≠ 0 := by omega
  have hnext : x.2.next = headOr ys none := (linkedTo_append.mp h.reg.next).2.1
  have hyes : Idle mytimestamp cl := by simpa [IdleAt, hc, hcl] using hidle
  constructor
  · simp only [sweepFrom, hget, Option.bind_eq_bind, Option.bind_some, if_neg hne, hc, hcl,
      if_pos hyes, hnext]
  · simp only [visitsFrom, hget, if_neg hne, hc, Option.bind_some, hcl, if_pos hyes, hnext]

/-- **`close_client2`**, when `del_fd2client` takes the node out. -/
theorem Linked.closeClient2 (h : s.Linked (xs ++ x :: ys)) (hpos : 0 < x.2.fd) {reg : Registry}
    {cells' : List (Addr × Fd2client)} (hdel : s.reg.delFd2client x.1 = some reg)
    (hreg : RegInv reg cells') (hentries : entriesOf cells' = entriesOf xs ++ entriesOf ys) :
    ∃ c s', x.2.client = some c ∧ s.closeClient2 x.1 = some s' ∧ s'.Linked cells' ∧
      s'.clients = s.clients.erase c ∧ s'.owner = Function.update s.owner x.2.fd none := by
  obtain ⟨c, cl, hc, hcl, hmem⟩ := h.client_of_cell hpos
  have hget : s.reg.heap.get x.1 = some x.2 := h.reg.owns.get
  rw [← erase_entriesOf hpos h.reg.fds, hc] at hentries
  refine ⟨c, _, hc, ?_, h.erase hreg hmem hentries, rfl, rfl⟩
  simp only [Sessions.closeClient2, Sessions.release, hget, Option.bind_eq_bind, Option.bind_some,
    hc, Heap.free_eq hcl, hdel]

/-! ### The rest of a round -/

/-- The rest of a round, from `temp` on, over the connections `rest` behind the connections
`kept`. -/
def Goes (mytimestamp : Int64) (n : Nat) (s : Sessions) (temp : Ptr)
    (kept rest : List (Int × Ptr)) : Prop :=
  ∃ s', sweepFrom mytimestamp n s temp = some s' ∧ visitsFrom mytimestamp n s temp = rest ∧
    s'.reg.entries = some (kept ++ rest.filter fun e => ¬ s.IdleAt mytimestamp e.2) ∧
    Swept mytimestamp rest s s'

/-- The test of a client that is still there when another one has been freed. -/
theorem idleAt_erase {c : Addr} (hclients : s'.clients = s.clients.erase c) {p : Ptr}
    (hp : p ≠ some c) : s'.IdleAt mytimestamp p ↔ s.IdleAt mytimestamp p := by
  cases p with
  | none => exact .rfl
  | some c' =>
      have hne : c' ≠ c := fun heq => hp (congrArg some heq)
      simp only [IdleAt, Option.bind_some, hclients, Heap.get_erase_ne hne]

/-- The other connections have another descriptor and another client. -/
theorem Linked.distinct_of_cell (h : s.Linked (xs ++ x :: ys)) (hpos : 0 < x.2.fd) {c : Addr}
    (hc : x.2.client = some c) : ∀ e ∈ entriesOf ys, e.1 ≠ x.2.fd ∧ e.2 ≠ some c := by
  intro e he
  have heq : entriesOf (xs ++ x :: ys) = entriesOf xs ++ (x.2.fd, some c) :: entriesOf ys := by
    rw [entriesOf_append, entriesOf_cons_of_pos hpos, hc]
  have hfd : e.1 ≠ x.2.fd := by
    have hnodup := h.reg.fds
    rw [heq, List.map_append, List.map_cons] at hnodup
    have hnot := (List.nodup_cons.mp (List.nodup_append.mp hnodup).2.1).1
    have hmem : e.1 ∈ (entriesOf ys).map Prod.fst := List.mem_map_of_mem he
    intro hfd
    exact hnot (hfd ▸ hmem)
  refine ⟨hfd, fun hclient => hfd ?_⟩
  have hmem : (e.1, some c) ∈ entriesOf (xs ++ x :: ys) := by
    rw [heq, ← hclient]
    simp [he]
  exact h.owner_inj _ _ c (h.owner_of_mem hmem) (h.owner_of_mem (heq ▸ by simp))

/-- A node whose client is not idle, and the rest of the round. -/
theorem Linked.goes_spared (h : s.Linked (xs ++ x :: ys)) (hpos : 0 < x.2.fd)
    (hidle : ¬ s.IdleAt mytimestamp x.2.client) {kept rest : List (Int × Ptr)}
    (hrest : Goes mytimestamp n s (headOr ys none) (kept ++ [(x.2.fd, x.2.client)]) rest) :
    Goes mytimestamp (n + 1) s (some x.1) kept ((x.2.fd, x.2.client) :: rest) := by
  obtain ⟨s', hs', hvisits, hentries, hswept⟩ := hrest
  obtain ⟨hsweep, hvisit⟩ := h.sweepFrom_spared (n := n) hpos hidle
  refine ⟨s', by rw [hsweep, hs'], by rw [hvisit, hvisits], ?_, ?_, ?_, ?_⟩
  · rw [hentries, List.filter_cons_of_pos (by simpa using hidle), List.append_assoc,
      List.singleton_append]
  · intro e he hyes
    rcases List.mem_cons.mp he with rfl | he
    · exact absurd hyes hidle
    · exact hswept.closed e he hyes
  · exact fun c hc => hswept.client c fun e he => hc e (List.mem_cons_of_mem _ he)
  · exact fun fd hfd => hswept.owner fd fun e he => hfd e (List.mem_cons_of_mem _ he)

/-- A node whose client is idle and is closed, and the rest of the round. -/
theorem Linked.goes_idle (h : s.Linked (xs ++ x :: ys)) (hpos : 0 < x.2.fd)
    (hidle : s.IdleAt mytimestamp x.2.client) {c : Addr} {s₁ : Sessions}
    (hc : x.2.client = some c) (hclose : s.closeClient2 x.1 = some s₁)
    (hclients : s₁.clients = s.clients.erase c)
    (howner : s₁.owner = Function.update s.owner x.2.fd none) {kept : List (Int × Ptr)}
    (hrest : Goes mytimestamp n s₁ (headOr ys none) kept (entriesOf ys)) :
    Goes mytimestamp (n + 1) s (some x.1) kept ((x.2.fd, x.2.client) :: entriesOf ys) := by
  obtain ⟨s', hs', hvisits, hentries, hswept⟩ := hrest
  obtain ⟨hsweep, hvisit⟩ := h.sweepFrom_idle (n := n) hpos hidle
  have hdistinct := h.distinct_of_cell hpos hc
  have hiff : ∀ e ∈ entriesOf ys, s₁.IdleAt mytimestamp e.2 ↔ s.IdleAt mytimestamp e.2 :=
    fun e he => idleAt_erase hclients (hdistinct e he).2
  rw [hc] at hidle hvisit ⊢
  refine ⟨s', ?_, ?_, ?_, ?_, ?_, ?_⟩
  · rw [hsweep, hclose, Option.bind_some, hs']
  · rw [hvisit, hclose, Option.map_some, Option.getD_some, hvisits]
  · rw [hentries, List.filter_cons_of_neg (by simpa using hidle)]
    congr 2
    refine List.filter_congr fun e he => ?_
    simp only [hiff e he]
  · intro e he hyes
    rcases List.mem_cons.mp he with rfl | he
    · constructor
      · rw [Option.bind_some, hswept.client c fun e he _ => (hdistinct e he).2, hclients,
          Heap.get_erase_self]
      · rw [hswept.owner _ fun e he _ => (hdistinct e he).1, howner, Function.update_self]
    · exact hswept.closed e he ((hiff e he).mpr hyes)
  · intro c' hc'
    have hne : c' ≠ c := fun heq => hc' _ List.mem_cons_self hidle (heq ▸ rfl)
    rw [hswept.client c' fun e he hyes =>
        hc' e (List.mem_cons_of_mem _ he) ((hiff e he).mp hyes),
      hclients, Heap.get_erase_ne hne]
  · intro fd hfd
    have hne : fd ≠ x.2.fd := fun heq => hfd _ List.mem_cons_self hidle heq.symm
    rw [hswept.owner fd fun e he hyes =>
        hfd e (List.mem_cons_of_mem _ he) ((hiff e he).mp hyes),
      howner, Function.update_of_ne hne]

/-- A round that has come to the end. -/
theorem Linked.goes_nil (h : s.Linked xs) : Goes mytimestamp (n + 1) s none (entriesOf xs) [] := by
  refine ⟨s, rfl, rfl, ?_, ?_, fun _ _ => rfl, fun _ _ => rfl⟩
  · rw [h.reg.entries_eq, List.filter_nil, List.append_nil]
  · intro e he
    cases he

/-- **The loop behind the first node.** Whatever clients are idle there, they are taken out
one by one. -/
theorem Linked.goes_rest : ∀ {n : Nat} {s : Sessions} {xs ys : List (Addr × Fd2client)},
    s.Linked (xs ++ ys) → xs ≠ [] → (∀ c ∈ xs ++ ys, 0 < c.2.fd) → ys.length < n →
    Goes mytimestamp n s (headOr ys none) (entriesOf xs) (entriesOf ys) := by
  intro n
  induction n with
  | zero => intro s xs ys _ _ _ hlen; cases hlen
  | succ n ih =>
      intro s xs ys h hne hpos hlen
      cases ys with
      | nil =>
          rw [List.append_nil] at h
          exact h.goes_nil
      | cons x ys =>
          have hx : 0 < x.2.fd := hpos x (by simp)
          have hlen' : ys.length < n := Nat.lt_of_succ_lt_succ hlen
          rw [entriesOf_cons_of_pos hx]
          by_cases hidle : s.IdleAt mytimestamp x.2.client
          · obtain ⟨reg, cells', hdel, hreg, hslots⟩ :=
              delFd2client_slots h.reg hpos (fun heq => absurd heq hne) (by simp [hne])
            have hentries := (entriesOf_congr hslots).trans (entriesOf_append xs ys)
            obtain ⟨c, s₁, hc, hclose, hlinked, hclients, howner⟩ :=
              h.closeClient2 hx hdel hreg hentries
            refine h.goes_idle hx hidle hc hclose hclients howner ?_
            -- the nodes that are left are the same ones, with other links
            have hsub : (cells'.map slotOf).Sublist ((xs ++ ys).map slotOf) := by rw [hslots]
            have hpos' := pos_of_slots hsub fun c hc => hpos c (by
              rcases List.mem_append.mp hc with hc | hc <;> simp [hc])
            rw [List.map_append] at hslots
            obtain ⟨xs', ys', rfl, hxs, hys⟩ := List.map_eq_append_iff.mp hslots
            rw [← entriesOf_congr hxs, ← entriesOf_congr hys, ← headOr_congr hys]
            refine ih hlinked ?_ hpos' ?_
            · rintro rfl
              exact hne (List.map_eq_nil_iff.mp hxs.symm)
            · rw [← List.length_map (f := slotOf), hys, List.length_map]
              exact hlen'
          · refine h.goes_spared hx hidle ?_
            have hentry : entriesOf xs ++ [(x.2.fd, x.2.client)] = entriesOf (xs ++ [x]) := by
              rw [entriesOf_append, entriesOf_cons_of_pos hx]
              rfl
            rw [hentry]
            rw [List.append_cons] at h hpos
            exact ih h (by simp) hpos hlen'

/-! ### The first two nodes -/

/-- The condition, on the first two cells. -/
theorem Linked.headSpared_iff (h : s.Linked (x :: ys)) :
    s.HeadSpared mytimestamp ↔ (s.IdleAt mytimestamp x.2.client →
      x.2.prev = none ∧ ∀ y ∈ ys.head?, ¬ s.IdleAt mytimestamp y.2.client) := by
  have hhead : s.reg.fd2clients = some x.1 := h.reg.head
  have hget : s.reg.heap.get x.1 = some x.2 := h.reg.owns.get_head
  have hnext : x.2.next = headOr ys none := h.reg.next.1
  simp only [HeadSpared, hhead, Option.mem_some_iff, forall_eq', hget, hnext]
  cases ys with
  | nil => simp
  | cons y ys =>
      have hget' : s.reg.heap.get y.1 = some y.2 := h.reg.owns.holds y (by simp)
      simp only [headOr_cons, List.head?_cons, Option.mem_some_iff, forall_eq', hget']

theorem Linked.entries_eq (h : s.Linked cells) : s.entries = entriesOf cells := by
  rw [entries, h.reg.entries_eq, Option.getD_some]

/-- The whole round, as its loop. -/
theorem Linked.sweepsIdle_of_goes (h : s.Linked (x :: ys))
    (hgoes : Goes mytimestamp (s.reg.heap.length + 1) s (some x.1) [] (entriesOf (x :: ys))) :
    s.SweepsIdle mytimestamp := by
  have hhead : s.reg.fd2clients = some x.1 := h.reg.head
  obtain ⟨s', hs', hvisits, hentries, hswept⟩ := hgoes
  rw [List.nil_append] at hentries
  rw [← h.entries_eq] at hvisits hentries hswept
  exact ⟨s', by rw [sweep, hhead, hs'], by rw [visits, hhead, hvisits], hentries, hswept⟩

/-- A round over the placeholder. -/
theorem Linked.sweepsIdle_placeholder {a : Addr} {node : Fd2client} (h : s.Linked [(a, node)])
    (hzero : node.fd = 0) : s.SweepsIdle mytimestamp := by
  have hhead : s.reg.fd2clients = some a := h.reg.head
  have hget : s.reg.heap.get a = some node := h.reg.owns.get_head
  have hnil : s.entries = [] := by
    rw [h.entries_eq, entriesOf_cons, entryOf, if_pos hzero]
    rfl
  refine ⟨s, ?_, ?_, ?_, ?_⟩
  · simp [sweep, hhead, sweepFrom, hget, hzero]
  · simp [visits, hhead, visitsFrom, hget, hzero, hnil]
  · rw [hnil, List.filter_nil, h.reg.entries_eq, ← h.entries_eq, hnil]
  · rw [hnil]
    exact ⟨fun e he => absurd he List.not_mem_nil, fun _ _ => rfl, fun _ _ => rfl⟩

/-- The first client is not idle. -/
theorem Linked.goes_active (h : s.Linked (x :: ys)) (hpos : ∀ c ∈ x :: ys, 0 < c.2.fd)
    (hactive : ¬ s.IdleAt mytimestamp x.2.client) (hlen : ys.length < n) :
    Goes mytimestamp (n + 1) s (some x.1) [] (entriesOf (x :: ys)) := by
  have hx : 0 < x.2.fd := hpos x List.mem_cons_self
  have hsplit : s.Linked ([] ++ x :: ys) := h
  have hfirst : s.Linked ([x] ++ ys) := h
  have hentry : entriesOf [x] = [(x.2.fd, x.2.client)] := entriesOf_cons_of_pos hx []
  rw [entriesOf_cons_of_pos hx]
  refine hsplit.goes_spared hx hactive ?_
  rw [List.nil_append, ← hentry]
  exact hfirst.goes_rest (List.cons_ne_nil _ _) hpos hlen

/-- The first client is idle, and the second one is not. -/
theorem Linked.goes_first (h : s.Linked (x :: ys)) (hpos : ∀ c ∈ x :: ys, 0 < c.2.fd)
    (hidle : s.IdleAt mytimestamp x.2.client) (hprev : x.2.prev = none)
    (hsecond : ∀ y ∈ ys.head?, ¬ s.IdleAt mytimestamp y.2.client) (hlen : ys.length ≤ n) :
    Goes mytimestamp (n + 2) s (some x.1) [] (entriesOf (x :: ys)) := by
  have hx : 0 < x.2.fd := hpos x List.mem_cons_self
  have hsplit : s.Linked ([] ++ x :: ys) := h
  rw [entriesOf_cons_of_pos hx]
  cases ys with
  | nil =>
      obtain ⟨reg, hdel, hreg⟩ := delFd2client_sole h.reg hprev
      obtain ⟨c, s₁, hc, hclose, hlinked, hclients, howner⟩ := hsplit.closeClient2 hx hdel hreg rfl
      exact hsplit.goes_idle hx hidle hc hclose hclients howner hlinked.goes_nil
  | cons y zs =>
      obtain ⟨reg, hdel, hreg⟩ := delFd2client_first h.reg hpos hprev
      have hy : 0 < y.2.fd := hpos y (by simp)
      -- the second client is the first one now, and is its own `prev`
      have hentries : entriesOf ((y.1, (y.2.setTail (some y.1)).setPrev (some y.1)) :: zs) =
          entriesOf (y :: zs) := entriesOf_congr rfl
      obtain ⟨c, s₁, hc, hclose, hlinked, hclients, howner⟩ :=
        hsplit.closeClient2 hx hdel hreg hentries
      refine hsplit.goes_idle hx hidle hc hclose hclients howner ?_
      have hactive : ¬ s₁.IdleAt mytimestamp y.2.client := by
        have hne := (hsplit.distinct_of_cell hx hc (y.2.fd, y.2.client) (by
          rw [entriesOf_cons_of_pos hy]
          simp)).2
        rw [idleAt_erase hclients hne]
        exact hsecond y rfl
      rw [← hentries]
      refine hlinked.goes_active ?_ hactive hlen
      exact List.forall_mem_cons.mpr ⟨hy, fun c hc => hpos c (by simp [hc])⟩

/-- A round in which the first two clients are not closed both. -/
theorem Linked.sweepsIdle (h : s.Linked cells) (hok : s.HeadSpared mytimestamp) :
    s.SweepsIdle mytimestamp := by
  rcases h.reg.shape with ⟨a, node, rfl, hzero, -⟩ | ⟨hne, hpos⟩
  · exact h.sweepsIdle_placeholder hzero
  · obtain ⟨x, ys, rfl⟩ := List.exists_cons_of_ne_nil hne
    have hlen : ys.length + 1 ≤ s.reg.heap.length := h.reg.owns.length_le
    refine h.sweepsIdle_of_goes ?_
    by_cases hidle : s.IdleAt mytimestamp x.2.client
    · obtain ⟨hprev, hsecond⟩ := h.headSpared_iff.mp hok hidle
      obtain ⟨m, hm⟩ : ∃ m, s.reg.heap.length = m + 1 := ⟨s.reg.heap.length - 1, by omega⟩
      rw [hm] at hlen ⊢
      exact h.goes_first hpos hidle hprev hsecond (Nat.le_of_succ_le_succ hlen)
    · exact h.goes_active hpos hidle hlen

/-! ### A first node that is its own `prev` -/

/-- The registry stays as it is once its first node has been freed. -/
theorem sweepFrom_of_dangling {temp : Ptr} (h : s.reg.Dangling)
    (hs : sweepFrom mytimestamp n s temp = some s') : s'.reg.Dangling := by
  have hclose : ∀ m fd2 node m', Registry.Dangling (reg m) → True →
      m.reg.heap.get fd2 = some node → node.fd ≠ 0 → m.release fd2 node.fd = some m' →
      m'.reg.Dangling :=
    fun m fd2 node m' hm _ _ _ hrelease => hm.delFd2client (release_reg hrelease)
  exact sweepFrom_induction hclose h (fun _ _ => trivial) hs

/-- The first node is freed and stays where it is. -/
theorem Linked.dangling_of_idle (h : s.Linked (x :: ys)) (hpos : 0 < x.2.fd)
    (hidle : s.IdleAt mytimestamp x.2.client) (hprev : x.2.prev ≠ none)
    (hs : sweepFrom mytimestamp (n + 1) s (some x.1) = some s') : s'.reg.Dangling := by
  have hget : s.reg.heap.get x.1 = some x.2 := h.reg.owns.get_head
  have hsplit : s.Linked ([] ++ x :: ys) := h
  rw [(hsplit.sweepFrom_idle hpos hidle).1] at hs
  obtain ⟨s₁, hclose, hs⟩ := Option.bind_eq_some_iff.mp hs
  have hrelease : s.release x.1 x.2.fd = some s₁ := by
    simpa [Sessions.closeClient2, hget] using hclose
  have hno : ¬ s.DelOk x.1 := fun hok => hprev (hok h.reg.head x.2 hget)
  exact sweepFrom_of_dangling (h.dangling hno hrelease) hs

/-- A round that leaves a registry has found the condition. -/
theorem Linked.headSpared (h : s.Linked cells) (hs : s.sweep mytimestamp = some s')
    (hentries : s'.reg.entries ≠ none) : s.HeadSpared mytimestamp := by
  rcases h.reg.shape with ⟨a, node, rfl, hzero, hprev⟩ | ⟨hne, hpos⟩
  · exact h.headSpared_iff.mpr fun _ => ⟨hprev, by simp⟩
  · obtain ⟨x, ys, rfl⟩ := List.exists_cons_of_ne_nil hne
    have hx : 0 < x.2.fd := hpos x (by simp)
    have hhead : s.reg.fd2clients = some x.1 := h.reg.head
    have hsplit : s.Linked ([] ++ x :: ys) := h
    rw [sweep, hhead] at hs
    refine h.headSpared_iff.mpr fun hidle => ?_
    have hprev : x.2.prev = none := by
      by_contra hsome
      exact hentries (h.dangling_of_idle hx hidle hsome hs).entries
    refine ⟨hprev, fun y hy hidle' => ?_⟩
    cases ys with
    | nil => cases hy
    | cons y' zs =>
        obtain rfl := Option.some.inj hy
        -- the second node becomes its own `prev`
        obtain ⟨reg, hdel, hreg⟩ := delFd2client_first h.reg hpos hprev
        have hentries' : entriesOf ((y'.1, (y'.2.setTail (some y'.1)).setPrev (some y'.1)) :: zs) =
            entriesOf (y' :: zs) := entriesOf_congr rfl
        obtain ⟨c, s₁, hc, hclose, hlinked, hclients, -⟩ :=
          hsplit.closeClient2 hx hdel hreg hentries'
        rw [(hsplit.sweepFrom_idle hx hidle).1, hclose, Option.bind_some, headOr_cons] at hs
        obtain ⟨m, hm⟩ : ∃ m, s.reg.heap.length = m + 1 := by
          have hlen := h.reg.owns.length_le
          rw [List.length_cons] at hlen
          exact ⟨s.reg.heap.length - 1, by omega⟩
        rw [hm] at hs
        have hfd : 0 < y'.2.fd := hpos y' (by simp)
        have hne := (hsplit.distinct_of_cell hx hc (y'.2.fd, y'.2.client) (by
          rw [entriesOf_cons_of_pos hfd]
          simp)).2
        have hidle₁ : s₁.IdleAt mytimestamp y'.2.client := (idleAt_erase hclients hne).mpr hidle'
        exact hentries (hlinked.dangling_of_idle hfd hidle₁ (Option.some_ne_none _) hs).entries

/-- **When a round removes exactly the idle clients**: when the first client is not idle, or
its node has no `prev` and the second client is not idle. -/
theorem sweeps_idle_iff (h : s.Linked cells) :
    s.SweepsIdle mytimestamp ↔ s.HeadSpared mytimestamp := by
  constructor
  · intro hsweeps
    obtain ⟨s', hs', -, hentries, -⟩ := hsweeps
    exact h.headSpared hs' (by rw [hentries]; exact Option.some_ne_none _)
  · exact h.sweepsIdle

/-- Two connections on the descriptors 5 and 6, accepted at these times. -/
def twoClients (now now' : Int64) : Option Sessions :=
  ((init 1).accept 5 now none).bind fun s => s.accept 6 now' (some 2)

theorem linked_twoClients {now now' : Int64} (h : twoClients now now' = some s) :
    ∃ cells, s.Linked cells := by
  obtain ⟨cells, hlinked, -⟩ := linked_init 1
  obtain ⟨s₁, hs₁, hs₂⟩ := Option.bind_eq_some_iff.mp h
  obtain ⟨cells₁, hlinked₁, -⟩ := hlinked.accept hs₁
  obtain ⟨cells₂, hlinked₂, -⟩ := hlinked₁.accept hs₂
  exact ⟨cells₂, hlinked₂⟩

/-- The first client is idle, and the second one is not. -/
theorem sweeps_idle_iff_two :
    ∃ s, twoClients 0 500 = some s ∧ (s.SweepsIdle 1000 ↔ s.HeadSpared 1000) ∧
      s.HeadSpared 1000 := by
  have hspared : (twoClients 0 500).map (fun s => decide (s.HeadSpared 1000)) = some true := by
    decide
  obtain ⟨s, hs, hdec⟩ := Option.map_eq_some_iff.mp hspared
  obtain ⟨cells, hlinked⟩ := linked_twoClients hs
  exact ⟨s, hs, sweeps_idle_iff hlinked, of_decide_eq_true hdec⟩

/-- Two connections that are both idle: the round frees the second node while `fd2clients`
points to it. -/
theorem two_idle_dangling :
    ∃ s cells, twoClients 0 0 = some s ∧ s.Linked cells ∧ ¬ s.SweepsIdle 1000 := by
  have hspared : (twoClients 0 0).map (fun s => decide (s.HeadSpared 1000)) = some false := by
    decide
  obtain ⟨s, hs, hdec⟩ := Option.map_eq_some_iff.mp hspared
  obtain ⟨cells, hlinked⟩ := linked_twoClients hs
  refine ⟨s, cells, hs, hlinked, fun hsweeps => ?_⟩
  obtain ⟨s', hs', -, hentries, -⟩ := hsweeps
  refine of_decide_eq_false hdec (hlinked.headSpared hs' ?_)
  rw [hentries]
  exact Option.some_ne_none _

end Sessions

end SpiderChat
