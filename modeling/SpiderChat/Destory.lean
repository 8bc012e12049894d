import SpiderChat.Sound

/-!
# SpiderChat.Destory

**The shutdown.** `destory` frees the client of the first node and deletes the node, until the
first node is the placeholder. `del_fd2client` makes the second node its own `prev` when it
deletes the first one, and deletes a node with a `prev` without moving `fd2clients`. So the loop
comes to a freed node, unless the first node has neither a `prev` nor a `next` (`destory_iff`).
-/

namespace SpiderChat

open Lib

/-- What changes the registry: `main` accepts a connection, a worker or `serv_epoll` calls
`close_client`, or `serv_heartbeat` calls `close_client2`. -/
inductive ConnOp
  | accept (fd : Int) (now : Int64) (mem : Ptr)
  | closeClient (fd : Int)
  | closeClient2 (fd2 : Addr)
  deriving Repr, DecidableEq

namespace Sessions

/-- One of these calls; there is no state after undefined behaviour. -/
def connStep (s : Sessions) : ConnOp → Option Sessions
  | .accept fd now mem => s.accept fd now mem
  | .closeClient fd => s.closeClient fd
  | .closeClient2 fd2 => s.closeClient2 fd2

/-- The loop of `destory`, with the clients that it frees. -/
def destoryFrom : Nat → Sessions → Option (Sessions × List Addr)
  | 0, _ => none
  | n + 1, s =>
      match s.reg.fd2clients with
      | none => some (s, [])
      | some fd2 => do
          let node ← s.reg.heap.get fd2
          if node.fd = 0 then some (s, []) else do
          -- `pthread_mutex_destroy` and `free` of `fd2clients->client`
          let client ← node.client
          let clients ← s.clients.free client
          let reg ← s.reg.delFd2client fd2
          let (s', freed) ← destoryFrom n { s with reg, clients }
          some (s', client :: freed)

/-- The loop ends after one round for each registered client, having freed these clients. -/
def ShutsDown (s : Sessions) : Prop :=
  ∃ es fuel s' freed, s.reg.entries = some es ∧ destoryFrom fuel s = some (s', freed) ∧
    freed.map some = es.map Prod.snd ∧ freed.Nodup

/-- The first node is live and has neither a `prev` nor a `next`. -/
def FirstAlone (s : Sessions) : Prop :=
  ∃ fd2 node, s.reg.fd2clients = some fd2 ∧ s.reg.heap.get fd2 = some node ∧
    node.prev = none ∧ node.next = none

/-! ### Accepts and closes -/

variable {s s' : Sessions} {cells : List (Addr × Fd2client)}

theorem sound_init (a : Addr) : (init a).Sound := by
  obtain ⟨cells, hlinked, hnil⟩ := linked_init a
  refine .lists cells ⟨hlinked, fun fd c hmem => ?_, noClient_init a⟩
  rw [hnil] at hmem
  cases hmem

/-- A close of any live node. -/
theorem Sound.release (h : s.Sound) {fd2 : Addr} {node : Fd2client}
    (hget : s.reg.heap.get fd2 = some node) (hs : s.release fd2 node.fd = some s') :
    s'.Sound := by
  cases h with
  | lists cells h =>
      -- the placeholder has no client that could be freed
      have hne : node.fd ≠ 0 := by
        intro hzero
        have hclient := h.noClient fd2 node hget hzero
        obtain ⟨node', client, hget', hclient', -⟩ := release_clients hs
        obtain rfl := Option.some.inj (hget.symm.trans hget')
        rw [hclient] at hclient'
        cases hclient'
      rcases h.release hget rfl hne hs with ⟨_, cells', -, -, hlists, -⟩ | hdangling
      · exact .lists cells' hlists
      · exact .dangling hdangling
  | dangling h => exact .dangling (h.delFd2client (release_reg hs))

theorem Sound.connStep (h : s.Sound) {op : ConnOp} (hs : s.connStep op = some s') : s'.Sound := by
  cases op with
  | accept fd now mem =>
      cases h with
      | lists cells h =>
          obtain ⟨cells', hlists, -⟩ := h.accept hs
          exact .lists cells' hlists
      | dangling h =>
          simp only [Sessions.connStep, Sessions.accept, h.addFd2client] at hs
          split at hs <;> cases hs
  | closeClient fd =>
      simp only [Sessions.connStep, closeClient, Option.bind_eq_bind, Option.bind_eq_some_iff] at hs
      obtain ⟨temp, hfind, hs⟩ := hs
      cases temp with
      | none => exact Option.some.inj hs ▸ h
      | some fd2 =>
          obtain ⟨node, hget, htest⟩ := search_eq_some hfind
          have hfd : fd = node.fd := by simpa using htest
          exact h.release hget (hfd ▸ hs)
  | closeClient2 fd2 =>
      obtain ⟨node, hget, hs⟩ := Option.bind_eq_some_iff.mp hs
      exact h.release hget hs

/-! ### The loop -/

/-- The test of the loop reads the freed first node. -/
theorem destoryFrom_dangling (h : s.reg.Dangling) : ∀ n, destoryFrom n s = none
  | 0 => rfl
  | n + 1 => by
      obtain ⟨fd2, hfirst, hget⟩ := h
      simp [destoryFrom, hfirst, hget]

/-- The loop ends at the placeholder. -/
theorem destoryFrom_placeholder {fd2 : Addr} {node : Fd2client}
    (hfirst : s.reg.fd2clients = some fd2) (hget : s.reg.heap.get fd2 = some node)
    (hzero : node.fd = 0) (n : Nat) : destoryFrom (n + 1) s = some (s, []) := by
  simp [destoryFrom, hfirst, hget, hzero]

/-- A round with any other live first node. -/
theorem destoryFrom_succ_iff {fd2 : Addr} {node : Fd2client}
    (hfirst : s.reg.fd2clients = some fd2) (hget : s.reg.heap.get fd2 = some node)
    (hne : node.fd ≠ 0) {n : Nat} {freed : List Addr} :
    destoryFrom (n + 1) s = some (s', freed) ↔
      ∃ client clients reg freed', node.client = some client ∧
        s.clients.free client = some clients ∧ s.reg.delFd2client fd2 = some reg ∧
        destoryFrom n { s with reg, clients } = some (s', freed') ∧ freed = client :: freed' := by
  simp only [destoryFrom, hfirst, hget, Option.bind_eq_bind, Option.bind_some, hne, if_false,
    Option.bind_eq_some_iff]
  constructor
  · intro h
    obtain ⟨client, hclient, clients, hclients, reg, hreg, ⟨t, freed'⟩, hrest, hres⟩ := h
    obtain ⟨rfl, rfl⟩ := Prod.mk.inj (Option.some.inj hres)
    exact ⟨client, clients, reg, freed', hclient, hclients, hreg, hrest, rfl⟩
  · intro h
    obtain ⟨client, clients, reg, freed', hclient, hclients, hreg, hrest, rfl⟩ := h
    exact ⟨client, hclient, clients, hclients, reg, hreg, _, hrest, rfl⟩

/-- When no round ends the loop after the first one, none does. -/
theorem destoryFrom_eq_none {fd2 : Addr} {node : Fd2client}
    (hfirst : s.reg.fd2clients = some fd2) (hget : s.reg.heap.get fd2 = some node)
    (hne : node.fd ≠ 0) (hrest : ∀ clients reg, s.reg.delFd2client fd2 = some reg →
      ∀ n, destoryFrom n { s with reg, clients } = none) (n : Nat) : destoryFrom n s = none := by
  cases n with
  | zero => rfl
  | succ n =>
      by_contra hsome
      obtain ⟨⟨s', freed⟩, hres⟩ := Option.ne_none_iff_exists'.mp hsome
      obtain ⟨_, clients, reg, _, -, -, hdel, hround, -⟩ :=
        (destoryFrom_succ_iff hfirst hget hne).mp hres
      rw [hrest clients reg hdel n] at hround
      cases hround

/-- A first node with a `prev` is its own one: it is freed, and `fd2clients` keeps its address. -/
theorem destoryFrom_of_prev {x : Addr × Fd2client} {xs : List (Addr × Fd2client)}
    (h : RegInv s.reg (x :: xs)) (hne : x.2.fd ≠ 0) (hprev : x.2.prev ≠ none) (n : Nat) :
    destoryFrom n s = none := by
  refine destoryFrom_eq_none h.head h.owns.get_head hne (fun clients reg hdel => ?_) n
  exact destoryFrom_dangling (s := { s with reg, clients }) (delFd2client_dangling h hprev hdel)

/-- A first node with a `next`: the second node becomes its own `prev`. -/
theorem destoryFrom_of_next {x y : Addr × Fd2client} {ys : List (Addr × Fd2client)}
    (h : RegInv s.reg (x :: y :: ys)) (hpos : ∀ c ∈ x :: y :: ys, 0 < c.2.fd) (n : Nat) :
    destoryFrom n s = none := by
  have hne : ∀ c ∈ x :: y :: ys, c.2.fd ≠ 0 := fun c hc => by
    have hc := hpos c hc
    omega
  by_cases hprev : x.2.prev = none
  · obtain ⟨reg', hdel', hinv⟩ := delFd2client_first h hpos hprev
    refine destoryFrom_eq_none h.head h.owns.get_head (hne x (by simp))
      (fun clients reg hdel => ?_) n
    obtain rfl := Option.some.inj (hdel'.symm.trans hdel)
    have hself : ((y.2.setTail (some y.1)).setPrev (some y.1)).prev ≠ none := nofun
    exact destoryFrom_of_prev (s := { s with reg := reg', clients }) hinv (hne y (by simp)) hself
  · exact destoryFrom_of_prev h (hne x (by simp)) hprev n

/-- The placeholder, or a single node, which becomes the placeholder. -/
theorem Lists.shutsDown_of_single {x : Addr × Fd2client} (h : s.Lists [x])
    (hprev : x.2.prev = none) : s.ShutsDown := by
  have hreg := h.linked.reg
  have hget : s.reg.heap.get x.1 = some x.2 := hreg.owns.get_head
  by_cases hzero : x.2.fd = 0
  · have hentries : entriesOf [x] = [] := by rw [entriesOf_cons, entryOf, if_pos hzero]; rfl
    exact ⟨[], 1, s, [], hentries ▸ hreg.entries_eq, destoryFrom_placeholder hreg.head hget hzero 0,
      rfl, List.nodup_nil⟩
  · have hentries : entriesOf [x] = [(x.2.fd, x.2.client)] := by
      rw [entriesOf_cons, entryOf_of_ne hzero]
      rfl
    obtain ⟨client, hclient, -, hlive⟩ := h.linked.entry x.2.fd x.2.client (by simp [hentries])
    obtain ⟨c, hc⟩ := Option.ne_none_iff_exists'.mp hlive
    obtain ⟨reg, hdel, hinv⟩ := delFd2client_sole hreg hprev
    have hend : destoryFrom 1 { s with reg, clients := s.clients.erase client } =
        some ({ s with reg, clients := s.clients.erase client }, []) :=
      destoryFrom_placeholder (s := { s with reg, clients := s.clients.erase client }) hinv.head
        hinv.owns.get_head rfl 0
    have hround := (destoryFrom_succ_iff hreg.head hget hzero).mpr
      ⟨client, _, reg, [], hclient, Heap.free_eq hc, hdel, hend, rfl⟩
    refine ⟨_, 2, _, [client], hreg.entries_eq, hround, ?_, List.nodup_singleton client⟩
    rw [hentries, hclient]
    rfl

/-- Otherwise the loop reads a freed node. -/
theorem Lists.firstAlone_of_shutsDown (h : s.Lists cells) (hs : s.ShutsDown) : s.FirstAlone := by
  obtain ⟨es, fuel, s', freed, -, hres, -⟩ := hs
  have hreg := h.linked.reg
  rcases hreg.shape with ⟨a, n, rfl, -, hprev⟩ | ⟨hne, hpos⟩
  · exact ⟨a, n, hreg.head, hreg.owns.get_head, hprev, hreg.next.1⟩
  · cases cells with
    | nil => exact absurd rfl hne
    | cons x xs =>
        cases xs with
        | cons y ys =>
            rw [destoryFrom_of_next hreg hpos fuel] at hres
            cases hres
        | nil =>
            have hx : x.2.fd ≠ 0 := by
              have hx := hpos x (List.mem_cons_self ..)
              omega
            refine ⟨x.1, x.2, hreg.head, hreg.owns.get_head, ?_, hreg.next.1⟩
            by_contra hprev
            rw [destoryFrom_of_prev hreg hx hprev fuel] at hres
            cases hres

theorem Lists.shutsDown_iff (h : s.Lists cells) : s.ShutsDown ↔ s.FirstAlone := by
  refine ⟨h.firstAlone_of_shutsDown, fun halone => ?_⟩
  obtain ⟨fd2, node, hfirst, hget, hprev, hnext⟩ := halone
  have hreg := h.linked.reg
  have hcell := (hreg.owns.get_iff fd2 node).mp hget
  rw [hreg.head] at hfirst
  cases cells with
  | nil => cases hcell
  | cons x xs =>
      obtain rfl : x.1 = fd2 := Option.some.inj hfirst
      obtain rfl : x.2 = node := Option.some.inj (hreg.owns.get_head.symm.trans hget)
      cases xs with
      | nil => exact h.shutsDown_of_single hprev
      | cons y ys =>
          rw [hreg.next.1] at hnext
          cases hnext

end Sessions

/-- **When the shutdown ends**, having freed every registered client once: in every state that
accepts and closes lead to, exactly when the first node has neither a `prev` nor a `next`. -/
theorem destory_iff (a : Addr) (ops : List ConnOp) (s : Sessions)
    (hrun : exec Sessions.connStep (Sessions.init a) ops = some s) :
    s.ShutsDown ↔ s.FirstAlone := by
  have hsound : s.Sound :=
    exec_invariant (fun _ _ _ h hs => h.connStep hs) (Sessions.sound_init a) hrun
  cases hsound with
  | lists cells h => exact h.shutsDown_iff
  | dangling h =>
      refine iff_of_false (fun hs => ?_) (fun halone => ?_)
      · obtain ⟨es, -, -, -, hes, -⟩ := hs
        rw [h.entries] at hes
        cases hes
      · obtain ⟨fd2, hfirst, hfreed⟩ := h
        obtain ⟨fd2', node, hfirst', hget, -⟩ := halone
        obtain rfl := Option.some.inj (hfirst.symm.trans hfirst')
        rw [hfreed] at hget
        cases hget

/-- One connection. -/
theorem destory_iff_one : ∃ s,
    exec Sessions.connStep (Sessions.init 10) [.accept 5 0 none] = some s ∧ s.ShutsDown := by
  refine ⟨_, rfl, (destory_iff 10 [.accept 5 0 none] _ rfl).mpr ?_⟩
  exact ⟨10, _, rfl, rfl, rfl, rfl⟩

/-- Two connections: the second node is freed while `fd2clients` points to it. -/
theorem second_node_freed : ∃ s,
    exec Sessions.connStep (Sessions.init 10) [.accept 5 0 none, .accept 6 0 (some 11)] = some s ∧
      s.reg.entries = some [(5, some 0), (6, some 1)] ∧
      (∀ n, Sessions.destoryFrom n s = none) ∧ ¬ s.ShutsDown := by
  obtain ⟨s, hrun, hentries, hloop⟩ : ∃ s, exec Sessions.connStep (Sessions.init 10)
      [.accept 5 0 none, .accept 6 0 (some 11)] = some s ∧
      s.reg.entries = some [(5, some 0), (6, some 1)] ∧ ∀ n, Sessions.destoryFrom n s = none := by
    refine ⟨_, rfl, rfl, fun n => ?_⟩
    match n with
    | 0 => rfl
    | 1 => rfl
    | 2 => rfl
    | _ + 3 => rfl
  refine ⟨s, hrun, hentries, hloop, fun h => ?_⟩
  obtain ⟨_, fuel, _, _, -, hres, -⟩ := h
  rw [hloop fuel] at hres
  cases hres

end SpiderChat
