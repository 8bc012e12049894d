import Mathlib.Logic.Function.Basic
import SpiderChat.RegistryRefine

/-!
# SpiderChat.Sessions

**The clients and their connections**: the registry, the `spider_client`s it points
to, and the descriptors that are open. What the accept loop of `main`, `close_client`,
`close_client2` and `serv_heartbeat` do to them is translated here.

A connection and its client are named by one number, the number of connections
accepted before: a pointer to a freed client is told from a pointer to a client that
`malloc` has put into the same block later. What is read through the former is left open,
and where it matters what a client carries, nothing is written through it
(`Logged.WritesLive`). `owner` says for which connection a descriptor is open; the kernel
hands out any number that is not.

`Linked` is the invariant: the registry is a list (`RegInv`) whose entries are open
connections with a live client each.
-/

namespace SpiderChat

open Lib

/-- The clients of the server. -/
structure Sessions where
  reg : Registry
  clients : Heap SpiderClient
  /-- The connection that a descriptor is open for. -/
  owner : Int → Option Addr
  /-- The number of connections accepted so far. -/
  accepted : Nat

namespace Sessions

/-- After `init_fd2client`, the registry's first node at address `a`. -/
def init (a : Addr) : Sessions :=
  { reg := (Registry.empty.initFd2client (some a)).1, clients := [], owner := fun _ => none,
    accepted := 0 }

/-- `close(fd)`. -/
def close (s : Sessions) (fd : Int) : Sessions :=
  { s with owner := Function.update s.owner fd none }

/-- A new client, as `main` initialises it. -/
def newClient (fd : Int) (now : Int64) : SpiderClient :=
  { fd, uid := 0, gmid := 0, gameid := 0, app_version := List.replicate 10 0,
    keepalivetime := now.toInt32 }

/-- The body of the accept loop. `mem` is what `malloc` returns for a registry node. -/
def accept (s : Sessions) (fd : Int) (now : Int64) (mem : Ptr) : Option Sessions :=
  if 0 < fd ∧ s.owner fd = none ∧ mem.bind s.reg.heap.get = none then
    (s.reg.addFd2client fd (some s.accepted) mem).map fun reg =>
      { reg := reg.1
        clients := s.clients.set s.accepted (newClient fd now)
        owner := Function.update s.owner fd (some s.accepted)
        accepted := s.accepted + 1 }
  else none

/-- What `close_client` and `close_client2` share: the client of a node is freed, the
node deleted and the descriptor closed. -/
def release (s : Sessions) (fd2 : Addr) (fd : Int) : Option Sessions := do
  let node ← s.reg.heap.get fd2
  let client ← node.client
  let clients ← s.clients.free client
  let reg ← s.reg.delFd2client fd2
  some ({ s with reg, clients }.close fd)

/-- `close_client`; its other arguments are only logged. -/
def closeClient (s : Sessions) (fd : Int) : Option Sessions := do
  match ← s.reg.findFd2client fd with
  | none => some s
  | some temp => s.release temp fd

/-- `close_client2`. -/
def closeClient2 (s : Sessions) (fd2 : Addr) : Option Sessions := do
  let node ← s.reg.heap.get fd2
  s.release fd2 node.fd

/-- `client->uid`; it fails on `NULL` and on a freed client. -/
def uidOf (s : Sessions) (client : Ptr) : Option Int64 :=
  (client.bind s.clients.get).map SpiderClient.uid

/-- `findClientByUid` over the clients as they are. -/
def findClientByUid (s : Sessions) (uid : Int64) : Option Ptr := s.reg.findClientByUid s.uidOf uid

/-- The test of `serv_heartbeat`. -/
def Idle (mytimestamp : Int64) (client : SpiderClient) : Prop :=
  mytimestamp - client.keepalivetime.toInt64 > 600

instance (mytimestamp : Int64) (client : SpiderClient) : Decidable (Idle mytimestamp client) :=
  inferInstanceAs (Decidable (_ > _))

/-- The loop of `serv_heartbeat` over the registry, from `temp` on. -/
def sweepFrom (mytimestamp : Int64) : Nat → Sessions → Ptr → Option Sessions
  | 0, _, _ => none
  | _ + 1, s, none => some s
  | n + 1, s, some temp => do
      let node ← s.reg.heap.get temp
      if node.fd = 0 then some s else do
      let client ← node.client
      let client ← s.clients.get client
      if Idle mytimestamp client then do
        let s ← s.closeClient2 temp
        sweepFrom mytimestamp n s node.next
      else sweepFrom mytimestamp n s node.next

/-- One round of `serv_heartbeat`. -/
def sweep (s : Sessions) (mytimestamp : Int64) : Option Sessions :=
  sweepFrom mytimestamp (s.reg.heap.length + 1) s s.reg.fd2clients

/-- The calls of `close_client2` in `sweepFrom`: the state at the call, and the node. -/
def closesFrom (mytimestamp : Int64) : Nat → Sessions → Ptr → List (Sessions × Addr)
  | 0, _, _ => []
  | _ + 1, _, none => []
  | n + 1, s, some temp =>
      match s.reg.heap.get temp with
      | none => []
      | some node =>
          if node.fd = 0 then []
          else
            match node.client.bind s.clients.get with
            | none => []
            | some client =>
                if Idle mytimestamp client then
                  (s, temp) :: ((s.closeClient2 temp).map fun s' =>
                    closesFrom mytimestamp n s' node.next).getD []
                else closesFrom mytimestamp n s node.next

/-- The calls of `close_client2` in a round. -/
def closes (s : Sessions) (mytimestamp : Int64) : List (Sessions × Addr) :=
  closesFrom mytimestamp (s.reg.heap.length + 1) s s.reg.fd2clients

/-- What `sweepFrom` does at a node: the round is over, or the client is not idle, or it is
closed. -/
theorem sweepFrom_cases {mytimestamp : Int64} {n : Nat} {s s' : Sessions} {temp : Ptr}
    (hs : sweepFrom mytimestamp (n + 1) s temp = some s') :
    (s' = s ∧ closesFrom mytimestamp (n + 1) s temp = []) ∨
    (∃ next, sweepFrom mytimestamp n s next = some s' ∧
      closesFrom mytimestamp (n + 1) s temp = closesFrom mytimestamp n s next) ∨
    ∃ fd2 node s₁, s.reg.heap.get fd2 = some node ∧ node.fd ≠ 0 ∧
      s.release fd2 node.fd = some s₁ ∧ sweepFrom mytimestamp n s₁ node.next = some s' ∧
      closesFrom mytimestamp (n + 1) s temp =
        (s, fd2) :: closesFrom mytimestamp n s₁ node.next := by
  cases temp with
  | none => exact .inl ⟨(Option.some.inj hs).symm, rfl⟩
  | some temp =>
      simp only [sweepFrom, Option.bind_eq_bind, Option.bind_eq_some_iff] at hs
      obtain ⟨node, hget, hs⟩ := hs
      by_cases hfd : node.fd = 0
      · rw [if_pos hfd] at hs
        exact .inl ⟨(Option.some.inj hs).symm, by simp only [closesFrom, hget, if_pos hfd]⟩
      simp only [if_neg hfd, Option.bind_eq_some_iff] at hs
      obtain ⟨a, hnode, client, hclient, hs⟩ := hs
      have hread : node.client.bind s.clients.get = some client := by
        rw [hnode, Option.bind_some, hclient]
      by_cases hidle : Idle mytimestamp client
      · rw [if_pos hidle] at hs
        obtain ⟨s₁, hs₁, hs⟩ := Option.bind_eq_some_iff.mp hs
        have hrelease : s.release temp node.fd = some s₁ := by
          simpa [closeClient2, hget] using hs₁
        refine .inr (.inr ⟨temp, node, s₁, hget, hfd, hrelease, hs, ?_⟩)
        simp only [closesFrom, hget, if_neg hfd, hread, if_pos hidle, hs₁, Option.map_some,
          Option.getD_some]
      · rw [if_neg hidle] at hs
        refine .inr (.inl ⟨node.next, hs, ?_⟩)
        simp only [closesFrom, hget, if_neg hfd, hread, if_neg hidle]

/-- **The induction over a round.** What every close keeps, the round keeps. -/
theorem sweepFrom_induction {P : Sessions → Prop} {ok : Sessions → Addr → Prop}
    {mytimestamp : Int64}
    (hclose : ∀ s fd2 node s', P s → ok s fd2 → s.reg.heap.get fd2 = some node → node.fd ≠ 0 →
      s.release fd2 node.fd = some s' → P s') :
    ∀ {n : Nat} {s s' : Sessions} {temp : Ptr}, P s →
      (∀ c ∈ closesFrom mytimestamp n s temp, ok c.1 c.2) →
      sweepFrom mytimestamp n s temp = some s' → P s' := by
  intro n
  induction n with
  | zero => intro s s' temp _ _ hs; cases hs
  | succ n ih =>
      intro s s' temp hp hok hs
      rcases sweepFrom_cases hs with ⟨rfl, -⟩ | ⟨next, hs, hcloses⟩ |
        ⟨fd2, node, s₁, hget, hfd, hrelease, hs, hcloses⟩
      · exact hp
      · exact ih hp (hcloses ▸ hok) hs
      · rw [hcloses] at hok
        obtain ⟨hfirst, hrest⟩ := List.forall_mem_cons.mp hok
        exact ih (hclose s fd2 node s₁ hp hfirst hget hfd hrelease) hrest hs

/-- The client that is found has the uid. -/
theorem uidOf_of_findClientByUid {s : Sessions} {uid : Int64} {p : Ptr}
    (h : s.findClientByUid uid = some p) : p = none ∨ s.uidOf p = some uid := by
  simp only [findClientByUid, Registry.findClientByUid, Option.bind_eq_bind,
    Option.bind_eq_some_iff] at h
  obtain ⟨found, hfound, h⟩ := h
  cases found with
  | none => exact .inl (Option.some.inj h).symm
  | some a =>
      obtain ⟨n, hget, htest⟩ := search_eq_some hfound
      obtain ⟨u, hu, heq⟩ := Option.map_eq_some_iff.mp htest
      obtain rfl : uid = u := by simpa using heq
      simp only [hget, Option.map_some, Option.some.injEq] at h
      exact .inr (h ▸ hu)

/-- Closing a connection frees the client of its node. -/
theorem release_clients {s s' : Sessions} {fd2 : Addr} {fd : Int}
    (h : s.release fd2 fd = some s') :
    ∃ node client, s.reg.heap.get fd2 = some node ∧ node.client = some client ∧
      s'.clients = s.clients.erase client := by
  simp only [release, Option.bind_eq_bind, Option.bind_eq_some_iff] at h
  obtain ⟨node, hget, client, hclient, clients, hfree, reg, -, h⟩ := h
  refine ⟨node, client, hget, hclient, ?_⟩
  unfold Heap.free at hfree
  split at hfree
  · rw [← Option.some.inj h, ← Option.some.inj hfree]
    rfl
  · cases hfree

@[simp] theorem owner_close {s : Sessions} {fd fd' : Int} {c : Addr} :
    (s.close fd).owner fd' = some c ↔ fd' ≠ fd ∧ s.owner fd' = some c := by
  simp only [close, Function.update_apply]
  split <;> simp_all

/-! ### The invariant -/

/-- The client is registered for the descriptor. -/
def Registered (s : Sessions) (fd : Int) (client : Addr) : Prop :=
  (fd, some client) ∈ s.reg.entries.getD []

instance (s : Sessions) (fd : Int) (client : Addr) : Decidable (s.Registered fd client) :=
  inferInstanceAs (Decidable (_ ∈ _))

/-- The registry is a list of open connections with live clients. -/
structure Linked (s : Sessions) (cells : List (Addr × Fd2client)) : Prop where
  reg : RegInv s.reg cells
  entry : ∀ fd p, (fd, p) ∈ entriesOf cells →
    ∃ c, p = some c ∧ s.owner fd = some c ∧ s.clients.get c ≠ none
  owner_lt : ∀ fd c, s.owner fd = some c → c < s.accepted
  owner_inj : ∀ fd fd' c, s.owner fd = some c → s.owner fd' = some c → fd = fd'

/-- A node is deleted only while its `prev` is `NULL`, when it is the first one. -/
def DelOk (s : Sessions) (fd2 : Addr) : Prop :=
  s.reg.fd2clients = some fd2 → ∀ node ∈ s.reg.heap.get fd2, node.prev = none

instance (s : Sessions) (fd2 : Addr) : Decidable (s.DelOk fd2) :=
  inferInstanceAs (Decidable (_ → _))

/-- The same for the node that `close_client` finds. -/
def CloseOk (s : Sessions) (fd : Int) : Prop :=
  ∀ fd2 ∈ (s.reg.findFd2client fd).join, s.DelOk fd2

instance (s : Sessions) (fd : Int) : Decidable (s.CloseOk fd) :=
  inferInstanceAs (Decidable (∀ fd2 ∈ (s.reg.findFd2client fd).join, s.DelOk fd2))

theorem linked_init (a : Addr) : ∃ cells, (init a).Linked cells ∧ entriesOf cells = [] := by
  obtain ⟨r, cells, hr, hinv, hcells⟩ := initFd2client_inv a
  obtain rfl := Option.some.inj hr
  have hnil : entriesOf cells = [] := hcells.symm
  refine ⟨cells, ⟨hinv, ?_, nofun, nofun⟩, hnil⟩
  intro fd p hmem
  rw [hnil] at hmem
  cases hmem

namespace Linked

variable {s s' : Sessions} {cells : List (Addr × Fd2client)}

theorem registered_iff (h : s.Linked cells) {fd : Int} {client : Addr} :
    s.Registered fd client ↔ (fd, some client) ∈ entriesOf cells := by
  rw [Registered, h.reg.entries_eq, Option.getD_some]

/-- A client that is registered is the one that the descriptor is open for. -/
theorem owner_of_mem (h : s.Linked cells) {fd : Int} {client : Addr}
    (hmem : (fd, some client) ∈ entriesOf cells) : s.owner fd = some client := by
  obtain ⟨c, hc, howner, -⟩ := h.entry fd _ hmem
  rw [howner, Option.some.inj hc]

/-- A descriptor that is open for a new connection is not registered yet. -/
theorem not_mem_fds (h : s.Linked cells) {fd : Int} (hfd : s.owner fd = none) :
    fd ∉ (entriesOf cells).map Prod.fst := by
  intro hmem
  obtain ⟨⟨fd', p⟩, hentry, rfl⟩ := List.mem_map.mp hmem
  obtain ⟨c, -, howner, -⟩ := h.entry _ _ hentry
  rw [hfd] at howner
  cases howner

/-- A new connection, with the clients and descriptors as `accept` leaves them. -/
theorem extend (h : s.Linked cells) {cells' : List (Addr × Fd2client)} {fd : Int} {now : Int64}
    {reg : Registry} (hfd : s.owner fd = none) (hreg : RegInv reg cells')
    (hentries : entriesOf cells' = entriesOf cells ∨
      entriesOf cells' = entriesOf cells ++ [(fd, some s.accepted)]) :
    Linked ⟨reg, s.clients.set s.accepted (newClient fd now),
      Function.update s.owner fd (some s.accepted), s.accepted + 1⟩ cells' := by
  have hold : ∀ fd' p, (fd', p) ∈ entriesOf cells → ∃ c, p = some c ∧
      Function.update s.owner fd (some s.accepted) fd' = some c ∧
      (s.clients.set s.accepted (newClient fd now)).get c ≠ none := by
    intro fd' p hmem
    obtain ⟨c, rfl, howner, hlive⟩ := h.entry fd' p hmem
    have hne : fd' ≠ fd := by
      intro heq
      subst heq
      rw [hfd] at howner
      cases howner
    have hlt := h.owner_lt fd' c howner
    refine ⟨c, rfl, by rw [Function.update_of_ne hne, howner], ?_⟩
    rw [Heap.get_set_ne (Nat.ne_of_lt hlt)]
    exact hlive
  refine ⟨hreg, ?_, ?_, ?_⟩
  · intro fd' p hmem
    rcases hentries with heq | heq
    · exact hold fd' p (heq ▸ hmem)
    · rw [heq] at hmem
      rcases List.mem_append.mp hmem with hmem | hmem
      · exact hold fd' p hmem
      · obtain ⟨rfl, rfl⟩ := Prod.mk.inj (List.mem_singleton.mp hmem)
        exact ⟨s.accepted, rfl, by simp, by simp⟩
  · intro fd' c hc
    change Function.update s.owner fd (some s.accepted) fd' = some c at hc
    by_cases hfd' : fd' = fd
    · subst hfd'
      rw [Function.update_self] at hc
      obtain rfl := Option.some.inj hc
      exact Nat.lt_succ_self _
    · rw [Function.update_of_ne hfd'] at hc
      exact Nat.lt_succ_of_lt (h.owner_lt fd' c hc)
  · intro fd₁ fd₂ c h₁ h₂
    change Function.update s.owner fd (some s.accepted) fd₁ = some c at h₁
    change Function.update s.owner fd (some s.accepted) fd₂ = some c at h₂
    -- the new connection is the only one with its number
    rw [Function.update_apply] at h₁ h₂
    split at h₁
    · split at h₂
      · simp_all
      · have hlt := h.owner_lt fd₂ c h₂
        simp_all
    · split at h₂
      · have hlt := h.owner_lt fd₁ c h₁
        simp_all
      · exact h.owner_inj fd₁ fd₂ c h₁ h₂

/-- **`accept`** adds the new connection, or leaves the registry as it is when there is
no memory for a node. -/
theorem accept (h : s.Linked cells) {fd : Int} {now : Int64} {mem : Ptr}
    (hs : s.accept fd now mem = some s') :
    ∃ cells', s'.Linked cells' ∧
      (entriesOf cells' = entriesOf cells ∨
        entriesOf cells' = entriesOf cells ++ [(fd, some s.accepted)]) ∧
      s'.owner = Function.update s.owner fd (some s.accepted) ∧ s.owner fd = none := by
  rw [Sessions.accept] at hs
  split at hs
  · rename_i hguard
    obtain ⟨hpos, hfd, hmem⟩ := hguard
    obtain ⟨⟨reg, ret⟩, hadd, rfl⟩ := Option.map_eq_some_iff.mp hs
    have hnew := h.not_mem_fds hfd
    obtain ⟨cells', hreg, hentries⟩ : ∃ cells', RegInv reg cells' ∧
        (entriesOf cells' = entriesOf cells ∨
          entriesOf cells' = entriesOf cells ++ [(fd, some s.accepted)]) := by
      cases mem with
      | some a =>
          obtain ⟨reg', cells', hadd', hreg, hentries⟩ :=
            addFd2client_spec (some s.accepted) h.reg hmem hpos hnew
          obtain ⟨rfl, -⟩ := Prod.mk.inj (Option.some.inj (hadd'.symm.trans hadd))
          exact ⟨cells', hreg, .inr hentries⟩
      | none =>
          rcases addFd2client_noMem (some s.accepted) h.reg hpos with
            ⟨reg', cells', hadd', hreg, hentries⟩ | hadd'
          · obtain ⟨rfl, -⟩ := Prod.mk.inj (Option.some.inj (hadd'.symm.trans hadd))
            exact ⟨cells', hreg, .inr hentries⟩
          · obtain ⟨rfl, -⟩ := Prod.mk.inj (Option.some.inj (hadd'.symm.trans hadd))
            exact ⟨cells, h.reg, .inl rfl⟩
    exact ⟨cells', h.extend hfd hreg hentries, hentries, rfl, hfd⟩
  · cases hs

/-- **`is_exists_fd`** finds the client of a registered descriptor. -/
theorem isExistsFd (h : s.Linked cells) {fd : Int} (hpos : 0 < fd) {p : Ptr}
    (hp : s.reg.isExistsFd fd = some p) :
    (∃ client, p = some client ∧ (fd, some client) ∈ entriesOf cells) ∨
      (p = none ∧ ∀ q, (fd, q) ∉ entriesOf cells) := by
  rw [h.reg.isExistsFd_eq fd, Option.some.injEq] at hp
  cases hfind : cells.find? fun c => fd = c.2.fd with
  | none =>
      rw [hfind] at hp
      refine .inr ⟨hp.symm, fun q hmem => ?_⟩
      obtain ⟨c, hc, heq⟩ := List.mem_map.mp hmem
      refine List.find?_eq_none.mp hfind c (List.mem_of_mem_filter hc) ?_
      simpa using (congrArg Prod.fst heq).symm
  | some c =>
      rw [hfind] at hp
      have hfd : fd = c.2.fd := by simpa using List.find?_some hfind
      have hne : c.2.fd ≠ 0 := by omega
      have hmem : (fd, c.2.client) ∈ entriesOf cells :=
        List.mem_map.mpr ⟨c,
          List.mem_filter.mpr ⟨List.mem_of_find?_eq_some hfind, by simpa using hne⟩, by rw [hfd]⟩
      obtain ⟨client, hclient, -, -⟩ := h.entry fd _ hmem
      exact .inl ⟨client, hp.symm.trans hclient, hclient ▸ hmem⟩

/-- A descriptor that is not registered is closed. -/
theorem close_unregistered (h : s.Linked cells) {fd : Int} (hfd : ∀ p, (fd, p) ∉ entriesOf cells) :
    (s.close fd).Linked cells := by
  refine ⟨h.reg, ?_, ?_, ?_⟩
  · intro fd' p hmem
    obtain ⟨c, rfl, howner, hlive⟩ := h.entry fd' p hmem
    refine ⟨c, rfl, owner_close.mpr ⟨?_, howner⟩, hlive⟩
    intro heq
    subst heq
    exact hfd _ hmem
  · intro fd' c hc
    exact h.owner_lt fd' c (owner_close.mp hc).2
  · intro fd₁ fd₂ c h₁ h₂
    exact h.owner_inj fd₁ fd₂ c (owner_close.mp h₁).2 (owner_close.mp h₂).2

/-- Registered descriptors are positive. -/
theorem pos_of_mem (h : s.Linked cells) {fd : Int} {p : Ptr} (hmem : (fd, p) ∈ entriesOf cells) :
    0 < fd := by
  obtain ⟨c, hc, heq⟩ := List.mem_map.mp hmem
  obtain ⟨rfl, -⟩ := Prod.mk.inj heq
  have hne : c.2.fd ≠ 0 := by simpa using (List.mem_filter.mp hc).2
  rcases h.reg.shape with ⟨a, n, rfl, hn, -⟩ | ⟨-, hpos⟩
  · obtain rfl := List.mem_singleton.mp (List.mem_of_mem_filter hc)
    exact absurd hn hne
  · exact hpos c (List.mem_of_mem_filter hc)

/-- A connection less. -/
theorem erase (h : s.Linked cells) {cells' : List (Addr × Fd2client)} {reg : Registry} {fd : Int}
    {client : Addr} (hreg : RegInv reg cells') (hmem : (fd, some client) ∈ entriesOf cells)
    (hentries : entriesOf cells' = (entriesOf cells).erase (fd, some client)) :
    Linked (close { s with reg, clients := s.clients.erase client } fd) cells' := by
  have hnodup : (entriesOf cells).Nodup := h.reg.fds.of_map _
  refine ⟨hreg, ?_, ?_, ?_⟩
  · intro fd' p hmem'
    rw [hentries, hnodup.mem_erase_iff] at hmem'
    obtain ⟨hne, hmem'⟩ := hmem'
    obtain ⟨c, rfl, howner, hlive⟩ := h.entry fd' p hmem'
    have howner' := h.owner_of_mem hmem
    have hfd : fd' ≠ fd := by
      intro heq
      subst heq
      rw [howner] at howner'
      exact hne (by rw [howner'])
    have hc : c ≠ client := by
      intro heq
      subst heq
      exact hfd (h.owner_inj fd' fd c howner howner')
    refine ⟨c, rfl, ?_, ?_⟩
    · exact owner_close.mpr ⟨hfd, howner⟩
    · show (s.clients.erase client).get c ≠ none
      rw [Heap.get_erase_ne hc]
      exact hlive
  · intro fd' c hc
    exact h.owner_lt fd' c (owner_close.mp hc).2
  · intro fd₁ fd₂ c h₁ h₂
    exact h.owner_inj fd₁ fd₂ c (owner_close.mp h₁).2 (owner_close.mp h₂).2

/-- **Closing a registered connection** takes its entry out and frees its client. -/
theorem release (h : s.Linked cells) {fd2 : Addr} {node : Fd2client} {fd : Int}
    (hget : s.reg.heap.get fd2 = some node) (hfd : node.fd = fd) (hne : fd ≠ 0)
    (hok : s.DelOk fd2) (hs : s.release fd2 fd = some s') :
    ∃ client cells', node.client = some client ∧ (fd, some client) ∈ entriesOf cells ∧
      s'.Linked cells' ∧ entriesOf cells' = (entriesOf cells).erase (fd, some client) ∧
      s'.owner = Function.update s.owner fd none := by
  subst hfd
  simp only [Sessions.release, hget, Option.bind_eq_bind, Option.bind_some,
    Option.bind_eq_some_iff] at hs
  obtain ⟨client, hclient, clients, hfree, reg, hdel, hs⟩ := hs
  obtain rfl := Option.some.inj hs
  have hcell := (h.reg.owns.get_iff fd2 node).mp hget
  have hmem : (node.fd, some client) ∈ entriesOf cells :=
    List.mem_map.mpr ⟨(fd2, node), List.mem_filter.mpr ⟨hcell, by simpa using hne⟩, by rw [hclient]⟩
  obtain ⟨-, hpos⟩ := h.reg.registered_cell hget (hclient ▸ hmem)
  obtain ⟨xs, ys, rfl⟩ := List.append_of_mem hcell
  have hfirst : xs = [] → node.prev = none := by
    intro heq
    subst heq
    exact hok h.reg.head node hget
  obtain ⟨reg', cells', hdel', hreg, hentries⟩ := delFd2client_spec h.reg hpos hfirst
  obtain rfl := Option.some.inj (hdel'.symm.trans hdel)
  rw [← erase_entriesOf (hpos (fd2, node) (by simp)) h.reg.fds, hclient] at hentries
  have hclients : clients = s.clients.erase client := by
    unfold Heap.free at hfree
    split at hfree
    · exact (Option.some.inj hfree).symm
    · cases hfree
  subst hclients
  exact ⟨client, cells', hclient, hmem, h.erase hreg hmem hentries, hentries, rfl⟩

/-- **`close_client`** does nothing for a descriptor that is not registered. -/
theorem closeClient (h : s.Linked cells) {fd : Int} (hpos : 0 < fd)
    (hok : s.CloseOk fd) (hs : s.closeClient fd = some s') :
    (s' = s ∧ ∀ p, (fd, p) ∉ entriesOf cells) ∨
      ∃ client cells', (fd, some client) ∈ entriesOf cells ∧ s'.Linked cells' ∧
        entriesOf cells' = (entriesOf cells).erase (fd, some client) ∧
        s'.owner = Function.update s.owner fd none := by
  simp only [Sessions.closeClient, Option.bind_eq_bind, Option.bind_eq_some_iff] at hs
  obtain ⟨temp, hfind, hs⟩ := hs
  have hcell := hfind
  rw [h.reg.findFd2client_eq fd, Option.some.injEq] at hcell
  cases temp with
  | none =>
      refine .inl ⟨(Option.some.inj hs).symm, fun p hmem => ?_⟩
      obtain ⟨c, hc, heq⟩ := List.mem_map.mp hmem
      rw [Option.map_eq_none_iff, List.find?_eq_none] at hcell
      refine hcell c (List.mem_of_mem_filter hc) ?_
      simpa using (congrArg Prod.fst heq).symm
  | some fd2 =>
      obtain ⟨c, hc, rfl⟩ := Option.map_eq_some_iff.mp hcell
      have hfd : fd = c.2.fd := by simpa using List.find?_some hc
      have hget := h.reg.owns.holds c (List.mem_of_find?_eq_some hc)
      obtain ⟨client, cells', -, hmem, hlinked, hentries, howner⟩ :=
        h.release hget hfd.symm (by omega) (hok _ (by rw [hfind]; rfl)) hs
      exact .inr ⟨client, cells', hmem, hlinked, hentries, howner⟩

/-- A registered connection that is closed leaves the list. -/
theorem closeClient_of_mem (h : s.Linked cells) {fd : Int} {client : Addr}
    (hmem : (fd, some client) ∈ entriesOf cells) (hok : s.CloseOk fd)
    (hs : s.closeClient fd = some s') :
    ∃ cells', s'.Linked cells' ∧
      ∀ e, e ∈ entriesOf cells' ↔ e ≠ (fd, some client) ∧ e ∈ entriesOf cells := by
  rcases h.closeClient (h.pos_of_mem hmem) hok hs with
    ⟨-, hnot⟩ | ⟨client', cells', hmem', hlinked', hentries, -⟩
  · exact absurd hmem (hnot _)
  · obtain rfl : client = client' :=
      Option.some.inj ((h.owner_of_mem hmem).symm.trans (h.owner_of_mem hmem'))
    have hnodup : (entriesOf cells).Nodup := h.reg.fds.of_map _
    exact ⟨cells', hlinked', fun e => by rw [hentries, hnodup.mem_erase_iff]⟩

end Linked

end Sessions

end SpiderChat
