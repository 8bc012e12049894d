import SpiderChat.Sound

/-!
# SpiderChat.Logins

**Who has logged in.** `Logged` runs the server side by side with its successful logins,
each with the connection that it came from. `Change` says what a step can do to the
connections, to the uids of the clients and to the logins; `Inv` is what follows in every
run: a client carries the uid of the last login on its connection, and 0 before the
first one.

A task that is handled behind the close of its connection writes to a client that has been
freed, and the block may be that of another client by then. Such a step is undefined here.
-/

namespace SpiderChat

open Lib

/-- The user that a call logs in, if it does. -/
def loginOf : HandlerEvent → Option Int64
  | ⟨.setLogin _ uid _ _, _⟩ => some uid
  | _ => none

/-- The user that a handler logs in, if it does. -/
def loginUid (es : List HandlerEvent) : Option Int64 := es.findSome? loginOf

theorem loginUid_of_quiet {es : List HandlerEvent} (h : ∀ e ∈ es, e.1.Quiet) :
    loginUid es = none := by
  refine List.findSome?_eq_none_iff.mpr fun e he => ?_
  have hquiet := h e he
  obtain ⟨c, r⟩ := e
  cases c with
  | setLogin a uid gmid gameid => cases hquiet.2
  | _ => rfl

/-- The client that a call writes to. -/
def Call.target : Call → Ptr
  | .setVersion a _ => some a
  | .setLogin a _ _ _ => some a
  | .setKeepalive a _ => some a
  | _ => none

/-- The server, and the successful logins so far, the last one first. -/
structure Logged where
  server : Server
  logins : List (Addr × Int64)

namespace Sessions

/-- The registered connections, none when the registry is dangling. -/
def entries (s : Sessions) : List (Int × Ptr) := s.reg.entries.getD []

variable {s s' : Sessions} {cells : List (Addr × Fd2client)}

theorem Lists.entries_eq (h : s.Lists cells) : s.entries = entriesOf cells := by
  rw [entries, h.linked.reg.entries_eq, Option.getD_some]

theorem entries_init (a : Addr) : (init a).entries = [] := by
  obtain ⟨cells, hlinked, hnil⟩ := linked_init a
  rw [entries, hlinked.reg.entries_eq, hnil]
  rfl

theorem entries_of_dangling (h : s.reg.Dangling) : s.entries = [] := by
  rw [entries, h.entries]
  rfl

/-- No descriptor is looked up in a dangling registry. -/
theorem findFd2client_of_dangling (h : s.reg.Dangling) (fd : Int) :
    s.reg.findFd2client fd = none :=
  h.search

theorem closeClient_of_dangling (h : s.reg.Dangling) (fd : Int) : s.closeClient fd = none := by
  rw [closeClient, findFd2client_of_dangling h]
  rfl

theorem accept_of_dangling (h : s.reg.Dangling) (fd : Int) (now : Int64) (mem : Ptr) :
    s.accept fd now mem = none := by
  rw [accept, h.addFd2client]
  exact ite_self _

theorem sweep_of_dangling (h : s.reg.Dangling) (mytimestamp : Int64) :
    s.sweep mytimestamp = none := by
  obtain ⟨a, ha, hget⟩ := h
  rw [sweep, ha, sweepFrom, hget]
  rfl

theorem Sound.of_same (h : s.Sound) (hsame : SameConns s s')
    (hfd : ∀ c, s'.fdOf c = s.fdOf c) : s'.Sound := by
  cases h with
  | lists cells h => exact .lists cells (h.of_same hsame hfd)
  | dangling h => exact .dangling (hsame.reg ▸ h)

end Sessions

namespace Logged

/-- The state when `n` workers have been started. -/
def start (a : Addr) (n : Nat) : Logged := ⟨.start a n, []⟩

/-- The login of a step, if it is one. -/
def newLogin (s : Server) : Action → Option (Addr × Int64)
  | .handle worker es =>
      (s.held worker).bind fun r => (loginUid es).map fun uid => (r.conn, uid)
  | _ => none

/-- No call of the step writes to a client that has been freed. -/
def WritesLive (s : Server) : Action → Prop
  | .handle _ es => ∀ e ∈ es, ∀ a ∈ e.1.target, s.sessions.clients.get a ≠ none
  | _ => True

instance (s : Server) : (i : Action) → Decidable (WritesLive s i)
  | .handle _ es => inferInstanceAs (Decidable (∀ e ∈ es, ∀ a ∈ e.1.target, _))
  | .accept _ _ _ => .isTrue trivial
  | .event _ _ => .isTrue trivial
  | .push => .isTrue trivial
  | .pop _ => .isTrue trivial
  | .unlock _ => .isTrue trivial
  | .sweep _ => .isTrue trivial

/-- A step of the server, undefined when it writes to a client that has been freed. -/
def step (parse : Bytes → Option Json) (s : Logged) (i : Action) : Option Logged :=
  if WritesLive s.server i then
    (s.server.step parse i).map fun server =>
      { server, logins := (newLogin s.server i).toList ++ s.logins }
  else none

/-- The uid of the last successful login on a connection. -/
def lastLogin (s : Logged) (conn : Addr) : Option Int64 := s.logins.lookup conn

variable {parse : Bytes → Option Json} {s s' : Logged}

theorem server_of_step {i : Action} (h : s.step parse i = some s') :
    ∃ server, s.server.step parse i = some server ∧
      ⟨server, (newLogin s.server i).toList ++ s.logins⟩ = s' := by
  rw [step] at h
  split at h
  · exact Option.map_eq_some_iff.mp h
  · cases h

/-- The server runs as it does on its own. -/
theorem exec_server {l : List Action} {t : Logged} (h : exec (step parse) s l = some t) :
    exec (Server.step parse) s.server l = some t.server := by
  refine exec_map server (fun s i s' hs => ?_) h
  obtain ⟨server, hserver, rfl⟩ := server_of_step hs
  exact hserver

/-- The invariant. -/
structure Inv (s : Logged) : Prop where
  sound : s.server.sessions.Sound
  /-- A client carries the uid of the last login on its connection. -/
  uid : ∀ c u, s.server.sessions.uidOf (some c) = some u →
    c < s.server.sessions.accepted ∧ u = (s.lastLogin c).getD 0
  /-- A task has the client of the connection that it was received on. -/
  waiting : ∀ r ∈ s.server.waiting,
    0 < r.task.fd ∧ r.task.client = r.conn ∧ r.conn < s.server.sessions.accepted
  logins : ∀ e ∈ s.logins, e.1 < s.server.sessions.accepted

theorem inv_start (a : Addr) (n : Nat) : (start a n).Inv := by
  obtain ⟨cells, hlinked, hnil⟩ := Sessions.linked_init a
  have hwaiting : (start a n).server.waiting = [] := by
    simp [Server.waiting, start, Server.start, Worker.unhandled]
  refine ⟨.lists cells ⟨hlinked, ?_, Sessions.noClient_init a⟩, ?_, ?_, ?_⟩
  · intro fd c hmem
    rw [hnil] at hmem
    cases hmem
  · intro c u hu
    cases hu
  · intro r hr
    rw [hwaiting] at hr
    cases hr
  · intro e he
    cases he

/-! ### What a step does -/

/-- What a step does to the connections, the uids and the logins. -/
inductive Change (s s' : Logged) : Prop
  /-- Connections may be closed. -/
  | keeps (haccepted : s'.server.sessions.accepted = s.server.sessions.accepted)
      (huid : ∀ c u, s'.server.sessions.uidOf (some c) = some u →
        s.server.sessions.uidOf (some c) = some u)
      (hentries : s'.server.sessions.entries.Sublist s.server.sessions.entries)
      (hlogins : s'.logins = s.logins)
  | accepts (fd : Int) (haccepted : s'.server.sessions.accepted = s.server.sessions.accepted + 1)
      (huid : ∀ c, s'.server.sessions.uidOf (some c) =
        if c = s.server.sessions.accepted then some 0 else s.server.sessions.uidOf (some c))
      (hentries : s'.server.sessions.entries = s.server.sessions.entries ∨
        s'.server.sessions.entries =
          s.server.sessions.entries ++ [(fd, some s.server.sessions.accepted)])
      (hlogins : s'.logins = s.logins)
  | logs (r : Request) (uid : Int64) (hr : r ∈ s.server.waiting)
      (haccepted : s'.server.sessions.accepted = s.server.sessions.accepted)
      (huid : ∀ c, s'.server.sessions.uidOf (some c) =
        if c = r.task.client then (s.server.sessions.uidOf (some c)).map fun _ => uid
        else s.server.sessions.uidOf (some c))
      (hentries : s'.server.sessions.entries = s.server.sessions.entries)
      (hlogins : s'.logins = (r.conn, uid) :: s.logins)

theorem change_of_closes {cells : List (Addr × Fd2client)} {server : Server}
    (hlists : s.server.sessions.Lists cells)
    (h : s.server.sessions.Closes cells server.sessions) :
    server.sessions.Sound ∧ Change s ⟨server, s.logins⟩ := by
  obtain ⟨hshrinks, hreg⟩ := h
  have huid : ∀ c u, server.sessions.uidOf (some c) = some u →
      s.server.sessions.uidOf (some c) = some u := fun c u hu => hshrinks.uidOf hu
  rcases hreg with ⟨cells', hlists', hsub⟩ | hdangling
  · refine ⟨.lists cells' hlists', .keeps hshrinks.1 huid ?_ rfl⟩
    rw [hlists.entries_eq, hlists'.entries_eq]
    exact hsub
  · refine ⟨.dangling hdangling, .keeps hshrinks.1 huid ?_ rfl⟩
    rw [Sessions.entries_of_dangling hdangling]
    exact List.nil_sublist _

/-- A step that leaves the sessions alone. -/
theorem change_of_eq {server : Server} (h : server.sessions = s.server.sessions) :
    Change s ⟨server, s.logins⟩ := by
  refine .keeps ?_ (fun c u hu => ?_) ?_ rfl
  · rw [h]
  · rwa [h] at hu
  · rw [h]

/-- The handling of a task. -/
theorem Inv.change_of_handle {worker : Nat} {es : List HandlerEvent} (hinv : s.Inv)
    (hs : s.step parse (.handle worker es) = some s') :
    s'.server.sessions.Sound ∧ Change s s' := by
  have h := hinv.sound
  obtain ⟨server, hserver, rfl⟩ := server_of_step hs
  obtain ⟨r, ret, sessions, hheld, hruns, hexec, rfl⟩ := Server.step_handle hserver
  have hnew : newLogin s.server (.handle worker es) =
      (loginUid es).map fun uid => (r.conn, uid) := by
    rw [newLogin, hheld, Option.bind_some]
  -- a handler that closes nothing and logs nobody in
  have hquiet : (∀ e ∈ es, e.1.Quiet) → sessions.Sound ∧ Change s
      ⟨Server.setWorker { s.server with sessions } worker (if ret = 0 then .idle else .unlocks r),
        (newLogin s.server (.handle worker es)).toList ++ s.logins⟩ := by
    intro hquiet
    have hclose : ∀ e ∈ es, e.1.isClose = false := fun e he => (hquiet e he).1
    have hlogin : ∀ c, ∀ e ∈ es, e.1.logsIn c = false := fun c e he =>
      Call.logsIn_eq_false (hquiet e he).2 c
    have hsame := Sessions.exec_respond_stay hclose hexec
    refine ⟨h.of_same hsame fun c => Sessions.exec_fdOf hclose c hexec,
      .keeps hsame.accepted ?_ ?_ ?_⟩
    · intro c u hu
      rwa [← Sessions.exec_uidOf hclose (hlogin c) hexec]
    · show sessions.entries.Sublist s.server.sessions.entries
      rw [Sessions.entries, hsame.reg]
      exact .refl _
    · rw [hnew, loginUid_of_quiet hquiet]
      rfl
  by_cases hcmd : r.task.cmd = HANDLE_LOGIN
  · obtain ⟨hes | ⟨d, rest, rfl, hrest⟩, -⟩ := runs_handleData_of_login hruns hcmd
    · exact hquiet fun e he => Call.quiet_of_writes (hes e he)
    · have hclose : ∀ e ∈ (⟨.setVersion r.task.client (versionField d.app_version), ()⟩ ::
          ⟨.setLogin r.task.client d.uid d.mid d.gameid, ()⟩ :: rest : List HandlerEvent),
          e.1.isClose = false := by
        refine (runs_handleData_of_not_closes hruns ?_).1
        rintro (hc | ⟨hc, -⟩) <;> rw [hcmd] at hc <;> cases hc
      have hsame := Sessions.exec_respond_stay hclose hexec
      refine ⟨h.of_same hsame fun c => Sessions.exec_fdOf hclose c hexec,
        .logs r d.uid (Server.mem_waiting_of_held hheld) hsame.accepted ?_ ?_ ?_⟩
      · intro c
        obtain ⟨m₁, h₁, hexec₁⟩ := exec_cons.mp hexec
        obtain ⟨m₂, h₂, hexec₂⟩ := exec_cons.mp hexec₁
        obtain rfl := Sessions.exec_respond_of_not_writes hrest hexec₂
        have hversion := fun c => Sessions.uidOf_respond rfl rfl h₁ c
        refine (Sessions.uidOf_respond_setLogin h₂ c).trans ?_
        rw [hversion, hversion]
        split
        · rename_i heq
          rw [heq]
        · rfl
      · show sessions.entries = s.server.sessions.entries
        rw [Sessions.entries, hsame.reg]
        rfl
      · rw [hnew]
        rfl
  · by_cases hcloses : r.task.Closes
    · obtain ⟨⟨client, rfl⟩, -⟩ := runs_handleData_of_closes hruns hcloses
      have hclose := Sessions.exec_respond_close hexec
      cases h with
      | lists cells hlists =>
          obtain ⟨hpos, -⟩ := hinv.waiting r (Server.mem_waiting_of_held hheld)
          have hnone : (newLogin s.server (.handle worker [⟨.readClient r.task.client, client⟩,
              ⟨.closeClient r.task.fd, ()⟩])).toList ++ s.logins = s.logins := by
            rw [hnew]
            rfl
          rw [hnone]
          have hcloses' := hlists.closeClient hpos hclose
          exact change_of_closes hlists hcloses'
      | dangling hdangling =>
          rw [Sessions.closeClient_of_dangling hdangling] at hclose
          cases hclose
    · exact hquiet (runs_handleData_of_quiet hruns hcmd hcloses).1

/-- **What a step does**, from any state of a run. -/
theorem Inv.change {i : Action} (h : s.Inv) (hs : s.step parse i = some s') :
    s'.server.sessions.Sound ∧ Change s s' := by
  cases i with
  | accept fd now mem =>
      obtain ⟨server, hserver, rfl⟩ := server_of_step hs
      obtain ⟨sessions, haccept, rfl⟩ := Option.map_eq_some_iff.mp hserver
      cases h.sound with
      | lists cells hlists =>
          obtain ⟨cells', hlists', haccepted, hentries, huid⟩ := hlists.accept haccept
          refine ⟨.lists cells' hlists', .accepts fd haccepted huid ?_ rfl⟩
          rw [hlists.entries_eq]
          show sessions.entries = _ ∨ sessions.entries = _
          rw [hlists'.entries_eq]
          exact hentries
      | dangling hdangling =>
          rw [Sessions.accept_of_dangling hdangling] at haccept
          cases haccept
  | event fd es =>
      obtain ⟨server, hserver, rfl⟩ := server_of_step hs
      obtain ⟨hpos, -, hcase⟩ := Server.step_event hserver
      cases h.sound with
      | lists cells hlists =>
          rcases hcase with ⟨hnull, rfl⟩ | ⟨client, conn, outcome, -, -, -, houtcome⟩
          · rcases hlists.linked.isExistsFd hpos hnull with ⟨client, hclient, -⟩ | ⟨-, hnot⟩
            · cases hclient
            · exact change_of_closes hlists (hlists.close_unregistered hnot)
          · cases outcome with
            | skip =>
                obtain rfl := Option.some.inj houtcome
                exact ⟨h.sound, change_of_eq rfl⟩
            | task cmd data =>
                obtain rfl := Option.some.inj houtcome
                exact ⟨h.sound, change_of_eq rfl⟩
            | close =>
                obtain ⟨sessions, hclose, rfl⟩ := Option.map_eq_some_iff.mp houtcome
                exact change_of_closes hlists (hlists.closeClient hpos hclose)
      | dangling hdangling =>
          have hnone : s.server.sessions.reg.isExistsFd fd = none := by
            rw [Registry.isExistsFd, Sessions.findFd2client_of_dangling hdangling]
            rfl
          rw [hnone] at hcase
          rcases hcase with ⟨hnull, -⟩ | ⟨_, _, _, hnull, -⟩ <;> cases hnull
  | push =>
      obtain ⟨server, hserver, rfl⟩ := server_of_step hs
      obtain ⟨r, -, rfl⟩ := Option.map_eq_some_iff.mp hserver
      exact ⟨h.sound, change_of_eq rfl⟩
  | pop worker =>
      obtain ⟨server, hserver, rfl⟩ := server_of_step hs
      obtain ⟨r, queue, -, rfl⟩ := Server.step_pop hserver
      exact ⟨h.sound, change_of_eq rfl⟩
  | handle worker es => exact h.change_of_handle hs
  | unlock worker =>
      obtain ⟨server, hserver, rfl⟩ := server_of_step hs
      obtain rfl := Server.step_unlock hserver
      exact ⟨h.sound, change_of_eq rfl⟩
  | sweep mytimestamp =>
      obtain ⟨server, hserver, rfl⟩ := server_of_step hs
      obtain ⟨sessions, hsweep, rfl⟩ := Option.map_eq_some_iff.mp hserver
      cases h.sound with
      | lists cells hlists => exact change_of_closes hlists (hlists.sweep hsweep)
      | dangling hdangling =>
          rw [Sessions.sweep_of_dangling hdangling] at hsweep
          cases hsweep

/-! ### The invariant -/

theorem Change.accepted_le (h : Change s s') :
    s.server.sessions.accepted ≤ s'.server.sessions.accepted := by
  cases h with
  | keeps haccepted => omega
  | accepts fd haccepted => omega
  | logs r uid hr haccepted => omega

/-- Nobody has logged in on a connection that is not there yet. -/
theorem Inv.lastLogin_accepted (h : s.Inv) : s.lastLogin s.server.sessions.accepted = none := by
  refine List.lookup_eq_none_iff.mpr fun e he => ?_
  have hlt := h.logins e he
  simpa using Nat.ne_of_gt hlt

/-- The tasks keep to their connections. -/
theorem Inv.waiting_step {i : Action} (h : s.Inv) (hs : s.step parse i = some s')
    (hle : s.server.sessions.accepted ≤ s'.server.sessions.accepted) :
    ∀ r ∈ s'.server.waiting,
      0 < r.task.fd ∧ r.task.client = r.conn ∧ r.conn < s'.server.sessions.accepted := by
  intro r hr
  obtain ⟨server, hserver, rfl⟩ := server_of_step hs
  rcases Server.mem_waiting_step hserver hr with hr |
    ⟨fd, es, client, conn, cmd, data, rfl, hexists, hconn, rfl⟩
  · obtain ⟨hpos, hclient, hlt⟩ := h.waiting r hr
    exact ⟨hpos, hclient, Nat.lt_of_lt_of_le hlt hle⟩
  · obtain ⟨hpos, -⟩ := Server.step_event hserver
    cases h.sound with
    | lists cells hlists =>
        rcases hlists.linked.isExistsFd hpos hexists with ⟨c, hc, hmem⟩ | ⟨hc, -⟩
        · obtain rfl := Option.some.inj hc
          have howner := hlists.linked.owner_of_mem hmem
          exact ⟨hpos, Option.some.inj (howner.symm.trans hconn),
            Nat.lt_of_lt_of_le (hlists.linked.owner_lt fd conn hconn) hle⟩
        · cases hc
    | dangling hdangling =>
        rw [Registry.isExistsFd, Sessions.findFd2client_of_dangling hdangling] at hexists
        cases hexists

/-- **The step lemma.** -/
theorem Inv.step {i : Action} (h : s.Inv) (hs : s.step parse i = some s') : s'.Inv := by
  obtain ⟨hsound, hchange⟩ := h.change hs
  have hle := hchange.accepted_le
  refine ⟨hsound, ?_, h.waiting_step hs hle, ?_⟩
  · intro c u hu
    cases hchange with
    | keeps haccepted huid hentries hlogins =>
        obtain ⟨hlt, heq⟩ := h.uid c u (huid c u hu)
        rw [haccepted, lastLogin, hlogins]
        exact ⟨hlt, heq⟩
    | accepts fd haccepted huid hentries hlogins =>
        rw [huid] at hu
        rw [haccepted, lastLogin, hlogins]
        split at hu
        · rename_i heq
          have hnone := h.lastLogin_accepted
          rw [lastLogin] at hnone
          rw [heq, hnone]
          exact ⟨Nat.lt_succ_self _, (Option.some.inj hu).symm⟩
        · obtain ⟨hlt, heq⟩ := h.uid c u hu
          exact ⟨Nat.lt_succ_of_lt hlt, heq⟩
    | logs r uid hr haccepted huid hentries hlogins =>
        obtain ⟨-, hclient, -⟩ := h.waiting r hr
        rw [huid] at hu
        rw [haccepted, lastLogin, hlogins, List.lookup_cons]
        split at hu
        · rename_i heq
          obtain ⟨u', hu', rfl⟩ := Option.map_eq_some_iff.mp hu
          obtain ⟨hlt, -⟩ := h.uid c u' hu'
          rw [heq, hclient] at hlt ⊢
          simpa using hlt
        · rename_i hne
          obtain ⟨hlt, heq⟩ := h.uid c u hu
          have hbeq : (c == r.conn) = false := by simpa [← hclient] using hne
          rw [hbeq]
          exact ⟨hlt, heq⟩
  · intro e he
    cases hchange with
    | keeps haccepted huid hentries hlogins =>
        rw [hlogins] at he
        exact Nat.lt_of_lt_of_le (h.logins e he) hle
    | accepts fd haccepted huid hentries hlogins =>
        rw [hlogins] at he
        exact Nat.lt_of_lt_of_le (h.logins e he) hle
    | logs r uid hr haccepted huid hentries hlogins =>
        rw [hlogins] at he
        rcases List.mem_cons.mp he with rfl | he
        · exact Nat.lt_of_lt_of_le (h.waiting r hr).2.2 hle
        · exact Nat.lt_of_lt_of_le (h.logins e he) hle

/-! ### Runs of requests -/

/-- The calls of an event that finds a request. -/
def requestReads (cmd : Int32) (data : Bytes) : List ReadEvent :=
  whole readPacket (PacketHead.encode ⟨.ofNat data.length, ascii "BY", 1, cmd, 1000,
    PACKET_HEAD_CODE⟩ ++ data)

/-- A request that is read, queued and handled. -/
def served (worker : Nat) (fd : Int) (cmd : Int32) (data : Bytes) (es : List HandlerEvent) :
    List Action :=
  [.event fd (requestReads cmd data), .push, .pop worker, .handle worker es, .unlock worker]

/-- A login request. -/
def loginData (uid : Int) : Bytes :=
  ascii "\x7b\"uid\":" ++ decInt uid ++
    ascii ",\"mid\":1,\"gameid\":1000,\"app_version\":\"1\"\x7d"

/-- The client of a user who has logged in like this. -/
def userClient (fd : Int) (uid : Int64) : SpiderClient :=
  ⟨fd, uid, 1, 1000, versionField (ascii "1"), 0⟩

/-- The calls of a login; there is no connection to the database. -/
def loginCalls (client : Addr) (fd : Int) (uid : Int64) : List HandlerEvent :=
  [⟨.setVersion client (versionField (ascii "1")), ()⟩, ⟨.setLogin client uid 1 1000, ()⟩,
    ⟨.readClient client, userClient fd uid⟩,
    ⟨.send fd ((frame HANDLE_LOGIN 1000 (retPayload 1)).getD []), 0⟩,
    ⟨.readClient client, userClient fd uid⟩, ⟨.getConnect, none⟩]

end Logged

end SpiderChat
