import SpiderChat.Logins

/-!
# SpiderChat.OneSession

**One session per user.** `findClientByUid` returns the first client of the registry that
has a uid. It is the client of the user's last login when no other registered client has
the uid, and `mod_login` does not look whether there is one. `Allowed` is the condition
on a login that keeps the sessions unique and the users where they have last logged in.
-/

namespace SpiderChat

open Lib

namespace Logged

/-- The connection of the last successful login of a user. -/
def lastFor (s : Logged) (uid : Int64) : Option Addr :=
  (s.logins.find? fun e => e.2 = uid).map Prod.fst

/-- At most one registered client carries a uid of a user. -/
def Unique (s : Logged) : Prop :=
  ∀ e ∈ s.server.sessions.entries, ∀ e' ∈ s.server.sessions.entries, ∀ uid, uid ≠ 0 →
    s.server.sessions.uidOf e.2 = some uid → s.server.sessions.uidOf e'.2 = some uid → e.2 = e'.2

/-- A user is found on the connection of the last login, while that is registered. -/
def Found (s : Logged) : Prop :=
  ∀ uid c fd, uid ≠ 0 → s.lastFor uid = some c → s.server.sessions.Registered fd c →
    s.server.sessions.findClientByUid uid = some (some c)

/-- The client of the last login of a user has the user's uid, while it is registered. -/
def Carried (s : Logged) : Prop :=
  ∀ uid c fd, uid ≠ 0 → s.lastFor uid = some c → s.server.sessions.Registered fd c →
    s.server.sessions.uidOf (some c) = some uid

/-- The condition on a step: a user logs in on a registered client only while no other
registered client has the uid, and while the client does not serve another user who has
last logged in there. -/
def Allowed (s : Logged) (i : Action) : Prop :=
  ∀ c uid fd, newLogin s.server i = some (c, uid) → s.server.sessions.Registered fd c →
    (uid ≠ 0 → ∀ e ∈ s.server.sessions.entries, s.server.sessions.uidOf e.2 = some uid →
      e.2 = some c) ∧
    ∀ uid', s.server.sessions.uidOf (some c) = some uid' →
      uid' = 0 ∨ uid' = uid ∨ s.lastFor uid' ≠ some c

variable {parse : Bytes → Option Json} {s s' : Logged}

/-- The last login of a user is on a connection that has been accepted. -/
theorem Inv.lastFor_lt (h : s.Inv) {uid : Int64} {c : Addr} (hlast : s.lastFor uid = some c) :
    c < s.server.sessions.accepted := by
  obtain ⟨e, he, rfl⟩ := Option.map_eq_some_iff.mp hlast
  exact h.logins e (List.mem_of_find?_eq_some he)

theorem lastFor_of_logins_eq (h : s'.logins = s.logins) (uid : Int64) :
    s'.lastFor uid = s.lastFor uid := by
  rw [lastFor, lastFor, h]

theorem lastFor_of_logins_cons {c : Addr} {uid : Int64} (h : s'.logins = (c, uid) :: s.logins)
    (uid' : Int64) : s'.lastFor uid' = if uid = uid' then some c else s.lastFor uid' := by
  rw [lastFor, h, List.find?_cons]
  split
  · rename_i heq
    rw [if_pos (by simpa using heq)]
    rfl
  · rename_i heq
    rw [if_neg (by simpa using heq)]
    rfl

/-- A registered client has not been freed. -/
theorem Inv.uidOf_ne_none (h : s.Inv) {fd : Int} {c : Addr}
    (hreg : s.server.sessions.Registered fd c) : s.server.sessions.uidOf (some c) ≠ none := by
  cases h.sound with
  | lists cells hlists => exact hlists.uidOf_ne_none (hlists.linked.registered_iff.mp hreg)
  | dangling hdangling =>
      have hmem : (fd, some c) ∈ s.server.sessions.entries := hreg
      rw [Sessions.entries_of_dangling hdangling] at hmem
      cases hmem

/-- Every registered connection has a client. -/
theorem Inv.client_of_mem (h : s.Inv) {e : Int × Ptr} (he : e ∈ s.server.sessions.entries) :
    ∃ c, e.2 = some c ∧ s.server.sessions.Registered e.1 c := by
  cases h.sound with
  | lists cells hlists =>
      rw [hlists.entries_eq] at he
      obtain ⟨c, hc, -, -⟩ := hlists.linked.entry e.1 e.2 he
      exact ⟨c, hc, hlists.linked.registered_iff.mpr (hc ▸ he)⟩
  | dangling hdangling =>
      rw [Sessions.entries_of_dangling hdangling] at he
      cases he

/-- With unique sessions, a user is found on the client that carries the uid. -/
theorem Inv.found (h : s.Inv) (hunique : s.Unique) (hcarried : s.Carried) : s.Found := by
  intro uid c fd hne hlast hreg
  have hu := hcarried uid c fd hne hlast hreg
  cases h.sound with
  | lists cells hlists =>
      have hmem := hlists.linked.registered_iff.mp hreg
      refine hlists.findClientByUid_of_unique hmem hu fun e he heu => ?_
      rw [← hlists.entries_eq] at he
      exact hunique e he (fd, some c) hreg uid hne heu hu
  | dangling hdangling =>
      have hmem : (fd, some c) ∈ s.server.sessions.entries := hreg
      rw [Sessions.entries_of_dangling hdangling] at hmem
      cases hmem

/-- The login of a step. -/
theorem newLogin_toList {i : Action} (hs : s.step parse i = some s') :
    s'.logins = (newLogin s.server i).toList ++ s.logins := by
  obtain ⟨server, -, rfl⟩ := server_of_step hs
  rfl

theorem newLogin_of_logs {i : Action} (hs : s.step parse i = some s') {p : Addr × Int64}
    (hlogins : s'.logins = p :: s.logins) : newLogin s.server i = some p := by
  rw [newLogin_toList hs] at hlogins
  have hlist : (newLogin s.server i).toList ++ s.logins = [p] ++ s.logins := hlogins
  exact Option.toList_eq_singleton_iff.mp (List.append_cancel_right hlist)

/-! ### What an allowed step keeps -/

theorem Unique.step {i : Action} (hinv : s.Inv) (h : s.Unique) (hok : s.Allowed i)
    (hs : s.step parse i = some s') : s'.Unique := by
  obtain ⟨-, hchange⟩ := hinv.change hs
  intro e he e' he' uid hne hu hu'
  have hinv' := hinv.step hs
  obtain ⟨c, hc, -⟩ := hinv'.client_of_mem he
  obtain ⟨c', hc', -⟩ := hinv'.client_of_mem he'
  rw [hc] at hu
  rw [hc'] at hu'
  cases hchange with
  | keeps haccepted huid hentries hlogins =>
      have hold := huid c uid hu
      have hold' := huid c' uid hu'
      rw [← hc] at hold
      rw [← hc'] at hold'
      exact h e (hentries.subset he) e' (hentries.subset he') uid hne hold hold'
  | accepts fd haccepted huid hentries hlogins =>
      -- the new client has the uid 0
      have hmem : ∀ (d : Addr) (x : Int × Ptr), x.2 = some d →
          s'.server.sessions.uidOf (some d) = some uid → x ∈ s'.server.sessions.entries →
          s.server.sessions.uidOf x.2 = some uid ∧ x ∈ s.server.sessions.entries := by
        intro d x hd hxu hx
        rw [huid] at hxu
        split at hxu
        · exact absurd (Option.some.inj hxu).symm hne
        · rename_i hold
          refine ⟨hd ▸ hxu, ?_⟩
          rcases hentries with heq | heq
          · exact heq ▸ hx
          · rw [heq] at hx
            refine (List.mem_append.mp hx).resolve_right fun hnew => hold ?_
            rw [List.mem_singleton.mp hnew] at hd
            exact (Option.some.inj hd).symm
      obtain ⟨hold, hmem₁⟩ := hmem c e hc hu he
      obtain ⟨hold', hmem₂⟩ := hmem c' e' hc' hu' he'
      exact h e hmem₁ e' hmem₂ uid hne hold hold'
  | logs r uid₀ hr haccepted huid hentries hlogins =>
      obtain ⟨-, hclient, -⟩ := hinv.waiting r hr
      have hnew := newLogin_of_logs hs hlogins
      rw [hentries] at he he'
      obtain ⟨c₁, hc₁, hreg⟩ := hinv.client_of_mem he
      obtain ⟨c₂, hc₂, hreg'⟩ := hinv.client_of_mem he'
      obtain rfl := Option.some.inj (hc.symm.trans hc₁)
      obtain rfl := Option.some.inj (hc'.symm.trans hc₂)
      rw [huid, hclient] at hu hu'
      rw [hc, hc']
      split at hu
      · rename_i heq
        subst heq
        split at hu'
        · rename_i heq'
          rw [heq']
        · obtain ⟨-, -, rfl⟩ := Option.map_eq_some_iff.mp hu
          have hsame := (hok _ _ _ hnew hreg).1 hne e' he' (hc' ▸ hu')
          exact hsame.symm.trans hc'
      · split at hu'
        · rename_i heq'
          subst heq'
          obtain ⟨-, -, rfl⟩ := Option.map_eq_some_iff.mp hu'
          have hsame := (hok _ _ _ hnew hreg').1 hne e he (hc ▸ hu)
          exact hc.symm.trans hsame
        · rw [← hc, ← hc']
          exact h e he e' he' uid hne (hc ▸ hu) (hc' ▸ hu')

theorem Carried.step {i : Action} (hinv : s.Inv) (h : s.Carried) (hok : s.Allowed i)
    (hs : s.step parse i = some s') : s'.Carried := by
  obtain ⟨-, hchange⟩ := hinv.change hs
  intro uid c fd hne hlast hreg
  have hlive := (hinv.step hs).uidOf_ne_none hreg
  cases hchange with
  | keeps haccepted huid hentries hlogins =>
      rw [lastFor_of_logins_eq hlogins] at hlast
      obtain ⟨uid', huid'⟩ := Option.ne_none_iff_exists'.mp hlive
      have hold := h uid c fd hne hlast (hentries.subset hreg)
      rw [huid', ← hold, huid c uid' huid']
  | accepts fd' haccepted huid hentries hlogins =>
      rw [lastFor_of_logins_eq hlogins] at hlast
      have hlt := hinv.lastFor_lt hlast
      have hold : c ≠ s.server.sessions.accepted := Nat.ne_of_lt hlt
      rw [huid, if_neg hold]
      have hmem : (fd, some c) ∈ s'.server.sessions.entries := hreg
      refine h uid c fd hne hlast ?_
      rcases hentries with heq | heq
      · rw [heq] at hmem
        exact hmem
      · rw [heq] at hmem
        refine (List.mem_append.mp hmem).resolve_right fun hnew => hold ?_
        exact Option.some.inj (Prod.mk.inj (List.mem_singleton.mp hnew)).2
  | logs r uid₀ hr haccepted huid hentries hlogins =>
      obtain ⟨-, hclient, -⟩ := hinv.waiting r hr
      have hreg' : s.server.sessions.Registered fd c := by
        have hmem : (fd, some c) ∈ s'.server.sessions.entries := hreg
        rw [hentries] at hmem
        exact hmem
      rw [lastFor_of_logins_cons hlogins] at hlast
      rw [huid, hclient]
      split at hlast
      · rename_i heq
        obtain rfl := Option.some.inj hlast
        obtain ⟨uid', huid'⟩ := Option.ne_none_iff_exists'.mp (hinv.uidOf_ne_none hreg')
        rw [if_pos rfl, huid', heq]
        rfl
      · rename_i hother
        have hold := h uid c fd hne hlast hreg'
        by_cases hc : c = r.conn
        · -- the connection would go over to another user
          subst hc
          have hnew := newLogin_of_logs hs hlogins
          rcases (hok _ _ _ hnew hreg').2 uid hold with hzero | heq | hnot
          · exact absurd hzero hne
          · exact absurd heq.symm hother
          · exact absurd hlast hnot
        · rw [if_neg hc]
          exact hold

/-- A login that is not allowed breaks one or the other. -/
theorem not_found_of_not_allowed {i : Action} (hinv : s.Inv) (hbad : ¬ s.Allowed i)
    (hs : s.step parse i = some s') : ¬ (s'.Unique ∧ s'.Found) := by
  intro hgood
  obtain ⟨hunique, hfound⟩ := hgood
  refine hbad fun c uid fd hnew hreg => ?_
  have hlogins : s'.logins = (c, uid) :: s.logins := by
    rw [newLogin_toList hs, hnew]
    rfl
  have hlen := congrArg List.length hlogins
  rw [List.length_cons] at hlen
  obtain ⟨-, hchange⟩ := hinv.change hs
  cases hchange with
  | keeps haccepted huid hentries hlogins' =>
      rw [hlogins'] at hlen
      omega
  | accepts fd' haccepted huid hentries hlogins' =>
      rw [hlogins'] at hlen
      omega
  | logs r uid₀ hr haccepted huid hentries hlogins' =>
      obtain ⟨-, hclient, -⟩ := hinv.waiting r hr
      rw [hlogins'] at hlogins
      obtain ⟨hpair, -⟩ := List.cons.inj hlogins
      obtain ⟨rfl, rfl⟩ := Prod.mk.inj hpair
      obtain ⟨old, hold⟩ := Option.ne_none_iff_exists'.mp (hinv.uidOf_ne_none hreg)
      have hnow : s'.server.sessions.uidOf (some r.conn) = some uid₀ := by
        rw [huid, hclient, if_pos rfl, hold]
        rfl
      have hreg' : s'.server.sessions.Registered fd r.conn := by
        show (fd, some r.conn) ∈ s'.server.sessions.entries
        rw [hentries]
        exact hreg
      constructor
      · intro hne e he heu
        obtain ⟨c, hc, -⟩ := hinv.client_of_mem he
        by_cases hsame : c = r.conn
        · rw [hc, hsame]
        · rw [hc] at heu
          have hother : s'.server.sessions.uidOf e.2 = some uid₀ := by
            rw [hc, huid, hclient, if_neg hsame, heu]
          exact hunique e (hentries ▸ he) (fd, some r.conn) hreg' uid₀ hne hother hnow
      · intro uid' huid'
        by_contra hno
        simp only [not_or, not_not] at hno
        obtain ⟨hne, hother, hlast⟩ := hno
        have hlast' : s'.lastFor uid' = some r.conn := by
          rw [lastFor_of_logins_cons hlogins', if_neg fun heq => hother heq.symm, hlast]
        have hfind := hfound uid' r.conn fd hne hlast' hreg'
        have hcarries := (Sessions.uidOf_of_findClientByUid hfind).resolve_left nofun
        rw [hnow] at hcarries
        exact hother (Option.some.inj hcarries).symm

/-- **One session per user**: in every state of a run at most one registered client carries
a uid of a user, and every user is found on the connection of the last login as long as
that is registered, if and only if every login of the run is `Allowed`. No handler of the run
writes to a client that has been freed. -/
theorem one_session_iff (parse : Bytes → Option Json) (a : Addr) (n : Nat) (l : List Action)
    (t : Logged) (hrun : exec (step parse) (start a n) l = some t) :
    Along (step parse) (fun s => s.Unique ∧ s.Found) (start a n) l ↔
      AllSteps (step parse) Allowed (start a n) l := by
  have hstart : (start a n).Inv ∧ (start a n).Unique ∧ (start a n).Carried := by
    refine ⟨inv_start a n, fun e he => ?_, nofun⟩
    rw [show (start a n).server.sessions.entries = [] from Sessions.entries_init a] at he
    cases he
  refine along_iff_allSteps (fun s (h : s.Inv ∧ s.Unique ∧ s.Carried) =>
    ⟨h.2.1, h.1.found h.2.1 h.2.2⟩) ?_ ?_ hstart hrun
  · intro s i s' h hok hs
    exact ⟨h.1.step hs, h.2.1.step h.1 hok hs, h.2.2.step h.1 hok hs⟩
  · intro s i s' h hbad hs
    exact not_found_of_not_allowed h.1 hbad hs

/-- User 7 logs in and out, and logs in again on a new connection. -/
def againRun : List Action :=
  .accept 5 0 none :: served 0 5 HANDLE_LOGIN (loginData 7) (loginCalls 0 5 7) ++
    [.event 5 (requestReads HANDLE_LOGINOUT (ascii "x")), .push, .pop 0,
      .handle 0 [⟨.readClient 0, userClient 5 7⟩, ⟨.closeClient 5, ()⟩]] ++
    .accept 5 0 none :: served 1 5 HANDLE_LOGIN (loginData 7) (loginCalls 1 5 7)

theorem one_session_iff_again :
    (exec (step Json.parse) (start 10 2) againRun).isSome ∧
      (Along (step Json.parse) (fun s => s.Unique ∧ s.Found) (start 10 2) againRun ↔
        AllSteps (step Json.parse) Allowed (start 10 2) againRun) := by
  have hend : (exec (step Json.parse) (start 10 2) againRun).isSome := by decide +kernel
  obtain ⟨t, hrun⟩ := Option.isSome_iff_exists.mp hend
  exact ⟨hend, one_session_iff Json.parse 10 2 againRun t hrun⟩

/-- User 7 logs in on a new connection while the old one lingers: both clients carry the
uid, and the old one is found. -/
theorem old_session_found :
    ∃ t, exec (step Json.parse) (start 10 2) ([.accept 5 0 none, .accept 6 0 (some 11)] ++
        served 0 5 HANDLE_LOGIN (loginData 7) (loginCalls 0 5 7) ++
        served 1 6 HANDLE_LOGIN (loginData 7) (loginCalls 1 6 7)) = some t ∧
      t.lastFor 7 = some 1 ∧ t.server.sessions.Registered 6 1 ∧
      t.server.sessions.findClientByUid 7 = some (some 0) ∧ ¬ t.Unique ∧ ¬ t.Found := by
  have hend : (exec (step Json.parse) (start 10 2) ([.accept 5 0 none, .accept 6 0 (some 11)] ++
      served 0 5 HANDLE_LOGIN (loginData 7) (loginCalls 0 5 7) ++
      served 1 6 HANDLE_LOGIN (loginData 7) (loginCalls 1 6 7))).map
      (fun t => ((t.lastFor 7, t.server.sessions.entries),
        (t.server.sessions.findClientByUid 7, t.server.sessions.uidOf (some 1)))) =
      some ((some 1, [(5, some 0), (6, some 1)]), (some (some 0), some 7)) := by
    decide +kernel
  obtain ⟨t, hrun, hend⟩ := Option.map_eq_some_iff.mp hend
  simp only [Prod.mk.injEq] at hend
  obtain ⟨⟨hlast, hentries⟩, hfind, hone⟩ := hend
  have hzero := (Sessions.uidOf_of_findClientByUid hfind).resolve_left nofun
  have hreg : t.server.sessions.Registered 6 1 := by
    show (6, some 1) ∈ t.server.sessions.entries
    rw [hentries]
    decide
  refine ⟨t, hrun, hlast, hreg, hfind, fun hunique => ?_, fun hfound => ?_⟩
  · have hsame := hunique (5, some 0) (by simp [hentries]) (6, some 1) (by simp [hentries]) 7
      (by decide) hzero hone
    cases hsame
  · have hnew := hfound 7 1 6 (by decide) hlast hreg
    rw [hfind] at hnew
    cases hnew

end Logged

end SpiderChat
