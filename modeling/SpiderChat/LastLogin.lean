import SpiderChat.Sound

/-!
# SpiderChat.LastLogin

**The logins of a connection, one after another.** `mod_login` tests the members of a
payload one by one and writes to the client behind the last test, so a login that fails
leaves the client as it is, and one that succeeds sets all of its identity.
`identity_of_last_login` puts this together for every sequence of logins.

Of an `app_version` that has a zero byte, which `\u0000` stands for in a payload, `strncpy`
copies what comes before it.
-/

namespace SpiderChat

open Lib Handler

/-- What `mod_login` writes to a client. -/
structure Identity where
  uid : Int64
  gmid : Int64
  gameid : Int32
  app_version : Bytes
  deriving Repr, DecidableEq

def SpiderClient.identity (client : SpiderClient) : Identity :=
  ⟨client.uid, client.gmid, client.gameid, client.app_version⟩

def LoginData.identity (d : LoginData) : Identity :=
  ⟨d.uid, d.mid, d.gameid, versionField d.app_version⟩

/-- The values of an object with four members, in their order in the text. -/
def loginValues : Option Json → Option LoginData
  | some (.obj [(_, .int uid), (_, .int mid), (_, .int gameid), (_, .str version)]) =>
      some
        { uid := .ofInt uid, mid := .ofInt mid, gameid := (Int64.ofInt gameid).toInt32,
          app_version := version }
  | _ => none

/-- What `mod_login` takes are the values of the members. -/
theorem loginValues_of_loginMembers {ms : List (Bytes × Json)} {d : LoginData}
    (h : loginMembers ms = some (some d)) : loginValues (some (.obj ms)) = some d := by
  obtain ⟨-, uid, mid, gameid, version, hvalues, rfl⟩ := loginMembers_eq_some_iff.mp h
  obtain ⟨⟨k₀, v₀⟩, ⟨k₁, v₁⟩, ⟨k₂, v₂⟩, ⟨k₃, v₃⟩, rfl⟩ : ∃ a b c d, ms = [a, b, c, d] :=
    List.length_eq_four.mp (by simpa using congrArg List.length hvalues)
  simp only [List.map_cons, List.map_nil, List.cons.injEq, and_true] at hvalues
  obtain ⟨rfl, rfl, rfl, rfl⟩ := hvalues
  rfl

theorem loginValues_of_logins {parse : Bytes → Option Json} {data : Bytes} {d : LoginData}
    (h : logins parse data = some d) : loginValues (parse (cstr data)) = some d := by
  unfold logins at h
  split at h
  · rename_i ms hms
    rw [hms]
    exact loginValues_of_loginMembers (Option.join_eq_some_iff.mp h)
  · cases h

/-- A login that is handled: its payload, and the calls of `handle_login`. -/
structure LoginCall where
  data : Bytes
  es : List HandlerEvent

namespace LastLogin

section

variable (parse : Bytes → Option Json) (fd : Int) (client : Addr)

/-- `handle_login` on the connection. -/
def step (s : Sessions) (c : LoginCall) : Option Sessions :=
  if (handleLogin parse ⟨fd, client, HANDLE_LOGIN, c.data⟩).replay c.es = some () then
    exec Sessions.respond s c.es
  else none

/-- `mod_login` returns success. -/
def Succeeds (c : LoginCall) : Prop :=
  ∃ es, (modLogin parse client c.data).Runs es _HANDLE_SUCCESSFUL

end

variable {parse : Bytes → Option Json} {fd : Int} {client : Addr} {s s' : Sessions} {c : LoginCall}

theorem step_runs (h : step parse fd client s c = some s') :
    (handleLogin parse ⟨fd, client, HANDLE_LOGIN, c.data⟩).Runs c.es () ∧
      exec Sessions.respond s c.es = some s' := by
  unfold step at h
  split at h
  · exact ⟨Prog.replay_eq_some.mp ‹_›, h⟩
  · cases h

/-- A login that fails changes nothing. -/
theorem step_of_fails (hfail : ¬ Succeeds parse client c)
    (h : step parse fd client s c = some s') : s' = s := by
  obtain ⟨hruns, hexec⟩ := step_runs h
  obtain ⟨es₁, retcode, es₂, heq, hlogin, hwrites⟩ := runs_handleLogin hruns
  have hnone : logins parse c.data = none := by
    rw [Option.eq_none_iff_forall_ne_some]
    intro d hd
    exact hfail (exists_runs_modLogin_iff.mpr ⟨d, hd⟩)
  rw [modLogin_of_logins_eq_none hnone] at hlogin
  obtain ⟨rfl, -⟩ := Prog.runs_pure.mp hlogin
  rw [heq, List.nil_append] at hexec
  exact Sessions.exec_respond_of_not_writes hwrites hexec

/-- A login that succeeds sets the identity of its client. -/
theorem step_of_succeeds (hsucceeds : Succeeds parse client c)
    (h : step parse fd client s c = some s') {cl : SpiderClient}
    (hcl : s.clients.get client = some cl) :
    ∃ d cl', loginValues (parse (cstr c.data)) = some d ∧ s'.clients.get client = some cl' ∧
      cl'.identity = d.identity := by
  obtain ⟨hruns, hexec⟩ := step_runs h
  obtain ⟨d, hd⟩ := exists_runs_modLogin_iff.mp hsucceeds
  obtain ⟨es₁, retcode, es₂, heq, hlogin, hwrites⟩ := runs_handleLogin hruns
  obtain ⟨rfl, -⟩ := eq_of_runs_modLogin hd hlogin
  rw [heq] at hexec
  obtain ⟨m₁, hversion, hexec⟩ := exec_cons.mp hexec
  obtain ⟨m₂, hset, hexec⟩ := exec_cons.mp hexec
  obtain rfl := Sessions.exec_respond_of_not_writes hwrites hexec
  obtain rfl := Option.some.inj hversion
  obtain rfl := Option.some.inj hset
  refine ⟨d, { cl with
    uid := d.uid, gmid := d.mid, gameid := d.gameid, app_version := versionField d.app_version },
    loginValues_of_logins hd, ?_, rfl⟩
  rw [Sessions.get_write, if_pos rfl, Sessions.get_write, if_pos rfl, hcl]
  rfl

/-- **A connection's client is who the last successful login says**, after every sequence of
logins on it: nobody before the first one that succeeds, and a login that fails changes
nothing. -/
theorem identity_of_last_login {s₀ : Sessions} {now : Int64} {mem : Ptr} {l : List LoginCall}
    (haccept : s₀.accept fd now mem = some s)
    (hrun : exec (step parse fd s₀.accepted) s l = some s') :
    (∀ data, ∃ es ret, (modLogin parse s₀.accepted data).Runs es ret) ∧
      (∀ m c m', ¬ Succeeds parse s₀.accepted c → step parse fd s₀.accepted m c = some m' →
        m' = m) ∧
      ∃ cl, s'.clients.get s₀.accepted = some cl ∧
        ((∀ c ∈ l, ¬ Succeeds parse s₀.accepted c) ∧
            cl.identity = ⟨0, 0, 0, List.replicate 10 0⟩ ∨
          ∃ l₁ c l₂ d, l = l₁ ++ c :: l₂ ∧ Succeeds parse s₀.accepted c ∧
            (∀ c' ∈ l₂, ¬ Succeeds parse s₀.accepted c') ∧
            loginValues (parse (cstr c.data)) = some d ∧ cl.identity = d.identity) := by
  refine ⟨exists_runs_modLogin parse s₀.accepted, fun m c m' => step_of_fails, ?_⟩
  induction l using List.reverseRecOn generalizing s' with
  | nil =>
      obtain rfl := Option.some.inj hrun
      refine ⟨Sessions.newClient fd now, ?_, .inl ⟨nofun, rfl⟩⟩
      rw [Sessions.accept] at haccept
      split at haccept
      · obtain ⟨reg, -, rfl⟩ := Option.map_eq_some_iff.mp haccept
        exact Heap.get_set_self _ _ _
      · cases haccept
  | append_singleton l c ih =>
      obtain ⟨m, hm, hlast⟩ := exec_append.mp hrun
      obtain ⟨m', hstep, hnil⟩ := exec_cons.mp hlast
      obtain rfl := Option.some.inj hnil
      obtain ⟨cl, hcl, hcases⟩ := ih hm
      by_cases hc : Succeeds parse s₀.accepted c
      · obtain ⟨d, cl', hd, hcl', hid⟩ := step_of_succeeds hc hstep hcl
        exact ⟨cl', hcl', .inr ⟨l, c, [], d, rfl, hc, nofun, hd, hid⟩⟩
      · obtain rfl := step_of_fails hc hstep
        refine ⟨cl, hcl, ?_⟩
        have hmore : ∀ l' : List LoginCall, (∀ c' ∈ l', ¬ Succeeds parse s₀.accepted c') →
            ∀ c' ∈ l' ++ [c], ¬ Succeeds parse s₀.accepted c' := by
          intro l' hl'
          refine List.forall_mem_append.mpr ⟨hl', fun c' hc' => ?_⟩
          rwa [List.mem_singleton.mp hc']
        rcases hcases with ⟨hnone, hid⟩ | ⟨l₁, c₁, l₂, d, rfl, hc₁, hnone, hd, hid⟩
        · exact .inl ⟨hmore l hnone, hid⟩
        · exact .inr ⟨l₁, c₁, l₂ ++ [c], d, by simp, hc₁, hmore l₂ hnone, hd, hid⟩

/-- The handling of a payload on descriptor 5 of connection 0 that logs in `d`, with nothing
stored for the user. -/
def loginCall (data : Bytes) (d : LoginData) : LoginCall :=
  let client : SpiderClient :=
    { Sessions.newClient 5 0 with
      uid := d.uid, gmid := d.mid, gameid := d.gameid, app_version := versionField d.app_version }
  ⟨data, [⟨.setVersion 0 (versionField d.app_version), ()⟩,
    ⟨.setLogin 0 d.uid d.mid d.gameid, ()⟩, ⟨.readClient 0, client⟩,
    ⟨.send 5 ((frame HANDLE_LOGIN d.gameid (ascii "\x7b\"ret\":1\x7d")).getD []), 24⟩,
    ⟨.readClient 0, client⟩, ⟨.getConnect, none⟩]⟩

/-- A login whose `app_version` is a 1, a zero byte and a 2. -/
def zeroVersion : LoginCall :=
  loginCall
    (ascii "\x7b\"uid\":1,\"mid\":2,\"gameid\":1000,\"app_version\":\"1\\u00002\"\x7d")
    ⟨1, 2, 1000, [49, 0, 50]⟩

/-- A run of logins on a new connection that succeeds, and what it leaves. -/
theorem exists_run {α : Type} {l : List LoginCall} {f : Sessions → Option α} {a : α}
    (h : ((Sessions.init 1).accept 5 0 none).bind (fun s =>
      (exec (step Json.parse 5 0) s l).bind f) = some a) :
    ∃ s s', (Sessions.init 1).accept 5 0 none = some s ∧
      exec (step Json.parse 5 0) s l = some s' ∧ f s' = some a := by
  obtain ⟨s, hs, h⟩ := Option.bind_eq_some_iff.mp h
  obtain ⟨s', hs', h⟩ := Option.bind_eq_some_iff.mp h
  exact ⟨s, s', hs, hs', h⟩

/-- The first ten bytes of the version are not what the client gets. -/
theorem zero_version_cut :
    ∃ s s' cl d, (Sessions.init 1).accept 5 0 none = some s ∧
      exec (step Json.parse 5 0) s [zeroVersion] = some s' ∧ s'.clients.get 0 = some cl ∧
      Succeeds Json.parse 0 zeroVersion ∧
      loginValues (Json.parse (cstr zeroVersion.data)) = some d ∧
      cl.app_version ≠
        d.app_version.take 10 ++ List.replicate (10 - (d.app_version.take 10).length) 0 := by
  have hclient : ((Sessions.init 1).accept 5 0 none).bind (fun s =>
      (exec (step Json.parse 5 0) s [zeroVersion]).bind fun s' => s'.clients.get 0) =
      some ⟨5, 1, 2, 1000, [49, 0, 0, 0, 0, 0, 0, 0, 0, 0], 0⟩ := by decide +kernel
  have hlogin : logins Json.parse zeroVersion.data = some ⟨1, 2, 1000, [49, 0, 50]⟩ := by
    decide +kernel
  obtain ⟨s, s', haccept, hrun, hcl⟩ := exists_run hclient
  refine ⟨s, s', _, _, haccept, hrun, hcl, exists_runs_modLogin_iff.mpr ⟨_, hlogin⟩,
    loginValues_of_logins hlogin, by decide⟩

/-- A payload that is no JSON text, behind a login. -/
def badLogin : LoginCall :=
  ⟨ascii "x", [⟨.readClient 0, ⟨5, 1, 2, 1000, [49, 0, 0, 0, 0, 0, 0, 0, 0, 0], 0⟩⟩,
    ⟨.send 5 ((frame HANDLE_LOGIN 1000 (ascii "\x7b\"ret\":-1000\x7d")).getD []), 28⟩]⟩

/-- A login, and one that fails. -/
theorem identity_of_last_login_two :
    ∃ s s', (Sessions.init 1).accept 5 0 none = some s ∧
      exec (step Json.parse 5 0) s [zeroVersion, badLogin] = some s' ∧
      ∃ cl, s'.clients.get 0 = some cl ∧
        ((∀ c ∈ [zeroVersion, badLogin], ¬ Succeeds Json.parse 0 c) ∧
            cl.identity = ⟨0, 0, 0, List.replicate 10 0⟩ ∨
          ∃ l₁ c l₂ d, [zeroVersion, badLogin] = l₁ ++ c :: l₂ ∧ Succeeds Json.parse 0 c ∧
            (∀ c' ∈ l₂, ¬ Succeeds Json.parse 0 c') ∧
            loginValues (Json.parse (cstr c.data)) = some d ∧ cl.identity = d.identity) := by
  have hend : ((Sessions.init 1).accept 5 0 none).bind (fun s =>
      (exec (step Json.parse 5 0) s [zeroVersion, badLogin]).bind fun s' => some s'.accepted) =
      some 1 := by decide +kernel
  obtain ⟨s, s', haccept, hrun, -⟩ := exists_run hend
  exact ⟨s, s', haccept, hrun, (identity_of_last_login haccept hrun).2.2⟩

end LastLogin

end SpiderChat
