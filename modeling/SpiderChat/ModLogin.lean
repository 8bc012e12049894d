import SpiderChat.Env
import SpiderChat.JsonTree

/-!
# SpiderChat.ModLogin

`mod_login.c`: the fields of a login payload are taken by their place, and stored
in the client.
-/

namespace SpiderChat

open Lib Handler

/-- What a login payload carries. -/
structure LoginData where
  uid : Int64
  mid : Int64
  gameid : Int32
  app_version : Bytes
  deriving Repr, DecidableEq

/-- The members that `mod_login` looks at: `none` when it reads past the names or
through a `NULL` value, and `some none` when it rejects them. -/
def loginMembers (ms : List (Bytes × Json)) : Option (Option LoginData) := do
  if ms.length ≠ 4 then some none
  else
    let values := allocsOfMembers ms
    let key ← nameAt ms 0
    match decide (key = ascii "uid"), ← values[0]? with
    | true, .int uid =>
        let key ← nameAt ms 4
        match decide (key = ascii "mid"), ← values[1]? with
        | true, .int mid =>
            let key ← nameAt ms 8
            match decide (key = ascii "gameid"), ← values[2]? with
            | true, .int gameid =>
                let key ← nameAt ms 15
                match decide (key = ascii "app_version"), ← values[3]? with
                | true, .str version =>
                    some (some
                      { uid := .ofInt uid, mid := .ofInt mid,
                        gameid := (Int64.ofInt gameid).toInt32, app_version := version })
                | _, _ => some none
            | _, _ => some none
        | _, _ => some none
    | _, _ => some none

/-- `mod_login` reads four names and four values, which an object with four members has. -/
theorem loginMembers_ne_none (ms : List (Bytes × Json)) : loginMembers ms ≠ none := by
  intro hnone
  by_cases hlen : ms.length = 4
  · have hcount : 4 ≤ ((namesOf ms).drop 0).count 0 := hlen ▸ length_le_count_namesOf ms
    have hvalue : ∀ i < 4, ∃ v, (allocsOfMembers ms)[i]? = some v := by
      intro i hi
      have hle := length_le_allocsOfMembers ms
      exact ⟨_, List.getElem?_eq_getElem (by omega)⟩
    obtain ⟨key₀, hkey₀, hcount⟩ := exists_nameAt hcount
    obtain ⟨key₁, hkey₁, hcount⟩ := exists_nameAt hcount
    obtain ⟨key₂, hkey₂, hcount⟩ := exists_nameAt hcount
    obtain ⟨key₃, hkey₃, -⟩ := exists_nameAt hcount
    obtain ⟨v₀, hv₀⟩ := hvalue 0 (by omega)
    obtain ⟨v₁, hv₁⟩ := hvalue 1 (by omega)
    obtain ⟨v₂, hv₂⟩ := hvalue 2 (by omega)
    obtain ⟨v₃, hv₃⟩ := hvalue 3 (by omega)
    simp only [loginMembers, hlen, ne_eq, not_true_eq_false, if_false, hkey₀, hv₀, bind,
      Option.bind_some] at hnone
    split at hnone
    · rename_i hdec
      obtain rfl : key₀ = ascii "uid" := of_decide_eq_true hdec
      have hoff : nameAt ms 4 = some key₁ := hkey₁
      simp only [hoff, hv₁, Option.bind_some] at hnone
      split at hnone
      · rename_i hdec
        obtain rfl : key₁ = ascii "mid" := of_decide_eq_true hdec
        have hoff : nameAt ms 8 = some key₂ := hkey₂
        simp only [hoff, hv₂, Option.bind_some] at hnone
        split at hnone
        · rename_i hdec
          obtain rfl : key₂ = ascii "gameid" := of_decide_eq_true hdec
          have hoff : nameAt ms 15 = some key₃ := hkey₃
          simp only [hoff, hv₃, Option.bind_some] at hnone
          split at hnone <;> cases hnone
        · cases hnone
      · cases hnone
    · cases hnone
  · simp [loginMembers, hlen] at hnone

/-- The names of a login payload, as they stand in memory. -/
def loginNames : Bytes :=
  ascii "uid" ++ [0] ++ (ascii "mid" ++ [0] ++ (ascii "gameid" ++ [0] ++
    (ascii "app_version" ++ [0])))

theorem loginNames_prefix_iff {ms : List (Bytes × Json)} : loginNames <+: namesOf ms ↔
    nameAt ms 0 = some (ascii "uid") ∧ nameAt ms 4 = some (ascii "mid") ∧
      nameAt ms 8 = some (ascii "gameid") ∧ nameAt ms 15 = some (ascii "app_version") := by
  have hname : ∀ key off, (∀ b ∈ key, b ≠ 0) →
      (key ++ [0] <+: (namesOf ms).drop off ↔ nameAt ms off = some key) := by
    intro key off hkey
    rw [nameAt_eq_some_iff]
    exact (and_iff_right hkey).symm
  have hfront : ∀ (key rest : Bytes) (off : Nat), key ++ [0] ++ rest <+: (namesOf ms).drop off ↔
      key ++ [0] <+: (namesOf ms).drop off ∧
        rest <+: (namesOf ms).drop (off + (key ++ [0]).length) := by
    intro key rest off
    rw [append_prefix_iff, List.drop_drop]
  show loginNames <+: (namesOf ms).drop 0 ↔ _
  rw [← hname (ascii "uid") 0 (by decide), ← hname (ascii "mid") 4 (by decide),
    ← hname (ascii "gameid") 8 (by decide), ← hname (ascii "app_version") 15 (by decide),
    loginNames, hfront, hfront, hfront]
  rfl

/-- The first four values are those of the members, when the first three have no values in
them. -/
theorem values_eq_iff {ms : List (Bytes × Json)} (hlen : ms.length = 4) {uid mid gameid : Int}
    {version : Bytes} :
    ms.map Prod.snd = [.int uid, .int mid, .int gameid, .str version] ↔
      (allocsOfMembers ms)[0]? = some (.int uid) ∧ (allocsOfMembers ms)[1]? = some (.int mid) ∧
        (allocsOfMembers ms)[2]? = some (.int gameid) ∧
          (allocsOfMembers ms)[3]? = some (.str version) := by
  obtain ⟨⟨k₀, v₀⟩, ⟨k₁, v₁⟩, ⟨k₂, v₂⟩, ⟨k₃, v₃⟩, rfl⟩ : ∃ a b c d, ms = [a, b, c, d] :=
    List.length_eq_four.mp hlen
  constructor
  · intro h
    simp only [List.map_cons, List.map_nil, List.cons.injEq, and_true] at h
    obtain ⟨rfl, rfl, rfl, rfl⟩ := h
    exact ⟨rfl, rfl, rfl, rfl⟩
  · intro h
    obtain ⟨h₀, h₁, h₂, h₃⟩ := h
    rw [allocsOfMembers, getElem?_allocs_append, Option.some.injEq] at h₀
    subst h₀
    rw [allocsOfMembers_cons_int, List.getElem?_cons_succ, allocsOfMembers,
      getElem?_allocs_append, Option.some.injEq] at h₁
    subst h₁
    rw [allocsOfMembers_cons_int, allocsOfMembers_cons_int, List.getElem?_cons_succ,
      List.getElem?_cons_succ, allocsOfMembers, getElem?_allocs_append, Option.some.injEq] at h₂
    subst h₂
    rw [allocsOfMembers_cons_int, allocsOfMembers_cons_int, allocsOfMembers_cons_int,
      List.getElem?_cons_succ, List.getElem?_cons_succ, List.getElem?_cons_succ, allocsOfMembers,
      getElem?_allocs_append, Option.some.injEq] at h₃
    subst h₃
    rfl

/-- A login is taken from four values under names that stand in memory as they should. -/
theorem loginMembers_eq_some_iff {ms : List (Bytes × Json)} {d : LoginData} :
    loginMembers ms = some (some d) ↔ loginNames <+: namesOf ms ∧ ∃ uid mid gameid version,
      ms.map Prod.snd = [.int uid, .int mid, .int gameid, .str version] ∧
      d = { uid := .ofInt uid, mid := .ofInt mid, gameid := (Int64.ofInt gameid).toInt32,
            app_version := version } := by
  constructor
  · intro h
    by_cases hlen : ms.length = 4
    · simp only [loginMembers, hlen, ne_eq, not_true_eq_false, if_false, bind,
        Option.bind_eq_some_iff] at h
      obtain ⟨key₀, hkey₀, v₀, hv₀, h⟩ := h
      split at h
      · rename_i uid hdec
        obtain rfl : key₀ = ascii "uid" := of_decide_eq_true hdec
        simp only [Option.bind_eq_some_iff] at h
        obtain ⟨key₁, hkey₁, v₁, hv₁, h⟩ := h
        split at h
        · rename_i mid hdec
          obtain rfl : key₁ = ascii "mid" := of_decide_eq_true hdec
          simp only [Option.bind_eq_some_iff] at h
          obtain ⟨key₂, hkey₂, v₂, hv₂, h⟩ := h
          split at h
          · rename_i gameid hdec
            obtain rfl : key₂ = ascii "gameid" := of_decide_eq_true hdec
            simp only [Option.bind_eq_some_iff] at h
            obtain ⟨key₃, hkey₃, v₃, hv₃, h⟩ := h
            split at h
            · rename_i version hdec
              obtain rfl : key₃ = ascii "app_version" := of_decide_eq_true hdec
              cases h
              exact ⟨loginNames_prefix_iff.mpr ⟨hkey₀, hkey₁, hkey₂, hkey₃⟩, uid, mid, gameid,
                version, (values_eq_iff hlen).mpr ⟨hv₀, hv₁, hv₂, hv₃⟩, rfl⟩
            · cases h
          · cases h
        · cases h
      · cases h
    · simp [loginMembers, hlen] at h
  · intro h
    obtain ⟨hnames, uid, mid, gameid, version, hvalues, rfl⟩ := h
    have hlen : ms.length = 4 := by simpa using congrArg List.length hvalues
    obtain ⟨hkey₀, hkey₁, hkey₂, hkey₃⟩ := loginNames_prefix_iff.mp hnames
    obtain ⟨hv₀, hv₁, hv₂, hv₃⟩ := (values_eq_iff hlen).mp hvalues
    simp only [loginMembers, hlen, ne_eq, not_true_eq_false, if_false, hkey₀, hkey₁, hkey₂, hkey₃,
      hv₀, hv₁, hv₂, hv₃, bind, Option.bind_some, decide_true]

/-- `strncpy(client->app_version, .., 10)` -/
def versionField (version : Bytes) : Bytes :=
  let text := (cstr version).take 10
  text ++ List.replicate (10 - text.length) 0

/-- `mod_login`. -/
def modLogin (parse : Bytes → Option Json) (client : Addr) (data : Bytes) : Handler Int32 :=
  match parse (cstr data) with
  | some (.obj ms) =>
      match loginMembers ms with
      | none => undefined
      | some none => pure _ERROR_HANDLE_LOGIN_DATA_PARSE_ERROR
      | some (some d) => do
          ask (.setVersion client (versionField d.app_version))
          ask (.setLogin client d.uid d.mid d.gameid)
          pure _HANDLE_SUCCESSFUL
  | _ => pure _ERROR_HANDLE_LOGIN_DATA_PARSE_ERROR

/-- The payload of a login that succeeds. -/
def logins (parse : Bytes → Option Json) (data : Bytes) : Option LoginData :=
  match parse (cstr data) with
  | some (.obj ms) => (loginMembers ms).join
  | _ => none

theorem modLogin_of_logins {parse : Bytes → Option Json} {data : Bytes} {d : LoginData}
    (h : logins parse data = some d) (client : Addr) :
    modLogin parse client data = (do
      ask (.setVersion client (versionField d.app_version))
      ask (.setLogin client d.uid d.mid d.gameid)
      pure _HANDLE_SUCCESSFUL) := by
  unfold logins at h
  unfold modLogin
  split at h
  · rename_i ms _
    have hmem : loginMembers ms = some (some d) := Option.join_eq_some_iff.mp h
    simp only [hmem]
  · cases h

theorem modLogin_of_logins_eq_none {parse : Bytes → Option Json} {data : Bytes}
    (h : logins parse data = none) (client : Addr) :
    modLogin parse client data = pure _ERROR_HANDLE_LOGIN_DATA_PARSE_ERROR := by
  unfold logins at h
  unfold modLogin
  split at h
  · rename_i ms _
    cases hmem : loginMembers ms with
    | none => exact absurd hmem (loginMembers_ne_none ms)
    | some o =>
        rw [hmem, Option.join_some] at h
        subst h
        rfl
  · rfl

theorem runs_modLogin_of_logins {parse : Bytes → Option Json} {data : Bytes} {d : LoginData}
    (h : logins parse data = some d) (client : Addr) :
    (modLogin parse client data).Runs [⟨.setVersion client (versionField d.app_version), ()⟩,
      ⟨.setLogin client d.uid d.mid d.gameid, ()⟩] _HANDLE_SUCCESSFUL := by
  rw [modLogin_of_logins h]
  exact runs_ask_bind.mpr ⟨(), _, rfl, runs_ask_bind.mpr ⟨(), _, rfl, .pure _⟩⟩

/-- The run of a login that succeeds. -/
theorem eq_of_runs_modLogin {parse : Bytes → Option Json} {client : Addr} {data : Bytes}
    {d : LoginData} {es : List HandlerEvent} {ret : Int32} (h : logins parse data = some d)
    (hrun : (modLogin parse client data).Runs es ret) :
    es = [⟨.setVersion client (versionField d.app_version), ()⟩,
      ⟨.setLogin client d.uid d.mid d.gameid, ()⟩] ∧ ret = _HANDLE_SUCCESSFUL := by
  rw [modLogin_of_logins h] at hrun
  obtain ⟨_, es₁, rfl, h₁⟩ := runs_ask_bind.mp hrun
  obtain ⟨_, es₂, rfl, h₂⟩ := runs_ask_bind.mp h₁
  obtain ⟨rfl, rfl⟩ := Prog.runs_pure.mp h₂
  exact ⟨rfl, rfl⟩

/-- `mod_login` returns success for the payloads that log a user in. -/
theorem exists_runs_modLogin_iff {parse : Bytes → Option Json} {client : Addr} {data : Bytes} :
    (∃ es, (modLogin parse client data).Runs es _HANDLE_SUCCESSFUL) ↔
      ∃ d, logins parse data = some d := by
  cases h : logins parse data with
  | none =>
      rw [modLogin_of_logins_eq_none h]
      simp [_HANDLE_SUCCESSFUL, _ERROR_HANDLE_LOGIN_DATA_PARSE_ERROR]
  | some d => exact iff_of_true ⟨_, runs_modLogin_of_logins h client⟩ ⟨d, rfl⟩

/-- `mod_login` returns, whatever the payload. -/
theorem exists_runs_modLogin (parse : Bytes → Option Json) (client : Addr) (data : Bytes) :
    ∃ es ret, (modLogin parse client data).Runs es ret := by
  cases h : logins parse data with
  | none =>
      refine ⟨[], _ERROR_HANDLE_LOGIN_DATA_PARSE_ERROR, ?_⟩
      rw [modLogin_of_logins_eq_none h]
      exact .pure _
  | some d => exact ⟨_, _, runs_modLogin_of_logins h client⟩

theorem defined_modLogin (parse : Bytes → Option Json) (client : Addr) (data : Bytes) :
    (modLogin parse client data).Defined := by
  cases h : logins parse data with
  | none =>
      rw [modLogin_of_logins_eq_none h]
      exact Prog.defined_pure _
  | some d =>
      rw [modLogin_of_logins h]
      exact defined_ask_bind rfl fun _ => defined_ask_bind rfl fun _ => Prog.defined_pure _

/-- `mod_login` writes nothing, or the version and then the rest. -/
theorem runs_modLogin {parse : Bytes → Option Json} {client : Addr} {data : Bytes}
    {es : List HandlerEvent} {ret : Int32} (h : (modLogin parse client data).Runs es ret) :
    (es = [] ∧ ret = _ERROR_HANDLE_LOGIN_DATA_PARSE_ERROR) ∨
    ∃ d : LoginData, es = [⟨.setVersion client (versionField d.app_version), ()⟩,
      ⟨.setLogin client d.uid d.mid d.gameid, ()⟩] ∧ ret = _HANDLE_SUCCESSFUL := by
  cases hd : logins parse data with
  | none =>
      rw [modLogin_of_logins_eq_none hd] at h
      exact .inl (Prog.runs_pure.mp h)
  | some d => exact .inr ⟨d, eq_of_runs_modLogin hd h⟩

theorem calls_modLogin {P : Call → Prop} {client : Addr}
    (hversion : ∀ version, P (.setVersion client version))
    (hlogin : ∀ uid gmid gameid, P (.setLogin client uid gmid gameid))
    (parse : Bytes → Option Json) (data : Bytes) : (modLogin parse client data).Calls P := by
  unfold modLogin
  split
  · split
    · exact calls_undefined
    · exact Prog.calls_pure _
    · exact calls_ask_bind (hversion _) fun _ => calls_ask_bind (hlogin _ _ _) fun _ =>
        Prog.calls_pure _
  · exact Prog.calls_pure _

end SpiderChat
