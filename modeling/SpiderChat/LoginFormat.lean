import SpiderChat.ModLogin

/-!
# SpiderChat.LoginFormat

**What `mod_login` accepts.** The number of the members is checked, and their values are the
first four of the text. The names are compared as C strings, at the offsets at which the
right names stand in memory: a name with zero bytes in it can stand for several of them.
`login_format_iff` tells for which payloads exactly the format is accepted; the `gameid` is
stored as an `int`.
-/

namespace SpiderChat

open Lib Handler

/-- The values of `uid`, `mid` and `gameid` of a payload in the login format. -/
def loginFormat : Option Json → Option (Int64 × Int64 × Int64)
  | some (.obj [(name₀, .int uid), (name₁, .int mid), (name₂, .int gameid), (name₃, .str _)]) =>
      if [name₀, name₁, name₂, name₃] =
          [ascii "uid", ascii "mid", ascii "gameid", ascii "app_version"] then
        some (.ofInt uid, .ofInt mid, .ofInt gameid)
      else none
  | _ => none

/-- A payload in the format is accepted, and its values are stored; for every other one nothing
is stored, and the error code is returned. -/
def LoginFormatKept (parse : Bytes → Option Json) (client : Addr) (data : Bytes)
    (es : List HandlerEvent) (x : Option Int32) : Prop :=
  (∀ uid mid gameid, loginFormat (parse (cstr data)) = some (uid, mid, gameid) →
    x = some _HANDLE_SUCCESSFUL ∧ ∃ version g,
      es = [⟨.setVersion client version, ()⟩, ⟨.setLogin client uid mid g, ()⟩] ∧
        g.toInt64 = gameid) ∧
  (loginFormat (parse (cstr data)) = none →
    es = [] ∧ x = some _ERROR_HANDLE_LOGIN_DATA_PARSE_ERROR)

/-- If the members are taken for a login, then no name is cut off by a zero byte, and the
`gameid` is an `int`. -/
def WholeNames (ms : List (Bytes × Json)) : Prop :=
  ∀ uid mid gameid version, loginNames <+: namesOf ms →
    ms.map Prod.snd = [.int uid, .int mid, .int gameid, .str version] →
      (∀ m ∈ ms, ∀ b ∈ m.1, b ≠ 0) ∧ Fits32 (.ofInt gameid)

variable {parse : Bytes → Option Json} {client : Addr} {data : Bytes} {es : List HandlerEvent}
  {x : Option Int32} {ms : List (Bytes × Json)}

/-- Four members whose names stand in memory as those of a login have these names, unless
there are zero bytes in them. -/
theorem names_eq_iff (hlen : ms.length = 4) :
    ms.map Prod.fst = [ascii "uid", ascii "mid", ascii "gameid", ascii "app_version"] ↔
      loginNames <+: namesOf ms ∧ ∀ m ∈ ms, ∀ b ∈ m.1, b ≠ 0 := by
  obtain ⟨⟨k₀, v₀⟩, ⟨k₁, v₁⟩, ⟨k₂, v₂⟩, ⟨k₃, v₃⟩, rfl⟩ : ∃ a b c d, ms = [a, b, c, d] :=
    List.length_eq_four.mp hlen
  simp only [List.map_cons, List.map_nil, List.cons.injEq, and_true, List.forall_mem_cons,
    List.not_mem_nil, false_imp_iff, implies_true]
  constructor
  · intro h
    obtain ⟨rfl, rfl, rfl, rfl⟩ := h
    exact ⟨List.prefix_rfl, by decide, by decide, by decide, by decide⟩
  · intro h
    obtain ⟨hnames, hz₀, hz₁, hz₂, hz₃⟩ := h
    obtain ⟨h₀, h₁, h₂, h₃⟩ := loginNames_prefix_iff.mp hnames
    -- each name ends where the next one is looked for
    rw [nameAt_zero, cstr_of_forall hz₀, Option.some.injEq] at h₀
    subst h₀
    have hat₁ : nameAt ((ascii "uid", v₀) :: (k₁, v₁) :: [(k₂, v₂), (k₃, v₃)]) 4 =
        some (cstr k₁) :=
      (nameAt_cons v₀ _ (Nat.le_refl 4)).trans (nameAt_zero k₁ v₁ _)
    rw [hat₁, cstr_of_forall hz₁, Option.some.injEq] at h₁
    subst h₁
    have hat₂ : nameAt ((ascii "uid", v₀) :: (ascii "mid", v₁) :: (k₂, v₂) :: [(k₃, v₃)]) 8 =
        some (cstr k₂) :=
      (nameAt_cons v₀ _ (Nat.le_add_right 4 4)).trans
        ((nameAt_cons v₁ _ (Nat.le_refl 4)).trans (nameAt_zero k₂ v₂ _))
    rw [hat₂, cstr_of_forall hz₂, Option.some.injEq] at h₂
    subst h₂
    have hat₃ : nameAt ((ascii "uid", v₀) :: (ascii "mid", v₁) :: (ascii "gameid", v₂) ::
        [(k₃, v₃)]) 15 = some (cstr k₃) :=
      (nameAt_cons v₀ _ (Nat.le_add_right 4 11)).trans
        ((nameAt_cons v₁ _ (Nat.le_add_right 4 7)).trans
          ((nameAt_cons v₂ _ (Nat.le_refl 7)).trans (nameAt_zero k₃ v₃ _)))
    rw [hat₃, cstr_of_forall hz₃, Option.some.injEq] at h₃
    subst h₃
    exact ⟨rfl, rfl, rfl, rfl⟩

theorem loginFormat_eq_some_iff {uid mid gameid : Int64} :
    loginFormat (some (.obj ms)) = some (uid, mid, gameid) ↔
      ms.map Prod.fst = [ascii "uid", ascii "mid", ascii "gameid", ascii "app_version"] ∧
        ∃ u m g version, ms.map Prod.snd = [.int u, .int m, .int g, .str version] ∧
          uid = .ofInt u ∧ mid = .ofInt m ∧ gameid = .ofInt g := by
  constructor
  · intro h
    unfold loginFormat at h
    split at h
    · rename_i heq
      cases heq
      split at h
      · rename_i hnames
        cases h
        exact ⟨hnames, _, _, _, _, rfl, rfl, rfl, rfl⟩
      · cases h
    · cases h
  · intro h
    obtain ⟨hnames, u, m, g, version, hvalues, rfl, rfl, rfl⟩ := h
    obtain ⟨⟨k₀, v₀⟩, ⟨k₁, v₁⟩, ⟨k₂, v₂⟩, ⟨k₃, v₃⟩, rfl⟩ : ∃ a b c d, ms = [a, b, c, d] :=
      List.length_eq_four.mp (by simpa using congrArg List.length hnames)
    simp only [List.map_cons, List.map_nil, List.cons.injEq, and_true] at hvalues hnames
    obtain ⟨rfl, rfl, rfl, rfl⟩ := hvalues
    obtain ⟨rfl, rfl, rfl, rfl⟩ := hnames
    rfl

/-- A login that is accepted has the format when its names are whole. -/
theorem loginFormat_of_loginMembers {d : LoginData} (h : loginMembers ms = some (some d)) :
    (∃ gameid, loginFormat (some (.obj ms)) = some (d.uid, d.mid, gameid) ∧
      d.gameid.toInt64 = gameid) ↔ WholeNames ms := by
  obtain ⟨hpacked, uid, mid, gameid, version, hvalues, rfl⟩ := loginMembers_eq_some_iff.mp h
  have hlen : ms.length = 4 := by simpa using congrArg List.length hvalues
  constructor
  · intro hformat uid' mid' gameid' version' _ hvalues'
    obtain ⟨g, hformat, hg⟩ := hformat
    obtain ⟨hnames, u, m, g', v, hvalues'', -, -, rfl⟩ := loginFormat_eq_some_iff.mp hformat
    rw [hvalues] at hvalues' hvalues''
    cases hvalues'
    cases hvalues''
    refine ⟨((names_eq_iff hlen).mp hnames).2, ?_⟩
    rw [Fits32, ← Int32.toInt_toInt64]
    exact congrArg Int64.toInt hg
  · intro hwhole
    obtain ⟨hz, hfits⟩ := hwhole uid mid gameid version hpacked hvalues
    refine ⟨.ofInt gameid, loginFormat_eq_some_iff.mpr ⟨(names_eq_iff hlen).mpr ⟨hpacked, hz⟩,
      uid, mid, gameid, version, hvalues, rfl, rfl, rfl⟩, ?_⟩
    rw [← Int64.toInt_inj, Int32.toInt_toInt64]
    exact hfits

/-- A payload in the format is accepted. -/
theorem loginMembers_of_loginFormat {uid mid gameid : Int64}
    (h : loginFormat (some (.obj ms)) = some (uid, mid, gameid)) :
    ∃ d, loginMembers ms = some (some d) ∧ d.uid = uid ∧ d.mid = mid := by
  obtain ⟨hnames, u, m, g, version, hvalues, rfl, rfl, rfl⟩ := loginFormat_eq_some_iff.mp h
  have hlen : ms.length = 4 := by simpa using congrArg List.length hnames
  exact ⟨_, loginMembers_eq_some_iff.mpr ⟨((names_eq_iff hlen).mp hnames).1, u, m, g, version,
    hvalues, rfl⟩, rfl, rfl⟩

theorem exists_of_logins {d : LoginData} (h : logins parse data = some d) :
    ∃ ms, parse (cstr data) = some (.obj ms) ∧ loginMembers ms = some (some d) := by
  unfold logins at h
  split at h
  · rename_i ms hms
    exact ⟨ms, hms, Option.join_eq_some_iff.mp h⟩
  · cases h

theorem loginMembers_ne_of_logins (h : logins parse data = none)
    (hms : parse (cstr data) = some (.obj ms)) (d : LoginData) :
    loginMembers ms ≠ some (some d) := by
  intro hmem
  simp only [logins, hms, hmem, Option.join_some] at h
  cases h

/-! ### The executions -/

/-- A payload that is rejected. -/
theorem login_format_of_rejected (hlogins : logins parse data = none)
    (h : (modLogin parse client data).Ends es x) :
    LoginFormatKept parse client data es x ∧
      ∀ ms, parse (cstr data) = some (.obj ms) → WholeNames ms := by
  rw [modLogin_of_logins_eq_none hlogins] at h
  constructor
  · refine ⟨fun uid mid gameid hformat => ?_, fun _ => Prog.ends_pure.mp h⟩
    obtain ⟨ms, hms⟩ : ∃ ms, parse (cstr data) = some (.obj ms) := by
      unfold loginFormat at hformat
      split at hformat
      · exact ⟨_, by assumption⟩
      · cases hformat
    rw [hms] at hformat
    obtain ⟨d, hmem, -⟩ := loginMembers_of_loginFormat hformat
    exact absurd hmem (loginMembers_ne_of_logins hlogins hms d)
  · intro ms hms uid mid gameid version hpacked hvalues
    have hmem := loginMembers_eq_some_iff.mpr ⟨hpacked, uid, mid, gameid, version, hvalues, rfl⟩
    exact absurd hmem (loginMembers_ne_of_logins hlogins hms _)

/-- A payload that is accepted. -/
theorem login_format_of_accepted {d : LoginData} (hmem : loginMembers ms = some (some d))
    (hms : parse (cstr data) = some (.obj ms))
    (h : (modLogin parse client data).Ends es x) :
    LoginFormatKept parse client data es x ↔
      ∃ gameid, loginFormat (some (.obj ms)) = some (d.uid, d.mid, gameid) ∧
        d.gameid.toInt64 = gameid := by
  have hlogins : logins parse data = some d := by
    simp only [logins, hms, hmem, Option.join_some]
  obtain ⟨ret, rfl, hruns⟩ := (defined_modLogin parse client data).runs h
  obtain ⟨rfl, rfl⟩ := eq_of_runs_modLogin hlogins hruns
  unfold LoginFormatKept
  rw [hms]
  cases hformat : loginFormat (some (.obj ms)) with
  | none =>
      refine iff_of_false (fun hkept => ?_) nofun
      cases (hkept.2 rfl).1
  | some p =>
      obtain ⟨uid, mid, gameid⟩ := p
      obtain ⟨d', hmem', rfl, rfl⟩ := loginMembers_of_loginFormat hformat
      rw [hmem] at hmem'
      cases hmem'
      simpa using eq_comm

/-- **When exactly the login format is accepted**: when members that are taken for a login
have whole names, and their `gameid` is an `int`. -/
theorem login_format_iff (h : (modLogin parse client data).Ends es x) :
    LoginFormatKept parse client data es x ↔
      ∀ ms, parse (cstr data) = some (.obj ms) → WholeNames ms := by
  cases hlogins : logins parse data with
  | none =>
      have hboth := login_format_of_rejected hlogins h
      exact iff_of_true hboth.1 hboth.2
  | some d =>
      obtain ⟨ms, hms, hmem⟩ := exists_of_logins hlogins
      have hcond : (∀ ms', parse (cstr data) = some (.obj ms') → WholeNames ms') ↔
          WholeNames ms := by
        simp [hms]
      rw [login_format_of_accepted hmem hms h, hcond, loginFormat_of_loginMembers hmem]

/-- A login in the format. -/
def plainLogin : Bytes :=
  ascii "\x7b\"uid\":1,\"mid\":2,\"gameid\":3,\"app_version\":\"4\"\x7d"

/-- The calls for it. -/
def plainLoginCalls : List HandlerEvent :=
  [⟨.setVersion 7 (versionField (ascii "4")), ()⟩, ⟨.setLogin 7 1 2 3, ()⟩]

theorem login_format_iff_plain :
    LoginFormatKept Json.parse 7 plainLogin plainLoginCalls (some _HANDLE_SUCCESSFUL) := by
  have hlogins : logins Json.parse plainLogin = some ⟨1, 2, 3, ascii "4"⟩ := by decide +kernel
  have hends : (modLogin Json.parse 7 plainLogin).Ends plainLoginCalls
      (some _HANDLE_SUCCESSFUL) := Prog.ends_some.mpr (runs_modLogin_of_logins hlogins 7)
  have hformat : loginFormat (Json.parse (cstr plainLogin)) = some (1, 2, 3) := by decide +kernel
  obtain ⟨ms, hms, hmem⟩ := exists_of_logins hlogins
  rw [hms] at hformat
  refine (login_format_iff hends).mpr fun ms' hms' => ?_
  obtain rfl : ms = ms' := by
    rw [hms] at hms'
    cases hms'
    rfl
  exact (loginFormat_of_loginMembers hmem).mp ⟨3, hformat, rfl⟩

/-- A payload whose first name is `uid\0mid\0gameid\0app_version`. -/
def shiftedNames : Bytes :=
  ascii "\x7b\"uid\\u0000mid\\u0000gameid\\u0000app_version\":1,\"a\":2,\"b\":3,\"c\":\"\"\x7d"

/-- The calls of a login as user 1 with the `mid` 2 and the `gameid` 3. -/
def shiftedCalls : List HandlerEvent :=
  [⟨.setVersion 7 (versionField []), ()⟩, ⟨.setLogin 7 1 2 3, ()⟩]

theorem ends_shiftedCalls :
    (modLogin Json.parse 7 shiftedNames).Ends shiftedCalls (some _HANDLE_SUCCESSFUL) := by
  have hlogins : logins Json.parse shiftedNames = some ⟨1, 2, 3, []⟩ := by decide +kernel
  have hruns := runs_modLogin_of_logins hlogins 7
  exact Prog.ends_some.mpr hruns

/-- A payload without a member `mid` or `gameid` is accepted. -/
theorem shifted_names_accepted :
    (modLogin Json.parse 7 shiftedNames).Ends shiftedCalls (some _HANDLE_SUCCESSFUL) ∧
      ¬ LoginFormatKept Json.parse 7 shiftedNames shiftedCalls (some _HANDLE_SUCCESSFUL) := by
  have hnone : (loginFormat (Json.parse (cstr shiftedNames))).isNone = true := by decide +kernel
  have hformat : loginFormat (Json.parse (cstr shiftedNames)) = none :=
    Option.isNone_iff_eq_none.mp hnone
  refine ⟨ends_shiftedCalls, fun hkept => ?_⟩
  cases (hkept.2 hformat).1

end SpiderChat
