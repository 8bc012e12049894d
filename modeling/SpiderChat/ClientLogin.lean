import SpiderChat.Handle
import SpiderChat.Lib.JsonText
import SpiderChat.ReadPath

/-!
# SpiderChat.ClientLogin

**The login packet of `spider_client.c`.** The client has a header of its own: its
`HANDLE_LOGIN` is 0, where the server's is 0x100, and the second member of its payload is
`gmid`, where `mod_login` wants `mid`. So the server reads the packet, does nothing with the
task, and its `mod_login` would reject the body, whatever the values are.
-/

namespace SpiderChat

open Lib Handler

namespace Client

/-- `HANDLE_LOGIN` of `spider_client.c`. -/
def HANDLE_LOGIN : Int32 := 0x000

section

variable (uid gmid : Int64) (gameid : Int32) (app_version : Bytes)

/-- The text that `main` prints into `pack`. -/
def loginText : Bytes :=
  ascii "\x7b\"uid\":" ++ fmtLd uid ++ ascii ",\"gmid\":" ++ fmtLd gmid ++ ascii ",\"gameid\":" ++
    decInt gameid.toInt ++ ascii ",\"app_version\":\"" ++ cstr app_version ++ ascii "\"\x7d"

/-- `pack` -/
def loginPack : Bytes := snprintf 100 (loginText uid gmid gameid app_version)

/-- The head in front of `pack`. -/
def loginHead : PacketHead :=
  { length := .ofNat (loginPack uid gmid gameid app_version).length
    flag := ascii "BY"
    cVersion := 1
    cmd := HANDLE_LOGIN
    gameid := 1004
    code := PACKET_HEAD_CODE }

/-- What `main` writes to the socket. -/
def loginPacket : Bytes :=
  (loginHead uid gmid gameid app_version).encode ++ loginPack uid gmid gameid app_version

/-- The server reads the packet, takes it for a login, and logs the client in with these
values. -/
def SpeaksLogin (parse : Bytes → Option Json) : Prop :=
  ∃ es cmd data, readPacket.Runs es (.task cmd data) ∧ (∀ e ∈ es, ReadEvent.Full e) ∧
    consumed es = loginPacket uid gmid gameid app_version ∧ cmd = SpiderChat.HANDLE_LOGIN ∧
    ∀ client, (modLogin parse client data).Runs
      [⟨.setVersion client (versionField app_version), ()⟩,
        ⟨.setLogin client uid gmid gameid, ()⟩] _HANDLE_SUCCESSFUL

end

variable {uid gmid : Int64} {gameid : Int32} {app_version : Bytes}

/-- The members of the payload. -/
def loginMembers (uid gmid : Int64) (gameid : Int32) (app_version : Bytes) :
    List (Bytes × Json) :=
  [(ascii "uid", .int uid.toInt), (ascii "gmid", .int gmid.toInt),
    (ascii "gameid", .int gameid.toInt), (ascii "app_version", .str app_version)]

theorem flat_loginText (uid gmid : Int64) (gameid : Int32)
    (hversion : ∀ b ∈ app_version, Json.PlainByte b) :
    ∃ t, Json.FlatMembers (loginMembers uid gmid gameid app_version) t ∧
      loginText uid gmid gameid app_version = 123 :: (t ++ [125]) := by
  have hcstr : cstr app_version = app_version := cstr_of_forall (Json.ne_zero_of_plain hversion)
  refine ⟨_, .cons (by decide) (.int uid.toInt) (.cons (by decide) (.int gmid.toInt)
    (.cons (by decide) (.int gameid.toInt) (.last (by decide) (.str hversion)))), ?_⟩
  simp only [loginText, hcstr, fmtLd, ascii]
  simp

/-- The payload is an object with these members. -/
theorem parse_loginText (hversion : ∀ b ∈ app_version, Json.PlainByte b) :
    Json.parse (loginText uid gmid gameid app_version) =
      some (.obj (loginMembers uid gmid gameid app_version)) := by
  obtain ⟨t, ht, heq⟩ := flat_loginText uid gmid gameid hversion
  rw [heq]
  exact Json.parse_flat ht

theorem cstr_loginText (hversion : ∀ b ∈ app_version, Json.PlainByte b) :
    cstr (loginText uid gmid gameid app_version) = loginText uid gmid gameid app_version := by
  obtain ⟨t, ht, heq⟩ := flat_loginText uid gmid gameid hversion
  refine cstr_of_forall fun b hb => ?_
  rw [heq] at hb
  simp only [List.mem_cons, List.mem_append, List.not_mem_nil, or_false] at hb
  rcases hb with rfl | hb | rfl
  · decide
  · exact ht.ne_zero b hb
  · decide

/-- **`mod_login` rejects the members**: the second one is not `mid`. -/
theorem loginMembers_rejected (uid gmid : Int64) (gameid : Int32) (app_version : Bytes) :
    SpiderChat.loginMembers (loginMembers uid gmid gameid app_version) = some none := by
  have hfirst : nameAt (loginMembers uid gmid gameid app_version) 0 = some (ascii "uid") :=
    nameAt_append (by decide) (rfl : (namesOf []).length = 0)
  have hsecond : nameAt (loginMembers uid gmid gameid app_version) 4 = some (ascii "gmid") :=
    nameAt_append (by decide) (rfl : (namesOf [(ascii "uid", .int uid.toInt)]).length = 4)
  have hlen : (loginMembers uid gmid gameid app_version).length = 4 := rfl
  have hvalue : (allocsOfMembers (loginMembers uid gmid gameid app_version))[0]? =
      some (.int uid.toInt) := rfl
  have hvalue' : (allocsOfMembers (loginMembers uid gmid gameid app_version))[1]? =
      some (.int gmid.toInt) := rfl
  have hname : decide (ascii "gmid" = ascii "mid") = false := rfl
  simp only [SpiderChat.loginMembers, hlen, hfirst, hsecond, hvalue, hvalue', hname, ne_eq,
    not_true_eq_false, if_false, bind, Option.bind_some, decide_true]

/-- The server reads the packet as it was written. -/
theorem loginHead_valid (hfit : (loginText uid gmid gameid app_version).length < 100) :
    (loginHead uid gmid gameid app_version).Valid ∧
      (loginHead uid gmid gameid app_version).length.toInt =
        (loginPack uid gmid gameid app_version).length ∧
      loginPack uid gmid gameid app_version = loginText uid gmid gameid app_version := by
  have hpack : loginPack uid gmid gameid app_version = loginText uid gmid gameid app_version :=
    snprintf_of_lt hfit
  have hlen : (loginHead uid gmid gameid app_version).length.toInt =
      (loginPack uid gmid gameid app_version).length := by
    refine Int32.toInt_ofNat_of_lt ?_
    rw [hpack]
    omega
  have hpos : 1 ≤ (loginText uid gmid gameid app_version).length := by
    simp only [loginText, List.length_append]
    show 1 ≤ 7 + _ + 8 + _ + 10 + _ + 16 + _ + 2
    omega
  have hgameid : (1000 : Int16) ≤ 1004 := by decide
  refine ⟨⟨rfl, hgameid, rfl, ?_, ?_⟩, hlen, hpack⟩
  · rw [hlen, hpack]
    omega
  · rw [hlen, hpack]
    omega

/-- The server does not take the packet for a login. -/
theorem not_speaksLogin (hfit : (loginText uid gmid gameid app_version).length < 100)
    (parse : Bytes → Option Json) : ¬ SpeaksLogin uid gmid gameid app_version parse := by
  intro h
  obtain ⟨es, cmd, data, hruns, hfull, hconsumed, hcmd, -⟩ := h
  obtain ⟨hvalid, hlen, -⟩ := loginHead_valid hfit
  have hbytes : consumed es ++ [] = (loginHead uid gmid gameid app_version).encode ++
      (loginPack uid gmid gameid app_version ++ []) := by
    rw [hconsumed, loginPacket, List.append_nil, List.append_nil]
  obtain ⟨htask, -⟩ := runs_readPacket_full hruns hfull hvalid hlen hbytes
  obtain ⟨rfl, -⟩ := ReadOutcome.task.inj htask
  have hne : HANDLE_LOGIN ≠ SpiderChat.HANDLE_LOGIN := by decide
  exact hne hcmd

/-- **The client does not speak the server's login protocol**, whatever the values: the server
reads the packet as a task with the command 0, `handle_data` does nothing with it, and
`mod_login` would reject the body. -/
theorem client_login_unheard (parse : Bytes → Option Json)
    (hversion : ∀ b ∈ app_version, Json.PlainByte b)
    (hfit : (loginText uid gmid gameid app_version).length < 100) :
    ¬ SpeaksLogin uid gmid gameid app_version parse ∧
      (∃ es, readPacket.Runs es (.task HANDLE_LOGIN (loginText uid gmid gameid app_version)) ∧
        (∀ e ∈ es, ReadEvent.Full e) ∧ consumed es = loginPacket uid gmid gameid app_version) ∧
      (∀ fd client, handleData parse
        ⟨fd, client, HANDLE_LOGIN, loginText uid gmid gameid app_version⟩ = pure 1) ∧
      (parse (loginText uid gmid gameid app_version) =
          Json.parse (loginText uid gmid gameid app_version) → ∀ client,
        modLogin parse client (loginText uid gmid gameid app_version) =
          pure _ERROR_HANDLE_LOGIN_DATA_PARSE_ERROR) := by
  obtain ⟨hvalid, hlen, hpack⟩ := loginHead_valid hfit
  refine ⟨not_speaksLogin hfit parse, ?_, fun fd client => rfl, fun hparse client => ?_⟩
  · rw [← hpack]
    exact exists_runs_readPacket hvalid hlen
  · refine modLogin_of_logins_eq_none ?_ client
    rw [logins, cstr_loginText hversion, hparse, parse_loginText hversion]
    show (SpiderChat.loginMembers (loginMembers uid gmid gameid app_version)).join = none
    rw [loginMembers_rejected]
    rfl

/-- The values that `main` has. -/
theorem client_login_unheard_main :
    ¬ SpeaksLogin 10001 200001 1004 (ascii "1.0.1") Json.parse ∧
      ∀ fd client, handleData Json.parse
        ⟨fd, client, HANDLE_LOGIN, loginText 10001 200001 1004 (ascii "1.0.1")⟩ = pure 1 := by
  have hfit : (loginText 10001 200001 1004 (ascii "1.0.1")).length < 100 := by decide
  obtain ⟨hnot, -, htask, -⟩ := client_login_unheard Json.parse (by decide) hfit
  exact ⟨hnot, htask⟩

/-- The login of `main` is not one for the server. -/
theorem main_login_unheard : ¬ SpeaksLogin 10001 200001 1004 (ascii "1.0.1") Json.parse :=
  not_speaksLogin (by decide) Json.parse

end Client

end SpiderChat
