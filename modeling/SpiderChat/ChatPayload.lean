import SpiderChat.ModChat

/-!
# SpiderChat.ChatPayload

**When a chat message arrives as it was sent.** `mod_chat_send_message` decodes
the message from JSON and puts it between quotes again with a plain `%s`, in an
array of 1048 bytes and with the sender's uid printed by `%d`. The payload is read
here by a standard JSON reader (`Lib.Json.parse`); it says what was sent exactly
when the uid fits 32 bits, no byte of the message needs an escape, and the whole
text fits the array.
-/

namespace SpiderChat

open Lib Handler

/-- The frame holds a JSON object with exactly the members `send_uid`, `msg` and
`time`, which name the sender and the message. -/
def SaysWhatWasSent (bytes : Bytes) (send_uid : Int64) (msg : Bytes) : Prop :=
  ∃ head body ms now, readFrame bytes = some (head, body) ∧ Json.parse body = some (.obj ms) ∧
    ms.Perm [(ascii "send_uid", .int send_uid.toInt), (ascii "msg", .str msg), (ascii "time", now)]

/-! ### Reading the payload -/

/-- The payload in front of the message. -/
def payloadFront (send_uid : Int64) : Bytes :=
  ascii "\x7b\"send_uid\":" ++ fmtD send_uid ++ ascii " , \"msg\":\""

/-- The payload behind the quote that ends the message. -/
def payloadBack (now : Int64) : Bytes := ascii " ,\"time\":" ++ fmtLd now ++ ascii "\x7d"

theorem onlinePayload_eq (send_uid : Int64) (msg : Bytes) (now : Int64) :
    onlinePayload send_uid msg now =
      payloadFront send_uid ++ (cstr msg ++ 34 :: payloadBack now) := by
  simp only [onlinePayload, payloadFront, payloadBack, List.append_assoc]
  rfl

theorem length_payloadFront_le (send_uid : Int64) : (payloadFront send_uid).length ≤ 33 := by
  have := length_fmtD_le send_uid
  simp only [payloadFront, List.length_append]
  show 12 + (fmtD send_uid).length + 10 ≤ 33
  omega

/-- The two members in front of what the literal of the message leaves. -/
theorem value_payload (k : Nat) (send_uid : Int64) (l : Bytes) :
    Json.value (k + 4) (payloadFront send_uid ++ l) =
      (Json.string l).bind fun p => (Json.moreMembers (k + 1) p.2).map fun q =>
        (.obj ((ascii "send_uid", .int send_uid.toInt32.toInt) :: (ascii "msg", .str p.1) :: q.1),
          q.2) := by
  have hfront : payloadFront send_uid ++ l =
      123 :: 34 :: (ascii "send_uid" ++ 34 :: (58 :: (fmtD send_uid ++ 32 :: 44 :: 32 :: 34 ::
        (ascii "msg" ++ 34 :: (58 :: 34 :: l))))) := by
    simp only [payloadFront, List.append_assoc]
    rfl
  have hsecond : Json.members (k + 2) (32 :: 34 :: (ascii "msg" ++ 34 :: (58 :: 34 :: l))) =
      (Json.string l).bind fun p => (Json.moreMembers (k + 1) p.2).map fun q =>
        ((ascii "msg", .str p.1) :: q.1, q.2) := by
    cases hl : Json.string l with
    | none =>
        rw [Json.members]
        have heat : Json.eat 34 (32 :: 34 :: (ascii "msg" ++ 34 :: (58 :: 34 :: l))) =
            some (ascii "msg" ++ 34 :: (58 :: 34 :: l)) := rfl
        have heat' : Json.eat 58 (58 :: 34 :: l) = some (34 :: l) := rfl
        simp only [heat, Json.string_plain (by decide : ∀ b ∈ ascii "msg", Json.PlainByte b), heat',
          Json.value_str, hl, bind, Option.bind_some, Option.map_none, Option.bind_none]
    | some p =>
        rw [Json.members_succ rfl
          (Json.string_plain (by decide : ∀ b ∈ ascii "msg", Json.PlainByte b) _) rfl
          (by rw [Json.value_str, hl]; rfl)]
        rfl
  have hnum : ∀ n, Json.value (n + 1) (fmtD send_uid ++ 32 :: 44 :: 32 :: 34 ::
        (ascii "msg" ++ 34 :: (58 :: 34 :: l))) =
      some (.int send_uid.toInt32.toInt,
        32 :: 44 :: 32 :: 34 :: (ascii "msg" ++ 34 :: (58 :: 34 :: l))) := fun n =>
    Json.value_int (by
      intro b hb
      cases hb
      rfl)
  rw [hfront, Json.value_obj rfl, Json.members_succ rfl
    (Json.string_plain (by decide : ∀ b ∈ ascii "send_uid", Json.PlainByte b) _) rfl (hnum (k + 1))]
  have hmore : Json.moreMembers (k + 2) (32 :: 44 :: 32 :: 34 :: (ascii "msg" ++ 34 ::
      (58 :: 34 :: l))) =
        Json.members (k + 2) (32 :: 34 :: (ascii "msg" ++ 34 :: (58 :: 34 :: l))) := rfl
  rw [hmore, hsecond]
  cases Json.string l with
  | none => rfl
  | some p => simp only [Option.bind_some, Option.map_map, Function.comp_def]

/-- The member behind the message, and the end of the object. -/
theorem moreMembers_payload (k : Nat) (now : Int64) :
    Json.moreMembers (k + 2) (payloadBack now) = some ([(ascii "time", .int now.toInt)], []) := by
  have hback : payloadBack now =
      32 :: 44 :: 34 :: (ascii "time" ++ 34 :: (58 :: (fmtLd now ++ [125]))) := by
    simp only [payloadBack, List.append_assoc]
    rfl
  have hnum : ∀ n, Json.value (n + 1) (fmtLd now ++ [125]) = some (.int now.toInt, [125]) :=
    fun n => Json.value_int (by
      intro b hb
      cases hb
      rfl)
  have hmore : ∀ l, Json.moreMembers (k + 2) (32 :: 44 :: l) = Json.members (k + 2) l :=
    fun _ => rfl
  rw [hback, hmore, Json.members_succ rfl
    (Json.string_plain (by decide : ∀ b ∈ ascii "time", Json.PlainByte b) _) rfl (hnum k)]
  rfl

/-- A literal that goes on behind the message holds no backslash: it is `" ,"`. -/
theorem scans_payloadBack {now : Int64} {j : Nat} {d r : Bytes} {e : UInt8}
    (h : Json.quoting.Scans ((payloadBack now).take j) d r) (he : Json.quoting.isEsc e = true) :
    e ∉ Json.quoting.quote :: d := by
  obtain ⟨l, hl⟩ : ∃ l, payloadBack now = 32 :: 44 :: 34 :: l := ⟨_, rfl⟩
  have he : e = 92 := by simpa [Json.quoting] using he
  subst he
  rw [hl] at h
  match j with
  | 0 => exact absurd h Json.not_scans_nil
  | 1 =>
      obtain ⟨d₁, -, h₁⟩ := Json.scans_cons (l := []) (by decide) h
      exact absurd h₁ Json.not_scans_nil
  | 2 =>
      obtain ⟨d₁, -, h₁⟩ := Json.scans_cons (l := [44]) (by decide) h
      obtain ⟨d₂, -, h₂⟩ := Json.scans_cons (l := []) (by decide) h₁
      exact absurd h₂ Json.not_scans_nil
  | j + 3 =>
      obtain ⟨d₁, rfl, h₁⟩ := Json.scans_cons (l := 44 :: 34 :: l.take j) (by decide) h
      obtain ⟨d₂, rfl, h₂⟩ := Json.scans_cons (l := 34 :: l.take j) (by decide) h₁
      obtain ⟨rfl, -⟩ := Json.scans_quote h₂
      decide

/-- The closing brace is the last byte of the payload, and the only one behind the message. -/
theorem length_le_of_brace_mem {now : Int64} {j : Nat} (h : 125 ∈ (payloadBack now).take j) :
    (payloadBack now).length ≤ j := by
  by_contra hlt
  have hfront : 125 ∉ ascii " ,\"time\":" ++ fmtLd now := by
    intro hmem
    rcases List.mem_append.mp hmem with hmem | hmem
    · exact absurd hmem (by decide)
    · rcases mem_decInt hmem with h | h <;> cases h
  have htake : (payloadBack now).take j = (ascii " ,\"time\":" ++ fmtLd now).take j := by
    rw [payloadBack, List.take_append_of_le_length]
    simp only [payloadBack, List.length_append] at hlt ⊢
    change ¬ _ + _ + 1 ≤ j at hlt
    omega
  rw [htake] at h
  exact hfront (List.mem_of_mem_take h)

/-- What is read from the front of a payload and any bytes behind it. -/
theorem parse_payload (send_uid : Int64) (l : Bytes) :
    ∃ k, ∀ j, Json.parse (payloadFront send_uid ++ l) = some j ↔
      ∃ d r ms rest, Json.quoting.Scans l d r ∧ Json.moreMembers (k + 2) r = some (ms, rest) ∧
        rest.all Json.isWs = true ∧
        j = .obj ((ascii "send_uid", .int send_uid.toInt32.toInt) ::
          (ascii "msg", .str d) :: ms) := by
  obtain ⟨k, hk⟩ : ∃ k, (payloadFront send_uid ++ l).length + 1 = (k + 1) + 4 := by
    refine ⟨(payloadFront send_uid ++ l).length - 4, ?_⟩
    have : 4 ≤ (payloadFront send_uid).length := by
      simp only [payloadFront, List.length_append]
      show 4 ≤ 12 + _ + 10
      omega
    rw [List.length_append]
    omega
  refine ⟨k, fun j => ?_⟩
  rw [Json.parse, hk, value_payload]
  constructor
  · intro h
    split at h
    · rename_i hval
      obtain ⟨⟨d, r⟩, hs, hmap⟩ := Option.bind_eq_some_iff.mp hval
      obtain ⟨⟨ms, rest'⟩, hmore, heq⟩ := Option.map_eq_some_iff.mp hmap
      cases heq
      split at h
      · rename_i hws
        exact ⟨d, r, ms, _, Json.string_eq_some.mp hs, hmore, hws, (Option.some.inj h).symm⟩
      · cases h
    · cases h
  · intro h
    obtain ⟨d, r, ms, rest, hs, hmore, hws, rfl⟩ := h
    rw [Json.string_eq_some.mpr hs]
    simp only [Option.bind_some, hmore, Option.map_some, hws, if_true]

/-- The text that is sent: its front is never cut off. -/
theorem snprintf_onlinePayload (send_uid : Int64) (msg : Bytes) (now : Int64) :
    snprintf 1048 (onlinePayload send_uid msg now) = payloadFront send_uid ++
      (cstr msg ++ 34 :: payloadBack now).take (1047 - (payloadFront send_uid).length) := by
  have hfront := length_payloadFront_le send_uid
  rw [snprintf, onlinePayload_eq, List.take_append, List.take_of_length_le (by omega)]

theorem length_onlinePayload (send_uid : Int64) (msg : Bytes) (now : Int64) :
    (onlinePayload send_uid msg now).length =
      (payloadFront send_uid).length + ((cstr msg).length + (1 + (payloadBack now).length)) := by
  simp only [onlinePayload_eq, List.length_append, List.length_cons]
  omega

/-- The members of a payload are told apart by their names. -/
theorem eq_of_perm {uid : Int} {d : Bytes} {ms : List (Bytes × Json)} {uid' : Int} {msg : Bytes}
    {v : Json} (h : ((ascii "send_uid", Json.int uid) :: (ascii "msg", .str d) :: ms).Perm
      [(ascii "send_uid", .int uid'), (ascii "msg", .str msg), (ascii "time", v)]) :
    uid = uid' ∧ d = msg := by
  have huid : (ascii "send_uid", Json.int uid) ∈ _ := h.subset List.mem_cons_self
  have hmsg : (ascii "msg", Json.str d) ∈ _ :=
    h.subset (List.mem_cons_of_mem _ List.mem_cons_self)
  simp only [List.mem_cons, Prod.mk.injEq, (by decide : ascii "send_uid" ≠ ascii "msg"),
    (by decide : ascii "send_uid" ≠ ascii "time"), (by decide : ascii "msg" ≠ ascii "send_uid"),
    (by decide : ascii "msg" ≠ ascii "time"), false_and, or_false, false_or, true_and,
    List.not_mem_nil, Json.int.injEq, Json.str.injEq] at huid hmsg
  exact ⟨huid, hmsg⟩

/-- When the literal behind the front denotes the message and a closing brace follows it,
the message is plain and nothing is cut off. -/
theorem plain_of_scans {send_uid now : Int64} {msg r : Bytes}
    (hs : Json.quoting.Scans
      ((cstr msg ++ 34 :: payloadBack now).take (1047 - (payloadFront send_uid).length)) msg r)
    (hbrace : 125 ∈ r) :
    (∀ b ∈ msg, Json.PlainByte b) ∧ (onlinePayload send_uid msg now).length ≤ 1047 := by
  have hfront := length_payloadFront_le send_uid
  rw [length_onlinePayload]
  by_cases hcut : 1047 - (payloadFront send_uid).length ≤ (cstr msg).length
  · -- the text is cut inside the message, and its literal cannot denote all of it
    rw [List.take_append_of_le_length hcut] at hs
    obtain ⟨raw, hraw, hle⟩ := hs.split Json.quoting_lawful
    have hlt := congrArg List.length hraw
    have hpre := (cstr_isPrefix msg).length_le
    simp only [List.length_take, List.length_append, List.length_cons] at hlt
    omega
  · obtain ⟨j, hj⟩ : ∃ j, 1047 - (payloadFront send_uid).length = (cstr msg).length + (j + 1) :=
      ⟨1047 - (payloadFront send_uid).length - (cstr msg).length - 1, by omega⟩
    rw [hj, List.take_length_add_append, List.take_succ_cons] at hs
    obtain ⟨hd, hr, hplain⟩ := hs.covers Json.quoting_lawful rfl
      (fun _ _ _ hs' he => scans_payloadBack hs' he) (cstr_isPrefix msg)
    rw [hr] at hbrace
    have := length_le_of_brace_mem hbrace
    refine ⟨?_, by omega⟩
    rw [hd]
    exact Json.plain_iff.mp hplain

/-- **The payload's members are the ones meant** exactly when `%d` prints the
sender in full, the message needs no escape and nothing is cut off. -/
theorem payload_says_iff (send_uid : Int64) (msg : Bytes) (now : Int64) :
    (∃ ms v, Json.parse (snprintf 1048 (onlinePayload send_uid msg now)) = some (.obj ms) ∧
      ms.Perm [(ascii "send_uid", .int send_uid.toInt), (ascii "msg", .str msg),
        (ascii "time", v)]) ↔
      Fits32 send_uid ∧ (∀ b ∈ msg, Json.PlainByte b) ∧
        (onlinePayload send_uid msg now).length ≤ 1047 := by
  obtain ⟨k, hparse⟩ := parse_payload send_uid
    ((cstr msg ++ 34 :: payloadBack now).take (1047 - (payloadFront send_uid).length))
  rw [snprintf_onlinePayload]
  constructor
  · intro h
    obtain ⟨ms, v, hms, hperm⟩ := h
    obtain ⟨d, r, ms', rest, hs, hmore, -, heq⟩ := (hparse _).mp hms
    cases heq
    obtain ⟨huid, rfl⟩ := eq_of_perm hperm
    exact ⟨huid, plain_of_scans hs (Json.brace_mem_of_moreMembers hmore)⟩
  · intro h
    obtain ⟨hfits, hplain, hlen⟩ := h
    have hmsg : cstr msg = msg := cstr_of_forall fun b hb => by
      intro heq
      subst heq
      exact absurd (hplain 0 hb).1 (by decide)
    rw [length_onlinePayload, hmsg] at hlen
    have hall : (cstr msg ++ 34 :: payloadBack now).take (1047 - (payloadFront send_uid).length) =
        msg ++ 34 :: payloadBack now := by
      rw [hmsg, List.take_of_length_le]
      simp only [List.length_append, List.length_cons]
      omega
    refine ⟨_, .int now.toInt, (hparse _).mpr ⟨msg, payloadBack now,
      [(ascii "time", .int now.toInt)], [], ?_, moreMembers_payload k now, rfl, rfl⟩, ?_⟩
    · rw [hall]
      exact (Json.plain_iff.mpr hplain).scans rfl
    · rw [show send_uid.toInt32.toInt = send_uid.toInt from hfits]

/-- The payload always fits a frame, and is its body. -/
theorem frame_onlinePayload (cmd gameid : Int32) (send_uid : Int64) (msg : Bytes) (now : Int64) :
    ∃ bytes head, frame cmd gameid (snprintf 1048 (onlinePayload send_uid msg now)) = some bytes ∧
      readFrame bytes = some (head, snprintf 1048 (onlinePayload send_uid msg now)) := by
  have hzero : ∀ b ∈ snprintf 1048 (onlinePayload send_uid msg now), b ≠ 0 := fun b hb =>
    onlinePayload_ne_zero send_uid msg now b (List.mem_of_mem_take hb)
  have hlen := length_snprintf_le 1048 (onlinePayload send_uid msg now)
  obtain ⟨bytes, head, hframe, hread, -⟩ := frame_eq cmd gameid _ hzero
    (by omega)
  exact ⟨bytes, head, hframe, hread⟩

/-- A frame says what was sent when its payload does. -/
theorem saysWhatWasSent_iff {cmd gameid : Int32} {send_uid now : Int64} {msg bytes : Bytes}
    (hframe : frame cmd gameid (snprintf 1048 (onlinePayload send_uid msg now)) = some bytes) :
    SaysWhatWasSent bytes send_uid msg ↔
      Fits32 send_uid ∧ (∀ b ∈ msg, Json.PlainByte b) ∧
        (onlinePayload send_uid msg now).length ≤ 1047 := by
  obtain ⟨bytes', head, hframe', hread⟩ := frame_onlinePayload cmd gameid send_uid msg now
  obtain rfl := Option.some.inj (hframe'.symm.trans hframe)
  rw [← payload_says_iff]
  constructor
  · intro h
    obtain ⟨head', body, ms, v, hread', hparse, hperm⟩ := h
    obtain ⟨rfl, rfl⟩ := Prod.mk.inj (Option.some.inj (hread.symm.trans hread'))
    exact ⟨ms, v, hparse, hperm⟩
  · intro h
    obtain ⟨ms, v, hparse, hperm⟩ := h
    exact ⟨head, _, ms, v, hread, hparse, hperm⟩

/-- **What an online recipient is sent**: for an accepted message, the payload of
every frame that `mod_chat_send_message` sends at the time `now` is a JSON object
with exactly the sender's uid, the message and a time, if and only if the uid fits
32 bits, every byte of the message is plain (no quote, no backslash, no control
character) and the payload fits its array. The recipient's parser takes the text byte by byte
and does not ask whether it is UTF-8. -/
theorem chat_payload_says_iff (parse : Bytes → Option Json) (send_uid recv_uid now : Int64)
    (data msg : Bytes) (hacc : accepts parse data = some (recv_uid, msg)) :
    (∀ es ret fd bytes code, (modChatSendMessage parse send_uid data).Runs es ret →
      ⟨.time, now⟩ ∈ es → ⟨.send fd bytes, code⟩ ∈ es → SaysWhatWasSent bytes send_uid msg) ↔
      Fits32 send_uid ∧ (∀ b ∈ msg, Json.PlainByte b) ∧
        (onlinePayload send_uid msg now).length ≤ 1047 := by
  rw [modChatSendMessage_of_accepts parse hacc]
  constructor
  · intro h
    obtain ⟨bytes, head, hframe, -⟩ := frame_onlinePayload HANDLE_SEND_MESSAGE 1000 send_uid msg now
    have hrun := runs_deliver_online recv_uid 1 ⟨5, recv_uid, 0, 1000, [], 0⟩ 0 hframe
    exact (saysWhatWasSent_iff hframe).mp
      (h _ _HANDLE_SUCCESSFUL 5 bytes 0 hrun (by simp) (by simp))
  · intro hcond es ret fd bytes code hrun htime hsend
    rcases runs_deliver hrun with ⟨rfl, -⟩ | ⟨conn, ok, rfl, -⟩ |
      ⟨recv_client, now', client, bytes', code', hframe, rfl, -⟩
    · simp at hsend
    · simp at hsend
    · obtain rfl : now = now' := by simpa using htime
      obtain ⟨-, rfl⟩ : fd = client.fd ∧ bytes = bytes' := by
        simp at hsend
        exact hsend.1
      exact (saysWhatWasSent_iff hframe).mpr hcond

/-- A plain message from user 5 to user 7 arrives as it was sent. -/
theorem chat_payload_says_iff_plain :
    accepts Json.parse (ascii "\x7b\"recv_id\":7,\"msg\":\"hi\"\x7d") = some (7, ascii "hi") ∧
    ∀ es ret fd bytes code,
      (modChatSendMessage Json.parse 5 (ascii "\x7b\"recv_id\":7,\"msg\":\"hi\"\x7d")).Runs es ret →
      ⟨.time, 1384700000⟩ ∈ es → ⟨.send fd bytes, code⟩ ∈ es →
      SaysWhatWasSent bytes 5 (ascii "hi") := by
  have hacc : accepts Json.parse (ascii "\x7b\"recv_id\":7,\"msg\":\"hi\"\x7d") =
      some (7, ascii "hi") := by decide +kernel
  exact ⟨hacc, (chat_payload_says_iff Json.parse 5 7 1384700000 _ _ hacc).mpr
    ⟨by decide, by decide, by decide⟩⟩

/-- The message `x","send_uid":9,"a":"y`. -/
def forgingMsg : Bytes := ascii "x\",\"send_uid\":9,\"a\":\"y"

/-- The payload of a request to send it to user 7. -/
def forgingData : Bytes :=
  ascii "\x7b\"recv_id\":7,\"msg\":\"x\\\",\\\"send_uid\\\":9,\\\"a\\\":\\\"y\"\x7d"

/-- A message with quotes in it ends the string early and adds members of its own. -/
theorem chat_payload_forged :
    accepts Json.parse forgingData = some (7, forgingMsg) ∧
    ∃ es ret bytes, (modChatSendMessage Json.parse 5 forgingData).Runs es ret ∧
      ⟨.send 6 bytes, 0⟩ ∈ es ∧ ¬ SaysWhatWasSent bytes 5 forgingMsg := by
  have hacc : accepts Json.parse forgingData = some (7, forgingMsg) := by decide +kernel
  obtain ⟨bytes, head, hframe, -⟩ :=
    frame_onlinePayload HANDLE_SEND_MESSAGE 1000 5 forgingMsg 1384700000
  have hrun := runs_deliver_online 7 1 ⟨6, 7, 0, 1000, [], 0⟩ 0 hframe
  rw [← modChatSendMessage_of_accepts Json.parse hacc] at hrun
  refine ⟨hacc, _, _, bytes, hrun, by simp, ?_⟩
  rw [saysWhatWasSent_iff hframe]
  exact fun h => absurd h.2.1 (by decide)

end SpiderChat
