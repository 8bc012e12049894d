import SpiderChat.Lib.SqlStmt
import SpiderChat.ModChat

/-!
# SpiderChat.ChatSql

**What the SQL text of an offline message says.** `mod_chat_send_message` puts the
message between single quotes as it is. The text is read here by the rules of
MySQL (`Lib.Sql.read`); it is one `INSERT` with the message as its third value
exactly when the table of the sender exists and the message stands for itself
between quotes (`Lib.Sql.PlainText`).

`insertSql_inv` is the direction that has to deal with every message: whatever the
text is read as, when some row of its first `INSERT` holds the message, the string
literal was the message itself.
-/

namespace SpiderChat

open Lib Handler Sql

/-- The text is a single `INSERT` of the row meant, with the message as its third
value, into the sender's table. -/
def StoresMessage (sql : Bytes) (send_uid recv_uid : Int64) (msg : Bytes) : Prop :=
  Sql.read sql = some [.insert (offlineTable send_uid) [ascii "uid", ascii "send_uid", ascii "msg"]
    [[.int recv_uid.toInt32.toInt, .int send_uid.toInt32.toInt, .str msg]]]

/-! ### The tokens in front of the message -/

private theorem isWord_of_digit {b : UInt8} (h : isDigit b = true) : isWord b = true := by
  simp [isWord, h]

/-- The name of a provisioned table is one word. -/
theorem lex_offlineTable {uid : Int64} (h : 0 ≤ shard uid) {l : Bytes} (hl : WordEnd l) :
    lex (offlineTable uid ++ l) = (lex l).map fun p => (.word (offlineTable uid) :: p.1, p.2) := by
  have hname : offlineTable uid = ascii "offline_msg_" ++ decNat (shard uid).natAbs := by
    rw [offlineTable_eq, decInt, if_neg (by omega)]
  rw [hname]
  refine lex_word ⟨?_, ?_⟩ hl
  · intro b hb
    rcases List.mem_append.mp hb with hb | hb
    · exact (by decide : ∀ b ∈ ascii "offline_msg_", isWord b = true) b hb
    · exact isWord_of_digit (isDigit_of_mem_decNat hb)
  · rw [List.all_append, (by decide : (ascii "offline_msg_").all isDigit = false), Bool.false_and]

/-- The name with a negative number ends at the sign. -/
theorem lex_offlineTable_neg {uid : Int64} (h : shard uid < 0) {l : Bytes} (hl : WordEnd l) :
    lex (offlineTable uid ++ l) = (lex l).map fun p =>
      (.word (ascii "offline_msg_") :: .sym 45 :: .int (shard uid).natAbs :: p.1, p.2) := by
  have hint : intToks (shard uid) = [.sym 45, .int (shard uid).natAbs] := if_pos h
  obtain ⟨-, hdec⟩ | ⟨hpos, -⟩ := decInt_cases (shard uid)
  · rw [offlineTable_eq, List.append_assoc, lex_word (by decide)
      (by rw [hdec]; exact wordEnd_cons (by decide)), lex_int hl, hint, Option.map_map]
    rfl
  · omega

/-- Between the table and the values. -/
def columnToks : List Tok :=
  [.sym 40, .word (ascii "uid"), .sym 44, .word (ascii "send_uid"), .sym 44, .word (ascii "msg"),
    .sym 41, .word (ascii "values"), .sym 40]

theorem lex_columns (l : Bytes) :
    lex (ascii " ( uid , send_uid , msg ) values ( " ++ l) =
      (lex l).map fun p => (columnToks ++ p.1, p.2) := by
  have htext : ascii " ( uid , send_uid , msg ) values ( " ++ l =
      32 :: 40 :: 32 :: (ascii "uid" ++ 32 :: 44 :: 32 :: (ascii "send_uid" ++ 32 :: 44 :: 32 ::
        (ascii "msg" ++ 32 :: 41 :: 32 :: (ascii "values" ++ 32 :: 40 :: 32 :: l)))) := rfl
  rw [htext, lex_space, lex_sym (.inl rfl), lex_space,
    lex_word_sym (w := ascii "uid") (by decide) (.inr (.inr (.inl rfl))),
    lex_word_sym (w := ascii "send_uid") (by decide) (.inr (.inr (.inl rfl))),
    lex_word_sym (w := ascii "msg") (by decide) (.inr (.inl rfl)),
    lex_word_sym (w := ascii "values") (by decide) (.inl rfl)]
  simp only [Option.map_map, Function.comp_def]
  rfl

/-- The two numbers and their commas. -/
def uidToks (recv_uid send_uid : Int64) : List Tok :=
  intToks recv_uid.toInt32.toInt ++ .sym 44 :: (intToks send_uid.toInt32.toInt ++ [.sym 44])

theorem lex_uids (recv_uid send_uid : Int64) (l : Bytes) :
    lex (fmtD recv_uid ++ (ascii " , " ++ (fmtD send_uid ++ (ascii " , " ++ l)))) =
      (lex l).map fun p => (uidToks recv_uid send_uid ++ p.1, p.2) := by
  have hcomma : ∀ l, lex (ascii " , " ++ l) = (lex l).map fun p => (.sym 44 :: p.1, p.2) := by
    intro l
    have htext : ascii " , " ++ l = 32 :: 44 :: 32 :: l := rfl
    rw [htext, lex_space, lex_sym (by decide), lex_space]
  rw [fmtD, fmtD, lex_int (wordEnd_append (b := 32) rfl rfl), hcomma,
    lex_int (wordEnd_append (b := 32) rfl rfl), hcomma]
  simp only [Option.map_map, Function.comp_def, uidToks, List.append_assoc, List.cons_append,
    List.nil_append]

theorem lex_insertInto (l : Bytes) :
    lex (ascii "insert into " ++ l) =
      (lex l).map fun p => (.word (ascii "insert") :: .word (ascii "into") :: p.1, p.2) := by
  have htext : ascii "insert into " ++ l = ascii "insert" ++ 32 :: (ascii "into" ++ 32 :: l) := rfl
  rw [htext, lex_word_space (by decide), lex_word_space (by decide), Option.map_map]
  rfl

/-- The message and what follows it. -/
def messageText (msg : Bytes) : Bytes := 39 :: (cstr msg ++ 39 :: ascii " );")

theorem insertSql_eq (recv_uid send_uid : Int64) (msg : Bytes) :
    insertSql recv_uid send_uid msg = ascii "insert into " ++ (offlineTable send_uid ++
      (ascii " ( uid , send_uid , msg ) values ( " ++ (fmtD recv_uid ++ (ascii " , " ++
        (fmtD send_uid ++ (ascii " , " ++ messageText msg)))))) := by
  simp only [insertSql, messageText, List.append_assoc]
  rfl

/-- The statement is never cut off: it takes less than 2048 bytes. -/
theorem snprintf_insertSql {recv_uid send_uid : Int64} {msg : Bytes} (h : msg.length < 1024) :
    snprintf 2048 (insertSql recv_uid send_uid msg) = insertSql recv_uid send_uid msg := by
  have htable := length_offlineTable_le send_uid
  have hrecv := length_fmtD_le recv_uid
  have hsend := length_fmtD_le send_uid
  have hmsg := (cstr_isPrefix msg).length_le
  refine snprintf_of_lt ?_
  rw [insertSql_eq]
  simp only [List.length_append, messageText, List.length_cons]
  show 12 + (_ + (35 + (_ + (3 + (_ + (3 + (_ + (3 + 1) + 1))))))) < 2048
  omega

/-- All tokens in front of the message. -/
def frontToks (recv_uid send_uid : Int64) : List Tok :=
  .word (ascii "insert") :: .word (ascii "into") :: .word (offlineTable send_uid) ::
    (columnToks ++ uidToks recv_uid send_uid)

theorem lex_insertSql {recv_uid send_uid : Int64} (h : 0 ≤ shard send_uid) (msg : Bytes) :
    lex (insertSql recv_uid send_uid msg) = (lex (messageText msg)).map fun p =>
      (frontToks recv_uid send_uid ++ p.1, p.2) := by
  rw [insertSql_eq, lex_insertInto, lex_offlineTable h (wordEnd_append (b := 32) rfl rfl),
    lex_columns, lex_uids]
  simp only [Option.map_map, Function.comp_def, frontToks, List.cons_append, List.append_assoc]

theorem noStr_frontToks (recv_uid send_uid : Int64) : NoStr (frontToks recv_uid send_uid) := by
  intro d hd
  have hrecv := noStr_intToks recv_uid.toInt32.toInt d
  have hsend := noStr_intToks send_uid.toInt32.toInt d
  simp only [frontToks, columnToks, uidToks, List.mem_cons, List.mem_append, hrecv, hsend,
    List.not_mem_nil, reduceCtorEq, or_self] at hd

/-! ### Reading the statement -/

/-- The statement behind its table. -/
theorem stmt_frontToks (recv_uid send_uid : Int64) (ts : List Tok) :
    stmt (frontToks recv_uid send_uid ++ ts) =
      (rows ((uidToks recv_uid send_uid ++ ts).length + 2)
        (.sym 40 :: (uidToks recv_uid send_uid ++ ts))).map
        fun rs => .insert (offlineTable send_uid) [ascii "uid", ascii "send_uid", ascii "msg"] rs :=
  rfl

/-- A table with a negative number is a syntax error. -/
theorem shard_nonneg_of_first {recv_uid send_uid : Int64} {msg : Bytes} {st : Stmt}
    (h : first (insertSql recv_uid send_uid msg) = some st) : 0 ≤ shard send_uid := by
  by_contra hneg
  obtain ⟨⟨ts, rest⟩, hlex, hst⟩ := Option.bind_eq_some_iff.mp h
  rw [insertSql_eq, lex_insertInto,
    lex_offlineTable_neg (by omega) (wordEnd_append (b := 32) rfl rfl)] at hlex
  obtain ⟨⟨ts₁, rest₁⟩, hlex₁, heq⟩ := Option.map_eq_some_iff.mp hlex
  cases heq
  obtain ⟨⟨ts₂, rest₂⟩, -, heq⟩ := Option.map_eq_some_iff.mp hlex₁
  cases heq
  cases hst

/-- **A row that holds the message was written by it**: if the first statement is an
`INSERT` and one of its rows has the message as a value, then the message stands
for itself between quotes, and no zero byte has cut it off. -/
theorem insertSql_inv {recv_uid send_uid : Int64} {msg table : Bytes} {cols : List Bytes}
    {rs : List (List Val)}
    (h : first (insertSql recv_uid send_uid msg) = some (.insert table cols rs)) :
    0 ≤ shard send_uid ∧ table = offlineTable send_uid ∧
      ∀ row ∈ rs, .str msg ∈ row → (∀ b ∈ msg, b ≠ 0) ∧ PlainText 39 msg = true := by
  have hshard := shard_nonneg_of_first h
  have hquote : IsQuote 39 := Or.inl rfl
  obtain ⟨⟨ts, rest⟩, hlex, hst⟩ := Option.bind_eq_some_iff.mp h
  rw [lex_insertSql hshard] at hlex
  obtain ⟨⟨ts₁, rest₁⟩, hlex₁, heq⟩ := Option.map_eq_some_iff.mp hlex
  cases heq
  simp only [join_append (noStr_frontToks _ _)] at hst
  have hins : insertStmt (.word (offlineTable send_uid) ::
      (columnToks ++ uidToks recv_uid send_uid ++ join ts₁)) = some (.insert table cols rs) := hst
  obtain ⟨us, hus, hmem⟩ := insertStmt_inv hins
  obtain ⟨htable, hus⟩ := List.cons.inj hus
  refine ⟨hshard, (Tok.word.inj htable).symm, fun row hrow hval => ?_⟩
  -- the literal is among the tokens behind the front
  have hjoin : .str msg ∈ join ts₁ := by
    have hin := List.mem_cons_of_mem (.sym 40) (hmem row hrow msg hval)
    rw [← hus, List.mem_append] at hin
    refine hin.resolve_left fun hfront => noStr_frontToks recv_uid send_uid msg ?_
    exact List.mem_cons_of_mem _ (List.mem_cons_of_mem _ (List.mem_cons_of_mem _ hfront))
  have hpre := cstr_isPrefix msg
  have hsize : strSize ts₁ ≤ (39 :: (cstr msg ++ [39])).length := by
    have hquotes : 39 ∉ ascii " );" ∧ 34 ∉ ascii " );" := by decide
    refine strSize_le hquotes (?_ : lex _ = some (ts₁, rest₁))
    rw [← hlex₁, messageText, List.cons_append, List.append_assoc]
    rfl
  simp only [List.length_cons, List.length_append, List.length_nil] at hsize
  obtain ⟨d, r, ts₂, hs, rfl⟩ := lex_quote_inv hquote hlex₁
  obtain rfl : msg = d := eq_of_mem_join hjoin (by have := hpre.length_le; omega)
  have htail : ∀ d' r' e, (Sql.quoting 39).Scans (ascii " );") d' r' →
      (Sql.quoting 39).isEsc e = true → e ∉ (Sql.quoting 39).quote :: d' := by
    intro d' r' e hs' _
    obtain ⟨raw, hraw, -⟩ := hs'.split (quoting_lawful hquote)
    have hin : (39 : UInt8) ∈ ascii " );" := by
      rw [hraw]
      exact List.mem_append_right _ List.mem_cons_self
    exact absurd hin (by decide)
  -- so it was read from the message alone
  obtain ⟨heq, -, hplain⟩ := hs.covers (quoting_lawful hquote) rfl htail hpre
  rw [heq]
  exact ⟨fun b hb => ne_zero_of_mem_cstr hb, (plain_iff hquote).mp hplain⟩

/-- A plain message is stored as it is. -/
theorem read_insertSql {recv_uid send_uid : Int64} {msg : Bytes} (hshard : 0 ≤ shard send_uid)
    (hzero : ∀ b ∈ msg, b ≠ 0) (hplain : PlainText 39 msg = true) :
    StoresMessage (insertSql recv_uid send_uid msg) send_uid recv_uid msg := by
  have htail : lex (ascii " );") = some ([.sym 41], []) := by decide
  have hlex : lex (insertSql recv_uid send_uid msg) =
      some (frontToks recv_uid send_uid ++ [.str msg, .sym 41], []) := by
    rw [lex_insertSql hshard, messageText, cstr_of_forall hzero,
      lex_plain (Or.inl rfl) hplain (by decide), htail]
    rfl
  refine read_single hlex ?_
  rw [join_append (noStr_frontToks _ _)]
  have hjoin : join [.str msg, .sym 41] = [.str msg, .sym 41] := rfl
  have hvals : vals (uidToks recv_uid send_uid ++ [.str msg, .sym 41]) =
      some ([.int recv_uid.toInt32.toInt, .int send_uid.toInt32.toInt, .str msg], []) := by
    simp only [uidToks, List.append_assoc, List.cons_append, List.nil_append, vals_int]
    rfl
  rw [hjoin, stmt_frontToks, rows, if_pos rfl, hvals]
  rfl

/-- Every query made for an accepted message is the `INSERT`, not cut off. -/
theorem querySql_of_accepts {parse : Bytes → Option Json} {send_uid recv_uid : Int64}
    {data msg : Bytes} (hacc : accepts parse data = some (recv_uid, msg))
    {es : List HandlerEvent} {ret : Int32}
    (hrun : (modChatSendMessage parse send_uid data).Runs es ret) {conn : Addr} {sql : Bytes}
    {ok : Bool} (hquery : ⟨.querySql conn sql, ok⟩ ∈ es) :
    sql = insertSql recv_uid send_uid msg := by
  rw [modChatSendMessage_of_accepts parse hacc] at hrun
  rcases runs_deliver hrun with ⟨rfl, -⟩ | ⟨conn', ok', rfl, -⟩ |
    ⟨recv_client, now', client, bytes', code', hframe, rfl, -⟩
  · simp at hquery
  · obtain ⟨-, rfl⟩ : conn = conn' ∧ sql = snprintf 2048 (insertSql recv_uid send_uid msg) := by
      simp at hquery
      exact hquery.1
    exact snprintf_insertSql (length_of_accepts parse hacc)
  · simp at hquery

/-- **What is stored for a recipient who is offline**: for an accepted message,
every text that `mod_chat_send_message` passes to the database is a single `INSERT`
of the row meant, with the message as its third value, if and only if the sender's
shard is not negative and the message has no zero byte, no single quote, and no
backslash except in `\%` and `\_`. -/
theorem offline_insert_iff (parse : Bytes → Option Json) (send_uid recv_uid : Int64)
    (data msg : Bytes) (hacc : accepts parse data = some (recv_uid, msg)) :
    (∀ es ret conn sql ok, (modChatSendMessage parse send_uid data).Runs es ret →
      ⟨.querySql conn sql, ok⟩ ∈ es → StoresMessage sql send_uid recv_uid msg) ↔
      0 ≤ shard send_uid ∧ (∀ b ∈ msg, b ≠ 0) ∧ PlainText 39 msg = true := by
  constructor
  · intro h
    have hrun := runs_deliver_offline send_uid recv_uid msg 1 true
    rw [← modChatSendMessage_of_accepts parse hacc] at hrun
    have hstore := h _ _ 1 (snprintf 2048 (insertSql recv_uid send_uid msg)) true hrun (by simp)
    rw [snprintf_insertSql (length_of_accepts parse hacc)] at hstore
    obtain ⟨hshard, -, hrow⟩ := insertSql_inv (first_of_read hstore)
    exact ⟨hshard, hrow _ List.mem_cons_self (by simp)⟩
  · intro h es ret conn sql ok hrun hquery
    obtain ⟨hshard, hzero, hplain⟩ := h
    rw [querySql_of_accepts hacc hrun hquery]
    exact read_insertSql hshard hzero hplain

/-- A plain message from user 5 to user 7 is stored as it is. -/
theorem offline_insert_iff_plain :
    accepts Json.parse (ascii "\x7b\"recv_id\":7,\"msg\":\"hi\"\x7d") = some (7, ascii "hi") ∧
    ∀ es ret conn sql ok,
      (modChatSendMessage Json.parse 5 (ascii "\x7b\"recv_id\":7,\"msg\":\"hi\"\x7d")).Runs es ret →
      ⟨.querySql conn sql, ok⟩ ∈ es → StoresMessage sql 5 7 (ascii "hi") := by
  have hacc : accepts Json.parse (ascii "\x7b\"recv_id\":7,\"msg\":\"hi\"\x7d") =
      some (7, ascii "hi") := by decide +kernel
  exact ⟨hacc, (offline_insert_iff Json.parse 5 7 _ _ hacc).mpr
    ⟨by decide, by decide, by decide⟩⟩

/-- The payload of a request to send the message `x'),(7,9,'y` to user 7. -/
def injectingData : Bytes := ascii "\x7b\"recv_id\":7,\"msg\":\"x'),(7,9,'y\"\x7d"

/-- A message with quotes in it adds a row that names another sender. -/
theorem offline_insert_injected :
    accepts Json.parse injectingData = some (7, ascii "x'),(7,9,'y") ∧
    (∃ es ret sql, (modChatSendMessage Json.parse 5 injectingData).Runs es ret ∧
      ⟨.querySql 1 sql, true⟩ ∈ es ∧ ¬ StoresMessage sql 5 7 (ascii "x'),(7,9,'y") ∧
      Sql.read sql = some [.insert (ascii "offline_msg_5")
        [ascii "uid", ascii "send_uid", ascii "msg"]
        [[.int 7, .int 5, .str (ascii "x")], [.int 7, .int 9, .str (ascii "y")]]]) := by
  have hacc : accepts Json.parse injectingData = some (7, ascii "x'),(7,9,'y") := by decide +kernel
  have hrun := runs_deliver_offline 5 7 (ascii "x'),(7,9,'y") 1 true
  rw [← modChatSendMessage_of_accepts Json.parse hacc] at hrun
  refine ⟨hacc, _, _, snprintf 2048 (insertSql 7 5 (ascii "x'),(7,9,'y")), hrun, by simp, ?_,
    by decide⟩
  unfold StoresMessage
  decide

end SpiderChat
