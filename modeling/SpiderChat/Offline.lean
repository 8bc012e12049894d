import SpiderChat.ChatSql

/-!
# SpiderChat.Offline

**Store and forward.** A message for a recipient who is offline is inserted into
the table of the *sender*'s shard, and at a login the rows are selected from the
table of the *recipient*'s shard; the uid is printed with `%d` on the way in and
with `%ld` on the way out. So a stored message is found and sent exactly when the
two shards are the same, the recipient's uid fits 32 bits, the message is stored as
it is, and the text sent for it is not cut off.

`Store` is a database that keeps the rows of every table: a `SELECT` by uid returns
exactly the rows of its table whose uid column matches.
-/

namespace SpiderChat

open Lib Handler Sql

/-- A row of a table of offline messages. -/
structure MsgRow where
  id : Nat
  uid : Int
  send_uid : Int
  msg : Bytes
  time : Bytes
  deriving Repr, DecidableEq

/-- The rows of every table. -/
abbrev Store := Bytes → List MsgRow

/-- What a query returns; a table that does not exist is an error. -/
def Store.fetch (st : Store) (sql : Bytes) : Option (List MsgRow) :=
  match Sql.first sql with
  | some (.select _ table col v) =>
      if col = ascii "uid" ∧ Provisioned table then
        some ((st table).filter fun row => decide (v = .int row.uid))
      else none
  | _ => none

/-- The columns `id`, `send_uid`, `msg` and `time` of a row, as the client library
hands them out. -/
def Shows (row : MysqlRow) (r : MsgRow) : Prop :=
  ∃ a b c d, row = [some ⟨a, decNat r.id⟩, some ⟨b, decInt r.send_uid⟩, some ⟨c, r.msg⟩,
    some ⟨d, r.time⟩]

/-- The frame's payload names the sender and has the whole message. -/
def Carries (bytes : Bytes) (send_uid : Int) (msg : Bytes) : Prop :=
  ∃ head body, readFrame bytes = some (head, body) ∧
    ascii "\x7b\"send_uid\":" ++ decInt send_uid ++ ascii " , \"msg\":\"" ++ msg <+: body

/-- Every flush for `uid` that fetches the rows `l`, in any order, sends the message. -/
def Flushes (uid : Int64) (l : List MsgRow) (send_uid : Int) (msg : Bytes) : Prop :=
  ∀ fd gameid es conn sql rows l', (modChatSendOfflineMsg fd uid gameid).Runs es () →
    ⟨.getRows conn sql, some rows⟩ ∈ es → l'.Perm l → List.Forall₂ Shows rows l' →
    ∃ bytes code, ⟨.send fd bytes, code⟩ ∈ es ∧ Carries bytes send_uid msg

/-- The rows `rs` that were inserted into `table` include the message, `table` is
provisioned, and it is the one `recv_uid` is served from: as long as the row is
there, the query made at a login of `recv_uid` fetches it and it is sent. -/
def StoredAndForwarded (recv_uid : Int64) (msg table : Bytes) (rs : List (List Val)) : Prop :=
  Provisioned table ∧ table = offlineTable recv_uid ∧
    ∃ uid send_uid, [.int uid, .int send_uid, .str msg] ∈ rs ∧
      ∀ (st : Store) (id : Nat) (time : Bytes), ⟨id, uid, send_uid, msg, time⟩ ∈ st table →
        ∃ l, st.fetch (snprintf 256 (selectSql recv_uid)) = some l ∧
          ⟨id, uid, send_uid, msg, time⟩ ∈ l ∧ Flushes recv_uid l send_uid msg

/-! ### The query -/

/-- The query is never cut off: it takes less than 256 bytes. -/
theorem snprintf_selectSql (uid : Int64) : snprintf 256 (selectSql uid) = selectSql uid := by
  have htable := length_offlineTable_le uid
  have hnum := length_fmtLd_le uid
  refine snprintf_of_lt ?_
  simp only [selectSql, List.length_append]
  show 39 + _ + 11 + _ + 1 < 256
  omega

/-- The tokens of the query in front of the table and behind it. -/
def selectToks : List Tok :=
  [.word (ascii "select"), .word (ascii "id"), .sym 44, .word (ascii "send_uid"), .sym 44,
    .word (ascii "msg"), .sym 44, .word (ascii "time"), .word (ascii "from")]

theorem lex_selectFront (l : Bytes) :
    lex (ascii "select id , send_uid , msg , time from " ++ l) =
      (lex l).map fun p => (selectToks ++ p.1, p.2) := by
  have htext : ascii "select id , send_uid , msg , time from " ++ l =
      ascii "select" ++ 32 :: (ascii "id" ++ 32 :: 44 :: 32 :: (ascii "send_uid" ++ 32 :: 44 ::
        32 :: (ascii "msg" ++ 32 :: 44 :: 32 :: (ascii "time" ++ 32 :: (ascii "from" ++
          32 :: l))))) := rfl
  rw [htext, lex_word_space (w := ascii "select") (by decide),
    lex_word_sym (w := ascii "id") (by decide) (.inr (.inr (.inl rfl))),
    lex_word_sym (w := ascii "send_uid") (by decide) (.inr (.inr (.inl rfl))),
    lex_word_sym (w := ascii "msg") (by decide) (.inr (.inr (.inl rfl))),
    lex_word_space (w := ascii "time") (by decide), lex_word_space (w := ascii "from") (by decide)]
  simp only [Option.map_map, Function.comp_def]
  rfl

theorem lex_where (uid : Int64) :
    lex (ascii " where uid=" ++ (fmtLd uid ++ ascii " ")) =
      some (.word (ascii "where") :: .word (ascii "uid") :: .sym 61 :: intToks uid.toInt, []) := by
  have htext : ascii " where uid=" ++ (fmtLd uid ++ ascii " ") =
      32 :: (ascii "where" ++ 32 :: (ascii "uid" ++ 61 :: (fmtLd uid ++ ascii " "))) := rfl
  have hend : lex (ascii " ") = some ([], []) := rfl
  rw [htext, lex_space, lex_word_space (w := ascii "where") (by decide),
    lex_word (w := ascii "uid") (by decide) (wordEnd_cons (by decide)),
    lex_sym (.inr (.inr (.inr rfl))), fmtLd, lex_int (r := ascii " ") (wordEnd_cons (by decide)),
    hend]
  simp only [Option.map_some, List.append_nil]

theorem selectSql_eq (uid : Int64) :
    selectSql uid = ascii "select id , send_uid , msg , time from " ++ (offlineTable uid ++
      (ascii " where uid=" ++ (fmtLd uid ++ ascii " "))) := by
  simp only [selectSql, List.append_assoc]

/-- The query of a user in a provisioned shard. -/
theorem first_selectSql {uid : Int64} (h : 0 ≤ shard uid) :
    Sql.first (selectSql uid) = some (.select [ascii "id", ascii "send_uid", ascii "msg",
      ascii "time"] (offlineTable uid) (ascii "uid") (.int uid.toInt)) := by
  rw [Sql.first, selectSql_eq, lex_selectFront,
    lex_offlineTable h (wordEnd_append (b := 32) rfl rfl), lex_where]
  unfold intToks
  split
  · have hneg : -(uid.toInt.natAbs : Int) = uid.toInt := by omega
    refine Eq.trans ?_ (congrArg (fun n => some (Stmt.select _ _ _ (.int n))) hneg)
    rfl
  · have hpos : (uid.toInt.natAbs : Int) = uid.toInt := by omega
    refine Eq.trans ?_ (congrArg (fun n => some (Stmt.select _ _ _ (.int n))) hpos)
    rfl

/-- The query of a user whose shard is negative is a syntax error. -/
theorem first_selectSql_neg {uid : Int64} (h : shard uid < 0) :
    Sql.first (selectSql uid) = none := by
  rw [Sql.first, selectSql_eq, lex_selectFront,
    lex_offlineTable_neg h (wordEnd_append (b := 32) rfl rfl), lex_where]
  rfl

/-- **What a login fetches**: the rows with the user's uid, of the table of the
user's shard, when it exists. -/
theorem fetch_selectSql (st : Store) (uid : Int64) :
    st.fetch (snprintf 256 (selectSql uid)) =
      if 0 ≤ shard uid then
        some ((st (offlineTable uid)).filter fun row => decide (uid.toInt = row.uid))
      else none := by
  rw [snprintf_selectSql, Store.fetch]
  by_cases h : 0 ≤ shard uid
  · simp only [first_selectSql h, if_pos h, (provisioned_iff uid).mpr h, and_true, if_true,
      Val.int.injEq]
  · simp only [first_selectSql_neg (by omega : shard uid < 0), if_neg h]

/-! ### Sending what was fetched -/

/-- The payload in front of the message. -/
def offlineFront (send_uid : Int) : Bytes :=
  ascii "\x7b\"send_uid\":" ++ decInt send_uid ++ ascii " , \"msg\":\""

theorem length_offlineFront (send_uid : Int) :
    (offlineFront send_uid).length = 22 + (decInt send_uid).length := by
  simp only [offlineFront, List.length_append]
  show 12 + _ + 10 = _
  omega

/-- The text sent for a row. -/
theorem offlinePayload_eq {row : MysqlRow} {r : MsgRow} (h : Shows row r) (now : Int64) :
    offlinePayload row now = offlineFront r.send_uid ++ (cstr r.msg ++
      (ascii "\" , \"time\":" ++ fmtLd now ++ ascii "\x7d")) := by
  obtain ⟨a, b, c, d, rfl⟩ := h
  have hnum : cstr (decInt r.send_uid) = decInt r.send_uid :=
    cstr_of_forall fun _ hb => ne_zero_of_mem_decInt hb
  simp only [offlinePayload, MysqlRow.col, offlineFront, List.append_assoc]
  show _ ++ (cstr (decInt r.send_uid) ++ (_ ++ (cstr r.msg ++ _))) = _
  rw [hnum]

/-- Whether the text sent for a row has the whole message. -/
theorem carries_iff {row : MysqlRow} {r : MsgRow} (h : Shows row r) (hzero : ∀ b ∈ r.msg, b ≠ 0)
    (cmd gameid : Int32) (now : Int64) :
    ∃ bytes, frame cmd gameid (snprintf 1048 (offlinePayload row now)) = some bytes ∧
      (Carries bytes r.send_uid r.msg ↔ 22 + (decInt r.send_uid).length + r.msg.length ≤ 1047) := by
  have hlen := length_snprintf_le 1048 (offlinePayload row now)
  obtain ⟨bytes, head, hframe, hread, -⟩ := frame_eq cmd gameid
    (snprintf 1048 (offlinePayload row now))
    (fun b hb => offlinePayload_ne_zero row now b (List.mem_of_mem_take hb)) (by omega)
  refine ⟨bytes, hframe, ?_⟩
  have hfront := length_offlineFront r.send_uid
  constructor
  · intro h
    obtain ⟨head', body, hread', hpre⟩ := h
    obtain ⟨rfl, rfl⟩ := Prod.mk.inj (Option.some.inj (hread.symm.trans hread'))
    have hle := hpre.length_le
    change (offlineFront r.send_uid ++ r.msg).length ≤ _ at hle
    rw [List.length_append] at hle
    omega
  · intro hfit
    refine ⟨head, _, hread, ?_⟩
    show offlineFront r.send_uid ++ r.msg <+: _
    rw [snprintf, List.prefix_take_iff, offlinePayload_eq h, cstr_of_forall hzero,
      ← List.append_assoc]
    refine ⟨List.prefix_append _ _, ?_⟩
    rw [List.length_append]
    omega

/-- Every row is sent. -/
theorem mem_of_runs_sendRows {fd : Int} {uid : Int64} {gameid : Int32} {conn : Addr}
    {rows : List MysqlRow} {es : List HandlerEvent}
    (h : (sendRows fd uid gameid conn rows).Runs es ())
    {row : MysqlRow} (hrow : row ∈ rows) :
    ∃ now bytes code, ⟨.send fd bytes, code⟩ ∈ es ∧
      frame HANDLE_SEND_MESSAGE gameid (snprintf 1048 (offlinePayload row now)) = some bytes := by
  induction rows generalizing es with
  | nil => cases hrow
  | cons r rows ih =>
      obtain ⟨now, bytes, code, ok, es', hframe, rfl, h'⟩ := runs_sendRows_cons.mp h
      rcases List.mem_cons.mp hrow with rfl | hrow
      · exact ⟨now, bytes, code, by simp, hframe⟩
      · obtain ⟨now', bytes', code', hmem, hframe'⟩ := ih h' hrow
        exact ⟨now', bytes', code', by simp [hmem], hframe'⟩

/-- A call that is no query for rows. -/
def Call.NoRows : Call → Prop
  | .getRows _ _ => False
  | _ => True

/-- The rows that a flush has fetched are sent. -/
theorem runs_sendRows_of_getRows {fd : Int} {uid : Int64} {gameid : Int32} {es : List HandlerEvent}
    {conn : Addr} {sql : Bytes} {rows : List MysqlRow}
    (h : (modChatSendOfflineMsg fd uid gameid).Runs es ())
    (hrows : ⟨.getRows conn sql, some rows⟩ ∈ es) :
    ∃ es', (sendRows fd uid gameid conn rows).Runs es' () ∧ ∀ e ∈ es', e ∈ es := by
  rcases runs_modChatSendOfflineMsg h with rfl | ⟨conn', res, es', rfl, hsend⟩
  · simp at hrows
  · have hres : ∀ e ∈ es', Call.NoRows e.1 := by
      cases res with
      | none =>
          obtain ⟨rfl, -⟩ := Prog.runs_pure.mp hsend
          simp
      | some rows' =>
          have hcalls : (sendRows fd uid gameid conn' rows').Calls Call.NoRows :=
            calls_sendRows trivial (fun _ => trivial) (fun _ => trivial) uid gameid rows'
          exact hcalls es' () hsend
    have hfirst : (⟨.getRows conn sql, some rows⟩ : HandlerEvent) =
        ⟨.getRows conn' (snprintf 256 (selectSql uid)), res⟩ := by
      simp only [List.mem_cons, List.mem_append, List.not_mem_nil, or_false] at hrows
      rcases hrows with heq | heq | hmem | heq
      · cases heq
      · exact heq
      · exact (hres _ hmem).elim
      · cases heq
    cases hfirst
    exact ⟨es', hsend, fun e he => by simp [he]⟩

/-- Every record is shown by one of the rows. -/
theorem exists_shows {rows : List MysqlRow} {l : List MsgRow} (h : List.Forall₂ Shows rows l)
    {r : MsgRow} (hr : r ∈ l) : ∃ row ∈ rows, Shows row r := by
  induction h with
  | nil => cases hr
  | cons hshow _ ih =>
      rcases List.mem_cons.mp hr with rfl | hr
      · exact ⟨_, List.mem_cons_self, hshow⟩
      · obtain ⟨row, hrow, hshow⟩ := ih hr
        exact ⟨row, List.mem_cons_of_mem _ hrow, hshow⟩

/-- A flush sends every message that was fetched and fits the text sent for it. -/
theorem flushes_of_fits {uid : Int64} {l : List MsgRow} {r : MsgRow} (hr : r ∈ l)
    (hzero : ∀ b ∈ r.msg, b ≠ 0) (hfits : 22 + (decInt r.send_uid).length + r.msg.length ≤ 1047) :
    Flushes uid l r.send_uid r.msg := by
  intro fd gameid es conn sql rows l' hrun hrows hperm hshows
  obtain ⟨es', hsend, hsub⟩ := runs_sendRows_of_getRows hrun hrows
  obtain ⟨row, hrow, hshow⟩ := exists_shows hshows (hperm.mem_iff.mpr hr)
  obtain ⟨now, bytes, code, hmem, hframe⟩ := mem_of_runs_sendRows hsend hrow
  obtain ⟨bytes', hframe', hcarries⟩ := carries_iff hshow hzero HANDLE_SEND_MESSAGE gameid now
  obtain rfl := Option.some.inj (hframe.symm.trans hframe')
  exact ⟨bytes, code, hsub _ hmem, hcarries.mpr hfits⟩

/-- A message that is fetched alone is only sent when it fits. -/
theorem fits_of_flushes {uid : Int64} {r : MsgRow} (hzero : ∀ b ∈ r.msg, b ≠ 0)
    (h : Flushes uid [r] r.send_uid r.msg) :
    22 + (decInt r.send_uid).length + r.msg.length ≤ 1047 := by
  set row : MysqlRow := [some ⟨0, decNat r.id⟩, some ⟨0, decInt r.send_uid⟩, some ⟨0, r.msg⟩,
    some ⟨0, r.time⟩] with hrow
  have hshow : Shows row r := ⟨0, 0, 0, 0, hrow⟩
  obtain ⟨bytes, hframe, hcarries⟩ := carries_iff hshow hzero HANDLE_SEND_MESSAGE 1000 0
  have hrun : (modChatSendOfflineMsg 5 uid 1000).Runs [⟨.getConnect, some 1⟩,
      ⟨.getRows 1 (snprintf 256 (selectSql uid)), some [row]⟩, ⟨.time, 0⟩, ⟨.send 5 bytes, 0⟩,
      ⟨.querySql 1 (snprintf 256 (deleteSql uid row)), true⟩, ⟨.destoryConnect 1, ()⟩] () := by
    refine runs_ask_bind.mpr ⟨some 1, _, rfl, ?_⟩
    refine runs_ask_bind.mpr ⟨some [row], _, rfl, ?_⟩
    refine Prog.runs_bind.mpr ⟨[⟨.time, 0⟩, ⟨.send 5 bytes, 0⟩,
      ⟨.querySql 1 (snprintf 256 (deleteSql uid row)), true⟩], [⟨.destoryConnect 1, ()⟩], (), rfl,
      ?_, Prog.runs_op.mpr rfl⟩
    refine runs_ask_bind.mpr ⟨0, _, rfl, ?_⟩
    refine Prog.runs_bind.mpr ⟨[⟨.send 5 bytes, 0⟩],
      [⟨.querySql 1 (snprintf 256 (deleteSql uid row)), true⟩], (), rfl,
      runs_handleSend.mpr ⟨bytes, 0, hframe, rfl⟩, ?_⟩
    exact runs_ask_bind.mpr ⟨true, _, rfl, .pure _⟩
  obtain ⟨bytes', code, hmem, hcarry⟩ := h 5 1000 _ 1 _ [row] [r] hrun
    (List.mem_cons_of_mem _ List.mem_cons_self) (.refl _) (.cons hshow .nil)
  obtain rfl : bytes' = bytes := by
    simp at hmem
    exact hmem.1
  exact hcarries.mp hcarry

/-! ### The two halves together -/

/-- **A stored message reaches its recipient at the next login**: when an accepted
message runs into no registered client and its query is an `INSERT` that succeeds,
the row is in the table the recipient is served from, is fetched there and sent, if
and only if sender and recipient have the same shard, the recipient's uid fits 32
bits, the message stands for itself between quotes, and the text sent for it is not
cut off. -/
theorem store_and_forward_iff (parse : Bytes → Option Json) (send_uid recv_uid : Int64)
    (data msg : Bytes) (hacc : accepts parse data = some (recv_uid, msg))
    (es : List HandlerEvent) (ret : Int32)
    (hrun : (modChatSendMessage parse send_uid data).Runs es ret) (conn : Addr) (sql : Bytes)
    (hquery : ⟨.querySql conn sql, true⟩ ∈ es) (table : Bytes) (cols : List Bytes)
    (rs : List (List Val)) (hinsert : Sql.first sql = some (.insert table cols rs)) :
    StoredAndForwarded recv_uid msg table rs ↔
      shard send_uid = shard recv_uid ∧ Fits32 recv_uid ∧ (∀ b ∈ msg, b ≠ 0) ∧
        PlainText 39 msg = true ∧ 22 + (fmtD send_uid).length + msg.length ≤ 1047 := by
  rw [querySql_of_accepts hacc hrun hquery] at hinsert
  have hdigits : (fmtD send_uid).length = (decInt send_uid.toInt32.toInt).length := rfl
  rw [hdigits]
  obtain ⟨hshard, rfl, hplain⟩ := insertSql_inv hinsert
  -- a plain message is inserted as the only row
  have hrows : (∀ b ∈ msg, b ≠ 0) → PlainText 39 msg = true →
      rs = [[.int recv_uid.toInt32.toInt, .int send_uid.toInt32.toInt, .str msg]] := by
    intro hzero htext
    have hread : first (insertSql recv_uid send_uid msg) = _ :=
      first_of_read (read_insertSql hshard hzero htext)
    rw [hinsert] at hread
    cases hread
    rfl
  constructor
  · intro h
    obtain ⟨-, htable, uid, sender, hrow, hfetch⟩ := h
    obtain ⟨hzero, htext⟩ := hplain _ hrow (by simp)
    rw [hrows hzero htext] at hrow
    obtain ⟨rfl, rfl⟩ : uid = recv_uid.toInt32.toInt ∧ sender = send_uid.toInt32.toInt := by
      have := List.mem_singleton.mp hrow
      simpa using this
    -- a store that holds this row alone
    obtain ⟨l, hl, hmem, hflush⟩ := hfetch
      (fun t => if t = offlineTable send_uid then
        [⟨0, recv_uid.toInt32.toInt, send_uid.toInt32.toInt, msg, []⟩] else []) 0 [] (by simp)
    rw [fetch_selectSql] at hl
    split at hl
    · obtain rfl := Option.some.inj hl
      have hfits : recv_uid.toInt = recv_uid.toInt32.toInt := by
        simpa using (List.mem_filter.mp hmem).2
      rw [if_pos htable.symm, List.filter_cons_of_pos (by simpa using hfits)] at hflush
      have hlen := fits_of_flushes
        (r := ⟨0, recv_uid.toInt32.toInt, send_uid.toInt32.toInt, msg, []⟩) hzero hflush
      exact ⟨offlineTable_inj.mp htable, hfits.symm, hzero, htext, hlen⟩
    · cases hl
  · intro h
    obtain ⟨hsame, hfits, hzero, htext, hlen⟩ := h
    refine ⟨(provisioned_iff _).mpr hshard, offlineTable_inj.mpr hsame, _, _,
      (hrows hzero htext) ▸ List.mem_singleton_self _, fun st id time hst => ?_⟩
    rw [fetch_selectSql, if_pos (hsame ▸ hshard)]
    have hmem : (⟨id, recv_uid.toInt32.toInt, send_uid.toInt32.toInt, msg, time⟩ : MsgRow) ∈
        (st (offlineTable recv_uid)).filter fun row => decide (recv_uid.toInt = row.uid) := by
      refine List.mem_filter.mpr ⟨offlineTable_inj.mpr hsame ▸ hst, ?_⟩
      simpa using (show recv_uid.toInt32.toInt = recv_uid.toInt from hfits).symm
    exact ⟨_, rfl, hmem, flushes_of_fits
      (r := ⟨id, recv_uid.toInt32.toInt, send_uid.toInt32.toInt, msg, time⟩) hmem hzero hlen⟩

/-- The payload of a request to send the message `hi`. -/
def hiData (recv_uid : Int) : Bytes :=
  ascii "\x7b\"recv_id\":" ++ decInt recv_uid ++ ascii ",\"msg\":\"hi\"\x7d"

/-- The message `hi` of user 5 reaches user 15. -/
theorem store_and_forward_iff_hi :
    accepts Json.parse (hiData 15) = some (15, ascii "hi") ∧
    (modChatSendMessage Json.parse 5 (hiData 15)).Runs [⟨.findClientByUid 15, none⟩,
      ⟨.getConnect, some 1⟩, ⟨.querySql 1 (snprintf 2048 (insertSql 15 5 (ascii "hi"))), true⟩,
      ⟨.destoryConnect 1, ()⟩] _HANDLE_SUCCESSFUL ∧
    StoredAndForwarded 15 (ascii "hi") (ascii "offline_msg_5")
      [[.int 15, .int 5, .str (ascii "hi")]] := by
  have hacc : accepts Json.parse (hiData 15) = some (15, ascii "hi") := by decide +kernel
  have hrun := runs_deliver_offline 5 15 (ascii "hi") 1 true
  rw [← modChatSendMessage_of_accepts Json.parse hacc] at hrun
  refine ⟨hacc, hrun, ?_⟩
  exact (store_and_forward_iff Json.parse 5 15 _ _ hacc _ _ hrun 1
    (snprintf 2048 (insertSql 15 5 (ascii "hi"))) (by simp) (ascii "offline_msg_5")
    [ascii "uid", ascii "send_uid", ascii "msg"] _ (by decide)).mpr
      ⟨by decide, by decide, by decide, by decide, by decide⟩

/-- The message `hi` of user 5 to user 7 is inserted into `offline_msg_5` and looked
for in `offline_msg_7`: it is never fetched. -/
theorem offline_message_lost :
    accepts Json.parse (hiData 7) = some (7, ascii "hi") ∧
    (modChatSendMessage Json.parse 5 (hiData 7)).Runs [⟨.findClientByUid 7, none⟩,
      ⟨.getConnect, some 1⟩, ⟨.querySql 1 (snprintf 2048 (insertSql 7 5 (ascii "hi"))), true⟩,
      ⟨.destoryConnect 1, ()⟩] _HANDLE_SUCCESSFUL ∧
    Sql.first (snprintf 2048 (insertSql 7 5 (ascii "hi"))) = some (.insert (ascii "offline_msg_5")
      [ascii "uid", ascii "send_uid", ascii "msg"] [[.int 7, .int 5, .str (ascii "hi")]]) ∧
    ¬ StoredAndForwarded 7 (ascii "hi") (ascii "offline_msg_5")
      [[.int 7, .int 5, .str (ascii "hi")]] ∧
    Store.fetch (fun table => if table = ascii "offline_msg_5" then
        [⟨1, 7, 5, ascii "hi", ascii "2015-01-01 00:00:00"⟩] else [])
      (snprintf 256 (selectSql 7)) = some [] := by
  have hacc : accepts Json.parse (hiData 7) = some (7, ascii "hi") := by decide +kernel
  have hrun := runs_deliver_offline 5 7 (ascii "hi") 1 true
  rw [← modChatSendMessage_of_accepts Json.parse hacc] at hrun
  refine ⟨hacc, hrun, by decide, ?_, by decide⟩
  intro h
  obtain ⟨-, htable, -⟩ := h
  revert htable
  decide

end SpiderChat
