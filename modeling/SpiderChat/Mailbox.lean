import SpiderChat.Flush

/-!
# SpiderChat.Mailbox

**What a flush deletes.** `mod_chat_send_offline_msg` sends the rows that are stored for a
user one by one and deletes each of them behind its `send`, whatever that returns: the code
is only logged by `handle_send`. So a row is dropped when its `send` has failed and the
statement that deletes it is executed, and in no other case (`flush_drops_none_iff`).

A `send` may fail here, and so may a statement, which then leaves the tables as they are.
-/

namespace SpiderChat

open Lib Handler

/-- What a call does to the tables, if it can be answered like this. -/
def Database.respond (db : Database) : HandlerEvent → Option Database
  | ⟨.querySql _ sql, ok⟩ => if ok then db.query sql else some db
  | ⟨.getRows _ sql, res⟩ =>
      match res with
      | none => some db
      | some rows =>
          match db.rows.fetch sql with
          | none => none
          | some l => if Returns rows l then some db else none
  | _ => some db

/-- A `send`, and the statement right behind it. -/
structure Delivery where
  fd : Int
  bytes : Bytes
  code : Int32
  sql : Bytes
  ok : Bool
  deriving Repr, DecidableEq

/-- The deliveries among the calls. -/
def deliveries : List HandlerEvent → List Delivery
  | [] => []
  | ⟨.send fd bytes, code⟩ :: ⟨.querySql _ sql, ok⟩ :: es =>
      ⟨fd, bytes, code, sql, ok⟩ :: deliveries es
  | _ :: es => deliveries es

namespace Delivery

/-- The row is sent to the user, and the statement is the one that deletes it. -/
def Of (fd : Int) (uid : Int64) (gameid : Int32) (r : MsgRow) (d : Delivery) : Prop :=
  d.fd = fd ∧ ∃ row now, Shows row r ∧
    frame HANDLE_SEND_MESSAGE gameid (snprintf 1048 (offlinePayload row now)) = some d.bytes ∧
    d.sql = snprintf 256 (deleteSql uid row)

end Delivery

/-- Every row that was stored is still stored, or its message was handed to the socket by a
`send` that did not fail, in front of its deletion. -/
def DropsNone (fd : Int) (uid : Int64) (gameid : Int32) (es : List HandlerEvent)
    (db db' : Database) : Prop :=
  ∀ table, ∀ r ∈ db.rows table, r ∈ db'.rows table ∨
    table = offlineTable uid ∧ ∃ d ∈ deliveries es, d.Of fd uid gameid r ∧ d.code ≠ -1

/-- Behind a `send` that fails no statement is executed. -/
def KeepsUnsent (es : List HandlerEvent) : Prop := ∀ d ∈ deliveries es, d.code = -1 → d.ok = false

instance (es : List HandlerEvent) : Decidable (KeepsUnsent es) :=
  inferInstanceAs (Decidable (∀ d ∈ deliveries es, _))

variable {fd : Int} {uid : Int64} {gameid : Int32} {conn : Addr} {db db' : Database}

/-- The statement of a delivery tells the row. -/
theorem Delivery.Of.id_eq (hshard : 0 ≤ shard uid) {d : Delivery} {r r' : MsgRow}
    (h : d.Of fd uid gameid r) (h' : d.Of fd uid gameid r')
    (hid : r.id < 18446744073709551616) (hid' : r'.id < 18446744073709551616) : r.id = r'.id := by
  obtain ⟨-, row, now, hshow, -, hsql⟩ := h
  obtain ⟨-, row', now', hshow', -, hsql'⟩ := h'
  have heq := hsql.symm.trans hsql'
  rw [snprintf_deleteSql hshow hid, snprintf_deleteSql hshow' hid'] at heq
  have hfirst := first_deleteSql hshard hshow
  rw [heq, first_deleteSql hshard hshow'] at hfirst
  simpa using hfirst.symm

/-- The calls for a row, and what they do to the tables. -/
theorem RowCalls.delivery (hshard : 0 ≤ shard uid) {row : MysqlRow} {r : MsgRow}
    {part : List HandlerEvent} (h : RowCalls fd uid gameid conn row part) (hshow : Shows row r)
    (hid : r.id < 18446744073709551616) :
    ∃ d, d.Of fd uid gameid r ∧ (∀ es, deliveries (part ++ es) = d :: deliveries es) ∧
      ∀ db db', exec Database.respond db part = some db' →
        db' = if d.ok then db.deleteRow (offlineTable uid) r.id else db := by
  obtain ⟨now, bytes, code, ok, hframe, rfl⟩ := h
  refine ⟨⟨fd, bytes, code, snprintf 256 (deleteSql uid row), ok⟩,
    ⟨rfl, row, now, hshow, hframe, rfl⟩, fun _ => rfl, fun db db' hexec => ?_⟩
  obtain ⟨m₁, h₁, hexec₁⟩ := exec_cons.mp hexec
  obtain ⟨m₂, h₂, hexec₂⟩ := exec_cons.mp hexec₁
  obtain ⟨m₃, hquery, hexec₃⟩ := exec_cons.mp hexec₂
  obtain rfl := Option.some.inj h₁
  obtain rfl := Option.some.inj h₂
  obtain rfl : m₃ = db' := Option.some.inj hexec₃
  cases ok with
  | false => exact (Option.some.inj hquery).symm
  | true =>
      have hdelete : db.query (snprintf 256 (deleteSql uid row)) = some m₃ := hquery
      have htable : ascii "id" = ascii "id" ∧ Provisioned (offlineTable uid) :=
        ⟨rfl, (provisioned_iff uid).mpr hshard⟩
      rw [snprintf_deleteSql hshow hid, Database.query, first_deleteSql hshard hshow] at hdelete
      dsimp only at hdelete
      rw [if_pos htable] at hdelete
      exact (Option.some.inj hdelete).symm

/-- A row is still there when it was not the one that is deleted. -/
theorem Database.mem_rows_deleteRow_iff {table t : Bytes} {id : Int} {r : MsgRow} :
    r ∈ (db.deleteRow table id).rows t ↔ r ∈ db.rows t ∧ ¬ (t = table ∧ (r.id : Int) = id) := by
  simp only [deleteRow, Function.update_apply]
  split
  · rename_i heq
    simp [heq]
  · rename_i hne
    simp [hne]

/-- **The calls for all rows**: the deliveries, each with its row, and the rows that are left. -/
theorem deliveries_of_rowCalls (hshard : 0 ≤ shard uid) {rows : List MysqlRow}
    {parts : List (List HandlerEvent)} {l : List MsgRow}
    (h : List.Forall₂ (RowCalls fd uid gameid conn) rows parts) (hl : List.Forall₂ Shows rows l)
    (hid : ∀ r ∈ l, r.id < 18446744073709551616) (rest : List HandlerEvent) :
    ∃ ps : List (Delivery × MsgRow),
      deliveries (parts.flatten ++ rest) = ps.map Prod.fst ++ deliveries rest ∧
      ps.map Prod.snd = l ∧ (∀ p ∈ ps, p.1.Of fd uid gameid p.2) ∧
      ∀ db db', exec Database.respond db parts.flatten = some db' → ∀ t, ∀ r,
        r ∈ db'.rows t ↔ r ∈ db.rows t ∧
          ∀ p ∈ ps, p.1.ok = true → ¬ (t = offlineTable uid ∧ r.id = p.2.id) := by
  induction hl generalizing parts with
  | nil =>
      obtain rfl := List.forall₂_nil_left_iff.mp h
      refine ⟨[], rfl, rfl, nofun, fun db db' hexec t r => ?_⟩
      obtain rfl : db = db' := Option.some.inj hexec
      simp
  | @cons row r rows l hshow _ ih =>
      obtain ⟨part, parts', hpart, hparts, rfl⟩ := List.forall₂_cons_left_iff.mp h
      obtain ⟨hr, hl⟩ := List.forall_mem_cons.mp hid
      obtain ⟨d, hd, hdeliveries, hquery⟩ := hpart.delivery hshard hshow hr
      obtain ⟨ps, hps, hsnd, hof, hrows⟩ := ih hparts hl
      refine ⟨(d, r) :: ps, ?_, ?_, List.forall_mem_cons.mpr ⟨hd, hof⟩, ?_⟩
      · rw [List.flatten_cons, List.append_assoc, hdeliveries, hps]
        rfl
      · rw [List.map_cons, hsnd]
      · intro db db' hexec t r'
        rw [List.flatten_cons] at hexec
        obtain ⟨m, hm, hexec⟩ := exec_append.mp hexec
        rw [hrows m db' hexec t r', hquery db m hm, List.forall_mem_cons]
        cases d.ok with
        | false => simp
        | true =>
            simp only [if_true, Database.mem_rows_deleteRow_iff, forall_const, Int.natCast_inj,
              and_assoc]

/-- **The calls of a flush**: nothing is asked for or returned, or the rows are delivered. -/
theorem flush_cases {es : List HandlerEvent} (h : (modChatSendOfflineMsg fd uid gameid).Runs es ())
    (hexec : exec Database.respond db es = some db') :
    (deliveries es = [] ∧ db' = db) ∨ ∃ ps : List (Delivery × MsgRow),
      deliveries es = ps.map Prod.fst ∧ (ps.map fun p => p.2.id).Nodup ∧ 0 ≤ shard uid ∧
      (∀ p ∈ ps, p.1.Of fd uid gameid p.2 ∧ p.2 ∈ db.rows (offlineTable uid)) ∧
      ∀ t, ∀ r, r ∈ db'.rows t ↔ r ∈ db.rows t ∧
        ∀ p ∈ ps, p.1.ok = true → ¬ (t = offlineTable uid ∧ r.id = p.2.id) := by
  rcases runs_modChatSendOfflineMsg h with rfl | ⟨conn, res, es', rfl, hres⟩
  · exact .inl ⟨rfl, (Option.some.inj hexec).symm⟩
  obtain ⟨m, hm, hexec'⟩ := exec_cons.mp hexec
  obtain rfl : db = m := Option.some.inj hm
  obtain ⟨m', hselect, hrest⟩ := exec_cons.mp hexec'
  obtain ⟨m'', hrows, hend⟩ := exec_append.mp hrest
  obtain ⟨m₃, hdestory, hnil⟩ := exec_cons.mp hend
  obtain rfl : m'' = m₃ := Option.some.inj hdestory
  obtain rfl : m'' = db' := Option.some.inj hnil
  cases res with
  | none =>
      obtain ⟨rfl, -⟩ := Prog.runs_pure.mp hres
      obtain rfl : db = m' := Option.some.inj hselect
      exact .inl ⟨rfl, (Option.some.inj hrows).symm⟩
  | some rows =>
      right
      simp only [Database.respond, fetch_selectSql] at hselect
      split at hselect
      · cases hselect
      rename_i fetched hfetch
      split at hfetch
      · rename_i hshard
        obtain rfl := Option.some.inj hfetch
        split at hselect
        · rename_i hreturns
          obtain rfl := Option.some.inj hselect
          obtain ⟨stored, hperm, hshows⟩ := shows_of_returns hreturns
          obtain ⟨parts, hparts, rfl⟩ := rowCalls_of_runs hres
          have hmem : ∀ r ∈ stored, r ∈ db.rows (offlineTable uid) := fun r hr =>
            List.mem_of_mem_filter (hperm.mem_iff.mp hr)
          have hid : ∀ r ∈ stored, r.id < 18446744073709551616 := fun r hr =>
            Nat.lt_of_lt_of_le (db.fresh _ r (hmem r hr)) db.next_le
          obtain ⟨ps, hps, rfl, hof, hleft⟩ :=
            deliveries_of_rowCalls hshard hparts hshows hid [⟨.destoryConnect conn, ()⟩]
          refine ⟨ps, ?_, ?_, hshard, fun p hp => ⟨hof p hp, ?_⟩, hleft db m'' hrows⟩
          · show deliveries (parts.flatten ++ [⟨.destoryConnect conn, ()⟩]) = ps.map Prod.fst
            exact hps.trans (List.append_nil _)
          · have hnodup : ((db.rows (offlineTable uid)).filter fun r =>
                decide (uid.toInt = r.uid)).map MsgRow.id |>.Nodup :=
              (db.nodup _).sublist (List.filter_sublist.map _)
            have hperm' := (hperm.map MsgRow.id).nodup_iff.mpr hnodup
            rwa [List.map_map] at hperm'
          · exact hmem _ (List.mem_map_of_mem hp)
        · cases hselect
      · cases hfetch

/-- **When a flush drops no message**, after every run of `mod_chat_send_offline_msg` and
whatever `send` and MySQL return: when no row is deleted behind a `send` that has failed. -/
theorem flush_drops_none_iff {es : List HandlerEvent}
    (h : (modChatSendOfflineMsg fd uid gameid).Runs es ())
    (hexec : exec Database.respond db es = some db') :
    DropsNone fd uid gameid es db db' ↔ KeepsUnsent es := by
  rcases flush_cases h hexec with ⟨hnone, rfl⟩ | ⟨ps, hps, hnodup, hshard, hof, hleft⟩
  · refine iff_of_true (fun _ r hr => .inl hr) fun d hd => ?_
    rw [hnone] at hd
    cases hd
  have hlt : ∀ r ∈ db.rows (offlineTable uid), r.id < 18446744073709551616 := fun r hr =>
    Nat.lt_of_lt_of_le (db.fresh _ r hr) db.next_le
  have hmem : ∀ d, d ∈ deliveries es ↔ ∃ p ∈ ps, p.1 = d := by
    intro d
    rw [hps, List.mem_map]
  constructor
  · intro hdrops d hd hfailed
    obtain ⟨p, hp, rfl⟩ := (hmem d).mp hd
    by_contra hok
    have hexecuted : p.1.ok = true := by simpa using hok
    obtain ⟨hpof, hstored⟩ := hof p hp
    -- its row is gone, so it must have been handed to the socket by a delivery of its own
    rcases hdrops _ p.2 hstored with hkept | ⟨-, d', hd', hd'of, hsent⟩
    · exact ((hleft _ _).mp hkept).2 p hp hexecuted ⟨rfl, rfl⟩
    · obtain ⟨p', hp', rfl⟩ := (hmem d').mp hd'
      obtain ⟨hp'of, hstored'⟩ := hof p' hp'
      have hid : p'.2.id = p.2.id :=
        hp'of.id_eq hshard hd'of (hlt _ hstored') (hlt _ hstored)
      obtain rfl : p' = p := List.inj_on_of_nodup_map hnodup hp' hp hid
      exact hsent hfailed
  · intro hkeeps table r hr
    by_cases hkept : r ∈ db'.rows table
    · exact .inl hkept
    · right
      rw [hleft table r] at hkept
      simp only [not_and, not_forall, not_not] at hkept
      obtain ⟨p, hp, hexecuted, rfl, hid⟩ := hkept hr
      obtain ⟨hpof, hstored⟩ := hof p hp
      obtain rfl : r = p.2 := Database.eq_of_id hr hstored hid
      have hdelivery : p.1 ∈ deliveries es := (hmem p.1).mpr ⟨p, hp, rfl⟩
      refine ⟨rfl, p.1, hdelivery, hpof, fun hfailed => ?_⟩
      rw [hkeeps p.1 hdelivery hfailed] at hexecuted
      cases hexecuted

/-- A flush of the message that is stored for user 7, with what `send` and the last query
return. -/
def flushCalls (code : Int32) (ok : Bool) : List HandlerEvent :=
  [⟨.getConnect, some 1⟩, selectCall 1 7 [storedRow.fetched], ⟨.time, 0⟩,
    ⟨.send 5 ((frame HANDLE_SEND_MESSAGE 1000
      (snprintf 1048 (offlinePayload storedRow.fetched 0))).getD []), code⟩,
    ⟨.querySql 1 (snprintf 256 (deleteSql 7 storedRow.fetched)), ok⟩, ⟨.destoryConnect 1, ()⟩]

theorem runs_flushCalls (code : Int32) (ok : Bool) :
    (modChatSendOfflineMsg 5 7 1000).Runs (flushCalls code ok) () := by
  have hframe : frame HANDLE_SEND_MESSAGE 1000
      (snprintf 1048 (offlinePayload storedRow.fetched 0)) =
      some ((frame HANDLE_SEND_MESSAGE 1000
        (snprintf 1048 (offlinePayload storedRow.fetched 0))).getD []) := by decide
  refine runs_ask_bind.mpr ⟨_, _, rfl, runs_ask_bind.mpr ⟨_, _, rfl, ?_⟩⟩
  refine Prog.runs_bind.mpr ⟨[_, _, _], [_], (), rfl, ?_, Prog.runs_op.mpr rfl⟩
  exact runs_sendRows_cons.mpr ⟨0, _, code, ok, [], hframe, rfl, .pure ()⟩

/-- The message is sent and deleted. -/
theorem flush_drops_none_iff_sent :
    ∃ db, exec Database.respond storedDb (flushCalls 57 true) = some db ∧
      db.rows (offlineTable 7) = [] ∧ DropsNone 5 7 1000 (flushCalls 57 true) storedDb db := by
  have hend : (exec Database.respond storedDb (flushCalls 57 true)).map
      (fun db => db.rows (offlineTable 7)) = some [] := by decide
  obtain ⟨db, hexec, hrows⟩ := Option.map_eq_some_iff.mp hend
  exact ⟨db, hexec, hrows,
    (flush_drops_none_iff (runs_flushCalls 57 true) hexec).mpr (by decide)⟩

/-- The client has disconnected: `send` fails, and the message is deleted. -/
theorem unsent_message_deleted :
    ∃ db, (modChatSendOfflineMsg 5 7 1000).Runs (flushCalls (-1) true) () ∧
      exec Database.respond storedDb (flushCalls (-1) true) = some db ∧
      ¬ DropsNone 5 7 1000 (flushCalls (-1) true) storedDb db := by
  have hend : (exec Database.respond storedDb (flushCalls (-1) true)).map
      (fun db => db.rows (offlineTable 7)) = some [] := by decide
  have hstored : storedRow ∈ storedDb.rows (offlineTable 7) := by decide
  have hfailed : ∀ d ∈ deliveries (flushCalls (-1) true), d.code = -1 := by decide
  obtain ⟨db, hexec, hrows⟩ := Option.map_eq_some_iff.mp hend
  refine ⟨db, runs_flushCalls (-1) true, hexec, fun hdrops => ?_⟩
  rcases hdrops _ storedRow hstored with hkept | ⟨-, d, hd, -, hsent⟩
  · rw [hrows] at hkept
    cases hkept
  · exact hsent (hfailed d hd)

end SpiderChat
