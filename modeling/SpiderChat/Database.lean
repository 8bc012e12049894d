import Mathlib.Data.List.Nodup
import Mathlib.Logic.Function.Basic
import SpiderChat.Offline

/-!
# SpiderChat.Database

**The offline messages in MySQL.** `Database` holds the tables, and executes the
statements of the server by what they read as (`Lib.Sql.first`): `INSERT` gives a row the
next number of an `AUTO_INCREMENT` column, and `DELETE` takes out the row with a number.
A statement that is not executed leaves no state.

That the numbers of the rows are unused ones is part of the type.
-/

namespace SpiderChat

open Lib Sql

/-- The tables of the offline messages. -/
structure Database where
  rows : Store
  /-- The number of the next row. -/
  next : Nat
  /-- What the column `time` of a new row is set to. -/
  stamp : Bytes
  fresh : ∀ table, ∀ r ∈ rows table, r.id < next
  nodup : ∀ table, ((rows table).map MsgRow.id).Nodup
  next_le : next ≤ 18446744073709551616

namespace Database

/-- A new row, unless the numbers are used up. -/
def insertRow (db : Database) (table : Bytes) (uid send_uid : Int) (msg : Bytes) :
    Option Database :=
  if h : db.next < 18446744073709551616 then
    some
      { rows := Function.update db.rows table
          (db.rows table ++ [⟨db.next, uid, send_uid, msg, db.stamp⟩])
        next := db.next + 1
        stamp := db.stamp
        fresh := by
          intro t r hr
          rw [Function.update_apply] at hr
          split at hr
          · rcases List.mem_append.mp hr with hr | hr
            · exact Nat.lt_succ_of_lt (db.fresh table r hr)
            · rw [List.mem_singleton.mp hr]
              exact Nat.lt_succ_self _
          · exact Nat.lt_succ_of_lt (db.fresh t r hr)
        nodup := by
          intro t
          rw [Function.update_apply]
          split
          · rw [List.map_append, List.nodup_append]
            refine ⟨db.nodup table, by simp, ?_⟩
            intro a ha b hb
            obtain ⟨r, hr, rfl⟩ := List.mem_map.mp ha
            rw [List.map_singleton, List.mem_singleton] at hb
            rw [hb]
            exact Nat.ne_of_lt (db.fresh table r hr)
          · exact db.nodup t
        next_le := h }
  else none

/-- The row with a number is taken out. -/
def deleteRow (db : Database) (table : Bytes) (id : Int) : Database :=
  { db with
    rows := Function.update db.rows table
      ((db.rows table).filter fun r => decide ((r.id : Int) ≠ id))
    fresh := by
      intro t r hr
      rw [Function.update_apply] at hr
      split at hr
      · exact db.fresh table r (List.mem_of_mem_filter hr)
      · exact db.fresh t r hr
    nodup := by
      intro t
      rw [Function.update_apply]
      split
      · exact (db.nodup table).sublist (List.filter_sublist.map _)
      · exact db.nodup t }

/-- The rows of an `INSERT` of numbers for `uid` and `send_uid` and a text for `msg`. -/
def insertAll (db : Database) (table : Bytes) : List (List Val) → Option Database
  | [] => some db
  | [.int uid, .int send_uid, .str msg] :: rs => do
      let db ← db.insertRow table uid send_uid msg
      db.insertAll table rs
  | _ => none

/-- `mysql_query` for a statement that changes a table. -/
def query (db : Database) (sql : Bytes) : Option Database :=
  match Sql.first sql with
  | some (.insert table cols rs) =>
      if cols = [ascii "uid", ascii "send_uid", ascii "msg"] ∧ Provisioned table then
        db.insertAll table rs
      else none
  | some (.delete table col (.int id)) =>
      if col = ascii "id" ∧ Provisioned table then some (db.deleteRow table id) else none
  | _ => none

theorem rows_deleteRow (db : Database) (table : Bytes) (id : Int) :
    (db.deleteRow table id).rows table =
      (db.rows table).filter fun r => decide ((r.id : Int) ≠ id) :=
  Function.update_self _ _ _

/-- A deletion takes out rows and no more. -/
theorem mem_rows_of_deleteRow {db : Database} {table : Bytes} {id : Int} {t : Bytes} {r : MsgRow}
    (h : r ∈ (db.deleteRow table id).rows t) : r ∈ db.rows t := by
  simp only [deleteRow, Function.update_apply] at h
  split at h
  · rename_i heq
    rw [heq]
    exact List.mem_of_mem_filter h
  · exact h

/-- A new row is one of the rows of the statement. -/
theorem insertAll_new {table : Bytes} {rs : List (List Val)} :
    ∀ {db db' : Database}, db.insertAll table rs = some db' → ∀ t, ∀ r ∈ db'.rows t,
      r ∈ db.rows t ∨ (t = table ∧ [.int r.uid, .int r.send_uid, .str r.msg] ∈ rs) := by
  induction rs with
  | nil =>
      intro db db' h t r hr
      obtain rfl := Option.some.inj h
      exact .inl hr
  | cons vs rs ih =>
      intro db db' h t r hr
      unfold insertAll at h
      split at h
      · cases ‹_ :: _ = []›
      · rename_i uid send_uid msg rs' heq
        cases heq
        obtain ⟨db₁, hdb₁, h⟩ := Option.bind_eq_some_iff.mp h
        rcases ih h t r hr with hold | ⟨ht, hmem⟩
        · simp only [insertRow] at hdb₁
          split at hdb₁
          · obtain rfl := Option.some.inj hdb₁
            simp only [Function.update_apply] at hold
            split at hold
            · rename_i ht
              rcases List.mem_append.mp hold with hold | hnew
              · exact .inl (ht ▸ hold)
              · rw [List.mem_singleton.mp hnew]
                exact .inr ⟨ht, List.mem_cons_self⟩
            · exact .inl hold
          · cases hdb₁
        · exact .inr ⟨ht, List.mem_cons_of_mem _ hmem⟩
      · cases h

/-- One row is put behind the others. -/
theorem insertAll_single {db db' : Database} {table : Bytes} {uid send_uid : Int} {msg : Bytes}
    (h : db.insertAll table [[.int uid, .int send_uid, .str msg]] = some db') :
    db'.rows table = db.rows table ++ [⟨db.next, uid, send_uid, msg, db.stamp⟩] := by
  obtain ⟨db₁, hdb₁, h⟩ := Option.bind_eq_some_iff.mp h
  obtain rfl := Option.some.inj h
  simp only [insertRow] at hdb₁
  split at hdb₁
  · obtain rfl := Option.some.inj hdb₁
    exact Function.update_self _ _ _
  · cases hdb₁

end Database

/-! ### What a query returns -/

/-- The texts of a row. -/
def MysqlRow.texts (row : MysqlRow) : List (Option Bytes) := row.map (Option.map Column.text)

/-- The texts of the columns `id`, `send_uid`, `msg` and `time`. -/
def MsgRow.texts (r : MsgRow) : List (Option Bytes) :=
  [some (decNat r.id), some (decInt r.send_uid), some r.msg, some r.time]

/-- The rows of a result, in any order. -/
def Returns (rows : List MysqlRow) (l : List MsgRow) : Prop :=
  (rows.map MysqlRow.texts).Perm (l.map MsgRow.texts)

instance (rows : List MysqlRow) (l : List MsgRow) : Decidable (Returns rows l) :=
  inferInstanceAs (Decidable (List.Perm _ _))

theorem shows_of_texts {row : MysqlRow} {r : MsgRow} (h : row.texts = r.texts) : Shows row r := by
  have hcol : ∀ {c : Option Column} {text : Bytes}, c.map Column.text = some text →
      ∃ a, c = some ⟨a, text⟩ := by
    intro c text hc
    obtain ⟨⟨a, text'⟩, rfl, rfl⟩ := Option.map_eq_some_iff.mp hc
    exact ⟨a, rfl⟩
  obtain ⟨c₁, row₁, rfl, h₁, htail⟩ := List.map_eq_cons_iff.mp h
  obtain ⟨c₂, row₂, rfl, h₂, htail⟩ := List.map_eq_cons_iff.mp htail
  obtain ⟨c₃, row₃, rfl, h₃, htail⟩ := List.map_eq_cons_iff.mp htail
  obtain ⟨c₄, row₄, rfl, h₄, htail⟩ := List.map_eq_cons_iff.mp htail
  obtain rfl := List.map_eq_nil_iff.mp htail
  obtain ⟨a, rfl⟩ := hcol h₁
  obtain ⟨b, rfl⟩ := hcol h₂
  obtain ⟨c, rfl⟩ := hcol h₃
  obtain ⟨d, rfl⟩ := hcol h₄
  exact ⟨a, b, c, d, rfl⟩

theorem texts_of_shows {row : MysqlRow} {r : MsgRow} (h : Shows row r) : row.texts = r.texts := by
  obtain ⟨a, b, c, d, rfl⟩ := h
  rfl

/-- The texts tell the number of a row. -/
theorem id_of_texts {r r' : MsgRow} (h : r.texts = r'.texts) : r.id = r'.id := by
  have hid : decNat r.id = decNat r'.id := Option.some.inj (List.cons.inj h).1
  rw [← natOf_decNat r.id, hid, natOf_decNat]

/-- A row is known by its number. -/
theorem Database.eq_of_id {db : Database} {table : Bytes} {r r' : MsgRow} (h : r ∈ db.rows table)
    (h' : r' ∈ db.rows table) (hid : r.id = r'.id) : r = r' :=
  List.inj_on_of_nodup_map (db.nodup table) h h' hid

/-- The rows of a table by their texts. -/
theorem Database.count_texts (db : Database) (table : Bytes) (p : MsgRow → Bool) (r : MsgRow) :
    (((db.rows table).filter p).map MsgRow.texts).count r.texts =
      if ∃ r' ∈ db.rows table, p r' = true ∧ r'.texts = r.texts then 1 else 0 := by
  have hnodup := db.nodup table
  have hinj : ((db.rows table).filter p).Nodup := (List.Nodup.of_map _ hnodup).filter p
  have htexts : (((db.rows table).filter p).map MsgRow.texts).Nodup := by
    refine hinj.map_on fun x hx y hy heq => ?_
    exact List.inj_on_of_nodup_map hnodup (List.mem_of_mem_filter hx) (List.mem_of_mem_filter hy)
      (id_of_texts heq)
  have hmem : r.texts ∈ ((db.rows table).filter p).map MsgRow.texts ↔
      ∃ r' ∈ db.rows table, p r' = true ∧ r'.texts = r.texts := by
    simp only [List.mem_map, List.mem_filter, and_assoc]
  rw [htexts.count]
  simp only [hmem]

/-! ### The statement that deletes a message -/

theorem decInt_natCast (n : Nat) : decInt (n : Int) = decNat n := by
  rw [decInt, if_neg (by omega), Int.natAbs_natCast]

theorem deleteSql_eq {row : MysqlRow} {r : MsgRow} (h : Shows row r) (uid : Int64) :
    deleteSql uid row = ascii "delete from " ++ (offlineTable uid ++
      (ascii " where id=" ++ decInt (r.id : Int))) := by
  obtain ⟨a, b, c, d, rfl⟩ := h
  have hnum : cstr (decNat r.id) = decInt (r.id : Int) := by
    rw [decInt_natCast, cstr_of_forall]
    rw [← decInt_natCast]
    exact fun _ hb => ne_zero_of_mem_decInt hb
  simp only [deleteSql, List.append_assoc]
  show _ ++ (_ ++ (_ ++ cstr (decNat r.id))) = _
  rw [hnum]

theorem snprintf_deleteSql {row : MysqlRow} {r : MsgRow} (h : Shows row r)
    (hid : r.id < 18446744073709551616) (uid : Int64) :
    snprintf 256 (deleteSql uid row) = deleteSql uid row := by
  have htable := length_offlineTable_le uid
  have hnum : (decNat r.id).length ≤ 20 :=
    length_decNat_le (by decide) (Nat.lt_of_lt_of_le hid (by decide))
  refine snprintf_of_lt ?_
  rw [deleteSql_eq h, decInt_natCast]
  simp only [List.length_append]
  show 12 + (_ + (10 + _)) < 256
  omega

/-- The statement for a row of a user in a provisioned shard. -/
theorem first_deleteSql {uid : Int64} (hshard : 0 ≤ shard uid) {row : MysqlRow} {r : MsgRow}
    (h : Shows row r) : Sql.first (deleteSql uid row) =
      some (.delete (offlineTable uid) (ascii "id") (.int r.id)) := by
  have htext : ∀ l, ascii "delete from " ++ l = ascii "delete" ++ 32 :: (ascii "from" ++ 32 :: l) :=
    fun _ => rfl
  have hwhere : ∀ l, ascii " where id=" ++ l =
      32 :: (ascii "where" ++ 32 :: (ascii "id" ++ 61 :: l)) := fun _ => rfl
  have hend : lex (decInt (r.id : Int)) = some ([.int r.id], []) := by
    have hint := lex_int (n := (r.id : Int)) (r := []) nofun
    rw [List.append_nil, lex_nil] at hint
    rw [hint, intToks, if_neg (by omega)]
    rfl
  rw [Sql.first, deleteSql_eq h, htext, lex_word_space (by decide), lex_word_space (by decide),
    lex_offlineTable hshard (wordEnd_append (b := 32) rfl rfl), hwhere, lex_space,
    lex_word_space (by decide), lex_word (w := ascii "id") (by decide) (wordEnd_cons (by decide)),
    lex_sym (.inr (.inr (.inr rfl))), hend]
  rfl

/-! ### The statement that stores a message -/

/-- A row that is new after a query is a row of its `INSERT`. -/
theorem Database.mem_rows_of_query {db db' : Database} {sql : Bytes} (h : db.query sql = some db')
    {t : Bytes} {r : MsgRow} (hr : r ∈ db'.rows t) :
    r ∈ db.rows t ∨ ∃ cols rs, Sql.first sql = some (.insert t cols rs) ∧
      [.int r.uid, .int r.send_uid, .str r.msg] ∈ rs := by
  rw [query] at h
  split at h
  · rename_i table cols rs hfirst
    split at h
    · rcases insertAll_new h t r hr with hold | ⟨rfl, hmem⟩
      · exact .inl hold
      · exact .inr ⟨cols, rs, hfirst, hmem⟩
    · cases h
  · split at h
    · obtain rfl := Option.some.inj h
      exact .inl (mem_rows_of_deleteRow hr)
    · cases h
  · cases h

/-- A plain message is put behind the rows that are there. -/
theorem Database.rows_of_insertSql {db db' : Database} {recv_uid send_uid : Int64} {msg : Bytes}
    (hshard : 0 ≤ shard send_uid) (hzero : ∀ b ∈ msg, b ≠ 0) (hplain : PlainText 39 msg = true)
    (h : db.query (insertSql recv_uid send_uid msg) = some db') :
    db'.rows (offlineTable send_uid) = db.rows (offlineTable send_uid) ++
      [⟨db.next, recv_uid.toInt32.toInt, send_uid.toInt32.toInt, msg, db.stamp⟩] := by
  have hfirst : Sql.first (insertSql recv_uid send_uid msg) = _ :=
    first_of_read (read_insertSql hshard hzero hplain)
  simp only [query, hfirst] at h
  split at h
  · exact insertAll_single h
  · cases h

/-- **A message is stored as a new row for its recipient** only if it is plain, and the
recipient's uid fits 32 bits. -/
theorem Database.plain_of_new {db db' : Database} {recv_uid send_uid : Int64} {msg : Bytes}
    (h : db.query (insertSql recv_uid send_uid msg) = some db') {t : Bytes} {r : MsgRow}
    (hr : r ∈ db'.rows t) (hnew : r ∉ db.rows t) (huid : r.uid = recv_uid.toInt)
    (hmsg : r.msg = msg) :
    Fits32 recv_uid ∧ (∀ b ∈ msg, b ≠ 0) ∧ PlainText 39 msg = true := by
  obtain ⟨cols, rs, hfirst, hmem⟩ := (mem_rows_of_query h hr).resolve_left hnew
  obtain ⟨hshard, -, hrows⟩ := insertSql_inv hfirst
  obtain ⟨hzero, hplain⟩ := hrows _ hmem (by simp [hmsg])
  have hread : Sql.first (insertSql recv_uid send_uid msg) = _ :=
    first_of_read (read_insertSql hshard hzero hplain)
  rw [hfirst] at hread
  cases hread
  simp only [List.mem_singleton, List.cons.injEq, Val.int.injEq] at hmem
  exact ⟨hmem.1.symm.trans huid, hzero, hplain⟩

end SpiderChat
