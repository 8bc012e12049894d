import SpiderChat.Database
import SpiderChat.Handle
import SpiderChat.Sound

/-!
# SpiderChat.World

**Handlers at the same time.** Two workers handle tasks of different clients, so that no
mutex is held by both, and their calls interleave. `World` is what they share: the
clients with their connections, and the database. A call is answered by it, and a run in
which a call to the database or a `send` fails is not one.
-/

namespace SpiderChat

open Lib Handler

/-- The clients, and the database. -/
structure World where
  sessions : Sessions
  db : Database

/-- A query that changes a table. -/
def Call.isQuery : Call → Bool
  | .querySql _ _ => true
  | _ => false

/-- A look for the client of a user. -/
def Call.isLookup : Call → Bool
  | .findClientByUid _ => true
  | _ => false

/-- A query for rows. -/
def Call.isSelect : Call → Bool
  | .getRows _ _ => true
  | _ => false

/-- The number of the row of a table that a query deletes. -/
def Call.deletes (table : Bytes) : Call → Option Int
  | .querySql _ sql =>
      match Sql.first sql with
      | some (.delete t _ (.int id)) => if t = table then some id else none
      | _ => none
  | _ => none

theorem Call.isQuery_of_deletes {table : Bytes} {c : Call} {id : Int}
    (h : c.deletes table = some id) : c.isQuery = true := by
  cases c with
  | querySql conn sql => rfl
  | _ => cases h

theorem Call.isQuery_of_isSelect {c : Call} (h : c.isSelect = true) : c.isQuery = false := by
  cases c with
  | getRows conn sql => rfl
  | _ => cases h

namespace World

/-- What a call does, if it can be answered like this and succeeds. -/
def respond (w : World) : HandlerEvent → Option World
  | ⟨.getConnect, p⟩ => if p = none then none else some w
  | ⟨.querySql _ sql, ok⟩ => if ok then (w.db.query sql).map fun db => { w with db } else none
  | ⟨.getRows _ sql, res⟩ =>
      match res, w.db.rows.fetch sql with
      | some rows, some l => if Returns rows l then some w else none
      | _, _ => none
  | ⟨.send _ _, code⟩ => if code = -1 then none else some w
  | e => (w.sessions.respond e).map fun sessions => { w with sessions }

variable {w w' : World} {e : HandlerEvent} {es : List HandlerEvent}

theorem respond_getConnect {p : Ptr} (h : w.respond ⟨.getConnect, p⟩ = some w') : p ≠ none := by
  intro hnone
  rw [respond, if_pos hnone] at h
  cases h

theorem respond_querySql {conn : Addr} {sql : Bytes} {ok : Bool}
    (h : w.respond ⟨.querySql conn sql, ok⟩ = some w') : w.db.query sql = some w'.db := by
  rw [respond] at h
  split at h
  · obtain ⟨db, hdb, rfl⟩ := Option.map_eq_some_iff.mp h
    exact hdb
  · cases h

theorem respond_getRows {conn : Addr} {sql : Bytes} {res : Option (List MysqlRow)}
    (h : w.respond ⟨.getRows conn sql, res⟩ = some w') :
    w' = w ∧ ∃ rows l, res = some rows ∧ w.db.rows.fetch sql = some l ∧ Returns rows l := by
  simp only [respond] at h
  split at h
  · rename_i rows l hfetch
    split at h
    · rename_i hreturns
      exact ⟨(Option.some.inj h).symm, rows, l, rfl, hfetch, hreturns⟩
    · cases h
  · cases h

/-- The clients and connections by themselves. -/
theorem respond_sessions (h : w.respond e = some w') :
    w.sessions.respond e = some w'.sessions := by
  obtain ⟨c, r⟩ := e
  cases c with
  | getConnect =>
      rw [respond] at h
      split at h
      · cases h
      · exact congrArg _ (congrArg sessions (Option.some.inj h))
  | querySql conn sql =>
      rw [respond] at h
      split at h
      · obtain ⟨db, -, rfl⟩ := Option.map_eq_some_iff.mp h
        rfl
      · cases h
  | getRows conn sql =>
      obtain ⟨rfl, -⟩ := respond_getRows h
      rfl
  | send fd bytes =>
      rw [respond] at h
      split at h
      · cases h
      · exact congrArg _ (congrArg sessions (Option.some.inj h))
  | _ =>
      simp only [respond] at h
      obtain ⟨sessions, hsessions, rfl⟩ := Option.map_eq_some_iff.mp h
      exact hsessions

theorem exec_sessions {es : List HandlerEvent} {w w' : World} (h : exec respond w es = some w') :
    exec Sessions.respond w.sessions es = some w'.sessions :=
  exec_map sessions (fun _ _ _ => respond_sessions) h

/-- The database is changed by queries alone. -/
theorem respond_db (he : e.1.isQuery = false) (h : w.respond e = some w') : w'.db = w.db := by
  obtain ⟨c, r⟩ := e
  cases c with
  | getConnect =>
      rw [respond] at h
      split at h
      · cases h
      · exact congrArg db (Option.some.inj h).symm
  | querySql conn sql => cases he
  | getRows conn sql =>
      obtain ⟨rfl, -⟩ := respond_getRows h
      rfl
  | send fd bytes =>
      rw [respond] at h
      split at h
      · cases h
      · exact congrArg db (Option.some.inj h).symm
  | _ =>
      simp only [respond] at h
      obtain ⟨sessions, -, rfl⟩ := Option.map_eq_some_iff.mp h
      rfl

theorem exec_db : ∀ {es : List HandlerEvent} {w w' : World}, (∀ e ∈ es, e.1.isQuery = false) →
    exec respond w es = some w' → w'.db = w.db := by
  intro es
  induction es with
  | nil =>
      intro w w' _ h
      exact Option.some.inj h ▸ rfl
  | cons e es ih =>
      intro w w' hes h
      obtain ⟨m, hm, h'⟩ := exec_cons.mp h
      obtain ⟨he, hes'⟩ := List.forall_mem_cons.mp hes
      exact (ih hes' h').trans (respond_db he hm)

/-- A query that deletes a row. -/
theorem mem_rows_respond_iff {table : Bytes} (he : e.1.isQuery = true → e.1.deletes table ≠ none)
    (h : w.respond e = some w') (r : MsgRow) :
    r ∈ w'.db.rows table ↔ r ∈ w.db.rows table ∧ e.1.deletes table ≠ some (r.id : Int) := by
  by_cases hquery : e.1.isQuery = true
  · obtain ⟨c, ok⟩ := e
    cases c with
    | querySql conn sql =>
        have hdelete := he rfl
        have hdb := respond_querySql h
        simp only [Call.deletes] at hdelete ⊢
        rw [Database.query] at hdb
        split at hdelete
        · rename_i t col id hfirst
          split at hdelete
          · rename_i ht
            subst ht
            simp only [hfirst] at hdb ⊢
            split at hdb
            · rw [← Option.some.inj hdb, Database.rows_deleteRow, List.mem_filter]
              simp only [if_true, decide_eq_true_eq, ne_eq, Option.some.injEq, @eq_comm _ id]
            · cases hdb
          · exact absurd rfl hdelete
        · exact absurd rfl hdelete
    | _ => cases hquery
  · have hnone : e.1.deletes table ≠ some (r.id : Int) :=
      fun hdelete => hquery (Call.isQuery_of_deletes hdelete)
    rw [respond_db (by simpa using hquery) h]
    exact (and_iff_left hnone).symm

/-- **The rows that are left** when all queries delete rows of one table. -/
theorem mem_rows_exec_iff {table : Bytes} {r : MsgRow} : ∀ {es : List HandlerEvent} {w w' : World},
    (∀ e ∈ es, e.1.isQuery = true → e.1.deletes table ≠ none) → exec respond w es = some w' →
    (r ∈ w'.db.rows table ↔
      r ∈ w.db.rows table ∧ ∀ e ∈ es, e.1.deletes table ≠ some (r.id : Int)) := by
  intro es
  induction es with
  | nil =>
      intro w w' _ h
      obtain rfl := Option.some.inj h
      simp
  | cons e es ih =>
      intro w w' hes h
      obtain ⟨m, hm, h'⟩ := exec_cons.mp h
      obtain ⟨he, hes'⟩ := List.forall_mem_cons.mp hes
      rw [ih hes' h', mem_rows_respond_iff he hm, List.forall_mem_cons, and_assoc]

/-- Every call of a run has been answered. -/
theorem exists_respond_of_mem (h : exec respond w es = some w') (he : e ∈ es) :
    ∃ m m' : World, m.respond e = some m' := by
  obtain ⟨es₁, es₂, rfl⟩ := List.append_of_mem he
  obtain ⟨m, -, h'⟩ := exec_append.mp h
  obtain ⟨m', hm, -⟩ := exec_cons.mp h'
  exact ⟨m, m', hm⟩

/-- The uid of a client after its login, as long as nobody else is logged in there. -/
theorem uidOf_of_login {c : Addr} {u gmid : Int64} {gameid : Int32} {es₁ es₂ : List HandlerEvent}
    (h : exec respond w (es₁ ++ ⟨.setLogin c u gmid gameid, ()⟩ :: es₂) = some w')
    (hlive : w.sessions.clients.get c ≠ none) (hclose₁ : ∀ e ∈ es₁, e.1.isClose = false)
    (hclose₂ : ∀ e ∈ es₂, e.1.isClose = false) (hother : ∀ e ∈ es₂, e.1.logsIn c = false) :
    w'.sessions.uidOf (some c) = some u := by
  obtain ⟨m, hm, h'⟩ := exec_append.mp (exec_sessions h)
  obtain ⟨m', hlogin, h''⟩ := exec_cons.mp h'
  have hlive' := ((Sessions.exec_respond_stay hclose₁ hm).freed_iff c).not.mpr hlive
  obtain ⟨cl, hcl⟩ := Option.ne_none_iff_exists'.mp hlive'
  rw [Sessions.exec_uidOf hclose₂ hother h'', Sessions.uidOf_respond_setLogin hlogin, if_pos rfl,
    Sessions.uidOf_some, hcl]
  rfl

end World

end SpiderChat
