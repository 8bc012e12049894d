import SpiderChat.Flush

/-!
# SpiderChat.Twice

**Two logins of one user at the same time.** Each of them asks for the rows that are
stored for the user, and sends and deletes them one by one. Nothing keeps the other login
from asking for them in between: a row is sent by both when it is not deleted yet. Every
row is sent once exactly when one of the logins has made its last deletion before the
other one asks (`OneFirst`).

A row is known by its number, so the rows that a login has deleted are a list of numbers,
without duplicates, that is cut in two where the other login asks.
-/

namespace SpiderChat

open Lib Threads

/-- Two workers with a login each. -/
def twoLogins (parse : Bytes → Option Json) (task : Side → Task) (w : World) :
    Threads Call.Answer Side World Unit :=
  { shared := w
    prog := fun i => handleLogin parse (task i) }

/-- Every row that is stored for the user is sent once, by one of the logins. -/
def SentOnce (w : World) (task : Side → Task) (d : Side → LoginData) (uid : Int64)
    (l : List (Side × HandlerEvent)) : Prop :=
  ∃ rows : Side → List MysqlRow, (∀ i, LoginCalls (task i) (d i) uid (rows i) (callsOf i l)) ∧
    ∀ r ∈ w.db.rows (offlineTable uid), r.uid = uid.toInt →
      ((rows .left ++ rows .right).map MysqlRow.texts).count r.texts = 1

/-- One of the logins makes its last deletion before the other one asks for the rows. -/
def OneFirst (l : List (Side × HandlerEvent)) : Prop :=
  ∃ i j : Side, i ≠ j ∧ Precede (fun c => c.1 = i ∧ c.2.1.isQuery = true)
    (fun c => c.1 = j ∧ c.2.1.isSelect = true) l

/-! ### What is fetched -/

section

variable {w m : World} {i : Side} {uid : Int64} {rows : List MysqlRow}
  {la lb : List (Side × HandlerEvent)} {stored : List MsgRow}

/-- A row is fetched once if it is still there. -/
theorem Flush.count (h : Flush w i uid rows la lb m stored)
    (hsub : ∀ r ∈ m.db.rows (offlineTable uid), r ∈ w.db.rows (offlineTable uid)) {r : MsgRow}
    (hr : r ∈ w.db.rows (offlineTable uid)) (hu : r.uid = uid.toInt) :
    (rows.map MysqlRow.texts).count r.texts =
      if r ∈ m.db.rows (offlineTable uid) then 1 else 0 := by
  have htexts : rows.map MysqlRow.texts = stored.map MsgRow.texts := by
    refine List.forall₂_eq_eq_eq ▸ ?_
    rw [List.forall₂_map_left_iff, List.forall₂_map_right_iff]
    exact h.shows.imp fun _ _ => texts_of_shows
  have hsame : (∃ r' ∈ m.db.rows (offlineTable uid), decide (uid.toInt = r'.uid) = true ∧
      r'.texts = r.texts) ↔ r ∈ m.db.rows (offlineTable uid) := by
    constructor
    · intro hex
      obtain ⟨r', hr', -, heq⟩ := hex
      exact Database.eq_of_id (hsub r' hr') hr (id_of_texts heq) ▸ hr'
    · intro hmem
      exact ⟨r, hmem, by simp [hu], rfl⟩
  rw [htexts, (h.perm.map _).count_eq, Database.count_texts]
  simp only [hsame]

/-- No number is deleted twice. -/
theorem Flush.nodup_deleted (h : Flush w i uid rows la lb m stored) :
    ((callsOf i lb).filterMap fun e => e.1.deletes (offlineTable uid)).Nodup := by
  have hids : (stored.map MsgRow.id).Nodup :=
    ((h.perm.map _).nodup_iff).mpr
      ((m.db.nodup (offlineTable uid)).sublist (List.filter_sublist.map _))
  rw [h.deleted, show (fun r : MsgRow => (r.id : Int)) = Nat.cast ∘ MsgRow.id from rfl,
    ← List.map_map]
  exact hids.map Int.ofNat_injective

/-- A login that makes no query behind its query for the rows deletes nothing. -/
theorem deleted_eq_nil {l : List (Side × HandlerEvent)} (table : Bytes)
    (h : ∀ c ∈ l, ¬ (c.1 = i ∧ c.2.1.isQuery = true)) :
    (callsOf i l).filterMap (fun e => e.1.deletes table) = [] := by
  refine List.filterMap_eq_nil_iff.mpr fun e he => Option.eq_none_iff_forall_ne_some.mpr ?_
  intro id heq
  exact h (i, e) (mem_callsOf.mp he) ⟨rfl, Call.isQuery_of_deletes heq⟩

end

/-! ### One after the other -/

theorem Side.eq_or_eq {i j : Side} (h : i ≠ j) (k : Side) : k = i ∨ k = j := by
  cases i <;> cases j <;> cases k <;> simp_all

/-- One of the logins, `i`, asks for the rows before the other one does. -/
structure Ordered (w : World) (uid : Int64) (i j : Side) (rows rows' : List MysqlRow)
    (la mid lb : List (Side × HandlerEvent)) (sel sel' : HandlerEvent) (m m' : World)
    (stored stored' : List MsgRow) : Prop where
  ne : i ≠ j
  select : sel.1.isSelect = true
  select' : sel'.1.isSelect = true
  first : Flush w i uid rows la (mid ++ (j, sel') :: lb) m stored
  second : Flush w j uid rows' (la ++ (i, sel) :: mid) lb m' stored'

namespace Ordered

variable {w m m' : World} {uid : Int64} {i j : Side} {rows rows' : List MysqlRow}
  {la mid lb : List (Side × HandlerEvent)} {sel sel' : HandlerEvent} {stored stored' : List MsgRow}

/-- What follows the query of the first login among its calls. -/
theorem callsOf_first (h : Ordered w uid i j rows rows' la mid lb sel sel' m m' stored stored') :
    callsOf i (mid ++ (j, sel') :: lb) = callsOf i mid ++ callsOf i lb := by
  rw [callsOf_append, callsOf_cons_ne h.ne.symm]

/-- Until a login asks for the rows, there are no queries. -/
theorem not_isQuery (h : Ordered w uid i j rows rows' la mid lb sel sel' m m' stored stored')
    {c : Side × HandlerEvent} (hc : c ∈ la ++ (i, sel) :: mid) (hquery : c.2.1.isQuery = true) :
    c.1 = i ∧ c.2 ∈ callsOf i mid := by
  obtain ⟨k, e⟩ := c
  rcases Side.eq_or_eq h.ne k with rfl | rfl
  · refine ⟨rfl, ?_⟩
    rcases List.mem_append.mp hc with hla | hmid
    · have hnone := (h.first.before e (mem_callsOf.mpr hla)).2
      rw [hquery] at hnone
      cases hnone
    · rcases List.mem_cons.mp hmid with heq | hmid
      · cases heq
        rw [Call.isQuery_of_isSelect h.select] at hquery
        cases hquery
      · exact mem_callsOf.mpr hmid
  · have hnone := (h.second.before e (mem_callsOf.mpr hc)).2
    rw [hquery] at hnone
    cases hnone

/-- The first login finds the rows as they were. -/
theorem db_eq (h : Ordered w uid i j rows rows' la mid lb sel sel' m m' stored stored') :
    m.db = w.db := by
  refine World.exec_db (fun e he => ?_) h.first.exec_before
  obtain ⟨c, hc, rfl⟩ := List.mem_map.mp he
  by_contra hquery
  obtain ⟨hi, -⟩ := h.not_isQuery (List.mem_append_left _ hc) (by simpa using hquery)
  have hmem : c.2 ∈ callsOf i la := mem_callsOf.mpr (hi ▸ hc)
  exact hquery (h.first.before c.2 hmem).2

/-- The numbers that the first login has deleted when the second one asks for the rows. -/
def gone (uid : Int64) (i : Side) (mid : List (Side × HandlerEvent)) : List Int :=
  (callsOf i mid).filterMap fun e => e.1.deletes (offlineTable uid)

/-- The second login finds the rows that are not deleted yet. -/
theorem mem_rows_iff (h : Ordered w uid i j rows rows' la mid lb sel sel' m m' stored stored')
    (r : MsgRow) : r ∈ m'.db.rows (offlineTable uid) ↔
      r ∈ w.db.rows (offlineTable uid) ∧ (r.id : Int) ∉ gone uid i mid := by
  have hdeletes : ∀ e ∈ (la ++ (i, sel) :: mid).map Prod.snd, e.1.isQuery = true →
      e.1.deletes (offlineTable uid) ≠ none := by
    intro e he hquery
    obtain ⟨c, hc, rfl⟩ := List.mem_map.mp he
    obtain ⟨-, hmid⟩ := h.not_isQuery hc hquery
    refine (h.first.after c.2 ?_).2 hquery
    rw [h.callsOf_first]
    exact List.mem_append_left _ hmid
  rw [World.mem_rows_exec_iff hdeletes h.second.exec_before]
  refine and_congr_right fun _ => ?_
  rw [gone, List.mem_filterMap]
  constructor
  · intro hall hex
    obtain ⟨e, he, heq⟩ := hex
    refine hall e (List.mem_map.mpr ⟨(i, e), ?_, rfl⟩) heq
    exact List.mem_append_right _ (List.mem_cons_of_mem _ (mem_callsOf.mp he))
  · intro hnot e he heq
    obtain ⟨c, hc, rfl⟩ := List.mem_map.mp he
    exact hnot ⟨c.2, (h.not_isQuery hc (Call.isQuery_of_deletes heq)).2, heq⟩

/-- **Both logins together** send every row once if and only if the first one has deleted
all rows when the second one asks. -/
theorem count_iff (h : Ordered w uid i j rows rows' la mid lb sel sel' m m' stored stored') :
    (∀ r ∈ w.db.rows (offlineTable uid), r.uid = uid.toInt →
      (rows.map MysqlRow.texts).count r.texts + (rows'.map MysqlRow.texts).count r.texts = 1) ↔
    ∀ r ∈ w.db.rows (offlineTable uid), r.uid = uid.toInt → (r.id : Int) ∈ gone uid i mid := by
  refine forall_congr' fun r => forall_congr' fun hr => forall_congr' fun hu => ?_
  have hfirst := h.first.count (fun _ hmem => h.db_eq ▸ hmem) hr hu
  have hsecond := h.second.count (fun _ hmem => ((h.mem_rows_iff _).mp hmem).1) hr hu
  rw [h.db_eq, if_pos hr] at hfirst
  rw [hfirst, hsecond]
  by_cases hgone : (r.id : Int) ∈ gone uid i mid
  · rw [if_neg fun hmem => ((h.mem_rows_iff r).mp hmem).2 hgone]
    exact iff_of_true rfl hgone
  · rw [if_pos ((h.mem_rows_iff r).mpr ⟨hr, hgone⟩)]
    exact iff_of_false (by decide) hgone

/-- What the first login deletes in front of the query of the second one and behind it. -/
theorem gone_append (h : Ordered w uid i j rows rows' la mid lb sel sel' m m' stored stored') :
    (callsOf i (mid ++ (j, sel') :: lb)).filterMap (fun e => e.1.deletes (offlineTable uid)) =
      gone uid i mid ++ gone uid i lb := by
  rw [h.callsOf_first, List.filterMap_append]
  rfl

/-- All rows are deleted in time exactly when no deletion is left. -/
theorem gone_iff (h : Ordered w uid i j rows rows' la mid lb sel sel' m m' stored stored') :
    (∀ r ∈ w.db.rows (offlineTable uid), r.uid = uid.toInt → (r.id : Int) ∈ gone uid i mid) ↔
      gone uid i lb = [] := by
  have hall : ∀ r ∈ w.db.rows (offlineTable uid), r.uid = uid.toInt →
      (r.id : Int) ∈ gone uid i mid ++ gone uid i lb := by
    intro r hr hu
    have hmem : r ∈ m.db.rows (offlineTable uid) := h.db_eq ▸ hr
    rw [← h.gone_append, h.first.mem_deleted_iff hmem, h.first.mem_stored_iff]
    exact ⟨hmem, hu⟩
  constructor
  · intro hgone
    rw [List.eq_nil_iff_forall_not_mem]
    intro id hid
    -- the number is that of a row, so it would be deleted twice
    have hnum : id ∈ stored.map fun r => (r.id : Int) := by
      rw [← h.first.deleted, h.gone_append]
      exact List.mem_append_right _ hid
    obtain ⟨r, hr, rfl⟩ := List.mem_map.mp hnum
    obtain ⟨hmem, hu⟩ := (h.first.mem_stored_iff r).mp hr
    have hnodup := h.first.nodup_deleted
    rw [h.gone_append, List.nodup_append] at hnodup
    exact hnodup.2.2 _ (hgone r (h.db_eq ▸ hmem) hu) _ hid rfl
  · intro hnil r hr hu
    have hmem := hall r hr hu
    rwa [hnil, List.append_nil] at hmem

/-- The order of the calls tells whether a deletion is left. -/
theorem oneFirst_iff (h : Ordered w uid i j rows rows' la mid lb sel sel' m m' stored stored') :
    OneFirst (la ++ (i, sel) :: (mid ++ (j, sel') :: lb)) ↔ gone uid i lb = [] := by
  have heq : la ++ (i, sel) :: (mid ++ (j, sel') :: lb) =
      (la ++ (i, sel) :: mid) ++ (j, sel') :: lb := by
    rw [List.append_assoc, List.cons_append]
  constructor
  · intro hfirst
    obtain ⟨k, k', hne, hprecede⟩ := hfirst
    rcases Side.eq_or_eq h.ne k' with rfl | rfl
    · -- the second login has deleted nothing, so it has found nothing
      obtain rfl : k = j := (Side.eq_or_eq h.ne k).resolve_left hne
      have hbehind := (h.first.precede_iff h.select).mp hprecede
      have hnone := deleted_eq_nil (l := lb) (offlineTable uid) fun c hc =>
        hbehind c (by simp [hc])
      have hnil : stored' = [] := List.map_eq_nil_iff.mp (h.second.deleted.symm.trans hnone)
      refine h.gone_iff.mp fun r hr hu => ?_
      by_contra hgone
      have hmem := (h.second.mem_stored_iff r).mpr ⟨(h.mem_rows_iff r).mpr ⟨hr, hgone⟩, hu⟩
      rw [hnil] at hmem
      cases hmem
    · obtain rfl : k = i := (Side.eq_or_eq h.ne k).resolve_right hne
      rw [heq] at hprecede
      exact deleted_eq_nil _ ((h.second.precede_iff h.select').mp hprecede)
  · intro hnil
    refine ⟨i, j, h.ne, ?_⟩
    rw [heq]
    refine (h.second.precede_iff h.select').mpr fun b hb hquery => ?_
    obtain ⟨k, e⟩ := b
    obtain ⟨rfl, hquery⟩ := hquery
    have hmem : e ∈ callsOf k lb := mem_callsOf.mpr hb
    refine (h.first.after e ?_).2 hquery (List.filterMap_eq_nil_iff.mp hnil e hmem)
    rw [h.callsOf_first]
    exact List.mem_append_right _ hmem

end Ordered

/-! ### Both logins -/

theorem count_sides (rows : Side → List MysqlRow) {i j : Side} (h : i ≠ j)
    (texts : List (Option Bytes)) :
    ((rows .left ++ rows .right).map MysqlRow.texts).count texts =
      ((rows i).map MysqlRow.texts).count texts + ((rows j).map MysqlRow.texts).count texts := by
  rw [List.map_append, List.count_append]
  cases i <;> cases j
  · exact absurd rfl h
  · rfl
  · exact Nat.add_comm _ _
  · exact absurd rfl h

/-- The two queries come one after the other. -/
theorem exists_ordered {w w' : World} {task : Side → Task} {d : Side → LoginData} {uid : Int64}
    {rows : Side → List MysqlRow} {l : List (Side × HandlerEvent)}
    (hexec : exec World.respond w (l.map Prod.snd) = some w')
    (h : ∀ i, LoginCalls (task i) (d i) uid (rows i) (callsOf i l)) :
    ∃ i j la mid lb sel sel' m m' stored stored',
      l = la ++ (i, sel) :: (mid ++ (j, sel') :: lb) ∧
      Ordered w uid i j (rows i) (rows j) la mid lb sel sel' m m' stored stored' := by
  obtain ⟨conn, la, lb, m, stored, hl, hleft⟩ := (h .left).flush hexec
  obtain ⟨conn', la', lb', m', stored', hl', hright⟩ := (h .right).flush hexec
  rcases append_cons_eq_append_cons (hl.symm.trans hl') with
    ⟨mid, rfl, rfl⟩ | ⟨-, heq, -⟩ | ⟨mid, rfl, rfl⟩
  · exact ⟨.left, .right, la, mid, lb', _, _, m, m', stored, stored', hl, nofun, rfl, rfl, hleft,
      hright⟩
  · cases heq
  · exact ⟨.right, .left, la', mid, lb, _, _, m', m, stored', stored, hl', nofun, rfl, rfl, hright,
      hleft⟩

/-- The rows of both logins together. -/
theorem count_iff_oneFirst {w w' : World} {task : Side → Task} {d : Side → LoginData} {uid : Int64}
    {rows : Side → List MysqlRow} {l : List (Side × HandlerEvent)}
    (hexec : exec World.respond w (l.map Prod.snd) = some w')
    (h : ∀ i, LoginCalls (task i) (d i) uid (rows i) (callsOf i l)) :
    (∀ r ∈ w.db.rows (offlineTable uid), r.uid = uid.toInt →
      ((rows .left ++ rows .right).map MysqlRow.texts).count r.texts = 1) ↔ OneFirst l := by
  obtain ⟨i, j, la, mid, lb, sel, sel', m, m', stored, stored', rfl, hordered⟩ :=
    exists_ordered hexec h
  simp only [count_sides rows hordered.ne]
  rw [hordered.count_iff, hordered.gone_iff, hordered.oneFirst_iff]

/-- **A stored message is sent once**: when two workers handle logins of one user on two
connections, in any order of their calls, every row that is stored for the user is sent
once over both connections together if and only if one of the logins makes its last
deletion before the other one asks for the rows. -/
theorem sent_once_iff (parse : Bytes → Option Json) (task : Side → Task) (d : Side → LoginData)
    (uid : Int64) (w : World) (l : List (Side × HandlerEvent))
    (t : Threads Call.Answer Side World Unit)
    (hdata : ∀ i, logins parse (task i).data = some (d i)) (huid : ∀ i, (d i).uid = uid)
    (hclients : ∀ i j, i ≠ j → (task i).client ≠ (task j).client)
    (hlive : ∀ i, w.sessions.clients.get (task i).client ≠ none)
    (hrun : exec (step World.respond) (twoLogins parse task w) l = some t)
    (hdone : ∀ i, t.prog i = .pure ()) :
    SentOnce w task d uid l ↔ OneFirst l := by
  obtain ⟨hexec, -⟩ := exec_parts hrun
  have hruns : ∀ i, (handleLogin parse (task i)).Runs (callsOf i l) () :=
    fun i => runs_of_exec hrun (hdone i)
  have hclose : ∀ c ∈ l, c.2.1.isClose = false := fun c hc =>
    (clients_of_runs_handleLogin (hruns c.1) (hdata c.1) c.2 (mem_callsOf.mpr hc)).1
  have hcalls : ∀ i, ∃ rows, LoginCalls (task i) (d i) uid rows (callsOf i l) := by
    intro i
    refine huid i ▸ exists_loginCalls (hruns i) (hdata i) hexec (hlive i) hclose fun c hc hi => ?_
    exact (clients_of_runs_handleLogin (hruns c.1) (hdata c.1) c.2 (mem_callsOf.mpr hc)).2 _
      (hclients _ _ (Ne.symm hi))
  constructor
  · intro hsent
    obtain ⟨rows, hrows, hcount⟩ := hsent
    exact (count_iff_oneFirst hexec hrows).mp hcount
  · intro hfirst
    choose rows hrows using hcalls
    exact ⟨rows, hrows, (count_iff_oneFirst hexec hrows).mpr hfirst⟩

/-- User 7 logs in on both connections. -/
def bothTasks : Side → Task
  | .left => loginTask 5 0 7
  | .right => loginTask 6 1 7

/-- One login after the other. -/
def afterwards : List (Side × HandlerEvent) :=
  callsBy .left (headCalls 5 0 7 1 ++ [selectCall 1 7 [storedRow.fetched]] ++
    rowCalls 5 7 1 storedRow.fetched ++ [⟨.destoryConnect 1, ()⟩]) ++
  callsBy .right (headCalls 6 1 7 2 ++ [selectCall 2 7 [], ⟨.destoryConnect 2, ()⟩])

theorem sent_once_iff_afterwards :
    SentOnce ⟨twoConnections, storedDb⟩ bothTasks (fun _ => loginFields 7) 7 afterwards := by
  have hend : (exec (step World.respond)
      (twoLogins Json.parse bothTasks ⟨twoConnections, storedDb⟩) afterwards).map
      (fun t => ((t.prog .left).result, (t.prog .right).result)) = some (some (), some ()) := by
    decide +kernel
  obtain ⟨t, hrun, hend⟩ := Option.map_eq_some_iff.mp hend
  refine (sent_once_iff Json.parse bothTasks (fun _ => loginFields 7) 7 _ afterwards t ?_
    (fun _ => rfl) ?_ ?_ hrun (done_of_results hend)).mpr ⟨.left, .right, nofun, by decide⟩
  · intro i
    cases i <;> decide +kernel
  · intro i j h
    cases i <;> cases j <;> first | exact absurd rfl h | decide
  · intro i
    cases i <;> decide

/-- Both logins ask for the rows before one of them deletes one. -/
def atOnce : List (Side × HandlerEvent) :=
  callsBy .left (headCalls 5 0 7 1 ++ [selectCall 1 7 [storedRow.fetched]]) ++
  callsBy .right (headCalls 6 1 7 2 ++ [selectCall 2 7 [storedRow.fetched]]) ++
  callsBy .left (rowCalls 5 7 1 storedRow.fetched ++ [⟨.destoryConnect 1, ()⟩]) ++
  callsBy .right (rowCalls 6 7 2 storedRow.fetched ++ [⟨.destoryConnect 2, ()⟩])

/-- The message is sent on both connections. -/
theorem sent_twice :
    ∃ t, exec (step World.respond) (twoLogins Json.parse bothTasks ⟨twoConnections, storedDb⟩)
        atOnce = some t ∧ (∀ i, t.prog i = .pure ()) ∧
      ¬ SentOnce ⟨twoConnections, storedDb⟩ bothTasks (fun _ => loginFields 7) 7 atOnce ∧
      ∃ bytes, (Side.left, (⟨.send 5 bytes, 0⟩ : HandlerEvent)) ∈ atOnce ∧
        (Side.right, (⟨.send 6 bytes, 0⟩ : HandlerEvent)) ∈ atOnce ∧
        Carries bytes 17 (ascii "hi") := by
  have hend : (exec (step World.respond)
      (twoLogins Json.parse bothTasks ⟨twoConnections, storedDb⟩) atOnce).map
      (fun t => ((t.prog .left).result, (t.prog .right).result)) = some (some (), some ()) := by
    decide +kernel
  obtain ⟨t, hrun, hend⟩ := Option.map_eq_some_iff.mp hend
  refine ⟨t, hrun, done_of_results hend, ?_, ?_⟩
  · intro hsent
    obtain ⟨rows, hrows, hcount⟩ := hsent
    obtain ⟨i, j, hne, hprecede⟩ := (count_iff_oneFirst (exec_parts hrun).1 hrows).mp hcount
    cases i <;> cases j
    · exact hne rfl
    · exact absurd hprecede (by decide)
    · exact absurd hprecede (by decide)
    · exact hne rfl
  · have hshow : Shows storedRow.fetched storedRow := ⟨0, 0, 0, 0, rfl⟩
    obtain ⟨bytes, hframe, hcarries⟩ := carries_iff hshow (by decide) HANDLE_SEND_MESSAGE 1000 0
    have hleft' : (Side.left, (⟨.send 5 ((frame HANDLE_SEND_MESSAGE 1000
        (snprintf 1048 (offlinePayload storedRow.fetched 0))).getD []), 0⟩ : HandlerEvent)) ∈
        atOnce := List.mem_of_getElem? (i := 15) rfl
    have hright' : (Side.right, (⟨.send 6 ((frame HANDLE_SEND_MESSAGE 1000
        (snprintf 1048 (offlinePayload storedRow.fetched 0))).getD []), 0⟩ : HandlerEvent)) ∈
        atOnce := List.mem_of_getElem? (i := 19) rfl
    rw [hframe] at hleft' hright'
    exact ⟨bytes, hleft', hright', hcarries.mpr (by decide)⟩

end SpiderChat
