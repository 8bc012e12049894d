import SpiderChat.Lib.Threads
import SpiderChat.Logins
import SpiderChat.World

/-!
# SpiderChat.Flush

**A login next to another worker.** The calls of a login are given one by one
(`LoginCalls`): its client is written, the reply is sent, the rows that are stored for the
user are asked for, and each of them is sent and deleted. `Flush` takes a run of both
workers apart at the query for the rows: what it returns is what is stored at that moment,
and what the login deletes from then on are the rows that it has got.
-/

namespace SpiderChat

open Lib Handler

/-- The two workers. -/
inductive Side
  | left
  | right
  deriving Repr, DecidableEq

/-! ### The rows of a result -/

/-- The rows of a result one by one, each with the stored row that it shows. -/
theorem shows_of_returns {rows : List MysqlRow} {stored : List MsgRow} (h : Returns rows stored) :
    ∃ l, l.Perm stored ∧ List.Forall₂ Shows rows l := by
  have hsame : List.Forall₂ (fun texts (r : MsgRow) => texts = r.texts)
      (stored.map MsgRow.texts) stored :=
    List.forall₂_map_left_iff.mpr (List.forall₂_same.mpr fun _ _ => rfl)
  obtain ⟨l, hl, hperm⟩ := List.perm_comp_forall₂ h hsame
  exact ⟨l, hperm, (List.forall₂_map_left_iff.mp hl).imp fun _ _ => shows_of_texts⟩

/-- The calls for one row: it is sent, and deleted. -/
def RowCalls (fd : Int) (uid : Int64) (gameid : Int32) (conn : Addr) (row : MysqlRow)
    (es : List HandlerEvent) : Prop :=
  ∃ now bytes code ok,
    frame HANDLE_SEND_MESSAGE gameid (snprintf 1048 (offlinePayload row now)) = some bytes ∧
    es = [⟨.time, now⟩, ⟨.send fd bytes, code⟩,
      ⟨.querySql conn (snprintf 256 (deleteSql uid row)), ok⟩]

section

variable {fd : Int} {uid : Int64} {gameid : Int32} {conn : Addr}

/-- Every row has its calls. -/
theorem rowCalls_of_runs {rows : List MysqlRow} :
    ∀ {es : List HandlerEvent}, (sendRows fd uid gameid conn rows).Runs es () →
      ∃ parts, List.Forall₂ (RowCalls fd uid gameid conn) rows parts ∧ es = parts.flatten := by
  induction rows with
  | nil =>
      intro es h
      obtain ⟨rfl, -⟩ := Prog.runs_pure.mp h
      exact ⟨[], .nil, rfl⟩
  | cons row rows ih =>
      intro es h
      obtain ⟨now, bytes, code, ok, es', hframe, rfl, h'⟩ := runs_sendRows_cons.mp h
      obtain ⟨parts, hparts, rfl⟩ := ih h'
      exact ⟨_ :: parts, .cons ⟨now, bytes, code, ok, hframe, rfl⟩ hparts, rfl⟩

/-- A call that is no query for rows, and deletes a row when it changes a table. -/
def Call.Deletes (table : Bytes) (c : Call) : Prop :=
  c.isSelect = false ∧ (c.isQuery = true → c.deletes table ≠ none)

/-- The query of one row deletes it. -/
theorem RowCalls.deletes (hshard : 0 ≤ shard uid) {row : MysqlRow} {r : MsgRow}
    {part : List HandlerEvent} (h : RowCalls fd uid gameid conn row part) (hshow : Shows row r)
    (hid : r.id < 18446744073709551616) :
    part.filterMap (fun e => e.1.deletes (offlineTable uid)) = [(r.id : Int)] ∧
      ∀ e ∈ part, e.1.Deletes (offlineTable uid) := by
  obtain ⟨now, bytes, code, ok, -, rfl⟩ := h
  have hquery : (Call.querySql conn (snprintf 256 (deleteSql uid row))).deletes
      (offlineTable uid) = some (r.id : Int) := by
    simp only [Call.deletes, snprintf_deleteSql hshow hid, first_deleteSql hshard hshow, if_true]
  constructor
  · simp only [List.filterMap_cons, hquery, List.filterMap_nil]
    rfl
  · intro e he
    simp only [List.mem_cons, List.not_mem_nil, or_false] at he
    rcases he with rfl | rfl | rfl
    · exact ⟨rfl, fun hisQuery => absurd hisQuery Bool.false_ne_true⟩
    · exact ⟨rfl, fun hisQuery => absurd hisQuery Bool.false_ne_true⟩
    · exact ⟨rfl, fun _ => by simp [hquery]⟩

/-- **The numbers that are deleted** are those of the rows, and nothing else is queried. -/
theorem deletes_rowCalls (hshard : 0 ≤ shard uid) {rows : List MysqlRow}
    {parts : List (List HandlerEvent)} {l : List MsgRow}
    (h : List.Forall₂ (RowCalls fd uid gameid conn) rows parts) (hl : List.Forall₂ Shows rows l)
    (hid : ∀ r ∈ l, r.id < 18446744073709551616) :
    parts.flatten.filterMap (fun e => e.1.deletes (offlineTable uid)) =
        l.map (fun r => (r.id : Int)) ∧
      ∀ e ∈ parts.flatten, e.1.Deletes (offlineTable uid) := by
  induction hl generalizing parts with
  | nil =>
      obtain rfl := List.forall₂_nil_left_iff.mp h
      exact ⟨rfl, nofun⟩
  | cons hshow _ ih =>
      obtain ⟨part, parts', hpart, hparts, rfl⟩ := List.forall₂_cons_left_iff.mp h
      obtain ⟨hr, hl⟩ := List.forall_mem_cons.mp hid
      obtain ⟨hnums, hqueries⟩ := hpart.deletes hshard hshow hr
      obtain ⟨hnums', hqueries'⟩ := ih hparts hl
      rw [List.flatten_cons, List.filterMap_append, hnums, hnums']
      exact ⟨rfl, List.forall_mem_append.mpr ⟨hqueries, hqueries'⟩⟩

end

/-! ### The calls of a login -/

/-- The calls of a login that succeeds, up to the query for the stored messages. -/
def loginHead (task : Task) (d : LoginData) (before after : SpiderClient) (reply : Bytes)
    (code : Int32) (conn : Addr) : List HandlerEvent :=
  [⟨.setVersion task.client (versionField d.app_version), ()⟩,
    ⟨.setLogin task.client d.uid d.mid d.gameid, ()⟩, ⟨.readClient task.client, before⟩,
    ⟨.send task.fd reply, code⟩, ⟨.readClient task.client, after⟩, ⟨.getConnect, some conn⟩]

/-- The calls of a login that succeeds, with the rows that it sends. -/
def LoginCalls (task : Task) (d : LoginData) (uid : Int64) (rows : List MysqlRow)
    (es : List HandlerEvent) : Prop :=
  ∃ before after reply code conn parts, after.uid = uid ∧
    List.Forall₂ (RowCalls task.fd uid after.gameid conn) rows parts ∧
    es = loginHead task d before after reply code conn ++
      ⟨.getRows conn (snprintf 256 (selectSql uid)), some rows⟩ ::
        (parts.flatten ++ [⟨.destoryConnect conn, ()⟩])

/-- A login whose calls to the database succeed. -/
theorem loginCalls_of_runs {parse : Bytes → Option Json} {task : Task} {d : LoginData}
    {es : List HandlerEvent} {u : Unit} (h : (handleLogin parse task).Runs es u)
    (hd : logins parse task.data = some d) (hconnect : ⟨.getConnect, none⟩ ∉ es)
    (hrows : ∀ conn sql, ⟨.getRows conn sql, none⟩ ∉ es) :
    ∃ uid rows, LoginCalls task d uid rows es := by
  rw [handleLogin, modLogin_of_logins hd] at h
  obtain ⟨_, es₁, rfl, h₁⟩ := runs_ask_bind.mp h
  obtain ⟨_, es₂, rfl, h₂⟩ := runs_ask_bind.mp h₁
  obtain ⟨before, es₃, rfl, h₃⟩ := runs_ask_bind.mp h₂
  obtain ⟨es₄, es₅, _, rfl, hsend, h₅⟩ := Prog.runs_bind.mp h₃
  obtain ⟨reply, code, -, rfl⟩ := runs_handleSend.mp hsend
  rw [if_pos rfl] at h₅
  obtain ⟨after, es₆, rfl, h₆⟩ := runs_ask_bind.mp h₅
  rcases runs_modChatSendOfflineMsg h₆ with rfl | ⟨conn, res, es', rfl, hres⟩
  · exact absurd (by simp) hconnect
  · cases res with
    | none => exact absurd (by simp) (hrows conn (snprintf 256 (selectSql after.uid)))
    | some rows =>
        obtain ⟨parts, hparts, rfl⟩ := rowCalls_of_runs hres
        exact ⟨after.uid, rows, before, after, reply, code, conn, parts, rfl, hparts, rfl⟩

/-- A login that succeeds writes to its client, and closes nothing and sets no uid from
then on. -/
theorem runs_handleLogin_of_logins {parse : Bytes → Option Json} {task : Task} {d : LoginData}
    {es : List HandlerEvent} {u : Unit} (h : (handleLogin parse task).Runs es u)
    (hd : logins parse task.data = some d) :
    ∃ es', es = [⟨.setVersion task.client (versionField d.app_version), ()⟩] ++
        ⟨.setLogin task.client d.uid d.mid d.gameid, ()⟩ :: es' ∧ ∀ e ∈ es', e.1.Quiet := by
  obtain ⟨es₁, ret, es₂, rfl, hlogin, hwrites⟩ := runs_handleLogin h
  obtain ⟨rfl, -⟩ := eq_of_runs_modLogin hd hlogin
  exact ⟨es₂, rfl, fun e he => Call.quiet_of_writes (hwrites e he)⟩

/-- A login closes nothing, and sets the uid of no other client. -/
theorem clients_of_runs_handleLogin {parse : Bytes → Option Json} {task : Task} {d : LoginData}
    {es : List HandlerEvent} {u : Unit} (h : (handleLogin parse task).Runs es u)
    (hd : logins parse task.data = some d) :
    ∀ e ∈ es, e.1.isClose = false ∧ ∀ c, c ≠ task.client → e.1.logsIn c = false := by
  obtain ⟨es', rfl, hquiet⟩ := runs_handleLogin_of_logins h hd
  refine List.forall_mem_append.mpr ⟨by simp [Call.isClose, Call.logsIn],
    List.forall_mem_cons.mpr ⟨⟨rfl, fun c hc => ?_⟩, fun e he => ?_⟩⟩
  · exact beq_eq_false_iff_ne.mpr (Ne.symm hc)
  · exact ⟨(hquiet e he).1, fun c _ => Call.logsIn_eq_false (hquiet e he).2 c⟩

/-! ### A login next to another thread -/

section

open Threads

variable {w w' : World} {i : Side} {task : Task} {d : LoginData} {uid : Int64}
  {rows : List MysqlRow} {l : List (Side × HandlerEvent)}

/-- The uid that the login has set is the one that it reads. -/
theorem LoginCalls.uid_eq (h : LoginCalls task d uid rows (callsOf i l))
    (hexec : exec World.respond w (l.map Prod.snd) = some w')
    (hlive : w.sessions.clients.get task.client ≠ none)
    (hclose : ∀ c ∈ l, c.2.1.isClose = false)
    (hother : ∀ c ∈ l, c.1 ≠ i → c.2.1.logsIn task.client = false) : uid = d.uid := by
  obtain ⟨before, after, reply, code, conn, parts, rfl, -, hcalls⟩ := h
  -- the place where the uid is read, and the one before it where it is set
  have hread : callsOf i l = (⟨.setVersion task.client (versionField d.app_version), ()⟩ ::
      ⟨.setLogin task.client d.uid d.mid d.gameid, ()⟩ ::
      [⟨.readClient task.client, before⟩, ⟨.send task.fd reply, code⟩]) ++
      ⟨.readClient task.client, after⟩ :: _ := hcalls
  obtain ⟨la, lb, rfl, hla, -⟩ := callsOf_split hread
  have hset : callsOf i la = [⟨.setVersion task.client (versionField d.app_version), ()⟩] ++
      ⟨.setLogin task.client d.uid d.mid d.gameid, ()⟩ ::
      [⟨.readClient task.client, before⟩, ⟨.send task.fd reply, code⟩] := hla
  obtain ⟨la₁, la₂, rfl, -, hla₂⟩ := callsOf_split hset
  have hmid : ∀ c ∈ la₂, c.2.1.logsIn task.client = false := by
    intro c hc
    by_cases hi : c.1 = i
    · have hmem : c.2 ∈ callsOf i la₂ := mem_callsOf.mpr (hi ▸ hc)
      rw [hla₂] at hmem
      simp only [List.mem_cons, List.not_mem_nil, or_false] at hmem
      rcases hmem with heq | heq <;> rw [heq] <;> rfl
    · exact hother c (by simp [hc]) hi
  simp only [List.map_append, List.map_cons] at hexec
  obtain ⟨m, hm, hread⟩ := exec_append.mp hexec
  obtain ⟨m', hread, -⟩ := exec_cons.mp hread
  have huid := World.uidOf_of_login hm hlive
    (List.forall_mem_map.mpr fun c hc => hclose c (by simp [hc]))
    (List.forall_mem_map.mpr fun c hc => hclose c (by simp [hc]))
    (List.forall_mem_map.mpr hmid)
  have hget : m.sessions.clients.get task.client ≠ none := by
    intro hnone
    rw [Sessions.uidOf_some, hnone] at huid
    cases huid
  obtain ⟨-, hafter⟩ := Sessions.respond_readClient hget (World.respond_sessions hread)
  rw [Sessions.uidOf_some, hafter] at huid
  exact Option.some.inj huid

/-- **A login next to another thread** that does not set the uid of its client. -/
theorem exists_loginCalls {parse : Bytes → Option Json} {u : Unit}
    (hrun : (handleLogin parse task).Runs (callsOf i l) u)
    (hdata : logins parse task.data = some d)
    (hexec : exec World.respond w (l.map Prod.snd) = some w')
    (hlive : w.sessions.clients.get task.client ≠ none)
    (hclose : ∀ c ∈ l, c.2.1.isClose = false)
    (hother : ∀ c ∈ l, c.1 ≠ i → c.2.1.logsIn task.client = false) :
    ∃ rows, LoginCalls task d d.uid rows (callsOf i l) := by
  have hmem : ∀ {e : HandlerEvent}, e ∈ callsOf i l → e ∈ l.map Prod.snd := fun he =>
    List.mem_map.mpr ⟨(i, _), mem_callsOf.mp he, rfl⟩
  obtain ⟨uid, rows, hcalls⟩ := loginCalls_of_runs hrun hdata
    (fun he => by
      obtain ⟨m, m', hm⟩ := World.exists_respond_of_mem hexec (hmem he)
      exact World.respond_getConnect hm rfl)
    (fun conn sql he => by
      obtain ⟨m, m', hm⟩ := World.exists_respond_of_mem hexec (hmem he)
      obtain ⟨-, rows, l, hnone, -⟩ := World.respond_getRows hm
      cases hnone)
  obtain rfl := hcalls.uid_eq hexec hlive hclose hother
  exact ⟨rows, hcalls⟩

/-- The query of a login for the stored messages: `la` are the calls before it, `lb` the
calls behind it, and `stored` are the rows that it returns. -/
structure Flush (w : World) (i : Side) (uid : Int64) (rows : List MysqlRow)
    (la lb : List (Side × HandlerEvent)) (m : World) (stored : List MsgRow) : Prop where
  exec_before : exec World.respond w (la.map Prod.snd) = some m
  shard_nonneg : 0 ≤ shard uid
  perm : stored.Perm ((m.db.rows (offlineTable uid)).filter fun r => decide (uid.toInt = r.uid))
  shows : List.Forall₂ Shows rows stored
  before : ∀ e ∈ callsOf i la, e.1.isSelect = false ∧ e.1.isQuery = false
  after : ∀ e ∈ callsOf i lb, e.1.Deletes (offlineTable uid)
  deleted : (callsOf i lb).filterMap (fun e => e.1.deletes (offlineTable uid)) =
    stored.map fun r => (r.id : Int)

theorem LoginCalls.flush (h : LoginCalls task d uid rows (callsOf i l))
    (hexec : exec World.respond w (l.map Prod.snd) = some w') :
    ∃ conn la lb m stored,
      l = la ++ (i, ⟨.getRows conn (snprintf 256 (selectSql uid)), some rows⟩) :: lb ∧
      Flush w i uid rows la lb m stored := by
  obtain ⟨before, after, reply, code, conn, parts, -, hparts, hcalls⟩ := h
  obtain ⟨la, lb, rfl, hla, hlb⟩ := callsOf_split hcalls
  simp only [List.map_append, List.map_cons] at hexec
  obtain ⟨m, hm, hselect⟩ := exec_append.mp hexec
  obtain ⟨m', hselect, -⟩ := exec_cons.mp hselect
  obtain ⟨-, rows', fetched, heq, hfetch, hreturns⟩ := World.respond_getRows hselect
  obtain rfl := Option.some.inj heq
  rw [fetch_selectSql] at hfetch
  split at hfetch
  · rename_i hshard
    obtain ⟨stored, hperm, hshows⟩ := shows_of_returns hreturns
    obtain rfl := Option.some.inj hfetch
    have hid : ∀ r ∈ stored, r.id < 18446744073709551616 := by
      intro r hr
      have hmem := List.mem_of_mem_filter (hperm.mem_iff.mp hr)
      exact Nat.lt_of_lt_of_le (m.db.fresh _ r hmem) m.db.next_le
    obtain ⟨hdeleted, hdeletes⟩ := deletes_rowCalls hshard hparts hshows hid
    refine ⟨conn, la, lb, m, stored, rfl, hm, hshard, hperm, hshows, ?_, ?_, ?_⟩
    · intro e he
      rw [hla] at he
      simp only [loginHead, List.mem_cons, List.not_mem_nil, or_false] at he
      rcases he with rfl | rfl | rfl | rfl | rfl | rfl <;> exact ⟨rfl, rfl⟩
    · rw [hlb]
      exact List.forall_mem_append.mpr
        ⟨hdeletes, by simp [Call.Deletes, Call.isSelect, Call.isQuery]⟩
    · rw [hlb, List.filterMap_append, hdeleted]
      exact List.append_nil _
  · cases hfetch

variable {m : World} {la lb : List (Side × HandlerEvent)} {stored : List MsgRow}

theorem Flush.mem_stored_iff (h : Flush w i uid rows la lb m stored) (r : MsgRow) :
    r ∈ stored ↔ r ∈ m.db.rows (offlineTable uid) ∧ r.uid = uid.toInt := by
  rw [h.perm.mem_iff, List.mem_filter, decide_eq_true_eq, @eq_comm _ uid.toInt]

theorem Flush.mem_deleted_iff (h : Flush w i uid rows la lb m stored) {r : MsgRow}
    (hr : r ∈ m.db.rows (offlineTable uid)) :
    (r.id : Int) ∈ (callsOf i lb).filterMap (fun e => e.1.deletes (offlineTable uid)) ↔
      r ∈ stored := by
  rw [h.deleted, List.mem_map]
  constructor
  · intro hex
    obtain ⟨r', hr', heq⟩ := hex
    have hmem := ((h.mem_stored_iff r').mp hr').1
    exact Database.eq_of_id hmem hr (Int.ofNat_injective heq) ▸ hr'
  · intro hmem
    exact ⟨r, hmem, rfl⟩

/-- The query of a login for the rows is the only one. -/
theorem Flush.precede_iff (h : Flush w i uid rows la lb m stored) {sel : HandlerEvent}
    (hsel : sel.1.isSelect = true) {P : Side × HandlerEvent → Prop} :
    Precede P (fun c => c.1 = i ∧ c.2.1.isSelect = true) (la ++ (i, sel) :: lb) ↔
      ∀ b ∈ lb, ¬ P b := by
  refine Lib.precede_iff ⟨rfl, hsel⟩ (fun a ha hselect => ?_) (fun a ha hselect => ?_)
  · have hnone := (h.before a.2 (mem_callsOf.mpr (hselect.1 ▸ ha))).1
    rw [hselect.2] at hnone
    cases hnone
  · have hnone := (h.after a.2 (mem_callsOf.mpr (hselect.1 ▸ ha))).1
    rw [hselect.2] at hnone
    cases hnone

end

/-! ### Runs of logins -/

/-- Two connections, with the descriptors 5 and 6. -/
def twoConnections : Sessions :=
  (((Sessions.init 10).accept 5 0 none).bind fun s => s.accept 6 0 (some 11)).getD
    (Sessions.init 10)

/-- A login on one of them. -/
def loginTask (fd : Int) (client : Addr) (uid : Int) : Task :=
  ⟨fd, client, HANDLE_LOGIN, Logged.loginData uid⟩

/-- What `Logged.loginData` stands for. -/
def loginFields (uid : Int64) : LoginData := ⟨uid, 1, 1000, ascii "1"⟩

/-- Its calls up to the query for the stored messages. -/
def headCalls (fd : Int) (client : Addr) (uid : Int64) (conn : Addr) : List HandlerEvent :=
  loginHead ⟨fd, client, HANDLE_LOGIN, []⟩ (loginFields uid) (Logged.userClient fd uid)
    (Logged.userClient fd uid) ((frame HANDLE_LOGIN 1000 (retPayload 1)).getD []) 0 conn

/-- The query for the stored messages. -/
def selectCall (conn : Addr) (uid : Int64) (rows : List MysqlRow) : HandlerEvent :=
  ⟨.getRows conn (snprintf 256 (selectSql uid)), some rows⟩

/-- The calls for a row that is fetched. -/
def rowCalls (fd : Int) (uid : Int64) (conn : Addr) (row : MysqlRow) : List HandlerEvent :=
  [⟨.time, 0⟩,
    ⟨.send fd ((frame HANDLE_SEND_MESSAGE 1000 (snprintf 1048 (offlinePayload row 0))).getD []), 0⟩,
    ⟨.querySql conn (snprintf 256 (deleteSql uid row)), true⟩]

/-- Calls of one of the workers. -/
def callsBy (i : Side) (es : List HandlerEvent) : List (Side × HandlerEvent) := es.map (Prod.mk i)

/-- Both workers have returned. -/
theorem done_of_results {t : Threads Call.Answer Side World Unit}
    (h : ((t.prog .left).result, (t.prog .right).result) = (some (), some ())) :
    ∀ i, t.prog i = .pure () := by
  obtain ⟨hleft, hright⟩ := Prod.mk.inj h
  intro i
  cases i
  · exact Prog.result_eq_some.mp hleft
  · exact Prog.result_eq_some.mp hright

/-- A row as it is fetched. -/
def MsgRow.fetched (r : MsgRow) : MysqlRow := r.texts.map (Option.map (Column.mk 0))

/-- A message that is stored for user 7. -/
def storedRow : MsgRow := ⟨1, 7, 17, ascii "hi", ascii "2015-01-01 00:00:00"⟩

/-- The database with this message. -/
def storedDb : Database where
  rows := fun table => if table = offlineTable 7 then [storedRow] else []
  next := 2
  stamp := ascii "2015-01-02 00:00:00"
  fresh := by
    intro table r hr
    split at hr
    · rw [List.mem_singleton.mp hr]
      decide
    · cases hr
  nodup := by
    intro table
    split
    · exact List.nodup_singleton _
    · exact List.nodup_nil
  next_le := by decide

end SpiderChat
