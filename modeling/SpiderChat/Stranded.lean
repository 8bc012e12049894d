import SpiderChat.Flush

/-!
# SpiderChat.Stranded

**A message to a user who logs in at the same time.** `mod_chat_send_message` looks for a
client of the recipient and stores the message when there is none, and a login sets the
uid of its client and then asks for what is stored. The lookup can come before the uid is
set, and the insertion behind the query for the rows: then the message stays in the
database, while its recipient is online and has been sent all that was stored. `InTime` is
the condition that this does not happen.
-/

namespace SpiderChat

open Lib Sql Handler Threads

/-- One worker sends a message, and the other one handles a login. -/
def sendAndLogin (parse : Bytes → Option Json) (send_uid : Int64) (data : Bytes) (task : Task)
    (w : World) : Threads Call.Answer Side World Unit where
  shared := w
  prog
    | .left => modChatSendMessage parse send_uid data >>= fun _ => pure ()
    | .right => handleLogin parse task

/-- A registered client carries the uid. -/
def Sessions.Online (s : Sessions) (uid : Int64) : Prop :=
  ∃ fd client, s.Registered fd client ∧ s.uidOf (some client) = some uid

/-- The message is sent on a connection of its recipient. -/
def SentOnline (w : World) (send_uid recv_uid : Int64) (msg : Bytes)
    (l : List (Side × HandlerEvent)) : Prop :=
  ∃ la lb m fd client now cl bytes code,
    l = la ++ (.left, ⟨.findClientByUid recv_uid, some client⟩) :: lb ∧
    exec World.respond w (la.map Prod.snd) = some m ∧ m.sessions.Registered fd client ∧
    m.sessions.uidOf (some client) = some recv_uid ∧
    callsOf .left lb = [⟨.time, now⟩, ⟨.readClient client, cl⟩, ⟨.send fd bytes, code⟩] ∧
    frame HANDLE_SEND_MESSAGE cl.gameid (snprintf 1048 (onlinePayload send_uid msg now)) =
      some bytes

/-- The message is stored as a new row, and the login sends the row and deletes it. -/
def SentByFlush (w w' : World) (recv_uid : Int64) (msg : Bytes) (task : Task) (d : LoginData)
    (l : List (Side × HandlerEvent)) : Prop :=
  ∃ rows row r, LoginCalls task d recv_uid rows (callsOf .right l) ∧ row ∈ rows ∧ Shows row r ∧
    w.db.next ≤ r.id ∧ r.msg = msg ∧ ∀ r' ∈ w'.db.rows (offlineTable recv_uid), r'.id ≠ r.id

/-- The message is stored as it is, as a row for the recipient, and before the login asks
for the rows. -/
def StoredInTime (recv_uid : Int64) (msg : Bytes) (l : List (Side × HandlerEvent)) : Prop :=
  Fits32 recv_uid ∧ (∀ b ∈ msg, b ≠ 0) ∧ PlainText 39 msg = true ∧
    Precede (fun c => c.1 = .left ∧ c.2.1.isQuery = true)
      (fun c => c.1 = .right ∧ c.2.1.isSelect = true) l

/-- The recipient is there to be found, or the message is stored in time. -/
def InTime (w : World) (recv_uid : Int64) (msg : Bytes) (l : List (Side × HandlerEvent)) : Prop :=
  w.sessions.Online recv_uid ∨
  Precede (fun c => c.2.1.isLogin = true)
    (fun c => c.1 = .left ∧ c.2.1.isLookup = true) l ∨
  StoredInTime recv_uid msg l

/-! ### Who carries a uid -/

namespace Sessions

variable {s s' : Sessions} {es : List HandlerEvent} {uid : Int64}

/-- A uid stays while no login sets another one. -/
theorem uidOf_stays (hclose : ∀ e ∈ es, e.1.isClose = false)
    (hset : ∀ e ∈ es, ∀ c v gmid gameid, e.1 = .setLogin c v gmid gameid → v = uid) {c : Addr}
    (h : exec respond s es = some s') (hu : s.uidOf (some c) = some uid) :
    s'.uidOf (some c) = some uid := by
  induction es generalizing s with
  | nil => exact Option.some.inj h ▸ hu
  | cons e es ih =>
      obtain ⟨m, hm, h'⟩ := exec_cons.mp h
      obtain ⟨he, hclose'⟩ := List.forall_mem_cons.mp hclose
      obtain ⟨hv, hset'⟩ := List.forall_mem_cons.mp hset
      refine ih hclose' hset' h' ?_
      obtain ⟨call, r⟩ := e
      cases call with
      | setLogin a v gmid gameid =>
          obtain rfl := hv a v gmid gameid rfl
          rw [uidOf_respond_setLogin hm]
          split
          · rename_i heq
            rw [← heq, hu]
            rfl
          · exact hu
      | _ => exact (uidOf_respond he rfl hm c).trans hu

theorem Online.stays (hclose : ∀ e ∈ es, e.1.isClose = false)
    (hset : ∀ e ∈ es, ∀ c v gmid gameid, e.1 = .setLogin c v gmid gameid → v = uid)
    (h : exec respond s es = some s') (hon : s.Online uid) : s'.Online uid := by
  obtain ⟨fd, client, hreg, hu⟩ := hon
  refine ⟨fd, client, ?_, uidOf_stays hclose hset h hu⟩
  rw [Registered, (exec_respond_stay hclose h).reg]
  exact hreg

/-- Without a login, nobody comes online. -/
theorem Online.before (hclose : ∀ e ∈ es, e.1.isClose = false)
    (hlogin : ∀ e ∈ es, e.1.isLogin = false) (h : exec respond s es = some s')
    (hon : s'.Online uid) : s.Online uid := by
  obtain ⟨fd, client, hreg, hu⟩ := hon
  refine ⟨fd, client, ?_, ?_⟩
  · rwa [Registered, (exec_respond_stay hclose h).reg] at hreg
  · rwa [exec_uidOf hclose (fun e he => Call.logsIn_eq_false (hlogin e he) client) h] at hu

/-- A login brings its connection online. -/
theorem online_of_setLogin {fd : Int} {client : Addr} {gmid : Int64} {gameid : Int32} {r : Unit}
    (hreg : s.Registered fd client) (hlive : s.uidOf (some client) ≠ none)
    (h : s.respond ⟨.setLogin client uid gmid gameid, r⟩ = some s') : s'.Online uid := by
  refine ⟨fd, client, ?_, ?_⟩
  · rw [Registered, (respond_stay rfl h).reg]
    exact hreg
  · obtain ⟨v, hv⟩ := Option.ne_none_iff_exists'.mp hlive
    rw [uidOf_respond_setLogin h, if_pos rfl, hv]
    rfl

/-- **`findClientByUid`** finds somebody exactly when somebody is online. -/
theorem Lists.findClientByUid_iff {cells : List (Addr × Fd2client)} (h : s.Lists cells) {p : Ptr}
    (hfind : s.findClientByUid uid = some p) : p ≠ none ↔ s.Online uid := by
  constructor
  · intro hne
    obtain ⟨client, rfl⟩ := Option.ne_none_iff_exists'.mp hne
    obtain ⟨fd, hmem⟩ := h.mem_of_findClientByUid hfind
    exact ⟨fd, client, h.linked.registered_iff.mpr hmem,
      (uidOf_of_findClientByUid hfind).resolve_left (Option.some_ne_none _)⟩
  · intro hon hnone
    obtain ⟨fd, client, hreg, hu⟩ := hon
    exact h.findClientByUid_ne_none (h.linked.registered_iff.mp hreg) hu (hnone ▸ hfind)

end Sessions

/-! ### The lookup -/

/-- A run in which both workers have returned, from a state in which the connection of the
login is registered. -/
structure Meeting (parse : Bytes → Option Json) (send_uid recv_uid : Int64) (msg : Bytes)
    (task : Task) (d : LoginData) (w w' : World) (l : List (Side × HandlerEvent)) : Prop where
  exec_eq : exec World.respond w (l.map Prod.snd) = some w'
  sender : ∃ ret, (deliver send_uid recv_uid msg).Runs (callsOf .left l) ret
  quiet : ∀ e ∈ callsOf .left l, e.1.Quiet
  login : (handleLogin parse task).Runs (callsOf .right l) ()
  data : logins parse task.data = some d
  uid_eq : d.uid = recv_uid
  registered : w.sessions.Registered task.fd task.client
  sound : w.sessions.Sound
  shard_eq : shard send_uid = shard recv_uid
  length_lt : msg.length < 1024

namespace Meeting

variable {parse : Bytes → Option Json} {send_uid recv_uid : Int64} {msg : Bytes} {task : Task}
  {d : LoginData} {w w' m : World} {l la lb : List (Side × HandlerEvent)} {p : Ptr}

theorem not_isClose (h : Meeting parse send_uid recv_uid msg task d w w' l) :
    ∀ e ∈ l.map Prod.snd, e.1.isClose = false := by
  intro e he
  obtain ⟨⟨k, e⟩, hc, rfl⟩ := List.mem_map.mp he
  cases k with
  | left => exact (h.quiet e (mem_callsOf.mpr hc)).1
  | right => exact (clients_of_runs_handleLogin h.login h.data e (mem_callsOf.mpr hc)).1

/-- Every uid that is set is that of the recipient. -/
theorem setLogin_eq (h : Meeting parse send_uid recv_uid msg task d w w' l) :
    ∀ e ∈ l.map Prod.snd, ∀ c v gmid gameid, e.1 = .setLogin c v gmid gameid → v = recv_uid := by
  intro e he c v gmid gameid heq
  obtain ⟨⟨k, e⟩, hc, rfl⟩ := List.mem_map.mp he
  have hlogin : e.1.isLogin = true := by
    rw [show e.1 = _ from heq]
    rfl
  have hquiet : ∀ {e : HandlerEvent}, e.1.Quiet → e.1.isLogin ≠ true := by
    intro e hquiet
    simp [hquiet.2]
  cases k with
  | left => exact absurd hlogin (hquiet (h.quiet e (mem_callsOf.mpr hc)))
  | right =>
      obtain ⟨es', hes, hrest⟩ := runs_handleLogin_of_logins h.login h.data
      have hmem : e ∈ callsOf .right l := mem_callsOf.mpr hc
      rw [hes] at hmem
      rcases List.mem_append.mp hmem with hmem | hmem
      · rw [List.mem_singleton.mp hmem] at hlogin
        cases hlogin
      · rcases List.mem_cons.mp hmem with hmem | hmem
        · subst hmem
          cases heq
          exact h.uid_eq
        · exact absurd hlogin (hquiet (hrest e hmem))

/-- The uid is set in front of the lookup or behind it. -/
theorem login_order (h : Meeting parse send_uid recv_uid msg task d w w' l)
    (hl : l = la ++ (.left, ⟨.findClientByUid recv_uid, p⟩) :: lb) :
    (∃ x y, la = x ++ (.right, ⟨.setLogin task.client recv_uid d.mid d.gameid, ()⟩) :: y ∧
      ∀ c ∈ lb, c.2.1.isLogin = false) ∨
    (∀ c ∈ la, c.2.1.isLogin = false) ∧
      (.right, ⟨.setLogin task.client recv_uid d.mid d.gameid, ()⟩) ∈ lb := by
  obtain ⟨es', hes, hquiet⟩ := runs_handleLogin_of_logins h.login h.data
  rw [h.uid_eq] at hes
  obtain ⟨x, y, hxy, hx, hy⟩ := callsOf_split hes
  -- there is no other place where a uid is set
  have hother : ∀ c, c ∈ x ∨ c ∈ y → c.2.1.isLogin = false := by
    intro c hc
    obtain ⟨k, e⟩ := c
    cases k with
    | left =>
        refine (h.quiet e (mem_callsOf.mpr ?_)).2
        rw [hxy, List.mem_append]
        exact hc.imp id (List.mem_cons_of_mem _)
    | right =>
        rcases hc with hc | hc
        · have hmem : e ∈ callsOf .right x := mem_callsOf.mpr hc
          rw [hx] at hmem
          rw [List.mem_singleton.mp hmem]
          rfl
        · exact (hquiet e (hy ▸ mem_callsOf.mpr hc)).2
  rcases append_cons_eq_append_cons (hxy.symm.trans hl) with
    ⟨mid, hla, hmid⟩ | ⟨-, heq, -⟩ | ⟨mid, hla, hmid⟩
  · exact .inl ⟨x, mid, hla, fun c hc => hother c (.inr (by simp [hmid, hc]))⟩
  · cases heq
  · exact .inr ⟨fun c hc => hother c (.inl (by simp [hla, hc])), by simp [hmid]⟩

/-- **What the sender calls**: the lookup, and then the insertion or the `send`. -/
theorem sender_cases (h : Meeting parse send_uid recv_uid msg task d w w' l) :
    ∃ la lb p m, l = la ++ (.left, ⟨.findClientByUid recv_uid, p⟩) :: lb ∧ callsOf .left la = [] ∧
      exec World.respond w (la.map Prod.snd) = some m ∧
      m.sessions.findClientByUid recv_uid = some p ∧
      ((p = none ∧ ∃ conn ok, callsOf .left lb = [⟨.getConnect, some conn⟩,
        ⟨.querySql conn (insertSql recv_uid send_uid msg), ok⟩, ⟨.destoryConnect conn, ()⟩]) ∨
      ∃ client now cl bytes code, p = some client ∧
        frame HANDLE_SEND_MESSAGE cl.gameid (snprintf 1048 (onlinePayload send_uid msg now)) =
          some bytes ∧
        callsOf .left lb =
          [⟨.time, now⟩, ⟨.readClient client, cl⟩, ⟨.send cl.fd bytes, code⟩]) := by
  have hplace : ∀ {p : Ptr} {es : List HandlerEvent},
      callsOf .left l = ⟨.findClientByUid recv_uid, p⟩ :: es → ∃ la lb m,
      l = la ++ (.left, ⟨.findClientByUid recv_uid, p⟩) :: lb ∧ callsOf .left la = [] ∧
      exec World.respond w (la.map Prod.snd) = some m ∧
      m.sessions.findClientByUid recv_uid = some p ∧ callsOf .left lb = es := by
    intro p es hes
    obtain ⟨la, lb, rfl, hla, hlb⟩ := callsOf_split (show callsOf .left l = [] ++ _ :: es from hes)
    have hexec := h.exec_eq
    simp only [List.map_append, List.map_cons] at hexec
    obtain ⟨m, hm, hexec⟩ := exec_append.mp hexec
    obtain ⟨m', hfind, -⟩ := exec_cons.mp hexec
    exact ⟨la, lb, m, rfl, hla, hm,
      (Sessions.respond_findClientByUid (World.respond_sessions hfind)).2, hlb⟩
  obtain ⟨ret, hrun⟩ := h.sender
  rcases runs_deliver hrun with ⟨hes, -⟩ | ⟨conn, ok, hes, -⟩ |
    ⟨client, now, cl, bytes, code, hframe, hes, -⟩
  · have hmem : (⟨.getConnect, none⟩ : HandlerEvent) ∈ callsOf .left l := by simp [hes]
    obtain ⟨m, m', hm⟩ := World.exists_respond_of_mem h.exec_eq
      (List.mem_map.mpr ⟨_, mem_callsOf.mp hmem, rfl⟩)
    exact absurd rfl (World.respond_getConnect hm)
  · rw [snprintf_insertSql h.length_lt] at hes
    obtain ⟨la, lb, m, hl, hla, hm, hfind, hlb⟩ := hplace hes
    exact ⟨la, lb, none, m, hl, hla, hm, hfind, .inl ⟨rfl, conn, ok, hlb⟩⟩
  · obtain ⟨la, lb, m, hl, hla, hm, hfind, hlb⟩ := hplace hes
    exact ⟨la, lb, some client, m, hl, hla, hm, hfind,
      .inr ⟨client, now, cl, bytes, code, rfl, hframe, hlb⟩⟩

theorem mem_of_append (hl : l = la ++ lb) {e : HandlerEvent} :
    e ∈ la.map Prod.snd ∨ e ∈ lb.map Prod.snd → e ∈ l.map Prod.snd := by
  rw [hl, List.map_append, List.mem_append]
  exact id

/-- The registry is a list: the lookup would not have returned otherwise. -/
theorem lists (h : Meeting parse send_uid recv_uid msg task d w w' l) :
    ∃ cells, w.sessions.Lists cells := by
  cases h.sound with
  | lists cells hcells => exact ⟨cells, hcells⟩
  | dangling hdangling =>
      obtain ⟨la, lb, p, m, hl, -, hm, hfind, -⟩ := h.sender_cases
      have hsame := Sessions.exec_respond_stay
        (fun e he => h.not_isClose e (mem_of_append hl (.inl he)))
        (World.exec_sessions hm)
      rw [Sessions.findClientByUid_of_dangling (hsame.reg ▸ hdangling)] at hfind
      cases hfind

theorem lists_of_exec (h : Meeting parse send_uid recv_uid msg task d w w' l)
    {cells : List (Addr × Fd2client)} (hcells : w.sessions.Lists cells) (hl : l = la ++ lb)
    (hm : exec World.respond w (la.map Prod.snd) = some m) : m.sessions.Lists cells := by
  have hclose : ∀ e ∈ la.map Prod.snd, e.1.isClose = false := fun e he =>
    h.not_isClose e (mem_of_append hl (.inl he))
  exact hcells.of_same (Sessions.exec_respond_stay hclose (World.exec_sessions hm))
    fun c => Sessions.exec_fdOf hclose c (World.exec_sessions hm)

/-- From the login on, the recipient is online. -/
theorem online_of_login (h : Meeting parse send_uid recv_uid msg task d w w' l)
    {x y z : List (Side × HandlerEvent)}
    (hl : l = (x ++ (.right, ⟨.setLogin task.client recv_uid d.mid d.gameid, ()⟩) :: y) ++ z)
    (hm : exec World.respond w ((x ++ (.right,
      ⟨.setLogin task.client recv_uid d.mid d.gameid, ()⟩) :: y).map Prod.snd) = some m) :
    m.sessions.Online recv_uid := by
  obtain ⟨cells, hcells⟩ := h.lists
  simp only [List.map_append, List.map_cons] at hm
  obtain ⟨m₁, hm₁, hm⟩ := exec_append.mp hm
  obtain ⟨m₂, hset, hm⟩ := exec_cons.mp hm
  have hlists := h.lists_of_exec hcells (hl.trans (List.append_assoc _ _ _)) hm₁
  have hreg : m₁.sessions.Registered task.fd task.client := by
    rw [hlists.linked.registered_iff, ← hcells.linked.registered_iff]
    exact h.registered
  have hon := Sessions.online_of_setLogin hreg
    (hlists.uidOf_ne_none (hlists.linked.registered_iff.mp hreg)) (World.respond_sessions hset)
  have hbehind : ∀ e ∈ y.map Prod.snd, e ∈ l.map Prod.snd := by
    intro e he
    refine mem_of_append hl (.inl ?_)
    rw [List.map_append, List.map_cons]
    exact List.mem_append_right _ (List.mem_cons_of_mem _ he)
  exact hon.stays (fun e he => h.not_isClose e (hbehind e he))
    (fun e he => h.setLogin_eq e (hbehind e he)) (World.exec_sessions hm)

/-- The recipient is online in the end. -/
theorem online (h : Meeting parse send_uid recv_uid msg task d w w' l) :
    w'.sessions.Online recv_uid := by
  obtain ⟨es', hes, -⟩ := runs_handleLogin_of_logins h.login h.data
  rw [h.uid_eq] at hes
  obtain ⟨x, y, hxy, -, -⟩ := callsOf_split hes
  exact h.online_of_login (hxy.trans (List.append_nil _).symm) (hxy ▸ h.exec_eq)

/-- **Whom the lookup finds**: the recipient was online, or has come online in time. -/
theorem found_iff (h : Meeting parse send_uid recv_uid msg task d w w' l)
    (hl : l = la ++ (.left, ⟨.findClientByUid recv_uid, p⟩) :: lb)
    (hm : exec World.respond w (la.map Prod.snd) = some m)
    (hfind : m.sessions.findClientByUid recv_uid = some p) :
    p ≠ none ↔ w.sessions.Online recv_uid ∨ ∀ c ∈ lb, c.2.1.isLogin = false := by
  obtain ⟨cells, hcells⟩ := h.lists
  rw [(h.lists_of_exec hcells hl hm).findClientByUid_iff hfind]
  rcases h.login_order hl with ⟨x, y, rfl, hlogin⟩ | ⟨hlogin, hmem⟩
  · exact iff_of_true (h.online_of_login hl hm) (.inr hlogin)
  · have hlate : ¬ ∀ c ∈ lb, c.2.1.isLogin = false := fun hnone => nomatch hnone _ hmem
    have hclose := fun e he => h.not_isClose e (mem_of_append hl (.inl he))
    rw [or_iff_left hlate]
    constructor
    · refine Sessions.Online.before hclose (fun e he => ?_) (World.exec_sessions hm)
      obtain ⟨c, hc, rfl⟩ := List.mem_map.mp he
      exact hlogin c hc
    · exact Sessions.Online.stays hclose
        (fun e he => h.setLogin_eq e (mem_of_append hl (.inl he))) (World.exec_sessions hm)

/-- A recipient who is found is sent the message. -/
theorem sentOnline (h : Meeting parse send_uid recv_uid msg task d w w' l) {client : Addr}
    (hl : l = la ++ (.left, ⟨.findClientByUid recv_uid, some client⟩) :: lb)
    (hm : exec World.respond w (la.map Prod.snd) = some m)
    (hfind : m.sessions.findClientByUid recv_uid = some (some client)) {now : Int64}
    {cl : SpiderClient} {bytes : Bytes} {code : Int32}
    (hframe : frame HANDLE_SEND_MESSAGE cl.gameid
      (snprintf 1048 (onlinePayload send_uid msg now)) = some bytes)
    (hlb : callsOf .left lb = [⟨.time, now⟩, ⟨.readClient client, cl⟩,
      ⟨.send cl.fd bytes, code⟩]) :
    SentOnline w send_uid recv_uid msg l := by
  obtain ⟨cells, hcells⟩ := h.lists
  have hlists := h.lists_of_exec hcells hl hm
  obtain ⟨fd, hmem⟩ := hlists.mem_of_findClientByUid hfind
  -- the client that is read is still the one for the descriptor
  obtain ⟨x, y, rfl, -, -⟩ := callsOf_split
    (show callsOf .left lb = [⟨.time, now⟩] ++ ⟨.readClient client, cl⟩ :: _ from hlb)
  have hsplit : l = (la ++ (.left, ⟨.findClientByUid recv_uid, some client⟩) :: x) ++
      (.left, ⟨.readClient client, cl⟩) :: y := by
    rw [hl, List.append_assoc, List.cons_append]
  have hexec := h.exec_eq
  rw [hsplit, List.map_append] at hexec
  obtain ⟨m₂, hm₂, hexec⟩ := exec_append.mp hexec
  obtain ⟨m₃, hread, -⟩ := exec_cons.mp hexec
  have hlists₂ := h.lists_of_exec hcells hsplit hm₂
  obtain ⟨-, hget⟩ :=
    Sessions.respond_readClient (hlists₂.get_ne_none hmem) (World.respond_sessions hread)
  have hfd := hlists₂.fdOf_eq fd client hmem
  rw [Sessions.fdOf, hget] at hfd
  obtain rfl := Option.some.inj hfd
  exact ⟨la, _, m, cl.fd, client, now, cl, bytes, code, hl, hm,
    hlists.linked.registered_iff.mpr hmem,
    (Sessions.uidOf_of_findClientByUid hfind).resolve_left (Option.some_ne_none _), hlb, hframe⟩

end Meeting

/-! ### The insertion and the query for the rows -/

section

variable {send_uid recv_uid : Int64} {msg : Bytes} {w w' m : World} {rows : List MysqlRow}
  {stored : List MsgRow} {lq lq' ls ls' mid : List (Side × HandlerEvent)} {query sel : HandlerEvent}

/-- A row that is sent has been found in the table. -/
theorem Flush.exists_stored (h : Flush w .right recv_uid rows ls ls' m stored) {row : MysqlRow}
    (hrow : row ∈ rows) {r : MsgRow} (hr : Shows row r) :
    ∃ r' ∈ m.db.rows (offlineTable recv_uid), r'.uid = recv_uid.toInt ∧ r'.id = r.id ∧
      r'.msg = r.msg := by
  obtain ⟨r', hr', hshow⟩ : ∃ r' ∈ stored, Shows row r' := by
    have hshows := h.shows
    clear h
    induction hshows with
    | nil => cases hrow
    | cons hshow _ ih =>
        rcases List.mem_cons.mp hrow with rfl | hrow
        · exact ⟨_, List.mem_cons_self, hshow⟩
        · obtain ⟨r', hr', hshow'⟩ := ih hrow
          exact ⟨r', List.mem_cons_of_mem _ hr', hshow'⟩
  have htexts : r'.texts = r.texts := (texts_of_shows hshow).symm.trans (texts_of_shows hr)
  obtain ⟨hmem, huid⟩ := (h.mem_stored_iff r').mp hr'
  refine ⟨r', hmem, huid, id_of_texts htexts, ?_⟩
  simp only [MsgRow.texts, List.cons.injEq, Option.some.injEq] at htexts
  exact htexts.2.2.1

/-- Calls among which the sender makes no query. -/
def NoInsert (l : List (Side × HandlerEvent)) : Prop :=
  ∀ e ∈ callsOf .left l, e.1.isQuery = false

theorem noInsert_append {x y : List (Side × HandlerEvent)} :
    NoInsert (x ++ y) ↔ NoInsert x ∧ NoInsert y := by
  rw [NoInsert, callsOf_append, List.forall_mem_append, NoInsert, NoInsert]

theorem noInsert_right {e : HandlerEvent} {x : List (Side × HandlerEvent)} :
    NoInsert ((.right, e) :: x) ↔ NoInsert x := by
  have hne : Side.right ≠ Side.left := nofun
  rw [NoInsert, callsOf_cons_ne hne, NoInsert]

/-- Without the insertion, the login finds the rows as they were. -/
theorem Flush.db_eq (h : Flush w .right recv_uid rows ls ls' m stored) {w₁ w₂ : World}
    {x : List (Side × HandlerEvent)} (hx : ∀ c ∈ x, c ∈ ls) (hleft : NoInsert x)
    (hexec : exec World.respond w₁ (x.map Prod.snd) = some w₂) : w₂.db = w₁.db := by
  refine World.exec_db (fun e he => ?_) hexec
  obtain ⟨⟨k, e⟩, hc, rfl⟩ := List.mem_map.mp he
  cases k with
  | left => exact hleft e (mem_callsOf.mpr hc)
  | right => exact (h.before e (mem_callsOf.mpr (hx _ hc))).2

/-- With the insertion in front of it, the login finds what is stored then. -/
theorem Flush.query_eq {conn : Addr} {sql : Bytes} {ok : Bool}
    (h : Flush w .right recv_uid rows (lq ++ (.left, ⟨.querySql conn sql, ok⟩) :: mid) ls' m stored)
    (hlq : NoInsert lq) (hmid : NoInsert mid) : w.db.query sql = some m.db := by
  have hexec := h.exec_before
  rw [List.map_append, List.map_cons] at hexec
  obtain ⟨m₁, hm₁, hexec⟩ := exec_append.mp hexec
  obtain ⟨m₂, hquery, hm⟩ := exec_cons.mp hexec
  rw [← h.db_eq (fun c hc => by simp [hc]) hlq hm₁,
    h.db_eq (fun c hc => by simp [hc]) hmid hm]
  exact World.respond_querySql hquery

/-- A row that has been found is not stored any more in the end. -/
theorem Flush.not_stored (h : Flush w .right recv_uid rows ls ls' m stored) (hleft : NoInsert ls')
    {sel : HandlerEvent} (hsel : sel.1.isSelect = true)
    (hexec : exec World.respond m (sel :: ls'.map Prod.snd) = some w') {r : MsgRow}
    (hr : r ∈ stored) {r' : MsgRow} (hr' : r' ∈ w'.db.rows (offlineTable recv_uid)) :
    r'.id ≠ r.id := by
  have hdeletes : ∀ e ∈ sel :: ls'.map Prod.snd, e.1.isQuery = true →
      e.1.deletes (offlineTable recv_uid) ≠ none := by
    intro e he hquery
    rcases List.mem_cons.mp he with rfl | he
    · rw [Call.isQuery_of_isSelect hsel] at hquery
      cases hquery
    · obtain ⟨⟨k, e⟩, hc, rfl⟩ := List.mem_map.mp he
      cases k with
      | left =>
          have hnone := hleft e (mem_callsOf.mpr hc)
          rw [show e.1.isQuery = true from hquery] at hnone
          cases hnone
      | right => exact (h.after e (mem_callsOf.mpr hc)).2 hquery
  intro hid
  obtain ⟨-, hnot⟩ := (World.mem_rows_exec_iff hdeletes hexec).mp hr'
  have hmem := (h.mem_deleted_iff ((h.mem_stored_iff r).mp hr).1).mpr hr
  obtain ⟨e, he, hdeleted⟩ := List.mem_filterMap.mp hmem
  refine hnot e (List.mem_cons_of_mem _ (List.mem_map.mpr ⟨_, mem_callsOf.mp he, rfl⟩)) ?_
  rw [hdeleted, hid]

end

namespace Meeting

variable {parse : Bytes → Option Json} {send_uid recv_uid : Int64} {msg : Bytes} {task : Task}
  {d : LoginData} {w w' m : World} {l la lb : List (Side × HandlerEvent)} {p : Ptr}

theorem exists_rows (h : Meeting parse send_uid recv_uid msg task d w w' l) :
    ∃ rows, LoginCalls task d recv_uid rows (callsOf .right l) := by
  obtain ⟨cells, hcells⟩ := h.lists
  have hlive := hcells.get_ne_none (hcells.linked.registered_iff.mp h.registered)
  refine h.uid_eq ▸ exists_loginCalls h.login h.data h.exec_eq hlive
    (fun c hc => h.not_isClose _ (List.mem_map.mpr ⟨c, hc, rfl⟩)) fun c hc hne => ?_
  obtain ⟨k, e⟩ := c
  cases k with
  | left => exact Call.logsIn_eq_false (h.quiet e (mem_callsOf.mpr hc)).2 _
  | right => exact absurd rfl hne

/-- The calls of a sender who finds nobody. -/
def offlineCalls (send_uid recv_uid : Int64) (msg : Bytes) (conn : Addr) (ok : Bool) :
    List HandlerEvent :=
  [⟨.findClientByUid recv_uid, none⟩, ⟨.getConnect, some conn⟩,
    ⟨.querySql conn (insertSql recv_uid send_uid msg), ok⟩, ⟨.destoryConnect conn, ()⟩]

/-- The place of the insertion, which is the only query of the sender. -/
theorem insert_place {conn : Addr} {ok : Bool}
    (hcalls : callsOf .left l = offlineCalls send_uid recv_uid msg conn ok) :
    ∃ lq lq', l = lq ++ (.left, ⟨.querySql conn (insertSql recv_uid send_uid msg), ok⟩) :: lq' ∧
      NoInsert lq ∧ NoInsert lq' := by
  obtain ⟨lq, lq', hl, hlq, hlq'⟩ := callsOf_split
    (show callsOf .left l = [⟨.findClientByUid recv_uid, none⟩, ⟨.getConnect, some conn⟩] ++
      ⟨.querySql conn (insertSql recv_uid send_uid msg), ok⟩ :: _ from hcalls)
  refine ⟨lq, lq', hl, ?_, ?_⟩
  · simp [NoInsert, hlq, Call.isQuery]
  · simp [NoInsert, hlq', Call.isQuery]

/-- **A message that the login sends** has been stored in time. -/
theorem storedInTime_of_sentByFlush (h : Meeting parse send_uid recv_uid msg task d w w' l)
    {conn : Addr} {ok : Bool}
    (hcalls : callsOf .left l = offlineCalls send_uid recv_uid msg conn ok)
    (hsent : SentByFlush w w' recv_uid msg task d l) : StoredInTime recv_uid msg l := by
  obtain ⟨lq, lq', hl, hfront, hback⟩ := insert_place hcalls
  obtain ⟨rows, row, r, hrows, hrow, hshow, hnew, rfl, -⟩ := hsent
  obtain ⟨conn', ls, ls', m, stored, hl', hflush⟩ := hrows.flush h.exec_eq
  obtain ⟨r', hr', huid, hid, hmsg⟩ := hflush.exists_stored hrow hshow
  have hold : r' ∉ w.db.rows (offlineTable recv_uid) := by
    intro hmem
    have hlt := w.db.fresh _ r' hmem
    omega
  rcases append_cons_eq_append_cons (hl.symm.trans hl') with
    ⟨mid, rfl, rfl⟩ | ⟨-, heq, -⟩ | ⟨mid, rfl, rfl⟩
  · obtain ⟨hmid, hls'⟩ := noInsert_append.mp hback
    obtain ⟨hfits, hzero, hplain⟩ :=
      Database.plain_of_new (hflush.query_eq hfront hmid) hr' hold huid hmsg
    refine ⟨hfits, hzero, hplain, ?_⟩
    rw [hl', hflush.precede_iff rfl]
    intro b hb hquery
    have hnone := noInsert_right.mp hls' b.2 (mem_callsOf.mpr (hquery.1 ▸ hb))
    rw [hquery.2] at hnone
    cases hnone
  · cases heq
  · -- nothing new has been found
    have hdb := hflush.db_eq (fun _ hc => hc) (noInsert_append.mp hfront).1 hflush.exec_before
    exact absurd (hdb ▸ hr') hold

/-- **A message that has been stored in time** is sent by the login. -/
theorem sentByFlush_of_storedInTime (h : Meeting parse send_uid recv_uid msg task d w w' l)
    {conn : Addr} {ok : Bool}
    (hcalls : callsOf .left l = offlineCalls send_uid recv_uid msg conn ok)
    (hstored : StoredInTime recv_uid msg l) : SentByFlush w w' recv_uid msg task d l := by
  obtain ⟨hfits, hzero, hplain, hprecede⟩ := hstored
  obtain ⟨lq, lq', hl, hfront, hback⟩ := insert_place hcalls
  obtain ⟨rows, hrows⟩ := h.exists_rows
  obtain ⟨conn', ls, ls', m, stored, hl', hflush⟩ := hrows.flush h.exec_eq
  rw [hl', hflush.precede_iff rfl] at hprecede
  rcases append_cons_eq_append_cons (hl.symm.trans hl') with
    ⟨mid, rfl, rfl⟩ | ⟨-, heq, -⟩ | ⟨mid, rfl, rfl⟩
  · obtain ⟨hmid, hls'⟩ := noInsert_append.mp hback
    -- the new row is there when the login asks
    have hinsert := Database.rows_of_insertSql (h.shard_eq ▸ hflush.shard_nonneg) hzero hplain
      (hflush.query_eq hfront hmid)
    rw [offlineTable_inj.mpr h.shard_eq] at hinsert
    have hstored := (hflush.mem_stored_iff ⟨w.db.next, recv_uid.toInt32.toInt,
      send_uid.toInt32.toInt, msg, w.db.stamp⟩).mpr ⟨by simp [hinsert], hfits⟩
    obtain ⟨row, hrow, hshow⟩ := exists_shows hflush.shows hstored
    refine ⟨rows, row, _, hrows, hrow, hshow, Nat.le_refl _, rfl, fun r' hr' => ?_⟩
    have hexec := h.exec_eq
    rw [hl', List.map_append] at hexec
    obtain ⟨m', hm', hexec⟩ := exec_append.mp hexec
    obtain rfl := Option.some.inj (hflush.exec_before.symm.trans hm')
    exact hflush.not_stored (noInsert_right.mp hls') rfl hexec hstored hr'
  · cases heq
  · exact absurd ⟨rfl, rfl⟩ (hprecede _ (List.mem_append_right mid List.mem_cons_self))

/-- Whether the login comes before the lookup. -/
theorem precede_iff (hl : l = la ++ (.left, ⟨.findClientByUid recv_uid, p⟩) :: lb)
    (hla : callsOf .left la = []) (hlb : ∀ e ∈ callsOf .left lb, e.1.isLookup = false) :
    Precede (fun c => c.2.1.isLogin = true) (fun c => c.1 = .left ∧ c.2.1.isLookup = true) l ↔
      ∀ c ∈ lb, c.2.1.isLogin = false := by
  rw [hl, Lib.precede_iff ⟨rfl, rfl⟩ (fun a ha hlookup => ?_) (fun a ha hlookup => ?_)]
  · simp only [Bool.not_eq_true]
  · have hmem : a.2 ∈ callsOf .left la := mem_callsOf.mpr (hlookup.1 ▸ ha)
    rw [hla] at hmem
    cases hmem
  · have hnone := hlb a.2 (mem_callsOf.mpr (hlookup.1 ▸ ha))
    rw [hlookup.2] at hnone
    cases hnone

end Meeting

/-- **No message is stranded**: when one worker sends a message to a user and another one
handles the user's login, in any order of their calls, the message is sent on a connection
of the user, or is stored and sent by the login, if and only if the calls are in an order
in which it is `InTime`. The user is online in the end, so otherwise the message is left
in the database until the next login. -/
theorem not_stranded_iff (parse : Bytes → Option Json) (send_uid recv_uid : Int64)
    (data msg : Bytes) (task : Task) (d : LoginData) (w : World) (l : List (Side × HandlerEvent))
    (t : Threads Call.Answer Side World Unit) (hacc : accepts parse data = some (recv_uid, msg))
    (hdata : logins parse task.data = some d) (huid : d.uid = recv_uid)
    (hshard : shard send_uid = shard recv_uid) (hsound : w.sessions.Sound)
    (hreg : w.sessions.Registered task.fd task.client)
    (hrun : exec (step World.respond) (sendAndLogin parse send_uid data task w) l = some t)
    (hdone : ∀ i, t.prog i = .pure ()) :
    (SentOnline w send_uid recv_uid msg l ∨ SentByFlush w t.shared recv_uid msg task d l ∨
      ¬ t.shared.sessions.Online recv_uid) ↔ InTime w recv_uid msg l := by
  obtain ⟨es, _, ret, hes, hsender, hpure⟩ := Prog.runs_bind.mp (runs_of_exec hrun (hdone .left))
  obtain ⟨rfl, -⟩ := Prog.runs_pure.mp hpure
  rw [List.append_nil] at hes
  subst hes
  have hquiet : ∀ e ∈ callsOf .left l, e.1.Quiet := fun e he =>
    Call.quiet_of_writes (calls_modChatSendMessage parse send_uid data _ _ hsender e he)
  rw [modChatSendMessage_of_accepts parse hacc] at hsender
  have h : Meeting parse send_uid recv_uid msg task d w t.shared l :=
    { exec_eq := (exec_parts hrun).1
      sender := ⟨ret, hsender⟩
      quiet := hquiet
      login := runs_of_exec hrun (hdone .right)
      data := hdata
      uid_eq := huid
      registered := hreg
      sound := hsound
      shard_eq := hshard
      length_lt := length_of_accepts parse hacc }
  obtain ⟨la, lb, p, m, hl, hla, hm, hfind, hcases⟩ := h.sender_cases
  have hnone : ∀ e ∈ callsOf .left lb, e.1.isLookup = false := by
    rcases hcases with ⟨-, conn, ok, hlb⟩ | ⟨client, now, cl, bytes, code, -, -, hlb⟩
    · simp [hlb, Call.isLookup]
    · simp [hlb, Call.isLookup]
  have hfound := h.found_iff hl hm hfind
  rw [← Meeting.precede_iff hl hla hnone] at hfound
  rcases hcases with ⟨rfl, conn, ok, hlb⟩ | ⟨client, now, cl, bytes, code, rfl, hframe, hlb⟩
  · have hcalls : callsOf .left l = Meeting.offlineCalls send_uid recv_uid msg conn ok := by
      rw [hl, callsOf_append, callsOf_cons_self, hla, hlb]
      rfl
    have hoffline : ¬ SentOnline w send_uid recv_uid msg l := by
      intro hsent
      obtain ⟨la', lb', m', fd, client, now, cl, bytes, code, hl', -⟩ := hsent
      have hmem : (⟨.findClientByUid recv_uid, some client⟩ : HandlerEvent) ∈ callsOf .left l := by
        rw [hl', callsOf_append, callsOf_cons_self]
        exact List.mem_append_right _ List.mem_cons_self
      rw [hcalls] at hmem
      simp [Meeting.offlineCalls] at hmem
    rw [or_iff_right hoffline, or_iff_left (not_not_intro h.online), InTime, ← or_assoc,
      or_iff_right (fun hfind => hfound.mpr hfind rfl)]
    exact ⟨h.storedInTime_of_sentByFlush hcalls, h.sentByFlush_of_storedInTime hcalls⟩
  · exact iff_of_true (.inl (h.sentOnline hl hm hfind hframe hlb))
      (or_assoc.mp (.inl (hfound.mp (Option.some_ne_none _))))

/-- A database without messages. -/
def emptyDb : Database where
  rows := fun _ => []
  next := 1
  stamp := ascii "2015-01-01 00:00:00"
  fresh := nofun
  nodup := fun _ => List.nodup_nil
  next_le := by decide

theorem sound_twoConnections : twoConnections.Sound := by
  obtain ⟨cells, hlinked, hnil⟩ := Sessions.linked_init 10
  have hlists : (Sessions.init 10).Lists cells :=
    ⟨hlinked, by rw [hnil]; nofun, Sessions.noClient_init 10⟩
  have hfirst : ((Sessions.init 10).accept 5 0 none).isSome := by decide
  obtain ⟨s₁, hs₁⟩ := Option.isSome_iff_exists.mp hfirst
  have hsecond : (((Sessions.init 10).accept 5 0 none).bind fun s =>
      s.accept 6 0 (some 11)).isSome := by decide
  obtain ⟨s₂, hs₂⟩ := Option.isSome_iff_exists.mp hsecond
  rw [twoConnections, hs₂, Option.getD_some]
  rw [hs₁, Option.bind_some] at hs₂
  obtain ⟨cells₁, hlists₁, -⟩ := hlists.accept hs₁
  obtain ⟨cells₂, hlists₂, -⟩ := hlists₁.accept hs₂
  exact .lists cells₂ hlists₂

/-- The calls that store the message of user 17 for user 7. -/
def insertCalls : List HandlerEvent :=
  [⟨.getConnect, some 2⟩, ⟨.querySql 2 (snprintf 2048 (insertSql 7 17 (ascii "hi"))), true⟩,
    ⟨.destoryConnect 2, ()⟩]

/-- The message is stored before user 7 logs in. -/
def storedFirst : List (Side × HandlerEvent) :=
  callsBy .left (⟨.findClientByUid 7, none⟩ :: insertCalls) ++
  callsBy .right (headCalls 5 0 7 1 ++
    [selectCall 1 7 [(MsgRow.mk 1 7 17 (ascii "hi") emptyDb.stamp).fetched]] ++
    rowCalls 5 7 1 (MsgRow.mk 1 7 17 (ascii "hi") emptyDb.stamp).fetched ++
    [⟨.destoryConnect 1, ()⟩])

theorem not_stranded_iff_storedFirst :
    ∃ t, exec (step World.respond) (sendAndLogin Json.parse 17 (hiData 7) (loginTask 5 0 7)
        ⟨twoConnections, emptyDb⟩) storedFirst = some t ∧
      (SentOnline ⟨twoConnections, emptyDb⟩ 17 7 (ascii "hi") storedFirst ∨
        SentByFlush ⟨twoConnections, emptyDb⟩ t.shared 7 (ascii "hi") (loginTask 5 0 7)
          (loginFields 7) storedFirst ∨ ¬ t.shared.sessions.Online 7) := by
  have hend : (exec (step World.respond) (sendAndLogin Json.parse 17 (hiData 7) (loginTask 5 0 7)
      ⟨twoConnections, emptyDb⟩) storedFirst).map
      (fun t => ((t.prog .left).result, (t.prog .right).result)) = some (some (), some ()) := by
    decide +kernel
  obtain ⟨t, hrun, hend⟩ := Option.map_eq_some_iff.mp hend
  refine ⟨t, hrun, (not_stranded_iff Json.parse 17 7 (hiData 7) (ascii "hi") _ (loginFields 7) _ _ t
    (by decide +kernel) (by decide +kernel) rfl (by decide) sound_twoConnections
    (by decide) hrun (done_of_results hend)).mpr (.inr (.inr ?_))⟩
  exact ⟨by decide, by decide, by decide, by decide⟩

/-- User 7 logs in between the lookup and the insertion. -/
def inBetween : List (Side × HandlerEvent) :=
  callsBy .left [⟨.findClientByUid 7, none⟩] ++
  callsBy .right (headCalls 5 0 7 1 ++ [selectCall 1 7 [], ⟨.destoryConnect 1, ()⟩]) ++
  callsBy .left insertCalls

/-- The message stays in the database while user 7 is online. -/
theorem message_stranded :
    ∃ t, exec (step World.respond) (sendAndLogin Json.parse 17 (hiData 7) (loginTask 5 0 7)
        ⟨twoConnections, emptyDb⟩) inBetween = some t ∧ (∀ i, t.prog i = .pure ()) ∧
      t.shared.db.rows (offlineTable 7) = [⟨1, 7, 17, ascii "hi", emptyDb.stamp⟩] ∧
      t.shared.sessions.Online 7 ∧
      ¬ SentOnline ⟨twoConnections, emptyDb⟩ 17 7 (ascii "hi") inBetween ∧
      ¬ SentByFlush ⟨twoConnections, emptyDb⟩ t.shared 7 (ascii "hi") (loginTask 5 0 7)
        (loginFields 7) inBetween := by
  have hend : (exec (step World.respond) (sendAndLogin Json.parse 17 (hiData 7) (loginTask 5 0 7)
      ⟨twoConnections, emptyDb⟩) inBetween).map
      (fun t => (((t.prog .left).result, (t.prog .right).result),
        (decide (t.shared.sessions.Registered 5 0), t.shared.sessions.uidOf (some 0)),
        t.shared.db.rows (offlineTable 7))) =
      some ((some (), some ()), (true, some 7), [⟨1, 7, 17, ascii "hi", emptyDb.stamp⟩]) := by
    decide +kernel
  obtain ⟨t, hrun, hend⟩ := Option.map_eq_some_iff.mp hend
  simp only [Prod.mk.injEq] at hend
  obtain ⟨⟨hleft, hright⟩, ⟨hreg, huid⟩, hrows⟩ := hend
  refine ⟨t, hrun, done_of_results (by rw [hleft, hright]), hrows,
    ⟨5, 0, of_decide_eq_true hreg, huid⟩, ?_, ?_⟩
  · intro hsent
    obtain ⟨la, lb, m, fd, client, now, cl, bytes, code, hl, -⟩ := hsent
    have hcalls : callsOf .left inBetween = ⟨.findClientByUid 7, none⟩ :: insertCalls := rfl
    have hmem : (⟨.findClientByUid 7, some client⟩ : HandlerEvent) ∈ callsOf .left inBetween := by
      rw [hl, callsOf_append, callsOf_cons_self]
      exact List.mem_append_right _ List.mem_cons_self
    rw [hcalls] at hmem
    simp [insertCalls] at hmem
  · intro hsent
    obtain ⟨rows, row, r, hcalls, hrow, -⟩ := hsent
    obtain ⟨before, after, reply, code, conn, parts, -, -, heq⟩ := hcalls
    have hright' : callsOf .right inBetween =
        headCalls 5 0 7 1 ++ [selectCall 1 7 [], ⟨.destoryConnect 1, ()⟩] := rfl
    have hmem : (⟨.getRows conn (snprintf 256 (selectSql 7)), some rows⟩ : HandlerEvent) ∈
        callsOf .right inBetween := by
      rw [heq]
      exact List.mem_append_right _ List.mem_cons_self
    rw [hright'] at hmem
    obtain ⟨-, rfl⟩ : conn = 1 ∧ rows = [] := by
      simpa [headCalls, loginHead, selectCall] using hmem
    cases hrow

end SpiderChat
