import SpiderChat.Lib.Monitor
import SpiderChat.Handle

/-!
# SpiderChat.Release

Which handlers give their database connection back. The monitor `held` keeps the
connections that a handler has obtained and not yet released; it stops when one
is released that is not held. Every handler ends with what it started with
(`Keeps`), except `mod_friend_get_friend_list`, which never calls
`destoryConnect`.
-/

namespace SpiderChat

open Lib Handler

/-- The connections held after a call. -/
def held (conns : List Addr) : HandlerEvent → Option (List Addr)
  | ⟨.getConnect, r⟩ =>
      match r with
      | some c => some (c :: conns)
      | none => some conns
  | ⟨.destoryConnect c, _⟩ => if c ∈ conns then some (conns.erase c) else none
  | _ => some conns

/-- Every connection obtained in these calls is released exactly once, after it
was obtained, and nothing else is released. -/
def Released (es : List HandlerEvent) : Prop := exec held [] es = some []

/-- `getConnect` has returned a connection. -/
def Obtains (es : List HandlerEvent) : Prop := ∃ c : Addr, ⟨.getConnect, some c⟩ ∈ es

theorem not_obtains_singleton {e : HandlerEvent} (h : ∀ c : Addr, e ≠ ⟨.getConnect, some c⟩) :
    ¬ Obtains [e] := by
  intro hob
  obtain ⟨c, hc⟩ := hob
  exact h c (List.mem_singleton.mp hc).symm

/-- Whatever connections are held at the start are held at the end. -/
def Keeps {α : Type} (p : Handler α) : Prop :=
  ∀ conns, Triple held (· = conns) p fun _ s => s = conns

/-- The connection `c` is released, and otherwise what is held at the start is
held at the end. -/
def GivesBack {α : Type} (c : Addr) (p : Handler α) : Prop :=
  ∀ conns, Triple held (· = c :: conns) p fun _ s => s = conns

/-- A call that neither obtains nor releases a connection. -/
def Call.IsPool : Call → Bool
  | .getConnect => true
  | .destoryConnect _ => true
  | _ => false

theorem held_of_not_isPool {c : Call} (h : c.IsPool = false) (r : c.Answer) (conns : List Addr) :
    held conns ⟨c, r⟩ = some conns := by
  cases c with
  | getConnect => cases h
  | destoryConnect _ => cases h
  | _ => rfl

section

variable {α β : Type}

theorem keeps_pure (a : α) : Keeps (pure a) := fun _ => Triple.pure fun _ hs => hs

theorem keeps_undefined : Keeps (undefined : Handler α) :=
  fun _ _ _ _ _ hrun => absurd hrun runs_undefined

theorem Keeps.bind {p : Handler α} {f : α → Handler β} (hp : Keeps p) (hf : ∀ a, Keeps (f a)) :
    Keeps (p >>= f) := fun conns => Triple.bind (hp conns) fun a => hf a conns

theorem keeps_ask_bind {c : Call} {k : c.Answer → Handler α} (hc : c.IsPool = false)
    (hk : ∀ r, Keeps (k r)) : Keeps (ask c >>= k) := fun conns =>
  Triple.pass (fun r s => held_of_not_isPool hc r s) fun r => hk r conns

theorem keeps_ask {c : Call} (hc : c.IsPool = false) : Keeps (ask c) := fun conns =>
  Triple.pass (fun r s => held_of_not_isPool hc r s) fun r => keeps_pure r conns

theorem keeps_ofOption (o : Option α) : Keeps (ofOption o) := by
  cases o with
  | none => exact keeps_undefined
  | some a => exact keeps_pure a

/-- Behind `getConnect`: nothing is obtained, or something that is given back. -/
theorem keeps_getConnect {k : Ptr → Handler α} (hnone : Keeps (k none))
    (hsome : ∀ c, GivesBack c (k (some c))) : Keeps (ask .getConnect >>= k) := by
  intro conns
  refine Triple.call (fun r s => match r with | some c => s = c :: conns | none => s = conns)
    (fun r s hs => ?_) fun r => ?_
  · subst hs
    cases r with
    | none => exact ⟨_, rfl, rfl⟩
    | some c => exact ⟨_, rfl, rfl⟩
  · cases r with
    | none => exact hnone conns
    | some c => exact hsome c conns

theorem Keeps.givesBack_bind {c : Addr} {p : Handler α} {f : α → Handler β} (hp : Keeps p)
    (hf : ∀ a, GivesBack c (f a)) : GivesBack c (p >>= f) := fun conns =>
  Triple.bind (hp (c :: conns)) fun a => hf a conns

theorem givesBack_ask_bind {c : Addr} {o : Call} {k : o.Answer → Handler α}
    (ho : o.IsPool = false) (hk : ∀ r, GivesBack c (k r)) : GivesBack c (ask o >>= k) :=
  fun conns => Triple.pass (fun r s => held_of_not_isPool ho r s) fun r => hk r conns

theorem givesBack_destory_bind {c : Addr} {k : Unit → Handler α} (hk : ∀ r, Keeps (k r)) :
    GivesBack c (ask (.destoryConnect c) >>= k) := by
  intro conns
  refine Triple.call (fun _ s => s = conns) ?_ fun r => hk r conns
  intro r s heq
  subst heq
  exact ⟨conns, by simp [held], rfl⟩

theorem givesBack_destory (c : Addr) : GivesBack c (ask (.destoryConnect c)) :=
  givesBack_destory_bind (k := Prog.pure) fun r => keeps_pure r

end

/-! ### The handlers -/

theorem keeps_handleSend (fd : Int) (cmd gameid : Int32) (ret : Bytes) :
    Keeps (handleSend fd cmd gameid ret) :=
  (keeps_ofOption _).bind fun _ => keeps_ask_bind rfl fun _ => keeps_pure _

theorem keeps_deliver (send_uid recv_uid : Int64) (msg : Bytes) :
    Keeps (deliver send_uid recv_uid msg) := by
  refine keeps_ask_bind rfl fun found => ?_
  cases found with
  | none =>
      refine keeps_getConnect (keeps_pure _) fun conn => givesBack_ask_bind rfl fun _ => ?_
      exact givesBack_destory_bind fun _ => keeps_pure _
  | some recv_client =>
      refine keeps_ask_bind rfl fun _ => keeps_ask_bind rfl fun _ => ?_
      exact (keeps_handleSend _ _ _ _).bind fun _ => keeps_pure _

theorem keeps_modChatSendMessage (parse : Bytes → Option Json) (uid : Int64) (data : Bytes) :
    Keeps (modChatSendMessage parse uid data) := by
  unfold modChatSendMessage
  split
  · split
    · exact keeps_undefined
    · exact keeps_pure _
    · exact keeps_deliver _ _ _
  · exact keeps_pure _

theorem keeps_sendRows (fd : Int) (uid : Int64) (gameid : Int32) (conn : Addr)
    (rows : List MysqlRow) : Keeps (sendRows fd uid gameid conn rows) := by
  induction rows with
  | nil => exact keeps_pure _
  | cons row rows ih =>
      refine keeps_ask_bind rfl fun _ => (keeps_handleSend _ _ _ _).bind fun _ => ?_
      exact keeps_ask_bind rfl fun _ => ih

theorem keeps_modChatSendOfflineMsg (fd : Int) (uid : Int64) (gameid : Int32) :
    Keeps (modChatSendOfflineMsg fd uid gameid) := by
  refine keeps_getConnect (keeps_pure _) fun conn => givesBack_ask_bind rfl fun res => ?_
  have hres : Keeps (sendResult fd uid gameid conn res) := by
    cases res with
    | none => exact keeps_pure _
    | some rows => exact keeps_sendRows _ _ _ _ _
  exact hres.givesBack_bind fun _ => givesBack_destory conn

theorem keeps_modLogin (parse : Bytes → Option Json) (client : Addr) (data : Bytes) :
    Keeps (modLogin parse client data) := by
  unfold modLogin
  split
  · split
    · exact keeps_undefined
    · exact keeps_pure _
    · exact keeps_ask_bind rfl fun _ => keeps_ask_bind rfl fun _ => keeps_pure _
  · exact keeps_pure _

theorem keeps_handleLogin (parse : Bytes → Option Json) (task : Task) :
    Keeps (handleLogin parse task) := by
  refine (keeps_modLogin _ _ _).bind fun retcode => keeps_ask_bind rfl fun _ =>
    (keeps_handleSend _ _ _ _).bind fun _ => ?_
  split
  · exact keeps_ask_bind rfl fun _ => keeps_modChatSendOfflineMsg _ _ _
  · exact keeps_pure _

theorem keeps_handleHeartbeat (task : Task) : Keeps (handleHeartbeat task) := by
  unfold handleHeartbeat
  split
  · refine keeps_ask_bind rfl fun _ => keeps_ask_bind rfl fun _ => keeps_ask_bind rfl fun _ => ?_
    exact keeps_handleSend _ _ _ _
  · exact keeps_ask_bind rfl fun _ => keeps_ask rfl

theorem keeps_handleLoginout (task : Task) : Keeps (handleLoginout task) :=
  keeps_ask_bind rfl fun _ => keeps_ask rfl

theorem keeps_handleSendMessage (parse : Bytes → Option Json) (task : Task) :
    Keeps (handleSendMessage parse task) := by
  refine keeps_ask_bind rfl fun _ => (keeps_modChatSendMessage _ _ _).bind fun _ => ?_
  refine (keeps_ofOption _).bind fun _ => keeps_ask_bind rfl fun _ => ?_
  exact keeps_handleSend _ _ _ _

/-- Every request but the one for the friend list. -/
theorem keeps_handleData (parse : Bytes → Option Json) {task : Task}
    (h : task.cmd ≠ HANDLE_GET_FRIEND_LIST) : Keeps (handleData parse task) := by
  unfold handleData
  split
  · exact (keeps_handleLogin _ _).bind fun _ => keeps_pure _
  split
  · exact (keeps_handleLoginout _).bind fun _ => keeps_pure _
  split
  · exact (keeps_handleHeartbeat _).bind fun _ => keeps_pure _
  split
  · exact (keeps_handleSendMessage _ _).bind fun _ => keeps_pure _
  · exact keeps_pure _

/-! ### The friend list -/

/-- A call other than `destoryConnect`. -/
def Call.NoRelease (c : Call) : Prop := ∀ conn, c ≠ .destoryConnect conn

/-- The friend list is built without a release and without a write to a client. -/
theorem calls_handleGetFriendList (task : Task) :
    (handleGetFriendList task).Calls fun c => c.NoRelease ∧ c.writes = false := by
  refine calls_ask_bind ⟨nofun, rfl⟩ fun _ => calls_ask_bind ⟨nofun, rfl⟩ fun _ => ?_
  refine (calls_modFriendGetFriendList ⟨nofun, rfl⟩ (fun _ _ => ⟨nofun, rfl⟩) _ _).bind
    fun _ => calls_ask_bind ⟨nofun, rfl⟩ fun _ => ?_
  exact calls_handleSend (fun _ => ⟨nofun, rfl⟩) _ _ _

/-- Calls without a release: what is obtained stays. -/
theorem exec_held_of_noRelease {es : List HandlerEvent} (h : ∀ e ∈ es, Call.NoRelease e.1)
    (conns : List Addr) :
    ∃ s, exec held conns es = some s ∧ conns.length ≤ s.length ∧
      (¬ Obtains es → s = conns) ∧ (Obtains es → conns.length < s.length) := by
  induction es generalizing conns with
  | nil => exact ⟨conns, rfl, Nat.le_refl _, fun _ => rfl, fun ⟨c, hc⟩ => absurd hc (by simp)⟩
  | cons e es ih =>
      have htail := ih fun e' he' => h e' (List.mem_cons_of_mem _ he')
      -- a call that changes nothing
      have hpass : held conns e = some conns → (∀ c : Addr, e ≠ ⟨.getConnect, some c⟩) →
          ∃ s, exec held conns (e :: es) = some s ∧ conns.length ≤ s.length ∧
            (¬ Obtains (e :: es) → s = conns) ∧ (Obtains (e :: es) → conns.length < s.length) := by
        intro hstep hne
        have hiff : Obtains (e :: es) ↔ Obtains es := by
          simp only [Obtains, List.mem_cons, fun c => (hne c).symm, false_or]
        obtain ⟨s, hs, hle, hkeep, hgrow⟩ := htail conns
        exact ⟨s, exec_cons.mpr ⟨conns, hstep, hs⟩, hle, fun hno => hkeep (hiff.not.mp hno),
          fun hob => hgrow (hiff.mp hob)⟩
      obtain ⟨o, r⟩ := e
      by_cases hpool : o.IsPool = false
      · refine hpass (held_of_not_isPool hpool r conns) fun c heq => ?_
        cases heq
        cases hpool
      · cases o with
        | getConnect =>
            cases r with
            | none => exact hpass rfl fun c heq => by cases heq
            | some c =>
                obtain ⟨s, hs, hle, -, -⟩ := htail (c :: conns)
                rw [List.length_cons] at hle
                refine ⟨s, exec_cons.mpr ⟨c :: conns, rfl, hs⟩, by omega, ?_, fun _ => by omega⟩
                exact fun hno => absurd ⟨c, List.mem_cons_self⟩ hno
        | destoryConnect c => exact absurd rfl (h _ List.mem_cons_self c)
        | _ => exact absurd rfl hpool

/-- A request for the friend list releases what it obtains only when it obtains nothing. -/
theorem friendList_released_iff {parse : Bytes → Option Json} {task : Task}
    {es : List HandlerEvent} {ret : Int32} (hcmd : task.cmd = HANDLE_GET_FRIEND_LIST)
    (h : (handleData parse task).Runs es ret) (conns : List Addr) :
    exec held conns es = some conns ↔ ¬ Obtains es := by
  have hcalls : (handleData parse task).Calls Call.NoRelease := by
    unfold handleData
    rw [hcmd]
    refine Prog.Calls.bind ?_ fun _ => Prog.calls_pure _
    exact fun es a h e he => (calls_handleGetFriendList task es a h e he).1
  obtain ⟨s, hs, -, hkeep, hgrow⟩ := exec_held_of_noRelease (hcalls es ret h) conns
  constructor
  · intro heq hob
    obtain rfl := Option.some.inj (hs.symm.trans heq)
    exact Nat.lt_irrefl _ (hgrow hob)
  · intro hno
    rw [hs, hkeep hno]

/-- What one request does to the connections held by its worker. -/
theorem handleData_released_iff {parse : Bytes → Option Json} {task : Task}
    {es : List HandlerEvent} {ret : Int32} (h : (handleData parse task).Runs es ret)
    (conns : List Addr) :
    exec held conns es = some conns ↔ task.cmd ≠ HANDLE_GET_FRIEND_LIST ∨ ¬ Obtains es := by
  by_cases hcmd : task.cmd = HANDLE_GET_FRIEND_LIST
  · rw [friendList_released_iff hcmd h]
    simp [hcmd]
  · obtain ⟨s, hs, rfl⟩ := keeps_handleData parse hcmd conns conns rfl es ret h
    simp [hs, hcmd]

end SpiderChat
