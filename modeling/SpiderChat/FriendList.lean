import SpiderChat.Answers

/-!
# SpiderChat.FriendList

**The list of friends**, in the array of `handle_get_friend_list` and in its reply. Every
`strncpy` of the loop writes 210 bytes from where the text ends, so the text in front of the
last one has room for 302 bytes (`friend_array_iff`). What is printed are pointers with commas
behind them, between a brace and whatever the array held: the reply lists the friends only
when there are none, and the array happens to hold an empty list (`friend_list_iff`).
-/

namespace SpiderChat

open Lib Handler

/-! ### The array -/

/-- What a row adds to the text: the pointer and a comma. -/
def rowWidth (row : MysqlRow) : Nat := (fmtPointer (row.col 0)).length + 1

theorem length_fmtPointer_le (c : Option Column) : (fmtPointer c).length ≤ 11 := by
  cases c with
  | none => exact length_fmtD_le 0
  | some c => exact length_fmtD_le c.addr

theorem fmtPointer_ne_zero (c : Option Column) : ∀ b ∈ fmtPointer c, b ≠ 0 := by
  intro b hb
  cases c with
  | none =>
      have hprint : b ∈ fmtD 0 := hb
      exact ne_zero_of_mem_decInt hprint
  | some c =>
      have hprint : b ∈ fmtD c.addr := hb
      exact ne_zero_of_mem_decInt hprint

variable {buf : Bytes} {off : Nat} {row : MysqlRow} {rows : List MysqlRow}

/-- One `strncpy` of the loop: it writes 210 bytes from the end of the text. -/
theorem strncpy_end (hzero : 0 ∈ buf) (hoff : off ≤ (cstr buf).length) (src : Bytes)
    (hsrc : (cstr src).length < 210) :
    ∃ len, strlen buf off = some len ∧
      ((buf.length < (cstr buf).length + 210 ∧ strncpy buf (off + len) src 210 = none) ∨
        (cstr buf).length + 210 ≤ buf.length ∧ ∃ buf', strncpy buf (off + len) src 210 = some buf' ∧
          buf'.length = buf.length ∧ cstr buf' = cstr buf ++ cstr src ∧ 0 ∈ buf') := by
  refine ⟨_, strlen_of_zero_mem hzero hoff, ?_⟩
  have hend : off + ((cstr buf).length - off) = (cstr buf).length := by omega
  cases hbuf : strncpy buf (off + ((cstr buf).length - off)) src 210 with
  | none =>
      rw [hend] at hbuf
      exact .inl ⟨strncpy_eq_none_iff.mp hbuf, rfl⟩
  | some buf' =>
      have hroom := le_of_strncpy hbuf
      rw [hend] at hroom
      obtain ⟨-, htext⟩ := strncpy_append hoff (strlen_of_zero_mem hzero hoff) hsrc hbuf
      refine .inr ⟨hroom, buf', rfl, length_strncpy hbuf, htext, zero_mem_of_length_cstr_lt ?_⟩
      rw [htext, List.length_append, length_strncpy hbuf]
      omega

/-- A round of the loop: the comma is written behind the pointer, with 210 bytes again. -/
theorem appendFriend_spec (hzero : 0 ∈ buf) (hoff : off ≤ (cstr buf).length) (row : MysqlRow) :
    (buf.length < (cstr buf).length + rowWidth row + 209 ∧ appendFriend buf off row = none) ∨
    ∃ buf' off', appendFriend buf off row = some (buf', off') ∧ buf'.length = buf.length ∧
      0 ∈ buf' ∧ off' ≤ (cstr buf').length ∧
      (cstr buf').length = (cstr buf).length + rowWidth row := by
  have hwidth := length_fmtPointer_le (row.col 0)
  have hprint : snprintf 21 (fmtPointer (row.col 0)) = fmtPointer (row.col 0) :=
    snprintf_of_lt (by omega)
  have htext : cstr (fmtPointer (row.col 0)) = fmtPointer (row.col 0) :=
    cstr_of_forall (fmtPointer_ne_zero _)
  have hcomma : (cstr (ascii ",")).length = 1 := rfl
  unfold rowWidth
  obtain ⟨len, hlen, ⟨hfull, hnone⟩ | ⟨hroom, buf₁, hbuf₁, hsize₁, htext₁, hzero₁⟩⟩ :=
    strncpy_end hzero hoff (fmtPointer (row.col 0)) (by rw [htext]; omega)
  · refine .inl ⟨by omega, ?_⟩
    simp only [appendFriend, hprint, hlen, hnone, bind, Option.bind_some, Option.bind_none]
  · rw [htext] at htext₁
    have hlength₁ := congrArg List.length htext₁
    rw [List.length_append] at hlength₁
    obtain ⟨len', hlen', ⟨hfull, hnone⟩ | ⟨-, buf₂, hbuf₂, hsize₂, htext₂, hzero₂⟩⟩ :=
      strncpy_end hzero₁ (by omega : off ≤ (cstr buf₁).length) (ascii ",") (by omega)
    · refine .inl ⟨by omega, ?_⟩
      simp only [appendFriend, hprint, hlen, hbuf₁, hlen', hnone, bind, Option.bind_some,
        Option.bind_none]
    · have hlength₂ := congrArg List.length htext₂
      rw [List.length_append] at hlength₂
      obtain ⟨hend, -⟩ := strncpy_append (by omega) hlen' (by omega) hbuf₂
      refine .inr ⟨buf₂, off + len', ?_, hsize₂.trans hsize₁, hzero₂, by omega, by omega⟩
      simp only [appendFriend, hprint, hlen, hbuf₁, hlen', hbuf₂, bind, Option.bind_some]

/-- The loop stays in the array exactly when the text in front of the last `strncpy` leaves
room for it. -/
theorem appendFriends_isSome_iff (hzero : 0 ∈ buf) (hoff : off ≤ (cstr buf).length)
    (rows : List MysqlRow) :
    (appendFriends buf off rows).isSome = true ↔
      (cstr buf).length + (rows.map rowWidth).sum + 210 ≤ buf.length := by
  induction rows generalizing buf off with
  | nil =>
      have hbrace : (cstr (ascii "\x7d")).length < 210 := by decide
      obtain ⟨len, hlen, ⟨hfull, hnone⟩ | ⟨hroom, buf₁, hbuf₁, -⟩⟩ :=
        strncpy_end hzero hoff _ hbrace
      · have hlist : appendFriends buf off [] = none := by
          simp only [appendFriends, hlen, hnone, bind, Option.bind_some]
        rw [hlist, List.map_nil, List.sum_nil]
        exact iff_of_false Bool.false_ne_true (by omega)
      · have hlist : appendFriends buf off [] = some buf₁ := by
          simp only [appendFriends, hlen, hbuf₁, bind, Option.bind_some]
        rw [hlist, List.map_nil, List.sum_nil]
        exact iff_of_true rfl hroom
  | cons row rows ih =>
      rw [List.map_cons, List.sum_cons]
      rcases appendFriend_spec hzero hoff row with ⟨hfull, hnone⟩ |
        ⟨buf', off', hrow, hsize, hzero', hoff', hlength⟩
      · have hlist : appendFriends buf off (row :: rows) = none := by
          simp only [appendFriends, hnone, bind, Option.bind_none]
        rw [hlist]
        exact iff_of_false Bool.false_ne_true (by omega)
      · have hlist : appendFriends buf off (row :: rows) = appendFriends buf' off' rows := by
          simp only [appendFriends, hrow, bind, Option.bind_some]
        rw [hlist, ih hzero' hoff', hlength, hsize]
        omega

/-- Every byte that is written lies in the array: a `strncpy` that writes outside of it has no
answer, and the execution is stuck. -/
def StaysInArray (x : Option (Int32 × Bytes)) : Prop := x ≠ none

/-- The texts of the rows that are fetched leave room for the last `strncpy`. -/
def RowsFit (es : List HandlerEvent) : Prop :=
  ∀ conn sql rows, ⟨.getRows conn sql, some rows⟩ ∈ es → (rows.map rowWidth).sum ≤ 302

/-- **When every byte is written inside of the array**, from an array whose first byte is
zero: when the printed rows have 302 bytes at most. -/
theorem friend_array_iff {uid : Int64} {friend : Bytes} {es : List HandlerEvent}
    {x : Option (Int32 × Bytes)} (hsize : friend.length = 512) (hempty : friend.head? = some 0)
    (h : (modFriendGetFriendList uid friend).Ends es x) : StaysInArray x ↔ RowsFit es := by
  unfold StaysInArray
  have hzero : 0 ∈ friend := List.mem_of_head? hempty
  have htext : cstr friend = [] := by
    obtain ⟨l, rfl⟩ : ∃ l, friend = 0 :: l := ⟨_, List.eq_cons_of_mem_head? hempty⟩
    rfl
  rcases ends_modFriendGetFriendList h with ⟨hnone, rfl⟩ | ⟨conn, rows, rfl, rfl⟩
  · exact iff_of_true nofun fun conn sql rows hrows => absurd hrows (hnone conn sql rows)
  · have hfit : RowsFit [⟨.getConnect, some conn⟩,
        ⟨.getRows conn (snprintf 150 (friendsSql uid)), some rows⟩] ↔
        (rows.map rowWidth).sum ≤ 302 := by
      constructor
      · intro hfit
        exact hfit conn (snprintf 150 (friendsSql uid)) rows (by simp)
      · intro hsum conn' sql rows' hrows
        obtain rfl := eq_of_mem_getRows [⟨.getConnect, some conn⟩] (by simp) (by simp) hrows
        exact hsum
    have hroom := appendFriends_isSome_iff hzero (Nat.zero_le _) rows
    rw [htext, hsize] at hroom
    rw [hfit, ne_eq, Option.map_eq_none_iff, ← ne_eq, ← Option.isSome_iff_ne_none, hroom]
    show 0 + (rows.map rowWidth).sum + 210 ≤ 512 ↔ _
    omega

/-- The execution with these rows. -/
theorem ends_fetched (uid : Int64) (friend : Bytes) (conn : Addr) (rows : List MysqlRow) :
    (modFriendGetFriendList uid friend).Ends
      [⟨.getConnect, some conn⟩, ⟨.getRows conn (snprintf 150 (friendsSql uid)), some rows⟩]
      ((appendFriends friend 0 rows).map fun list => (_HANDLE_SUCCESSFUL, list)) := by
  refine (ends_ask_bind rfl).mpr ⟨some conn, _, rfl, ?_⟩
  refine (ends_ask_bind rfl).mpr ⟨some rows, [], rfl, ?_⟩
  cases hlist : appendFriends friend 0 rows with
  | none =>
      simp only [hlist, ofOption_none]
      exact Prog.ends_bind.mpr (.inl ⟨ends_undefined.mpr ⟨rfl, rfl⟩, rfl⟩)
  | some list =>
      simp only [hlist, ofOption_some, Prog.pure_bind]
      exact Prog.ends_pure.mpr ⟨rfl, rfl⟩

/-- A friend whose column is at an address with the low 32 bits -2147483648. -/
def farRow : MysqlRow := [some ⟨2147483648, ascii "2"⟩]

/-- The calls for a user with 26 such friends. -/
def manyCalls : List HandlerEvent :=
  [⟨.getConnect, some 7⟩,
    ⟨.getRows 7 (snprintf 150 (friendsSql 1)), some (List.replicate 26 farRow)⟩]

theorem ends_manyCalls :
    (modFriendGetFriendList 1 (List.replicate 512 0)).Ends manyCalls none := by
  have hlist : appendFriends (List.replicate 512 0) 0 (List.replicate 26 farRow) = none := by
    have hwidth : rowWidth farRow = 12 := by decide
    have htext : cstr (List.replicate 512 0) = [] := rfl
    have hzero : 0 ∈ List.replicate 512 (0 : UInt8) := List.mem_replicate.mpr ⟨by decide, rfl⟩
    have hroom := appendFriends_isSome_iff hzero (Nat.zero_le _) (List.replicate 26 farRow)
    rw [htext, List.map_replicate, hwidth, List.sum_replicate, List.length_replicate] at hroom
    exact Option.not_isSome_iff_eq_none.mp fun hsome => absurd (hroom.mp hsome) (by decide)
  have hends := ends_fetched 1 (List.replicate 512 0) 7 (List.replicate 26 farRow)
  rwa [hlist] at hends

/-- The twenty-sixth pointer is written past the end of the array. -/
theorem friends_leave_array :
    (modFriendGetFriendList 1 (List.replicate 512 0)).Ends manyCalls none ∧
      ¬ StaysInArray none :=
  ⟨ends_manyCalls, fun hne => hne rfl⟩

/-- The calls for a user with one such friend less. -/
def fullCalls : List HandlerEvent :=
  [⟨.getConnect, some 7⟩,
    ⟨.getRows 7 (snprintf 150 (friendsSql 1)), some (List.replicate 25 farRow)⟩]

/-- Twenty-five pointers fit. -/
theorem friend_array_iff_full : ∃ x,
    (modFriendGetFriendList 1 (List.replicate 512 0)).Ends fullCalls x ∧ StaysInArray x := by
  have hends := ends_fetched 1 (List.replicate 512 0) 7 (List.replicate 25 farRow)
  refine ⟨_, hends, (friend_array_iff List.length_replicate rfl hends).mpr ?_⟩
  intro conn sql rows hrows
  obtain rfl := eq_of_mem_getRows [⟨.getConnect, some 7⟩] (by simp) (by simp) hrows
  decide

/-! ### The reply -/

/-- The value is the friend's id. -/
def IsFuid (v : Json) (row : MysqlRow) : Prop :=
  ∃ c n, row.col 0 = some c ∧ c.text = decInt n ∧ v = .int n

/-- A JSON object with `ret` 1 and the friends of the rows in `list`, in their order. -/
def ListsFriends (rows : List MysqlRow) (body : Bytes) : Prop :=
  ∃ ms vs, Json.parse body = some (.obj ms) ∧ ms.lookup (ascii "ret") = some (.int 1) ∧
    ms.lookup (ascii "list") = some (.arr vs) ∧ List.Forall₂ IsFuid vs rows

/-- The friends that are fetched are listed in the reply. -/
def FriendsReplied (task : Task) (es : List HandlerEvent) : Prop :=
  ∀ conn sql rows, ⟨.getRows conn sql, some rows⟩ ∈ es →
    ∃ e ∈ es, ∃ body, SendsFrame task.fd task.cmd body e ∧ ListsFriends rows body

/-- No friend is fetched, and the array happens to begin with an empty JSON array, behind which
stands what the braces of the reply complete to an object. -/
def EmptyListLeft (es : List HandlerEvent) : Prop :=
  ∀ (friend : { b : Bytes // b.length = 512 }) conn sql rows, ⟨.stackArray 512, friend⟩ ∈ es →
    ⟨.getRows conn sql, some rows⟩ ∈ es →
      rows = [] ∧ Json.opensEmptyArray (cstr friend.1) = true ∧ Completes (cstr friend.1)

/-- Without a friend, the list is the value with which the array begins. -/
theorem listsFriends_nil_iff (text : Bytes) :
    ListsFriends [] (ascii "\x7b\"ret\":1,\"list\":" ++ (text ++ [125]) ++ ascii "\x7d") ↔
      Json.opensEmptyArray text = true ∧ Completes text := by
  have hbody : ascii "\x7b\"ret\":1,\"list\":" ++ (text ++ [125]) ++ ascii "\x7d" =
      ascii "\x7b\"ret\":1,\"list\":" ++ text ++ ascii "\x7d\x7d" := by
    simp only [List.append_assoc]
    rfl
  have hmembers : ascii "\x7b\"ret\":1,\"list\":" ++ text ++ ascii "\x7d\x7d" =
      123 :: 34 :: (ascii "ret" ++ 34 :: 58 :: (decInt 1 ++ 44 :: 34 :: (ascii "list" ++
        34 :: 58 :: (text ++ 125 :: [125])))) := by
    rw [List.append_assoc]
    rfl
  -- the second member is the value behind `list`
  have hlist : ∀ ms, Json.parse (ascii "\x7b\"ret\":1,\"list\":" ++ text ++ ascii "\x7d\x7d") =
      some (.obj ms) → ms.lookup (ascii "ret") = some (.int 1) ∧
        ∃ v, ms.lookup (ascii "list") = some v ∧
          (v = .arr [] ↔ Json.opensEmptyArray text = true) := by
    intro ms hparse
    rw [hmembers] at hparse
    obtain ⟨n, v, r, ms', hvalue, rfl⟩ :=
      Json.parse_second (by decide) (.int 1) (by decide) hparse
    refine ⟨rfl, v, rfl, ?_⟩
    rw [Json.value_eq_empty_iff hvalue, Json.opensEmptyArray_append_brace]
  rw [hbody]
  constructor
  · intro h
    obtain ⟨ms, vs, hparse, -, hvs, hfuids⟩ := h
    obtain ⟨-, v, hv, hempty⟩ := hlist ms hparse
    obtain rfl := List.forall₂_nil_right_iff.mp hfuids
    rw [hv] at hvs
    exact ⟨hempty.mp (Option.some.inj hvs), ms, hparse⟩
  · intro h
    obtain ⟨hopens, ms, hparse⟩ := h
    obtain ⟨hret, v, hv, hempty⟩ := hlist ms hparse
    obtain rfl := hempty.mpr hopens
    exact ⟨ms, [], hparse, hret, hv, .nil⟩

/-- The text of the reply, and the friends in it. -/
theorem listsFriends_iff {friend list : Bytes} (hsize : friend.length = 512)
    (happend : appendFriends friend 0 rows = some list) :
    ListsFriends rows (cstr (snprintf 600 (Message.text (.friends _HANDLE_SUCCESSFUL list)))) ↔
      rows = [] ∧ Json.opensEmptyArray (cstr friend) = true ∧ Completes (cstr friend) := by
  rw [cstr_listText ((length_appendFriends happend).trans hsize)]
  rcases cstr_appendFriends_cases happend with ⟨rfl, -, htext⟩ | ⟨hne, t, htext⟩
  · rw [htext, listsFriends_nil_iff]
    exact (and_iff_right rfl).symm
  · rw [htext]
    refine iff_of_false (fun hlists => ?_) fun hfits => hne hfits.1
    obtain ⟨ms, vs, hparse, hret, -⟩ := hlists
    exact not_isReply_list_cons _HANDLE_SUCCESSFUL t ⟨ms, hparse, hret⟩

/-- **When the reply lists the friends**: when there are none, and the array happens to hold
an empty list already. -/
theorem friend_list_iff {task : Task} {es : List HandlerEvent}
    (h : (handleGetFriendList task).Ends es (some ())) :
    FriendsReplied task es ↔ EmptyListLeft es := by
  obtain ⟨friend, asker, es₁, ⟨-, hnone, -⟩ |
    ⟨retcode, list, client, bytes, code, hruns, hframe, rfl, -⟩⟩ := ends_handleGetFriendList h
  · cases hnone
  · rcases ends_modFriendGetFriendList (Prog.ends_some.mpr hruns) with
      ⟨hnone, -⟩ | ⟨conn, rows, rfl, hret⟩
    · -- nothing is fetched
      have hno : ∀ conn sql rows, ⟨.getRows conn sql, some rows⟩ ∉ (⟨.stackArray 512, friend⟩ ::
          ⟨.readClient task.client, asker⟩ :: (es₁ ++ [⟨.readClient task.client, client⟩,
            ⟨.send task.fd bytes, code⟩]) : List HandlerEvent) := by
        intro conn sql rows hrows
        simp only [List.mem_cons, List.mem_append, Sigma.mk.injEq, reduceCtorEq, false_and,
          false_or, List.not_mem_nil, or_false] at hrows
        exact hnone conn sql rows hrows
      exact iff_of_true (fun conn sql rows hrows => absurd hrows (hno conn sql rows))
        fun friend' conn sql rows _ hrows => absurd hrows (hno conn sql rows)
    · obtain ⟨list', happend, heq⟩ := Option.map_eq_some_iff.mp hret.symm
      obtain ⟨rfl, rfl⟩ := Prod.mk.inj heq
      rw [List.cons_append, List.cons_append, List.nil_append, EmptyListLeft,
        forall_fetched_iff (by simp), ← listsFriends_iff friend.2 happend]
      constructor
      · intro hreplied
        obtain ⟨e, he, body, hsent, hlists⟩ := hreplied conn
          (snprintf 150 (friendsSql asker.uid)) rows (by simp)
        have hsend : e = ⟨.send task.fd bytes, code⟩ := by
          obtain ⟨bytes', code', head, rfl, -⟩ := hsent
          simpa using he
        subst hsend
        exact hsent.body_eq (sendsFrame_of_frame hframe task.fd code) ▸ hlists
      · intro hlists conn' sql' rows' hrows
        obtain rfl := eq_of_mem_getRows [⟨.stackArray 512, friend⟩,
          ⟨.readClient task.client, asker⟩, ⟨.getConnect, some conn⟩] (by simp) (by simp) hrows
        exact ⟨_, by simp, _, sendsFrame_of_frame hframe task.fd code, hlists⟩

/-- An array with an empty list, and with what the braces complete to an object. -/
def emptyListArray : { b : Bytes // b.length = 512 } :=
  ⟨ascii "[],\"a\":\x7b" ++ List.replicate 504 0, by
    rw [List.length_append, List.length_replicate]
    rfl⟩

/-- The calls of a request for the friends of user 1, who has none. -/
def emptyListCalls : List HandlerEvent :=
  [⟨.stackArray 512, emptyListArray⟩, ⟨.readClient 0, asker⟩, ⟨.getConnect, some 7⟩,
    ⟨.getRows 7 (snprintf 150 (friendsSql 1)), some []⟩, ⟨.readClient 0, asker⟩,
    ⟨.send 5 ((frame HANDLE_GET_FRIEND_LIST 1000
      (ascii "\x7b\"ret\":1,\"list\":[],\"a\":\x7b\x7d\x7d")).getD []), 41⟩]

theorem friend_list_iff_empty :
    FriendsReplied ⟨5, 0, HANDLE_GET_FRIEND_LIST, []⟩ emptyListCalls := by
  have hends : (handleGetFriendList ⟨5, 0, HANDLE_GET_FRIEND_LIST, []⟩).Ends emptyListCalls
      (some ()) := Prog.ends_some.mpr (Prog.replay_eq_some.mp (by decide +kernel))
  refine (friend_list_iff hends).mpr fun friend conn sql rows hfriend hrows => ?_
  obtain rfl : friend = emptyListArray := by simpa [emptyListCalls] using hfriend
  obtain rfl := eq_of_mem_getRows [⟨.stackArray 512, emptyListArray⟩, ⟨.readClient 0, asker⟩,
    ⟨.getConnect, some 7⟩] (by simp) (by simp) hrows
  exact ⟨rfl, by decide, by decide +kernel⟩
/-- A friend with the id 2, whose column is at the address 7. -/
def friendRow : MysqlRow := [some ⟨7, ascii "2"⟩]

/-- An array of zero bytes. -/
def zeroArray : { b : Bytes // b.length = 512 } := ⟨List.replicate 512 0, List.length_replicate⟩

/-- The text that is sent in the place of a list. -/
def oneFriendBody : Bytes := ascii "\x7b\"ret\":1,\"list\":7,\x7d\x7d"

/-- The calls of a request for the friends of user 1, who has one. -/
def oneFriendCalls : List HandlerEvent :=
  [⟨.stackArray 512, zeroArray⟩, ⟨.readClient 0, asker⟩, ⟨.getConnect, some 7⟩,
    ⟨.getRows 7 (snprintf 150 (friendsSql 1)), some [friendRow]⟩,
    ⟨.readClient 0, asker⟩,
    ⟨.send 5 ((frame HANDLE_GET_FRIEND_LIST 1000 oneFriendBody).getD []), 36⟩]

theorem ends_oneFriendCalls :
    (handleGetFriendList ⟨5, 0, HANDLE_GET_FRIEND_LIST, []⟩).Ends oneFriendCalls (some ()) :=
  Prog.ends_some.mpr (Prog.replay_eq_some.mp (by decide +kernel))

/-- The reply is no JSON text, with the address of a column in the place of the list. -/
theorem one_friend_not_listed :
    (handleGetFriendList ⟨5, 0, HANDLE_GET_FRIEND_LIST, []⟩).Ends oneFriendCalls (some ()) ∧
      ¬ FriendsReplied ⟨5, 0, HANDLE_GET_FRIEND_LIST, []⟩ oneFriendCalls := by
  refine ⟨ends_oneFriendCalls, fun hreplied => ?_⟩
  obtain ⟨e, he, body, hsent, ms, vs, hparse, -⟩ :=
    hreplied 7 (snprintf 150 (friendsSql 1)) [friendRow] (by simp [oneFriendCalls])
  have hsend : e = ⟨.send 5 ((frame HANDLE_GET_FRIEND_LIST 1000 oneFriendBody).getD []), 36⟩ := by
    obtain ⟨bytes, code, head, rfl, -⟩ := hsent
    simpa [oneFriendCalls] using he
  obtain ⟨bytes, hframe⟩ : ∃ bytes, frame HANDLE_GET_FRIEND_LIST 1000 oneFriendBody = some bytes :=
    Option.isSome_iff_exists.mp (by decide)
  rw [hframe] at hsend
  subst hsend
  have hbody := hsent.body_eq (sendsFrame_of_frame hframe 5 36)
  have hnone : (Json.parse (cstr oneFriendBody)).isNone = true := by decide +kernel
  rw [← hbody, hparse] at hnone
  cases hnone

end SpiderChat
