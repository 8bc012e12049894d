import SpiderChat.ModChat

/-!
# SpiderChat.ChatFormat

**What `mod_chat_send_message` accepts.** The names of the first two members are read where
they would stand for a message in the right format, at the offsets 0 and 8 of the names, as C
strings; neither the number of the members nor the length of a name is looked at.
`chat_format_iff` tells for which payloads exactly the format is accepted.
-/

namespace SpiderChat

open Lib Handler

/-- A value that can be a message: a string of less than 1024 bytes. -/
def msgOf : Json → Option Bytes
  | .str s => if s.length < 1024 then some s else none
  | _ => none

/-- The recipient and the message of a payload in the format: an object whose first member
is `recv_id`, an integer, and whose second member is `msg`. -/
def chatFormat : Option Json → Option (Int64 × Bytes)
  | some (.obj ((name, .int recv_uid) :: (name', msg) :: _)) =>
      if name = ascii "recv_id" ∧ name' = ascii "msg" then
        (msgOf msg).map fun s => (Int64.ofInt recv_uid, s)
      else none
  | _ => none

/-- A payload in the format is delivered; for every other one nothing is called, and the
error code is returned. -/
def FormatKept (parse : Bytes → Option Json) (send_uid : Int64) (data : Bytes)
    (es : List HandlerEvent) (x : Option Int32) : Prop :=
  (∀ recv_uid msg, chatFormat (parse (cstr data)) = some (recv_uid, msg) →
    (deliver send_uid recv_uid msg).Ends es x ∧ x ≠ none) ∧
  (chatFormat (parse (cstr data)) = none →
    es = [] ∧ x = some _ERROR_MOD_CHAT_PARSE_DATA_ERROR)

/-- The names and values at the places that are read are those of the first two members. -/
def NamesRead : List (Bytes × Json) → Prop
  | [] => False
  | (name, .int _) :: ms =>
      (name = ascii "recv_id" → ∃ m ms', ms = m :: ms' ∧
        (cstr m.1 = ascii "msg" → msgOf m.2 ≠ none → m.1 = ascii "msg")) ∧
      -- behind a zero byte in the first name there can stand another `msg`
      ∀ t, name = ascii "recv_id" ++ 0 :: t → cstr t = ascii "msg" →
        ∃ m ms', ms = m :: ms' ∧ msgOf m.2 = none
  | _ :: _ => True

variable {parse : Bytes → Option Json} {send_uid : Int64} {data : Bytes}
  {es : List HandlerEvent} {x : Option Int32} {name : Bytes} {n : Int} {v : Json}
  {ms : List (Bytes × Json)}

/-! ### The members that are read -/

/-- The first member is no recipient. -/
theorem chatMembers_of_ne (h : ∀ n, v = .int n → cstr name ≠ ascii "recv_id") :
    chatMembers ((name, v) :: ms) = some none := by
  have hvalue : (allocsOfMembers ((name, v) :: ms))[0]? = some v := getElem?_allocs_append v _
  simp only [chatMembers, nameAt_zero, hvalue, bind, Option.bind_some]
  split
  · rename_i n hname
    exact absurd (of_decide_eq_true hname) (h n rfl)
  · rfl

/-- The first member is a recipient: another name is read, and the next value. -/
theorem chatMembers_of_recv_id (h : cstr name = ascii "recv_id") :
    chatMembers ((name, .int n) :: ms) = (nameAt ((name, .int n) :: ms) 8).bind fun key =>
      if key = ascii "msg" then
        ms.head?.map fun m => (msgOf m.2).map fun s => (Int64.ofInt n, s)
      else some none := by
  have hvalue : (allocsOfMembers ((name, .int n) :: ms))[0]? = some (.int n) := rfl
  have hnext : (allocsOfMembers ((name, .int n) :: ms))[1]? = ms.head?.map Prod.snd := by
    rw [allocsOfMembers_cons_int, List.getElem?_cons_succ]
    cases ms with
    | nil => rfl
    | cons m ms => exact getElem?_allocs_append m.2 _
  simp only [chatMembers, nameAt_zero, hvalue, hnext, h, decide_true, bind, Option.bind_some]
  congr 1
  funext key
  congr 1
  cases ms with
  | nil => rfl
  | cons m ms =>
      obtain ⟨name', v⟩ := m
      cases v with
      | str s =>
          simp only [List.head?_cons, Option.map_some, Option.bind_some, msgOf]
          split <;> rfl
      | _ => rfl

/-- The name at the offset 8, when the first name is `recv_id`. -/
theorem nameAt_recv_id (v : Json) (ms : List (Bytes × Json)) :
    nameAt ((ascii "recv_id", v) :: ms) 8 = ms.head?.map fun m => cstr m.1 := by
  rw [nameAt_cons v ms (Nat.le_refl 8)]
  cases ms with
  | nil => rfl
  | cons m ms => exact nameAt_zero m.1 m.2 ms

/-- The name at the offset 8, when the first name goes on behind `recv_id`. -/
theorem nameAt_recv_id_zero (t : Bytes) (v : Json) (ms : List (Bytes × Json)) :
    nameAt ((ascii "recv_id" ++ 0 :: t, v) :: ms) 8 = some (cstr t) := by
  have hdrop : (namesOf ((ascii "recv_id" ++ 0 :: t, v) :: ms)).drop 8 = t ++ 0 :: namesOf ms := by
    have hlen : (ascii "recv_id" ++ [0]).length = 8 := rfl
    rw [namesOf_cons, List.append_assoc, List.cons_append, List.append_cons, List.drop_left' hlen]
  have hlt : 8 < (namesOf ((ascii "recv_id" ++ 0 :: t, v) :: ms)).length := by
    have hlen := congrArg List.length hdrop
    rw [List.length_drop, List.length_append, List.length_cons] at hlen
    omega
  rw [nameAt, if_pos hlt, hdrop, cstr_append_zero]

theorem chatFormat_cons_int (name : Bytes) (n : Int) (ms : List (Bytes × Json)) :
    chatFormat (some (.obj ((name, .int n) :: ms))) = ms.head?.bind fun m =>
      if name = ascii "recv_id" ∧ m.1 = ascii "msg" then
        (msgOf m.2).map fun s => (Int64.ofInt n, s)
      else none := by
  cases ms with
  | nil => rfl
  | cons m ms => rfl

theorem ne_append_zero (l t : Bytes) : l ≠ l ++ 0 :: t := by
  intro heq
  have hlen := congrArg List.length heq
  rw [List.length_append, List.length_cons] at hlen
  omega

theorem namesRead_recv_id : NamesRead ((ascii "recv_id", .int n) :: ms) ↔ ∃ m ms', ms = m :: ms' ∧
    (cstr m.1 = ascii "msg" → msgOf m.2 ≠ none → m.1 = ascii "msg") := by
  constructor
  · intro h
    exact h.1 rfl
  · intro h
    exact ⟨fun _ => h, fun t ht => absurd ht (ne_append_zero _ t)⟩

theorem namesRead_recv_id_zero {t : Bytes} :
    NamesRead ((ascii "recv_id" ++ 0 :: t, .int n) :: ms) ↔
      (cstr t = ascii "msg" → ∃ m ms', ms = m :: ms' ∧ msgOf m.2 = none) := by
  constructor
  · intro h
    exact h.2 t rfl
  · intro h
    refine ⟨fun ht => absurd ht.symm (ne_append_zero _ t), fun t' ht => ?_⟩
    obtain rfl : t = t' := by simpa using ht
    exact h

/-- A first member that is no recipient decides alone. -/
theorem namesRead_of_ne (h : ∀ n, v = .int n → cstr name ≠ ascii "recv_id") :
    NamesRead ((name, v) :: ms) := by
  cases v with
  | int n =>
      have hname : ∀ u, name = ascii "recv_id" ++ u → cstr u ≠ [] := by
        intro u hu hnil
        have hcstr : cstr name = ascii "recv_id" := by
          rw [hu, cstr_append (by decide), hnil, List.append_nil]
        exact h n rfl hcstr
      refine ⟨fun heq => absurd rfl (hname [] (by simpa using heq)), fun t ht => ?_⟩
      exact absurd rfl (hname (0 :: t) ht)
  | _ => trivial

/-- The members are read as the format has them exactly when the names that are read are
those of the members. -/
theorem chatMembers_eq_iff :
    chatMembers ms = some (chatFormat (some (.obj ms))) ↔ NamesRead ms := by
  cases ms with
  | nil => exact iff_of_false nofun id
  | cons m ms =>
      obtain ⟨name, v⟩ := m
      by_cases hrecv : ∃ n, v = .int n ∧ cstr name = ascii "recv_id"
      · obtain ⟨n, rfl, hname⟩ := hrecv
        rw [chatMembers_of_recv_id hname, chatFormat_cons_int]
        rcases eq_of_cstr hname with rfl | ⟨t, rfl⟩
        · rw [nameAt_recv_id, namesRead_recv_id]
          cases ms with
          | nil => exact iff_of_false nofun nofun
          | cons m ms =>
              simp only [List.head?_cons, Option.map_some, Option.bind_some]
              by_cases hmsg : m.1 = ascii "msg"
              · have hcstr : cstr (ascii "msg") = ascii "msg" := rfl
                simp [hmsg, hcstr]
              · cases hval : msgOf m.2 with
                | none => simp [hmsg, hval]
                | some s => simp [hmsg, hval]
        · have hne := (ne_append_zero (ascii "recv_id") t).symm
          rw [nameAt_recv_id_zero, namesRead_recv_id_zero]
          cases ms with
          | nil => simp [hne]
          | cons m ms =>
              cases hval : msgOf m.2 with
              | none => simp [hne, hval]
              | some s => simp [hne, hval]
      · have hne : ∀ n, v = .int n → cstr name ≠ ascii "recv_id" := by
          intro n hv hname
          exact hrecv ⟨n, hv, hname⟩
        refine iff_of_true ?_ (namesRead_of_ne hne)
        rw [chatMembers_of_ne hne]
        cases v with
        | int n =>
            have hname : name ≠ ascii "recv_id" := by
              rintro rfl
              exact hne n rfl rfl
            rw [chatFormat_cons_int]
            cases ms with
            | nil => rfl
            | cons m ms => simp [hname]
        | _ => rfl

/-- A payload in the format is accepted. -/
theorem chatMembers_of_chatFormat {recv_uid : Int64} {msg : Bytes}
    (h : chatFormat (some (.obj ms)) = some (recv_uid, msg)) :
    chatMembers ms = some (some (recv_uid, msg)) := by
  rw [← h, chatMembers_eq_iff]
  unfold chatFormat at h
  split at h
  · rename_i name n name' v ms' heq
    cases heq
    split at h
    · rename_i hnames
      obtain ⟨rfl, rfl⟩ := hnames
      exact namesRead_recv_id.mpr ⟨_, _, rfl, fun _ _ => rfl⟩
    · cases h
  · cases h

theorem chatFormat_of_no_object {o : Option Json} (h : ∀ ms, o = some (.obj ms) → False) :
    chatFormat o = none := by
  unfold chatFormat
  split
  · rename_i ms
    exact (h _ rfl).elim
  · rfl

/-! ### The executions -/

/-- Some call is made for a message that is delivered. -/
theorem ne_nil_of_deliver {recv_uid : Int64} {msg : Bytes}
    (h : (deliver send_uid recv_uid msg).Ends es x) : es ≠ [] := by
  obtain ⟨found, es', rfl, -⟩ := (ends_ask_bind rfl).mp h
  exact List.cons_ne_nil _ _

/-- **When exactly the format is accepted**: when the members of the object are those whose
names and values are read. -/
theorem chat_format_iff (h : (modChatSendMessage parse send_uid data).Ends es x) :
    FormatKept parse send_uid data es x ↔
      ∀ ms, parse (cstr data) = some (.obj ms) → NamesRead ms := by
  unfold modChatSendMessage at h
  unfold FormatKept
  split at h
  · rename_i ms hms
    have hcond : (∀ ms', parse (cstr data) = some (.obj ms') → NamesRead ms') ↔ NamesRead ms := by
      simp [hms]
    rw [hcond, ← chatMembers_eq_iff, hms]
    cases hformat : chatFormat (some (.obj ms)) with
    | some p =>
        obtain ⟨recv_uid, msg⟩ := p
        have hmem := chatMembers_of_chatFormat hformat
        rw [hmem] at h ⊢
        refine iff_of_true ⟨fun recv_uid' msg' heq => ?_, nofun⟩ rfl
        cases heq
        refine ⟨h, ?_⟩
        rintro rfl
        exact defined_deliver send_uid recv_uid msg es h
    | none =>
        split at h
        · -- a name or a value is missing
          rename_i hmem
          obtain ⟨-, rfl⟩ := ends_undefined.mp h
          rw [hmem]
          refine iff_of_false (fun hkept => ?_) nofun
          cases (hkept.2 rfl).2
        · rename_i hmem
          rw [hmem]
          exact iff_of_true ⟨nofun, fun _ => Prog.ends_pure.mp h⟩ rfl
        · -- a message is taken from other members
          rename_i recv_uid msg hmem
          rw [hmem]
          exact iff_of_false (fun hkept => ne_nil_of_deliver h (hkept.2 rfl).1) nofun
  · rename_i hms
    refine iff_of_true ⟨fun recv_uid msg heq => ?_, fun _ => Prog.ends_pure.mp h⟩
      fun ms hobj => absurd hobj (hms ms)
    rw [chatFormat_of_no_object hms] at heq
    cases heq

/-- A message in the format. -/
def plainMessage : Bytes := ascii "\x7b\"recv_id\":2,\"msg\":\"hi\"\x7d"

/-- The calls for it, when its recipient is offline. -/
def plainCalls : List HandlerEvent :=
  [⟨.findClientByUid 2, none⟩, ⟨.getConnect, some 7⟩,
    ⟨.querySql 7 (snprintf 2048 (insertSql 2 1 (ascii "hi"))), true⟩, ⟨.destoryConnect 7, ()⟩]

theorem chat_format_iff_plain :
    FormatKept Json.parse 1 plainMessage plainCalls (some _HANDLE_SUCCESSFUL) := by
  have haccepts : accepts Json.parse plainMessage = some (2, ascii "hi") := by decide +kernel
  have hends : (modChatSendMessage Json.parse 1 plainMessage).Ends plainCalls
      (some _HANDLE_SUCCESSFUL) := by
    rw [modChatSendMessage_of_accepts Json.parse haccepts, Prog.ends_some]
    exact runs_deliver_offline 1 2 (ascii "hi") 7 true
  have hformat : chatFormat (Json.parse (cstr plainMessage)) = some (2, ascii "hi") := by
    decide +kernel
  refine (chat_format_iff hends).mpr fun ms hms => chatMembers_eq_iff.mp ?_
  rw [hms] at hformat
  rw [hformat]
  exact chatMembers_of_chatFormat hformat

/-! ### Payloads outside the format -/

/-- The empty object. -/
def emptyObject : Bytes := ascii "{}"

theorem ends_emptyObject : (modChatSendMessage Json.parse 1 emptyObject).Ends [] none := by
  have hparse : Json.parse (cstr emptyObject) = some (.obj []) := rfl
  rw [modChatSendMessage, hparse]
  exact ends_undefined.mpr ⟨rfl, rfl⟩

/-- An object without members is not rejected: a name is read past the names. -/
theorem empty_object_undefined :
    (modChatSendMessage Json.parse 1 emptyObject).Ends [] none ∧
      ¬ FormatKept Json.parse 1 emptyObject [] none := by
  have hformat : chatFormat (Json.parse (cstr emptyObject)) = none := rfl
  refine ⟨ends_emptyObject, fun hkept => ?_⟩
  cases (hkept.2 hformat).2

end SpiderChat
