import SpiderChat.ChatPayload
import SpiderChat.ChatSql
import SpiderChat.ModFriend

/-!
# SpiderChat.Uids

**How uids are printed.** The payload of a message, the statement that stores it and the
query for a user's friends print uids with `%d`, which keeps the low 32 bits; the query for
stored messages prints its uid with `%ld`. `uids_survive_iff` tells which uids come through.
-/

namespace SpiderChat

open Lib Handler

/-- The texts into which a uid is printed. -/
inductive Place
  /-- the sender, in the payload for a recipient who is online -/
  | online (msg : Bytes) (now : Int64)
  /-- the column `uid` of a message that is stored -/
  | recipient (send_uid : Int64) (msg : { m : Bytes // m.length < 1024 })
  /-- its column `send_uid` -/
  | sender (recv_uid : Int64) (msg : { m : Bytes // m.length < 1024 })
  /-- the query for the messages stored for a user -/
  | offline
  /-- the query for a user's friends -/
  | friends

namespace Place

/-- The text for the uid, as it is sent. -/
def text : Place → Int64 → Bytes
  | .online msg now, uid => snprintf 1048 (onlinePayload uid msg now)
  | .recipient send_uid msg, uid => snprintf 2048 (insertSql uid send_uid msg.1)
  | .sender recv_uid msg, uid => snprintf 2048 (insertSql recv_uid uid msg.1)
  | .offline, uid => snprintf 256 (selectSql uid)
  | .friends, uid => snprintf 150 (friendsSql uid)

/-- What stands in front of the uid. -/
def front : Place → Int64 → Bytes
  | .online _ _, _ => ascii "\x7b\"send_uid\":"
  | .recipient send_uid _, _ =>
      ascii "insert into " ++ offlineTable send_uid ++ ascii " ( uid , send_uid , msg ) values ( "
  | .sender recv_uid _, uid =>
      ascii "insert into " ++ offlineTable uid ++ ascii " ( uid , send_uid , msg ) values ( " ++
        fmtD recv_uid ++ ascii " , "
  | .offline, uid =>
      ascii "select id , send_uid , msg , time from " ++ offlineTable uid ++ ascii " where uid="
  | .friends, uid =>
      ascii "select fuid from " ++ getTableNameByInt2mod uid FRIENDS_TABLE_LEVEL 30 ++
        ascii " where uid="

/-- The number in the place of the uid, up to a blank or the end of the text, is `n`. -/
def Denotes (p : Place) (uid : Int64) (n : Int) : Prop :=
  p.front uid ++ (decInt n ++ [32]) <+: p.text uid ++ [32]

end Place

/-- The two uids come through: every text denotes the uid that it is for, the uid of a stored
message is the one that is queried for, and different uids do not get the same number. -/
def Survive (u v : Int64) : Prop :=
  (∀ p : Place, p.Denotes u u.toInt ∧ p.Denotes v v.toInt) ∧
  (∀ send_uid msg n, (Place.recipient send_uid msg).Denotes u n → Place.offline.Denotes u n) ∧
  (∀ send_uid msg n, (Place.recipient send_uid msg).Denotes v n → Place.offline.Denotes v n) ∧
  (u ≠ v → ∀ (p : Place) n, ¬ (p.Denotes u n ∧ p.Denotes v n))

namespace Place

/-- The number that is printed. -/
def printed : Place → Int64 → Int
  | .offline, uid => uid.toInt
  | _, uid => uid.toInt32.toInt

theorem text_eq (p : Place) (uid : Int64) :
    ∃ l, p.text uid ++ [32] = p.front uid ++ (decInt (p.printed uid) ++ 32 :: l) := by
  cases p with
  | online msg now =>
      refine ⟨44 :: 32 :: 34 :: (ascii "msg" ++ 34 :: 58 :: 34 ::
        ((cstr msg ++ 34 :: payloadBack now).take (1047 - (payloadFront uid).length) ++ [32])), ?_⟩
      rw [text, snprintf_onlinePayload, payloadFront, fmtD]
      simp only [List.append_assoc]
      rfl
  | recipient send_uid msg =>
      refine ⟨44 :: 32 :: (fmtD send_uid ++ (ascii " , " ++ (messageText msg.1 ++ [32]))), ?_⟩
      rw [text, snprintf_insertSql msg.2, insertSql_eq]
      simp only [front, List.append_assoc]
      rfl
  | sender recv_uid msg =>
      refine ⟨44 :: 32 :: (messageText msg.1 ++ [32]), ?_⟩
      rw [text, snprintf_insertSql msg.2, insertSql_eq]
      simp only [front, List.append_assoc]
      rfl
  | offline =>
      refine ⟨[32], ?_⟩
      have htable := length_offlineTable_le uid
      have hprint := length_fmtLd_le uid
      have hfits : snprintf 256 (selectSql uid) = selectSql uid := by
        refine snprintf_of_lt ?_
        simp only [selectSql, List.length_append]
        show 39 + _ + 11 + _ + 1 < 256
        omega
      rw [text, hfits]
      simp only [selectSql, front, List.append_assoc]
      rfl
  | friends =>
      refine ⟨[], ?_⟩
      have htable : (getTableNameByInt2mod uid FRIENDS_TABLE_LEVEL 30).length ≤ 29 :=
        length_snprintf_le 30 _
      have hprint := length_fmtD_le uid
      have hfits : snprintf 150 (friendsSql uid) = friendsSql uid := by
        refine snprintf_of_lt ?_
        simp only [friendsSql, List.length_append]
        show 17 + _ + 11 + _ < 150
        omega
      rw [text, hfits]
      simp only [friendsSql, front, List.append_assoc]
      rfl

/-- A text denotes the number that is printed, and no other one. -/
theorem denotes_iff (p : Place) (uid : Int64) (n : Int) :
    p.Denotes uid n ↔ n = p.printed uid := by
  obtain ⟨l, hl⟩ := p.text_eq uid
  rw [Denotes, hl, List.prefix_append_right_inj, decInt_blank_isPrefix]
  exact and_iff_left List.nil_prefix

end Place

/-- **Which uids come through**: those that fit 32 bits. -/
theorem uids_survive_iff (u v : Int64) : Survive u v ↔ Fits32 u ∧ Fits32 v := by
  constructor
  · intro h
    obtain ⟨hu, hv⟩ := h.1 .friends
    exact ⟨((Place.denotes_iff _ _ _).mp hu).symm, ((Place.denotes_iff _ _ _).mp hv).symm⟩
  · intro h
    obtain ⟨hu, hv⟩ := h
    have hprinted : ∀ (p : Place) (w : Int64), Fits32 w → p.printed w = w.toInt := by
      intro p w hw
      cases p with
      | offline => rfl
      | _ => exact hw
    refine ⟨fun p => ⟨?_, ?_⟩, fun send_uid msg n hn => ?_, fun send_uid msg n hn => ?_,
      fun hne p n hboth => hne ?_⟩
    · rw [Place.denotes_iff, hprinted p u hu]
    · rw [Place.denotes_iff, hprinted p v hv]
    · rw [Place.denotes_iff, hprinted _ u hu] at hn ⊢
      exact hn
    · rw [Place.denotes_iff, hprinted _ v hv] at hn ⊢
      exact hn
    · rw [Place.denotes_iff, Place.denotes_iff, hprinted p u hu, hprinted p v hv] at hboth
      exact Int64.toInt_inj.mp (hboth.1.symm.trans hboth.2)

/-- A message for the user 4294967297 is stored for user 1. -/
theorem long_uid_cut (send_uid : Int64) (msg : { m : Bytes // m.length < 1024 }) :
    (Place.recipient send_uid msg).Denotes 4294967297 1 :=
  (Place.denotes_iff _ _ _).mpr rfl

/-- The uids 4294967297 and 1 do not come through. -/
theorem long_uid_lost : ¬ Survive 4294967297 1 := by
  intro h
  have hprinted := (Place.denotes_iff .friends 4294967297 _).mp (h.1 .friends).1
  exact absurd hprinted (by decide)

end SpiderChat
