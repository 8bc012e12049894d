import SpiderChat.Lib.Text
import SpiderChat.Types

/-!
# SpiderChat.Shard

The tables over which the rows of a user are spread: `GET_TABLE` of `global.h` and
`getTableNameByInt2mod` of `spider_function.c`. C's `%` rounds towards zero, so the
number of a table has the sign of the id it is computed from.
-/

namespace SpiderChat

open Lib

/-- `%d` of a `long`: its low 32 bits as a signed number. -/
def fmtD (n : Int64) : Bytes := decInt n.toInt32.toInt

/-- `%ld`. -/
def fmtLd (n : Int64) : Bytes := decInt n.toInt

/-- `mod_table`. -/
def mod_table : List Bytes := [ascii "offline_msg", ascii "apply_msg", ascii "friends"]

/-- `GET_TABLE`: the number of the table in which the rows of `uid` are kept. -/
def getTable (level : Nat) (uid : Int64) : Int :=
  match level with
  | 0 => uid.toInt.tmod 10
  | 1 => uid.toInt.tmod 10
  | 2 => uid.toInt.tmod 100
  | _ => uid.toInt.tmod 100

/-- `getTableNameByInt2mod`. -/
def getTableNameByInt2mod (uid : Int64) (level len : Nat) : Bytes :=
  snprintf len (mod_table.getD level [] ++ ascii "_" ++ decInt (getTable level uid))

/-- The table of the offline messages of a user. -/
def offlineTable (uid : Int64) : Bytes := getTableNameByInt2mod uid OFFLINE_MSG_TABLE_LEVEL 30

/-- The shards `offline_msg_0` to `offline_msg_9`. -/
def Provisioned (table : Bytes) : Prop := ∃ k < 10, table = ascii "offline_msg_" ++ decNat k

instance (table : Bytes) : Decidable (Provisioned table) :=
  inferInstanceAs (Decidable (∃ k < 10, _))

/-- The number of a user's shard. -/
def shard (uid : Int64) : Int := uid.toInt.tmod 10

theorem shard_range (uid : Int64) : -10 < shard uid ∧ shard uid < 10 :=
  ⟨Int.lt_tmod_of_pos _ (by decide), Int.tmod_lt_of_pos _ (by decide)⟩

theorem length_decInt_shard (uid : Int64) : (decInt (shard uid)).length ≤ 2 :=
  length_decInt_le (k := 1) (by decide) (by have := shard_range uid; omega)

theorem offlineTable_eq (uid : Int64) :
    offlineTable uid = ascii "offline_msg_" ++ decInt (shard uid) :=
  snprintf_of_lt (by
    have := length_decInt_shard uid
    simp only [List.length_append]
    show 11 + 1 + (decInt (shard uid)).length < 30
    omega)

theorem length_offlineTable_le (uid : Int64) : (offlineTable uid).length ≤ 14 := by
  have := length_decInt_shard uid
  rw [offlineTable_eq, List.length_append]
  show 12 + _ ≤ 14
  omega

/-- Users have the same table if and only if they have the same shard. -/
theorem offlineTable_inj {u v : Int64} : offlineTable u = offlineTable v ↔ shard u = shard v := by
  rw [offlineTable_eq, offlineTable_eq, List.append_cancel_left_eq]
  exact decInt_inj

/-- The provisioned shards are those with a number that is not negative. -/
theorem provisioned_iff (uid : Int64) : Provisioned (offlineTable uid) ↔ 0 ≤ shard uid := by
  have hrange := shard_range uid
  rw [offlineTable_eq]
  constructor
  · intro h
    obtain ⟨k, -, h⟩ := h
    have h := List.append_cancel_left h
    by_contra hneg
    rcases decInt_cases (shard uid) with ⟨-, heq⟩ | ⟨hpos, -⟩
    · obtain ⟨d, ds, hd, hdig⟩ := decNat_cons k
      rw [heq, hd] at h
      obtain rfl := (List.cons.inj h).1
      cases hdig
    · exact hneg hpos
  · intro hpos
    refine ⟨(shard uid).natAbs, by omega, ?_⟩
    rw [decInt, if_neg (by omega)]

/-- The printed length of a 64-bit number. -/
theorem length_fmtLd_le (n : Int64) : (fmtLd n).length ≤ 20 := by
  have h1 := n.toInt_lt
  have h2 := n.le_toInt
  exact length_decInt_le (k := 19) (by decide) (by omega)

/-- The printed length of a 32-bit number. -/
theorem length_fmtD_le (n : Int64) : (fmtD n).length ≤ 11 := by
  have h1 := n.toInt32.toInt_lt
  have h2 := n.toInt32.le_toInt
  exact length_decInt_le (k := 10) (by decide) (by omega)

/-- The ids that `%d` prints in full. -/
def Fits32 (n : Int64) : Prop := n.toInt32.toInt = n.toInt

instance (n : Int64) : Decidable (Fits32 n) := inferInstanceAs (Decidable (_ = _))

theorem fits32_iff (n : Int64) : Fits32 n ↔ -2147483648 ≤ n.toInt ∧ n.toInt < 2147483648 := by
  unfold Fits32
  rw [Int64.toInt_toInt32]
  have h := Int.bmod_def n.toInt (2 ^ 32)
  constructor
  · intro heq
    have h1 := Int.le_bmod (x := n.toInt) (m := 2 ^ 32) (by decide)
    have h2 := Int.bmod_lt (x := n.toInt) (m := 2 ^ 32) (by decide)
    rw [heq] at h1 h2
    exact ⟨by simpa using h1, by simpa using h2⟩
  · intro h
    obtain ⟨h1, h2⟩ := h
    exact Int.bmod_eq_of_le (by simpa using h1) (by simpa using h2)

end SpiderChat
