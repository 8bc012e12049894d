import Mathlib.Algebra.Group.Nat.Defs
import Mathlib.Data.List.Basic

/-!
# SpiderChat.Lib.LittleEndian

Numbers as little-endian byte strings of a fixed width, as a C struct is laid out
on the machines the program runs on.
-/

namespace Lib

/-- The low `k` bytes of `n`, least significant first. -/
def le : Nat → Nat → List UInt8
  | 0, _ => []
  | k + 1, n => UInt8.ofNat n :: le k (n / 256)

/-- The number that a byte string denotes, least significant byte first. -/
def unle : List UInt8 → Nat
  | [] => 0
  | b :: l => b.toNat + 256 * unle l

@[simp] theorem length_le (k n : Nat) : (le k n).length = k := by
  induction k generalizing n with
  | zero => rfl
  | succ k ih => simp [le, ih]

/-- A number written in `k` bytes and read back. -/
theorem unle_le {k n : Nat} (h : n < 256 ^ k) : unle (le k n) = n := by
  induction k generalizing n with
  | zero => simp only [Nat.pow_zero, Nat.lt_one_iff] at h; subst h; rfl
  | succ k ih =>
      have hdiv : n / 256 < 256 ^ k := by
        rw [Nat.pow_succ] at h
        omega
      rw [le, unle, ih hdiv, UInt8.toNat_ofNat']
      omega

theorem unle_lt (l : List UInt8) : unle l < 256 ^ l.length := by
  induction l with
  | nil => exact Nat.one_pos
  | cons b l ih =>
      have hb := b.toNat_lt
      rw [unle, List.length_cons, Nat.pow_succ]
      omega

/-- A byte string is the number it denotes, written in as many bytes. -/
theorem le_unle (l : List UInt8) : le l.length (unle l) = l := by
  induction l with
  | nil => rfl
  | cons b l ih =>
      have hb := b.toNat_lt
      have hdiv : (b.toNat + 256 * unle l) / 256 = unle l := by omega
      have hmod : UInt8.ofNat (b.toNat + 256 * unle l) = b := by
        apply UInt8.toNat_inj.mp
        rw [UInt8.toNat_ofNat']
        omega
      rw [List.length_cons, unle, le, hdiv, ih, hmod]

theorem unle_append (l l' : List UInt8) : unle (l ++ l') = unle l + 256 ^ l.length * unle l' := by
  induction l with
  | nil => simp [unle]
  | cons b l ih =>
      rw [List.cons_append, unle, unle, ih, List.length_cons, Nat.pow_succ, Nat.mul_add,
        Nat.mul_comm (256 ^ l.length) 256, Nat.mul_assoc, Nat.add_assoc]

end Lib
