import Mathlib

/-!
# Signed words

An `int` counted up or down by one, and an `int` seen as an unsigned word.
-/

namespace Xv6
namespace Lib

theorem toInt_succ_of_lt {n : Int32} (h : 0 ≤ n.toInt)
    (hlt : n.toInt + 1 < 2147483648) : (n + 1).toInt = n.toInt + 1 := by
  have hone : (1 : Int32).toInt = 1 := by decide
  rw [Int32.toInt_add, hone]
  exact Int.bmod_eq_of_le (by lia) (by lia)

theorem toInt_succ {n : Int32} (h : 0 < n.toInt) :
    (n + 1).toInt = n.toInt + 1 ∨ (n + 1).toInt < 0 := by
  have hlt := n.toInt_lt
  rcases lt_or_ge (n.toInt + 1) 2147483648 with hfits | hwraps
  · exact Or.inl (toInt_succ_of_lt h.le hfits)
  · right
    have hlast : n.toInt = 2147483647 := by lia
    have hone : (1 : Int32).toInt = 1 := by decide
    rw [Int32.toInt_add, hone, hlast]
    decide

theorem toInt_pred {n : Int32} (h : 0 < n.toInt) :
    (n - 1).toInt = n.toInt - 1 := by
  have hlt := n.toInt_lt
  have hone : (1 : Int32).toInt = 1 := by decide
  rw [Int32.toInt_sub, hone]
  exact Int.bmod_eq_of_le (by lia) (by lia)

theorem toNat_toUInt32 {n : Int32} (h : ¬ n < 0) :
    n.toUInt32.toNat = n.toInt.toNat := by
  have hnonneg : 0 ≤ n.toInt :=
    Int32.le_iff_toInt_le.mp (Int32.not_lt.mp h)
  have hint : n.toInt = n.toBitVec.toInt := rfl
  have hnat : n.toUInt32.toNat = n.toBitVec.toNat := rfl
  have hlt : n.toBitVec.toNat < 2 ^ 32 := n.toBitVec.isLt
  rw [hint, BitVec.toInt_eq_toNat_cond] at hnonneg ⊢
  rw [hnat]
  split at hnonneg
  · lia
  · lia

theorem toInt_toInt32 {n : UInt32} (h : n.toNat < 2 ^ 31) :
    n.toInt32.toInt = n.toNat := by
  show n.toBitVec.toInt = n.toBitVec.toNat
  have hsmall : n.toBitVec.toNat < 2 ^ 31 := h
  rw [BitVec.toInt_eq_toNat_cond, if_pos (by lia)]

theorem toNat_add_signed (a : UInt32) (n : Int32) :
    ((a + n.toUInt32).toNat : Int) = (a.toNat + n.toInt) % 4294967296 := by
  have hint : n.toInt = n.toBitVec.toInt := rfl
  have hnat : n.toUInt32.toNat = n.toBitVec.toNat := rfl
  have hlt : n.toBitVec.toNat < 2 ^ 32 := n.toBitVec.isLt
  rw [UInt32.toNat_add, hint, BitVec.toInt_eq_toNat_cond, hnat]
  split
  · lia
  · lia

theorem toInt_sub_unsigned {m n : Int32} {d : Nat}
    (h : n.toInt = m.toInt - d) (hd : d < 2147483648) :
    (m.toUInt32 - n.toUInt32).toInt32.toInt = d := by
  have hdiff : m.toInt - n.toInt = d := by lia
  rw [UInt32.toInt32_sub, Int32.toInt32_toUInt32, Int32.toInt32_toUInt32,
    Int32.toInt_sub, hdiff]
  exact Int.bmod_eq_of_le (by lia) (by lia)

end Lib
end Xv6
