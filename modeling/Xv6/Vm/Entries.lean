import Xv6.Vm.Code

/-!
# Page numbers and page-table entries

The arithmetic of addresses and entries, and what a store or a new table
changes in the words of the pages.
-/

namespace Xv6

open Lib Lib.Run

/-!
## Page numbers
-/

def pageAddr (n : Nat) : UInt32 := UInt32.ofNat (4096 * n)

theorem pageAddr_toNat {n : Nat} (h : n < 2 ^ 20) :
    (pageAddr n).toNat = 4096 * n := by
  unfold pageAddr
  rw [UInt32.toNat_ofNat']
  lia

theorem pageAddr_inj {m n : Nat} (hm : m < 2 ^ 20) (hn : n < 2 ^ 20)
    (h : pageAddr m = pageAddr n) : m = n := by
  have hnat := congrArg UInt32.toNat h
  rw [pageAddr_toNat hm, pageAddr_toNat hn] at hnat
  lia

theorem pageAddr_add (m n : Nat) :
    pageAddr m + pageAddr n = pageAddr (m + n) := by
  unfold pageAddr
  rw [← UInt32.ofNat_add, Nat.mul_add]

theorem pageAddr_sub {m n : Nat} (h : n ≤ m) :
    pageAddr m - pageAddr n = pageAddr (m - n) := by
  have hadd := pageAddr_add (m - n) n
  rw [Nat.sub_add_cancel h] at hadd
  rw [← hadd]
  exact UInt32.add_sub_cancel _ _

theorem pageAddr_succ (n : Nat) : pageAddr n + 4096 = pageAddr (n + 1) :=
  pageAddr_add n 1

theorem PDX_pageAddr {n : Nat} (h : n < 2 ^ 20) :
    PDX (pageAddr n) = n / 1024 := by
  unfold PDX
  rw [pageAddr_toNat h]
  lia

theorem PTX_pageAddr {n : Nat} (h : n < 2 ^ 20) :
    PTX (pageAddr n) = n % 1024 := by
  unfold PTX
  rw [pageAddr_toNat h]
  lia

theorem and_mask (a : UInt32) {k : Nat} (hk : k ≤ 32) :
    a.toNat &&& ((2 ^ (32 - k) - 1) * 2 ^ k) = a.toNat / 2 ^ k * 2 ^ k := by
  apply Nat.eq_of_testBit_eq
  intro i
  rw [Nat.testBit_and, Nat.testBit_mul_two_pow, Nat.testBit_mul_two_pow,
    Nat.testBit_two_pow_sub_one, Nat.testBit_div_two_pow]
  rcases Nat.lt_or_ge i k with hlow | hlow
  · simp [Nat.not_le.mpr hlow]
  · rw [Nat.sub_add_cancel hlow]
    rcases Nat.lt_or_ge i 32 with hhigh | hhigh
    · have hin : i - k < 32 - k := by lia
      simp [hlow, hin]
    · have hbit : a.toNat.testBit i = false :=
        Nat.testBit_lt_two_pow (Nat.lt_of_lt_of_le a.toNat_lt
          (Nat.pow_le_pow_right (by decide) hhigh))
      simp [hbit]

theorem PTE_ADDR_toNat (a : UInt32) :
    (PTE_ADDR a).toNat = a.toNat / 4096 * 4096 :=
  (UInt32.toNat_and a 0xFFFFF000).trans (and_mask a (k := 12) (by decide))

theorem PTE_ADDR_pageAddr {n : Nat} (h : n < 2 ^ 20) :
    PTE_ADDR (pageAddr n) = pageAddr n := by
  apply UInt32.toNat_inj.mp
  rw [PTE_ADDR_toNat, pageAddr_toNat h]
  lia

/-!
## Entries
-/

theorem or_and_distrib (a b c : UInt32) :
    (a ||| b) &&& c = (a &&& c) ||| (b &&& c) := by
  apply UInt32.eq_of_toBitVec_eq
  ext i hi
  simp only [UInt32.toBitVec_and, UInt32.toBitVec_or, BitVec.getElem_and,
    BitVec.getElem_or]
  exact Bool.and_or_distrib_right _ _ _

theorem tableEntry_present (a : UInt32) :
    (a ||| PTE_P ||| PTE_W ||| PTE_U) &&& PTE_P ≠ 0 := by
  rw [or_and_distrib, or_and_distrib, or_and_distrib]
  intro h
  have hbit := congrArg (fun x : UInt32 => x.toBitVec[0]) h
  simp [PTE_P, PTE_W, PTE_U] at hbit

theorem tableEntry_addr (a : UInt32) :
    PTE_ADDR (a ||| PTE_P ||| PTE_W ||| PTE_U) = PTE_ADDR a := by
  have hP : PTE_P &&& 0xFFFFF000 = 0 := by decide
  have hW : PTE_W &&& 0xFFFFF000 = 0 := by decide
  have hU : PTE_U &&& 0xFFFFF000 = 0 := by decide
  unfold PTE_ADDR
  rw [or_and_distrib, or_and_distrib, or_and_distrib, hP, hW, hU]
  simp

namespace Vm

def wordAt (s : Vm) (pa : UInt32) (i : Nat) : UInt32 := (s.mem pa).u32 (4 * i)

def store (s : Vm) (pa : UInt32) (i : Nat) (v : UInt32) : Vm :=
  { s with mem := Function.update s.mem pa ((s.mem pa).setU32 (4 * i) v) }

theorem wordAt_store_self (s : Vm) (pa v : UInt32) {i : Nat} (hi : i < 1024) :
    (s.store pa i v).wordAt pa i = v := by
  unfold wordAt store
  simp only [Function.update_self]
  exact Bytes.u32_setU32 _ v (by lia)

theorem wordAt_store_index (s : Vm) (pa v : UInt32) {i j : Nat} (h : j ≠ i) :
    (s.store pa i v).wordAt pa j = s.wordAt pa j := by
  unfold wordAt store
  simp only [Function.update_self]
  exact Bytes.u32_setU32_of_disjoint _ v (by lia)

theorem wordAt_store_page (s : Vm) {pa pa' : UInt32} (v : UInt32) (i j : Nat)
    (h : pa' ≠ pa) : (s.store pa i v).wordAt pa' j = s.wordAt pa' j := by
  unfold wordAt store
  simp only [Function.update_of_ne h]

/-!
## New tables
-/

/-- The state once `walkpgdir` has put a new table under the entry `j`. -/
def newTable (s : Vm) (d : UInt32) (j : Nat) (t : UInt32)
    (rest : List UInt32) : Vm :=
  Vm.store
    { s with freelist := rest, mem := Function.update s.mem t (fun _ => 0) }
    d j (t ||| PTE_P ||| PTE_W ||| PTE_U)

theorem newTable_wordAt_of_ne (s : Vm) (d : UInt32) (j : Nat) {t pa : UInt32}
    (rest : List UInt32) (hd : pa ≠ d) (ht : pa ≠ t) (i : Nat) :
    (s.newTable d j t rest).wordAt pa i = s.wordAt pa i := by
  unfold newTable
  rw [wordAt_store_page _ _ _ _ hd]
  unfold wordAt
  simp only [Function.update_of_ne ht]

theorem newTable_wordAt_dir (s : Vm) {d : UInt32} {j i : Nat} {t : UInt32}
    (rest : List UInt32) (hd : d ≠ t) (hi : i ≠ j) :
    (s.newTable d j t rest).wordAt d i = s.wordAt d i := by
  unfold newTable
  rw [wordAt_store_index _ _ _ hi]
  unfold wordAt
  simp only [Function.update_of_ne hd]

theorem newTable_wordAt_entry (s : Vm) (d : UInt32) {j : Nat} (t : UInt32)
    (rest : List UInt32) (hj : j < 1024) :
    (s.newTable d j t rest).wordAt d j = t ||| PTE_P ||| PTE_W ||| PTE_U :=
  wordAt_store_self _ _ _ hj

theorem newTable_wordAt_table (s : Vm) {d : UInt32} (j : Nat) {t : UInt32}
    (rest : List UInt32) (ht : t ≠ d) (i : Nat) :
    (s.newTable d j t rest).wordAt t i = 0 := by
  unfold newTable
  rw [wordAt_store_page _ _ _ _ ht]
  unfold wordAt
  simp only [Function.update_self]
  exact Bytes.u32_zero _

end Vm
end Xv6
