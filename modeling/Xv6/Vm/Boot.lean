import Xv6.Boot
import Xv6.Vm.Copy

/-!
# The pages of the booted system

When `init` first runs, the pages from four megabytes on are its kernel stack,
its page directory, its only page, its page tables and then the free list.
-/

namespace Xv6
namespace Kernel

open Lib Lib.Run

theorem u32_pageOf (w : Nat -> UInt32) {i : Nat} (hi : i < 1024) :
    (pageOf w).u32 (4 * i) = w i := by
  have hle : (pageOf w).le (4 * i) 4 = (w i).toNat % 256 ^ 4 := by
    rw [← Bytes.leOf_byteOf]
    unfold Bytes.le
    apply Bytes.leOf_congr
    intro k hk
    rw [Bytes.get_of_lt _ (show 4 * i + k < 4096 by lia)]
    have hdiv : (4 * i + k) / 4 = i := by lia
    have hmod : (4 * i + k) % 4 = k := by lia
    show Bytes.byteOf (w ((4 * i + k) / 4)).toNat ((4 * i + k) % 4) = _
    rw [hdiv, hmod, Nat.zero_add]
  unfold Bytes.u32
  have hlt : (w i).toNat < 256 ^ 4 := (w i).toNat_lt
  rw [hle, Nat.mod_eq_of_lt hlt, UInt32.ofNat_toNat]

def pageRange (a n : Nat) : Multiset UInt32 :=
  ((List.range' a n).map pageAddr : List UInt32)

theorem pageRange_add (a m n : Nat) :
    pageRange a m + pageRange (a + m) n = pageRange a (m + n) := by
  unfold pageRange
  rw [Multiset.coe_add, ← List.map_append, List.range'_append_1]

theorem pageRange_one (a : Nat) : pageRange a 1 = {pageAddr a} := rfl

theorem bootMem_dir : bootMem (pageAddr 0x401) =
    pageOf (fun j =>
      match bootTable j with
      | some t => pageAddr t ||| PTE_P ||| PTE_W ||| PTE_U
      | none => 0) := by
  rfl

theorem bootMem_table : bootMem (pageAddr 0x403) =
    pageOf (fun i =>
      if i = 0 then pageAddr 0x402 ||| PTE_W ||| PTE_U ||| PTE_P else 0) := by
  rfl

theorem bootTable_lt {j t : Nat} (hj : j < 1024) (h : bootTable j = some t) :
    t < 2 ^ 20 := by
  unfold bootTable at h
  split at h
  · have ht := Option.some.inj h
    lia
  · split at h
    · have ht := Option.some.inj h
      lia
    · split at h
      · have ht := Option.some.inj h
        lia
      · cases h

theorem boot_table {j : Nat} (hj : j < 1024) :
    bootVm.table (pageAddr 0x401) j = (bootTable j).map pageAddr := by
  unfold Vm.table Vm.wordAt
  rw [if_pos hj]
  show Vm.target ((bootMem (pageAddr 0x401)).u32 (4 * j)) = _
  rw [bootMem_dir, u32_pageOf _ hj]
  cases h : bootTable j with
  | none => exact Vm.target_zero
  | some t =>
      show Vm.target (pageAddr t ||| PTE_P ||| PTE_W ||| PTE_U) = _
      rw [Vm.target_tableEntry, PTE_ADDR_pageAddr (bootTable_lt hj h)]
      rfl

theorem boot_tables :
    bootVm.tables (pageAddr 0x401) = pageRange 0x403 65 := by
  have hlist : (List.range 1024).filterMap bootTable = List.range' 0x403 65 := by
    decide +kernel
  unfold Vm.tables pageRange
  rw [gather_congr (g := fun j => (bootTable j).map pageAddr)
    (fun j hj => boot_table (Finset.mem_range.mp hj)), gather_range, ← hlist,
    List.map_filterMap]

theorem boot_frame {n : Nat} (hn : n < UPAGES) :
    bootVm.frame (pageAddr 0x401) n =
      if n = 0 then some (pageAddr 0x402) else none := by
  unfold UPAGES at hn
  unfold Vm.frame
  rcases Nat.eq_zero_or_pos (n / 1024) with hzero | hpos
  · have ht : bootVm.table (pageAddr 0x401) (n / 1024) =
        some (pageAddr 0x403) := by
      rw [boot_table (by lia), hzero]
      rfl
    have hmod : n % 1024 = n := by lia
    rw [Vm.entry_of_table ht]
    show Vm.target ((bootMem (pageAddr 0x403)).u32 (4 * (n % 1024))) = _
    rw [bootMem_table, u32_pageOf _ (by lia), hmod]
    rcases eq_or_ne n 0 with rfl | hne
    · decide
    · rw [if_neg hne, if_neg hne]
      exact Vm.target_zero
  · have ht : bootVm.table (pageAddr 0x401) (n / 1024) = none := by
      rw [boot_table (by lia)]
      unfold bootTable
      rw [if_neg (by lia), if_neg (by lia), if_neg (by lia)]
      rfl
    rw [Vm.entry_of_none ht, if_neg (by lia)]
    exact Vm.target_zero

theorem boot_pages : bootVm.pages (pageAddr 0x401) =
    pageRange 0x401 1 + pageRange 0x402 66 := by
  have hframes : bootVm.frames (pageAddr 0x401) = pageRange 0x402 1 := by
    unfold Vm.frames
    rw [gather_erase_some (Finset.mem_range.mpr (by decide))
      (boot_frame (n := 0) (by decide)), gather_empty]
    · rfl
    · intro n hn
      rcases Finset.mem_erase.mp hn with ⟨hne, hlt⟩
      rw [boot_frame (Finset.mem_range.mp hlt), if_neg hne]
  unfold Vm.pages
  rw [boot_tables, hframes, ← Multiset.singleton_add, ← pageRange_one,
    add_comm (pageRange 0x403 65), pageRange_add 0x402 1 65]

def bootManaged : Vm.Managed where
  all := pageRange 0x400 (0xE000 - 0x400)
  data := bootData
  kend := 0x116000
  nodup := by
    unfold pageRange
    apply Multiset.coe_nodup.mpr
    apply List.Nodup.map_on _ List.nodup_range'
    intro a ha b hb hab
    have ha' := List.mem_range'_1.mp ha
    have hb' := List.mem_range'_1.mp hb
    exact pageAddr_inj (by lia) (by lia) hab
  managed := by
    intro pa hpa
    rcases List.mem_map.mp (Multiset.mem_coe.mp hpa) with ⟨n, hn, rfl⟩
    have hn' := List.mem_range'_1.mp hn
    have hnat := pageAddr_toNat (n := n) (by lia)
    have hstop : PHYSTOP.toNat = 0xE000000 := by decide
    have hkend : (0x116000 : UInt32).toNat = 0x116000 := by decide
    rw [UInt32.le_iff_toNat_le, UInt32.lt_iff_toNat_lt, hnat, hstop, hkend]
    lia
  linked := ⟨⟨0x108, by decide, by decide, by decide⟩, by decide⟩

theorem boot_opened :
    exists o, Vm.Holds o (some (pageAddr 0x401)) 0 bootVm := by
  refine ⟨{ bootManaged with pages := pageRange 0x400 1, mem := bootMem },
    rfl, rfl, ?_, fun _ _ => rfl⟩
  show pageRange 0x444 (0xE000 - 0x444) + (bootVm.pages (pageAddr 0x401) +
    (0 + pageRange 0x400 1)) = pageRange 0x400 (0xE000 - 0x400)
  rw [boot_pages, pageRange_add 0x401 1 66, zero_add,
    add_comm (pageRange 0x401 67), pageRange_add 0x400 1 67, add_comm,
    pageRange_add 0x400 68]

theorem boot_maps : Vm.Maps (pageAddr 0x401) (pagesOf 4096) bootVm := by
  have hone : pagesOf 4096 = 1 := by decide
  intro n hn
  rw [boot_frame hn, hone]
  rcases Nat.eq_zero_or_pos n with rfl | hpos
  · simp
  · rw [if_neg (by lia)]
    simp
    lia

end Kernel
end Xv6
