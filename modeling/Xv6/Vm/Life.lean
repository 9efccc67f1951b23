import Xv6.Vm.Boot

/-!
# The life of an address space

An address space begins with `setupkvm`, grows and shrinks, and ends with
`freevm`.  Growing maps exactly the pages that were asked for or leaves the user
half as it was; shrinking and the end give the pages back, each of them once.
-/

namespace Xv6

open Lib Lib.Run

namespace Vm

section Life

variable {o : Others} {s s' : Vm} {loose : Multiset UInt32} {d : UInt32}
  {oldsz newsz : UInt32}

theorem Holds.exchange (h : Holds o (some d) loose s)
    (h' : Holds o (some d) loose s') :
    (s'.freelist : Multiset UInt32) + s'.pages d =
      (s.freelist : Multiset UInt32) + s.pages d := by
  have hsum := h'.sum.trans h.sum.symm
  rw [← add_assoc, ← add_assoc (s.freelist : Multiset UInt32)] at hsum
  exact add_right_cancel hsum

/-!
## Growing and shrinking
-/

inductive Grows (d oldsz newsz : UInt32) (s : Vm) : UInt32 -> Vm -> Prop where
  | done {s' : Vm} (maps : Maps d (pagesOf newsz) s')
      (fill : Filled d (pagesOf oldsz) (pagesOf newsz) s s')
      (distinct : (s'.frames d).Nodup) : Grows d oldsz newsz s newsz s'
  | fail {s' : Vm} (scarce : s.freelist.length <
        2 * (pagesOf newsz - pagesOf oldsz))
      (same : forall n, n < pagesOf oldsz -> s'.entry d n = s.entry d n)
      (maps : Maps d (pagesOf oldsz) s')
      (spares : Spares d (fun n => n < pagesOf oldsz) s s')
      (pool : s'.tables d + (s'.freelist : Multiset UInt32) =
        s.tables d + (s.freelist : Multiset UInt32)) :
      Grows d oldsz newsz s 0 s'

structure Shrinks (d oldsz newsz : UInt32) (s s' : Vm) : Prop where
  cleared : Cleared d (pagesOf newsz) (pagesOf oldsz) s s'
  spares : Spares d (fun n => ¬ (pagesOf newsz ≤ n ∧ n < pagesOf oldsz)) s s'
  free : (s'.freelist : Multiset UInt32) = (s.freelist : Multiset UInt32) +
    gather (s.frame d) (Finset.Ico (pagesOf newsz) (pagesOf oldsz))
  once : s'.freelist.Nodup

theorem Maps.frames_eq {n : Nat} (hmaps : Maps d n s) (hmaps' : Maps d n s')
    (hsame : forall m, m < n -> s'.entry d m = s.entry d m) :
    s'.frames d = s.frames d := by
  apply gather_congr
  intro m hm
  have hmu := Finset.mem_range.mp hm
  rcases Nat.lt_or_ge m n with hlt | hge
  · exact frame_congr (hsame m hlt)
  · rw [not_not.mp (fun hne => Nat.not_lt.mpr hge ((hmaps m hmu).mp hne)),
      not_not.mp (fun hne => Nat.not_lt.mpr hge ((hmaps' m hmu).mp hne))]

theorem Holds.grows (h : Holds o (some d) loose s)
    (hmaps : Maps d (pagesOf oldsz) s) (hle : oldsz ≤ newsz)
    (hlt : newsz < KERNBASE) :
    exists r s', allocuvm d oldsz newsz s = .ok (r, s') ∧
      Grows d oldsz newsz s r s' := by
  have hpages := pagesOf_mono hle
  have hup := pagesOf_le (UInt32.le_of_lt hlt)
  have hfree : newsz < KERNBASE -> forall n, pagesOf oldsz ≤ n ->
      n < pagesOf newsz -> s.frame d n ≠ none -> False :=
    fun _ n hn hn' hne => absurd ((hmaps n (by lia)).mp hne) (by lia)
  have hwp := h.wp_allocuvm (E := fun _ => False) hfree
  rcases wp_returns hwp with ⟨r, s', hrun, h', hallocs, hspares⟩
  refine ⟨r, s', hrun, ?_⟩
  cases hallocs with
  | keep hlt' => exact absurd hle (UInt32.not_le.mpr hlt')
  | grow _ _ hfill =>
      refine .done (fun m hm => ?_) hfill h'.tables_nodup.2.1
      rcases Decidable.em (pagesOf oldsz ≤ m ∧ m < pagesOf newsz) with
        hin | hout
      · simp [hfill.mapped m hin.1 hin.2, hin.2]
      · rw [frame_congr (hfill.same m hout), hmaps m hm]
        lia
  | fail hfail hscarce =>
      have hsame : forall n, n < pagesOf oldsz ->
          s'.entry d n = s.entry d n := by
        intro n hn
        rcases hfail n with heq | hin
        · exact heq
        · exact absurd hin.1 (Nat.not_le.mpr hn)
      have hmaps' : Maps d (pagesOf oldsz) s' := by
        intro m hm
        rcases hfail m with heq | ⟨hge, _, hnone⟩
        · rw [frame_congr heq]
          exact hmaps m hm
        · simp [hnone, hge]
      refine .fail (hscarce hlt) hsame hmaps' (hspares.mono (fun n hn => ?_)) ?_
      · lia
      · have hpool := h.exchange h'
        unfold pages at hpool
        rw [hmaps.frames_eq hmaps' hsame, Multiset.add_cons, Multiset.add_cons,
          Multiset.cons_inj_right, ← add_assoc, ← add_assoc] at hpool
        rw [add_comm, add_right_cancel hpool, add_comm]

theorem Holds.shrinks (h : Holds o (some d) loose s) (hlt : newsz < oldsz)
    (hle : oldsz ≤ KERNBASE) :
    exists s', deallocuvm d oldsz newsz s = .ok (newsz, s') ∧
      Shrinks d oldsz newsz s s' := by
  have hup := pagesOf_le hle
  rcases wp_returns (h.wp_deallocuvm (E := fun _ => False) hle) with
    ⟨r, s', hrun, hr, h', hclear, hspares, htable⟩
  rw [if_neg (UInt32.not_le.mpr hlt)] at hr
  subst hr
  have hIco : (Finset.range UPAGES).filter
      (fun n => pagesOf r ≤ n ∧ n < pagesOf oldsz) =
        Finset.Ico (pagesOf r) (pagesOf oldsz) := by
    ext n
    rw [Finset.mem_filter, Finset.mem_range, Finset.mem_Ico]
    lia
  have hframes : s.frames d =
      gather (s.frame d) (Finset.Ico (pagesOf r) (pagesOf oldsz)) +
        s'.frames d := by
    have hgone : gather (s'.frame d)
        (Finset.Ico (pagesOf r) (pagesOf oldsz)) = 0 := by
      apply gather_empty
      intro n hn
      rcases Finset.mem_Ico.mp hn with ⟨hge, hlt'⟩
      exact hclear.gone n hge hlt'
    unfold frames
    rw [gather_filter_add (s.frame d) _
        (fun n => pagesOf r ≤ n ∧ n < pagesOf oldsz),
      gather_filter_add (s'.frame d) _
        (fun n => pagesOf r ≤ n ∧ n < pagesOf oldsz), hIco, hgone, zero_add]
    congr 1
    apply gather_congr
    intro n hn
    exact (frame_congr (hclear.same n (Finset.mem_filter.mp hn).2)).symm
  refine ⟨s', hrun, hclear, hspares, ?_, ?_⟩
  · have hpool := h.exchange h'
    unfold pages tables at hpool
    rw [htable, hframes, Multiset.add_cons, Multiset.add_cons,
      Multiset.cons_inj_right, add_left_comm,
      add_left_comm (s.freelist : Multiset UInt32)] at hpool
    have hfree := add_left_cancel hpool
    rw [← add_assoc] at hfree
    exact add_right_cancel hfree
  · exact Multiset.coe_nodup.mp (Multiset.nodup_add.mp h'.nodup).1

/-- Growing maps exactly the new pages, or nothing; shrinking frees exactly the
pages between the sizes. -/
theorem resize_exact (h : Holds o (some d) loose s) :
    (Maps d (pagesOf oldsz) s -> oldsz ≤ newsz -> newsz < KERNBASE ->
      exists r s', allocuvm d oldsz newsz s = .ok (r, s') ∧
        Grows d oldsz newsz s r s') ∧
    (newsz < oldsz -> oldsz ≤ KERNBASE ->
      exists s', deallocuvm d oldsz newsz s = .ok (newsz, s') ∧
        Shrinks d oldsz newsz s s') :=
  ⟨fun hmaps hle hlt => h.grows hmaps hle hlt,
    fun hlt hle => h.shrinks hlt hle⟩

/-- `init` gets two more pages, or gives back the only one. -/
theorem resize_exact_boot :
    (exists s', allocuvm (pageAddr 0x401) 4096 9000 bootVm = .ok (9000, s') ∧
      Grows (pageAddr 0x401) 4096 9000 bootVm 9000 s') ∧
    exists s', deallocuvm (pageAddr 0x401) 4096 0 bootVm = .ok (0, s') ∧
      Shrinks (pageAddr 0x401) 4096 0 bootVm s' ∧
      bootVm.frame (pageAddr 0x401) 0 ≠ none ∧
      s'.frame (pageAddr 0x401) 0 = none := by
  rcases Kernel.boot_opened with ⟨o, h⟩
  constructor
  · rcases (resize_exact h).1 Kernel.boot_maps
      (show (4096 : UInt32) ≤ 9000 by decide) (by decide) with
      ⟨r, s', hrun, hgrows⟩
    cases hgrows with
    | done maps fill distinct =>
        exact ⟨s', hrun, .done maps fill distinct⟩
    | fail scarce =>
        have hlen : bootVm.freelist.length = 0xE000 - 0x444 := by
          simp [bootVm]
        rw [hlen] at scarce
        exact absurd scarce (by decide)
  · rcases (resize_exact h).2 (show (0 : UInt32) < 4096 by decide)
      (by decide) with ⟨s', hrun, hshrinks⟩
    exact ⟨s', hrun, hshrinks,
      (Kernel.boot_maps 0 (by decide)).mpr (by decide),
      hshrinks.cleared.gone 0 (by decide) (by decide)⟩

/-!
## From the first page to the last
-/

/-- What is done with an address space while it is in use. -/
inductive Use where
  | allocuvm (oldsz newsz : UInt32)
  | deallocuvm (oldsz newsz : UInt32)
  | clearpteu (uva : UInt32)

def Use.run (d : UInt32) : Use -> VmM Unit
  | .allocuvm oldsz newsz => do
      let _ ← Vm.allocuvm d oldsz newsz
  | .deallocuvm oldsz newsz => do
      let _ ← Vm.deallocuvm d oldsz newsz
  | .clearpteu uva => Vm.clearpteu d uva

/-- `deallocuvm` is called with the size of a process, which lies in the user
half. -/
def Use.Allowed (_ : Vm) : Use -> Prop
  | .deallocuvm oldsz _ => oldsz ≤ KERNBASE
  | _ => True

theorem Use.holds {u : Use} (h : Holds o (some d) loose s)
    (hu : Use.Allowed s u) (hrun : u.run d s = .ok ((), s')) :
    Holds o (some d) loose s' := by
  suffices hwp : wp (u.run d) (fun _ s' => Holds o (some d) loose s')
      (fun _ => True) s from (wp_iff.mp hwp).1 () s' hrun
  cases u with
  | allocuvm oldsz newsz =>
      unfold Use.run
      rw [wp_bind]
      exact wp_post (h.wp_allocuvm (fun _ _ _ _ _ => trivial))
        (fun _ _ hpost => hpost.1)
  | deallocuvm oldsz newsz =>
      unfold Use.run
      rw [wp_bind]
      exact wp_post (h.wp_deallocuvm hu) (fun _ _ hpost => hpost.2.1)
  | clearpteu uva =>
      exact wp_post (h.wp_clearpteu (fun _ => trivial))
        (fun _ _ hpost => hpost.1)

/-- At the end the directory, its tables and the pages of the user go back to
the free list, each of them once, and nothing else does. -/
theorem freevm_exact {s0 s1 : Vm} (h : Holds o none loose s0)
    (hsetup : setupkvm s0 = .ok (some d, s1))
    (hruns : Runs (fun s u s' => Use.run d u s = .ok ((), s')) Use.Allowed
      s1 s) :
    exists s', freevm (some d) s = .ok ((), s') ∧
      (s'.freelist : Multiset UInt32) = s.pages d + s.freelist ∧
      s'.freelist.Nodup := by
  have hstart : Holds o (some d) loose s1 := by
    rcases wp_ok (h.wp_setupkvm (E := fun _ => True)) hsetup with
      ⟨hnone, _⟩ | ⟨d', hd, h1, _⟩
    · cases hnone
    · cases hd
      exact h1
  have hend := hruns.invariant hstart
    (fun _ _ _ h1 hu hrun => Use.holds h1 hu hrun)
  rcases wp_returns (hend.wp_freevm (E := fun _ => False)) with
    ⟨_, s', hrun, h'⟩
  refine ⟨s', hrun, ?_, ?_⟩
  · have hsum := h'.sum.trans hend.sum.symm
    change _ + (0 + _) = _ + (s.pages d + _) at hsum
    rw [zero_add, ← add_assoc (s.freelist : Multiset UInt32)] at hsum
    rw [add_right_cancel hsum, add_comm]
  · exact Multiset.coe_nodup.mp (Multiset.nodup_add.mp h'.nodup).1

/-- A new address space that grows by two pages. -/
theorem freevm_exact_boot :
    exists d s1 s s', setupkvm bootVm = .ok (some d, s1) ∧
      Use.run d (.allocuvm 0 5000) s1 = .ok ((), s) ∧
      freevm (some d) s = .ok ((), s') ∧
      (s'.freelist : Multiset UInt32) = s.pages d + s.freelist := by
  rcases Kernel.boot_opened with ⟨o, h⟩
  have hlen : NPDENTRIES + 1 < bootVm.freelist.length := by
    simp [bootVm, NPDENTRIES]
  generalize bootVm = s0 at h hlen ⊢
  rcases wp_returns (h.park.wp_setupkvm_room hlen) with
    ⟨r, s1, hsetup, d, rfl, h1, hfresh, _⟩
  have hempty : Maps d (pagesOf 0) s1 := by
    intro n hn
    unfold frame
    rw [hfresh.user n hn, target_zero]
    simp [pagesOf]
  have hle : (0 : UInt32) ≤ 5000 := by decide
  rcases h1.grows hempty hle (by decide) with
    ⟨r, s, halloc, _⟩
  have hrun : Use.run d (.allocuvm 0 5000) s1 = .ok ((), s) :=
    bind_eq_ok.mpr ⟨r, s, halloc, rfl⟩
  rcases freevm_exact h.park hsetup (Runs.refl.tail
    (.allocuvm 0 5000) trivial hrun) with
    ⟨s', hfree, hpages, _⟩
  exact ⟨d, s1, s, s', hsetup, hrun, hfree, hpages⟩

end Life

end Vm
end Xv6
