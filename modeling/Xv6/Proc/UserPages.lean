import Xv6.Lib.Words
import Xv6.Proc.Sizes

/-!
# The pages of an address space

What `fork` copies and what `sbrk` adds and takes away, page by page.
-/

namespace Xv6

open Lib Lib.Run

namespace Vm

def content (s : Vm) (d : UInt32) (n : Nat) : Option Page :=
  (s.frame d n).map s.mem

/-!
## The copy for a child
-/

section Copy

variable {o : Others} {s s' : Vm} {loose : Multiset UInt32} {pgdir d sz : UInt32}

/-- The address space `d` is a copy of `pgdir` as it was in `s`, in pages of its
own. -/
structure Twin (s : Vm) (pgdir sz : UInt32) (s' : Vm) (d : UInt32) : Prop where
  page : forall n, n < pagesOf sz ->
    s'.content d n = s.content pgdir n ∧ s'.content d n ≠ none
  flags : forall n, n < pagesOf sz ->
    PTE_FLAGS (s'.entry d n) = PTE_FLAGS (s.entry pgdir n)
  above : forall n, pagesOf sz ≤ n -> n < UPAGES -> s'.frame d n = none
  kernel : forall n, UPAGES ≤ n -> s'.entry d n = kentry s.data n
  distinct : (s'.pages d).Nodup
  apart : Disjoint (s'.pages d) (s.pages pgdir)

theorem Holds.freelist_perm (h : Holds o (some pgdir) loose s)
    (h' : Holds (o.park s pgdir) none loose s') :
    s'.freelist.Perm s.freelist := by
  have hsum : (s'.freelist : Multiset UInt32) +
      (0 + (loose + (s.pages pgdir + o.pages))) =
        (s.freelist : Multiset UInt32) + (s.pages pgdir + (loose + o.pages)) :=
    h'.sum.trans h.sum.symm
  rw [zero_add, add_left_comm loose] at hsum
  exact Multiset.coe_eq_coe.mp (add_right_cancel hsum)

theorem Copied.twin (hpres : forall n, n < pagesOf sz ->
      s.frame pgdir n ≠ none) (hsz : sz < KERNBASE)
    (h : Holds o (some pgdir) loose s)
    (h' : Holds (o.park s pgdir) (some d) loose s')
    (hmaps : Maps d (pagesOf sz) s')
    (hcopied : Copied (o.park s pgdir) pgdir d (pagesOf sz) s')
    (hkmap : Kmapped d s') : Twin s pgdir sz s' d := by
  have hup := pagesOf_le (UInt32.le_of_lt hsz)
  constructor
  · intro n hn
    have hnu : n < UPAGES := by lia
    rcases Option.ne_none_iff_exists'.mp (hpres n hn) with ⟨src, hsrc⟩
    rcases Option.ne_none_iff_exists'.mp ((hmaps n hnu).mpr hn) with
      ⟨dst, hdst⟩
    have hmem : src ∈ (o.park s pgdir).pages :=
      Multiset.mem_add.mpr (.inl (mem_space_frame hnu hsrc))
    have hpage : s'.mem dst = s.mem src :=
      hcopied.page n src dst hn hsrc hdst hmem
    unfold content
    rw [hsrc, hdst]
    exact ⟨congrArg some hpage, Option.some_ne_none _⟩
  · exact hcopied.flags
  · intro n hn hnu
    apply of_not_not
    intro hmapped
    have hlt := (hmaps n hnu).mp hmapped
    lia
  · intro n hn
    rw [hkmap n hn, h'.data, h.data]
    rfl
  · exact h'.space_nodup
  · apply Multiset.disjoint_left.mpr
    intro x hx hparent
    exact (h'.space_out hx).2 (Multiset.mem_add.mpr (.inl hparent))

theorem copyuvm_faithful (h : Holds o (some pgdir) loose s)
    (hsz : sz < KERNBASE)
    (hpres : forall n, n < pagesOf sz -> s.frame pgdir n ≠ none) :
    exists r s', copyuvm pgdir sz s = .ok (r, s') ∧
      (forall pa, pa ∈ s.pages pgdir -> s'.mem pa = s.mem pa) ∧
      match r with
      | some d => Twin s pgdir sz s' d
      | none => s'.freelist.Perm s.freelist := by
  have hwp := h.park.wp_copyuvm (E := fun _ => False)
    (UInt32.le_of_lt hsz) (park_has o s pgdir)
    (fun n hn hnone => absurd hnone (hpres n hn))
  have hkeep : forall d' s', Holds (o.park s pgdir) d' loose s' ->
      forall pa, pa ∈ s.pages pgdir -> s'.mem pa = s.mem pa :=
    fun d' s' h' pa hpa => h'.mem pa (Multiset.mem_add.mpr (.inl hpa))
  cases hrun : copyuvm pgdir sz s with
  | error e => exact (wp_error hwp hrun).elim
  | ok x =>
      rcases x with ⟨r, s'⟩
      refine ⟨r, s', rfl, ?_⟩
      rcases wp_ok hwp hrun with ⟨rfl, h', _⟩ |
        ⟨d, rfl, h', hmaps, hcopied, hkmap⟩
      · exact ⟨hkeep none s' h', h.freelist_perm h'⟩
      · exact ⟨hkeep (some d) s' h', hcopied.twin hpres hsz h h' hmaps hkmap⟩

end Copy

theorem copyuvm_faithful_boot :
    exists d s', copyuvm (pageAddr 0x401) 4096 bootVm = .ok (some d, s') ∧
      (forall pa, pa ∈ bootVm.pages (pageAddr 0x401) ->
        s'.mem pa = bootVm.mem pa) ∧
      Twin bootVm (pageAddr 0x401) 4096 s' d := by
  rcases Kernel.boot_opened with ⟨o, h⟩
  have hone : pagesOf 4096 ≤ UPAGES := by decide
  rcases copyuvm_faithful h (show (4096 : UInt32) < KERNBASE by decide)
    (fun n hn => (Kernel.boot_maps n (by lia)).mpr hn) with
    ⟨r, s', hrun, hmem, hr⟩
  have hpages : pagesOf 4096 = 1 := by decide
  have hroom := Kernel.boot_room (i := 0)
    (n := 1 + (NPDENTRIES + (0 + pagesOf 4096) + 1)) (by decide)
  rw [List.drop_zero, show 1 = pagesOf 4096 from hpages.symm] at hroom
  change Room _ _ _ bootVm at hroom
  generalize bootVm = s at hrun hroom hmem hr ⊢
  have hsome := (wp_ok (hroom.wp_copyuvm (by decide)) hrun).1
  cases r with
  | none => exact absurd rfl hsome
  | some d => exact ⟨d, s', hrun, hmem, hr⟩

end Vm

/-!
## Growing and shrinking
-/

namespace Kernel

section Growth

variable {o : Vm.Others} {loose : Multiset UInt32} {cur : Pslot} {k k' : Kernel}
  {d : UInt32} {n : Int32}

/-- A running process with the pages below its size and no others. -/
structure Fitted (o : Vm.Others) (loose : Multiset UInt32) (cur : Pslot)
    (d : UInt32) (k : Kernel) : Prop where
  pgdir : (k.proc cur).pgdir = some d
  kstack : (k.proc cur).kstack ≠ none
  holds : Vm.Holds o (some d) loose k.vm
  maps : Vm.Maps d (pagesOf (k.proc cur).sz) k.vm
  pos : 0 < (k.proc cur).sz
  lt : (k.proc cur).sz < KERNBASE

/-- `growproc` has changed the size by exactly `n` and kept what stays, or it has
failed and changed nothing. -/
def Resized (cur : Pslot) (d : UInt32) (n : Int32) (k k' : Kernel) (r : Int) :
    Prop :=
  (r = 0 ∧ ((k'.proc cur).sz.toNat : Int) = (k.proc cur).sz.toNat + n.toInt ∧
    (k'.proc cur).sz < KERNBASE ∧
    Vm.Maps d (pagesOf (k'.proc cur).sz) k'.vm ∧
    forall m, m < pagesOf (k.proc cur).sz -> m < pagesOf (k'.proc cur).sz ->
      k'.vm.content d m = k.vm.content d m) ∨
  (r = -1 ∧ (k'.proc cur).sz = (k.proc cur).sz ∧
    forall m, m < UPAGES -> k'.vm.content d m = k.vm.content d m)

theorem content_spared {P : Nat -> Prop} {s s' : Vm} {m : Nat}
    (h : Vm.Spares d P s s') (hm : m < UPAGES) (hP : P m)
    (hentry : s'.entry d m = s.entry d m) :
    s'.content d m = s.content d m := by
  unfold Vm.content
  rw [Vm.frame_congr hentry]
  cases hframe : s.frame d m with
  | none => rfl
  | some pa => exact congrArg some (h.mem m pa hm hP hframe)

theorem content_unmapped {s s' : Vm} {m : Nat} (h : s.frame d m = none)
    (h' : s'.frame d m = none) : s'.content d m = s.content d m := by
  unfold Vm.content
  rw [h, h']
  rfl

/-- What `growproc` does: `sz` is the result of `allocuvm` or `deallocuvm`. -/
def Growth (cur : Pslot) (d : UInt32) (n : Int32) (k : Kernel) (r : Int)
    (k' : Kernel) : Prop :=
  exists sz, Sized n d (k.proc cur).sz k.vm sz k'.vm ∧
    Vm.Spares d (fun m => m < pagesOf (k.proc cur).sz ∧
      (n < 0 -> m < pagesOf ((k.proc cur).sz + n.toUInt32))) k.vm k'.vm ∧
    if n ≠ 0 ∧ sz = 0 then
      r = -1 ∧ (k'.proc cur).sz = (k.proc cur).sz
    else
      r = 0 ∧ (k'.proc cur).sz = sz

theorem wp_growth (hk : Fitted o loose cur d k) (n : Int32) :
    wp (growproc cur n) (Growth cur d n k) (fun _ => False) k := by
  apply wp_post (wp_growproc hk.holds hk.pgdir (UInt32.le_of_lt hk.lt) n
    (fun m hm hm' hframe => ?_) hk.kstack)
  · rintro r k' ⟨sz, s', hsized, _, hspares, hsettles⟩
    cases hsettles with
    | fail hfail =>
        refine ⟨sz, hsized, hspares, ?_⟩
        rw [if_pos hfail]
        exact ⟨rfl, rfl⟩
    | done hok =>
        refine ⟨sz, hsized, hspares, ?_⟩
        rw [if_neg hok]
        exact ⟨rfl, congrArg Proc.sz (Function.update_self cur _ k.proc)⟩
  · have hbelow := (hk.maps m hm').mp hframe
    lia

theorem Growth.resized {r : Int} (hk : Fitted o loose cur d k)
    (h : Growth cur d n k r k')
    (hpos : 0 < ((k.proc cur).sz.toNat : Int) + n.toInt) :
    Resized cur d n k k' r := by
  rcases h with ⟨sz, hsized, hspares, hend⟩
  have hadd := toNat_add_signed (k.proc cur).sz n
  have hlt : (k.proc cur).sz.toNat < 2147483648 :=
    UInt32.lt_iff_toNat_lt.mp hk.lt
  have hnlt := n.toInt_lt
  have hup := pagesOf_le (UInt32.le_of_lt hk.lt)
  have hexact : (((k.proc cur).sz + n.toUInt32).toNat : Int) =
      (k.proc cur).sz.toNat + n.toInt := by lia
  have hleft : n < 0 -> (k.proc cur).sz + n.toUInt32 ≠ 0 := by
    intro _ hzero
    rw [hzero] at hexact
    have hnat : (0 : UInt32).toNat = 0 := rfl
    lia
  have hmaps := hsized.maps hk.maps hleft
  unfold Resized
  generalize k'.vm = s' at hsized hspares hmaps
  cases hsized with
  | up hn hallocs =>
      have hn' : 0 < n.toInt := Int32.lt_iff_toInt_lt.mp hn
      have hne : n ≠ 0 := by
        rintro rfl
        exact absurd hn (by decide)
      cases hallocs with
      | fail hentries =>
          rw [if_pos ⟨hne, rfl⟩] at hend
          refine Or.inr ⟨hend.1, hend.2, ?_⟩
          intro m hm
          rcases Nat.lt_or_ge m (pagesOf (k.proc cur).sz) with hbelow | habove
          · rcases hentries m with hentry | ⟨hge, _⟩
            · exact content_spared hspares hm
                ⟨hbelow, fun hneg => absurd hneg (Int32.not_lt.mpr
                  (Int32.le_of_lt hn))⟩ hentry
            · lia
          · have hnone : k.vm.frame d m = none := by
              apply of_not_not
              intro hmapped
              have hlt := (hk.maps m hm).mp hmapped
              lia
            refine content_unmapped hnone ?_
            rcases hentries m with hentry | ⟨_, _, hgone⟩
            · rw [Vm.frame_congr hentry]
              exact hnone
            · exact hgone
      | keep hshrink =>
          have hshrink' := UInt32.lt_iff_toNat_lt.mp hshrink
          lia
      | grow hle hbase hfill =>
          have hnz : ¬ (n ≠ 0 ∧ (k.proc cur).sz + n.toUInt32 = 0) := by
            rintro ⟨_, hzero⟩
            rw [hzero] at hexact
            have hnat : (0 : UInt32).toNat = 0 := rfl
            lia
          rw [if_neg hnz] at hend hmaps
          refine Or.inl ⟨hend.1, ?_, ?_, ?_, ?_⟩
          · rw [hend.2, hexact]
          · rw [hend.2]
            exact hbase
          · rw [hend.2]
            exact hmaps
          · intro m hm _
            exact content_spared hspares (by lia)
              ⟨hm, fun hneg => absurd hneg (Int32.not_lt.mpr
                (Int32.le_of_lt hn))⟩ (hfill.same m (by lia))
  | down hn hclear =>
      have hn' : n.toInt < 0 := Int32.lt_iff_toInt_lt.mp hn
      have hshrink : ¬ (k.proc cur).sz ≤ (k.proc cur).sz + n.toUInt32 := by
        rw [UInt32.le_iff_toNat_le]
        lia
      rw [if_neg hshrink] at hend hmaps
      have hnz : ¬ (n ≠ 0 ∧ (k.proc cur).sz + n.toUInt32 = 0) :=
        fun hboth => hleft hn hboth.2
      rw [if_neg hnz] at hend hmaps
      refine Or.inl ⟨hend.1, ?_, ?_, ?_, ?_⟩
      · rw [hend.2, hexact]
      · rw [hend.2]
        exact UInt32.lt_trans (UInt32.not_le.mp hshrink) hk.lt
      · rw [hend.2]
        exact hmaps
      · intro m hm hm'
        rw [hend.2] at hm'
        exact content_spared hspares (by lia) ⟨hm, fun _ => hm'⟩
          (hclear.same m (by lia))
  | zero hn =>
      have hzero : n.toInt = 0 := by
        rw [hn]
        rfl
      have hnz : ¬ (n ≠ 0 ∧ (k.proc cur).sz = 0) := fun hboth => hboth.1 hn
      rw [if_neg hnz] at hend hmaps
      refine Or.inl ⟨hend.1, ?_, ?_, ?_, ?_⟩
      · rw [hend.2, hzero, add_zero]
      · rw [hend.2]
        exact hk.lt
      · rw [hend.2]
        exact hmaps
      · intro m hm _
        exact content_spared hspares (by lia)
          ⟨hm, fun hneg => absurd hneg (by rw [hn]; decide)⟩ rfl

theorem Growth.not_resized {r : Int} (hk : Fitted o loose cur d k)
    (h : Growth cur d n k r k')
    (hneg : ((k.proc cur).sz.toNat : Int) + n.toInt ≤ 0) :
    ¬ Resized cur d n k k' r := by
  rcases h with ⟨sz, hsized, _, hend⟩
  have hadd := toNat_add_signed (k.proc cur).sz n
  have hlt : (k.proc cur).sz.toNat < 2147483648 :=
    UInt32.lt_iff_toNat_lt.mp hk.lt
  have hpos : 0 < (k.proc cur).sz.toNat := UInt32.lt_iff_toNat_lt.mp hk.pos
  have hnlt := n.minValue_le_toInt
  have hmin : Int32.minValue.toInt = -2147483648 := by decide
  have hn : n < 0 := by
    rw [Int32.lt_iff_toInt_lt]
    show n.toInt < 0
    lia
  have hne : n ≠ 0 := by
    rintro rfl
    exact absurd hn (by decide)
  unfold Resized
  generalize k'.vm = s' at hsized
  cases hsized with
  | up hup _ => exact absurd hn (Int32.not_lt.mpr (Int32.le_of_lt hup))
  | zero hzero => exact absurd hzero hne
  | down _ hclear =>
      rcases eq_or_ne (((k.proc cur).sz.toNat : Int) + n.toInt) 0 with
        hzero | hwrap
      · have hnew : (k.proc cur).sz + n.toUInt32 = 0 := by
          apply UInt32.toNat_inj.mp
          have hnat : (0 : UInt32).toNat = 0 := rfl
          lia
        have hmore : ¬ (k.proc cur).sz ≤ 0 := by
          rw [UInt32.le_iff_toNat_le]
          have hnat : (0 : UInt32).toNat = 0 := rfl
          lia
        rw [hnew, if_neg hmore, if_pos ⟨hne, rfl⟩] at hend
        rintro (⟨hr, _⟩ | ⟨_, _, hsame⟩)
        · rw [hend.1] at hr
          cases hr
        · -- the first page was mapped and is gone
          have hfirst : 0 < pagesOf (k.proc cur).sz := by
            unfold pagesOf
            lia
          have hmapped := (hk.maps 0 (by decide)).mpr hfirst
          have hgone := hclear.gone 0 (by rw [hnew]; decide) hfirst
          have hsame := hsame 0 (by decide)
          unfold Vm.content at hsame
          rw [hgone] at hsame
          exact hmapped (Option.map_eq_none_iff.mp hsame.symm)
      · have hle : (k.proc cur).sz ≤ (k.proc cur).sz + n.toUInt32 := by
          rw [UInt32.le_iff_toNat_le]
          lia
        have hnz : ¬ (n ≠ 0 ∧ (k.proc cur).sz = 0) := by
          rintro ⟨_, hzero⟩
          have hpos' := hk.pos
          rw [hzero] at hpos'
          exact absurd hpos' (UInt32.lt_irrefl 0)
        rw [if_pos hle, if_neg hnz] at hend
        rintro (⟨_, hsz, _⟩ | ⟨hr, _⟩)
        · rw [hend.2] at hsz
          lia
        · rw [hend.1] at hr
          cases hr

theorem growproc_exact_iff (hk : Fitted o loose cur d k) (n : Int32) :
    (exists r k', growproc cur n k = .ok (r, k') ∧ Resized cur d n k k' r) ↔
      0 < ((k.proc cur).sz.toNat : Int) + n.toInt := by
  have hwp := wp_growth hk n
  cases hrun : growproc cur n k with
  | error e => exact (wp_error hwp hrun).elim
  | ok x =>
      rcases x with ⟨r, k'⟩
      have hgrowth := wp_ok hwp hrun
      constructor
      · rintro ⟨_, _, heq, hresized⟩
        cases heq
        apply lt_of_not_ge
        intro hneg
        exact hgrowth.not_resized hk hneg hresized
      · intro hpos
        exact ⟨r, k', rfl, hgrowth.resized hk hpos⟩

end Growth

theorem boot_fitted :
    exists o, Fitted o 0 0 (pageAddr 0x401) boot := by
  rcases boot_opened with ⟨o, h⟩
  exact ⟨o, rfl, nofun, h, boot_maps, by decide, by decide⟩

theorem growproc_exact_boot :
    exists k', growproc 0 4096 boot = .ok (0, k') ∧
      Resized 0 (pageAddr 0x401) 4096 boot k' 0 := by
  rcases boot_fitted with ⟨o, h⟩
  rcases (growproc_exact_iff h 4096).mpr (by decide) with
    ⟨r, k', hrun, hresized⟩
  have hvalue : value? (growproc 0 4096 boot) = some 0 := by decide +kernel
  rw [hrun] at hvalue
  cases hvalue
  exact ⟨k', hrun, hresized⟩

/-- `sbrk(-4096)` and `sbrk(-8192)` by a process of one page. -/
theorem growproc_inexact :
    (exists k', growproc 0 (-4096) boot = .ok (-1, k') ∧
      boot.vm.content (pageAddr 0x401) 0 ≠ none ∧
      k'.vm.content (pageAddr 0x401) 0 = none) ∧
    exists k', growproc 0 (-8192) boot = .ok (0, k') ∧
      (k'.proc 0).sz = 4096 := by
  rcases boot_fitted with ⟨o, hk⟩
  have hsz : (boot.proc 0).sz = 4096 := rfl
  constructor
  · have hwp := wp_growth hk (-4096)
    cases hrun : growproc 0 (-4096) boot with
    | error e => exact (wp_error hwp hrun).elim
    | ok x =>
        rcases x with ⟨r, k'⟩
        rcases wp_ok hwp hrun with ⟨sz, hsized, _, hend⟩
        generalize hs' : k'.vm = s' at hsized
        cases hsized with
        | up hn _ | zero hn => exact absurd hn (by decide)
        | down _ hclear =>
            rw [hsz] at hclear hend
            have hmapped : bootVm.content (pageAddr 0x401) 0 ≠ none := by
              unfold Vm.content
              rw [boot_frame (by decide)]
              nofun
            have hgone := hclear.gone 0 (by decide) (by decide)
            refine ⟨k', congrArg (fun r => Except.ok (r, k')) hend.1,
              hmapped, ?_⟩
            unfold Vm.content
            rw [hs', hgone]
            rfl
  · have hwp := wp_growth hk (-8192)
    cases hrun : growproc 0 (-8192) boot with
    | error e => exact (wp_error hwp hrun).elim
    | ok x =>
        rcases x with ⟨r, k'⟩
        rcases wp_ok hwp hrun with ⟨sz, hsized, _, hend⟩
        generalize k'.vm = s' at hsized
        cases hsized with
        | up hn _ | zero hn => exact absurd hn (by decide)
        | down _ hclear =>
            rw [hsz] at hend
            exact ⟨k', congrArg (fun r => Except.ok (r, k')) hend.1, hend.2⟩

end Kernel

end Xv6
