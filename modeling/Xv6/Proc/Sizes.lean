import Xv6.Proc.Shifts

/-!
# The size of a shared address space

A thread has the address space of its parent but a size of its own, so what one
of them does to the size the others do not learn.  `growproc` also takes all
pages away from a process that shrinks to nothing, and then reports a failure
and leaves the size.  Apart from these two cases the live processes of an
address space agree on its size, and every page below it is there.
-/

namespace Xv6

namespace Vm

theorem maps_congr {d : UInt32} {n : Nat} {s s' : Vm}
    (hentry : s'.entry d = s.entry d) (h : Maps d n s) : Maps d n s' := by
  intro m hm
  have hframe : s'.frame d m = s.frame d m := by
    unfold frame
    rw [hentry]
  rw [hframe]
  exact h m hm

end Vm

namespace Kernel

open Lib Lib.Run

/-- Every live process has the pages below its size and no others, and those
that share an address space have the same size. -/
structure Fitting (k : Kernel) : Prop where
  maps : forall p d, Alive (k.proc p).state -> (k.proc p).pgdir = some d ->
    Vm.Maps d (pagesOf (k.proc p).sz) k.vm
  same : forall p q d, Alive (k.proc p).state -> Alive (k.proc q).state ->
    (k.proc p).pgdir = some d -> (k.proc q).pgdir = some d ->
      (k.proc p).sz = (k.proc q).sz

/-- No address space is given up; a process changes the size of its own only
while no other live process has it, and only if something is left. -/
structure Settled (k : Kernel) (a : Act) : Prop where
  wait : forall cur, a ≠ .wait cur
  exec : forall cur args, a ≠ .call cur (.exec args)
  alone : forall cur n, a = .sbrk cur (some n) -> n ≠ 0 ->
    forall q, q ≠ cur -> Alive (k.proc q).state ->
      (k.proc q).pgdir ≠ (k.proc cur).pgdir
  left : forall cur n, a = .sbrk cur (some n) -> n < 0 ->
    (k.proc cur).sz + n.toUInt32 ≠ 0

theorem alive_used {st : Procstate} (h : Alive st) : st ≠ .UNUSED := by
  rintro rfl
  exact absurd h (by decide)

section Steps

variable {b : Vm.Managed} {lost : Multiset UInt32} {k k' : Kernel} {a : Act}
  {q : Pslot}

theorem alive_before (hstep : Step k a k')
    (halive : Alive (k'.proc q).state) :
    Alive (k.proc q).state ∨ (k.proc q).state = .UNUSED := by
  rcases Classical.em a.own with hown | hown
  · have hcaller : exists cur, a.caller = some cur := by
      cases a with
      | call cur c | dup cur fd | pipe cur ok | sbrk cur n => exact ⟨cur, rfl⟩
      | _ => exact hown.elim
    rcases hcaller with ⟨cur, hcur⟩
    have howns := own_of_step hstep hown hcur
    rcases eq_or_ne q cur with rfl | hne
    · exact .inl (caller_alive hstep hcur)
    · rw [show k'.proc q = k.proc q from howns.other q hne] at halive
      exact .inl halive
  · rcases step_stays hstep hown q with hstays | ⟨cur, _, hchild⟩
    · exact .inl (hstays halive).1
    · exact .inr hchild.free

structure SameSlot (k k' : Kernel) (q : Pslot) : Prop where
  alive : Alive (k.proc q).state
  pgdir : (k'.proc q).pgdir = (k.proc q).pgdir
  sz : (k'.proc q).sz = (k.proc q).sz

theorem sameSlot (hstep : Step k a k') (halive : Alive (k'.proc q).state)
    (h : k'.holdings q = k.holdings q) : SameSlot k k' q := by
  have hnew : k'.holdings q = some _ := holding_used (alive_used halive)
  rcases holdings_some (h.symm.trans hnew) with ⟨hused, heq⟩
  refine ⟨?_, congrArg Holding.pgdir heq, congrArg Holding.sz heq⟩
  rcases alive_before hstep halive with hbefore | hunused
  · exact hbefore
  · exact absurd hunused hused

theorem SameSlot.maps (hslot : SameSlot k k' q) (h : Fitting k) {d : UInt32}
    (hd : (k'.proc q).pgdir = some d)
    (hentry : k'.vm.entry d = k.vm.entry d) :
    Vm.Maps d (pagesOf (k'.proc q).sz) k'.vm := by
  rw [hslot.sz]
  apply Vm.maps_congr hentry
  exact h.maps q d hslot.alive (hslot.pgdir.symm.trans hd)

theorem SameSlot.same {p : Pslot} (hp : SameSlot k k' p)
    (hq : SameSlot k k' q) (h : Fitting k) {d : UInt32}
    (hpd : (k'.proc p).pgdir = some d) (hqd : (k'.proc q).pgdir = some d) :
    (k'.proc p).sz = (k'.proc q).sz := by
  rw [hp.sz, hq.sz]
  rw [hp.pgdir] at hpd
  rw [hq.pgdir] at hqd
  exact h.same p q d hp.alive hq.alive hpd hqd

theorem Fitting.kept (h : Fitting k) (hstep : Step k a k')
    (hslots : k'.holdings = k.holdings)
    (hentry : forall d, d ∈ k.holdings.dirs ->
      k'.vm.entry d = k.vm.entry d) : Fitting k' := by
  have hslot : forall q, Alive (k'.proc q).state -> SameSlot k k' q :=
    fun q hq => sameSlot hstep hq (by rw [hslots])
  constructor
  · intro p d hp hd
    have hmem : d ∈ k.holdings.dirs := by
      rw [← hslots]
      exact mem_dirs_used (alive_used hp) hd
    exact (hslot p hp).maps h hd (hentry d hmem)
  · exact fun p q d hp hq hpd hqd => (hslot p hp).same (hslot q hq) h hpd hqd

theorem Fitting.changed (h : Fitting k) (hstep : Step k a k') {p : Pslot}
    {d : UInt32} {v : Holding} (hnew : k'.holdings p = some v)
    (hslots : forall q, q ≠ p -> k'.holdings q = k.holdings q)
    (hentry : forall q e, q ≠ p -> Alive (k.proc q).state ->
      (k.proc q).pgdir = some e -> k'.vm.entry e = k.vm.entry e)
    (hd : v.pgdir = some d) (hmaps : Vm.Maps d (pagesOf v.sz) k'.vm)
    (hsame : forall q, q ≠ p -> Alive (k.proc q).state ->
      (k.proc q).pgdir = some d -> (k.proc q).sz = v.sz) :
    Fitting k' := by
  rcases holdings_some hnew with ⟨_, rfl⟩
  have hslot : forall q, q ≠ p -> Alive (k'.proc q).state ->
      SameSlot k k' q :=
    fun q hne hq => sameSlot hstep hq (hslots q hne)
  -- the one that changed and another one
  have hnew : forall q, q ≠ p -> Alive (k'.proc q).state ->
      (k'.proc q).pgdir = some d -> (k'.proc q).sz = (k'.proc p).sz := by
    intro q hne hq hqd
    have hkept := hslot q hne hq
    rw [hkept.sz]
    exact hsame q hne hkept.alive (hkept.pgdir.symm.trans hqd)
  constructor
  · intro q e hq he
    rcases eq_or_ne q p with rfl | hne
    · cases hd.symm.trans he
      exact hmaps
    · have hkept := hslot q hne hq
      exact hkept.maps h he
        (hentry q e hne hkept.alive (hkept.pgdir.symm.trans he))
  · intro q r e hq hr hqe hre
    rcases eq_or_ne q p with rfl | hqp
    · cases hd.symm.trans hqe
      rcases eq_or_ne r q with rfl | hrq
      · rfl
      · exact (hnew r hrq hr hre).symm
    · rcases eq_or_ne r p with rfl | hrp
      · cases hd.symm.trans hre
        exact hnew q hqp hq hqe
      · exact (hslot q hqp hq).same (hslot r hrp hr) h hqe hre

/-!
## Growing and shrinking
-/

theorem maps_filled {d : UInt32} {m n : Nat} {s s' : Vm} (hmn : m ≤ n)
    (h : Vm.Filled d m n s s') (hmaps : Vm.Maps d m s) : Vm.Maps d n s' := by
  intro i hi
  rcases Decidable.em (m ≤ i ∧ i < n) with hin | hout
  · exact iff_of_true (h.mapped i hin.1 hin.2) hin.2
  · rw [Vm.frame_congr (h.same i hout), hmaps i hi]
    lia

theorem maps_cleared {d : UInt32} {m n : Nat} {s s' : Vm} (hmn : m ≤ n)
    (h : Vm.Cleared d m n s s') (hmaps : Vm.Maps d n s) :
    Vm.Maps d m s' := by
  intro i hi
  rcases Decidable.em (m ≤ i ∧ i < n) with hin | hout
  · rw [h.gone i hin.1 hin.2]
    exact iff_of_false (fun hne => hne rfl) (by lia)
  · rw [Vm.frame_congr (h.same i hout), hmaps i hi]
    lia

theorem toUInt32_eq_zero {n : Int32} (h : n.toUInt32 = 0) : n = 0 := by
  cases n with
  | ofUInt32 u =>
      cases h
      rfl

theorem Sized.maps {n : Int32} {d sz r : UInt32} {s s' : Vm}
    (h : Sized n d sz s r s') (hmaps : Vm.Maps d (pagesOf sz) s)
    (hleft : n < 0 -> sz + n.toUInt32 ≠ 0) :
    Vm.Maps d (pagesOf (if n ≠ 0 ∧ r = 0 then sz else r)) s' := by
  cases h with
  | up hn h =>
      have hne : n ≠ 0 := by
        rintro rfl
        exact absurd hn (by decide)
      cases h with
      | fail h =>
          rw [if_pos ⟨hne, rfl⟩]
          intro m hm
          rcases h m with hentry | ⟨hge, _, hnone⟩
          · rw [Vm.frame_congr hentry, hmaps m hm]
          · rw [hnone]
            exact iff_of_false (fun hne => hne rfl) (by lia)
      | keep hlt =>
          rw [ite_self]
          exact hmaps
      | grow hle hlt h =>
          have hnz : ¬ (n ≠ 0 ∧ sz + n.toUInt32 = 0) := by
            rintro ⟨_, hzero⟩
            rw [hzero] at hle
            have hsz : sz = 0 := UInt32.le_zero_iff.mp hle
            rw [hsz, UInt32.zero_add] at hzero
            exact hne (toUInt32_eq_zero hzero)
          rw [if_neg hnz]
          exact maps_filled (pagesOf_mono hle) h hmaps
  | down hn h =>
      rcases Decidable.em (sz ≤ sz + n.toUInt32) with hle | hlt
      · rw [if_pos hle, ite_self]
        intro m hm
        have hge := pagesOf_mono hle
        rw [Vm.frame_congr (h.same m (by lia)), hmaps m hm]
      · rw [if_neg hlt, if_neg (fun hboth => hleft hn hboth.2)]
        have hle := UInt32.le_of_lt (UInt32.not_le.mp hlt)
        exact maps_cleared (pagesOf_mono hle) h hmaps
  | zero hn =>
      rw [if_neg (fun hboth => hboth.1 hn)]
      exact hmaps

theorem Sized.of_zero {d sz r : UInt32} {s s' : Vm}
    (h : Sized 0 d sz s r s') : r = sz ∧ s' = s := by
  cases h with
  | up hn | down hn => exact absurd hn (by decide)
  | zero => exact ⟨rfl, rfl⟩

theorem Fitting.resized (h : Fitting k) (hsettled : Settled k a)
    (hstep : Step k a k') {cur : Pslot} {n : Option Int32}
    (ha : a = .sbrk cur n) (hcur : (k.proc cur).state = .RUNNING)
    (hres : Resizes b lost cur n k k') : Fitting k' := by
  have halive : Alive (k.proc cur).state := by
    rw [hcur]
    decide
  cases hres with
  | none => exact h
  | done i d sz hi hd hsized hpipes hslots hs =>
      subst hi
      have hmaps := hsized.maps (h.maps cur d halive hd)
        (hsettled.left cur i ha)
      -- the size that is left to the process
      have hnew : k'.holdings cur = some ⟨some d, (k.proc cur).kstack,
          if i ≠ 0 ∧ sz = 0 then (k.proc cur).sz else sz⟩ := by
        rw [hslots]
        split
        · rw [← hd]
          exact holding_used (alive_used halive)
        · exact Function.update_self ..
      have hothers : forall q, q ≠ cur -> k'.holdings q = k.holdings q := by
        intro q hne
        rw [hslots]
        split
        · rfl
        · exact Function.update_of_ne hne _ _
      rcases eq_or_ne i 0 with rfl | hi
      · rcases hsized.of_zero with ⟨hsz, hvm⟩
        apply h.kept hstep
        · funext q
          rcases eq_or_ne q cur with rfl | hne
          · rw [hnew, if_neg (fun hboth => hboth.1 rfl), hsz, ← hd]
            exact (holding_used (alive_used halive)).symm
          · exact hothers q hne
        · intro e _
          rw [hvm]
      · have halone := hsettled.alone cur i ha hi
        apply h.changed hstep hnew hothers _ rfl hmaps
        · intro q hne hq hqd
          exact absurd (hqd.trans hd.symm) (halone q hne hq)
        · intro q e hne hq hqe
          have hed : e ≠ d := by
            rintro rfl
            exact halone q hne hq (hqe.trans hd.symm)
          exact (beside_keeps hs (Finset.mem_erase.mpr
            ⟨hed, mem_dirs_used (alive_used hq) hqe⟩)).2

theorem Fitting.spawned (h : Fitting k) (htidy : Tidy b lost k)
    (hstep : Step k a k') (hspawns : Spawns b lost k a k') : Fitting k' := by
  cases hspawns with
  | fail hpipes hslots hs =>
      exact h.kept hstep hslots (fun d hd => (beside_keeps hs hd).2)
  | copied cur p x d hcur hfree hpipes hslots hs hmaps =>
      have hnew : k'.holdings p = some ⟨some d, some x, (k.proc cur).sz⟩ := by
        rw [hslots, Function.update_self]
      apply h.changed hstep hnew _ _ rfl hmaps
      · -- nobody had the new directory
        intro q hne hq hqd
        exact absurd (mem_dirs_used (alive_used hq) hqd) (beside_notMem hs)
      · intro q hne
        rw [hslots, Function.update_of_ne hne]
      · intro q e hne hq hqe
        exact (beside_keeps hs (mem_dirs_used (alive_used hq) hqe)).2
  | shared cur p stack x hcur hfree hpipes hslots hs =>
      have halive : Alive (k.proc cur).state := caller_alive hstep rfl
      rcases Option.ne_none_iff_exists'.mp
        (htidy.space cur _ (holding_used hcur)) with ⟨d, hd⟩
      have hnew : k'.holdings p =
          some ⟨(k.proc cur).pgdir, some x, (k.proc cur).sz⟩ := by
        rw [hslots, Function.update_self]
      have hkept : forall q e, Alive (k.proc q).state ->
          (k.proc q).pgdir = some e -> k'.vm.entry e = k.vm.entry e :=
        fun q e hq hqe =>
          (beside_keeps hs (mem_dirs_used (alive_used hq) hqe)).2
      apply h.changed hstep hnew _ _ hd
      · exact Vm.maps_congr (hkept cur d halive hd) (h.maps cur d halive hd)
      · exact fun q _ hq hqd => h.same q cur d hq halive hqd hd
      · intro q hne
        rw [hslots, Function.update_of_ne hne]
      · exact fun q e _ hq hqe => hkept q e hq hqe

theorem fitting_step (htidy : Tidy b lost k) (h : Fitting k)
    (hsettled : Settled k a) (hstep : Step k a k') : Fitting k' := by
  cases step_shifts htidy hstep with
  | same hslots hat =>
      exact h.kept hstep hslots (fun d hd => (hat.same d hd).2)
  | spawns hspawns => exact h.spawned htidy hstep hspawns
  | reaps cur hreaps => exact absurd rfl (hsettled.wait cur)
  | resizes cur n hcur hres => exact h.resized hsettled hstep rfl hcur hres
  | execs cur args => exact absurd rfl (hsettled.exec cur args)

theorem Settled.freesOwn (h : Settled k a) : FreesOwn k a := by
  intro p hfrees
  cases a with
  | wait cur => exact absurd rfl (h.wait cur)
  | call cur c =>
      cases c with
      | exec args => exact absurd rfl (h.exec cur args)
      | _ => exact hfrees.elim
  | _ => exact hfrees.elim

/-!
## Runs
-/

variable {k₀ : Kernel}

/-- After boot the pages of `init` are there. -/
structure Loaded (b : Vm.Managed) (k : Kernel) : Prop
    extends Launched b k where
  image : forall d, (k.proc k.initproc).pgdir = some d ->
    Vm.Maps d (pagesOf (k.proc k.initproc).sz) k.vm

theorem boot_loaded : Loaded bootManaged boot := by
  refine ⟨boot_launched, ?_⟩
  intro d hd
  have hdir : d = pageAddr 0x401 := (Option.some.inj hd).symm
  subst hdir
  intro m hm
  show bootVm.frame (pageAddr 0x401) m ≠ none ↔ m < pagesOf 4096
  have hone : pagesOf 4096 = 1 := by decide
  rw [boot_frame hm, hone]
  split
  · rename_i hzero
    exact iff_of_true (Option.some_ne_none _) (by lia)
  · exact iff_of_false (fun hne => hne rfl) (by lia)

theorem Loaded.fitting (h : Loaded b k) : Fitting k := by
  constructor
  · intro p d hp hd
    cases h.used (alive_used hp)
    exact h.image d hd
  · intro p q d hp hq _ _
    rw [h.used (alive_used hp), h.used (alive_used hq)]

/-- In a settled run the live processes that share an address space agree on
its size and have all the pages below it, so that neither `growproc` nor `fork`
meets a page that it does not expect. -/
theorem sizes_agree (hstart : Loaded b k₀) (hruns : Runs Step Settled k₀ k) :
    (forall p q, Alive (k.proc p).state -> Alive (k.proc q).state ->
      (k.proc p).pgdir = (k.proc q).pgdir ->
        (k.proc p).sz = (k.proc q).sz) ∧
      (forall p d n, Alive (k.proc p).state -> (k.proc p).pgdir = some d ->
        n < pagesOf (k.proc p).sz -> k.vm.frame d n ≠ none) ∧
      forall cur, (k.proc cur).state = .RUNNING ->
        (forall n, growproc cur n k ≠ .error (.panic "remap")) ∧
          forall e, CopyPanic e -> fork cur k ≠ .error e := by
  have hinv : (exists lost, Tidy b lost k) ∧ Fitting k := by
    apply hruns.invariant (I := fun k => (exists lost, Tidy b lost k) ∧
      Fitting k) ⟨⟨0, hstart.tidy⟩, hstart.fitting⟩
    rintro k1 a k2 ⟨⟨lost, htidy⟩, hfitting⟩ hsettled hstep
    rcases step_tidy htidy hsettled.freesOwn hstep with ⟨lost', htidy', _⟩
    exact ⟨⟨lost', htidy'⟩, fitting_step htidy hfitting hsettled hstep⟩
  rcases hinv with ⟨⟨lost, htidy⟩, h⟩
  have hdir : forall p, Alive (k.proc p).state ->
      exists d, (k.proc p).pgdir = some d := fun p hp =>
    Option.ne_none_iff_exists'.mp
      (htidy.space p _ (holding_used (alive_used hp)))
  have hpage : forall p d n, Alive (k.proc p).state ->
      (k.proc p).pgdir = some d -> n < UPAGES ->
        (k.vm.frame d n ≠ none ↔ n < pagesOf (k.proc p).sz) :=
    fun p d n hp hd hn => h.maps p d hp hd n hn
  have hbound : forall p, Alive (k.proc p).state ->
      pagesOf (k.proc p).sz ≤ UPAGES := fun p hp =>
    pagesOf_le (htidy.allotted.size p _ (holding_used (alive_used hp)))
  refine ⟨?_, ?_, ?_⟩
  · intro p q hp hq heq
    rcases hdir p hp with ⟨d, hd⟩
    exact h.same p q d hp hq hd (heq.symm.trans hd)
  · intro p d n hp hd hn
    exact (hpage p d n hp hd (hn.trans_le (hbound p hp))).mpr hn
  · intro cur hcur
    have halive : Alive (k.proc cur).state := by
      rw [hcur]
      decide
    constructor
    · intro n hstop
      have hwp := wp_resizes_growproc (E := fun e => e ≠ .panic "remap")
        htidy.allotted (alive_used halive) n (fun e he => he) (by
          intro d m hd hge hlt hframe
          have hin := (hpage cur d m halive hd hlt).mp hframe
          lia)
      exact wp_error hwp hstop rfl
    · intro e he hstop
      have hwp := wp_spawns_fork (E := fun e => ¬ CopyPanic e)
        htidy.allotted (alive_used halive) (fun e he => he) (by
          intro d n hd hlt hframe
          have hin := (hpage cur d n halive hd
            (hlt.trans_le (hbound cur halive))).mpr hlt
          exact absurd hframe hin)
      exact wp_error hwp hstop he

end Steps

/-- `init` makes a thread, whose size is that of `init`. -/
theorem sizes_agree_thread :
    exists k, Loaded bootManaged boot ∧ Runs Step Settled boot k ∧
      Alive (k.proc 0).state ∧ Alive (k.proc 1).state ∧
        (k.proc 1).sz = (k.proc 0).sz := by
  have hclone : Runs Step Settled boot (next (.clone 0 2048) boot) := by
    refine Runs.refl.tail (.clone 0 2048) ?_
      (step_next (r := 2) (enabled_call rfl rfl) (by decide +kernel))
    constructor
    · exact fun _ => Act.noConfusion
    · exact fun _ _ => Act.noConfusion
    · intro _ _ h
      cases h
    · intro _ _ h
      cases h
  exact ⟨_, boot_loaded, hclone, by decide +kernel, by decide +kernel,
    (sizes_agree boot_loaded hclone).1 1 0 (by decide +kernel)
      (by decide +kernel) (by decide +kernel)⟩

/-- `init` makes a thread, which runs and grows: now it has one page more than
`init` knows, and when `init` grows too the page is there already. -/
theorem thread_grows_alone :
    exists k, Runs Step Called boot k ∧
      (k.proc 0).state = .RUNNING ∧ (k.proc 1).state = .RUNNING ∧
        (k.proc 0).pgdir = (k.proc 1).pgdir ∧ (k.proc 0).sz = 4096 ∧
          (k.proc 1).sz = 8192 ∧
            growproc 0 4096 k = .error (.panic "remap") := by
  refine ⟨play [.clone 0 2048, .dispatch 1, .sbrk 1 (some 4096)] boot,
    runs_play Runs.refl (by decide +kernel), by decide +kernel,
    by decide +kernel, by decide +kernel, by decide +kernel,
    by decide +kernel, stop?_eq_some (by decide +kernel)⟩

end Kernel
end Xv6
