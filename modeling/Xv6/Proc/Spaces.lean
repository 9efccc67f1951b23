import Xv6.Proc.Accounts
import Xv6.Proc.Reuse

/-!
# Address spaces shared with threads

`clone` shares the address space of its caller without counting.  `wait` frees
the address space of a process that it reaps and `exec` the one of its caller,
whoever else may still have it.  As long as a process calls `exec`, or exits
without being a thread, only when it is the last one in its address space,
nothing is freed that somebody has.  A thread that is reaped leaves its kernel
stack to nobody.
-/

namespace Xv6
namespace Kernel

open Lib Lib.Run

/-- A process leaves its address space to be freed, by `exec` or because it
exits and is no thread, only if no other process has it. -/
def LastOut (k : Kernel) (a : Act) : Prop :=
  forall cur, (exists args, a = .call cur (.exec args)) ∨
    (a = .exit cur ∧ (k.proc cur).threadIndictor ≠ 1) -> Alone k cur

/-- Nobody has the address space of a process that `wait` will free. -/
def ZombiesAlone (k : Kernel) : Prop :=
  forall p, (k.proc p).state = .ZOMBIE -> (k.proc p).threadIndictor ≠ 1 ->
    Alone k p

section Runs

variable {b : Vm.Managed} {lost : Multiset UInt32} {k₀ k k' : Kernel}
  {a : Act}

theorem ZombiesAlone.freesOwn (h : ZombiesAlone k) (hlast : LastOut k a) :
    FreesOwn k a := by
  intro p hp
  cases a with
  | wait cur => exact h p hp.1.state hp.2
  | call cur c =>
      cases c with
      | exec args =>
          cases hp
          exact hlast p (Or.inl ⟨args, rfl⟩)
      | _ => exact hp.elim
  | _ => exact hp.elim

theorem alone_step {p : Pslot} (halone : Alone k p)
    (hp : (k.proc p).state ≠ .UNUSED) (hp' : (k'.proc p).state ≠ .UNUSED)
    (hclone : forall cur stack, a = .clone cur stack -> cur ≠ p)
    (hdir : DirStep k a k') : Alone k' p := by
  intro q hne hq heq
  -- neither slot has got another page directory
  have hboth : HadDir k k' p -> HadDir k k' q -> False := by
    intro hhadp hhadq
    rcases hhadp hp' with ⟨_, hpd⟩
    rcases hhadq hq with ⟨hq', hqd⟩
    exact halone q hne hq' (hqd.symm.trans (heq.trans hpd))
  cases hdir with
  | kept hhad => exact hboth (hhad p) (hhad q)
  | fresh r d hother hd hfresh =>
      rcases eq_or_ne p r with rfl | hpr
      · rcases hother q hne hq with ⟨hq', hqd⟩
        exact hfresh q hne hq' (hqd.symm.trans (heq.trans hd))
      · rcases eq_or_ne q r with rfl | hqr
        · rcases hother p hpr hp' with ⟨_, hpd⟩
          exact hfresh p hpr hp (hpd.symm.trans (heq.symm.trans hd))
        · exact hboth (hother p hpr) (hother q hqr)
  | shared cur r stack hother hr hcur hd =>
      have hpr : p ≠ r := by
        rintro rfl
        exact hp hr
      rcases eq_or_ne q r with rfl | hqr
      · rcases hother p hpr hp' with ⟨_, hpd⟩
        exact halone cur (hclone cur stack rfl) hcur
          (hd.symm.trans (heq.trans hpd))
      · exact hboth (hother p hpr) (hother q hqr)

theorem fares_zombie {t : Procs} {q : Pslot} {pr : Proc}
    (h : Fares t q pr a) (hpr : pr.state = .ZOMBIE) :
    ((t.proc q).state = .ZOMBIE ∨ a = .exit q) ∧
      pr.threadIndictor = (t.proc q).threadIndictor := by
  cases h with
  | kept _ hkept hstate =>
      refine ⟨Or.inl ?_, hkept.threadIndictor⟩
      rcases hstate with hsame | ⟨_, hrunnable⟩
      · exact hsame.symm.trans hpr
      · cases hpr.symm.trans hrunnable
  | moved _ _ _ hnew => exact absurd (Or.inr hpr) (not_idle_of_alive hnew)
  | free _ _ hnew | made _ _ _ _ _ hnew | reaped _ _ hnew =>
      cases hpr.symm.trans hnew
  | exited _ _ _ hthread => exact ⟨Or.inr rfl, hthread⟩
  | own _ _ hown =>
      rw [hown.eq] at hpr ⊢
      exact ⟨Or.inl hpr, rfl⟩

theorem zombiesAlone_step (htidy : Tidy b lost k) (h : ZombiesAlone k)
    (hlast : LastOut k a) (hstep : Step k a k') : ZombiesAlone k' := by
  intro p hzombie hthread
  rcases fares_zombie (step_fares hstep p) hzombie with
    ⟨hbefore, hindictor⟩
  have hthread' : (k.proc p).threadIndictor ≠ 1 := by
    rw [show (k.proc p).threadIndictor = (k'.proc p).threadIndictor from
      hindictor.symm]
    exact hthread
  have hused' : (k'.proc p).state ≠ .UNUSED := by
    rw [hzombie]
    exact Procstate.noConfusion
  have hdir := step_dirStep htidy (h.freesOwn hlast) hstep
  rcases hbefore with hzombie | rfl
  · have hzombie : (k.proc p).state = .ZOMBIE := hzombie
    refine alone_step (h p hzombie hthread') ?_ hused' ?_ hdir
    · rw [hzombie]
      exact Procstate.noConfusion
    · rintro cur stack rfl rfl
      rw [hstep.1.1 cur rfl] at hzombie
      cases hzombie
  · refine alone_step (hlast p (Or.inr ⟨rfl, hthread'⟩)) ?_ hused'
      (fun _ _ heq => by cases heq) hdir
    rw [hstep.1.1 p rfl]
    exact Procstate.noConfusion

/-- What holds along a run in which nobody leaves a shared address space to be
freed. -/
structure Safe (b : Vm.Managed) (k : Kernel) : Prop where
  tidy : exists lost, Tidy b lost k
  zombies : ZombiesAlone k

theorem Launched.zombiesAlone (h : Launched b k) : ZombiesAlone k := by
  intro p hzombie _
  apply h.noSharing p
  rw [hzombie]
  exact Procstate.noConfusion

theorem safe_step (h : Safe b k) (hlast : LastOut k a)
    (hstep : Step k a k') : Safe b k' := by
  rcases h.tidy with ⟨lost, htidy⟩
  rcases step_tidy htidy (h.zombies.freesOwn hlast) hstep with
    ⟨lost', htidy', _⟩
  exact ⟨⟨lost', htidy'⟩, zombiesAlone_step htidy h.zombies hlast hstep⟩

theorem Allotted.dir_used {t : Holdings} {m : Memory}
    (h : Allotted b lost t m) {d : UInt32} (hd : d ∈ t.dirs) :
    d ∉ m.vm.freelist :=
  fun hfree => ((h.opened hd).free_out hfree).1 (Multiset.mem_cons_self d _)

/-- In every run in which a process calls `exec`, or exits without being a
thread, only as the last one in its address space, `wait` and `exec` free no
address space that another process has, and nobody's page directory is
free. -/
theorem freevm_unshared (hstart : Launched b k₀)
    (hruns : Runs Step LastOut k₀ k) :
    (forall a p, LastOut k a -> FreesSpace k a p ->
      forall q, q ≠ p -> (k.proc q).state ≠ .UNUSED ->
        (k.proc q).pgdir ≠ (k.proc p).pgdir) ∧
      forall q d, (k.proc q).state ≠ .UNUSED ->
        (k.proc q).pgdir = some d -> d ∉ k.vm.freelist := by
  have hsafe : Safe b k :=
    hruns.invariant ⟨⟨0, hstart.tidy⟩, hstart.zombiesAlone⟩
      (fun _ _ _ h hlast hstep => safe_step h hlast hstep)
  rcases hsafe.tidy with ⟨lost, htidy⟩
  constructor
  · intro a p hlast hfrees
    exact hsafe.zombies.freesOwn hlast p hfrees
  · intro q d hused hd
    exact htidy.allotted.dir_used (mem_dirs_used hused hd)

end Runs

theorem freevm_unshared_thread :
    exists k, Launched bootManaged boot ∧ Runs Step LastOut boot k ∧
      (k.proc 1).state = .RUNNABLE ∧ (k.proc 1).pgdir = (k.proc 0).pgdir ∧
        forall q d, (k.proc q).state ≠ .UNUSED ->
          (k.proc q).pgdir = some d -> d ∉ k.vm.freelist := by
  have hclone : Runs Step LastOut boot (next (.clone 0 2048) boot) := by
    refine Runs.refl.tail (.clone 0 2048) ?_
      (step_next (r := 2) (enabled_call rfl rfl) (by decide +kernel))
    rintro cur (⟨args, h⟩ | ⟨h, _⟩)
    · cases h
    · cases h
  exact ⟨_, boot_launched, hclone, by decide +kernel, by decide +kernel,
    (freevm_unshared boot_launched hclone).2⟩

theorem child_leaves_thread :
    exists k d x, Runs Step FreesOwn boot k ∧ (k.proc 0).state = .RUNNING ∧
      Finds 0 k.procs 1 ∧ (k.proc 1).threadIndictor ≠ 1 ∧
        (k.proc 1).pgdir = some d ∧ (k.proc 1).kstack = some x ∧
          (k.proc 2).state = .RUNNABLE ∧ (k.proc 2).pgdir = some d := by
  rcases child_steps boot_canFork rfl (p := 1) (by decide) (by decide) with
    ⟨k1, k2, x, d, hfork, hdispatch, ⟨_, _, hroom⟩, hprocs2⟩
  have hproc2 : forall q, k2.proc q = _ :=
    fun q => congrArg (fun t => Procs.proc t q) hprocs2
  have hrunning2 : (k2.proc 1).state = .RUNNING :=
    congrArg Proc.state (hproc2 1)
  have hfree2 : (k2.proc 2).state = .UNUSED := congrArg Proc.state (hproc2 2)
  -- the child makes a thread
  rcases clone_returns (n := 4999) 2048
    (by rw [hrunning2]; exact Procstate.noConfusion) ⟨2, hfree2⟩ hroom with
    ⟨k3, hclone, p, x', hp, hfirst, hprocs3⟩
  have hslot : p = 2 := by
    apply first_unique hp hfirst hfree2
    intro q hq
    have hq : q = 0 ∨ q = 1 := by
      revert q
      decide
    rw [hproc2]
    rcases hq with rfl | rfl
    · exact Procstate.noConfusion
    · exact Procstate.noConfusion
  subst hslot
  rw [hprocs2] at hprocs3
  have hrunning3 : (k3.proc 1).state = .RUNNING :=
    congrArg (fun t => (Procs.proc t 1).state) hprocs3
  have hinit3 : (1 : Pslot) ≠ k3.initproc := by
    rw [show k3.initproc = 0 from congrArg Procs.initproc hprocs3]
    decide
  have hcount3 : k3.numofthread ≠ 0 := by
    rw [show k3.numofthread = 0 + 1 from congrArg Procs.numofthread hprocs3]
    decide
  -- and exits
  rcases exit_left hinit3 hcount3 with ⟨k4, woken, hexit, _, hprocs4⟩
  rw [hprocs3] at hprocs4
  have hproc4 : forall q, k4.procs.proc q = _ :=
    fun q => congrArg (fun t => Procs.proc t q) hprocs4
  have hinit4 : (k4.procs.proc 0).state = .RUNNING := by
    rw [hproc4]
    cases woken with
    | false | true => rfl
  have hthread4 : (k4.procs.proc 2).state = .RUNNABLE := by
    rw [hproc4]
    cases woken with
    | false | true => rfl
  have hexits : Step k3 (.exit 1) k4 := by
    refine ⟨enabled_call rfl hrunning3, 0, ?_⟩
    show (exit 1 >>= fun _ => pure 0) k3 = _
    rw [bind_run, hexit]
    rfl
  have hruns : Runs Step FreesOwn boot k4 :=
    (((Runs.refl.tail (.fork 0) (fun _ h => h.elim) hfork).tail (.dispatch 1)
      (fun _ h => h.elim) hdispatch).tail (.clone 1 2048) (fun _ h => h.elim)
        ⟨enabled_call rfl hrunning2, _, hclone⟩).tail (.exit 1)
          (fun _ h => h.elim) hexits
  refine ⟨k4, d, x, hruns, hinit4, ⟨?_, ?_, ?_⟩, ?_, ?_, ?_, hthread4, ?_⟩
  · exact congrArg Proc.parent (hproc4 1)
  · exact congrArg Proc.state (hproc4 1)
  · intro q hq
    have hzero : q = 0 := by
      revert q
      decide
    rintro ⟨_, hzombie⟩
    rw [hzero, hinit4] at hzombie
    cases hzombie
  · show (k4.procs.proc 1).threadIndictor ≠ 1
    rw [hproc4]
    exact nofun
  · exact congrArg Proc.pgdir (hproc4 1)
  · exact congrArg Proc.kstack (hproc4 1)
  · exact congrArg Proc.pgdir (hproc4 2)

/-- `init` reaps the child: the page directory of the thread is on the free
list. -/
theorem wait_frees_space_of_thread :
    exists k k' d, Launched bootManaged boot ∧
      Runs Step (fun _ _ => True) boot k ∧ FreesSpace k (.wait 0) 1 ∧
        (k.proc 1).pgdir = some d ∧ Step k (.wait 0) k' ∧
          (k'.proc 2).state = .RUNNABLE ∧ (k'.proc 2).pgdir = some d ∧
            d ∈ k'.vm.freelist := by
  rcases child_leaves_thread with
    ⟨k, d, x, hruns, hinit, hfind, hthread, hd, hx, hstate, hshared⟩
  have htidy : exists lost, Tidy bootManaged lost k := by
    apply hruns.invariant (I := fun k => exists lost, Tidy bootManaged lost k)
      ⟨0, boot_launched.tidy⟩
    rintro k1 a k2 ⟨lost, h1⟩ hown hstep
    rcases step_tidy h1 hown hstep with ⟨lost', h2, _⟩
    exact ⟨lost', h2⟩
  rcases htidy with ⟨lost, htidy⟩
  have hboth := wp_and (wp_reaps_reap htidy.allotted hfind)
    (wp_reap_frees 1 k)
  cases hrun : reap 1 k with
  | error e =>
      rcases (wp_error hboth hrun).1 with hnone | hnone
      · rw [hx] at hnone
        cases hnone
      · rw [hd] at hnone
        cases hnone
  | ok res =>
      rcases res with ⟨r, k'⟩
      rcases wp_ok hboth hrun with ⟨hreaps, _, hgone, hsame⟩
      have hproc : k'.proc 2 = k.proc 2 := hsame 2 (by decide)
      refine ⟨k, k', d, boot_launched, hruns.mono (fun _ _ _ => trivial),
        ⟨hfind, hthread⟩, hd, ⟨enabled_call rfl hinit, r, ?_⟩, ?_, ?_, ?_⟩
      · exact (wait_eq_reap hfind).trans hrun
      · rw [hproc]
        exact hstate
      · rw [hproc]
        exact hshared
      · exact hreaps.freed htidy.allotted hfind hthread hd hx hgone

/-!
## No page is lost
-/

/-- Nobody leaves a shared address space to be freed, and `wait` takes no
thread. -/
def Frugal (k : Kernel) (a : Act) : Prop := LastOut k a ∧ ReapsNoThread k a

/-- The processes of `k` are those of `k'`, and what they have for memory and
for pipes is as much. -/
structure Restored (k k' : Kernel) : Prop where
  slots : forall p, (k'.holdings p).map (fun h => (h.pgdir, h.kstack)) =
    (k.holdings p).map (fun h => (h.pgdir, h.kstack))
  pages : forall d, d ∈ k.holdings.dirs ->
    (k'.vm.pages d).card = (k.vm.pages d).card
  pipes : k'.memory.ends.pipes.card = k.memory.ends.pipes.card

section Frugal

variable {b : Vm.Managed} {k₀ k k' : Kernel} {a : Act}

theorem Frugal.notDrops (h : Frugal k a) : ¬ Drops k a := by
  intro hdrops
  cases a with
  | wait cur =>
      rcases hdrops with ⟨p, hfinds, hthread⟩
      exact h.2 cur p rfl hfinds hthread
  | _ => exact hdrops.elim

theorem frugal_step (h : Tidy b 0 k ∧ ZombiesAlone k) (hfrugal : Frugal k a)
    (hstep : Step k a k') : Tidy b 0 k' ∧ ZombiesAlone k' := by
  rcases h with ⟨htidy, hzombies⟩
  rcases step_tidy htidy (hzombies.freesOwn hfrugal.1) hstep with
    ⟨lost, htidy', hlost⟩
  cases hlost hfrugal.notDrops
  exact ⟨htidy', zombiesAlone_step htidy hzombies hfrugal.1 hstep⟩

theorem bind_of_map {α β γ : Type} {f : α -> β × γ} {x y : Option α}
    {g : β × γ -> Option UInt32} (h : x.map f = y.map f) :
    x.bind (fun a => g (f a)) = y.bind (fun a => g (f a)) := by
  have hx := congrArg (fun o => Option.bind o g) h
  simp only [Option.bind_map] at hx
  exact hx

theorem Restored.dirs (h : Restored k k') :
    k'.holdings.dirs = k.holdings.dirs := by
  unfold Holdings.dirs
  congr 1
  apply gather_congr
  intro p _
  exact bind_of_map (g := Prod.fst) (h.slots p)

theorem Restored.kstacks (h : Restored k k') :
    k'.holdings.kstacks = k.holdings.kstacks := by
  unfold Holdings.kstacks
  apply gather_congr
  intro p _
  exact bind_of_map (g := Prod.snd) (h.slots p)

theorem Allotted.card {t : Holdings} {m : Memory} (h : Allotted b 0 t m) :
    m.vm.freelist.length + (∑ d ∈ t.dirs, (m.vm.pages d).card +
      (t.kstacks.card + m.ends.pipes.card)) = b.all.card := by
  rw [← h.sum, Multiset.card_add, Multiset.card_add, Multiset.card_add,
    Multiset.card_add, Multiset.coe_card, Multiset.card_sum,
    Multiset.card_zero, add_zero]
  rfl

/-- In every such run each page is in one place, and once the processes are
those of before, with as many pages, as many pages are free as before. -/
theorem pages_conserved (hstart : Launched b k₀)
    (hruns : Runs Step Frugal k₀ k) :
    Allotted b 0 k.holdings k.memory ∧
      forall k', Runs Step Frugal k k' -> Restored k k' ->
        k'.vm.freelist.length = k.vm.freelist.length := by
  have hinv : Tidy b 0 k ∧ ZombiesAlone k :=
    hruns.invariant ⟨hstart.tidy, hstart.zombiesAlone⟩
      (fun _ _ _ h hfrugal hstep => frugal_step h hfrugal hstep)
  refine ⟨hinv.1.allotted, fun k' hruns' hback => ?_⟩
  have hinv' : Tidy b 0 k' ∧ ZombiesAlone k' :=
    hruns'.invariant hinv
      (fun _ _ _ h hfrugal hstep => frugal_step h hfrugal hstep)
  have hpages : ∑ d ∈ k.holdings.dirs, (k'.memory.vm.pages d).card =
      ∑ d ∈ k.holdings.dirs, (k.memory.vm.pages d).card :=
    Finset.sum_congr rfl hback.pages
  have hcard := hinv.1.allotted.card
  have hcard' := hinv'.1.allotted.card
  rw [hback.dirs, hback.kstacks, hback.pipes, hpages] at hcard'
  have hsum := hcard'.trans hcard.symm
  exact Nat.add_right_cancel hsum

end Frugal

theorem pages_conserved_thread :
    exists k, Launched bootManaged boot ∧ Runs Step Frugal boot k ∧
      (k.proc 1).state = .RUNNABLE ∧
        Allotted bootManaged 0 k.holdings k.memory := by
  have hclone : Runs Step Frugal boot (next (.clone 0 2048) boot) := by
    refine Runs.refl.tail (.clone 0 2048) ⟨?_, ?_⟩
      (step_next (r := 2) (enabled_call rfl rfl) (by decide +kernel))
    · rintro cur (⟨args, h⟩ | ⟨h, _⟩)
      · cases h
      · cases h
    · intro cur p h
      cases h
  exact ⟨_, boot_launched, hclone, by decide +kernel,
    (pages_conserved boot_launched hclone).1⟩

/-- `init` makes a thread, which exits and is waited for.  Nobody but `init` is
left, and a page is missing. -/
theorem reaped_thread_loses_stack :
    Launched bootManaged boot ∧
      Runs Step Called boot threadReaped ∧
        (forall p, p ≠ 0 -> (threadReaped.proc p).state = .UNUSED) ∧
          threadReaped.vm.freelist = boot.vm.freelist.tail := by
  refine ⟨boot_launched, runs_play Runs.refl (by decide +kernel),
    by decide +kernel, ?_⟩
  rfl

end Kernel
end Xv6
