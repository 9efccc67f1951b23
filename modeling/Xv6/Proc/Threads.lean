import Xv6.Proc.Spawn

/-!
# Counting threads

`clone` raises `numofthread` before it looks for a slot, and only `wait` lowers
it again, once for each thread that it reaps.  What the counter is ahead of the
threads in the table is therefore the number of calls of `clone` that failed.
-/

namespace Xv6
namespace Kernel

open Lib Lib.Run

def IsThread (pr : Proc) : Prop := pr.threadIndictor = 1 ∧ pr.state ≠ .UNUSED

instance : DecidablePred IsThread :=
  fun pr => inferInstanceAs (Decidable (pr.threadIndictor = 1 ∧ _))

def threads (proc : Pslot -> Proc) : Nat :=
  (Finset.univ.filter (fun p => IsThread (proc p))).card

/-- There is a slot for a new process and a page for its kernel stack. -/
def HasRoom (k : Kernel) : Prop :=
  (exists p, (k.proc p).state = .UNUSED) ∧ k.vm.freelist ≠ []

/-- `clone` is only called when there is room for the thread. -/
def ClonesInRoom (k : Kernel) (a : Act) : Prop :=
  forall cur stack, a = .clone cur stack -> HasRoom k

/-!
## Whether a call of clone fails
-/

theorem wp_clone_room {cur : Pslot} {k : Kernel} (stack : UInt32)
    (hlive : (k.proc cur).state ≠ .UNUSED) :
    wp (clone cur stack)
      (fun _ k' =>
        (HasRoom k ∧ exists p kstack, (k.proc p).state = .UNUSED ∧
          k'.procs = k.procs.cloned cur p kstack stack) ∨
        (¬ HasRoom k ∧ Allocproc k.procs.counted none k'.procs))
      (fun _ => False) k := by
  apply wp_clone hlive
  · intro hfull
    refine Or.inr ⟨fun hroom => ?_, Allocproc.full hfull⟩
    rcases hroom.1 with ⟨p, hp⟩
    exact hfull p hp
  · intro p hp hfirst
    unfold Vm.kalloc
    rw [wp_bind, wp_gets]
    cases hfree : k.vm.freelist with
    | nil =>
        exact Or.inr ⟨fun hroom => hroom.2 hfree, Allocproc.noStack p hp⟩
    | cons page rest =>
        refine Or.inl ⟨⟨⟨p, hp⟩, ?_⟩, p, page, hp, rfl⟩
        rw [hfree]
        exact List.cons_ne_nil page rest

/-!
## The threads of a table
-/

theorem threads_congr {proc proc' : Pslot -> Proc}
    (h : forall q, IsThread (proc' q) ↔ IsThread (proc q)) :
    threads proc' = threads proc := by
  unfold threads
  congr 1
  ext q
  simp [h q]

theorem threads_lost {proc proc' : Pslot -> Proc} {p : Pslot}
    (hother : forall q, q ≠ p -> proc' q = proc q)
    (hold : IsThread (proc p)) (hnew : ¬ IsThread (proc' p)) :
    threads proc = threads proc' + 1 := by
  have herase : Finset.univ.filter (fun q => IsThread (proc' q)) =
      (Finset.univ.filter (fun q => IsThread (proc q))).erase p := by
    ext q
    rcases eq_or_ne q p with rfl | hq
    · simp [hnew]
    · simp [hq, hother q hq]
  unfold threads
  rw [herase]
  exact (Finset.card_erase_add_one (by simp [hold])).symm

theorem isThread_of_woken {pr pr' : Proc}
    (hind : pr'.threadIndictor = pr.threadIndictor)
    (hstate : pr'.state = pr.state ∨
      pr.state = .SLEEPING ∧ pr'.state = .RUNNABLE) :
    IsThread pr' ↔ IsThread pr := by
  unfold IsThread
  rw [hind]
  rcases hstate with hsame | ⟨hsleeping, hrunnable⟩
  · rw [hsame]
  · rw [hsleeping, hrunnable]
    simp

theorem isThread_of_live {pr pr' : Proc}
    (hind : pr'.threadIndictor = pr.threadIndictor)
    (hstate : pr.state ≠ .UNUSED) (hstate' : pr'.state ≠ .UNUSED) :
    IsThread pr' ↔ IsThread pr := by
  unfold IsThread
  rw [hind]
  exact and_congr_right (fun _ => iff_of_true hstate' hstate)

theorem fares_isThread {t : Procs} {q : Pslot} {a : Act} {pr : Proc}
    (h : Fares t q pr a)
    (hcaller : a.caller = some q -> (t.proc q).state ≠ .UNUSED)
    (hclone : forall cur stack, a ≠ .clone cur stack)
    (hwait : forall cur, a ≠ .wait cur) :
    IsThread pr ↔ IsThread (t.proc q) := by
  cases h with
  | kept _ hkept hstate => exact isThread_of_woken hkept.threadIndictor hstate
  | moved _ hkept hold hnew =>
      exact isThread_of_live hkept.threadIndictor
        (fun h => not_idle_of_alive hold (Or.inl h))
        (fun h => not_idle_of_alive hnew (Or.inl h))
  | free _ hold hnew => exact iff_of_false (fun h => h.2 hnew) (fun h => h.2 hold)
  | made _ cur _ hold _ _ _ _ _ hthread =>
      refine iff_of_false (fun h => ?_) (fun h => h.2 hold)
      rcases hthread h.1 with ⟨stack, ha⟩
      exact hclone cur stack ha
  | exited hnew _ _ hthread =>
      apply isThread_of_live hthread (hcaller rfl)
      rw [hnew]
      exact Procstate.noConfusion
  | reaped cur => exact absurd rfl (hwait cur)
  | own _ _ hslot =>
      rw [hslot.eq]
      exact Iff.rfl

/-!
## The counter along a run
-/

/-- What the counter is ahead of the threads. -/
def surplus (k : Kernel) : Int := k.numofthread - threads k.proc

theorem surplus_other {k k' : Kernel} {a : Act} (h : Step k a k')
    (hclone : forall cur stack, a ≠ .clone cur stack)
    (hwait : forall cur, a ≠ .wait cur) : surplus k' = surplus k := by
  have hthreads : threads k'.proc = threads k.proc := by
    apply threads_congr
    intro q
    exact fares_isThread (step_fares h q) (caller_used h) hclone hwait
  have hcounter : k'.procs.numofthread = k.procs.numofthread := by
    have hmoves := step_moves h
    generalize k'.procs = t' at hmoves
    cases hmoves with
    | fork hfork =>
        cases hfork with
        | noSlot halloc => cases halloc with
          | full _ | noStack p _ => rfl
        | noCopy p kstack _ | done p kstack pgdir _ _ => rfl
    | clone _ => exact absurd rfl (hclone _ _)
    | exit hexit =>
        cases hexit with
        | closed woken _ _ | left woken _ _ => rfl
    | wait _ => exact absurd rfl (hwait _)
    | kill hkill =>
        cases hkill with
        | found p _ _ | none => rfl
    | own _ hown => exact hown.numofthread
    | none cur | tickets cur n | yield cur | sleep cur chan | wakeup chan
    | dispatch p => rfl
  unfold surplus
  rw [hthreads, show k'.numofthread = k.numofthread from hcounter]

theorem surplus_wait {k k' : Kernel} {cur : Pslot}
    (h : Step k (.wait cur) k') : surplus k' = surplus k := by
  rcases h.2 with ⟨r, hrun⟩
  have heffect := (sees_wait cur k.procs).ok hrun
  unfold surplus
  show k'.procs.numofthread - (threads k'.procs.proc : Int) = _
  generalize k'.procs = t' at heffect
  cases heffect with
  | thread p hfinds hthread =>
      have hlost : threads k.proc = threads (k.procs.reapedThread p).proc + 1 := by
        apply threads_lost (fun _ hq => k.procs.reapedThread_of_ne hq)
        · refine ⟨hthread, ?_⟩
          rw [hfinds.state]
          decide
        · simp [IsThread, Procs.reapedThread]
      show k.numofthread - 1 - (threads (k.procs.reapedThread p).proc : Int) = _
      lia
  | proc p hfinds hthread =>
      have hsame : threads (k.procs.reaped p).proc = threads k.proc := by
        apply threads_congr
        intro q
        rcases eq_or_ne q p with rfl | hq
        · refine iff_of_false (fun h => ?_) (fun h => hthread h.1)
          exact h.2 (congrArg Proc.state (Procs.set_self _ q _))
        · rw [show (k.procs.reaped p).proc q = k.proc q from
            Procs.set_of_ne _ hq _]
      rw [hsame]
      rfl
  | none _ _ => rfl

theorem surplus_clone {k k' : Kernel} {cur : Pslot} {stack : UInt32}
    (h : Step k (.clone cur stack) k') :
    HasRoom k ∧ surplus k' = surplus k ∨
      ¬ HasRoom k ∧ surplus k' = surplus k + 1 := by
  have hlive := caller_used h rfl
  rcases h with ⟨_, r, hrun⟩
  unfold surplus
  show _ ∧ k'.procs.numofthread - (threads k'.procs.proc : Int) = _ ∨
    _ ∧ k'.procs.numofthread - (threads k'.procs.proc : Int) = _
  rcases wp_ok (wp_clone_room stack hlive) hrun with
    ⟨hroom, p, kstack, hunused, hprocs⟩ | ⟨hroom, halloc⟩
  · refine Or.inl ⟨hroom, ?_⟩
    have hgained : threads (k.procs.cloned cur p kstack stack).proc =
        threads k.proc + 1 := by
      apply threads_lost (fun _ hq => (k.procs.cloned_of_ne cur hq _ _).symm)
      · rw [show (k.procs.cloned cur p kstack stack).proc p = _ from
          Procs.set_self _ p _]
        exact ⟨rfl, Procstate.noConfusion⟩
      · exact fun h => h.2 hunused
    rw [hprocs]
    show k.numofthread + 1 -
      (threads (k.procs.cloned cur p kstack stack).proc : Int) = _
    lia
  · refine Or.inr ⟨hroom, ?_⟩
    have hsame : threads k'.procs.proc = threads k.proc ∧
        k'.procs.numofthread = k.numofthread + 1 := by
      generalize k'.procs = t' at halloc
      cases halloc with
      | full _ => exact ⟨rfl, rfl⟩
      | noStack p hunused =>
          refine ⟨threads_congr (fun q => ?_), rfl⟩
          rcases eq_or_ne q p with rfl | hq
          · refine iff_of_false (fun h => h.2 ?_) (fun h => h.2 hunused)
            simp [Procs.noStack]
          · rw [k.procs.counted.noStack_of_ne hq]
            exact Iff.rfl
    lia

theorem threads_le (proc : Pslot -> Proc) : threads proc ≤ NPROC := by
  unfold threads
  exact (Finset.card_le_univ _).trans_eq (Fintype.card_fin NPROC)

def CountsThreads (k : Kernel) : Prop := k.numofthread = threads k.proc

theorem surplus_step {k k' : Kernel} {a : Act} (h : Step k a k') :
    ClonesInRoom k a ∧ surplus k' = surplus k ∨
      ¬ ClonesInRoom k a ∧ surplus k' = surplus k + 1 := by
  cases a with
  | wait cur => exact Or.inl ⟨fun _ _ ha => Act.noConfusion ha, surplus_wait h⟩
  | clone cur stack =>
      rcases surplus_clone h with ⟨hroom, hsame⟩ | ⟨hroom, hmore⟩
      · exact Or.inl ⟨fun _ _ _ => hroom, hsame⟩
      · exact Or.inr ⟨fun hC => hroom (hC cur stack rfl), hmore⟩
  | _ =>
      exact Or.inl ⟨fun _ _ ha => Act.noConfusion ha,
        surplus_other h (fun _ _ ha => Act.noConfusion ha)
          (fun _ ha => Act.noConfusion ha)⟩

theorem booted_counts {k : Kernel} (h : Booted k) : CountsThreads k := by
  have hnone : forall p, ¬ IsThread (k.proc p) := by
    intro p hthread
    have hone := hthread.1
    rw [(h.blank p).threadIndictor] at hone
    cases hone
  unfold CountsThreads threads
  rw [h.numofthread]
  simp [hnone]

/-- The counter is exact as long as `clone` is only called with room for a
thread, so that it is at most `NPROC`; a call without room puts it ahead. -/
theorem numofthread_exact {k₀ k : Kernel} (hboot : Booted k₀)
    (hruns : Runs Step ClonesInRoom k₀ k) :
    CountsThreads k ∧ k.numofthread ≤ NPROC ∧ forall a k', Step k a k' ->
      (CountsThreads k' ↔ ClonesInRoom k a) := by
  have hiff : forall k, CountsThreads k ↔ surplus k = 0 :=
    fun k => sub_eq_zero.symm
  have hzero : surplus k = 0 := by
    refine hruns.invariant (I := fun k => surplus k = 0)
      ((hiff k₀).mp (booted_counts hboot)) ?_
    intro k a k' hk hC hstep
    rcases surplus_step hstep with ⟨_, hsame⟩ | ⟨hno, _⟩
    · exact hsame.trans hk
    · exact absurd hC hno
  have hexact : k.numofthread = threads k.proc := (hiff k).mpr hzero
  refine ⟨hexact, ?_, ?_⟩
  · rw [hexact]
    exact Int.ofNat_le.mpr (threads_le k.proc)
  · intro a k' hstep
    rw [hiff k']
    rcases surplus_step hstep with ⟨hC, hsame⟩ | ⟨hno, hmore⟩
    · exact iff_of_true (hsame.trans hzero) hC
    · refine iff_of_false ?_ hno
      rw [hmore, hzero]
      decide

theorem numofthread_exact_clone :
    exists k : Kernel, Runs Step ClonesInRoom boot k ∧ k.numofthread = 1 ∧
      CountsThreads k := by
  have hclone : Runs Step ClonesInRoom boot (next (.clone 0 2048) boot) := by
    refine Runs.tail (.clone 0 2048) Runs.refl ?_
      (step_next (r := 2) (enabled_call rfl rfl) (by decide +kernel))
    intro _ _ _
    exact ⟨⟨1, rfl⟩, by decide +kernel⟩
  exact ⟨_, hclone, by decide +kernel, (numofthread_exact boot_booted hclone).1⟩

/-- `init` clones until the table is full and once more: 63 threads are counted
as 64. -/
theorem clone_counts_missing_thread :
    exists k : Kernel, Runs Step Called boot k ∧
      k.numofthread = 64 ∧ threads k.proc = 63 :=
  ⟨play (List.replicate 64 (.clone 0 2048)) boot,
    runs_play Runs.refl (by decide +kernel), by decide +kernel,
    by decide +kernel⟩

end Kernel
end Xv6
