import Xv6.Proc.Spawn

/-!
# Descriptors of new and of dying processes

`fork` writes only the descriptors that the caller has open, so the child has
the caller's files exactly if the slot it gets had none left.  `exit` leaves
the files of its process open while there is a thread anywhere in the system.
-/

namespace Xv6
namespace Kernel

open Lib Lib.Run

/-!
## What fork gives the child
-/

/-- A process that exits has no open file, or there is no thread. -/
def ClosesFiles (k : Kernel) (a : Act) : Prop :=
  forall cur, a = .exit cur ->
    k.numofthread = 0 ∨ forall fd, (k.proc cur).ofile fd = none

/-- The slots that are free, or will be after a `wait`, have no open file. -/
def IdleClosed (k : Kernel) : Prop :=
  forall p, Idle (k.proc p).state -> forall fd, (k.proc p).ofile fd = none

theorem booted_idleClosed {k : Kernel} (h : Booted k) : IdleClosed k :=
  fun p _ => (h.blank p).ofile

theorem idleClosed_step {k k' : Kernel} {a : Act} (h : IdleClosed k)
    (hC : ClosesFiles k a) (hstep : Step k a k') : IdleClosed k' := by
  intro q hidle
  have hq : Idle (k.procs.proc q).state ->
      forall fd, (k.procs.proc q).ofile fd = none := h q
  cases step_fares hstep q with
  | kept _ hkept hstate =>
      rw [hkept.ofile]
      exact hq ((idle_iff_of_woken hstate).mp hidle)
  | moved _ _ _ hnew => exact absurd hidle (not_idle_of_alive hnew)
  | free _ hold _ hofile =>
      rw [hofile]
      exact hq (Or.inl hold)
  | made _ cur _ _ _ hnew =>
      rw [hnew] at hidle
      exact absurd hidle (by decide)
  | exited _ hofile =>
      rw [hofile]
      rcases Decidable.em (k.procs.numofthread = 0) with hzero | hthreads
      · rw [if_pos hzero]
        exact fun _ => rfl
      · rw [if_neg hthreads]
        exact (hC q rfl).resolve_left hthreads
  | reaped cur hfinds _ hofile =>
      rw [hofile]
      exact hq (Or.inr hfinds.state)
  | own _ hcaller hown =>
      rw [hown.eq] at hidle
      exact absurd hidle (not_idle_of_alive (caller_alive hstep hcaller))

theorem forked_proc {k k' : Kernel} {cur : Pslot} {r : Int}
    (hcur : (k.proc cur).state ≠ .UNUSED)
    (hfork : fork cur k = .ok (r, k')) (hr : r ≠ -1) :
    exists p kstack pgdir, (k.proc p).state = .UNUSED ∧
      (forall q, q < p -> (k.proc q).state ≠ .UNUSED) ∧
        r = k.nextpid.toInt ∧ k'.procs = k.procs.forked cur p kstack pgdir := by
  have heffect := (sees_fork hcur).ok hfork
  generalize k'.procs = t' at heffect
  cases heffect with
  | noSlot | noCopy => exact absurd rfl hr
  | done p kstack pgdir hp hfirst =>
      exact ⟨p, kstack, pgdir, hp, hfirst, rfl, rfl⟩

/-- In every run in which no process exits with open files while there is a
thread, a child has exactly the files of its parent. -/
theorem fork_ofile {k₀ k k' : Kernel} {cur : Pslot} {r : Int}
    (hboot : Booted k₀) (hruns : Runs Step ClosesFiles k₀ k)
    (hcur : (k.proc cur).state = .RUNNING)
    (hfork : fork cur k = .ok (r, k')) (hr : r ≠ -1) :
    exists p, (k.proc p).state = .UNUSED ∧ (k'.proc p).pid.toInt = r ∧
      (k'.proc p).parent = some cur ∧
        forall fd, (k'.proc p).ofile fd = (k'.proc cur).ofile fd := by
  have hidle : IdleClosed k :=
    hruns.invariant (booted_idleClosed hboot)
      (fun _ _ _ h hC hstep => idleClosed_step h hC hstep)
  have hlive : (k.proc cur).state ≠ .UNUSED := by
    rw [hcur]
    decide
  rcases forked_proc hlive hfork hr with ⟨p, kstack, pgdir, hp, _, rfl, hprocs⟩
  have hproc : forall q,
      k'.proc q = (k.procs.forked cur p kstack pgdir).proc q :=
    fun q => congrArg (fun t => Procs.proc t q) hprocs
  have hne : cur ≠ p := by
    rintro rfl
    exact hlive hp
  refine ⟨p, hp, ?_, ?_, ?_⟩
  · rw [hproc]
    simp [Procs.forked, Procs.map, forkChild, Procs.embryo, procs]
  · rw [hproc]
    simp [Procs.forked, Procs.map, forkChild]
  · intro fd
    have hold : (k.procs.proc p).ofile fd = none := hidle p (Or.inl hp) fd
    have hnone : ((k.procs.embryo p kstack).proc p).ofile fd = none := by
      simpa [Procs.embryo] using hold
    rw [hproc, hproc, k.procs.forked_of_ne cur hne]
    simp [Procs.forked, Procs.map, forkChild, hnone]

/-- `init` makes a thread, which exits and is waited for, and then opens a
pipe. -/
def reopened : Kernel :=
  play [.clone 0 2048, .dispatch 1, .exit 1, .wait 0, .pipe 0 true] boot

theorem reopened_runs : Runs Step ClosesFiles boot reopened := by
  apply runs_along Runs.refl (by decide +kernel)
  refine ⟨fun _ => Act.noConfusion, fun _ => Act.noConfusion, ?_,
    fun _ => Act.noConfusion, fun _ => Act.noConfusion, trivial⟩
  intro cur hcur
  cases hcur
  exact Or.inr (by decide +kernel)

theorem reopened_canFork : CanFork 5000 0 reopened :=
  canFork_init (i := 2) (by decide +kernel) ⟨1, by decide +kernel⟩ rfl rfl
    (by decide +kernel) (by decide +kernel) rfl (by decide)

/-- The child gets the slot of the thread and both ends of the pipe. -/
theorem fork_ofile_pipe :
    exists k', Runs Step ClosesFiles boot reopened ∧
      fork 0 reopened = .ok (3, k') ∧
        exists p, (reopened.proc p).state = .UNUSED ∧
          (k'.proc p).pid.toInt = 3 ∧ (k'.proc p).parent = some 0 ∧
            (forall fd, (k'.proc p).ofile fd = (k'.proc 0).ofile fd) ∧
              (k'.proc 0).ofile 0 = some 0 ∧ (k'.proc 0).ofile 1 = some 1 := by
  rcases fork_returns reopened_canFork with
    ⟨k', hfork, _, p, kstack, pgdir, hp, _, hprocs⟩
  have hne : (0 : Pslot) ≠ p := by
    rintro rfl
    exact absurd hp (by decide +kernel)
  have hproc : k'.proc 0 = _ := congrArg (fun t => Procs.proc t 0) hprocs
  have hopen : (k'.proc 0).ofile = (reopened.proc 0).ofile := by
    rw [hproc, reopened.procs.forked_of_ne 0 hne]
    rfl
  rcases fork_ofile boot_booted reopened_runs (by decide +kernel) hfork
    (by decide +kernel) with ⟨q, hq, hpid, hparent, hsame⟩
  refine ⟨k', reopened_runs, hfork, q, hq, hpid, hparent, hsame, ?_, ?_⟩
  · rw [hopen]
    decide +kernel
  · rw [hopen]
    decide +kernel

/-- `init` opens a pipe and makes a thread, which exits and is waited for, and
closes the read end. -/
def staleFile : Kernel :=
  play [.pipe 0 true, .clone 0 2048, .dispatch 1, .exit 1, .wait 0,
    .call 0 (.close (some 0))] boot

theorem staleFile_canFork : CanFork 5000 0 staleFile :=
  canFork_init (i := 2) (by decide +kernel) ⟨1, by decide +kernel⟩ rfl rfl
    (by decide +kernel) (by decide +kernel) rfl (by decide)

/-- The child has the read end, which its parent has closed. -/
theorem fork_child_keeps_closed_file :
    exists k' r p, Booted boot ∧
      Runs Step Called boot staleFile ∧
        (staleFile.proc 0).state = .RUNNING ∧
          fork 0 staleFile = .ok (r, k') ∧ r ≠ -1 ∧
            (k'.proc p).pid.toInt = r ∧ (k'.proc p).parent = some 0 ∧
              (k'.proc 0).ofile 0 = none ∧ (k'.proc p).ofile 0 = some 0 := by
  have hruns : Runs Step Called boot staleFile :=
    runs_play Runs.refl (by decide +kernel)
  rcases fork_returns staleFile_canFork with
    ⟨k', hfork, _, p, kstack, pgdir, hp, hfirst, hprocs⟩
  have hslot : p = 1 := by
    apply first_unique hp hfirst
    · decide +kernel
    · decide +kernel
  subst hslot
  have hproc : forall q, k'.proc q = _ :=
    fun q => congrArg (fun t => Procs.proc t q) hprocs
  exact ⟨k', _, 1, boot_booted, hruns, by decide +kernel, hfork, by
    decide +kernel, congrArg (fun pr => pr.pid.toInt) (hproc 1),
    congrArg Proc.parent (hproc 1),
    congrArg (fun pr => Proc.ofile pr 0) (hproc 0),
    congrArg (fun pr => Proc.ofile pr 0) (hproc 1)⟩

end Kernel
end Xv6
