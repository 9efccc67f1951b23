import Xv6.Proc.Files

/-!
# What exit releases

`exit` gives up the files and the directory of its process only while there is
no thread in the whole system.  Then every descriptor is closed, every file
loses one reference for each descriptor, and the inode references go down with
the files and the directory; otherwise everything stays.
-/

namespace Xv6
namespace Kernel

open Lib Lib.Run

/-!
## Directories of live processes
-/

def LiveCwd (k : Kernel) : Prop :=
  forall p, ¬ Idle (k.proc p).state -> (k.proc p).cwd ≠ none

theorem booted_liveCwd {k : Kernel} (h : Booted k) : LiveCwd k := by
  intro p hp
  rcases eq_or_ne p k.initproc with rfl | hne
  · rcases h.init with ⟨_, _, cwd, _, _, hinit⟩
    rw [hinit]
    exact Option.some_ne_none cwd
  · rw [h.other p hne] at hp
    exact absurd (Or.inl rfl) hp

theorem liveCwd_step {k k' : Kernel} {a : Act} (h : LiveCwd k)
    (hstep : Step k a k') : LiveCwd k' := by
  intro q hused
  have hcaller : forall cur, a.caller = some cur ->
      (k.procs.proc cur).cwd ≠ none :=
    fun cur hcur => h cur (not_idle_of_alive (caller_alive hstep hcur))
  cases step_fares hstep q with
  | kept _ hkept hstate =>
      rw [hkept.cwd]
      exact h q (fun hidle => hused ((idle_iff_of_woken hstate).mpr hidle))
  | moved _ hkept hold =>
      rw [hkept.cwd]
      exact h q (not_idle_of_alive hold)
  | free _ _ hnew | reaped cur _ hnew => exact absurd (Or.inl hnew) hused
  | made _ cur ha _ _ _ _ hcwd =>
      rw [hcwd]
      apply hcaller cur
      rcases ha with rfl | ⟨stack, rfl⟩
      · rfl
      · rfl
  | exited hnew => exact absurd (Or.inr hnew) hused
  | own _ hcur hown => exact hown.cwd (hcaller q hcur)

/-!
## Exit
-/

/-- Everything the process had is given up: no descriptor is open, every file
has lost one reference for each descriptor, and the inode references have gone
down with the files and the directory. -/
structure Released (cur : Pslot) (k k' : Kernel) : Prop where
  ofile : forall fd, (k'.proc cur).ofile fd = none
  ref : forall f, (k'.file f).ref = (k.file f).ref -
    (held (k.proc cur).ofile (List.finRange NOFILE) f : Int)
  cwd : (k'.proc cur).cwd = none
  balanced : Balanced k k'

theorem exit_left {cur : Pslot} {k : Kernel} (hinit : cur ≠ k.initproc)
    (hthreads : k.numofthread ≠ 0) :
    exists k' woken, exit cur k = .ok ((), k') ∧ k'.file = k.file ∧
      k'.procs = k.procs.exited cur woken := by
  have hwp : wp (exit cur)
      (fun _ k' => exists woken, k'.file = k.file ∧
        k'.procs = k.procs.exited cur woken) (fun _ => False) k := by
    apply wp_exit hinit (fun _ h => absurd h hthreads)
    intro _ _
    apply wp_post (wp_exitTail cur k)
    rintro _ _ ⟨woken, _, rfl⟩
    exact ⟨woken, rfl, rfl⟩
  rcases wp_returns hwp with ⟨_, k', hrun, woken, hend⟩
  exact ⟨k', woken, hrun, hend⟩

theorem wp_exitCwd (cur : Pslot) (k : Kernel) :
    wp (exitCwd cur) (fun _ k' => k'.file = k.file)
      (fun e => (k.proc cur).cwd ≠ none -> Releasing e) k := by
  unfold exitCwd pidOf cwdOf onFs
  simp only [wp_bind, wp_gets, wp_zoom]
  apply wp_mono (Fs.stops_beginOp k.fs) ?_
    (fun _ he _ => Releasing.of_stops he)
  intro _ s1 _
  cases hcwd : (k.proc cur).cwd with
  | none => exact fun hsome => absurd rfl hsome
  | some cwd =>
      simp only [wp_bind, wp_zoom]
      apply wp_mono (Fs.stops_iput _ cwd s1) ?_
        (fun _ he _ => Releasing.of_stops he)
      intro _ s2 _
      exact wp_mono (Fs.stops_endOp s2) (fun _ _ _ => rfl)
        (fun _ he _ => Releasing.of_stops he)

theorem wp_exit_closed {cur : Pslot} {k : Kernel} (hzero : k.numofthread = 0) :
    wp (exit cur)
      (fun _ k' =>
        (forall f, (k'.file f).ref = (k.file f).ref -
          (held (k.proc cur).ofile (List.finRange NOFILE) f : Int)) ∧
        ((forall f, 0 ≤ (k.file f).ref) -> Worn k.file k'))
      (fun e => cur ≠ k.initproc -> (k.proc cur).cwd ≠ none ->
        Counted cur k -> Releasing e) k := by
  apply wp_exit (fun h hinit => absurd h hinit) ?_
    (fun _ h => absurd hzero h)
  intro _ _
  apply wp_mono (wp_and (wp_exitOfiles cur k)
    (sees_exitOfiles cur k.procs k rfl)) ?_ (fun _ h _ _ => h.1)
  rintro _ k1 ⟨hclosed, hprocs⟩
  have hcwd : (k1.procs.proc cur).cwd = (k.proc cur).cwd := by
    rw [hprocs, Procs.set_self]
    rfl
  apply wp_mono (wp_exitCwd cur k1) ?_
    (fun _ he _ hsome _ => he (hcwd.trans_ne hsome))
  intro _ k2 hfile
  apply wp_post (wp_exitTail cur k2)
  rintro _ _ ⟨woken, _, rfl⟩
  have hworn : Worn k.file k1 -> Worn k.file k2 := by
    unfold Worn
    rw [hfile]
    exact id
  refine ⟨fun f => ?_, fun hall => hworn (hclosed.worn hall)⟩
  show (k2.file f).ref = _
  rw [hfile, hclosed.ref f]
  exact add_zero _

/-- In every state of every run: an `exit` that completes has released
everything exactly if there is no thread in the system.  Then nothing but the
release of an inode or a pipe can keep it from completing, if the files count
the descriptors of the process. -/
theorem exit_releases_iff {k₀ k : Kernel} {cur : Pslot} (hboot : Booted k₀)
    (hruns : Runs Step (fun _ _ => True) k₀ k)
    (hcur : (k.proc cur).state = .RUNNING) (hinit : cur ≠ k.initproc) :
    ((forall k', exit cur k = .ok ((), k') -> Released cur k k') ↔
        k.numofthread = 0) ∧
      (k.numofthread = 0 -> Counted cur k ->
        forall e, exit cur k = .error e -> Releasing e) := by
  have hfree : k.FreeNone := by
    apply hruns.invariant (I := FreeNone)
    · exact fun f _ => (hboot.file f).2
    · exact fun _ _ _ h _ hstep => freeNone_step h hstep
  have hlive : LiveCwd k := by
    apply hruns.invariant (booted_liveCwd hboot)
    exact fun _ _ _ h _ hstep => liveCwd_step h hstep
  have hcwd : (k.proc cur).cwd ≠ none := by
    apply hlive cur
    rw [hcur]
    decide
  refine ⟨⟨?_, ?_⟩, ?_⟩
  · intro hall
    rcases Decidable.em (k.numofthread = 0) with hzero | hthreads
    · exact hzero
    · rcases exit_left hinit hthreads with ⟨k', woken, hrun, _, hprocs⟩
      have hnone := (hall k' hrun).cwd
      have hproc : k'.proc cur = (k.procs.exited cur woken).proc cur :=
        congrArg (fun t => Procs.proc t cur) hprocs
      have hkept : (k'.proc cur).cwd = (k.proc cur).cwd := by
        rw [hproc, Procs.exited_self]
        rfl
      exact absurd (hkept.symm.trans hnone) hcwd
  · intro hzero k' hrun
    have heffect := (sees_exit cur k.procs).ok hrun
    generalize hprocs : k'.procs = t' at heffect
    have hproc : k'.proc cur = t'.proc cur :=
      congrArg (fun t => Procs.proc t cur) hprocs
    cases heffect with
    | left woken _ hthreads => exact absurd hzero hthreads
    | closed woken _ _ =>
        constructor
        · intro fd
          rw [hproc, Procs.exited_self]
          simp [Procs.closed]
        · exact (wp_ok (wp_exit_closed hzero) hrun).1
        · rw [hproc, Procs.exited_self]
          simp [Procs.closed]
        · exact (balanced_of_turns turns_exit hfree hrun).1
  · intro hzero hcounted e hrun
    exact wp_error (wp_exit_closed hzero) hrun hinit hcwd hcounted

theorem exit_releases_iff_child :
    exists k, Runs Step (fun _ _ => True) boot k ∧
      (k.proc 1).state = .RUNNING ∧ (1 : Pslot) ≠ k.initproc ∧
        ((forall k', exit 1 k = .ok ((), k') -> Released 1 k k') ↔
          k.numofthread = 0) ∧
          (k.numofthread = 0 -> Counted 1 k ->
            forall e, exit 1 k = .error e -> Releasing e) := by
  rcases child_runs (C := fun _ _ => True) Runs.refl trivial
    (fun _ => trivial) boot_canFork rfl (p := 1) (by decide) (by decide) with
    ⟨k, kstack, pgdir, _, hruns, hprocs⟩
  have hcur : (k.proc 1).state = .RUNNING :=
    congrArg (fun t => (Procs.proc t 1).state) hprocs
  have hinit : (1 : Pslot) ≠ k.initproc := by
    rw [show k.initproc = 0 from congrArg Procs.initproc hprocs]
    decide
  exact ⟨k, hruns, hcur, hinit,
    exit_releases_iff boot_booted hruns hcur hinit⟩

/-- `init` opens a pipe and makes a thread. -/
def threaded : Kernel := play [.pipe 0 true, .clone 0 2048] boot

/-- A child of `init`, which is not a thread and has none, exits while `init`
has a thread: its files and its directory stay. -/
theorem exit_keeps_files_of_child :
    exists k k', Booted boot ∧ Runs Step Called boot k ∧
      (k.proc 2).state = .RUNNING ∧ (k.proc 2).threadIndictor = 0 ∧
        (forall p, (k.proc p).parent ≠ some 2) ∧
          (k.proc 2).ofile 0 = some 0 ∧ exit 2 k = .ok ((), k') ∧
            (k'.proc 2).ofile 0 = some 0 ∧
              (k'.file 0).ref = (k.file 0).ref ∧
                (k'.proc 2).cwd = some 0 := by
  have hruns : Runs Step Called boot threaded :=
    runs_play Runs.refl (by decide +kernel)
  have hcan : CanFork 5000 0 threaded :=
    canFork_init (i := 2) (by decide +kernel) ⟨2, by decide +kernel⟩ rfl rfl
      (by decide +kernel) (by decide +kernel) rfl (by decide)
  rcases child_runs hruns (fun _ _ => Act.noConfusion)
    (fun _ _ _ => Act.noConfusion) hcan (by decide +kernel) (p := 2)
    (by decide +kernel) (by decide +kernel) with
    ⟨k, kstack, pgdir, _, hruns', hprocs⟩
  have hproc : forall p, k.proc p = _ :=
    fun p => congrArg (fun t => Procs.proc t p) hprocs
  have hparents : forall p, (threaded.procs.proc p).parent ≠ some 2 := by
    decide +kernel
  have hopen : (k.proc 2).ofile 0 = some 0 :=
    congrArg (fun pr => Proc.ofile pr 0) (hproc 2)
  have hcwd : (k.proc 2).cwd = some 0 := congrArg Proc.cwd (hproc 2)
  have hinit : (2 : Pslot) ≠ k.initproc := by
    rw [show k.initproc = 0 from congrArg Procs.initproc hprocs]
    decide
  have hthreads : k.numofthread ≠ 0 := by
    rw [show k.numofthread = 1 from congrArg Procs.numofthread hprocs]
    decide
  rcases exit_left hinit hthreads with ⟨k', woken, hrun, hfile, hexited⟩
  have hleft : k'.proc 2 = (k.procs.exited 2 woken).proc 2 :=
    congrArg (fun t => Procs.proc t 2) hexited
  rw [Procs.exited_self] at hleft
  refine ⟨k, k', boot_booted, hruns', congrArg Proc.state (hproc 2),
    congrArg Proc.threadIndictor (hproc 2), ?_, hopen, hrun, ?_, by rw [hfile],
    ?_⟩
  · intro p
    rcases eq_or_ne p 2 with rfl | hp
    · rw [hproc]
      exact nofun
    · rw [hproc, Procs.set_of_ne _ hp, Procs.forked_of_ne _ _ hp,
        resetTickets_parent]
      exact hparents p
  · rw [hleft]
    exact hopen
  · rw [hleft]
    exact hcwd

end Kernel
end Xv6
