import Xv6.Proc.Descriptors
import Xv6.Proc.Shifts
import Xv6.Proc.Threads

/-!
# Accounts of the files and the pipes

As long as nobody makes a thread, every file counts the descriptors that point
to it, and every pipe its files.
-/

namespace Xv6
namespace Kernel

open Lib Lib.Run

/-- The descriptors of all slots that point to the file `f`. -/
def pointers (k : Kernel) (f : Fslot) : Finset (Pslot × Fin NOFILE) :=
  Finset.univ.filter (fun x => (k.proc x.1).ofile x.2 = some f)

/-- Every file has the references of the descriptors. -/
def Tallied (k : Kernel) : Prop :=
  forall f, (k.file f).ref = (pointers k f).card

section Steps

variable {k k' : Kernel} {a : Act} {cur : Pslot}

theorem card_pointers (k : Kernel) (f : Fslot) :
    (pointers k f).card = Finset.univ.sum (fun p =>
      held (k.proc p).ofile (List.finRange NOFILE) f) := by
  unfold pointers
  rw [Finset.card_filter, Fintype.sum_prod_type]
  exact Finset.sum_congr rfl (fun p _ => (held_eq_sum _ f).symm)

theorem Tallied.slot (h : Tallied k) (p : Pslot)
    (hother : forall q, q ≠ p -> (k'.proc q).ofile = (k.proc q).ofile)
    (href : forall f, (k'.file f).ref +
        (held (k.proc p).ofile (List.finRange NOFILE) f : Int) =
      (k.file f).ref +
        (held (k'.proc p).ofile (List.finRange NOFILE) f : Int)) :
    Tallied k' := by
  intro f
  have hofile : (fun q => (k'.proc q).ofile) =
      Function.update (fun q => (k.proc q).ofile) p (k'.proc p).ofile := by
    funext q
    rcases eq_or_ne q p with rfl | hne
    · rw [Function.update_self]
    · rw [Function.update_of_ne hne, hother q hne]
  have hsum := sum_update
    (fun ofile => held ofile (List.finRange NOFILE) f)
    (fun q => (k.proc q).ofile) (k'.proc p).ofile (Finset.mem_univ p)
  rw [← hofile] at hsum
  simp only [← card_pointers] at hsum
  have hf := h f
  have hf' := href f
  lia

theorem held_none (fds : List (Fin NOFILE)) (f : Fslot) :
    held (fun _ => none) fds f = 0 := by
  simp [held]

theorem tallied_adds (hk : Tallied k) (hown : Own cur k.procs k'.procs)
    (h : Adds 0 cur k k') : Tallied k' := by
  apply hk.slot cur
  · exact fun q hq => congrArg Proc.ofile (hown.other q hq)
  · intro f
    have htally := h.tally f
    rw [Multiset.count_zero, Nat.cast_zero, add_zero] at htally
    exact htally

theorem tallied_closes {i : Fin NOFILE} {f : Fslot} (hk : Tallied k)
    (hi : (k.proc cur).ofile i = some f) (h : Closes cur i f k k') :
    Tallied k' := by
  have hproc : forall q, k'.proc q = (k.procs.set cur (fun pr =>
      { pr with ofile := Function.update pr.ofile i none })).proc q :=
    fun q => congrArg (fun t => Procs.proc t q) h.procs
  apply hk.slot cur
  · intro q hq
    rw [hproc, Procs.set_of_ne _ hq]
    rfl
  · intro f'
    have hless := held_update (k.proc cur).ofile i none f'
    rw [hi, if_neg (show ¬ (none : Option Fslot) = some f' by simp)] at hless
    rw [hproc, Procs.set_self]
    show _ = _ + (held (Function.update (k.proc cur).ofile i none) _ f' : Int)
    rcases eq_or_ne f' f with rfl | hne
    · rw [if_pos rfl] at hless
      rw [h.ref]
      lia
    · rw [if_neg (by simpa using hne.symm)] at hless
      rw [h.other f' hne]
      lia

theorem tallied_fork {r : Int} (hk : Tallied k) (hidle : IdleClosed k)
    (h : Forks cur k r k') : Tallied k' := by
  cases h with
  | noSlot s h =>
      cases h with
      | full _ => exact hk
      | noStack p hp =>
          apply hk.slot p
          · intro q hq
            exact congrArg Proc.ofile (k.procs.noStack_of_ne hq)
          · intro f
            simp [withTable, Procs.noStack, procs]
  | noCopy s p x hp =>
      apply hk.slot p
      · intro q hq
        exact congrArg Proc.ofile (k.procs.noCopy_of_ne hq x)
      · intro f
        simp [withTable, Procs.noCopy, Procs.embryo, procs]
  | done s p x d cwd hp =>
      have hnone : (k.proc p).ofile = fun _ => none :=
        funext (hidle p (Or.inl hp))
      have hchild : ((k.procs.forked cur p x d).proc p).ofile =
          (k.proc cur).ofile := by
        rw [Procs.forked_self, resetTickets_ofile]
        funext fd
        show ((k.proc cur).ofile fd).or
          (((k.procs.embryo p x).proc p).ofile fd) = _
        rw [Procs.embryo_self]
        show ((k.proc cur).ofile fd).or ((k.proc p).ofile fd) = _
        rw [hnone, Option.or_none]
      apply hk.slot p
      · intro q hq
        show ((k.procs.forked cur p x d).proc q).ofile = _
        rw [Procs.forked_of_ne _ cur hq, resetTickets_ofile]
        rfl
      · intro f
        show (k.file f).ref + (held (k.proc cur).ofile _ f : Int) + _ =
          (k.file f).ref + (held ((k.procs.forked cur p x d).proc p).ofile _ f
            : Int)
        rw [hchild, hnone, held_none, Nat.cast_zero, add_zero]

theorem ofile_of_step {q : Pslot} (hstep : Step k a k') (hown : ¬ a.own)
    (hfork : forall cur, a ≠ .fork cur)
    (hclone : forall cur stack, a ≠ .clone cur stack)
    (hexit : a ≠ .exit q) : (k'.proc q).ofile = (k.proc q).ofile := by
  cases step_fares hstep q with
  | kept _ h | moved _ h => exact h.ofile
  | free _ _ _ hofile | reaped _ _ _ hofile => exact hofile
  | made _ cur ha =>
      rcases ha with ha | ⟨stack, ha⟩
      · exact absurd ha (hfork cur)
      · exact absurd ha (hclone cur stack)
  | exited => exact absurd rfl hexit
  | own _ _ _ h => exact absurd h hown

theorem tallied_exit (hk : Tallied k) (hzero : k.numofthread = 0)
    (hstep : Step k (.exit cur) k') : Tallied k' := by
  rcases wp_ok (wp_exit_closed hzero) (exit_of_step hstep) with ⟨href, _⟩
  have hnone : (k'.procs.proc cur).ofile = fun _ => none := by
    have heffect := (sees_exit cur k.procs).ok (exit_of_step hstep)
    generalize k'.procs = t' at heffect
    cases heffect with
    | closed woken =>
        rw [Procs.exited_self]
        simp [Procs.closed]
    | left _ _ h => exact absurd hzero h
  change (k'.proc cur).ofile = _ at hnone
  apply hk.slot cur
  · intro q hq
    exact ofile_of_step hstep not_false (fun _ h => by cases h)
      (fun _ _ h => by cases h) (fun h => hq (by cases h; rfl))
  · intro f
    rw [href f, hnone, held_none]
    lia

theorem tally_step (h : Tallied k) (hidle : IdleClosed k)
    (hzero : k.numofthread = 0)
    (hclone : forall cur stack, a ≠ .clone cur stack)
    (hstep : Step k a k') : Tallied k' := by
  have hsame : k'.file = k.file ->
      (forall p, (k'.proc p).ofile = (k.proc p).ofile) -> Tallied k' := by
    intro hfile hofile
    apply h.slot k.initproc (fun q _ => hofile q)
    intro f
    rw [hfile, hofile]
  have hcall : forall {cur : Pslot}, a.own -> a.caller = some cur ->
      Tallied k' := by
    intro cur hown hcur
    cases step_handles hstep hown hcur with
    | adds hadds => exact tallied_adds h (own_of_step hstep hown hcur) hadds
    | closes _ hopened hcloses =>
        exact tallied_closes h (opened_ofile hopened) hcloses
    | moves _ hfile hprocs =>
        apply hsame hfile
        intro p
        rcases eq_or_ne p cur with rfl | hne
        · rw [proc_of_set hprocs]
        · exact congrArg Proc.ofile ((own_of_step hstep hown hcur).other p hne)
  cases a with
  | fork cur =>
      have hcur := caller_used hstep rfl
      rcases hstep with ⟨_, r, hrun⟩
      exact tallied_fork h hidle (wp_ok (wp_forks hcur) hrun)
  | exit cur => exact tallied_exit h hzero hstep
  | call cur _ | dup cur _ | pipe cur _ | sbrk cur _ =>
      exact hcall trivial rfl
  | _ =>
      apply hsame (congrArg Prod.fst (stores_of_step hstep not_false))
      intro p
      exact ofile_of_step hstep not_false (fun _ h => by cases h) hclone
        (fun h => by cases h)

structure NoThreads (k : Kernel) : Prop where
  slot : forall p, ¬ IsThread (k.proc p)
  counter : k.numofthread = 0

theorem NoThreads.surplus (h : NoThreads k) : surplus k = 0 := by
  have hnone : threads k.proc = 0 := by
    unfold threads
    rw [Finset.filter_false_of_mem (fun p _ => h.slot p), Finset.card_empty]
  unfold Kernel.surplus
  rw [h.counter, hnone]
  rfl

theorem noThreads_step (h : NoThreads k)
    (hclone : forall cur stack, a ≠ .clone cur stack)
    (hstep : Step k a k') : NoThreads k' := by
  have hslot : forall q, ¬ IsThread (k'.proc q) := by
    intro q hq
    rcases Classical.em (exists cur, a = .wait cur) with ⟨cur, rfl⟩ | hwait
    · rcases hstep.2 with ⟨r, hrun⟩
      have heffect := (sees_wait cur k.procs).ok hrun
      change IsThread (k'.procs.proc q) at hq
      generalize k'.procs = t' at heffect hq
      cases heffect with
      | thread p hfinds hthread =>
          apply h.slot p
          refine ⟨hthread, ?_⟩
          rw [show (k.proc p).state = .ZOMBIE from hfinds.state]
          exact Procstate.noConfusion
      | proc p hfinds hthread =>
          rcases eq_or_ne q p with rfl | hne
          · exact hq.2 (congrArg Proc.state (Procs.set_self ..))
          · rw [show (k.procs.reaped p).proc q = k.proc q from
              Procs.set_of_ne _ hne _] at hq
            exact h.slot q hq
      | none => exact h.slot q hq
    · exact h.slot q ((fares_isThread (step_fares hstep q)
        (caller_used hstep) hclone (fun cur heq => hwait ⟨cur, heq⟩)).mp hq)
  refine ⟨hslot, ?_⟩
  have hsurplus : Kernel.surplus k' = 0 := by
    rcases surplus_step hstep with ⟨_, hsame⟩ | ⟨hno, _⟩
    · exact hsame.trans h.surplus
    · exact absurd (fun cur stack heq => absurd heq (hclone cur stack)) hno
  have hnone : threads k'.proc = 0 := by
    unfold threads
    rw [Finset.filter_false_of_mem (fun p _ => hslot p), Finset.card_empty]
  unfold Kernel.surplus at hsurplus
  rw [hnone] at hsurplus
  lia

end Steps

/-!
## Runs without threads
-/

def MakesNoThread (_ : Kernel) (a : Act) : Prop :=
  forall cur stack, a ≠ .clone cur stack

/-- The open file `f` is the end of the pipe in the page `p` that is written
to, or else the one that is read from. -/
def IsEnd (k : Kernel) (p : UInt32) (written : Bool) (f : Fslot) : Prop :=
  0 < (k.file f).ref ∧ (k.file f).type = .FD_PIPE ∧ (k.file f).pipe = p ∧
    (k.file f).writable = written

instance (k : Kernel) (p : UInt32) (written : Bool) (f : Fslot) :
    Decidable (IsEnd k p written f) :=
  inferInstanceAs (Decidable (_ ∧ _))

/-- The files count their descriptors and the pipes their files. -/
structure Accounts (k : Kernel) : Prop where
  ref : forall f, (k.file f).ref = (pointers k f).card
  fits : forall f, (k.file f).ref ≤ NPROC * NOFILE
  none : forall f, (k.file f).ref = 0 -> (k.file f).type = .FD_NONE
  readopen : forall p,
    (k.pipe p).readopen = true ↔ exists f, IsEnd k p false f
  writeopen : forall p,
    (k.pipe p).writeopen = true ↔ exists f, IsEnd k p true f
  used : forall p written f, IsEnd k p written f -> p ∉ k.vm.freelist

/-- What holds along a run without threads. -/
structure Orderly (b : Vm.Managed) (k : Kernel) : Prop where
  tidy : Tidy b 0 k
  alone : NoSharing k
  threads : NoThreads k
  idle : IdleClosed k
  tally : Tallied k

section Runs

variable {b : Vm.Managed} {k₀ k k' : Kernel} {a : Act}

theorem Launched.orderly (h : Launched b k) : Orderly b k := by
  have hblank := h.toBooted.blank
  refine ⟨h.tidy, h.noSharing, ⟨fun p hp => ?_, h.numofthread⟩,
    fun p _ => (hblank p).ofile, fun f => ?_⟩
  · exact absurd ((hblank p).threadIndictor.symm.trans hp.1) (by decide)
  · have hnone : pointers k f = ∅ := by
      unfold pointers
      rw [Finset.filter_false_of_mem]
      rintro x -
      rw [(hblank x.1).ofile]
      simp
    rw [hnone, (h.file f).1]
    rfl

theorem Orderly.freesOwn (h : Orderly b k) (a : Act)
    (hcaller : forall cur, a.caller = some cur ->
      (k.proc cur).state = .RUNNING) : FreesOwn k a := by
  intro p hp
  apply h.alone p
  cases a with
  | wait cur =>
      rw [show (k.proc p).state = .ZOMBIE from hp.1.state]
      exact Procstate.noConfusion
  | call cur c =>
      cases c with
      | exec args =>
          cases hp
          rw [hcaller p rfl]
          exact Procstate.noConfusion
      | _ => exact hp.elim
  | _ => exact hp.elim

theorem Orderly.notDrops (h : Orderly b k) (a : Act) : ¬ Drops k a := by
  intro hdrops
  cases a with
  | wait cur =>
      rcases hdrops with ⟨p, hfinds, hthread⟩
      apply h.threads.slot p
      refine ⟨hthread, ?_⟩
      rw [show (k.proc p).state = .ZOMBIE from hfinds.state]
      exact Procstate.noConfusion
  | _ => exact hdrops.elim

theorem orderly_step (h : Orderly b k) (hclone : MakesNoThread k a)
    (hstep : Step k a k') : Orderly b k' := by
  have hown := h.freesOwn a hstep.1.1
  rcases step_tidy h.tidy hown hstep with ⟨lost, htidy, hlost⟩
  cases hlost (h.notDrops a)
  constructor
  · exact htidy
  · exact noSharing_step h.alone hclone (step_dirStep h.tidy hown hstep)
  · exact noThreads_step h.threads hclone hstep
  · exact idleClosed_step h.idle (fun _ _ => Or.inl h.threads.counter) hstep
  · exact tally_step h.tally h.idle h.threads.counter hclone hstep

theorem Orderly.isEnd (h : Orderly b k) (p : UInt32) (w : Bool) (f : Fslot) :
    IsEnd k p w f ↔ k.memory.ends f = some (p, w) := by
  show _ ↔ endOf (k.file f) = some (p, w)
  unfold endOf IsEnd
  rcases Decidable.em ((k.file f).type = .FD_PIPE) with htype | htype
  · have hpos : 0 < (k.file f).ref := by
      have href := h.tally f
      have hzero : (k.file f).ref ≠ 0 := by
        intro hzero
        rw [h.tidy.free f hzero] at htype
        cases htype
      lia
    rw [if_pos htype, Option.some_inj, Prod.mk.injEq]
    simp only [hpos, htype, true_and]
  · rw [if_neg htype]
    simp [htype]

theorem Allotted.pipe_used {lost : Multiset UInt32} {t : Holdings}
    {m : Memory} (h : Allotted b lost t m) {p : UInt32}
    (hp : p ∈ m.ends.pipes) : p ∉ m.vm.freelist := by
  intro hfree
  exact ((h.pipeClosing hp).free_out hfree).2.1 (Multiset.mem_singleton_self p)

theorem Orderly.accounts (h : Orderly b k) : Accounts k := by
  have hopen : forall p w, k.memory.isOpen p w = true ↔
      exists f, IsEnd k p w f := by
    intro p w
    rw [h.tidy.allotted.isOpen]
    simp only [h.isEnd]
  constructor
  · exact h.tally
  · intro f
    have hcard := Finset.card_le_univ (pointers k f)
    rw [Fintype.card_prod, Fintype.card_fin, Fintype.card_fin] at hcard
    rw [h.tally f]
    exact Int.ofNat_le.mpr hcard
  · exact h.tidy.free
  · exact fun p => hopen p false
  · exact fun p => hopen p true
  · intro p w f hend
    apply h.tidy.allotted.pipe_used
    exact Ends.mem_pipes.mpr ⟨f, w, (h.isEnd p w f).mp hend⟩

/-- Without threads, the files count their descriptors and the pipes their
files, and the page of a pipe is freed once, when its last end is closed. -/
theorem file_accounts (hstart : Launched b k₀)
    (hruns : Runs Step MakesNoThread k₀ k) :
    Accounts k ∧ forall a k' p, MakesNoThread k a -> Step k a k' ->
      (exists written f, IsEnd k p written f) ->
        (forall written f, ¬ IsEnd k' p written f) ->
          k.vm.freelist.count p = 0 ∧ k'.vm.freelist.count p = 1 := by
  have horderly : Orderly b k :=
    hruns.invariant hstart.orderly
      (fun _ _ _ h hclone hstep => orderly_step h hclone hstep)
  refine ⟨horderly.accounts, ?_⟩
  rintro a k' p hclone hstep ⟨w, f, hend⟩ hclosed
  have hafter := orderly_step horderly hclone hstep
  have hends := (horderly.isEnd p w f).mp hend
  have hpipe : p ∈ k.memory.ends.pipes := Ends.mem_pipes.mpr ⟨f, w, hends⟩
  have hgone : p ∉ k'.memory.ends.pipes := by
    intro hp
    rcases Ends.mem_pipes.mp hp with ⟨f', w', hf'⟩
    exact hclosed w' f' ((hafter.isEnd p w' f').mpr hf')
  have hfree : k.vm.freelist.count p = 0 :=
    List.count_eq_zero.mpr (horderly.tidy.allotted.pipe_used hpipe)
  refine ⟨hfree, ?_⟩
  rcases (step_shifts horderly.tidy hstep).pipes horderly.tidy with
    hsame | hsum
  · rw [hsame] at hgone
    exact absurd hpipe hgone
  · have hcount := congrArg (Multiset.count p) hsum
    rw [Multiset.count_add, Multiset.count_add, Multiset.coe_count,
      Multiset.coe_count, hfree,
      Multiset.count_eq_one_of_mem k.memory.ends.pipes.nodup hpipe,
      Multiset.count_eq_zero_of_notMem hgone] at hcount
    exact hcount

end Runs

/-- `init` opens a pipe and closes the end that is read from. -/
def readClosed : Kernel := next (.call 0 (.close (some 0))) pipeOpen

/-- It then closes the other end, and the page of the pipe is free. -/
theorem file_accounts_pipe :
    exists k' p, Launched bootManaged boot ∧
      Runs Step MakesNoThread boot readClosed ∧ IsEnd readClosed p true 1 ∧
        Step readClosed (.call 0 (.close (some 1))) k' ∧
          Accounts readClosed ∧ readClosed.vm.freelist.count p = 0 ∧
            k'.vm.freelist.count p = 1 := by
  have hpipe : Runs Step MakesNoThread boot pipeOpen :=
    Runs.refl.tail (.pipe 0 true) (fun _ _ h => by cases h) pipeOpen_step
  have hread : Runs Step MakesNoThread boot readClosed :=
    hpipe.tail (.call 0 (.close (some 0))) (fun _ _ h => by cases h)
      (step_next (r := 0) (enabled_call rfl (by decide +kernel))
        (by decide +kernel))
  have hstep : Step readClosed (.call 0 (.close (some 1)))
      (next (.call 0 (.close (some 1))) readClosed) :=
    step_next (r := 0) (enabled_call rfl (by decide +kernel))
      (by decide +kernel)
  have hend : IsEnd readClosed (readClosed.file 1).pipe true 1 := by
    decide +kernel
  rcases file_accounts boot_launched hread with ⟨haccounts, hfreed⟩
  have hcount := hfreed _ _ _ (fun _ _ h => by cases h) hstep ⟨true, 1, hend⟩
    (by decide +kernel)
  exact ⟨_, _, boot_launched, hread, hend, hstep, haccounts, hcount⟩

end Kernel
end Xv6
