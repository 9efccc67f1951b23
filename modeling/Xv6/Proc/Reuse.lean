import Xv6.Lib.Words
import Xv6.Proc.Release

/-!
# What free slots remember

A slot becomes free in several ways, and each clears other fields: a reaped
process loses its parent, its pid and its `killed` mark, a reaped thread keeps
all three, and a `fork` that fails leaves a pid nobody has.  `wait` and `kill`
look at every slot, free ones included.
-/

namespace Xv6
namespace Kernel

open Lib Lib.Run

/-!
## Free slots under a step
-/

/-- Where the fields of a slot that is free after the step `a` come from. -/
inductive Frees (t : Procs) (q : Pslot) (pr : Proc) : Act -> Prop where
  | still (a : Act) (hstate : (t.proc q).state = .UNUSED)
      (hparent : (t.proc q).parent = none -> pr.parent = none)
      (hkilled : pr.killed = (t.proc q).killed) : Frees t q pr a
  | killed (cur : Pslot) (pid : Int32) (hstate : (t.proc q).state = .UNUSED)
      (hparent : pr.parent = (t.proc q).parent)
      (hpid : (t.proc q).pid.toInt = pid.toInt) :
      Frees t q pr (.kill cur pid)
  | thread (cur : Pslot) (hfinds : Finds cur t q)
      (hthread : (t.proc q).threadIndictor = 1)
      (hkilled : pr.killed = (t.proc q).killed) : Frees t q pr (.wait cur)
  | proc (cur : Pslot) (hparent : pr.parent = none)
      (hkilled : pr.killed = false) : Frees t q pr (.wait cur)

theorem unused_of_woken {st st' : Procstate}
    (h : st' = st ∨ st = .SLEEPING ∧ st' = .RUNNABLE) (h' : st' = .UNUSED) :
    st = .UNUSED := by
  rcases h with rfl | ⟨_, rfl⟩
  · exact h'
  · cases h'

theorem frees_step {k k' : Kernel} {a : Act} (hstep : Step k a k') (q : Pslot)
    (h' : (k'.proc q).state = .UNUSED) : Frees k.procs q (k'.proc q) a := by
  have hrunning : forall cur, a.caller = some cur ->
      (k.procs.proc cur).state = .RUNNING := hstep.1.1
  generalize hpr : k'.proc q = pr at h' ⊢
  have hbecomes := step_becomes hstep q
  rw [hpr] at hbecomes
  cases hbecomes with
  | same => exact Frees.still a h' id rfl
  | noStack _ hunused =>
      apply Frees.still a hunused
      · simp [Procs.noStack]
      · simp [Procs.noStack]
  | noCopy _ kstack hunused =>
      apply Frees.still a hunused
      · simp [Procs.noCopy, Procs.embryo]
      · simp [Procs.noCopy, Procs.embryo]
  | child cur kstack pgdir hunused =>
      simp [Procs.forked, Procs.map, forkChild] at h'
  | reset cur =>
      rw [resetTickets_state] at h'
      apply Frees.still _ h'
      · simp
      · simp
  | thread cur kstack stack hunused => simp [Procs.cloned, cloneThread] at h'
  | exitClosed woken hzero | exitLeft woken hthreads =>
      simp [Procs.exited] at h'
  | passed cur woken =>
      apply Frees.still _ (unused_of_woken (passSlot_wake_state _ _ _ _ _) h')
      · intro hnone
        show (if (wake _ (k.procs.proc q)).parent = some cur then _ else _) = _
        rw [wake_eq]
        simp [hnone]
      · show (wake _ (k.procs.proc q)).killed = _
        rw [wake_eq]
  | reapedThread cur hfinds hthread =>
      apply Frees.thread cur hfinds hthread
      simp [Procs.reapedThread]
  | reaped cur hfinds hthread =>
      apply Frees.proc cur
      · simp [Procs.reaped]
      · simp [Procs.reaped]
  | killed cur pid hpid hfirst =>
      exact Frees.killed cur pid (unused_of_woken (killSlot_state _) h') rfl hpid
  | tickets n => exact Frees.still _ h' id rfl
  | own _ hcaller hown =>
      rw [hown.eq, hrunning q hcaller] at h'
      cases h'
  | yield | sleep chan | dispatched => cases h'
  | woken chan =>
      apply Frees.still _ (unused_of_woken (wake_state _ _) h')
      · rw [wake_eq]
        exact id
      · rw [wake_eq]

/-!
## Wait
-/

section Stops

/-- A panic while the memory of a process is given back. -/
def Unmapping (e : Stop) : Prop :=
  e = .panic "kfree" ∨ e = .panic "freevm: no pgdir"

instance : DecidablePred Unmapping :=
  fun e => inferInstanceAs
    (Decidable (e = .panic "kfree" ∨ e = .panic "freevm: no pgdir"))

theorem unmapping_kfree (pa : UInt32) : StopsIn Unmapping (Vm.kfree pa) :=
  StopsIn.bind (StopsIn.gets _) (fun _ =>
    StopsIn.ite (StopsIn.stop (by decide))
      (StopsIn.bind (StopsIn.modify _) (fun _ => StopsIn.modify _)))

theorem unmapping_walkpgdir (pgdir va : UInt32) :
    StopsIn Unmapping (Vm.walkpgdir pgdir va false) :=
  StopsIn.bind (StopsIn.gets _) (fun _ =>
    StopsIn.ite (StopsIn.pure _) (StopsIn.pure _))

theorem unmapping_deallocuvmLoop (pgdir oldsz : UInt32) (n : Nat)
    (a : UInt32) : StopsIn Unmapping (Vm.deallocuvmLoop pgdir oldsz n a) := by
  induction n generalizing a with
  | zero => exact StopsIn.pure ()
  | succ n ih =>
      apply StopsIn.ite
      · apply StopsIn.bind (unmapping_walkpgdir pgdir a)
        intro pte
        cases pte with
        | none => exact ih _
        | some pte =>
            apply StopsIn.bind (StopsIn.gets _)
            intro entry
            apply StopsIn.ite
            · apply StopsIn.ite
              · exact StopsIn.stop (by decide)
              · exact StopsIn.bind (unmapping_kfree _) (fun _ =>
                  StopsIn.bind (StopsIn.modify _) (fun _ => ih _))
            · exact ih _
      · exact StopsIn.pure ()

theorem unmapping_deallocuvm (pgdir oldsz newsz : UInt32) :
    StopsIn Unmapping (Vm.deallocuvm pgdir oldsz newsz) :=
  StopsIn.ite (StopsIn.pure _)
    (StopsIn.bind (unmapping_deallocuvmLoop pgdir _ _ _)
      (fun _ => StopsIn.pure _))

theorem unmapping_freePde (pgdir : UInt32) (i : Nat) :
    StopsIn Unmapping (Vm.freePde pgdir i) :=
  StopsIn.bind (StopsIn.gets _) (fun _ =>
    StopsIn.ite (unmapping_kfree _) (StopsIn.pure ()))

theorem unmapping_freevm (pgdir : Option UInt32) :
    StopsIn Unmapping (Vm.freevm pgdir) := by
  cases pgdir with
  | none => exact StopsIn.stop (Or.inr rfl)
  | some pgdir =>
      unfold Vm.freevm
      -- the 1024 entries are not to be enumerated
      generalize List.range NPDENTRIES = is
      exact StopsIn.bind (unmapping_deallocuvm pgdir KERNBASE 0) (fun _ =>
        StopsIn.bind (StopsIn.forEach (unmapping_freePde pgdir) is)
          (fun _ => unmapping_kfree pgdir))

theorem wp_reap_frees (p : Pslot) (k : Kernel) :
    wp (reap p)
      (fun r k' => r = (k.proc p).pid.toInt ∧ (k'.proc p).state = .UNUSED ∧
        forall q, q ≠ p -> k'.proc q = k.proc q) Unmapping k := by
  apply wp_reap
  · intro _
    refine ⟨rfl, ?_, fun q hq => k.procs.reapedThread_of_ne hq⟩
    show ((k.procs.reapedThread p).proc p).state = _
    simp [Procs.reapedThread]
  · exact fun _ => Or.inl rfl
  · intro x _ _
    apply wp_post (unmapping_kfree x k.vm)
    intro _ s _
    apply wp_post (unmapping_freevm (k.proc p).pgdir s)
    intro _ s' _
    refine ⟨rfl, ?_, ?_⟩
    · show ((k.procs.reaped p).proc p).state = _
      simp [Procs.reaped]
    · intro q hq
      show (k.procs.reaped p).proc q = _
      exact Procs.set_of_ne _ hq _

end Stops

/-- What one scan of `wait` should do for a caller that is not killed: reap a
zombie child if there is one, return `-1` if there is no child, and otherwise
sleep.  Only giving back the memory of a zombie child can panic. -/
def Verdict (cur : Pslot) (k : Kernel) : Prop :=
  wp (wait cur)
    (fun r k' =>
      (exists p, (k.proc p).parent = some cur ∧ (k.proc p).state = .ZOMBIE ∧
          r = (k.proc p).pid.toInt ∧ (k'.proc p).state = .UNUSED ∧
            forall q, q ≠ p -> k'.proc q = k.proc q) ∨
        (r = -1 ∧ k' = k ∧ forall p, (k.proc p).parent = some cur ->
          (k.proc p).state = .UNUSED))
    (fun e =>
      (e = .sleep ∧
          (exists p, (k.proc p).parent = some cur ∧
            ¬ Idle (k.proc p).state) ∧
            forall p, (k.proc p).parent = some cur ->
              (k.proc p).state ≠ .ZOMBIE) ∨
        (Unmapping e ∧ exists p, (k.proc p).parent = some cur ∧
          (k.proc p).state = .ZOMBIE)) k

theorem verdict_iff {cur : Pslot} {k : Kernel}
    (hkilled : (k.proc cur).killed = false) :
    Verdict cur k ↔
      ((exists p, (k.proc p).parent = some cur) ->
        exists p, (k.proc p).parent = some cur ∧
          (k.proc p).state ≠ .UNUSED) := by
  unfold Verdict wait
  rw [wp_bind, wp_gets]
  simp only [id_eq]
  cases hfind : (List.finRange NPROC).find? (fun p =>
      (k.proc p).parent = some cur ∧ (k.proc p).state = .ZOMBIE) with
  | some p =>
      rcases scan_some hfind with ⟨⟨hparent, hzombie⟩, _⟩
      have hused : exists p, (k.proc p).parent = some cur ∧
          (k.proc p).state ≠ .UNUSED :=
        ⟨p, hparent, by rw [hzombie]; decide⟩
      refine iff_of_true ?_ (fun _ => hused)
      apply wp_mono (wp_reap_frees p k)
      · intro r k' hfrees
        exact Or.inl ⟨p, hparent, hzombie, hfrees⟩
      · intro e he
        exact Or.inr ⟨he, p, hparent, hzombie⟩
  | none =>
      have hnone : forall p, (k.proc p).parent = some cur ->
          (k.proc p).state ≠ .ZOMBIE :=
        fun p hparent hzombie => scan_none hfind p ⟨hparent, hzombie⟩
      rcases Decidable.em (forall p, (k.proc p).parent ≠ some cur) with
        hlone | hchild
      · rw [if_pos (Or.inl hlone)]
        refine iff_of_true ?_ ?_
        · refine Or.inr ⟨rfl, rfl, ?_⟩
          exact fun p hparent => absurd hparent (hlone p)
        · rintro ⟨p, hparent⟩
          exact absurd hparent (hlone p)
      · have hsleep : ¬ ((forall p, (k.proc p).parent ≠ some cur) ∨
            (k.proc cur).killed = true) := by
          rw [hkilled]
          simpa using hchild
        rw [if_neg hsleep, wp_stop]
        constructor
        · rintro (⟨_, ⟨p, hparent, hlive⟩, _⟩ | ⟨_, p, hparent, hzombie⟩) _
          · exact ⟨p, hparent, fun hunused => hlive (Or.inl hunused)⟩
          · exact absurd hzombie (hnone p hparent)
        · intro h
          rcases h (by simpa using hchild) with ⟨p, hparent, hused⟩
          refine Or.inl ⟨rfl, ⟨p, hparent, ?_⟩, hnone⟩
          rintro (hunused | hzombie)
          · exact hused hunused
          · exact hnone p hparent hzombie

/-- No call of `wait` takes a thread. -/
def ReapsNoThread (k : Kernel) (a : Act) : Prop :=
  forall cur p, a = .wait cur -> Finds cur k.procs p ->
    (k.proc p).threadIndictor ≠ 1

def NoStaleParent (k : Kernel) : Prop :=
  forall p, (k.proc p).state = .UNUSED -> (k.proc p).parent = none

theorem booted_noStaleParent {k : Kernel} (h : Booted k) :
    NoStaleParent k :=
  fun p _ => (h.blank p).parent

theorem noStaleParent_step {k k' : Kernel} {a : Act} (h : NoStaleParent k)
    (hC : ReapsNoThread k a) (hstep : Step k a k') : NoStaleParent k' := by
  intro q hq
  cases frees_step hstep q hq with
  | still _ hunused hparent _ => exact hparent (h q hunused)
  | killed cur pid hunused hparent _ =>
      rw [hparent]
      exact h q hunused
  | thread cur hfinds hthread _ => exact absurd hthread (hC cur q rfl hfinds)
  | proc cur hparent _ => exact hparent

/-- In every run in which no `wait` takes a thread, every scan of `wait` by a
process that is not killed gives the right verdict. -/
theorem wait_verdict {k₀ k : Kernel} {cur : Pslot} (hboot : Booted k₀)
    (hruns : Runs Step ReapsNoThread k₀ k)
    (hkilled : (k.proc cur).killed = false) : Verdict cur k := by
  have hstale : NoStaleParent k := by
    apply hruns.invariant (booted_noStaleParent hboot)
    exact fun _ _ _ h hC hstep => noStaleParent_step h hC hstep
  apply (verdict_iff hkilled).mpr
  rintro ⟨p, hparent⟩
  refine ⟨p, hparent, fun hunused => ?_⟩
  rw [hstale p hunused] at hparent
  cases hparent

/-- `init` makes a thread and a child. -/
theorem wait_verdict_child :
    exists k, Booted boot ∧ Runs Step ReapsNoThread boot k ∧
      (k.proc 1).parent = some 0 ∧ (k.proc 1).threadIndictor = 1 ∧
        (k.proc 2).parent = some 0 ∧ (k.proc 2).state = .RUNNING ∧
          (k.proc 0).killed = false ∧ Verdict 0 k := by
  have hthread : Runs Step ReapsNoThread boot (play [.clone 0 2048] boot) :=
    runs_along Runs.refl (by decide +kernel)
      ⟨fun _ _ => Act.noConfusion, trivial⟩
  have hcan : CanFork 5000 0 (play [.clone 0 2048] boot) :=
    canFork_init (i := 1) (by decide +kernel) ⟨2, by decide +kernel⟩ rfl rfl
      (by decide +kernel) (by decide +kernel) rfl (by decide)
  rcases child_runs hthread (fun _ _ => Act.noConfusion)
    (fun _ _ _ => Act.noConfusion) hcan (by decide +kernel) (p := 2)
    (by decide +kernel) (by decide +kernel) with
    ⟨k, kstack, pgdir, _, hruns, hprocs⟩
  have hproc : forall p, k.proc p = _ :=
    fun p => congrArg (fun t => Procs.proc t p) hprocs
  have hkilled : (k.proc 0).killed = false := congrArg Proc.killed (hproc 0)
  exact ⟨k, boot_booted, hruns, congrArg Proc.parent (hproc 1),
    congrArg Proc.threadIndictor (hproc 1), congrArg Proc.parent (hproc 2),
    congrArg Proc.state (hproc 2), hkilled,
    wait_verdict boot_booted hruns hkilled⟩

/-- `init` makes a thread, which exits and is waited for. -/
def threadReaped : Kernel :=
  play [.clone 0 2048, .dispatch 1, .exit 1, .wait 0] boot

/-- Nothing is left to wait for, but the next `wait` sleeps. -/
theorem wait_sleeps_without_child :
    Booted boot ∧ Runs Step Called boot threadReaped ∧
      (threadReaped.proc 0).state = .RUNNING ∧
        (threadReaped.proc 0).killed = false ∧
          (forall p, (threadReaped.proc p).parent = some 0 ->
            (threadReaped.proc p).state = .UNUSED) ∧
            stop? (wait 0 threadReaped) = some .sleep := by
  refine ⟨boot_booted, runs_play Runs.refl ?_, ?_, ?_, ?_, ?_⟩
  · decide +kernel
  · decide +kernel
  · decide +kernel
  · decide +kernel
  · decide +kernel

/-!
## Pids

Every slot that was ever used has a pid of its own until a `wait` clears it.
-/

def Act.Spawning (a : Act) : Prop :=
  exists cur, a = .fork cur ∨ exists stack, a = .clone cur stack

/-- The pids in a step: none changes, or the slot `p` gets the next one, which
needs `S`, or the slot `p` is freed. -/
inductive PidStep (S : Prop) (t t' : Procs) : Prop where
  | same (h : forall q, (t'.proc q).pid = (t.proc q).pid)
      (hnext : t'.nextpid = t.nextpid) : PidStep S t t'
  | new (hS : S) (p : Pslot) (hpid : (t'.proc p).pid = t.nextpid)
      (h : forall q, q ≠ p -> (t'.proc q).pid = (t.proc q).pid)
      (hnext : t'.nextpid = t.nextpid + 1) : PidStep S t t'
  | cleared (p : Pslot) (hpid : (t'.proc p).pid = 0)
      (hstate : (t'.proc p).state = .UNUSED)
      (h : forall q, q ≠ p -> (t'.proc q).pid = (t.proc q).pid)
      (hnext : t'.nextpid = t.nextpid) : PidStep S t t'

variable {S : Prop}

theorem pidStep_of_allocproc {t t' : Procs} (hS : S)
    (h : Allocproc t none t') :
    PidStep S t t' := by
  cases h with
  | full => exact PidStep.same (fun _ => rfl) rfl
  | noStack p hp =>
      apply PidStep.new hS p
      · simp [Procs.noStack]
      · intro q hq
        rw [t.noStack_of_ne hq]
      · rfl

theorem pidStep_of_fork {cur : Pslot} {t t' : Procs} {r : Int} (hS : S)
    (h : Fork cur t r t') : PidStep S t t' := by
  cases h with
  | noSlot halloc => exact pidStep_of_allocproc hS halloc
  | noCopy p kstack hp =>
      apply PidStep.new hS p
      · simp [Procs.noCopy, Procs.embryo]
      · intro q hq
        rw [t.noCopy_of_ne hq]
      · rfl
  | done p kstack pgdir hp _ =>
      apply PidStep.new hS p
      · simp [Procs.forked, Procs.map, forkChild, Procs.embryo]
      · intro q hq
        rw [t.forked_of_ne cur hq, resetTickets_pid]
      · rfl

theorem pidStep_of_clone {cur : Pslot} {stack : UInt32} {t t' : Procs}
    {r : Int} (hS : S) (h : Clone cur stack t r t') : PidStep S t t' := by
  cases h with
  | noSlot halloc =>
      cases pidStep_of_allocproc hS halloc with
      | same h hnext => exact PidStep.same h hnext
      | new hS p hpid h hnext => exact PidStep.new hS p hpid h hnext
      | cleared p hpid hstate h hnext =>
          exact PidStep.cleared p hpid hstate h hnext
  | done p kstack hp _ =>
      apply PidStep.new hS p
      · simp [Procs.cloned, cloneThread, Procs.embryo, Procs.counted]
      · intro q hq
        rw [t.cloned_of_ne cur hq]
      · rfl

theorem exited_pid (t : Procs) (cur : Pslot) (woken : Bool) (q : Pslot) :
    ((t.exited cur woken).proc q).pid = (t.proc q).pid := by
  rw [Procs.exited_eq]

theorem pidStep_of_exit {cur : Pslot} {t t' : Procs} (h : Exit cur t t') :
    PidStep S t t' := by
  cases h with
  | closed woken _ _ =>
      apply PidStep.same
      · intro q
        rw [exited_pid]
        rcases eq_or_ne q cur with rfl | hq
        · simp [Procs.closed]
        · rw [Procs.closed, Procs.set_of_ne _ hq]
      · rfl
  | left woken _ _ => exact PidStep.same (exited_pid t cur woken) rfl

theorem pidStep_of_wait {cur : Pslot} {t t' : Procs} {r : Int}
    (h : Wait cur t r t') : PidStep S t t' := by
  cases h with
  | thread p hfinds _ =>
      apply PidStep.same
      · intro q
        rcases eq_or_ne q p with rfl | hq
        · simp [Procs.reapedThread]
        · rw [t.reapedThread_of_ne hq]
      · rfl
  | proc p hfinds _ =>
      apply PidStep.cleared p
      · simp [Procs.reaped]
      · simp [Procs.reaped]
      · intro q hq
        rw [Procs.reaped, Procs.set_of_ne _ hq]
      · rfl
  | none => exact PidStep.same (fun _ => rfl) rfl

theorem pidStep_of_set (t : Procs) (p : Pslot) {g : Proc -> Proc}
    (hg : forall pr, (g pr).pid = pr.pid) : PidStep S t (t.set p g) := by
  apply PidStep.same
  · intro q
    rcases eq_or_ne q p with rfl | hq
    · rw [Procs.set_self, hg]
    · rw [Procs.set_of_ne _ hq]
  · rfl

theorem pidStep_of_own {cur : Pslot} {t t' : Procs} (h : Own cur t t') :
    PidStep S t t' := by
  apply PidStep.same _ h.nextpid
  intro q
  rcases eq_or_ne q cur with rfl | hq
  · rw [h.slot.eq]
  · rw [h.other q hq]

theorem pidStep_of_moves {t t' : Procs} {a : Act} (h : Moves t a t') :
    PidStep a.Spawning t t' := by
  cases h with
  | fork h => exact pidStep_of_fork ⟨_, Or.inl rfl⟩ h
  | clone h => exact pidStep_of_clone ⟨_, Or.inr ⟨_, rfl⟩⟩ h
  | exit h => exact pidStep_of_exit h
  | wait h => exact pidStep_of_wait h
  | kill h =>
      cases h with
      | found p _ _ => exact pidStep_of_set t p (fun _ => rfl)
      | none => exact PidStep.same (fun _ => rfl) rfl
  | own ha h => exact pidStep_of_own h
  | none cur => exact PidStep.same (fun _ => rfl) rfl
  | tickets cur n | yield cur | sleep cur chan =>
      exact pidStep_of_set t cur (fun _ => rfl)
  | wakeup chan =>
      apply PidStep.same
      · intro q
        show (wake (some chan) (t.proc q)).pid = _
        rw [wake_eq]
      · rfl
  | dispatch p => exact pidStep_of_set t p (fun _ => rfl)

theorem unused_step {k k' : Kernel} {a : Act} (hstep : Step k a k') {q : Pslot}
    (h : (k.procs.proc q).state = .UNUSED) :
    (k'.proc q).state = .UNUSED ∨
      a.Spawning ∧ (k'.proc q).pid = k.nextpid := by
  have hcaller : a.caller ≠ some q := by
    intro ha
    rw [show (k.procs.proc q).state = .RUNNING from hstep.1.1 q ha] at h
    cases h
  have hwoken : forall {st' : Procstate},
      (st' = (k.procs.proc q).state ∨
        (k.procs.proc q).state = .SLEEPING ∧ st' = .RUNNABLE) ->
        st' = .UNUSED := by
    rintro st' (hsame | ⟨hsleep, _⟩)
    · exact hsame.trans h
    · rw [h] at hsleep
      cases hsleep
  generalize hpr : k'.proc q = pr
  have hbecomes := step_becomes hstep q
  rw [hpr] at hbecomes
  cases hbecomes with
  | same => exact Or.inl h
  | noStack => exact Or.inl (by simp [Procs.noStack])
  | noCopy => exact Or.inl (by simp [Procs.noCopy])
  | child cur kstack pgdir =>
      right
      refine ⟨⟨cur, Or.inl rfl⟩, ?_⟩
      simp [Procs.forked, Procs.map, forkChild, Procs.embryo, procs]
  | reset cur => exact Or.inl (by simpa using h)
  | thread cur kstack stack =>
      right
      refine ⟨⟨cur, Or.inr ⟨stack, rfl⟩⟩, ?_⟩
      simp [Procs.cloned, cloneThread, Procs.embryo, Procs.counted, procs]
  | exitClosed | exitLeft | tickets n | yield | sleep chan =>
      exact absurd rfl hcaller
  | passed cur woken => exact Or.inl (hwoken (passSlot_wake_state _ _ _ _ _))
  | reapedThread => exact Or.inl (by simp [Procs.reapedThread])
  | reaped => exact Or.inl (by simp [Procs.reaped])
  | killed => exact Or.inl (hwoken (killSlot_state _))
  | own _ ha _ => exact absurd ha hcaller
  | woken chan => exact Or.inl (hwoken (wake_state _ _))
  | dispatched =>
      rw [show (k.procs.proc q).state = .RUNNABLE from hstep.1.2 q rfl] at h
      cases h

/-- Pids are below the next one as long as the counter has not wrapped, no two
slots have the same one, and only free slots have the pid 0. -/
structure Pids (k : Kernel) : Prop where
  nonneg : forall p, 0 ≤ (k.proc p).pid.toInt
  below : 0 < k.nextpid.toInt ->
    forall p, (k.proc p).pid.toInt < k.nextpid.toInt
  unique : forall p q, (k.proc p).pid = (k.proc q).pid -> (k.proc p).pid ≠ 0 ->
    p = q
  zero : forall p, (k.proc p).pid = 0 -> (k.proc p).state = .UNUSED

/-- The counter has not wrapped when a slot is taken. -/
def CountsUp (k : Kernel) (a : Act) : Prop :=
  a.Spawning -> 0 < k.nextpid.toInt

theorem booted_pids {k : Kernel} (h : Booted k) : Pids k := by
  rcases h.init with ⟨_, _, _, _, _, hinit⟩
  have hpid : forall p, (k.proc p).pid = if p = k.initproc then 1 else 0 := by
    intro p
    rcases eq_or_ne p k.initproc with rfl | hne
    · rw [hinit, if_pos rfl]
      rfl
    · rw [h.other p hne, if_neg hne]
      rfl
  have hslot : forall p, (k.proc p).pid ≠ 0 -> p = k.initproc := by
    intro p hp
    rw [hpid] at hp
    rcases eq_or_ne p k.initproc with heq | hne
    · exact heq
    · exact absurd (if_neg hne) hp
  constructor
  · intro p
    rw [hpid]
    split
    · decide
    · decide
  · intro _ p
    rw [hpid, h.nextpid]
    split
    · decide
    · decide
  · intro p q hpq hp
    have hq : (k.proc q).pid ≠ 0 := by
      rw [← hpq]
      exact hp
    rw [hslot p hp, hslot q hq]
  · intro p hp
    rcases eq_or_ne p k.initproc with rfl | hne
    · rw [hpid, if_pos rfl] at hp
      cases hp
    · rw [h.other p hne]
      rfl

theorem pids_step {k k' : Kernel} {a : Act} (h : Pids k) (hC : CountsUp k a)
    (hstep : Step k a k') : Pids k' := by
  have hfree : forall q, (k.proc q).pid = 0 -> (k'.proc q).pid = 0 ->
      (k'.proc q).state = .UNUSED := by
    intro q hq hq'
    apply (unused_step hstep (h.zero q hq)).resolve_right
    rintro ⟨hspawn, hnew⟩
    have hpos := hC hspawn
    rw [← hnew, hq'] at hpos
    exact absurd hpos (by decide)
  cases pidStep_of_moves (step_moves hstep) with
  | same hsame hnext =>
      have hpid : forall q, (k'.proc q).pid = (k.proc q).pid := hsame
      have hn : k'.nextpid = k.nextpid := hnext
      constructor
      · intro p
        rw [hpid]
        exact h.nonneg p
      · intro hpos p
        rw [hn] at hpos ⊢
        rw [hpid]
        exact h.below hpos p
      · intro p q
        rw [hpid, hpid]
        exact h.unique p q
      · intro p hp
        exact hfree p ((hpid p).symm.trans hp) hp
  | new hspawn p hnew hsame hnext =>
      have hpid : forall q, q ≠ p -> (k'.proc q).pid = (k.proc q).pid := hsame
      have hp : (k'.proc p).pid = k.nextpid := hnew
      have hn : k'.nextpid = k.nextpid + 1 := hnext
      have hpos := hC hspawn
      have hother : forall q, q ≠ p ->
          (k'.proc q).pid.toInt < (k'.proc p).pid.toInt := by
        intro q hq
        rw [hpid q hq, hp]
        exact h.below hpos q
      constructor
      · intro q
        rcases eq_or_ne q p with rfl | hq
        · rw [hp]
          lia
        · rw [hpid q hq]
          exact h.nonneg q
      · intro hpos' q
        rw [hn] at hpos' ⊢
        have hsucc : k.nextpid.toInt < (k.nextpid + 1).toInt := by
          have hcases := toInt_succ hpos
          lia
        rcases eq_or_ne q p with rfl | hq
        · rw [hp]
          exact hsucc
        · have hlt := hother q hq
          rw [hp] at hlt
          exact lt_trans hlt hsucc
      · intro q r hqr _
        rcases eq_or_ne q p with rfl | hq
        · rcases eq_or_ne r q with rfl | hr
          · rfl
          · have hlt := hother r hr
            rw [hqr] at hlt
            exact absurd hlt (lt_irrefl _)
        · rcases eq_or_ne r p with rfl | hr
          · have hlt := hother q hq
            rw [hqr] at hlt
            exact absurd hlt (lt_irrefl _)
          · rename_i hne
            rw [hpid q hq, hpid r hr] at hqr
            rw [hpid q hq] at hne
            exact h.unique q r hqr hne
      · intro q hq0
        rcases eq_or_ne q p with rfl | hq
        · rw [← hp, hq0] at hpos
          exact absurd hpos (by decide)
        · exact hfree q ((hpid q hq).symm.trans hq0) hq0
  | cleared p hzero hstate hsame hnext =>
      have hpid : forall q, q ≠ p -> (k'.proc q).pid = (k.proc q).pid := hsame
      have hp : (k'.proc p).pid = 0 := hzero
      have hn : k'.nextpid = k.nextpid := hnext
      constructor
      · intro q
        rcases eq_or_ne q p with rfl | hq
        · rw [hp]
          decide
        · rw [hpid q hq]
          exact h.nonneg q
      · intro hpos q
        rw [hn] at hpos ⊢
        rcases eq_or_ne q p with rfl | hq
        · rw [hp]
          exact hpos
        · rw [hpid q hq]
          exact h.below hpos q
      · intro q r hqr hne
        rcases eq_or_ne q p with rfl | hq
        · exact absurd hp hne
        · rcases eq_or_ne r p with rfl | hr
          · exact absurd (hqr.trans hp) hne
          · rw [hpid q hq, hpid r hr] at hqr
            rw [hpid q hq] at hne
            exact h.unique q r hqr hne
      · intro q hq0
        rcases eq_or_ne q p with rfl | hq
        · exact hstate
        · exact hfree q ((hpid q hq).symm.trans hq0) hq0

/-!
## Kill
-/

/-- What `kill` should do: mark a live process with the pid, or return `-1` and
change nothing if there is none. -/
def KillRight (pid : Int) (k : Kernel) : Prop :=
  exists r k', kill pid k = .ok (r, k') ∧
    ((r = 0 ∧ exists p, (k.proc p).pid.toInt = pid ∧
        (k.proc p).state ≠ .UNUSED ∧
          k' = { k with
            proc := Function.update k.proc p (killSlot (k.proc p)) }) ∨
      (r = -1 ∧ k' = k ∧ forall p, (k.proc p).pid.toInt = pid ->
        (k.proc p).state = .UNUSED))

theorem kill_found {k : Kernel} {pid : Int} {p : Pslot}
    (h : (List.finRange NPROC).find?
      (fun p => (k.proc p).pid.toInt = pid) = some p) :
    kill pid k = .ok (0, { k with
      proc := Function.update k.proc p (killSlot (k.proc p)) }) := by
  unfold kill
  rw [bind_run]
  simp only [gets, h]
  rfl

theorem kill_absent {k : Kernel} {pid : Int}
    (h : (List.finRange NPROC).find?
      (fun p => (k.proc p).pid.toInt = pid) = none) :
    kill pid k = .ok (-1, k) := by
  unfold kill
  rw [bind_run]
  simp only [gets, h]
  rfl

theorem killRight_of_live {k : Kernel} {pid : Int}
    (h : forall p, (k.proc p).pid.toInt = pid -> (k.proc p).state ≠ .UNUSED) :
    KillRight pid k := by
  cases hfind : (List.finRange NPROC).find?
      (fun p => (k.proc p).pid.toInt = pid) with
  | none =>
      have hnone := scan_none hfind
      exact ⟨-1, k, kill_absent hfind,
        Or.inr ⟨rfl, rfl, fun p hp => absurd hp (hnone p)⟩⟩
  | some p =>
      rcases scan_some hfind with ⟨hp, _⟩
      exact ⟨0, _, kill_found hfind, Or.inl ⟨rfl, p, hp, h p hp, rfl⟩⟩

theorem killRight_iff {k : Kernel} (h : Pids k) (pid : Int) :
    KillRight pid k ↔
      forall p, (k.proc p).pid.toInt = pid -> (k.proc p).state ≠ .UNUSED := by
  refine ⟨?_, killRight_of_live⟩
  rintro ⟨r, k', hok, hright⟩
  cases hfind : (List.finRange NPROC).find?
      (fun p => (k.proc p).pid.toInt = pid) with
  | none => exact fun p hp => absurd hp (scan_none hfind p)
  | some p =>
      rw [kill_found hfind] at hok
      cases hok
      rcases hright with ⟨_, q, hq, hlive, _⟩ | ⟨hr, _⟩
      · intro s hs
        -- the live process is the only one with the pid
        have hnonzero : (k.proc q).pid ≠ 0 :=
          fun hzero => hlive (h.zero q hzero)
        have hsame : q = s :=
          h.unique q s (Int32.toInt_inj.mp (hq.trans hs.symm)) hnonzero
        rw [← hsame]
        exact hlive
      · exact absurd hr (by decide)

/-- No `kill` asks for the pid of a free slot, and no `wait` takes a thread
that is killed. -/
structure KillsLive (k : Kernel) (a : Act) : Prop where
  kill : forall cur pid, a = .kill cur pid -> forall p,
    (k.proc p).pid.toInt = pid.toInt -> (k.proc p).state ≠ .UNUSED
  wait : forall cur p, a = .wait cur -> Finds cur k.procs p ->
    (k.proc p).threadIndictor = 1 -> (k.proc p).killed = false

def NoStaleKill (k : Kernel) : Prop :=
  forall p, (k.proc p).state = .UNUSED -> (k.proc p).killed = false

theorem booted_noStaleKill {k : Kernel} (h : Booted k) : NoStaleKill k :=
  fun p _ => (h.blank p).killed

theorem noStaleKill_step {k k' : Kernel} {a : Act} (h : NoStaleKill k)
    (hC : KillsLive k a) (hstep : Step k a k') : NoStaleKill k' := by
  intro q hq
  cases frees_step hstep q hq with
  | still _ hunused _ hkilled =>
      rw [hkilled]
      exact h q hunused
  | killed cur pid hunused _ hpid =>
      exact absurd hunused (hC.kill cur pid rfl q hpid)
  | thread cur hfinds hthread hkilled =>
      rw [hkilled]
      exact hC.wait cur q rfl hfinds hthread
  | proc cur _ hkilled => exact hkilled

theorem created {k k' : Kernel} {a : Act} {cur : Pslot} {r : Int}
    (hcur : (k.proc cur).state = .RUNNING)
    (ha : a = .fork cur ∨ exists stack, a = .clone cur stack)
    (hrun : a.run k = .ok (r, k')) (hr : r ≠ -1) :
    exists p, (k.proc p).state = .UNUSED ∧ (k'.proc p).pid.toInt = r ∧
      (k'.proc p).killed = (k.proc p).killed := by
  have hlive : (k.procs.proc cur).state ≠ .UNUSED := by
    rw [show (k.procs.proc cur).state = .RUNNING from hcur]
    decide
  have hproc : forall t', k'.procs = t' -> forall q, k'.proc q = t'.proc q :=
    fun t' h q => congrArg (fun t => Procs.proc t q) h
  rcases ha with rfl | ⟨stack, rfl⟩
  · have heffect := (sees_fork hlive).ok hrun
    generalize hprocs : k'.procs = t' at heffect
    cases heffect with
    | noSlot | noCopy => exact absurd rfl hr
    | done p kstack pgdir hp _ =>
        refine ⟨p, hp, ?_, ?_⟩
        · rw [hproc _ hprocs]
          simp [Procs.forked, Procs.map, forkChild, Procs.embryo]
        · rw [hproc _ hprocs]
          simp [Procs.forked, Procs.map, forkChild, Procs.embryo, procs]
  · have heffect := (sees_clone stack hlive).ok hrun
    generalize hprocs : k'.procs = t' at heffect
    cases heffect with
    | noSlot => exact absurd rfl hr
    | done p kstack hp _ =>
        refine ⟨p, hp, ?_, ?_⟩
        · rw [hproc _ hprocs]
          simp [Procs.cloned, cloneThread, Procs.embryo, Procs.counted]
        · rw [hproc _ hprocs]
          simp [Procs.cloned, cloneThread, Procs.embryo, Procs.counted, procs]

/-- `kill` is right about a pid if no free slot has it, and only then as long as
the counter of the pids has not wrapped; and if all the calls of the run were
right and no killed thread was reaped, a new process is never marked. -/
theorem kill_right_iff {k₀ : Kernel} (hboot : Booted k₀) :
    (forall k (pid : Int), (forall p, (k.proc p).pid.toInt = pid ->
      (k.proc p).state ≠ .UNUSED) -> KillRight pid k) ∧
      (forall k, Runs Step CountsUp k₀ k -> forall pid : Int,
        (KillRight pid k ↔ forall p, (k.proc p).pid.toInt = pid ->
          (k.proc p).state ≠ .UNUSED)) ∧
        (forall k, Runs Step KillsLive k₀ k -> forall cur (a : Act) r k',
          (k.proc cur).state = .RUNNING ->
          (a = .fork cur ∨ exists stack, a = .clone cur stack) ->
          a.run k = .ok (r, k') -> r ≠ -1 ->
          exists p, (k.proc p).state = .UNUSED ∧ (k'.proc p).pid.toInt = r ∧
            (k'.proc p).killed = false) := by
  refine ⟨fun k pid => killRight_of_live, ?_, ?_⟩
  · intro k hruns pid
    have hpids : Pids k := by
      apply hruns.invariant (booted_pids hboot)
      exact fun _ _ _ h hC hstep => pids_step h hC hstep
    exact killRight_iff hpids pid
  · intro k hruns cur a r k' hcur ha hrun hr
    have hstale : NoStaleKill k := by
      apply hruns.invariant (booted_noStaleKill hboot)
      exact fun _ _ _ h hC hstep => noStaleKill_step h hC hstep
    rcases created hcur ha hrun hr with ⟨p, hp, hpid, hkilled⟩
    exact ⟨p, hp, hpid, hkilled.trans (hstale p hp)⟩

/-- `init` makes a child, whose pid no other slot has. -/
theorem kill_right_iff_child :
    exists k, Runs Step CountsUp boot k ∧ (k.proc 1).pid = 2 ∧
      (k.proc 1).state = .RUNNING ∧ KillRight 2 k := by
  have hdispatch : forall k', CountsUp k' (.dispatch 1) := by
    intro k' hspawning
    rcases hspawning with ⟨_, h | ⟨_, h⟩⟩
    · cases h
    · cases h
  rcases child_runs Runs.refl (fun _ => by decide +kernel) hdispatch
    boot_canFork rfl (by decide) (by decide) with
    ⟨k, kstack, pgdir, _, hruns, hprocs⟩
  have hproc : forall p, k.proc p = _ :=
    fun p => congrArg (fun t => Procs.proc t p) hprocs
  refine ⟨k, hruns, congrArg Proc.pid (hproc 1),
    congrArg Proc.state (hproc 1), ?_⟩
  apply ((kill_right_iff boot_booted).2.1 k hruns 2).mpr
  intro p hp
  rcases eq_or_ne p 1 with rfl | hne
  · rw [hproc]
    exact Procstate.noConfusion
  · rw [hproc, Procs.set_of_ne _ hne, boot.procs.forked_of_ne 0 hne] at hp
    have hother : forall p,
        (resetTickets (boot.procs.proc p)).pid.toInt ≠ 2 := by
      decide +kernel
    exact absurd hp (hother p)

def killedZero : Kernel := play [.kill 0 0] boot

/-- No process has the pid 0, but the call returns 0 and marks a free slot, and
the next child is killed when it is made. -/
theorem kill_marks_free_slot :
    exists k' p, Booted boot ∧
      (forall p, (boot.proc p).pid = 0 -> (boot.proc p).state = .UNUSED) ∧
        value? (kill 0 boot) = some 0 ∧
          Runs Step Called boot killedZero ∧
            fork 0 killedZero = .ok (2, k') ∧ (k'.proc p).pid = 2 ∧
              (k'.proc p).killed = true := by
  have hcan : CanFork 5000 0 killedZero :=
    canFork_init (i := 0) (by decide +kernel) ⟨1, by decide +kernel⟩ rfl rfl
      (by decide +kernel) (by decide +kernel) rfl (by decide)
  rcases fork_returns hcan with
    ⟨k', hfork, _, p, kstack, pgdir, hp, hfirst, hprocs⟩
  have hslot : p = 1 := by
    apply first_unique hp hfirst
    · decide +kernel
    · decide +kernel
  subst hslot
  have hproc : k'.proc 1 = _ := congrArg (fun t => Procs.proc t 1) hprocs
  exact ⟨k', 1, boot_booted, by decide +kernel, by decide +kernel,
    runs_play Runs.refl (by decide +kernel), hfork, congrArg Proc.pid hproc,
    congrArg Proc.killed hproc⟩

end Kernel
end Xv6
