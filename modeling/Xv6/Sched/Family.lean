import Xv6.Proc.Reuse
import Xv6.Sched.Exclusion
import Xv6.Sched.Kinship
import Xv6.Sched.Range

/-!
# Parents can wait

Each step of the machine is one of the steps of the process tree, so the tree is
kept along every run.  A parent that sleeps in `wait` has no zombie to reap.
-/

namespace Xv6
namespace Kernel

open Lib Lib.Run

/-!
## The steps of the machine
-/

section Steps

variable {k k' : Kernel}

theorem Woken.of_kin (h : kin k' = kin k) : Woken (kin k) (kin k') := by
  rw [h]
  exact Woken.refl _

theorem woken_wakeup {chan : Chan} (h : wakeup chan k = .ok ((), k')) :
    Woken (kin k) (kin k') := by
  cases h
  have hslot : forall q, (wake (some chan) (k.proc q)).parent =
      (k.proc q).parent ∧ (wake (some chan) (k.proc q)).chan =
        (k.proc q).chan := by
    intro q
    rw [wake_eq]
    exact ⟨rfl, rfl⟩
  constructor
  · exact fun q => (hslot q).1
  · exact fun q => (hslot q).2
  · exact fun q => wake_state (k.proc q) (some chan)

theorem kin_strideVisit (s : Pick) (p q : Pslot) :
    kinOf ((strideVisit s p).proc q) = kinOf (s.proc q) := by
  unfold strideVisit
  split
  · rfl
  · split
    · rcases eq_or_ne q p with rfl | hq
      · simp [kinOf, rescale]
      · simp [hq]
    · rfl

theorem kin_settled (s : Pick) (q : Pslot) :
    kinOf (s.settled q) = kinOf (s.proc q) := by
  unfold Pick.settled
  split
  · rfl
  · rfl

theorem locStep_woken {l l' : Loc} (h : LocStep k l .work k' l') :
    Woken (kin k) (kin k') ∧ k'.initproc = k.initproc := by
  cases h with
  | rrSkip h | lotteryAdd | lotteryGenrand h | lotterySkip h
  | lotteryPass h _ | lotteryNobody | strideNobody h =>
      exact ⟨Woken.refl _, rfl⟩
  | strideVisit h =>
      refine ⟨Woken.of_kin ?_, rfl⟩
      funext q
      rw [← h]
      exact kin_strideVisit _ _ q
  | wakeup hk =>
      refine ⟨woken_wakeup hk, ?_⟩
      cases hk
      rfl

theorem locStep_runs {l l' : Loc} {p : Pslot}
    (h : LocStep k l (.dispatch p) k' l') :
    kin k' = Function.update (kin k) p
        { kin k p with state := .RUNNING, chan := none } ∧
      k'.initproc = k.initproc := by
  cases h with
  | rrDispatch h hk =>
      cases hk
      exact ⟨kin_setProc k p _, rfl⟩
  | lotteryDispatch h _ => exact ⟨kin_setProc k p _, rfl⟩
  | strideDispatch h hs =>
      subst hs
      refine ⟨?_, rfl⟩
      rw [strideSwitch_some rfl h]
      funext q
      rcases eq_or_ne q p with rfl | hq
      · have hrun : forall pr, kinOf (strideRun pr) =
            { kinOf pr with state := .RUNNING, chan := none } := fun _ => rfl
        simp [kin, hrun, kin_settled]
      · simp [kin, hq, kin_settled]

theorem passSlot_wake_awake (cur : Pslot) {init : Pslot} {woken : Bool}
    {chan : Option Chan} {pr : Proc}
    (h : pr.chan = chan ∨ woken = true ∧ pr.chan = some (.proc init)) :
    (passSlot cur init woken (wake chan pr)).state ≠ .SLEEPING := by
  show passState init woken (wake chan pr) ≠ _
  unfold passState wake
  rcases Decidable.em (pr.state = .SLEEPING) with hsleep | hawake
  · rcases h with hchan | ⟨hwoken, hchan⟩
    · simp [hsleep, hchan]
    · rcases Decidable.em (pr.chan = chan) with hsame | hother
      · simp [hsleep, hsame]
      · rw [hchan] at hother
        simp [hsleep, hwoken, hchan, hother]
  · simp [hawake]

theorem exits_exitTail {p : Pslot} (hinit : p ≠ k.initproc)
    (hk : exitTail p k = .ok ((), k')) :
    Exits k.initproc p (kin k) (kin k') ∧ k'.initproc = k.initproc := by
  rcases exitTail_procs hk with ⟨woken, hwoken, hprocs⟩
  have hself : kin k' p = kinOf ((k.procs.exited p woken).proc p) :=
    congrArg (fun t => kinOf (Procs.proc t p)) hprocs
  have hother : forall q, q ≠ p -> kin k' q =
      kinOf (passSlot p k.initproc woken
        (wake ((k.proc p).parent.map Chan.proc) (k.proc q))) := by
    intro q hq
    have hslot : kin k' q = kinOf ((k.procs.exited p woken).proc q) :=
      congrArg (fun t => kinOf (Procs.proc t q)) hprocs
    rw [hslot, Procs.exited, Procs.set_of_ne _ hq]
    rfl
  rw [Procs.exited_self] at hself
  refine ⟨?_, congrArg Procs.initproc hprocs⟩
  constructor
  · exact hinit
  · intro q
    rcases eq_or_ne q p with rfl | hq
    · rw [hself]
      rfl
    · rw [hother q hq, wake_eq]
      rfl
  · intro q
    rcases eq_or_ne q p with rfl | hq
    · rw [hself]
      rfl
    · rw [hother q hq, wake_eq]
      rfl
  · rw [hself]
    rfl
  · intro q hq
    rw [hother q hq]
    exact passSlot_wake_state p k.initproc woken
      ((k.proc p).parent.map Chan.proc) (k.proc q)
  · intro q hq hchan
    rw [hother q hq]
    exact passSlot_wake_awake p (Or.inl hchan)
  · intro q hchild hzombie hchan
    rw [hother _ (Ne.symm hinit)]
    exact passSlot_wake_awake p
      (Or.inr ⟨hwoken q hchild hzombie, hchan⟩)

theorem idle_wait {p : Pslot} {r : Int} (o : Option Pslot)
    (hk : wait p k = .ok (r, k')) :
    KinStep k.initproc p o (kin k) (kin k') ∧ k'.initproc = k.initproc := by
  have heffect := (sees_wait p k.procs).ok hk
  have hkin : kin k' = fun q => kinOf (k'.procs.proc q) := rfl
  have hinit : k'.initproc = k'.procs.initproc := rfl
  rw [hkin, hinit]
  generalize k'.procs = t' at heffect
  -- the slot that is reaped, whatever it is left with
  have hreaped : forall (q : Pslot) (pr : Proc), (k.proc q).state = .ZOMBIE ->
      pr.state = .UNUSED -> KinStep k.initproc p o (kin k)
        (fun r => kinOf (Function.update k.proc q pr r)) := by
    intro q pr hq hpr
    have hslot : (fun r => kinOf (Function.update k.proc q pr r)) =
        Function.update (kin k) q (kinOf pr) := kin_setProc k q pr
    rw [hslot]
    apply KinStep.idle (Or.inr (Or.inl hq))
    show ¬ Member pr.state
    rw [hpr]
    decide
  cases heffect with
  | thread q hfinds _ | proc q hfinds _ =>
      exact ⟨hreaped q _ hfinds.state rfl, rfl⟩
  | none _ _ => exact ⟨KinStep.quiet (Woken.refl _), rfl⟩

theorem wait_sleep {p : Pslot} (hk : wait p k = .error .sleep) (q : Pslot)
    (hq : (k.proc q).parent = some p) : (k.proc q).state ≠ .ZOMBIE := by
  have hstops : wp (wait p) (fun _ _ => True)
      (fun e => e = .sleep -> (k.proc q).state ≠ .ZOMBIE) k := by
    apply wp_wait
    · intro r _
      apply wp_mono (wp_reap_frees r k)
      · exact fun _ _ _ => trivial
      · intro e he hsleep
        subst hsleep
        rcases he with hpanic | hpanic
        · cases hpanic
        · cases hpanic
    · exact fun _ _ => trivial
    · exact fun hnone _ => hnone q hq
  exact wp_error hstops hk rfl

theorem woken_kill {pid : Int} {r : Int} (hk : kill pid k = .ok (r, k')) :
    Woken (kin k) (kin k') ∧ k'.initproc = k.initproc := by
  have heffect := (sees_kill pid k.procs).ok hk
  have hkin : kin k' = fun q => kinOf (k'.procs.proc q) := rfl
  have hinit : k'.initproc = k'.procs.initproc := rfl
  rw [hkin, hinit]
  generalize k'.procs = t' at heffect
  cases heffect with
  | found q hq _ =>
      have hslot : forall r, (k.procs.set q killSlot).proc r = k.proc r ∨
          (k.procs.set q killSlot).proc r = killSlot (k.proc r) := by
        intro r
        rcases eq_or_ne r q with rfl | hr
        · exact Or.inr (Procs.set_self _ _ _)
        · exact Or.inl (Procs.set_of_ne _ hr _)
      refine ⟨⟨?_, ?_, ?_⟩, rfl⟩
      · intro r
        rcases hslot r with heq | heq
        · exact congrArg Proc.parent heq
        · rw [heq]
          rfl
      · intro r
        rcases hslot r with heq | heq
        · exact congrArg Proc.chan heq
        · rw [heq]
          rfl
      · intro r
        rcases hslot r with heq | heq
        · exact Or.inl (congrArg Proc.state heq)
        · rw [heq]
          exact killSlot_state (k.proc r)
  | none => exact ⟨Woken.refl _, rfl⟩

end Steps

/-!
### The first process stays the same
-/

section Initproc

variable {α : Type}

theorem steady_initproc : Steady initproc where
  table := congrArg Procs.initproc
  slot := fun _ _ _ _ => rfl

theorem keepsInit_setProc (p : Pslot) (g : Proc -> Proc) :
    Keeps initproc (setProc p g) := fun _ _ h => h

theorem keepsInit_allocTake : Keeps initproc allocTake := by
  apply Turns.bind (Turns.gets _ _)
  intro p
  cases p with
  | none => exact Turns.pure _ rfl
  | some p =>
      exact Turns.bind (Turns.gets _ _) (fun _ =>
        Turns.bind (keepsInit_setProc p _) (fun _ =>
          Turns.bind (fun _ _ h => h) (fun _ => Turns.pure _ rfl)))

theorem initproc_ok {m : KM α} {a : α} {k k' : Kernel} (h : Keeps initproc m)
    (hk : m k = .ok (a, k')) : k'.initproc = k.initproc :=
  (wp_iff.mp (h k.initproc k rfl)).1 a k' hk

end Initproc

/-!
### A step of a process
-/

section Thread

variable {p : Pslot} {k k' : Kernel} {e : Event} {th th' : Thread}

/-- What the place of the code of `p` says about the process table. -/
structure Placed (t : Pslot -> Kin) (init p : Pslot) (th : Thread) : Prop where
  /-- The child of a `fork` has its parent before it can run. -/
  copied : forall np, th.spot = .copied np -> (t np).parent = some p
  /-- `exit` has checked that the caller is not `init`. -/
  exit : forall s, th = .holds .exit s -> p ≠ init ∧ s = .user

theorem kinStep_own {g : Proc -> Proc}
    (hk : setProc p g k = .ok ((), k'))
    (hstate : forall pr, Alive (g pr).state)
    (hparent : forall pr, (g pr).parent = pr.parent) (o : Option Pslot) :
    KinStep k.initproc p o (kin k) (kin k') ∧ k'.initproc = k.initproc := by
  cases hk
  refine ⟨?_, rfl⟩
  rw [kin_setProc]
  exact KinStep.own (hstate _) (hparent _)

/-- A step that leaves the code where it is does not touch the slot that it is
making a process of. -/
def touched (th th' : Thread) : Option Pslot :=
  if th'.spot = th.spot then none else th.spot.owns

theorem threadStep_kin (hplaced : Placed (kin k) k.initproc p th)
    (hembryo : forall np, th.spot.owns = some np ->
      (kin k np).state = .EMBRYO)
    (h : ThreadStep p k th e k' th') :
    KinStep k.initproc p (touched th th') (kin k) (kin k') ∧
      k'.initproc = k.initproc := by
  have hsame : kin k' = kin k ->
      KinStep k.initproc p (touched th th') (kin k) (kin k') :=
    fun heq => KinStep.quiet (Woken.of_kin heq)
  cases h with
  | other hk =>
      refine ⟨hsame ?_, hk.initproc⟩
      funext q
      rcases eq_or_ne q p with rfl | hq
      · show kinOf (k'.proc q) = _
        rw [hk.slot]
        rfl
      · exact congrArg kinOf (hk.other q hq)
  | toYield | toSleep chan | toWakeup chan | toExit hinit | toWait
  | toKill pid | toFork | toClone stack | toReady | toTickets =>
      exact ⟨hsame rfl, rfl⟩
  | yield hk =>
      exact kinStep_own hk (fun _ => Or.inr (Or.inl rfl)) (fun _ => rfl) _
  | sleep hk => exact kinStep_own hk (fun _ => Or.inl rfl) (fun _ => rfl) _
  | wakeup hk =>
      refine ⟨KinStep.quiet (woken_wakeup hk), ?_⟩
      cases hk
      rfl
  | exit hk =>
      rcases exits_exitTail (hplaced.exit _ rfl).1 hk with ⟨hexits, hinit⟩
      exact ⟨KinStep.exits hexits, hinit⟩
  | wait hk => exact idle_wait _ hk
  | waitSleep _ hk =>
      exact kinStep_own hk (fun _ => Or.inl rfl) (fun _ => rfl) _
  | kill hk =>
      rcases woken_kill hk with ⟨hwoken, hinit⟩
      exact ⟨KinStep.quiet hwoken, hinit⟩
  | full hk =>
      exact ⟨hsame ((seesKin_allocTake _).ok hk),
        initproc_ok keepsInit_allocTake hk⟩
  | take hk =>
      refine ⟨?_, initproc_ok keepsInit_allocTake hk⟩
      rcases (seesKin_allocTake _).ok hk with ⟨hunused, htaken⟩
      rw [htaken]
      exact KinStep.idle (Or.inl hunused) (show ¬ Member .EMBRYO by decide)
  | ready hk =>
      cases hk
      refine ⟨?_, rfl⟩
      rw [kin_setProc]
      exact KinStep.joins rfl rfl (hplaced.copied _ rfl)
  | tickets hk =>
      cases hk
      refine ⟨hsame ?_, rfl⟩
      funext q
      show kinOf (resetTickets (k.proc q)) = _
      rw [resetTickets_eq]
      rfl
  | done | backYield | backSleep | backForkret | backWait =>
      exact ⟨hsame rfl, rfl⟩
  | noStack hk =>
      refine ⟨?_, initproc_ok (steady_initproc.allocSetup _) hk⟩
      have hfree := (seesKin_allocSetup _ _).ok hk
      rw [hfree]
      exact KinStep.idle (Or.inr (Or.inr rfl))
        (show ¬ Member .UNUSED by decide)
  | setup hk =>
      exact ⟨hsame ((seesKin_allocSetup _ _).ok hk),
        initproc_ok (steady_initproc.allocSetup _) hk⟩
  | noCopy hk =>
      refine ⟨?_, initproc_ok (steady_initproc.forkCopy _ _) hk⟩
      have hfree := (seesKin_forkCopy _ _ _).ok hk
      rw [hfree]
      exact KinStep.idle (Or.inr (Or.inr rfl))
        (show ¬ Member .UNUSED by decide)
  | copy hk =>
      refine ⟨?_, initproc_ok (steady_initproc.forkCopy _ _) hk⟩
      have hcopied := (seesKin_forkCopy _ _ _).ok hk
      rw [hcopied]
      apply KinStep.idle (Or.inr (Or.inr rfl))
      show ¬ Member (kin k _).state
      rw [hembryo _ rfl]
      decide
  | clone hk =>
      refine ⟨?_, initproc_ok (steady_initproc.cloneSetup _ _ _) hk⟩
      have hmade := (seesKin_cloneSetup _ _ _ _).ok hk
      rw [hmade]
      exact KinStep.joins rfl rfl rfl

theorem threadStep_copied {np : Pslot} (h : ThreadStep p k th e k' th')
    (hspot : th'.spot = .copied np) :
    th'.spot = th.spot ∨ (kin k' np).parent = some p := by
  cases h with
  | take hk | ready hk | tickets hk | noStack hk | setup hk | noCopy hk =>
      cases hspot
  | copy hk =>
      cases hspot
      right
      have hcopied := (seesKin_forkCopy _ _ _).ok hk
      rw [hcopied, Function.update_self]
      rfl
  | clone hk => cases hspot
  | _ => exact Or.inl rfl

theorem threadStep_toExit {s : Spot} (h : ThreadStep p k th e k' th')
    (hth : th' = .holds .exit s) : p ≠ k.initproc ∧ s = .user := by
  cases h with
  | toExit hinit =>
      cases hth
      exact ⟨hinit, rfl⟩
  | _ => cases hth

theorem threadStep_zombie (hplaced : Placed (kin k) k.initproc p th)
    (h : ThreadStep p k th .leave k' th')
    (hzombie : (kin k' p).state = .ZOMBIE) : th.spot = .user := by
  have hset : forall g : Proc -> Proc, setProc p g k = .ok ((), k') ->
      (kin k' p).state = (g (k.proc p)).state := by
    intro g hk
    cases hk
    rw [kin_setProc, Function.update_self]
    rfl
  cases h with
  | yield hk | sleep hk | waitSleep _ hk => cases hzombie.symm.trans (hset _ hk)
  | exit hk => exact (hplaced.exit _ rfl).2

theorem threadStep_waits {s : Spot} (h : ThreadStep p k th e k' th')
    (hth : th' = .switched .wait s) : Waits (kin k') p := by
  cases h with
  | waitSleep hwait hk =>
      cases hk
      rw [kin_setProc]
      constructor
      · rw [Function.update_self]
        rfl
      · intro q hq
        rcases eq_or_ne q p with rfl | hne
        · rw [Function.update_self]
          exact Procstate.noConfusion
        · rw [Function.update_of_ne hne] at hq ⊢
          exact wait_sleep hwait q hq
  | _ => cases hth

theorem KinStep.keeps_parent {init np : Pslot} {o : Option Pslot}
    {t t' : Pslot -> Kin} (hstep : KinStep init p o t t')
    (hp : Alive (t p).state) (hnp : (t np).state = .EMBRYO)
    (ho : o ≠ some np)
    (hexit : (t np).parent = some p -> (t' p).state ≠ .ZOMBIE) :
    (t' np).parent = (t np).parent := by
  have hne : forall q, (t q).state ≠ .EMBRYO -> np ≠ q := by
    rintro q hq rfl
    exact hq hnp
  cases hstep with
  | quiet hw => exact hw.parent np
  | own _ _ =>
      rw [Function.update_of_ne (hne p _)]
      intro hembryo
      rw [hembryo] at hp
      revert hp
      decide
  | @idle q x hq _ =>
      have hother : np ≠ q := by
        rcases hq with hunused | hzombie | hown
        · exact hne q (by rw [hunused]; decide)
        · exact hne q (by rw [hzombie]; decide)
        · rintro rfl
          exact ho hown
      rw [Function.update_of_ne hother]
  | @joins q x hown _ _ =>
      have hother : np ≠ q := by
        rintro rfl
        exact ho hown
      rw [Function.update_of_ne hother]
  | exits hexits =>
      rw [hexits.parent, if_neg]
      exact fun hchild => hexit hchild hexits.self

end Thread

/-!
## The whole machine
-/

section Machine

variable {ι : Type} {s s' : Smp ι} {c : ι}

structure Smp.Tree (s : Smp ι) : Prop where
  inv : s.Inv
  family : Family s.kernel.initproc (kin s.kernel)
  placed : forall p, Placed (kin s.kernel) s.kernel.initproc p (s.thread p)
  waits : forall w spot, s.thread w = .switched .wait spot ->
    (s.kernel.proc w).state = .SLEEPING -> Waits (kin s.kernel) w

/-- Only `init` has been made, and it will start at `forkret`. -/
structure Smp.Boots (s : Smp ι) : Prop extends s.Start where
  booted : Booted s.kernel
  forkret : forall p, s.thread p = .switched .forkret .user

theorem boots_tree (h : s.Boots) : s.Tree := by
  have hother : forall q, q ≠ s.kernel.initproc ->
      ¬ Member (kin s.kernel q).state := by
    intro q hq
    have hzero := h.booted.other q hq
    show ¬ Member (s.kernel.proc q).state
    rw [hzero]
    decide
  rcases h.booted.init with ⟨kstack, pgdir, cwd, state, hstate, hinit⟩
  have hroot : (kin s.kernel s.kernel.initproc).state = state :=
    congrArg Proc.state hinit
  have halive : Alive state := by
    rcases hstate with rfl | rfl
    · decide
    · decide
  constructor
  · exact start_inv h.toStart
  · constructor
    · rw [hroot]
      exact halive
    · exact fun q hq hm => absurd hm (hother q hq)
    · intro q hm
      rcases eq_or_ne q s.kernel.initproc with rfl | hq
      · exact Relation.ReflTransGen.refl
      · exact absurd hm (hother q hq)
  · intro p
    rw [h.forkret p]
    exact ⟨fun _ hspot => Spot.noConfusion hspot,
      fun _ hth => Thread.noConfusion hth⟩
  · intro w spot hth
    rw [h.forkret w] at hth
    cases hth

theorem Smp.Tree.woken (h : s.Tree) (hinv : s'.Inv)
    (hinit : s'.kernel.initproc = s.kernel.initproc)
    (hthread : s'.thread = s.thread)
    (hw : Woken (kin s.kernel) (kin s'.kernel)) : s'.Tree := by
  constructor
  · exact hinv
  · rw [hinit]
    exact h.family.woken hw
  · intro p
    rw [hinit, hthread]
    constructor
    · exact fun np hnp => (hw.parent np).trans ((h.placed p).copied np hnp)
    · exact (h.placed p).exit
  · intro w spot hth hsleep
    rw [hthread] at hth
    apply (h.waits w spot hth _).woken hw
    rcases hw.state w with hsame | ⟨hsleeping, _⟩
    · exact hsame.symm.trans hsleep
    · exact hsleeping

variable [DecidableEq ι]

theorem manager_tree {e : Event} {k' : Kernel} {l : Loc} (h : s.Tree)
    (hmode : (s.cpu c).mode = .manager) (hallows : s.allows c e)
    (hstep : LocStep s.kernel (s.cpu c).loc e k' l) :
    Smp.Tree
      { s with
        kernel := k'
        lock := s.lockAfter c e
        cpu := Function.update s.cpu c ((s.cpu c).scheduled l e) } := by
  have hinv := manager_inv h.inv hmode hallows hstep
  cases e with
  | acquire =>
      rcases locStep_acquire hstep with ⟨_, rfl⟩
      exact h.woken hinv rfl rfl (Woken.refl _)
  | release =>
      rcases locStep_release hstep with ⟨_, rfl⟩
      exact h.woken hinv rfl rfl (Woken.refl _)
  | work =>
      rcases locStep_woken hstep with ⟨hwoken, hinit⟩
      exact h.woken hinv hinit rfl hwoken
  | dispatch p =>
      rcases locStep_runs hstep with ⟨hkin, hinit⟩
      have hp : Alive (kin s.kernel p).state :=
        Or.inr (Or.inl (locStep_dispatch hstep).2.1)
      have hmove : KinStep s.kernel.initproc p none (kin s.kernel)
          (kin k') := by
        rw [hkin]
        exact KinStep.own (Or.inr (Or.inr rfl)) rfl
      have hrunning : (kin k' p).state = .RUNNING := by
        rw [hkin, Function.update_self]
      constructor
      · exact hinv
      · show Family k'.initproc (kin k')
        rw [hinit]
        exact h.family.step hp (fun _ hq => by cases hq) hmove
      · intro q
        show Placed (kin k') k'.initproc q (s.thread q)
        rw [hinit]
        constructor
        · intro np hspot
          rw [hmove.keeps_parent hp _ (Option.some_ne_none np).symm]
          · exact (h.placed q).copied np hspot
          · intro _
            rw [hrunning]
            decide
          · apply h.inv.owned.embryo q np
            rw [hspot]
            rfl
        · exact (h.placed q).exit
      · intro w spot hth hsleep
        have hw : w ≠ p := by
          rintro rfl
          cases hrunning.symm.trans hsleep
        have hbefore := (hmove.sleeping hw hsleep).1
        exact (h.waits w spot hth hbefore).step h.family hp hw hsleep hmove
  | leave => exact absurd hstep not_locStep_leave
  | start np => exact absurd hstep not_locStep_start

theorem task_zombie {p : Pslot} {e : Event} {k' : Kernel} {th : Thread}
    (h : s.Tree) (hmode : (s.cpu c).mode = .task)
    (hproc : (s.cpu c).proc = some p) (hallows : s.allows c e)
    (hstep : ThreadStep p s.kernel (s.thread p) e k' th)
    (hzombie : (kin k' p).state = .ZOMBIE) : (s.thread p).spot = .user := by
  have hinv := task_inv h.inv hmode hproc hallows hstep
  have hruns : (s.cpu c).ran e = s.cpu c -> (kin k' p).state = .RUNNING := by
    intro hran
    have hcpu : Function.update s.cpu c ((s.cpu c).ran e) c = s.cpu c :=
      (Function.update_self c _ s.cpu).trans hran
    rcases hinv.safe.runs c ((congrArg Cpu.mode hcpu).trans hmode) with
      ⟨q, hq, hrun⟩
    cases ((congrArg Cpu.proc hcpu).trans hproc).symm.trans hq
    exact hrun
  cases e with
  | leave => exact threadStep_zombie (h.placed p) hstep hzombie
  | acquire | release | work | start np => cases hzombie.symm.trans (hruns rfl)
  | dispatch q => exact absurd hstep not_threadStep_dispatch

theorem task_tree {p : Pslot} {e : Event} {k' : Kernel} {th : Thread}
    (h : s.Tree) (hmode : (s.cpu c).mode = .task)
    (hproc : (s.cpu c).proc = some p) (hallows : s.allows c e)
    (hstep : ThreadStep p s.kernel (s.thread p) e k' th) :
    Smp.Tree
      { kernel := k'
        lock := s.lockAfter c e
        cpu := Function.update s.cpu c ((s.cpu c).ran e)
        thread := s.threadsAfter p th e } := by
  have hrunning : states s.kernel p = .RUNNING := by
    rcases h.inv.safe.runs c hmode with ⟨q, hq, hrun⟩
    cases hproc.symm.trans hq
    exact hrun
  have hp : Alive (kin s.kernel p).state := Or.inr (Or.inr hrunning)
  have hembryo : forall q np, (s.thread q).spot.owns = some np ->
      (kin s.kernel np).state = .EMBRYO := h.inv.owned.embryo
  rcases threadStep_kin (h.placed p) (hembryo p) hstep with ⟨hmove, hinit⟩
  have htouched : forall np, touched (s.thread p) th = some np ->
      (s.thread p).spot.owns = some np ∧ th.spot ≠ (s.thread p).spot := by
    intro np hnp
    unfold touched at hnp
    split at hnp
    · cases hnp
    · next hspot => exact ⟨hnp, hspot⟩
  constructor
  · exact task_inv h.inv hmode hproc hallows hstep
  · show Family k'.initproc (kin k')
    rw [hinit]
    exact h.family.step hp (fun q hq => hembryo p q (htouched q hq).1) hmove
  · intro q
    show Placed (kin k') k'.initproc q (s.threadsAfter p th e q)
    rw [hinit]
    rcases eq_or_ne q p with rfl | hq
    · rw [threadsAfter_self]
      constructor
      · intro np hspot
        rcases threadStep_copied hstep hspot with hstays | hparent
        · rw [hstays] at hspot
          rw [hmove.keeps_parent hp]
          · exact (h.placed q).copied np hspot
          · apply hembryo q np
            rw [hspot]
            rfl
          · exact fun hnp => (htouched np hnp).2 hstays
          · intro _ hzombie
            have huser := task_zombie h hmode hproc hallows hstep hzombie
            cases huser.symm.trans hspot
        · exact hparent
      · exact fun spot hth => threadStep_toExit hstep hth
    · rcases threadsAfter_other hq th e with heq | ⟨_, heq⟩
      · rw [heq]
        constructor
        · intro np hspot
          have howns : (s.thread q).spot.owns = some np := by
            rw [hspot]
            rfl
          have hparent := (h.placed q).copied np hspot
          rw [hmove.keeps_parent hp (hembryo q np howns)]
          · exact hparent
          · intro hnp
            exact hq (h.inv.owned.owner q p np howns (htouched np hnp).1)
          · intro hchild
            cases hparent.symm.trans hchild
            exact absurd rfl hq
        · exact (h.placed q).exit
      · rw [heq]
        exact ⟨fun _ hspot => Spot.noConfusion hspot,
          fun _ hth => Thread.noConfusion hth⟩
  · intro w spot hth hsleep
    change s.threadsAfter p th e w = _ at hth
    show Waits (kin k') w
    rcases eq_or_ne w p with rfl | hw
    · rw [threadsAfter_self] at hth
      exact threadStep_waits hstep hth
    · rcases threadsAfter_other hw th e with heq | ⟨_, heq⟩
      · have hbefore := (hmove.sleeping hw hsleep).1
        exact (h.waits w spot (heq.symm.trans hth) hbefore).step h.family hp hw
          hsleep hmove
      · cases heq.symm.trans hth

theorem smpStep_tree (h : s.Tree) (hstep : SmpStep s c s') : s'.Tree := by
  cases hstep with
  | manager hmode hallows hloc => exact manager_tree h hmode hallows hloc
  | task hmode hproc hallows hth => exact task_tree h hmode hproc hallows hth
  | switch hmode =>
      exact h.woken (switch_inv h.inv hmode) rfl rfl (Woken.refl _)
  | clear hmode =>
      exact h.woken (clear_inv h.inv hmode) rfl rfl (Woken.refl _)

theorem runs_tree {s₀ : Smp ι} (hboots : s₀.Boots)
    (hruns : Runs (fun s c s' => SmpStep s c s') (fun _ _ => True) s₀ s) :
    s.Tree :=
  hruns.invariant (boots_tree hboots)
    (fun _ _ _ h _ hstep => smpStep_tree h hstep)

end Machine

/-!
## The theorems
-/

theorem boot_boots : Smp.boot.Boots :=
  { boot_start with
    booted := bootSched_booted
    forkret := fun _ => rfl }

theorem after_ok {α : Type} {m : KM α} {k : Kernel} {a : α}
    (h : value? (m k) = some a) : m k = .ok (a, after m k) := by
  rcases value?_eq_some h with ⟨k', hrun⟩
  unfold after
  rw [hrun]

section InitRuns

variable {C : Smp (Fin 2) -> Fin 2 -> Prop}

def initRunning : Kernel := after (dispatch 0) Sched.boot.kernel

/-- `init` has called `clone` and made its first thread. -/
def initCloned : Kernel :=
  after (cloneSetup 0 1 2048)
    (after (allocSetup 1)
      (after allocTake
        { initRunning with numofthread := initRunning.numofthread + 1 }))

theorem initCloned_runs
    (hC : forall s : Smp (Fin 2), 0 < s.kernel.nextpid.toInt -> C s 1) :
    exists s, RunsInit C Smp.boot s initCloned (.free .user) none := by
  rcases dispatched_runs (k := Sched.boot.kernel) hC rfl (by decide +kernel)
    with ⟨s, h⟩
  rcases h.step (e := .acquire) (hC _ (h.counts (by decide +kernel)))
    Event.noConfusion h.lock rfl (ThreadStep.toClone 2048) with ⟨s₁, h₁⟩
  have htake : allocTake
      { initRunning with numofthread := initRunning.numofthread + 1 } =
        .ok (some 1, _) := after_ok (by decide +kernel)
  rcases h₁.step (e := .work) (hC _ (h₁.counts (by decide +kernel)))
    Event.noConfusion trivial h₁.lock (ThreadStep.take htake) with ⟨s₂, h₂⟩
  rcases h₂.step (e := .release) (hC _ (h₂.counts (by decide +kernel)))
    Event.noConfusion h₂.lock rfl ThreadStep.done with ⟨s₃, h₃⟩
  have hsetup : allocSetup 1 (after allocTake
      { initRunning with numofthread := initRunning.numofthread + 1 }) =
        .ok (true, _) := after_ok (by decide +kernel)
  rcases h₃.step (e := .start 1) (hC _ (h₃.counts (by decide +kernel)))
    Event.noConfusion trivial h₃.lock (ThreadStep.setup hsetup) with ⟨s₄, h₄⟩
  have hclone : cloneSetup 0 1 2048 (after (allocSetup 1) (after allocTake
      { initRunning with numofthread := initRunning.numofthread + 1 })) =
        .ok (2, _) := after_ok (by decide +kernel)
  exact h₄.step (e := .work) (hC _ (h₄.counts (by decide +kernel)))
    Event.noConfusion trivial h₄.lock (ThreadStep.clone hclone)

end InitRuns

theorem boot_runs_wait : exists s : Smp (Fin 2),
    Runs (fun s c s' => SmpStep s c s') (fun _ _ => True) Smp.boot s ∧
      s.thread 0 = .switched .wait .user ∧
        s.kernel = after (sleep 0 (.proc 0)) initCloned := by
  rcases initCloned_runs (C := fun _ _ => True) (fun _ _ => trivial) with ⟨s, h⟩
  rcases h.step (e := .acquire) trivial Event.noConfusion h.lock rfl
    ThreadStep.toWait with ⟨s₁, h₁⟩
  have hwait : wait 0 initCloned = .error .sleep := by rfl
  have hstep : ThreadStep 0 s₁.kernel (s₁.thread 0) .leave
      (after (sleep 0 (.proc 0)) initCloned) (.switched .wait .user) := by
    rw [h₁.kernel, h₁.thread]
    exact ThreadStep.waitSleep hwait rfl
  exact ⟨_, h₁.runs.tail 1 trivial (SmpStep.task (e := .leave) h₁.mode h₁.proc
    trivial hstep), threadsAfter_self s₁ 0 (.switched .wait .user) .leave, rfl⟩

/-- In every state that the machine reaches, a process that sleeps in `wait`
sleeps on its own channel and has no zombie among its children. -/
theorem waiting_parent_no_zombie {ι : Type} [DecidableEq ι] {s₀ s : Smp ι} (hboots : s₀.Boots)
    (hruns : Runs (fun s c s' => SmpStep s c s') (fun _ _ => True) s₀ s)
    (w : Pslot) (spot : Spot) (hwait : s.thread w = .switched .wait spot)
    (hsleep : (s.kernel.proc w).state = .SLEEPING) :
    (s.kernel.proc w).chan = some (.proc w) ∧
      forall q, (s.kernel.proc q).parent = some w ->
        (s.kernel.proc q).state ≠ .ZOMBIE := by
  have hwaits := (runs_tree hboots hruns).waits w spot hwait hsleep
  exact ⟨hwaits.chan, hwaits.children⟩

theorem waiting_parent_no_zombie_init : exists s : Smp (Fin 2),
    Runs (fun s c s' => SmpStep s c s') (fun _ _ => True) Smp.boot s ∧
      s.thread 0 = .switched .wait .user ∧
        (s.kernel.proc 0).state = .SLEEPING ∧
          (s.kernel.proc 1).parent = some 0 ∧
            forall q, (s.kernel.proc q).parent = some 0 ->
              (s.kernel.proc q).state ≠ .ZOMBIE := by
  rcases boot_runs_wait with ⟨s, hruns, hwait, hkernel⟩
  have hsleep : (s.kernel.proc 0).state = .SLEEPING := by
    rw [hkernel]
    rfl
  have hparent : (s.kernel.proc 1).parent = some 0 := by
    rw [hkernel]
    rfl
  exact ⟨s, hruns, hwait, hsleep, hparent,
    (waiting_parent_no_zombie boot_boots hruns 0 .user hwait hsleep).2⟩

/-- In every state that the machine reaches, a process other than `init` that
has not been reaped has a parent that can still wait for it, and the chain of
parents ends at `init`. -/
theorem process_reapable {ι : Type} [DecidableEq ι] {s₀ s : Smp ι} (hboots : s₀.Boots)
    (hruns : Runs (fun s c s' => SmpStep s c s') (fun _ _ => True) s₀ s)
    (p : Pslot) (hp : p ≠ s.kernel.initproc)
    (hmember : Member (s.kernel.proc p).state) :
    (exists r, (s.kernel.proc p).parent = some r ∧
      Alive (s.kernel.proc r).state) ∧
      Relation.ReflTransGen
        (fun q r => (s.kernel.proc q).parent = some r) p s.kernel.initproc := by
  have hfamily := (runs_tree hboots hruns).family
  exact ⟨hfamily.parent p hp hmember, hfamily.climbs p hmember⟩

theorem process_reapable_thread : exists s : Smp (Fin 2),
    Runs (fun s c s' => SmpStep s c s') (fun _ _ => True) Smp.boot s ∧
      (s.kernel.proc 1).state = .RUNNABLE ∧ s.kernel.initproc = 0 ∧
        (exists r, (s.kernel.proc 1).parent = some r ∧
          Alive (s.kernel.proc r).state) ∧
          Relation.ReflTransGen
            (fun q r => (s.kernel.proc q).parent = some r) 1
              s.kernel.initproc := by
  rcases boot_runs_wait with ⟨s, hruns, _, hkernel⟩
  have hinit : s.kernel.initproc = 0 := by
    rw [hkernel]
    rfl
  have hstate : (s.kernel.proc 1).state = .RUNNABLE := by
    rw [hkernel]
    rfl
  have hne : (1 : Pslot) ≠ s.kernel.initproc := by
    rw [hinit]
    decide
  have hmember : Member (s.kernel.proc 1).state := by
    rw [hstate]
    decide
  exact ⟨s, hruns, hstate, hinit, process_reapable boot_boots hruns 1 hne
    hmember⟩

end Kernel
end Xv6
