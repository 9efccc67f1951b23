import Xv6.Sched.Family

/-!
# Pids

`nextpid` is an `int` that `allocproc` counts up under the lock, and pids are
never compared when it does.  They tell processes apart as long as the counter
is positive whenever a slot is taken.
-/

namespace Xv6
namespace Kernel

open Lib Lib.Run

structure Identified (k : Kernel) : Prop where
  positive : forall p, (k.proc p).state ≠ .UNUSED ->
    0 < (k.proc p).pid.toInt
  distinct : forall p q, (k.proc p).state ≠ .UNUSED ->
    (k.proc q).state ≠ .UNUSED -> (k.proc p).pid = (k.proc q).pid -> p = q

/-- The next pid is above those in use, unless the counter has wrapped. -/
structure Numbered (k : Kernel) : Prop extends Identified k where
  below : 0 < k.nextpid.toInt -> forall p, (k.proc p).state ≠ .UNUSED ->
    (k.proc p).pid.toInt < k.nextpid.toInt

structure PidsKept (k k' : Kernel) : Prop where
  slot : forall q, (k'.proc q).state = .UNUSED ∨
    (k.proc q).state ≠ .UNUSED ∧ (k'.proc q).pid = (k.proc q).pid
  next : k'.nextpid = k.nextpid

structure Takes (np : Pslot) (k k' : Kernel) : Prop where
  free : (k.proc np).state = .UNUSED
  used : (k'.proc np).state ≠ .UNUSED
  pid : (k'.proc np).pid = k.nextpid
  other : forall q, q ≠ np -> k'.proc q = k.proc q
  next : k'.nextpid = k.nextpid + 1

section Invariant

variable {k k' : Kernel}

theorem PidsKept.refl (k : Kernel) : PidsKept k k := by
  refine ⟨?_, rfl⟩
  intro q
  rcases eq_or_ne (k.proc q).state .UNUSED with hunused | hused
  · exact Or.inl hunused
  · exact Or.inr ⟨hused, rfl⟩

theorem PidsKept.used (h : PidsKept k k') {q : Pslot}
    (hq : (k'.proc q).state ≠ .UNUSED) :
    (k.proc q).state ≠ .UNUSED ∧ (k'.proc q).pid = (k.proc q).pid :=
  (h.slot q).resolve_left hq

theorem Numbered.kept (h : Numbered k) (hk : PidsKept k k') : Numbered k' := by
  refine ⟨⟨?_, ?_⟩, ?_⟩
  · intro p hp
    rcases hk.used hp with ⟨hused, hpid⟩
    rw [hpid]
    exact h.positive p hused
  · intro p q hp hq
    rcases hk.used hp with ⟨husedp, hpidp⟩
    rcases hk.used hq with ⟨husedq, hpidq⟩
    rw [hpidp, hpidq]
    exact h.distinct p q husedp husedq
  · intro hpos p hp
    rcases hk.used hp with ⟨hused, hpid⟩
    rw [hk.next] at hpos ⊢
    rw [hpid]
    exact h.below hpos p hused

theorem Numbered.takes {np : Pslot} (h : Numbered k)
    (hpos : 0 < k.nextpid.toInt) (hk : Takes np k k') : Numbered k' := by
  have hother : forall q, q ≠ np -> (k'.proc q).state ≠ .UNUSED ->
      (k'.proc q).pid.toInt < (k'.proc np).pid.toInt := by
    intro q hq hused
    rw [hk.other q hq] at hused ⊢
    rw [hk.pid]
    exact h.below hpos q hused
  refine ⟨⟨?_, ?_⟩, ?_⟩
  · intro p hp
    rcases eq_or_ne p np with rfl | hne
    · rw [hk.pid]
      exact hpos
    · rw [hk.other p hne] at hp ⊢
      exact h.positive p hp
  · intro p q hp hq hpid
    rcases eq_or_ne p np with rfl | hpn
    · rcases eq_or_ne q p with rfl | hqn
      · rfl
      · have hlt := hother q hqn hq
        rw [hpid] at hlt
        exact absurd hlt (lt_irrefl _)
    · rcases eq_or_ne q np with rfl | hqn
      · have hlt := hother p hpn hp
        rw [hpid] at hlt
        exact absurd hlt (lt_irrefl _)
      · rw [hk.other p hpn] at hp hpid
        rw [hk.other q hqn] at hq hpid
        exact h.distinct p q hp hq hpid
  · intro hpos' p hp
    rw [hk.next] at hpos' ⊢
    have hsucc : k.nextpid.toInt < (k.nextpid + 1).toInt := by
      have hcases := toInt_succ hpos
      lia
    rcases eq_or_ne p np with rfl | hne
    · rw [hk.pid]
      exact hsucc
    · have hlt := hother p hne hp
      rw [hk.pid] at hlt
      exact lt_trans hlt hsucc

theorem Takes.not_identified {np : Pslot} (hk : Takes np k k')
    (hneg : ¬ 0 < k.nextpid.toInt) : ¬ Identified k' := by
  intro h
  have hpos := h.positive np hk.used
  rw [hk.pid] at hpos
  exact hneg hpos

theorem kept_slot {q : Pslot} (hpid : (k'.proc q).pid = (k.proc q).pid)
    (hstate : (k.proc q).state = .UNUSED -> (k'.proc q).state = .UNUSED) :
    (k'.proc q).state = .UNUSED ∨
      (k.proc q).state ≠ .UNUSED ∧ (k'.proc q).pid = (k.proc q).pid := by
  rcases eq_or_ne (k.proc q).state .UNUSED with hunused | hused
  · exact Or.inl (hstate hunused)
  · exact Or.inr ⟨hused, hpid⟩

theorem unused_of_quiet {q : Pslot} (h : states k' q = states k q ∨
      states k q = .SLEEPING ∧ states k' q = .RUNNABLE)
    (hunused : (k.proc q).state = .UNUSED) : (k'.proc q).state = .UNUSED := by
  rcases h with hsame | ⟨hsleeping, _⟩
  · exact Eq.trans hsame hunused
  · cases hunused.symm.trans hsleeping

theorem kept_of_quiet (hstate : Quiet (states k) (states k'))
    (hpid : forall q, (k'.proc q).pid = (k.proc q).pid)
    (hnext : k'.nextpid = k.nextpid) : PidsKept k k' := by
  refine ⟨?_, hnext⟩
  intro q
  exact kept_slot (hpid q) (unused_of_quiet (hstate q))

theorem kept_of_update {np : Pslot} {st : Procstate}
    (hstate : states k' = Function.update (states k) np st)
    (hnp : st = .UNUSED ∨ (k.proc np).state ≠ .UNUSED)
    (hpid : forall q, (k'.proc q).pid = (k.proc q).pid)
    (hnext : k'.nextpid = k.nextpid) : PidsKept k k' := by
  refine ⟨?_, hnext⟩
  intro q
  have hq : (k'.proc q).state = Function.update (states k) np st q :=
    congrFun hstate q
  rcases eq_or_ne q np with rfl | hne
  · rw [Function.update_self] at hq
    rcases hnp with rfl | hused
    · exact Or.inl hq
    · exact Or.inr ⟨hused, hpid q⟩
  · rw [Function.update_of_ne hne] at hq
    exact kept_slot (hpid q) (fun hunused => Eq.trans hq hunused)

end Invariant

/-!
## The schedulers
-/

theorem pid_update (proc : Pslot -> Proc) (p : Pslot) {pr : Proc}
    (hpr : pr.pid = (proc p).pid) (q : Pslot) :
    (Function.update proc p pr q).pid = (proc q).pid := by
  rcases eq_or_ne q p with rfl | hne
  · rw [Function.update_self, hpr]
  · rw [Function.update_of_ne hne]

theorem pid_strideVisit (s : Pick) (p q : Pslot) :
    ((strideVisit s p).proc q).pid = (s.proc q).pid := by
  unfold strideVisit
  split
  · rfl
  · split
    · apply pid_update s.proc p
      unfold rescale
      split
      · rfl
      · rfl
    · rfl

theorem pid_settled (s : Pick) (q : Pslot) :
    (s.settled q).pid = (s.proc q).pid := by
  unfold Pick.settled
  split
  · rfl
  · rfl

theorem kept_wakeup {chan : Chan} {k k' : Kernel}
    (h : wakeup chan k = .ok ((), k')) : PidsKept k k' := by
  have hquiet := quiet_wakeup h
  cases h
  refine kept_of_quiet hquiet ?_ rfl
  intro q
  show (wake (some chan) (k.proc q)).pid = _
  rw [wake_eq]

theorem locStep_kept {k k' : Kernel} {l l' : Loc} {e : Event}
    (h : LocStep k l e k' l') : PidsKept k k' := by
  cases e with
  | acquire =>
      rw [(locStep_acquire h).2]
      exact PidsKept.refl k
  | release =>
      rw [(locStep_release h).2]
      exact PidsKept.refl k
  | leave => exact absurd h not_locStep_leave
  | start np => exact absurd h not_locStep_start
  | work =>
      have hquiet := (locStep_work h).2
      cases h with
      | rrSkip | lotteryAdd | lotteryGenrand | lotterySkip | lotteryPass
      | lotteryNobody | strideNobody => exact PidsKept.refl k
      | strideVisit h =>
          refine kept_of_quiet hquiet ?_ rfl
          intro q
          rw [← h]
          exact pid_strideVisit _ _ q
      | wakeup hk => exact kept_wakeup hk
  | dispatch p =>
      rcases locStep_dispatch h with ⟨_, hrunnable, hstate⟩
      have hused : (k.proc p).state ≠ .UNUSED := by
        rw [show (k.proc p).state = .RUNNABLE from hrunnable]
        decide
      cases h with
      | rrDispatch _ hk =>
          cases hk
          exact kept_of_update hstate (Or.inr hused)
            (pid_update k.proc p (by rfl)) rfl
      | lotteryDispatch =>
          exact kept_of_update hstate (Or.inr hused)
            (pid_update k.proc p (by rfl)) rfl
      | strideDispatch h hs =>
          subst hs
          refine kept_of_update hstate (Or.inr hused) ?_ rfl
          rw [strideSwitch_some rfl h]
          intro q
          exact (pid_update _ p (by rfl) q).trans (pid_settled _ q)

/-!
## A process
-/

theorem steady_pids :
    Steady (fun k => (fun q => (k.proc q).pid, k.nextpid)) where
  table := fun h => congrArg
    (fun t : Procs => (fun q => (t.proc q).pid, t.nextpid)) h
  slot := by
    intro k p pr hpr
    exact Prod.ext (funext (pid_update k.proc p hpr)) rfl

section Thread

variable {p : Pslot} {k k' : Kernel} {e : Event} {th th' : Thread}

theorem kept_of_steady {α : Type} {m : KM α} {a : α} {np : Pslot}
    {st : Procstate}
    (hm : Keeps (fun k => (fun q => (k.proc q).pid, k.nextpid)) m)
    (hk : m k = .ok (a, k'))
    (hstate : states k' = Function.update (states k) np st)
    (hnp : st = .UNUSED ∨ (k.proc np).state ≠ .UNUSED) : PidsKept k k' := by
  have hsame := hm.ok hk
  exact kept_of_update hstate hnp
    (fun q => congrFun (congrArg Prod.fst hsame) q) (congrArg Prod.snd hsame)

theorem kept_wait {r : Int} (hk : wait p k = .ok (r, k')) : PidsKept k k' := by
  have heffect := (sees_wait p k.procs).ok hk
  have hslot : forall t', k'.procs = t' -> forall q, k'.proc q = t'.proc q :=
    fun t' h q => congrArg (fun t => Procs.proc t q) h
  generalize hprocs : k'.procs = t' at heffect
  have hnext : k'.nextpid = t'.nextpid := congrArg Procs.nextpid hprocs
  cases heffect with
  | thread np hfinds _ =>
      refine ⟨?_, hnext⟩
      intro q
      rw [hslot _ hprocs]
      rcases eq_or_ne q np with rfl | hq
      · exact Or.inl (by simp [Procs.reapedThread])
      · rw [k.procs.reapedThread_of_ne hq]
        exact (PidsKept.refl k).slot q
  | proc np hfinds _ =>
      refine ⟨?_, hnext⟩
      intro q
      rw [hslot _ hprocs]
      rcases eq_or_ne q np with rfl | hq
      · exact Or.inl (by simp [Procs.reaped])
      · rw [Procs.reaped, Procs.set_of_ne _ hq]
        exact (PidsKept.refl k).slot q
  | none _ _ =>
      refine ⟨?_, hnext⟩
      intro q
      rw [hslot _ hprocs]
      exact (PidsKept.refl k).slot q

theorem kept_kill {pid r : Int} (hk : kill pid k = .ok (r, k')) :
    PidsKept k k' := by
  have hquiet := quiet_kill hk
  have heffect := (sees_kill pid k.procs).ok hk
  generalize hprocs : k'.procs = t' at heffect
  refine kept_of_quiet hquiet ?_ ?_
  · intro q
    rw [show k'.proc q = t'.proc q from
      congrArg (fun t => Procs.proc t q) hprocs]
    cases heffect with
    | found np _ _ => exact pid_update k.procs.proc np (by rfl) q
    | none => rfl
  · rw [show k'.nextpid = t'.nextpid from congrArg Procs.nextpid hprocs]
    cases heffect with
    | found np _ _ | none => rfl

theorem kept_exitTail (hused : (k.proc p).state ≠ .UNUSED)
    (hk : exitTail p k = .ok ((), k')) : PidsKept k k' := by
  rcases quiet_exitTail hk with ⟨_, hother⟩
  rcases exitTail_procs hk with ⟨woken, _, hprocs⟩
  have hpid : forall q, (k'.proc q).pid = (k.proc q).pid := by
    intro q
    rw [show k'.proc q = (k.procs.exited p woken).proc q from
      congrArg (fun t => Procs.proc t q) hprocs]
    exact exited_pid k.procs p woken q
  have hnext : k'.nextpid = k.nextpid := congrArg Procs.nextpid hprocs
  refine ⟨?_, hnext⟩
  intro q
  rcases eq_or_ne q p with rfl | hq
  · exact Or.inr ⟨hused, hpid q⟩
  · exact kept_slot (hpid q) (unused_of_quiet (hother q hq))

/-- `allocproc` takes a slot if one is free. -/
def Allocates (k k' : Kernel) : Option Pslot -> Prop
  | none => k' = k ∧ forall q, (k.proc q).state ≠ .UNUSED
  | some np => Takes np k k'

theorem allocates_allocTake {r : Option Pslot}
    (hk : allocTake k = .ok (r, k')) : Allocates k k' r := by
  have hwp : wp allocTake (fun r k' => Allocates k k' r) (fun _ => True)
      k := by
    unfold allocTake
    rw [wp_bind, wp_gets]
    cases hfind : (List.finRange NPROC).find?
        (fun p => (k.proc p).state = .UNUSED) with
    | none => exact ⟨rfl, scan_none hfind⟩
    | some p =>
        refine ⟨(scan_some hfind).1, ?_, ?_, ?_, rfl⟩
        · show (Function.update k.proc p _ p).state ≠ .UNUSED
          rw [Function.update_self]
          exact Procstate.noConfusion
        · show (Function.update k.proc p _ p).pid = _
          rw [Function.update_self]
        · exact fun q hq => Function.update_of_ne hq _ k.proc
  have hrun := wp_ok hwp hk
  exact hrun

theorem threadStep_pids (hused : (k.proc p).state ≠ .UNUSED)
    (hembryo : forall np, th.spot.owns = some np ->
      (k.proc np).state = .EMBRYO)
    (h : ThreadStep p k th e k' th') :
    PidsKept k k' ∨ exists stack spot np, th = .holds (.take stack) spot ∧
      Takes np k k' := by
  have hset : forall {np : Pslot} {pr : Proc}, pr.pid = (k.proc np).pid ->
      (k.proc np).state ≠ .UNUSED ->
        PidsKept k { k with proc := Function.update k.proc np pr } :=
    fun hpr hnp => kept_of_update (states_update (kin_setProc k _ _))
      (Or.inr hnp) (pid_update k.proc _ hpr) rfl
  have hnew : forall np, th.spot.owns = some np ->
      (k.proc np).state ≠ .UNUSED := by
    intro np hnp
    rw [hembryo np hnp]
    decide
  cases h with
  | other hk =>
      left
      refine ⟨?_, hk.nextpid⟩
      intro q
      rcases eq_or_ne q p with rfl | hq
      · rw [hk.slot]
        exact Or.inr ⟨hused, rfl⟩
      · rw [hk.other q hq]
        exact (PidsKept.refl k).slot q
  | toYield | toSleep chan | toWakeup chan | toExit hinit | toWait
  | toKill pid | toFork | toReady | toTickets | done =>
      exact Or.inl (PidsKept.refl k)
  | toClone stack => exact Or.inl ⟨(PidsKept.refl k).slot, rfl⟩
  | yield hk | sleep hk | waitSleep _ hk =>
      cases hk
      exact Or.inl (hset rfl hused)
  | wakeup hk => exact Or.inl (kept_wakeup hk)
  | exit hk => exact Or.inl (kept_exitTail hused hk)
  | wait hk => exact Or.inl (kept_wait hk)
  | kill hk => exact Or.inl (kept_kill hk)
  | full hk =>
      rw [(allocates_allocTake hk).1]
      exact Or.inl (PidsKept.refl k)
  | take hk => exact Or.inr ⟨_, _, _, rfl, allocates_allocTake hk⟩
  | ready hk =>
      cases hk
      exact Or.inl (hset rfl (hnew _ rfl))
  | tickets hk =>
      cases hk
      refine Or.inl (kept_of_quiet ?_ ?_ rfl)
      · exact fun q => Or.inl (resetTickets_state (k.proc q))
      · exact fun q => resetTickets_pid (k.proc q)
  | noStack hk =>
      exact Or.inl (kept_of_steady (steady_pids.allocSetup _) hk
        (states_update ((seesKin_allocSetup _ _).ok hk)) (Or.inl rfl))
  | setup hk =>
      have hsame := (steady_pids.allocSetup _).ok hk
      refine Or.inl (kept_of_quiet ?_ ?_ (congrArg Prod.snd hsame))
      · exact fun q => Or.inl (congrFun
          (states_of_kin ((seesKin_allocSetup _ _).ok hk)) q)
      · exact fun q => congrFun (congrArg Prod.fst hsame) q
  | noCopy hk =>
      exact Or.inl (kept_of_steady (steady_pids.forkCopy _ _) hk
        (states_update ((seesKin_forkCopy _ _ _).ok hk)) (Or.inl rfl))
  | copy hk =>
      exact Or.inl (kept_of_steady (steady_pids.forkCopy _ _) hk
        (states_update ((seesKin_forkCopy _ _ _).ok hk))
          (Or.inr (hnew _ rfl)))
  | clone hk =>
      exact Or.inl (kept_of_steady (steady_pids.cloneSetup _ _ _) hk
        (states_update ((seesKin_cloneSetup _ _ _ _).ok hk))
          (Or.inr (hnew _ rfl)))
  | backYield | backSleep | backForkret | backWait =>
      exact Or.inl (PidsKept.refl k)

theorem threadStep_take {stack : Option UInt32} {spot : Spot}
    (h : ThreadStep p k (.holds (.take stack) spot) e k' th') :
    k' = k ∧ (forall q, (k.proc q).state ≠ .UNUSED) ∨
      exists np, Takes np k k' := by
  cases h with
  | full hk => exact Or.inl (allocates_allocTake hk)
  | take hk => exact Or.inr ⟨_, allocates_allocTake hk⟩

end Thread

/-!
## The machine
-/

section Machine

variable {ι : Type} {s s' : Smp ι} {c : ι}

/-- If the CPU is about to take a slot, then `nextpid` has not wrapped. -/
def TakesPositive (s : Smp ι) (c : ι) : Prop :=
  forall p stack spot, (s.cpu c).mode = .task -> (s.cpu c).proc = some p ->
    s.thread p = .holds (.take stack) spot ->
      (exists q, (s.kernel.proc q).state = .UNUSED) ->
        0 < s.kernel.nextpid.toInt

theorem takesPositive_of_mode (h : (s.cpu c).mode ≠ .task) :
    TakesPositive s c :=
  fun _ _ _ hmode => absurd hmode h

variable [DecidableEq ι]

theorem smpStep_pids (h : s.Inv) (hstep : SmpStep s c s') :
    PidsKept s.kernel s'.kernel ∧ TakesPositive s c ∨
      exists np, Takes np s.kernel s'.kernel ∧
        (TakesPositive s c ↔ 0 < s.kernel.nextpid.toInt) := by
  cases hstep with
  | manager hmode _ hloc =>
      refine Or.inl ⟨locStep_kept hloc, takesPositive_of_mode ?_⟩
      rw [hmode]
      decide
  | switch hmode | clear hmode =>
      refine Or.inl ⟨PidsKept.refl _, takesPositive_of_mode ?_⟩
      rw [hmode]
      decide
  | task hmode hproc hallows hth =>
      rename_i p _ _ _
      -- the thread that the condition speaks of is the one that runs
      have hown : forall {q : Pslot}, (s.cpu c).proc = some q -> q = p :=
        fun hq => Option.some.inj (hq.symm.trans hproc)
      have hrunning : (s.kernel.proc p).state ≠ .UNUSED := by
        rcases h.safe.runs c hmode with ⟨q, hq, hrun⟩
        cases hown hq
        rw [show (s.kernel.proc p).state = .RUNNING from hrun]
        decide
      rcases threadStep_pids hrunning (h.owned.embryo p) hth with
        hkept | ⟨stack, spot, np, htake, htakes⟩
      · refine Or.inl ⟨hkept, ?_⟩
        intro q stack spot _ hq hspot hfree
        cases hown hq
        rw [hspot] at hth
        rcases threadStep_take hth with ⟨_, hfull⟩ | ⟨np, htakes⟩
        · rcases hfree with ⟨q, hq⟩
          exact absurd hq (hfull q)
        · exact absurd htakes.free (hkept.used htakes.used).1
      · refine Or.inr ⟨np, htakes, ?_, fun hpos _ _ _ _ _ _ _ => hpos⟩
        exact fun hpositive =>
          hpositive p stack spot hmode hproc htake ⟨np, htakes.free⟩

theorem booted_numbered {k : Kernel} (h : Booted k) : Numbered k := by
  rcases h.init with ⟨kstack, pgdir, cwd, state, hstate, hinit⟩
  have hused : forall p, (k.proc p).state ≠ .UNUSED -> p = k.initproc := by
    intro p hp
    rcases eq_or_ne p k.initproc with heq | hne
    · exact heq
    · rw [h.other p hne] at hp
      exact absurd rfl hp
  have hpid : (k.proc k.initproc).pid = 1 := by
    rw [hinit]
    rfl
  refine ⟨⟨?_, ?_⟩, ?_⟩
  · intro p hp
    rw [hused p hp, hpid]
    decide
  · intro p q hp hq _
    rw [hused p hp, hused q hq]
  · intro _ p hp
    rw [hused p hp, hpid, h.nextpid]
    decide

theorem smpStep_numbered (h : Numbered s.kernel) (hinv : s.Inv)
    (hC : TakesPositive s c) (hstep : SmpStep s c s') :
    Numbered s'.kernel := by
  rcases smpStep_pids hinv hstep with ⟨hkept, _⟩ | ⟨np, htakes, hiff⟩
  · exact h.kept hkept
  · exact h.takes (hiff.mp hC) htakes

end Machine

/-!
## Sleep locks
-/

/-- The fields of `struct sleeplock`. -/
structure Sleeplock where
  locked : Bool
  pid : Int32

/-- The end of `acquiresleep`, once the lock is free. -/
def acquiresleep (k : Kernel) (myproc : Pslot) : Sleeplock :=
  { locked := true, pid := (k.proc myproc).pid }

def holdingsleep (k : Kernel) (myproc : Pslot) (lk : Sleeplock) : Bool :=
  lk.locked && lk.pid == (k.proc myproc).pid

theorem Identified.holdingsleep_iff {k : Kernel} (h : Identified k)
    {p q : Pslot} (hp : (k.proc p).state ≠ .UNUSED)
    (hq : (k.proc q).state ≠ .UNUSED) :
    holdingsleep k q (acquiresleep k p) = true ↔ q = p := by
  simp only [holdingsleep, acquiresleep, Bool.true_and, beq_iff_eq]
  constructor
  · exact fun hpid => h.distinct q p hq hp hpid.symm
  · exact fun heq => by rw [heq]

/-!
## The theorem
-/

/-- As long as no slot is taken with a counter that has wrapped, the slots in use
have different positive pids.  `fork` then returns a positive pid, and a sleep
lock is held by the process that acquired it only.  The first step to take one
after that gives a slot in use a pid that is not positive. -/
theorem pids_identify_iff {ι : Type} [DecidableEq ι] {s₀ s : Smp ι}
    (hboots : s₀.Boots)
    (hruns : Runs (fun s c s' => SmpStep s c s') TakesPositive s₀ s) :
    Identified s.kernel ∧
      (forall p np, (s.thread p).spot.owns = some np ->
        0 < (s.kernel.proc np).pid.toInt) ∧
      (forall p q, (s.kernel.proc p).state ≠ .UNUSED ->
        (s.kernel.proc q).state ≠ .UNUSED ->
          (holdingsleep s.kernel q (acquiresleep s.kernel p) = true ↔
            q = p)) ∧
      forall c s', SmpStep s c s' ->
        (Identified s'.kernel ↔ TakesPositive s c) := by
  have hnumbered : Numbered s.kernel ∧ s.Inv := by
    have hstart : Numbered s₀.kernel ∧ s₀.Inv :=
      ⟨booted_numbered hboots.booted, start_inv hboots.toStart⟩
    apply hruns.invariant hstart
    intro s c s' h hC hstep
    exact ⟨smpStep_numbered h.1 h.2 hC hstep, smpStep_inv h.2 hstep⟩
  rcases hnumbered with ⟨hnumbered, hinv⟩
  refine ⟨hnumbered.toIdentified, ?_, ?_, ?_⟩
  · intro p np hnp
    apply hnumbered.positive np
    rw [show (s.kernel.proc np).state = .EMBRYO from
      hinv.owned.embryo p np hnp]
    decide
  · exact fun p q hp hq => hnumbered.toIdentified.holdingsleep_iff hp hq
  · intro c s' hstep
    rcases smpStep_pids hinv hstep with ⟨hkept, hC⟩ | ⟨np, htakes, hiff⟩
    · exact ⟨fun _ => hC, fun _ => (hnumbered.kept hkept).toIdentified⟩
    · rw [hiff]
      constructor
      · exact fun h => Decidable.not_not.mp
          (fun hneg => htakes.not_identified hneg h)
      · exact fun hpos => (hnumbered.takes hpos htakes).toIdentified

/-- `init` has made a thread. -/
theorem pids_identify_iff_thread : exists s : Smp (Fin 2),
    Runs (fun s c s' => SmpStep s c s') TakesPositive Smp.boot s ∧
      (s.kernel.proc 0).state = .RUNNING ∧
        (s.kernel.proc 1).state = .RUNNABLE ∧ (s.kernel.proc 1).pid = 2 ∧
          Identified s.kernel := by
  rcases initCloned_runs (C := TakesPositive)
    (fun s hpid _ _ _ _ _ _ _ => hpid) with ⟨s, h⟩
  refine ⟨s, h.runs, ?_, ?_, ?_, (pids_identify_iff boot_boots h.runs).1⟩
  · rw [h.kernel]
    decide +kernel
  · rw [h.kernel]
    decide +kernel
  · rw [h.kernel]
    decide +kernel

/-!
`init` takes the last free page.  Every `fork` then fails, but it counts
`nextpid` up.  Once the counter has wrapped, `init` gives the page back and makes
a thread.
-/

/-- Only one page is free when the CPUs enter the scheduler. -/
def tightKernel : Kernel :=
  { Sched.boot.kernel with
    vm := { Sched.boot.kernel.vm with freelist := [pageAddr 0x444] } }

def Smp.tight : Smp (Fin 2) := { Smp.boot with kernel := tightKernel }

def initGrown : Kernel :=
  after (sysSbrk 0 (some 4096)) (after (dispatch 0) tightKernel)

/-- After some calls of `fork`, the last of which used the pid of slot 1. -/
def forksFailed (nextpid pid : Int32) : Kernel :=
  { initGrown with
    nextpid := nextpid
    proc := Function.update initGrown.proc 1 { zeroProc with pid := pid } }

theorem tight_boots : Smp.tight.Boots :=
  { boot_start with
    booted := { bootSched_booted with }
    forkret := fun _ => rfl }

theorem find_forksFailed (n pid : Int32) :
    (List.finRange NPROC).find?
      (fun p => ((forksFailed n pid).proc p).state = .UNUSED) =
        some 1 := by
  have hzero : ((forksFailed n pid).proc 0).state ≠ .UNUSED := by
    show (initGrown.proc 0).state ≠ .UNUSED
    decide +kernel
  rw [show List.finRange NPROC = 0 :: 1 :: (List.finRange NPROC).drop 2 from
    rfl]
  rw [List.find?_cons_of_neg (by simpa using hzero)]
  exact List.find?_cons_of_pos rfl

theorem allocTake_find {k : Kernel} {p : Pslot}
    (h : (List.finRange NPROC).find? (fun p => (k.proc p).state = .UNUSED) =
      some p) :
    allocTake k = .ok (some p,
      { k with
        nextpid := k.nextpid + 1
        proc := Function.update k.proc p
          { k.proc p with
            syscallCount := 0, state := .EMBRYO, pid := k.nextpid } }) := by
  unfold allocTake
  simp only [bind, gets, h]
  rfl

theorem allocSetup_empty {k : Kernel} (h : k.vm.freelist = []) (p : Pslot) :
    allocSetup p k = .ok (false,
      { k with
        proc := Function.update k.proc p
          { k.proc p with kstack := none, state := .UNUSED } }) := by
  have hkalloc : onVm Vm.kalloc k = .ok (none, k) := by
    rcases k with ⟨fs, vm, _⟩
    rcases vm with ⟨_, _, _, _⟩
    cases h
    rfl
  unfold allocSetup
  simp only [bind, hkalloc, setProc, Run.modify, Function.update_self,
    Function.update_idem]
  rfl

theorem failed_fork_runs {s : Smp (Fin 2)} {n pid : Int32}
    (h : RunsInit (fun _ _ => True) Smp.tight s (forksFailed n pid)
      (.free .user) none) :
    exists s', RunsInit (fun _ _ => True) Smp.tight s'
      (forksFailed (n + 1) n) (.free .user) none := by
  rcases h.step (e := .acquire) trivial Event.noConfusion h.lock rfl
    ThreadStep.toFork with ⟨s₁, h₁⟩
  rcases h₁.step (e := .work) trivial Event.noConfusion trivial h₁.lock
    (ThreadStep.take (allocTake_find (find_forksFailed n pid))) with ⟨s₂, h₂⟩
  rcases h₂.step (e := .release) trivial Event.noConfusion h₂.lock rfl
    ThreadStep.done with ⟨s₃, h₃⟩
  have hempty : initGrown.vm.freelist = [] := by decide +kernel
  rcases h₃.step (e := .work) trivial Event.noConfusion trivial h₃.lock
    (ThreadStep.noStack (allocSetup_empty (by exact hempty) 1)) with ⟨s₄, h₄⟩
  simp only [forksFailed, Function.update_self, Function.update_idem] at h₄
  exact ⟨s₄, h₄⟩

theorem local_sysSbrk {k k' : Kernel} {p : Pslot} {n : Option Int32} {r : Int}
    (h : sysSbrk p n k = .ok (r, k')) : Local p k k' := by
  have hown := wp_ok (own_sysSbrk n k.procs k (Own.refl p k.procs)) h
  refine ⟨?_, hown.other, hown.initproc, hown.nextpid, hown.numofthread⟩
  rw [show k'.proc p = _ from hown.slot.eq]
  rfl

theorem initGrown_runs : exists s,
    RunsInit (fun _ _ => True) Smp.tight s (forksFailed 2 0) (.free .user)
      none := by
  rcases dispatched_runs (C := fun _ _ => True) (k := tightKernel)
    (fun _ _ => trivial) rfl (by decide +kernel) with ⟨s, h⟩
  have hsbrk : Local 0 (after (dispatch 0) tightKernel) initGrown :=
    local_sysSbrk (after_ok (show _ = some 4096 by decide +kernel))
  rcases h.step (e := .work) trivial Event.noConfusion trivial h.lock
    (ThreadStep.other hsbrk) with ⟨s', h'⟩
  have hone : initGrown.proc 1 = zeroProc :=
    hsbrk.other 1 (show (1 : Pslot) ≠ 0 by decide)
  have heq : forksFailed 2 0 = initGrown := by
    unfold forksFailed
    rw [show { zeroProc with pid := 0 } = initGrown.proc 1 from hone.symm,
      Function.update_eq_self, ← show initGrown.nextpid = 2 from hsbrk.nextpid]
  rw [heq]
  exact ⟨s', h'⟩

theorem forksFailed_runs (m : Nat) : exists s,
    RunsInit (fun _ _ => True) Smp.tight s
      (forksFailed (Int32.ofNat (m + 3)) (Int32.ofNat (m + 2))) (.free .user)
        none := by
  induction m with
  | zero =>
      rcases initGrown_runs with ⟨s, h⟩
      exact failed_fork_runs h
  | succ m ih =>
      rcases ih with ⟨s, h⟩
      have hnext := failed_fork_runs h
      rw [show Int32.ofNat (m + 3) + 1 = Int32.ofNat (m + 3 + 1) from
        (Int32.ofNat_add (m + 3) 1).symm] at hnext
      exact hnext

def initShrunk : Kernel :=
  after (sysSbrk 0 (some (-4096))) (forksFailed (-2147483648) 2147483647)

/-- The page is the kernel stack of a new thread of `init`, whose pid is the
least `int`. -/
theorem thread_gets_negative_pid :
    Smp.tight.Boots ∧ exists s,
      Runs (fun s c s' => SmpStep s c s') (fun _ _ => True) Smp.tight s ∧
        s.lock = none ∧ (s.kernel.proc 1).state = .RUNNABLE ∧
          (s.kernel.proc 1).pid = -2147483648 ∧ ¬ Identified s.kernel := by
  rcases forksFailed_runs 2147483645 with ⟨s, h⟩
  have hsbrk : Local 0 (forksFailed (-2147483648) 2147483647) initShrunk :=
    local_sysSbrk (after_ok (show _ = some 8192 by decide +kernel))
  rcases h.step (e := .work) trivial Event.noConfusion trivial h.lock
    (ThreadStep.other hsbrk) with ⟨s₀, h₀⟩
  rcases h₀.step (e := .acquire) trivial Event.noConfusion h₀.lock rfl
    (ThreadStep.toClone 2048) with ⟨s₁, h₁⟩
  have htake : allocTake
      { initShrunk with numofthread := initShrunk.numofthread + 1 } =
        .ok (some 1, _) := after_ok (by decide +kernel)
  rcases h₁.step (e := .work) trivial Event.noConfusion trivial h₁.lock
    (ThreadStep.take htake) with ⟨s₂, h₂⟩
  rcases h₂.step (e := .release) trivial Event.noConfusion h₂.lock rfl
    ThreadStep.done with ⟨s₃, h₃⟩
  have hsetup : allocSetup 1 (after allocTake
      { initShrunk with numofthread := initShrunk.numofthread + 1 }) =
        .ok (true, _) := after_ok (by decide +kernel)
  rcases h₃.step (e := .start 1) trivial Event.noConfusion trivial h₃.lock
    (ThreadStep.setup hsetup) with ⟨s₄, h₄⟩
  have hclone : cloneSetup 0 1 2048 (after (allocSetup 1) (after allocTake
      { initShrunk with numofthread := initShrunk.numofthread + 1 })) =
        .ok (-2147483648, _) := after_ok (by decide +kernel)
  rcases h₄.step (e := .work) trivial Event.noConfusion trivial h₄.lock
    (ThreadStep.clone hclone) with ⟨s₅, h₅⟩
  have hstate : (s₅.kernel.proc 1).state = .RUNNABLE := by
    rw [h₅.kernel]
    decide +kernel
  have hpid : (s₅.kernel.proc 1).pid = -2147483648 := by
    rw [h₅.kernel]
    decide +kernel
  refine ⟨tight_boots, s₅, h₅.runs, h₅.lock, hstate, hpid, ?_⟩
  intro hidentified
  have hpositive := hidentified.positive 1 (by rw [hstate]; decide)
  rw [hpid] at hpositive
  exact absurd hpositive (by decide)

end Kernel
end Xv6
