import Xv6.Sched.Cpus

/-!
# A process runs on one CPU

What each step does to the states and to the lock, and from it that a process is
in the hands of one CPU at most.  The lock is not checked where the states are
written: that a scheduler or a process holds it there follows from where its
code is.
-/

namespace Xv6
namespace Kernel

open Lib Lib.Run

def Quiet (t t' : Pslot -> Procstate) : Prop :=
  forall q, t' q = t q ∨ t q = .SLEEPING ∧ t' q = .RUNNABLE

theorem Quiet.refl (t : Pslot -> Procstate) : Quiet t t := fun _ => Or.inl rfl

theorem quiet_wakeup {chan : Chan} {k k' : Kernel}
    (h : wakeup chan k = .ok ((), k')) : Quiet (states k) (states k') := by
  cases h
  exact fun q => wake_state (k.proc q) (some chan)

/-!
## The schedulers
-/

section Loc

variable {k k' : Kernel} {l l' : Loc}

theorem locStep_acquire (h : LocStep k l .acquire k' l') :
    l.locked = false ∧ k' = k := by
  cases h with
  | rrAcquire | lotteryAcquire | lotteryAgain | strideAcquire | strideAgain =>
      exact ⟨rfl, rfl⟩
  | interrupt chan hl => exact ⟨hl, rfl⟩

theorem locStep_release (h : LocStep k l .release k' l') :
    l'.locked = false ∧ k' = k := by
  cases h with
  | rrRelease | lotteryBetween | lotteryRelease | strideBetween
  | strideRelease => exact ⟨rfl, rfl⟩
  | back hl => exact ⟨hl, rfl⟩

theorem states_strideVisit (s : Pick) (p q : Pslot) :
    ((strideVisit s p).proc q).state = (s.proc q).state := by
  unfold strideVisit
  split
  · rfl
  · split
    · rcases eq_or_ne q p with rfl | hq
      · simp
      · simp [hq]
    · rfl

theorem locStep_work (h : LocStep k l .work k' l') :
    (l'.locked = true -> l.locked = true) ∧
      Quiet (states k) (states k') := by
  cases h with
  | rrSkip h | lotteryAdd | lotteryGenrand h | lotterySkip h
  | lotteryPass h _ | lotteryNobody | strideNobody h => exact ⟨id, Quiet.refl _⟩
  | strideVisit h =>
      refine ⟨id, ?_⟩
      intro q
      left
      rw [← h]
      exact states_strideVisit _ _ q
  | wakeup hk => exact ⟨id, quiet_wakeup hk⟩

theorem states_settled (s : Pick) (q : Pslot) :
    (s.settled q).state = (s.proc q).state := by
  unfold Pick.settled
  split
  · rfl
  · rfl

theorem locStep_dispatch {p : Pslot} (h : LocStep k l (.dispatch p) k' l') :
    l.locked = true ∧ states k p = .RUNNABLE ∧
      states k' = Function.update (states k) p .RUNNING := by
  cases h with
  | rrDispatch h hk =>
      cases hk
      exact ⟨rfl, h, states_update (kin_setProc k p _)⟩
  | lotteryDispatch h _ =>
      exact ⟨rfl, h, states_update (kin_setProc k p _)⟩
  | strideDispatch h hs =>
      subst hs
      refine ⟨rfl, h, ?_⟩
      rw [strideSwitch_some rfl h]
      funext q
      rcases eq_or_ne q p with rfl | hq
      · simp [states, strideRun]
      · simp [states, hq, states_settled]

theorem not_locStep_leave : ¬ LocStep k l .leave k' l' := by
  intro h
  cases h

theorem not_locStep_start {np : Pslot} : ¬ LocStep k l (.start np) k' l' := by
  intro h
  cases h

end Loc

/-!
## The processes
-/

/-- What work of a process does to the states `t`; the process is making a
process of the slot in the second argument before, and of the one in the last
argument after. -/
inductive Worked (t : Pslot -> Procstate) (o : Option Pslot) :
    (Pslot -> Procstate) -> Option Pslot -> Prop where
  | quiet {t' : Pslot -> Procstate} (h : Quiet t t') : Worked t o t' o
  | reaped (q : Pslot) (h : t q = .ZOMBIE) :
      Worked t o (Function.update t q .UNUSED) o
  | taken (np : Pslot) (h : t np = .UNUSED) :
      Worked t o (Function.update t np .EMBRYO) (some np)
  | made (np : Pslot) {st : Procstate} (ho : o = some np)
      (hst : st ≠ .RUNNING) : Worked t o (Function.update t np st) none

section Thread

variable {p : Pslot} {k k' : Kernel} {th th' : Thread}

theorem threadStep_acquire (h : ThreadStep p k th .acquire k' th') :
    th.locked = false ∧ states k' = states k ∧
      th'.spot.owns = th.spot.owns := by
  cases h with
  | toYield | toSleep chan | toWakeup chan | toExit hinit | toWait
  | toKill pid | toFork | toClone stack | toReady | toTickets =>
      exact ⟨rfl, rfl, rfl⟩

theorem threadStep_release (h : ThreadStep p k th .release k' th') :
    th'.locked = false ∧ k' = k ∧ th'.spot = th.spot := by
  cases h with
  | done | backYield | backSleep | backForkret => exact ⟨rfl, rfl, rfl⟩

theorem threadStep_start {np : Pslot}
    (h : ThreadStep p k th (.start np) k' th') :
    th'.locked = false ∧ states k' = states k ∧
      th.spot.owns = some np ∧ th'.spot.owns = some np := by
  cases h with
  | setup hk =>
      exact ⟨rfl, states_of_kin ((seesKin_allocSetup np _).ok hk), rfl, rfl⟩

theorem not_threadStep_dispatch {q : Pslot} :
    ¬ ThreadStep p k th (.dispatch q) k' th' := by
  intro h
  cases h

theorem quiet_exitTail (hk : exitTail p k = .ok ((), k')) :
    states k' p = .ZOMBIE ∧ forall q, q ≠ p -> states k' q = states k q ∨
      states k q = .SLEEPING ∧ states k' q = .RUNNABLE := by
  rcases exitTail_procs hk with ⟨woken, _, hprocs⟩
  have hproc : forall q, k'.proc q = (k.procs.exited p woken).proc q :=
    fun q => congrArg (fun t => Procs.proc t q) hprocs
  constructor
  · show (k'.proc p).state = _
    rw [hproc, Procs.exited, Procs.set_self]
  · intro q hq
    show (k'.proc q).state = _ ∨ _ ∧ (k'.proc q).state = _
    rw [hproc, Procs.exited, Procs.set_of_ne _ hq]
    exact passSlot_wake_state _ _ _ _ _

theorem threadStep_leave (h : ThreadStep p k th .leave k' th') :
    th.locked = true ∧ th'.spot = th.spot ∧ states k' p ≠ .RUNNING ∧
      forall q, q ≠ p -> states k' q = states k q ∨
        states k q = .SLEEPING ∧ states k' q = .RUNNABLE := by
  have hset : forall pr : Proc, pr.state ≠ .RUNNING ->
      k' = { k with proc := Function.update k.proc p pr } ->
        states k' p ≠ .RUNNING ∧ forall q, q ≠ p ->
          states k' q = states k q ∨
            states k q = .SLEEPING ∧ states k' q = .RUNNABLE := by
    rintro pr hpr rfl
    rw [states_update (kin_setProc k p pr)]
    constructor
    · rw [Function.update_self]
      exact hpr
    · intro q hq
      left
      exact Function.update_of_ne hq _ _
  cases h with
  | yield hk | sleep hk | waitSleep _ hk =>
      cases hk
      exact ⟨rfl, rfl, hset _ Procstate.noConfusion rfl⟩
  | exit hk =>
      rcases quiet_exitTail hk with ⟨hzombie, hother⟩
      refine ⟨rfl, rfl, ?_, hother⟩
      rw [hzombie]
      decide

theorem worked_wait {r : Int} (hk : wait p k = .ok (r, k'))
    (o : Option Pslot) : Worked (states k) o (states k') o := by
  have heffect := (sees_wait p k.procs).ok hk
  have hstates : states k' = fun q => (k'.procs.proc q).state := rfl
  rw [hstates]
  generalize k'.procs = t' at heffect
  cases heffect with
  | thread q hfinds _ =>
      have hend := Worked.reaped (t := states k) (o := o) q hfinds.state
      convert hend using 1
      funext r
      rcases eq_or_ne r q with rfl | hr
      · simp [Procs.reapedThread]
      · simp [hr, Procs.reapedThread_of_ne, states, procs]
  | proc q hfinds _ =>
      have hend := Worked.reaped (t := states k) (o := o) q hfinds.state
      convert hend using 1
      funext r
      rcases eq_or_ne r q with rfl | hr
      · simp [Procs.reaped]
      · simp [hr, Procs.reaped, Procs.set_of_ne, states, procs]
  | none _ _ => exact Worked.quiet (Quiet.refl _)

theorem quiet_kill {pid : Int} {r : Int} (hk : kill pid k = .ok (r, k')) :
    Quiet (states k) (states k') := by
  have heffect := (sees_kill pid k.procs).ok hk
  have hstates : states k' = fun q => (k'.procs.proc q).state := rfl
  rw [hstates]
  generalize k'.procs = t' at heffect
  cases heffect with
  | found q hq _ =>
      intro r
      beta_reduce
      rcases eq_or_ne r q with rfl | hr
      · rw [Procs.set_self]
        exact killSlot_state (k.procs.proc r)
      · rw [Procs.set_of_ne _ hr]
        exact Or.inl rfl
  | none => exact Quiet.refl _

theorem threadStep_work (h : ThreadStep p k th .work k' th') :
    (th'.locked = true -> th.locked = true) ∧
      Worked (states k) th.spot.owns (states k') th'.spot.owns := by
  cases h with
  | other hk =>
      refine ⟨id, Worked.quiet ?_⟩
      intro q
      left
      rcases eq_or_ne q p with rfl | hq
      · show (k'.proc q).state = _
        rw [hk.slot]
        rfl
      · exact congrArg Proc.state (hk.other q hq)
  | wakeup hk => exact ⟨fun _ => rfl, Worked.quiet (quiet_wakeup hk)⟩
  | wait hk => exact ⟨fun _ => rfl, worked_wait hk _⟩
  | kill hk => exact ⟨fun _ => rfl, Worked.quiet (quiet_kill hk)⟩
  | full hk =>
      have hsame := states_of_kin ((seesKin_allocTake _).ok hk)
      refine ⟨fun _ => rfl, ?_⟩
      rw [hsame]
      exact Worked.quiet (Quiet.refl _)
  | take hk =>
      rcases (seesKin_allocTake _).ok hk with ⟨hunused, htaken⟩
      refine ⟨fun _ => rfl, ?_⟩
      rw [states_update htaken]
      exact Worked.taken _ hunused
  | ready hk =>
      cases hk
      refine ⟨fun _ => rfl, ?_⟩
      rw [states_update (kin_setProc k _ _)]
      exact Worked.made _ rfl Procstate.noConfusion
  | tickets hk =>
      cases hk
      refine ⟨fun _ => rfl, Worked.quiet ?_⟩
      exact fun q => Or.inl (resetTickets_state (k.proc q))
  | noStack hk =>
      have hfree := states_update ((seesKin_allocSetup _ _).ok hk)
      refine ⟨id, ?_⟩
      rw [hfree]
      exact Worked.made _ rfl Procstate.noConfusion
  | noCopy hk =>
      have hfree := states_update ((seesKin_forkCopy _ _ _).ok hk)
      refine ⟨id, ?_⟩
      rw [hfree]
      exact Worked.made _ rfl Procstate.noConfusion
  | copy hk =>
      have hsame := states_update ((seesKin_forkCopy _ _ _).ok hk)
      refine ⟨id, Worked.quiet ?_⟩
      intro q
      left
      rw [hsame]
      exact congrFun (Function.update_eq_self _ (states k)) q
  | clone hk =>
      have hmade := states_update ((seesKin_cloneSetup _ _ _ _).ok hk)
      refine ⟨id, ?_⟩
      rw [hmade]
      exact Worked.made _ rfl Procstate.noConfusion
  | backWait => exact ⟨fun _ => rfl, Worked.quiet (Quiet.refl _)⟩

end Thread

/-!
## The invariant
-/

section Exclusion

variable {ι : Type}

/-- The machine as workers that run tasks. -/
def Smp.view (s : Smp ι) : Handover ι Pslot where
  lock := s.lock
  slot := fun c => (s.cpu c).proc
  mode := fun c => (s.cpu c).mode
  running := { p | states s.kernel p = .RUNNING }

def Smp.inCritical (s : Smp ι) (c : ι) : Prop :=
  match (s.cpu c).mode with
  | .manager => (s.cpu c).loc.locked = true
  | .task => exists p, (s.cpu c).proc = some p ∧ (s.thread p).locked = true
  | .leaving => False
  | .returned => False

/-- The slots in `o` that processes are being made of are embryos, and each is
in the hands of one process. -/
structure Owned (t : Pslot -> Procstate) (o : Pslot -> Option Pslot) :
    Prop where
  embryo : forall p np, o p = some np -> t np = .EMBRYO
  owner : forall p p' np, o p = some np -> o p' = some np -> p = p'

section Owned

variable {t t' : Pslot -> Procstate} {o o' : Pslot -> Option Pslot}
  {p : Pslot}

theorem Owned.mono (h : Owned t o)
    (ho : forall q np, o' q = some np -> o q = some np)
    (ht : forall np, t np = .EMBRYO -> t' np = .EMBRYO) : Owned t' o' := by
  constructor
  · exact fun q np hq => ht np (h.embryo q np (ho q np hq))
  · exact fun q q' np hq hq' => h.owner q q' np (ho q np hq) (ho q' np hq')

theorem Quiet.embryo (h : Quiet t t') {np : Pslot} (hnp : t np = .EMBRYO) :
    t' np = .EMBRYO := by
  rcases h np with hsame | ⟨hsleeping, _⟩
  · exact hsame.trans hnp
  · rw [hnp] at hsleeping
    cases hsleeping

theorem Owned.worked (h : Owned t o) {x : Option Pslot}
    (hw : Worked t (o p) t' x) : Owned t' (Function.update o p x) := by
  cases hw with
  | quiet hquiet =>
      apply h.mono _ (fun np => hquiet.embryo)
      intro q np hq
      rw [Function.update_eq_self] at hq
      exact hq
  | reaped r hr =>
      apply h.mono
      · intro q np hq
        rw [Function.update_eq_self] at hq
        exact hq
      · intro np hnp
        have hne : np ≠ r := by
          rintro rfl
          rw [hr] at hnp
          cases hnp
        rw [Function.update_of_ne hne]
        exact hnp
  | taken np hnp =>
      have hfree : forall q, o q ≠ some np := by
        intro q hq
        rw [h.embryo q np hq] at hnp
        cases hnp
      constructor
      · intro q np' hq
        rcases Handover.update_cases hq with ⟨_, heq⟩ | ⟨_, hold⟩
        · cases heq
          exact Function.update_self np _ t
        · have hne : np' ≠ np := by
            rintro rfl
            exact hfree q hold
          rw [Function.update_of_ne hne]
          exact h.embryo q np' hold
      · intro q q' np' hq hq'
        rcases Handover.update_cases hq with ⟨rfl, heq⟩ | ⟨_, hold⟩
        · cases heq
          rcases Handover.update_cases hq' with ⟨rfl, _⟩ | ⟨_, hold'⟩
          · rfl
          · exact absurd hold' (hfree q')
        · rcases Handover.update_cases hq' with ⟨rfl, heq'⟩ | ⟨_, hold'⟩
          · cases heq'
            exact absurd hold (hfree q)
          · exact h.owner q q' np' hold hold'
  | made np hnp hst =>
      have hold : forall q np', Function.update o p none q = some np' ->
          q ≠ p ∧ o q = some np' := by
        intro q np' hq
        rcases Handover.update_cases hq with ⟨_, heq⟩ | ⟨hne, hq'⟩
        · cases heq
        · exact ⟨hne, hq'⟩
      constructor
      · intro q np' hq
        rcases hold q np' hq with ⟨hne, hq'⟩
        have hother : np' ≠ np := by
          rintro rfl
          exact hne (h.owner q p np' hq' hnp)
        rw [Function.update_of_ne hother]
        exact h.embryo q np' hq'
      · intro q q' np' hq hq'
        exact h.owner q q' np' (hold q np' hq).2 (hold q' np' hq').2

end Owned

structure Smp.Inv (s : Smp ι) : Prop where
  safe : s.view.Safe
  locked : forall c, s.inCritical c -> s.lock = some c
  owned : Owned (states s.kernel) (fun p => (s.thread p).spot.owns)

theorem start_inv {s : Smp ι} (h : s.Start) : s.Inv := by
  have hnone : forall p, (s.thread p).spot.owns = none := by
    intro p
    rw [h.thread p]
    rfl
  constructor
  · constructor
    · intro c c' p hc
      rw [show s.view.slot c = none from (h.cpu c).1] at hc
      cases hc
    · exact fun c _ => (h.cpu c).1
    · intro c hmode
      rw [show s.view.mode c = .manager from (h.cpu c).2.1] at hmode
      rcases hmode with hmode | hmode
      · cases hmode
      · cases hmode
    · intro c hmode
      rw [show s.view.mode c = .manager from (h.cpu c).2.1] at hmode
      cases hmode
    · exact fun p hp => absurd hp (h.state p)
  · intro c hc
    unfold Smp.inCritical at hc
    rw [(h.cpu c).2.1] at hc
    rcases (h.cpu c).2.2 with hl | hl | hl
    · rw [hl] at hc
      cases hc
    · rw [hl] at hc
      cases hc
    · rw [hl] at hc
      cases hc
  · constructor
    · intro p np hp
      rw [hnone p] at hp
      cases hp
    · intro p p' np hp
      rw [hnone p] at hp
      cases hp

/-!
## Every step preserves it
-/

variable {s s' : Smp ι} {c : ι}

theorem inCritical_manager {x : Cpu} (hcpu : s.cpu c = x)
    (hmode : x.mode = .manager) :
    s.inCritical c ↔ x.loc.locked = true := by
  unfold Smp.inCritical
  rw [hcpu, hmode]

theorem inCritical_task {x : Cpu} {p : Pslot} (hcpu : s.cpu c = x)
    (hmode : x.mode = .task) (hproc : x.proc = some p) :
    s.inCritical c ↔ (s.thread p).locked = true := by
  unfold Smp.inCritical
  rw [hcpu, hmode, hproc]
  simp

theorem inCritical_other {c' : ι} (h : s'.inCritical c')
    (hcpu : s'.cpu c' = s.cpu c')
    (hthread : forall p, (s.cpu c').mode = .task ->
      (s.cpu c').proc = some p -> s'.thread p = s.thread p) :
    s.inCritical c' := by
  unfold Smp.inCritical at h ⊢
  rw [hcpu] at h
  cases hmode : (s.cpu c').mode with
  | manager | leaving | returned =>
      rw [hmode] at h
      exact h
  | task =>
      rw [hmode] at h
      rcases h with ⟨p, hp, hlocked⟩
      rw [hthread p hmode hp] at hlocked
      exact ⟨p, hp, hlocked⟩

theorem lockAfter_other {c' : ι} {e : Event} (hne : c' ≠ c)
    (hallows : s.allows c e) (h : s.lock = some c') :
    s.lockAfter c e = some c' := by
  cases e with
  | acquire =>
      rw [show s.lock = none from hallows] at h
      cases h
  | release =>
      rw [show s.lock = some c from hallows] at h
      cases h
      exact absurd rfl hne
  | work | dispatch p | leave | start np => exact h

theorem threadsAfter_self (s : Smp ι) (p : Pslot) (th : Thread) (e : Event) :
    s.threadsAfter p th e p = th := by
  cases e with
  | start np | _ => exact Function.update_self p _ _

theorem threadsAfter_other {p q : Pslot} (hne : q ≠ p) (th : Thread)
    (e : Event) : s.threadsAfter p th e q = s.thread q ∨
      e = .start q ∧ s.threadsAfter p th e q = .switched .forkret .user := by
  cases e with
  | start np =>
      rcases eq_or_ne q np with rfl | hnp
      · right
        exact ⟨rfl, (Function.update_of_ne hne _ _).trans
          (Function.update_self q _ _)⟩
      · left
        exact (Function.update_of_ne hne _ _).trans
          (Function.update_of_ne hnp _ _)
  | _ => exact Or.inl (Function.update_of_ne hne _ _)

theorem owns_after {p q np : Pslot} {e : Event} {th : Thread}
    (h : (s.threadsAfter p th e q).spot.owns = some np) :
    q = p ∧ th.spot.owns = some np ∨
      q ≠ p ∧ (s.thread q).spot.owns = some np := by
  rcases eq_or_ne q p with rfl | hne
  · rw [threadsAfter_self] at h
    exact Or.inl ⟨rfl, h⟩
  · rcases threadsAfter_other hne th e with heq | ⟨_, heq⟩
    · rw [heq] at h
      exact Or.inr ⟨hne, h⟩
    · rw [heq] at h
      cases h

theorem running_of_quiet {t t' : Pslot -> Procstate} (h : Quiet t t') :
    { p | t' p = .RUNNING } = { p | t p = .RUNNING } := by
  ext p
  show t' p = _ ↔ t p = _
  rcases h p with hsame | ⟨hsleeping, hrunnable⟩
  · rw [hsame]
  · rw [hsleeping, hrunnable]
    decide

theorem worked_running {k' : Kernel} {p : Pslot} {x : Option Pslot}
    (h : s.Inv)
    (hw : Worked (states s.kernel) (s.thread p).spot.owns (states k') x) :
    { q | states k' q = .RUNNING } = s.view.running := by
  have hupdate : forall (q : Pslot) (st : Procstate),
      states s.kernel q ≠ .RUNNING -> st ≠ .RUNNING ->
        { r | Function.update (states s.kernel) q st r = .RUNNING } =
          s.view.running := by
    intro q st hq hst
    ext r
    show Function.update (states s.kernel) q st r = _ ↔ states s.kernel r = _
    rcases eq_or_ne r q with rfl | hr
    · simp [hq, hst]
    · simp [hr]
  generalize states k' = t' at hw
  cases hw with
  | quiet hquiet => exact running_of_quiet hquiet
  | reaped q hq =>
      exact hupdate q .UNUSED (by simp [hq]) Procstate.noConfusion
  | taken np hnp =>
      exact hupdate np .EMBRYO (by simp [hnp]) Procstate.noConfusion
  | made np hnp hst =>
      exact hupdate np _ (by simp [h.owned.embryo p np hnp]) hst

variable [DecidableEq ι]

theorem view_update (k : Kernel) (l : Option ι) (x : Cpu)
    (th : Pslot -> Thread) :
    Smp.view { kernel := k, lock := l, cpu := Function.update s.cpu c x,
               thread := th } =
      { lock := l
        slot := Function.update s.view.slot c x.proc
        mode := Function.update s.view.mode c x.mode
        running := { p | states k p = .RUNNING } } := by
  unfold Smp.view
  congr 1
  · funext c'
    rcases eq_or_ne c' c with rfl | hne
    · simp
    · simp [hne]
  · funext c'
    rcases eq_or_ne c' c with rfl | hne
    · simp
    · simp [hne]

theorem manager_view {e : Event} {k' : Kernel} {l : Loc} (h : s.Inv)
    (hmode : (s.cpu c).mode = .manager) (hallows : s.allows c e)
    (hstep : LocStep s.kernel (s.cpu c).loc e k' l) :
    Handover.Step c s.view
      (Smp.view
        { s with
          kernel := k'
          lock := s.lockAfter c e
          cpu := Function.update s.cpu c ((s.cpu c).scheduled l e) }) := by
  have hslot : Function.update s.view.slot c (s.cpu c).proc = s.view.slot :=
    Function.update_eq_self c s.view.slot
  have hmodes : Function.update s.view.mode c (s.cpu c).mode = s.view.mode :=
    Function.update_eq_self c s.view.mode
  rw [view_update]
  cases e with
  | acquire =>
      rcases locStep_acquire hstep with ⟨_, rfl⟩
      show Handover.Step c s.view
        { lock := some c, slot := Function.update _ c (s.cpu c).proc,
          mode := Function.update _ c (s.cpu c).mode, running := _ }
      rw [hslot, hmodes]
      exact Handover.Step.acquire hallows
  | release =>
      rcases locStep_release hstep with ⟨_, rfl⟩
      show Handover.Step c s.view
        { lock := none, slot := Function.update _ c (s.cpu c).proc,
          mode := Function.update _ c (s.cpu c).mode, running := _ }
      rw [hslot, hmodes]
      exact Handover.Step.release hallows (Or.inl hmode)
  | work =>
      rcases locStep_work hstep with ⟨_, hquiet⟩
      show Handover.Step c s.view
        { lock := s.lock, slot := Function.update _ c (s.cpu c).proc,
          mode := Function.update _ c (s.cpu c).mode, running := _ }
      rw [hslot, hmodes, running_of_quiet hquiet]
      exact Handover.Step.same
  | dispatch p =>
      rcases locStep_dispatch hstep with ⟨hlocked, hrunnable, hstates⟩
      have hcritical : s.inCritical c :=
        (inCritical_manager rfl hmode).mpr hlocked
      have hrunning : { q | states k' q = .RUNNING } =
          insert p s.view.running := by
        ext q
        show states k' q = _ ↔ q = p ∨ states s.kernel q = _
        rw [hstates]
        rcases eq_or_ne q p with rfl | hq
        · simp
        · simp [hq]
      rw [hrunning]
      apply Handover.Step.dispatch p (h.locked c hcritical) hmode
      show states s.kernel p ≠ _
      rw [hrunnable]
      decide
  | leave => exact absurd hstep not_locStep_leave
  | start np => exact absurd hstep not_locStep_start

theorem manager_inv {e : Event} {k' : Kernel} {l : Loc} (h : s.Inv)
    (hmode : (s.cpu c).mode = .manager) (hallows : s.allows c e)
    (hstep : LocStep s.kernel (s.cpu c).loc e k' l) :
    Smp.Inv
      { s with
        kernel := k'
        lock := s.lockAfter c e
        cpu := Function.update s.cpu c ((s.cpu c).scheduled l e) } := by
  have hhere : (s.cpu c).loc.locked = true -> s.lock = some c :=
    fun hlocked => h.locked c ((inCritical_manager rfl hmode).mpr hlocked)
  constructor
  · exact h.safe.step (manager_view h hmode hallows hstep)
  · intro c' hc'
    rcases eq_or_ne c' c with rfl | hne
    · cases e with
      | acquire => rfl
      | release =>
          have hlocked := (inCritical_manager
            (x := (s.cpu c').scheduled l .release)
            (Function.update_self c' _ _) hmode).mp hc'
          exact absurd hlocked (Bool.eq_false_iff.mp (locStep_release hstep).1)
      | work =>
          have hlocked := (inCritical_manager
            (x := (s.cpu c').scheduled l .work)
            (Function.update_self c' _ _) hmode).mp hc'
          exact hhere ((locStep_work hstep).1 hlocked)
      | dispatch p => exact hhere (locStep_dispatch hstep).1
      | leave => exact absurd hstep not_locStep_leave
      | start np => exact absurd hstep not_locStep_start
    · apply lockAfter_other hne hallows
      apply h.locked c'
      exact inCritical_other hc' (Function.update_of_ne hne _ s.cpu)
        (fun _ _ _ => rfl)
  · apply h.owned.mono (fun _ _ ho => ho)
    intro np hnp
    cases e with
    | acquire =>
        rcases locStep_acquire hstep with ⟨_, rfl⟩
        exact hnp
    | release =>
        rcases locStep_release hstep with ⟨_, rfl⟩
        exact hnp
    | work => exact (locStep_work hstep).2.embryo hnp
    | dispatch p =>
        rcases locStep_dispatch hstep with ⟨_, hrunnable, hstates⟩
        have hne : np ≠ p := by
          rintro rfl
          rw [hrunnable] at hnp
          cases hnp
        show states k' np = _
        rw [hstates, Function.update_of_ne hne]
        exact hnp
    | leave => exact absurd hstep not_locStep_leave
    | start np => exact absurd hstep not_locStep_start

theorem task_view {p : Pslot} {e : Event} {k' : Kernel} {th : Thread}
    (h : s.Inv) (hmode : (s.cpu c).mode = .task)
    (hproc : (s.cpu c).proc = some p) (hallows : s.allows c e)
    (hstep : ThreadStep p s.kernel (s.thread p) e k' th) :
    Handover.Step c s.view
      (Smp.view
        { kernel := k'
          lock := s.lockAfter c e
          cpu := Function.update s.cpu c ((s.cpu c).ran e)
          thread := s.threadsAfter p th e }) := by
  have hslot : Function.update s.view.slot c (s.cpu c).proc = s.view.slot :=
    Function.update_eq_self c s.view.slot
  have hmodes : Function.update s.view.mode c (s.cpu c).mode = s.view.mode :=
    Function.update_eq_self c s.view.mode
  have hsame : states k' = states s.kernel ->
      { q | states k' q = .RUNNING } = s.view.running := by
    intro heq
    rw [heq]
    rfl
  rw [view_update]
  cases e with
  | acquire =>
      rcases threadStep_acquire hstep with ⟨_, heq, _⟩
      show Handover.Step c s.view
        { lock := some c, slot := Function.update _ c (s.cpu c).proc,
          mode := Function.update _ c (s.cpu c).mode, running := _ }
      rw [hslot, hmodes, hsame heq]
      exact Handover.Step.acquire hallows
  | release =>
      rcases threadStep_release hstep with ⟨_, rfl, _⟩
      show Handover.Step c s.view
        { lock := none, slot := Function.update _ c (s.cpu c).proc,
          mode := Function.update _ c (s.cpu c).mode, running := _ }
      rw [hslot, hmodes]
      exact Handover.Step.release hallows (Or.inr hmode)
  | work =>
      rcases threadStep_work hstep with ⟨_, hworked⟩
      show Handover.Step c s.view
        { lock := s.lock, slot := Function.update _ c (s.cpu c).proc,
          mode := Function.update _ c (s.cpu c).mode, running := _ }
      rw [hslot, hmodes, worked_running h hworked]
      exact Handover.Step.same
  | dispatch q => exact absurd hstep not_threadStep_dispatch
  | leave =>
      rcases threadStep_leave hstep with ⟨hlocked, _, hself, hother⟩
      have hcritical : s.inCritical c :=
        (inCritical_task rfl hmode hproc).mpr hlocked
      have hrunning : { q | states k' q = .RUNNING } =
          s.view.running \ {p} := by
        ext q
        show states k' q = _ ↔ states s.kernel q = _ ∧ q ≠ p
        rcases eq_or_ne q p with rfl | hq
        · simp [hself]
        · rcases hother q hq with heq | ⟨hsleeping, hrunnable⟩
          · simp [heq, hq]
          · simp [hsleeping, hrunnable]
      show Handover.Step c s.view
        { lock := s.lock, slot := Function.update _ c (s.cpu c).proc,
          mode := Function.update _ c .leaving, running := _ }
      rw [hslot, hrunning]
      exact Handover.Step.leave p (h.locked c hcritical) hmode hproc
  | start np =>
      rcases threadStep_start hstep with ⟨_, heq, _, _⟩
      show Handover.Step c s.view
        { lock := s.lock, slot := Function.update _ c (s.cpu c).proc,
          mode := Function.update _ c (s.cpu c).mode, running := _ }
      rw [hslot, hmodes, hsame heq]
      exact Handover.Step.same

omit [DecidableEq ι] in
theorem task_owned {p : Pslot} {e : Event} {k' : Kernel} {th : Thread}
    (h : s.Inv) (hrunning : states s.kernel p = .RUNNING)
    (hstep : ThreadStep p s.kernel (s.thread p) e k' th) :
    Owned (states k') (fun q => (s.threadsAfter p th e q).spot.owns) := by
  -- all events but `work` leave the owner of each embryo as it is
  have hkept : th.spot.owns = (s.thread p).spot.owns ->
      (forall np, states s.kernel np = .EMBRYO -> states k' np = .EMBRYO) ->
        Owned (states k') (fun q => (s.threadsAfter p th e q).spot.owns) := by
    intro howns hstates
    apply h.owned.mono _ hstates
    intro q np hq
    rcases owns_after hq with ⟨rfl, hth⟩ | ⟨_, hth⟩
    · exact howns.symm.trans hth
    · exact hth
  cases e with
  | acquire =>
      rcases threadStep_acquire hstep with ⟨_, heq, howns⟩
      exact hkept howns (fun np hnp => by rw [heq]; exact hnp)
  | release =>
      rcases threadStep_release hstep with ⟨_, rfl, hspot⟩
      exact hkept (congrArg Spot.owns hspot) (fun np hnp => hnp)
  | work =>
      rcases threadStep_work hstep with ⟨_, hworked⟩
      apply (h.owned.worked hworked).mono _ (fun np hnp => hnp)
      intro q np hq
      rcases owns_after hq with ⟨rfl, hth⟩ | ⟨hne, hth⟩
      · rw [Function.update_self]
        exact hth
      · rw [Function.update_of_ne hne]
        exact hth
  | dispatch q => exact absurd hstep not_threadStep_dispatch
  | leave =>
      rcases threadStep_leave hstep with ⟨_, hspot, _, hother⟩
      apply hkept (congrArg Spot.owns hspot)
      intro np hnp
      have hne : np ≠ p := by
        rintro rfl
        rw [hrunning] at hnp
        cases hnp
      rcases hother np hne with heq | ⟨hsleeping, _⟩
      · exact heq.trans hnp
      · rw [hnp] at hsleeping
        cases hsleeping
  | start np =>
      rcases threadStep_start hstep with ⟨_, heq, hold, hnew⟩
      exact hkept (hnew.trans hold.symm) (fun np hnp => by rw [heq]; exact hnp)

theorem task_inv {p : Pslot} {e : Event} {k' : Kernel} {th : Thread}
    (h : s.Inv) (hmode : (s.cpu c).mode = .task)
    (hproc : (s.cpu c).proc = some p) (hallows : s.allows c e)
    (hstep : ThreadStep p s.kernel (s.thread p) e k' th) :
    Smp.Inv
      { kernel := k'
        lock := s.lockAfter c e
        cpu := Function.update s.cpu c ((s.cpu c).ran e)
        thread := s.threadsAfter p th e } := by
  have hrunning : states s.kernel p = .RUNNING := by
    rcases h.safe.runs c hmode with ⟨q, hq, hrun⟩
    cases hproc.symm.trans hq
    exact hrun
  have hhere : (s.thread p).locked = true -> s.lock = some c :=
    fun hlocked => h.locked c ((inCritical_task rfl hmode hproc).mpr hlocked)
  constructor
  · exact h.safe.step (task_view h hmode hproc hallows hstep)
  · intro c' hc'
    rcases eq_or_ne c' c with rfl | hne
    · have hlocked : e ≠ .leave -> th.locked = true := by
        intro he
        have hran : (s.cpu c').ran e = s.cpu c' := by
          cases e with
          | leave => exact absurd rfl he
          | _ => rfl
        have hself := (inCritical_task (x := s.cpu c')
          ((Function.update_self c' _ _).trans hran) hmode hproc).mp hc'
        rw [show Smp.thread _ p = th from threadsAfter_self s p th e] at hself
        exact hself
      cases e with
      | acquire => rfl
      | release =>
          exact absurd (hlocked Event.noConfusion)
            (Bool.eq_false_iff.mp (threadStep_release hstep).1)
      | work =>
          exact hhere ((threadStep_work hstep).1 (hlocked Event.noConfusion))
      | dispatch q => exact absurd hstep not_threadStep_dispatch
      | leave => exact hhere (threadStep_leave hstep).1
      | start np =>
          exact absurd (hlocked Event.noConfusion)
            (Bool.eq_false_iff.mp (threadStep_start hstep).1)
    · apply lockAfter_other hne hallows
      apply h.locked c'
      apply inCritical_other hc' (Function.update_of_ne hne _ s.cpu)
      intro q hmode' hq
      -- the process of another CPU is neither `p` nor an embryo
      have hqp : q ≠ p := by
        rintro rfl
        exact hne (h.safe.once c' c q hq hproc)
      rcases threadsAfter_other hqp th e with heq | ⟨rfl, _⟩
      · exact heq
      · rcases h.safe.runs c' hmode' with ⟨r, hr, hrun⟩
        cases hq.symm.trans hr
        have hembryo := h.owned.embryo p q (threadStep_start hstep).2.2.1
        rw [show states s.kernel q = .RUNNING from hrun] at hembryo
        cases hembryo
  · exact task_owned h hrunning hstep

theorem switch_inv (h : s.Inv) (hmode : (s.cpu c).mode = .leaving) :
    Smp.Inv
      { s with
        cpu := Function.update s.cpu c { s.cpu c with mode := .returned } } := by
  constructor
  · apply h.safe.step (c := c)
    rw [view_update]
    have hslot : Function.update s.view.slot c (s.cpu c).proc = s.view.slot :=
      Function.update_eq_self c s.view.slot
    rw [hslot]
    exact Handover.Step.switch hmode
  · intro c' hc'
    rcases eq_or_ne c' c with rfl | hne
    · exact h.safe.holds c' (Or.inl hmode)
    · apply h.locked c'
      exact inCritical_other hc' (Function.update_of_ne hne _ s.cpu)
        (fun _ _ _ => rfl)
  · exact h.owned

theorem clear_inv (h : s.Inv) (hmode : (s.cpu c).mode = .returned) :
    Smp.Inv
      { s with
        cpu := Function.update s.cpu c
          { s.cpu c with proc := none, mode := .manager } } := by
  constructor
  · apply h.safe.step (c := c)
    rw [view_update]
    exact Handover.Step.clear hmode
  · intro c' hc'
    rcases eq_or_ne c' c with rfl | hne
    · exact h.safe.holds c' (Or.inr hmode)
    · apply h.locked c'
      exact inCritical_other hc' (Function.update_of_ne hne _ s.cpu)
        (fun _ _ _ => rfl)
  · exact h.owned

theorem smpStep_inv (h : s.Inv) (hstep : SmpStep s c s') : s'.Inv := by
  cases hstep with
  | manager hmode hallows hloc => exact manager_inv h hmode hallows hloc
  | task hmode hproc hallows hth => exact task_inv h hmode hproc hallows hth
  | switch hmode => exact switch_inv h hmode
  | clear hmode => exact clear_inv h hmode

omit [DecidableEq ι] in
theorem reaped_off_cpu (h : s.Inv) {p q : Pslot} {spot : Spot}
    (hmode : (s.cpu c).mode = .task) (hproc : (s.cpu c).proc = some p)
    (hwait : s.thread p = .holds .wait spot) (hq : states s.kernel q = .ZOMBIE)
    (c' : ι) : (s.cpu c').proc ≠ some q := by
  intro hslot
  have hlocked : s.lock = some c := by
    apply h.locked c
    rw [inCritical_task rfl hmode hproc, hwait]
    rfl
  rcases h.safe.slot_cases hslot with hrun | ⟨hheld, hother⟩
  · rw [show states s.kernel q = .RUNNING from hrun] at hq
    cases hq
  · cases hlocked.symm.trans hheld
    exact hother hmode

/-- In every state that the machine reaches, with any number of CPUs, no two
CPUs have the same process.  While the lock is free a process is `RUNNING`
exactly if one CPU has it, and no CPU has any other process.  A process that
`wait` is about to reap is not the process of any CPU. -/
theorem dispatch_exclusive {s₀ : Smp ι} (hstart : s₀.Start)
    (hruns : Runs (fun s c s' => SmpStep s c s') (fun _ _ => True) s₀ s) :
    (forall p c c', (s.cpu c).proc = some p -> (s.cpu c').proc = some p ->
      c = c') ∧
      (s.lock = none -> forall p,
        ((s.kernel.proc p).state = .RUNNING ↔ exists c,
          (s.cpu c).proc = some p ∧
            forall c', (s.cpu c').proc = some p -> c' = c) ∧
          ((s.kernel.proc p).state ≠ .RUNNING ->
            forall c, (s.cpu c).proc ≠ some p)) ∧
        forall c p q spot, (s.cpu c).mode = .task ->
          (s.cpu c).proc = some p -> s.thread p = .holds .wait spot ->
            Finds p s.kernel.procs q -> forall c', (s.cpu c').proc ≠ some q := by
  have hinv : s.Inv := hruns.invariant (start_inv hstart)
    (fun _ _ _ h _ hstep => smpStep_inv h hstep)
  refine ⟨?_, ?_, ?_⟩
  · exact fun p c c' => hinv.safe.once c c' p
  · exact fun hlock p => hinv.safe.free hlock p
  · intro c p q spot hmode hproc hwait hfinds
    exact reaped_off_cpu hinv hmode hproc hwait hfinds.state

end Exclusion

/-- Two CPUs that enter `scheduler` once `init` has been made. -/
def Smp.boot : Smp (Fin 2) where
  kernel := Sched.boot.kernel
  lock := none
  cpu := fun _ => { proc := none, mode := .manager, loc := .rr }
  thread := fun _ => .switched .forkret .user

theorem boot_start : Smp.boot.Start := by
  constructor
  · rfl
  · exact fun c => ⟨rfl, rfl, Or.inl rfl⟩
  · intro p
    rcases eq_or_ne p 0 with rfl | hp
    · decide
    · have hother : Sched.boot.kernel.proc p = zeroProc :=
        (Function.update_of_ne hp _ _).trans (if_neg hp)
      show (Sched.boot.kernel.proc p).state ≠ _
      rw [hother]
      decide
  · exact fun _ => rfl

def after {α : Type} (m : KM α) (k : Kernel) : Kernel :=
  match m k with
  | .ok (_, k') => k'
  | .error _ => k

/-- The second CPU has run `init` from the start, and nothing else has run. -/
structure RunsInit (C : Smp (Fin 2) -> Fin 2 -> Prop) (s₀ s : Smp (Fin 2))
    (k : Kernel) (th : Thread) (l : Option (Fin 2)) : Prop where
  runs : Runs (fun s c s' => SmpStep s c s') C s₀ s
  kernel : s.kernel = k
  thread : s.thread 0 = th
  lock : s.lock = l
  mode : (s.cpu 1).mode = .task
  proc : (s.cpu 1).proc = some 0

section InitRuns

variable {C : Smp (Fin 2) -> Fin 2 -> Prop}

theorem RunsInit.step {s₀ s : Smp (Fin 2)} {k k' : Kernel} {th th' : Thread}
    {l l' : Option (Fin 2)} {e : Event} (h : RunsInit C s₀ s k th l)
    (hC : C s 1) (he : e ≠ .leave) (hallows : s.allows 1 e)
    (hl : s.lockAfter 1 e = l') (hstep : ThreadStep 0 k th e k' th') :
    exists s', RunsInit C s₀ s' k' th' l' := by
  have hcpu : (s.cpu 1).ran e = s.cpu 1 := by
    cases e with
    | leave => exact absurd rfl he
    | _ => rfl
  rw [← h.kernel, ← h.thread] at hstep
  refine ⟨_, h.runs.tail 1 hC
    (SmpStep.task h.mode h.proc hallows hstep), rfl, ?_, hl, ?_, ?_⟩
  · exact threadsAfter_self s 0 th' e
  · show (Function.update s.cpu 1 _ 1).mode = _
    rw [Function.update_self, hcpu]
    exact h.mode
  · show (Function.update s.cpu 1 _ 1).proc = _
    rw [Function.update_self, hcpu]
    exact h.proc

theorem RunsInit.counts {s₀ s : Smp (Fin 2)} {k : Kernel} {th : Thread}
    {l : Option (Fin 2)} (h : RunsInit C s₀ s k th l)
    (hk : 0 < k.nextpid.toInt) : 0 < s.kernel.nextpid.toInt := by
  rw [h.kernel]
  exact hk

theorem dispatched_runs {k : Kernel}
    (hC : forall s : Smp (Fin 2), 0 < s.kernel.nextpid.toInt -> C s 1)
    (hk : (k.proc 0).state = .RUNNABLE) (hpid : 0 < k.nextpid.toInt) :
    exists s, RunsInit C { Smp.boot with kernel := k } s
      (after (dispatch 0) k) (.free .user) none := by
  have htaken : exists s ps,
      SmpStep { Smp.boot with kernel := k } 1 s ∧
      s.kernel = k ∧ s.thread = Smp.boot.thread ∧
        s.lock = some 1 ∧ s.cpu 1 =
          { proc := none, mode := .manager, loc := .rrLoop (0 :: ps) } :=
    ⟨_, (List.finRange NPROC).tail,
      SmpStep.manager (e := .acquire) rfl rfl LocStep.rrAcquire,
      rfl, rfl, rfl, rfl⟩
  rcases htaken with ⟨s₁, ps, htaken, hkernel₁, hthread₁, hlock₁, hcpu₁⟩
  have hstarted : exists s, RunsInit C { Smp.boot with kernel := k } s
      (after (dispatch 0) k) (.switched .forkret .user) (some 1) := by
    have hloc : LocStep s₁.kernel (s₁.cpu 1).loc (.dispatch 0)
        (after (dispatch 0) k) (.rrLoop ps) := by
      rw [hkernel₁, hcpu₁]
      exact LocStep.rrDispatch hk rfl
    have hmode : (s₁.cpu 1).mode = .manager := by rw [hcpu₁]
    have hpid₁ : 0 < s₁.kernel.nextpid.toInt := by
      rw [hkernel₁]
      exact hpid
    exact ⟨_, (Runs.refl.tail 1 (hC _ hpid) htaken).tail 1 (hC _ hpid₁)
      (SmpStep.manager (e := .dispatch 0) hmode trivial hloc), rfl,
      congrFun hthread₁ 0, hlock₁, rfl, rfl⟩
  rcases hstarted with ⟨s₂, hstarted⟩
  exact hstarted.step (e := .release) (hC _ (hstarted.counts hpid))
    Event.noConfusion hstarted.lock rfl
    ThreadStep.backForkret

end InitRuns

theorem dispatch_exclusive_init : exists s : Smp (Fin 2),
    Runs (fun s c s' => SmpStep s c s') (fun _ _ => True) Smp.boot s ∧
      s.lock = none ∧ (s.kernel.proc 0).state = .RUNNING ∧
        exists c, (s.cpu c).proc = some 0 ∧
          forall c', (s.cpu c').proc = some 0 -> c' = c := by
  rcases dispatched_runs (C := fun _ _ => True) (k := Sched.boot.kernel)
    (fun _ _ => trivial) rfl (by decide +kernel) with ⟨s, h⟩
  have hrunning : (s.kernel.proc 0).state = .RUNNING := by
    rw [h.kernel]
    rfl
  have hall := (dispatch_exclusive boot_start h.runs).2.1 h.lock 0
  exact ⟨s, h.runs, h.lock, hrunning, hall.1.mp hrunning⟩

end Kernel
end Xv6
