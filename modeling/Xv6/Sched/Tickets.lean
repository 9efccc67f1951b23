import Xv6.Proc.Spawn

/-!
# Tickets

The fields of a process that share out the CPU: its tickets, its stride and its
pass.  Calls write them in three places only.  `sys_tickets` sets the caller's
tickets, `allocproc` clears the pass of the slot it takes, and the loop at the
end of `fork` goes over the whole table: it sets the passes of the processes
that are runnable or running back, and the tickets of all others.
-/

namespace Xv6

/-- The fields that share out the CPU. -/
structure Share where
  tickets : Int
  stride : Int
  pass : Int

def Proc.share (pr : Proc) : Share where
  tickets := pr.tickets
  stride := pr.stride
  pass := pr.pass

namespace Kernel

open Lib Lib.Run

/-- The fields of the slot `q`, which holds `pr`, after a step. -/
inductive Shares (q : Pslot) (pr : Proc) : Act -> Share -> Prop where
  | same (a : Act) : Shares q pr a pr.share
  | taken (a : Act) (h : pr.state = .UNUSED) :
      Shares q pr a { pr.share with pass := 0 }
  | child (cur : Pslot) (h : pr.state = .UNUSED) :
      Shares q pr (.fork cur)
        (resetTickets { pr with pass := 0, state := .RUNNABLE }).share
  | reset (cur : Pslot) : Shares q pr (.fork cur) (resetTickets pr).share
  | tickets (n : Int32) :
      Shares q pr (.tickets q (some n)) { pr.share with tickets := n.toInt }

theorem resetTickets_share {pr pr' : Proc} (hshare : pr.share = pr'.share)
    (hstate : pr.state = pr'.state) :
    (resetTickets pr).share = (resetTickets pr').share := by
  injection hshare with htickets hstride hpass
  unfold resetTickets
  rw [hstate, htickets]
  split
  · split
    · simp [Proc.share]
    · simp [Proc.share, htickets, hstride, hpass]
  · simp [Proc.share, hpass]

theorem wake_share (chan : Option Chan) (pr : Proc) :
    (wake chan pr).share = pr.share := by
  rw [wake_eq]
  rfl

theorem exited_share (t : Procs) (q : Pslot) (woken : Bool) :
    ((t.exited q woken).proc q).share = (t.proc q).share := by
  rw [Procs.exited_self]
  rfl

theorem becomes_shares {t : Procs} {q : Pslot} {a : Act} {pr : Proc}
    (h : Becomes t q a pr) : Shares q (t.proc q) a pr.share := by
  have hsame : pr.share = (t.proc q).share -> Shares q (t.proc q) a pr.share := by
    intro heq
    rw [heq]
    exact Shares.same a
  have htaken : (t.proc q).state = .UNUSED ->
      pr.share = { (t.proc q).share with pass := 0 } ->
        Shares q (t.proc q) a pr.share := by
    intro hunused heq
    rw [heq]
    exact Shares.taken a hunused
  cases h with
  | same => exact Shares.same a
  | noStack _ hunused => exact hsame (by simp [Procs.noStack, Proc.share])
  | noCopy _ kstack hunused =>
      exact htaken hunused (by simp [Procs.noCopy, Procs.embryo, Proc.share])
  | child cur kstack pgdir hunused =>
      have heq : ((t.forked cur q kstack pgdir).proc q).share =
          (resetTickets
            { t.proc q with pass := 0, state := .RUNNABLE }).share := by
        rw [Procs.forked_self, Procs.embryo_self]
        exact resetTickets_share rfl rfl
      rw [heq]
      exact Shares.child cur hunused
  | reset cur => exact Shares.reset cur
  | thread cur kstack stack hunused =>
      exact htaken hunused (by
        simp [Procs.cloned, cloneThread, Procs.embryo, Procs.counted,
          Proc.share])
  | exitClosed woken _ =>
      apply hsame
      rw [exited_share]
      simp [Procs.closed, Proc.share]
  | exitLeft woken _ => exact hsame (exited_share t q woken)
  | passed cur woken | woken chan => exact hsame (wake_share _ (t.proc q))
  | reapedThread cur _ _ =>
      exact hsame (by simp [Procs.reapedThread, Proc.share])
  | reaped cur _ _ => exact hsame (by simp [Procs.reaped, Proc.share])
  | killed cur pid _ _ | yield | sleep chan | dispatched => exact hsame rfl
  | tickets n => exact Shares.tickets n
  | own _ _ hown =>
      apply hsame
      rw [hown.eq]
      rfl

theorem step_shares {k k' : Kernel} {a : Act} (h : Step k a k') (q : Pslot) :
    Shares q (k.proc q) a (k'.proc q).share :=
  becomes_shares (step_becomes h q)

/-- The state of the process in the slot `q` after a step, `st` being the one
before. -/
inductive StateStep (q : Pslot) (st : Procstate) : Act -> Procstate -> Prop where
  | same (a : Act) : StateStep q st a st
  | woken (a : Act) (h : st = .SLEEPING) : StateStep q st a .RUNNABLE
  | exit : StateStep q st (.exit q) .ZOMBIE
  | yield : StateStep q st (.yield q) .RUNNABLE
  | sleep (chan : Chan) : StateStep q st (.sleep q chan) .SLEEPING
  | dispatch : StateStep q st (.dispatch q) .RUNNING

theorem becomes_stateStep {t : Procs} {q : Pslot} {a : Act} {pr : Proc}
    (h : Becomes t q a pr) (hlive : ¬ Idle (t.proc q).state) :
    StateStep q (t.proc q).state a pr.state := by
  have hwoken : (pr.state = (t.proc q).state ∨
      (t.proc q).state = .SLEEPING ∧ pr.state = .RUNNABLE) ->
        StateStep q (t.proc q).state a pr.state := by
    rintro (hsame | ⟨hsleeping, hrunnable⟩)
    · rw [hsame]
      exact StateStep.same a
    · rw [hrunnable]
      exact StateStep.woken a hsleeping
  cases h with
  | same => exact StateStep.same a
  | noStack _ hunused | noCopy _ kstack hunused
  | child cur kstack pgdir hunused | thread cur kstack stack hunused =>
      exact absurd (Or.inl hunused) hlive
  | reset cur => exact hwoken (Or.inl (resetTickets_state _))
  | exitClosed woken _ | exitLeft woken _ =>
      unfold Procs.exited
      rw [Procs.set_self]
      exact StateStep.exit
  | passed cur woken => exact hwoken (passSlot_wake_state _ _ _ _ _)
  | reapedThread cur hfinds _ | reaped cur hfinds _ =>
      exact absurd (Or.inr hfinds.state) hlive
  | killed cur pid _ _ => exact hwoken (killSlot_state _)
  | tickets n => exact StateStep.same _
  | own _ _ hown =>
      apply hwoken
      left
      rw [hown.eq]
  | yield => exact StateStep.yield
  | sleep chan => exact StateStep.sleep chan
  | woken chan => exact hwoken (wake_state _ _)
  | dispatched => exact StateStep.dispatch

theorem step_stateStep {k k' : Kernel} {a : Act} {q : Pslot} (h : Step k a k')
    (hlive : ¬ Idle (k.proc q).state) :
    StateStep q (k.proc q).state a (k'.proc q).state :=
  becomes_stateStep (step_becomes h q) hlive

theorem StateStep.live {q : Pslot} {a : Act} {st st' : Procstate}
    (h : StateStep q st a st') (hlive : ¬ Idle st) (ha : a ≠ .exit q) :
    ¬ Idle st' := by
  cases h with
  | same => exact hlive
  | woken | yield | sleep chan | dispatch => decide
  | exit => exact absurd rfl ha

/-!
## Tickets that persist
-/

def Spared (pr : Proc) : Prop :=
  pr.state = .RUNNABLE ∨ pr.state = .RUNNING ∨ pr.tickets = DEFAULT_TICKETS

theorem resetTickets_tickets (pr : Proc) :
    (resetTickets pr).tickets = pr.tickets ↔ Spared pr := by
  unfold resetTickets Spared
  rcases Decidable.em (pr.state = .RUNNABLE ∨ pr.state = .RUNNING) with
    hrun | hrun
  · rw [if_pos hrun]
    constructor
    · intro _
      rcases hrun with h | h
      · exact Or.inl h
      · exact Or.inr (Or.inl h)
    · intro _
      split
      · rfl
      · rfl
  · rw [if_neg hrun]
    constructor
    · exact fun h => Or.inr (Or.inr h.symm)
    · rintro (h | h | h)
      · exact absurd (Or.inl h) hrun
      · exact absurd (Or.inr h) hrun
      · exact h.symm

/-- A step that is no call of `sys_tickets` and no exit of `q` itself, and, if
it creates a process, leaves the tickets of `q` alone. -/
def SparesTickets (q : Pslot) (k : Kernel) (a : Act) : Prop :=
  a ≠ .exit q ∧ (forall n, a ≠ .tickets q n) ∧
    forall cur, a = .fork cur ->
      (forall k', Step k a k' -> ¬ Spawned k k') ∨ Spared (k.proc q)

theorem fork_failed {cur : Pslot} {k k' : Kernel} {r : Int}
    (hcur : (k.proc cur).state ≠ .UNUSED)
    (h : fork cur k = .ok (r, k')) (hnone : ¬ Spawned k k') (q : Pslot)
    (hlive : (k.proc q).state ≠ .UNUSED) : k'.proc q = k.proc q := by
  have heffect := (sees_fork hcur).ok h
  show k'.procs.proc q = k.procs.proc q
  have hne : forall p, (k.procs.proc p).state = .UNUSED -> q ≠ p := by
    rintro p hp rfl
    exact hlive hp
  generalize hprocs : k'.procs = t' at heffect
  cases heffect with
  | noSlot halloc =>
      cases halloc with
      | full => rfl
      | noStack p hp => exact Procs.noStack_of_ne _ (hne p hp)
  | noCopy p kstack hp => exact Procs.noCopy_of_ne _ (hne p hp) kstack
  | done p kstack pgdir hp _ =>
      refine absurd ⟨p, hp, ?_⟩ hnone
      show (k'.procs.proc p).state = .RUNNABLE
      rw [hprocs, Procs.forked_self, resetTickets_state]
      rfl

theorem tickets_step {k k' : Kernel} {a : Act} {q : Pslot}
    (hlive : ¬ Idle (k.proc q).state) (hC : SparesTickets q k a)
    (hstep : Step k a k') : (k'.proc q).tickets = (k.proc q).tickets := by
  have hused : (k.proc q).state ≠ .UNUSED := fun h => hlive (Or.inl h)
  show (k'.proc q).share.tickets = (k.proc q).share.tickets
  generalize hshare : (k'.proc q).share = s
  have hshares := step_shares hstep q
  rw [hshare] at hshares
  cases hshares with
  | same => rfl
  | taken _ hunused | child cur hunused => exact absurd hunused hused
  | reset cur =>
      rcases hC.2.2 cur rfl with hfailed | hspared
      · have hnone := hfailed k' hstep
        rcases hstep with ⟨henabled, r, hrun⟩
        have hcur : (k.proc cur).state ≠ .UNUSED := by
          rw [henabled.1 cur rfl]
          decide
        rw [← hshare, fork_failed hcur hrun hnone q hused]
      · exact (resetTickets_tickets (k.proc q)).mpr hspared
  | tickets n => exact absurd rfl (hC.2.1 (some n))

/-- The tickets that a process allocates to itself persist along every run in
which it neither allocates again nor exits, provided that it is runnable or
running, or has the default number of tickets, whenever a process is created. -/
theorem tickets_persist {k₀ k k' : Kernel} {q : Pslot} {n : Int32}
    (hset : Step k₀ (.tickets q (some n)) k)
    (hruns : Runs Step (SparesTickets q) k k') :
    (k'.proc q).tickets = n.toInt := by
  have hstart : ¬ Idle (k.proc q).state ∧ (k.proc q).tickets = n.toInt := by
    rcases hset with ⟨henabled, r, hrun⟩
    cases hrun
    have hrunning := henabled.1 q rfl
    constructor
    · show ¬ Idle (Function.update k₀.proc q _ q).state
      rw [Function.update_self]
      show ¬ Idle (k₀.proc q).state
      rw [hrunning]
      decide
    · exact congrArg Proc.tickets (Function.update_self q _ k₀.proc)
  refine (hruns.invariant
    (I := fun k => ¬ Idle (k.proc q).state ∧ (k.proc q).tickets = n.toInt)
    hstart ?_).2
  rintro k a k' ⟨hlive, htickets⟩ hC hstep
  constructor
  · exact (step_stateStep hstep hlive).live hlive hC.1
  · rw [tickets_step hlive hC hstep]
    exact htickets

theorem tickets_persist_fork :
    exists k k' : Kernel, Step boot (.tickets 0 (some 5)) k ∧
      Runs Step (SparesTickets 0) k k' ∧ k'.nextpid = 3 ∧
        (k'.proc 0).tickets = 5 := by
  have hset : Step boot (.tickets 0 (some 5))
      (next (.tickets 0 (some 5)) boot) :=
    step_next (enabled_call rfl rfl) rfl
  have hcan : CanFork 5000 0 (next (.tickets 0 (some 5)) boot) := by
    refine canFork_init (i := 0) (by decide) ⟨1, by decide⟩ rfl rfl ?_
      (by decide) rfl (by decide)
    intro fd f h
    cases h
  rcases fork_returns hcan with ⟨k', hfork, _, p, kstack, pgdir, _, _, hprocs⟩
  have hruns : Runs Step (SparesTickets 0) (next (.tickets 0 (some 5)) boot)
      k' := by
    refine Runs.tail (.fork 0) Runs.refl ⟨?_, ?_, ?_⟩
      ⟨enabled_call rfl rfl, _, hfork⟩
    · intro h
      cases h
    · intro n h
      cases h
    · exact fun _ _ => Or.inr (Or.inr (Or.inl rfl))
  exact ⟨_, k', hset, hruns, congrArg Procs.nextpid hprocs,
    tickets_persist hset hruns⟩

/-- A child of `init` allocates five tickets and goes to sleep.  When `init`
forks again the child is left with one. -/
theorem fork_resets_tickets_of_sleeper :
    exists k₀ k k' : Kernel, Runs Step (fun _ _ => True) boot k₀ ∧
      Step k₀ (.tickets 1 (some 5)) k ∧
        Runs Step (fun _ a => a ≠ .exit 1 ∧ forall n, a ≠ .tickets 1 n) k k' ∧
          (k'.proc 1).tickets = 1 := by
  rcases child_runs (C := fun _ _ => True) Runs.refl trivial
    (fun _ => trivial) boot_canFork rfl (p := 1) (by decide)
    (by decide) with ⟨k₀, kstack, pgdir, ⟨d, hd, hroom⟩, hruns, hprocs⟩
  have hproc : forall q, k₀.proc q = _ :=
    fun q => congrArg (fun t => Procs.proc t q) hprocs
  have hcur : (k₀.proc 1).state = .RUNNING := congrArg Proc.state (hproc 1)
  have hinit : k₀.proc 0 = initProc := hproc 0
  have hset : Step k₀ (.tickets 1 (some 5)) (next (.tickets 1 (some 5)) k₀) :=
    step_next (enabled_call rfl hcur) rfl
  generalize hk : next (.tickets 1 (some 5)) k₀ = k at hset
  generalize hs : next (.sleep 1 (.addr 0)) k = s
  have hsleep : Step k (.sleep 1 (.addr 0)) s := by
    subst hs hk
    exact step_next (enabled_call rfl hcur) rfl
  have hzero : s.proc 0 = initProc := by
    subst hs hk
    exact hinit
  have hsleeper : (s.proc 1).state = .SLEEPING := by
    subst hs hk
    rfl
  have hcan : CanFork 3972 0 s := by
    refine canFork_room ?_ ⟨2, ?_⟩ ?_ ?_ ?_ ?_ ?_
    · rw [hzero]
      decide
    · subst hs hk
      exact congrArg Proc.state (hproc 2)
    · rw [hzero]
      rfl
    · rw [hzero]
      rfl
    · rw [hzero]
      intro fd f hf
      cases hf
    · rw [hzero]
      decide
    · cases hd
      rw [← hs, ← hk]
      exact hroom
  rcases fork_returns hcan with
    ⟨k', hfork, _, p, kstack', pgdir', hp, _, hprocs'⟩
  have hne : (1 : Pslot) ≠ p := by
    rintro rfl
    rw [hsleeper] at hp
    cases hp
  refine ⟨k₀, k, k', hruns, hset, ?_, ?_⟩
  · refine Runs.tail (.fork 0) (Runs.tail (.sleep 1 (.addr 0)) Runs.refl
      ?_ hsleep) ?_ ⟨enabled_call rfl (by rw [hzero]; rfl), _, hfork⟩
    · exact ⟨Act.noConfusion, fun _ => Act.noConfusion⟩
    · exact ⟨Act.noConfusion, fun _ => Act.noConfusion⟩
  · have hslot : k'.proc 1 = resetTickets (s.proc 1) :=
      (congrArg (fun t => Procs.proc t 1) hprocs').trans
        (Procs.forked_of_ne _ _ hne _ _)
    rw [hslot, resetTickets, hsleeper]
    rfl

end Kernel
end Xv6
