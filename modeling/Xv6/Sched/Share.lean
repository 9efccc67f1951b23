import Xv6.Lib.Greedy
import Xv6.Sched.Stride

/-!
# Proportional share

Processes that stay runnable between `fork` and `fork`, on one CPU.  The
scheduler always lets a process with the least pass run, so the passes stay
within one stride of each other, and the pass of a process is its stride times
one more than the number of times it was dispatched.
-/

namespace Xv6
namespace Kernel

open Lib Lib.Run

/-- The system, with the number of times that each process was dispatched. -/
structure Tally where
  sched : Sched
  count : Pslot -> Nat

def Tally.counted (s : Tally) : SchedAct -> Pslot -> Nat
  | .call _ => s.count
  | .stride =>
      match dispatched s.sched.min s.sched.kernel.proc with
      | none => s.count
      | some p => Function.update s.count p (s.count p + 1)

def TallyStep (s : Tally) (a : SchedAct) (s' : Tally) : Prop :=
  SchedStep s.sched a s'.sched ∧ s'.count = s.counted a

/-- One CPU runs `stride_scheduler` while some pass is below `max`.  There are
no forks, and the processes in `S` neither sleep nor exit nor change their
tickets. -/
def Sharing (S : Set Pslot) (s : Tally) : SchedAct -> Prop
  | .stride =>
      (forall q, (s.sched.kernel.proc q).state ≠ .RUNNING) ∧
        exists q, (s.sched.kernel.proc q).state = .RUNNABLE ∧
          (s.sched.kernel.proc q).pass < maxPass
  | .call a =>
      (forall cur, a ≠ .fork cur) ∧
        forall i, i ∈ S -> a ≠ .exit i ∧ (forall chan, a ≠ .sleep i chan) ∧
          forall n, a ≠ .tickets i n

def Ready (st : Procstate) : Prop := st = .RUNNABLE ∨ st = .RUNNING

structure Fresh (pr : Proc) : Prop where
  ready : Ready pr.state
  pos : 1 ≤ pr.tickets
  le : pr.tickets ≤ TOTAL_MAX_TICKETS
  stride : pr.stride = TOTAL_MAX_TICKETS.tdiv pr.tickets
  pass : pr.pass = pr.stride

/-- The process has been dispatched `n` times since it had the record `pr₀`. -/
structure Ran (pr₀ : Proc) (n : Nat) (pr : Proc) : Prop where
  ready : Ready pr.state
  tickets : pr.tickets = pr₀.tickets
  stride : pr.stride = pr₀.stride
  pass : pr.pass = (n + 1) * pr₀.stride

theorem Fresh.stride_nonneg {pr : Proc} (h : Fresh pr) : 0 ≤ pr.stride := by
  rw [h.stride]
  apply Int.tdiv_nonneg (by decide)
  have hpos := h.pos
  lia

theorem Fresh.ran {pr : Proc} (h : Fresh pr) : Ran pr 0 pr := by
  refine ⟨h.ready, rfl, rfl, ?_⟩
  rw [h.pass]
  lia

theorem Ran.rescale {pr₀ pr : Proc} {n : Nat} (h : Ran pr₀ n pr)
    (h₀ : Fresh pr₀) : rescale pr = pr := by
  have hstride : pr.stride = TOTAL_MAX_TICKETS.tdiv pr.tickets := by
    rw [h.stride, h.tickets]
    exact h₀.stride
  unfold Kernel.rescale
  rw [← hstride, ite_self]

theorem Ran.run {pr₀ pr : Proc} {n : Nat} (h : Ran pr₀ n pr) :
    Ran pr₀ (n + 1) (strideRun pr) := by
  refine ⟨Or.inr rfl, h.tickets, h.stride, ?_⟩
  show pr.pass + pr.stride = _
  rw [h.pass, h.stride]
  push_cast
  ring

theorem ready_step {k k' : Kernel} {a : Act} {q : Pslot} (h : Step k a k')
    (hready : Ready (k.proc q).state) (hexit : a ≠ .exit q)
    (hsleep : forall chan, a ≠ .sleep q chan) : Ready (k'.proc q).state := by
  have hlive : ¬ Idle (k.proc q).state := by
    rcases hready with h | h
    · rw [h]
      decide
    · rw [h]
      decide
  have hstate := step_stateStep h hlive
  generalize (k'.proc q).state = st' at hstate
  cases hstate with
  | same => exact hready
  | woken | yield => exact Or.inl rfl
  | exit => exact absurd rfl hexit
  | sleep chan => exact absurd rfl (hsleep chan)
  | dispatch => exact Or.inr rfl

theorem Ran.call {k k' : Kernel} {a : Act} {q : Pslot} {pr₀ : Proc} {n : Nat}
    (h : Ran pr₀ n (k.proc q)) (hstep : Step k a k')
    (hfork : forall cur, a ≠ .fork cur) (hexit : a ≠ .exit q)
    (hsleep : forall chan, a ≠ .sleep q chan)
    (htickets : forall n, a ≠ .tickets q n) : Ran pr₀ n (k'.proc q) := by
  have hused : (k.proc q).state ≠ .UNUSED := by
    rcases h.ready with h | h
    · rw [h]
      decide
    · rw [h]
      decide
  have hshare : (k'.proc q).share = (k.proc q).share := by
    have hshares := step_shares hstep q
    generalize (k'.proc q).share = s at hshares
    cases hshares with
    | same => rfl
    | taken _ hunused => exact absurd hunused hused
    | child cur _ | reset cur => exact absurd rfl (hfork cur)
    | tickets n => exact absurd rfl (htickets (some n))
  injection hshare with htickets hstride hpass
  constructor
  · exact ready_step hstep h.ready hexit hsleep
  · exact htickets.trans h.tickets
  · exact hstride.trans h.stride
  · exact hpass.trans h.pass

structure Shared (S : Set Pslot) (s₀ s : Tally) : Prop where
  ran : forall i, i ∈ S ->
    Ran (s₀.sched.kernel.proc i) (s.count i) (s.sched.kernel.proc i)
  close : Close S (fun i => (s₀.sched.kernel.proc i).stride)
    (fun i => (s.count i + 1) * (s₀.sched.kernel.proc i).stride)

section Share

variable {S : Set Pslot} {s₀ s s' : Tally}

theorem shared_start (hfresh : forall i, i ∈ S -> Fresh (s.sched.kernel.proc i))
    (hcount : forall i, i ∈ S -> s.count i = 0) : Shared S s s := by
  constructor
  · intro i hi
    rw [hcount i hi]
    exact (hfresh i hi).ran
  · apply close_start
    · exact fun i hi => (hfresh i hi).stride_nonneg
    · intro i hi
      rw [hcount i hi]
      lia

theorem Shared.call {a : Act} (h : Shared S s₀ s)
    (hC : Sharing S s (.call a)) (hstep : TallyStep s (.call a) s') :
    Shared S s₀ s' := by
  rcases hstep with ⟨⟨_, hcall, _⟩, hcount⟩
  constructor
  · intro i hi
    rcases hC.2 i hi with ⟨hexit, hsleep, htickets⟩
    rw [hcount]
    exact (h.ran i hi).call hcall hC.1 hexit hsleep htickets
  · rw [hcount]
    exact h.close

theorem Shared.stride (h : Shared S s₀ s)
    (hfresh : forall i, i ∈ S -> Fresh (s₀.sched.kernel.proc i))
    (hC : Sharing S s .stride) (hstep : TallyStep s .stride s') :
    Shared S s₀ s' := by
  rcases hC with ⟨hidle, hbelow⟩
  rcases hstep with ⟨hsched, hcount⟩
  rcases iteration_below hbelow with ⟨p, hleast, _, hp, hslot, hother⟩
  have hcount' : s'.count = Function.update s.count p (s.count p + 1) := by
    rw [hcount]
    unfold Tally.counted
    rw [hp]
  rw [← show s'.sched = strideIteration s.sched from hsched] at hslot hother
  have hrunnable : forall i, i ∈ S ->
      (s.sched.kernel.proc i).state = .RUNNABLE := by
    intro i hi
    rcases (h.ran i hi).ready with hrun | hrun
    · exact hrun
    · exact absurd hrun (hidle i)
  constructor
  · intro i hi
    have hran := h.ran i hi
    have hrescale := hran.rescale (hfresh i hi)
    rw [hcount']
    rcases eq_or_ne i p with rfl | hne
    · rw [Function.update_self, hslot, hrescale]
      exact hran.run
    · have hsame : s'.sched.kernel.proc i = s.sched.kernel.proc i := by
        rcases hother i hne with heq | heq
        · exact heq
        · exact heq.trans hrescale
      rw [Function.update_of_ne hne, hsame]
      exact hran
  · rcases Classical.em (p ∈ S) with hpS | hpS
    · have hmin : forall j, j ∈ S ->
          (s.count p + 1) * (s₀.sched.kernel.proc p).stride ≤
            (s.count j + 1) * (s₀.sched.kernel.proc j).stride := by
        intro j hj
        have hle := hleast.2 j (hrunnable j hj)
        rw [(h.ran p hpS).pass, (h.ran j hj).pass] at hle
        exact hle
      apply (h.close.advance hmin (hfresh p hpS).stride_nonneg).congr
      intro i hi
      rw [hcount']
      rcases eq_or_ne i p with rfl | hne
      · rw [Function.update_self, Function.update_self]
        push_cast
        ring
      · rw [Function.update_of_ne hne, Function.update_of_ne hne]
    · apply h.close.congr
      intro i hi
      have hne : i ≠ p := by
        rintro rfl
        exact hpS hi
      rw [hcount', Function.update_of_ne hne]

/-- For any two processes, the numbers of dispatches times the strides are
within the largest stride of each other, and every iteration dispatches exactly
one process. -/
theorem stride_share
    (hfresh : forall i, i ∈ S -> Fresh (s₀.sched.kernel.proc i))
    (hcount : forall i, s₀.count i = 0)
    (hruns : Runs TallyStep (Sharing S) s₀ s) :
    (forall i j l, i ∈ S -> j ∈ S ->
      (forall m, m ∈ S -> (s₀.sched.kernel.proc m).stride ≤
        (s₀.sched.kernel.proc l).stride) ->
      |((s.count i : Int) + 1) * (s₀.sched.kernel.proc i).stride -
        (s.count j + 1) * (s₀.sched.kernel.proc j).stride| ≤
          (s₀.sched.kernel.proc l).stride) ∧
      (Sharing S s .stride ->
        exists p, dispatched s.sched.min s.sched.kernel.proc = some p ∧
          forall q, ((strideIteration s.sched).kernel.proc q).state =
            .RUNNING ↔ q = p) := by
  have hshared : Shared S s₀ s := by
    apply hruns.invariant (I := Shared S s₀)
    · exact shared_start hfresh (fun i _ => hcount i)
    · intro s a s' h hC hstep
      cases a with
      | call a => exact h.call hC hstep
      | stride => exact h.stride hfresh hC hstep
  constructor
  · intro i j l hi hj hl
    exact hshared.close.abs_sub_le hl hi hj
  · rintro ⟨hidle, hbelow⟩
    rcases iteration_below hbelow with ⟨p, _, _, hp, hslot, hother⟩
    refine ⟨p, hp, ?_⟩
    intro q
    rcases eq_or_ne q p with rfl | hq
    · rw [hslot]
      exact iff_of_true rfl rfl
    · apply iff_of_false _ hq
      rcases hother q hq with heq | heq
      · rw [heq]
        exact hidle q
      · rw [heq]
        exact hidle q

end Share

/-- `init` with one ticket has forked a child, which then got two. -/
def forkedTally : Tally where
  sched :=
    { kernel :=
        { boot with
          proc := fun p =>
            if p = 0 then
              resetTickets { initProc with tickets := 1 }
            else if p = 1 then
              resetTickets { initProc with tickets := 2, state := .RUNNABLE }
            else
              zeroProc }
      min := none }
  count := fun _ => 0

theorem stride_share_forked :
    exists s, Runs TallyStep (Sharing {0, 1}) forkedTally s ∧
      s.count 0 = 0 ∧ s.count 1 = 1 ∧
        |((s.count 0 : Int) + 1) * 100000 - (s.count 1 + 1) * 50000| ≤
          100000 := by
  have hfresh : forall i, i ∈ ({0, 1} : Set Pslot) ->
      Fresh (forkedTally.sched.kernel.proc i) := by
    rintro i (rfl | rfl)
    · exact ⟨Or.inr rfl, by decide, by decide, by decide, by decide⟩
    · exact ⟨Or.inl rfl, by decide, by decide, by decide, by decide⟩
  let s₁ : Tally :=
    { sched :=
        { kernel := next (.yield 0) forkedTally.sched.kernel, min := none }
      count := forkedTally.count }
  have hyield : Runs TallyStep (Sharing {0, 1}) forkedTally s₁ := by
    refine Runs.tail (.call (.yield 0)) Runs.refl ⟨?_, ?_⟩ ⟨⟨?_, ?_, rfl⟩, rfl⟩
    · exact fun _ => Act.noConfusion
    · exact fun _ _ =>
        ⟨Act.noConfusion, fun _ => Act.noConfusion, fun _ => Act.noConfusion⟩
    · exact fun _ => Act.noConfusion
    · exact step_next (enabled_call rfl rfl) rfl
  have hruns : Runs TallyStep (Sharing {0, 1}) forkedTally
      { sched := strideIteration s₁.sched, count := s₁.counted .stride } := by
    refine Runs.tail .stride hyield ⟨?_, 0, ?_, ?_⟩ ⟨rfl, rfl⟩
    · decide +kernel
    · decide +kernel
    · decide +kernel
  refine ⟨_, hruns, by decide +kernel, by decide +kernel, ?_⟩
  have hshare := (stride_share hfresh (fun _ => rfl) hruns).1 0 1 0
    (Or.inl rfl) (Or.inr rfl) (by
      rintro m (rfl | rfl)
      · decide
      · decide)
  exact hshare

end Kernel
end Xv6
