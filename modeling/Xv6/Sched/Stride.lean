import Xv6.Sched.Tickets

/-!
# The stride scheduler

One iteration of `stride_scheduler`: a scan for the runnable process with the
least pass, and the dispatch of the process that `min` points to afterwards.
The pointer `min` is a variable of the scheduler that keeps its value from one
iteration to the next, so a scan that finds no pass below `max` leaves it where
it was.
-/

namespace Xv6
namespace Kernel

open Lib Lib.Run

def maxPass : Int := 4000000

/-- `minpass`, `min` and the process table during the scan. -/
structure Pick where
  minpass : Int
  min : Option Pslot
  proc : Pslot -> Proc

/-- The stride of a process that the scan picks. -/
def rescale (pr : Proc) : Proc :=
  { pr with
    stride :=
      if pr.tickets ≠ 0 then TOTAL_MAX_TICKETS.tdiv pr.tickets else pr.stride }

/-- The body of the first loop. -/
def strideVisit (s : Pick) (p : Pslot) : Pick :=
  if (s.proc p).state ≠ .RUNNABLE then
    s
  else if (s.proc p).pass < s.minpass then
    { minpass := (s.proc p).pass
      min := some p
      proc := Function.update s.proc p (rescale (s.proc p)) }
  else
    s

/-- The first critical section: find the process with minimum current pass.
The proofs use what it finds and never run it. -/
@[irreducible] def strideScan (min : Option Pslot) (proc : Pslot -> Proc) : Pick :=
  (List.finRange NPROC).foldl strideVisit
    { minpass := maxPass, min := min, proc := proc }

/-- Whether the second critical section sets every pass back. -/
def Pick.resets (s : Pick) : Prop := maxPass ≤ s.minpass ∧ 0 < s.minpass

instance (s : Pick) : Decidable s.resets := inferInstanceAs (Decidable (_ ∧ _))

def Pick.settled (s : Pick) : Pslot -> Proc :=
  if s.resets then
    fun q => { s.proc q with pass := (s.proc q).stride }
  else
    s.proc

def strideRun (pr : Proc) : Proc :=
  { pr with
    pass := pr.pass + pr.stride
    executionCount := pr.executionCount + 1
    state := .RUNNING
    chan := none }

/-- The second critical section up to the switch: the table, and the process
that the CPU switches to. -/
def strideSwitch (s : Pick) : (Pslot -> Proc) × Option Pslot :=
  match s.min with
  | none => (s.proc, none)
  | some p =>
      if (s.proc p).state = .RUNNABLE then
        (Function.update s.settled p (strideRun (s.settled p)), some p)
      else
        (s.proc, none)

theorem strideSwitch_some {s : Pick} {p : Pslot} (hmin : s.min = some p)
    (hrun : (s.proc p).state = .RUNNABLE) :
    strideSwitch s =
      (Function.update s.settled p (strideRun (s.settled p)), some p) := by
  unfold strideSwitch
  rw [hmin]
  exact if_pos hrun

theorem strideSwitch_none {s : Pick}
    (h : forall p, s.min = some p -> (s.proc p).state ≠ .RUNNABLE) :
    strideSwitch s = (s.proc, none) := by
  unfold strideSwitch
  cases hmin : s.min with
  | none => rfl
  | some p => exact if_neg (h p hmin)

theorem settled_of_lt {s : Pick} (h : s.minpass < maxPass) :
    s.settled = s.proc := by
  apply if_neg
  intro hresets
  have hle := hresets.1
  lia

/-!
## What the scan finds
-/

@[simp] theorem rescale_state (pr : Proc) : (rescale pr).state = pr.state := rfl

@[simp] theorem rescale_pass (pr : Proc) : (rescale pr).pass = pr.pass := rfl

@[simp] theorem rescale_rescale (pr : Proc) :
    rescale (rescale pr) = rescale pr := by
  unfold rescale
  rcases eq_or_ne pr.tickets 0 with h | h
  · simp [h]
  · simp [h]

/-- The process `p` can be dispatched and has the least pass. -/
def Least (proc : Pslot -> Proc) (p : Pslot) : Prop :=
  (proc p).state = .RUNNABLE ∧
    forall q, (proc q).state = .RUNNABLE -> (proc p).pass ≤ (proc q).pass

/-- The scan after it has passed the slots in `seen`. -/
structure Scanned (min : Option Pslot) (proc : Pslot -> Proc)
    (seen : List Pslot) (s : Pick) : Prop where
  slot : forall q, s.proc q = proc q ∨ s.proc q = rescale (proc q)
  low : forall q, q ∈ seen -> (proc q).state = .RUNNABLE ->
    s.minpass ≤ (proc q).pass
  pick : (s.min = min ∧ s.minpass = maxPass ∧ s.proc = proc) ∨
    exists p, s.min = some p ∧ (proc p).state = .RUNNABLE ∧
      (proc p).pass = s.minpass ∧ s.minpass < maxPass ∧
        s.proc p = rescale (proc p)

theorem Scanned.state {min : Option Pslot} {proc : Pslot -> Proc}
    {seen : List Pslot} {s : Pick} (h : Scanned min proc seen s) (q : Pslot) :
    (s.proc q).state = (proc q).state := by
  rcases h.slot q with heq | heq
  · rw [heq]
  · rw [heq, rescale_state]

theorem Scanned.pass {min : Option Pslot} {proc : Pslot -> Proc}
    {seen : List Pslot} {s : Pick} (h : Scanned min proc seen s) (q : Pslot) :
    (s.proc q).pass = (proc q).pass := by
  rcases h.slot q with heq | heq
  · rw [heq]
  · rw [heq, rescale_pass]

theorem scanned_visit {min : Option Pslot} {proc : Pslot -> Proc}
    {seen : List Pslot} {s : Pick} (h : Scanned min proc seen s) (p : Pslot) :
    Scanned min proc (seen ++ [p]) (strideVisit s p) := by
  have hseen : forall q, q ∈ seen ++ [p] -> q ∈ seen ∨ q = p := by
    intro q hq
    simpa using hq
  unfold strideVisit
  rw [h.state p, h.pass p]
  rcases Decidable.em ((proc p).state = .RUNNABLE) with hrun | hrun
  · rw [if_neg (not_not.mpr hrun)]
    rcases lt_or_ge (proc p).pass s.minpass with hlt | hge
    · rw [if_pos hlt]
      have hslot : rescale (s.proc p) = rescale (proc p) := by
        rcases h.slot p with heq | heq
        · rw [heq]
        · rw [heq, rescale_rescale]
      constructor
      · intro q
        show Function.update s.proc p _ q = _ ∨ Function.update s.proc p _ q = _
        rcases eq_or_ne q p with rfl | hq
        · rw [Function.update_self]
          exact Or.inr hslot
        · rw [Function.update_of_ne hq]
          exact h.slot q
      · intro q hq hrunq
        rcases hseen q hq with hold | rfl
        · have hle := h.low q hold hrunq
          show (proc p).pass ≤ _
          lia
        · exact le_refl _
      · right
        refine ⟨p, rfl, hrun, rfl, ?_, ?_⟩
        · show (proc p).pass < maxPass
          rcases h.pick with ⟨_, hmax, _⟩ | ⟨_, _, _, _, hmax, _⟩
          · lia
          · lia
        · show Function.update s.proc p _ p = _
          rw [Function.update_self]
          exact hslot
    · rw [if_neg (by lia)]
      constructor
      · exact h.slot
      · intro q hq hrunq
        rcases hseen q hq with hold | rfl
        · exact h.low q hold hrunq
        · exact hge
      · exact h.pick
  · rw [if_pos hrun]
    constructor
    · exact h.slot
    · intro q hq hrunq
      rcases hseen q hq with hold | rfl
      · exact h.low q hold hrunq
      · exact absurd hrunq hrun
    · exact h.pick

theorem scanned_scan (min : Option Pslot) (proc : Pslot -> Proc) :
    Scanned min proc (List.finRange NPROC) (strideScan min proc) := by
  unfold strideScan
  apply foldl_invariant
  · constructor
    · exact fun q => Or.inl rfl
    · intro q hq
      cases hq
    · exact Or.inl ⟨rfl, rfl, rfl⟩
  · exact fun seen p s h => scanned_visit h p

theorem scan_below (min : Option Pslot) {proc : Pslot -> Proc}
    (h : exists q, (proc q).state = .RUNNABLE ∧ (proc q).pass < maxPass) :
    exists p, (strideScan min proc).min = some p ∧ Least proc p ∧
      (strideScan min proc).minpass = (proc p).pass ∧
        (proc p).pass < maxPass ∧
          (strideScan min proc).proc p = rescale (proc p) := by
  have hscan := scanned_scan min proc
  have hlow : forall q, (proc q).state = .RUNNABLE ->
      (strideScan min proc).minpass ≤ (proc q).pass :=
    fun q => hscan.low q (List.mem_finRange q)
  rcases hscan.pick with ⟨_, hmax, _⟩ | ⟨p, hmin, hrun, hpass, hlt, hslot⟩
  · rcases h with ⟨q, hrun, hbelow⟩
    have hle := hlow q hrun
    lia
  · refine ⟨p, hmin, ⟨hrun, ?_⟩, hpass.symm, ?_, hslot⟩
    · intro q hq
      rw [hpass]
      exact hlow q hq
    · rw [hpass]
      exact hlt

theorem scan_above {min : Option Pslot} {proc : Pslot -> Proc}
    (h : forall q, (proc q).state = .RUNNABLE -> maxPass ≤ (proc q).pass) :
    strideScan min proc = { minpass := maxPass, min := min, proc := proc } := by
  have hscan := scanned_scan min proc
  rcases hscan.pick with ⟨hmin, hmax, hproc⟩ | ⟨p, _, hrun, hpass, hlt, _⟩
  · cases hs : strideScan min proc with
    | mk minpass min' proc' =>
        rw [hs] at hmin hmax hproc
        simp only at hmin hmax hproc
        rw [hmin, hmax, hproc]
  · have hle := h p hrun
    lia

/-!
## The process that is dispatched
-/

def dispatched (min : Option Pslot) (proc : Pslot -> Proc) : Option Pslot :=
  (strideSwitch (strideScan min proc)).2

theorem dispatched_below {min : Option Pslot} {proc : Pslot -> Proc}
    (h : exists q, (proc q).state = .RUNNABLE ∧ (proc q).pass < maxPass) :
    exists p, dispatched min proc = some p ∧ Least proc p := by
  rcases scan_below min h with ⟨p, hmin, hleast, _, _, hslot⟩
  have hrun : ((strideScan min proc).proc p).state = .RUNNABLE := by
    rw [hslot]
    exact hleast.1
  refine ⟨p, ?_, hleast⟩
  unfold dispatched
  rw [strideSwitch_some hmin hrun]

theorem dispatched_above {min : Option Pslot} {proc : Pslot -> Proc}
    (h : forall q, (proc q).state = .RUNNABLE -> maxPass ≤ (proc q).pass)
    (p : Pslot) : dispatched min proc = some p ↔
      min = some p ∧ (proc p).state = .RUNNABLE := by
  unfold dispatched
  rw [scan_above h]
  rcases Decidable.em (exists q, min = some q ∧
      (proc q).state = .RUNNABLE) with ⟨q, hmin, hrun⟩ | hnone
  · rw [strideSwitch_some hmin hrun, hmin]
    constructor
    · intro heq
      cases heq
      exact ⟨rfl, hrun⟩
    · exact fun heq => heq.1
  · rw [strideSwitch_none (fun q hq hrun => hnone ⟨q, hq, hrun⟩)]
    constructor
    · intro heq
      cases heq
    · exact fun hp => absurd ⟨p, hp⟩ hnone

theorem below_or_above (proc : Pslot -> Proc) :
    (exists q, (proc q).state = .RUNNABLE ∧ (proc q).pass < maxPass) ∨
      forall q, (proc q).state = .RUNNABLE -> maxPass ≤ (proc q).pass := by
  rcases Decidable.em (exists q, (proc q).state = .RUNNABLE ∧
      (proc q).pass < maxPass) with hbelow | hnone
  · exact Or.inl hbelow
  · right
    intro q hq
    rcases lt_or_ge (proc q).pass maxPass with hlt | hge
    · exact absurd ⟨q, hq, hlt⟩ hnone
    · exact hge

/-- An iteration dispatches a process with the least pass exactly if the pass
of some runnable process is below `max`, or the process chosen last is itself
runnable with the least pass. -/
theorem dispatches_least_iff (min : Option Pslot) (proc : Pslot -> Proc) :
    (exists p, dispatched min proc = some p ∧ Least proc p) ↔
      (exists q, (proc q).state = .RUNNABLE ∧ (proc q).pass < maxPass) ∨
        exists p, min = some p ∧ Least proc p := by
  rcases below_or_above proc with hbelow | habove
  · exact iff_of_true (dispatched_below hbelow) (Or.inl hbelow)
  · constructor
    · rintro ⟨p, hp, hleast⟩
      exact Or.inr ⟨p, ((dispatched_above habove p).mp hp).1, hleast⟩
    · rintro (⟨q, hrun, hlt⟩ | ⟨p, hmin, hleast⟩)
      · have hle := habove q hrun
        lia
      · exact ⟨p, (dispatched_above habove p).mpr ⟨hmin, hleast.1⟩, hleast⟩

/-!
## The scheduler as part of the system
-/

structure Sched where
  kernel : Kernel
  min : Option Pslot

inductive SchedAct where
  /-- A call of a running process, or a wakeup. -/
  | call (a : Act)
  /-- An iteration of `stride_scheduler`, up to the switch. -/
  | stride

def strideIteration (s : Sched) : Sched where
  kernel :=
    { s.kernel with
      proc := (strideSwitch (strideScan s.min s.kernel.proc)).1 }
  min := (strideScan s.min s.kernel.proc).min

theorem strideIteration_min (s : Sched) :
    (strideIteration s).min = (strideScan s.min s.kernel.proc).min := rfl

theorem strideIteration_proc (s : Sched) :
    (strideIteration s).kernel.proc =
      (strideSwitch (strideScan s.min s.kernel.proc)).1 := rfl

def SchedStep (s : Sched) : SchedAct -> Sched -> Prop
  | .call a, s' => (forall p, a ≠ .dispatch p) ∧
      Step s.kernel a s'.kernel ∧ s'.min = s.min
  | .stride, s' => s' = strideIteration s

/-- The state in which the scheduler starts: `userinit` has left `init`
runnable. -/
def Sched.boot : Sched where
  kernel :=
    { Kernel.boot with
      proc := Function.update Kernel.boot.proc 0
        { initProc with state := .RUNNABLE } }
  min := none

abbrev Sched.Reached (s : Sched) : Prop :=
  Runs SchedStep (fun _ _ => True) Sched.boot s

theorem iteration_below {s : Sched}
    (h : exists q, (s.kernel.proc q).state = .RUNNABLE ∧
      (s.kernel.proc q).pass < maxPass) :
    exists p, Least s.kernel.proc p ∧ (strideIteration s).min = some p ∧
      dispatched s.min s.kernel.proc = some p ∧
      (strideIteration s).kernel.proc p =
        strideRun (rescale (s.kernel.proc p)) ∧
        forall q, q ≠ p ->
          (strideIteration s).kernel.proc q = s.kernel.proc q ∨
            (strideIteration s).kernel.proc q = rescale (s.kernel.proc q) := by
  rcases scan_below s.min h with ⟨p, hmin, hleast, hpass, hlt, hslot⟩
  have hrun : ((strideScan s.min s.kernel.proc).proc p).state = .RUNNABLE := by
    rw [hslot]
    exact hleast.1
  have hsettled : (strideScan s.min s.kernel.proc).settled =
      (strideScan s.min s.kernel.proc).proc := by
    apply settled_of_lt
    rw [hpass]
    exact hlt
  have hswitch := strideSwitch_some hmin hrun
  rw [hsettled, hslot] at hswitch
  refine ⟨p, hleast, ?_, ?_, ?_, ?_⟩
  · rw [strideIteration_min]
    exact hmin
  · exact congrArg Prod.snd hswitch
  · rw [strideIteration_proc, hswitch]
    exact Function.update_self p _ _
  · intro q hq
    rw [strideIteration_proc, hswitch]
    simp only [Function.update_of_ne hq]
    exact (scanned_scan s.min s.kernel.proc).slot q

theorem reached_call {s : Sched} {a : Act} {k' : Kernel} {r : Int}
    (h : s.Reached) (ha : forall p, a ≠ .dispatch p)
    (henabled : Enabled s.kernel a) (hrun : a.run s.kernel = .ok (r, k')) :
    Sched.Reached { s with kernel := k' } :=
  Runs.tail (.call a) h trivial ⟨ha, ⟨henabled, r, hrun⟩, rfl⟩

theorem reached_stride {s : Sched} (h : s.Reached) :
    (strideIteration s).Reached :=
  Runs.tail .stride h trivial rfl

theorem reached_set {s : Sched} {a : Act} {p : Pslot} (g : Proc -> Proc)
    (h : s.Reached) (ha : a.caller = some p)
    (hrunning : (s.kernel.proc p).state = .RUNNING)
    (hrun : a.run s.kernel = .ok (0,
      { s.kernel with
        proc := Function.update s.kernel.proc p (g (s.kernel.proc p)) })) :
    exists s' : Sched, s'.Reached ∧ s'.min = s.min ∧
      s'.kernel.proc p = g (s.kernel.proc p) ∧
        forall q, q ≠ p -> s'.kernel.proc q = s.kernel.proc q := by
  have hne : forall q, a ≠ .dispatch q := by
    rintro q rfl
    cases ha
  exact ⟨_, reached_call h hne (enabled_call ha hrunning) hrun, rfl,
    Function.update_self p _ _, fun q hq => Function.update_of_ne hq _ _⟩

/-!
## A runnable process that is never dispatched

`init` forks a child that sleeps while `init` runs until its pass is at `max`.
Then the child runs once more, so that `min` points to it, and sleeps again.
-/

/-- A runnable process with one ticket and a pass of `n` strides. -/
structure Runner (n : Nat) (pr : Proc) : Prop where
  state : pr.state = .RUNNABLE
  pass : pr.pass = n * TOTAL_MAX_TICKETS
  tickets : pr.tickets = 1

/-- A process without tickets in the state `st`. -/
structure Idler (st : Procstate) (pr : Proc) : Prop where
  state : pr.state = st
  chan : st = .SLEEPING -> pr.chan = some (.addr 0)
  pass : pr.pass = 0
  stride : pr.stride = 0
  tickets : pr.tickets = 0

theorem rescale_of_zero {pr : Proc} (h : pr.tickets = 0) : rescale pr = pr := by
  unfold rescale
  rw [if_neg (by simp [h])]

/-- `init` is runnable with a pass of `n` strides, its child is in the state
`st`, and there is no other process. -/
structure Pair (n : Nat) (st : Procstate) (s : Sched) : Prop where
  reached : s.Reached
  init : Runner n (s.kernel.proc 0)
  child : Idler st (s.kernel.proc 1)
  other : forall p, p ≠ 0 -> p ≠ 1 -> (s.kernel.proc p).state = .UNUSED

theorem Pair.runnable {n : Nat} {st : Procstate} {s : Sched}
    (h : Pair n st s) {p : Pslot} (hp : (s.kernel.proc p).state = .RUNNABLE) :
    p = 0 ∨ p = 1 ∧ st = .RUNNABLE := by
  rcases eq_or_ne p 0 with hzero | hzero
  · exact Or.inl hzero
  · rcases eq_or_ne p 1 with rfl | hone
    · exact Or.inr ⟨rfl, h.child.state.symm.trans hp⟩
    · rw [h.other p hzero hone] at hp
      cases hp

theorem Pair.unused {n : Nat} {st : Procstate} {s s' : Sched}
    (h : Pair n st s) {q : Pslot}
    (hq : s'.kernel.proc q = s.kernel.proc q ∨
      s'.kernel.proc q = rescale (s.kernel.proc q))
    (hzero : q ≠ 0) (hone : q ≠ 1) : (s'.kernel.proc q).state = .UNUSED := by
  rcases hq with heq | heq
  · rw [heq]
    exact h.other q hzero hone
  · rw [heq, rescale_state]
    exact h.other q hzero hone

theorem Pair.round {n : Nat} {s : Sched} (h : Pair n .SLEEPING s)
    (hn : n < 40) : exists s', Pair (n + 1) .SLEEPING s' := by
  have hbelow : (s.kernel.proc 0).pass < maxPass := by
    rw [h.init.pass]
    unfold TOTAL_MAX_TICKETS maxPass
    lia
  rcases iteration_below ⟨0, h.init.state, hbelow⟩ with
    ⟨p, hleast, _, _, hslot, hother⟩
  have hzero : p = 0 := by
    rcases h.runnable hleast.1 with hzero | ⟨_, hst⟩
    · exact hzero
    · cases hst
  subst hzero
  rcases reached_set (a := .yield 0) (fun pr => { pr with state := .RUNNABLE })
    (reached_stride h.reached) rfl (by rw [hslot]; rfl) rfl with
    ⟨s', hreached, _, hself, hsame⟩
  refine ⟨s', hreached, ?_, ?_, ?_⟩
  · rw [hself, hslot]
    constructor
    · rfl
    · show (s.kernel.proc 0).pass + (rescale (s.kernel.proc 0)).stride = _
      unfold rescale
      rw [h.init.pass, h.init.tickets]
      show _ + TOTAL_MAX_TICKETS = _
      unfold TOTAL_MAX_TICKETS
      lia
    · exact h.init.tickets
  · have hchild : (strideIteration s).kernel.proc 1 = s.kernel.proc 1 := by
      rcases hother 1 (by decide) with heq | heq
      · exact heq
      · rw [heq, rescale_of_zero h.child.tickets]
    rw [hsame 1 (by decide), hchild]
    exact h.child
  · intro q hzero hone
    rw [hsame q hzero]
    exact h.unused (hother q hzero) hzero hone

theorem Pair.rounds {n m : Nat} {s : Sched} (h : Pair n .SLEEPING s)
    (hm : n + m ≤ 40) : exists s', Pair (n + m) .SLEEPING s' := by
  induction m with
  | zero => exact ⟨s, h⟩
  | succ m ih =>
      rcases ih (by lia) with ⟨s', hs'⟩
      exact hs'.round (by lia)

theorem Pair.wakeup {n : Nat} {s : Sched} (h : Pair n .SLEEPING s) :
    exists s', Pair n .RUNNABLE s' := by
  have henabled : Enabled s.kernel (.wakeup (.addr 0)) := by
    constructor
    · intro _ heq
      cases heq
    · intro _ heq
      cases heq
  have hreached := reached_call h.reached (a := .wakeup (.addr 0))
    (fun _ heq => by cases heq) henabled rfl
  have hawake : forall pr : Proc, pr.state ≠ .SLEEPING ->
      wake (some (.addr 0)) pr = pr :=
    fun pr hpr => if_neg (fun h => hpr h.1)
  refine ⟨_, hreached, ?_, ?_, ?_⟩
  · show Runner n (wake _ (s.kernel.proc 0))
    rw [hawake _ (by rw [h.init.state]; decide)]
    exact h.init
  · show Idler .RUNNABLE (wake _ (s.kernel.proc 1))
    unfold wake
    rw [if_pos ⟨h.child.state, h.child.chan rfl⟩]
    constructor
    · rfl
    · intro hst
      cases hst
    · exact h.child.pass
    · exact h.child.stride
    · exact h.child.tickets
  · intro q hzero hone
    show (wake _ (s.kernel.proc q)).state = _
    rw [hawake _ (by rw [h.other q hzero hone]; decide)]
    exact h.other q hzero hone

theorem Pair.sleep {n : Nat} {s : Sched} (h : Pair n .RUNNABLE s)
    (hn : 0 < n) : exists s', Pair n .SLEEPING s' ∧ s'.min = some 1 := by
  have hbelow : (s.kernel.proc 1).pass < maxPass := by
    rw [h.child.pass]
    decide
  rcases iteration_below ⟨1, h.child.state, hbelow⟩ with
    ⟨p, hleast, hmin, _, hslot, hother⟩
  have hone : p = 1 := by
    rcases h.runnable hleast.1 with rfl | ⟨hone, _⟩
    · have hle := hleast.2 1 h.child.state
      rw [h.init.pass, h.child.pass] at hle
      unfold TOTAL_MAX_TICKETS at hle
      lia
    · exact hone
  subst hone
  rcases reached_set (a := .sleep 1 (.addr 0))
    (fun pr => { pr with chan := some (.addr 0), state := .SLEEPING })
    (reached_stride h.reached) rfl (by rw [hslot]; rfl) rfl with
    ⟨s', hreached, hmin', hself, hsame⟩
  refine ⟨s', ⟨hreached, ?_, ?_, ?_⟩, hmin'.trans hmin⟩
  · rw [hsame 0 (by decide)]
    rcases hother 0 (by decide) with heq | heq
    · rw [heq]
      exact h.init
    · rw [heq]
      exact ⟨h.init.state, h.init.pass, h.init.tickets⟩
  · rw [hself, hslot, rescale_of_zero h.child.tickets]
    constructor
    · rfl
    · exact fun _ => rfl
    · show (s.kernel.proc 1).pass + (s.kernel.proc 1).stride = 0
      rw [h.child.pass, h.child.stride]
      rfl
    · exact h.child.stride
    · exact h.child.tickets
  · intro q hzero hone
    rw [hsame q hone]
    exact h.unused (hother q hone) hzero hone

/-- `init` runs and takes `n` tickets. -/
def ticketed (n : Int32) : Sched where
  kernel := next (.tickets 0 (some n)) (strideIteration Sched.boot).kernel
  min := (strideIteration Sched.boot).min

theorem ticketed_proc (n : Int32) :
    (ticketed n).kernel.proc 0 =
        { strideRun initProc with tickets := n.toInt } ∧
      forall q, q ≠ 0 -> (ticketed n).kernel.proc q = zeroProc := by
  have hother : forall q, q ≠ 0 -> Sched.boot.kernel.proc q = zeroProc := by
    intro q hq
    exact (Function.update_of_ne hq _ _).trans (if_neg hq)
  rcases iteration_below (s := Sched.boot) ⟨0, rfl, by decide⟩ with
    ⟨p, hleast, _, _, hslot, hsame⟩
  have hzero : p = 0 := by
    rcases eq_or_ne p 0 with hzero | hzero
    · exact hzero
    · have hrun := hleast.1
      rw [hother p hzero] at hrun
      cases hrun
  subst hzero
  constructor
  · show { (strideIteration Sched.boot).kernel.proc 0 with tickets := n.toInt } = _
    rw [hslot]
    rfl
  · intro q hq
    refine (Function.update_of_ne hq _ _).trans ?_
    rcases hsame q hq with heq | heq
    · rw [heq, hother q hq]
    · rw [heq, hother q hq, rescale_of_zero rfl]

theorem ticketed_running (n : Int32) :
    ((ticketed n).kernel.proc 0).state = .RUNNING := by
  rw [(ticketed_proc n).1]
  rfl

theorem ticketed_reached (n : Int32) : (ticketed n).Reached :=
  reached_call (reached_stride Runs.refl) (a := .tickets 0 (some n))
    (fun _ heq => by cases heq) (enabled_call rfl (ticketed_running n)) rfl

theorem ticketed_unused (n : Int32) {q : Pslot} (h : q ≠ 0) :
    ((ticketed n).kernel.proc q).state = .UNUSED := by
  rw [(ticketed_proc n).2 q h]
  rfl

theorem ticketed_canFork (n : Int32) :
    CanFork 5000 0 (ticketed n).kernel := by
  have hinit := (ticketed_proc n).1
  refine canFork_init (i := 0) ?_ ⟨1, ticketed_unused n (by decide)⟩ ?_ ?_ ?_ ?_
    rfl (by decide)
  · rw [ticketed_running n]
    decide
  · rw [hinit]
    rfl
  · rw [hinit]
    rfl
  · rw [hinit]
    intro fd f hf
    cases hf
  · rw [hinit]
    exact Option.some_ne_none 0

theorem pair_start : exists s, Pair 1 .RUNNABLE s := by
  rcases fork_returns (ticketed_canFork 1) with
    ⟨k, hfork, _, p, kstack, pgdir, hp, hfirst, hprocs⟩
  have hslot : p = 1 := by
    apply first_unique hp hfirst (ticketed_unused 1 (by decide))
    intro q hq
    have hzero : q = 0 := by
      apply Fin.ext
      show q.val = 0
      have hlt : q.val < 1 := hq
      lia
    rw [hzero, ticketed_running]
    decide
  subst hslot
  have hproc : forall q, q ≠ 1 ->
      k.proc q = resetTickets ((ticketed 1).kernel.proc q) := by
    intro q hq
    exact (congrArg (fun t => Procs.proc t q) hprocs).trans
      (Procs.forked_of_ne _ _ hq _ _)
  have hrunning : (k.proc 0).state = .RUNNING := by
    rw [hproc 0 (by decide), resetTickets_state]
    exact ticketed_running 1
  have hforked := reached_call (ticketed_reached 1) (a := .fork 0)
    (fun _ heq => by cases heq) (enabled_call rfl (ticketed_running 1)) hfork
  rcases reached_set (a := .yield 0) (fun pr => { pr with state := .RUNNABLE })
    hforked rfl hrunning rfl with ⟨s, hreached, _, hself, hsame⟩
  refine ⟨s, hreached, ?_, ?_, ?_⟩
  · rw [hself]
    show Runner 1 { k.proc 0 with state := .RUNNABLE }
    rw [hproc 0 (by decide), (ticketed_proc 1).1]
    constructor
    · rfl
    · decide +kernel
    · decide +kernel
  · have hchild : k.proc 1 = _ := congrArg (fun t => Procs.proc t 1) hprocs
    rw [hsame 1 (by decide)]
    show Idler .RUNNABLE (k.proc 1)
    rw [hchild, Procs.forked_self, Procs.embryo_self,
      show (ticketed 1).kernel.procs.proc 1 = zeroProc from
        (ticketed_proc 1).2 1 (by decide)]
    constructor
    · rfl
    · intro hst
      cases hst
    · rfl
    · rfl
    · rfl
  · intro q hzero hone
    rw [hsame q hzero]
    show (k.proc q).state = .UNUSED
    rw [hproc q hone, resetTickets_state]
    exact ticketed_unused 1 hzero

/-- The iteration dispatches nothing although `init` is runnable. -/
theorem stride_dispatches_nothing :
    exists s : Sched, s.Reached ∧
      (exists q, (s.kernel.proc q).state = .RUNNABLE) ∧
        dispatched s.min s.kernel.proc = none := by
  rcases pair_start with ⟨s1, h1⟩
  rcases h1.sleep (by decide) with ⟨s2, h2, _⟩
  rcases h2.rounds (m := 39) (by decide) with ⟨s3, h3⟩
  rcases h3.wakeup with ⟨s4, h4⟩
  rcases h4.sleep (by decide) with ⟨s, h, hmin⟩
  have habove : forall q, (s.kernel.proc q).state = .RUNNABLE ->
      maxPass ≤ (s.kernel.proc q).pass := by
    intro q hq
    rcases h.runnable hq with rfl | ⟨_, hst⟩
    · rw [h.init.pass]
      decide
    · cases hst
  refine ⟨s, h.reached, ⟨0, h.init.state⟩, ?_⟩
  cases hdispatched : dispatched s.min s.kernel.proc with
  | none => rfl
  | some p =>
      rcases (dispatched_above habove p).mp hdispatched with ⟨hp, hrun⟩
      rw [hmin] at hp
      cases hp
      rw [h.child.state] at hrun
      cases hrun

end Kernel
end Xv6
