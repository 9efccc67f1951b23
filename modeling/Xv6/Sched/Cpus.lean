import Xv6.Lib.Handover
import Xv6.Proc.Files
import Xv6.Sched.Stride
import Xv6.Sched.Lottery

/-!
# Several CPUs

The kernel as its CPUs run it, with `ptable.lock` explicit.  Each CPU is in one
of the three schedulers or in the kernel thread of the process it runs.  A step
takes the lock, gives it back, does something that the code does between the
two or without the lock, or switches between a scheduler and a process.
-/

namespace Xv6
namespace Kernel

open Lib Lib.Run

/-!
## The pieces of fork and clone

`allocproc` gives the lock back before it sets the slot up, and `fork` takes it
twice more.
-/

def allocTake : KM (Option Pslot) := do
  let p ← gets (fun k =>
    (List.finRange NPROC).find? (fun p => (k.proc p).state = .UNUSED))
  match p with
  | none => pure none
  | some p => do
      let pid ← gets nextpid
      setProc p (fun pr =>
        { pr with syscallCount := 0, state := .EMBRYO, pid := pid })
      modify (fun k => { k with nextpid := pid + 1 })
      pure (some p)

def allocSetup (p : Pslot) : KM Bool := do
  let kstack ← onVm Vm.kalloc
  setProc p (fun pr => { pr with kstack := kstack })
  match kstack with
  | none => do
      setProc p (fun pr => { pr with state := .UNUSED })
      pure false
  | some _ => do
      setProc p (fun pr => { pr with pass := 0, threadIndictor := 0 })
      pure true

def forkCopy (cur np : Pslot) : KM Bool := do
  let pr ← gets (fun k => k.proc cur)
  let pgdir ← match pr.pgdir with
    | none => stop .nullDeref
    | some pgdir => onVm (Vm.copyuvm pgdir pr.sz)
  setProc np (fun p => { p with pgdir := pgdir })
  match pgdir with
  | none => do
      match ← gets (fun k => (k.proc np).kstack) with
      | none => panic "kfree"
      | some kstack => onVm (Vm.kfree kstack)
      setProc np (fun p => { p with kstack := none, state := .UNUSED })
      pure false
  | some _ => do
      setProc np (fun p =>
        { p with
          sz := pr.sz
          parent := some cur
          tf := { pr.tf with eax := 0 } })
      forEach (dupOfile cur np) (List.finRange NOFILE)
      match pr.cwd with
      | none => stop .nullDeref
      | some cwd => do
          let cwd ← onFs (Fs.idup cwd)
          setProc np (fun p =>
            { p with cwd := some cwd, name := pr.name.take 15 })
      pure true

/-- The part of `clone` after `allocproc`, which runs without the lock; the copy
of the frame is left out here too. -/
def cloneSetup (cur newp : Pslot) (stack : UInt32) : KM Int := do
  let pr ← gets (fun k => k.proc cur)
  let topStack := pr.tf.ebp + 4 * 4
  let parentSize := topStack - pr.tf.esp
  setProc newp (fun p =>
    { p with
      pgdir := pr.pgdir
      sz := pr.sz
      parent := some cur
      threadIndictor := 1
      tf :=
        { pr.tf with
          eax := 0
          esp := stack - parentSize
          ebp := stack - 4 * 4 }
      ofile := fun fd => (pr.ofile fd).or (p.ofile fd)
      cwd := pr.cwd
      state := .RUNNABLE
      name := pr.name.take 15 })
  let pid ← pidOf newp
  pure pid.toInt

theorem allocproc_eq : allocproc = (do
    match ← allocTake with
    | none => pure none
    | some p => do
        if ← allocSetup p then pure (some p) else pure none) := by
  unfold allocproc allocTake
  rw [bind_bind]
  apply bind_congr_run
  intro p
  cases p with
  | none => rfl
  | some p =>
      simp only [bind_bind, pure_bind_run, allocSetup]
      apply bind_congr_run
      intro pid
      apply bind_congr_run
      intro _
      apply bind_congr_run
      intro _
      apply bind_congr_run
      intro kstack
      apply bind_congr_run
      intro _
      cases kstack with
      | none | some kstack =>
          simp only [bind_bind, pure_bind_run]
          rfl

theorem clone_eq (cur : Pslot) (stack : UInt32) : clone cur stack = (do
    modify (fun k => { k with numofthread := k.numofthread + 1 })
    match ← allocproc with
    | none => pure (-1)
    | some newp => cloneSetup cur newp stack) := rfl

theorem fork_eq (cur : Pslot) : fork cur = (do
    match ← allocproc with
    | none => pure (-1)
    | some np => do
        if ← forkCopy cur np then do
          let pid ← pidOf np
          setProc np (fun p => { p with state := .RUNNABLE })
          setProcs (fun _ p => resetTickets p)
          pure pid.toInt
        else
          pure (-1)) := by
  unfold fork
  apply bind_congr_run
  intro np
  cases np with
  | none => rfl
  | some np =>
      simp only [bind_bind, forkCopy]
      apply bind_congr_run
      intro pr
      cases pr.pgdir with
      | none => rfl
      | some pgdir =>
          simp only [bind_bind]
          apply bind_congr_run
          intro pgdir
          apply bind_congr_run
          intro _
          cases pgdir with
          | none =>
              simp only [bind_bind]
              apply bind_congr_run
              intro kstack
              cases kstack with
              | none => rfl
              | some kstack =>
                  simp only [bind_bind, pure_bind_run]
                  rfl
          | some pgdir =>
              simp only [bind_bind]
              apply bind_congr_run
              intro _
              apply bind_congr_run
              intro _
              cases pr.cwd with
              | none => rfl
              | some cwd =>
                  simp only [bind_bind, pure_bind_run]
                  rfl

/-!
## What the pieces do to the process table

Seen through the fields that tie processes to each other.
-/

structure Kin where
  state : Procstate
  parent : Option Pslot
  chan : Option Chan

def kinOf (pr : Proc) : Kin where
  state := pr.state
  parent := pr.parent
  chan := pr.chan

def kin (k : Kernel) (p : Pslot) : Kin := kinOf (k.proc p)

def states (k : Kernel) (p : Pslot) : Procstate := (k.proc p).state

theorem states_of_kin {k k' : Kernel} (h : kin k' = kin k) :
    states k' = states k :=
  congrArg (fun (t : Pslot -> Kin) p => (t p).state) h

theorem states_update {k k' : Kernel} {p : Pslot} {x : Kin}
    (h : kin k' = Function.update (kin k) p x) :
    states k' = Function.update (states k) p x.state := by
  funext q
  show (kin k' q).state = _
  rw [h]
  rcases eq_or_ne q p with rfl | hq
  · simp
  · simp [hq, kin, states, kinOf]

theorem keepsKin {α : Type} {m : KM α} (h : Keeps procs m) : Keeps kin m := by
  rintro t k rfl
  apply wp_post (h k.procs k rfl)
  intro _ k' hk
  exact congrArg (fun (t : Procs) p => kinOf (t.proc p)) hk

theorem kin_setProc (k : Kernel) (p : Pslot) (pr : Proc) :
    kin { k with proc := Function.update k.proc p pr } =
      Function.update (kin k) p (kinOf pr) := by
  funext q
  rcases eq_or_ne q p with rfl | hq
  · simp [kin]
  · simp [kin, hq]

theorem keepsKin_setProc (p : Pslot) {g : Proc -> Proc}
    (hg : forall pr, kinOf (g pr) = kinOf pr) : Keeps kin (setProc p g) := by
  rintro t k rfl
  show kin _ = kin k
  rw [kin_setProc, hg]
  exact Function.update_eq_self p (kin k)

theorem seesKin_setProc {p : Pslot} {g : Proc -> Proc} (f : Kin -> Kin)
    (hg : forall pr, kinOf (g pr) = f (kinOf pr)) {β : Type} {m : Unit -> KM β}
    {t : Pslot -> Kin} {Q : β -> (Pslot -> Kin) -> Prop}
    (h : Sees kin (m ()) (Function.update t p (f (t p))) Q) :
    Sees kin (setProc p g >>= m) t Q := by
  refine Sees.modify_bind (fun t => Function.update t p (f (t p))) ?_ h
  intro k
  rw [kin_setProc, hg]
  rfl

theorem keepsKin_dupOfile (cur np : Pslot) (fd : Fin NOFILE) :
    Keeps kin (dupOfile cur np fd) := by
  apply Turns.bind (Turns.gets _ _)
  intro f
  cases f with
  | none => exact Turns.pure _ rfl
  | some f =>
      exact Turns.bind (keepsKin (keeps_filedup f))
        (fun _ => keepsKin_setProc np (fun _ => rfl))

theorem seesKin_allocSetup (p : Pslot) (t : Pslot -> Kin) :
    Sees kin (allocSetup p) t (fun done t' =>
      t' =
        if done then
          t
        else
          Function.update t p { t p with state := .UNUSED }) := by
  apply Sees.keep (keepsKin (keeps_onVm _))
  intro kstack
  apply Sees.keep (keepsKin_setProc p (fun _ => by rfl))
  intro _
  cases kstack with
  | none =>
      exact seesKin_setProc (fun x => { x with state := .UNUSED })
        (fun _ => by rfl) (Sees.pure rfl)
  | some kstack =>
      exact Sees.keep (keepsKin_setProc p (fun _ => by rfl))
        (fun _ => Sees.pure rfl)

theorem seesKin_forkCopy (cur np : Pslot) (t : Pslot -> Kin) :
    Sees kin (forkCopy cur np) t (fun done t' =>
      t' = Function.update t np
        (if done then
          { t np with parent := some cur }
        else
          { t np with state := .UNUSED })) := by
  apply Sees.keep (Turns.gets _ _)
  intro pr
  cases pr.pgdir with
  | none => exact Sees.stop _ _ _
  | some pgdir =>
      apply Sees.keep (keepsKin (keeps_onVm _))
      intro pgdir
      apply Sees.keep (keepsKin_setProc np (fun _ => by rfl))
      intro _
      cases pgdir with
      | none =>
          apply Sees.keep (Turns.gets _ _)
          intro kstack
          cases kstack with
          | none => exact Sees.stop _ _ _
          | some kstack =>
              apply Sees.keep (keepsKin (keeps_onVm _))
              intro _
              exact seesKin_setProc (fun x => { x with state := .UNUSED })
                (fun _ => by rfl) (Sees.pure rfl)
      | some pgdir =>
          apply seesKin_setProc (fun x => { x with parent := some cur })
            (fun _ => by rfl)
          apply Sees.keep
            (Turns.forEach (fun fd => keepsKin_dupOfile cur np fd) _)
          intro _
          cases pr.cwd with
          | none => exact Sees.stop _ _ _
          | some cwd =>
              apply Sees.keep (keepsKin (keeps_onFs _))
              intro _
              exact Sees.keep (keepsKin_setProc np (fun _ => by rfl))
                (fun _ => Sees.pure rfl)

theorem seesKin_cloneSetup (cur newp : Pslot) (stack : UInt32)
    (t : Pslot -> Kin) :
    Sees kin (cloneSetup cur newp stack) t (fun _ t' =>
      t' = Function.update t newp
        { t newp with state := .RUNNABLE, parent := some cur }) := by
  apply Sees.keep (Turns.gets _ _)
  intro pr
  apply seesKin_setProc
    (fun x => { x with state := .RUNNABLE, parent := some cur })
    (fun _ => by rfl)
  exact Sees.keep (Turns.gets _ _) (fun _ => Sees.pure rfl)

theorem seesKin_allocTake (t : Pslot -> Kin) :
    Sees kin allocTake t (fun r t' =>
      match r with
      | none => t' = t
      | some p => (t p).state = .UNUSED ∧
          t' = Function.update t p { t p with state := .EMBRYO }) := by
  apply Sees.gets (fun t : Pslot -> Kin =>
    (List.finRange NPROC).find? (fun p => (t p).state = .UNUSED))
  cases hfind :
      (List.finRange NPROC).find? (fun p => (t p).state = .UNUSED) with
  | none => exact Sees.pure rfl
  | some p =>
      apply Sees.keep (Turns.gets _ _)
      intro pid
      apply seesKin_setProc (fun x => { x with state := .EMBRYO })
        (fun _ => by rfl)
      refine Sees.modify_bind id ?_ ?_
      · exact fun _ => rfl
      · exact Sees.pure ⟨(scan_some hfind).1, rfl⟩

/-!
## What the making of a process leaves alone
-/

/-- What is seen of the kernel depends on the process table only, and there not
on the fields that are set while a process is made. -/
structure Steady {ρ : Type} (view : Kernel -> ρ) : Prop where
  table : forall {k k' : Kernel}, k'.procs = k.procs -> view k' = view k
  slot : forall (k : Kernel) (p : Pslot) (pr : Proc),
    pr.pid = (k.proc p).pid ->
      view { k with proc := Function.update k.proc p pr } = view k

namespace Steady

variable {ρ α : Type} {view : Kernel -> ρ}

theorem keeps (h : Steady view) {m : KM α} (hm : Keeps procs m) :
    Keeps view m := by
  rintro t k rfl
  exact wp_post (hm k.procs k rfl) (fun _ _ => h.table)

theorem setProc (h : Steady view) (p : Pslot) {g : Proc -> Proc}
    (hg : forall pr, (g pr).pid = pr.pid) : Keeps view (setProc p g) := by
  rintro t k rfl
  exact h.slot k p _ (hg (k.proc p))

theorem allocSetup (h : Steady view) (p : Pslot) :
    Keeps view (allocSetup p) := by
  apply Turns.bind (h.keeps (keeps_onVm _))
  intro kstack
  apply Turns.bind (h.setProc p (fun _ => by rfl))
  intro _
  cases kstack with
  | none | some kstack =>
      exact Turns.bind (h.setProc p (fun _ => by rfl))
        (fun _ => Turns.pure _ rfl)

theorem dupOfile (h : Steady view) (cur np : Pslot) (fd : Fin NOFILE) :
    Keeps view (dupOfile cur np fd) := by
  apply Turns.bind (Turns.gets _ _)
  intro f
  cases f with
  | none => exact Turns.pure _ rfl
  | some f =>
      exact Turns.bind (h.keeps (keeps_filedup f))
        (fun _ => h.setProc np (fun _ => rfl))

theorem forkCopy (h : Steady view) (cur np : Pslot) :
    Keeps view (forkCopy cur np) := by
  apply Turns.bind (Turns.gets _ _)
  intro pr
  cases pr.pgdir with
  | none => exact Turns.stop _ _ _
  | some pgdir =>
      apply Turns.bind (h.keeps (keeps_onVm _))
      intro pgdir
      apply Turns.bind (h.setProc np (fun _ => by rfl))
      intro _
      cases pgdir with
      | none =>
          apply Turns.bind (Turns.gets _ _)
          intro kstack
          cases kstack with
          | none => exact Turns.stop _ _ _
          | some kstack =>
              exact Turns.bind (h.keeps (keeps_onVm _)) (fun _ =>
                Turns.bind (h.setProc np (fun _ => by rfl)) (fun _ =>
                  Turns.pure _ rfl))
      | some pgdir =>
          apply Turns.bind (h.setProc np (fun _ => by rfl))
          intro _
          apply Turns.bind
            (Turns.forEach (fun fd => h.dupOfile cur np fd) _)
          intro _
          cases pr.cwd with
          | none => exact Turns.stop _ _ _
          | some cwd =>
              exact Turns.bind (h.keeps (keeps_onFs _)) (fun _ =>
                Turns.bind (h.setProc np (fun _ => by rfl)) (fun _ =>
                  Turns.pure _ rfl))

theorem cloneSetup (h : Steady view) (cur newp : Pslot) (stack : UInt32) :
    Keeps view (cloneSetup cur newp stack) :=
  Turns.bind (Turns.gets _ _) (fun _ =>
    Turns.bind (h.setProc newp (fun _ => by rfl)) (fun _ =>
      Turns.bind (Turns.gets _ _) (fun _ => Turns.pure _ rfl)))

end Steady

/-!
## The kernel thread of a process
-/

inductive Spot where
  | user
  /-- In `allocproc`, which has taken the slot `np`; `stack` is the argument of
  `clone`, `none` in `fork`. -/
  | taken (np : Pslot) (stack : Option UInt32)
  | building (np : Pslot) (stack : Option UInt32)
  | copied (np : Pslot)
  | forked
  deriving DecidableEq, Repr

inductive Critical where
  | yield
  | sleep (chan : Chan)
  | wakeup (chan : Chan)
  | exit
  | wait
  | kill (pid : Int32)
  | take (stack : Option UInt32)
  | ready (np : Pslot)
  | tickets
  | done
  deriving DecidableEq, Repr

inductive Context where
  | yield
  | sleep
  | wait
  | forkret
  | exit
  deriving DecidableEq, Repr

inductive Thread where
  | free (s : Spot)
  | holds (c : Critical) (s : Spot)
  | switched (c : Context) (s : Spot)
  deriving DecidableEq, Repr

namespace Thread

def spot : Thread -> Spot
  | free s => s
  | holds _ s => s
  | switched _ s => s

def locked : Thread -> Bool
  | free _ => false
  | _ => true

end Thread

def Spot.owns : Spot -> Option Pslot
  | user => none
  | taken np _ => some np
  | building np _ => some np
  | copied np => some np
  | forked => none

inductive Event where
  | acquire
  | release
  | work
  | dispatch (p : Pslot)
  | leave
  | start (np : Pslot)
  deriving DecidableEq, Repr

/-- Code of the process `p` without the lock changes nothing of the process
table but the slot of `p`, and there not the fields that the lock is for. -/
structure Local (p : Pslot) (k k' : Kernel) : Prop where
  slot : k'.proc p =
    { k.proc p with
      sz := (k'.proc p).sz
      pgdir := (k'.proc p).pgdir
      tf := (k'.proc p).tf
      killed := (k'.proc p).killed
      ofile := (k'.proc p).ofile
      cwd := (k'.proc p).cwd
      name := (k'.proc p).name
      syscallCount := (k'.proc p).syscallCount
      tickets := (k'.proc p).tickets }
  other : forall q, q ≠ p -> k'.proc q = k.proc q
  initproc : k'.initproc = k.initproc
  nextpid : k'.nextpid = k.nextpid
  numofthread : k'.numofthread = k.numofthread

inductive ThreadStep (p : Pslot) (k : Kernel) :
    Thread -> Event -> Kernel -> Thread -> Prop where
  | other {k' : Kernel} {s : Spot} (hk : Local p k k') :
      ThreadStep p k (.free s) .work k' (.free s)
  -- taking the lock
  | toYield {s : Spot} :
      ThreadStep p k (.free s) .acquire k (.holds .yield s)
  | toSleep {s : Spot} (chan : Chan) :
      ThreadStep p k (.free s) .acquire k (.holds (.sleep chan) s)
  | toWakeup {s : Spot} (chan : Chan) :
      ThreadStep p k (.free s) .acquire k (.holds (.wakeup chan) s)
  | toExit (hinit : p ≠ k.initproc) :
      ThreadStep p k (.free .user) .acquire k (.holds .exit .user)
  | toWait : ThreadStep p k (.free .user) .acquire k (.holds .wait .user)
  | toKill (pid : Int32) :
      ThreadStep p k (.free .user) .acquire k (.holds (.kill pid) .user)
  | toFork :
      ThreadStep p k (.free .user) .acquire k (.holds (.take none) .user)
  | toClone (stack : UInt32) :
      ThreadStep p k (.free .user) .acquire
        { k with numofthread := k.numofthread + 1 }
        (.holds (.take (some stack)) .user)
  | toReady {np : Pslot} :
      ThreadStep p k (.free (.copied np)) .acquire k
        (.holds (.ready np) (.copied np))
  | toTickets :
      ThreadStep p k (.free .forked) .acquire k (.holds .tickets .forked)
  -- holding the lock
  | yield {k' : Kernel} {s : Spot} (hk : Kernel.yield p k = .ok ((), k')) :
      ThreadStep p k (.holds .yield s) .leave k' (.switched .yield s)
  | sleep {chan : Chan} {k' : Kernel} {s : Spot}
      (hk : Kernel.sleep p chan k = .ok ((), k')) :
      ThreadStep p k (.holds (.sleep chan) s) .leave k' (.switched .sleep s)
  | wakeup {chan : Chan} {k' : Kernel} {s : Spot}
      (hk : Kernel.wakeup chan k = .ok ((), k')) :
      ThreadStep p k (.holds (.wakeup chan) s) .work k' (.holds .done s)
  | exit {k' : Kernel} {s : Spot} (hk : exitTail p k = .ok ((), k')) :
      ThreadStep p k (.holds .exit s) .leave k' (.switched .exit s)
  | wait {r : Int} {k' : Kernel} {s : Spot}
      (hk : Kernel.wait p k = .ok (r, k')) :
      ThreadStep p k (.holds .wait s) .work k' (.holds .done s)
  | waitSleep {k' : Kernel} {s : Spot}
      (hwait : Kernel.wait p k = .error .sleep)
      (hk : Kernel.sleep p (.proc p) k = .ok ((), k')) :
      ThreadStep p k (.holds .wait s) .leave k' (.switched .wait s)
  | kill {pid : Int32} {r : Int} {k' : Kernel} {s : Spot}
      (hk : Kernel.kill pid.toInt k = .ok (r, k')) :
      ThreadStep p k (.holds (.kill pid) s) .work k' (.holds .done s)
  | full {stack : Option UInt32} {k' : Kernel} {s : Spot}
      (hk : allocTake k = .ok (none, k')) :
      ThreadStep p k (.holds (.take stack) s) .work k' (.holds .done s)
  | take {np : Pslot} {stack : Option UInt32} {k' : Kernel} {s : Spot}
      (hk : allocTake k = .ok (some np, k')) :
      ThreadStep p k (.holds (.take stack) s) .work k'
        (.holds .done (.taken np stack))
  | ready {np : Pslot} {k' : Kernel}
      (hk : setProc np (fun pr => { pr with state := .RUNNABLE }) k =
        .ok ((), k')) :
      ThreadStep p k (.holds (.ready np) (.copied np)) .work k'
        (.holds .done .forked)
  | tickets {k' : Kernel}
      (hk : setProcs (fun _ pr => resetTickets pr) k = .ok ((), k')) :
      ThreadStep p k (.holds .tickets .forked) .work k' (.holds .done .user)
  | done {s : Spot} : ThreadStep p k (.holds .done s) .release k (.free s)
  -- making a process without the lock
  | noStack {np : Pslot} {stack : Option UInt32} {k' : Kernel}
      (hk : allocSetup np k = .ok (false, k')) :
      ThreadStep p k (.free (.taken np stack)) .work k' (.free .user)
  | setup {np : Pslot} {stack : Option UInt32} {k' : Kernel}
      (hk : allocSetup np k = .ok (true, k')) :
      ThreadStep p k (.free (.taken np stack)) (.start np) k'
        (.free (.building np stack))
  | noCopy {np : Pslot} {k' : Kernel}
      (hk : forkCopy p np k = .ok (false, k')) :
      ThreadStep p k (.free (.building np none)) .work k' (.free .user)
  | copy {np : Pslot} {k' : Kernel}
      (hk : forkCopy p np k = .ok (true, k')) :
      ThreadStep p k (.free (.building np none)) .work k' (.free (.copied np))
  | clone {np : Pslot} {stack : UInt32} {r : Int} {k' : Kernel}
      (hk : cloneSetup p np stack k = .ok (r, k')) :
      ThreadStep p k (.free (.building np (some stack))) .work k' (.free .user)
  -- coming back
  | backYield {s : Spot} :
      ThreadStep p k (.switched .yield s) .release k (.free s)
  | backSleep {s : Spot} :
      ThreadStep p k (.switched .sleep s) .release k (.free s)
  | backForkret {s : Spot} :
      ThreadStep p k (.switched .forkret s) .release k (.free s)
  | backWait {s : Spot} :
      ThreadStep p k (.switched .wait s) .work k (.holds .wait s)

/-!
## The schedulers
-/

inductive Loc where
  | rr
  | rrLoop (ps : List Pslot)
  | lottery
  | lotterySum
  | lotterySummed (totalTickets : Option Int)
  | lotteryDraw (totalTickets : Option Int)
  | lotteryDrawn (winner : Int)
  | lotteryLoop (winner : Int) (ps : List Pslot) (ticketBin : Int)
  | lotteryEnd
  | stride (min : Option Pslot)
  | strideLoop (ps : List Pslot) (minpass : Int) (min : Option Pslot)
  | strideFound (minpass : Int) (min : Option Pslot)
  | strideChoose (minpass : Int) (min : Option Pslot)
  | strideEnd (min : Option Pslot)
  | wakeup (chan : Chan) (l : Loc)
  | woken (l : Loc)
  deriving DecidableEq, Repr

def Loc.locked : Loc -> Bool
  | rr | lottery | lotteryDraw _ | lotteryDrawn _ | stride _
  | strideFound _ _ => false
  | _ => true

/-- The sum of tickets, and `winner` for some number from `genrand`; any
`winner` where the sum overflows or the division is by zero. -/
def Drawn (totalTickets : Option Int) (winner : Int) : Prop :=
  forall divisor, totalTickets.bind (fun t => addInt t 1) = some divisor ->
    divisor ≠ 0 ->
      exists r, 0 ≤ r ∧ r ≤ RAND_MAX ∧ winner = r.tmod divisor

/-- The process is passed over: its bin does not reach the winner.  Where the
sum overflows it may be. -/
def PassedOver (winner ticketBin tickets bin : Int) : Prop :=
  addInt ticketBin tickets = none ∨
    addInt ticketBin tickets = some bin ∧ bin < winner

def Wins (winner ticketBin tickets : Int) : Prop :=
  forall bin, addInt ticketBin tickets = some bin -> ¬ bin < winner

inductive LocStep (k : Kernel) : Loc -> Event -> Kernel -> Loc -> Prop where
  -- scheduler
  | rrAcquire : LocStep k .rr .acquire k (.rrLoop (List.finRange NPROC))
  | rrSkip {p : Pslot} {ps : List Pslot}
      (h : (k.proc p).state ≠ .RUNNABLE) :
      LocStep k (.rrLoop (p :: ps)) .work k (.rrLoop ps)
  | rrDispatch {p : Pslot} {ps : List Pslot} {k' : Kernel}
      (h : (k.proc p).state = .RUNNABLE)
      (hk : Kernel.dispatch p k = .ok ((), k')) :
      LocStep k (.rrLoop (p :: ps)) (.dispatch p) k' (.rrLoop ps)
  | rrRelease : LocStep k (.rrLoop []) .release k .rr
  -- lottery_scheduler
  | lotteryAcquire : LocStep k .lottery .acquire k .lotterySum
  | lotteryAdd :
      LocStep k .lotterySum .work k
        (.lotterySummed ((List.finRange NPROC).foldlM (lotteryAdd k.proc) 0))
  | lotteryBetween {total : Option Int} :
      LocStep k (.lotterySummed total) .release k (.lotteryDraw total)
  | lotteryGenrand {total : Option Int} {winner : Int}
      (h : Drawn total winner) :
      LocStep k (.lotteryDraw total) .work k (.lotteryDrawn winner)
  | lotteryAgain {winner : Int} :
      LocStep k (.lotteryDrawn winner) .acquire k
        (.lotteryLoop winner (List.finRange NPROC) 0)
  | lotterySkip {winner ticketBin : Int} {p : Pslot} {ps : List Pslot}
      (h : (k.proc p).state ≠ .RUNNABLE) :
      LocStep k (.lotteryLoop winner (p :: ps) ticketBin) .work k
        (.lotteryLoop winner ps ticketBin)
  | lotteryPass {winner ticketBin bin : Int} {p : Pslot} {ps : List Pslot}
      (h : (k.proc p).state = .RUNNABLE)
      (hpass : PassedOver winner ticketBin (k.proc p).tickets bin) :
      LocStep k (.lotteryLoop winner (p :: ps) ticketBin) .work k
        (.lotteryLoop winner ps bin)
  | lotteryDispatch {winner ticketBin : Int} {p : Pslot} {ps : List Pslot}
      (h : (k.proc p).state = .RUNNABLE)
      (hwins : Wins winner ticketBin (k.proc p).tickets) :
      LocStep k (.lotteryLoop winner (p :: ps) ticketBin) (.dispatch p)
        { k with proc := Function.update k.proc p (lotteryRun (k.proc p)) }
        .lotteryEnd
  | lotteryNobody {winner ticketBin : Int} :
      LocStep k (.lotteryLoop winner [] ticketBin) .work k .lotteryEnd
  | lotteryRelease : LocStep k .lotteryEnd .release k .lottery
  -- stride_scheduler
  | strideAcquire {min : Option Pslot} :
      LocStep k (.stride min) .acquire k
        (.strideLoop (List.finRange NPROC) maxPass min)
  | strideVisit {minpass : Int} {min : Option Pslot} {p : Pslot}
      {ps : List Pslot} {s : Pick}
      (h : strideVisit { minpass := minpass, min := min, proc := k.proc } p =
        s) :
      LocStep k (.strideLoop (p :: ps) minpass min) .work
        { k with proc := s.proc } (.strideLoop ps s.minpass s.min)
  | strideBetween {minpass : Int} {min : Option Pslot} :
      LocStep k (.strideLoop [] minpass min) .release k
        (.strideFound minpass min)
  | strideAgain {minpass : Int} {min : Option Pslot} :
      LocStep k (.strideFound minpass min) .acquire k
        (.strideChoose minpass min)
  | strideNobody {minpass : Int} {min : Option Pslot}
      (h : forall p, min = some p -> (k.proc p).state ≠ .RUNNABLE) :
      LocStep k (.strideChoose minpass min) .work k (.strideEnd min)
  | strideDispatch {minpass : Int} {p : Pslot} {s : Pick}
      (h : (k.proc p).state = .RUNNABLE)
      (hs : s = { minpass := minpass, min := some p, proc := k.proc }) :
      LocStep k (.strideChoose minpass (some p)) (.dispatch p)
        { k with proc := (strideSwitch s).1 } (.strideEnd (some p))
  | strideRelease {min : Option Pslot} :
      LocStep k (.strideEnd min) .release k (.stride min)
  -- interrupts
  | interrupt {l : Loc} (chan : Chan) (h : l.locked = false) :
      LocStep k l .acquire k (.wakeup chan l)
  | wakeup {l : Loc} {chan : Chan} {k' : Kernel}
      (hk : Kernel.wakeup chan k = .ok ((), k')) :
      LocStep k (.wakeup chan l) .work k' (.woken l)
  | back {l : Loc} (h : l.locked = false) :
      LocStep k (.woken l) .release k l

/-!
## The machine
-/

structure Cpu where
  proc : Option Pslot
  mode : Mode
  /-- Where the scheduler is, or where it goes on when the process switches
  back to it. -/
  loc : Loc

structure Smp (ι : Type) where
  kernel : Kernel
  lock : Option ι
  cpu : ι -> Cpu
  thread : Pslot -> Thread

section Machine

variable {ι : Type} [DecidableEq ι]

/-- `acquire` waits until the lock is free, `release` panics if the CPU does not
hold it. -/
def Smp.allows (s : Smp ι) (c : ι) : Event -> Prop
  | .acquire => s.lock = none
  | .release => s.lock = some c
  | _ => True

def Smp.lockAfter (s : Smp ι) (c : ι) : Event -> Option ι
  | .acquire => some c
  | .release => none
  | _ => s.lock

def Cpu.scheduled (c : Cpu) (l : Loc) : Event -> Cpu
  | .dispatch p => { proc := some p, mode := .task, loc := l }
  | _ => { c with loc := l }

def Cpu.ran (c : Cpu) : Event -> Cpu
  | .leave => { c with mode := .leaving }
  | _ => c

def Smp.threadsAfter (s : Smp ι) (p : Pslot) (th : Thread) :
    Event -> Pslot -> Thread
  | .start np =>
      Function.update (Function.update s.thread np (.switched .forkret .user))
        p th
  | _ => Function.update s.thread p th

inductive SmpStep (s : Smp ι) (c : ι) : Smp ι -> Prop where
  | manager {e : Event} {k' : Kernel} {l : Loc}
      (hmode : (s.cpu c).mode = .manager) (hallows : s.allows c e)
      (h : LocStep s.kernel (s.cpu c).loc e k' l) :
      SmpStep s c
        { s with
          kernel := k'
          lock := s.lockAfter c e
          cpu := Function.update s.cpu c ((s.cpu c).scheduled l e) }
  | task {p : Pslot} {e : Event} {k' : Kernel} {th : Thread}
      (hmode : (s.cpu c).mode = .task) (hproc : (s.cpu c).proc = some p)
      (hallows : s.allows c e)
      (h : ThreadStep p s.kernel (s.thread p) e k' th) :
      SmpStep s c
        { kernel := k'
          lock := s.lockAfter c e
          cpu := Function.update s.cpu c ((s.cpu c).ran e)
          thread := s.threadsAfter p th e }
  | switch (hmode : (s.cpu c).mode = .leaving) :
      SmpStep s c
        { s with
          cpu := Function.update s.cpu c { s.cpu c with mode := .returned } }
  | clear (hmode : (s.cpu c).mode = .returned) :
      SmpStep s c
        { s with
          cpu := Function.update s.cpu c
            { s.cpu c with proc := none, mode := .manager } }

/-- The CPUs enter their schedulers, no process runs yet, and none is being
made. -/
structure Smp.Start (s : Smp ι) : Prop where
  lock : s.lock = none
  cpu : forall c, (s.cpu c).proc = none ∧ (s.cpu c).mode = .manager ∧
    ((s.cpu c).loc = .rr ∨ (s.cpu c).loc = .lottery ∨
      (s.cpu c).loc = .stride none)
  state : forall p, (s.kernel.proc p).state ≠ .RUNNING
  thread : forall p, (s.thread p).spot = .user

end Machine

end Kernel
end Xv6
