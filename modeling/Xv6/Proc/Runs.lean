import Xv6.Proc.CloneCall
import Xv6.Proc.Own

/-!
# Runs of the kernel

The kernel as a transition system.  A step is one completed call of a running
process, or the scheduler letting a process run, or a wakeup.  What a step does
to a slot of the process table is collected in one relation, from which the
invariants of the table are derived.

The runs have more steps `clone` than the code: any address is taken for the
stack, where `sys_clone` refuses what is not in the image, and the frame is not
copied, where the copy may fault.  `sysClone_step` says that each call that
returns is such a step, and `Called` singles out steps that are calls.
-/

namespace Xv6
namespace Kernel

open Lib Lib.Run

inductive Act where
  | fork (cur : Pslot)
  | clone (cur : Pslot) (stack : UInt32)
  | exit (cur : Pslot)
  | wait (cur : Pslot)
  | kill (cur : Pslot) (pid : Int32)
  | tickets (cur : Pslot) (n : Option Int32)
  | call (cur : Pslot) (c : FsCall)
  | dup (cur : Pslot) (fd : Option Int32)
  | pipe (cur : Pslot) (ok : Bool)
  | sbrk (cur : Pslot) (n : Option Int32)
  | yield (cur : Pslot)
  | sleep (cur : Pslot) (chan : Chan)
  | wakeup (chan : Chan)
  | dispatch (p : Pslot)

namespace Act

def run : Act -> KM Int
  | fork cur => Kernel.fork cur
  | clone cur stack => Kernel.clone cur stack
  | exit cur => do
      Kernel.exit cur
      pure 0
  | wait cur => Kernel.wait cur
  | kill _ pid => Kernel.kill pid.toInt
  | tickets cur n => sysTickets cur n
  | call cur c => c.run cur
  | dup cur fd => sysDup cur fd
  | pipe cur ok => do
      let r ← sysPipe cur ok
      pure r.1
  | sbrk cur n => sysSbrk cur n
  | yield cur => do
      Kernel.yield cur
      pure 0
  | sleep cur chan => do
      Kernel.sleep cur chan
      pure 0
  | wakeup chan => do
      Kernel.wakeup chan
      pure 0
  | dispatch p => do
      Kernel.dispatch p
      pure 0

/-- The process that takes the step, `none` for the scheduler and for wakeups
out of interrupts. -/
def caller : Act -> Option Pslot
  | fork cur => some cur
  | clone cur _ => some cur
  | exit cur => some cur
  | wait cur => some cur
  | kill cur _ => some cur
  | tickets cur _ => some cur
  | call cur _ => some cur
  | dup cur _ => some cur
  | pipe cur _ => some cur
  | sbrk cur _ => some cur
  | yield cur => some cur
  | sleep cur _ => some cur
  | wakeup _ => none
  | dispatch _ => none

def own : Act -> Prop
  | call _ _ => True
  | dup _ _ => True
  | pipe _ _ => True
  | sbrk _ _ => True
  | _ => False

end Act

/-- Only a running process makes calls, and only a runnable one is
dispatched. -/
def Enabled (k : Kernel) (a : Act) : Prop :=
  (forall cur, a.caller = some cur -> (k.proc cur).state = .RUNNING) ∧
    (forall p, a = .dispatch p -> (k.proc p).state = .RUNNABLE)

def Step (k : Kernel) (a : Act) (k' : Kernel) : Prop :=
  Enabled k a ∧ exists r, a.run k = .ok (r, k')

theorem caller_used {k k' : Kernel} {a : Act} {cur : Pslot}
    (h : Step k a k') (hcur : a.caller = some cur) :
    (k.proc cur).state ≠ .UNUSED := by
  rw [h.1.1 cur hcur]
  exact Procstate.noConfusion

theorem enabled_call {k : Kernel} {a : Act} {cur : Pslot}
    (hcaller : a.caller = some cur) (hstate : (k.proc cur).state = .RUNNING) :
    Enabled k a := by
  constructor
  · intro p hp
    rw [hcaller] at hp
    cases hp
    exact hstate
  · rintro p rfl
    cases hcaller

theorem enabled_dispatch {k : Kernel} {p : Pslot}
    (hstate : (k.proc p).state = .RUNNABLE) : Enabled k (.dispatch p) := by
  constructor
  · intro cur hcur
    cases hcur
  · intro q hq
    cases hq
    exact hstate

/-- A call of `sys_clone` that returns has been refused, or it is a step up to
the contents of pages. -/
theorem sysClone_step {k k' : Kernel} {cur : Pslot} {r : Int}
    (hstate : (k.proc cur).state = .RUNNING)
    (hrun : sysClone cur k = .ok (r, k')) :
    r = -1 ∧ k' = k ∨
      exists stack k1, Step k (.clone cur stack) k1 ∧ Moved k1 k' := by
  have hlive : (k.proc cur).state ≠ .UNUSED := by
    rw [hstate]
    exact Procstate.noConfusion
  rcases sysClone_cases hrun with hrefused | ⟨stack, hframe⟩
  · exact Or.inl hrefused
  · rcases wp_ok (wp_cloneFrame stack hlive) hframe with
      ⟨k1, hclone, hmoved, _⟩
    exact Or.inr ⟨stack, k1, ⟨enabled_call rfl hstate, r, hclone⟩, hmoved⟩

def next (a : Act) (k : Kernel) : Kernel :=
  match a.run k with
  | .ok (_, k') => k'
  | .error _ => k

theorem step_next {k : Kernel} {a : Act} {r : Int} (henabled : Enabled k a)
    (hvalue : value? (a.run k) = some r) : Step k a (next a k) := by
  rcases value?_eq_some hvalue with ⟨k', hrun⟩
  have hnext : next a k = k' := by
    unfold next
    rw [hrun]
  rw [hnext]
  exact ⟨henabled, r, hrun⟩

def ready (k : Kernel) : Act -> Bool
  | .dispatch p => (k.proc p).state = .RUNNABLE
  | a =>
      match a.caller with
      | some cur => (k.proc cur).state = .RUNNING
      | none => true

theorem enabled_of_ready {k : Kernel} {a : Act} (h : ready k a = true) :
    Enabled k a := by
  constructor
  · intro cur hcur
    cases a with
    | dispatch p | wakeup chan => cases hcur
    | _ =>
        cases hcur
        exact of_decide_eq_true h
  · rintro p rfl
    exact of_decide_eq_true h

def play : List Act -> Kernel -> Kernel
  | [], k => k
  | a :: rest, k => play rest (next a k)

/-- A `clone` is the call that the registers and the memory of the caller ask
for: `sys_clone` accepts it, and its copy of the caller's frame changes
nothing. -/
def Called (k : Kernel) (a : Act) : Prop :=
  forall cur stack, a = .clone cur stack -> sysClone cur k = a.run k

def plain (k : Kernel) : Act -> Bool
  | .clone cur stack => k.plainClone cur stack
  | _ => true

theorem called_of_plain {k k' : Kernel} {a : Act} (hstep : Step k a k')
    (h : plain k a = true) : Called k a := by
  rintro cur stack rfl
  exact sysClone_plain (caller_used hstep rfl) h

def playable : List Act -> Kernel -> Bool
  | [], _ => true
  | a :: rest, k =>
      ready k a && plain k a && (value? (a.run k)).isSome &&
        playable rest (next a k)

/-- The condition holds at every step of the list. -/
def Along (C : Kernel -> Act -> Prop) : List Act -> Kernel -> Prop
  | [], _ => True
  | a :: rest, k => C k a ∧ Along C rest (next a k)

theorem playable_cons {a : Act} {rest : List Act} {k : Kernel}
    (h : playable (a :: rest) k = true) :
    Step k a (next a k) ∧ Called k a ∧ playable rest (next a k) = true := by
  simp only [playable, Bool.and_eq_true] at h
  rcases h with ⟨⟨⟨hready, hplain⟩, hvalue⟩, hrest⟩
  rcases Option.isSome_iff_exists.mp hvalue with ⟨r, hr⟩
  have hstep := step_next (enabled_of_ready hready) hr
  exact ⟨hstep, called_of_plain hstep hplain, hrest⟩

theorem runs_along {C : Kernel -> Act -> Prop} {acts : List Act}
    {k₀ k : Kernel} (hruns : Runs Step C k₀ k) (h : playable acts k = true)
    (hC : Along C acts k) : Runs Step C k₀ (play acts k) := by
  induction acts generalizing k with
  | nil => exact hruns
  | cons a rest ih =>
      rcases playable_cons h with ⟨hstep, _, hrest⟩
      exact ih (Runs.tail a hruns hC.1 hstep) hrest hC.2

theorem runs_play {acts : List Act} {k₀ k : Kernel}
    (hruns : Runs Step Called k₀ k) (h : playable acts k = true) :
    Runs Step Called k₀ (play acts k) := by
  apply runs_along hruns h
  clear hruns
  induction acts generalizing k with
  | nil => trivial
  | cons a rest ih =>
      rcases playable_cons h with ⟨_, hcalled, hrest⟩
      exact ⟨hcalled, ih hrest⟩

/-- The state after `userinit`: one process, with any registers, a cleared slot
everywhere else, and no open file. -/
structure Booted (k : Kernel) : Prop where
  init : exists (kstack pgdir : UInt32) (cwd : Slot) (state : Procstate),
    (state = .RUNNABLE ∨ state = .RUNNING) ∧
      k.proc k.initproc =
        { initProc with
          kstack := some kstack
          pgdir := some pgdir
          cwd := some cwd
          state := state
          tf := (k.proc k.initproc).tf }
  other : forall p, p ≠ k.initproc -> k.proc p = zeroProc
  nextpid : k.nextpid = 2
  numofthread : k.numofthread = 0
  file : forall f, (k.file f).ref = 0 ∧ (k.file f).type = .FD_NONE

/-- Fields that are as in a zeroed table. -/
structure Blank (pr : Proc) : Prop where
  parent : pr.parent = none
  killed : pr.killed = false
  threadIndictor : pr.threadIndictor = 0
  ofile : forall fd, pr.ofile fd = none

theorem Booted.blank {k : Kernel} (h : Booted k) (p : Pslot) :
    Blank (k.proc p) := by
  rcases eq_or_ne p k.initproc with rfl | hne
  · rcases h.init with ⟨_, _, _, _, _, hinit⟩
    rw [hinit]
    exact ⟨rfl, rfl, rfl, fun _ => rfl⟩
  · rw [h.other p hne]
    exact ⟨rfl, rfl, rfl, fun _ => rfl⟩

theorem boot_booted : Booted boot := by
  constructor
  · exact ⟨pageAddr 0x400, pageAddr 0x401, 0, .RUNNING, Or.inr rfl, rfl⟩
  · intro p hp
    exact if_neg hp
  · rfl
  · rfl
  · exact fun _ => ⟨rfl, rfl⟩

/-!
## What a step does to the process table
-/

inductive Moves (t : Procs) : Act -> Procs -> Prop where
  | fork {cur : Pslot} {r : Int} {t' : Procs} (h : Fork cur t r t') :
      Moves t (.fork cur) t'
  | clone {cur : Pslot} {stack : UInt32} {r : Int} {t' : Procs}
      (h : Clone cur stack t r t') : Moves t (.clone cur stack) t'
  | exit {cur : Pslot} {t' : Procs} (h : Exit cur t t') :
      Moves t (.exit cur) t'
  | wait {cur : Pslot} {r : Int} {t' : Procs} (h : Wait cur t r t') :
      Moves t (.wait cur) t'
  | kill {cur : Pslot} {pid : Int32} {r : Int} {t' : Procs}
      (h : Kill pid.toInt t r t') : Moves t (.kill cur pid) t'
  | own {a : Act} {cur : Pslot} {t' : Procs} (ha : a.caller = some cur)
      (h : Own cur t t') (hown : a.own) : Moves t a t'
  | none (cur : Pslot) : Moves t (.tickets cur none) t
  | tickets (cur : Pslot) (n : Int32) :
      Moves t (.tickets cur (some n))
        (t.set cur (fun pr => { pr with tickets := n.toInt }))
  | yield (cur : Pslot) :
      Moves t (.yield cur) (t.set cur (fun pr => { pr with state := .RUNNABLE }))
  | sleep (cur : Pslot) (chan : Chan) :
      Moves t (.sleep cur chan)
        (t.set cur (fun pr =>
          { pr with chan := some chan, state := .SLEEPING }))
  | wakeup (chan : Chan) : Moves t (.wakeup chan) (t.map (wake (some chan)))
  | dispatch (p : Pslot) :
      Moves t (.dispatch p)
        (t.set p (fun pr => { pr with state := .RUNNING, chan := none }))

theorem step_moves {k k' : Kernel} {a : Act} (h : Step k a k') :
    Moves k.procs a k'.procs := by
  have hlive : forall cur, a.caller = some cur ->
      (k.proc cur).state ≠ .UNUSED := fun _ => caller_used h
  rcases h with ⟨henabled, r, hrun⟩
  have hown : forall {m : KM Int} {cur : Pslot}, OwnTurns cur m ->
      m k = .ok (r, k') -> Own cur k.procs k'.procs := by
    intro m cur hm hok
    exact (wp_iff.mp (hm k.procs k (Own.refl cur k.procs))).1 r k' hok
  cases a with
  | fork cur => exact Moves.fork ((sees_fork (hlive cur rfl)).ok hrun)
  | clone cur stack =>
      exact Moves.clone ((sees_clone stack (hlive cur rfl)).ok hrun)
  | exit cur =>
      have hexit : Sees procs (Act.exit cur).run k.procs
          (fun _ t' => Exit cur k.procs t') :=
        Sees.bind (sees_exit cur k.procs) (fun _ _ h => Sees.pure h)
      exact Moves.exit (hexit.ok hrun)
  | wait cur => exact Moves.wait ((sees_wait cur k.procs).ok hrun)
  | kill cur pid => exact Moves.kill ((sees_kill pid.toInt k.procs).ok hrun)
  | tickets cur n =>
      cases n with
      | none =>
          cases hrun
          exact Moves.none cur
      | some n =>
          cases hrun
          exact Moves.tickets cur n
  | call cur c => exact Moves.own rfl (hown (own_run c) hrun) trivial
  | dup cur fd =>
      exact Moves.own rfl (hown (noOfile_own.sysDup fd) hrun) trivial
  | pipe cur ok =>
      exact Moves.own rfl
        (hown (Turns.bind (noOfile_own.sysPipe ok) (fun _ => table_pure _)) hrun)
        trivial
  | sbrk cur n => exact Moves.own rfl (hown (own_sysSbrk n) hrun) trivial
  | yield cur =>
      cases hrun
      exact Moves.yield cur
  | sleep cur chan =>
      cases hrun
      exact Moves.sleep cur chan
  | wakeup chan =>
      cases hrun
      exact Moves.wakeup chan
  | dispatch p =>
      cases hrun
      exact Moves.dispatch p

/-!
## What becomes of a slot
-/

/-- A slot in this state is free, or will be after a `wait`. -/
def Idle (st : Procstate) : Prop := st = .UNUSED ∨ st = .ZOMBIE

instance : DecidablePred Idle :=
  fun st => inferInstanceAs (Decidable (st = .UNUSED ∨ st = .ZOMBIE))

/-- A process in this state makes calls, now or later. -/
def Alive (st : Procstate) : Prop :=
  st = .SLEEPING ∨ st = .RUNNABLE ∨ st = .RUNNING

instance : DecidablePred Alive :=
  fun st => inferInstanceAs (Decidable (st = .SLEEPING ∨ _))

theorem alive_iff_of_woken {st st' : Procstate}
    (h : st' = st ∨ st = .SLEEPING ∧ st' = .RUNNABLE) :
    Alive st' ↔ Alive st := by
  rcases h with rfl | ⟨rfl, rfl⟩
  · exact Iff.rfl
  · decide

theorem idle_iff_of_woken {st st' : Procstate}
    (h : st' = st ∨ st = .SLEEPING ∧ st' = .RUNNABLE) : Idle st' ↔ Idle st := by
  rcases h with rfl | ⟨rfl, rfl⟩
  · exact Iff.rfl
  · decide

/-- The slot `q` of the table `t` becomes the record in a step `a`. -/
inductive Becomes (t : Procs) (q : Pslot) : Act -> Proc -> Prop where
  | same (a : Act) : Becomes t q a (t.proc q)
  | noStack (a : Act) (h : (t.proc q).state = .UNUSED) :
      Becomes t q a ((t.noStack q).proc q)
  | noCopy (a : Act) (kstack : UInt32) (h : (t.proc q).state = .UNUSED) :
      Becomes t q a ((t.noCopy q kstack).proc q)
  | child (cur : Pslot) (kstack pgdir : UInt32)
      (h : (t.proc q).state = .UNUSED)
      (hfirst : forall p, p < q -> (t.proc p).state ≠ .UNUSED) :
      Becomes t q (.fork cur) ((t.forked cur q kstack pgdir).proc q)
  | reset (cur : Pslot) : Becomes t q (.fork cur) (resetTickets (t.proc q))
  | thread (cur : Pslot) (kstack stack : UInt32)
      (h : (t.proc q).state = .UNUSED)
      (hfirst : forall p, p < q -> (t.proc p).state ≠ .UNUSED) :
      Becomes t q (.clone cur stack) ((t.cloned cur q kstack stack).proc q)
  | exitClosed (woken : Bool) (h : t.numofthread = 0) :
      Becomes t q (.exit q) (((t.closed q).exited q woken).proc q)
  | exitLeft (woken : Bool) (h : t.numofthread ≠ 0) :
      Becomes t q (.exit q) ((t.exited q woken).proc q)
  | passed (cur : Pslot) (woken : Bool) :
      Becomes t q (.exit cur)
        (passSlot cur t.initproc woken
          (wake ((t.proc cur).parent.map Chan.proc) (t.proc q)))
  | reapedThread (cur : Pslot) (h : Finds cur t q)
      (hthread : (t.proc q).threadIndictor = 1) :
      Becomes t q (.wait cur) ((t.reapedThread q).proc q)
  | reaped (cur : Pslot) (h : Finds cur t q)
      (hthread : (t.proc q).threadIndictor ≠ 1) :
      Becomes t q (.wait cur) ((t.reaped q).proc q)
  | killed (cur : Pslot) (pid : Int32)
      (h : (t.proc q).pid.toInt = pid.toInt)
      (hfirst : forall p, p < q -> (t.proc p).pid.toInt ≠ pid.toInt) :
      Becomes t q (.kill cur pid) (killSlot (t.proc q))
  | tickets (n : Int32) :
      Becomes t q (.tickets q (some n)) { t.proc q with tickets := n.toInt }
  | own (a : Act) (ha : a.caller = some q) {pr : Proc}
      (h : OwnSlot (t.proc q) pr) (hown : a.own) : Becomes t q a pr
  | yield : Becomes t q (.yield q) { t.proc q with state := .RUNNABLE }
  | sleep (chan : Chan) :
      Becomes t q (.sleep q chan)
        { t.proc q with chan := some chan, state := .SLEEPING }
  | woken (chan : Chan) :
      Becomes t q (.wakeup chan) (wake (some chan) (t.proc q))
  | dispatched :
      Becomes t q (.dispatch q)
        { t.proc q with state := .RUNNING, chan := none }

theorem becomes_of_set {t t' : Procs} {a : Act} (p q : Pslot)
    (hother : forall q, q ≠ p -> t'.proc q = t.proc q)
    (h : Becomes t p a (t'.proc p)) : Becomes t q a (t'.proc q) := by
  rcases eq_or_ne q p with rfl | hq
  · exact h
  · rw [hother q hq]
    exact Becomes.same a

theorem becomes_of_allocproc {t t' : Procs} (h : Allocproc t none t')
    (a : Act) (q : Pslot) : Becomes t q a (t'.proc q) := by
  cases h with
  | full => exact Becomes.same a
  | noStack p hp =>
      exact becomes_of_set p q (fun _ hq => t.noStack_of_ne hq)
        (Becomes.noStack a hp)

theorem becomes_of_fork {cur : Pslot} {t t' : Procs} {r : Int}
    (h : Fork cur t r t') (q : Pslot) : Becomes t q (.fork cur) (t'.proc q) := by
  cases h with
  | noSlot h => exact becomes_of_allocproc h _ q
  | noCopy p kstack hp =>
      exact becomes_of_set p q (fun _ hq => t.noCopy_of_ne hq kstack)
        (Becomes.noCopy _ kstack hp)
  | done p kstack pgdir hp hfirst =>
      rcases eq_or_ne q p with rfl | hq
      · exact Becomes.child cur kstack pgdir hp hfirst
      · rw [t.forked_of_ne cur hq]
        exact Becomes.reset cur

theorem becomes_of_clone {cur : Pslot} {stack : UInt32} {t t' : Procs}
    {r : Int} (h : Clone cur stack t r t') (q : Pslot) :
    Becomes t q (.clone cur stack) (t'.proc q) := by
  cases h with
  | noSlot h =>
      cases h with
      | full => exact Becomes.same _
      | noStack p hp =>
          exact becomes_of_set p q (fun _ hq => t.counted.noStack_of_ne hq)
            (Becomes.noStack _ hp)
  | done p kstack hp hfirst =>
      exact becomes_of_set p q (fun _ hq => t.cloned_of_ne cur hq kstack stack)
        (Becomes.thread cur kstack stack hp hfirst)

theorem exit_other {cur q : Pslot} {t t' : Procs} (h : Exit cur t t')
    (hq : q ≠ cur) :
    exists woken, t'.proc q =
      passSlot cur t.initproc woken
        (wake ((t.proc cur).parent.map Chan.proc) (t.proc q)) := by
  cases h with
  | closed woken =>
      refine ⟨woken, (Procs.set_of_ne _ hq _).trans ?_⟩
      simp [Procs.map, Procs.closed, Procs.set_of_ne t hq]
  | left woken => exact ⟨woken, Procs.set_of_ne _ hq _⟩

theorem becomes_of_exit {cur : Pslot} {t t' : Procs} (h : Exit cur t t')
    (q : Pslot) : Becomes t q (.exit cur) (t'.proc q) := by
  rcases eq_or_ne q cur with rfl | hq
  · cases h with
    | closed woken _ hzero => exact Becomes.exitClosed woken hzero
    | left woken _ hthreads => exact Becomes.exitLeft woken hthreads
  · rcases exit_other h hq with ⟨woken, hslot⟩
    rw [hslot]
    exact Becomes.passed cur woken

theorem becomes_of_wait {cur : Pslot} {t t' : Procs} {r : Int}
    (h : Wait cur t r t') (q : Pslot) : Becomes t q (.wait cur) (t'.proc q) := by
  cases h with
  | thread p hfinds hthread =>
      exact becomes_of_set p q (fun _ hq => t.reapedThread_of_ne hq)
        (Becomes.reapedThread cur hfinds hthread)
  | proc p hfinds hthread =>
      exact becomes_of_set p q (fun _ hq => Procs.set_of_ne t hq _)
        (Becomes.reaped cur hfinds hthread)
  | none => exact Becomes.same _

theorem becomes_of_kill {cur : Pslot} {pid : Int32} {t t' : Procs} {r : Int}
    (h : Kill pid.toInt t r t') (q : Pslot) :
    Becomes t q (.kill cur pid) (t'.proc q) := by
  cases h with
  | found p hp hfirst =>
      apply becomes_of_set p q (fun _ hq => Procs.set_of_ne t hq _)
      rw [Procs.set_self]
      exact Becomes.killed cur pid hp hfirst
  | none => exact Becomes.same _

theorem becomes_of_own {cur : Pslot} {t t' : Procs} (h : Own cur t t')
    {a : Act} (ha : a.caller = some cur) (hown : a.own) (q : Pslot) :
    Becomes t q a (t'.proc q) :=
  becomes_of_set cur q h.other (Becomes.own a ha h.slot hown)

theorem becomes_of_moves {t t' : Procs} {a : Act} (h : Moves t a t')
    (q : Pslot) : Becomes t q a (t'.proc q) := by
  -- the last four only write one slot
  have hset : forall (p : Pslot) (g : Proc -> Proc),
      Becomes t p a (g (t.proc p)) -> Becomes t q a ((t.set p g).proc q) := by
    intro p g hp
    apply becomes_of_set p q (fun _ hq => t.set_of_ne hq g)
    rw [Procs.set_self]
    exact hp
  cases h with
  | fork h => exact becomes_of_fork h q
  | clone h => exact becomes_of_clone h q
  | exit h => exact becomes_of_exit h q
  | wait h => exact becomes_of_wait h q
  | kill h => exact becomes_of_kill h q
  | own ha h hown => exact becomes_of_own h ha hown q
  | none cur => exact Becomes.same _
  | wakeup chan => exact Becomes.woken chan
  | tickets cur n => exact hset cur _ (Becomes.tickets n)
  | yield cur => exact hset cur _ Becomes.yield
  | sleep cur chan => exact hset cur _ (Becomes.sleep chan)
  | dispatch p => exact hset p _ Becomes.dispatched

theorem step_becomes {k k' : Kernel} {a : Act} (h : Step k a k')
    (q : Pslot) : Becomes k.procs q a (k'.proc q) :=
  becomes_of_moves (step_moves h) q

/-!
## What a slot keeps
-/

structure Retains (pr pr' : Proc) : Prop where
  ofile : pr'.ofile = pr.ofile
  cwd : pr'.cwd = pr.cwd
  sz : pr'.sz = pr.sz
  threadIndictor : pr'.threadIndictor = pr.threadIndictor

/-- How the process in the slot `q` fares in a step, and with what it is left:
it goes on, it gives up or gets the CPU, the slot stays free, it is taken for a
child or a thread, or given up by `exit`, or reaped, or the process makes a call
on its own slot. -/
inductive Fares (t : Procs) (q : Pslot) (pr : Proc) : Act -> Prop where
  | kept (a : Act) (h : Retains (t.proc q) pr)
      (hstate : pr.state = (t.proc q).state ∨
        (t.proc q).state = .SLEEPING ∧ pr.state = .RUNNABLE) : Fares t q pr a
  | moved (a : Act) (h : Retains (t.proc q) pr)
      (hold : Alive (t.proc q).state) (hnew : Alive pr.state) : Fares t q pr a
  | free (a : Act) (hold : (t.proc q).state = .UNUSED)
      (hnew : pr.state = .UNUSED) (hofile : pr.ofile = (t.proc q).ofile)
      (hsz : pr.sz = (t.proc q).sz) : Fares t q pr a
  | made (a : Act) (cur : Pslot)
      (ha : a = .fork cur ∨ exists stack, a = .clone cur stack)
      (hold : (t.proc q).state = .UNUSED)
      (hfirst : forall p, p < q -> (t.proc p).state ≠ .UNUSED)
      (hnew : pr.state = .RUNNABLE)
      (hofile : forall fd, pr.ofile fd =
        ((t.proc cur).ofile fd).or ((t.proc q).ofile fd))
      (hcwd : pr.cwd = (t.proc cur).cwd) (hsz : pr.sz = (t.proc cur).sz)
      (hthread : pr.threadIndictor = 1 -> exists stack, a = .clone cur stack) :
      Fares t q pr a
  | exited (hnew : pr.state = .ZOMBIE)
      (hofile : pr.ofile =
        if t.numofthread = 0 then fun _ => none else (t.proc q).ofile)
      (hsz : pr.sz = (t.proc q).sz)
      (hthread : pr.threadIndictor = (t.proc q).threadIndictor) :
      Fares t q pr (.exit q)
  | reaped (cur : Pslot) (h : Finds cur t q) (hnew : pr.state = .UNUSED)
      (hofile : pr.ofile = (t.proc q).ofile) (hsz : pr.sz = (t.proc q).sz) :
      Fares t q pr (.wait cur)
  | own (a : Act) (ha : a.caller = some q) (h : OwnSlot (t.proc q) pr)
      (hown : a.own) : Fares t q pr a

theorem fares_of_becomes {t : Procs} {q : Pslot} {a : Act} {pr : Proc}
    (h : Becomes t q a pr)
    (hcaller : a.caller = some q -> Alive (t.proc q).state)
    (hready : a = .dispatch q -> Alive (t.proc q).state) : Fares t q pr a := by
  have hwake : forall chan, Retains (t.proc q) (wake chan (t.proc q)) := by
    intro chan
    rw [wake_eq]
    exact ⟨rfl, rfl, rfl, rfl⟩
  cases h with
  | same | tickets n => exact Fares.kept _ ⟨rfl, rfl, rfl, rfl⟩ (Or.inl rfl)
  | noStack _ hunused =>
      apply Fares.free _ hunused
      · simp [Procs.noStack]
      · simp [Procs.noStack]
      · simp [Procs.noStack]
  | noCopy _ kstack hunused =>
      apply Fares.free _ hunused
      · simp [Procs.noCopy]
      · simp [Procs.noCopy, Procs.embryo_self]
      · simp [Procs.noCopy, Procs.embryo_self]
  | child cur kstack pgdir hunused hfirst =>
      rw [Procs.forked_self, resetTickets_eq, Procs.embryo_self]
      refine Fares.made _ cur (Or.inl rfl) hunused hfirst rfl (fun _ => rfl)
        rfl rfl ?_
      intro hthread
      cases hthread
  | reset cur =>
      apply Fares.kept
      · rw [resetTickets_eq]
        exact ⟨rfl, rfl, rfl, rfl⟩
      · exact Or.inl (resetTickets_state _)
  | thread cur kstack stack hunused hfirst =>
      rw [show (t.cloned cur q kstack stack).proc q = _ from
        Procs.set_self _ q _, Procs.embryo_self]
      exact Fares.made _ cur (Or.inr ⟨stack, rfl⟩) hunused hfirst rfl
        (fun _ => rfl) rfl rfl (fun _ => ⟨stack, rfl⟩)
  | exitClosed woken hzero =>
      rw [Procs.exited_self]
      apply Fares.exited
      · rfl
      · rw [if_pos hzero]
        simp [Procs.closed]
      · simp [Procs.closed]
      · simp [Procs.closed]
  | exitLeft woken hthreads =>
      rw [Procs.exited_self]
      exact Fares.exited rfl (if_neg hthreads).symm rfl rfl
  | passed cur woken =>
      have hkept := hwake ((t.proc cur).parent.map Chan.proc)
      exact Fares.kept _
        ⟨hkept.ofile, hkept.cwd, hkept.sz, hkept.threadIndictor⟩
        (passSlot_wake_state _ _ _ _ _)
  | reapedThread cur hfinds hthread =>
      apply Fares.reaped cur hfinds
      · simp [Procs.reapedThread]
      · simp [Procs.reapedThread]
      · simp [Procs.reapedThread]
  | reaped cur hfinds hthread =>
      apply Fares.reaped cur hfinds
      · simp [Procs.reaped]
      · simp [Procs.reaped]
      · simp [Procs.reaped]
  | killed cur pid _ _ =>
      exact Fares.kept _ ⟨rfl, rfl, rfl, rfl⟩ (killSlot_state _)
  | own _ ha hslot hown => exact Fares.own _ ha hslot hown
  | yield =>
      exact Fares.moved _ ⟨rfl, rfl, rfl, rfl⟩ (hcaller rfl)
        (show Alive .RUNNABLE by decide)
  | sleep chan =>
      exact Fares.moved _ ⟨rfl, rfl, rfl, rfl⟩ (hcaller rfl)
        (show Alive .SLEEPING by decide)
  | woken chan => exact Fares.kept _ (hwake _) (wake_state _ _)
  | dispatched =>
      exact Fares.moved _ ⟨rfl, rfl, rfl, rfl⟩ (hready rfl)
        (show Alive .RUNNING by decide)

theorem caller_alive {k k' : Kernel} {a : Act} {cur : Pslot}
    (hstep : Step k a k') (hcur : a.caller = some cur) :
    Alive (k.proc cur).state := by
  rw [hstep.1.1 cur hcur]
  decide

theorem step_fares {k k' : Kernel} {a : Act} (h : Step k a k') (q : Pslot) :
    Fares k.procs q (k'.proc q) a := by
  apply fares_of_becomes (step_becomes h q)
  · exact caller_alive h
  · intro hready
    rw [show (k.procs.proc q).state = .RUNNABLE from h.1.2 q hready]
    decide

theorem not_idle_of_alive {st : Procstate} (h : Alive st) : ¬ Idle st := by
  rcases h with rfl | rfl | rfl
  · decide
  · decide
  · decide

end Kernel
end Xv6
