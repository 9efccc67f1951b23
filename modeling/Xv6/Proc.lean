import Xv6.Exec

/-!
# Processes and threads

`proc.c`: creating, ending, reaping, waking and killing processes and threads.
A call that goes to sleep stops; `exit` ends in the scheduler, so here it
returns.  The copying of the caller's stack in `clone` only touches user memory
and is left out, as are the messages on the console.
-/

namespace Xv6
namespace Kernel

open Lib Lib.Run

def TOTAL_MAX_TICKETS : Int := 100000
def DEFAULT_TICKETS : Int := 1

def setProcs (g : Pslot -> Proc -> Proc) : KM Unit :=
  modify (fun k => { k with proc := fun p => g p (k.proc p) })

def allocproc : KM (Option Pslot) := do
  let p ← gets (fun k =>
    (List.finRange NPROC).find? (fun p => (k.proc p).state = .UNUSED))
  match p with
  | none => pure none
  | some p => do
      let pid ← gets nextpid
      setProc p (fun pr =>
        { pr with syscallCount := 0, state := .EMBRYO, pid := pid })
      modify (fun k => { k with nextpid := pid + 1 })
      -- Allocate kernel stack.
      let kstack ← onVm Vm.kalloc
      setProc p (fun pr => { pr with kstack := kstack })
      match kstack with
      | none => do
          setProc p (fun pr => { pr with state := .UNUSED })
          pure none
      | some _ => do
          setProc p (fun pr => { pr with pass := 0, threadIndictor := 0 })
          pure (some p)

def growproc (cur : Pslot) (n : Int32) : KM Int := do
  let pr ← gets (fun k => k.proc cur)
  match pr.pgdir with
  | none => stop .nullDeref
  | some pgdir => do
      let sz ←
        if 0 < n then
          onVm (Vm.allocuvm pgdir pr.sz (pr.sz + n.toUInt32))
        else if n < 0 then
          onVm (Vm.deallocuvm pgdir pr.sz (pr.sz + n.toUInt32))
        else
          pure pr.sz
      if n ≠ 0 ∧ sz = 0 then
        pure (-1)
      else do
        setProc cur (fun pr => { pr with sz := sz })
        switchuvm cur
        pure 0

def sysSbrk (cur : Pslot) (n : Option Int32) : KM Int := do
  match n with
  | none => pure (-1)
  | some n => do
      let addr ← gets (fun k => (k.proc cur).sz)
      let r ← growproc cur n
      pure (if r < 0 then -1 else addr.toInt32.toInt)

/-- The ticket loop at the end of `fork`, for one slot. -/
def resetTickets (pr : Proc) : Proc :=
  if pr.state = .RUNNABLE ∨ pr.state = .RUNNING then
    if pr.tickets ≠ 0 then
      let stride := TOTAL_MAX_TICKETS.tdiv pr.tickets
      { pr with
        stride := stride
        pass := stride
        executionCount := 0
        executionTime := 0 }
    else
      pr
  else
    { pr with
      executionCount := 0
      executionTime := 0
      tickets := DEFAULT_TICKETS
      stride := 0 }

def dupOfile (cur np : Pslot) (fd : Fin NOFILE) : KM Unit := do
  match ← gets (fun k => (k.proc cur).ofile fd) with
  | none => pure ()
  | some f => do
      let f ← filedup f
      setOfile np fd (some f)

def fork (cur : Pslot) : KM Int := do
  match ← allocproc with
  | none => pure (-1)
  | some np => do
      let pr ← gets (fun k => k.proc cur)
      let pgdir ← match pr.pgdir with
        | none => stop .nullDeref
        | some pgdir => onVm (Vm.copyuvm pgdir pr.sz)
      setProc np (fun p => { p with pgdir := pgdir })
      match pgdir with
      | none => do
          match ← gets (fun k => (k.proc np).kstack) with
          | none => panic "kfree"
          | some kstack => onVm (Vm.kfree kstack)
          setProc np (fun p => { p with kstack := none, state := .UNUSED })
          pure (-1)
      | some _ => do
          -- Clear %eax so that fork returns 0 in the child.
          setProc np (fun p =>
            { p with
              sz := pr.sz
              parent := some cur
              tf := { pr.tf with eax := 0 } })
          forEach (dupOfile cur np) (List.finRange NOFILE)
          match pr.cwd with
          | none => stop .nullDeref
          | some cwd => do
              let cwd ← onFs (Fs.idup cwd)
              setProc np (fun p =>
                { p with cwd := some cwd, name := pr.name.take 15 })
          let pid ← pidOf np
          setProc np (fun p => { p with state := .RUNNABLE })
          setProcs (fun _ p => resetTickets p)
          pure pid.toInt

/-- A new thread on the caller's address space; `stack` is its stack.  The copy
of the caller's frame, which can fault, is not here but in `cloneFrame`. -/
def clone (cur : Pslot) (stack : UInt32) : KM Int := do
  modify (fun k => { k with numofthread := k.numofthread + 1 })
  match ← allocproc with
  | none => pure (-1)
  | some newp => do
      let pr ← gets (fun k => k.proc cur)
      let topStack := pr.tf.ebp + 4 * 4
      let parentSize := topStack - pr.tf.esp
      setProc newp (fun p =>
        { p with
          pgdir := pr.pgdir
          sz := pr.sz
          parent := some cur
          threadIndictor := 1
          tf :=
            { pr.tf with
              eax := 0
              esp := stack - parentSize
              ebp := stack - 4 * 4 }
          ofile := fun fd => (pr.ofile fd).or (p.ofile fd)
          cwd := pr.cwd
          state := .RUNNABLE
          name := pr.name.take 15 })
      let pid ← pidOf newp
      pure pid.toInt

def wake (chan : Option Chan) (pr : Proc) : Proc :=
  if pr.state = .SLEEPING ∧ pr.chan = chan then
    { pr with state := .RUNNABLE }
  else
    pr

/-- Wake up all processes sleeping on `chan`. -/
def wakeup1 (chan : Option Chan) : KM Unit :=
  setProcs (fun _ pr => wake chan pr)

def exitOfile (cur : Pslot) (fd : Fin NOFILE) : KM Unit := do
  match ← gets (fun k => (k.proc cur).ofile fd) with
  | none => pure ()
  | some f => do
      fileclose cur f
      setOfile cur fd none

/-- Pass one slot of the process table to init if it is the caller's child. -/
def passChild (cur p : Pslot) : KM Unit := do
  let pr ← gets (fun k => k.proc p)
  if pr.parent = some cur then do
    let init ← gets initproc
    setProc p (fun pr => { pr with parent := some init })
    if pr.state = .ZOMBIE then
      wakeup1 (some (.proc init))
    else
      pure ()
  else
    pure ()

def exit (cur : Pslot) : KM Unit := do
  if cur = (← gets initproc) then
    panic "init exiting"
  else do
    if (← gets numofthread) = 0 then do
      forEach (exitOfile cur) (List.finRange NOFILE)
      let pid ← pidOf cur
      onFs Fs.beginOp
      match ← cwdOf cur with
      | none => stop .nullDeref
      | some cwd => onFs (Fs.iput pid cwd)
      onFs Fs.endOp
      setProc cur (fun p => { p with cwd := none })
    else
      pure ()
    -- parents might be sleeping in wait
    wakeup1 ((← gets (fun k => (k.proc cur).parent)).map Chan.proc)
    -- pass the children to init
    forEach (passChild cur) (List.finRange NPROC)
    setProc cur (fun p => { p with state := .ZOMBIE })

def reap (p : Pslot) : KM Int := do
  let pr ← gets (fun k => k.proc p)
  if pr.threadIndictor = 1 then do
    modify (fun k => { k with numofthread := k.numofthread - 1 })
    setProc p (fun pr => { pr with state := .UNUSED })
    pure pr.pid.toInt
  else do
    match pr.kstack with
    | none => panic "kfree"
    | some kstack => onVm (Vm.kfree kstack)
    setProc p (fun pr => { pr with kstack := none })
    onVm (Vm.freevm pr.pgdir)
    setProc p (fun pr =>
      { pr with
        pid := 0
        parent := none
        name := []
        killed := false
        state := .UNUSED })
    pure pr.pid.toInt

/-- The scan of `wait` takes the first child that has exited. -/
def wait (cur : Pslot) : KM Int := do
  let k ← gets id
  match (List.finRange NPROC).find? (fun p =>
      (k.proc p).parent = some cur ∧ (k.proc p).state = .ZOMBIE) with
  | some p => reap p
  | none =>
      -- No point waiting if we don't have any children.
      if (forall p, (k.proc p).parent ≠ some cur) ∨
          (k.proc cur).killed = true then
        pure (-1)
      else
        stop .sleep

/-!
## Sleeping, waking, killing
-/

def yield (cur : Pslot) : KM Unit :=
  setProc cur (fun pr => { pr with state := .RUNNABLE })

/-- The part of `sleep` before it enters the scheduler. -/
def sleep (cur : Pslot) (chan : Chan) : KM Unit :=
  setProc cur (fun pr => { pr with chan := some chan, state := .SLEEPING })

def wakeup (chan : Chan) : KM Unit := wakeup1 (some chan)

/-- `scheduler` switches to the process, which clears `chan` when it comes out
of `sleep`. -/
def dispatch (p : Pslot) : KM Unit :=
  setProc p (fun pr => { pr with state := .RUNNING, chan := none })

def kill (pid : Int) : KM Int := do
  let p ← gets (fun k =>
    (List.finRange NPROC).find? (fun p => (k.proc p).pid.toInt = pid))
  match p with
  | none => pure (-1)
  | some p => do
      setProc p (fun pr =>
        { pr with
          killed := true
          state := if pr.state = .SLEEPING then .RUNNABLE else pr.state })
      pure 0

/-- Allocate `n` tickets to the caller; `none` where the argument cannot be
fetched. -/
def sysTickets (cur : Pslot) (n : Option Int32) : KM Int := do
  match n with
  | none => pure (-1)
  | some n => do
      setProc cur (fun pr => { pr with tickets := n.toInt })
      pure 0

end Kernel
end Xv6
