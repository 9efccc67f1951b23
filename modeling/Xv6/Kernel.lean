import Xv6.Fs.Sysfile
import Xv6.Vm.Code

/-!
# Kernel state

The tables that system calls work on: the file system, the memory, the open
files, the pipes and the processes.  Memory and pipes share the physical pages,
a pipe being named by the page it lives in.  A process is named by its slot,
and `cur` is the slot of the caller, `myproc()` in the source.
-/

namespace Xv6

open Lib Lib.Run

inductive FdType where
  | FD_NONE
  | FD_PIPE
  | FD_INODE
  deriving DecidableEq, Repr

structure File where
  type : FdType
  ref : Int
  readable : Bool
  writable : Bool
  pipe : UInt32
  ip : Slot
  off : UInt32

abbrev PIPESIZE : Nat := 512

structure Pipe where
  data : Bytes PIPESIZE
  nread : UInt32
  nwrite : UInt32
  readopen : Bool
  writeopen : Bool

inductive Procstate where
  | UNUSED
  | EMBRYO
  | SLEEPING
  | RUNNABLE
  | RUNNING
  | ZOMBIE
  deriving DecidableEq, Repr

/-- The registers of `struct trapframe` that the modelled code touches. -/
structure Trapframe where
  eax : UInt32
  eip : UInt32
  esp : UInt32
  ebp : UInt32

abbrev Pslot : Type := Fin NPROC

abbrev Fslot : Type := Fin NFILE

/-- What a process can sleep on: a process, as in `wait`, or some other
address. -/
inductive Chan where
  | proc (p : Pslot)
  | addr (a : UInt32)
  deriving DecidableEq, Repr

structure Proc where
  sz : UInt32
  pgdir : Option UInt32
  kstack : Option UInt32
  state : Procstate
  pid : Int32
  parent : Option Pslot
  tf : Trapframe
  chan : Option Chan
  killed : Bool
  ofile : Fin NOFILE -> Option Fslot
  cwd : Option Slot
  name : List UInt8
  syscallCount : Int
  tickets : Int
  executionCount : Int
  executionTime : Int
  pass : Int
  stride : Int
  threadIndictor : Int

structure Kernel where
  fs : Fs
  vm : Vm
  file : Fslot -> File
  pipe : UInt32 -> Pipe
  proc : Pslot -> Proc
  initproc : Pslot
  nextpid : Int32
  numofthread : Int

abbrev KM : Type -> Type := Run Stop Kernel

namespace Kernel

variable {α : Type}

def panic (msg : String) : KM α := stop (.panic msg)

def onFs (m : FsM α) : KM α := zoom fs (fun s k => { k with fs := s }) m

def onVm (m : VmM α) : KM α := zoom vm (fun s k => { k with vm := s }) m

def setFile (f : Fslot) (g : File -> File) : KM Unit :=
  modify (fun k => { k with file := Function.update k.file f (g (k.file f)) })

def setPipe (p : UInt32) (g : Pipe -> Pipe) : KM Unit :=
  modify (fun k => { k with pipe := Function.update k.pipe p (g (k.pipe p)) })

def setProc (p : Pslot) (g : Proc -> Proc) : KM Unit :=
  modify (fun k => { k with proc := Function.update k.proc p (g (k.proc p)) })

def setOfile (p : Pslot) (fd : Fin NOFILE) (f : Option Fslot) : KM Unit :=
  setProc p (fun pr => { pr with ofile := Function.update pr.ofile fd f })

def pidOf (cur : Pslot) : KM Int32 := gets (fun k => (k.proc cur).pid)

def cwdOf (cur : Pslot) : KM (Option Slot) := gets (fun k => (k.proc cur).cwd)

end Kernel
end Xv6
