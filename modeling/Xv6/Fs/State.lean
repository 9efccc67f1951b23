import Xv6.Fs.Layout
import Xv6.Log.Transaction

/-!
# File-system state

The state `fs.c` works on: the disk as seen through the buffer cache, the log
and the inode cache.  There is one disk, so device numbers are left out; a
`bread` of a block followed by changes to its data acts on the cached contents
directly.  That the cache finds a buffer for every `bread`, and that block
numbers are below `FSSIZE`, is outside this state.
-/

namespace Xv6

open Lib Lib.Run

/-- `struct inode`.  The sleep-lock is the pid of its holder, and `din` is the
copy of the on-disk inode. -/
structure Inode where
  inum : Nat
  ref : Int
  lock : Option Int32
  valid : Bool
  din : Dinode

abbrev Slot : Type := Fin NINODE

structure Fs where
  sb : Superblock
  disk : Nat -> Block
  log : Log
  icache : Slot -> Inode
  /-- What `consoleread` gives for a request; `none` while it sleeps. -/
  cons : Int32 -> Option (Int × List UInt8)

abbrev FsM : Type -> Type := Run Stop Fs

namespace Fs

variable {α : Type}

def panic (msg : String) : FsM α := stop (.panic msg)

def bread (b : Nat) : FsM Block := gets (fun s => s.disk b)

def setDisk (f : Superblock -> (Nat -> Block) -> Nat -> Block) : FsM Unit :=
  modify (fun s => { s with disk := f s.sb s.disk })

def bmodify (b : Nat) (f : Block -> Block) : FsM Unit :=
  setDisk (fun _ d => Function.update d b (f (d b)))

def logWrite (b : Nat) : FsM Unit := fun s =>
  match s.log.logWrite (UInt32.ofNat b) with
  | .ok log => .ok ((), { s with log := log })
  | .error e => .error e

def beginOp : FsM Unit := fun s =>
  match s.log.beginOp with
  | some log => .ok ((), { s with log := log })
  | none => .error .sleep

/-- The last operation commits, which empties the log. -/
def endOp : FsM Unit := fun s =>
  match s.log.endOp with
  | .ok (true, log) => .ok ((), { s with log := log.clear.endCommit })
  | .ok (false, log) => .ok ((), { s with log := log })
  | .error e => .error e

def inode (ip : Slot) : FsM Inode := gets (fun s => s.icache ip)

def setInode (ip : Slot) (f : Inode -> Inode) : FsM Unit :=
  modify (fun s =>
    { s with icache := Function.update s.icache ip (f (s.icache ip)) })

def setDin (ip : Slot) (f : Dinode -> Dinode) : FsM Unit :=
  setInode ip (fun i => { i with din := f i.din })

/-!
## Sleep-locks
-/

/-- A process that waits for its own lock waits forever. -/
def acquiresleep (pid : Int32) (ip : Slot) : FsM Unit := do
  match (← inode ip).lock with
  | none => setInode ip (fun i => { i with lock := some pid })
  | some holder => stop (if holder = pid then .deadlock else .sleep)

def releasesleep (ip : Slot) : FsM Unit :=
  setInode ip (fun i => { i with lock := none })

end Fs
end Xv6
