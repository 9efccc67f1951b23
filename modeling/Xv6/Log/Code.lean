import Xv6.Lib.Bytes
import Xv6.Lib.Crash
import Xv6.Param

/-!
# The redo log

This module embeds `log.c`: the header block, the copy loops of `write_log`
and `install_trans`, `commit`, and `recover_from_log`.  The disk sits behind
`bread` and `bwrite`; every `bwrite` reaches the disk as one atomic block
write, and the writes are recorded in the order they were issued.
-/

namespace Xv6

open Lib

abbrev Block : Type := Bytes BSIZE

/-!
## Disk and buffers
-/

/-- The disk as `log.c` sees it: the blocks on disk, the buffers that hold
cached contents, and the block writes issued so far, oldest first. -/
structure Bio where
  disk : Nat -> Block
  buf : Nat -> Option Block
  trace : List (Nat × Block)

namespace Bio

def boot (disk : Nat -> Block) : Bio where
  disk := disk
  buf := fun _ => none
  trace := []

def bread (io : Bio) (blockno : Nat) : Block :=
  (io.buf blockno).getD (io.disk blockno)

def bwrite (io : Bio) (blockno : Nat) (data : Block) : Bio where
  disk := Function.update io.disk blockno data
  buf := Function.update io.buf blockno (some data)
  trace := io.trace ++ [(blockno, data)]

/-- The loop body shared by `install_trans` and `write_log`, run for
`tail = 0 .. n - 1`: read a source block, copy it over a destination block and
write that one out. -/
def copyBlocks (io : Bio) (n : Nat) (src dst : Nat -> Nat) : Bio :=
  (List.range n).foldl
    (fun io tail => io.bwrite (dst tail) (io.bread (src tail))) io

end Bio

/-!
## The log header
-/

structure Logheader where
  n : Int
  block : Fin LOGSIZE -> UInt32

namespace Logheader

def blockAt (lh : Logheader) (i : Nat) : Nat :=
  if h : i < LOGSIZE then (lh.block ⟨i, h⟩).toNat else 0

def headN (b : Block) : Int :=
  (b.u32 0).toInt32.toInt

def headBlock (b : Block) (i : Nat) : UInt32 :=
  b.u32 (4 + 4 * i)

/-- The in-memory header after the assignments of `read_head`: `n` and the
first `n` block numbers are taken from a header block, the rest stays. -/
def load (lh : Logheader) (hb : Block) : Logheader where
  n := headN hb
  block := fun i =>
    if (i.val : Int) < headN hb then headBlock hb i.val else lh.block i

/-- The header block after the assignments of `write_head`: `n` and the first
`n` block numbers are stored, the rest of the block stays. -/
def store (lh : Logheader) (b : Block) : Block :=
  (List.range lh.n.toNat).foldl
    (fun b i => b.setU32 (4 + 4 * i) (UInt32.ofNat (lh.blockAt i)))
    (b.setU32 0 (Int32.ofInt lh.n).toUInt32)

end Logheader

/-- The fields of `struct log` other than its spin lock and device. -/
structure Log where
  start : Nat
  size : Nat
  outstanding : Int
  /-- In `commit()`, please wait. -/
  committing : Bool
  lh : Logheader

namespace Log

open Logheader

def homes (log : Log) : List Nat :=
  (List.range log.lh.n.toNat).map log.lh.blockAt

def installTrans (log : Log) (io : Bio) : Bio :=
  io.copyBlocks log.lh.n.toNat
    (fun tail => log.start + tail + 1) log.lh.blockAt

def writeLog (log : Log) (io : Bio) : Bio :=
  io.copyBlocks log.lh.n.toNat
    log.lh.blockAt (fun tail => log.start + tail + 1)

def readHead (log : Log) (io : Bio) : Log :=
  { log with lh := log.lh.load (io.bread log.start) }

def writeHead (log : Log) (io : Bio) : Bio :=
  io.bwrite log.start (log.lh.store (io.bread log.start))

def clear (log : Log) : Log :=
  { log with lh := { log.lh with n := 0 } }

def recoverFromLog (log : Log) (io : Bio) : Log × Bio :=
  let log := log.readHead io
  let io := log.installTrans io  -- if committed, copy from log to disk
  let log := log.clear
  (log, log.writeHead io)        -- clear the log

def commit (log : Log) (io : Bio) : Log × Bio :=
  if 0 < log.lh.n then
    let io := log.writeLog io      -- write modified blocks from cache to log
    let io := log.writeHead io     -- the real commit
    let io := log.installTrans io  -- now install writes to home locations
    let log := log.clear
    (log, log.writeHead io)        -- erase the transaction from the log
  else
    (log, io)

end Log
end Xv6
