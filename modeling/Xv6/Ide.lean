import Xv6.Lib.Bytes
import Xv6.Lib.Links
import Xv6.Lib.Schedule
import Xv6.Param

/-!
# The disk drivers

`ide.c` queues the buffers that processes hand to `iderw`, starts the disk on
the first one and goes on with the next one when the disk interrupts.
`memide.c` copies the data at once.  The queue is linked through the buffers,
and a process finds out from the flags of its buffer that its request is done.
-/

namespace Xv6
namespace Ide

open Lib

abbrev NBUF : Nat := MAXOPBLOCKS * 3

abbrev Bslot : Type := Fin NBUF

abbrev Block : Type := Bytes BSIZE

abbrev Disk : Type := Nat -> Block

/-- A buffer; `qnext` is kept apart. -/
structure Buf where
  valid : Bool
  dirty : Bool
  dev : UInt32
  blockno : UInt32
  data : Block

/-- `(b->flags & (B_VALID|B_DIRTY)) == B_VALID`. -/
def Buf.synced (b : Buf) : Bool := b.valid && !b.dirty

/-!
## memide.c
-/

namespace Memide

def sync (b : Buf) (memdisk : Disk) : Buf × Disk :=
  if b.dirty then
    ({ b with dirty := false, valid := true },
      Function.update memdisk b.blockno.toNat b.data)
  else
    ({ b with data := memdisk b.blockno.toNat, valid := true }, memdisk)

/-- `iderw`, or the text of its panic; `disksize` is `FSSIZE`. -/
def iderw (holdingsleep : Bool) (b : Buf) (memdisk : Disk) :
    Except String (Buf × Disk) :=
  if holdingsleep = false then
    .error "iderw: buf not locked"
  else if b.synced = true then
    .error "iderw: nothing to do"
  else if b.dev ≠ 1 then
    .error "iderw: request not for disk 1"
  else if FSSIZE ≤ b.blockno.toNat then
    .error "iderw: block out of range"
  else
    .ok (sync b memdisk)

end Memide

/-!
## ide.c
-/

inductive Command where
  | read (sector : Nat)
  | write (sector : Nat) (data : Block)

/-- What the disk does.  Once it has executed a command it interrupts, and the
data of a read can be fetched. -/
inductive Device where
  | idle
  | busy (c : Command)
  | ready (data : Option Block)

/-- Where a process is: in a call for the buffer `b`, which was request `k`. -/
inductive Pc where
  | out
  /-- At the test of the loop, with `idelock`. -/
  | loop (b : Bslot) (k : Nat)
  | asleep (b : Bslot) (k : Nat)
  | woken (b : Bslot) (k : Nat)

def Pc.wake (b : Bslot) : Pc -> Pc
  | asleep c k => if c = b then woken c k else asleep c k
  | pc => pc

/-- A call of `iderw` and the buffer as it was then. -/
structure Request where
  b : Bslot
  buf : Buf

structure State (ι : Type) where
  buf : Bslot -> Buf
  /-- The process that has the sleep lock of a buffer. -/
  owner : Bslot -> Option ι
  idequeue : Option Bslot
  qnext : Bslot -> Option Bslot
  idelock : Option ι
  havedisk1 : Bool
  pc : ι -> Pc
  device : Device
  disk : Disk
  panic : Option String
  /-- All calls so far, in the order in which they were queued. -/
  requests : List Request
  /-- The number of requests that `ideintr` has finished. -/
  completed : Nat

variable {ι : Type} [DecidableEq ι]

/-- `BSIZE` is one sector. -/
def Buf.command (b : Buf) : Command :=
  if b.dirty then .write b.blockno.toNat b.data else .read b.blockno.toNat

namespace State

/-- The device is idle when `idewait` returns. -/
def idestart (s : State ι) (b : Bslot) : State ι :=
  if FSSIZE ≤ (s.buf b).blockno.toNat then
    { s with panic := some "incorrect blockno" }
  else
    { s with device := .busy (s.buf b).command }

/-- Append `b` to the queue.  The walk ends because the queue has fewer than
`NBUF` buffers. -/
def append (s : State ι) (b : Bslot) : State ι :=
  let qnext := Function.update s.qnext b none
  match s.idequeue with
  | none => { s with qnext := qnext, idequeue := some b }
  | some c =>
      match lastFrom qnext NBUF c with
      | none => { s with qnext := qnext }
      | some last => { s with qnext := Function.update qnext last (some b) }

/-- `iderw` up to its loop. -/
def iderw (s : State ι) (p : ι) (b : Bslot) : State ι :=
  if s.owner b ≠ some p then
    { s with panic := some "iderw: buf not locked" }
  else if (s.buf b).synced = true then
    { s with panic := some "iderw: nothing to do" }
  else if (s.buf b).dev ≠ 0 ∧ s.havedisk1 = false then
    { s with panic := some "iderw: ide disk 1 not present" }
  else if s.idelock = none then
    let s := s.append b
    let s := if s.idequeue = some b then s.idestart b else s
    { s with
      idelock := some p
      pc := Function.update s.pc p (.loop b s.requests.length)
      requests := s.requests ++ [⟨b, s.buf b⟩] }
  else
    s

/-- The loop of `iderw`. -/
def step (s : State ι) (p : ι) : State ι :=
  match s.pc p with
  | .loop b k =>
      if (s.buf b).synced = true then
        { s with idelock := none, pc := Function.update s.pc p .out }
      else
        { s with idelock := none, pc := Function.update s.pc p (.asleep b k) }
  | .woken b k =>
      if s.idelock = none then
        { s with idelock := some p, pc := Function.update s.pc p (.loop b k) }
      else
        s
  | _ => s

def execute (s : State ι) : State ι :=
  match s.device with
  | .busy (.read n) => { s with device := .ready (some (s.disk n)) }
  | .busy (.write n data) =>
      { s with
        disk := Function.update s.disk n data
        device := .ready none }
  | _ => s

def finished (b : Buf) (data : Option Block) : Buf :=
  { b with
    data := if b.dirty then b.data else data.getD b.data
    valid := true
    dirty := false }

/-- `ideintr`, where the disk has `data` for the handler. -/
def ideintr (s : State ι) (data : Option Block) : State ι :=
  match s.idequeue with
  | none => { s with device := .idle }
  | some b =>
      let s :=
        { s with
          idequeue := s.qnext b
          buf := Function.update s.buf b (finished (s.buf b) data)
          pc := fun q => (s.pc q).wake b
          device := .idle
          completed := s.completed + 1 }
      match s.idequeue with
      | none => s
      | some c => s.idestart c

end State

inductive Act (ι : Type) where
  /-- `acquiresleep(&b->lock)` and `releasesleep(&b->lock)`. -/
  | lock (p : ι) (b : Bslot)
  | unlock (p : ι) (b : Bslot)
  /-- A buffer that no call works on is filled, pinned by the log or used for
  another block. -/
  | change (b : Bslot) (buf : Buf)
  | iderw (p : ι) (b : Bslot)
  | step (p : ι)
  | disk
  | intr

def State.unused (s : State ι) (b : Bslot) : Bool :=
  match s.owner b with
  | none => true
  | some p =>
      match s.pc p with
      | .out => true
      | _ => false

def State.act (s : State ι) : Act ι -> State ι
  | .lock p b =>
      match s.owner b with
      | none => { s with owner := Function.update s.owner b (some p) }
      | some _ => s
  | .unlock p b =>
      match s.pc p with
      | .out =>
          if s.owner b = some p then
            { s with owner := Function.update s.owner b none }
          else
            s
      | _ => s
  | .change b buf =>
      if s.unused b = true then
        { s with buf := Function.update s.buf b buf }
      else
        s
  | .iderw p b =>
      match s.pc p with
      | .out => s.iderw p b
      | _ => s
  | .step p => s.step p
  | .disk => s.execute
  | .intr =>
      match s.device with
      | .ready data => if s.idelock = none then s.ideintr data else s
      | _ => s

/-- Nothing happens after a panic. -/
def next (a : Act ι) (s : State ι) : State ι :=
  match s.panic with
  | none => s.act a
  | some _ => s

/-- The calls are for blocks of disk 1, by the process that has the lock of the
buffer. -/
def Proper (s : State ι) : Act ι -> Prop
  | .iderw p b => s.owner b = some p ∧ (s.buf b).dev = 1 ∧
      (s.buf b).blockno.toNat < FSSIZE
  | _ => True

end Ide
end Xv6
