import Xv6.Proc
import Xv6.Vm.Entries

/-!
# The booted system

The state in which `init` makes its first call: one process with one page of
memory, no open files, and a disk image whose only directory is an empty
root.
-/

namespace Xv6

open Lib

/-!
## The disk
-/

/-- The bitmap of an image whose first data block holds the root directory. -/
def rootBitmap : Block := fun i =>
  if i.val < 7 then 255 else if i.val = 7 then 15 else 0

/-- The entries `.` and `..` of the root directory. -/
def rootBlock : Block := fun i =>
  if i.val < 16 then
    Dirent.bytes { inum := 1, name := dotName } i.val
  else if i.val < 32 then
    Dirent.bytes { inum := 1, name := dotdotName } (i.val - 16)
  else
    0

def rootDinode : Dinode :=
  { Dinode.zero with
    type := T_DIR
    nlink := 1
    size := 32
    addrs := fun k => if k = 0 then 59 else 0 }

def rootDisk : Nat -> Block :=
  Superblock.mkfs.setDinode
    (fun b =>
      if b = 58 then rootBitmap else if b = 59 then rootBlock else fun _ => 0)
    1 rootDinode

/-- The root is in the first slot of the inode cache. -/
def rootFs : Fs where
  sb := Superblock.mkfs
  disk := rootDisk
  log :=
    { start := 2
      size := LOGSIZE
      outstanding := 0
      committing := false
      lh := { n := 0, block := fun _ => 0 } }
  icache := fun ip =>
    if ip = 0 then
      { inum := 1, ref := 1, lock := none, valid := false, din := Dinode.zero }
    else
      { inum := 0, ref := 0, lock := none, valid := false, din := Dinode.zero }
  cons := fun _ => none

/-!
## The memory

The first pages above four megabytes are `init`'s: its kernel stack, its page
directory, its only page, the table of that page and the 64 tables of the
kernel's mappings.  The pages after them are free.
-/

def pageOf (w : Nat -> UInt32) : Page := fun i =>
  Bytes.byteOf (w (i.val / 4)).toNat (i.val % 4)

/-- The entry that `setupkvm` makes for an address. -/
def kernelPte (data va : UInt32) : UInt32 :=
  if va < KERNBASE then
    0
  else if va - KERNBASE < EXTMEM then
    (va - KERNBASE) ||| PTE_W ||| PTE_P
  else if va - KERNBASE < data then
    (va - KERNBASE) ||| PTE_P
  else if va - KERNBASE < PHYSTOP then
    (va - KERNBASE) ||| PTE_W ||| PTE_P
  else if va < DEVSPACE then
    0
  else
    va ||| PTE_W ||| PTE_P

def bootTable (j : Nat) : Option Nat :=
  if j = 0 then
    some 0x403
  else if 512 ≤ j ∧ j < 568 then
    some (0x404 + (j - 512))
  else if 1016 ≤ j then
    some (0x43C + (j - 1016))
  else
    none

def bootData : UInt32 := 0x108000

/-- The arguments of a call `clone(stack, size)`, above the stack pointer 1024
of `init`. -/
def initWords (i : Nat) : UInt32 :=
  if i = 257 then 2048 else if i = 258 then 1024 else 0

def bootMem (pa : UInt32) : Page :=
  let n := pa.toNat / 4096
  if n = 0x402 then
    pageOf initWords
  else if n = 0x401 then
    pageOf (fun j =>
      match bootTable j with
      | some t => pageAddr t ||| PTE_P ||| PTE_W ||| PTE_U
      | none => 0)
  else if n = 0x403 then
    pageOf (fun i =>
      if i = 0 then pageAddr 0x402 ||| PTE_W ||| PTE_U ||| PTE_P else 0)
  else if 0x404 ≤ n ∧ n < 0x43C then
    pageOf (fun i => kernelPte bootData (pageAddr ((n - 0x404 + 512) * 1024 + i)))
  else if 0x43C ≤ n ∧ n < 0x444 then
    pageOf (fun i =>
      kernelPte bootData (pageAddr ((n - 0x43C + 1016) * 1024 + i)))
  else
    fun _ => 0

def bootVm : Vm where
  data := bootData
  kend := 0x116000
  freelist := (List.range' 0x444 (0xE000 - 0x444)).map pageAddr
  mem := bootMem

/-!
## The kernel
-/

namespace Kernel

/-- A slot of the process table as the loader clears it. -/
def zeroProc : Proc where
  sz := 0
  pgdir := none
  kstack := none
  state := .UNUSED
  pid := 0
  parent := none
  tf := { eax := 0, eip := 0, esp := 0, ebp := 0 }
  chan := none
  killed := false
  ofile := fun _ => none
  cwd := none
  name := []
  syscallCount := 0
  tickets := 0
  executionCount := 0
  executionTime := 0
  pass := 0
  stride := 0
  threadIndictor := 0

/-- The process that `userinit` sets up, once it has run; its name is
`initcode`.  Its frame as `clone` takes it, from `esp` to 16 bytes above `ebp`,
is empty. -/
def initProc : Proc :=
  { zeroProc with
    sz := 4096
    pgdir := some (pageAddr 0x401)
    kstack := some (pageAddr 0x400)
    state := .RUNNING
    pid := 1
    tf := { eax := 0, eip := 0, esp := 1024, ebp := 1008 }
    cwd := some 0
    name := [105, 110, 105, 116, 99, 111, 100, 101] }

def boot : Kernel where
  fs := rootFs
  vm := bootVm
  file := fun _ =>
    { type := .FD_NONE
      ref := 0
      readable := false
      writable := false
      pipe := 0
      ip := 0
      off := 0 }
  pipe := fun _ =>
    { data := fun _ => 0
      nread := 0
      nwrite := 0
      readopen := false
      writeopen := false }
  proc := fun p => if p = 0 then initProc else zeroProc
  initproc := 0
  nextpid := 2
  numofthread := 0

end Kernel
end Xv6
