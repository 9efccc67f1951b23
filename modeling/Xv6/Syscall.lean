import Xv6.Proc

/-!
# Arguments of system calls

The functions of `syscall.c` that fetch arguments from the caller's memory.  The
kernel reads it through the caller's page table; where no page is mapped the
access faults, which in the kernel ends in `panic("trap")`.  The result is
`none` where the source returns `-1`.
-/

namespace Xv6

open Lib Lib.Run

def Vm.byteAt (s : Vm) (pgdir va : UInt32) : Option UInt8 :=
  let pde := (s.mem pgdir).u32 (4 * PDX va)
  if pde &&& PTE_P = 0 then
    none
  else
    let pte := (s.mem (PTE_ADDR pde)).u32 (4 * PTX va)
    if pte &&& PTE_P = 0 then
      none
    else
      some ((s.mem (PTE_ADDR pte)).get (va.toNat % PGSIZE))

namespace Kernel

def userByte (k : Kernel) (cur : Pslot) (va : UInt32) : Option UInt8 :=
  (k.proc cur).pgdir.bind (fun pgdir => k.vm.byteAt pgdir va)

def loadByte (cur : Pslot) (va : UInt32) : KM UInt8 := do
  match ← gets (fun k => k.userByte cur va) with
  | none => panic "trap"
  | some b => pure b

def fetchint (cur : Pslot) (addr : UInt32) : KM (Option Int32) := do
  let sz ← gets (fun k => (k.proc cur).sz)
  if sz ≤ addr ∨ sz < addr + 4 then
    pure none
  else do
    let b0 ← loadByte cur addr
    let b1 ← loadByte cur (addr + 1)
    let b2 ← loadByte cur (addr + 2)
    let b3 ← loadByte cur (addr + 3)
    let v := Bytes.leOf (fun i => [b0, b1, b2, b3].getD i 0) 0 4
    pure (some (UInt32.ofNat v).toInt32)

/-- The loop of `fetchstr` with `n` bytes left before the end of the memory; it
has passed `len` bytes. -/
def fetchstrLoop (cur : Pslot) : Nat -> UInt32 -> Nat -> KM (Option Nat)
  | 0, _, _ => pure none
  | n + 1, s, len => do
      let b ← loadByte cur s
      if b = 0 then pure (some len) else fetchstrLoop cur n (s + 1) (len + 1)

def fetchstr (cur : Pslot) (addr : UInt32) : KM (Option (UInt32 × Nat)) := do
  let sz ← gets (fun k => (k.proc cur).sz)
  if sz ≤ addr then
    pure none
  else do
    match ← fetchstrLoop cur (sz - addr).toNat addr 0 with
    | none => pure none
    | some len => pure (some (addr, len))

/-- Where the `n`-th argument is; the product and the sums are modulo
`2 ^ 32`. -/
def argAddr (esp : UInt32) (n : Int32) : UInt32 := esp + 4 + (4 * n).toUInt32

def argint (cur : Pslot) (n : Int32) : KM (Option Int32) := do
  let esp ← gets (fun k => (k.proc cur).tf.esp)
  fetchint cur (argAddr esp n)

def argptr (cur : Pslot) (n size : Int32) : KM (Option UInt32) := do
  match ← argint cur n with
  | none => pure none
  | some i => do
      let sz ← gets (fun k => (k.proc cur).sz)
      if size < 0 ∨ sz ≤ i.toUInt32 ∨ sz < i.toUInt32 + size.toUInt32 then
        pure none
      else
        pure (some i.toUInt32)

def argstr (cur : Pslot) (n : Int32) : KM (Option (UInt32 × Nat)) := do
  match ← argint cur n with
  | none => pure none
  | some addr => fetchstr cur addr.toUInt32

end Kernel
end Xv6
