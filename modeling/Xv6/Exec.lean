import Xv6.File

/-!
# Replacing the process image

`exec.c` and `loaduvm` of `vm.c`.  The strings of `argv` and the path are
arguments, fetched by `sys_exec`.
-/

namespace Xv6
namespace Kernel

open Lib Lib.Run

def ELF_MAGIC : UInt32 := 0x464C457F
def ELF_PROG_LOAD : UInt32 := 1

abbrev ELFHDR : Nat := 52
abbrev PROGHDR : Nat := 32

def headerField (bs : List UInt8) (off w : Nat) : Nat :=
  Bytes.leOf (fun k => bs.getD k 0) off w

structure Elfhdr where
  magic : UInt32
  entry : UInt32
  phoff : UInt32
  phnum : Nat

def Elfhdr.ofBytes (bs : List UInt8) : Elfhdr where
  magic := UInt32.ofNat (headerField bs 0 4)
  entry := UInt32.ofNat (headerField bs 24 4)
  phoff := UInt32.ofNat (headerField bs 28 4)
  phnum := headerField bs 44 2

structure Proghdr where
  type : UInt32
  off : UInt32
  vaddr : UInt32
  filesz : UInt32
  memsz : UInt32

def Proghdr.ofBytes (bs : List UInt8) : Proghdr where
  type := UInt32.ofNat (headerField bs 0 4)
  off := UInt32.ofNat (headerField bs 4 4)
  vaddr := UInt32.ofNat (headerField bs 8 4)
  filesz := UInt32.ofNat (headerField bs 16 4)
  memsz := UInt32.ofNat (headerField bs 20 4)

/-- The loop of `loaduvm`; `false` is the return value `-1`. -/
def loaduvmLoop (pid : Int32) (pgdir addr : UInt32) (ip : Slot)
    (offset sz : UInt32) : Nat -> UInt32 -> KM Bool
  | 0, _ => pure true
  | fuel + 1, i =>
      if i < sz then do
        match ← onVm (Vm.walkpgdir pgdir (addr + i) false) with
        | none => panic "loaduvm: address should exist"
        | some (pgtab, j) => do
            let pte ← onVm (Vm.word pgtab j)
            let n := if sz - i < 4096 then sz - i else 4096
            let r ← onFs (Fs.readi pid ip (offset + i) n)
            onVm (Vm.setPage (PTE_ADDR pte) (fun pg =>
              pg.patch 0 r.2.length (fun k => r.2.getD k 0)))
            if r.1 ≠ (n.toNat : Int) then
              pure false
            else
              loaduvmLoop pid pgdir addr ip offset sz fuel (i + 4096)
      else
        pure true

def loaduvm (pid : Int32) (pgdir addr : UInt32) (ip : Slot)
    (offset sz : UInt32) : KM Bool := do
  if addr.toNat % PGSIZE ≠ 0 then
    panic "loaduvm: addr must be page aligned"
  else
    loaduvmLoop pid pgdir addr ip offset sz (sz.toNat / PGSIZE + 1) 0

/-- The loop over the program headers with `n` headers left; the result is the
size of the image, `none` the exit `bad`. -/
def execLoad (pid : Int32) (ip : Slot) (pgdir : UInt32) :
    Nat -> UInt32 -> UInt32 -> KM (Option UInt32)
  | 0, _, sz => pure (some sz)
  | n + 1, off, sz => do
      let r ← onFs (Fs.readi pid ip off (UInt32.ofNat PROGHDR))
      if r.1 ≠ (PROGHDR : Int) then
        pure none
      else do
        let ph := Proghdr.ofBytes r.2
        if ph.type ≠ ELF_PROG_LOAD then
          execLoad pid ip pgdir n (off + 32) sz
        else if ph.memsz < ph.filesz then
          pure none
        else if ph.vaddr + ph.memsz < ph.vaddr then
          pure none
        else do
          let sz ← onVm (Vm.allocuvm pgdir sz (ph.vaddr + ph.memsz))
          if sz = 0 then
            pure none
          else if ph.vaddr.toNat % PGSIZE ≠ 0 then
            pure none
          else do
            let ok ← loaduvm pid pgdir ph.vaddr ip ph.off ph.filesz
            if ok then
              execLoad pid ip pgdir n (off + 32) sz
            else
              pure none

def pushArgs (pgdir : UInt32) :
    List (List UInt8) -> Nat -> UInt32 -> List UInt32 ->
      VmM (Option (UInt32 × List UInt32))
  | [], _, sp, ustack => pure (some (sp, ustack))
  | arg :: rest, argc, sp, ustack =>
      if MAXARG ≤ argc then
        pure none
      else do
        let sp := (sp - UInt32.ofNat (arg.length + 1)) &&& 0xFFFFFFFC
        let ok ← Vm.copyout pgdir sp (arg ++ [0])
        if ok then
          pushArgs pgdir rest (argc + 1) sp (ustack ++ [sp])
        else
          pure none

def wordBytes (ws : List UInt32) : List UInt8 :=
  ws.flatMap (fun w => (List.range 4).map (Bytes.byteOf w.toNat))

def execStack (pgdir sz : UInt32) (argv : List (List UInt8)) :
    VmM (Option (UInt32 × UInt32)) := do
  let sz := PGROUNDUP sz
  -- Allocate two pages at the next page boundary.
  let sz ← Vm.allocuvm pgdir sz (sz + 2 * 4096)
  if sz = 0 then
    pure none
  else do
    Vm.clearpteu pgdir (sz - 2 * 4096)
    match ← pushArgs pgdir argv 0 sz [] with
    | none => pure none
    | some (sp, args) => do
        let argc := UInt32.ofNat args.length
        let ustack := [0xffffffff, argc, sp - (argc + 1) * 4] ++ args ++ [0]
        let sp := sp - (3 + argc + 1) * 4
        let ok ← Vm.copyout pgdir sp (wordBytes ustack)
        pure (if ok then some (sz, sp) else none)

def baseName (path : List UInt8) : List UInt8 :=
  ((path.reverse.takeWhile (· ≠ SLASH)).reverse).take 15

def switchuvm (p : Pslot) : KM Unit := do
  let pr ← gets (fun k => k.proc p)
  if pr.kstack = none then
    panic "switchuvm: no kstack"
  else if pr.pgdir = none then
    panic "switchuvm: no pgdir"
  else
    pure ()

def execCommit (cur : Pslot) (path : List UInt8) (pgdir sz entry sp : UInt32) :
    KM Int := do
  let oldpgdir ← gets (fun k => (k.proc cur).pgdir)
  setProc cur (fun pr =>
    { pr with
      name := baseName path
      pgdir := some pgdir
      sz := sz
      tf := { pr.tf with eip := entry, esp := sp } })
  switchuvm cur
  onVm (Vm.freevm oldpgdir)
  pure 0

def execBad (pid : Int32) (pgdir : Option UInt32) (ip : Option Slot) :
    KM Int := do
  match pgdir with
  | some pgdir => onVm (Vm.freevm (some pgdir))
  | none => pure ()
  match ip with
  | some ip => do
      onFs (Fs.iunlockput pid ip)
      onFs Fs.endOp
  | none => pure ()
  pure (-1)

def exec (cur : Pslot) (path : List UInt8) (argv : List (List UInt8)) :
    KM Int := do
  let pid ← pidOf cur
  let cwd ← cwdOf cur
  onFs Fs.beginOp
  match ← onFs (Fs.namei pid cwd path) with
  | none => onFs (Fs.endWith (-1))
  | some ip => do
      onFs (Fs.ilock pid ip)
      -- Check ELF header
      let r ← onFs (Fs.readi pid ip 0 (UInt32.ofNat ELFHDR))
      let elf := Elfhdr.ofBytes r.2
      if r.1 ≠ (ELFHDR : Int) then
        execBad pid none (some ip)
      else if elf.magic ≠ ELF_MAGIC then
        execBad pid none (some ip)
      else do
        match ← onVm Vm.setupkvm with
        | none => execBad pid none (some ip)
        | some pgdir => do
            -- Load program into memory.
            match ← execLoad pid ip pgdir elf.phnum elf.phoff 0 with
            | none => execBad pid (some pgdir) (some ip)
            | some sz => do
                onFs (Fs.iunlockput pid ip)
                onFs Fs.endOp
                match ← onVm (execStack pgdir sz argv) with
                | none => execBad pid (some pgdir) none
                | some (sz, sp) => execCommit cur path pgdir sz elf.entry sp

/-- `args` is `none` where fetching the path or the arguments fails, or where
there are `MAXARG` arguments or more. -/
def sysExec (cur : Pslot) (args : Option (List UInt8 × List (List UInt8))) :
    KM Int := do
  match args with
  | none => pure (-1)
  | some (path, argv) =>
      if MAXARG ≤ argv.length then pure (-1) else exec cur path argv

end Kernel
end Xv6
