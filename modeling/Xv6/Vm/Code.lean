import Xv6.Lib.Bytes
import Xv6.Stop

/-!
# Physical pages and page tables

`kalloc.c` and the page-table functions of `vm.c`.  A page is named by its
physical address, and a pointer that may be null is an `Option`; `P2V` and
`V2P` only shift between the two names of a page, so they do not appear.  The
free list, which the source threads through the free pages themselves, is a
list of their addresses.
-/

namespace Xv6

open Lib Lib.Run

abbrev PGSIZE : Nat := 4096
abbrev NPDENTRIES : Nat := 1024

def KERNBASE : UInt32 := 0x80000000
def EXTMEM : UInt32 := 0x100000
def PHYSTOP : UInt32 := 0xE000000
def DEVSPACE : UInt32 := 0xFE000000

def PTE_P : UInt32 := 0x001
def PTE_W : UInt32 := 0x002
def PTE_U : UInt32 := 0x004

abbrev Page : Type := Bytes PGSIZE

def PDX (va : UInt32) : Nat := va.toNat / 2 ^ 22
def PTX (va : UInt32) : Nat := va.toNat / PGSIZE % 1024

def PTE_ADDR (pte : UInt32) : UInt32 := pte &&& 0xFFFFF000
def PTE_FLAGS (pte : UInt32) : UInt32 := pte &&& 0xFFF

def PGROUNDUP (a : UInt32) : UInt32 := (a + 4095) &&& 0xFFFFF000
def PGROUNDDOWN (a : UInt32) : UInt32 := a &&& 0xFFFFF000

/-- `kmem` and the memory behind it.  `data` and `kend` are the physical
addresses of the linker's symbols `data` and `end`. -/
structure Vm where
  data : UInt32
  kend : UInt32
  freelist : List UInt32
  mem : UInt32 -> Page

abbrev VmM : Type -> Type := Run Stop Vm

namespace Vm

variable {α : Type}

def panic (msg : String) : VmM α := stop (.panic msg)

def word (pa : UInt32) (i : Nat) : VmM UInt32 :=
  gets (fun s => (s.mem pa).u32 (4 * i))

def setPage (pa : UInt32) (f : Page -> Page) : VmM Unit :=
  modify (fun s => { s with mem := Function.update s.mem pa (f (s.mem pa)) })

def setWord (pa : UInt32) (i : Nat) (v : UInt32) : VmM Unit :=
  setPage pa (fun pg => pg.setU32 (4 * i) v)

def memset (pa : UInt32) (c : UInt8) : VmM Unit := setPage pa (fun _ _ => c)

/-!
## The allocator
-/

def kalloc : VmM (Option UInt32) := do
  match ← gets freelist with
  | [] => pure none
  | r :: rest => do
      modify (fun s => { s with freelist := rest })
      pure (some r)

def kfree (pa : UInt32) : VmM Unit := do
  let kend ← gets kend
  if pa.toNat % PGSIZE ≠ 0 ∨ pa < kend ∨ PHYSTOP ≤ pa then
    panic "kfree"
  else do
    -- Fill with junk to catch dangling refs.
    memset pa 1
    modify (fun s => { s with freelist := pa :: s.freelist })

/-!
## Page tables
-/

/-- The page-table page and the index of the entry for `va`. -/
def walkpgdir (pgdir va : UInt32) (alloc : Bool) :
    VmM (Option (UInt32 × Nat)) := do
  let pde ← word pgdir (PDX va)
  if pde &&& PTE_P ≠ 0 then
    pure (some (PTE_ADDR pde, PTX va))
  else if alloc = false then
    pure none
  else do
    match ← kalloc with
    | none => pure none
    | some pgtab => do
        memset pgtab 0
        setWord pgdir (PDX va) (pgtab ||| PTE_P ||| PTE_W ||| PTE_U)
        pure (some (pgtab, PTX va))

/-- The loop of `mappages` for a number of pages; `false` is the return value
`-1`. -/
def mappagesLoop (pgdir perm : UInt32) : Nat -> UInt32 -> UInt32 -> VmM Bool
  | 0, _, _ => pure true
  | n + 1, a, pa => do
      match ← walkpgdir pgdir a true with
      | none => pure false
      | some (pgtab, i) => do
          let pte ← word pgtab i
          if pte &&& PTE_P ≠ 0 then
            panic "remap"
          else do
            setWord pgtab i (pa ||| perm ||| PTE_P)
            mappagesLoop pgdir perm n (a + 4096) (pa + 4096)

/-- The loop ends at `last`, which it reaches modulo `2 ^ 32`. -/
def mappages (pgdir va size pa perm : UInt32) : VmM Bool :=
  let a := PGROUNDDOWN va
  let last := PGROUNDDOWN (va + size - 1)
  mappagesLoop pgdir perm ((last - a).toNat / PGSIZE + 1) a pa

/-- The loop of `deallocuvm`; every iteration passes at least one page. -/
def deallocuvmLoop (pgdir oldsz : UInt32) : Nat -> UInt32 -> VmM Unit
  | 0, _ => pure ()
  | n + 1, a =>
      if a < oldsz then do
        match ← walkpgdir pgdir a false with
        | none =>
            -- on to the first page of the next table
            deallocuvmLoop pgdir oldsz n (UInt32.ofNat ((PDX a + 1) * 2 ^ 22))
        | some (pgtab, i) => do
            let pte ← word pgtab i
            if pte &&& PTE_P ≠ 0 then do
              let pa := PTE_ADDR pte
              if pa = 0 then
                panic "kfree"
              else do
                kfree pa
                setWord pgtab i 0
            else
              pure ()
            deallocuvmLoop pgdir oldsz n (a + 4096)
      else
        pure ()

def deallocuvm (pgdir oldsz newsz : UInt32) : VmM UInt32 := do
  if oldsz ≤ newsz then
    pure oldsz
  else do
    let a := PGROUNDUP newsz
    deallocuvmLoop pgdir oldsz ((oldsz - a).toNat / PGSIZE + 1) a
    pure newsz

def freePde (pgdir : UInt32) (i : Nat) : VmM Unit := do
  let pde ← word pgdir i
  if pde &&& PTE_P ≠ 0 then kfree (PTE_ADDR pde) else pure ()

def freevm (pgdir : Option UInt32) : VmM Unit := do
  match pgdir with
  | none => panic "freevm: no pgdir"
  | some pgdir => do
      let _ ← deallocuvm pgdir KERNBASE 0
      forEach (freePde pgdir) (List.range NPDENTRIES)
      kfree pgdir

structure Kmap where
  virt : UInt32
  physStart : UInt32
  physEnd : UInt32
  perm : UInt32

def kmap (data : UInt32) : List Kmap :=
  [⟨KERNBASE, 0, EXTMEM, PTE_W⟩,
   ⟨KERNBASE + EXTMEM, EXTMEM, data, 0⟩,
   ⟨KERNBASE + data, data, PHYSTOP, PTE_W⟩,
   ⟨DEVSPACE, DEVSPACE, 0, PTE_W⟩]

def setupkvmLoop (pgdir : UInt32) : List Kmap -> VmM (Option UInt32)
  | [] => pure (some pgdir)
  | k :: rest => do
      let ok ← mappages pgdir k.virt (k.physEnd - k.physStart) k.physStart k.perm
      if ok then
        setupkvmLoop pgdir rest
      else do
        freevm (some pgdir)
        pure none

def setupkvm : VmM (Option UInt32) := do
  match ← kalloc with
  | none => pure none
  | some pgdir => do
      memset pgdir 0
      if DEVSPACE < PHYSTOP + KERNBASE then
        panic "PHYSTOP too high"
      else do
        let data ← gets data
        setupkvmLoop pgdir (kmap data)

/-- The loop of `allocuvm`; `false` is the return value 0. -/
def allocuvmLoop (pgdir oldsz newsz : UInt32) : Nat -> UInt32 -> VmM Bool
  | 0, _ => pure true
  | n + 1, a =>
      if a < newsz then do
        match ← kalloc with
        | none => do
            let _ ← deallocuvm pgdir newsz oldsz
            pure false
        | some mem => do
            memset mem 0
            let ok ← mappages pgdir a 4096 mem (PTE_W ||| PTE_U)
            if ok then
              allocuvmLoop pgdir oldsz newsz n (a + 4096)
            else do
              let _ ← deallocuvm pgdir newsz oldsz
              kfree mem
              pure false
      else
        pure true

/-- The new size, or 0 on error. -/
def allocuvm (pgdir oldsz newsz : UInt32) : VmM UInt32 := do
  if KERNBASE ≤ newsz then
    pure 0
  else if newsz < oldsz then
    pure oldsz
  else do
    let a := PGROUNDUP oldsz
    let ok ← allocuvmLoop pgdir oldsz newsz ((newsz - a).toNat / PGSIZE + 1) a
    pure (if ok then newsz else 0)

def copyuvmBad (d : UInt32) : VmM (Option UInt32) := do
  freevm (some d)
  pure none

def copyuvmLoop (pgdir d sz : UInt32) : Nat -> UInt32 -> VmM (Option UInt32)
  | 0, _ => pure (some d)
  | n + 1, i =>
      if i < sz then do
        match ← walkpgdir pgdir i false with
        | none => panic "copyuvm: pte should exist"
        | some (pgtab, j) => do
            let pte ← word pgtab j
            if pte &&& PTE_P = 0 then
              panic "copyuvm: page not present"
            else do
              match ← kalloc with
              | none => copyuvmBad d
              | some mem => do
                  let src ← gets (fun s => s.mem (PTE_ADDR pte))
                  setPage mem (fun _ => src)
                  let ok ← mappages d i 4096 mem (PTE_FLAGS pte)
                  if ok then
                    copyuvmLoop pgdir d sz n (i + 4096)
                  else do
                    kfree mem
                    copyuvmBad d
      else
        pure (some d)

def copyuvm (pgdir sz : UInt32) : VmM (Option UInt32) := do
  match ← setupkvm with
  | none => pure none
  | some d => copyuvmLoop pgdir d sz ((sz.toNat + PGSIZE - 1) / PGSIZE) 0

/-!
## Access to user memory
-/

def clearpteu (pgdir uva : UInt32) : VmM Unit := do
  match ← walkpgdir pgdir uva false with
  | none => panic "clearpteu"
  | some (pgtab, i) => do
      let pte ← word pgtab i
      setWord pgtab i (pte &&& ~~~PTE_U)

/-- The page of a user address.  The source does not test the result of
`walkpgdir` before it reads the entry. -/
def uva2ka (pgdir uva : UInt32) : VmM (Option UInt32) := do
  match ← walkpgdir pgdir uva false with
  | none => stop .nullDeref
  | some (pgtab, i) => do
      let pte ← word pgtab i
      if pte &&& PTE_P = 0 then
        pure none
      else if pte &&& PTE_U = 0 then
        pure none
      else
        pure (some (PTE_ADDR pte))

/-- The loop of `copyout` for the bytes still to be copied; `false` is the
return value `-1`. -/
def copyoutLoop (pgdir : UInt32) : Nat -> UInt32 -> List UInt8 -> VmM Bool
  | 0, _, _ => pure true
  | fuel + 1, va, bs =>
      if bs = [] then
        pure true
      else do
        let va0 := PGROUNDDOWN va
        match ← uva2ka pgdir va0 with
        | none => pure false
        | some pa0 => do
            let n := min (PGSIZE - (va - va0).toNat) bs.length
            setPage pa0 (fun pg =>
              pg.patch (va - va0).toNat n (fun k => bs.getD k 0))
            copyoutLoop pgdir fuel (va0 + 4096) (bs.drop n)

def copyout (pgdir va : UInt32) (bs : List UInt8) : VmM Bool :=
  copyoutLoop pgdir bs.length va bs

end Vm
end Xv6
