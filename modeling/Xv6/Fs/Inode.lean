import Xv6.Fs.State

/-!
# Inodes and their contents

The block allocator, the inode cache and the content functions of `fs.c`.
`pid` is the calling process, which matters for sleep-locks only.

Buffers are never locked here.  In the source `bmap` and `itrunc` hold the
buffer of the indirect block while they allocate or free, so on an image where
that block is also a bitmap block, or is itself marked free, the source waits
for its own buffer where these definitions go on.
-/

namespace Xv6
namespace Fs

open Lib Lib.Run

/-!
## Blocks
-/

def bzero (bno : Nat) : FsM Unit := do
  bmodify bno (fun _ _ => 0)
  logWrite bno

/-- The two loops over the bitmap visit the blocks in order. -/
def balloc : FsM Nat := do
  let b ← gets (fun s =>
    (List.range s.sb.size).find? (fun b => !s.sb.bitAt s.disk b))
  match b with
  | none => panic "balloc: out of blocks"
  | some b => do
      setDisk (fun sb d => sb.setBit d b)
      logWrite (← gets (fun s => s.sb.bblock b))
      bzero b
      pure b

def bfree (b : Nat) : FsM Unit := do
  let inUse ← gets (fun s => s.sb.bitAt s.disk b)
  if inUse then do
    setDisk (fun sb d => sb.clearBit d b)
    logWrite (← gets (fun s => s.sb.bblock b))
  else
    panic "freeing free block"

/-!
## The inode cache
-/

def iget (inum : Nat) : FsM Slot := do
  let cached ← gets (fun s => (List.finRange NINODE).find?
    (fun ip => 0 < (s.icache ip).ref ∧ (s.icache ip).inum = inum))
  match cached with
  | some ip => do
      setInode ip (fun i => { i with ref := i.ref + 1 })
      pure ip
  | none => do
      -- Recycle an inode cache entry.
      let empty ← gets (fun s => (List.finRange NINODE).find?
        (fun ip => (s.icache ip).ref = 0))
      match empty with
      | none => panic "iget: no inodes"
      | some ip => do
          setInode ip (fun i => { i with inum := inum, ref := 1, valid := false })
          pure ip

def idup (ip : Slot) : FsM Slot := do
  setInode ip (fun i => { i with ref := i.ref + 1 })
  pure ip

def ialloc (type : UInt16) : FsM Slot := do
  let inum ← gets (fun s => (List.range' 1 (s.sb.ninodes - 1)).find?
    (fun inum => (s.sb.dinodeAt s.disk inum).type = 0))
  match inum with
  | none => panic "ialloc: no inodes"
  | some inum => do
      setDisk (fun sb d => sb.setDinode d inum { Dinode.zero with type := type })
      logWrite (← gets (fun s => s.sb.iblock inum))
      iget inum

/-- The inode cache is write-through. -/
def iupdate (ip : Slot) : FsM Unit := do
  let i ← inode ip
  setDisk (fun sb d => sb.setDinode d i.inum i.din)
  logWrite (← gets (fun s => s.sb.iblock i.inum))

def ilock (pid : Int32) (ip : Slot) : FsM Unit := do
  if (← inode ip).ref < 1 then
    panic "ilock"
  else do
    acquiresleep pid ip
    let i ← inode ip
    if i.valid then
      pure ()
    else do
      let di ← gets (fun s => s.sb.dinodeAt s.disk i.inum)
      setInode ip (fun i => { i with din := di, valid := true })
      if di.type = 0 then
        panic "ilock: no type"
      else
        pure ()

def iunlock (pid : Int32) (ip : Slot) : FsM Unit := do
  let i ← inode ip
  if i.lock ≠ some pid ∨ i.ref < 1 then
    panic "iunlock"
  else
    releasesleep ip

/-!
## Block maps
-/

def setAddr (ip : Slot) (k : Fin (NDIRECT + 1)) (addr : UInt32) : FsM Unit :=
  setDin ip (fun di => { di with addrs := Function.update di.addrs k addr })

/-- An entry of `addrs`, allocating a block if there is none. -/
def bmapAddr (ip : Slot) (k : Fin (NDIRECT + 1)) : FsM Nat := do
  let addr := (← inode ip).din.addrs k
  if addr = 0 then do
    let b ← balloc
    setAddr ip k (UInt32.ofNat b)
    pure b
  else
    pure addr.toNat

/-- An entry of the indirect block `ind`, allocating a block if there is
none. -/
def bmapEntry (ind j : Nat) : FsM Nat := do
  let bp ← bread ind
  let addr := bp.u32 (4 * j)
  if addr = 0 then do
    let b ← balloc
    bmodify ind (fun bp => bp.setU32 (4 * j) (UInt32.ofNat b))
    logWrite ind
    pure b
  else
    pure addr.toNat

def bmap (ip : Slot) (bn : Nat) : FsM Nat := do
  if h : bn < NDIRECT then
    bmapAddr ip ⟨bn, Nat.lt_succ_of_lt h⟩
  else if bn - NDIRECT < NINDIRECT then do
    -- Load indirect block, allocating if necessary.
    let ind ← bmapAddr ip (Fin.last NDIRECT)
    bmapEntry ind (bn - NDIRECT)
  else
    panic "bmap: out of range"

def itruncAddr (ip : Slot) (k : Fin (NDIRECT + 1)) : FsM Unit := do
  let addr := (← inode ip).din.addrs k
  if addr = 0 then
    pure ()
  else do
    bfree addr.toNat
    setAddr ip k 0

def itruncEntry (ind j : Nat) : FsM Unit := do
  let bp ← bread ind
  let addr := bp.u32 (4 * j)
  if addr = 0 then pure () else bfree addr.toNat

def itrunc (ip : Slot) : FsM Unit := do
  forEach (fun i : Fin NDIRECT => itruncAddr ip i.castSucc)
    (List.finRange NDIRECT)
  let ind := (← inode ip).din.addrs (Fin.last NDIRECT)
  if ind = 0 then
    pure ()
  else do
    forEach (itruncEntry ind.toNat) (List.range NINDIRECT)
    itruncAddr ip (Fin.last NDIRECT)
  setDin ip (fun di => { di with size := 0 })
  iupdate ip

def iput (pid : Int32) (ip : Slot) : FsM Unit := do
  acquiresleep pid ip
  let i ← inode ip
  if i.valid = true ∧ i.din.nlink = 0 ∧ i.ref = 1 then do
    -- inode has no links and no other references: truncate and free.
    itrunc ip
    setDin ip (fun di => { di with type := 0 })
    iupdate ip
    setInode ip (fun i => { i with valid := false })
  else
    pure ()
  releasesleep ip
  setInode ip (fun i => { i with ref := i.ref - 1 })

def iunlockput (pid : Int32) (ip : Slot) : FsM Unit := do
  iunlock pid ip
  iput pid ip

/-!
## Contents
-/

/-- Major number of the console, the only device with a `devsw` entry. -/
def CONSOLE : UInt16 := 1

/-- `major < 0 || major >= NDEV || !devsw[major].read`, and the same for
`write`. -/
def noDevice (major : UInt16) : Prop :=
  major.toInt16 < 0 ∨ (NDEV : Int) ≤ major.toInt16.toInt ∨ major ≠ CONSOLE

instance (major : UInt16) : Decidable (noDevice major) :=
  inferInstanceAs (Decidable (_ ∨ _))

/-- The argument `n` of a `devsw` function is an `int`. -/
def consoleread (pid : Int32) (ip : Slot) (n : UInt32) :
    FsM (Int × List UInt8) := do
  iunlock pid ip
  let r ← gets (fun s => s.cons n.toInt32)
  match r with
  | none => stop .sleep
  | some r => do
      ilock pid ip
      pure r

def consolewrite (pid : Int32) (ip : Slot) (n : UInt32) : FsM Int := do
  iunlock pid ip
  ilock pid ip
  pure n.toInt32.toInt

def blockBytes (b : Block) (off len : Nat) : List UInt8 :=
  (List.range len).map (fun k => b.get (off + k))

/-- The copy loop of `readi` for `n` remaining bytes; every iteration copies at
least one byte, so `n` iterations are enough. -/
def readiLoop (ip : Slot) : Nat -> Nat -> Nat -> FsM (List UInt8)
  | 0, _, _ => pure []
  | fuel + 1, off, n =>
      if n = 0 then
        pure []
      else do
        let bp ← bread (← bmap ip (off / BSIZE))
        let m := min n (BSIZE - off % BSIZE)
        let rest ← readiLoop ip fuel (off + m) (n - m)
        pure (blockBytes bp (off % BSIZE) m ++ rest)

/-- The result is the return value and the bytes stored at `dst`. -/
def readi (pid : Int32) (ip : Slot) (off n : UInt32) :
    FsM (Int × List UInt8) := do
  let di := (← inode ip).din
  if di.type = T_DEV then
    if noDevice di.major then pure (-1, []) else consoleread pid ip n
  else if di.size < off ∨ off + n < off then
    pure (-1, [])
  else do
    let n := if di.size < off + n then di.size - off else n
    let bs ← readiLoop ip n.toNat off.toNat n.toNat
    pure ((n.toNat : Int), bs)

def writeiBlock (ip : Slot) (src : Nat -> UInt8) (off m : Nat) :
    FsM Unit := do
  let addr ← bmap ip (off / BSIZE)
  bmodify addr (fun bp => bp.patch (off % BSIZE) m src)
  logWrite addr

/-- The copy loop of `writei` once `tot` of the `n` bytes are written. -/
def writeiLoop (ip : Slot) (src : Nat -> UInt8) (off n : Nat) :
    Nat -> Nat -> FsM Unit
  | 0, _ => pure ()
  | fuel + 1, tot =>
      if tot < n then do
        let m := min (n - tot) (BSIZE - (off + tot) % BSIZE)
        writeiBlock ip (fun k => src (tot + k)) (off + tot) m
        writeiLoop ip src off n fuel (tot + m)
      else
        pure ()

def writei (pid : Int32) (ip : Slot) (src : Nat -> UInt8) (off n : UInt32) :
    FsM Int := do
  let di := (← inode ip).din
  if di.type = T_DEV then
    if noDevice di.major then pure (-1) else consolewrite pid ip n
  else if di.size < off ∨ off + n < off then
    pure (-1)
  else if MAXFILE * BSIZE < (off + n).toNat then
    pure (-1)
  else do
    writeiLoop ip src off.toNat n.toNat n.toNat 0
    if 0 < n ∧ (← inode ip).din.size < off + n then do
      setDin ip (fun di => { di with size := off + n })
      iupdate ip
    else
      pure ()
    pure n.toNat

end Fs
end Xv6
