import Xv6.Log.Code

/-!
# On-disk layout

The structures of `fs.h`: the super block with the geometry `mkfs` gives it,
inodes packed into inode blocks, and the free bitmap.  A disk is a function
from block numbers to blocks, read through the buffer cache.
-/

namespace Xv6

open Lib

/-- The super block.  The proof fields are the layout that `mkfs` writes: the
log, the inode blocks, the bitmap and the data blocks follow each other, and
inode numbers fit the `ushort` of a directory entry. -/
structure Superblock where
  size : Nat
  ninodes : Nat
  nlog : Nat
  logstart : Nat
  inodestart : Nat
  bmapstart : Nat
  log_le : logstart + nlog ≤ inodestart
  inodes_le : inodestart + ninodes / IPB + 1 ≤ bmapstart
  bmap_le : bmapstart + size / BPB + 1 ≤ size
  size_lt : size < 2 ^ 32
  ninodes_le : ninodes ≤ 2 ^ 16
  root_lt : ROOTINO < ninodes
  start_pos : 0 < logstart

/-- The super block of the images that `mkfs` makes. -/
def Superblock.mkfs : Superblock where
  size := FSSIZE
  ninodes := 200
  nlog := LOGSIZE
  logstart := 2
  inodestart := 2 + LOGSIZE
  bmapstart := 2 + LOGSIZE + (200 / IPB + 1)
  log_le := by decide
  inodes_le := by decide
  bmap_le := by decide
  size_lt := by decide
  ninodes_le := by decide
  root_lt := by decide
  start_pos := by decide

namespace Superblock

variable (sb : Superblock)

def iblock (inum : Nat) : Nat := inum / IPB + sb.inodestart

def bblock (b : Nat) : Nat := b / BPB + sb.bmapstart

def datastart : Nat := sb.bmapstart + sb.size / BPB + 1

def IsData (b : Nat) : Prop := sb.datastart ≤ b ∧ b < sb.size

instance (b : Nat) : Decidable (sb.IsData b) :=
  inferInstanceAs (Decidable (_ ∧ _))

theorem iblock_lt {inum : Nat} (h : inum < sb.ninodes) :
    sb.iblock inum < sb.bmapstart := by
  have hle := sb.inodes_le
  have hdiv : inum / IPB ≤ sb.ninodes / IPB := Nat.div_le_div_right (by lia)
  unfold iblock
  lia

theorem bblock_lt {b : Nat} (h : b < sb.size) :
    sb.bblock b < sb.datastart := by
  have hdiv : b / BPB ≤ sb.size / BPB := Nat.div_le_div_right (by lia)
  unfold bblock datastart
  lia

theorem iblock_ne_bblock {inum : Nat} (b : Nat) (h : inum < sb.ninodes) :
    sb.iblock inum ≠ sb.bblock b := by
  have hlt := sb.iblock_lt h
  unfold bblock
  lia

theorem iblock_not_isData {inum : Nat} (h : inum < sb.ninodes) :
    ¬ sb.IsData (sb.iblock inum) := by
  have hlt := sb.iblock_lt h
  unfold IsData datastart
  lia

theorem bblock_not_isData {b : Nat} (h : b < sb.size) :
    ¬ sb.IsData (sb.bblock b) := by
  have hlt := sb.bblock_lt h
  unfold IsData
  lia

theorem IsData.pos {sb : Superblock} {b : Nat} (h : sb.IsData b) : 0 < b := by
  have hle := h.1
  unfold datastart at hle
  lia

end Superblock

/-!
## Inodes
-/

/-- `struct dinode`; also the part of an in-memory inode that is its copy. -/
@[ext] structure Dinode where
  type : UInt16
  major : UInt16
  minor : UInt16
  nlink : UInt16
  size : UInt32
  addrs : Fin (NDIRECT + 1) -> UInt32
  deriving DecidableEq

namespace Dinode

/-- The zeroed inode of `memset(dip, 0, sizeof(*dip))`. -/
def zero : Dinode where
  type := 0
  major := 0
  minor := 0
  nlink := 0
  size := 0
  addrs := fun _ => 0

def bytes (di : Dinode) (k : Nat) : UInt8 :=
  if k < 2 then Bytes.byteOf di.type.toNat k
  else if k < 4 then Bytes.byteOf di.major.toNat (k - 2)
  else if k < 6 then Bytes.byteOf di.minor.toNat (k - 4)
  else if k < 8 then Bytes.byteOf di.nlink.toNat (k - 6)
  else if k < 12 then Bytes.byteOf di.size.toNat (k - 8)
  else if h : (k - 12) / 4 < NDIRECT + 1 then
    Bytes.byteOf (di.addrs ⟨(k - 12) / 4, h⟩).toNat ((k - 12) % 4)
  else 0

def ofBlock (b : Block) (off : Nat) : Dinode where
  type := UInt16.ofNat (b.le off 2)
  major := UInt16.ofNat (b.le (off + 2) 2)
  minor := UInt16.ofNat (b.le (off + 4) 2)
  nlink := UInt16.ofNat (b.le (off + 6) 2)
  size := UInt32.ofNat (b.le (off + 8) 4)
  addrs := fun i => UInt32.ofNat (b.le (off + (12 + 4 * i.val)) 4)

theorem ofBlock_patch_out (b : Block) (src : Nat -> UInt8) {off o len : Nat}
    (h : o + 64 ≤ off ∨ off + len ≤ o) :
    ofBlock (b.patch off len src) o = ofBlock b o := by
  have hfield : forall k w, k + w ≤ 64 ->
      (b.patch off len src).le (o + k) w = b.le (o + k) w :=
    fun k w hk => Bytes.le_patch_out b src (by lia)
  have htype := hfield 0 2 (by lia)
  rw [Nat.add_zero] at htype
  ext1
  · simp only [ofBlock, htype]
  · simp only [ofBlock, hfield 2 2 (by lia)]
  · simp only [ofBlock, hfield 4 2 (by lia)]
  · simp only [ofBlock, hfield 6 2 (by lia)]
  · simp only [ofBlock, hfield 8 4 (by lia)]
  · funext i
    have hi := i.isLt
    simp only [ofBlock, hfield (12 + 4 * i.val) 4 (by lia)]

end Dinode

namespace Superblock

variable (sb : Superblock)

def dinodeAt (d : Nat -> Block) (inum : Nat) : Dinode :=
  Dinode.ofBlock (d (sb.iblock inum)) (inum % IPB * 64)

def setDinode (d : Nat -> Block) (inum : Nat) (di : Dinode) : Nat -> Block :=
  Function.update d (sb.iblock inum)
    ((d (sb.iblock inum)).patch (inum % IPB * 64) 64 di.bytes)

theorem dinodeAt_setDinode_of_ne (d : Nat -> Block) {i j : Nat} (di : Dinode)
    (h : j ≠ i) : sb.dinodeAt (sb.setDinode d i di) j = sb.dinodeAt d j := by
  unfold dinodeAt setDinode
  rcases eq_or_ne (sb.iblock j) (sb.iblock i) with hblock | hblock
  · -- Two inodes of one block have different offsets.
    have hmod : j % IPB ≠ i % IPB := by
      intro hmod
      unfold iblock at hblock
      apply h
      rw [← Nat.div_add_mod j IPB, ← Nat.div_add_mod i IPB, hmod]
      have hdiv : j / IPB = i / IPB := by lia
      rw [hdiv]
    rw [hblock, Function.update_self]
    exact Dinode.ofBlock_patch_out _ _ (by lia)
  · rw [Function.update_of_ne hblock]

theorem dinodeAt_update {d : Nat -> Block} {b : Nat} {v : Block} {inum : Nat}
    (h : sb.iblock inum ≠ b) :
    sb.dinodeAt (Function.update d b v) inum = sb.dinodeAt d inum := by
  unfold dinodeAt
  rw [Function.update_of_ne h]

/-!
## The free bitmap
-/

def bitMask (b : Nat) : UInt8 := 1 <<< UInt8.ofNat (b % 8)

def bitByte (b : Nat) : Nat := b % BPB / 8

/-- The bitmap says that block `b` is in use. -/
def bitAt (d : Nat -> Block) (b : Nat) : Bool :=
  (d (sb.bblock b)).get (bitByte b) &&& bitMask b ≠ 0

def setBitByte (d : Nat -> Block) (b : Nat) (v : UInt8) : Nat -> Block :=
  Function.update d (sb.bblock b)
    ((d (sb.bblock b)).patch (bitByte b) 1 (fun _ => v))

def setBit (d : Nat -> Block) (b : Nat) : Nat -> Block :=
  sb.setBitByte d b ((d (sb.bblock b)).get (bitByte b) ||| bitMask b)

def clearBit (d : Nat -> Block) (b : Nat) : Nat -> Block :=
  sb.setBitByte d b ((d (sb.bblock b)).get (bitByte b) &&& ~~~ bitMask b)

theorem bitMask_toNat (b : Nat) : (bitMask b).toNat = 2 ^ (b % 8) := by
  have hall : forall k, k < 8 -> ((1 : UInt8) <<< UInt8.ofNat k).toNat = 2 ^ k := by
    decide
  exact hall (b % 8) (Nat.mod_lt _ (by lia))

theorem and_bitMask_ne_zero (x : UInt8) (b : Nat) :
    decide (x &&& bitMask b ≠ 0) = x.toNat.testBit (b % 8) := by
  have hand : (x &&& bitMask b).toNat =
      (x.toNat.testBit (b % 8)).toNat * 2 ^ (b % 8) := by
    rw [UInt8.toNat_and, bitMask_toNat, Nat.and_two_pow]
  cases hbit : x.toNat.testBit (b % 8) with
  | false =>
      rw [hbit] at hand
      have hzero : x &&& bitMask b = 0 := UInt8.toNat_inj.mp (by simpa using hand)
      simp [hzero]
  | true =>
      rw [hbit] at hand
      have hne : x &&& bitMask b ≠ 0 := by
        intro hzero
        have hpos := Nat.two_pow_pos (b % 8)
        rw [hzero] at hand
        simp only [UInt8.toNat_zero, Bool.toNat_true, one_mul] at hand
        lia
      simp [hne]

theorem bitAt_eq_testBit (d : Nat -> Block) (b : Nat) :
    sb.bitAt d b =
      ((d (sb.bblock b)).get (bitByte b)).toNat.testBit (b % 8) :=
  and_bitMask_ne_zero _ b

theorem bitByte_lt (b : Nat) : bitByte b < BSIZE := by
  have hlt : b % BPB < BPB := Nat.mod_lt _ (by lia)
  unfold bitByte
  lia

theorem get_setBitByte (d : Nat -> Block) (b : Nat) (v : UInt8) :
    (sb.setBitByte d b v (sb.bblock b)).get (bitByte b) = v := by
  unfold setBitByte
  rw [Function.update_self,
    Bytes.get_patch_in _ _ (Nat.le_refl _) (by lia) (bitByte_lt b)]

theorem get_setBitByte_of_ne (d : Nat -> Block) {b c : Nat} (v : UInt8)
    (h : c ≠ b) :
    (sb.setBitByte d b v (sb.bblock c)).get (bitByte c) =
        (d (sb.bblock c)).get (bitByte c) ∨
      (sb.bblock c = sb.bblock b ∧ bitByte c = bitByte b ∧ c % 8 ≠ b % 8) := by
  unfold setBitByte
  rcases eq_or_ne (sb.bblock c) (sb.bblock b) with hblock | hblock
  · rcases eq_or_ne (bitByte c) (bitByte b) with hbyte | hbyte
    · right
      refine ⟨hblock, hbyte, ?_⟩
      intro hmod
      apply h
      unfold bblock at hblock
      unfold bitByte at hbyte
      lia
    · left
      rw [hblock, Function.update_self]
      exact Bytes.get_patch_out _ _ (by lia)
  · left
    rw [Function.update_of_ne hblock]

theorem bitAt_setBit (d : Nat -> Block) (b : Nat) :
    sb.bitAt (sb.setBit d b) b = true := by
  rw [bitAt_eq_testBit, setBit, get_setBitByte, UInt8.toNat_or,
    Nat.testBit_or, bitMask_toNat, Nat.testBit_two_pow_self, Bool.or_true]

theorem bitAt_setBit_of_ne (d : Nat -> Block) {b c : Nat} (h : c ≠ b) :
    sb.bitAt (sb.setBit d b) c = sb.bitAt d c := by
  rw [bitAt_eq_testBit, bitAt_eq_testBit, setBit]
  rcases sb.get_setBitByte_of_ne d
      ((d (sb.bblock b)).get (bitByte b) ||| bitMask b) h with
    hsame | ⟨hblock, hbyte, hmod⟩
  · rw [hsame]
  · rw [hblock, hbyte, get_setBitByte, UInt8.toNat_or, Nat.testBit_or,
      bitMask_toNat, Nat.testBit_two_pow_of_ne (Ne.symm hmod), Bool.or_false]

theorem bitAt_update {d : Nat -> Block} {a : Nat} {v : Block} {b : Nat}
    (h : sb.bblock b ≠ a) :
    sb.bitAt (Function.update d a v) b = sb.bitAt d b := by
  unfold bitAt
  rw [Function.update_of_ne h]

theorem setBit_of_ne (d : Nat -> Block) {a b : Nat} (h : a ≠ sb.bblock b) :
    sb.setBit d b a = d a :=
  Function.update_of_ne h _ _

end Superblock
end Xv6
