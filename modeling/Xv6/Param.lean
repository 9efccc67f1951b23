import Mathlib

/-!
# Kernel parameters

The constants of `param.h`, `fs.h` and `stat.h` that the models use, under
their names in the headers.
-/

namespace Xv6

abbrev NPROC : Nat := 64
abbrev NOFILE : Nat := 16
abbrev NFILE : Nat := 100
abbrev NINODE : Nat := 50
abbrev NDEV : Nat := 10
abbrev MAXARG : Nat := 32
abbrev MAXOPBLOCKS : Nat := 10
abbrev LOGSIZE : Nat := MAXOPBLOCKS * 3
abbrev FSSIZE : Nat := 1000

instance : NeZero NPROC := ⟨by decide⟩
instance : NeZero NINODE := ⟨by decide⟩

abbrev ROOTINO : Nat := 1
abbrev BSIZE : Nat := 512
abbrev NDIRECT : Nat := 12
abbrev NINDIRECT : Nat := BSIZE / 4
abbrev MAXFILE : Nat := NDIRECT + NINDIRECT
/-- Inodes per block: a `dinode` is 64 bytes. -/
abbrev IPB : Nat := BSIZE / 64
abbrev BPB : Nat := BSIZE * 8
abbrev DIRSIZ : Nat := 14

abbrev T_DIR : UInt16 := 1
abbrev T_FILE : UInt16 := 2
abbrev T_DEV : UInt16 := 3

end Xv6
