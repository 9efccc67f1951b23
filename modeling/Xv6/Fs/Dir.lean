import Xv6.Fs.Inode

/-!
# Directories and paths

The directory and path functions of `fs.c`.  Strings are lists of bytes without
their terminating zero; the name field of a directory entry is `DIRSIZ` bytes
that a zero may end early.
-/

namespace Xv6

open Lib Lib.Run

def SLASH : UInt8 := 47

def dotName : List UInt8 := [46]

def dotdotName : List UInt8 := [46, 46]

/-- A string as `strncmp` sees it within `DIRSIZ` bytes. -/
def cname (name : List UInt8) : List UInt8 :=
  (name.take DIRSIZ).takeWhile (· ≠ 0)

def namecmp (s t : List UInt8) : Bool := cname s = cname t

structure Dirent where
  inum : UInt16
  name : List UInt8
  deriving DecidableEq

namespace Dirent

abbrev SIZE : Nat := 16

def ofBytes (bs : List UInt8) : Dirent where
  inum := UInt16.ofNat
    ((bs.getD 0 0).toNat + 256 * (bs.getD 1 0).toNat)
  name := (bs.drop 2).take DIRSIZ

/-- The bytes of an entry; `strncpy` pads the name with zeroes. -/
def bytes (de : Dirent) (k : Nat) : UInt8 :=
  if k < 2 then Bytes.byteOf de.inum.toNat k
  else (cname de.name).getD (k - 2) 0

def zero : Dirent where
  inum := 0
  name := []

end Dirent

namespace Fs

/-!
## Directories
-/

/-- The loop over the entries of a directory: the offset of the first entry
with `found`, or the offset at which the loop ended.  `msg` is the panic of a
short read. -/
def dirScan (pid : Int32) (dp : Slot) (msg : String) (found : Dirent -> Bool) :
    Nat -> Nat -> FsM (Nat × Option Dirent)
  | 0, off => pure (off, none)
  | fuel + 1, off => do
      let size := (← inode dp).din.size.toNat
      if off < size then do
        let r ← readi pid dp (UInt32.ofNat off) (UInt32.ofNat Dirent.SIZE)
        if r.1 ≠ (Dirent.SIZE : Int) then
          panic msg
        else
          let de := Dirent.ofBytes r.2
          if found de then
            pure (off, some de)
          else
            dirScan pid dp msg found fuel (off + Dirent.SIZE)
      else
        pure (off, none)

def scanFuel (i : Inode) : Nat := i.din.size.toNat / Dirent.SIZE + 1

def dirlookup (pid : Int32) (dp : Slot) (name : List UInt8) :
    FsM (Option (Slot × Nat)) := do
  let i ← inode dp
  if i.din.type ≠ T_DIR then
    panic "dirlookup not DIR"
  else do
    let r ← dirScan pid dp "dirlookup read"
      (fun de => de.inum ≠ 0 ∧ namecmp name de.name = true) (scanFuel i) 0
    match r with
    | (off, some de) => do
        let ip ← iget de.inum.toNat
        pure (some (ip, off))
    | (_, none) => pure none

def dirlink (pid : Int32) (dp : Slot) (name : List UInt8) (inum : Nat) :
    FsM Int := do
  -- Check that name is not present.
  match ← dirlookup pid dp name with
  | some (ip, _) => do
      iput pid ip
      pure (-1)
  | none => do
      -- Look for an empty dirent.
      let i ← inode dp
      let r ← dirScan pid dp "dirlink read" (fun de => de.inum = 0)
        (scanFuel i) 0
      let de : Dirent := { inum := UInt16.ofNat inum, name := name }
      let w ← writei pid dp de.bytes (UInt32.ofNat r.1)
        (UInt32.ofNat Dirent.SIZE)
      if w ≠ (Dirent.SIZE : Int) then
        panic "dirlink"
      else
        pure 0

/-!
## Paths
-/

def skipelem (path : List UInt8) : Option (List UInt8 × List UInt8) :=
  match path.dropWhile (· = SLASH) with
  | [] => none
  | start =>
      some ((start.takeWhile (· ≠ SLASH)).take DIRSIZ,
        (start.dropWhile (· ≠ SLASH)).dropWhile (· = SLASH))

/-- The loop of `namex`.  Every element shortens the path, so its length is
enough fuel.  The result is the inode with the last element copied. -/
def namexLoop (pid : Int32) (parent : Bool) :
    Nat -> Slot -> List UInt8 -> List UInt8 ->
      FsM (Option (Slot × List UInt8))
  | fuel, ip, path, name =>
      match fuel, skipelem path with
      | fuel + 1, some (name, rest) => do
          ilock pid ip
          if (← inode ip).din.type ≠ T_DIR then do
            iunlockput pid ip
            pure none
          else if parent = true ∧ rest = [] then do
            -- Stop one level early.
            iunlock pid ip
            pure (some (ip, name))
          else do
            match ← dirlookup pid ip name with
            | none => do
                iunlockput pid ip
                pure none
            | some (next, _) => do
                iunlockput pid ip
                namexLoop pid parent fuel next rest name
      | _, _ =>
          if parent then do
            iput pid ip
            pure none
          else
            pure (some (ip, name))

/-- The inode a walk starts from; `cwd` is the current directory of the
caller, a null pointer after its exit. -/
def namexStart (cwd : Option Slot) (path : List UInt8) : FsM Slot :=
  if path.head? = some SLASH then
    iget ROOTINO
  else
    match cwd with
    | some cwd => idup cwd
    | none => stop .nullDeref

def namex (pid : Int32) (cwd : Option Slot) (parent : Bool)
    (path : List UInt8) : FsM (Option (Slot × List UInt8)) := do
  let ip ← namexStart cwd path
  namexLoop pid parent path.length ip path []

def namei (pid : Int32) (cwd : Option Slot) (path : List UInt8) :
    FsM (Option Slot) := do
  let r ← namex pid cwd false path
  pure (r.map Prod.fst)

def nameiparent (pid : Int32) (cwd : Option Slot) (path : List UInt8) :
    FsM (Option (Slot × List UInt8)) :=
  namex pid cwd true path

end Fs
end Xv6
