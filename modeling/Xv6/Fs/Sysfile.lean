import Xv6.Fs.Dir

/-!
# File-system calls

The calls of `sysfile.c` that change the directory tree.  `pid` and `cwd` are
the caller's; a path is `none` where fetching the arguments fails.  `ialloc`
panics rather than return zero, so `create` has no branch for that.
-/

namespace Xv6
namespace Fs

open Lib Lib.Run

def endWith {α : Type} (r : α) : FsM α := do
  endOp
  pure r

/-- A new inode for `path`, or the file that is already there. -/
def create (pid : Int32) (cwd : Option Slot) (path : List UInt8)
    (type major minor : UInt16) : FsM (Option Slot) := do
  match ← nameiparent pid cwd path with
  | none => pure none
  | some (dp, name) => do
      ilock pid dp
      match ← dirlookup pid dp name with
      | some (ip, _) => do
          iunlockput pid dp
          ilock pid ip
          if type = T_FILE ∧ (← inode ip).din.type = T_FILE then
            pure (some ip)
          else do
            iunlockput pid ip
            pure none
      | none => do
          let ip ← ialloc type
          ilock pid ip
          setDin ip (fun di =>
            { di with major := major, minor := minor, nlink := 1 })
          iupdate ip
          if type = T_DIR then do
            -- Create . and .. entries.
            setDin dp (fun di => { di with nlink := di.nlink + 1 })
            iupdate dp
            -- No ip->nlink++ for ".": avoid cyclic ref count.
            let dot ← dirlink pid ip dotName (← inode ip).inum
            if dot < 0 then
              panic "create dots"
            else do
              let dotdot ← dirlink pid ip dotdotName (← inode dp).inum
              if dotdot < 0 then panic "create dots" else pure ()
          else
            pure ()
          let r ← dirlink pid dp name (← inode ip).inum
          if r < 0 then
            panic "create: dirlink"
          else do
            iunlockput pid dp
            pure (some ip)

/-- The exit `bad` of `sys_link`: take the new link back. -/
def linkBad (pid : Int32) (ip : Slot) : FsM Int := do
  ilock pid ip
  setDin ip (fun di => { di with nlink := di.nlink - 1 })
  iupdate ip
  iunlockput pid ip
  endWith (-1)

/-- Create the path `new` as a link to the same inode as `old`. -/
def sysLink (pid : Int32) (cwd : Option Slot) (old new : Option (List UInt8)) :
    FsM Int := do
  match old, new with
  | some old, some new => do
      beginOp
      match ← namei pid cwd old with
      | none => endWith (-1)
      | some ip => do
          ilock pid ip
          if (← inode ip).din.type = T_DIR then do
            iunlockput pid ip
            endWith (-1)
          else do
            setDin ip (fun di => { di with nlink := di.nlink + 1 })
            iupdate ip
            iunlock pid ip
            match ← nameiparent pid cwd new with
            | none => linkBad pid ip
            | some (dp, name) => do
                ilock pid dp
                let r ← dirlink pid dp name (← inode ip).inum
                if r < 0 then do
                  iunlockput pid dp
                  linkBad pid ip
                else do
                  iunlockput pid dp
                  iput pid ip
                  endWith 0
  | _, _ => pure (-1)

/-- Is the directory `dp` empty except for "." and ".." ? -/
def isdirempty (pid : Int32) (dp : Slot) : FsM Bool := do
  let i ← inode dp
  let r ← dirScan pid dp "isdirempty: readi" (fun de => de.inum ≠ 0)
    (scanFuel i) (2 * Dirent.SIZE)
  pure r.2.isNone

def unlinkBad (pid : Int32) (dp : Slot) : FsM Int := do
  iunlockput pid dp
  endWith (-1)

def sysUnlink (pid : Int32) (cwd : Option Slot) (path : Option (List UInt8)) :
    FsM Int := do
  match path with
  | none => pure (-1)
  | some path => do
      beginOp
      match ← nameiparent pid cwd path with
      | none => endWith (-1)
      | some (dp, name) => do
          ilock pid dp
          -- Cannot unlink "." or "..".
          if namecmp name dotName = true ∨ namecmp name dotdotName = true then
            unlinkBad pid dp
          else do
            match ← dirlookup pid dp name with
            | none => unlinkBad pid dp
            | some (ip, off) => do
                ilock pid ip
                let i ← inode ip
                let full ←
                  if i.din.nlink.toInt16 < 1 then
                    panic "unlink: nlink < 1"
                  else if i.din.type = T_DIR then do
                    let empty ← isdirempty pid ip
                    pure (!empty)
                  else
                    pure false
                if full then do
                  iunlockput pid ip
                  unlinkBad pid dp
                else do
                  let w ← writei pid dp Dirent.zero.bytes (UInt32.ofNat off)
                    (UInt32.ofNat Dirent.SIZE)
                  if w ≠ (Dirent.SIZE : Int) then
                    panic "unlink: writei"
                  else do
                    if (← inode ip).din.type = T_DIR then do
                      setDin dp (fun di => { di with nlink := di.nlink - 1 })
                      iupdate dp
                    else
                      pure ()
                    iunlockput pid dp
                    setDin ip (fun di => { di with nlink := di.nlink - 1 })
                    iupdate ip
                    iunlockput pid ip
                    endWith 0

/-- The common body of `sys_mkdir` and `sys_mknod`. -/
def makeNode (pid : Int32) (cwd : Option Slot) (path : Option (List UInt8))
    (type major minor : UInt16) : FsM Int := do
  beginOp
  match path with
  | none => endWith (-1)
  | some path => do
      match ← create pid cwd path type major minor with
      | none => endWith (-1)
      | some ip => do
          iunlockput pid ip
          endWith 0

def sysMkdir (pid : Int32) (cwd : Option Slot) (path : Option (List UInt8)) :
    FsM Int :=
  makeNode pid cwd path T_DIR 0 0

/-- `major` and `minor` are `int` arguments, cut to `short` by `create`. -/
def sysMknod (pid : Int32) (cwd : Option Slot) (path : Option (List UInt8))
    (major minor : UInt32) : FsM Int :=
  makeNode pid cwd path T_DEV major.toUInt16 minor.toUInt16

/-- The result is the return value and the caller's new `cwd`. -/
def sysChdir (pid : Int32) (cwd : Option Slot) (path : Option (List UInt8)) :
    FsM (Int × Option Slot) := do
  beginOp
  match path with
  | none => endWith (-1, cwd)
  | some path => do
      match ← namei pid cwd path with
      | none => endWith (-1, cwd)
      | some ip => do
          ilock pid ip
          if (← inode ip).din.type ≠ T_DIR then do
            iunlockput pid ip
            endWith (-1, cwd)
          else do
            iunlock pid ip
            match cwd with
            | none => stop .nullDeref
            | some cwd => do
                iput pid cwd
                endWith (0, some ip)

end Fs
end Xv6
