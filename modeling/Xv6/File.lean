import Xv6.Kernel

/-!
# Open files and pipes

`file.c`, `pipe.c` and the calls of `sysfile.c` on descriptors and paths.  An
argument is `none` where fetching it from the caller's stack fails.  Bytes that
a call stores in the caller's memory are part of its result, bytes that it
reads there are an argument.  The wakeups of `pipe.c` are left out: they only
make sleeping processes runnable, a step of its own.
-/

namespace Xv6
namespace Kernel

open Lib Lib.Run

/-!
## Pipes
-/

def pipeclose (p : UInt32) (writable : Bool) : KM Unit := do
  if writable then
    setPipe p (fun pi => { pi with writeopen := false })
  else
    setPipe p (fun pi => { pi with readopen := false })
  let pi ← gets (fun k => k.pipe p)
  if pi.readopen = false ∧ pi.writeopen = false then
    onVm (Vm.kfree p)
  else
    pure ()

/-- The loop of `pipewrite` with `n` bytes left to write, starting at `i`;
`false` is the return value `-1`. -/
def pipewriteLoop (cur : Pslot) (p : UInt32) (src : Nat -> UInt8) :
    Nat -> Nat -> KM Bool
  | 0, _ => pure true
  | n + 1, i => do
      let pi ← gets (fun k => k.pipe p)
      if pi.nwrite = pi.nread + 512 then do
        let killed ← gets (fun k => (k.proc cur).killed)
        if pi.readopen = false ∨ killed = true then
          pure false
        else
          stop .sleep
      else do
        setPipe p (fun pi =>
          { pi with
            data := pi.data.patch (pi.nwrite.toNat % PIPESIZE) 1 (fun _ => src i)
            nwrite := pi.nwrite + 1 })
        pipewriteLoop cur p src n (i + 1)

def pipewrite (cur : Pslot) (p : UInt32) (src : Nat -> UInt8) (n : Int32) :
    KM Int := do
  let ok ← pipewriteLoop cur p src n.toInt.toNat 0
  pure (if ok then n.toInt else -1)

/-- The copy loop of `piperead` for at most `n` bytes. -/
def pipereadLoop (p : UInt32) : Nat -> KM (List UInt8)
  | 0 => pure []
  | n + 1 => do
      let pi ← gets (fun k => k.pipe p)
      if pi.nread = pi.nwrite then
        pure []
      else do
        setPipe p (fun pi => { pi with nread := pi.nread + 1 })
        let rest ← pipereadLoop p n
        pure (pi.data.get (pi.nread.toNat % PIPESIZE) :: rest)

def piperead (cur : Pslot) (p : UInt32) (n : Int32) :
    KM (Int × List UInt8) := do
  let pi ← gets (fun k => k.pipe p)
  if pi.nread = pi.nwrite ∧ pi.writeopen = true then do
    let killed ← gets (fun k => (k.proc cur).killed)
    if killed then pure (-1, []) else stop .sleep
  else do
    let bs ← pipereadLoop p n.toInt.toNat
    pure (bs.length, bs)

/-!
## The file table
-/

def filealloc : KM (Option Fslot) := do
  let f ← gets (fun k =>
    (List.finRange NFILE).find? (fun f => (k.file f).ref = 0))
  match f with
  | none => pure none
  | some f => do
      setFile f (fun fl => { fl with ref := 1 })
      pure (some f)

def filedup (f : Fslot) : KM Fslot := do
  let fl ← gets (fun k => k.file f)
  if fl.ref < 1 then
    panic "filedup"
  else do
    setFile f (fun fl => { fl with ref := fl.ref + 1 })
    pure f

/-- What `fileclose` does once the last reference is gone. -/
def fileRelease (cur : Pslot) (ff : File) : KM Unit := do
  match ff.type with
  | .FD_PIPE => pipeclose ff.pipe ff.writable
  | .FD_INODE => do
      let pid ← pidOf cur
      onFs Fs.beginOp
      onFs (Fs.iput pid ff.ip)
      onFs Fs.endOp
  | .FD_NONE => pure ()

def fileclose (cur : Pslot) (f : Fslot) : KM Unit := do
  let ff ← gets (fun k => k.file f)
  if ff.ref < 1 then
    panic "fileclose"
  else if 0 < ff.ref - 1 then
    setFile f (fun fl => { fl with ref := fl.ref - 1 })
  else do
    setFile f (fun fl => { fl with ref := 0, type := .FD_NONE })
    fileRelease cur ff

def fileread (cur : Pslot) (f : Fslot) (n : Int32) :
    KM (Int × List UInt8) := do
  let fl ← gets (fun k => k.file f)
  if fl.readable = false then
    pure (-1, [])
  else
    match fl.type with
    | .FD_PIPE => piperead cur fl.pipe n
    | .FD_INODE => do
        let pid ← pidOf cur
        onFs (Fs.ilock pid fl.ip)
        let r ← onFs (Fs.readi pid fl.ip fl.off n.toUInt32)
        if 0 < r.1 then
          setFile f (fun fl => { fl with off := fl.off + UInt32.ofNat r.1.toNat })
        else
          pure ()
        onFs (Fs.iunlock pid fl.ip)
        pure r
    | .FD_NONE => panic "fileread"

/-- One transaction of `filewrite`: the result of `writei`. -/
def filewriteOp (cur : Pslot) (f : Fslot) (ip : Slot) (src : Nat -> UInt8)
    (n1 : Nat) : KM Int := do
  let pid ← pidOf cur
  onFs Fs.beginOp
  onFs (Fs.ilock pid ip)
  let off ← gets (fun k => (k.file f).off)
  let r ← onFs (Fs.writei pid ip src off (UInt32.ofNat n1))
  if 0 < r then
    setFile f (fun fl => { fl with off := fl.off + UInt32.ofNat r.toNat })
  else
    pure ()
  onFs (Fs.iunlock pid ip)
  onFs Fs.endOp
  pure r

/-- The blocks of one transaction: `((MAXOPBLOCKS-1-1-2) / 2) * 512`. -/
def writeMax : Nat := (MAXOPBLOCKS - 1 - 1 - 2) / 2 * 512

/-- The loop of `filewrite` once `i` of the `n` bytes are written; the result
is the value of `i` at its end. -/
def filewriteLoop (cur : Pslot) (f : Fslot) (ip : Slot) (src : Nat -> UInt8)
    (n : Nat) : Nat -> Nat -> KM Nat
  | 0, i => pure i
  | fuel + 1, i =>
      if i < n then do
        let n1 := min (n - i) writeMax
        let r ← filewriteOp cur f ip (fun j => src (i + j)) n1
        if r < 0 then
          pure i
        else if r ≠ n1 then
          panic "short filewrite"
        else
          filewriteLoop cur f ip src n fuel (i + n1)
      else
        pure i

def filewrite (cur : Pslot) (f : Fslot) (src : Nat -> UInt8) (n : Int32) :
    KM Int := do
  let fl ← gets (fun k => k.file f)
  if fl.writable = false then
    pure (-1)
  else
    match fl.type with
    | .FD_PIPE => pipewrite cur fl.pipe src n
    | .FD_INODE => do
        let i ← filewriteLoop cur f fl.ip src n.toInt.toNat n.toInt.toNat 0
        pure (if (i : Int) = n.toInt then n.toInt else -1)
    | .FD_NONE => panic "filewrite"

def pipeallocBad (cur : Pslot) (f0 f1 : Option Fslot) :
    KM (Option (Fslot × Fslot)) := do
  match f0 with
  | some f => fileclose cur f
  | none => pure ()
  match f1 with
  | some f => fileclose cur f
  | none => pure ()
  pure none

def pipealloc (cur : Pslot) : KM (Option (Fslot × Fslot)) := do
  match ← filealloc with
  | none => pipeallocBad cur none none
  | some f0 => do
      match ← filealloc with
      | none => pipeallocBad cur (some f0) none
      | some f1 => do
          match ← onVm Vm.kalloc with
          | none => pipeallocBad cur (some f0) (some f1)
          | some p => do
              setPipe p (fun pi =>
                { pi with
                  readopen := true
                  writeopen := true
                  nwrite := 0
                  nread := 0 })
              setFile f0 (fun fl =>
                { fl with
                  type := .FD_PIPE
                  readable := true
                  writable := false
                  pipe := p })
              setFile f1 (fun fl =>
                { fl with
                  type := .FD_PIPE
                  readable := false
                  writable := true
                  pipe := p })
              pure (some (f0, f1))

/-!
## Descriptors
-/

def argfd (cur : Pslot) (fd : Option Int32) :
    KM (Option (Fin NOFILE × Fslot)) := do
  match fd with
  | none => pure none
  | some fd =>
      if h : 0 ≤ fd.toInt ∧ fd.toInt.toNat < NOFILE then do
        let i : Fin NOFILE := ⟨fd.toInt.toNat, h.2⟩
        let f ← gets (fun k => (k.proc cur).ofile i)
        pure (f.map (fun f => (i, f)))
      else
        pure none

def opened (pr : Proc) (fd : Option Int32) : Option (Fin NOFILE × Fslot) :=
  match fd with
  | none => none
  | some fd =>
      if h : 0 ≤ fd.toInt ∧ fd.toInt.toNat < NOFILE then
        (pr.ofile ⟨fd.toInt.toNat, h.2⟩).map
          (fun f => (⟨fd.toInt.toNat, h.2⟩, f))
      else
        none

def fdalloc (cur : Pslot) (f : Fslot) : KM (Option (Fin NOFILE)) := do
  let fd ← gets (fun k =>
    (List.finRange NOFILE).find? (fun fd => (k.proc cur).ofile fd = none))
  match fd with
  | none => pure none
  | some fd => do
      setOfile cur fd (some f)
      pure (some fd)

def sysDup (cur : Pslot) (fd : Option Int32) : KM Int := do
  match ← argfd cur fd with
  | none => pure (-1)
  | some (_, f) => do
      match ← fdalloc cur f with
      | none => pure (-1)
      | some fd => do
          let _ ← filedup f
          pure (fd.val : Int)

/-- `n` is `none` also where the buffer is not the caller's memory. -/
def sysRead (cur : Pslot) (fd n : Option Int32) : KM (Int × List UInt8) := do
  match ← argfd cur fd, n with
  | some (_, f), some n => fileread cur f n
  | _, _ => pure (-1, [])

def sysWrite (cur : Pslot) (fd : Option Int32) (src : Nat -> UInt8)
    (n : Option Int32) : KM Int := do
  match ← argfd cur fd, n with
  | some (_, f), some n => filewrite cur f src n
  | _, _ => pure (-1)

def sysClose (cur : Pslot) (fd : Option Int32) : KM Int := do
  match ← argfd cur fd with
  | none => pure (-1)
  | some (fd, f) => do
      setOfile cur fd none
      fileclose cur f
      pure 0

/-- `ok` says whether the result array is the caller's memory; the result is
the return value and the two descriptors stored there. -/
def sysPipe (cur : Pslot) (ok : Bool) :
    KM (Int × Option (Fin NOFILE × Fin NOFILE)) := do
  if ok = false then
    pure (-1, none)
  else do
    match ← pipealloc cur with
    | none => pure (-1, none)
    | some (rf, wf) => do
        match ← fdalloc cur rf with
        | none => do
            fileclose cur rf
            fileclose cur wf
            pure (-1, none)
        | some fd0 => do
            match ← fdalloc cur wf with
            | none => do
                setOfile cur fd0 none
                fileclose cur rf
                fileclose cur wf
                pure (-1, none)
            | some fd1 => pure (0, some (fd0, fd1))

/-!
## Calls on paths
-/

def O_RDONLY : UInt32 := 0x000
def O_WRONLY : UInt32 := 0x001
def O_RDWR : UInt32 := 0x002
def O_CREATE : UInt32 := 0x200

/-- The inode that `sys_open` opens, referenced and locked. -/
def openInode (pid : Int32) (cwd : Option Slot) (path : List UInt8)
    (omode : UInt32) : FsM (Option Slot) := do
  if omode &&& O_CREATE ≠ 0 then
    Fs.create pid cwd path T_FILE 0 0
  else do
    match ← Fs.namei pid cwd path with
    | none => pure none
    | some ip => do
        Fs.ilock pid ip
        if (← Fs.inode ip).din.type = T_DIR ∧ omode ≠ O_RDONLY then do
          Fs.iunlockput pid ip
          pure none
        else
          pure (some ip)

/-- The exit of `sys_open` without a file or a descriptor. -/
def openBad (cur : Pslot) (pid : Int32) (f : Option Fslot) (ip : Slot) :
    KM Int := do
  match f with
  | some f => fileclose cur f
  | none => pure ()
  onFs (Fs.iunlockput pid ip)
  onFs (Fs.endWith (-1))

def sysOpen (cur : Pslot) (path : Option (List UInt8))
    (omode : Option UInt32) : KM Int := do
  match path, omode with
  | some path, some omode => do
      let pid ← pidOf cur
      let cwd ← cwdOf cur
      onFs Fs.beginOp
      match ← onFs (openInode pid cwd path omode) with
      | none => onFs (Fs.endWith (-1))
      | some ip => do
          match ← filealloc with
          | none => openBad cur pid none ip
          | some f => do
              match ← fdalloc cur f with
              | none => openBad cur pid (some f) ip
              | some fd => do
                  onFs (Fs.iunlock pid ip)
                  onFs Fs.endOp
                  setFile f (fun fl =>
                    { fl with
                      type := .FD_INODE
                      ip := ip
                      off := 0
                      readable := omode &&& O_WRONLY = 0
                      writable := omode &&& O_WRONLY ≠ 0 ∨
                        omode &&& O_RDWR ≠ 0 })
                  pure (fd.val : Int)
  | _, _ => pure (-1)

def fsCall {α : Type} (cur : Pslot) (m : Int32 -> Option Slot -> FsM α) :
    KM α := do
  let pid ← pidOf cur
  let cwd ← cwdOf cur
  onFs (m pid cwd)

def sysLink (cur : Pslot) (old new : Option (List UInt8)) : KM Int :=
  fsCall cur (fun pid cwd => Fs.sysLink pid cwd old new)

def sysUnlink (cur : Pslot) (path : Option (List UInt8)) : KM Int :=
  fsCall cur (fun pid cwd => Fs.sysUnlink pid cwd path)

def sysMkdir (cur : Pslot) (path : Option (List UInt8)) : KM Int :=
  fsCall cur (fun pid cwd => Fs.sysMkdir pid cwd path)

def sysMknod (cur : Pslot) (path : Option (List UInt8))
    (major minor : UInt32) : KM Int :=
  fsCall cur (fun pid cwd => Fs.sysMknod pid cwd path major minor)

def sysChdir (cur : Pslot) (path : Option (List UInt8)) : KM Int := do
  let r ← fsCall cur (fun pid cwd => Fs.sysChdir pid cwd path)
  setProc cur (fun pr => { pr with cwd := r.2 })
  pure r.1

end Kernel
end Xv6
