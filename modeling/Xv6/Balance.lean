import Xv6.Boot
import Xv6.Fs.Balance
import Xv6.Lib.Table

/-!
# Balance of the system calls

Every file-system call gives back what it takes: on each return the caller
holds the same inode locks as before, the log has as many open operations, and
the reference count of an inode has changed exactly by the number of open
files and current directories that have come to refer to it.
-/

namespace Xv6
namespace Kernel

open Lib Lib.Run

/-!
## References from the tables
-/

/-- Whether an open file refers to the inode in slot `jp`. -/
def fileRefers (jp : Slot) (fl : File) : Nat :=
  if fl.type = .FD_INODE ∧ fl.ip = jp then 1 else 0

def cwdRefers (jp : Slot) (pr : Proc) : Nat :=
  if pr.cwd = some jp then 1 else 0

/-- The number of open files and current directories that refer to the inode
in slot `jp`. -/
def refCount (k : Kernel) (jp : Slot) : Nat :=
  Finset.univ.sum (fun f => fileRefers jp (k.file f)) +
    Finset.univ.sum (fun p => cwdRefers jp (k.proc p))

/-- A free file structure has no type, as `fileclose` leaves it. -/
def FreeNone (k : Kernel) : Prop :=
  forall f, (k.file f).ref = 0 -> (k.file f).type = .FD_NONE

/-- What belongs to nobody the tables know. -/
structure Rest where
  ref : Slot -> Int
  lock : Slot -> Option Int32
  outstanding : Int

/-- What a call holds: in the file system, and new file structures that have no
type yet. -/
structure Hand where
  fs : Fs.Ledger
  fresh : Multiset Fslot

/-- The file system is what the tables refer to, what the call holds and a
rest. -/
structure Has (cur : Pslot) (pid : Int32) (rest : Rest) (h : Hand)
    (k : Kernel) : Prop where
  fs : exists base : Fs.Base,
    (forall jp, base.ref jp = rest.ref jp + (refCount k jp : Nat)) ∧
      base.lock = rest.lock ∧ base.outstanding = rest.outstanding ∧
        Fs.Holds pid base h.fs k.fs
  pid : (k.proc cur).pid = pid
  free : k.FreeNone
  fresh : forall f, f ∈ h.fresh ->
    (k.file f).ref = 1 ∧ (k.file f).type = .FD_NONE
  nodup : h.fresh.Nodup

abbrev Turns {α : Type} (cur : Pslot) (pid : Int32) (m : KM α) (h : Hand)
    (h' : α -> Hand) : Prop :=
  Run.Turns (Has cur pid) m h h'

section Rules

variable {α β : Type} {cur : Pslot} {pid : Int32}

theorem turns_onFs {m : FsM α} {l : Fs.Ledger} {l' : α -> Fs.Ledger}
    (hm : Fs.Turns pid m l l') (fresh : Multiset Fslot) :
    Turns cur pid (onFs m) ⟨l, fresh⟩ (fun r => ⟨l' r, fresh⟩) := by
  intro rest k h
  rcases h.fs with ⟨base, href, hlock, hout, hholds⟩
  unfold onFs
  rw [wp_zoom]
  apply wp_post (hm base k.fs hholds)
  intro r s' hs'
  exact ⟨⟨base, href, hlock, hout, hs'⟩, h.pid, h.free, h.fresh, h.nodup⟩

theorem turns_onVm (m : VmM α) (h : Hand) :
    Turns cur pid (onVm m) h (fun _ => h) := by
  intro rest k hk
  unfold onVm
  rw [wp_zoom]
  apply wp_iff.mpr
  constructor
  · intro r s _
    exact ⟨hk.fs, hk.pid, hk.free, hk.fresh, hk.nodup⟩
  · exact fun _ _ => trivial

theorem turns_pidOf {f : Int32 -> KM β} {h : Hand} {h' : β -> Hand}
    (hf : Turns cur pid (f pid) h h') :
    Turns cur pid (pidOf cur >>= f) h h' := by
  intro rest k hk
  unfold pidOf
  rw [wp_bind, wp_gets, hk.pid]
  exact hf rest k hk

theorem turns_setPipe (p : UInt32) (g : Pipe -> Pipe) (h : Hand) :
    Turns cur pid (setPipe p g) h (fun _ => h) :=
  fun _ _ hk => ⟨hk.fs, hk.pid, hk.free, hk.fresh, hk.nodup⟩

end Rules

/-!
## Changing a table
-/

section Tables

variable {cur : Pslot} {pid : Int32}

theorem refCount_setFile (k : Kernel) (f : Fslot) (fl : File) (jp : Slot) :
    refCount { k with file := Function.update k.file f fl } jp +
        fileRefers jp (k.file f) =
      refCount k jp + fileRefers jp fl := by
  have hsum := sum_update (fileRefers jp) k.file fl (Finset.mem_univ f)
  unfold refCount
  lia

theorem refCount_setProc (k : Kernel) (p : Pslot) (pr : Proc) (jp : Slot) :
    refCount { k with proc := Function.update k.proc p pr } jp +
        cwdRefers jp (k.proc p) =
      refCount k jp + cwdRefers jp pr := by
  have hsum := sum_update (cwdRefers jp) k.proc pr (Finset.mem_univ p)
  unfold refCount
  lia

theorem refCount_setProc_of_cwd (k : Kernel) (p : Pslot) (pr : Proc)
    (hcwd : pr.cwd = (k.proc p).cwd) (jp : Slot) :
    refCount { k with proc := Function.update k.proc p pr } jp =
      refCount k jp := by
  have hset := refCount_setProc k p pr jp
  have hsame : cwdRefers jp pr = cwdRefers jp (k.proc p) := by
    unfold cwdRefers
    rw [hcwd]
  lia

theorem Has.tables {rest : Rest} {h : Hand} {k : Kernel}
    (hk : Has cur pid rest h k) (k' : Kernel) (h' : Hand)
    (hfs : k'.fs = k.fs) (hlocks : h'.fs.locks = h.fs.locks)
    (hops : h'.fs.ops = h.fs.ops)
    (hrefs : forall jp, refCount k' jp + h'.fs.refs.count jp =
      refCount k jp + h.fs.refs.count jp)
    (hpid : (k'.proc cur).pid = (k.proc cur).pid) (hfree : k'.FreeNone)
    (hfresh : forall f, f ∈ h'.fresh ->
      (k'.file f).ref = 1 ∧ (k'.file f).type = .FD_NONE)
    (hnodup : h'.fresh.Nodup) : Has cur pid rest h' k' := by
  rcases hk.fs with ⟨base, href, hlock, hout, hholds⟩
  constructor
  · exists
      { ref := fun jp => rest.ref jp + (refCount k' jp : Nat)
        inum := fun jp => (k.fs.icache jp).inum
        valid := fun _ => false
        lock := rest.lock
        outstanding := rest.outstanding }
    refine ⟨fun _ => rfl, rfl, rfl, ?_⟩
    rw [hfs]
    apply hholds.rebase _ h'.fs hlocks hops hlock.symm hout.symm rfl rfl
    intro jp
    have hjp := hrefs jp
    rw [href jp]
    simp only
    lia
  · rw [hpid]
    exact hk.pid
  · exact hfree
  · exact hfresh
  · exact hnodup

theorem turns_setProc (p : Pslot) (g : Proc -> Proc)
    (hpid : forall pr, (g pr).pid = pr.pid)
    (hcwd : forall pr, (g pr).cwd = pr.cwd) (h : Hand) :
    Turns cur pid (setProc p g) h (fun _ => h) := by
  intro rest k hk
  show Has cur pid rest h
    { k with proc := Function.update k.proc p (g (k.proc p)) }
  apply hk.tables
  · rfl
  · rfl
  · rfl
  · intro jp
    show refCount { k with proc := Function.update k.proc p _ } jp + _ = _
    rw [refCount_setProc_of_cwd k p _ (hcwd _)]
  · show (Function.update k.proc p (g (k.proc p)) cur).pid = _
    rcases eq_or_ne cur p with rfl | hne
    · rw [Function.update_self]
      exact hpid _
    · rw [Function.update_of_ne hne]
  · exact hk.free
  · exact hk.fresh
  · exact hk.nodup

theorem turns_setOfile (p : Pslot) (fd : Fin NOFILE) (f : Option Fslot)
    (h : Hand) : Turns cur pid (setOfile p fd f) h (fun _ => h) :=
  turns_setProc p
    (fun pr => { pr with ofile := Function.update pr.ofile fd f })
    (fun _ => rfl) (fun _ => rfl) h

theorem Has.setFile {rest : Rest} {h : Hand} {k : Kernel}
    (hk : Has cur pid rest h k) (f : Fslot) (fl : File) (h' : Hand)
    (hlocks : h'.fs.locks = h.fs.locks) (hops : h'.fs.ops = h.fs.ops)
    (hrefs : forall jp, fileRefers jp fl + h'.fs.refs.count jp =
      fileRefers jp (k.file f) + h.fs.refs.count jp)
    (hfree : fl.ref = 0 -> fl.type = .FD_NONE)
    (hfresh : forall f', f' ≠ f -> f' ∈ h'.fresh -> f' ∈ h.fresh)
    (hself : f ∈ h'.fresh -> fl.ref = 1 ∧ fl.type = .FD_NONE)
    (hnodup : h'.fresh.Nodup) :
    Has cur pid rest h' { k with file := Function.update k.file f fl } := by
  apply hk.tables
  · rfl
  · exact hlocks
  · exact hops
  · intro jp
    have hset := refCount_setFile k f fl jp
    have hjp := hrefs jp
    lia
  · rfl
  · intro f' href
    show (Function.update k.file f fl f').type = _
    rcases eq_or_ne f' f with rfl | hne
    · simp only [Function.update_self] at href ⊢
      exact hfree href
    · simp only [Function.update_of_ne hne] at href ⊢
      exact hk.free f' href
  · intro f' hmem
    show (Function.update k.file f fl f').ref = 1 ∧
      (Function.update k.file f fl f').type = _
    rcases eq_or_ne f' f with rfl | hne
    · rw [Function.update_self]
      exact hself hmem
    · rw [Function.update_of_ne hne]
      exact hk.fresh f' (hfresh f' hne hmem)
  · exact hnodup

theorem turns_setFile (f : Fslot) (g : File -> File)
    (href : forall fl, (g fl).ref = fl.ref)
    (htype : forall fl, (g fl).type = fl.type)
    (hip : forall fl, (g fl).ip = fl.ip) (h : Hand) :
    Turns cur pid (setFile f g) h (fun _ => h) := by
  intro rest k hk
  apply hk.setFile f _ h rfl rfl
  · intro jp
    unfold fileRefers
    rw [htype, hip]
  · rw [href, htype]
    exact hk.free f
  · exact fun _ _ hmem => hmem
  · rw [href, htype]
    exact hk.fresh f
  · exact hk.nodup

end Tables

/-!
## Files
-/

section Files

variable {cur : Pslot} {pid : Int32} (r l : Multiset Slot) (o : Nat)
  (fresh : Multiset Fslot)

/-- The new file structures with the one that `filealloc` may return. -/
def withFresh (fresh : Multiset Fslot) : Option Fslot -> Multiset Fslot
  | some f => f ::ₘ fresh
  | none => fresh

theorem fileRefers_of_none {fl : File} (h : fl.type = .FD_NONE) (jp : Slot) :
    fileRefers jp fl = 0 := by
  unfold fileRefers
  rw [h]
  rfl

theorem turns_filealloc (lg : Fs.Ledger) :
    Turns cur pid filealloc ⟨lg, fresh⟩ (fun f => ⟨lg, withFresh fresh f⟩) := by
  intro rest k hk
  unfold filealloc
  rw [wp_bind, wp_gets]
  cases hfind : (List.finRange NFILE).find? (fun f => (k.file f).ref = 0) with
  | none => exact hk
  | some f =>
      have hzero : (k.file f).ref = 0 := by
        simpa using List.find?_some hfind
      have hnone := hk.free f hzero
      have hnot : f ∉ fresh := by
        intro hmem
        have hone := (hk.fresh f hmem).1
        lia
      apply hk.setFile f _ ⟨lg, f ::ₘ fresh⟩ rfl rfl
      · intro jp
        have hold := fileRefers_of_none hnone jp
        have hnew : fileRefers jp { k.file f with ref := 1 } = 0 :=
          fileRefers_of_none hnone jp
        lia
      · intro hone
        cases hone
      · intro f' hne hmem
        exact (Multiset.mem_cons.mp hmem).resolve_left hne
      · exact fun _ => ⟨rfl, hnone⟩
      · exact Multiset.nodup_cons.mpr ⟨hnot, hk.nodup⟩

theorem turns_fdalloc (f : Fslot) (h : Hand) :
    Turns cur pid (fdalloc cur f) h (fun _ => h) := by
  apply Turns.bind (Turns.gets _ h)
  intro fd
  cases fd with
  | none => exact Turns.pure none rfl
  | some fd =>
      exact Turns.bind (turns_setOfile cur fd (some f) h)
        (fun _ => Turns.pure (some fd) rfl)

theorem turns_argfd (fd : Option Int32) (h : Hand) :
    Turns cur pid (argfd cur fd) h (fun _ => h) := by
  cases fd with
  | none => exact Turns.pure none rfl
  | some fd =>
      show Turns cur pid (dite _ _ _) h _
      rcases Decidable.em (0 ≤ fd.toInt ∧ fd.toInt.toNat < NOFILE) with
        hfd | hfd
      · rw [dif_pos hfd]
        exact Turns.bind (Turns.gets _ h) (fun _ => Turns.pure _ rfl)
      · rw [dif_neg hfd]
        exact Turns.pure none rfl

theorem turns_pipeclose (p : UInt32) (writable : Bool) (h : Hand) :
    Turns cur pid (pipeclose p writable) h (fun _ => h) := by
  have htail : Turns cur pid
      (do
        let pi ← gets (fun k => k.pipe p)
        if pi.readopen = false ∧ pi.writeopen = false then
          onVm (Vm.kfree p)
        else
          pure ()) h (fun _ => h) :=
    Turns.bind (Turns.gets _ h) (fun _ =>
      Turns.ite (turns_onVm _ h) (Turns.pure () rfl))
  exact Turns.ite
    (Turns.bind (turns_setPipe p _ h) (fun _ => htail))
    (Turns.bind (turns_setPipe p _ h) (fun _ => htail))

theorem turns_releaseInode (ip : Slot) :
    Turns cur pid
      (do
        let pid ← pidOf cur
        onFs Fs.beginOp
        onFs (Fs.iput pid ip)
        onFs Fs.endOp)
      ⟨⟨ip ::ₘ r, l, o⟩, fresh⟩ (fun _ => ⟨⟨r, l, o⟩, fresh⟩) :=
  turns_pidOf
    (Turns.bind (turns_onFs (Fs.turns_beginOp _) fresh) (fun _ =>
      Turns.bind (turns_onFs (Fs.turns_iput r l (o + 1) ip) fresh) (fun _ =>
        turns_onFs (Fs.turns_endOp ⟨r, l, o⟩) fresh)))

theorem turns_fileclose_fresh (lg : Fs.Ledger) (f : Fslot) :
    Turns cur pid (fileclose cur f) ⟨lg, f ::ₘ fresh⟩
      (fun _ => ⟨lg, fresh⟩) := by
  intro rest k hk
  rcases hk.fresh f (Multiset.mem_cons_self f fresh) with ⟨hone, hnone⟩
  have hnodup := Multiset.nodup_cons.mp hk.nodup
  unfold fileclose
  rw [wp_bind, wp_gets, hone]
  show wp (if (1 : Int) < 1 then _ else if (0 : Int) < 1 - 1 then _ else _)
    _ _ k
  rw [if_neg (by lia), if_neg (by lia)]
  unfold fileRelease
  rw [hnone]
  apply hk.setFile f _ ⟨lg, fresh⟩ rfl rfl
  · intro jp
    rw [fileRefers_of_none hnone jp, fileRefers_of_none rfl jp]
  · exact fun _ => rfl
  · exact fun _ _ hmem => Multiset.mem_cons_of_mem hmem
  · exact fun hmem => absurd hmem hnodup.1
  · exact hnodup.2

theorem fileRefers_of_inode {fl : File} (h : fl.type = .FD_INODE)
    (jp : Slot) : fileRefers jp fl = ({fl.ip} : Multiset Slot).count jp := by
  unfold fileRefers
  rw [h, Multiset.count_singleton]
  rcases eq_or_ne fl.ip jp with rfl | hne
  · simp
  · simp [hne, hne.symm]

theorem turns_fileclose (f : Fslot) :
    Turns cur pid (fileclose cur f) ⟨⟨r, l, o⟩, 0⟩
      (fun _ => ⟨⟨r, l, o⟩, 0⟩) := by
  intro rest k hk
  unfold fileclose
  rw [wp_bind, wp_gets, wp_ite, wp_ite]
  refine ⟨fun _ => trivial, fun hpos => ⟨fun hmore => ?_, fun hlast => ?_⟩⟩
  · apply hk.setFile f _ ⟨⟨r, l, o⟩, 0⟩ rfl rfl
    · exact fun _ => rfl
    · intro hzero
      simp only at hzero
      lia
    · exact fun _ _ hmem => hmem
    · exact fun hmem => absurd hmem (Multiset.notMem_zero f)
    · exact Multiset.nodup_zero
  · -- the last reference: what the file refers to is now the call's
    have hset : forall r', (forall jp, r'.count jp =
        fileRefers jp (k.file f) + r.count jp) ->
        Has cur pid rest ⟨⟨r', l, o⟩, 0⟩
          { k with
            file := Function.update k.file f
              { k.file f with ref := 0, type := .FD_NONE } } := by
      intro r' hr'
      apply hk.setFile f _ ⟨⟨r', l, o⟩, 0⟩ rfl rfl
      · intro jp
        rw [fileRefers_of_none rfl jp, Nat.zero_add]
        exact hr' jp
      · exact fun _ => rfl
      · exact fun _ _ hmem => hmem
      · exact fun hmem => absurd hmem (Multiset.notMem_zero f)
      · exact Multiset.nodup_zero
    unfold setFile
    rw [wp_bind, wp_modify]
    unfold fileRelease
    cases htype : (k.file f).type with
    | FD_PIPE =>
        apply turns_pipeclose _ _ ⟨⟨r, l, o⟩, 0⟩ rest
        apply hset r
        intro jp
        unfold fileRefers
        rw [htype]
        simp
    | FD_INODE =>
        apply turns_releaseInode r l o 0 (k.file f).ip rest
        apply hset
        intro jp
        rw [fileRefers_of_inode htype, ← Multiset.singleton_add,
          Multiset.count_add]
    | FD_NONE =>
        apply hset r
        intro jp
        rw [fileRefers_of_none htype, Nat.zero_add]

theorem turns_pipereadLoop (p : UInt32) (n : Nat) (h : Hand) :
    Turns cur pid (pipereadLoop p n) h (fun _ => h) := by
  induction n with
  | zero => exact Turns.pure [] rfl
  | succ n ih =>
      exact Turns.bind (Turns.gets _ h) (fun _ =>
        Turns.ite (Turns.pure [] rfl)
          (Turns.bind (turns_setPipe p _ h) (fun _ =>
            Turns.bind ih (fun _ => Turns.pure _ rfl))))

theorem turns_piperead (p : UInt32) (n : Int32) (h : Hand) :
    Turns cur pid (piperead cur p n) h (fun _ => h) :=
  Turns.bind (Turns.gets _ h) (fun _ =>
    Turns.ite
      (Turns.bind (Turns.gets _ h) (fun _ =>
        Turns.ite (Turns.pure _ rfl) (Turns.stop _ _ _)))
      (Turns.bind (turns_pipereadLoop p _ h) (fun _ => Turns.pure _ rfl)))

theorem turns_pipewriteLoop (p : UInt32) (src : Nat -> UInt8) (n i : Nat)
    (h : Hand) :
    Turns cur pid (pipewriteLoop cur p src n i) h (fun _ => h) := by
  induction n generalizing i with
  | zero => exact Turns.pure true rfl
  | succ n ih =>
      exact Turns.bind (Turns.gets _ h) (fun _ =>
        Turns.ite
          (Turns.bind (Turns.gets _ h) (fun _ =>
            Turns.ite (Turns.pure false rfl) (Turns.stop _ _ _)))
          (Turns.bind (turns_setPipe p _ h) (fun _ => ih (i + 1))))

theorem turns_pipewrite (p : UInt32) (src : Nat -> UInt8) (n : Int32)
    (h : Hand) : Turns cur pid (pipewrite cur p src n) h (fun _ => h) :=
  Turns.bind (turns_pipewriteLoop p src _ 0 h) (fun _ => Turns.pure _ rfl)

theorem turns_fileread (f : Fslot) (n : Int32) :
    Turns cur pid (fileread cur f n) ⟨⟨r, l, o⟩, fresh⟩
      (fun _ => ⟨⟨r, l, o⟩, fresh⟩) := by
  apply Turns.bind (Turns.gets _ _)
  intro fl
  apply Turns.ite
  · exact Turns.pure _ rfl
  · cases htype : fl.type with
    | FD_PIPE => exact turns_piperead _ n _
    | FD_NONE => exact Turns.stop _ _ _
    | FD_INODE =>
        apply turns_pidOf
        apply Turns.bind (turns_onFs (Fs.turns_ilock r l o fl.ip) fresh)
        intro _
        apply Turns.bind (turns_onFs (Fs.turns_readi r l o fl.ip _ _) fresh)
        intro res
        have htail : Turns cur pid
            (do
              onFs (Fs.iunlock pid fl.ip)
              pure res)
            ⟨⟨r, fl.ip ::ₘ l, o⟩, fresh⟩ (fun _ => ⟨⟨r, l, o⟩, fresh⟩) :=
          Turns.bind (turns_onFs (Fs.turns_iunlock r l o fl.ip) fresh)
            (fun _ => Turns.pure res rfl)
        exact Turns.ite
          (Turns.bind
            (turns_setFile f
              (fun fl => { fl with off := fl.off + UInt32.ofNat res.1.toNat })
              (fun _ => rfl) (fun _ => rfl) (fun _ => rfl) _)
            (fun _ => htail))
          htail

theorem turns_filewriteOp (f : Fslot) (ip : Slot) (src : Nat -> UInt8)
    (n1 : Nat) :
    Turns cur pid (filewriteOp cur f ip src n1) ⟨⟨r, l, o⟩, fresh⟩
      (fun _ => ⟨⟨r, l, o⟩, fresh⟩) := by
  apply turns_pidOf
  apply Turns.bind (turns_onFs (Fs.turns_beginOp _) fresh)
  intro _
  apply Turns.bind (turns_onFs (Fs.turns_ilock r l _ ip) fresh)
  intro _
  apply Turns.bind (Turns.gets _ _)
  intro off
  apply Turns.bind (turns_onFs (Fs.turns_writei r l _ ip src _ _) fresh)
  intro w
  have htail : Turns cur pid
      (do
        onFs (Fs.iunlock pid ip)
        onFs Fs.endOp
        pure w)
      ⟨⟨r, ip ::ₘ l, o + 1⟩, fresh⟩ (fun _ => ⟨⟨r, l, o⟩, fresh⟩) :=
    Turns.bind (turns_onFs (Fs.turns_iunlock r l _ ip) fresh) (fun _ =>
      Turns.bind (turns_onFs (Fs.turns_endOp ⟨r, l, o⟩) fresh)
        (fun _ => Turns.pure w rfl))
  exact Turns.ite
    (Turns.bind
      (turns_setFile f
        (fun fl => { fl with off := fl.off + UInt32.ofNat w.toNat })
        (fun _ => rfl) (fun _ => rfl) (fun _ => rfl) _)
      (fun _ => htail))
    htail

theorem turns_filewriteLoop (f : Fslot) (ip : Slot) (src : Nat -> UInt8)
    (n fuel i : Nat) :
    Turns cur pid (filewriteLoop cur f ip src n fuel i) ⟨⟨r, l, o⟩, fresh⟩
      (fun _ => ⟨⟨r, l, o⟩, fresh⟩) := by
  induction fuel generalizing i with
  | zero => exact Turns.pure _ rfl
  | succ fuel ih =>
      apply Turns.ite
      · apply Turns.bind (turns_filewriteOp r l o fresh f ip _ _)
        intro w
        exact Turns.ite (Turns.pure _ rfl)
          (Turns.ite (Turns.stop _ _ _) (ih _))
      · exact Turns.pure _ rfl

theorem turns_filewrite (f : Fslot) (src : Nat -> UInt8) (n : Int32) :
    Turns cur pid (filewrite cur f src n) ⟨⟨r, l, o⟩, fresh⟩
      (fun _ => ⟨⟨r, l, o⟩, fresh⟩) := by
  apply Turns.bind (Turns.gets _ _)
  intro fl
  apply Turns.ite
  · exact Turns.pure _ rfl
  · cases htype : fl.type with
    | FD_PIPE => exact turns_pipewrite _ src n _
    | FD_NONE => exact Turns.stop _ _ _
    | FD_INODE =>
        exact Turns.bind (turns_filewriteLoop r l o fresh f fl.ip src _ _ _)
          (fun _ => Turns.pure _ rfl)

end Files

/-!
## Calls

A call starts and ends with nothing in hand.
-/

section Calls

variable {cur : Pslot} {pid : Int32}

def empty : Hand := ⟨⟨0, 0, 0⟩, 0⟩

theorem turns_sysRead (fd n : Option Int32) :
    Turns cur pid (sysRead cur fd n) empty (fun _ => empty) := by
  apply Turns.bind (turns_argfd fd empty)
  intro res
  cases res with
  | none => exact Turns.pure _ rfl
  | some res =>
      cases n with
      | none => exact Turns.pure _ rfl
      | some n => exact turns_fileread 0 0 0 0 res.2 n

theorem turns_sysWrite (fd : Option Int32) (src : Nat -> UInt8)
    (n : Option Int32) :
    Turns cur pid (sysWrite cur fd src n) empty (fun _ => empty) := by
  apply Turns.bind (turns_argfd fd empty)
  intro res
  cases res with
  | none => exact Turns.pure _ rfl
  | some res =>
      cases n with
      | none => exact Turns.pure _ rfl
      | some n => exact turns_filewrite 0 0 0 0 res.2 src n

theorem turns_sysClose (fd : Option Int32) :
    Turns cur pid (sysClose cur fd) empty (fun _ => empty) := by
  apply Turns.bind (turns_argfd fd empty)
  intro res
  cases res with
  | none => exact Turns.pure _ rfl
  | some res =>
      exact Turns.bind (turns_setOfile cur res.1 none empty) (fun _ =>
        Turns.bind (turns_fileclose 0 0 0 res.2) (fun _ => Turns.pure _ rfl))

theorem turns_openInode (cwd : Option Slot) (path : List UInt8)
    (omode : UInt32) (o : Nat) :
    Fs.Turns pid (openInode pid cwd path omode) ⟨0, 0, o⟩
      (Fs.withLocked 0 0 o) := by
  apply Turns.ite
  · exact Fs.turns_create 0 0 o cwd path T_FILE 0 0
  · apply Turns.bind (Fs.turns_namei 0 o 0 cwd path)
    intro res
    cases res with
    | none => exact Turns.pure none rfl
    | some ip =>
        apply Turns.bind (Fs.turns_ilock _ 0 o ip)
        intro _
        apply Turns.bind (Turns.gets _ _)
        intro i
        exact Turns.ite
          (Turns.bind (Fs.turns_iunlockput 0 0 o ip)
            (fun _ => Turns.pure none rfl))
          (Turns.pure (some ip) rfl)

theorem turns_openBad (f : Option Fslot) (ip : Slot) :
    Turns cur pid (openBad cur pid f ip) ⟨⟨{ip}, {ip}, 1⟩, withFresh 0 f⟩
      (fun _ => empty) := by
  have htail : Turns cur pid
      (do
        onFs (Fs.iunlockput pid ip)
        onFs (Fs.endWith (-1)) : KM Int)
      ⟨⟨{ip}, {ip}, 1⟩, 0⟩ (fun _ => empty) :=
    Turns.bind (turns_onFs (Fs.turns_iunlockput 0 0 1 ip) 0) (fun _ =>
      turns_onFs (Fs.turns_endWith 0 0 0 _) 0)
  cases f with
  | none => exact htail
  | some f =>
      exact Turns.bind (turns_fileclose_fresh 0 _ f) (fun _ => htail)

theorem turns_openFile (f : Fslot) (ip : Slot) (readable writable : Bool) :
    Turns cur pid
      (setFile f (fun fl =>
        { fl with
          type := .FD_INODE
          ip := ip
          off := 0
          readable := readable
          writable := writable }))
      ⟨⟨{ip}, 0, 0⟩, {f}⟩ (fun _ => empty) := by
  intro rest k hk
  rcases hk.fresh f (Multiset.mem_singleton_self f) with ⟨hone, hnone⟩
  apply hk.setFile f _ empty rfl rfl
  · intro jp
    rw [fileRefers_of_none hnone jp, fileRefers_of_inode rfl jp]
    show _ + Multiset.count jp 0 = 0 + Multiset.count jp {ip}
    rw [Multiset.count_zero, Nat.add_zero, Nat.zero_add]
  · intro hzero
    simp only at hzero
    lia
  · exact fun _ _ hmem => absurd hmem (Multiset.notMem_zero _)
  · exact fun hmem => absurd hmem (Multiset.notMem_zero _)
  · exact Multiset.nodup_zero

theorem turns_sysOpen (path : Option (List UInt8)) (omode : Option UInt32) :
    Turns cur pid (sysOpen cur path omode) empty (fun _ => empty) := by
  cases path with
  | none => exact Turns.pure _ rfl
  | some path =>
      cases omode with
      | none => exact Turns.pure _ rfl
      | some omode =>
          apply turns_pidOf
          apply Turns.bind (Turns.gets _ _)
          intro cwd
          apply Turns.bind (turns_onFs (Fs.turns_beginOp ⟨0, 0, 0⟩) 0)
          intro _
          apply Turns.bind (turns_onFs (turns_openInode cwd path omode 1) 0)
          intro res
          cases res with
          | none => exact turns_onFs (Fs.turns_endWith 0 0 0 _) 0
          | some ip =>
              apply Turns.bind (turns_filealloc 0 ⟨{ip}, {ip}, 1⟩)
              intro f
              cases f with
              | none => exact turns_openBad none ip
              | some f =>
                  apply Turns.bind (turns_fdalloc f _)
                  intro fd
                  cases fd with
                  | none => exact turns_openBad (some f) ip
                  | some fd =>
                      exact Turns.bind
                        (turns_onFs (Fs.turns_iunlock {ip} 0 1 ip) {f})
                        (fun _ => Turns.bind
                          (turns_onFs (Fs.turns_endOp ⟨{ip}, 0, 0⟩) {f})
                          (fun _ => Turns.bind (turns_openFile f ip _ _)
                            (fun _ => Turns.pure _ rfl)))

theorem turns_fsCall {α : Type} {m : Int32 -> Option Slot -> FsM α}
    (hm : forall cwd, Fs.Turns pid (m pid cwd) ⟨0, 0, 0⟩
      (fun _ => ⟨0, 0, 0⟩)) :
    Turns cur pid (fsCall cur m) empty (fun _ => empty) :=
  turns_pidOf (Turns.bind (Turns.gets _ _) (fun cwd =>
    turns_onFs (hm cwd) 0))

theorem count_withSlot (cwd : Option Slot) (jp : Slot) :
    (Fs.withSlot 0 cwd).count jp = if cwd = some jp then 1 else 0 := by
  cases cwd with
  | none => simp [Fs.withSlot]
  | some cwd =>
      rw [Fs.withSlot, Multiset.cons_zero, Multiset.count_singleton]
      simp [eq_comm]

theorem Has.takeCwd {rest : Rest} {k : Kernel} (hk : Has cur pid rest empty k) :
    Has cur pid rest ⟨⟨Fs.withSlot 0 (k.proc cur).cwd, 0, 0⟩, 0⟩
      { k with
        proc := Function.update k.proc cur { k.proc cur with cwd := none } } := by
  apply hk.tables
  · rfl
  · rfl
  · rfl
  · intro jp
    have hset := refCount_setProc k cur { k.proc cur with cwd := none } jp
    have hnone : cwdRefers jp { k.proc cur with cwd := none } = 0 := rfl
    have hold : cwdRefers jp (k.proc cur) =
        (Fs.withSlot 0 (k.proc cur).cwd).count jp := (count_withSlot _ jp).symm
    show _ + (Fs.withSlot 0 (k.proc cur).cwd).count jp =
      refCount k jp + Multiset.count jp 0
    rw [Multiset.count_zero]
    lia
  · show (Function.update k.proc cur _ cur).pid = _
    rw [Function.update_self]
  · exact hk.free
  · exact hk.fresh
  · exact hk.nodup

theorem turns_sysChdir (path : Option (List UInt8)) :
    Turns cur pid (sysChdir cur path) empty (fun _ => empty) := by
  intro rest k hk
  have htake := hk.takeCwd
  rcases htake.fs with ⟨base, href, hlock, hout, hholds⟩
  unfold sysChdir fsCall pidOf cwdOf onFs
  simp only [wp_bind, wp_gets, wp_zoom]
  rw [hk.pid]
  apply wp_post (Fs.turns_sysChdir 0 0 0 _ path base k.fs hholds)
  intro res s' hs'
  have hk' : Has cur pid rest ⟨⟨Fs.withSlot 0 res.2, 0, 0⟩, 0⟩
      { k with
        fs := s'
        proc := Function.update k.proc cur { k.proc cur with cwd := none } } :=
    ⟨⟨base, href, hlock, hout, hs'⟩, htake.pid, htake.free, htake.fresh,
      htake.nodup⟩
  show Has cur pid rest empty
    { k with
      fs := s'
      proc := Function.update k.proc cur { k.proc cur with cwd := res.2 } }
  apply hk'.tables
  · rfl
  · rfl
  · rfl
  · intro jp
    have hnew := refCount_setProc { k with fs := s' } cur
      { k.proc cur with cwd := res.2 } jp
    have hold := refCount_setProc { k with fs := s' } cur
      { k.proc cur with cwd := none } jp
    have hnone : cwdRefers jp { k.proc cur with cwd := none } = 0 := rfl
    have hsome : cwdRefers jp { k.proc cur with cwd := res.2 } =
        (Fs.withSlot 0 res.2).count jp := (count_withSlot _ jp).symm
    show _ + Multiset.count jp 0 = _ + (Fs.withSlot 0 res.2).count jp
    rw [Multiset.count_zero]
    simp only at hnew hold
    lia
  · show (Function.update k.proc cur _ cur).pid =
      (Function.update k.proc cur _ cur).pid
    rw [Function.update_self, Function.update_self]
  · exact htake.free
  · exact htake.fresh
  · exact htake.nodup

/-- The hand of `exec` while it reads the file in slot `ip`. -/
def loading (ip : Slot) : Hand := ⟨⟨{ip}, {ip}, 1⟩, 0⟩

theorem turns_loaduvmLoop (pgdir addr : UInt32) (ip : Slot)
    (offset sz : UInt32) (fuel : Nat) (i : UInt32) :
    Turns cur pid (loaduvmLoop pid pgdir addr ip offset sz fuel i)
      (loading ip) (fun _ => loading ip) := by
  induction fuel generalizing i with
  | zero => exact Turns.pure _ rfl
  | succ fuel ih =>
      unfold loaduvmLoop
      apply Turns.ite
      · apply Turns.bind (turns_onVm _ _)
        intro res
        cases res with
        | none => exact Turns.stop _ _ _
        | some res =>
            apply Turns.bind (turns_onVm _ _)
            intro pte
            apply Turns.bind (turns_onFs (Fs.turns_readi {ip} 0 1 ip _ _) 0)
            intro bs
            apply Turns.bind (turns_onVm _ _)
            intro _
            exact Turns.ite (Turns.pure _ rfl) (ih _)
      · exact Turns.pure _ rfl

theorem turns_loaduvm (pgdir addr : UInt32) (ip : Slot) (offset sz : UInt32) :
    Turns cur pid (loaduvm pid pgdir addr ip offset sz) (loading ip)
      (fun _ => loading ip) :=
  Turns.ite (Turns.stop _ _ _) (turns_loaduvmLoop _ _ _ _ _ _ _)

theorem turns_execLoad (ip : Slot) (pgdir : UInt32) (n : Nat)
    (off sz : UInt32) :
    Turns cur pid (execLoad pid ip pgdir n off sz) (loading ip)
      (fun _ => loading ip) := by
  induction n generalizing off sz with
  | zero => exact Turns.pure _ rfl
  | succ n ih =>
      have hnone : Turns cur pid (pure none : KM (Option UInt32))
          (loading ip) (fun _ => loading ip) := Turns.pure none rfl
      unfold execLoad
      apply Turns.bind (turns_onFs (Fs.turns_readi {ip} 0 1 ip _ _) 0)
      intro bs
      apply Turns.ite hnone
      apply Turns.ite (ih _ _)
      apply Turns.ite hnone
      apply Turns.ite hnone
      apply Turns.bind (turns_onVm _ _)
      intro sz
      apply Turns.ite hnone
      apply Turns.ite hnone
      apply Turns.bind (turns_loaduvm _ _ _ _ _)
      intro ok
      exact Turns.ite (ih _ _) hnone

theorem turns_switchuvm (p : Pslot) (h : Hand) :
    Turns cur pid (switchuvm p) h (fun _ => h) :=
  Turns.bind (Turns.gets _ h) (fun _ =>
    Turns.ite (Turns.stop _ _ _)
      (Turns.ite (Turns.stop _ _ _) (Turns.pure () rfl)))

theorem turns_execCommit (path : List UInt8) (pgdir sz entry sp : UInt32) :
    Turns cur pid (execCommit cur path pgdir sz entry sp) empty
      (fun _ => empty) :=
  Turns.bind (Turns.gets _ _) (fun _ =>
    Turns.bind
      (turns_setProc cur
        (fun pr =>
          { pr with
            name := baseName path
            pgdir := some pgdir
            sz := sz
            tf := { pr.tf with eip := entry, esp := sp } })
        (fun _ => rfl) (fun _ => rfl) _)
      (fun _ => Turns.bind (turns_switchuvm cur _) (fun _ =>
        Turns.bind (turns_onVm _ _) (fun _ => Turns.pure _ rfl))))

theorem turns_execBad_loading (pgdir : Option UInt32) (ip : Slot) :
    Turns cur pid (execBad pid pgdir (some ip)) (loading ip)
      (fun _ => empty) := by
  have htail : Turns cur pid
      (do
        onFs (Fs.iunlockput pid ip)
        onFs Fs.endOp
        pure (-1) : KM Int) (loading ip) (fun _ => empty) :=
    Turns.bind (turns_onFs (Fs.turns_iunlockput 0 0 1 ip) 0) (fun _ =>
      Turns.bind (turns_onFs (Fs.turns_endOp ⟨0, 0, 0⟩) 0)
        (fun _ => Turns.pure _ rfl))
  cases pgdir with
  | none => exact htail
  | some pgdir => exact Turns.bind (turns_onVm _ _) (fun _ => htail)

theorem turns_execBad (pgdir : Option UInt32) :
    Turns cur pid (execBad pid pgdir none) empty (fun _ => empty) := by
  cases pgdir with
  | none => exact Turns.pure _ rfl
  | some pgdir =>
      exact Turns.bind (turns_onVm _ _) (fun _ => Turns.pure _ rfl)

theorem turns_execFinish (path : List UInt8) (pgdir entry : UInt32)
    (m : VmM (Option (UInt32 × UInt32))) :
    Turns cur pid
      (do
        match ← onVm m with
        | none => execBad pid (some pgdir) none
        | some (sz, sp) => execCommit cur path pgdir sz entry sp)
      empty (fun _ => empty) := by
  apply Turns.bind (turns_onVm m empty)
  intro stack
  cases stack with
  | none => exact turns_execBad (some pgdir)
  | some stack => exact turns_execCommit path pgdir _ _ _

theorem turns_exec (path : List UInt8) (argv : List (List UInt8)) :
    Turns cur pid (exec cur path argv) empty (fun _ => empty) := by
  apply turns_pidOf
  apply Turns.bind (Turns.gets _ _)
  intro cwd
  apply Turns.bind (turns_onFs (Fs.turns_beginOp ⟨0, 0, 0⟩) 0)
  intro _
  apply Turns.bind (turns_onFs (Fs.turns_namei 0 1 0 cwd path) 0)
  intro res
  cases res with
  | none => exact turns_onFs (Fs.turns_endWith 0 0 0 _) 0
  | some ip =>
      apply Turns.bind (turns_onFs (Fs.turns_ilock {ip} 0 1 ip) 0)
      intro _
      apply Turns.bind (turns_onFs (Fs.turns_readi {ip} 0 1 ip _ _) 0)
      intro bs
      apply Turns.ite
      · exact turns_execBad_loading none ip
      · apply Turns.ite
        · exact turns_execBad_loading none ip
        · apply Turns.bind (turns_onVm _ _)
          intro pgdir
          cases pgdir with
          | none => exact turns_execBad_loading none ip
          | some pgdir =>
              apply Turns.bind (turns_execLoad ip pgdir _ _ _)
              intro sz
              cases sz with
              | none => exact turns_execBad_loading (some pgdir) ip
              | some sz =>
                  apply Turns.bind
                    (turns_onFs (Fs.turns_iunlockput 0 0 1 ip) 0)
                  intro _
                  apply Turns.bind
                    (turns_onFs (Fs.turns_endOp ⟨0, 0, 0⟩) 0)
                  intro _
                  generalize execStack pgdir sz argv = m
                  exact turns_execFinish path pgdir _ m

theorem turns_sysExec (args : Option (List UInt8 × List (List UInt8))) :
    Turns cur pid (sysExec cur args) empty (fun _ => empty) := by
  cases args with
  | none => exact Turns.pure _ rfl
  | some args =>
      exact Turns.ite (Turns.pure _ rfl) (turns_exec args.1 args.2)

end Calls

/-!
## The balance of a call
-/

/-- The file-system calls with their arguments. -/
inductive FsCall where
  | open (path : Option (List UInt8)) (omode : Option UInt32)
  | mkdir (path : Option (List UInt8))
  | mknod (path : Option (List UInt8)) (major minor : UInt32)
  | link (old new : Option (List UInt8))
  | unlink (path : Option (List UInt8))
  | chdir (path : Option (List UInt8))
  | exec (args : Option (List UInt8 × List (List UInt8)))
  | close (fd : Option Int32)
  | read (fd n : Option Int32)
  | write (fd : Option Int32) (src : Nat -> UInt8) (n : Option Int32)

def FsCall.run (cur : Pslot) : FsCall -> KM Int
  | .open path omode => sysOpen cur path omode
  | .mkdir path => sysMkdir cur path
  | .mknod path major minor => sysMknod cur path major minor
  | .link old new => sysLink cur old new
  | .unlink path => sysUnlink cur path
  | .chdir path => sysChdir cur path
  | .exec args => sysExec cur args
  | .close fd => sysClose cur fd
  | .read fd n => Prod.fst <$> sysRead cur fd n
  | .write fd src n => sysWrite cur fd src n

/-- Locks and operations are as before, and the reference counts have changed
with the references from the tables. -/
structure Balanced (k k' : Kernel) : Prop where
  lock : forall jp, (k'.fs.icache jp).lock = (k.fs.icache jp).lock
  outstanding : k'.fs.log.outstanding = k.fs.log.outstanding
  ref : forall jp, (k'.fs.icache jp).ref - (k.fs.icache jp).ref =
    (refCount k' jp : Int) - (refCount k jp : Int)

theorem turns_run (cur : Pslot) (pid : Int32) (c : FsCall) :
    Turns cur pid (c.run cur) empty (fun _ => empty) := by
  cases c with
  | «open» path omode => exact turns_sysOpen path omode
  | mkdir path | mknod path major minor =>
      exact turns_fsCall (fun cwd => Fs.turns_makeNode 0 0 0 cwd path _ _ _)
  | link old new =>
      exact turns_fsCall (fun cwd => Fs.turns_sysLink 0 0 0 cwd old new)
  | unlink path =>
      exact turns_fsCall (fun cwd => Fs.turns_sysUnlink 0 0 0 cwd path)
  | chdir path => exact turns_sysChdir path
  | exec args => exact turns_sysExec args
  | close fd => exact turns_sysClose fd
  | read fd n =>
      exact Turns.bind (turns_sysRead fd n) (fun _ => Turns.pure _ rfl)
  | write fd src n => exact turns_sysWrite fd src n

theorem has_empty (cur : Pslot) (k : Kernel) (hfree : k.FreeNone) :
    Has cur (k.proc cur).pid
      { ref := fun jp => (k.fs.icache jp).ref - (refCount k jp : Nat)
        lock := fun jp => (k.fs.icache jp).lock
        outstanding := k.fs.log.outstanding } empty k := by
  constructor
  · refine ⟨_, fun jp => ?_, rfl, ?_, Fs.holds_of _ 0 0 k.fs⟩
    · show (k.fs.icache jp).ref - ((Multiset.count jp 0 : Nat) : Int) = _
      rw [Multiset.count_zero]
      lia
    · show k.fs.log.outstanding - ((0 : Nat) : Int) = _
      rw [Nat.cast_zero, sub_zero]
  · rfl
  · exact hfree
  · exact fun f hmem => absurd hmem (Multiset.notMem_zero f)
  · exact Multiset.nodup_zero

theorem balanced_of_turns {α : Type} {cur : Pslot} {m : KM α} {k k' : Kernel}
    {r : α} (hm : Turns cur (k.proc cur).pid m empty (fun _ => empty))
    (hfree : k.FreeNone) (hrun : m k = .ok (r, k')) :
    Balanced k k' ∧ k'.FreeNone := by
  have hend := wp_ok (hm _ k (has_empty cur k hfree)) hrun
  rcases hend.fs with ⟨base, href, hlock, hout, hholds⟩
  refine ⟨⟨?_, ?_, ?_⟩, hend.free⟩
  · intro jp
    rw [hholds.lock jp]
    show (if jp ∈ (0 : Multiset Slot) then _ else _) = _
    rw [if_neg (Multiset.notMem_zero jp), hlock]
  · rw [hholds.ops, hout]
    show _ + ((0 : Nat) : Int) = _
    simp
  · intro jp
    have hjp := hholds.ref jp
    have hzero : (Multiset.count jp empty.fs.refs : Nat) = 0 :=
      Multiset.count_zero jp
    rw [href jp, hzero] at hjp
    simp only at hjp
    lia

theorem call_balanced (cur : Pslot) (c : FsCall) (k k' : Kernel) (r : Int)
    (hfree : k.FreeNone) (hrun : c.run cur k = .ok (r, k')) :
    Balanced k k' ∧ k'.FreeNone :=
  balanced_of_turns (turns_run cur _ c) hfree hrun

def value? {α : Type} (r : Except Stop (α × Kernel)) : Option α :=
  match r with
  | .ok (a, _) => some a
  | .error _ => none

theorem value?_eq_some {α : Type} {r : Except Stop (α × Kernel)} {a : α}
    (h : value? r = some a) : exists k', r = .ok (a, k') := by
  cases r with
  | ok r =>
      rcases r with ⟨b, k'⟩
      cases h
      exact ⟨k', rfl⟩
  | error e => cases h

def stop? {α : Type} (r : Except Stop (α × Kernel)) : Option Stop :=
  match r with
  | .ok _ => none
  | .error e => some e

theorem stop?_eq_some {α : Type} {r : Except Stop (α × Kernel)} {e : Stop}
    (h : stop? r = some e) : r = .error e := by
  cases r with
  | ok r => cases h
  | error e' =>
      cases h
      rfl

/-- `init` opens the root directory, which its current directory refers to as
well. -/
theorem boot_open_balanced :
    exists k', (FsCall.open (some [SLASH]) (some O_RDONLY)).run 0 boot =
        .ok (0, k') ∧ boot.FreeNone ∧ Balanced boot k' ∧ k'.FreeNone := by
  have hfree : boot.FreeNone := fun _ _ => rfl
  have hvalue : value? ((FsCall.open (some [SLASH]) (some O_RDONLY)).run 0
      boot) = some 0 := by
    decide +kernel
  rcases value?_eq_some hvalue with ⟨k', hrun⟩
  exact ⟨k', hrun, hfree, call_balanced 0 _ boot k' 0 hfree hrun⟩

end Kernel
end Xv6
