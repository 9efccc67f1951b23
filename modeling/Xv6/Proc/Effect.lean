import Xv6.Balance

/-!
# The process table under the calls

What each call does to the process table and the variables beside it, whatever
the file system, the memory and the open files are.  Later modules read their
invariants off these descriptions and do not look into the calls again.
-/

namespace Xv6
namespace Kernel

open Lib Lib.Run

/-- The process table and the variables of `proc.c`. -/
structure Procs where
  proc : Pslot -> Proc
  initproc : Pslot
  nextpid : Int32
  numofthread : Int

def procs (k : Kernel) : Procs where
  proc := k.proc
  initproc := k.initproc
  nextpid := k.nextpid
  numofthread := k.numofthread

namespace Procs

def set (t : Procs) (p : Pslot) (g : Proc -> Proc) : Procs :=
  { t with proc := Function.update t.proc p (g (t.proc p)) }

def map (t : Procs) (g : Proc -> Proc) : Procs :=
  { t with proc := fun p => g (t.proc p) }

@[simp] theorem set_self (t : Procs) (p : Pslot) (g : Proc -> Proc) :
    (t.set p g).proc p = g (t.proc p) :=
  Function.update_self p _ t.proc

theorem set_of_ne (t : Procs) {p q : Pslot} (h : q ≠ p) (g : Proc -> Proc) :
    (t.set p g).proc q = t.proc q :=
  Function.update_of_ne h _ t.proc

theorem set_set (t : Procs) (p : Pslot) (g g' : Proc -> Proc) :
    (t.set p g).set p g' = t.set p (fun pr => g' (g pr)) := by
  simp only [set, Function.update_self, Function.update_idem]

@[simp] theorem set_initproc (t : Procs) (p : Pslot) (g : Proc -> Proc) :
    (t.set p g).initproc = t.initproc := rfl

@[simp] theorem set_nextpid (t : Procs) (p : Pslot) (g : Proc -> Proc) :
    (t.set p g).nextpid = t.nextpid := rfl

@[simp] theorem set_numofthread (t : Procs) (p : Pslot) (g : Proc -> Proc) :
    (t.set p g).numofthread = t.numofthread := rfl

end Procs

def withTable (k : Kernel) (s : Vm) (t : Procs) : Kernel :=
  { k with
    vm := s
    proc := t.proc
    initproc := t.initproc
    nextpid := t.nextpid
    numofthread := t.numofthread }

/-!
## The rest of the kernel
-/

/-- A view that shows nothing of the file system, the memory and the pipes. -/
structure Aside {ρ : Type} (view : Kernel -> ρ) : Prop where
  fs : forall k s, view { k with fs := s } = view k
  vm : forall k s, view { k with vm := s } = view k
  pipe : forall k g, view { k with pipe := g } = view k

namespace Aside

variable {α ρ : Type} {view : Kernel -> ρ}

theorem onFs (h : Aside view) (m : FsM α) : Keeps view (onFs m) := by
  rintro t k rfl
  unfold Kernel.onFs
  rw [wp_zoom]
  exact wp_trivial (fun _ s => h.fs k s)

theorem onVm (h : Aside view) (m : VmM α) : Keeps view (onVm m) := by
  rintro t k rfl
  unfold Kernel.onVm
  rw [wp_zoom]
  exact wp_trivial (fun _ s => h.vm k s)

theorem setPipe (h : Aside view) (p : UInt32) (g : Pipe -> Pipe) :
    Keeps view (setPipe p g) :=
  fun _ k hk => (h.pipe k _).trans hk

theorem pipeclose (h : Aside view) (p : UInt32) (writable : Bool) :
    Keeps view (pipeclose p writable) := by
  have htail : Keeps view
      (do
        let pi ← gets (fun k => k.pipe p)
        if pi.readopen = false ∧ pi.writeopen = false then
          Kernel.onVm (Vm.kfree p)
        else
          pure ()) :=
    Turns.bind (Turns.gets _ ()) (fun _ =>
      Turns.ite (h.onVm _) (Turns.pure () rfl))
  exact Turns.ite
    (Turns.bind (h.setPipe p _) (fun _ => htail))
    (Turns.bind (h.setPipe p _) (fun _ => htail))

theorem fileRelease (h : Aside view) (cur : Pslot) (ff : File) :
    Keeps view (fileRelease cur ff) := by
  unfold Kernel.fileRelease
  cases ff.type with
  | FD_NONE => exact Turns.pure () rfl
  | FD_PIPE => exact h.pipeclose _ _
  | FD_INODE =>
      exact Turns.bind (Turns.gets _ ()) (fun _ =>
        Turns.bind (h.onFs _) (fun _ =>
          Turns.bind (h.onFs _) (fun _ => h.onFs _)))

end Aside

theorem aside_procs : Aside procs :=
  ⟨fun _ _ => rfl, fun _ _ => rfl, fun _ _ => rfl⟩

section Keeps

variable {α ρ : Type} {view : Kernel -> ρ}

theorem keeps_onFs (m : FsM α) : Keeps procs (onFs m) := aside_procs.onFs m

theorem keeps_onVm (m : VmM α) : Keeps procs (onVm m) := aside_procs.onVm m

theorem keeps_gets (f : Kernel -> α) : Keeps view (gets f : KM α) :=
  Turns.gets f ()

theorem keeps_pure (a : α) : Keeps view (pure a : KM α) :=
  Turns.pure a rfl

theorem keeps_stop (e : Stop) : Keeps view (stop e : KM α) :=
  Turns.stop e () _

theorem keeps_setFile (f : Fslot) (g : File -> File) :
    Keeps procs (setFile f g) :=
  fun _ _ h => h

theorem keeps_setPipe (p : UInt32) (g : Pipe -> Pipe) :
    Keeps procs (setPipe p g) :=
  aside_procs.setPipe p g

theorem keeps_pidOf (cur : Pslot) : Keeps view (pidOf cur) :=
  keeps_gets _

theorem keeps_filealloc : Keeps procs filealloc := by
  apply Turns.bind (keeps_gets _)
  intro f
  cases f with
  | none => exact keeps_pure none
  | some f =>
      exact Turns.bind (keeps_setFile f _) (fun _ => keeps_pure (some f))

theorem keeps_filedup (f : Fslot) : Keeps procs (filedup f) :=
  Turns.bind (keeps_gets _) (fun _ =>
    Turns.ite (keeps_stop _)
      (Turns.bind (keeps_setFile f _) (fun _ => keeps_pure f)))

theorem keeps_fileclose (cur : Pslot) (f : Fslot) :
    Keeps procs (fileclose cur f) :=
  Turns.bind (keeps_gets _) (fun _ =>
    Turns.ite (keeps_stop _)
      (Turns.ite (keeps_setFile f _)
        (Turns.bind (keeps_setFile f _) (fun _ =>
          aside_procs.fileRelease cur _))))

theorem keeps_switchuvm (p : Pslot) : Keeps view (switchuvm p) :=
  Turns.bind (keeps_gets _) (fun _ =>
    Turns.ite (keeps_stop _) (Turns.ite (keeps_stop _) (keeps_pure ())))

end Keeps

theorem sees_setProc {t : Procs} {Q : Unit -> Procs -> Prop} (p : Pslot)
    (g : Proc -> Proc) (h : Q () (t.set p g)) :
    Sees procs (setProc p g) t Q :=
  Sees.modify (fun t => t.set p g) (fun _ => rfl) h

theorem sees_setProc_bind {β : Type} {t : Procs} {Q : β -> Procs -> Prop}
    {m : Unit -> KM β} (p : Pslot) (g : Proc -> Proc)
    (h : Sees procs (m ()) (t.set p g) Q) :
    Sees procs (setProc p g >>= m) t Q :=
  Sees.modify_bind (fun t => t.set p g) (fun _ => rfl) h

/-!
## Changes of one slot
-/

section Slot

variable (pr : Proc)

theorem resetTickets_eq : resetTickets pr =
    { pr with
      tickets := (resetTickets pr).tickets
      executionCount := (resetTickets pr).executionCount
      executionTime := (resetTickets pr).executionTime
      pass := (resetTickets pr).pass
      stride := (resetTickets pr).stride } := by
  unfold resetTickets
  split
  · split
    · rfl
    · rfl
  · rfl

@[simp] theorem resetTickets_state : (resetTickets pr).state = pr.state := by
  rw [resetTickets_eq]

@[simp] theorem resetTickets_ofile : (resetTickets pr).ofile = pr.ofile := by
  rw [resetTickets_eq]

@[simp] theorem resetTickets_parent :
    (resetTickets pr).parent = pr.parent := by
  rw [resetTickets_eq]

@[simp] theorem resetTickets_killed :
    (resetTickets pr).killed = pr.killed := by
  rw [resetTickets_eq]

@[simp] theorem resetTickets_pid : (resetTickets pr).pid = pr.pid := by
  rw [resetTickets_eq]

theorem wake_eq (chan : Option Chan) :
    wake chan pr = { pr with state := (wake chan pr).state } := by
  unfold wake
  split
  · rfl
  · rfl

theorem wake_state (chan : Option Chan) :
    (wake chan pr).state = pr.state ∨
      pr.state = .SLEEPING ∧ (wake chan pr).state = .RUNNABLE := by
  unfold wake
  split
  · next h => exact Or.inr ⟨h.1, rfl⟩
  · exact Or.inl rfl

end Slot

/-!
## Taking a slot
-/

namespace Procs

/-- The slot `p` has been taken and given back for want of a kernel stack; its
pid is used up. -/
def noStack (t : Procs) (p : Pslot) : Procs :=
  { t.set p (fun pr =>
      { pr with
        syscallCount := 0
        pid := t.nextpid
        kstack := none
        state := .UNUSED }) with
    nextpid := t.nextpid + 1 }

def embryo (t : Procs) (p : Pslot) (kstack : UInt32) : Procs :=
  { t.set p (fun pr =>
      { pr with
        syscallCount := 0
        state := .EMBRYO
        pid := t.nextpid
        kstack := some kstack
        pass := 0
        threadIndictor := 0 }) with
    nextpid := t.nextpid + 1 }

theorem embryo_self (t : Procs) (p : Pslot) (kstack : UInt32) :
    (t.embryo p kstack).proc p =
      { t.proc p with
        syscallCount := 0
        state := .EMBRYO
        pid := t.nextpid
        kstack := some kstack
        pass := 0
        threadIndictor := 0 } := by
  simp [embryo]

theorem noStack_of_ne (t : Procs) {p q : Pslot} (h : q ≠ p) :
    (t.noStack p).proc q = t.proc q :=
  Function.update_of_ne h _ t.proc

theorem embryo_of_ne (t : Procs) {p q : Pslot} (h : q ≠ p)
    (kstack : UInt32) : (t.embryo p kstack).proc q = t.proc q :=
  Function.update_of_ne h _ t.proc

end Procs

inductive Allocproc (t : Procs) : Option Pslot -> Procs -> Prop where
  | full (h : forall p, (t.proc p).state ≠ .UNUSED) : Allocproc t none t
  | noStack (p : Pslot) (h : (t.proc p).state = .UNUSED) :
      Allocproc t none (t.noStack p)
  | found (p : Pslot) (kstack : UInt32) (h : (t.proc p).state = .UNUSED)
      (hfirst : forall q, q < p -> (t.proc q).state ≠ .UNUSED) :
      Allocproc t (some p) (t.embryo p kstack)

theorem wp_allocproc {Q : Option Pslot -> Kernel -> Prop} {E : Stop -> Prop}
    {k : Kernel} (hfull : (forall p, (k.proc p).state ≠ .UNUSED) -> Q none k)
    (hfound : forall p, (k.proc p).state = .UNUSED ->
      (forall q, q < p -> (k.proc q).state ≠ .UNUSED) ->
        wp Vm.kalloc
          (fun r s => match r with
            | none => Q none (k.withTable s (k.procs.noStack p))
            | some x => Q (some p) (k.withTable s (k.procs.embryo p x)))
          E k.vm) :
    wp allocproc Q E k := by
  unfold allocproc
  rw [wp_bind, wp_gets]
  cases hfind : (List.finRange NPROC).find?
      (fun p => (k.proc p).state = .UNUSED) with
  | none => exact hfull (scan_none hfind)
  | some p =>
      rcases scan_some hfind with ⟨hp, hfirst⟩
      unfold onVm setProc
      simp only [wp_bind, wp_gets, wp_modify, wp_zoom]
      apply wp_post (hfound p hp hfirst)
      intro r s hQ
      cases r with
      | none => simpa [withTable, procs, Procs.noStack, Procs.set] using hQ
      | some x => simpa [withTable, procs, Procs.embryo, Procs.set] using hQ

theorem allocproc_returns (k : Kernel) :
    exists r k', allocproc k = .ok (r, k') ∧
      Allocproc k.procs r k'.procs := by
  apply wp_returns
  apply wp_allocproc
  · exact fun hfull => Allocproc.full hfull
  · intro p hp hfirst
    unfold Vm.kalloc
    rw [wp_bind, wp_gets]
    cases k.vm.freelist with
    | nil => exact Allocproc.noStack p hp
    | cons x rest => exact Allocproc.found p x hp hfirst

end Kernel
end Xv6
