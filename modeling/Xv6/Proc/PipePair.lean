import Xv6.Proc.Opens
import Xv6.Boot

/-!
# Making a pipe

`sys_pipe` takes two file structures, a page and two descriptors.  Where one of
them is missing it gives the others back, and nothing has changed but what is
left in structures and pages that are free.
-/

namespace Xv6
namespace Kernel

open Lib Lib.Run

/-- The open files; what a free structure holds does not count. -/
def openFiles (k : Kernel) (f : Fslot) : Option File :=
  if (k.file f).ref = 0 then none else some (k.file f)

/-- The call has given back what it took. -/
structure Undone (k k' : Kernel) : Prop where
  procs : k'.procs = k.procs
  fs : k'.fs = k.fs
  files : k'.openFiles = k.openFiles
  free : k'.FreeNone
  freelist : k'.vm.freelist = k.vm.freelist
  mem : forall pa, pa ∉ k.vm.freelist -> k'.vm.mem pa = k.vm.mem pa
  pipes : forall p, k'.pipe p = k.pipe p ∨ (p ∈ k'.vm.freelist ∧
    (k'.pipe p).readopen = false ∧ (k'.pipe p).writeopen = false)

structure PipeEnd (p : UInt32) (writable : Bool) (fl : File) : Prop where
  type : fl.type = .FD_PIPE
  ref : fl.ref = 1
  pipe : fl.pipe = p
  readable : fl.readable = !writable
  writable : fl.writable = writable

def newPipe (pi : Pipe) : Pipe :=
  { pi with
    readopen := true
    writeopen := true
    nwrite := 0
    nread := 0 }

/-- Two descriptors are added, the lowest two that were free; they refer to the
ends of a pipe in a page that was free. -/
structure PipePair (cur : Pslot) (fd0 fd1 : Fin NOFILE) (k k' : Kernel) :
    Prop where
  free : (k.proc cur).ofile fd0 = none ∧ (k.proc cur).ofile fd1 = none
  lowest : fd0 < fd1 ∧
    forall i, i < fd1 -> i ≠ fd0 -> (k.proc cur).ofile i ≠ none
  made : exists f0 f1 a b p rest, f0 ≠ f1 ∧
    k.openFiles f0 = none ∧ k.openFiles f1 = none ∧
    k'.openFiles = Function.update
      (Function.update k.openFiles f0 (some a)) f1 (some b) ∧
    PipeEnd p false a ∧ PipeEnd p true b ∧
    k.vm.freelist = p :: rest ∧ k'.vm = { k.vm with freelist := rest } ∧
    k'.pipe = Function.update k.pipe p (newPipe (k.pipe p)) ∧
    k'.fs = k.fs ∧ k'.procs = k.procs.set cur (fun pr =>
      { pr with
        ofile := Function.update (Function.update pr.ofile fd0 (some f0)) fd1
          (some f1) })

section Undo

variable {k k' : Kernel} {cur : Pslot} {f f0 f1 : Fslot} {l : List Fslot}
  {Q : Unit -> Kernel -> Prop} {E : Stop -> Prop}

/-!
## File structures
-/

/-- A structure as it was, or free before and after. -/
def Stale (a b : File) : Prop :=
  b = a ∨ (a.ref = 0 ∧ b.ref = 0 ∧ b.type = .FD_NONE)

/-- The structures in `l` have been taken and have no type yet. -/
structure Taken (l : List Fslot) (k k' : Kernel) : Prop where
  same : k' = { k with file := k'.file }
  taken : forall f, f ∈ l -> (k.file f).ref = 0 ∧ (k'.file f).ref = 1 ∧
    (k'.file f).type = .FD_NONE
  others : forall f, f ∉ l -> Stale (k.file f) (k'.file f)

theorem Taken.refl (k : Kernel) : Taken [] k k :=
  ⟨rfl, fun _ hf => absurd hf List.not_mem_nil, fun _ _ => .inl rfl⟩

theorem stale_open (hfree : k.FreeNone)
    (h : forall f, Stale (k.file f) (k'.file f)) :
    k'.openFiles = k.openFiles ∧ k'.FreeNone := by
  constructor
  · funext f
    unfold openFiles
    rcases h f with hsame | ⟨hold, hnew, _⟩
    · rw [hsame]
    · rw [if_pos hold, if_pos hnew]
  · intro f href
    rcases h f with hsame | ⟨_, _, htype⟩
    · rw [hsame] at href ⊢
      exact hfree f href
    · exact htype

theorem Taken.undone (h : Taken [] k k') (hfree : k.FreeNone) :
    Undone k k' := by
  rcases stale_open hfree (fun f => h.others f List.not_mem_nil) with
    ⟨hfiles, hnone⟩
  rw [h.same] at hfiles hnone ⊢
  exact ⟨rfl, rfl, hfiles, hnone, rfl, fun _ _ => rfl, fun _ => .inl rfl⟩

theorem wp_filealloc_taken {Q : Option Fslot -> Kernel -> Prop}
    (hfree : k.FreeNone) (h : Taken l k k') (hnone : Q none k')
    (hsome : forall f k'', f ∉ l -> Taken (f :: l) k k'' -> Q (some f) k'') :
    wp filealloc Q E k' := by
  apply wp_filealloc hnone
  intro f href
  have hout : f ∉ l := by
    intro hf
    have hone := (h.taken f hf).2.1
    lia
  have hfile : (k.file f).ref = 0 ∧ (k'.file f).type = .FD_NONE := by
    rcases h.others f hout with hsame | ⟨hold, _, htype⟩
    · rw [hsame] at href ⊢
      exact ⟨href, hfree f href⟩
    · exact ⟨hold, htype⟩
  apply hsome f _ hout
  constructor
  · rw [h.same]
  · intro f' hf'
    rcases eq_or_ne f' f with rfl | hne
    · simp only [Function.update_self]
      exact ⟨hfile.1, trivial, hfile.2⟩
    · simp only [Function.update_of_ne hne]
      exact h.taken f' (List.mem_of_ne_of_mem hne hf')
  · intro f' hf'
    rw [List.mem_cons, not_or] at hf'
    simp only [Function.update_of_ne hf'.1]
    exact h.others f' hf'.2

theorem wp_fileclose_last (href : (k.file f).ref = 1)
    (h : wp (fileRelease cur (k.file f)) Q E
      { k with
        file := Function.update k.file f
          { k.file f with ref := 0, type := .FD_NONE } }) :
    wp (fileclose cur f) Q E k := by
  unfold fileclose
  rw [wp_bind, wp_gets, wp_ite, wp_ite]
  refine ⟨fun hlt => by lia, fun _ => ⟨fun hlt => by lia, fun _ => ?_⟩⟩
  unfold setFile
  rw [wp_bind, wp_modify]
  exact h

theorem wp_fileclose_taken (h : Taken (f :: l) k k') (hf : f ∉ l)
    (hQ : forall k'', Taken l k k'' -> Q () k'') :
    wp (fileclose cur f) Q E k' := by
  rcases h.taken f List.mem_cons_self with ⟨hold, href, htype⟩
  apply wp_fileclose_last href
  unfold fileRelease
  rw [htype]
  apply hQ
  constructor
  · rw [h.same]
  · intro f' hf'
    have hne : f' ≠ f := fun heq => hf (heq ▸ hf')
    simp only [Function.update_of_ne hne]
    exact h.taken f' (List.mem_cons_of_mem f hf')
  · intro f' hf'
    rcases eq_or_ne f' f with rfl | hne
    · simp only [Function.update_self]
      exact .inr ⟨hold, rfl, rfl⟩
    · simp only [Function.update_of_ne hne]
      apply h.others f'
      rw [List.mem_cons, not_or]
      exact ⟨hne, hf'⟩

/-!
## The page
-/

structure Piped (f0 f1 : Fslot) (p : UInt32) (rest : List UInt32)
    (k k' : Kernel) : Prop where
  ne : f0 ≠ f1
  unused : (k.file f0).ref = 0 ∧ (k.file f1).ref = 0
  procs : k'.procs = k.procs
  fs : k'.fs = k.fs
  freelist : k.vm.freelist = p :: rest
  vm : k'.vm = { k.vm with freelist := rest }
  pipe : k'.pipe = Function.update k.pipe p (newPipe (k.pipe p))
  reader : PipeEnd p false (k'.file f0)
  writer : PipeEnd p true (k'.file f1)
  others : forall f, f ≠ f0 -> f ≠ f1 -> Stale (k.file f) (k'.file f)

theorem wp_pipealloc_pair {Q : Option (Fslot × Fslot) -> Kernel -> Prop}
    (hfree : k.FreeNone) (hbad : forall k', Undone k k' -> Q none k')
    (hdone : forall f0 f1 p rest k', Piped f0 f1 p rest k k' ->
      Q (some (f0, f1)) k') :
    wp (pipealloc cur) Q E k := by
  unfold pipealloc
  rw [wp_bind]
  apply wp_filealloc_taken hfree (Taken.refl k)
  · exact hbad k ((Taken.refl k).undone hfree)
  intro f0 k1 _ h1
  apply wp_bind.mpr
  apply wp_filealloc_taken hfree h1
  · -- no second structure
    apply wp_bind.mpr
    apply wp_fileclose_taken h1 List.not_mem_nil
    exact fun k2 h2 => hbad k2 (h2.undone hfree)
  intro f1 k2 hf1 h2
  have hne : f1 ≠ f0 := List.ne_of_not_mem_cons hf1
  apply wp_bind.mpr
  unfold onVm Vm.kalloc
  rw [wp_zoom, wp_bind, wp_gets]
  have hvm : k2.vm = k.vm := by rw [h2.same]
  cases hlist : k2.vm.freelist with
  | nil =>
      -- no page
      have hswap : Taken [f0, f1] k k2 := by
        refine ⟨h2.same, fun f hf => ?_, fun f hf => ?_⟩
        · exact h2.taken f (by simp at hf ⊢; tauto)
        · exact h2.others f (by simp at hf ⊢; tauto)
      apply wp_bind.mpr
      apply wp_fileclose_taken hswap (by simp [hne.symm])
      intro k3 h3
      apply wp_bind.mpr
      apply wp_fileclose_taken h3 List.not_mem_nil
      exact fun k4 h4 => hbad k4 (h4.undone hfree)
  | cons p rest =>
      rcases h2.taken f0 (by simp) with ⟨hold0, href0, _⟩
      rcases h2.taken f1 (by simp) with ⟨hold1, href1, _⟩
      unfold setPipe setFile
      simp only [wp_bind, wp_modify, wp_pure]
      apply hdone f0 f1 p rest
      constructor
      · exact hne.symm
      · exact ⟨hold0, hold1⟩
      · rw [h2.same]
        rfl
      · rw [h2.same]
      · rw [← hvm]
        exact hlist
      · rw [← hvm]
      · rw [h2.same]
        rfl
      · simp only [Function.update_self, Function.update_of_ne hne.symm]
        exact ⟨rfl, href0, rfl, rfl, rfl⟩
      · simp only [Function.update_self, Function.update_of_ne hne]
        exact ⟨rfl, href1, rfl, rfl, rfl⟩
      · intro f hf0 hf1
        simp only [Function.update_of_ne hf0, Function.update_of_ne hf1]
        exact h2.others f (by simp [hf0, hf1])

def Freeable (k : Kernel) (p : UInt32) : Prop :=
  ¬ (p.toNat % PGSIZE ≠ 0 ∨ p < k.vm.kend ∨ PHYSTOP ≤ p)

theorem Piped.stale {p : UInt32} {rest : List UInt32}
    (h : Piped f0 f1 p rest k k') (a b : File) (ha : a.ref = 0)
    (hta : a.type = .FD_NONE) (hb : b.ref = 0) (htb : b.type = .FD_NONE)
    (f : Fslot) : Stale (k.file f)
      (Function.update (Function.update k'.file f0 a) f1 b f) := by
  rcases eq_or_ne f f1 with rfl | hne1
  · rw [Function.update_self]
    exact .inr ⟨h.unused.2, hb, htb⟩
  · rw [Function.update_of_ne hne1]
    rcases eq_or_ne f f0 with rfl | hne0
    · rw [Function.update_self]
      exact .inr ⟨h.unused.1, ha, hta⟩
    · rw [Function.update_of_ne hne0]
      exact h.others f hne0 hne1

theorem Piped.openFiles {p : UInt32} {rest : List UInt32}
    (h : Piped f0 f1 p rest k k') :
    k'.openFiles = Function.update
      (Function.update k.openFiles f0 (some (k'.file f0))) f1
        (some (k'.file f1)) := by
  have hopen : forall f, (k'.file f).ref = 1 ->
      k'.openFiles f = some (k'.file f) := by
    intro f href
    unfold Kernel.openFiles
    rw [if_neg (by lia)]
  funext f
  rcases eq_or_ne f f1 with rfl | hne1
  · rw [Function.update_self, hopen f h.writer.ref]
  · rw [Function.update_of_ne hne1]
    rcases eq_or_ne f f0 with rfl | hne0
    · rw [Function.update_self, hopen f h.reader.ref]
    · rw [Function.update_of_ne hne0]
      unfold Kernel.openFiles
      rcases h.others f hne0 hne1 with hsame | ⟨hold, hnew, _⟩
      · rw [hsame]
      · rw [if_pos hold, if_pos hnew]

theorem wp_close_piped {p : UInt32} {rest : List UInt32} {α : Type} {x : α}
    {Q : α -> Kernel -> Prop} (hfree : k.FreeNone)
    (h : Piped f0 f1 p rest k k')
    (hpage : ¬ k.Freeable p -> E (.panic "kfree"))
    (hQ : forall k'', Undone k k'' -> Q x k'') :
    wp (do
      fileclose cur f0
      fileclose cur f1
      pure x) Q E k' := by
  have hpipe : k'.pipe p = newPipe (k.pipe p) := by
    rw [h.pipe, Function.update_self]
  have hkend : k'.vm.kend = k.vm.kend := by rw [h.vm]
  rw [wp_bind]
  apply wp_fileclose_last h.reader.ref
  unfold fileRelease
  rw [h.reader.type]
  dsimp only
  rw [h.reader.pipe, h.reader.writable]
  unfold pipeclose setPipe
  rw [if_neg Bool.false_ne_true]
  simp only [wp_bind, wp_modify, wp_gets, Function.update_self, hpipe]
  -- the writing end is still open
  rw [if_neg (fun hboth => absurd hboth.2 Bool.noConfusion), wp_pure]
  apply wp_fileclose_last
  · simp only [Function.update_of_ne h.ne.symm]
    exact h.writer.ref
  simp only [Function.update_of_ne h.ne.symm]
  unfold fileRelease
  rw [h.writer.type]
  dsimp only
  rw [h.writer.pipe, h.writer.writable]
  unfold pipeclose setPipe onVm Vm.kfree
  rw [if_pos rfl]
  simp only [wp_bind, wp_modify, wp_gets, Function.update_self]
  rw [if_pos ⟨trivial, trivial⟩, wp_zoom, wp_bind, wp_gets, wp_ite]
  constructor
  · intro hbad
    apply hpage
    unfold Freeable
    rw [← hkend]
    exact not_not.mpr hbad
  · intro _
    unfold Vm.memset Vm.setPage
    simp only [wp_bind, wp_modify]
    apply hQ
    constructor
    · exact h.procs
    · exact h.fs
    · exact (stale_open hfree (h.stale _ _ rfl rfl rfl rfl)).1
    · exact (stale_open hfree (h.stale _ _ rfl rfl rfl rfl)).2
    · show p :: k'.vm.freelist = _
      rw [h.vm, h.freelist]
    · intro pa hpa
      have hne : pa ≠ p := by
        rintro rfl
        rw [h.freelist] at hpa
        exact hpa List.mem_cons_self
      show Function.update _ _ _ _ = _
      rw [Function.update_of_ne hne, h.vm]
    · intro q
      rcases eq_or_ne q p with rfl | hne
      · refine .inr ⟨List.mem_cons_self, ?_⟩
        simp only [Function.update_self]
        exact ⟨trivial, trivial⟩
      · left
        simp only [Function.update_of_ne hne]
        rw [h.pipe, Function.update_of_ne hne]

/-- `sys_pipe` makes a pipe and takes the lowest two free descriptors for it, or
it fails and nothing has changed. -/
theorem sysPipe_exact (hfree : k.FreeNone) (ok : Bool) :
    wp (sysPipe cur ok)
      (fun r k' => (r = (-1, none) ∧ Undone k k') ∨
        exists fd0 fd1, r = (0, some (fd0, fd1)) ∧ PipePair cur fd0 fd1 k k')
      (fun e => e = .panic "kfree" ∧
        exists p, p ∈ k.vm.freelist ∧ ¬ k.Freeable p) k := by
  unfold sysPipe
  rw [wp_ite]
  refine ⟨fun _ => .inl ⟨rfl, (Taken.refl k).undone hfree⟩, fun _ => ?_⟩
  rw [wp_bind]
  apply wp_pipealloc_pair hfree
  · exact fun k' hundone => .inl ⟨rfl, hundone⟩
  intro f0 f1 p rest k1 h1
  have hpage : ¬ k.Freeable p -> (Stop.panic "kfree" = .panic "kfree") ∧
      exists p, p ∈ k.vm.freelist ∧ ¬ k.Freeable p :=
    fun hbad => ⟨rfl, p, by rw [h1.freelist]; exact List.mem_cons_self, hbad⟩
  have hproc : k1.proc = k.proc := congrArg Procs.proc h1.procs
  apply wp_bind.mpr
  apply wp_fdalloc_lowest
  · exact wp_close_piped hfree h1 hpage
      (fun k' hundone => .inl ⟨rfl, hundone⟩)
  intro fd0 hfd0 hlow0
  apply wp_bind.mpr
  apply wp_fdalloc_lowest
  · -- the first descriptor is given back
    unfold setOfile setProc
    apply wp_bind.mpr
    apply wp_modify.mpr
    show wp _ _ _ ((k1.seated cur fd0 (some f0)).seated cur fd0 none)
    rw [seated_back hfd0]
    exact wp_close_piped hfree h1 hpage
      (fun k' hundone => .inl ⟨rfl, hundone⟩)
  intro fd1 hfd1 hlow1
  have hofile : ((k1.seated cur fd0 (some f0)).proc cur).ofile =
      Function.update (k.proc cur).ofile fd0 (some f0) := by
    unfold seated
    simp only [Function.update_self, hproc]
  rw [hofile] at hfd1 hlow1
  rw [hproc] at hfd0 hlow0
  have hne : fd1 ≠ fd0 := by
    rintro rfl
    rw [Function.update_self] at hfd1
    cases hfd1
  rw [Function.update_of_ne hne] at hfd1
  refine .inr ⟨fd0, fd1, rfl, ⟨hfd0, hfd1⟩, ⟨?_, ?_⟩, ?_⟩
  · apply lt_of_le_of_ne (Fin.not_lt.mp _) hne.symm
    exact fun hlt => hlow0 fd1 hlt hfd1
  · intro i hi hi'
    have hused := hlow1 i hi
    rw [Function.update_of_ne hi'] at hused
    exact hused
  · refine ⟨f0, f1, k1.file f0, k1.file f1, p, rest, h1.ne, if_pos h1.unused.1,
      if_pos h1.unused.2, ?_, h1.reader, h1.writer, h1.freelist, h1.vm, h1.pipe,
      h1.fs, ?_⟩
    · exact h1.openFiles
    · rw [← h1.procs]
      unfold seated procs Procs.set
      simp only [Function.update_self, Function.update_idem]

end Undo

theorem sysPipe_exact_boot :
    exists k', sysPipe 0 true boot = .ok ((0, some (0, 1)), k') ∧
      PipePair 0 0 1 boot k' := by
  have hvalue : value? (sysPipe 0 true boot) = some (0, some (0, 1)) := by
    decide +kernel
  rcases value?_eq_some hvalue with ⟨k', hrun⟩
  have hfree : boot.FreeNone := fun _ _ => rfl
  refine ⟨k', hrun, ?_⟩
  rcases wp_ok (sysPipe_exact hfree true) hrun with
    ⟨hbad, _⟩ | ⟨fd0, fd1, hr, hpair⟩
  · cases hbad
  · cases hr
    exact hpair

end Kernel
end Xv6
