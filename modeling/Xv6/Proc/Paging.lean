import Xv6.Proc.Memory
import Xv6.Proc.Sharing

/-!
# Calls and their pages

Every call leaves each page with one owner.  The calls on files only concern
the pipes; `fork`, `clone`, `wait`, `sbrk` and `exec` move pages between the
free list and the processes.
-/

namespace Xv6
namespace Kernel

open Lib Lib.Run

/-!
## What does not concern the pages
-/

theorem ends_setFile (file : Fslot -> File) (f : Fslot) (fl : File) :
    (fun f' => endOf (Function.update file f fl f')) =
      Function.update (fun f' => endOf (file f')) f (endOf fl) := by
  funext f'
  rcases eq_or_ne f' f with rfl | hne
  · rw [Function.update_self, Function.update_self]
  · rw [Function.update_of_ne hne, Function.update_of_ne hne]

theorem memory_setFile (k : Kernel) (f : Fslot) (fl : File) :
    memory { k with file := Function.update k.file f fl } =
      { k.memory with ends := Function.update k.memory.ends f (endOf fl) } := by
  unfold memory
  rw [ends_setFile]

theorem keepsMemory_setFile (f : Fslot) (g : File -> File)
    (hg : forall fl, endOf (g fl) = endOf fl) :
    Keeps memory (setFile f g) := by
  rintro _ k rfl
  show memory { k with file := Function.update k.file f (g (k.file f)) } = _
  rw [memory_setFile, hg]
  have hself : Function.update k.memory.ends f (endOf (k.file f)) =
      k.memory.ends :=
    Function.update_eq_self f _
  rw [hself]

theorem keepsMemory_setProc (p : Pslot) (g : Proc -> Proc) :
    Keeps memory (setProc p g) :=
  fun _ _ h => h

theorem blind_memory : Blind memory := by
  constructor
  · rintro β m _ k rfl
    unfold onFs
    rw [wp_zoom]
    exact wp_trivial (fun _ _ => rfl)
  · exact fun f g => keepsMemory_setFile f _ (fun _ => rfl)
  · rintro p g hg _ k rfl
    show memory { k with pipe := Function.update k.pipe p (g (k.pipe p)) } = _
    unfold memory
    congr 1
    funext q w
    rcases eq_or_ne q p with rfl | hne
    · simp only [Function.update_self, (hg _).1, (hg _).2]
    · simp only [Function.update_of_ne hne]

theorem keepsMemory_filedup (f : Fslot) : Keeps memory (filedup f) :=
  Turns.bind (keeps_gets _) (fun _ =>
    Turns.ite (keeps_stop _)
      (Turns.bind (keepsMemory_setFile f _ (fun _ => rfl))
        (fun _ => keeps_pure f)))

theorem keepsMemory_fdalloc (cur : Pslot) (f : Fslot) :
    Keeps memory (fdalloc cur f) := by
  apply Turns.bind (keeps_gets _)
  intro fd
  cases fd with
  | none => exact keeps_pure none
  | some fd =>
      exact Turns.bind (keepsMemory_setProc cur _)
        (fun _ => keeps_pure (some fd))

theorem keepsMemory_sysDup (cur : Pslot) (fd : Option Int32) :
    Keeps memory (sysDup cur fd) := by
  apply Turns.bind (keeps_argfd fd)
  intro r
  cases r with
  | none => exact keeps_pure _
  | some r =>
      apply Turns.bind (keepsMemory_fdalloc cur r.2)
      intro fd
      cases fd with
      | none => exact keeps_pure _
      | some fd =>
          exact Turns.bind (keepsMemory_filedup r.2) (fun _ => keeps_pure _)

/-!
## Files and pipes
-/

/-- Who owns what, and a memory that has the address spaces. -/
structure Estate where
  all : Vm.Managed
  lost : Multiset UInt32
  slots : Holdings
  vm : Vm

structure Estate.At (e : Estate) (m : Memory) : Prop where
  owned : Allotted e.all e.lost e.slots m
  same : forall d, d ∈ e.slots.dirs ->
    m.vm.table d = e.vm.table d ∧ m.vm.entry d = e.vm.entry d

theorem Estate.At.beside {e : Estate} {m : Memory} (h : e.At m)
    {b : Vm.Managed} {P loose : Multiset UInt32} {d' : Option UInt32} {s' : Vm}
    (hs : Vm.Holds (Kernel.beside b m.vm e.slots.dirs P) d' loose s')
    (d : UInt32) (hd : d ∈ e.slots.dirs) :
    s'.table d = e.vm.table d ∧ s'.entry d = e.vm.entry d := by
  rcases beside_keeps hs hd with ⟨htable, hentry⟩
  rcases h.same d hd with ⟨htable', hentry'⟩
  exact ⟨htable.trans htable', hentry.trans hentry'⟩

abbrev OwnsTurns {α : Type} (m : KM α) : Prop :=
  Run.Turns (fun (own : Estate) (_ : Unit) k => own.At k.memory) m ()
    (fun _ => ())

section Files

variable {α : Type} {cur : Pslot}

theorem owns_of_keeps {m : KM α} (h : Keeps memory m) : OwnsTurns m := by
  intro own k hk
  apply wp_post (h k.memory k rfl)
  intro _ k' hk'
  show own.At k'.memory
  rw [hk']
  exact hk

theorem wp_pipeclose {own : Estate} {m : Memory} {f : Fslot} {p : UInt32}
    {w : Bool} {k : Kernel} (hat : own.At m) (hf : m.ends f = some (p, w))
    (hvm : k.vm = m.vm)
    (hends : k.memory.ends = Function.update m.ends f none)
    (hopen : k.memory.isOpen = m.isOpen) :
    wp (pipeclose p w) (fun _ k' => own.At k'.memory) (fun _ => True) k := by
  have hown := hat.owned
  -- the state after the flag of the end is cleared
  have htail : forall k1 : Kernel, k1.vm = m.vm ->
      k1.memory.ends = Function.update m.ends f none ->
      k1.memory.isOpen = closeEnd m.isOpen p w ->
      wp (do
        let pi ← gets (fun k => k.pipe p)
        if pi.readopen = false ∧ pi.writeopen = false then
          onVm (Vm.kfree p)
        else
          pure ()) (fun _ k' => own.At k'.memory) (fun _ => True) k1 := by
    intro k1 hvm1 hends1 hopen1
    have hflag : forall v, k1.memory.isOpen p v =
        closeEnd m.isOpen p w p v := fun v => by rw [hopen1]
    have hthis : k1.memory.isOpen p w = false := by
      rw [hflag]
      unfold closeEnd
      rw [if_pos ⟨rfl, rfl⟩]
    have hother : k1.memory.isOpen p (!w) = m.isOpen p (!w) := by
      rw [hflag]
      unfold closeEnd
      rw [if_neg (by simp)]
    rw [wp_bind, wp_gets, wp_ite]
    constructor
    · rintro ⟨hread, hwrite⟩
      have hboth : forall v, k1.memory.isOpen p v = false := by
        intro v
        cases v with
        | true => exact hwrite
        | false => exact hread
      have hclosed : m.isOpen p (!w) ≠ true := by
        rw [← hother, hboth]
        simp
      have hp : p ∈ m.ends.pipes := Ends.mem_pipes.mpr ⟨f, w, hf⟩
      unfold onVm
      rw [wp_zoom, hvm1]
      apply wp_post (hown.pipeClosing hp).wp_kfree
      rintro _ s' ⟨hs', _⟩
      have hend := hown.pipeClosed hf hclosed hs'
      rw [← hends1, ← hopen1] at hend
      exact ⟨hend, hat.beside hs'⟩
    · intro hsome
      have hopen' : m.isOpen p (!w) = true := by
        rw [← hother]
        apply of_not_not
        intro hnot
        apply hsome
        have hfalse := Bool.eq_false_iff.mpr hnot
        cases w with
        | true => exact ⟨hfalse, hthis⟩
        | false => exact ⟨hthis, hfalse⟩
      have hend := hown.endClosed hf hopen'
      rw [← hends1, ← hopen1, ← hvm1] at hend
      refine ⟨hend, fun d hd => ?_⟩
      show k1.vm.table d = _ ∧ k1.vm.entry d = _
      rw [hvm1]
      exact hat.same d hd
  -- which flag it is
  unfold pipeclose
  cases w with
  | true =>
      rw [if_pos rfl]
      unfold setPipe
      rw [wp_bind, wp_modify]
      apply htail
      · exact hvm
      · exact hends
      funext q v
      have hq := congrFun (congrFun hopen q) v
      unfold closeEnd
      rcases eq_or_ne q p with rfl | hne
      · cases v with
        | true => simp [memory]
        | false =>
            rw [if_neg (by simp), ← hq]
            simp [memory]
      · rw [if_neg (by simp [hne]), ← hq]
        simp [memory, Function.update_of_ne hne]
  | false =>
      rw [if_neg (by simp)]
      unfold setPipe
      rw [wp_bind, wp_modify]
      apply htail
      · exact hvm
      · exact hends
      funext q v
      have hq := congrFun (congrFun hopen q) v
      unfold closeEnd
      rcases eq_or_ne q p with rfl | hne
      · cases v with
        | true =>
            rw [if_neg (by simp), ← hq]
            simp [memory]
        | false => simp [memory]
      · rw [if_neg (by simp [hne]), ← hq]
        simp [memory, Function.update_of_ne hne]

theorem owns_fileclose (cur : Pslot) (f : Fslot) :
    OwnsTurns (fileclose cur f) := by
  intro own k hk
  unfold fileclose
  rw [wp_bind, wp_gets, wp_ite, wp_ite]
  refine ⟨fun _ => trivial, fun _ => ⟨fun _ => ?_, fun _ => ?_⟩⟩
  · exact owns_of_keeps (keepsMemory_setFile f
      (fun fl => { fl with ref := fl.ref - 1 }) (fun _ => rfl)) own k hk
  · unfold setFile
    rw [wp_bind, wp_modify]
    have hmem := memory_setFile k f { k.file f with ref := 0, type := .FD_NONE }
    change _ = { k.memory with
      ends := Function.update k.memory.ends f none } at hmem
    generalize hk1 : ({ k with
      file := Function.update k.file f
        { k.file f with ref := 0, type := .FD_NONE } } : Kernel) = k1 at hmem
    have hnone : endOf (k.file f) = none -> own.At k1.memory := by
      intro hend
      have hself : Function.update k.memory.ends f none = k.memory.ends := by
        rw [← hend]
        exact Function.update_eq_self f _
      rw [hmem, hself]
      exact hk
    show wp (fileRelease cur (k.file f)) _ _ k1
    unfold fileRelease
    cases htype : (k.file f).type with
    | FD_NONE =>
        apply hnone
        unfold endOf
        rw [htype]
        rfl
    | FD_INODE =>
        apply (Turns.bind (owns_of_keeps (keeps_pidOf cur)) (fun pid =>
          Turns.bind (owns_of_keeps (blind_memory.onFs _)) (fun _ =>
            Turns.bind (owns_of_keeps (blind_memory.onFs _)) (fun _ =>
              owns_of_keeps (blind_memory.onFs _)))) : OwnsTurns _) own k1
        apply hnone
        unfold endOf
        rw [htype]
        rfl
    | FD_PIPE =>
        have hend : k.memory.ends f =
            some ((k.file f).pipe, (k.file f).writable) := by
          show endOf (k.file f) = _
          unfold endOf
          rw [if_pos htype]
        apply wp_pipeclose hk hend
        · rw [← hk1]
          rfl
        · rw [hmem]
        · rw [hmem]

theorem owns_setOfile (p : Pslot) (fd : Fin NOFILE) (f : Option Fslot) :
    OwnsTurns (setOfile p fd f) :=
  owns_of_keeps (keepsMemory_setProc p _)

theorem owns_onFs (m : FsM α) : OwnsTurns (onFs m) :=
  owns_of_keeps (blind_memory.onFs m)

theorem owns_sysClose (fd : Option Int32) : OwnsTurns (sysClose cur fd) := by
  apply Turns.bind (owns_of_keeps (keeps_argfd fd))
  intro r
  cases r with
  | none => exact Turns.pure _ rfl
  | some r =>
      exact Turns.bind (owns_setOfile cur r.1 none) (fun _ =>
        Turns.bind (owns_fileclose cur r.2) (fun _ => Turns.pure _ rfl))

theorem owns_exitOfile (fd : Fin NOFILE) : OwnsTurns (exitOfile cur fd) := by
  apply Turns.bind (owns_of_keeps (keeps_gets _))
  intro f
  cases f with
  | none => exact Turns.pure _ rfl
  | some f =>
      exact Turns.bind (owns_fileclose cur f)
        (fun _ => owns_setOfile cur fd none)

theorem owns_exitTail : OwnsTurns (exitTail cur) := by
  intro own k hk
  apply wp_post (wp_exitTail cur k)
  rintro _ _ ⟨woken, _, rfl⟩
  exact hk

theorem owns_exitCwd : OwnsTurns (exitCwd cur) := by
  refine Turns.bind (owns_of_keeps (keeps_pidOf cur)) (fun pid =>
    Turns.bind (owns_onFs _) (fun _ =>
      Turns.bind (owns_of_keeps (keeps_gets _)) (fun cwd => ?_)))
  cases cwd with
  | none => exact Turns.stop _ _ _
  | some cwd =>
      exact Turns.bind (owns_onFs _) (fun _ =>
        Turns.bind (owns_onFs _) (fun _ =>
          owns_of_keeps (keepsMemory_setProc cur _)))

theorem owns_exit : OwnsTurns (exit cur) := by
  intro own k hk
  apply wp_exit
  · exact fun _ => trivial
  · intro _ _
    apply wp_post (Turns.forEach (fun fd => owns_exitOfile fd) _ own k hk)
    intro _ k1 hk1
    apply wp_post (owns_exitCwd own k1 hk1)
    exact fun _ k2 hk2 => owns_exitTail own k2 hk2
  · exact fun _ _ => owns_exitTail own k hk

theorem memory_setRef (k : Kernel) (f : Fslot) (n : Int) :
    memory { k with
      file := Function.update k.file f { k.file f with ref := n } } =
        k.memory := by
  rw [memory_setFile]
  have hself : Function.update k.memory.ends f
      (endOf { k.file f with ref := n }) = k.memory.ends :=
    Function.update_eq_self f _
  rw [hself]

theorem FreeNone.setRef {k : Kernel} (h : k.FreeNone) (f : Fslot) :
    FreeNone { k with
      file := Function.update k.file f { k.file f with ref := 1 } } := by
  intro f' href
  rcases eq_or_ne f' f with rfl | hne
  · simp only [Function.update_self] at href
    cases href
  · simp only [Function.update_of_ne hne] at href ⊢
    exact h f' href

theorem FreeNone.noEnd {k : Kernel} (h : k.FreeNone) {f : Fslot}
    (href : (k.file f).ref = 0) : k.memory.ends f = none := by
  show endOf (k.file f) = none
  unfold endOf
  rw [h f href]
  rfl

theorem owns_openBad (pid : Int32) (f : Option Fslot) (ip : Slot) :
    OwnsTurns (openBad cur pid f ip) := by
  have htail : OwnsTurns (do
      onFs (Fs.iunlockput pid ip)
      onFs (Fs.endWith (-1 : Int))) :=
    Turns.bind (owns_onFs _) (fun _ => owns_onFs _)
  cases f with
  | none => exact htail
  | some f => exact Turns.bind (owns_fileclose cur f) (fun _ => htail)

theorem wp_onFs_any {m : FsM α} {Q : α -> Kernel -> Prop} {k : Kernel}
    (h : forall a s, Q a { k with fs := s }) :
    wp (onFs m) Q (fun _ => True) k := by
  unfold onFs
  rw [wp_zoom]
  exact wp_trivial (fun a s => h a s)

section Free

variable {own : Estate} {k : Kernel}

theorem wp_owned_sysOpen (hfree : k.FreeNone)
    (hk : own.At k.memory) (path : Option (List UInt8))
    (omode : Option UInt32) :
    wp (sysOpen cur path omode)
      (fun _ k' => own.At k'.memory) (fun _ => True) k := by
  cases path with
  | none => exact hk
  | some path =>
      cases omode with
      | none => exact hk
      | some omode =>
          unfold sysOpen pidOf cwdOf
          simp only [wp_bind, wp_gets]
          apply wp_onFs_any
          intro _ s1
          apply wp_onFs_any
          intro ip s2
          cases ip with
          | none => exact owns_onFs _ own { k with fs := s2 } hk
          | some ip =>
              simp only [wp_bind]
              apply wp_filealloc
              · exact owns_openBad _ none ip own { k with fs := s2 } hk
              · intro f href
                have hnew := memory_setRef { k with fs := s2 } f 1
                have hnone : k.memory.ends f = none := hfree.noEnd href
                generalize hk1 : ({ k with
                  fs := s2
                  file := Function.update k.file f
                    { k.file f with ref := 1 } } : Kernel) = k1 at hnew
                have hown1 : own.At k1.memory := by
                  rw [hnew]
                  exact hk
                have hnone1 : k1.memory.ends f = none := by
                  rw [hnew]
                  exact hnone
                simp only [wp_bind]
                apply wp_fdalloc
                · exact owns_openBad _ (some f) ip own k1 hown1
                · intro fd _
                  simp only [wp_bind]
                  apply wp_onFs_any
                  intro _ s3
                  apply wp_onFs_any
                  intro _ s4
                  -- the file was no end of a pipe and is none now
                  have hlast : forall fl : File, endOf fl = none ->
                      own.At (memory
                        { k1.seated cur fd (some f) with
                          fs := s4
                          file := Function.update k1.file f fl }) := by
                    intro fl hfl
                    have hmem := memory_setFile
                      { k1.seated cur fd (some f) with fs := s4 } f fl
                    refine hmem ▸ ?_
                    have hself : Function.update k1.memory.ends f (endOf fl) =
                        k1.memory.ends := by
                      rw [hfl, ← hnone1, Function.update_eq_self]
                    show own.At { k1.memory with
                      ends := Function.update k1.memory.ends f (endOf fl) }
                    rw [hself]
                    exact hown1
                  exact hlast _ rfl

theorem owns_pipeallocBad (f0 f1 : Option Fslot) :
    OwnsTurns (pipeallocBad cur f0 f1) := by
  have htail : OwnsTurns (pipeallocBad cur none f1) := by
    cases f1 with
    | none => exact Turns.pure _ rfl
    | some f =>
        exact Turns.bind (owns_fileclose cur f) (fun _ => Turns.pure _ rfl)
  cases f0 with
  | none => exact htail
  | some f => exact Turns.bind (owns_fileclose cur f) (fun _ => htail)

theorem wp_owned_pipealloc (hfree : k.FreeNone)
    (hk : own.At k.memory) :
    wp (pipealloc cur)
      (fun _ k' => own.At k'.memory) (fun _ => True) k := by
  unfold pipealloc
  rw [wp_bind]
  apply wp_filealloc
  · exact owns_pipeallocBad none none own k hk
  · intro f0 href0
    have hnone0 := hfree.noEnd href0
    have hmem1 := memory_setRef k f0 1
    have hfree1 := hfree.setRef f0
    have hself : (Function.update k.file f0 { k.file f0 with ref := 1 } f0).ref =
        1 := by
      rw [Function.update_self]
    generalize hk1 : ({ k with
      file := Function.update k.file f0 { k.file f0 with ref := 1 } } :
        Kernel) = k1 at hmem1 hfree1
    have hown1 : own.At k1.memory := by
      rw [hmem1]
      exact hk
    simp only [wp_bind]
    apply wp_filealloc
    · exact owns_pipeallocBad (some f0) none own k1 hown1
    · intro f1 href1
      have hne : f1 ≠ f0 := by
        rintro rfl
        rw [← hk1] at href1
        exact absurd (hself.symm.trans href1) (by decide)
      have hnone1 : k.memory.ends f1 = none := by
        rw [← hmem1]
        exact hfree1.noEnd href1
      have hmem2 := memory_setRef k1 f1 1
      generalize hk2 : ({ k1 with
        file := Function.update k1.file f1 { k1.file f1 with ref := 1 } } :
          Kernel) = k2 at hmem2
      have hown2 : own.At k2.memory := by
        rw [hmem2]
        exact hown1
      have hends2 : k2.memory.ends = k.memory.ends := by
        rw [hmem2, hmem1]
      simp only [wp_bind]
      unfold onVm
      rw [wp_zoom]
      apply wp_post hown2.owned.closed.wp_kalloc
      rintro r s' (⟨rfl, rfl, _⟩ | ⟨x, rfl, hs', _⟩)
      · exact owns_pipeallocBad (some f0) (some f1) own k2 hown2
      · unfold setPipe setFile
        simp only [wp_bind, wp_modify, wp_pure]
        have hmade := hown2.owned.pipeMade hs' hne
          (by rw [hends2]; exact hnone0) (by rw [hends2]; exact hnone1)
        refine ⟨?_, hown2.beside hs'⟩
        refine Eq.mp (congrArg (Allotted own.all own.lost own.slots) ?_) hmade
        unfold memory
        congr 1
        · rw [ends_setFile, ends_setFile]
          rfl
        · funext q w
          dsimp only
          rcases eq_or_ne q x with rfl | hq
          · rw [if_pos rfl, Function.update_self, ite_self]
          · rw [if_neg hq, Function.update_of_ne hq]

theorem wp_owned_sysPipe (hfree : k.FreeNone)
    (hk : own.At k.memory) (ok : Bool) :
    wp (sysPipe cur ok)
      (fun _ k' => own.At k'.memory) (fun _ => True) k := by
  unfold sysPipe
  rw [wp_ite]
  refine ⟨fun _ => hk, fun _ => ?_⟩
  rw [wp_bind]
  apply wp_post (wp_owned_pipealloc hfree hk)
  intro r k1 hk1
  cases r with
  | none => exact hk1
  | some r =>
      rcases r with ⟨rf, wf⟩
      have hbad : OwnsTurns (do
          fileclose cur rf
          fileclose cur wf
          (pure (-1, none) : KM (Int × Option (Fin NOFILE × Fin NOFILE)))) :=
        Turns.bind (owns_fileclose cur rf) (fun _ =>
          Turns.bind (owns_fileclose cur wf) (fun _ => Turns.pure _ rfl))
      refine (show OwnsTurns (fdalloc cur rf >>= _) from
        Turns.bind (owns_of_keeps (keepsMemory_fdalloc cur rf)) ?_) own k1 hk1
      intro fd0
      cases fd0 with
      | none => exact hbad
      | some fd0 =>
          apply Turns.bind (owns_of_keeps (keepsMemory_fdalloc cur wf))
          intro fd1
          cases fd1 with
          | none =>
              exact Turns.bind (owns_setOfile cur fd0 none) (fun _ => hbad)
          | some fd1 => exact Turns.pure _ rfl

end Free

end Files

/-!
## New processes and threads
-/

theorem holding_eq_none {pr : Proc} : holding pr = none ↔ pr.state = .UNUSED := by
  unfold holding
  rcases Decidable.em (pr.state = .UNUSED) with h | h
  · simp [h]
  · simp [h]

theorem holding_used {pr : Proc} (h : pr.state ≠ .UNUSED) :
    holding pr = some ⟨pr.pgdir, pr.kstack, pr.sz⟩ :=
  if_neg h

theorem holdings_of_other {k k' : Kernel} {p : Pslot}
    (hother : forall q, q ≠ p -> k'.proc q = k.proc q) :
    k'.holdings = Function.update k.holdings p (holding (k'.proc p)) := by
  funext q
  rcases eq_or_ne q p with rfl | hne
  · rw [Function.update_self]
    rfl
  · rw [Function.update_of_ne hne]
    exact congrArg holding (hother q hne)

theorem holdings_freed {k k' : Kernel} {p : Pslot}
    (hother : forall q, q ≠ p -> k'.proc q = k.proc q)
    (hnew : (k'.proc p).state = .UNUSED) :
    k'.holdings = Function.update k.holdings p none :=
  (holdings_of_other hother).trans (congrArg _ (holding_eq_none.mpr hnew))

theorem holdings_still {k k' : Kernel} {p : Pslot}
    (hother : forall q, q ≠ p -> k'.proc q = k.proc q)
    (hold : (k.proc p).state = .UNUSED)
    (hnew : (k'.proc p).state = .UNUSED) : k'.holdings = k.holdings := by
  rw [holdings_freed hother hnew]
  exact Function.update_eq_iff.mpr
    ⟨(holding_eq_none.mpr hold).symm, fun _ _ => rfl⟩

def used (b : Vm.Managed) (lost : Multiset UInt32) (k : Kernel) : Vm.Others :=
  beside b k.vm k.holdings.dirs
    (k.holdings.kstacks + (k.memory.ends.pipes.val + lost))

/-- The kernel apart from the processes and the memory's contents. -/
structure SamePipes (k k' : Kernel) : Prop where
  ends : k'.memory.ends = k.memory.ends
  isOpen : k'.memory.isOpen = k.memory.isOpen

theorem SamePipes.memory_eq {k k' : Kernel} (h : SamePipes k k') :
    k'.memory = { k.memory with vm := k'.vm } := by
  have hends := h.ends
  have hopen := h.isOpen
  unfold memory at hends hopen ⊢
  dsimp only at hends hopen ⊢
  rw [hends, hopen]

section Processes

variable {b : Vm.Managed} {lost : Multiset UInt32} {cur : Pslot} {k : Kernel}
  {E : Stop -> Prop}

inductive Spawns (b : Vm.Managed) (lost : Multiset UInt32) (k : Kernel) :
    Act -> Kernel -> Prop where
  | fail {a : Act} {k' : Kernel} (hpipes : SamePipes k k')
      (hslots : k'.holdings = k.holdings)
      (hs : Vm.Holds (used b lost k) none 0 k'.vm) : Spawns b lost k a k'
  | copied {k' : Kernel} (cur p : Pslot) (x d : UInt32)
      (hcur : (k.proc cur).state ≠ .UNUSED) (hfree : k.holdings p = none)
      (hpipes : SamePipes k k')
      (hslots : k'.holdings = Function.update k.holdings p
        (some ⟨some d, some x, (k.proc cur).sz⟩))
      (hs : Vm.Holds (used b lost k) (some d) {x} k'.vm)
      (hmaps : Vm.Maps d (pagesOf (k.proc cur).sz) k'.vm) :
      Spawns b lost k (.fork cur) k'
  | shared {k' : Kernel} (cur p : Pslot) (stack x : UInt32)
      (hcur : (k.proc cur).state ≠ .UNUSED) (hfree : k.holdings p = none)
      (hpipes : SamePipes k k')
      (hslots : k'.holdings = Function.update k.holdings p
        (some ⟨(k.proc cur).pgdir, some x, (k.proc cur).sz⟩))
      (hs : Vm.Holds (used b lost k) none {x} k'.vm) :
      Spawns b lost k (.clone cur stack) k'

/-- The panics of `copyuvm`: on a page of the parent that is not there, and on
one of the child that is. -/
def CopyPanic (e : Stop) : Prop :=
  e = .panic "copyuvm: pte should exist" ∨
    e = .panic "copyuvm: page not present" ∨ e = .panic "remap"

theorem wp_spawns_fork (hk : Allotted b lost k.holdings k.memory)
    (hcur : (k.proc cur).state ≠ .UNUSED)
    (hE : forall e, ¬ CopyPanic e -> E e)
    (hmiss : forall d n, (k.proc cur).pgdir = some d ->
      n < pagesOf (k.proc cur).sz -> k.vm.frame d n = none ->
        forall e, CopyPanic e -> E e) :
    wp (fork cur) (fun _ k' => Spawns b lost k (.fork cur) k') E k := by
  have hused : k.holdings cur = some ⟨(k.proc cur).pgdir,
      (k.proc cur).kstack, (k.proc cur).sz⟩ := holding_used hcur
  apply wp_fork hcur
  · exact fun _ => hE _ (by simp [CopyPanic])
  · exact fun _ => hE _ (by simp [CopyPanic])
  · exact fun _ _ _ _ => hE _ (by simp [CopyPanic])
  · exact fun _ => .fail ⟨rfl, rfl⟩ rfl hk.closed
  · intro np hnp _
    apply wp_post hk.closed.wp_kalloc
    rintro r s (⟨rfl, rfl, _⟩ | ⟨x, rfl, hs, _⟩)
    · refine .fail ⟨rfl, rfl⟩ (holdings_still ?_ hnp ?_) hk.closed
      · exact fun q hq => k.procs.noStack_of_ne hq
      · simp [withTable, Procs.noStack]
    · intro d hpgdir
      have hmem : d ∈ k.holdings.dirs :=
        Holdings.mem_dirs.mpr ⟨cur, _, hused, hpgdir⟩
      apply wp_post (hs.wp_copyuvm (hk.size cur _ hused) (beside_has hmem)
        (fun n hn hnone => ⟨hmiss d n hpgdir hn hnone _ (.inl rfl),
          hmiss d n hpgdir hn hnone _ (.inr (.inl rfl))⟩))
      rintro r s2 (⟨rfl, hs2, _⟩ | ⟨d', rfl, hs2, hmaps, _⟩)
      · -- no memory for the copy
        apply wp_post (Vm.Holds.wp_kfree hs2)
        rintro _ s3 ⟨hs3, _⟩
        refine .fail ⟨rfl, rfl⟩ (holdings_still ?_ hnp ?_) hs3
        · exact fun q hq => k.procs.noCopy_of_ne hq x
        · simp [withTable, Procs.noCopy]
      · intro cwd _ _
        refine .copied cur np x d' hcur (holding_eq_none.mpr hnp) ⟨rfl, rfl⟩
          ?_ hs2 hmaps
        funext q
        show holding ((k.procs.forked cur np x d').proc q) = _
        rcases eq_or_ne q np with rfl | hq
        · rw [Function.update_self, Procs.forked_self, resetTickets_eq,
            Procs.embryo_self]
          rfl
        · rw [Function.update_of_ne hq, Procs.forked_of_ne _ _ hq,
            resetTickets_eq]
          rfl

theorem wp_spawns_clone (hk : Allotted b lost k.holdings k.memory)
    (hcur : (k.proc cur).state ≠ .UNUSED) (stack : UInt32) :
    wp (clone cur stack) (fun _ k' => Spawns b lost k (.clone cur stack) k')
      (fun _ => True) k := by
  apply wp_clone hcur
  · exact fun _ => .fail ⟨rfl, rfl⟩ rfl hk.closed
  · intro np hnp _
    apply wp_post hk.closed.wp_kalloc
    rintro r s (⟨rfl, rfl, _⟩ | ⟨x, rfl, hs, _⟩)
    · refine .fail ⟨rfl, rfl⟩ (holdings_still ?_ hnp ?_) hk.closed
      · exact fun q hq => k.procs.counted.noStack_of_ne hq
      · simp [withTable, Procs.noStack]
    · refine .shared cur np stack x hcur (holding_eq_none.mpr hnp) ⟨rfl, rfl⟩
        ?_ hs
      refine (holdings_of_other (fun q hq => ?_)).trans (congrArg _ ?_)
      · exact k.procs.cloned_of_ne cur hq x stack
      · show holding ((k.procs.cloned cur np x stack).proc np) = _
        rw [show (k.procs.cloned cur np x stack).proc np = _ from
          Procs.set_self _ np _, Procs.embryo_self]
        rfl

/-!
## Reaping
-/

/-- The pages apart from the address space `d` that is being worked on. -/
def usedBut (b : Vm.Managed) (lost : Multiset UInt32) (k : Kernel)
    (d : UInt32) : Vm.Others :=
  beside b k.vm (k.holdings.dirs.erase d)
    (k.holdings.kstacks + (k.memory.ends.pipes.val + lost))

inductive Reaps (b : Vm.Managed) (lost : Multiset UInt32) (cur : Pslot)
    (k : Kernel) : Kernel -> Prop where
  | none : Reaps b lost cur k k
  | thread {k' : Kernel} (p : Pslot) (hfind : Finds cur k.procs p)
      (hthread : (k.proc p).threadIndictor = 1)
      (hmem : k'.memory = k.memory)
      (hslots : k'.holdings = Function.update k.holdings p .none) :
      Reaps b lost cur k k'
  | proc {k' : Kernel} (p : Pslot) (d : UInt32) (hfind : Finds cur k.procs p)
      (hthread : (k.proc p).threadIndictor ≠ 1)
      (hd : (k.proc p).pgdir = some d) (hpipes : SamePipes k k')
      (hslots : k'.holdings = Function.update k.holdings p .none)
      (hs : Vm.Holds (beside b k.vm (k.holdings.dirs.erase d)
        (Holdings.kstacks (Function.update k.holdings p .none) +
          (k.memory.ends.pipes.val + lost))) .none 0 k'.vm) :
      Reaps b lost cur k k'

theorem wp_reaps_reap (hk : Allotted b lost k.holdings k.memory) {p : Pslot}
    (hfind : Finds cur k.procs p) :
    wp (reap p) (fun _ k' => Reaps b lost cur k k')
      (fun _ => (k.proc p).kstack = none ∨ (k.proc p).pgdir = none) k := by
  have hstate : (k.proc p).state ≠ .UNUSED := by
    have hzombie : (k.proc p).state = .ZOMBIE := hfind.state
    rw [hzombie]
    exact Procstate.noConfusion
  have hused : k.holdings p = some ⟨(k.proc p).pgdir, (k.proc p).kstack,
      (k.proc p).sz⟩ := holding_used hstate
  apply wp_reap
  · intro hthread
    refine .thread p hfind hthread rfl (holdings_freed ?_ ?_)
    · exact fun q hq => k.procs.reapedThread_of_ne hq
    · simp [withTable, Procs.reapedThread]
  · exact fun hx => .inl hx
  · intro x hthread hx
    cases hd : (k.proc p).pgdir with
    | none =>
        exact wp_iff.mpr ⟨fun _ _ _ => .inr rfl, fun _ _ => .inr rfl⟩
    | some d =>
        apply wp_post (Vm.Holds.wp_kfree (hk.reaping hused hd hx))
        rintro _ s1 ⟨h1, _⟩
        apply wp_post h1.wp_freevm
        intro _ s2 h2
        refine .proc p d hfind hthread hd ⟨rfl, rfl⟩ (holdings_freed ?_ ?_) h2
        · exact fun q hq => Function.update_of_ne hq _ _
        · simp [withTable, Procs.reaped]

theorem Reaps.freed {k' : Kernel} {p : Pslot} {d x : UInt32}
    (hk : Allotted b lost k.holdings k.memory)
    (hreaps : Reaps b lost cur k k') (hfind : Finds cur k.procs p)
    (hthread : (k.proc p).threadIndictor ≠ 1)
    (hd : (k.proc p).pgdir = some d) (hx : (k.proc p).kstack = some x)
    (hgone : (k'.proc p).state = .UNUSED) : d ∈ k'.vm.freelist := by
  have hzombie : (k.proc p).state = .ZOMBIE := hfind.state
  cases hreaps with
  | none =>
      rw [hzombie] at hgone
      cases hgone
  | thread q hq hthread' =>
      cases hfind.unique hq
      exact absurd hthread' hthread
  | proc q d' hq _ hd' hpipes hslots hs =>
      cases hfind.unique hq
      cases hd.symm.trans hd'
      have hused : k.holdings p = some _ := holding_used (by
        rw [hzombie]
        exact Procstate.noConfusion)
      have hreap := hk.reaping hused hd hx
      have hspace : d ∈ k.vm.pages d := Multiset.mem_cons_self d _
      have hout := (hreap.space_out hspace).2
      have hall : d ∈ b.all := by
        have hsum := hreap.sum
        rw [← show _ = b.all from hsum]
        exact Multiset.mem_add.mpr (.inr (Multiset.mem_add.mpr (.inl hspace)))
      rw [← show _ = b.all from hs.sum] at hall
      rcases Multiset.mem_add.mp hall with hfree | hrest
      · exact Multiset.mem_coe.mp hfree
      · rcases Multiset.mem_add.mp hrest with hnone | hrest
        · cases hnone
        · rcases Multiset.mem_add.mp hrest with hnone | hrest
          · cases hnone
          · exact absurd hrest hout

theorem wait_eq_reap {p : Pslot} (hfind : Finds cur k.procs p) :
    wait cur k = reap p k := by
  have hscan : (List.finRange NPROC).find? (fun p =>
      (k.proc p).parent = some cur ∧ (k.proc p).state = .ZOMBIE) = some p :=
    scan_eq ⟨hfind.parent, hfind.state⟩ hfind.first
  unfold wait
  rw [bind_run]
  simp only [gets, id_eq]
  rw [hscan]

theorem wp_reaps_wait (hk : Allotted b lost k.holdings k.memory) :
    wp (wait cur) (fun _ k' => Reaps b lost cur k k') (fun _ => True) k := by
  apply wp_wait
  · exact fun p hfind => wp_mono (wp_reaps_reap hk hfind) (fun _ _ h => h)
      (fun _ _ => trivial)
  · exact fun _ _ => .none
  · exact fun _ => trivial

/-!
## Growing and shrinking
-/

/-- What `growproc` does to an address space of the size `sz`; `r` is the new
size. -/
inductive Sized (n : Int32) (d sz : UInt32) (s : Vm) : UInt32 -> Vm -> Prop where
  | up {r : UInt32} {s' : Vm} (hn : 0 < n)
      (h : Vm.Allocs d sz (sz + n.toUInt32) s r s') : Sized n d sz s r s'
  | down {s' : Vm} (hn : n < 0)
      (h : Vm.Cleared d (pagesOf (sz + n.toUInt32)) (pagesOf sz) s s') :
      Sized n d sz s
        (if sz ≤ sz + n.toUInt32 then sz else sz + n.toUInt32) s'
  | zero (hn : n = 0) : Sized n d sz s sz s

/-- The state in which `growproc` returns `r`, once the address space is `s` and
has the size `sz`. -/
inductive Settles (cur : Pslot) (n : Int32) (sz : UInt32) (s : Vm) (k : Kernel) :
    Int -> Kernel -> Prop where
  | fail (h : n ≠ 0 ∧ sz = 0) : Settles cur n sz s k (-1) { k with vm := s }
  | done (h : ¬ (n ≠ 0 ∧ sz = 0)) :
      Settles cur n sz s k 0
        { k with
          vm := s
          proc := Function.update k.proc cur { k.proc cur with sz := sz } }

theorem wp_settles (n : Int32) (sz : UInt32) (s : Vm)
    (hd : (k.proc cur).pgdir ≠ none)
    (hkstack : (k.proc cur).kstack = none ->
      E (.panic "switchuvm: no kstack")) :
    wp (if n ≠ 0 ∧ sz = 0 then
        (pure (-1) : KM Int)
      else do
        setProc cur (fun pr => { pr with sz := sz })
        switchuvm cur
        pure 0)
      (Settles cur n sz s k) E { k with vm := s } := by
  rw [wp_ite]
  constructor
  · exact .fail
  · intro hok
    apply wp_bind.mpr
    apply wp_modify.mpr
    unfold switchuvm
    simp only [wp_bind, wp_gets, wp_ite, Function.update_self]
    exact ⟨hkstack, fun _ => ⟨fun hnone => absurd hnone hd,
      fun _ => .done hok⟩⟩

theorem wp_growproc {o : Vm.Others} {loose : Multiset UInt32} {d : UInt32}
    (h : Vm.Holds o (some d) loose k.vm) (hd : (k.proc cur).pgdir = some d)
    (hsz : (k.proc cur).sz ≤ KERNBASE) (n : Int32)
    (hremap : forall m, pagesOf (k.proc cur).sz ≤ m -> m < UPAGES ->
      k.vm.frame d m ≠ none -> E (.panic "remap"))
    (hkstack : (k.proc cur).kstack = none ->
      E (.panic "switchuvm: no kstack")) :
    wp (growproc cur n)
      (fun r k' => exists sz s', Sized n d (k.proc cur).sz k.vm sz s' ∧
        Vm.Holds o (some d) loose s' ∧
        Vm.Spares d (fun m => m < pagesOf (k.proc cur).sz ∧
          (n < 0 -> m < pagesOf ((k.proc cur).sz + n.toUInt32))) k.vm s' ∧
        Settles cur n sz s' k r k')
      E k := by
  have htail := fun sz s => wp_settles (E := E) n sz s
    (by rw [hd]; exact Option.some_ne_none d) hkstack
  unfold growproc onVm
  rw [wp_bind, wp_gets, hd]
  dsimp only
  rw [wp_ite, wp_ite]
  refine ⟨fun hpos => ?_, fun hpos => ⟨fun hneg => ?_, fun hneg => ?_⟩⟩
  · rw [wp_bind, wp_zoom]
    apply wp_post (h.wp_allocuvm (fun hlt m hm hm' hframe => hremap m hm
      (hm'.trans_le (pagesOf_le (UInt32.le_of_lt hlt))) hframe))
    rintro sz s' ⟨hs, hallocs, hspares⟩
    exact wp_post (htail sz s') (fun _ _ hsettles => ⟨sz, s',
      .up hpos hallocs, hs, hspares.mono (fun m hP => by lia), hsettles⟩)
  · rw [wp_bind, wp_zoom]
    apply wp_post (h.wp_deallocuvm hsz)
    rintro sz s' ⟨rfl, hs, hclear, hspares, _⟩
    refine wp_post (htail _ s') (fun _ _ hsettles => ⟨_, s',
      .down hneg hclear, hs, hspares.mono (fun m hP => ?_), hsettles⟩)
    have hlt := hP.2 hneg
    lia
  · have hzero : n = 0 :=
      Int32.le_antisymm (Int32.not_lt.mp hpos) (Int32.not_lt.mp hneg)
    exact wp_post (htail _ k.vm) (fun _ _ hsettles => ⟨_, k.vm, .zero hzero, h,
      .refl d _ k.vm, hsettles⟩)

inductive Resizes (b : Vm.Managed) (lost : Multiset UInt32) (cur : Pslot)
    (n : Option Int32) (k : Kernel) : Kernel -> Prop where
  | none : Resizes b lost cur n k k
  | done {k' : Kernel} (i : Int32) (d sz : UInt32) (hi : n = some i)
      (hd : (k.proc cur).pgdir = some d)
      (hgrows : Sized i d (k.proc cur).sz k.vm sz k'.vm)
      (hpipes : SamePipes k k')
      (hslots : k'.holdings = if i ≠ 0 ∧ sz = 0 then k.holdings else
        Function.update k.holdings cur
          (some ⟨some d, (k.proc cur).kstack, sz⟩))
      (hs : Vm.Holds (usedBut b lost k d) (some d) 0 k'.vm) :
      Resizes b lost cur n k k'

theorem wp_resizes_growproc (hk : Allotted b lost k.holdings k.memory)
    (hcur : (k.proc cur).state ≠ .UNUSED) (n : Int32)
    (hE : forall e, e ≠ .panic "remap" -> E e)
    (hremap : forall d m, (k.proc cur).pgdir = some d ->
      pagesOf (k.proc cur).sz ≤ m -> m < UPAGES -> k.vm.frame d m ≠ none ->
        E (.panic "remap")) :
    wp (growproc cur n)
      (fun _ k' => Resizes b lost cur (some n) k k') E k := by
  have hused : k.holdings cur = some ⟨(k.proc cur).pgdir,
      (k.proc cur).kstack, (k.proc cur).sz⟩ := holding_used hcur
  have hsz : (k.proc cur).sz ≤ KERNBASE := hk.size cur _ hused
  cases hd : (k.proc cur).pgdir with
  | none =>
      unfold growproc
      rw [wp_bind, wp_gets, hd]
      exact hE _ (by simp)
  | some d =>
      have hmem : d ∈ k.holdings.dirs :=
        Holdings.mem_dirs.mpr ⟨cur, _, hused, hd⟩
      apply wp_post (wp_growproc (hk.opened hmem) hd hsz n
        (fun m hm hm' => hremap d m hd hm hm') (fun _ => hE _ (by simp)))
      rintro r k' ⟨sz, s', hsized, hs, _, hsettles⟩
      cases hsettles with
      | fail hfail =>
          refine .done n d sz rfl hd hsized ⟨rfl, rfl⟩ ?_ hs
          rw [if_pos hfail]
          rfl
      | done hok =>
          refine .done n d sz rfl hd hsized ⟨rfl, rfl⟩ ?_ hs
          rw [if_neg hok, ← hd]
          refine (holdings_of_other (fun q hq => ?_)).trans (congrArg _ ?_)
          · exact Function.update_of_ne hq _ _
          · refine (congrArg holding (Function.update_self _ _ _)).trans ?_
            exact holding_used hcur

theorem wp_resizes_sysSbrk (hk : Allotted b lost k.holdings k.memory)
    (hcur : (k.proc cur).state ≠ .UNUSED) (n : Option Int32) :
    wp (sysSbrk cur n)
      (fun _ k' => Resizes b lost cur n k k') (fun _ => True) k := by
  cases n with
  | none => exact .none
  | some n =>
      unfold sysSbrk
      simp only [wp_bind, wp_gets]
      apply wp_post (wp_resizes_growproc hk hcur n (fun _ _ => trivial)
        (fun _ _ _ _ _ _ => trivial))
      exact fun _ _ h => h

end Processes

end Kernel
end Xv6
