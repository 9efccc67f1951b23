import Xv6.Proc.Ends

/-!
# The caller's own slot

The calls on files and memory only change the caller's slot of the process
table, and in it the image, the descriptors and the current directory.
-/

namespace Xv6
namespace Kernel

open Lib Lib.Run

/-- A slot under a call of its process; the process does not lose its current
directory, and its image stays below the kernel. -/
structure OwnSlot (pr pr' : Proc) : Prop where
  eq : pr' =
    { pr with
      sz := pr'.sz
      pgdir := pr'.pgdir
      tf := pr'.tf
      name := pr'.name
      ofile := pr'.ofile
      cwd := pr'.cwd }
  cwd : pr.cwd ≠ none -> pr'.cwd ≠ none
  size : pr.sz < KERNBASE -> pr'.sz < KERNBASE

structure Own (cur : Pslot) (t t' : Procs) : Prop where
  slot : OwnSlot (t.proc cur) (t'.proc cur)
  other : forall q, q ≠ cur -> t'.proc q = t.proc q
  initproc : t'.initproc = t.initproc
  nextpid : t'.nextpid = t.nextpid
  numofthread : t'.numofthread = t.numofthread

theorem OwnSlot.trans {pr pr' pr'' : Proc} (h : OwnSlot pr pr')
    (h' : OwnSlot pr' pr'') : OwnSlot pr pr'' := by
  refine ⟨?_, fun hcwd => h'.cwd (h.cwd hcwd),
    fun hsz => h'.size (h.size hsz)⟩
  have heq' := h'.eq
  rw [h.eq] at heq'
  exact heq'

theorem Own.refl (cur : Pslot) (t : Procs) : Own cur t t :=
  ⟨⟨rfl, id, id⟩, fun _ _ => rfl, rfl, rfl, rfl⟩

theorem Own.set {cur : Pslot} {t t' : Procs} (h : Own cur t t')
    (g : Proc -> Proc) (hg : OwnSlot (t'.proc cur) (g (t'.proc cur))) :
    Own cur t (t'.set cur g) := by
  constructor
  · rw [Procs.set_self]
    exact h.slot.trans hg
  · intro q hq
    rw [Procs.set_of_ne _ hq]
    exact h.other q hq
  · exact h.initproc
  · exact h.nextpid
  · exact h.numofthread

/-- A relation with the process table is kept. -/
abbrev TableTurns {α τ : Type} (J : τ -> Procs -> Prop) (m : KM α) : Prop :=
  Run.Turns (fun x (_ : Unit) k => J x k.procs) m () (fun _ => ())

/-- The relation does not see the files of the process. -/
structure NoOfile {τ : Type} (cur : Pslot) (J : τ -> Procs -> Prop) :
    Prop where
  set : forall x t (fd : Fin NOFILE) (f : Option Fslot), J x t ->
    J x (t.set cur (fun pr =>
      { pr with ofile := Function.update pr.ofile fd f }))

abbrev OwnTurns {α : Type} (cur : Pslot) (m : KM α) : Prop :=
  TableTurns (Own cur) m

section Table

variable {α τ : Type} {cur : Pslot} {J : τ -> Procs -> Prop}

theorem table_of_keeps {m : KM α} (h : Keeps procs m) : TableTurns J m := by
  intro t k hk
  apply wp_post (h k.procs k rfl)
  intro _ k' hk'
  show J t k'.procs
  rw [hk']
  exact hk

theorem table_pure (a : α) : TableTurns J (pure a : KM α) :=
  Turns.pure a rfl

theorem keeps_argfd {ρ : Type} {view : Kernel -> ρ} (fd : Option Int32) :
    Keeps view (argfd cur fd) := by
  cases fd with
  | none => exact keeps_pure none
  | some fd =>
      show Keeps view (dite _ _ _)
      rcases Decidable.em (0 ≤ fd.toInt ∧ fd.toInt.toNat < NOFILE) with
        hfd | hfd
      · rw [dif_pos hfd]
        exact Turns.bind (keeps_gets _) (fun _ => keeps_pure _)
      · rw [dif_neg hfd]
        exact keeps_pure none

theorem keeps_pipeallocBad (f0 f1 : Option Fslot) :
    Keeps procs (pipeallocBad cur f0 f1) := by
  have htail : Keeps procs (pipeallocBad cur none f1) := by
    cases f1 with
    | none => exact keeps_pure none
    | some f =>
        exact Turns.bind (keeps_fileclose cur f) (fun _ => keeps_pure none)
  cases f0 with
  | none => exact htail
  | some f => exact Turns.bind (keeps_fileclose cur f) (fun _ => htail)

theorem keeps_pipealloc : Keeps procs (pipealloc cur) := by
  apply Turns.bind keeps_filealloc
  intro f0
  cases f0 with
  | none => exact keeps_pipeallocBad none none
  | some f0 =>
      apply Turns.bind keeps_filealloc
      intro f1
      cases f1 with
      | none => exact keeps_pipeallocBad (some f0) none
      | some f1 =>
          apply Turns.bind (keeps_onVm _)
          intro p
          cases p with
          | none => exact keeps_pipeallocBad (some f0) (some f1)
          | some p =>
              exact Turns.bind (keeps_setPipe p _) (fun _ =>
                Turns.bind (keeps_setFile f0 _) (fun _ =>
                  Turns.bind (keeps_setFile f1 _) (fun _ => keeps_pure _)))

theorem keeps_openBad (pid : Int32) (f : Option Fslot) (ip : Slot) :
    Keeps procs (openBad cur pid f ip) := by
  have htail : Keeps procs
      (do
        onFs (Fs.iunlockput pid ip)
        onFs (Fs.endWith (-1 : Int))) :=
    Turns.bind (keeps_onFs _) (fun _ => keeps_onFs _)
  cases f with
  | none => exact htail
  | some f => exact Turns.bind (keeps_fileclose cur f) (fun _ => htail)

namespace NoOfile

theorem setOfile (h : NoOfile cur J) (fd : Fin NOFILE) (f : Option Fslot) :
    TableTurns J (setOfile cur fd f) :=
  fun x k hk => h.set x k.procs fd f hk

theorem fdalloc (h : NoOfile cur J) (f : Fslot) :
    TableTurns J (fdalloc cur f) := by
  apply Turns.bind (table_of_keeps (keeps_gets _))
  intro fd
  cases fd with
  | none => exact table_pure none
  | some fd =>
      exact Turns.bind (h.setOfile fd (some f)) (fun _ => table_pure (some fd))

theorem sysDup (h : NoOfile cur J) (fd : Option Int32) : TableTurns J (sysDup cur fd) := by
  apply Turns.bind (table_of_keeps (keeps_argfd fd))
  intro r
  cases r with
  | none => exact table_pure (-1)
  | some r =>
      apply Turns.bind (h.fdalloc r.2)
      intro fd
      cases fd with
      | none => exact table_pure (-1)
      | some fd =>
          exact Turns.bind (table_of_keeps (keeps_filedup r.2))
            (fun _ => table_pure _)

theorem sysClose (h : NoOfile cur J) (fd : Option Int32) :
    TableTurns J (sysClose cur fd) := by
  apply Turns.bind (table_of_keeps (keeps_argfd fd))
  intro r
  cases r with
  | none => exact table_pure (-1)
  | some r =>
      exact Turns.bind (h.setOfile r.1 none) (fun _ =>
        Turns.bind (table_of_keeps (keeps_fileclose cur r.2))
          (fun _ => table_pure 0))

theorem sysPipe (h : NoOfile cur J) (ok : Bool) : TableTurns J (sysPipe cur ok) := by
  have hbad : forall rf wf : Fslot, TableTurns J
      (do
        fileclose cur rf
        fileclose cur wf
        pure ((-1 : Int), (none : Option (Fin NOFILE × Fin NOFILE)))) :=
    fun rf wf =>
      Turns.bind (table_of_keeps (keeps_fileclose cur rf)) (fun _ =>
        Turns.bind (table_of_keeps (keeps_fileclose cur wf))
          (fun _ => table_pure _))
  apply Turns.ite (table_pure _)
  apply Turns.bind (table_of_keeps keeps_pipealloc)
  intro r
  cases r with
  | none => exact table_pure _
  | some r =>
      apply Turns.bind (h.fdalloc r.1)
      intro fd0
      cases fd0 with
      | none => exact hbad r.1 r.2
      | some fd0 =>
          apply Turns.bind (h.fdalloc r.2)
          intro fd1
          cases fd1 with
          | none =>
              exact Turns.bind (h.setOfile fd0 none)
                (fun _ => hbad r.1 r.2)
          | some fd1 => exact table_pure _

theorem sysOpen (h : NoOfile cur J) (path : Option (List UInt8)) (omode : Option UInt32) :
    TableTurns J (sysOpen cur path omode) := by
  cases path with
  | none => exact table_pure (-1)
  | some path =>
      cases omode with
      | none => exact table_pure (-1)
      | some omode =>
          apply Turns.bind (table_of_keeps (keeps_pidOf cur))
          intro pid
          apply Turns.bind (table_of_keeps (keeps_gets _))
          intro cwd
          apply Turns.bind (table_of_keeps (keeps_onFs _))
          intro _
          apply Turns.bind (table_of_keeps (keeps_onFs _))
          intro ip
          cases ip with
          | none => exact table_of_keeps (keeps_onFs _)
          | some ip =>
              apply Turns.bind (table_of_keeps keeps_filealloc)
              intro f
              cases f with
              | none => exact table_of_keeps (keeps_openBad pid none ip)
              | some f =>
                  apply Turns.bind (h.fdalloc f)
                  intro fd
                  cases fd with
                  | none => exact table_of_keeps (keeps_openBad pid (some f) ip)
                  | some fd =>
                      exact Turns.bind (table_of_keeps (keeps_onFs _)) (fun _ =>
                        Turns.bind (table_of_keeps (keeps_onFs _)) (fun _ =>
                          Turns.bind (table_of_keeps (keeps_setFile f _))
                            (fun _ => table_pure _)))

end NoOfile

end Table

section Own

variable {α : Type} {cur : Pslot}

theorem noOfile_own : NoOfile cur (Own cur) :=
  ⟨fun _ _ _ _ h => h.set _ ⟨rfl, id, id⟩⟩

theorem own_setProc (g : Proc -> Proc) (hg : forall pr, OwnSlot pr (g pr)) :
    OwnTurns cur (setProc cur g) :=
  fun _ k hk => hk.set g (hg (k.proc cur))

/-!
Reading and writing only move the offset of a file.
-/

/-- The file table without the offsets, and the process table. -/
def opens (k : Kernel) : (Fslot -> File) × Procs :=
  (fun f => { k.file f with off := 0 }, k.procs)

theorem aside_opens : Aside opens :=
  ⟨fun _ _ => rfl, fun _ _ => rfl, fun _ _ => rfl⟩

theorem turns_of_opens {τ : Type} {J : τ -> (Fslot -> File) × Procs -> Prop}
    {m : KM α} (h : Keeps opens m) :
    Run.Turns (fun t (_ : Unit) k => J t (opens k)) m () (fun _ => ()) := by
  intro t k hk
  apply wp_post (h k.opens k rfl)
  intro _ k' hk'
  show J t k'.opens
  rw [hk']
  exact hk

theorem own_of_opens {m : KM α} (h : Keeps opens m) : OwnTurns cur m :=
  turns_of_opens (J := fun t o => Own cur t o.2) h

/-- A view that shows neither the file system, nor the offsets of the files,
nor what is in a pipe. -/
structure Blind {ρ : Type} (view : Kernel -> ρ) : Prop where
  onFs : forall {β : Type} (m : FsM β), Keeps view (onFs m)
  setOff : forall (f : Fslot) (g : File -> UInt32),
    Keeps view (setFile f (fun fl => { fl with off := g fl }))
  setPipe : forall (p : UInt32) (g : Pipe -> Pipe),
    (forall pi, (g pi).readopen = pi.readopen ∧
      (g pi).writeopen = pi.writeopen) -> Keeps view (setPipe p g)

theorem blind_opens : Blind opens := by
  constructor
  · exact fun m => aside_opens.onFs m
  · rintro f g _ k rfl
    show ((_, _) : (Fslot -> File) × Procs) = (_, _)
    refine Prod.ext ?_ rfl
    funext f'
    rcases eq_or_ne f' f with rfl | hne
    · simp
    · simp [Function.update_of_ne hne]
  · exact fun p g _ => aside_opens.setPipe p g

namespace Blind

variable {ρ : Type} {view : Kernel -> ρ}

theorem pipereadLoop (h : Blind view) (p : UInt32) (n : Nat) :
    Keeps view (pipereadLoop p n) := by
  induction n with
  | zero => exact keeps_pure []
  | succ n ih =>
      exact Turns.bind (keeps_gets _) (fun _ =>
        Turns.ite (keeps_pure [])
          (Turns.bind (h.setPipe p _ (fun _ => ⟨rfl, rfl⟩)) (fun _ =>
            Turns.bind ih (fun _ => keeps_pure _))))

theorem piperead (h : Blind view) (p : UInt32) (n : Int32) :
    Keeps view (piperead cur p n) :=
  Turns.bind (keeps_gets _) (fun _ =>
    Turns.ite
      (Turns.bind (keeps_gets _) (fun _ =>
        Turns.ite (keeps_pure _) (keeps_stop _)))
      (Turns.bind (h.pipereadLoop p _) (fun _ => keeps_pure _)))

theorem pipewriteLoop (h : Blind view) (p : UInt32) (src : Nat -> UInt8)
    (n i : Nat) : Keeps view (pipewriteLoop cur p src n i) := by
  induction n generalizing i with
  | zero => exact keeps_pure true
  | succ n ih =>
      exact Turns.bind (keeps_gets _) (fun _ =>
        Turns.ite
          (Turns.bind (keeps_gets _) (fun _ =>
            Turns.ite (keeps_pure false) (keeps_stop _)))
          (Turns.bind (h.setPipe p _ (fun _ => ⟨rfl, rfl⟩))
            (fun _ => ih (i + 1))))

theorem pipewrite (h : Blind view) (p : UInt32) (src : Nat -> UInt8)
    (n : Int32) : Keeps view (pipewrite cur p src n) :=
  Turns.bind (h.pipewriteLoop p src _ 0) (fun _ => keeps_pure _)

theorem fileread (h : Blind view) (f : Fslot) (n : Int32) :
    Keeps view (fileread cur f n) := by
  apply Turns.bind (keeps_gets _)
  intro fl
  apply Turns.ite (keeps_pure _)
  cases fl.type with
  | FD_NONE => exact keeps_stop _
  | FD_PIPE => exact h.piperead _ n
  | FD_INODE =>
      apply Turns.bind (keeps_pidOf cur)
      intro pid
      apply Turns.bind (h.onFs _)
      intro _
      apply Turns.bind (h.onFs _)
      intro r
      have htail : Keeps view
          (do
            Kernel.onFs (Fs.iunlock pid fl.ip)
            pure r) :=
        Turns.bind (h.onFs _) (fun _ => keeps_pure r)
      apply Turns.ite
      · exact Turns.bind (h.setOff f _) (fun _ => htail)
      · exact htail

theorem filewriteOp (h : Blind view) (f : Fslot) (ip : Slot)
    (src : Nat -> UInt8) (n1 : Nat) :
    Keeps view (filewriteOp cur f ip src n1) := by
  apply Turns.bind (keeps_pidOf cur)
  intro pid
  apply Turns.bind (h.onFs _)
  intro _
  apply Turns.bind (h.onFs _)
  intro _
  apply Turns.bind (keeps_gets _)
  intro off
  apply Turns.bind (h.onFs _)
  intro r
  have htail : Keeps view
      (do
        Kernel.onFs (Fs.iunlock pid ip)
        Kernel.onFs Fs.endOp
        pure r) :=
    Turns.bind (h.onFs _) (fun _ =>
      Turns.bind (h.onFs _) (fun _ => keeps_pure r))
  apply Turns.ite
  · exact Turns.bind (h.setOff f _) (fun _ => htail)
  · exact htail

theorem filewriteLoop (h : Blind view) (f : Fslot) (ip : Slot)
    (src : Nat -> UInt8) (n fuel i : Nat) :
    Keeps view (filewriteLoop cur f ip src n fuel i) := by
  induction fuel generalizing i with
  | zero => exact keeps_pure i
  | succ fuel ih =>
      apply Turns.ite
      · exact Turns.bind (h.filewriteOp f ip _ _) (fun _ =>
          Turns.ite (keeps_pure i) (Turns.ite (keeps_stop _) (ih _)))
      · exact keeps_pure i

theorem filewrite (h : Blind view) (f : Fslot) (src : Nat -> UInt8)
    (n : Int32) : Keeps view (filewrite cur f src n) := by
  apply Turns.bind (keeps_gets _)
  intro fl
  apply Turns.ite (keeps_pure _)
  cases fl.type with
  | FD_NONE => exact keeps_stop _
  | FD_PIPE => exact h.pipewrite _ src n
  | FD_INODE =>
      exact Turns.bind (h.filewriteLoop f _ src _ _ 0) (fun _ => keeps_pure _)

theorem sysRead (h : Blind view) (fd n : Option Int32) :
    Keeps view (sysRead cur fd n) := by
  apply Turns.bind (keeps_argfd fd)
  intro r
  cases r with
  | none => exact keeps_pure _
  | some r =>
      cases n with
      | none => exact keeps_pure _
      | some n => exact h.fileread r.2 n

theorem sysWrite (h : Blind view) (fd : Option Int32) (src : Nat -> UInt8)
    (n : Option Int32) : Keeps view (sysWrite cur fd src n) := by
  apply Turns.bind (keeps_argfd fd)
  intro r
  cases r with
  | none => exact keeps_pure _
  | some r =>
      cases n with
      | none => exact keeps_pure _
      | some n => exact h.filewrite r.2 src n

theorem fsCall (h : Blind view) (m : Int32 -> Option Slot -> FsM α) :
    Keeps view (fsCall cur m) :=
  Turns.bind (keeps_pidOf cur) (fun _ =>
    Turns.bind (keeps_gets _) (fun _ => h.onFs _))

end Blind

theorem chdir_cwd (pid : Int32) (cwd : Option Slot) (hcwd : cwd ≠ none)
    (path : Option (List UInt8)) (s : Fs) :
    wp (Fs.sysChdir pid cwd path) (fun r _ => r.2 ≠ none) (fun _ => True) s := by
  have hend : forall (r : Int × Option Slot) (s : Fs), r.2 ≠ none ->
      wp (Fs.endWith r) (fun r _ => r.2 ≠ none) (fun _ => True) s := by
    intro r s hr
    exact wp_bind_trivial (fun _ _ => hr)
  apply wp_bind_trivial
  intro _ s
  cases path with
  | none => exact hend _ s hcwd
  | some path =>
      apply wp_bind_trivial
      intro ip s
      cases ip with
      | none => exact hend _ s hcwd
      | some ip =>
          apply wp_bind_trivial
          intro _ s
          apply wp_bind_trivial
          intro i s
          rw [wp_ite]
          constructor
          · intro _
            apply wp_bind_trivial
            exact fun _ s => hend _ s hcwd
          · intro _
            apply wp_bind_trivial
            intro _ s
            cases cwd with
            | none => exact trivial
            | some cwd =>
                apply wp_bind_trivial
                exact fun _ s => hend _ s (Option.some_ne_none ip)

theorem own_sysChdir (path : Option (List UInt8)) :
    OwnTurns cur (sysChdir cur path) := by
  intro t k hk
  unfold sysChdir fsCall pidOf cwdOf onFs
  simp only [wp_bind, wp_gets, wp_zoom]
  apply wp_iff.mpr
  constructor
  · intro r s hrun
    have hset := hk.set (fun pr => { pr with cwd := r.2 })
    apply hset
    refine ⟨rfl, fun hcwd => ?_, id⟩
    have hr : r.2 ≠ none :=
      (wp_iff.mp (chdir_cwd _ _ hcwd path k.fs)).1 r s hrun
    exact hr
  · exact fun _ _ => trivial

theorem keepsOpens_loaduvmLoop (pid : Int32) (pgdir addr : UInt32) (ip : Slot)
    (offset sz : UInt32) (fuel : Nat) (i : UInt32) :
    Keeps opens (loaduvmLoop pid pgdir addr ip offset sz fuel i) := by
  induction fuel generalizing i with
  | zero => exact keeps_pure true
  | succ fuel ih =>
      unfold loaduvmLoop
      apply Turns.ite
      · apply Turns.bind (aside_opens.onVm _)
        intro r
        cases r with
        | none => exact keeps_stop _
        | some r =>
            exact Turns.bind (aside_opens.onVm _) (fun _ =>
              Turns.bind (aside_opens.onFs _) (fun _ =>
                Turns.bind (aside_opens.onVm _) (fun _ =>
                  Turns.ite (keeps_pure false) (ih _))))
      · exact keeps_pure true

theorem keepsOpens_loaduvm (pid : Int32) (pgdir addr : UInt32) (ip : Slot)
    (offset sz : UInt32) :
    Keeps opens (loaduvm pid pgdir addr ip offset sz) :=
  Turns.ite (keeps_stop _) (keepsOpens_loaduvmLoop pid pgdir addr ip offset sz _ 0)

theorem keepsOpens_execLoad (pid : Int32) (ip : Slot) (pgdir : UInt32) (n : Nat)
    (off sz : UInt32) : Keeps opens (execLoad pid ip pgdir n off sz) := by
  induction n generalizing off sz with
  | zero => exact keeps_pure (some sz)
  | succ n ih =>
      exact Turns.bind (aside_opens.onFs _) (fun _ =>
        Turns.ite (keeps_pure none)
          (Turns.ite (ih _ _)
            (Turns.ite (keeps_pure none)
              (Turns.ite (keeps_pure none)
                (Turns.bind (aside_opens.onVm _) (fun _ =>
                  Turns.ite (keeps_pure none)
                    (Turns.ite (keeps_pure none)
                      (Turns.bind (keepsOpens_loaduvm pid pgdir _ ip _ _)
                        (fun _ =>
                          Turns.ite (ih _ _) (keeps_pure none))))))))))

theorem keepsOpens_execBad (pid : Int32) (pgdir : Option UInt32) (ip : Option Slot) :
    Keeps opens (execBad pid pgdir ip) := by
  have htail : Keeps opens (execBad pid none ip) := by
    cases ip with
    | none => exact keeps_pure _
    | some ip =>
        exact Turns.bind (aside_opens.onFs _) (fun _ =>
          Turns.bind (aside_opens.onFs _) (fun _ => keeps_pure _))
  cases pgdir with
  | none => exact htail
  | some pgdir => exact Turns.bind (aside_opens.onVm _) (fun _ => htail)

/-!
The size of an image stays below `KERNBASE`: `allocuvm` refuses to go further,
and `deallocuvm` only goes down.
-/

theorem returns_allocuvm (pgdir : UInt32) {oldsz newsz : UInt32}
    (h : newsz < KERNBASE -> oldsz < KERNBASE) :
    Returns (fun sz => sz < KERNBASE) (Vm.allocuvm pgdir oldsz newsz) := by
  apply Returns.ite
  · exact fun _ => Returns.pure (by decide)
  · intro hnew
    have hbelow : newsz < KERNBASE := UInt32.not_le.mp hnew
    apply Returns.ite
    · exact fun _ => Returns.pure (h hbelow)
    · intro _
      apply Returns.after
      intro ok
      cases ok with
      | true => exact Returns.pure hbelow
      | false => exact Returns.pure (show (0 : UInt32) < KERNBASE by decide)

theorem returns_deallocuvm (pgdir newsz : UInt32) {oldsz : UInt32}
    (h : oldsz < KERNBASE) :
    Returns (fun sz => sz < KERNBASE) (Vm.deallocuvm pgdir oldsz newsz) := by
  apply Returns.ite
  · exact fun _ => Returns.pure h
  · intro hnew
    exact Returns.after (fun _ =>
      Returns.pure (UInt32.lt_trans (UInt32.not_le.mp hnew) h))

theorem returns_execLoad (pid : Int32) (ip : Slot) (pgdir : UInt32) (n : Nat)
    (off : UInt32) {sz : UInt32} (hsz : sz < KERNBASE) :
    Returns (fun r => forall sz, r = some sz -> sz < KERNBASE)
      (execLoad pid ip pgdir n off sz) := by
  have hbad : Returns (fun r => forall sz, r = some sz -> sz < KERNBASE)
      (pure none : KM (Option UInt32)) :=
    Returns.pure (fun _ h => by cases h)
  induction n generalizing off sz with
  | zero =>
      apply Returns.pure
      intro sz' h
      cases h
      exact hsz
  | succ n ih =>
      unfold execLoad
      apply Returns.after
      intro r
      apply Returns.ite (fun _ => hbad)
      intro _
      apply Returns.ite (fun _ => ih _ hsz)
      intro _
      apply Returns.ite (fun _ => hbad)
      intro _
      apply Returns.ite (fun _ => hbad)
      intro _
      apply Returns.bind (Returns.zoom (returns_allocuvm pgdir (fun _ => hsz)))
      intro sz' hsz'
      apply Returns.ite (fun _ => hbad)
      intro _
      apply Returns.ite (fun _ => hbad)
      intro _
      apply Returns.after
      intro ok
      exact Returns.ite (fun _ => ih _ hsz') (fun _ => hbad)

theorem PGROUNDUP_below {sz : UInt32} (hsz : sz < KERNBASE)
    (h : PGROUNDUP sz + 2 * 4096 < KERNBASE) : PGROUNDUP sz < KERNBASE := by
  have hround : (PGROUNDUP sz).toNat = (sz + 4095).toNat / 4096 * 4096 :=
    PTE_ADDR_toNat (sz + 4095)
  have hadd : (sz + 4095).toNat = (sz.toNat + 4095) % 2 ^ 32 :=
    UInt32.toNat_add sz 4095
  have hstack : (PGROUNDUP sz + 2 * 4096).toNat =
      ((PGROUNDUP sz).toNat + 8192) % 2 ^ 32 :=
    UInt32.toNat_add _ _
  have hbase : KERNBASE.toNat = 2 ^ 31 := rfl
  rw [UInt32.lt_iff_toNat_lt] at hsz h ⊢
  lia

theorem returns_execStack (pgdir : UInt32) {sz : UInt32} (hsz : sz < KERNBASE)
    (argv : List (List UInt8)) :
    Returns (fun r => forall x, r = some x -> x.1 < KERNBASE)
      (execStack pgdir sz argv) := by
  have hbad : Returns (fun r => forall x, r = some x -> x.1 < KERNBASE)
      (pure none : VmM (Option (UInt32 × UInt32))) :=
    Returns.pure (fun _ h => by cases h)
  apply Returns.bind (returns_allocuvm pgdir (PGROUNDUP_below hsz))
  intro sz' hsz'
  apply Returns.ite (fun _ => hbad)
  intro _
  apply Returns.after
  intro _
  apply Returns.after
  intro args
  cases args with
  | none => exact hbad
  | some args =>
      apply Returns.after
      intro ok
      cases ok with
      | true =>
          apply Returns.pure
          intro x h
          cases h
          exact hsz'
      | false => exact hbad

theorem own_execCommit (path : List UInt8) (pgdir : UInt32) {sz : UInt32}
    (hsz : sz < KERNBASE) (entry sp : UInt32) :
    OwnTurns cur (execCommit cur path pgdir sz entry sp) :=
  Turns.bind (table_of_keeps (keeps_gets _)) (fun _ =>
    Turns.bind (own_setProc _ (fun _ => ⟨rfl, id, fun _ => hsz⟩)) (fun _ =>
      Turns.bind (table_of_keeps (keeps_switchuvm cur)) (fun _ =>
        Turns.bind (table_of_keeps (keeps_onVm _)) (fun _ => table_pure 0))))

section Exec

variable {τ : Type} {J : τ -> (Fslot -> File) × Procs -> Prop}

theorem turns_execFinish_opens (pid : Int32) {path : List UInt8}
    (pgdir entry : UInt32) {m : VmM (Option (UInt32 × UInt32))}
    (hm : Returns (fun r => forall x, r = some x -> x.1 < KERNBASE) m)
    (hcommit : forall sz sp, sz < KERNBASE ->
      Run.Turns (fun t (_ : Unit) k => J t (opens k))
        (execCommit cur path pgdir sz entry sp) () (fun _ => ())) :
    Run.Turns (fun t (_ : Unit) k => J t (opens k))
      (do
        match ← onVm m with
        | none => execBad pid (some pgdir) none
        | some (sz, sp) => execCommit cur path pgdir sz entry sp) ()
      (fun _ => ()) := by
  apply Turns.bind_returns (turns_of_opens (aside_opens.onVm m))
    (Returns.zoom hm)
  intro r hr
  cases r with
  | none => exact turns_of_opens (keepsOpens_execBad pid (some pgdir) none)
  | some r => exact hcommit r.1 r.2 (hr r rfl)

theorem turns_exec_opens {path : List UInt8}
    (hcommit : forall pgdir sz entry sp, sz < KERNBASE ->
      Run.Turns (fun t (_ : Unit) k => J t (opens k))
        (execCommit cur path pgdir sz entry sp) () (fun _ => ()))
    (argv : List (List UInt8)) :
    Run.Turns (fun t (_ : Unit) k => J t (opens k)) (exec cur path argv) ()
      (fun _ => ()) := by
  have hfs : forall {β : Type} (m : FsM β),
      Run.Turns (fun t (_ : Unit) k => J t (opens k)) (onFs m) ()
        (fun _ => ()) :=
    fun m => turns_of_opens (aside_opens.onFs m)
  have hbad : forall pid pgdir ip,
      Run.Turns (fun t (_ : Unit) k => J t (opens k)) (execBad pid pgdir ip) ()
        (fun _ => ()) :=
    fun pid pgdir ip => turns_of_opens (keepsOpens_execBad pid pgdir ip)
  apply Turns.bind (turns_of_opens (keeps_pidOf cur))
  intro pid
  apply Turns.bind (turns_of_opens (keeps_gets _))
  intro cwd
  apply Turns.bind (hfs _)
  intro _
  apply Turns.bind (hfs _)
  intro ip
  cases ip with
  | none => exact hfs _
  | some ip =>
      apply Turns.bind (hfs _)
      intro _
      apply Turns.bind (hfs _)
      intro r
      apply Turns.ite (hbad pid none (some ip))
      apply Turns.ite (hbad pid none (some ip))
      apply Turns.bind (turns_of_opens (aside_opens.onVm _))
      intro pgdir
      cases pgdir with
      | none => exact hbad pid none (some ip)
      | some pgdir =>
          apply Turns.bind_returns
            (turns_of_opens (keepsOpens_execLoad pid ip pgdir _ _ _))
            (returns_execLoad pid ip pgdir _ _ (by decide))
          intro sz hsz
          cases sz with
          | none => exact hbad pid (some pgdir) (some ip)
          | some sz =>
              apply Turns.bind (hfs _)
              intro _
              apply Turns.bind (hfs _)
              intro _
              have hstack := returns_execStack pgdir (hsz sz rfl) argv
              generalize execStack pgdir sz argv = m at hstack ⊢
              exact turns_execFinish_opens pid pgdir _ hstack
                (fun sz sp => hcommit pgdir sz _ sp)

theorem own_exec (path : List UInt8) (argv : List (List UInt8)) :
    OwnTurns cur (exec cur path argv) :=
  turns_exec_opens (J := fun t o => Own cur t o.2)
    (fun pgdir _ entry sp hsz => own_execCommit path pgdir hsz entry sp) argv

end Exec

theorem own_sysExec (args : Option (List UInt8 × List (List UInt8))) :
    OwnTurns cur (sysExec cur args) := by
  cases args with
  | none => exact table_pure _
  | some args => exact Turns.ite (table_pure _) (own_exec args.1 args.2)

theorem own_growproc (n : Int32) : OwnTurns cur (growproc cur n) := by
  intro t k hk
  unfold growproc
  rw [wp_bind, wp_gets]
  generalize hpr : k.proc cur = pr
  cases pr.pgdir with
  | none => exact trivial
  | some pgdir =>
      -- the new size is below the kernel if the old one is
      have hold : (t.proc cur).sz < KERNBASE -> pr.sz < KERNBASE := by
        intro hsz
        rw [← hpr]
        exact hk.slot.size hsz
      have hset : forall sz : UInt32,
          ((t.proc cur).sz < KERNBASE -> sz < KERNBASE) ->
            forall k, Own cur t k.procs ->
              wp
                (if n ≠ 0 ∧ sz = 0 then
                  pure (-1 : Int)
                else do
                  setProc cur (fun pr => { pr with sz := sz })
                  switchuvm cur
                  pure 0)
                (fun _ k' => Own cur t k'.procs) (fun _ => True) k := by
        intro sz hsz k hk
        rw [wp_ite]
        constructor
        · exact fun _ => hk
        · intro _
          have hslot : Own cur t (k.procs.set cur (fun pr =>
              { pr with sz := sz })) := by
            constructor
            · rw [Procs.set_self]
              exact ⟨by rw [hk.slot.eq], hk.slot.cwd, hsz⟩
            · intro q hq
              rw [Procs.set_of_ne _ hq]
              exact hk.other q hq
            · exact hk.initproc
            · exact hk.nextpid
            · exact hk.numofthread
          rw [wp_bind]
          exact Turns.bind (table_of_keeps (keeps_switchuvm cur))
            (fun _ => table_pure 0) t _ hslot
      have hcall : forall m : VmM UInt32,
          (pr.sz < KERNBASE -> Returns (fun sz => sz < KERNBASE) m) ->
            wp (onVm m)
              (fun sz k' => Own cur t k'.procs ∧
                ((t.proc cur).sz < KERNBASE -> sz < KERNBASE))
              (fun _ => True) k := by
        intro m hm
        apply wp_mono
          (wp_and (table_of_keeps (keeps_onVm m) t k hk)
            ((Returns.zoom (Returns.under (fun hsz => hm (hold hsz)))).run k))
        · exact fun _ _ h => h
        · exact fun _ _ => trivial
      apply wp_ite.mpr
      constructor
      · intro _
        apply wp_bind.mpr
        apply wp_post (hcall _ (fun hsz => returns_allocuvm pgdir (fun _ => hsz)))
        exact fun sz k' h => hset sz h.2 k' h.1
      · intro _
        apply wp_ite.mpr
        constructor
        · intro _
          apply wp_bind.mpr
          apply wp_post (hcall _ (returns_deallocuvm pgdir _))
          exact fun sz k' h => hset sz h.2 k' h.1
        · exact fun _ => hset pr.sz hold k hk

theorem own_sysSbrk (n : Option Int32) : OwnTurns cur (sysSbrk cur n) := by
  cases n with
  | none => exact table_pure _
  | some n =>
      exact Turns.bind (table_of_keeps (keeps_gets _)) (fun _ =>
        Turns.bind (own_growproc n) (fun _ => table_pure _))

theorem own_run (c : FsCall) : OwnTurns cur (c.run cur) := by
  cases c with
  | «open» path omode => exact noOfile_own.sysOpen path omode
  | mkdir path | mknod path major minor | link old new | unlink path =>
      exact own_of_opens (blind_opens.fsCall _)
  | chdir path => exact own_sysChdir path
  | exec args => exact own_sysExec args
  | close fd => exact noOfile_own.sysClose fd
  | read fd n =>
      exact own_of_opens (Turns.bind (blind_opens.sysRead fd n)
        (fun _ => keeps_pure _))
  | write fd src n => exact own_of_opens (blind_opens.sysWrite fd src n)

end Own

end Kernel
end Xv6
