import Xv6.Proc.Opens

/-!
# Descriptors shared with threads

`fork` counts the files and the directory that it hands to the child, `clone`
hands them to the thread uncounted.  As long as nothing is closed or left that
does not count all the live processes that have it, no process is left with a
file or a directory that has been given up.
-/

namespace Xv6
namespace Kernel

open Lib Lib.Run

def Refers (k : Kernel) (q : Pslot) (fd : Fin NOFILE) (f : Fslot) : Prop :=
  Alive (k.proc q).state ∧ (k.proc q).ofile fd = some f

def WorksIn (k : Kernel) (q : Pslot) (jp : Slot) : Prop :=
  Alive (k.proc q).state ∧ (k.proc q).cwd = some jp

instance (k : Kernel) (q : Pslot) (fd : Fin NOFILE) (f : Fslot) :
    Decidable (Refers k q fd f) :=
  inferInstanceAs (Decidable (_ ∧ _))

instance (k : Kernel) (q : Pslot) (jp : Slot) : Decidable (WorksIn k q jp) :=
  inferInstanceAs (Decidable (_ ∧ _))

/-- Whatever a live process has is there. -/
structure NoneDead (k : Kernel) : Prop where
  file : forall q fd f, Refers k q fd f -> 1 ≤ (k.file f).ref
  cwd : forall q jp, WorksIn k q jp -> 1 ≤ (k.fs.icache jp).ref

/-!
## The condition
-/

@[irreducible] def descriptors (k : Kernel) (f : Fslot) : Finset (Pslot × Fin NOFILE) :=
  Finset.univ.filter (fun x => Refers k x.1 x.2 f)

@[simp] theorem mem_descriptors {k : Kernel} {f : Fslot}
    {x : Pslot × Fin NOFILE} : x ∈ descriptors k f ↔ Refers k x.1 x.2 f := by
  unfold descriptors
  exact Finset.mem_filter_univ x

/-- The live processes that have the directory in slot `jp`. -/
@[irreducible] def workers (k : Kernel) (jp : Slot) : Finset Pslot :=
  Finset.univ.filter (fun q => WorksIn k q jp)

@[simp] theorem mem_workers {k : Kernel} {jp : Slot} {q : Pslot} :
    q ∈ workers k jp ↔ WorksIn k q jp := by
  unfold workers
  exact Finset.mem_filter_univ q

/-- The open files on the inode in slot `jp`, and the live processes that have
it as their directory. -/
def inodeUsers (k : Kernel) (jp : Slot) : Nat :=
  Finset.univ.sum (fun f => fileRefers jp (k.file f)) + (workers k jp).card

def Gives (k : Kernel) : Act -> Fslot -> Prop
  | .call cur (.close fd), f => exists i, opened (k.proc cur) fd = some (i, f)
  | .exit cur, f =>
      k.numofthread = 0 ∧ exists fd, (k.proc cur).ofile fd = some f
  | _, _ => False

def Leaves (k : Kernel) : Act -> Slot -> Prop
  | .call cur (.chdir _), jp => (k.proc cur).cwd = some jp
  | .exit cur, jp => k.numofthread = 0 ∧ (k.proc cur).cwd = some jp
  | _, _ => False

/-- A file or a directory is given up only if it counts every live process that
has it, and a child or a thread does not find descriptors in its slot that its
parent does not have. -/
structure Spares (k : Kernel) (a : Act) : Prop where
  file : forall f, Gives k a f -> ((descriptors k f).card : Int) ≤ (k.file f).ref
  inode : forall f, Gives k a f -> (k.file f).type = .FD_INODE ->
    (inodeUsers k (k.file f).ip : Int) ≤ (k.fs.icache (k.file f).ip).ref
  cwd : forall jp, Leaves k a jp ->
    (inodeUsers k jp : Int) ≤ (k.fs.icache jp).ref
  slot : forall cur p, (a = .fork cur ∨ exists stack, a = .clone cur stack) ->
    (k.proc p).state = .UNUSED ->
      (forall q, q < p -> (k.proc q).state ≠ .UNUSED) ->
        forall fd, (k.proc cur).ofile fd = none -> (k.proc p).ofile fd = none

/-!
## Slots
-/

/-- A live process was live before and has what it had. -/
def Stays (t t' : Procs) (q : Pslot) : Prop :=
  Alive (t'.proc q).state -> Alive (t.proc q).state ∧
    (t'.proc q).ofile = (t.proc q).ofile ∧ (t'.proc q).cwd = (t.proc q).cwd

/-- The slot `q` has been taken for a child or a thread of `cur`. -/
structure Inherits (cur : Pslot) (t t' : Procs) (q : Pslot) : Prop where
  free : (t.proc q).state = .UNUSED
  first : forall p, p < q -> (t.proc p).state ≠ .UNUSED
  ofile : forall fd, (t'.proc q).ofile fd =
    ((t.proc cur).ofile fd).or ((t.proc q).ofile fd)
  cwd : (t'.proc q).cwd = (t.proc cur).cwd

section Slots

variable {t t' : Procs} {q : Pslot}

theorem fares_stays {a : Act} (h : Fares t q (t'.proc q) a) (ha : ¬ a.own) :
    Stays t t' q ∨
      exists cur, (a = .fork cur ∨ exists stack, a = .clone cur stack) ∧
        Inherits cur t t' q := by
  have hdead : Idle (t'.proc q).state -> Stays t t' q :=
    fun hidle halive => absurd hidle (not_idle_of_alive halive)
  cases h with
  | kept _ hkept hstate =>
      exact Or.inl (fun halive =>
        ⟨(alive_iff_of_woken hstate).mp halive, hkept.ofile, hkept.cwd⟩)
  | moved _ hkept hold =>
      exact Or.inl (fun _ => ⟨hold, hkept.ofile, hkept.cwd⟩)
  | free _ _ hnew | reaped _ _ hnew => exact Or.inl (hdead (Or.inl hnew))
  | made _ cur ha hold hfirst _ hofile hcwd =>
      exact Or.inr ⟨cur, ha, hold, hfirst, hofile, hcwd⟩
  | exited hnew => exact Or.inl (hdead (Or.inr hnew))
  | own _ _ _ hown => exact absurd hown ha

theorem exit_not_init {cur : Pslot} (h : Exit cur t t') :
    cur ≠ t.initproc := by
  cases h with
  | closed _ hinit | left _ hinit => exact hinit

theorem exit_zombie {cur : Pslot} (h : Exit cur t t') :
    (t'.proc cur).state = .ZOMBIE := by
  cases h with
  | closed woken | left woken => simp [Procs.exited]

theorem exit_other_cwd {cur : Pslot} (h : Exit cur t t') (hq : q ≠ cur) :
    (t'.proc q).cwd = (t.proc q).cwd := by
  rcases exit_other h hq with ⟨woken, hslot⟩
  rw [hslot]
  show (wake _ (t.proc q)).cwd = _
  rw [wake_eq]

theorem exit_stays {cur : Pslot} (h : Exit cur t t') : Stays t t' q := by
  rcases eq_or_ne q cur with rfl | hq
  · intro halive
    rw [exit_zombie h] at halive
    exact absurd halive (by decide)
  · rcases exit_other h hq with ⟨woken, hslot⟩
    intro halive
    rw [hslot] at halive ⊢
    refine ⟨(alive_iff_of_woken (passSlot_wake_state ..)).mp halive, ?_, ?_⟩
    · show (wake _ (t.proc q)).ofile = _
      rw [wake_eq]
    · rw [← hslot]
      exact exit_other_cwd h hq

theorem exit_alive_ne {cur : Pslot} (h : Exit cur t t')
    (halive : Alive (t'.proc q).state) : q ≠ cur := by
  rintro rfl
  rw [exit_zombie h] at halive
  exact absurd halive (by decide)

theorem exit_cwd {cur : Pslot} (h : Exit cur t t') :
    t.numofthread = 0 ∨ (t'.proc cur).cwd = (t.proc cur).cwd := by
  cases h with
  | closed _ _ hzero => exact Or.inl hzero
  | left woken =>
      rw [Procs.exited_self]
      exact Or.inr rfl

theorem step_stays {k k' : Kernel} {a : Act} (hstep : Step k a k')
    (ha : ¬ a.own) (q : Pslot) :
    Stays k.procs k'.procs q ∨
      exists cur, (a = .fork cur ∨ exists stack, a = .clone cur stack) ∧
        Inherits cur k.procs k'.procs q :=
  fares_stays (step_fares hstep q) ha

end Slots


/-!
## Steps
-/

section Step

variable {k k' : Kernel} {a : Act} {cur : Pslot}

theorem own_of_step (hstep : Step k a k') (ha : a.own)
    (hcur : a.caller = some cur) : Own cur k.procs k'.procs := by
  have hmoves := step_moves hstep
  generalize k'.procs = t' at hmoves
  cases hmoves with
  | own hcur' h =>
      cases hcur.symm.trans hcur'
      exact h
  | _ => exact absurd ha not_false

theorem exit_of_step (hstep : Step k (.exit cur) k') :
    exit cur k = .ok ((), k') := by
  rcases hstep with ⟨_, r, hrun⟩
  change (exit cur >>= fun _ => pure 0) k = _ at hrun
  rw [bind_run] at hrun
  cases hexit : exit cur k with
  | ok res =>
      rw [hexit] at hrun
      cases hrun
      rfl
  | error e =>
      rw [hexit] at hrun
      cases hrun

theorem pipe_of_step {ok : Bool} (hstep : Step k (.pipe cur ok) k') :
    exists r, sysPipe cur ok k = .ok (r, k') := by
  rcases hstep with ⟨_, r, hrun⟩
  change (sysPipe cur ok >>= fun r => pure r.1) k = _ at hrun
  rw [bind_run] at hrun
  cases hpipe : sysPipe cur ok k with
  | ok res =>
      rw [hpipe] at hrun
      cases hrun
      exact ⟨res.1, rfl⟩
  | error e =>
      rw [hpipe] at hrun
      cases hrun

end Step

/-!
## Files
-/

theorem argfd_eq (cur : Pslot) (fd : Option Int32) :
    argfd cur fd = gets (fun k => opened (k.proc cur) fd) := by
  funext k
  unfold argfd opened
  cases fd with
  | none => rfl
  | some fd =>
      simp only
      split
      · rfl
      · rfl

structure Closes (cur : Pslot) (i : Fin NOFILE) (f : Fslot)
    (k k' : Kernel) : Prop where
  procs : k'.procs = k.procs.set cur (fun pr =>
    { pr with ofile := Function.update pr.ofile i none })
  other : forall f', f' ≠ f -> k'.file f' = k.file f'
  ref : (k'.file f).ref = (k.file f).ref - 1
  nonneg : 0 ≤ (k'.file f).ref
  same : 1 ≤ (k'.file f).ref -> SameOpen (k.file f) (k'.file f)

theorem wp_sysClose (cur : Pslot) (fd : Option Int32) (k : Kernel) :
    wp (sysClose cur fd)
      (fun _ k' => (opened (k.proc cur) fd = none ∧ k' = k) ∨
        exists i f, opened (k.proc cur) fd = some (i, f) ∧ Closes cur i f k k')
      (fun _ => True) k := by
  unfold sysClose
  rw [argfd_eq, wp_bind, wp_gets]
  cases hopened : opened (k.proc cur) fd with
  | none => exact Or.inl ⟨rfl, rfl⟩
  | some r =>
      rcases r with ⟨i, f⟩
      unfold setOfile setProc
      simp only [wp_bind, wp_modify]
      apply wp_mono (wp_fileclose_file cur f _) ?_ (fun _ _ => trivial)
      rintro _ k' ⟨hprocs, fl, hfile, href, hfl, hsame⟩
      refine Or.inr ⟨i, f, rfl, hprocs, ?_, ?_, ?_, ?_⟩
      · intro f' hne
        rw [hfile, Function.update_of_ne hne]
      · rw [hfile, Function.update_self, href]
      · rw [hfile, Function.update_self]
        exact hfl
      · rw [hfile, Function.update_self]
        exact hsame

/-- What a step does to the open files: nothing is closed and a new descriptor
is one of an open file, or one descriptor is closed, or all those of a
process. -/
inductive FileStep (k : Kernel) : Act -> Kernel -> Prop where
  | grows {a : Act} {k' : Kernel} (hgrow : Grows k.file k'.file)
      (hentry : forall q fd f, Refers k' q fd f ->
        (exists q' fd', Refers k q' fd' f) ∨ 1 ≤ (k'.file f).ref) :
      FileStep k a k'
  | closed {cur : Pslot} {fd : Option Int32} {i : Fin NOFILE} {f : Fslot}
      {k' : Kernel} (hopened : opened (k.proc cur) fd = some (i, f))
      (h : Closes cur i f k k') : FileStep k (.call cur (.close fd)) k'
  | exited {cur : Pslot} {k' : Kernel} (hzero : k.numofthread = 0)
      (hentry : forall q fd f, Refers k' q fd f ->
        q ≠ cur ∧ Refers k q fd f)
      (href : forall f, (k'.file f).ref = (k.file f).ref -
        (held (k.proc cur).ofile (List.finRange NOFILE) f : Int))
      (hworn : Worn k.file k') : FileStep k (.exit cur) k'

section FileStep

variable {k k' : Kernel} {cur : Pslot}

theorem fileStep_adds {a : Act} (hown : Own cur k.procs k'.procs)
    (hgrow : Grows k.file k'.file)
    (hentry : forall fd f, (k'.proc cur).ofile fd = some f ->
      (k.proc cur).ofile fd = some f ∨ 1 ≤ (k'.file f).ref) :
    FileStep k a k' := by
  refine FileStep.grows hgrow ?_
  rintro q fd f ⟨halive, hofile⟩
  rcases eq_or_ne q cur with rfl | hne
  · have hstate : (k'.proc q).state = (k.proc q).state := by
      have heq : k'.proc q = _ := hown.slot.eq
      rw [heq]
      rfl
    rw [hstate] at halive
    rcases hentry fd f hofile with hold | hopen
    · exact Or.inl ⟨q, fd, halive, hold⟩
    · exact Or.inr hopen
  · have hsame : k'.proc q = k.proc q := hown.other q hne
    rw [hsame] at halive hofile
    exact Or.inl ⟨q, fd, halive, hofile⟩

theorem call_adds {c : FsCall} (hclose : forall fd, c ≠ .close fd)
    (hchdir : forall path, c ≠ .chdir path) (k : Kernel) :
    wp (c.run cur) (fun _ k' => Adds 0 cur k k') (fun _ => True) k := by
  have hkeeps : forall {m : KM Int}, Keeps entries m ->
      wp m (fun _ k' => Adds 0 cur k k') (fun _ => True) k :=
    fun hm => wp_post (hm k.entries k rfl) (fun _ _ h => adds_of_entries h)
  have hopens : forall {m : KM Int}, Keeps opens m ->
      wp m (fun _ k' => Adds 0 cur k k') (fun _ => True) k :=
    fun hm => hkeeps (keepsEntries_of_opens hm)
  cases c with
  | «open» path omode => exact adds_sysOpen path omode k
  | mkdir path | mknod path major minor | link old new | unlink path =>
      exact hopens (blind_opens.fsCall _)
  | chdir path => exact absurd rfl (hchdir path)
  | exec args => exact hkeeps (keepsEntries_sysExec args)
  | close fd => exact absurd rfl (hclose fd)
  | read fd n =>
      exact hopens (Turns.bind (blind_opens.sysRead fd n)
        (fun _ => keeps_pure _))
  | write fd src n => exact hopens (blind_opens.sysWrite fd src n)

theorem chdir_tables (path : Option (List UInt8)) (k : Kernel) :
    wp (sysChdir cur path)
      (fun _ k' => k'.file = k.file ∧ exists cwd,
        k'.procs = k.procs.set cur (fun pr => { pr with cwd := cwd }))
      (fun _ => True) k := by
  unfold sysChdir
  rw [wp_bind]
  apply wp_post (Turns.bind (keeps_pidOf cur) (fun _ =>
    Turns.bind (keeps_gets _) (fun _ => aside_tables.onFs _)) k.tables k rfl)
  intro r k1 h1
  have hfile : k1.file = k.file := congrArg Prod.fst h1
  have hprocs : k1.procs = k.procs := congrArg Prod.snd h1
  refine ⟨hfile, r.2, ?_⟩
  rw [← hprocs]
  rfl

inductive Handles (cur : Pslot) (k : Kernel) (a : Act) (k' : Kernel) :
    Prop where
  | adds (h : Adds 0 cur k k')
  | closes {fd : Option Int32} {i : Fin NOFILE} {f : Fslot}
      (ha : a = .call cur (.close fd))
      (hopened : opened (k.proc cur) fd = some (i, f))
      (h : Closes cur i f k k')
  | moves {path : Option (List UInt8)} {cwd : Option Slot}
      (ha : a = .call cur (.chdir path)) (hfile : k'.file = k.file)
      (hprocs : k'.procs = k.procs.set cur (fun pr => { pr with cwd := cwd }))

theorem step_handles {a : Act} (hstep : Step k a k') (hown : a.own)
    (hcur : a.caller = some cur) : Handles cur k a k' := by
  cases a with
  | call p c =>
      cases hcur
      rcases hstep.2 with ⟨r, hrun⟩
      have hadds : (forall fd, c ≠ .close fd) ->
          (forall path, c ≠ .chdir path) -> Handles cur k (.call cur c) k' := by
        intro hclose hchdir
        have hend := wp_ok (call_adds hclose hchdir k) hrun
        exact .adds hend
      cases c with
      | close fd =>
          rcases wp_ok (wp_sysClose cur fd k) hrun with
            ⟨_, rfl⟩ | ⟨i, f, hopened, hcloses⟩
          · exact .adds (adds_of_entries rfl)
          · exact .closes rfl hopened hcloses
      | chdir path =>
          rcases wp_ok (chdir_tables path k) hrun with ⟨hfile, cwd, hprocs⟩
          exact .moves rfl hfile hprocs
      | _ => exact hadds (fun _ h => by cases h) (fun _ h => by cases h)
  | dup p fd =>
      cases hcur
      rcases hstep.2 with ⟨r, hrun⟩
      have hend := wp_ok (adds_sysDup fd k) hrun
      exact .adds hend
  | pipe p ok =>
      cases hcur
      rcases pipe_of_step hstep with ⟨r, hrun⟩
      have hend := wp_ok (adds_sysPipe ok k) hrun
      exact .adds hend
  | sbrk p n =>
      cases hcur
      rcases hstep.2 with ⟨r, hrun⟩
      have hentries := wp_ok (keepsEntries_sysSbrk n k.entries k rfl) hrun
      exact .adds (adds_of_entries hentries)
  | _ => cases hown

theorem proc_of_set {p : Pslot} {g : Proc -> Proc}
    (h : k'.procs = k.procs.set p g) : k'.proc p = g (k.proc p) :=
  (congrArg (fun t => Procs.proc t p) h).trans (Procs.set_self ..)

theorem Handles.cwd {a : Act} (h : Handles cur k a k') :
    (k'.proc cur).cwd = (k.proc cur).cwd ∨
      exists path, a = .call cur (.chdir path) := by
  cases h with
  | adds h => exact Or.inl h.cwd
  | closes _ _ h =>
      rw [proc_of_set h.procs]
      exact Or.inl rfl
  | moves ha => exact Or.inr ⟨_, ha⟩

theorem grows_fork (hcur : (k.proc cur).state ≠ .UNUSED) :
    wp (fork cur) (fun _ k' => Grows k.file k'.file) (fun _ => True) k := by
  apply wp_post (wp_forks hcur)
  intro r k' h
  cases h with
  | done s p x d cwd =>
      intro f
      refine ⟨fun _ => ?_, fun _ => rfl⟩
      show (k.file f).ref ≤ (k.file f).ref + (held _ _ f : Int)
      lia
  | _ => exact Grows.refl _

theorem fileStep {a : Act}
    (hnonneg : forall f, 0 ≤ (k.file f).ref) (hspares : Spares k a)
    (hstep : Step k a k') : FileStep k a k' := by
  -- a step that is not a call on the own slot
  have hother : ¬ a.own -> Grows k.file k'.file -> FileStep k a k' := by
    intro hown hgrow
    refine FileStep.grows hgrow ?_
    rintro q fd f ⟨halive, hofile⟩
    rcases step_stays hstep hown q with hstays | ⟨cur, hmakes, hchild⟩
    · rcases hstays halive with ⟨hold, heq, _⟩
      refine Or.inl ⟨q, fd, hold, ?_⟩
      rw [← show (k'.proc q).ofile = (k.proc q).ofile from heq]
      exact hofile
    · have hcur : (k.proc cur).state = .RUNNING := by
        apply hstep.1.1
        rcases hmakes with rfl | ⟨stack, rfl⟩
        · rfl
        · rfl
      have halive' : Alive (k.proc cur).state := by
        rw [hcur]
        decide
      have hfd : (k'.proc q).ofile fd =
          ((k.proc cur).ofile fd).or ((k.proc q).ofile fd) := hchild.ofile fd
      rw [hofile] at hfd
      cases hparent : (k.proc cur).ofile fd with
      | some f' =>
          rw [hparent] at hfd
          cases hfd
          exact Or.inl ⟨cur, fd, halive', hparent⟩
      | none =>
          rw [hparent, hspares.slot cur q hmakes hchild.free hchild.first fd
            hparent] at hfd
          cases hfd
  have hsame : ¬ a.filing -> Grows k.file k'.file := by
    intro ha
    rw [show k'.file = k.file from congrArg Prod.fst (stores_of_step hstep ha)]
    exact Grows.refl _
  have hcall : forall {cur : Pslot}, a.own -> a.caller = some cur ->
      FileStep k a k' := by
    intro cur hown hcur
    have hadds := fun hgrow hentry =>
      fileStep_adds (a := a) (own_of_step hstep hown hcur) hgrow hentry
    cases step_handles hstep hown hcur with
    | adds h => exact hadds h.file h.entry
    | closes ha hopened h =>
        subst ha
        exact FileStep.closed hopened h
    | moves ha hfile hprocs =>
        apply hadds
        · rw [hfile]
          exact Grows.refl _
        · intro fd f hf
          rw [proc_of_set hprocs] at hf
          exact Or.inl hf
  cases a with
  | fork cur =>
      rcases hstep.2 with ⟨r, hrun⟩
      have hgrow := wp_ok (grows_fork (caller_used hstep rfl)) hrun
      exact hother not_false hgrow
  | exit cur =>
      have hexit := exit_of_step hstep
      have heffect := (sees_exit cur k.procs).ok hexit
      rcases Decidable.em (k.numofthread = 0) with hzero | hthreads
      · refine FileStep.exited hzero ?_ ?_ ?_
        · rintro q fd f ⟨halive, hofile⟩
          rcases exit_stays (q := q) heffect halive with ⟨hold, heq, _⟩
          refine ⟨exit_alive_ne heffect halive, hold, ?_⟩
          rw [← show (k'.proc q).ofile = (k.proc q).ofile from heq]
          exact hofile
        · exact (wp_ok (wp_exit_closed hzero) hexit).1
        · exact (wp_ok (wp_exit_closed hzero) hexit).2 hnonneg
      · rcases exit_left (exit_not_init heffect) hthreads with
          ⟨k1, _, hrun, hfile, _⟩
        cases hexit.symm.trans hrun
        apply hother not_false
        rw [hfile]
        exact Grows.refl _
  | call cur _ | dup cur _ | pipe cur _ | sbrk cur _ =>
      exact hcall trivial rfl
  | _ => exact hother not_false (hsame not_false)

theorem fileStep_nonneg {a : Act} (h : FileStep k a k')
    (hnonneg : forall f, 0 ≤ (k.file f).ref) (f : Fslot) :
    0 ≤ (k'.file f).ref := by
  cases h with
  | grows hgrow => exact (hnonneg f).trans ((hgrow f).ref (hnonneg f))
  | @closed cur fd i f' _ hopened hcloses =>
      rcases eq_or_ne f f' with rfl | hne
      · exact hcloses.nonneg
      · rw [hcloses.other f hne]
        exact hnonneg f
  | exited hzero hentry href hworn => exact (hworn f).1

theorem opened_ofile {pr : Proc} {fd : Option Int32} {i : Fin NOFILE}
    {f : Fslot} (h : opened pr fd = some (i, f)) : pr.ofile i = some f := by
  cases fd with
  | none => cases h
  | some fd =>
      simp only [opened] at h
      split at h
      · rcases Option.map_eq_some_iff.mp h with ⟨f', hf', heq⟩
        cases heq
        exact hf'
      · cases h

theorem two_le_descriptors {f : Fslot} {x y : Pslot × Fin NOFILE}
    (hx : Refers k x.1 x.2 f) (hy : Refers k y.1 y.2 f) (hne : x ≠ y) :
    2 ≤ (descriptors k f).card :=
  Finset.one_lt_card.mpr
    ⟨x, mem_descriptors.mpr hx, y, mem_descriptors.mpr hy, hne⟩

theorem held_lt_descriptors {f : Fslot} {q : Pslot} {fd : Fin NOFILE}
    (hcur : Alive (k.proc cur).state) (hq : q ≠ cur) (h : Refers k q fd f) :
    held (k.proc cur).ofile (List.finRange NOFILE) f <
      (descriptors k f).card := by
  have hmine : ((List.finRange NOFILE).filter
      (fun fd => (k.proc cur).ofile fd = some f)).toFinset.card =
        held (k.proc cur).ofile (List.finRange NOFILE) f := by
    rw [List.toFinset_card_of_nodup ((List.nodup_finRange NOFILE).filter _),
      held, List.countP_eq_length_filter]
  have hinj : Function.Injective (fun fd : Fin NOFILE => (cur, fd)) :=
    fun _ _ heq => (Prod.mk.inj heq).2
  have hsub : ((List.finRange NOFILE).filter
      (fun fd => (k.proc cur).ofile fd = some f)).toFinset.image
        (fun fd => (cur, fd)) ⊆ descriptors k f := by
    intro x hx
    rcases Finset.mem_image.mp hx with ⟨fd', hfd', rfl⟩
    have hfilter := (List.mem_filter.mp (List.mem_toFinset.mp hfd')).2
    exact mem_descriptors.mpr ⟨hcur, of_decide_eq_true hfilter⟩
  have hnot : (q, fd) ∉ ((List.finRange NOFILE).filter
      (fun fd => (k.proc cur).ofile fd = some f)).toFinset.image
        (fun fd => (cur, fd)) := by
    intro hmem
    rcases Finset.mem_image.mp hmem with ⟨_, _, heq⟩
    exact hq (Prod.mk.inj heq).1.symm
  rw [← hmine, ← Finset.card_image_of_injective _ hinj]
  exact Finset.card_lt_card ((Finset.ssubset_iff_of_subset hsub).mpr
    ⟨(q, fd), mem_descriptors.mpr h, hnot⟩)

theorem fileStep_refers {a : Act} (h : FileStep k a k') (hdead : NoneDead k)
    (hspares : Spares k a)
    (hcaller : forall cur, a.caller = some cur -> Alive (k.proc cur).state)
    {q : Pslot} {fd : Fin NOFILE} {f : Fslot} (hq : Refers k' q fd f) :
    1 ≤ (k'.file f).ref ∧
      forall q' fd', Refers k q' fd' f -> SameOpen (k.file f) (k'.file f) := by
  cases h with
  | grows hgrow hentry =>
      refine ⟨?_, fun q' fd' h' => (hgrow f).same (hdead.file q' fd' f h')⟩
      rcases hentry q fd f hq with ⟨q', fd', hold⟩ | hopen
      · exact hgrow.open (hdead.file q' fd' f hold)
      · exact hopen
  | @closed cur arg i f' _ hopened hcloses =>
      have hslot : forall p, k'.proc p = (k.procs.set cur (fun pr =>
          { pr with ofile := Function.update pr.ofile i none })).proc p :=
        fun p => congrArg (fun t => Procs.proc t p) hcloses.procs
      -- the descriptor is not the closed one
      have hold : Refers k q fd f ∧ (q, fd) ≠ (cur, i) := by
        rcases hq with ⟨halive, hofile⟩
        rw [hslot q] at halive hofile
        rcases eq_or_ne q cur with rfl | hne
        · rw [Procs.set_self] at halive hofile
          have hfd : fd ≠ i := by
            rintro rfl
            simp at hofile
          simp only [Function.update_of_ne hfd] at hofile
          exact ⟨⟨halive, hofile⟩, fun heq => hfd (Prod.mk.inj heq).2⟩
        · rw [Procs.set_of_ne _ hne] at halive hofile
          exact ⟨⟨halive, hofile⟩, fun heq => hne (Prod.mk.inj heq).1⟩
      rcases eq_or_ne f f' with rfl | hne
      · have hcount := hspares.file f ⟨i, hopened⟩
        have htwo := two_le_descriptors (y := (cur, i)) hold.1
          ⟨hcaller cur rfl, opened_ofile hopened⟩ hold.2
        have href := hcloses.ref
        have hone : 1 ≤ (k'.file f).ref := by lia
        exact ⟨hone, fun _ _ _ => hcloses.same hone⟩
      · rw [hcloses.other f hne]
        exact ⟨hdead.file q fd f hold.1, fun _ _ _ => rfl⟩
  | @exited cur _ hzero hentry href hworn =>
      rcases hentry q fd f hq with ⟨hne, hold⟩
      have hlt := held_lt_descriptors (hcaller cur rfl) hne hold
      have hone : 1 ≤ (k'.file f).ref := by
        have hf := href f
        rcases Nat.eq_zero_or_pos
          (held (k.proc cur).ofile (List.finRange NOFILE) f) with
          hnone | hsome
        · have hopen := hdead.file q fd f hold
          lia
        · rcases List.countP_pos_iff.mp hsome with ⟨fd', _, hfd'⟩
          have hcount := hspares.file f ⟨hzero, fd', of_decide_eq_true hfd'⟩
          lia
      exact ⟨hone, fun _ _ _ => (hworn f).2 hone⟩

end FileStep

/-!
## Directories
-/

section Directories

variable {k k' : Kernel} {cur : Pslot} {jp : Slot}

theorem fileRefers_same {fl fl' : File} (h : SameOpen fl fl') :
    fileRefers jp fl' = fileRefers jp fl := by
  rw [h]
  rfl

theorem fileRefers_eq_zero {fl : File}
    (h : ¬ (fl.type = .FD_INODE ∧ fl.ip = jp)) : fileRefers jp fl = 0 :=
  if_neg h

theorem open_of_inode (hfree : k.FreeNone) {f : Fslot}
    (hnonneg : 0 ≤ (k.file f).ref) (h : (k.file f).type = .FD_INODE) :
    1 ≤ (k.file f).ref := by
  have hne : (k.file f).ref ≠ 0 := by
    intro hzero
    rw [hfree f hzero] at h
    cases h
  lia

theorem fileRefers_le (hfree : k.FreeNone) {f : Fslot}
    (hnonneg : 0 ≤ (k.file f).ref)
    (h : 1 ≤ (k.file f).ref -> SameOpen (k.file f) (k'.file f)) :
    fileRefers jp (k.file f) ≤ fileRefers jp (k'.file f) := by
  rcases Decidable.em ((k.file f).type = .FD_INODE ∧ (k.file f).ip = jp) with
    hrefers | hnot
  · rw [fileRefers_same (h (open_of_inode hfree hnonneg hrefers.1))]
  · rw [fileRefers_eq_zero hnot]
    exact Nat.zero_le _

theorem ref_of_balanced (hbal : Balanced k k')
    (hfile : forall f, fileRefers jp (k.file f) ≤ fileRefers jp (k'.file f))
    (hcwd : forall p, cwdRefers jp (k.proc p) ≤ cwdRefers jp (k'.proc p)) :
    (k.fs.icache jp).ref ≤ (k'.fs.icache jp).ref := by
  have hfiles := Finset.sum_le_sum (fun f (_ : f ∈ Finset.univ) => hfile f)
  have hcwds := Finset.sum_le_sum (fun p (_ : p ∈ Finset.univ) => hcwd p)
  have href := hbal.ref jp
  unfold refCount at href
  lia

/-- If the inode counts its users, then a live process that stays in the
directory still has a reference, whichever files are closed and even if `cur`
leaves. -/
theorem ref_of_counted (hbal : Balanced k k')
    (hcount : (inodeUsers k jp : Int) ≤ (k.fs.icache jp).ref)
    (hcwd : forall p, p ≠ cur ->
      cwdRefers jp (k.proc p) ≤ cwdRefers jp (k'.proc p))
    (hcur : Alive (k.proc cur).state) {q : Pslot} (hq : WorksIn k q jp)
    (hstays : q = cur -> (k'.proc cur).cwd = some jp) :
    1 ≤ (k'.fs.icache jp).ref := by
  -- the workers are the one that stays, and `cur` if it leaves
  have hworkers : 1 + cwdRefers jp (k.proc cur) ≤
      (workers k jp).card + cwdRefers jp (k'.proc cur) := by
    have hone : 1 ≤ (workers k jp).card :=
      Finset.card_pos.mpr ⟨q, mem_workers.mpr hq⟩
    rcases eq_or_ne q cur with rfl | hne
    · have hnew : cwdRefers jp (k'.proc q) = 1 := if_pos (hstays rfl)
      have hold : cwdRefers jp (k.proc q) = 1 := if_pos hq.2
      lia
    · rcases Decidable.em ((k.proc cur).cwd = some jp) with hcwd | hcwd
      · have hold : cwdRefers jp (k.proc cur) = 1 := if_pos hcwd
        have htwo : 1 < (workers k jp).card := Finset.one_lt_card.mpr
          ⟨q, mem_workers.mpr hq, cur, mem_workers.mpr ⟨hcur, hcwd⟩, hne⟩
        lia
      · have hold : cwdRefers jp (k.proc cur) = 0 := if_neg hcwd
        lia
  have hcwds := Finset.sum_le_sum
    (fun p (hp : p ∈ Finset.univ.erase cur) => hcwd p (Finset.ne_of_mem_erase hp))
  have hsum := Finset.add_sum_erase Finset.univ
    (fun p => cwdRefers jp (k.proc p)) (Finset.mem_univ cur)
  have hsum' := Finset.add_sum_erase Finset.univ
    (fun p => cwdRefers jp (k'.proc p)) (Finset.mem_univ cur)
  have href := hbal.ref jp
  unfold refCount at href
  unfold inodeUsers at hcount
  rw [← hsum, ← hsum'] at href
  lia

theorem fileStep_same {a : Act} (h : FileStep k a k') {f : Fslot}
    (hgives : ¬ Gives k a f) (hopen : 1 ≤ (k.file f).ref) :
    SameOpen (k.file f) (k'.file f) := by
  cases h with
  | grows hgrow => exact (hgrow f).same hopen
  | @closed cur fd i f' _ hopened hcloses =>
      have hne : f ≠ f' := by
        rintro rfl
        exact hgives ⟨i, hopened⟩
      rw [hcloses.other f hne]
      exact SameOpen.refl _
  | @exited cur _ hzero hentry href hworn =>
      have hnone : held (k.proc cur).ofile (List.finRange NOFILE) f = 0 := by
        apply List.countP_eq_zero.mpr
        intro fd _ hfd
        exact hgives ⟨hzero, fd, of_decide_eq_true hfd⟩
      have hf := href f
      exact (hworn f).2 (by lia)

theorem worksIn_balanced {a : Act} (h : FileStep k a k')
    (hdead : NoneDead k) (hfree : k.FreeNone)
    (hnonneg : forall f, 0 ≤ (k.file f).ref) (hspares : Spares k a)
    (hbal : Balanced k k') (hcur : Alive (k.proc cur).state)
    (hother : forall p, p ≠ cur -> (k'.proc p).cwd = (k.proc p).cwd)
    (hleaves : (k'.proc cur).cwd ≠ (k.proc cur).cwd ->
      forall jp, (k.proc cur).cwd = some jp -> Leaves k a jp)
    {q : Pslot} (hq : WorksIn k q jp)
    (hstays : q = cur -> (k'.proc cur).cwd = some jp) :
    1 ≤ (k'.fs.icache jp).ref := by
  have hcwd : forall p, p ≠ cur ->
      cwdRefers jp (k.proc p) ≤ cwdRefers jp (k'.proc p) := by
    intro p hp
    unfold cwdRefers
    rw [hother p hp]
  rcases Classical.em (Leaves k a jp) with hleave | hleave
  · exact ref_of_counted hbal (hspares.cwd jp hleave) hcwd hcur hq hstays
  rcases Classical.em (exists f, Gives k a f ∧ (k.file f).type = .FD_INODE ∧
    (k.file f).ip = jp) with ⟨f, hgives, htype, rfl⟩ | hgives
  · exact ref_of_counted hbal (hspares.inode f hgives htype) hcwd hcur hq hstays
  -- nothing of the inode is given up
  refine (hdead.cwd q jp hq).trans (ref_of_balanced hbal ?_ ?_)
  · intro f
    rcases Classical.em (Gives k a f) with hf | hf
    · rw [fileRefers_eq_zero (fun hrefers => hgives ⟨f, hf, hrefers⟩)]
      exact Nat.zero_le _
    · exact fileRefers_le hfree (hnonneg f) (fileStep_same h hf)
  · intro p
    rcases eq_or_ne p cur with rfl | hp
    · rcases Decidable.em ((k'.proc p).cwd = (k.proc p).cwd) with hsame | hnew
      · unfold cwdRefers
        rw [hsame]
      · have hzero : cwdRefers jp (k.proc p) = 0 :=
          if_neg (fun hold => hleave (hleaves hnew jp hold))
        rw [hzero]
        exact Nat.zero_le _
    · exact hcwd p hp

theorem chdir_ref (pid : Int32) (cwd : Slot) (path : Option (List UInt8))
    (s : Fs) :
    wp (Fs.sysChdir pid (some cwd) path)
      (fun r s' => forall ip, r.2 = some ip -> ip ≠ cwd ->
        1 ≤ (s'.icache ip).ref) (fun _ => True) s := by
  have hend : forall (n : Int) (s : Fs),
      wp (Fs.endWith (n, some cwd))
        (fun r s' => forall ip, r.2 = some ip -> ip ≠ cwd ->
          1 ≤ (s'.icache ip).ref) (fun _ => True) s := by
    intro n s
    apply wp_bind_trivial
    rintro _ s' ip ⟨⟩ hne
    exact absurd rfl hne
  apply wp_bind_trivial
  intro _ s
  cases path with
  | none => exact hend _ s
  | some path =>
      apply wp_bind_trivial
      intro ip s
      cases ip with
      | none => exact hend _ s
      | some ip =>
          apply wp_bind_trivial
          intro _ s
          apply wp_bind_trivial
          intro i s
          rw [wp_ite]
          constructor
          · intro _
            apply wp_bind_trivial
            exact fun _ s => hend _ s
          · intro _
            unfold Fs.iunlock Fs.inode
            simp only [wp_bind, wp_gets]
            rw [wp_ite]
            refine ⟨fun _ => trivial, fun hlocked => ?_⟩
            have hone : 1 ≤ (s.icache ip).ref := by
              have hnot := (not_or.mp hlocked).2
              lia
            unfold Fs.releasesleep Fs.setInode
            rw [wp_modify]
            generalize hs1 : ({ s with icache := _ } : Fs) = s1
            have hone1 : 1 ≤ (s1.icache ip).ref := by
              rw [← hs1]
              simpa using hone
            have hputs := Turns.bind (Fs.turns_iput 0 0 1 cwd)
              (fun _ => Fs.turns_endWith 0 0 0 ((0 : Int), some ip)) _ s1
              (Fs.holds_of pid (cwd ::ₘ 0) 1 s1)
            unfold Fs.endWith at hputs ⊢
            simp only [wp_bind] at hputs ⊢
            apply wp_post hputs
            intro _ s2 h2
            apply wp_post h2
            rintro _ s3 h3 _ ⟨⟩ hne
            have hkept := Fs.Holds.ref h3 ip
            have hnot : Multiset.count ip (cwd ::ₘ 0) = 0 := by
              rw [Multiset.count_cons_of_ne hne, Multiset.count_zero]
            simp only [hnot, Multiset.count_zero] at hkept
            lia

theorem wp_sysChdir_cwd {cwd : Slot} (hcwd : (k.proc cur).cwd = some cwd)
    (path : Option (List UInt8)) :
    wp (sysChdir cur path)
      (fun _ k' => forall jp, (k'.proc cur).cwd = some jp -> jp ≠ cwd ->
        1 ≤ (k'.fs.icache jp).ref) (fun _ => True) k := by
  unfold sysChdir fsCall pidOf cwdOf onFs
  simp only [wp_bind, wp_gets, wp_zoom]
  rw [hcwd]
  apply wp_post (chdir_ref (k.proc cur).pid cwd path k.fs)
  intro r s hr jp hjp
  apply hr jp
  rw [← hjp]
  show r.2 = (Function.update k.proc cur { k.proc cur with cwd := r.2 } cur).cwd
  rw [Function.update_self]

theorem refs_fork (hcur : (k.proc cur).state ≠ .UNUSED) :
    wp (fork cur)
      (fun _ k' => forall jp, (k.fs.icache jp).ref ≤ (k'.fs.icache jp).ref)
      (fun _ => True) k := by
  apply wp_post (wp_forks hcur)
  intro r k' h
  cases h with
  | done s p x d cwd =>
      intro jp
      show _ ≤ (Function.update k.fs.icache cwd _ jp).ref
      rcases eq_or_ne jp cwd with rfl | hne
      · rw [Function.update_self]
        show (k.fs.icache jp).ref ≤ (k.fs.icache jp).ref + 1
        lia
      · rw [Function.update_of_ne hne]
  | _ => exact fun _ => le_rfl

end Directories

/-!
## Runs
-/

/-- What every step keeps, if it spares what others have. -/
structure Kept (k : Kernel) : Prop where
  dead : NoneDead k
  free : k.FreeNone
  nonneg : forall f, 0 ≤ (k.file f).ref
  live : LiveCwd k

section Step

variable {k k' : Kernel} {a : Act}

theorem worksIn_own (hkept : Kept k) (hspares : Spares k a)
    (hstep : Step k a k') (hown : a.own) {cur : Pslot}
    (hcur : a.caller = some cur) (hbal : Balanced k k')
    {q : Pslot} {jp : Slot} (hq : WorksIn k' q jp) :
    1 ≤ (k'.fs.icache jp).ref := by
  have hfiles := fileStep hkept.nonneg hspares hstep
  have hcwd := (step_handles hstep hown hcur).cwd
  have halive := caller_alive hstep hcur
  have hslot : forall p, p ≠ cur -> k'.proc p = k.proc p :=
    fun p hp => (own_of_step hstep hown hcur).other p hp
  have hstays : WorksIn k q jp -> 1 ≤ (k'.fs.icache jp).ref := by
    intro hold
    apply worksIn_balanced hfiles hkept.dead hkept.free hkept.nonneg hspares
      hbal halive ?_ ?_ hold
    · rintro rfl
      exact hq.2
    · intro p hp
      rw [hslot p hp]
    · intro hnew jp hjp
      rcases hcwd with hsame | ⟨path, rfl⟩
      · exact absurd hsame hnew
      · exact hjp
  rcases eq_or_ne q cur with rfl | hne
  · rcases Decidable.em ((k.proc q).cwd = some jp) with hold | hnew
    · exact hstays ⟨halive, hold⟩
    · rcases hcwd with hsame | ⟨path, rfl⟩
      · exact absurd (hsame.symm.trans hq.2) hnew
      · have hsome : (k.proc q).cwd ≠ none := by
          apply hkept.live q
          rw [hstep.1.1 q rfl]
          decide
        rcases Option.ne_none_iff_exists'.mp hsome with ⟨cwd, hcwd⟩
        rcases hstep with ⟨_, r, hrun⟩
        apply wp_ok (wp_sysChdir_cwd hcwd path) hrun jp hq.2
        rintro rfl
        exact hnew hcwd
  · apply hstays
    unfold WorksIn
    rw [← hslot q hne]
    exact hq

theorem worksIn_exit {cur : Pslot} (hkept : Kept k)
    (hspares : Spares k (.exit cur)) (hstep : Step k (.exit cur) k')
    {q : Pslot} {jp : Slot} (hq : WorksIn k' q jp) :
    1 ≤ (k'.fs.icache jp).ref := by
  have hexit := exit_of_step hstep
  have heffect := (sees_exit cur k.procs).ok hexit
  rcases exit_stays (q := q) heffect hq.1 with ⟨hold, _, heq⟩
  have hne : q ≠ cur := exit_alive_ne heffect hq.1
  have hworks : WorksIn k q jp := ⟨hold, heq.symm.trans hq.2⟩
  apply worksIn_balanced (fileStep hkept.nonneg hspares hstep)
    hkept.dead hkept.free hkept.nonneg hspares
    (balanced_of_turns turns_exit hkept.free hexit).1
    (caller_alive hstep rfl) ?_ ?_ hworks (fun h => absurd h hne)
  · exact fun p hp => exit_other_cwd heffect hp
  · intro hnew jp hjp
    rcases exit_cwd heffect with hzero | hsame
    · exact ⟨hzero, hjp⟩
    · exact absurd hsame hnew

theorem worksIn_step (hkept : Kept k) (hspares : Spares k a)
    (hstep : Step k a k') {q : Pslot} {jp : Slot} (hq : WorksIn k' q jp) :
    1 ≤ (k'.fs.icache jp).ref := by
  -- a child or a thread works where its parent does
  have hother : ¬ a.own -> exists q', WorksIn k q' jp := by
    intro ha
    rcases hq with ⟨halive, hcwd⟩
    rcases step_stays hstep ha q with hstays | ⟨cur, hmakes, hchild⟩
    · rcases hstays halive with ⟨hold, _, heq⟩
      exact ⟨q, hold, heq.symm.trans hcwd⟩
    · have hcur : a.caller = some cur := by
        rcases hmakes with rfl | ⟨stack, rfl⟩
        · rfl
        · rfl
      exact ⟨cur, caller_alive hstep hcur, hchild.cwd.symm.trans hcwd⟩
  have hsame : ¬ a.filing -> k'.fs = k.fs :=
    fun ha => congrArg Prod.snd (stores_of_step hstep ha)
  cases a with
  | fork cur =>
      rcases hother not_false with ⟨q', hold⟩
      rcases hstep.2 with ⟨r, hrun⟩
      have hmore := wp_ok (refs_fork (caller_used hstep rfl)) hrun jp
      exact (hkept.dead.cwd q' jp hold).trans hmore
  | exit cur => exact worksIn_exit hkept hspares hstep hq
  | call cur c =>
      rcases hstep.2 with ⟨r, hrun⟩
      exact worksIn_own hkept hspares hstep trivial rfl
        (balanced_of_turns (turns_run cur _ c) hkept.free hrun).1 hq
  | dup cur fd =>
      rcases hstep.2 with ⟨r, hrun⟩
      exact worksIn_own hkept hspares hstep trivial rfl
        (balanced_of_turns (turns_sysDup fd) hkept.free hrun).1 hq
  | pipe cur ok =>
      rcases pipe_of_step hstep with ⟨r, hrun⟩
      exact worksIn_own hkept hspares hstep trivial rfl
        (balanced_of_turns (turns_sysPipe ok) hkept.free hrun).1 hq
  | sbrk cur n =>
      have hcwd : (k'.proc cur).cwd = (k.proc cur).cwd := by
        rcases (step_handles hstep trivial rfl).cwd with hcwd | ⟨_, ha⟩
        · exact hcwd
        · cases ha
      have hown : Own cur k.procs k'.procs := own_of_step hstep trivial rfl
      rw [hsame not_false]
      apply hkept.dead.cwd q jp
      rcases eq_or_ne q cur with rfl | hne
      · exact ⟨caller_alive hstep rfl, hcwd.symm.trans hq.2⟩
      · unfold WorksIn
        rw [← show k'.proc q = k.proc q from hown.other q hne]
        exact hq
  | _ =>
      rcases hother not_false with ⟨q', hold⟩
      rw [hsame not_false]
      exact hkept.dead.cwd q' jp hold

theorem kept_step (hkept : Kept k) (hspares : Spares k a)
    (hstep : Step k a k') : Kept k' := by
  have hfiles := fileStep hkept.nonneg hspares hstep
  refine ⟨⟨?_, ?_⟩, ?_, ?_, ?_⟩
  · intro q fd f hq
    exact (fileStep_refers hfiles hkept.dead hspares
      (fun _ hcur => caller_alive hstep hcur) hq).1
  · exact fun q jp hq => worksIn_step hkept hspares hstep hq
  · exact freeNone_step hkept.free hstep
  · exact fileStep_nonneg hfiles hkept.nonneg
  · exact liveCwd_step hkept.live hstep

end Step

/-- The state after `userinit`, in which the directory of `init` counts it. -/
structure Started (k : Kernel) : Prop extends Booted k where
  cwd : forall jp, (k.proc k.initproc).cwd = some jp ->
    1 ≤ (k.fs.icache jp).ref

theorem started_kept {k : Kernel} (h : Started k) : Kept k := by
  have hinit : forall q, Alive (k.proc q).state -> q = k.initproc := by
    intro q halive
    apply of_not_not
    intro hne
    rw [h.other q hne] at halive
    exact absurd halive (by decide)
  refine ⟨⟨?_, ?_⟩, ?_, ?_, booted_liveCwd h.toBooted⟩
  · rintro q fd f ⟨halive, hofile⟩
    rcases h.init with ⟨_, _, _, _, _, hproc⟩
    rw [hinit q halive, hproc] at hofile
    cases hofile
  · rintro q jp ⟨halive, hcwd⟩
    rw [hinit q halive] at hcwd
    exact h.cwd jp hcwd
  · exact fun f _ => (h.file f).2
  · exact fun f => (h.file f).1.ge

theorem boot_started : Started boot := by
  refine ⟨boot_booted, fun jp hjp => ?_⟩
  cases hjp
  decide

/-- In every run that spares what others have, every file and directory of a
live process is there, and a file that it has open never becomes another one
while it keeps the descriptor. -/
theorem live_descriptors {k₀ k : Kernel} (hstart : Started k₀)
    (hruns : Runs Step Spares k₀ k) :
    NoneDead k ∧
      forall q fd f k', Runs Step (fun k a => Spares k a ∧ Refers k q fd f) k k' ->
        Refers k' q fd f ->
          1 ≤ (k'.file f).ref ∧ SameOpen (k.file f) (k'.file f) := by
  have hkept : Kept k :=
    hruns.invariant (started_kept hstart)
      (fun _ _ _ h hspares hstep => kept_step h hspares hstep)
  refine ⟨hkept.dead, fun q fd f k' hruns' hrefers => ?_⟩
  have hend : Kept k' ∧ (Refers k' q fd f ->
      SameOpen (k.file f) (k'.file f)) := by
    apply hruns'.invariant
      (I := fun k1 => Kept k1 ∧ (Refers k1 q fd f ->
        SameOpen (k.file f) (k1.file f))) ⟨hkept, fun _ => SameOpen.refl _⟩
    rintro k1 a k2 ⟨h1, hsame⟩ ⟨hspares, hrefers1⟩ hstep
    refine ⟨kept_step h1 hspares hstep, fun hrefers2 => ?_⟩
    have hfiles := fileStep h1.nonneg hspares hstep
    exact (hsame hrefers1).trans
      ((fileStep_refers hfiles h1.dead hspares
        (fun _ hcur => caller_alive hstep hcur) hrefers2).2 q fd hrefers1)
  exact ⟨hend.1.dead.file q fd f hrefers, hend.2 hrefers⟩

def pipeOpen : Kernel := next (.pipe 0 true) boot

theorem pipeOpen_step : Step boot (.pipe 0 true) pipeOpen :=
  step_next (r := 0) (enabled_call rfl rfl) (by decide +kernel)

theorem live_descriptors_thread :
    exists k, Started boot ∧ Runs Step Spares boot k ∧ Refers k 1 0 0 ∧
      NoneDead k := by
  have hpipe : Runs Step Spares boot pipeOpen := by
    refine Runs.refl.tail (.pipe 0 true) ⟨?_, ?_, ?_, ?_⟩ pipeOpen_step
    · exact fun _ h => h.elim
    · exact fun _ h => h.elim
    · exact fun _ h => h.elim
    · rintro cur p (h | ⟨_, h⟩)
      · cases h
      · cases h
  have hclone : Runs Step Spares boot (next (.clone 0 2048) pipeOpen) := by
    refine hpipe.tail (.clone 0 2048) ⟨?_, ?_, ?_, ?_⟩
      (step_next (r := 2) (enabled_call rfl (by decide +kernel))
        (by decide +kernel))
    · exact fun _ h => h.elim
    · exact fun _ h => h.elim
    · exact fun _ h => h.elim
    · rintro cur p (h | ⟨_, h⟩)
      · cases h
      · intro hfree _ fd _
        have hslots : forall p, p ≠ 0 -> forall fd,
            (pipeOpen.proc p).ofile fd = none := by
          decide +kernel
        apply hslots p
        rintro rfl
        have hrunning : (pipeOpen.proc 0).state = .RUNNING := by
          decide +kernel
        rw [hrunning] at hfree
        cases hfree
  exact ⟨_, boot_started, hclone, by decide +kernel,
    (live_descriptors boot_started hclone).1⟩

/-- The thread of `init` closes the read end of the pipe. -/
def closedByThread : Kernel :=
  play [.clone 0 2048, .dispatch 1, .call 1 (.close (some 0))] pipeOpen

/-- It then opens another pipe. -/
def openedByThread : Kernel := next (.pipe 1 true) closedByThread

/-- The descriptor of `init` refers to a file without references, and then to
another pipe. -/
theorem thread_closes_descriptor_of_parent :
    Started boot ∧ Runs Step Called boot closedByThread ∧
      Refers closedByThread 0 0 0 ∧ (closedByThread.file 0).ref = 0 ∧
        Step closedByThread (.pipe 1 true) openedByThread ∧
          Refers openedByThread 0 0 0 ∧
            ¬ SameOpen (pipeOpen.file 0) (openedByThread.file 0) := by
  have hpipe : Runs Step Called boot pipeOpen :=
    Runs.refl.tail (.pipe 0 true) (fun _ _ => Act.noConfusion) pipeOpen_step
  refine ⟨boot_started, runs_play hpipe (by decide +kernel), by decide +kernel,
    by decide +kernel, ?_, by decide +kernel, ?_⟩
  · exact step_next (r := 0) (enabled_call rfl (by decide +kernel))
      (by decide +kernel)
  · intro hsame
    have hpage : (openedByThread.file 0).pipe = (pipeOpen.file 0).pipe :=
      congrArg File.pipe hsame
    exact absurd hpage (by decide +kernel)

end Kernel
end Xv6
