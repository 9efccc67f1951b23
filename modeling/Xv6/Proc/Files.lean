import Xv6.Proc.Spawn
import Xv6.Fs.Stops

/-!
# Files under the calls

How the calls treat the file table.  Closing a file takes one reference from
it; a pipe, a `dup` and the end of a process keep the inode references in
balance; and a file structure without references never has a type.
-/

namespace Xv6
namespace Kernel

open Lib Lib.Run

/-!
## How giving up a reference can stop
-/

/-- Neither the panic of `fileclose` nor a null pointer. -/
def Releasing (e : Stop) : Prop := e ≠ .panic "fileclose" ∧ e ≠ .nullDeref

instance : DecidablePred Releasing :=
  fun e => inferInstanceAs (Decidable (e ≠ .panic "fileclose" ∧ e ≠ .nullDeref))

section Stops

theorem Releasing.of_stops {e : Stop} (h : Fs.Stops e) : Releasing e := by
  rcases h with rfl | rfl | ⟨msg, hmsg, rfl⟩
  · decide
  · decide
  · refine ⟨?_, Stop.noConfusion⟩
    rintro ⟨⟩
    exact absurd hmsg (by decide)

theorem stops_kfree (pa : UInt32) : StopsIn Releasing (Vm.kfree pa) :=
  StopsIn.bind (StopsIn.gets _) (fun _ =>
    StopsIn.ite (StopsIn.stop (by decide))
      (StopsIn.bind (StopsIn.modify _) (fun _ => StopsIn.modify _)))

theorem stops_pipeclose (p : UInt32) (writable : Bool) :
    StopsIn Releasing (pipeclose p writable) := by
  have htail : StopsIn Releasing
      (do
        let pi ← gets (fun k : Kernel => k.pipe p)
        if pi.readopen = false ∧ pi.writeopen = false then
          onVm (Vm.kfree p)
        else
          pure ()) :=
    StopsIn.bind (StopsIn.gets _) (fun _ =>
      StopsIn.ite (StopsIn.zoom (stops_kfree p)) (StopsIn.pure ()))
  exact StopsIn.ite
    (StopsIn.bind (StopsIn.modify _) (fun _ => htail))
    (StopsIn.bind (StopsIn.modify _) (fun _ => htail))

theorem stops_fileRelease (cur : Pslot) (ff : File) :
    StopsIn Releasing (fileRelease cur ff) := by
  unfold fileRelease
  cases ff.type with
  | FD_NONE => exact StopsIn.pure ()
  | FD_PIPE => exact stops_pipeclose _ _
  | FD_INODE =>
      exact StopsIn.bind (StopsIn.gets _) (fun _ =>
        (StopsIn.bind (StopsIn.zoom Fs.stops_beginOp) (fun _ =>
          StopsIn.bind (StopsIn.zoom (Fs.stops_iput _ _)) (fun _ =>
            StopsIn.zoom Fs.stops_endOp))).mono
          (fun _ => Releasing.of_stops))

end Stops

/-!
## References of the files
-/

def tables (k : Kernel) : (Fslot -> File) × Procs := (k.file, k.procs)

theorem aside_tables : Aside tables :=
  ⟨fun _ _ => rfl, fun _ _ => rfl, fun _ _ => rfl⟩

/-- The references and the offset apart, the file is what it was. -/
def SameOpen (fl fl' : File) : Prop :=
  fl' = { fl with ref := fl'.ref, off := fl'.off }

theorem SameOpen.refl (fl : File) : SameOpen fl fl := rfl

theorem SameOpen.trans {fl fl' fl'' : File} (h : SameOpen fl fl')
    (h' : SameOpen fl' fl'') : SameOpen fl fl'' := by
  unfold SameOpen at h'
  rw [h] at h'
  exact h'

theorem wp_fileclose_file (cur : Pslot) (f : Fslot) (k : Kernel) :
    wp (fileclose cur f)
      (fun _ k' => k'.procs = k.procs ∧ exists fl : File,
        k'.file = Function.update k.file f fl ∧
          fl.ref = (k.file f).ref - 1 ∧ 0 ≤ fl.ref ∧
            (1 ≤ fl.ref -> SameOpen (k.file f) fl))
      (fun e => 1 ≤ (k.file f).ref -> Releasing e) k := by
  unfold fileclose
  rw [wp_bind, wp_gets, wp_ite, wp_ite]
  refine ⟨fun hnone => ?_, fun hpos => ⟨fun hmore => ?_, fun hlast => ?_⟩⟩
  · intro hone
    lia
  · exact ⟨rfl, _, rfl, rfl, hmore.le, fun _ => rfl⟩
  · unfold setFile
    rw [wp_bind, wp_modify]
    refine wp_mono (wp_and (aside_tables.fileRelease cur (k.file f) _ _ rfl)
      (stops_fileRelease cur (k.file f) _)) ?_ ?_
    · rintro _ k' ⟨hk', _⟩
      refine ⟨congrArg Prod.snd hk', _, congrArg Prod.fst hk', ?_, le_rfl, ?_⟩
      · show (0 : Int) = _
        lia
      · intro hone
        cases hone
    · exact fun e he _ => he.2

/-- No file has lost more references than it had, and a file that is still
open is what it was. -/
def Worn (t : Fslot -> File) (k : Kernel) : Prop :=
  forall f, 0 ≤ (k.file f).ref ∧
    (1 ≤ (k.file f).ref -> SameOpen (t f) (k.file f))

def Counted (cur : Pslot) (k : Kernel) : Prop :=
  forall f, (held (k.proc cur).ofile (List.finRange NOFILE) f : Int) ≤
    (k.file f).ref

/-- The descriptors in `rest` are still open, and the files have lost what `cur`
has of them otherwise. -/
structure Closing (cur : Pslot) (k₀ : Kernel) (rest : List (Fin NOFILE))
    (k : Kernel) : Prop where
  nodup : rest.Nodup
  still : forall fd, fd ∈ rest ->
    (k.proc cur).ofile fd = (k₀.proc cur).ofile fd
  ref : forall f, (k.file f).ref = (k₀.file f).ref -
    (held (k₀.proc cur).ofile (List.finRange NOFILE) f : Int) +
      (held (k₀.proc cur).ofile rest f : Int)
  worn : (forall f, 0 ≤ (k₀.file f).ref) -> Worn k₀.file k

theorem wp_exitOfile {cur : Pslot} {k₀ k : Kernel} {fd : Fin NOFILE}
    {rest : List (Fin NOFILE)} (h : Closing cur k₀ (fd :: rest) k) :
    wp (exitOfile cur fd) (fun _ k' => Closing cur k₀ rest k')
      (fun e => Counted cur k₀ -> Releasing e) k := by
  rcases List.nodup_cons.mp h.nodup with ⟨hfd, hrest⟩
  have hstill : forall fd', fd' ∈ rest ->
      (k.proc cur).ofile fd' = (k₀.proc cur).ofile fd' :=
    fun fd' h' => h.still fd' (List.mem_cons_of_mem fd h')
  have href := h.ref
  simp only [held_cons] at href
  unfold exitOfile
  rw [wp_bind, wp_gets, h.still fd (List.mem_cons_self ..)]
  cases hof : (k₀.proc cur).ofile fd with
  | none =>
      refine ⟨hrest, hstill, fun f => ?_, h.worn⟩
      rw [href f, hof, if_neg (by simp)]
      rfl
  | some f =>
      simp only
      rw [wp_bind]
      refine wp_mono (wp_fileclose_file cur f k) ?_ ?_
      · rintro _ k' ⟨hprocs, fl, hfile, hfl, hnonneg, hsame⟩
        have hproc : k'.proc cur = k.proc cur :=
          congrArg (fun t => Procs.proc t cur) hprocs
        refine ⟨hrest, ?_, ?_, ?_⟩
        · intro fd' h'
          have hne : fd' ≠ fd := by
            rintro rfl
            exact hfd h'
          show (Function.update k'.proc cur _ cur).ofile fd' = _
          rw [Function.update_self]
          show Function.update (k'.proc cur).ofile fd none fd' = _
          rw [Function.update_of_ne hne, hproc]
          exact hstill fd' h'
        · intro f'
          show (k'.file f').ref = _
          have hf' := href f'
          rw [hof] at hf'
          rw [hfile]
          rcases eq_or_ne f' f with rfl | hne
          · rw [Function.update_self]
            simp only [if_true] at hf'
            lia
          · rw [Function.update_of_ne hne]
            rw [if_neg (by simpa using hne.symm)] at hf'
            exact hf'
        · intro hall f'
          show 0 ≤ (k'.file f').ref ∧ _
          have hworn := h.worn hall f'
          show _ ∧ (1 ≤ (k'.file f').ref -> SameOpen _ (k'.file f'))
          rw [hfile]
          rcases eq_or_ne f' f with rfl | hne
          · rw [Function.update_self]
            refine ⟨hnonneg, fun hone => (hworn.2 ?_).trans (hsame hone)⟩
            lia
          · rw [Function.update_of_ne hne]
            exact hworn
      · intro e he hcounted
        apply he
        have hf := href f
        rw [hof, if_pos rfl] at hf
        have hb := hcounted f
        lia

theorem wp_exitOfiles (cur : Pslot) (k : Kernel) :
    wp (forEach (exitOfile cur) (List.finRange NOFILE))
      (fun _ k' => Closing cur k [] k')
      (fun e => Counted cur k -> Releasing e) k :=
  wp_forEach
    ⟨List.nodup_finRange NOFILE, fun _ _ => rfl, fun f => by lia,
      fun hall f => ⟨hall f, fun _ => rfl⟩⟩
    (fun _ _ _ h => wp_exitOfile h)

/-!
## References of the inodes
-/

section Balance

variable {cur : Pslot} {pid : Int32}

theorem turns_exitOfile (fd : Fin NOFILE) :
    Turns cur pid (exitOfile cur fd) empty (fun _ => empty) := by
  apply Turns.bind (Turns.gets _ _)
  intro f
  cases f with
  | none => exact Turns.pure () rfl
  | some f =>
      exact Turns.bind (turns_fileclose 0 0 0 f)
        (fun _ => turns_setOfile cur fd none empty)

theorem turns_exitTail :
    Turns cur pid (exitTail cur) empty (fun _ => empty) := by
  intro rest k hk
  apply wp_post (wp_exitTail cur k)
  rintro _ _ ⟨woken, _, rfl⟩
  have hslot := k.procs.exited_eq cur woken
  apply hk.tables
  · rfl
  · rfl
  · rfl
  · intro jp
    have hsame : forall p, cwdRefers jp ((k.procs.exited cur woken).proc p) =
        cwdRefers jp (k.proc p) := by
      intro p
      rw [hslot]
      rfl
    have hcount : refCount (k.withTable k.vm (k.procs.exited cur woken)) jp =
        refCount k jp := by
      unfold refCount withTable
      simp only [hsame]
    rw [hcount]
  · have hpid := congrArg Proc.pid (hslot cur)
    exact hpid
  · exact hk.free
  · exact hk.fresh
  · exact hk.nodup

theorem turns_exitCwd :
    Turns cur pid (exitCwd cur) empty (fun _ => empty) := by
  intro rest k hk
  rcases (hk.takeCwd).fs with ⟨base, href, hlock, hout, hholds⟩
  unfold exitCwd pidOf cwdOf onFs
  simp only [wp_bind, wp_gets, wp_zoom]
  rw [hk.pid]
  apply wp_post (Fs.turns_beginOp _ base k.fs hholds)
  intro _ s1 hs1
  cases hcwd : (k.proc cur).cwd with
  | none => trivial
  | some cwd =>
      rw [hcwd] at hs1
      simp only [wp_bind, wp_zoom]
      apply wp_post (Fs.turns_iput 0 0 1 cwd base s1 hs1)
      intro _ s2 hs2
      apply wp_post (Fs.turns_endOp ⟨0, 0, 0⟩ base s2 hs2)
      intro _ s3 hs3
      exact ⟨⟨base, href, hlock, hout, hs3⟩, hk.takeCwd.pid, hk.free,
        hk.fresh, hk.nodup⟩

theorem turns_exit : Turns cur pid (exit cur) empty (fun _ => empty) := by
  intro rest k hk
  apply wp_exit (fun _ => trivial)
  · intro _ _
    refine wp_post (Turns.forEach (fun fd => turns_exitOfile fd) _ rest k hk) ?_
    intro _ k1 hk1
    apply wp_post (turns_exitCwd rest k1 hk1)
    intro _ k2 hk2
    exact turns_exitTail rest k2 hk2
  · exact fun _ _ => turns_exitTail rest k hk

theorem turns_pipeFile (f : Fslot) (fresh : Multiset Fslot) (g : File -> File)
    (href : forall fl, (g fl).ref = fl.ref)
    (htype : forall fl, (g fl).type = .FD_PIPE) :
    Turns cur pid (setFile f g) ⟨⟨0, 0, 0⟩, f ::ₘ fresh⟩
      (fun _ => ⟨⟨0, 0, 0⟩, fresh⟩) := by
  intro rest k hk
  rcases hk.fresh f (Multiset.mem_cons_self f fresh) with ⟨hone, hnone⟩
  have hnodup := Multiset.nodup_cons.mp hk.nodup
  apply hk.setFile f _ ⟨⟨0, 0, 0⟩, fresh⟩ rfl rfl
  · intro jp
    rw [fileRefers_of_none hnone]
    unfold fileRefers
    rw [htype, if_neg (by simp)]
  · rw [href, hone]
    intro hzero
    cases hzero
  · exact fun _ _ hmem => Multiset.mem_cons_of_mem hmem
  · exact fun hmem => absurd hmem hnodup.1
  · exact hnodup.2

theorem turns_pipealloc :
    Turns cur pid (pipealloc cur) empty (fun _ => empty) := by
  apply Turns.bind (turns_filealloc 0 ⟨0, 0, 0⟩)
  intro f0
  cases f0 with
  | none => exact Turns.pure none rfl
  | some f0 =>
      apply Turns.bind (turns_filealloc {f0} ⟨0, 0, 0⟩)
      intro f1
      cases f1 with
      | none =>
          exact Turns.bind (turns_fileclose_fresh 0 ⟨0, 0, 0⟩ f0)
            (fun _ => Turns.pure none rfl)
      | some f1 =>
          apply Turns.bind (turns_onVm _ _)
          intro p
          have hswap : (f1 ::ₘ {f0} : Multiset Fslot) = f0 ::ₘ {f1} :=
            Multiset.cons_swap f1 f0 0
          simp only [withFresh]
          rw [hswap]
          cases p with
          | none =>
              exact Turns.bind (turns_fileclose_fresh {f1} ⟨0, 0, 0⟩ f0)
                (fun _ => Turns.bind (turns_fileclose_fresh 0 ⟨0, 0, 0⟩ f1)
                  (fun _ => Turns.pure none rfl))
          | some p =>
              exact Turns.bind (turns_setPipe p _ _) (fun _ =>
                Turns.bind
                  (turns_pipeFile f0 {f1} _ (fun _ => rfl) (fun _ => rfl))
                  (fun _ => Turns.bind
                    (turns_pipeFile f1 0 _ (fun _ => rfl) (fun _ => rfl))
                    (fun _ => Turns.pure _ rfl)))

theorem turns_sysPipe (ok : Bool) :
    Turns cur pid (sysPipe cur ok) empty (fun _ => empty) := by
  have hclose : forall rf wf : Fslot, Turns cur pid
      (do
        fileclose cur rf
        fileclose cur wf
        pure ((-1 : Int), (none : Option (Fin NOFILE × Fin NOFILE))))
      empty (fun _ => empty) :=
    fun rf wf => Turns.bind (turns_fileclose 0 0 0 rf) (fun _ =>
      Turns.bind (turns_fileclose 0 0 0 wf) (fun _ => Turns.pure _ rfl))
  apply Turns.ite
  · exact Turns.pure _ rfl
  · apply Turns.bind turns_pipealloc
    intro fs
    cases fs with
    | none => exact Turns.pure _ rfl
    | some fs =>
        rcases fs with ⟨rf, wf⟩
        apply Turns.bind (turns_fdalloc rf _)
        intro fd0
        cases fd0 with
        | none => exact hclose rf wf
        | some fd0 =>
            apply Turns.bind (turns_fdalloc wf _)
            intro fd1
            cases fd1 with
            | none =>
                exact Turns.bind (turns_setOfile cur fd0 none _)
                  (fun _ => hclose rf wf)
            | some fd1 => exact Turns.pure _ rfl

theorem turns_filedup (f : Fslot) (h : Hand) (hfresh : h.fresh = 0) :
    Turns cur pid (filedup f) h (fun _ => h) := by
  intro rest k hk
  unfold filedup
  rw [wp_bind, wp_gets, wp_ite]
  refine ⟨fun _ => trivial, fun hpos => ?_⟩
  apply hk.setFile f _ h rfl rfl
  · exact fun _ => rfl
  · intro hzero
    simp only at hzero
    lia
  · exact fun _ _ hmem => hmem
  · rw [hfresh]
    exact fun hmem => absurd hmem (Multiset.notMem_zero f)
  · exact hk.nodup

theorem turns_sysDup (fd : Option Int32) :
    Turns cur pid (sysDup cur fd) empty (fun _ => empty) := by
  apply Turns.bind (turns_argfd fd _)
  intro f
  cases f with
  | none => exact Turns.pure _ rfl
  | some f =>
      apply Turns.bind (turns_fdalloc f.2 _)
      intro fd'
      cases fd' with
      | none => exact Turns.pure _ rfl
      | some fd' =>
          exact Turns.bind (turns_filedup f.2 empty rfl)
            (fun _ => Turns.pure _ rfl)

end Balance

/-!
## The file table
-/

section FileTable

variable {α : Type}

def stores (k : Kernel) : (Fslot -> File) × Fs := (k.file, k.fs)

theorem keepsStores_onVm (m : VmM α) : Keeps stores (onVm m) := by
  rintro _ k rfl
  unfold onVm
  rw [wp_zoom]
  exact wp_trivial (fun _ _ => rfl)

theorem keepsStores_setProc (p : Pslot) (g : Proc -> Proc) :
    Keeps stores (setProc p g) :=
  fun _ _ h => h

theorem keeps_sysSbrk {ρ : Type} {view : Kernel -> ρ} {cur : Pslot}
    (hvm : forall m : VmM UInt32, Keeps view (onVm m))
    (hsz : forall sz, Keeps view (setProc cur (fun pr => { pr with sz := sz })))
    (n : Option Int32) : Keeps view (sysSbrk cur n) := by
  have hgrow : forall n, Keeps view (growproc cur n) := by
    intro n
    apply Turns.bind (keeps_gets _)
    intro pr
    cases pr.pgdir with
    | none => exact keeps_stop _
    | some pgdir =>
        have htail : forall sz : UInt32, Keeps view
            (if n ≠ 0 ∧ sz = 0 then
              (pure (-1) : KM Int)
            else do
              setProc cur (fun pr => { pr with sz := sz })
              switchuvm cur
              pure 0) :=
          fun sz => Turns.ite (keeps_pure _)
            (Turns.bind (hsz sz) (fun _ =>
              Turns.bind (keeps_switchuvm cur) (fun _ => keeps_pure _)))
        apply Turns.ite
        · exact Turns.bind (hvm _) (fun sz => htail sz)
        · apply Turns.ite
          · exact Turns.bind (hvm _) (fun sz => htail sz)
          · exact htail pr.sz
  cases n with
  | none => exact keeps_pure _
  | some n =>
      exact Turns.bind (keeps_gets _) (fun _ =>
        Turns.bind (hgrow n) (fun _ => keeps_pure _))

theorem keepsStores_sysSbrk (cur : Pslot) (n : Option Int32) :
    Keeps stores (sysSbrk cur n) :=
  keeps_sysSbrk keepsStores_onVm (fun _ => keepsStores_setProc cur _) n

theorem keepsStores_kill (pid : Int) : Keeps stores (kill pid) := by
  apply Turns.bind (Turns.gets _ ())
  intro p
  cases p with
  | none => exact Turns.pure _ rfl
  | some p =>
      exact Turns.bind (keepsStores_setProc p _) (fun _ => Turns.pure _ rfl)

theorem keepsStores_sysTickets (cur : Pslot) (n : Option Int32) :
    Keeps stores (sysTickets cur n) := by
  cases n with
  | none => exact Turns.pure _ rfl
  | some n =>
      exact Turns.bind (keepsStores_setProc cur _) (fun _ => Turns.pure _ rfl)

def Act.filing : Act -> Prop
  | .fork _ => True
  | .exit _ => True
  | .call _ _ => True
  | .dup _ _ => True
  | .pipe _ _ => True
  | _ => False

theorem stores_of_step {k k' : Kernel} {a : Act} (hstep : Step k a k')
    (ha : ¬ a.filing) : k'.stores = k.stores := by
  have hused : forall cur, a.caller = some cur ->
      (k.proc cur).state ≠ .UNUSED := fun _ => caller_used hstep
  rcases hstep with ⟨_, r, hrun⟩
  cases a with
  | fork cur | exit cur | call cur c | dup cur fd | pipe cur ok =>
      exact absurd trivial ha
  | clone cur stack =>
      rcases wp_ok (wp_clones stack (hused cur rfl)) hrun with ⟨s, t, rfl, _⟩
      rfl
  | wait cur =>
      rcases wp_ok wp_waits hrun with ⟨s, t, rfl, _⟩
      rfl
  | kill cur pid => exact (keepsStores_kill _).ok hrun
  | tickets cur n => exact (keepsStores_sysTickets cur n).ok hrun
  | sbrk cur n => exact (keepsStores_sysSbrk cur n).ok hrun
  | _ =>
      cases hrun
      rfl

theorem wp_fork_free {cur : Pslot} {k : Kernel} (hfree : k.FreeNone)
    (hcur : (k.proc cur).state ≠ .UNUSED) :
    wp (fork cur) (fun _ k' => k'.FreeNone) (fun _ => True) k := by
  apply wp_post (wp_forks hcur)
  intro r k' h
  cases h with
  | done s p x d cwd hp hfirst hcwd hopen =>
      intro f href
      apply hfree f
      change (k.file f).ref + (held _ _ f : Int) = 0 at href
      rcases Nat.eq_zero_or_pos (held (k.proc cur).ofile
        (List.finRange NOFILE) f) with hnone | hsome
      · lia
      · rcases List.countP_pos_iff.mp hsome with ⟨fd, _, heq⟩
        have hone := hopen fd f (of_decide_eq_true heq)
        lia
  | _ => exact hfree

theorem freeNone_step {k k' : Kernel} {a : Act} (hfree : k.FreeNone)
    (hstep : Step k a k') : k'.FreeNone := by
  have hused : forall cur, a.caller = some cur ->
      (k.proc cur).state ≠ .UNUSED := fun _ => caller_used hstep
  have hsame : ¬ a.filing -> k'.FreeNone := by
    intro ha f href
    have hfile : k'.file = k.file :=
      congrArg Prod.fst (stores_of_step hstep ha)
    rw [hfile] at href ⊢
    exact hfree f href
  rcases hstep with ⟨_, r, hrun⟩
  cases a with
  | fork cur => exact wp_ok (wp_fork_free hfree (hused cur rfl)) hrun
  | exit cur =>
      exact (balanced_of_turns
        (Turns.bind turns_exit (fun _ => Turns.pure _ rfl)) hfree hrun).2
  | call cur c => exact (balanced_of_turns (turns_run cur _ c) hfree hrun).2
  | dup cur fd => exact (balanced_of_turns (turns_sysDup fd) hfree hrun).2
  | pipe cur ok =>
      exact (balanced_of_turns
        (Turns.bind (turns_sysPipe ok) (fun _ => Turns.pure _ rfl))
        hfree hrun).2
  | _ => exact hsame not_false

end FileTable

end Kernel
end Xv6
