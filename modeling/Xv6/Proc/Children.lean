import Xv6.Proc.Effect

/-!
# Fork and clone
-/

namespace Xv6
namespace Kernel

open Lib Lib.Run

/-- How many of the descriptors in a list have the file `f` open. -/
def held (ofile : Fin NOFILE -> Option Fslot) (fds : List (Fin NOFILE))
    (f : Fslot) : Nat :=
  fds.countP (fun fd => ofile fd = some f)

theorem held_cons (ofile : Fin NOFILE -> Option Fslot) (fd : Fin NOFILE)
    (fds : List (Fin NOFILE)) (f : Fslot) :
    held ofile (fd :: fds) f =
      held ofile fds f + if ofile fd = some f then 1 else 0 := by
  simp [held, List.countP_cons]

/-- The loop of `fork` has passed the files of the caller with the descriptors
in `done` to the slot `np`. -/
def dupped (k : Kernel) (cur np : Pslot) (done : List (Fin NOFILE)) : Kernel :=
  { k with
    file := fun f =>
      { k.file f with
        ref := (k.file f).ref + (held (k.proc cur).ofile done f : Int) }
    proc := Function.update k.proc np
      { k.proc np with
        ofile := fun fd =>
          if fd ∈ done then
            ((k.proc cur).ofile fd).or ((k.proc np).ofile fd)
          else
            (k.proc np).ofile fd } }

/-- The files of the caller that the loop of `exit` still has to close are in
`rest`. -/
def closeRest (rest : List (Fin NOFILE)) (pr : Proc) : Proc :=
  { pr with ofile := fun fd => if fd ∈ rest then pr.ofile fd else none }

theorem dupped_nil (k : Kernel) (cur np : Pslot) : k.dupped cur np [] = k := by
  simp [dupped, held]

theorem dupped_none {k : Kernel} {cur : Pslot} (np : Pslot) {fd : Fin NOFILE}
    (done : List (Fin NOFILE)) (h : (k.proc cur).ofile fd = none) :
    k.dupped cur np (fd :: done) = k.dupped cur np done := by
  unfold dupped
  simp only [held_cons, h]
  congr 3
  funext fd'
  rcases eq_or_ne fd' fd with rfl | hfd
  · simp [h]
  · simp [hfd]

theorem dupped_some {k : Kernel} {cur : Pslot} (np : Pslot) {fd : Fin NOFILE}
    (done : List (Fin NOFILE)) {f : Fslot}
    (h : (k.proc cur).ofile fd = some f) :
    k.dupped cur np (fd :: done) =
      { k.dupped cur np done with
        file := Function.update (k.dupped cur np done).file f
          { (k.dupped cur np done).file f with
            ref := ((k.dupped cur np done).file f).ref + 1 }
        proc := Function.update (k.dupped cur np done).proc np
          { (k.dupped cur np done).proc np with
            ofile := Function.update ((k.dupped cur np done).proc np).ofile fd
              (some f) } } := by
  simp only [dupped, mk.injEq, true_and, and_true, Function.update_self,
    Function.update_idem]
  constructor
  · funext f'
    rcases eq_or_ne f' f with rfl | hf
    · simp [held_cons, h, add_assoc]
    · simp [held_cons, h, hf, hf.symm]
  · congr 2
    funext fd'
    rcases eq_or_ne fd' fd with rfl | hfd
    · simp [h]
    · simp [hfd]

def OpenFiles (k : Kernel) (cur : Pslot) (fds : List (Fin NOFILE)) : Prop :=
  forall fd, fd ∈ fds -> forall f, (k.proc cur).ofile fd = some f ->
    1 ≤ (k.file f).ref

theorem wp_dupOfile {E : Stop -> Prop} {k : Kernel} {cur np : Pslot}
    (hne : cur ≠ np)
    (hE : forall fd f, (k.proc cur).ofile fd = some f -> (k.file f).ref < 1 ->
      E (.panic "filedup")) (fd : Fin NOFILE) {done : List (Fin NOFILE)}
    (hopen : OpenFiles k cur done) :
    wp (dupOfile cur np fd)
      (fun _ k' => OpenFiles k cur (fd :: done) ∧
        k' = k.dupped cur np (fd :: done)) E
      (k.dupped cur np done) := by
  have hproc : (k.dupped cur np done).proc cur = k.proc cur :=
    Function.update_of_ne hne _ _
  unfold dupOfile
  rw [wp_bind, wp_gets, hproc]
  cases hof : (k.proc cur).ofile fd with
  | none =>
      refine ⟨fun fd' hfd f hf => ?_, (dupped_none np done hof).symm⟩
      rcases List.mem_cons.mp hfd with rfl | hfd
      · rw [hof] at hf
        cases hf
      · exact hopen fd' hfd f hf
  | some f =>
      unfold filedup
      simp only [wp_bind, wp_gets]
      apply wp_ite.mpr
      constructor
      · intro hlow
        apply hE fd f hof
        change (k.file f).ref + _ < 1 at hlow
        lia
      · intro hpos
        change ¬ (k.file f).ref + (held _ done f : Int) < 1 at hpos
        refine ⟨fun fd' hfd f' hf => ?_, (dupped_some np done hof).symm⟩
        rcases List.mem_cons.mp hfd with rfl | hfd
        · cases hof.symm.trans hf
          rcases Nat.eq_zero_or_pos (held (k.proc cur).ofile done f) with
            hnone | hsome
          · lia
          · rcases List.countP_pos_iff.mp hsome with ⟨fd, hfd, heq⟩
            exact hopen fd hfd f (of_decide_eq_true heq)
        · exact hopen fd' hfd f' hf

theorem wp_dupOfiles {E : Stop -> Prop} {k : Kernel} {cur np : Pslot}
    (hne : cur ≠ np)
    (hE : forall fd f, (k.proc cur).ofile fd = some f -> (k.file f).ref < 1 ->
      E (.panic "filedup")) :
    wp (forEach (dupOfile cur np) (List.finRange NOFILE))
      (fun _ k' => OpenFiles k cur (List.finRange NOFILE).reverse ∧
        k' = k.dupped cur np (List.finRange NOFILE).reverse) E k := by
  refine wp_mono (wp_forEach (I := fun rest k' => exists done,
    done.reverse ++ rest = List.finRange NOFILE ∧ OpenFiles k cur done ∧
      k' = k.dupped cur np done)
    ⟨[], rfl, fun _ h => absurd h List.not_mem_nil,
      (k.dupped_nil cur np).symm⟩ ?_) ?_ (fun _ he => he)
  · intro fd rest k' h
    rcases h with ⟨done, hdone, hopen, rfl⟩
    apply wp_post (wp_dupOfile hne hE fd hopen)
    exact fun _ _ h => ⟨fd :: done, by simpa using hdone, h⟩
  · intro _ k' h
    rcases h with ⟨done, hdone, hopen, rfl⟩
    rw [List.append_nil] at hdone
    rw [← hdone, List.reverse_reverse]
    exact ⟨hopen, rfl⟩

/-- The files and the directory of `cur` have been passed on. -/
def shared (k : Kernel) (cur : Pslot) (cwd : Slot) : Kernel :=
  { k with
    file := fun f =>
      { k.file f with
        ref := (k.file f).ref +
          (held (k.proc cur).ofile (List.finRange NOFILE) f : Int) }
    fs :=
      { k.fs with
        icache := Function.update k.fs.icache cwd
          { k.fs.icache cwd with ref := (k.fs.icache cwd).ref + 1 } } }

/-- What `fork` makes of the slot `np` for a caller with the record `pr`. -/
def forkChild (cur : Pslot) (pr : Proc) (pgdir : UInt32) (np : Proc) : Proc :=
  { np with
    pgdir := some pgdir
    sz := pr.sz
    parent := some cur
    tf := { pr.tf with eax := 0 }
    ofile := fun fd => (pr.ofile fd).or (np.ofile fd)
    cwd := pr.cwd
    name := pr.name.take 15
    state := .RUNNABLE }

namespace Procs

/-- The slot `p` has been taken and given back for want of memory. -/
def noCopy (t : Procs) (p : Pslot) (kstack : UInt32) : Procs :=
  (t.embryo p kstack).set p (fun np =>
    { np with pgdir := none, kstack := none, state := .UNUSED })

def forked (t : Procs) (cur p : Pslot) (kstack pgdir : UInt32) : Procs :=
  ((t.embryo p kstack).set p (forkChild cur (t.proc cur) pgdir)).map
    resetTickets

theorem noCopy_of_ne (t : Procs) {p q : Pslot} (h : q ≠ p)
    (kstack : UInt32) : (t.noCopy p kstack).proc q = t.proc q :=
  (set_of_ne _ h _).trans (t.embryo_of_ne h kstack)

theorem forked_of_ne (t : Procs) (cur : Pslot) {p q : Pslot} (h : q ≠ p)
    (kstack pgdir : UInt32) :
    (t.forked cur p kstack pgdir).proc q = resetTickets (t.proc q) :=
  congrArg resetTickets ((set_of_ne _ h _).trans (t.embryo_of_ne h kstack))

theorem forked_self (t : Procs) (cur p : Pslot) (kstack pgdir : UInt32) :
    (t.forked cur p kstack pgdir).proc p =
      resetTickets (forkChild cur (t.proc cur) pgdir
        ((t.embryo p kstack).proc p)) :=
  congrArg resetTickets (set_self _ p _)

end Procs

inductive Fork (cur : Pslot) (t : Procs) : Int -> Procs -> Prop where
  | noSlot {t' : Procs} (h : Allocproc t none t') : Fork cur t (-1) t'
  | noCopy (p : Pslot) (kstack : UInt32) (h : (t.proc p).state = .UNUSED) :
      Fork cur t (-1) (t.noCopy p kstack)
  | done (p : Pslot) (kstack pgdir : UInt32)
      (h : (t.proc p).state = .UNUSED)
      (hfirst : forall q, q < p -> (t.proc q).state ≠ .UNUSED) :
      Fork cur t t.nextpid.toInt (t.forked cur p kstack pgdir)

theorem wp_forkTail {Q : Int -> Kernel -> Prop} {E : Stop -> Prop}
    {k : Kernel} {cur np : Pslot} {pr : Proc} (hne : cur ≠ np)
    (hpr : k.proc cur = pr) (hcwd : pr.cwd = none -> E .nullDeref)
    (hdup : forall fd f, pr.ofile fd = some f ->
      (k.file f).ref < 1 -> E (.panic "filedup"))
    (hdone : forall cwd, pr.cwd = some cwd ->
      (forall fd f, pr.ofile fd = some f -> 1 ≤ (k.file f).ref) ->
      Q (k.proc np).pid.toInt ((k.shared cur cwd).withTable k.vm
        ((k.procs.set np (fun p =>
          { p with
            ofile := fun fd => (pr.ofile fd).or (p.ofile fd)
            cwd := some cwd
            name := pr.name.take 15
            state := .RUNNABLE })).map resetTickets))) :
    wp (do
      forEach (dupOfile cur np) (List.finRange NOFILE)
      match pr.cwd with
      | none => stop .nullDeref
      | some cwd => do
          let cwd ← onFs (Fs.idup cwd)
          setProc np (fun p =>
            { p with cwd := some cwd, name := pr.name.take 15 })
      let pid ← pidOf np
      setProc np (fun p => { p with state := .RUNNABLE })
      setProcs (fun _ p => resetTickets p)
      (pure pid.toInt : KM Int)) Q E k := by
  subst hpr
  rw [wp_bind]
  apply wp_post (wp_dupOfiles hne hdup)
  rintro _ _ ⟨hopen, rfl⟩
  cases hc : (k.proc cur).cwd with
  | none => exact hcwd hc
  | some cwd =>
      have hend := hdone cwd hc (fun fd => hopen fd (by simp))
      unfold onFs Fs.idup Fs.setInode pidOf setProc setProcs
      simp only [wp_bind, wp_gets, wp_modify, wp_zoom, wp_pure]
      simpa [dupped, held, shared, withTable, procs, Procs.set, Procs.map]
        using hend

theorem wp_fork {Q : Int -> Kernel -> Prop} {E : Stop -> Prop} {k : Kernel}
    {cur : Pslot} (hcur : (k.proc cur).state ≠ .UNUSED)
    (hpgdir : (k.proc cur).pgdir = none -> E .nullDeref)
    (hcwd : (k.proc cur).cwd = none -> E .nullDeref)
    (hdup : forall fd f, (k.proc cur).ofile fd = some f ->
      (k.file f).ref < 1 -> E (.panic "filedup"))
    (hfull : (forall p, (k.proc p).state ≠ .UNUSED) -> Q (-1) k)
    (hfound : forall p, (k.proc p).state = .UNUSED ->
      (forall q, q < p -> (k.proc q).state ≠ .UNUSED) ->
      wp Vm.kalloc
        (fun r s => match r with
          | none => Q (-1) (k.withTable s (k.procs.noStack p))
          | some x => forall d, (k.proc cur).pgdir = some d ->
              wp (Vm.copyuvm d (k.proc cur).sz)
                (fun r s => match r with
                  | none => wp (Vm.kfree x)
                      (fun _ s => Q (-1) (k.withTable s (k.procs.noCopy p x)))
                      E s
                  | some d' => forall cwd, (k.proc cur).cwd = some cwd ->
                      (forall fd f, (k.proc cur).ofile fd = some f ->
                        1 ≤ (k.file f).ref) ->
                      Q k.nextpid.toInt ((k.shared cur cwd).withTable s
                        (k.procs.forked cur p x d')))
                E s)
        E k.vm) :
    wp (fork cur) Q E k := by
  unfold fork
  rw [wp_bind]
  apply wp_allocproc hfull
  intro np hnp hfirst
  have hne : cur ≠ np := by
    rintro rfl
    exact hcur hnp
  apply wp_post (hfound np hnp hfirst)
  intro r s hr
  cases r with
  | none => exact hr
  | some x =>
      have hproc : (k.withTable s (k.procs.embryo np x)).proc cur =
          k.proc cur :=
        k.procs.embryo_of_ne hne x
      simp only
      rw [wp_bind, wp_gets, hproc]
      cases hd : (k.proc cur).pgdir with
      | none => exact hpgdir hd
      | some d =>
          simp only
          rw [wp_bind]
          apply wp_zoom.mpr
          apply wp_post (hr d hd)
          intro r s hr
          cases r with
          | none =>
              unfold setProc onVm
              simp only [wp_bind, wp_modify, wp_gets]
              simp only [withTable, Procs.embryo, Procs.set, wp_bind,
                wp_modify, wp_pure, Function.update_self,
                Function.update_idem, wp_zoom]
              apply wp_post hr
              intro _ s hr
              simpa [withTable, Procs.noCopy, Procs.embryo, Procs.set] using hr
          | some d' =>
              unfold setProc
              simp only
              rw [wp_bind, wp_modify, wp_bind, wp_modify]
              refine wp_forkTail hne ?_ hcwd ?_ ?_
              · exact (Function.update_of_ne hne _ _).trans
                  ((Function.update_of_ne hne _ _).trans hproc)
              · exact hdup
              · intro cwd hc hopen
                have hend := hr cwd hc hopen
                simpa [shared, withTable, procs, Procs.set, Procs.map,
                  Procs.forked, Procs.embryo, forkChild, hc, hne] using hend

inductive Forks (cur : Pslot) (k : Kernel) : Int -> Kernel -> Prop where
  | noSlot {t : Procs} (s : Vm) (h : Allocproc k.procs none t) :
      Forks cur k (-1) (k.withTable s t)
  | noCopy (s : Vm) (p : Pslot) (kstack : UInt32)
      (h : (k.proc p).state = .UNUSED) :
      Forks cur k (-1) (k.withTable s (k.procs.noCopy p kstack))
  | done (s : Vm) (p : Pslot) (kstack pgdir : UInt32) (cwd : Slot)
      (h : (k.proc p).state = .UNUSED)
      (hfirst : forall q, q < p -> (k.proc q).state ≠ .UNUSED)
      (hcwd : (k.proc cur).cwd = some cwd)
      (hopen : forall fd f, (k.proc cur).ofile fd = some f ->
        1 ≤ (k.file f).ref) :
      Forks cur k k.nextpid.toInt
        ((k.shared cur cwd).withTable s (k.procs.forked cur p kstack pgdir))

theorem wp_forks {k : Kernel} {cur : Pslot}
    (hcur : (k.proc cur).state ≠ .UNUSED) :
    wp (fork cur) (Forks cur k) (fun _ => True) k := by
  apply wp_fork hcur
  · exact fun _ => trivial
  · exact fun _ => trivial
  · exact fun _ _ _ _ => trivial
  · exact fun hfull => Forks.noSlot k.vm (Allocproc.full hfull)
  · intro p hp hfirst
    apply wp_trivial
    intro r s
    cases r with
    | none => exact Forks.noSlot s (Allocproc.noStack p hp)
    | some x =>
        intro d _
        apply wp_trivial
        intro r s
        cases r with
        | none => exact wp_trivial (fun _ s => Forks.noCopy s p x hp)
        | some d' =>
            exact fun cwd hcwd hopen =>
              Forks.done s p x d' cwd hp hfirst hcwd hopen

theorem sees_fork {cur : Pslot} {t : Procs}
    (hcur : (t.proc cur).state ≠ .UNUSED) :
    Sees procs (fork cur) t (Fork cur t) := by
  rintro k rfl
  apply wp_post (wp_forks hcur)
  intro r k' h
  cases h with
  | noSlot s h => exact Fork.noSlot h
  | noCopy s p x h => exact Fork.noCopy p x h
  | done s p x d cwd h hfirst => exact Fork.done p x d h hfirst

/-- What `clone` makes of the slot `newp` for a caller with the record
`pr`. -/
def cloneThread (cur : Pslot) (pr : Proc) (stack : UInt32) (newp : Proc) :
    Proc :=
  { newp with
    pgdir := pr.pgdir
    sz := pr.sz
    parent := some cur
    threadIndictor := 1
    tf :=
      { pr.tf with
        eax := 0
        esp := stack - (pr.tf.ebp + 4 * 4 - pr.tf.esp)
        ebp := stack - 4 * 4 }
    ofile := fun fd => (pr.ofile fd).or (newp.ofile fd)
    cwd := pr.cwd
    state := .RUNNABLE
    name := pr.name.take 15 }

namespace Procs

def counted (t : Procs) : Procs := { t with numofthread := t.numofthread + 1 }

def cloned (t : Procs) (cur p : Pslot) (kstack stack : UInt32) : Procs :=
  (t.counted.embryo p kstack).set p (cloneThread cur (t.proc cur) stack)

theorem cloned_of_ne (t : Procs) (cur : Pslot) {p q : Pslot} (h : q ≠ p)
    (kstack stack : UInt32) :
    (t.cloned cur p kstack stack).proc q = t.proc q :=
  (set_of_ne _ h _).trans (t.counted.embryo_of_ne h kstack)

end Procs

inductive Clone (cur : Pslot) (stack : UInt32) (t : Procs) :
    Int -> Procs -> Prop where
  | noSlot {t' : Procs} (h : Allocproc t.counted none t') :
      Clone cur stack t (-1) t'
  | done (p : Pslot) (kstack : UInt32) (h : (t.proc p).state = .UNUSED)
      (hfirst : forall q, q < p -> (t.proc q).state ≠ .UNUSED) :
      Clone cur stack t t.nextpid.toInt (t.cloned cur p kstack stack)

theorem wp_clone {Q : Int -> Kernel -> Prop} {E : Stop -> Prop} {k : Kernel}
    {cur : Pslot} {stack : UInt32} (hcur : (k.proc cur).state ≠ .UNUSED)
    (hfull : (forall p, (k.proc p).state ≠ .UNUSED) ->
      Q (-1) (k.withTable k.vm k.procs.counted))
    (hfound : forall p, (k.proc p).state = .UNUSED ->
      (forall q, q < p -> (k.proc q).state ≠ .UNUSED) ->
      wp Vm.kalloc
        (fun r s => match r with
          | none => Q (-1) (k.withTable s (k.procs.counted.noStack p))
          | some x => Q k.nextpid.toInt
              (k.withTable s (k.procs.cloned cur p x stack)))
        E k.vm) :
    wp (clone cur stack) Q E k := by
  unfold clone
  rw [wp_bind, wp_modify, wp_bind]
  apply wp_allocproc hfull
  intro newp hnewp hfirst
  have hne : cur ≠ newp := by
    rintro rfl
    exact hcur hnewp
  apply wp_post (hfound newp hnewp hfirst)
  intro r s hr
  cases r with
  | none => exact hr
  | some x =>
      unfold setProc pidOf
      simp only [wp_bind, wp_gets, wp_modify, wp_pure]
      simpa [withTable, procs, Procs.cloned, Procs.counted, Procs.embryo,
        Procs.set, cloneThread, hne] using hr

theorem wp_clones {k : Kernel} {cur : Pslot} (stack : UInt32)
    (hcur : (k.proc cur).state ≠ .UNUSED) :
    wp (clone cur stack)
      (fun r k' => exists s t, k' = k.withTable s t ∧
        Clone cur stack k.procs r t) (fun _ => True) k := by
  apply wp_clone hcur
  · exact fun hfull => ⟨_, _, rfl, Clone.noSlot (Allocproc.full hfull)⟩
  · intro p hp hfirst
    apply wp_trivial
    intro r s
    cases r with
    | none => exact ⟨_, _, rfl, Clone.noSlot (Allocproc.noStack p hp)⟩
    | some x => exact ⟨_, _, rfl, Clone.done p x hp hfirst⟩

theorem sees_clone {cur : Pslot} (stack : UInt32) {t : Procs}
    (hcur : (t.proc cur).state ≠ .UNUSED) :
    Sees procs (clone cur stack) t (Clone cur stack t) := by
  rintro k rfl
  apply wp_post (wp_clones stack hcur)
  rintro r _ ⟨s, t, rfl, hclone⟩
  exact hclone

end Kernel
end Xv6
