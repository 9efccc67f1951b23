import Xv6.Proc.Children

/-!
# The end of a process
-/

namespace Xv6
namespace Kernel

open Lib Lib.Run

/-!
## Exit
-/

theorem sees_exitOfile (cur : Pslot) (t : Procs) (fd : Fin NOFILE)
    (rest : List (Fin NOFILE)) (hfd : fd ∉ rest) :
    Sees procs (exitOfile cur fd) (t.set cur (closeRest (fd :: rest)))
      (fun _ t' => t' = t.set cur (closeRest rest)) := by
  apply Sees.gets (fun t : Procs => (t.proc cur).ofile fd)
  rw [Procs.set_self]
  have hof : (closeRest (fd :: rest) (t.proc cur)).ofile fd =
      (t.proc cur).ofile fd := by
    simp [closeRest]
  rw [hof]
  cases hfile : (t.proc cur).ofile fd with
  | none =>
      apply Sees.pure
      simp only [Procs.set]
      congr 2
      unfold closeRest
      congr 1
      funext fd'
      rcases eq_or_ne fd' fd with rfl | hfd'
      · simp [hfd, hfile]
      · simp [hfd']
  | some f =>
      apply Sees.keep (keeps_fileclose cur f)
      intro _
      apply sees_setProc
      rw [Procs.set_set]
      congr 1
      funext pr
      unfold closeRest
      congr 1
      funext fd'
      rcases eq_or_ne fd' fd with rfl | hfd'
      · simp [hfd]
      · simp [hfd']

theorem sees_exitOfiles (cur : Pslot) (t : Procs) :
    Sees procs (forEach (exitOfile cur) (List.finRange NOFILE)) t
      (fun _ t' => t' =
        t.set cur (fun p => { p with ofile := fun _ => none })) := by
  refine Sees.post
    (Sees.forEach
      (I := fun rest t' => rest.Nodup ∧ t' = t.set cur (closeRest rest))
      ?_ ?_) ?_
  · refine ⟨List.nodup_finRange NOFILE, ?_⟩
    simp [closeRest, Procs.set]
  · rintro fd rest _ ⟨hnodup, rfl⟩
    rcases List.nodup_cons.mp hnodup with ⟨hfd, hrest⟩
    exact Sees.post (sees_exitOfile cur t fd rest hfd)
      (fun _ _ h => ⟨hrest, h⟩)
  · rintro _ _ ⟨_, rfl⟩
    rfl

/-- The state of a slot once `init` is woken, if it is. -/
def passState (init : Pslot) (woken : Bool) (pr : Proc) : Procstate :=
  if woken = true ∧ pr.state = .SLEEPING ∧ pr.chan = some (.proc init) then
    .RUNNABLE
  else
    pr.state

/-- A slot once the children of `cur` are passed to `init`; `woken` says that
one of them was a zombie. -/
def passSlot (cur init : Pslot) (woken : Bool) (pr : Proc) : Proc :=
  { pr with
    parent := if pr.parent = some cur then some init else pr.parent
    state := passState init woken pr }

/-- The slots that the loop of `exit` still has to pass are in `rest`. -/
def passRest (cur init : Pslot) (woken : Bool) (rest : List Pslot)
    (t : Procs) : Procs :=
  { t with
    proc := fun q =>
      if q ∈ rest then
        { t.proc q with state := passState init woken (t.proc q) }
      else
        passSlot cur init woken (t.proc q) }

theorem wake_passState (init : Pslot) (woken : Bool) (pr : Proc)
    (parent : Option Pslot) :
    wake (some (.proc init))
        { pr with parent := parent, state := passState init woken pr } =
      { pr with parent := parent, state := passState init true pr } := by
  unfold wake passState
  rcases Decidable.em (pr.state = .SLEEPING ∧ pr.chan = some (.proc init))
    with hsleep | hawake
  · cases woken with
    | false | true => simp [hsleep]
  · simp [hawake]

theorem passRest_wake (cur init : Pslot) (woken : Bool) (rest : List Pslot)
    (t : Procs) :
    (passRest cur init woken rest t).map (wake (some (.proc init))) =
      passRest cur init true rest t := by
  unfold passRest Procs.map
  congr 1
  funext q
  rcases Decidable.em (q ∈ rest) with hq | hq
  · simp only [if_pos hq]
    exact wake_passState init woken (t.proc q) _
  · simp only [if_neg hq]
    exact wake_passState init woken (t.proc q) _

theorem passRest_other {cur init p : Pslot} {t : Procs} (woken : Bool)
    (rest : List Pslot) (hp : p ∉ rest) (hparent : (t.proc p).parent ≠ some cur) :
    passRest cur init woken (p :: rest) t = passRest cur init woken rest t := by
  unfold passRest
  congr 1
  funext q
  rcases eq_or_ne q p with rfl | hq
  · simp [hp, passSlot, hparent]
  · simp [hq]

theorem passRest_child {cur init p : Pslot} {t : Procs} (woken : Bool)
    (rest : List Pslot) (hp : p ∉ rest) (hparent : (t.proc p).parent = some cur) :
    (passRest cur init woken (p :: rest) t).set p
        (fun pr => { pr with parent := some init }) =
      passRest cur init woken rest t := by
  unfold passRest Procs.set
  congr 1
  funext q
  rcases eq_or_ne q p with rfl | hq
  · simp [hp, passSlot, hparent]
  · simp [hq]

theorem passState_cases (init : Pslot) (woken : Bool) (pr : Proc) :
    passState init woken pr = pr.state ∨
      pr.state = .SLEEPING ∧ passState init woken pr = .RUNNABLE := by
  unfold passState
  split
  · next h => exact Or.inr ⟨h.2.1, rfl⟩
  · exact Or.inl rfl

theorem wp_passChild {E : Stop -> Prop} (cur : Pslot) (k : Kernel) (t : Procs)
    (woken : Bool) (p : Pslot) (rest : List Pslot) (hp : p ∉ rest) :
    wp (passChild cur p)
      (fun _ k' => exists woken',
        (woken = true ∨
            (t.proc p).parent = some cur ∧ (t.proc p).state = .ZOMBIE ->
          woken' = true) ∧
        k' = k.withTable k.vm (passRest cur t.initproc woken' rest t))
      E (k.withTable k.vm (passRest cur t.initproc woken (p :: rest) t)) := by
  have hparent : ((passRest cur t.initproc woken (p :: rest) t).proc p).parent =
      (t.proc p).parent := by
    simp [passRest]
  have hstate : ((passRest cur t.initproc woken (p :: rest) t).proc p).state =
      passState t.initproc woken (t.proc p) := by
    simp [passRest]
  unfold passChild
  rw [wp_bind, wp_gets, wp_ite]
  constructor
  · intro hchild
    have hpass := @passRest_child cur t.initproc p t woken rest hp
      (hparent.symm.trans hchild)
    apply wp_ite.mpr
    constructor
    · intro _
      refine ⟨true, fun _ => rfl, ?_⟩
      rw [← passRest_wake cur t.initproc woken rest t, ← hpass]
      rfl
    · intro hzombie
      refine ⟨woken, ?_, congrArg (k.withTable k.vm) hpass⟩
      rintro (hwoken | ⟨_, hz⟩)
      · exact hwoken
      · rcases passState_cases t.initproc woken (t.proc p) with hsame | hsleep
        · exact absurd (hstate.trans (hsame.trans hz)) hzombie
        · rw [hz] at hsleep
          cases hsleep.1
  · intro hother
    have hnot : (t.proc p).parent ≠ some cur :=
      fun h => hother (hparent.trans h)
    refine ⟨woken, ?_, congrArg (k.withTable k.vm)
      (passRest_other woken rest hp hnot)⟩
    rintro (hwoken | ⟨hchild, _⟩)
    · exact hwoken
    · exact absurd hchild hnot

theorem passSlot_wake_state (cur init : Pslot) (woken : Bool)
    (chan : Option Chan) (pr : Proc) :
    (passSlot cur init woken (wake chan pr)).state = pr.state ∨
      pr.state = .SLEEPING ∧
        (passSlot cur init woken (wake chan pr)).state = .RUNNABLE := by
  show passState init woken (wake chan pr) = _ ∨ _ ∧ passState _ _ _ = _
  rcases wake_state pr chan with hsame | ⟨hsleep, hwoken⟩
  · rcases passState_cases init woken (wake chan pr) with hpass | hpass
    · exact Or.inl (hpass.trans hsame)
    · exact Or.inr ⟨hsame.symm.trans hpass.1, hpass.2⟩
  · rcases passState_cases init woken (wake chan pr) with hpass | hpass
    · exact Or.inr ⟨hsleep, hpass.trans hwoken⟩
    · exact Or.inr ⟨hsleep, hpass.2⟩

theorem wp_passChildren {E : Stop -> Prop} (cur : Pslot) (k : Kernel) :
    wp (forEach (passChild cur) (List.finRange NPROC))
      (fun _ k' => exists woken,
        (forall q, (k.proc q).parent = some cur ->
          (k.proc q).state = .ZOMBIE -> woken = true) ∧
        k' = k.withTable k.vm (k.procs.map (passSlot cur k.initproc woken)))
      E k := by
  refine wp_post
    (wp_forEach
      (I := fun rest k' => rest.Nodup ∧ exists woken,
        (forall q, q ∉ rest -> (k.proc q).parent = some cur ->
          (k.proc q).state = .ZOMBIE -> woken = true) ∧
        k' = k.withTable k.vm
          (passRest cur k.procs.initproc woken rest k.procs))
      ?_ ?_) ?_
  · refine ⟨List.nodup_finRange NPROC, false, ?_, ?_⟩
    · exact fun q hq => absurd (List.mem_finRange q) hq
    · simp [withTable, passRest, passState, procs]
  · rintro p rest _ ⟨hnodup, woken, hwoken, rfl⟩
    rcases List.nodup_cons.mp hnodup with ⟨hp, hrest⟩
    apply wp_post (wp_passChild cur k k.procs woken p rest hp)
    rintro _ _ ⟨woken', hwoken', rfl⟩
    refine ⟨hrest, woken', ?_, rfl⟩
    intro q hq hchild hzombie
    rcases eq_or_ne q p with rfl | hne
    · exact hwoken' (Or.inr ⟨hchild, hzombie⟩)
    · exact hwoken' (Or.inl (hwoken q (by simp [hne, hq]) hchild hzombie))
  · rintro _ _ ⟨_, woken, hwoken, rfl⟩
    exact ⟨woken, fun q => hwoken q (List.not_mem_nil), rfl⟩

namespace Procs

/-- The table at the end of `exit`, without the files of the caller. -/
def exited (t : Procs) (cur : Pslot) (woken : Bool) : Procs :=
  ((t.map (wake ((t.proc cur).parent.map Chan.proc))).map
      (passSlot cur t.initproc woken)).set cur
    (fun pr => { pr with state := .ZOMBIE })

theorem exited_self (t : Procs) (cur : Pslot) (woken : Bool) :
    (t.exited cur woken).proc cur =
      { t.proc cur with
        parent :=
          if (t.proc cur).parent = some cur then
            some t.initproc
          else
            (t.proc cur).parent
        state := .ZOMBIE } := by
  unfold exited map passSlot wake
  rw [set_self]
  rcases Decidable.em ((t.proc cur).state = .SLEEPING ∧
    (t.proc cur).chan = (t.proc cur).parent.map Chan.proc) with hwake | hwake
  · simp only [if_pos hwake]
  · simp only [if_neg hwake]

theorem exited_eq (t : Procs) (cur : Pslot) (woken : Bool) (q : Pslot) :
    (t.exited cur woken).proc q =
      { t.proc q with
        parent := ((t.exited cur woken).proc q).parent
        state := ((t.exited cur woken).proc q).state } := by
  rcases eq_or_ne q cur with rfl | hne
  · rw [exited_self]
  · unfold exited
    rw [set_of_ne _ hne]
    simp only [map, passSlot, wake]
    split
    · rfl
    · rfl

def closed (t : Procs) (cur : Pslot) : Procs :=
  t.set cur (fun pr => { pr with ofile := fun _ => none, cwd := none })

end Procs

inductive Exit (cur : Pslot) (t : Procs) : Procs -> Prop where
  | closed (woken : Bool) (hinit : cur ≠ t.initproc)
      (h : t.numofthread = 0) : Exit cur t ((t.closed cur).exited cur woken)
  | left (woken : Bool) (hinit : cur ≠ t.initproc)
      (h : t.numofthread ≠ 0) : Exit cur t (t.exited cur woken)

/-- `exit` from where it holds `ptable.lock`. -/
def exitTail (cur : Pslot) : KM Unit := do
  wakeup1 ((← gets (fun k => (k.proc cur).parent)).map Chan.proc)
  forEach (passChild cur) (List.finRange NPROC)
  setProc cur (fun p => { p with state := .ZOMBIE })

theorem wp_exitTail {E : Stop -> Prop} (cur : Pslot) (k : Kernel) :
    wp (exitTail cur)
      (fun _ k' => exists woken,
        (forall q, (k.proc q).parent = some cur ->
          (k.proc q).state = .ZOMBIE -> woken = true) ∧
        k' = k.withTable k.vm (k.procs.exited cur woken)) E k := by
  unfold exitTail wakeup1 setProcs
  simp only [wp_bind, wp_gets, wp_modify]
  apply wp_post (wp_passChildren cur _)
  rintro _ _ ⟨woken, hwoken, rfl⟩
  refine ⟨woken, ?_, rfl⟩
  intro q hchild hzombie
  apply hwoken q
  · show (wake _ (k.proc q)).parent = _
    rw [wake_eq]
    exact hchild
  · rcases wake_state (k.proc q) ((k.proc cur).parent.map Chan.proc) with
      hsame | ⟨hsleeping, _⟩
    · exact hsame.trans hzombie
    · rw [hzombie] at hsleeping
      cases hsleeping

theorem exitTail_procs {cur : Pslot} {k k' : Kernel}
    (hk : exitTail cur k = .ok ((), k')) :
    exists woken,
      (forall q, (k.proc q).parent = some cur ->
        (k.proc q).state = .ZOMBIE -> woken = true) ∧
      k'.procs = k.procs.exited cur woken := by
  have h : wp (exitTail cur) _ (fun _ => True) k := wp_exitTail cur k
  rcases wp_ok h hk with ⟨woken, hwoken, rfl⟩
  exact ⟨woken, hwoken, rfl⟩

def exitCwd (cur : Pslot) : KM Unit := do
  let pid ← pidOf cur
  onFs Fs.beginOp
  match ← cwdOf cur with
  | none => stop .nullDeref
  | some cwd => onFs (Fs.iput pid cwd)
  onFs Fs.endOp
  setProc cur (fun p => { p with cwd := none })

theorem wp_exit {Q : Unit -> Kernel -> Prop} {E : Stop -> Prop} {k : Kernel}
    {cur : Pslot} (hinit : cur = k.initproc -> E (.panic "init exiting"))
    (hclosed : cur ≠ k.initproc -> k.numofthread = 0 ->
      wp (forEach (exitOfile cur) (List.finRange NOFILE))
        (fun _ k1 => wp (exitCwd cur)
          (fun _ k2 => wp (exitTail cur) Q E k2) E k1) E k)
    (hleft : cur ≠ k.initproc -> k.numofthread ≠ 0 ->
      wp (exitTail cur) Q E k) :
    wp (exit cur) Q E k := by
  unfold exit
  rw [wp_bind, wp_gets, wp_ite]
  refine ⟨hinit, fun hother => ?_⟩
  rw [wp_bind, wp_gets]
  apply wp_ite.mpr
  refine ⟨fun hzero => ?_, hleft hother⟩
  rw [wp_bind]
  apply wp_post (hclosed hother hzero)
  intro _ k1 h1
  unfold exitCwd at h1
  rw [wp_bind] at h1 ⊢
  apply wp_post h1
  intro pid k2 h2
  rw [wp_bind] at h2 ⊢
  apply wp_post h2
  intro _ k3 h3
  unfold cwdOf at h3 ⊢
  rw [wp_bind, wp_gets] at h3 ⊢
  cases hcwd : (k3.proc cur).cwd with
  | none =>
      rw [hcwd] at h3
      exact h3
  | some cwd =>
      rw [hcwd] at h3
      simp only [exitTail, wp_bind] at h3 ⊢
      exact h3

theorem sees_exitCwd (cur : Pslot) (t : Procs) :
    Sees procs (exitCwd cur) t (fun _ t' => t' =
      t.set cur (fun p => { p with cwd := none })) := by
  apply Sees.keep (keeps_pidOf cur)
  intro pid
  apply Sees.keep (keeps_onFs _)
  intro _
  apply Sees.gets (fun t : Procs => (t.proc cur).cwd)
  cases (t.proc cur).cwd with
  | none => exact Sees.stop _ _ _
  | some cwd =>
      exact Sees.keep (keeps_onFs _) (fun _ =>
        Sees.keep (keeps_onFs _) (fun _ => sees_setProc cur _ rfl))

theorem sees_exit (cur : Pslot) (t : Procs) :
    Sees procs (exit cur) t (fun _ t' => Exit cur t t') := by
  rintro k rfl
  apply wp_exit (fun _ => trivial)
  · intro hinit hzero
    apply wp_post (sees_exitOfiles cur k.procs k rfl)
    intro _ k1 h1
    apply wp_post (sees_exitCwd cur k1.procs k1 rfl)
    intro _ k2 h2
    apply wp_post (wp_exitTail cur k2)
    rintro _ _ ⟨woken, _, rfl⟩
    show Exit cur k.procs (k2.procs.exited cur woken)
    rw [h2, h1, Procs.set_set]
    exact Exit.closed woken hinit hzero
  · intro hinit hthreads
    apply wp_post (wp_exitTail cur k)
    rintro _ _ ⟨woken, _, rfl⟩
    exact Exit.left woken hinit hthreads

/-!
## Wait and kill
-/

namespace Procs

def reapedThread (t : Procs) (p : Pslot) : Procs :=
  { t.set p (fun pr => { pr with state := .UNUSED }) with
    numofthread := t.numofthread - 1 }

def reaped (t : Procs) (p : Pslot) : Procs :=
  t.set p (fun pr =>
    { pr with
      kstack := none
      pid := 0
      parent := none
      name := []
      killed := false
      state := .UNUSED })

theorem reapedThread_of_ne (t : Procs) {p q : Pslot} (h : q ≠ p) :
    (t.reapedThread p).proc q = t.proc q :=
  Function.update_of_ne h _ t.proc

end Procs

/-- The scan of `wait` by `cur` finds the slot `p`. -/
structure Finds (cur : Pslot) (t : Procs) (p : Pslot) : Prop where
  parent : (t.proc p).parent = some cur
  state : (t.proc p).state = .ZOMBIE
  first : forall q, q < p ->
    ¬ ((t.proc q).parent = some cur ∧ (t.proc q).state = .ZOMBIE)

inductive Wait (cur : Pslot) (t : Procs) : Int -> Procs -> Prop where
  | thread (p : Pslot) (h : Finds cur t p)
      (hthread : (t.proc p).threadIndictor = 1) :
      Wait cur t (t.proc p).pid.toInt (t.reapedThread p)
  | proc (p : Pslot) (h : Finds cur t p)
      (hthread : (t.proc p).threadIndictor ≠ 1) :
      Wait cur t (t.proc p).pid.toInt (t.reaped p)
  | none
      (hzombie : forall p, (t.proc p).parent = some cur ->
        (t.proc p).state ≠ .ZOMBIE)
      (h : (forall p, (t.proc p).parent ≠ some cur) ∨
        (t.proc cur).killed = true) :
      Wait cur t (-1) t

theorem Finds.unique {cur : Pslot} {t : Procs} {p q : Pslot}
    (hp : Finds cur t p) (hq : Finds cur t q) : q = p :=
  first_unique
    (P := fun q => (t.proc q).parent = some cur ∧ (t.proc q).state = .ZOMBIE)
    ⟨hq.parent, hq.state⟩ hq.first ⟨hp.parent, hp.state⟩ hp.first

theorem wp_reap {Q : Int -> Kernel -> Prop} {E : Stop -> Prop} {k : Kernel}
    {p : Pslot}
    (hthread : (k.proc p).threadIndictor = 1 ->
      Q (k.proc p).pid.toInt (k.withTable k.vm (k.procs.reapedThread p)))
    (hnone : (k.proc p).kstack = none -> E (.panic "kfree"))
    (hproc : forall x, (k.proc p).threadIndictor ≠ 1 ->
      (k.proc p).kstack = some x ->
      wp (Vm.kfree x)
        (fun _ s => wp (Vm.freevm (k.proc p).pgdir)
          (fun _ s => Q (k.proc p).pid.toInt
            (k.withTable s (k.procs.reaped p))) E s) E k.vm) :
    wp (reap p) Q E k := by
  unfold reap
  rw [wp_bind, wp_gets, wp_ite]
  constructor
  · exact hthread
  · intro hnot
    cases hx : (k.proc p).kstack with
    | none => exact hnone hx
    | some x =>
        have hrun := hproc x hnot hx
        unfold setProc onVm
        simp only [wp_bind, wp_modify, wp_zoom, wp_pure]
        simpa [withTable, procs, Procs.reaped, Procs.set] using hrun

theorem wp_wait {Q : Int -> Kernel -> Prop} {E : Stop -> Prop} {k : Kernel}
    {cur : Pslot} (hfind : forall p, Finds cur k.procs p -> wp (reap p) Q E k)
    (hnone : (forall p, (k.proc p).parent = some cur ->
        (k.proc p).state ≠ .ZOMBIE) ->
      (forall p, (k.proc p).parent ≠ some cur) ∨
        (k.proc cur).killed = true -> Q (-1) k)
    (hsleep : (forall p, (k.proc p).parent = some cur ->
        (k.proc p).state ≠ .ZOMBIE) -> E .sleep) :
    wp (wait cur) Q E k := by
  unfold wait
  rw [wp_bind, wp_gets]
  simp only [id_eq]
  cases hscan : (List.finRange NPROC).find? (fun p =>
      (k.proc p).parent = some cur ∧ (k.proc p).state = .ZOMBIE) with
  | some p =>
      rcases scan_some hscan with ⟨hp, hfirst⟩
      exact hfind p ⟨hp.1, hp.2, hfirst⟩
  | none =>
      have hzombie : forall p, (k.proc p).parent = some cur ->
          (k.proc p).state ≠ .ZOMBIE :=
        fun p hparent hstate => scan_none hscan p ⟨hparent, hstate⟩
      rw [wp_ite]
      constructor
      · exact hnone hzombie
      · exact fun _ => hsleep hzombie

theorem wp_waits {k : Kernel} {cur : Pslot} :
    wp (wait cur)
      (fun r k' => exists s t, k' = k.withTable s t ∧ Wait cur k.procs r t)
      (fun _ => True) k := by
  apply wp_wait
  · intro p hfind
    apply wp_reap
    · exact fun hthread => ⟨_, _, rfl, Wait.thread p hfind hthread⟩
    · exact fun _ => trivial
    · intro x hnot _
      apply wp_trivial
      intro _ _
      exact wp_trivial (fun _ _ => ⟨_, _, rfl, Wait.proc p hfind hnot⟩)
  · exact fun hzombie hnone => ⟨_, _, rfl, Wait.none hzombie hnone⟩
  · exact fun _ => trivial

theorem sees_wait (cur : Pslot) (t : Procs) :
    Sees procs (wait cur) t (Wait cur t) := by
  rintro k rfl
  apply wp_post wp_waits
  rintro r _ ⟨s, t, rfl, hwait⟩
  exact hwait

def killSlot (pr : Proc) : Proc :=
  { pr with
    killed := true
    state := if pr.state = .SLEEPING then .RUNNABLE else pr.state }

theorem killSlot_state (pr : Proc) :
    (killSlot pr).state = pr.state ∨
      pr.state = .SLEEPING ∧ (killSlot pr).state = .RUNNABLE := by
  unfold killSlot
  simp only
  split
  · next h => exact Or.inr ⟨h, rfl⟩
  · exact Or.inl rfl

inductive Kill (pid : Int) (t : Procs) : Int -> Procs -> Prop where
  | found (p : Pslot) (h : (t.proc p).pid.toInt = pid)
      (hfirst : forall q, q < p -> (t.proc q).pid.toInt ≠ pid) :
      Kill pid t 0 (t.set p killSlot)
  | none (h : forall p, (t.proc p).pid.toInt ≠ pid) : Kill pid t (-1) t

theorem sees_kill (pid : Int) (t : Procs) :
    Sees procs (kill pid) t (Kill pid t) := by
  apply Sees.gets (fun t : Procs =>
    (List.finRange NPROC).find? (fun p => (t.proc p).pid.toInt = pid))
  cases hfind : (List.finRange NPROC).find?
      (fun p => (t.proc p).pid.toInt = pid) with
  | none =>
      exact Sees.pure (Kill.none (scan_none hfind))
  | some p =>
      rcases scan_some hfind with ⟨hp, hfirst⟩
      apply sees_setProc_bind
      exact Sees.pure (Kill.found p hp hfirst)

end Kernel
end Xv6
