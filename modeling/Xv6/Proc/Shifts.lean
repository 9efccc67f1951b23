import Xv6.Proc.Image
import Xv6.Proc.Paging

/-!
# Pages along a run

What each step of the kernel does to the pages.  Most steps leave the
processes what they hold; the others take pages for a new process, give the
pages of a process back, or change the address space of the caller.  From this
it follows when every page keeps its owner.
-/

namespace Xv6
namespace Kernel

open Lib Lib.Run

/-!
## What the processes hold
-/

/-- `holdings`, of the process table alone. -/
def Procs.holdings (t : Procs) : Holdings := fun p => holding (t.proc p)

theorem holding_congr {pr pr' : Proc}
    (hstate : pr'.state = .UNUSED ↔ pr.state = .UNUSED)
    (hpgdir : pr'.pgdir = pr.pgdir) (hkstack : pr'.kstack = pr.kstack)
    (hsz : pr'.sz = pr.sz) : holding pr' = holding pr := by
  unfold holding
  rw [hpgdir, hkstack, hsz]
  exact if_congr hstate rfl rfl

theorem unused_iff_of_woken {st st' : Procstate}
    (h : st' = st ∨ st = .SLEEPING ∧ st' = .RUNNABLE) :
    st' = .UNUSED ↔ st = .UNUSED := by
  rcases h with rfl | ⟨rfl, rfl⟩
  · exact Iff.rfl
  · decide

theorem holding_wake (chan : Option Chan) (pr : Proc) :
    holding (wake chan pr) = holding pr := by
  have hstate := unused_iff_of_woken (wake_state pr chan)
  rw [wake_eq] at hstate ⊢
  exact holding_congr hstate rfl rfl rfl

theorem holding_killSlot (pr : Proc) : holding (killSlot pr) = holding pr :=
  holding_congr (unused_iff_of_woken (killSlot_state pr)) rfl rfl rfl

theorem Procs.holdings_set {t : Procs} {p : Pslot} {g : Proc -> Proc}
    (h : holding (g (t.proc p)) = holding (t.proc p)) :
    (t.set p g).holdings = t.holdings := by
  funext q
  show holding ((t.set p g).proc q) = _
  rcases eq_or_ne q p with rfl | hne
  · rw [Procs.set_self, h]
    rfl
  · rw [Procs.set_of_ne t hne]
    rfl

theorem holding_state (pr : Proc) {st : Procstate} (hpr : pr.state ≠ .UNUSED)
    (hst : st ≠ .UNUSED) : holding { pr with state := st } = holding pr :=
  holding_congr (iff_of_false hst hpr) rfl rfl rfl

theorem exit_holdings {cur : Pslot} {t t' : Procs} (h : Exit cur t t')
    (hcur : (t.proc cur).state ≠ .UNUSED) : t'.holdings = t.holdings := by
  funext q
  show holding (t'.proc q) = holding (t.proc q)
  rcases eq_or_ne q cur with rfl | hne
  · cases h with
    | closed woken hinit hzero =>
        rw [Procs.exited_self]
        unfold Procs.closed
        rw [Procs.set_self]
        exact holding_state (t.proc q) hcur Procstate.noConfusion
    | left woken hinit hthreads =>
        rw [Procs.exited_self]
        exact holding_state (t.proc q) hcur Procstate.noConfusion
  · rcases exit_other h hne with ⟨woken, hslot⟩
    have hstate := unused_iff_of_woken
      (passSlot_wake_state cur t.initproc woken
        ((t.proc cur).parent.map Chan.proc) (t.proc q))
    rw [hslot]
    apply holding_congr hstate
    · show (wake _ (t.proc q)).pgdir = _
      rw [wake_eq]
    · show (wake _ (t.proc q)).kstack = _
      rw [wake_eq]
    · show (wake _ (t.proc q)).sz = _
      rw [wake_eq]

theorem noOfile_holdings (cur : Pslot) :
    NoOfile cur (fun (h : Holdings) t => t.holdings = h) := by
  constructor
  rintro _ t fd f rfl
  exact Procs.holdings_set rfl

/-!
## Steps
-/

/-- What a step does to the pages. -/
inductive Shifts (b : Vm.Managed) (lost : Multiset UInt32) (k : Kernel) :
    Act -> Kernel -> Prop where
  | same {a : Act} {k' : Kernel} (hslots : k'.holdings = k.holdings)
      (hat : Estate.At ⟨b, lost, k.holdings, k.vm⟩ k'.memory) :
      Shifts b lost k a k'
  | spawns {a : Act} {k' : Kernel} (h : Spawns b lost k a k') :
      Shifts b lost k a k'
  | reaps {k' : Kernel} (cur : Pslot) (h : Reaps b lost cur k k') :
      Shifts b lost k (.wait cur) k'
  | resizes {k' : Kernel} (cur : Pslot) (n : Option Int32)
      (hcur : (k.proc cur).state = .RUNNING)
      (h : Resizes b lost cur n k k') : Shifts b lost k (.sbrk cur n) k'
  | execs {k' : Kernel} (cur : Pslot)
      (args : Option (List UInt8 × List (List UInt8))) (old : UInt32)
      (path : List UInt8) (r : Int) (hcur : (k.proc cur).state = .RUNNING)
      (hold : (k.proc cur).pgdir = some old)
      (h : Execs (usedBut b lost k old) old cur path k r k') :
      Shifts b lost k (.call cur (.exec args)) k'

/-- The pages are allotted, and every process has an address space. -/
structure Tidy (b : Vm.Managed) (lost : Multiset UInt32) (k : Kernel) :
    Prop where
  allotted : Allotted b lost k.holdings k.memory
  free : k.FreeNone
  space : forall p h, k.holdings p = some h -> h.pgdir ≠ none

section Steps

variable {b : Vm.Managed} {lost : Multiset UInt32} {k k' : Kernel}
  {cur : Pslot} {r : Int}

theorem Tidy.at (h : Tidy b lost k) :
    Estate.At ⟨b, lost, k.holdings, k.vm⟩ k.memory :=
  ⟨h.allotted, fun _ _ => ⟨rfl, rfl⟩⟩

theorem Tidy.shifts_procs (h : Tidy b lost k) {a : Act}
    (hmem : k'.memory = k.memory) (hslots : k'.holdings = k.holdings) :
    Shifts b lost k a k' := by
  apply Shifts.same hslots
  rw [hmem]
  exact h.at

theorem shifts_files {a : Act} {α : Type} {m : KM α}
    {x : α} (hrun : m k = .ok (x, k'))
    (hslots : wp m (fun _ k' => k'.holdings = k.holdings) (fun _ => True) k)
    (howns : wp m
      (fun _ k' => Estate.At ⟨b, lost, k.holdings, k.vm⟩ k'.memory)
      (fun _ => True) k) :
    Shifts b lost k a k' := by
  have hslots' := wp_ok hslots hrun
  have howns' := wp_ok howns hrun
  exact .same hslots' howns'

theorem Tidy.shifts_exec (h : Tidy b lost k)
    {args : Option (List UInt8 × List (List UInt8))}
    (hcur : (k.proc cur).state = .RUNNING)
    (hrun : sysExec cur args k = .ok (r, k')) :
    Shifts b lost k (.call cur (.exec args)) k' := by
  have hused : k.holdings cur = some ⟨(k.proc cur).pgdir,
      (k.proc cur).kstack, (k.proc cur).sz⟩ := by
    apply holding_used
    rw [hcur]
    exact Procstate.noConfusion
  have hspace : (k.proc cur).pgdir ≠ none := h.space cur _ hused
  rcases Option.ne_none_iff_exists'.mp hspace with ⟨old, hold⟩
  have hopen := h.allotted.opened
    (Holdings.mem_dirs.mpr ⟨cur, _, hused, hold⟩)
  have hsame : k' = k -> Shifts b lost k (.call cur (.exec args)) k' := by
    rintro rfl
    exact h.shifts_procs rfl rfl
  cases args with
  | none =>
      cases hrun
      exact hsame rfl
  | some args =>
      rcases Decidable.em (MAXARG ≤ args.2.length) with hlong | hshort
      · have hrun' : (pure (-1) : KM Int) k = .ok (r, k') := by
          rw [← hrun]
          exact (congrFun (if_pos hlong) k).symm
        cases hrun'
        exact hsame rfl
      · have hrun' : exec cur args.1 args.2 k = .ok (r, k') := by
          rw [← hrun]
          exact (congrFun (if_neg hshort) k).symm
        have hexec := wp_ok (wp_exec (E := fun _ => True) args.1 args.2
          (fun _ _ => trivial) (fun _ => trivial) (fun _ => trivial) hold hopen
          (.inl trivial)) hrun'
        exact .execs cur (some args) old args.1 r hcur hold hexec

theorem Tidy.shifts_call (h : Tidy b lost k) {c : FsCall}
    (hcur : (k.proc cur).state = .RUNNING)
    (hrun : c.run cur k = .ok (r, k')) :
    Shifts b lost k (.call cur c) k' := by
  -- neither the pages nor the processes
  have hblind : Keeps memory (c.run cur) -> Keeps opens (c.run cur) ->
      Shifts b lost k (.call cur c) k' := by
    intro hmem hopens
    have hprocs : k'.procs = k.procs := congrArg Prod.snd (hopens.ok hrun)
    exact h.shifts_procs (hmem.ok hrun) (congrArg Procs.holdings hprocs)
  cases c with
  | «open» path omode =>
      exact shifts_files hrun
        ((noOfile_holdings cur).sysOpen path omode k.holdings k rfl)
        (wp_owned_sysOpen h.free h.at path omode)
  | mkdir path | mknod path major minor | link old new | unlink path =>
      exact hblind (blind_memory.fsCall _) (blind_opens.fsCall _)
  | chdir path =>
      rcases wp_ok (chdir_tables path k) hrun with ⟨_, cwd, hprocs⟩
      apply h.shifts_procs
      · have hkeeps : Keeps memory (sysChdir cur path) :=
          Turns.bind (blind_memory.fsCall _) (fun _ =>
            Turns.bind (keepsMemory_setProc cur _) (fun _ => keeps_pure _))
        exact hkeeps.ok hrun
      · exact (congrArg Procs.holdings hprocs).trans
          (Procs.holdings_set rfl)
  | exec args => exact h.shifts_exec hcur hrun
  | close fd =>
      exact shifts_files hrun
        ((noOfile_holdings cur).sysClose fd k.holdings k rfl)
        (owns_sysClose fd _ k h.at)
  | read fd n =>
      exact hblind
        (Turns.bind (blind_memory.sysRead fd n) (fun _ => keeps_pure _))
        (Turns.bind (blind_opens.sysRead fd n) (fun _ => keeps_pure _))
  | write fd src n =>
      exact hblind (blind_memory.sysWrite fd src n)
        (blind_opens.sysWrite fd src n)

theorem step_shifts {a : Act} (h : Tidy b lost k) (hstep : Step k a k') :
    Shifts b lost k a k' := by
  have hrunning := hstep.1.1
  have hready := hstep.1.2
  rcases hstep with ⟨_, r, hrun⟩
  have hlive : forall cur, a.caller = some cur ->
      (k.proc cur).state ≠ .UNUSED := by
    intro cur hcur hunused
    rw [hrunning cur hcur] at hunused
    cases hunused
  -- one slot changes its state
  have hstate : forall (p : Pslot) (g : Proc -> Proc),
      k' = { k with proc := Function.update k.proc p (g (k.proc p)) } ->
        holding (g (k.proc p)) = holding (k.proc p) ->
          Shifts b lost k a k' := by
    rintro p g rfl hg
    exact h.shifts_procs rfl (Procs.holdings_set (t := k.procs) hg)
  cases a with
  | fork cur =>
      have hspawns := wp_ok (wp_spawns_fork (E := fun _ => True) h.allotted
        (hlive cur rfl) (fun _ _ => trivial)
        (fun _ _ _ _ _ _ _ => trivial)) hrun
      exact .spawns hspawns
  | clone cur stack =>
      have hspawns :=
        wp_ok (wp_spawns_clone h.allotted (hlive cur rfl) stack) hrun
      exact .spawns hspawns
  | exit cur =>
      have hexit := exit_of_step ⟨⟨hrunning, hready⟩, r, hrun⟩
      have howns := wp_ok (owns_exit _ k h.at) hexit
      exact .same
        (exit_holdings ((sees_exit cur k.procs).ok hexit) (hlive cur rfl))
        howns
  | wait cur =>
      have hreaps := wp_ok (wp_reaps_wait h.allotted) hrun
      exact .reaps cur hreaps
  | kill cur pid =>
      have hkill := (sees_kill pid.toInt k.procs).ok hrun
      apply h.shifts_procs
      · have hkeeps : Keeps memory (kill pid.toInt) := by
          apply Turns.bind (keeps_gets _)
          intro p
          cases p with
          | none => exact keeps_pure _
          | some p =>
              exact Turns.bind (keepsMemory_setProc p _)
                (fun _ => keeps_pure _)
        exact hkeeps.ok hrun
      · show k'.procs.holdings = k.procs.holdings
        generalize k'.procs = t' at hkill
        cases hkill with
        | found p => exact Procs.holdings_set (holding_killSlot _)
        | none => rfl
  | tickets cur n =>
      cases n with
      | none =>
          cases hrun
          exact h.shifts_procs rfl rfl
      | some n =>
          cases hrun
          exact hstate cur (fun pr => { pr with tickets := n.toInt }) rfl rfl
  | call cur c => exact h.shifts_call (hrunning cur rfl) hrun
  | dup cur fd =>
      exact shifts_files hrun
        ((noOfile_holdings cur).sysDup fd k.holdings k rfl)
        (owns_of_keeps (keepsMemory_sysDup cur fd) _ k h.at)
  | pipe cur ok =>
      rcases pipe_of_step ⟨⟨hrunning, hready⟩, r, hrun⟩ with ⟨x, hpipe⟩
      exact shifts_files hpipe
        ((noOfile_holdings cur).sysPipe ok k.holdings k rfl)
        (wp_owned_sysPipe h.free h.at ok)
  | sbrk cur n =>
      have hresizes :=
        wp_ok (wp_resizes_sysSbrk h.allotted (hlive cur rfl) n) hrun
      exact .resizes cur n (hrunning cur rfl) hresizes
  | yield cur =>
      cases hrun
      exact hstate cur (fun pr => { pr with state := .RUNNABLE }) rfl
        (holding_state _ (hlive cur rfl) Procstate.noConfusion)
  | sleep cur chan =>
      cases hrun
      exact hstate cur (fun pr =>
        { pr with chan := some chan, state := .SLEEPING }) rfl
        (holding_state _ (hlive cur rfl) Procstate.noConfusion)
  | wakeup chan =>
      cases hrun
      exact h.shifts_procs rfl
        (funext (fun p => holding_wake (some chan) (k.proc p)))
  | dispatch p =>
      cases hrun
      refine hstate p (fun pr =>
        { pr with state := .RUNNING, chan := none }) rfl
        (holding_state _ ?_ Procstate.noConfusion)
      rw [hready p rfl]
      exact Procstate.noConfusion

end Steps

/-!
## Every page keeps its owner
-/

/-- No other process has the page directory of the slot `p`. -/
def Alone (k : Kernel) (p : Pslot) : Prop :=
  forall q, q ≠ p -> (k.proc q).state ≠ .UNUSED ->
    (k.proc q).pgdir ≠ (k.proc p).pgdir

/-- The step frees the address space of the slot `p`: `wait` the one of a
process that it reaps, `exec` the one of the caller. -/
def FreesSpace (k : Kernel) : Act -> Pslot -> Prop
  | .wait cur, p => Finds cur k.procs p ∧ (k.proc p).threadIndictor ≠ 1
  | .call cur (.exec _), p => p = cur
  | _, _ => False

/-- The step leaves a kernel stack to nobody. -/
def Drops (k : Kernel) : Act -> Prop
  | .wait cur => exists p, Finds cur k.procs p ∧ (k.proc p).threadIndictor = 1
  | _ => False

theorem holdings_some {k : Kernel} {p : Pslot} {h : Holding}
    (hp : k.holdings p = some h) :
    (k.proc p).state ≠ .UNUSED ∧
      h = ⟨(k.proc p).pgdir, (k.proc p).kstack, (k.proc p).sz⟩ := by
  have hstate : (k.proc p).state ≠ .UNUSED := by
    intro hunused
    rw [show k.holdings p = none from holding_eq_none.mpr hunused] at hp
    cases hp
  refine ⟨hstate, ?_⟩
  have hused : k.holdings p = some _ := holding_used hstate
  exact Option.some.inj (hp.symm.trans hused)

theorem Alone.unshared {k : Kernel} {p : Pslot} (h : Alone k p) {d : UInt32}
    (hd : (k.proc p).pgdir = some d) : k.holdings.Unshared p d := by
  intro q hq hne hsome hpgdir
  rcases holdings_some hsome with ⟨hstate, rfl⟩
  apply h q hne hstate
  rw [hd]
  exact hpgdir

theorem Sized.le {n : Int32} {d sz r : UInt32} {s s' : Vm}
    (h : Sized n d sz s r s') (hsz : sz ≤ KERNBASE) : r ≤ KERNBASE := by
  cases h with
  | up hn h =>
      cases h with
      | fail => decide
      | keep => exact hsz
      | grow hle hlt => exact UInt32.le_of_lt hlt
  | down hn h =>
      split
      · exact hsz
      · next hnot =>
          have hlt := UInt32.not_le.mp hnot
          exact UInt32.le_trans (UInt32.le_of_lt hlt) hsz
  | zero hn => exact hsz

section Tidy

variable {b : Vm.Managed} {lost : Multiset UInt32} {k k' : Kernel} {a : Act}

theorem Tidy.size (h : Tidy b lost k) {p : Pslot}
    (hp : (k.proc p).state ≠ .UNUSED) : (k.proc p).sz ≤ KERNBASE :=
  h.allotted.size p _ (holding_used hp)

theorem Tidy.spawned (h : Tidy b lost k) (hspawns : Spawns b lost k a k') :
    Allotted b lost k'.holdings k'.memory := by
  have hall := h.allotted
  cases hspawns with
  | fail hpipes hslots hs =>
      rw [hslots, hpipes.memory_eq]
      exact hall.rest hs
  | copied cur p x d hcur hfree hpipes hslots hs hmaps =>
      rw [hslots, hpipes.memory_eq]
      exact hall.fork hs hfree rfl rfl (h.size hcur)
  | shared cur p stack x hcur hfree hpipes hslots hs =>
      rw [hslots, hpipes.memory_eq]
      have hused : k.holdings cur = some _ := holding_used hcur
      exact hall.clone hs hfree hused rfl rfl (h.size hcur)

theorem Tidy.resized (h : Tidy b lost k) {cur : Pslot} {n : Option Int32}
    (hcur : (k.proc cur).state ≠ .UNUSED)
    (hresizes : Resizes b lost cur n k k') :
    Allotted b lost k'.holdings k'.memory := by
  have hall := h.allotted
  have hused : k.holdings cur = some _ := holding_used hcur
  cases hresizes with
  | none => exact hall
  | done i d sz hi hd hgrows hpipes hslots hs =>
      have hwork := hall.work (Holdings.mem_dirs.mpr ⟨cur, _, hused, hd⟩) hs
      rw [hslots, hpipes.memory_eq]
      split
      · exact hwork
      · exact hwork.resized hused hd.symm rfl
          (hgrows.le (h.size hcur))

theorem Tidy.reimaged (h : Tidy b lost k) {cur : Pslot} {old : UInt32}
    {path : List UInt8} {r : Int} (hcur : (k.proc cur).state ≠ .UNUSED)
    (hold : (k.proc cur).pgdir = some old) (halone : Alone k cur)
    (hexecs : Execs (usedBut b lost k old) old cur path k r k') :
    Allotted b lost k'.holdings k'.memory := by
  have hall := h.allotted
  have hused : k.holdings cur = some _ := holding_used hcur
  have hmem := Holdings.mem_dirs.mpr ⟨cur, _, hused, hold⟩
  have hpipes : k'.file = k.file -> k'.pipe = k.pipe ->
      k'.memory = { k.memory with vm := k'.vm } := by
    intro hfile hpipe
    unfold memory
    rw [hfile, hpipe]
  cases hexecs with
  | fail hstill hs =>
      have hprocs : k'.procs = k.procs := congrArg (fun x => x.2.2) hstill
      have hslots : k'.holdings = k.holdings :=
        congrArg Procs.holdings hprocs
      rw [hslots, hpipes (congrArg Prod.fst hstill)
        (congrArg (fun x => x.2.1) hstill)]
      exact hall.work hmem ((hall.opened hmem).unpark hs)
  | done d sz entry sp hfile hpipe hprocs hs himage =>
      have hslots : k'.holdings = Function.update k.holdings cur
          (some ⟨some d, (k.proc cur).kstack, sz⟩) := by
        refine (congrArg Procs.holdings hprocs).trans ?_
        funext q
        rcases eq_or_ne q cur with rfl | hne
        · rw [Function.update_self]
          refine (congrArg holding (Procs.set_self ..)).trans ?_
          exact holding_used hcur
        · rw [Function.update_of_ne hne]
          exact congrArg holding (Procs.set_of_ne _ hne _)
      rw [hslots, hpipes hfile hpipe]
      exact hall.replaced hs hused hold (halone.unshared hold) rfl rfl
        (UInt32.le_of_lt himage.size)

/-- Every page keeps its owner where an address space is freed only by its
last process; what a reaped thread had for a stack is lost. -/
theorem Shifts.allotted (h : Tidy b lost k) (hshifts : Shifts b lost k a k')
    (halone : forall p, FreesSpace k a p -> Alone k p) :
    exists lost', Allotted b lost' k'.holdings k'.memory ∧
      (¬ Drops k a -> lost' = lost) := by
  have hall := h.allotted
  cases hshifts with
  | same hslots hat => exact ⟨lost, hslots ▸ hat.owned, fun _ => rfl⟩
  | spawns hspawns => exact ⟨lost, h.spawned hspawns, fun _ => rfl⟩
  | reaps cur hreaps =>
      cases hreaps with
      | none => exact ⟨lost, hall, fun _ => rfl⟩
      | thread p hfind hthread hmem hslots =>
          rcases hall.abandoned p with ⟨lost', hlost⟩
          rw [hslots, hmem]
          exact ⟨lost', hlost, fun hdrops => absurd ⟨p, hfind, hthread⟩ hdrops⟩
      | proc p d hfind hthread hd hpipes hslots hs =>
          have hstate : (k.proc p).state ≠ .UNUSED := by
            rw [show (k.proc p).state = .ZOMBIE from hfind.state]
            exact Procstate.noConfusion
          have hused : k.holdings p = some _ := holding_used hstate
          refine ⟨lost, ?_, fun _ => rfl⟩
          rw [hslots, hpipes.memory_eq]
          exact hall.reaped hs hused hd
            ((halone p ⟨hfind, hthread⟩).unshared hd)
  | resizes cur n hcur hresizes =>
      refine ⟨lost, h.resized ?_ hresizes, fun _ => rfl⟩
      rw [hcur]
      exact Procstate.noConfusion
  | execs cur args old path r hcur hold hexecs =>
      refine ⟨lost, h.reimaged ?_ hold (halone cur rfl) hexecs, fun _ => rfl⟩
      rw [hcur]
      exact Procstate.noConfusion

theorem Shifts.pipes (h : Tidy b lost k) (hshifts : Shifts b lost k a k') :
    k'.memory.ends = k.memory.ends ∨
      (k'.vm.freelist : Multiset UInt32) + k'.memory.ends.pipes.val =
        (k.vm.freelist : Multiset UInt32) + k.memory.ends.pipes.val := by
  cases hshifts with
  | same hslots hat =>
      right
      have hpages : ∑ d ∈ k.holdings.dirs, k'.vm.pages d =
          ∑ d ∈ k.holdings.dirs, k.vm.pages d := by
        apply Finset.sum_congr rfl
        intro d hd
        rcases hat.same d hd with ⟨htable, hentry⟩
        exact Vm.pages_congr htable hentry
      have hsum := hat.owned.sum.trans h.allotted.sum.symm
      change (k'.vm.freelist : Multiset UInt32) +
        (∑ d ∈ _, k'.vm.pages d + (_ + (_ + _))) =
          (k.vm.freelist : Multiset UInt32) +
            (∑ d ∈ _, k.vm.pages d + (_ + (_ + _))) at hsum
      rw [hpages, add_left_comm _ (∑ d ∈ _, k.vm.pages d),
        add_left_comm _ (∑ d ∈ _, k.vm.pages d)] at hsum
      have hrest := add_left_cancel hsum
      rw [add_left_comm, add_left_comm (k.vm.freelist : Multiset UInt32)]
        at hrest
      have hlast := add_left_cancel hrest
      rw [← add_assoc, ← add_assoc] at hlast
      exact add_right_cancel hlast
  | spawns hspawns =>
      left
      cases hspawns with
      | fail hpipes | copied _ _ _ _ _ _ hpipes | shared _ _ _ _ _ _ hpipes =>
          exact hpipes.ends
  | reaps cur hreaps =>
      left
      cases hreaps with
      | none => rfl
      | thread p hfind hthread hmem => exact congrArg Memory.ends hmem
      | proc p d hfind hthread hd hpipes => exact hpipes.ends
  | resizes cur n hcur hresizes =>
      left
      cases hresizes with
      | none => rfl
      | done i d sz hi hd hgrows hpipes => exact hpipes.ends
  | execs cur args old path r hcur hold hexecs =>
      left
      have hends : k'.file = k.file -> k'.memory.ends = k.memory.ends :=
        fun hfile => congrArg (fun t : Fslot -> File => fun f => endOf (t f))
          hfile
      cases hexecs with
      | fail hstill => exact hends (congrArg Prod.fst hstill)
      | done d sz entry sp hfile => exact hends hfile

end Tidy

/-!
## Page directories
-/

/-- A slot in use was in use before, with the same page directory. -/
def HadDir (k k' : Kernel) (q : Pslot) : Prop :=
  (k'.proc q).state ≠ .UNUSED ->
    (k.proc q).state ≠ .UNUSED ∧ (k'.proc q).pgdir = (k.proc q).pgdir

/-- What a step does to the page directories: none is new, or one slot gets
one that nobody else has, or a thread gets the one of its parent. -/
inductive DirStep (k : Kernel) : Act -> Kernel -> Prop where
  | kept {a : Act} {k' : Kernel} (h : forall q, HadDir k k' q) : DirStep k a k'
  | fresh {a : Act} {k' : Kernel} (p : Pslot) (d : UInt32)
      (hother : forall q, q ≠ p -> HadDir k k' q)
      (hd : (k'.proc p).pgdir = some d)
      (hfresh : forall q, q ≠ p -> (k.proc q).state ≠ .UNUSED ->
        (k.proc q).pgdir ≠ some d) : DirStep k a k'
  | shared {k' : Kernel} (cur p : Pslot) (stack : UInt32)
      (hother : forall q, q ≠ p -> HadDir k k' q)
      (hp : (k.proc p).state = .UNUSED)
      (hcur : (k.proc cur).state ≠ .UNUSED)
      (hd : (k'.proc p).pgdir = (k.proc cur).pgdir) :
      DirStep k (.clone cur stack) k'

section Dirs

variable {b : Vm.Managed} {lost : Multiset UInt32} {k k' : Kernel} {a : Act}

theorem hadDir_of_holdings {q : Pslot} (h : k'.holdings q = k.holdings q) :
    HadDir k k' q := by
  intro hused
  have hnew : k'.holdings q = some _ := holding_used hused
  rcases holdings_some (h.symm.trans hnew) with ⟨hstate, heq⟩
  exact ⟨hstate, congrArg Holding.pgdir heq⟩

theorem hadDir_of_update {p : Pslot} {v : Option Holding}
    (h : k'.holdings = Function.update k.holdings p v) {q : Pslot}
    (hq : q ≠ p) : HadDir k k' q := by
  apply hadDir_of_holdings
  rw [h, Function.update_of_ne hq]

theorem pgdir_of_update {p : Pslot} {h : Holding}
    (hslots : k'.holdings = Function.update k.holdings p (some h)) :
    (k'.proc p).pgdir = h.pgdir := by
  have hp : k'.holdings p = some h := by rw [hslots, Function.update_self]
  rw [(holdings_some hp).2]

theorem unused_of_update {p : Pslot}
    (hslots : k'.holdings = Function.update k.holdings p none) :
    (k'.proc p).state = .UNUSED := by
  have hp : k'.holdings p = none := by rw [hslots, Function.update_self]
  exact holding_eq_none.mp hp

theorem notMem_dirs {D : Finset UInt32} {P loose : Multiset UInt32}
    {s : Vm} {d : UInt32}
    (hs : Vm.Holds (beside b k.vm D P) (some d) loose s) {q : Pslot}
    (hq : forall d', (k.proc q).pgdir = some d' -> d' ∈ D) :
    (k.proc q).pgdir ≠ some d :=
  fun hd => beside_notMem hs (hq d hd)

theorem mem_dirs_used {q : Pslot} {d : UInt32}
    (hused : (k.proc q).state ≠ .UNUSED) (hd : (k.proc q).pgdir = some d) :
    d ∈ k.holdings.dirs :=
  Holdings.mem_dirs.mpr ⟨q, _, holding_used hused, hd⟩

theorem Shifts.dirStep (h : Shifts b lost k a k')
    (halone : forall p, FreesSpace k a p -> Alone k p) : DirStep k a k' := by
  -- a slot is emptied
  have hempty : forall p, k'.holdings = Function.update k.holdings p none ->
      DirStep k a k' := by
    intro p hslots
    refine .kept (fun q => ?_)
    rcases eq_or_ne q p with rfl | hne
    · exact fun hused => absurd (unused_of_update hslots) hused
    · exact hadDir_of_update hslots hne
  have hsame : k'.holdings = k.holdings -> DirStep k a k' := by
    intro hslots
    exact .kept (fun q => hadDir_of_holdings (by rw [hslots]))
  cases h with
  | same hslots hat => exact hsame hslots
  | spawns hspawns =>
      cases hspawns with
      | fail hpipes hslots hs => exact hsame hslots
      | copied cur p x d hcur hfree hpipes hslots hs hmaps =>
          refine .fresh p d (fun q hq => hadDir_of_update hslots hq)
            (pgdir_of_update hslots) (fun q hq hused => ?_)
          exact notMem_dirs hs (fun d' => mem_dirs_used hused)
      | shared cur p stack x hcur hfree hpipes hslots hs =>
          exact .shared cur p stack (fun q hq => hadDir_of_update hslots hq)
            (holding_eq_none.mp hfree) hcur (pgdir_of_update hslots)
  | reaps cur hreaps =>
      cases hreaps with
      | none => exact hsame rfl
      | thread p hfind hthread hmem hslots
      | proc p d hfind hthread hd hpipes hslots hs => exact hempty p hslots
  | resizes cur n hcur hresizes =>
      cases hresizes with
      | none => exact hsame rfl
      | done i d sz hi hd hgrows hpipes hslots hs =>
          refine .kept (fun q => ?_)
          split at hslots
          · exact hadDir_of_holdings (by rw [hslots])
          · rcases eq_or_ne q cur with rfl | hne
            · intro _
              refine ⟨?_, (pgdir_of_update hslots).trans hd.symm⟩
              rw [hcur]
              exact Procstate.noConfusion
            · exact hadDir_of_update hslots hne
  | execs cur args old path r hcur hold hexecs =>
      cases hexecs with
      | fail hstill hs =>
          have hprocs : k'.procs = k.procs :=
            congrArg (fun x => x.2.2) hstill
          exact hsame (congrArg Procs.holdings hprocs)
      | done d sz entry sp hfile hpipe hprocs hs himage =>
          have hproc : forall q, k'.proc q = _ :=
            fun q => congrArg (fun t => Procs.proc t q) hprocs
          refine .fresh cur d (fun q hq => ?_) ?_ (fun q hq hused => ?_)
          · apply hadDir_of_holdings
            refine congrArg holding ((hproc q).trans ?_)
            exact Procs.set_of_ne _ hq _
          · exact congrArg Proc.pgdir ((hproc cur).trans (Procs.set_self ..))
          · apply notMem_dirs hs
            intro d' hd'
            refine Finset.mem_erase.mpr ⟨?_, mem_dirs_used hused hd'⟩
            rintro rfl
            exact halone cur rfl q hq hused (hd'.trans hold.symm)

end Dirs

/-!
## Runs
-/

/-- An address space is freed only by its last process. -/
def FreesOwn (k : Kernel) (a : Act) : Prop :=
  forall p, FreesSpace k a p -> Alone k p

section Runs

variable {b : Vm.Managed} {lost : Multiset UInt32} {k k' : Kernel} {a : Act}

theorem step_dirStep (h : Tidy b lost k) (hown : FreesOwn k a)
    (hstep : Step k a k') : DirStep k a k' :=
  (step_shifts h hstep).dirStep hown

theorem step_tidy (h : Tidy b lost k) (hown : FreesOwn k a)
    (hstep : Step k a k') :
    exists lost', Tidy b lost' k' ∧ (¬ Drops k a -> lost' = lost) := by
  have hshifts := step_shifts h hstep
  rcases hshifts.allotted h hown with ⟨lost', hall, hlost⟩
  refine ⟨lost', ⟨hall, freeNone_step h.free hstep, ?_⟩, hlost⟩
  -- a page directory is an old one or a new one
  have hold : forall q, (k.proc q).state ≠ .UNUSED ->
      (k.proc q).pgdir ≠ none :=
    fun q hused => h.space q _ (holding_used hused)
  have hkept : forall q, HadDir k k' q -> (k'.proc q).state ≠ .UNUSED ->
      (k'.proc q).pgdir ≠ none := by
    intro q hhad hused
    rcases hhad hused with ⟨hused', hpgdir⟩
    rw [hpgdir]
    exact hold q hused'
  intro q hq hsome
  rcases holdings_some hsome with ⟨hused, rfl⟩
  show (k'.proc q).pgdir ≠ none
  cases hshifts.dirStep hown with
  | kept hhad => exact hkept q (hhad q) hused
  | fresh p d hother hd hfresh =>
      rcases eq_or_ne q p with rfl | hne
      · rw [hd]
        exact Option.some_ne_none d
      · exact hkept q (hother q hne) hused
  | shared cur p stack hother hp hcur hd =>
      rcases eq_or_ne q p with rfl | hne
      · rw [hd]
        exact hold cur hcur
      · exact hkept q (hother q hne) hused

def NoSharing (k : Kernel) : Prop :=
  forall p, (k.proc p).state ≠ .UNUSED -> Alone k p

theorem noSharing_step (h : NoSharing k)
    (hclone : forall cur stack, a ≠ .clone cur stack)
    (hdir : DirStep k a k') : NoSharing k' := by
  intro p hp q hne hq heq
  cases hdir with
  | kept hhad =>
      rcases hhad p hp with ⟨hp', hpd⟩
      rcases hhad q hq with ⟨hq', hqd⟩
      exact h p hp' q hne hq' (hqd.symm.trans (heq.trans hpd))
  | fresh r d hother hd hfresh =>
      rcases eq_or_ne p r with rfl | hpr
      · rcases hother q hne hq with ⟨hq', hqd⟩
        exact hfresh q hne hq' (hqd.symm.trans (heq.trans hd))
      · rcases hother p hpr hp with ⟨hp', hpd⟩
        rcases eq_or_ne q r with rfl | hqr
        · exact hfresh p hpr hp' (hpd.symm.trans (heq.symm.trans hd))
        · rcases hother q hqr hq with ⟨hq', hqd⟩
          exact h p hp' q hne hq' (hqd.symm.trans (heq.trans hpd))
  | shared cur r stack => exact hclone cur stack rfl

/-- The state after `userinit`, with every page of the machine in one place. -/
structure Launched (b : Vm.Managed) (k : Kernel) : Prop extends Booted k where
  pages : Allotted b 0 k.holdings k.memory

theorem boot_launched : Launched bootManaged boot :=
  ⟨boot_booted, boot_allotted⟩

theorem Booted.used (h : Booted k) {p : Pslot}
    (hp : (k.proc p).state ≠ .UNUSED) : p = k.initproc := by
  apply of_not_not
  intro hne
  rw [h.other p hne] at hp
  exact hp rfl

theorem Launched.tidy (h : Launched b k) : Tidy b 0 k := by
  refine ⟨h.pages, fun f _ => (h.file f).2, fun p hp hsome => ?_⟩
  rcases holdings_some hsome with ⟨hused, rfl⟩
  cases h.used hused
  rcases h.init with ⟨kstack, pgdir, cwd, state, _, hinit⟩
  show (k.proc k.initproc).pgdir ≠ none
  rw [hinit]
  exact Option.some_ne_none pgdir

theorem Launched.noSharing (h : Launched b k) : NoSharing k := by
  intro p hp q hne hq
  exact absurd ((h.used hq).trans (h.used hp).symm) hne

end Runs

end Kernel
end Xv6
