import Xv6.Lib.Machine
import Xv6.Lib.Words

/-!
# Spin-locks and the interrupt flag

`spinlock.c` as one CPU runs it.  Every lock that the CPU holds keeps its
interrupts off, so `pushcli` and `popcli` count how often they have been
switched off, and the flag that `pushcli` found at the first of them is put back
by the last `popcli`.  `acquire` and `release` ask `holding` first, which pushes
and pops once more.
-/

namespace Xv6
namespace Spinlock

open Lib Lib.Run

/-- A spin-lock; `cpu` is the CPU that has taken it. -/
structure Lock (C : Type) where
  locked : UInt32
  cpu : Option C

/-- What a CPU works on: its flag `FL_IF`, the two fields of its own
`struct cpu`, and the locks. -/
structure Core (C L : Type) where
  interrupts : Bool
  ncli : Int32
  intena : Bool
  lock : L -> Lock C

/-- Why a call does not return.  A lock that is taken stays taken as long as
this CPU is the only one to run. -/
inductive Stuck where
  | panic (msg : String)
  | spins

abbrev CM (C L α : Type) : Type := Run Stuck (Core C L) α

section Code

variable {C L α : Type} [DecidableEq C] [DecidableEq L] (me : C)

def panic (msg : String) : CM C L α := stop (.panic msg)

def readeflags : CM C L Bool := gets Core.interrupts

def cli : CM C L Unit := modify (fun s => { s with interrupts := false })

def sti : CM C L Unit := modify (fun s => { s with interrupts := true })

def mycpu : CM C L C := do
  if ← readeflags then
    panic "mycpu called with interrupts enabled\n"
  else
    pure me

/-- A field of `mycpu()`. -/
def getCpu (f : Core C L -> α) : CM C L α := do
  let _ ← mycpu me
  gets f

def setCpu (f : Core C L -> Core C L) : CM C L Unit := do
  let _ ← mycpu me
  modify f

def setLock (lk : L) (f : Lock C -> Lock C) : CM C L Unit :=
  modify (fun s =>
    { s with lock := Function.update s.lock lk (f (s.lock lk)) })

def xchg (lk : L) (newval : UInt32) : CM C L UInt32 := do
  let old ← gets (fun s => (s.lock lk).locked)
  setLock lk (fun l => { l with locked := newval })
  pure old

def pushcli : CM C L Unit := do
  let eflags ← readeflags
  cli
  if (← getCpu me Core.ncli) = 0 then
    setCpu me (fun s => { s with intena := eflags })
  else
    pure ()
  setCpu me (fun s => { s with ncli := s.ncli + 1 })

def popcli : CM C L Unit := do
  if ← readeflags then
    panic "popcli - interruptible"
  else do
    setCpu me (fun s => { s with ncli := s.ncli - 1 })
    if (← gets Core.ncli) < 0 then
      panic "popcli"
    else if (← getCpu me Core.ncli) = 0 then do
      if ← getCpu me Core.intena then
        sti
      else
        pure ()
    else
      pure ()

def holding (lk : L) : CM C L Bool := do
  pushcli me
  let l ← gets (fun s => s.lock lk)
  let r ←
    if l.locked ≠ 0 then do
      let c ← mycpu me
      pure (decide (l.cpu = some c))
    else
      pure false
  popcli me
  pure r

def acquire (lk : L) : CM C L Unit := do
  pushcli me
  if ← holding me lk then
    panic "acquire"
  else do
    if (← xchg lk 1) ≠ 0 then
      stop .spins
    else do
      let c ← mycpu me
      setLock lk (fun l => { l with cpu := some c })

def release (lk : L) : CM C L Unit := do
  if ← holding me lk then do
    setLock lk (fun l => { l with cpu := none })
    setLock lk (fun l => { l with locked := 0 })
    popcli me
  else
    panic "release"

end Code

/-!
## One call
-/

/-- The CPU as `pushcli` leaves it. -/
def Core.pushed {C L : Type} (s : Core C L) : Core C L :=
  { s with
    interrupts := false
    intena := if s.ncli = 0 then s.interrupts else s.intena
    ncli := s.ncli + 1 }

/-- The CPU as `popcli` leaves it. -/
def Core.popped {C L : Type} (s : Core C L) : Core C L :=
  { s with
    interrupts := decide (s.ncli - 1 = 0) && s.intena
    ncli := s.ncli - 1 }

def Core.withLock {C L : Type} [DecidableEq L] (s : Core C L) (lk : L)
    (l : Lock C) : Core C L :=
  { s with lock := Function.update s.lock lk l }

def Lock.HeldBy {C : Type} (me : C) (l : Lock C) : Prop :=
  l.locked ≠ 0 ∧ l.cpu = some me

instance {C : Type} [DecidableEq C] (me : C) (l : Lock C) :
    Decidable (l.HeldBy me) :=
  inferInstanceAs (Decidable (_ ∧ _))

section Calls

variable {C L : Type} {me : C} {s : Core C L} {E : Stuck -> Prop}

theorem wp_pushcli {Q : Unit -> Core C L -> Prop} (h : Q () s.pushed) :
    wp (pushcli me) Q E s := by
  unfold pushcli getCpu setCpu mycpu readeflags cli
  simp only [wp_bind, wp_gets, wp_modify, Bool.false_eq_true, if_false,
    wp_pure]
  unfold Core.pushed at h
  rcases Decidable.em (s.ncli = 0) with hzero | hpos
  · simpa [hzero] using h
  · simpa [hpos] using h

theorem wp_popcli {Q : Unit -> Core C L -> Prop} (hoff : s.interrupts = false)
    (hneg : s.ncli - 1 < 0 -> E (.panic "popcli"))
    (hdone : ¬ s.ncli - 1 < 0 -> Q () s.popped) : wp (popcli me) Q E s := by
  unfold popcli getCpu setCpu mycpu readeflags sti
  simp only [wp_bind, wp_gets, wp_modify, hoff, Bool.false_eq_true, if_false,
    wp_pure]
  unfold Core.popped at hdone
  rcases Decidable.em (s.ncli - 1 < 0) with h | h
  · simpa [h, panic] using hneg h
  · have hend := hdone h
    rcases Decidable.em (s.ncli - 1 = 0) with hzero | hpos
    · cases hintena : s.intena with
      | true | false => simpa [hzero, hintena, hoff] using hend
    · simpa [h, hpos, hoff] using hend

theorem pushed_popped (hoff : s.interrupts = false) (hdepth : s.ncli ≠ 0) :
    s.pushed.popped = s := by
  have hback : s.ncli + 1 - 1 = s.ncli := Int32.add_sub_cancel s.ncli 1
  unfold Core.popped Core.pushed
  simp only [hback, hdepth, decide_false, Bool.false_and, if_false]
  rw [← hoff]

variable [DecidableEq C] {lk : L}

theorem wp_holding {Q : Bool -> Core C L -> Prop}
    (hneg : s.ncli < 0 -> E (.panic "popcli"))
    (hdone : ¬ s.ncli < 0 ->
      Q (decide ((s.lock lk).HeldBy me)) s.pushed.popped) :
    wp (holding me lk) Q E s := by
  have hpop : forall r, r = decide ((s.lock lk).HeldBy me) ->
      wp (do
        popcli me
        pure r) Q E s.pushed := by
    intro r hr
    subst hr
    have hback : s.pushed.ncli - 1 = s.ncli := Int32.add_sub_cancel s.ncli 1
    rw [wp_bind]
    apply wp_popcli
    · rfl
    · rw [hback]
      exact hneg
    · rw [hback]
      exact hdone
  unfold holding
  rw [wp_bind]
  apply wp_pushcli
  unfold mycpu readeflags
  rw [wp_bind, wp_gets]
  dsimp only
  rw [wp_ite]
  constructor
  · intro htaken
    have htaken : (s.lock lk).locked ≠ 0 := htaken
    apply hpop
    rw [decide_eq_decide]
    exact (and_iff_right htaken).symm
  · intro hfree
    have hfree : ¬ (s.lock lk).locked ≠ 0 := hfree
    apply hpop
    simp [Lock.HeldBy, hfree]

variable [DecidableEq L]

theorem wp_acquire {Q : Unit -> Core C L -> Prop}
    (hfree : (s.lock lk).locked = 0) (hdepth : s.ncli + 1 ≠ 0)
    (hneg : s.ncli + 1 < 0 -> E (.panic "popcli"))
    (hdone : ¬ s.ncli + 1 < 0 -> Q () (s.pushed.withLock lk ⟨1, some me⟩)) :
    wp (acquire me lk) Q E s := by
  have hnot : ¬ (s.pushed.lock lk).HeldBy me := fun h => h.1 hfree
  have hback : s.pushed.pushed.popped = s.pushed := pushed_popped rfl hdepth
  have hoff : s.pushed.interrupts = false := rfl
  have hlocked : (s.pushed.lock lk).locked = 0 := hfree
  unfold acquire
  rw [wp_bind]
  apply wp_pushcli
  rw [wp_bind]
  apply wp_holding
  · exact hneg
  · intro hpos
    rw [decide_eq_false hnot, hback]
    unfold xchg setLock mycpu readeflags
    simp only [Bool.false_eq_true, if_false, wp_bind, wp_gets, wp_modify,
      wp_pure, hlocked, hoff, ne_eq, not_true_eq_false, Function.update_self,
      Function.update_idem]
    exact hdone hpos

theorem wp_release {Q : Unit -> Core C L -> Prop}
    (hheld : (s.lock lk).HeldBy me) (hoff : s.interrupts = false)
    (hdepth : s.ncli ≠ 0) (hneg : ¬ s.ncli < 0) (hpop : ¬ s.ncli - 1 < 0)
    (hdone : Q () (s.withLock lk ⟨0, none⟩).popped) :
    wp (release me lk) Q E s := by
  unfold release
  rw [wp_bind]
  apply wp_holding
  · exact fun h => absurd h hneg
  · intro _
    rw [decide_eq_true hheld, pushed_popped hoff hdepth]
    unfold setLock
    simp only [if_true, wp_bind, wp_modify, Function.update_self,
      Function.update_idem]
    apply wp_popcli
    · exact hoff
    · exact fun h => absurd h hpop
    · exact fun _ => hdone

end Calls

/-!
## Runs

Beside the state of the code runs what the steps have done so far: the number of
`pushcli` that no `popcli` has been paired with, and the locks between their
`acquire` and their `release`.
-/

/-- A step of the CPU, or of the others: they leave a lock in some state. -/
inductive Act (C L : Type) where
  | pushcli
  | popcli
  | acquire (lk : L)
  | release (lk : L)
  | other (lk : L) (l : Lock C)

structure Nest (L : Type) where
  pushes : Nat
  held : List L

def Nest.depth {L : Type} (n : Nest L) : Nat := n.pushes + n.held.length

section Runs

variable {C L : Type} [DecidableEq C] [DecidableEq L]

def Act.run (me : C) : Act C L -> CM C L Unit
  | .pushcli => Spinlock.pushcli me
  | .popcli => Spinlock.popcli me
  | .acquire lk => Spinlock.acquire me lk
  | .release lk => Spinlock.release me lk
  | .other lk l => setLock lk (fun _ => l)

def Nest.after (n : Nest L) : Act C L -> Nest L
  | .pushcli => { n with pushes := n.pushes + 1 }
  | .popcli => { n with pushes := n.pushes - 1 }
  | .acquire lk => { n with held := lk :: n.held }
  | .release lk => { n with held := n.held.erase lk }
  | .other _ _ => n

def Step (me : C) (x : Core C L × Nest L) (a : Act C L)
    (x' : Core C L × Nest L) : Prop :=
  a.run me x.1 = .ok ((), x'.1) ∧ x'.2 = x.2.after a

/-- A `popcli` has a `pushcli` to undo, a lock that is acquired is free and one
that is released is held by this CPU.  The others leave the locks of this CPU
alone and never write its name into one. -/
def Paired (me : C) (x : Core C L × Nest L) : Act C L -> Prop
  | .pushcli => True
  | .popcli => 0 < x.2.pushes
  | .acquire lk => (x.1.lock lk).locked = 0
  | .release lk => lk ∈ x.2.held
  | .other lk l => lk ∉ x.2.held ∧ l.cpu ≠ some me

instance (me : C) (x : Core C L × Nest L) (a : Act C L) :
    Decidable (Paired me x a) :=
  match a with
  | .pushcli => inferInstanceAs (Decidable True)
  | .popcli => inferInstanceAs (Decidable (0 < _))
  | .acquire _ => inferInstanceAs (Decidable (_ = _))
  | .release _ => inferInstanceAs (Decidable (_ ∈ _))
  | .other _ _ => inferInstanceAs (Decidable (_ ∧ _))

/-- The depth after the step is one that an `int` can count. -/
def Fits (me : C) (x : Core C L × Nest L) (a : Act C L) : Prop :=
  Paired me x a ∧ (x.2.after a).depth < 2147483648

instance (me : C) (x : Core C L × Nest L) (a : Act C L) :
    Decidable (Fits me x a) :=
  inferInstanceAs (Decidable (_ ∧ _))

structure Start (s : Core C L) : Prop where
  ncli : s.ncli = 0
  free : forall lk, (s.lock lk).locked = 0

end Runs

/-!
## The invariant
-/

/-- At depth zero the flag is `flag`; deeper down it is off, and `flag` is what
the last `popcli` will put back. -/
structure Nested {C L : Type} (flag : Bool) (d : Nat) (s : Core C L) :
    Prop where
  ncli : s.ncli.toInt = d
  out : d = 0 -> s.interrupts = flag
  off : d ≠ 0 -> s.interrupts = false
  saved : d ≠ 0 -> s.intena = flag

section Nested

variable {C L : Type} {flag : Bool} {d : Nat} {s : Core C L}

theorem Nested.ncli_eq_zero (h : Nested flag d s) : s.ncli = 0 ↔ d = 0 := by
  rw [← Int32.toInt_inj, h.ncli]
  exact Int.natCast_eq_zero

theorem Nested.not_neg (h : Nested flag d s) : ¬ s.ncli < 0 := by
  have hncli := h.ncli
  rw [Int32.lt_iff_toInt_lt, hncli]
  exact not_lt.mpr (Int.natCast_nonneg d)

theorem Nested.push (h : Nested flag d s) (hd : d + 1 < 2147483648) :
    Nested flag (d + 1) s.pushed := by
  have hncli := h.ncli
  refine ⟨?_, fun h => absurd h d.succ_ne_zero, fun _ => rfl, fun _ => ?_⟩
  · show (s.ncli + 1).toInt = _
    rw [toInt_succ_of_lt (by lia) (by lia), hncli, Nat.cast_succ]
  · show (if s.ncli = 0 then s.interrupts else s.intena) = flag
    rcases Decidable.em (d = 0) with hzero | hpos
    · rw [if_pos (h.ncli_eq_zero.mpr hzero)]
      exact h.out hzero
    · rw [if_neg (mt h.ncli_eq_zero.mp hpos)]
      exact h.saved hpos

theorem Nested.pop (h : Nested flag (d + 1) s) : Nested flag d s.popped := by
  have hncli : (s.ncli - 1).toInt = d := by
    have hsucc := h.ncli
    rw [toInt_pred (by lia), hsucc, Nat.cast_succ, add_sub_cancel_right]
  have hzero : s.ncli - 1 = 0 ↔ d = 0 := by
    rw [← Int32.toInt_inj, hncli]
    exact Int.natCast_eq_zero
  refine ⟨hncli, fun hd => ?_, fun hd => ?_, fun _ => h.saved d.succ_ne_zero⟩
  · show (decide (s.ncli - 1 = 0) && s.intena) = flag
    rw [decide_eq_true (hzero.mpr hd), Bool.true_and]
    exact h.saved d.succ_ne_zero
  · show (decide (s.ncli - 1 = 0) && s.intena) = false
    rw [decide_eq_false (mt hzero.mp hd), Bool.false_and]

theorem Nested.withLock [DecidableEq L] (h : Nested flag d s) (lk : L)
    (l : Lock C) : Nested flag d (s.withLock lk l) :=
  ⟨h.ncli, h.out, h.off, h.saved⟩

end Nested

structure Taken {C L : Type} (me : C) (held : List L) (lock : L -> Lock C) :
    Prop where
  nodup : held.Nodup
  held_iff : forall lk, lk ∈ held ↔ (lock lk).HeldBy me

section Taken

variable {C L : Type} [DecidableEq L] {me : C} {held : List L}
  {lock : L -> Lock C} {lk : L}

theorem Taken.acquire (h : Taken me held lock) (hfree : (lock lk).locked = 0) :
    Taken me (lk :: held) (Function.update lock lk ⟨1, some me⟩) := by
  have hnot : lk ∉ held := fun hmem => ((h.held_iff lk).mp hmem).1 hfree
  refine ⟨List.nodup_cons.mpr ⟨hnot, h.nodup⟩, fun lk' => ?_⟩
  rw [List.mem_cons]
  rcases eq_or_ne lk' lk with rfl | hne
  · rw [Function.update_self]
    exact iff_of_true (Or.inl rfl) ⟨(by decide : (1 : UInt32) ≠ 0), rfl⟩
  · rw [Function.update_of_ne hne, or_iff_right hne]
    exact h.held_iff lk'

theorem Taken.release (h : Taken me held lock) :
    Taken me (held.erase lk) (Function.update lock lk ⟨0, none⟩) := by
  refine ⟨h.nodup.erase lk, fun lk' => ?_⟩
  rw [h.nodup.mem_erase_iff]
  rcases eq_or_ne lk' lk with rfl | hne
  · rw [Function.update_self]
    exact iff_of_false (fun hmem => hmem.1 rfl) (fun hheld => hheld.1 rfl)
  · rw [Function.update_of_ne hne, and_iff_right hne]
    exact h.held_iff lk'

theorem Taken.other {l : Lock C} (h : Taken me held lock) (hlk : lk ∉ held)
    (hl : l.cpu ≠ some me) : Taken me held (Function.update lock lk l) := by
  refine ⟨h.nodup, fun lk' => ?_⟩
  rcases eq_or_ne lk' lk with rfl | hne
  · rw [Function.update_self]
    exact iff_of_false hlk (fun hheld => hl hheld.2)
  · rw [Function.update_of_ne hne]
    exact h.held_iff lk'

end Taken

structure Inv {C L : Type} (me : C) (flag : Bool) (s : Core C L) (n : Nest L) :
    Prop where
  nested : Nested flag n.depth s
  taken : Taken me n.held s.lock

section Inv

variable {C L : Type} {me : C} {flag : Bool} {s : Core C L} {n : Nest L}

theorem Start.inv (h : Start s) : Inv me s.interrupts s ⟨0, []⟩ := by
  constructor
  · constructor
    · rw [h.ncli]
      rfl
    · exact fun _ => rfl
    · exact fun h => absurd rfl h
    · exact fun h => absurd rfl h
  · constructor
    · exact List.nodup_nil
    · intro lk
      exact iff_of_false List.not_mem_nil (fun hheld => hheld.1 (h.free lk))

variable [DecidableEq C] [DecidableEq L]

theorem Inv.wp_act (h : Inv me flag s n) {a : Act C L}
    (hfits : Fits me (s, n) a) :
    wp (a.run me) (fun _ s' => Inv me flag s' (n.after a)) (fun _ => False)
      s := by
  rcases hfits with ⟨hpaired, hdepth⟩
  cases a with
  | pushcli =>
      apply wp_pushcli
      constructor
      · have hmore : (n.after (.pushcli : Act C L)).depth = n.depth + 1 :=
          Nat.add_right_comm ..
        rw [hmore] at hdepth ⊢
        exact h.nested.push hdepth
      · exact h.taken
  | popcli =>
      have hpushes : 0 < n.pushes := hpaired
      have hless : n.depth = (n.after (.popcli : Act C L)).depth + 1 := by
        simp only [Nest.depth, Nest.after]
        lia
      have hnested := h.nested
      rw [hless] at hnested
      apply wp_popcli
      · exact hnested.off (Nat.succ_ne_zero _)
      · exact fun hneg => absurd hneg hnested.pop.not_neg
      · exact fun _ => ⟨hnested.pop, h.taken⟩
  | acquire lk =>
      rw [show (n.after (.acquire lk : Act C L)).depth = n.depth + 1 from rfl]
        at hdepth
      have hpush := h.nested.push hdepth
      apply wp_acquire
      · exact hpaired
      · exact mt hpush.ncli_eq_zero.mp (Nat.succ_ne_zero _)
      · exact fun hneg => absurd hneg hpush.not_neg
      · exact fun _ => ⟨hpush.withLock lk _, h.taken.acquire hpaired⟩
  | release lk =>
      have hmem : lk ∈ n.held := hpaired
      have hless : n.depth = (n.after (.release lk : Act C L)).depth + 1 := by
        have hpos := List.length_pos_of_mem hmem
        simp only [Nest.depth, Nest.after, List.length_erase_of_mem hmem]
        lia
      have hnested := h.nested
      rw [hless] at hnested
      apply wp_release
      · exact (h.taken.held_iff lk).mp hmem
      · exact hnested.off (Nat.succ_ne_zero _)
      · exact mt hnested.ncli_eq_zero.mp (Nat.succ_ne_zero _)
      · exact hnested.not_neg
      · exact hnested.pop.not_neg
      · exact ⟨(hnested.withLock lk _).pop, h.taken.release⟩
  | other lk l =>
      exact ⟨h.nested.withLock lk l, h.taken.other hpaired.1 hpaired.2⟩

theorem inv_of_runs {x y : Core C L × Nest L} (h : Inv me flag x.1 x.2)
    (hruns : Runs (Step me) (Fits me) x y) : Inv me flag y.1 y.2 := by
  apply hruns.invariant (I := fun x => Inv me flag x.1 x.2) h
  intro x a y hx hfits hstep
  have hy := wp_ok (hx.wp_act hfits) hstep.1
  rw [← hstep.2] at hy
  exact hy

theorem Inv.holding (h : Inv me flag s n) (lk : L) :
    exists s', Spinlock.holding me lk s = .ok (decide (lk ∈ n.held), s') := by
  have hasks : wp (Spinlock.holding me lk)
      (fun r _ => r = decide (lk ∈ n.held)) (fun _ => False) s := by
    apply wp_holding
    · exact fun hneg => absurd hneg h.nested.not_neg
    · intro _
      exact decide_eq_decide.mpr (h.taken.held_iff lk).symm
  rcases wp_returns hasks with ⟨r, s', hrun, hr⟩
  exact ⟨s', by rw [hrun, hr]⟩

end Inv

/-!
## Nesting
-/

/-- Interrupts are off below depth zero, the next step of the CPU returns, and
`holding` is true of the locks that the CPU has acquired and not released. -/
structure Sound {C L : Type} [DecidableEq C] [DecidableEq L] (me : C)
    (x : Core C L × Nest L) : Prop where
  disabled : 0 < x.1.ncli -> x.1.interrupts = false
  returns : forall a, Fits me x a -> exists s', a.run me x.1 = .ok ((), s')
  holding : forall lk, exists s',
    Spinlock.holding me lk x.1 = .ok (decide (lk ∈ x.2.held), s')

section Nesting

variable {C L : Type} [DecidableEq C] [DecidableEq L] {me : C}

theorem Inv.sound {flag : Bool} {x : Core C L × Nest L}
    (h : Inv me flag x.1 x.2) : Sound me x := by
  constructor
  · intro hpos
    apply h.nested.off
    intro hzero
    rw [h.nested.ncli_eq_zero.mpr hzero] at hpos
    exact absurd hpos (by decide)
  · intro a hfits
    rcases wp_returns (h.wp_act hfits) with ⟨_, s', hrun, _⟩
    exact ⟨s', hrun⟩
  · exact h.holding

/-- In every run whose depth an `int` can count, every state is sound, and the
flag of a state at depth zero is that of every earlier state at depth zero. -/
theorem interrupts_nest {s₀ : Core C L} {x y : Core C L × Nest L}
    (hstart : Start s₀)
    (hruns : Runs (Step me) (Fits me) (s₀, ⟨0, []⟩) x)
    (hmore : Runs (Step me) (Fits me) x y) :
    Sound me y ∧
      (x.1.ncli = 0 -> y.1.ncli = 0 -> y.1.interrupts = x.1.interrupts) := by
  have hx : Inv me s₀.interrupts x.1 x.2 := inv_of_runs hstart.inv hruns
  have hy : Inv me s₀.interrupts y.1 y.2 := inv_of_runs hx hmore
  refine ⟨hy.sound, fun hxzero hyzero => ?_⟩
  rw [hy.nested.out (hy.nested.ncli_eq_zero.mp hyzero),
    hx.nested.out (hx.nested.ncli_eq_zero.mp hxzero)]

end Nesting

/-- A CPU with its interrupts on and a free lock for each Boolean. -/
def idle : Core Unit Bool := ⟨true, 0, false, fun _ => ⟨0, none⟩⟩

theorem idle_start : Start idle := ⟨rfl, fun _ => rfl⟩

def next (a : Act Unit Bool) (x : Core Unit Bool × Nest Bool) :
    Core Unit Bool × Nest Bool :=
  match a.run () x.1 with
  | .ok r => (r.2, x.2.after a)
  | .error _ => x

/-- Two locks, released in the order in which they were acquired. -/
def twoLocks : Core Unit Bool × Nest Bool :=
  next (.release true) (next (.release false)
    (next (.acquire true) (next (.acquire false) (idle, ⟨0, []⟩))))

theorem interrupts_nest_two_locks :
    Start idle ∧ Runs (Step ()) (Fits ()) (idle, ⟨0, []⟩) twoLocks ∧
      Sound () twoLocks ∧ twoLocks.1.interrupts = true := by
  have hruns : Runs (Step ()) (Fits ()) (idle, ⟨0, []⟩) twoLocks := by
    refine Runs.tail (.release true) ?_ (by decide) ⟨rfl, rfl⟩
    refine Runs.tail (.release false) ?_ (by decide) ⟨rfl, rfl⟩
    refine Runs.tail (.acquire true) ?_ (by decide) ⟨rfl, rfl⟩
    exact Runs.refl.tail (.acquire false) (by decide) ⟨rfl, rfl⟩
  have hnest := interrupts_nest idle_start Runs.refl hruns
  exact ⟨idle_start, hruns, hnest.1, hnest.2 rfl rfl⟩

theorem pushcli_runs (d : Nat) (hd : d < 2147483648) :
    exists s, Runs (Step ()) (Fits ()) (idle, ⟨0, []⟩) (s, ⟨d, []⟩) ∧
      s.lock = idle.lock := by
  induction d with
  | zero => exact ⟨idle, Runs.refl, rfl⟩
  | succ d ih =>
      rcases ih (Nat.lt_of_succ_lt hd) with ⟨s, hruns, hlock⟩
      have hpush : wp (Act.pushcli.run ()) (fun _ s' => s'.lock = s.lock)
          (fun _ => False) s := wp_pushcli rfl
      rcases wp_returns hpush with ⟨_, s', hrun, hsame⟩
      refine ⟨s', hruns.tail .pushcli ⟨trivial, hd⟩ ⟨hrun, rfl⟩, ?_⟩
      rw [hsame, hlock]

/-- The counter wraps at the next `acquire`, and the call of `holding` in it
panics. -/
theorem acquire_wraps :
    exists x, Start idle ∧ Runs (Step ()) (Paired ()) (idle, ⟨0, []⟩) x ∧
      Paired () x (.acquire true) ∧
        (Act.acquire true).run () x.1 = .error (.panic "popcli") := by
  rcases pushcli_runs 2147483647 (by decide) with ⟨s, hruns, hlock⟩
  have hinv : Inv () true s ⟨2147483647, []⟩ :=
    inv_of_runs idle_start.inv hruns
  have hncli : s.ncli.toInt = 2147483647 := hinv.nested.ncli
  have hfree : (s.lock true).locked = 0 := by
    rw [hlock]
    rfl
  have hneg : s.ncli + 1 < 0 := by
    have hlt := (s.ncli + 1).toInt_lt
    rw [Int32.lt_iff_toInt_lt]
    rcases toInt_succ (by lia : 0 < s.ncli.toInt) with hsucc | hneg
    · lia
    · exact hneg
  have hpanics : wp (Spinlock.acquire () true) (fun _ _ => False)
      (fun e => e = .panic "popcli") s := by
    apply wp_acquire hfree
    · intro hzero
      rw [hzero] at hneg
      exact absurd hneg (by decide)
    · exact fun _ => rfl
    · exact fun hpos => absurd hneg hpos
  refine ⟨_, idle_start, hruns.mono (fun _ _ h => h.1), hfree, ?_⟩
  cases hrun : Spinlock.acquire () true s with
  | ok r => exact (wp_ok hpanics hrun).elim
  | error e =>
      rw [← wp_error hpanics hrun]
      exact hrun

end Spinlock
end Xv6
