import Xv6.Sched.Cpus

/-!
# Parents and children

Every process is a descendant of `init`, and its parent can still wait for it.
What a step of the machine does to the fields that tie processes to each other
is collected in one relation; the tree, and what a parent that sleeps in `wait`
may rely on, are derived from it.
-/

namespace Xv6
namespace Kernel

open Lib Lib.Run

/-- A process in this state has been made and has not been reaped. -/
def Member (st : Procstate) : Prop := Alive st ∨ st = .ZOMBIE

instance : DecidablePred Member :=
  fun st => inferInstanceAs (Decidable (Alive st ∨ _))

/-!
## What a step does
-/

structure Woken (t t' : Pslot -> Kin) : Prop where
  parent : forall q, (t' q).parent = (t q).parent
  chan : forall q, (t' q).chan = (t q).chan
  state : forall q, (t' q).state = (t q).state ∨
    (t q).state = .SLEEPING ∧ (t' q).state = .RUNNABLE

structure Exits (init p : Pslot) (t t' : Pslot -> Kin) : Prop where
  notInit : p ≠ init
  parent : forall q, (t' q).parent =
    if (t q).parent = some p then some init else (t q).parent
  chan : forall q, (t' q).chan = (t q).chan
  self : (t' p).state = .ZOMBIE
  state : forall q, q ≠ p -> (t' q).state = (t q).state ∨
    (t q).state = .SLEEPING ∧ (t' q).state = .RUNNABLE
  /-- The parent is woken up. -/
  wakes : forall q, q ≠ p -> (t q).chan = (t p).parent.map Chan.proc ->
    (t' q).state ≠ .SLEEPING
  /-- `init` is woken up if one of the children that it gets is a zombie. -/
  passes : forall q, (t q).parent = some p -> (t q).state = .ZOMBIE ->
    (t init).chan = some (.proc init) -> (t' init).state ≠ .SLEEPING

/-- A step of the process `p`, which is making a process of the slot `o`, or a
scheduler letting `p` run. -/
inductive KinStep (init p : Pslot) (o : Option Pslot) (t : Pslot -> Kin) :
    (Pslot -> Kin) -> Prop where
  | quiet {t' : Pslot -> Kin} (h : Woken t t') : KinStep init p o t t'
  | own {x : Kin} (hx : Alive x.state) (hparent : x.parent = (t p).parent) :
      KinStep init p o t (Function.update t p x)
  | idle {q : Pslot} {x : Kin}
      (hq : (t q).state = .UNUSED ∨ (t q).state = .ZOMBIE ∨ o = some q)
      (hx : ¬ Member x.state) :
      KinStep init p o t (Function.update t q x)
  | joins {q : Pslot} {x : Kin} (hq : o = some q) (hx : x.state = .RUNNABLE)
      (hparent : x.parent = some p) :
      KinStep init p o t (Function.update t q x)
  | exits {t' : Pslot -> Kin} (h : Exits init p t t') : KinStep init p o t t'

theorem Woken.refl (t : Pslot -> Kin) : Woken t t :=
  ⟨fun _ => rfl, fun _ => rfl, fun _ => Or.inl rfl⟩

/-!
## The tree
-/

def IsParent (t : Pslot -> Kin) (q r : Pslot) : Prop := (t q).parent = some r

structure Family (init : Pslot) (t : Pslot -> Kin) : Prop where
  root : Alive (t init).state
  parent : forall q, q ≠ init -> Member (t q).state ->
    exists r, (t q).parent = some r ∧ Alive (t r).state
  climbs : forall q, Member (t q).state ->
    Relation.ReflTransGen (IsParent t) q init

section Family

variable {init p : Pslot} {o : Option Pslot} {t t' : Pslot -> Kin}

theorem Family.congr (h : Family init t)
    (hparent : forall q, (t' q).parent = (t q).parent)
    (halive : forall q, Alive (t' q).state ↔ Alive (t q).state)
    (hmember : forall q, Member (t' q).state -> Member (t q).state) :
    Family init t' := by
  constructor
  · exact (halive init).mpr h.root
  · intro q hq hm
    rcases h.parent q hq (hmember q hm) with ⟨r, hr, hra⟩
    exact ⟨r, (hparent q).trans hr, (halive r).mpr hra⟩
  · intro q hm
    have hstep : forall a b, IsParent t a b -> IsParent t' a b :=
      fun a b hab => (hparent a).trans hab
    exact Relation.ReflTransGen.mono hstep _ _ (h.climbs q (hmember q hm))

theorem Family.climbs_update (h : Family init t) {q : Pslot} {x : Kin}
    (hq : ¬ Alive (t q).state) {m : Pslot} (hm : Member (t m).state)
    (hne : m ≠ q) :
    Relation.ReflTransGen (IsParent (Function.update t q x)) m init := by
  have hchain := h.climbs m hm
  induction hchain using Relation.ReflTransGen.head_induction_on with
  | refl => exact Relation.ReflTransGen.refl
  | @head m r hstep _ ih =>
      rcases eq_or_ne m init with rfl | hinit
      · exact Relation.ReflTransGen.refl
      · rcases h.parent m hinit hm with ⟨r', hr', halive⟩
        cases (show some r = some r' from hstep.symm.trans hr')
        have hrq : r ≠ q := by
          rintro rfl
          exact hq halive
        refine Relation.ReflTransGen.head ?_ (ih (Or.inl halive) hrq)
        show (Function.update t q x m).parent = _
        rw [Function.update_of_ne hne]
        exact hstep

theorem Family.change (h : Family init t) {q : Pslot} {x : Kin}
    (hq : ¬ Alive (t q).state)
    (hx : Member x.state ->
      exists r, x.parent = some r ∧ Alive (t r).state) :
    Family init (Function.update t q x) := by
  have hother : forall r, Alive (t r).state ->
      Alive (Function.update t q x r).state := by
    intro r hr
    have hne : r ≠ q := by
      rintro rfl
      exact hq hr
    rw [Function.update_of_ne hne]
    exact hr
  constructor
  · exact hother init h.root
  · intro m hm hmember
    rcases eq_or_ne m q with rfl | hne
    · rw [Function.update_self] at hmember ⊢
      rcases hx hmember with ⟨r, hr, halive⟩
      exact ⟨r, hr, hother r halive⟩
    · rw [Function.update_of_ne hne] at hmember ⊢
      rcases h.parent m hm hmember with ⟨r, hr, halive⟩
      exact ⟨r, hr, hother r halive⟩
  · intro m hmember
    rcases eq_or_ne m q with rfl | hne
    · rw [Function.update_self] at hmember
      rcases hx hmember with ⟨r, hr, halive⟩
      have hne : r ≠ m := by
        rintro rfl
        exact hq halive
      refine Relation.ReflTransGen.head ?_
        (h.climbs_update hq (Or.inl halive) hne)
      show (Function.update t m x m).parent = _
      rw [Function.update_self]
      exact hr
    · rw [Function.update_of_ne hne] at hmember
      exact h.climbs_update hq hmember hne

theorem Family.exits (h : Family init t) (hp : Alive (t p).state)
    (hexits : Exits init p t t') : Family init t' := by
  have halive : forall r, r ≠ p -> (Alive (t' r).state ↔ Alive (t r).state) := by
    intro r hr
    rcases hexits.state r hr with hsame | ⟨hsleeping, hrunnable⟩
    · rw [hsame]
    · rw [hsleeping, hrunnable]
      decide
  have hmember : forall q, Member (t' q).state -> Member (t q).state := by
    intro q hq
    rcases eq_or_ne q p with rfl | hne
    · exact Or.inl hp
    · rcases hexits.state q hne with hsame | ⟨hsleeping, _⟩
      · rw [← hsame]
        exact hq
      · rw [hsleeping]
        decide
  have hinit : Alive (t' init).state :=
    (halive init (Ne.symm hexits.notInit)).mpr h.root
  constructor
  · exact hinit
  · intro q hq hm
    rw [hexits.parent]
    rcases Decidable.em ((t q).parent = some p) with hchild | hchild
    · rw [if_pos hchild]
      exact ⟨init, rfl, hinit⟩
    · rw [if_neg hchild]
      rcases h.parent q hq (hmember q hm) with ⟨r, hr, hra⟩
      have hrp : r ≠ p := by
        rintro rfl
        exact hchild hr
      exact ⟨r, hr, (halive r hrp).mpr hra⟩
  · intro q hm
    have hchain := h.climbs q (hmember q hm)
    clear hm
    induction hchain using Relation.ReflTransGen.head_induction_on with
    | refl => exact Relation.ReflTransGen.refl
    | @head q r hstep _ ih =>
        rcases Decidable.em ((t q).parent = some p) with hchild | hchild
        · apply Relation.ReflTransGen.single
          show (t' q).parent = _
          rw [hexits.parent, if_pos hchild]
        · refine Relation.ReflTransGen.head ?_ ih
          show (t' q).parent = _
          rw [hexits.parent, if_neg hchild]
          exact hstep

theorem Family.woken (h : Family init t) (hw : Woken t t') :
    Family init t' := by
  apply h.congr hw.parent
  · intro q
    rcases hw.state q with hsame | ⟨hsleeping, hrunnable⟩
    · rw [hsame]
    · rw [hsleeping, hrunnable]
      decide
  · intro q hm
    rcases hw.state q with hsame | ⟨hsleeping, _⟩
    · rw [← hsame]
      exact hm
    · rw [hsleeping]
      decide

theorem Family.step (h : Family init t) (hp : Alive (t p).state)
    (ho : forall q, o = some q -> (t q).state = .EMBRYO)
    (hstep : KinStep init p o t t') : Family init t' := by
  cases hstep with
  | quiet hw => exact h.woken hw
  | own hx hparent =>
      apply h.congr
      · intro q
        rcases eq_or_ne q p with rfl | hq
        · rw [Function.update_self]
          exact hparent
        · rw [Function.update_of_ne hq]
      · intro q
        rcases eq_or_ne q p with rfl | hq
        · rw [Function.update_self]
          exact iff_of_true hx hp
        · rw [Function.update_of_ne hq]
      · intro q hm
        rcases eq_or_ne q p with rfl | hq
        · exact Or.inl hp
        · rw [Function.update_of_ne hq] at hm
          exact hm
  | idle hq hx =>
      apply h.change _ (fun hm => absurd hm hx)
      rcases hq with hq | hq | hq
      · rw [hq]
        decide
      · rw [hq]
        decide
      · rw [ho _ hq]
        decide
  | joins hq _ hparent =>
      apply h.change _ (fun _ => ⟨p, hparent, hp⟩)
      rw [ho _ hq]
      decide
  | exits hexits => exact h.exits hp hexits

theorem Family.parent_ne (h : Family init t) {q : Pslot} (hq : q ≠ init)
    (hm : Member (t q).state) : (t q).parent ≠ some q := by
  intro hself
  have hchain := h.climbs q hm
  have hstuck : forall r, Relation.ReflTransGen (IsParent t) q r -> r = q := by
    intro r hr
    induction hr with
    | refl => rfl
    | tail _ hstep ih =>
        subst ih
        exact Option.some.inj (hstep.symm.trans hself)
  exact hq (hstuck init hchain).symm

/-!
## Waiting for a child
-/

/-- The process `w` sleeps in `wait` and has no child to reap. -/
structure Waits (t : Pslot -> Kin) (w : Pslot) : Prop where
  chan : (t w).chan = some (.proc w)
  children : forall q, (t q).parent = some w -> (t q).state ≠ .ZOMBIE

theorem KinStep.sleeping (hstep : KinStep init p o t t') {w : Pslot}
    (hw : w ≠ p) (hsleep : (t' w).state = .SLEEPING) :
    (t w).state = .SLEEPING ∧ (t' w).chan = (t w).chan := by
  -- the slots that are not the caller's do not begin to sleep
  have hslot : forall (q : Pslot) (x : Kin), x.state ≠ .SLEEPING ->
      (Function.update t q x w).state = .SLEEPING ->
        (t w).state = .SLEEPING ∧
          (Function.update t q x w).chan = (t w).chan := by
    intro q x hx hw'
    rcases eq_or_ne w q with rfl | hne
    · rw [Function.update_self] at hw'
      exact absurd hw' hx
    · rw [Function.update_of_ne hne] at hw' ⊢
      exact ⟨hw', rfl⟩
  cases hstep with
  | quiet hquiet =>
      rcases hquiet.state w with hsame | ⟨_, hrunnable⟩
      · exact ⟨hsame.symm.trans hsleep, hquiet.chan w⟩
      · cases hsleep.symm.trans hrunnable
  | own _ _ =>
      rw [Function.update_of_ne hw] at hsleep ⊢
      exact ⟨hsleep, rfl⟩
  | idle _ hx =>
      apply hslot _ _ _ hsleep
      intro hsleeping
      exact hx (Or.inl (Or.inl hsleeping))
  | joins _ hx _ =>
      apply hslot _ _ _ hsleep
      rw [hx]
      decide
  | exits hexits =>
      rcases hexits.state w hw with hsame | ⟨_, hrunnable⟩
      · exact ⟨hsame.symm.trans hsleep, hexits.chan w⟩
      · cases hsleep.symm.trans hrunnable

theorem Waits.exits {w : Pslot} (h : Waits t w) (hfamily : Family init t)
    (hp : Alive (t p).state) (hw : w ≠ p) (hsleep : (t' w).state = .SLEEPING)
    (hexits : Exits init p t t') : Waits t' w := by
  constructor
  · exact (hexits.chan w).trans h.chan
  · intro q hchild hzombie
    rw [hexits.parent] at hchild
    rcases eq_or_ne q p with rfl | hq
    · have hself := hfamily.parent_ne hexits.notInit (Or.inl hp)
      rw [if_neg hself] at hchild
      apply hexits.wakes w hw _ hsleep
      rw [h.chan, hchild]
      rfl
    · have hbefore : (t q).state = .ZOMBIE := by
        rcases hexits.state q hq with hsame | ⟨_, hrunnable⟩
        · exact hsame.symm.trans hzombie
        · cases hzombie.symm.trans hrunnable
      rcases Decidable.em ((t q).parent = some p) with hpassed | hkept
      · rw [if_pos hpassed] at hchild
        cases hchild
        exact hexits.passes q hpassed hbefore h.chan hsleep
      · rw [if_neg hkept] at hchild
        exact h.children q hchild hbefore

theorem Waits.woken {w : Pslot} (h : Waits t w) (hw : Woken t t') :
    Waits t' w := by
  constructor
  · exact (hw.chan w).trans h.chan
  · intro q hq hzombie
    rw [hw.parent] at hq
    rcases hw.state q with hsame | ⟨_, hrunnable⟩
    · exact h.children q hq (hsame.symm.trans hzombie)
    · cases hzombie.symm.trans hrunnable

theorem Waits.step {w : Pslot} (h : Waits t w) (hfamily : Family init t)
    (hp : Alive (t p).state) (hw : w ≠ p) (hsleep : (t' w).state = .SLEEPING)
    (hstep : KinStep init p o t t') : Waits t' w := by
  have hchan : (t' w).chan = some (.proc w) :=
    (hstep.sleeping hw hsleep).2.trans h.chan
  -- a slot that does not become a zombie adds no child to reap
  have hslot : forall (q : Pslot) (x : Kin), x.state ≠ .ZOMBIE ->
      forall r, (Function.update t q x r).parent = some w ->
        (Function.update t q x r).state ≠ .ZOMBIE := by
    intro q x hx r hr
    rcases eq_or_ne r q with rfl | hne
    · rw [Function.update_self]
      exact hx
    · rw [Function.update_of_ne hne] at hr ⊢
      exact h.children r hr
  cases hstep with
  | quiet hquiet => exact h.woken hquiet
  | own hx _ =>
      refine ⟨hchan, hslot _ _ ?_⟩
      intro hzombie
      rw [hzombie] at hx
      revert hx
      decide
  | idle _ hx => exact ⟨hchan, hslot _ _ (fun hzombie => hx (Or.inr hzombie))⟩
  | joins _ hx _ =>
      refine ⟨hchan, hslot _ _ ?_⟩
      rw [hx]
      decide
  | exits hexits => exact h.exits hfamily hp hw hsleep hexits

end Family

end Kernel
end Xv6
