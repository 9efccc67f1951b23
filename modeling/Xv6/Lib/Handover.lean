import Mathlib

/-!
# A lock that changes hands

Workers run tasks.  A worker is in the code of its manager or in the code of the
task in its slot, and one lock protects every switch between the two.  It is
taken on one side of a switch and given back on the other: the manager takes it
and the task it starts gives it back, or a task takes it and the manager it
returns to gives it back.
-/

namespace Xv6
namespace Lib

/-- What a worker does. -/
inductive Mode where
  /-- The manager runs and the slot is empty. -/
  | manager
  /-- The task in the slot runs. -/
  | task
  /-- The task is about to switch to the manager. -/
  | leaving
  /-- The manager runs again and has not emptied the slot yet. -/
  | returned
  deriving DecidableEq, Repr

structure Handover (ι π : Type) where
  lock : Option ι
  slot : ι -> Option π
  mode : ι -> Mode
  running : Set π

namespace Handover

section Steps

variable {ι π : Type}

inductive Step [DecidableEq ι] (c : ι) (s : Handover ι π) : Handover ι π -> Prop where
  | same : Step c s s
  | acquire (h : s.lock = none) : Step c s { s with lock := some c }
  | release (h : s.lock = some c)
      (hmode : s.mode c = .manager ∨ s.mode c = .task) :
      Step c s { s with lock := none }
  | dispatch (p : π) (h : s.lock = some c) (hmode : s.mode c = .manager)
      (hp : p ∉ s.running) :
      Step c s
        { s with
          slot := Function.update s.slot c (some p)
          mode := Function.update s.mode c .task
          running := insert p s.running }
  | leave (p : π) (h : s.lock = some c) (hmode : s.mode c = .task)
      (hp : s.slot c = some p) :
      Step c s
        { s with
          mode := Function.update s.mode c .leaving
          running := s.running \ {p} }
  | switch (hmode : s.mode c = .leaving) :
      Step c s { s with mode := Function.update s.mode c .returned }
  | clear (hmode : s.mode c = .returned) :
      Step c s
        { s with
          slot := Function.update s.slot c none
          mode := Function.update s.mode c .manager }

/-- A task is in one slot at most, and the running tasks are those in the slots
of the workers that run a task. -/
structure Safe (s : Handover ι π) : Prop where
  once : forall c c' p, s.slot c = some p -> s.slot c' = some p -> c = c'
  empty : forall c, s.mode c = .manager -> s.slot c = none
  holds : forall c, s.mode c = .leaving ∨ s.mode c = .returned ->
    s.lock = some c
  runs : forall c, s.mode c = .task ->
    exists p, s.slot c = some p ∧ p ∈ s.running
  placed : forall p, p ∈ s.running ->
    exists c, s.slot c = some p ∧ s.mode c = .task

variable {s s' : Handover ι π} {c : ι} {p : π}

theorem Safe.slot_cases (h : Safe s) (hslot : s.slot c = some p) :
    p ∈ s.running ∨ s.lock = some c ∧ s.mode c ≠ .task := by
  cases hmode : s.mode c with
  | manager =>
      rw [h.empty c hmode] at hslot
      cases hslot
  | task =>
      rcases h.runs c hmode with ⟨q, hq, hrun⟩
      rw [hslot] at hq
      cases hq
      exact Or.inl hrun
  | leaving => exact Or.inr ⟨h.holds c (Or.inl hmode), Mode.noConfusion⟩
  | returned => exact Or.inr ⟨h.holds c (Or.inr hmode), Mode.noConfusion⟩

theorem Safe.acquire (h : Safe s) (hlock : s.lock = none) :
    Safe { s with lock := some c } := by
  refine ⟨h.once, h.empty, ?_, h.runs, h.placed⟩
  intro c' hmode
  have hheld := h.holds c' hmode
  rw [hlock] at hheld
  cases hheld

theorem Safe.release (h : Safe s) (hlock : s.lock = some c)
    (hmode : s.mode c = .manager ∨ s.mode c = .task) :
    Safe { s with lock := none } := by
  refine ⟨h.once, h.empty, ?_, h.runs, h.placed⟩
  intro c' hmode'
  have hheld := h.holds c' hmode'
  rw [hlock] at hheld
  cases hheld
  rcases hmode with hm | hm
  · rcases hmode' with hm' | hm'
    · exact Mode.noConfusion (hm.symm.trans hm')
    · exact Mode.noConfusion (hm.symm.trans hm')
  · rcases hmode' with hm' | hm'
    · exact Mode.noConfusion (hm.symm.trans hm')
    · exact Mode.noConfusion (hm.symm.trans hm')

theorem update_cases [DecidableEq ι] {β : Type} {f : ι -> β} {c c' : ι}
    {v w : β} (h : Function.update f c v c' = w) :
    c' = c ∧ v = w ∨ c' ≠ c ∧ f c' = w := by
  rcases eq_or_ne c' c with rfl | hne
  · rw [Function.update_self] at h
    exact Or.inl ⟨rfl, h⟩
  · rw [Function.update_of_ne hne] at h
    exact Or.inr ⟨hne, h⟩

theorem Safe.holds_update [DecidableEq ι] (h : Safe s) {v : Mode}
    (hv : v = .leaving ∨ v = .returned -> s.lock = some c) (c' : ι)
    (hm : Function.update s.mode c v c' = .leaving ∨
      Function.update s.mode c v c' = .returned) : s.lock = some c' := by
  rcases eq_or_ne c' c with rfl | hne
  · rw [Function.update_self] at hm
    exact hv hm
  · rw [Function.update_of_ne hne] at hm
    exact h.holds c' hm

theorem Safe.placed_other (h : Safe s) {m : Mode} (hmode : s.mode c = m)
    (hm : m ≠ .task) (hrun : p ∈ s.running) :
    exists c', c' ≠ c ∧ s.slot c' = some p ∧ s.mode c' = .task := by
  rcases h.placed p hrun with ⟨c', hslot, htask⟩
  refine ⟨c', ?_, hslot, htask⟩
  rintro rfl
  exact hm (hmode.symm.trans htask)

theorem Safe.dispatch [DecidableEq ι] (h : Safe s) (hlock : s.lock = some c)
    (hmode : s.mode c = .manager) (hp : p ∉ s.running) :
    Safe
      { s with
        slot := Function.update s.slot c (some p)
        mode := Function.update s.mode c .task
        running := insert p s.running } := by
  -- no other worker has the task, since it would have the lock
  have hother : forall c', c' ≠ c -> s.slot c' ≠ some p := by
    intro c' hne hslot
    rcases h.slot_cases hslot with hrun | ⟨hheld, _⟩
    · exact hp hrun
    · rw [hlock] at hheld
      cases hheld
      exact hne rfl
  constructor
  · intro c1 c2 q h1 h2
    rcases update_cases h1 with ⟨rfl, hq1⟩ | ⟨hne1, hq1⟩
    · cases hq1
      rcases update_cases h2 with ⟨rfl, _⟩ | ⟨hne2, hq2⟩
      · rfl
      · exact absurd hq2 (hother c2 hne2)
    · rcases update_cases h2 with ⟨rfl, hq2⟩ | ⟨_, hq2⟩
      · cases hq2
        exact absurd hq1 (hother c1 hne1)
      · exact h.once c1 c2 q hq1 hq2
  · intro c' hm
    rcases update_cases hm with ⟨_, hm'⟩ | ⟨hne, hm'⟩
    · cases hm'
    · show Function.update s.slot c (some p) c' = none
      rw [Function.update_of_ne hne]
      exact h.empty c' hm'
  · exact h.holds_update (fun _ => hlock)
  · intro c' hm
    rcases update_cases hm with ⟨rfl, _⟩ | ⟨hne, hm'⟩
    · exact ⟨p, Function.update_self c' _ _, Set.mem_insert p _⟩
    · rcases h.runs c' hm' with ⟨q, hq, hrun⟩
      exact ⟨q, (Function.update_of_ne hne _ _).trans hq,
        Set.mem_insert_of_mem p hrun⟩
  · intro q hq
    rcases Set.mem_insert_iff.mp hq with rfl | hrun
    · exact ⟨c, Function.update_self c _ _, Function.update_self c _ _⟩
    · rcases h.placed_other hmode Mode.noConfusion hrun with ⟨c', hne, hslot, hm⟩
      exact ⟨c', (Function.update_of_ne hne _ _).trans hslot,
        (Function.update_of_ne hne _ _).trans hm⟩

theorem Safe.leave [DecidableEq ι] (h : Safe s) (hlock : s.lock = some c)
    (hp : s.slot c = some p) :
    Safe
      { s with
        mode := Function.update s.mode c .leaving
        running := s.running \ {p} } := by
  constructor
  · exact h.once
  · intro c' hm
    rcases update_cases hm with ⟨_, hm'⟩ | ⟨_, hm'⟩
    · cases hm'
    · exact h.empty c' hm'
  · exact h.holds_update (fun _ => hlock)
  · intro c' hm
    rcases update_cases hm with ⟨_, hm'⟩ | ⟨hne, hm'⟩
    · cases hm'
    · rcases h.runs c' hm' with ⟨q, hq, hrun⟩
      refine ⟨q, hq, hrun, ?_⟩
      rintro rfl
      exact hne (h.once c' c q hq hp)
  · rintro q ⟨hrun, hqp⟩
    rcases h.placed q hrun with ⟨c', hslot, hm⟩
    have hne : c' ≠ c := by
      rintro rfl
      rw [hp] at hslot
      cases hslot
      exact hqp rfl
    exact ⟨c', hslot, (Function.update_of_ne hne _ _).trans hm⟩

theorem Safe.switch [DecidableEq ι] (h : Safe s)
    (hmode : s.mode c = .leaving) :
    Safe { s with mode := Function.update s.mode c .returned } := by
  constructor
  · exact h.once
  · intro c' hm
    rcases update_cases hm with ⟨_, hm'⟩ | ⟨_, hm'⟩
    · cases hm'
    · exact h.empty c' hm'
  · exact h.holds_update (fun _ => h.holds c (Or.inl hmode))
  · intro c' hm
    rcases update_cases hm with ⟨_, hm'⟩ | ⟨_, hm'⟩
    · cases hm'
    · exact h.runs c' hm'
  · intro q hrun
    rcases h.placed_other hmode Mode.noConfusion hrun with ⟨c', hne, hslot, hm⟩
    exact ⟨c', hslot, (Function.update_of_ne hne _ _).trans hm⟩

theorem Safe.clear [DecidableEq ι] (h : Safe s)
    (hmode : s.mode c = .returned) :
    Safe
      { s with
        slot := Function.update s.slot c none
        mode := Function.update s.mode c .manager } := by
  constructor
  · intro c1 c2 q h1 h2
    rcases update_cases h1 with ⟨_, hq1⟩ | ⟨_, hq1⟩
    · cases hq1
    · rcases update_cases h2 with ⟨_, hq2⟩ | ⟨_, hq2⟩
      · cases hq2
      · exact h.once c1 c2 q hq1 hq2
  · intro c' hm
    rcases eq_or_ne c' c with rfl | hne
    · exact Function.update_self c' _ _
    · rcases update_cases hm with ⟨heq, _⟩ | ⟨_, hm'⟩
      · exact absurd heq hne
      · exact (Function.update_of_ne hne _ _).trans (h.empty c' hm')
  · exact h.holds_update (fun _ => h.holds c (Or.inr hmode))
  · intro c' hm
    rcases update_cases hm with ⟨_, hm'⟩ | ⟨hne, hm'⟩
    · cases hm'
    · rcases h.runs c' hm' with ⟨q, hq, hrun⟩
      exact ⟨q, (Function.update_of_ne hne _ _).trans hq, hrun⟩
  · intro q hrun
    rcases h.placed_other hmode Mode.noConfusion hrun with ⟨c', hne, hslot, hm⟩
    exact ⟨c', (Function.update_of_ne hne _ _).trans hslot,
      (Function.update_of_ne hne _ _).trans hm⟩

theorem Safe.step [DecidableEq ι] (h : Safe s) (hstep : Step c s s') :
    Safe s' := by
  cases hstep with
  | same => exact h
  | acquire hlock => exact h.acquire hlock
  | release hlock hmode => exact h.release hlock hmode
  | dispatch p hlock hmode hp => exact h.dispatch hlock hmode hp
  | leave p hlock hmode hp => exact h.leave hlock hp
  | switch hmode => exact h.switch hmode
  | clear hmode => exact h.clear hmode

theorem Safe.free (h : Safe s) (hlock : s.lock = none) (p : π) :
    (p ∈ s.running ↔ exists c, s.slot c = some p ∧
      forall c', s.slot c' = some p -> c' = c) ∧
      (p ∉ s.running -> forall c, s.slot c ≠ some p) := by
  have hrunning : forall c, s.slot c = some p -> p ∈ s.running := by
    intro c hslot
    rcases h.slot_cases hslot with hrun | ⟨hheld, _⟩
    · exact hrun
    · rw [hlock] at hheld
      cases hheld
  constructor
  · constructor
    · intro hrun
      rcases h.placed p hrun with ⟨c, hslot, _⟩
      exact ⟨c, hslot, fun c' hslot' => h.once c' c p hslot' hslot⟩
    · rintro ⟨c, hslot, _⟩
      exact hrunning c hslot
  · exact fun hnot c hslot => hnot (hrunning c hslot)

end Steps

end Handover

end Lib
end Xv6
