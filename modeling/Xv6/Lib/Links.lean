import Mathlib

/-!
# Singly linked lists

Nodes point to the next one, or to nothing.  A list of nodes is linked from a
pointer if following the pointers gives its nodes in order.  Nodes are appended
by walking to the last one.  A circular list is a segment whose last node
points to its first one.
-/

namespace Xv6
namespace Lib

variable {β : Type}

/-- The nodes that `next` leads to from a pointer. -/
inductive Linked (next : β -> Option β) : Option β -> List β -> Prop where
  | nil : Linked next none []
  | cons {b : β} {l : List β} (h : Linked next (next b) l) :
      Linked next (some b) (b :: l)

/-- The last node from `b` on; none if more than `n` nodes follow. -/
def lastFrom (next : β -> Option β) : Nat -> β -> Option β
  | 0, b =>
      match next b with
      | none => some b
      | some _ => none
  | n + 1, b =>
      match next b with
      | none => some b
      | some c => lastFrom next n c

namespace Linked

variable {next : β -> Option β} {p : Option β} {b : β} {l : List β}

theorem nil_iff : Linked next none l ↔ l = [] := by
  constructor
  · intro h
    cases h
    rfl
  · rintro rfl
    exact Linked.nil

theorem some_iff : Linked next (some b) l ↔
    exists l', l = b :: l' ∧ Linked next (next b) l' := by
  constructor
  · intro h
    cases h with
    | cons h => exact ⟨_, rfl, h⟩
  · rintro ⟨l', rfl, h⟩
    exact Linked.cons h

theorem update_of_not_mem [DecidableEq β] (h : Linked next p l)
    (hb : b ∉ l) (q : Option β) : Linked (Function.update next b q) p l := by
  induction h with
  | nil => exact Linked.nil
  | cons h ih =>
      rcases List.ne_and_not_mem_of_not_mem_cons hb with ⟨hne, hb⟩
      apply Linked.cons
      rw [Function.update_of_ne (Ne.symm hne)]
      exact ih hb

theorem lastFrom_eq {n : Nat} (h : Linked next (some b) l)
    (hn : l.length ≤ n + 1) : lastFrom next n b = l.getLast? := by
  induction n generalizing b l with
  | zero =>
      rcases some_iff.mp h with ⟨l', rfl, hrest⟩
      have hnil : l' = [] := by
        rw [List.length_cons] at hn
        exact List.eq_nil_of_length_eq_zero (by lia)
      subst hnil
      unfold lastFrom
      cases hnext : next b with
      | none => rfl
      | some c =>
          rw [hnext] at hrest
          cases hrest
  | succ n ih =>
      rcases some_iff.mp h with ⟨l', rfl, hrest⟩
      unfold lastFrom
      cases hnext : next b with
      | none =>
          rw [hnext] at hrest
          rw [nil_iff.mp hrest]
          rfl
      | some c =>
          rw [hnext] at hrest
          have hlast := ih hrest (by rw [List.length_cons] at hn; lia)
          rcases some_iff.mp hrest with ⟨l'', rfl, _⟩
          rw [List.getLast?_cons_cons]
          exact hlast

theorem append [DecidableEq β] {init : List β} {last : β}
    (h : Linked next p (init ++ [last])) (hnodup : (init ++ [last]).Nodup)
    (hb : b ∉ init ++ [last]) (hnext : next b = none) :
    Linked (Function.update next last (some b)) p (init ++ [last, b]) := by
  have hne : b ≠ last := by
    rintro rfl
    exact hb (by simp)
  induction init generalizing p with
  | nil =>
      cases h with
      | cons h =>
          apply Linked.cons
          rw [Function.update_self]
          apply Linked.cons
          rw [Function.update_of_ne hne, hnext]
          exact Linked.nil
  | cons c init ih =>
      cases h with
      | cons h =>
          rw [List.cons_append, List.nodup_cons] at hnodup
          have hlast : c ≠ last := by
            rintro rfl
            exact hnodup.1 (by simp)
          apply Linked.cons
          rw [Function.update_of_ne hlast]
          exact ih h hnodup.2 (fun hmem => hb (List.mem_cons_of_mem c hmem))

end Linked

/-!
# Segments

Here every node points somewhere, and the nodes are found by their addresses:
following the pointers from `y` gives the nodes of the list and then `z`.
-/

section Segment

variable {α : Type} (key : β -> α)

def Segment (next : α -> α) : α -> List β -> α -> Prop
  | y, [], z => y = z
  | y, b :: l, z => y = key b ∧ Segment next (next (key b)) l z

variable {key} {next next' : α -> α} {y z : α} {l l' : List β}

theorem segment_append : Segment key next y (l ++ l') z ↔
    exists x, Segment key next y l x ∧ Segment key next x l' z := by
  induction l generalizing y with
  | nil => simp [Segment]
  | cons b l ih =>
      simp only [List.cons_append, Segment, ih]
      tauto

theorem Segment.congr (h : Segment key next y l z)
    (hnext : forall b, b ∈ l -> next' (key b) = next (key b)) :
    Segment key next' y l z := by
  induction l generalizing y with
  | nil => exact h
  | cons b l ih =>
      refine ⟨h.1, ?_⟩
      rw [hnext b (by simp)]
      exact ih h.2 (fun c hc => hnext c (List.mem_cons_of_mem b hc))

theorem Segment.rotate (h : Segment key next y (l ++ l') y) :
    exists x, Segment key next x (l' ++ l) x := by
  rcases segment_append.mp h with ⟨x, hl, hl'⟩
  exact ⟨x, segment_append.mpr ⟨y, hl', hl⟩⟩

end Segment

end Lib
end Xv6
