import Mathlib

/-!
# Tables

A table is a function from indices to entries that changes one entry at a
time.  What its entries weigh together changes by what that entry does, and a
scan of it in the order of the indices finds the first entry of a kind.
-/

namespace Xv6
namespace Lib

theorem sum_update {ι β : Type} [DecidableEq ι] (w : β -> Nat) (g : ι -> β)
    {s : Finset ι} {i : ι} (x : β) (hi : i ∈ s) :
    s.sum (fun j => w (Function.update g i x j)) + w (g i) =
      s.sum (fun j => w (g j)) + w x := by
  rw [← Finset.add_sum_erase s _ hi, ← Finset.add_sum_erase s _ hi]
  have hrest : (s.erase i).sum (fun j => w (Function.update g i x j)) =
      (s.erase i).sum (fun j => w (g j)) := by
    apply Finset.sum_congr rfl
    intro j hj
    rw [Function.update_of_ne (Finset.ne_of_mem_erase hj)]
  rw [hrest, Function.update_self]
  lia

section Scan

variable {n : Nat} {P : Fin n -> Prop} [DecidablePred P]

theorem scan_some {p : Fin n}
    (h : (List.finRange n).find? (fun p => decide (P p)) = some p) :
    P p ∧ forall q, q < p -> ¬ P q := by
  rcases List.find?_eq_some_iff_getElem.mp h with ⟨hp, i, hi, hip, hfirst⟩
  refine ⟨of_decide_eq_true hp, ?_⟩
  intro q hq
  have hval : i = p.val := by
    rw [← hip, List.getElem_finRange]
    rfl
  have hlt : q.val < i := by
    rw [hval]
    exact hq
  have hq' := hfirst q.val hlt
  simpa using hq'

theorem scan_none
    (h : (List.finRange n).find? (fun p => decide (P p)) = none) (p : Fin n) :
    ¬ P p := by
  have hp := List.find?_eq_none.mp h p (List.mem_finRange p)
  simpa using hp

theorem scan_eq {p : Fin n} (hp : P p) (hfirst : forall q, q < p -> ¬ P q) :
    (List.finRange n).find? (fun p => decide (P p)) = some p := by
  cases h : (List.finRange n).find? (fun p => decide (P p)) with
  | none => exact absurd hp (scan_none h p)
  | some q =>
      rcases scan_some h with ⟨hq, hfirstq⟩
      rcases lt_trichotomy p q with hlt | heq | hgt
      · exact absurd hp (hfirstq p hlt)
      · rw [heq]
      · exact absurd hq (hfirst q hgt)

theorem first_unique {p q : Fin n} (hp : P p)
    (hfirstp : forall r, r < p -> ¬ P r) (hq : P q)
    (hfirstq : forall r, r < q -> ¬ P r) : p = q :=
  Option.some.inj ((scan_eq hp hfirstp).symm.trans (scan_eq hq hfirstq))

end Scan

theorem foldl_invariant {α β : Type} {f : β -> α -> β}
    {I : List α -> β -> Prop} {b : β} (hstart : I [] b)
    (hstep : forall seen x b, I seen b -> I (seen ++ [x]) (f b x))
    (xs : List α) : I xs (xs.foldl f b) := by
  induction xs using List.reverseRecOn with
  | nil => exact hstart
  | append_singleton xs x ih =>
      rw [List.foldl_append]
      exact hstep xs x _ ih

end Lib
end Xv6
