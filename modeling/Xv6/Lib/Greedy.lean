import Mathlib

/-!
# Advancing the least counter

Counters that advance by strides of their own.  If it is always a least one
that advances, no counter gets more than its stride ahead of another one.
-/

namespace Xv6
namespace Lib

section Greedy

variable {ι : Type} {s : Set ι} {stride pass : ι -> Int}

/-- No counter in `s` is more than its own stride ahead of another one. -/
def Close (s : Set ι) (stride pass : ι -> Int) : Prop :=
  forall i, i ∈ s -> forall j, j ∈ s -> pass i ≤ pass j + stride i

theorem close_start (hstride : forall i, i ∈ s -> 0 ≤ stride i)
    (hpass : forall i, i ∈ s -> pass i = stride i) : Close s stride pass := by
  intro i hi j hj
  rw [hpass i hi, hpass j hj]
  have hnonneg := hstride j hj
  lia

theorem Close.congr {pass' : ι -> Int} (h : Close s stride pass)
    (heq : forall i, i ∈ s -> pass' i = pass i) : Close s stride pass' := by
  intro i hi j hj
  rw [heq i hi, heq j hj]
  exact h i hi j hj

theorem Close.advance [DecidableEq ι] (h : Close s stride pass) {p : ι}
    (hmin : forall j, j ∈ s -> pass p ≤ pass j) (hstride : 0 ≤ stride p) :
    Close s stride (Function.update pass p (pass p + stride p)) := by
  intro i hi j hj
  have hij := h i hi j hj
  rcases eq_or_ne i p with rfl | hip
  · rcases eq_or_ne j i with rfl | hji
    · lia
    · rw [Function.update_self, Function.update_of_ne hji]
      have hle := hmin j hj
      lia
  · rw [Function.update_of_ne hip]
    rcases eq_or_ne j p with rfl | hjp
    · rw [Function.update_self]
      lia
    · rw [Function.update_of_ne hjp]
      exact hij

theorem Close.abs_sub_le (h : Close s stride pass) {m : Int}
    (hm : forall i, i ∈ s -> stride i ≤ m) {i j : ι} (hi : i ∈ s)
    (hj : j ∈ s) : |pass i - pass j| ≤ m := by
  have hij := h i hi j hj
  have hji := h j hj i hi
  have hmi := hm i hi
  have hmj := hm j hj
  rw [abs_le]
  constructor
  · lia
  · lia

end Greedy

end Lib
end Xv6
