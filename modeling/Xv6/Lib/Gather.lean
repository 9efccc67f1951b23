import Mathlib.Data.Finset.Card
import Mathlib.Data.Finset.Erase
import Mathlib.Data.Finset.Filter
import Mathlib.Data.Finset.Range
import Mathlib.Data.Multiset.Filter

/-!
# The values of a partial function

A table with optional entries, seen as the multiset of what its entries hold.
Filling an empty entry adds a value, and a table whose values are all different
holds each of them in one entry only.
-/

namespace Xv6
namespace Lib

variable {ι α : Type}

/-- The values of `f` on `s`. -/
@[irreducible] def gather (f : ι -> Option α) (s : Finset ι) : Multiset α :=
  s.val.filterMap f

theorem mem_gather {f : ι -> Option α} {s : Finset ι} {a : α} :
    a ∈ gather f s ↔ exists i, i ∈ s ∧ f i = some a := by
  unfold gather
  rw [Multiset.mem_filterMap]
  exact Iff.rfl

theorem gather_congr {f g : ι -> Option α} {s : Finset ι}
    (h : forall i, i ∈ s -> f i = g i) : gather f s = gather g s := by
  unfold gather
  rcases s with ⟨m, hm⟩
  induction m using Quotient.inductionOn with
  | h l => exact congrArg _ (List.filterMap_congr h)

theorem gather_empty {f : ι -> Option α} {s : Finset ι}
    (h : forall i, i ∈ s -> f i = none) : gather f s = 0 := by
  apply Multiset.eq_zero_of_forall_notMem
  intro a ha
  rcases mem_gather.mp ha with ⟨i, hi, hf⟩
  rw [h i hi] at hf
  cases hf

theorem gather_range (f : Nat -> Option α) (n : Nat) :
    gather f (Finset.range n) = ((List.range n).filterMap f : List α) := by
  unfold gather
  rfl

theorem card_gather_le (f : ι -> Option α) (s : Finset ι) :
    (gather f s).card ≤ s.card := by
  unfold gather
  rcases s with ⟨m, hm⟩
  induction m using Quotient.inductionOn with
  | h l => exact List.length_filterMap_le f l

theorem gather_filter_add (f : ι -> Option α) (s : Finset ι) (P : ι -> Prop)
    [DecidablePred P] :
    gather f s = gather f (s.filter P) + gather f (s.filter (fun i => ¬ P i)) := by
  unfold gather
  rw [Finset.filter_val, Finset.filter_val, ← Multiset.filterMap_add,
    Multiset.filter_add_not]

variable [DecidableEq ι]

theorem gather_erase_some {f : ι -> Option α} {s : Finset ι} {i : ι} {a : α}
    (hi : i ∈ s) (hf : f i = some a) :
    gather f s = a ::ₘ gather f (s.erase i) := by
  unfold gather
  rw [Finset.erase_val, ← Multiset.filterMap_cons_some f i _ hf,
    Multiset.cons_erase (Finset.mem_def.mp hi)]

theorem gather_erase_none {f : ι -> Option α} {s : Finset ι} {i : ι}
    (hi : i ∈ s) (hf : f i = none) : gather f s = gather f (s.erase i) := by
  have hcons := Multiset.filterMap_cons_none i (s.erase i).val hf
  unfold gather
  rw [← hcons, Finset.erase_val, Multiset.cons_erase (Finset.mem_def.mp hi)]

theorem gather_fill {f g : ι -> Option α} {s : Finset ι} {i : ι} {a : α}
    (hi : i ∈ s) (hf : f i = none) (hg : g i = some a)
    (hother : forall j, j ∈ s -> j ≠ i -> g j = f j) :
    gather g s = a ::ₘ gather f s := by
  rw [gather_erase_some hi hg, gather_erase_none hi hf]
  congr 1
  apply gather_congr
  intro j hj
  exact hother j (Finset.mem_of_mem_erase hj) (Finset.ne_of_mem_erase hj)

theorem gather_inj {f : ι -> Option α} {s : Finset ι} (h : (gather f s).Nodup)
    {i j : ι} {a : α} (hi : i ∈ s) (hj : j ∈ s) (hfi : f i = some a)
    (hfj : f j = some a) : i = j := by
  apply of_not_not
  intro hne
  rw [gather_erase_some hi hfi] at h
  apply (Multiset.nodup_cons.mp h).1
  exact mem_gather.mpr ⟨j, Finset.mem_erase.mpr ⟨Ne.symm hne, hj⟩, hfj⟩

end Lib
end Xv6
