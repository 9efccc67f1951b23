import Mathlib.Order.Interval.Finset.Nat

/-!
# Bounded random numbers

`genrand64_int64` is to draw until a value is below the last whole bin, but the
semicolon after the condition of its loop makes the loop empty: a first value
that is to be refused is tested for ever, and after one that is not refused a
second value is drawn and never tested.
-/

namespace Xv6
namespace Rand

def RAND_MAX : UInt32 := 0x7fffffff

def bins (max : UInt32) : UInt32 := max + 1

def numRand : UInt32 := RAND_MAX + 1

def binSize (max : UInt32) : UInt32 := numRand / bins max

def defect (max : UInt32) : UInt32 := numRand % bins max

/-- The loop, which has no body; `none` while it has not ended. -/
def genrandLoop (max x : UInt32) : Nat -> Option Unit
  | 0 => none
  | fuel + 1 =>
      if numRand - defect max ≤ x then genrandLoop max x fuel else some ()

/-- `draw i` is what the `i`-th call of `genrand` returns. -/
def genrand64Int64 (draw : Nat -> UInt32) (max : UInt32) (fuel : Nat) :
    Option UInt32 :=
  match genrandLoop max (draw 0) fuel with
  | none => none
  | some _ => some (draw 1 / binSize max)

/-- The raw values that are not to be refused. -/
def Accepted (max x : UInt32) : Prop := x < numRand - defect max

instance (max x : UInt32) : Decidable (Accepted max x) :=
  inferInstanceAs (Decidable (_ < _))

/-- What `genrand` may return, with accepted values again and again. -/
structure Draws (max : UInt32) (draw : Nat -> UInt32) : Prop where
  max_le : max ≤ RAND_MAX
  draw_le : forall i, draw i ≤ RAND_MAX
  accepted : forall n, exists i, n ≤ i ∧ Accepted max (draw i)

def sources (max r : UInt32) : Finset Nat :=
  (Finset.range (numRand - defect max).toNat).filter
    (fun x => x / (binSize max).toNat = r.toNat)

/-- The call returns a value from 0 to `max`, and every such value has the same
number of sources. -/
structure Bounded (draw : Nat -> UInt32) (max : UInt32) : Prop where
  returns : exists fuel r, genrand64Int64 draw max fuel = some r ∧ r ≤ max
  even : forall r, r ≤ max -> (sources max r).card = (binSize max).toNat

section Bins

variable {max : UInt32}

theorem bins_toNat (h : max ≤ RAND_MAX) : (bins max).toNat = max.toNat + 1 := by
  have hnat := UInt32.le_iff_toNat_le.mp h
  change max.toNat ≤ 0x7fffffff at hnat
  rw [bins, UInt32.toNat_add]
  show (max.toNat + 1) % 2 ^ 32 = _
  lia

theorem bound_toNat (h : max ≤ RAND_MAX) :
    (numRand - defect max).toNat =
      (max.toNat + 1) * (binSize max).toNat := by
  have hmod : (defect max).toNat = numRand.toNat % (max.toNat + 1) := by
    rw [defect, UInt32.toNat_mod, bins_toNat h]
  have hle : defect max ≤ numRand := by
    rw [UInt32.le_iff_toNat_le, hmod]
    exact Nat.mod_le _ _
  have hsum := Nat.div_add_mod numRand.toNat (max.toNat + 1)
  rw [UInt32.toNat_sub_of_le _ _ hle, hmod, binSize, UInt32.toNat_div,
    bins_toNat h]
  lia

theorem binSize_pos (h : max ≤ RAND_MAX) : 0 < (binSize max).toNat := by
  have hnat := UInt32.le_iff_toNat_le.mp h
  rw [binSize, UInt32.toNat_div, bins_toNat h]
  exact Nat.div_pos (Nat.succ_le_succ hnat) (Nat.succ_pos _)

theorem accepted_iff (h : max ≤ RAND_MAX) (x : UInt32) :
    Accepted max x ↔ x / binSize max ≤ max := by
  rw [Accepted, UInt32.lt_iff_toNat_lt, bound_toNat h, UInt32.le_iff_toNat_le,
    UInt32.toNat_div, ← Nat.lt_succ_iff,
    Nat.div_lt_iff_lt_mul (binSize_pos h)]

theorem sources_card (h : max ≤ RAND_MAX) {r : UInt32} (hr : r ≤ max) :
    (sources max r).card = (binSize max).toNat := by
  have hpos := binSize_pos h
  have hle := UInt32.le_iff_toNat_le.mp hr
  have heq : sources max r = Finset.Ico (r.toNat * (binSize max).toNat)
      ((r.toNat + 1) * (binSize max).toNat) := by
    ext x
    rw [sources, Finset.mem_filter, Finset.mem_range, bound_toNat h,
      Finset.mem_Ico, Nat.div_eq_iff hpos]
    constructor
    · intro hx
      lia
    · intro hx
      have htop : (r.toNat + 1) * (binSize max).toNat ≤
          (max.toNat + 1) * (binSize max).toNat :=
        Nat.mul_le_mul_right _ (Nat.succ_le_succ hle)
      lia
  rw [heq, Nat.card_Ico, Nat.succ_mul, Nat.add_sub_cancel_left]

end Bins

theorem genrandLoop_refused {max x : UInt32} (h : ¬ Accepted max x)
    (fuel : Nat) : genrandLoop max x fuel = none := by
  induction fuel with
  | zero => rfl
  | succ fuel ih =>
      rw [genrandLoop, if_pos (UInt32.not_lt.mp h)]
      exact ih

theorem genrandLoop_accepted {max x : UInt32} (h : Accepted max x)
    (fuel : Nat) : genrandLoop max x (fuel + 1) = some () := by
  rw [genrandLoop, if_neg (UInt32.not_le.mpr h)]

/-- The number is bounded exactly when the first two values that are drawn are
both accepted. -/
theorem genrand_bounded_iff {max : UInt32} {draw : Nat -> UInt32}
    (h : Draws max draw) :
    Bounded draw max ↔ Accepted max (draw 0) ∧ Accepted max (draw 1) := by
  constructor
  · intro hbounded
    rcases hbounded.returns with ⟨fuel, r, hrun, hr⟩
    rcases Decidable.em (Accepted max (draw 0)) with hfirst | hfirst
    · cases fuel with
      | zero => cases hrun
      | succ fuel =>
          rw [genrand64Int64, genrandLoop_accepted hfirst] at hrun
          cases hrun
          exact ⟨hfirst, (accepted_iff h.max_le _).mpr hr⟩
    · rw [genrand64Int64, genrandLoop_refused hfirst] at hrun
      cases hrun
  · intro haccepted
    refine ⟨⟨0 + 1, draw 1 / binSize max, ?_, ?_⟩,
      fun r hr => sources_card h.max_le hr⟩
    · rw [genrand64Int64, genrandLoop_accepted haccepted.1 0]
    · exact (accepted_iff h.max_le _).mp haccepted.2

/-- The value 7 is drawn twice, for six bins. -/
theorem genrand_bounded_five : Bounded (fun _ => 7) 5 := by
  have hdraws : Draws 5 (fun _ => 7) :=
    ⟨by decide, fun _ => by decide, fun n => ⟨n, Nat.le_refl n, by decide⟩⟩
  exact (genrand_bounded_iff hdraws).mpr (by decide)

/-- The second value is not tested: the result for `2 ^ 30` is larger. -/
theorem genrand_unbounded :
    Draws 0x40000000 (fun i => if i = 1 then RAND_MAX else 0) ∧
      genrand64Int64 (fun i => if i = 1 then RAND_MAX else 0) 0x40000000 1 =
        some RAND_MAX ∧ ¬ RAND_MAX ≤ 0x40000000 := by
  refine ⟨⟨by decide, fun i => ?_, fun n => ⟨n + 2, Nat.le_add_right n 2, ?_⟩⟩,
    by decide, by decide⟩
  · show (if i = 1 then RAND_MAX else 0) ≤ RAND_MAX
    split
    · exact UInt32.le_refl _
    · decide
  · show Accepted _ (if n + 2 = 1 then RAND_MAX else 0)
    rw [if_neg (by lia)]
    decide

end Rand
end Xv6
