import Xv6.Lib.Bytes

/-!
# Bytes in a memory

A memory gives the bytes of the addresses that are mapped.  `Stored` says that a
list of bytes lies in the memory from an address on, `Wrote` that writing it
there is all that happened.  Words are little-endian.
-/

namespace Xv6
namespace Lib

abbrev Memory : Type := Nat -> Option UInt8

namespace Memory

variable {m m' m'' : Memory} {a : Nat} {bs cs : List UInt8}

def Stored (m : Memory) (a : Nat) (bs : List UInt8) : Prop :=
  forall i, i < bs.length -> m (a + i) = bs[i]?

theorem Stored.frame (h : Stored m a bs)
    (hsame : forall x, a ≤ x -> x < a + bs.length -> m' x = m x) :
    Stored m' a bs := by
  intro i hi
  rw [hsame (a + i) (by lia) (by lia)]
  exact h i hi

theorem stored_append :
    Stored m a (bs ++ cs) ↔ Stored m a bs ∧ Stored m (a + bs.length) cs := by
  constructor
  · intro h
    constructor
    · intro i hi
      rw [h i (by rw [List.length_append]; lia), List.getElem?_append_left hi]
    · intro i hi
      rw [Nat.add_assoc, h (bs.length + i) (by rw [List.length_append]; lia),
        List.getElem?_append_right (Nat.le_add_right _ _),
        Nat.add_sub_cancel_left]
  · rintro ⟨hleft, hright⟩ i hi
    rw [List.length_append] at hi
    rcases Nat.lt_or_ge i bs.length with hlt | hge
    · rw [List.getElem?_append_left hlt]
      exact hleft i hlt
    · rw [List.getElem?_append_right hge, ← hright (i - bs.length) (by lia)]
      congr 1
      lia

structure Wrote (a : Nat) (bs : List UInt8) (m m' : Memory) : Prop where
  stored : Stored m' a bs
  others : forall x, ¬ (a ≤ x ∧ x < a + bs.length) -> m' x = m x

theorem Wrote.nil (a : Nat) (m : Memory) : Wrote a [] m m :=
  ⟨fun i hi => absurd hi (Nat.not_lt_zero i), fun _ _ => rfl⟩

theorem Wrote.frame {b : Nat} (h : Wrote a bs m m') (hcs : Stored m b cs)
    (hapart : b + cs.length ≤ a ∨ a + bs.length ≤ b) : Stored m' b cs :=
  hcs.frame (fun x hlo hhi => h.others x (by lia))

/-!
## Words
-/

def word (m : Memory) (a : Nat) : Option UInt32 :=
  if (List.range 4).all (fun i => (m (a + i)).isSome) then
    some (UInt32.ofNat (Bytes.leOf (fun x => (m x).getD 0) a 4))
  else
    none

def bytesOf (w : UInt32) : List UInt8 :=
  (List.range 4).map (Bytes.byteOf w.toNat)

theorem length_bytesOf (w : UInt32) : (bytesOf w).length = 4 := rfl

theorem Stored.word {w : UInt32} (h : Stored m a (bytesOf w)) :
    m.word a = some w := by
  have hbyte : forall i, i < 4 ->
      m (a + i) = some (Bytes.byteOf w.toNat i) := by
    intro i hi
    rw [h i hi]
    unfold bytesOf
    rw [List.getElem?_map, List.getElem?_range hi]
    rfl
  have hmapped : (List.range 4).all (fun i => (m (a + i)).isSome) := by
    apply List.all_eq_true.mpr
    intro i hi
    rw [hbyte i (List.mem_range.mp hi)]
    rfl
  have hvalue : Bytes.leOf (fun x => (m x).getD 0) a 4 = w.toNat := by
    have hle : Bytes.leOf (fun x => (m x).getD 0) a 4 =
        Bytes.leOf (Bytes.byteOf w.toNat) 0 4 := by
      apply Bytes.leOf_congr
      intro i hi
      rw [hbyte i hi, Nat.zero_add]
      rfl
    rw [hle, Bytes.leOf_byteOf]
    exact Nat.mod_eq_of_lt w.toNat_lt
  unfold Memory.word
  rw [if_pos hmapped, hvalue, UInt32.ofNat_toNat]

theorem Stored.words {ws : List UInt32}
    (h : Stored m a (ws.flatMap bytesOf)) :
    forall i, i < ws.length -> m.word (a + 4 * i) = ws[i]? := by
  induction ws generalizing a with
  | nil => exact fun i hi => absurd hi (Nat.not_lt_zero i)
  | cons w ws ih =>
      rw [List.flatMap_cons, stored_append, length_bytesOf] at h
      intro i hi
      cases i with
      | zero => exact h.1.word
      | succ i =>
          have hrest := ih h.2 i (Nat.lt_of_succ_lt_succ hi)
          rw [List.getElem?_cons_succ, ← hrest]
          congr 1
          lia

end Memory

end Lib
end Xv6
