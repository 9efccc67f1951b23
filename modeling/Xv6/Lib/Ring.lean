import Mathlib

/-!
# Circular buffers with counters that wrap

A circular buffer of `N` slots counts the elements that were put in and the
elements that were taken out with two words of `w` bits, which wrap.  The slot
of an element is its number modulo `N`.  As long as `N` divides `2 ^ w` and is
not all of it, the buffer is a queue: the wrapped difference of the counters is
its length, putting an element in appends it and taking one out removes the
first.
-/

namespace Xv6
namespace Lib

structure Ring (w N : Nat) (α : Type) where
  data : Nat -> α
  nread : BitVec w
  nwrite : BitVec w

namespace Ring

variable {w N : Nat} {α : Type}

def count (r : Ring w N α) : Nat := (r.nwrite - r.nread).toNat

def toList (r : Ring w N α) : List α :=
  (List.range r.count).map (fun i => r.data ((r.nread.toNat + i) % N))

def push (r : Ring w N α) (a : α) : Ring w N α :=
  { r with
    data := Function.update r.data (r.nwrite.toNat % N) a
    nwrite := r.nwrite + 1 }

def pop (r : Ring w N α) : Ring w N α := { r with nread := r.nread + 1 }

@[simp] theorem length_toList (r : Ring w N α) : r.toList.length = r.count := by
  simp [toList]

theorem toList_eq_nil {r : Ring w N α} :
    r.toList = [] ↔ r.nread = r.nwrite := by
  rw [← List.length_eq_zero_iff, length_toList]
  unfold count
  constructor
  · intro h
    have hzero : r.nwrite - r.nread = 0 := BitVec.eq_of_toNat_eq h
    exact (sub_eq_zero.mp hzero).symm
  · intro h
    rw [h, sub_self]
    rfl

theorem slot_ne {m i j : Nat} (hij : i < j) (hj : j < N) :
    (m + i) % N ≠ (m + j) % N := by
  intro h
  have hmod : i ≡ j [MOD N] := Nat.ModEq.add_left_cancel' m h
  have heq := hmod.eq_of_lt_of_lt (hij.trans hj) hj
  lia

theorem toNat_succ {c : BitVec w} (h : c.toNat + 1 < 2 ^ w) :
    (c + 1).toNat = c.toNat + 1 := by
  have hone : (1 : BitVec w).toNat = 1 := by
    rw [show (1 : BitVec w).toNat = 1 % 2 ^ w from BitVec.toNat_ofNat 1 w]
    exact Nat.mod_eq_of_lt (by lia)
  rw [BitVec.toNat_add, hone]
  exact Nat.mod_eq_of_lt h

theorem count_pop {r : Ring w N α} (h : r.nread ≠ r.nwrite) :
    r.count = r.pop.count + 1 := by
  have hsplit : r.nwrite - r.nread = r.nwrite - (r.nread + 1) + 1 := by ring
  have hne : (r.nwrite - (r.nread + 1)).toNat ≠ 2 ^ w - 1 := by
    intro hlast
    have hzero : r.nwrite - r.nread = 0 := by
      apply BitVec.eq_of_toNat_eq
      rw [hsplit, BitVec.toNat_add, hlast,
        show (1 : BitVec w).toNat = 1 % 2 ^ w from BitVec.toNat_ofNat 1 w,
        Nat.add_mod_mod, Nat.sub_add_cancel Nat.one_le_two_pow, Nat.mod_self]
      rfl
    exact h (sub_eq_zero.mp hzero).symm
  have hbound := (r.nwrite - (r.nread + 1)).isLt
  show (r.nwrite - r.nread).toNat = (r.nwrite - (r.nread + 1)).toNat + 1
  rw [hsplit]
  exact toNat_succ (by lia)

theorem count_push {r : Ring w N α} (hlt : N < 2 ^ w) (h : r.count < N)
    (a : α) : (r.push a).count = r.count + 1 := by
  have hsplit : r.nwrite + 1 - r.nread = r.nwrite - r.nread + 1 := by ring
  show (r.nwrite + 1 - r.nread).toNat = r.count + 1
  rw [hsplit]
  unfold count at h ⊢
  exact toNat_succ (by lia)

theorem full_iff {r : Ring w N α} (hlt : N < 2 ^ w) :
    r.nwrite = r.nread + BitVec.ofNat w N ↔ r.count = N := by
  have hN : (BitVec.ofNat w N).toNat = N := by
    rw [BitVec.toNat_ofNat]
    exact Nat.mod_eq_of_lt hlt
  unfold count
  rw [← sub_eq_iff_eq_add']
  constructor
  · intro h
    rw [h, hN]
  · intro h
    exact BitVec.eq_of_toNat_eq (h.trans hN.symm)

/-!
## The queue
-/

section Queue

variable (hdvd : N ∣ 2 ^ w)

include hdvd

theorem slot_add (c d : BitVec w) :
    (c + d).toNat % N = (c.toNat + d.toNat) % N := by
  rw [BitVec.toNat_add]
  exact Nat.mod_mod_of_dvd _ hdvd

theorem slot_nwrite (r : Ring w N α) :
    (r.nread.toNat + r.count) % N = r.nwrite.toNat % N := by
  unfold count
  rw [← slot_add hdvd, add_sub_cancel]

theorem slot_succ (c : BitVec w) (i : Nat) :
    ((c + 1).toNat + i) % N = (c.toNat + (i + 1)) % N := by
  have hone : (1 : BitVec w).toNat % N = 1 % N := by
    rw [show (1 : BitVec w).toNat = 1 % 2 ^ w from BitVec.toNat_ofNat 1 w]
    exact Nat.mod_mod_of_dvd _ hdvd
  rw [Nat.add_mod, slot_add hdvd, Nat.add_mod c.toNat, hone]
  simp only [Nat.add_mod_mod, Nat.mod_add_mod]
  congr 1
  lia

theorem toList_push {r : Ring w N α} (hlt : N < 2 ^ w) (h : r.count < N)
    (a : α) : (r.push a).toList = r.toList ++ [a] := by
  unfold toList
  rw [count_push hlt h, List.range_succ, List.map_append, List.map_singleton]
  congr 1
  · -- the other slots are not touched
    apply List.map_congr_left
    intro i hi
    apply Function.update_of_ne
    rw [← slot_nwrite hdvd]
    exact slot_ne (List.mem_range.mp hi) h
  · show [Function.update r.data _ a ((r.nread.toNat + r.count) % N)] = [a]
    rw [slot_nwrite hdvd, Function.update_self]

theorem toList_pop {r : Ring w N α} (h : r.nread ≠ r.nwrite) :
    r.toList = r.data (r.nread.toNat % N) :: r.pop.toList := by
  unfold toList
  rw [count_pop h, List.range_succ_eq_map, List.map_cons, List.map_map,
    Nat.add_zero]
  congr 1
  apply List.map_congr_left
  intro i _
  show r.data ((r.nread.toNat + (i + 1)) % N) =
    r.data (((r.nread + 1).toNat + i) % N)
  rw [slot_succ hdvd]

theorem toList_split (data : Nat -> α) {a b c : BitVec w}
    (h : (b - a).toNat ≤ (c - a).toNat) :
    toList (N := N) ⟨data, a, c⟩ =
      toList (N := N) ⟨data, a, b⟩ ++ toList (N := N) ⟨data, b, c⟩ := by
  have hrest : (c - b).toNat = (c - a).toNat - (b - a).toNat := by
    rw [← BitVec.toNat_sub_of_le h]
    congr 1
    ring
  have hcount : (c - a).toNat = (b - a).toNat + (c - b).toNat := by lia
  unfold toList count
  dsimp only
  rw [hcount, List.range_add, List.map_append, List.map_map]
  congr 1
  apply List.map_congr_left
  intro i _
  show data ((a.toNat + ((b - a).toNat + i)) % N) = data ((b.toNat + i) % N)
  rw [← Nat.add_assoc, Nat.add_mod, ← slot_add hdvd, add_sub_cancel,
    ← Nat.add_mod]

end Queue

end Ring
end Lib
end Xv6
