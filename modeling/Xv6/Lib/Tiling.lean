import Mathlib

/-!
# Blocks that tile memory

Memory is handed out in chunks and divided into blocks, both made of units of
`w` bytes.  The blocks tile the chunks if no two of them overlap and the units
of the blocks are those of the chunks.  Cutting a block in two, joining two
adjacent blocks and a new chunk keep the tiling.
-/

namespace Xv6
namespace Lib

/-- `size` units of memory from `addr` on. -/
structure Blk where
  addr : Nat
  size : Nat
deriving DecidableEq, Repr

namespace Blk

variable {w : Nat} {a m n u : Nat} {b c : Blk}

def stop (w : Nat) (b : Blk) : Nat := b.addr + w * b.size

/-- A unit of the block starts at `u`. -/
def HasUnit (w : Nat) (b : Blk) (u : Nat) : Prop :=
  exists i, i < b.size ∧ u = b.addr + w * i

def Apart (w : Nat) (b c : Blk) : Prop :=
  b.stop w ≤ c.addr ∨ c.stop w ≤ b.addr

theorem Apart.symm (h : Apart w b c) : Apart w c b := Or.symm h

instance : Std.Symm (Apart w) := ⟨fun _ _ => Apart.symm⟩

theorem Apart.addr_ne (h : Apart w b c) (hw : 0 < w) (hb : 0 < b.size)
    (hc : 0 < c.size) : b.addr ≠ c.addr := by
  have hb := Nat.mul_pos hw hb
  have hc := Nat.mul_pos hw hc
  unfold Apart stop at h
  lia

theorem HasUnit.le (h : HasUnit w b u) : b.addr ≤ u := by
  rcases h with ⟨i, _, rfl⟩
  exact Nat.le_add_right b.addr (w * i)

theorem HasUnit.add_le_stop (h : HasUnit w b u) : u + w ≤ b.stop w := by
  rcases h with ⟨i, hi, rfl⟩
  have hmul : w * (i + 1) ≤ w * b.size := Nat.mul_le_mul_left w hi
  rw [Nat.mul_add, Nat.mul_one] at hmul
  unfold stop
  lia

theorem hasUnit_first (h : 0 < b.size) : HasUnit w b b.addr :=
  ⟨0, h, rfl⟩

theorem exists_last (h : 0 < b.size) :
    exists u, HasUnit w b u ∧ u + w = b.stop w := by
  refine ⟨b.addr + w * (b.size - 1), ⟨b.size - 1, by lia, rfl⟩, ?_⟩
  unfold stop
  rw [Nat.add_assoc, ← Nat.mul_succ, Nat.succ_eq_add_one,
    Nat.sub_add_cancel h]

theorem hasUnit_add : HasUnit w ⟨a, m + n⟩ u ↔
    HasUnit w ⟨a, m⟩ u ∨ HasUnit w ⟨a + w * m, n⟩ u := by
  constructor
  · rintro ⟨i, hi, rfl⟩
    dsimp only at hi ⊢
    rcases lt_or_ge i m with him | him
    · exact Or.inl ⟨i, him, rfl⟩
    · refine Or.inr ⟨i - m, by dsimp only; lia, ?_⟩
      dsimp only
      rw [Nat.add_assoc, ← Nat.mul_add, Nat.add_sub_cancel' him]
  · rintro (⟨i, hi, rfl⟩ | ⟨i, hi, rfl⟩)
    · exact ⟨i, by dsimp only at hi ⊢; lia, rfl⟩
    · refine ⟨m + i, by dsimp only at hi ⊢; lia, ?_⟩
      dsimp only
      rw [Nat.mul_add, Nat.add_assoc]

theorem stop_add : stop w ⟨a + w * m, n⟩ = stop w ⟨a, m + n⟩ := by
  unfold stop
  dsimp only
  rw [Nat.mul_add, Nat.add_assoc]

theorem stop_le_stop_add : stop w ⟨a, m⟩ ≤ stop w ⟨a, m + n⟩ := by
  unfold stop
  dsimp only
  rw [Nat.mul_add]
  lia

end Blk

open Blk

/-- The blocks `bs` tile the chunks `cs`. -/
structure Tiles (w : Nat) (cs bs : List Blk) : Prop where
  pos : forall b, b ∈ bs -> 0 < b.size
  apart : bs.Pairwise (Apart w)
  units : forall u, (exists c, c ∈ cs ∧ HasUnit w c u) ↔
    exists b, b ∈ bs ∧ HasUnit w b u

namespace Tiles

variable {w a m n : Nat} {cs bs bs' : List Blk} {b c : Blk}

theorem nil : Tiles w [] [] where
  pos := by simp
  apart := List.Pairwise.nil
  units := by simp

theorem perm (h : Tiles w cs bs) (hp : bs.Perm bs') : Tiles w cs bs' where
  pos b hb := h.pos b (hp.mem_iff.mpr hb)
  apart := (hp.pairwise_iff Apart.symm).mp h.apart
  units u := by
    rw [h.units u]
    simp only [hp.mem_iff]

theorem split (h : Tiles w cs (⟨a, m + n⟩ :: bs)) (hm : 0 < m)
    (hn : 0 < n) : Tiles w cs (⟨a, m⟩ :: ⟨a + w * m, n⟩ :: bs) where
  pos := by
    intro b hb
    rcases List.mem_cons.mp hb with rfl | hb
    · exact hm
    rcases List.mem_cons.mp hb with rfl | hb
    · exact hn
    · exact h.pos b (List.mem_cons_of_mem _ hb)
  apart := by
    rcases List.pairwise_cons.mp h.apart with ⟨hfirst, hrest⟩
    refine List.pairwise_cons.mpr ⟨?_, List.pairwise_cons.mpr ⟨?_, hrest⟩⟩
    · intro b hb
      rcases List.mem_cons.mp hb with rfl | hb
      · exact Or.inl (Nat.le_refl _)
      rcases hfirst b hb with hle | hle
      · exact Or.inl (Nat.le_trans stop_le_stop_add hle)
      · exact Or.inr hle
    · intro b hb
      rcases hfirst b hb with hle | hle
      · exact Or.inl (Nat.le_trans (Nat.le_of_eq stop_add) hle)
      · exact Or.inr (Nat.le_trans hle (Nat.le_add_right a (w * m)))
  units u := by
    rw [h.units u]
    simp only [List.exists_mem_cons_iff, hasUnit_add, or_assoc]

theorem merge (h : Tiles w cs (⟨a, m⟩ :: ⟨a + w * m, n⟩ :: bs)) :
    Tiles w cs (⟨a, m + n⟩ :: bs) where
  pos := by
    intro b hb
    rcases List.mem_cons.mp hb with rfl | hb
    · exact Nat.add_pos_left (h.pos ⟨a, m⟩ (by simp)) n
    · exact h.pos b (by simp [hb])
  apart := by
    rcases List.pairwise_cons.mp h.apart with ⟨hfirst, hrest⟩
    rcases List.pairwise_cons.mp hrest with ⟨hsecond, hrest⟩
    refine List.pairwise_cons.mpr ⟨?_, hrest⟩
    intro b hb
    -- a block between the two would be before the one and after the other
    have hpos := h.pos b (by simp [hb])
    rcases hsecond b hb with hle | hle
    · rw [stop_add] at hle
      exact Or.inl hle
    rcases hfirst b (List.mem_cons_of_mem _ hb) with hle' | hle'
    · rcases Nat.eq_zero_or_pos w with rfl | hw
      · exact Or.inl (by unfold stop at *; dsimp only at *; lia)
      · have hmul := Nat.mul_pos hw hpos
        unfold stop at hle hle'
        dsimp only at hle hle'
        lia
    · exact Or.inr hle'
  units u := by
    rw [h.units u]
    simp only [List.exists_mem_cons_iff, hasUnit_add, or_assoc]

theorem stop_le (h : Tiles w cs bs) (hcs : forall c, c ∈ cs -> c.stop w ≤ a)
    (hb : b ∈ bs) : b.stop w ≤ a := by
  rcases exists_last (w := w) (h.pos b hb) with ⟨u, hu, heq⟩
  rcases (h.units u).mpr ⟨b, hb, hu⟩ with ⟨c, hc, hcu⟩
  rw [← heq]
  exact Nat.le_trans hcu.add_le_stop (hcs c hc)

theorem le_addr (h : Tiles w cs bs) (hcs : forall c, c ∈ cs -> a ≤ c.addr)
    (hb : b ∈ bs) : a ≤ b.addr := by
  rcases (h.units b.addr).mpr ⟨b, hb, hasUnit_first (h.pos b hb)⟩ with
    ⟨c, hc, hcu⟩
  exact Nat.le_trans (hcs c hc) hcu.le

theorem grow (h : Tiles w cs bs) (hc : 0 < c.size)
    (hcs : forall d, d ∈ cs -> d.stop w ≤ c.addr) :
    Tiles w (c :: cs) (c :: bs) where
  pos := by
    intro b hb
    rcases List.mem_cons.mp hb with rfl | hb
    · exact hc
    · exact h.pos b hb
  apart := List.pairwise_cons.mpr
    ⟨fun b hb => Or.inr (h.stop_le hcs hb), h.apart⟩
  units u := by
    simp only [List.exists_mem_cons_iff]
    rw [h.units u]

theorem outside (h : Tiles w cs bs) (hb : b ∈ bs) (hc : c ∈ bs) :
    c.addr ≤ b.addr ∨ b.stop w ≤ c.addr := by
  rcases eq_or_ne c b with rfl | hne
  · exact Or.inl (Nat.le_refl _)
  rcases h.apart.forall hc hb hne with hle | hle
  · exact Or.inl (Nat.le_trans (Nat.le_add_right ..) hle)
  · exact Or.inr hle

theorem unique (h : Tiles w cs bs) (hw : 0 < w) {u : Nat} (hb : b ∈ bs)
    (hc : c ∈ bs) (hbu : HasUnit w b u) (hcu : HasUnit w c u) : b = c := by
  rcases eq_or_ne b c with heq | hne
  · exact heq
  have hapart : Apart w b c := h.apart.forall hb hc hne
  have hb₁ := hbu.le
  have hb₂ := hbu.add_le_stop
  have hc₁ := hcu.le
  have hc₂ := hcu.add_le_stop
  rcases hapart with hle | hle
  · lia
  · lia

end Tiles

end Lib
end Xv6
