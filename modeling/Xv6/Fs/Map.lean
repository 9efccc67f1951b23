import Xv6.Fs.Inode

/-!
# Block maps

What an inode maps, as pure functions of the disk: the places of an inode that
hold block numbers, the block behind each block index, and the bytes of the
file.  A place that holds zero maps nothing.
-/

namespace Xv6

open Lib

/-- A place that holds a block number: an entry of `addrs`, whose last one is
the indirect block, or an entry of the indirect block. -/
inductive Place where
  | addr (k : Fin (NDIRECT + 1))
  | entry (j : Fin NINDIRECT)
deriving DecidableEq

abbrev Place.indirect : Place := .addr (Fin.last NDIRECT)

namespace Dinode

variable (di : Dinode) (d : Nat -> Block)

def place : Place -> Nat
  | .addr k => (di.addrs k).toNat
  | .entry j =>
      if di.addrs (Fin.last NDIRECT) = 0 then
        0
      else
        ((d (di.addrs (Fin.last NDIRECT)).toNat).u32 (4 * j)).toNat

def placeOf (bn : Nat) : Option Place :=
  if h : bn < NDIRECT then
    some (.addr ⟨bn, Nat.lt_succ_of_lt h⟩)
  else if h : bn - NDIRECT < NINDIRECT then
    some (.entry ⟨bn - NDIRECT, h⟩)
  else
    none

def blockOf (bn : Nat) : Nat :=
  match placeOf bn with
  | some p => di.place d p
  | none => 0

/-- A byte of the file; holes read as zero. -/
def byteAt (i : Nat) : UInt8 :=
  if di.blockOf d (i / BSIZE) = 0 then
    0
  else
    (d (di.blockOf d (i / BSIZE))).get (i % BSIZE)

def content : List UInt8 :=
  (List.range di.size.toNat).map (di.byteAt d)

def HoleFree : Prop :=
  forall bn, bn * BSIZE < di.size.toNat -> di.blockOf d bn ≠ 0

/-!
## Which blocks a map depends on
-/

theorem place_congr (d' : Nat -> Block) (p : Place)
    (h : di.place d .indirect ≠ 0 ->
      d' (di.place d .indirect) = d (di.place d .indirect)) :
    di.place d' p = di.place d p := by
  cases p with
  | addr k => rfl
  | entry j =>
      simp only [place] at h ⊢
      rcases eq_or_ne (di.addrs (Fin.last NDIRECT)) 0 with hzero | hne
      · rw [if_pos hzero, if_pos hzero]
      · have hind : (di.addrs (Fin.last NDIRECT)).toNat ≠ 0 :=
          fun h0 => hne (UInt32.toNat_inj.mp h0)
        rw [if_neg hne, if_neg hne, h hind]

theorem blockOf_congr (d' : Nat -> Block) (bn : Nat)
    (h : di.place d .indirect ≠ 0 ->
      d' (di.place d .indirect) = d (di.place d .indirect)) :
    di.blockOf d' bn = di.blockOf d bn := by
  unfold blockOf
  cases placeOf bn with
  | none => rfl
  | some p => exact di.place_congr d d' p h

theorem blockOf_eq_place {bn : Nat} (h : di.blockOf d bn ≠ 0) :
    exists p, placeOf bn = some p ∧ di.blockOf d bn = di.place d p := by
  unfold blockOf at h ⊢
  cases hp : placeOf bn with
  | none =>
      rw [hp] at h
      exact absurd rfl h
  | some p => exact ⟨p, rfl, rfl⟩

theorem byteAt_congr (d' : Nat -> Block) (i : Nat)
    (h : forall p, di.place d p ≠ 0 -> d' (di.place d p) = d (di.place d p)) :
    di.byteAt d' i = di.byteAt d i := by
  have hblock := di.blockOf_congr d d' (i / BSIZE) (h .indirect)
  unfold byteAt
  rw [hblock]
  rcases eq_or_ne (di.blockOf d (i / BSIZE)) 0 with hzero | hne
  · rw [if_pos hzero, if_pos hzero]
  · rcases di.blockOf_eq_place d hne with ⟨p, _, hp⟩
    rw [if_neg hne, if_neg hne, hp, h p (hp ▸ hne)]

theorem placeOf_inj {bn bn' : Nat} {p : Place} (h : placeOf bn = some p)
    (h' : placeOf bn' = some p) : bn = bn' := by
  unfold placeOf at h h'
  split at h <;> split at h' <;> grind

theorem placeOf_ne_indirect {bn : Nat} {p : Place} (h : placeOf bn = some p) :
    p ≠ .indirect := by
  unfold placeOf at h
  split at h
  · rename_i hlt
    rw [← Option.some.inj h]
    intro heq
    have hval := congrArg Fin.val (Place.addr.inj heq)
    simp at hval
    lia
  · grind

end Dinode
end Xv6
