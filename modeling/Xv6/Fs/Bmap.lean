import Xv6.Fs.Own

/-!
# Growing a block map

Allocating a block changes no file: the block was nobody's, and it is zeroed
before a place holds it.  `bmap` therefore keeps the bytes of every inode and
the ownership of every block.
-/

namespace Xv6
namespace Fs

open Lib Lib.Run

/-!
## A freshly allocated block
-/

section Allocated

variable {s : Fs} {b : Nat} (log : Log)

theorem allocated_disk_self : (s.allocated b log).disk b = fun _ => 0 :=
  Function.update_self _ _ _

theorem allocated_disk_of_ne {c : Nat} (hb : c ≠ b) (hmap : c ≠ s.sb.bblock b) :
    (s.allocated b log).disk c = s.disk c := by
  show Function.update (s.sb.setBit s.disk b) b (fun _ => 0) c = s.disk c
  rw [Function.update_of_ne hb, s.sb.setBit_of_ne _ hmap]

theorem allocated_disk_of_isData {c : Nat} (hb : b < s.sb.size) (hne : c ≠ b)
    (hc : s.sb.IsData c) : (s.allocated b log).disk c = s.disk c := by
  apply allocated_disk_of_ne log hne
  intro heq
  exact s.sb.bblock_not_isData hb (heq ▸ hc)

theorem allocated_bitAt_self (hb : s.sb.IsData b) :
    s.sb.bitAt (s.allocated b log).disk b = true := by
  have hne : s.sb.bblock b ≠ b := by
    intro heq
    have hnot := s.sb.bblock_not_isData hb.2
    rw [heq] at hnot
    exact hnot hb
  unfold allocated
  rw [s.sb.bitAt_update hne, s.sb.bitAt_setBit]

theorem allocated_bitAt_of_ne {c : Nat} (hb : s.sb.IsData b)
    (hc : c < s.sb.size) (hne : c ≠ b) :
    s.sb.bitAt (s.allocated b log).disk c = s.sb.bitAt s.disk c := by
  have hmap : s.sb.bblock c ≠ b := by
    intro heq
    have hnot := s.sb.bblock_not_isData hc
    rw [heq] at hnot
    exact hnot hb
  unfold allocated
  rw [s.sb.bitAt_update hmap, s.sb.bitAt_setBit_of_ne _ hne]

theorem allocated_dinode {i : Nat} (hb : s.sb.IsData b)
    (hi : i < s.sb.ninodes) : (s.allocated b log).dinode i = s.dinode i := by
  have hdata : s.sb.iblock i ≠ b := by
    intro heq
    have hnot := s.sb.iblock_not_isData hi
    rw [heq] at hnot
    exact hnot hb
  have hdisk := allocated_disk_of_ne (s := s) log hdata
    (s.sb.iblock_ne_bblock b hi)
  refine dinode_congr rfl (fun _ => rfl) ?_
  show s.sb.dinodeAt (s.allocated b log).disk i = _
  unfold Superblock.dinodeAt
  rw [hdisk]

variable (hown : s.Own) (hlt : b < s.sb.size)
  (hfree : s.sb.bitAt s.disk b = false)
include hown hlt hfree

theorem allocated_disk_place {i : Nat} {p : Place} (hi : i < s.sb.ninodes)
    (htype : (s.dinode i).type ≠ 0)
    (hne : (s.dinode i).place s.disk p ≠ 0) :
    (s.allocated b log).disk ((s.dinode i).place s.disk p) =
      s.disk ((s.dinode i).place s.disk p) :=
  allocated_disk_of_isData log hlt ((hown.free hlt hfree).2 i p hi htype)
    (hown.isData i p hi htype hne)

theorem allocated_place {i : Nat} (p : Place) (hi : i < s.sb.ninodes)
    (htype : (s.dinode i).type ≠ 0) :
    (s.dinode i).place (s.allocated b log).disk p =
      (s.dinode i).place s.disk p :=
  (s.dinode i).place_congr s.disk _ p
    (allocated_disk_place log hown hlt hfree hi htype)

theorem allocated_byteAt {i : Nat} (k : Nat) (hi : i < s.sb.ninodes)
    (htype : (s.dinode i).type ≠ 0) :
    (s.dinode i).byteAt (s.allocated b log).disk k =
      (s.dinode i).byteAt s.disk k :=
  (s.dinode i).byteAt_congr s.disk _ k
    (fun _ hne => allocated_disk_place log hown hlt hfree hi htype hne)

theorem allocated_own : (s.allocated b log).Own := by
  have hdata := (hown.free hlt hfree).1
  apply hown.congr (s.allocated b log) rfl
  · intro i hi
    rw [allocated_dinode log hdata hi]
  · intro i p hi hti
    rw [allocated_dinode log hdata hi]
    exact allocated_place log hown hlt hfree p hi hti
  · intro c hc hbit
    rcases eq_or_ne c b with rfl | hne
    · exact allocated_bitAt_self log hdata
    · rw [allocated_bitAt_of_ne log hdata hc hne]
      exact hbit

end Allocated

/-!
## Filling a place

A place that held nothing gets a marked, zeroed block that nobody owns.  The
two cases of `bmap`, an entry of `addrs` and an entry of the indirect block,
differ in how the place is stored, but not in what follows from it.
-/

/-- `s'` is `s` after place `p` of the inode in slot `ip` got block `b`. -/
structure Filled (s s' : Fs) (inum : Nat) (p : Place) (b : Nat) : Prop where
  sb : s'.sb = s.sb
  bits : forall c, c < s.sb.size -> s.sb.bitAt s'.disk c = s.sb.bitAt s.disk c
  other : forall i, i < s.sb.ninodes -> i ≠ inum -> s'.dinode i = s.dinode i
  type : (s'.dinode inum).type = (s.dinode inum).type
  size : (s'.dinode inum).size = (s.dinode inum).size
  empty : (s.dinode inum).place s.disk p = 0
  place : forall q, (s'.dinode inum).place s'.disk q =
    if q = p then b else (s.dinode inum).place s.disk q
  data : forall c, s.sb.IsData c ->
    c ≠ (s.dinode inum).place s.disk .indirect -> s'.disk c = s.disk c

/-- A marked block that no inode maps and that holds zeroes. -/
structure Spare (s : Fs) (b : Nat) : Prop where
  isData : s.sb.IsData b
  marked : s.sb.bitAt s.disk b = true
  zero : s.disk b = fun _ => 0
  unmapped : forall i p, i < s.sb.ninodes -> (s.dinode i).type ≠ 0 ->
    (s.dinode i).place s.disk p ≠ b

theorem allocated_spare {s : Fs} {b : Nat} (log : Log) (hown : s.Own)
    (hlt : b < s.sb.size) (hfree : s.sb.bitAt s.disk b = false) :
    (s.allocated b log).Spare b := by
  rcases hown.free hlt hfree with ⟨hdata, hnone⟩
  constructor
  · exact hdata
  · exact allocated_bitAt_self log hdata
  · exact allocated_disk_self log
  · intro i p hi htype
    rw [allocated_dinode log hdata hi] at htype ⊢
    rw [allocated_place log hown hlt hfree p hi htype]
    exact hnone i p hi htype

section Filled

variable {s s' : Fs} {inum : Nat} {p : Place} {b : Nat}
  (h : Filled s s' inum p b) (hown : s.Own) (hspare : s.Spare b)
  (hinum : inum < s.sb.ninodes) (htype : (s.dinode inum).type ≠ 0)
include h

theorem Filled.type_eq {i : Nat} (hi : i < s.sb.ninodes) :
    (s'.dinode i).type = (s.dinode i).type := by
  rcases eq_or_ne i inum with rfl | hne
  · exact h.type
  · rw [h.other i hi hne]

include hown hinum htype

theorem Filled.disk_other {i : Nat} {q : Place} (hi : i < s.sb.ninodes)
    (hne : i ≠ inum) (hti : (s.dinode i).type ≠ 0)
    (hq : (s.dinode i).place s.disk q ≠ 0) :
    s'.disk ((s.dinode i).place s.disk q) =
      s.disk ((s.dinode i).place s.disk q) := by
  apply h.data _ (hown.isData i q hi hti hq)
  intro heq
  exact hne (hown.inj i q inum .indirect hi hinum hti htype hq heq).1

theorem Filled.place_other {i : Nat} (q : Place) (hi : i < s.sb.ninodes)
    (hne : i ≠ inum) (hti : (s.dinode i).type ≠ 0) :
    (s'.dinode i).place s'.disk q = (s.dinode i).place s.disk q := by
  rw [h.other i hi hne]
  exact (s.dinode i).place_congr s.disk _ q
    (h.disk_other hown hinum htype hi hne hti)

theorem Filled.byteAt_other {i : Nat} (k : Nat) (hi : i < s.sb.ninodes)
    (hne : i ≠ inum) (hti : (s.dinode i).type ≠ 0) :
    (s'.dinode i).byteAt s'.disk k = (s.dinode i).byteAt s.disk k := by
  rw [h.other i hi hne]
  exact (s.dinode i).byteAt_congr s.disk _ k
    (fun _ hq => h.disk_other hown hinum htype hi hne hti hq)

theorem Filled.place_cases {i : Nat} (q : Place) (hi : i < s.sb.ninodes)
    (hti : (s.dinode i).type ≠ 0) :
    (i = inum ∧ q = p ∧ (s'.dinode i).place s'.disk q = b) ∨
      (¬ (i = inum ∧ q = p) ∧
        (s'.dinode i).place s'.disk q = (s.dinode i).place s.disk q) := by
  rcases eq_or_ne i inum with rfl | hne
  · rcases eq_or_ne q p with rfl | hq
    · exact Or.inl ⟨rfl, rfl, by rw [h.place, if_pos rfl]⟩
    · exact Or.inr ⟨fun hand => hq hand.2, by rw [h.place, if_neg hq]⟩
  · exact Or.inr ⟨fun hand => hne hand.1,
      h.place_other hown hinum htype q hi hne hti⟩

include hspare

theorem Filled.own : s'.Own := by
  have hcases : forall i q, i < s.sb.ninodes -> (s'.dinode i).type ≠ 0 ->
      (i = inum ∧ q = p ∧ (s'.dinode i).place s'.disk q = b) ∨
        (¬ (i = inum ∧ q = p) ∧
          (s'.dinode i).place s'.disk q = (s.dinode i).place s.disk q) :=
    fun i q hi hti => h.place_cases hown hinum htype q hi
      (h.type_eq hi ▸ hti)
  have htypes : forall i, i < s.sb.ninodes -> (s'.dinode i).type ≠ 0 ->
      (s.dinode i).type ≠ 0 :=
    fun i hi hti => h.type_eq hi ▸ hti
  constructor
  · intro i q hi hti hne
    rw [h.sb] at hi ⊢
    rcases hcases i q hi hti with ⟨_, _, hval⟩ | ⟨_, hval⟩
    · rw [hval]
      exact hspare.isData
    · rw [hval] at hne ⊢
      exact hown.isData i q hi (htypes i hi hti) hne
  · intro i q j r hi hj hti htj hne heq
    rw [h.sb] at hi hj
    -- A block that was mapped before is not the new one.
    rcases hcases i q hi hti with ⟨hi', hq, hval⟩ | ⟨_, hval⟩
    · rcases hcases j r hj htj with ⟨hj', hr, _⟩ | ⟨_, hval'⟩
      · exact ⟨hi'.trans hj'.symm, hq.trans hr.symm⟩
      · rw [hval, hval'] at heq
        exact absurd heq.symm (hspare.unmapped j r hj (htypes j hj htj))
    · rcases hcases j r hj htj with ⟨_, _, hval'⟩ | ⟨_, hval'⟩
      · rw [hval, hval'] at heq
        exact absurd heq (hspare.unmapped i q hi (htypes i hi hti))
      · rw [hval] at hne heq
        rw [hval'] at heq
        exact hown.inj i q j r hi hj (htypes i hi hti) (htypes j hj htj)
          hne heq
  · intro i q hi hti hne
    rw [h.sb] at hi ⊢
    rcases hcases i q hi hti with ⟨_, _, hval⟩ | ⟨_, hval⟩
    · rw [hval, h.bits b hspare.isData.2]
      exact hspare.marked
    · rw [hval] at hne ⊢
      rw [h.bits _ (hown.isData i q hi (htypes i hi hti) hne).2]
      exact hown.used i q hi (htypes i hi hti) hne
  · intro c hc hnot
    rw [h.sb] at hc hnot ⊢
    rw [h.bits c hc]
    exact hown.reserved c hc hnot

theorem Filled.byteAt_self (k : Nat) :
    (s'.dinode inum).byteAt s'.disk k = (s.dinode inum).byteAt s.disk k := by
  unfold Dinode.byteAt Dinode.blockOf
  cases hp : Dinode.placeOf (k / BSIZE) with
  | none => rfl
  | some q =>
      have hind := Dinode.placeOf_ne_indirect hp
      simp only [h.place]
      rcases eq_or_ne q p with rfl | hq
      · have hpos := hspare.isData.pos
        have hdisk : s'.disk b = s.disk b :=
          h.data b hspare.isData
            (hspare.unmapped inum .indirect hinum htype).symm
        rw [if_pos rfl, if_neg (by lia), if_pos h.empty, hdisk, hspare.zero]
        simp [Bytes.get]
      · rw [if_neg hq]
        rcases eq_or_ne ((s.dinode inum).place s.disk q) 0 with hzero | hne
        · rw [if_pos hzero, if_pos hzero]
        · have hdisk := h.data _ (hown.isData inum q hinum htype hne)
            (fun heq => hind
              (hown.inj inum q inum .indirect hinum hinum htype htype hne
                heq).2)
          rw [if_neg hne, if_neg hne, hdisk]

end Filled

/-!
## The slot of a held inode
-/

def withDin (s : Fs) (ip : Slot) (di : Dinode) : Fs :=
  { s with
    icache := Function.update s.icache ip { s.icache ip with din := di } }

section WithDin

variable {s : Fs} {ip : Slot} (di : Dinode)

theorem withDin_icache_self :
    (s.withDin ip di).icache ip = { s.icache ip with din := di } :=
  Function.update_self _ _ _

theorem withDin_icache_of_ne {jp : Slot} (h : jp ≠ ip) :
    (s.withDin ip di).icache jp = s.icache jp :=
  Function.update_of_ne h _ _

theorem withDin_ref (s : Fs) (ip : Slot) (di : Dinode) (jp : Slot) :
    ((s.withDin ip di).icache jp).ref = (s.icache jp).ref ∧
      ((s.withDin ip di).icache jp).valid = (s.icache jp).valid ∧
        ((s.withDin ip di).icache jp).inum = (s.icache jp).inum := by
  rcases eq_or_ne jp ip with rfl | hne
  · rw [withDin_icache_self]
    exact ⟨rfl, rfl, rfl⟩
  · rw [withDin_icache_of_ne di hne]
    exact ⟨rfl, rfl, rfl⟩

theorem withDin_cached (i : Nat) : (s.withDin ip di).cached i = s.cached i := by
  unfold cached
  congr 1
  funext jp
  rcases withDin_ref s ip di jp with ⟨href, hvalid, hinum⟩
  rw [href, hvalid, hinum]

theorem Held.withDin (h : s.Held ip) : (s.withDin ip di).Held ip := by
  have hfields := withDin_ref s ip di
  constructor
  · rw [(hfields ip).1]
    exact h.ref_pos
  · rw [(hfields ip).2.1]
    exact h.valid
  · rw [(hfields ip).2.2]
    exact h.inum_lt
  · intro jp href hinum
    rw [(hfields jp).1] at href
    rw [(hfields jp).2.2, (hfields ip).2.2] at hinum
    exact h.unique jp href hinum

theorem Held.withDin_dinode (h : s.Held ip) :
    (s.withDin ip di).dinode (s.icache ip).inum = di := by
  unfold dinode
  rw [withDin_cached, h.cached_eq]
  show ((s.withDin ip di).icache ip).din = di
  rw [withDin_icache_self]

theorem withDin_dinode_of_ne {i : Nat} (hi : i ≠ (s.icache ip).inum) :
    (s.withDin ip di).dinode i = s.dinode i := by
  unfold dinode
  rw [withDin_cached]
  cases hc : s.cached i with
  | none => rfl
  | some jp =>
      -- The slot found for another inode is another slot.
      have hjp : (s.icache jp).inum = i := by
        have hfound := List.find?_some hc
        simp only [decide_eq_true_eq] at hfound
        exact hfound.2.2
      have hne : jp ≠ ip := fun heq => hi (heq ▸ hjp.symm)
      show ((s.withDin ip di).icache jp).din = (s.icache jp).din
      rw [withDin_icache_of_ne di hne]

end WithDin

/-!
## The two ways to fill a place
-/

/-- The copied fields with block `b` at entry `k` of `addrs`. -/
def addrSet (di : Dinode) (k : Fin (NDIRECT + 1)) (b : Nat) : Dinode :=
  { di with addrs := Function.update di.addrs k (UInt32.ofNat b) }

theorem Spare.toNat_ofNat {s : Fs} {b : Nat} (h : s.Spare b) :
    (UInt32.ofNat b).toNat = b := by
  have hlt := h.isData.2
  have hsize := s.sb.size_lt
  rw [UInt32.toNat_ofNat', Nat.mod_eq_of_lt (by lia)]

theorem u32_zero (o : Nat) : Bytes.u32 (fun _ => 0 : Block) o = 0 := by
  have hle : Bytes.le (fun _ => 0 : Block) o 4 = 0 := by
    simp [Bytes.le, Bytes.leOf, Bytes.get]
  unfold Bytes.u32
  rw [hle]
  rfl

theorem filled_addr {s : Fs} {ip : Slot} {k : Fin (NDIRECT + 1)} {b : Nat}
    (hheld : s.Held ip) (hspare : s.Spare b)
    (hempty : (s.icache ip).din.addrs k = 0) :
    Filled s (s.withDin ip (addrSet (s.icache ip).din k b))
      (s.icache ip).inum (.addr k) b := by
  have hself := hheld.withDin_dinode (addrSet (s.icache ip).din k b)
  have hdin := hheld.dinode_eq
  constructor
  · rfl
  · intro c _
    rfl
  · intro i _ hne
    exact withDin_dinode_of_ne _ hne
  · rw [hself, hdin]
    rfl
  · rw [hself, hdin]
    rfl
  · rw [hdin]
    simp only [Dinode.place, hempty]
    rfl
  · intro q
    rw [hself, hdin]
    show (addrSet (s.icache ip).din k b).place s.disk q = _
    cases q with
    | addr l =>
        rcases eq_or_ne l k with rfl | hne
        · simp only [Dinode.place, addrSet, Function.update_self, if_true]
          exact hspare.toNat_ofNat
        · have hplace : Place.addr l ≠ Place.addr k :=
            fun heq => hne (Place.addr.inj heq)
          simp only [Dinode.place, addrSet, Function.update_of_ne hne,
            if_neg hplace]
    | entry j =>
        have hplace : Place.entry j ≠ Place.addr k := by
          intro heq
          cases heq
        rw [if_neg hplace]
        rcases eq_or_ne (Fin.last NDIRECT) k with rfl | hne
        · -- A new indirect block: it had no entries and has none.
          simp only [Dinode.place, addrSet, Function.update_self, hempty,
            if_true, hspare.toNat_ofNat, hspare.zero, u32_zero]
          split <;> rfl
        · simp only [Dinode.place, addrSet, Function.update_of_ne hne]
  · intro c _ _
    rfl

/-- The state with entry `j` of the indirect block `ind` set to `b`. -/
def withEntry (s : Fs) (ind : Nat) (j : Fin NINDIRECT) (b : Nat) : Fs :=
  { s with
    disk := Function.update s.disk ind
      ((s.disk ind).setU32 (4 * j) (UInt32.ofNat b)) }

theorem withEntry_dinode {s : Fs} {ind : Nat} {j : Fin NINDIRECT} {b i : Nat}
    (hind : s.sb.IsData ind) (hi : i < s.sb.ninodes) :
    (s.withEntry ind j b).dinode i = s.dinode i := by
  have hne : s.sb.iblock i ≠ ind :=
    fun heq => s.sb.iblock_not_isData hi (heq.symm ▸ hind)
  exact dinode_congr rfl (fun _ => rfl) (s.sb.dinodeAt_update hne)

theorem filled_entry {s : Fs} {ip : Slot} {j : Fin NINDIRECT} {b : Nat}
    (hheld : s.Held ip) (hown : s.Own) (hspare : s.Spare b)
    (htype : (s.icache ip).din.type ≠ 0)
    (hind : (s.icache ip).din.place s.disk .indirect ≠ 0)
    (hempty : (s.icache ip).din.place s.disk (.entry j) = 0) :
    Filled s
      (s.withEntry ((s.icache ip).din.place s.disk .indirect) j b)
      (s.icache ip).inum (.entry j) b := by
  have hdin := hheld.dinode_eq
  have hdata : s.sb.IsData ((s.icache ip).din.place s.disk .indirect) := by
    rw [← hdin] at htype hind ⊢
    exact hown.isData _ _ hheld.inum_lt htype hind
  have htable : forall i, i < s.sb.ninodes ->
      (s.withEntry ((s.icache ip).din.place s.disk .indirect) j b).dinode i =
        s.dinode i :=
    fun i hi => withEntry_dinode hdata hi
  have hself := (htable _ hheld.inum_lt).trans hdin
  have hlast : (s.icache ip).din.addrs (Fin.last NDIRECT) ≠ 0 := by
    intro hzero
    apply hind
    simp only [Dinode.place, hzero]
    rfl
  constructor
  · rfl
  · intro c hc
    apply s.sb.bitAt_update
    intro heq
    exact s.sb.bblock_not_isData hc (heq.symm ▸ hdata)
  · intro i hi _
    exact htable i hi
  · rw [hself, hdin]
  · rw [hself, hdin]
  · rw [hdin]
    exact hempty
  · intro q
    rw [hself, hdin]
    cases q with
    | addr l =>
        have hplace : Place.addr l ≠ Place.entry j := by
          intro heq
          cases heq
        rw [if_neg hplace]
        rfl
    | entry l =>
        have hl := l.isLt
        have hj := j.isLt
        simp only [Dinode.place, if_neg hlast, withEntry,
          Function.update_self]
        rcases eq_or_ne l j with rfl | hne
        · rw [if_pos rfl, Bytes.u32_setU32 _ _ (by lia)]
          exact hspare.toNat_ofNat
        · have hval : l.val ≠ j.val := fun heq => hne (Fin.ext heq)
          have hplace : Place.entry l ≠ Place.entry j :=
            fun heq => hne (Place.entry.inj heq)
          rw [if_neg hplace, Bytes.u32_setU32_of_disjoint _ _ (by lia)]
  · intro c _ hne
    rw [hdin] at hne
    exact Function.update_of_ne hne _ _

/-!
## What `bmap` does
-/

/-- `s'` is `s` after the inode in slot `ip` was given blocks: places that held
a block still hold it, and the other inodes are as before. -/
structure Extended (s s' : Fs) (ip : Slot) : Prop where
  sb : s'.sb = s.sb
  cons : s'.cons = s.cons
  cache : forall jp, jp ≠ ip -> s'.icache jp = s.icache jp
  slot : exists addrs, s'.icache ip =
    { s.icache ip with din := { (s.icache ip).din with addrs := addrs } }
  held : s'.Held ip
  own : s'.Own
  other : forall i, i < s.sb.ninodes -> i ≠ (s.icache ip).inum ->
    s'.dinode i = s.dinode i
  keep : forall p, (s.icache ip).din.place s.disk p ≠ 0 ->
    (s'.icache ip).din.place s'.disk p = (s.icache ip).din.place s.disk p

/-- The inode was given blocks and no file reads differently. -/
structure Grown (s s' : Fs) (ip : Slot) : Prop extends Extended s s' ip where
  bytes : forall i k, i < s.sb.ninodes -> (s.dinode i).type ≠ 0 ->
    (s'.dinode i).byteAt s'.disk k = (s.dinode i).byteAt s.disk k

section Extended

variable {s s' t u : Fs} {ip : Slot}

theorem Extended.refl (hheld : s.Held ip) (hown : s.Own) :
    Extended s s ip where
  sb := rfl
  cons := rfl
  cache _ _ := rfl
  slot := ⟨(s.icache ip).din.addrs, rfl⟩
  held := hheld
  own := hown
  other _ _ _ := rfl
  keep _ _ := rfl

theorem Extended.inum (h : Extended s s' ip) :
    (s'.icache ip).inum = (s.icache ip).inum := by
  rcases h.slot with ⟨addrs, hslot⟩
  rw [hslot]

theorem Extended.type (h : Extended s s' ip) :
    (s'.icache ip).din.type = (s.icache ip).din.type := by
  rcases h.slot with ⟨addrs, hslot⟩
  rw [hslot]

theorem Extended.size (h : Extended s s' ip) :
    (s'.icache ip).din.size = (s.icache ip).din.size := by
  rcases h.slot with ⟨addrs, hslot⟩
  rw [hslot]

theorem Extended.type_eq (h : Extended s s' ip) (hheld : s.Held ip) {i : Nat}
    (hi : i < s.sb.ninodes) : (s'.dinode i).type = (s.dinode i).type := by
  rcases eq_or_ne i (s.icache ip).inum with rfl | hne
  · have hnew := h.held.dinode_eq
    rw [h.inum] at hnew
    rw [hnew, hheld.dinode_eq]
    exact h.type
  · rw [h.other i hi hne]

theorem Extended.trans (h : Extended s t ip) (h' : Extended t u ip) :
    Extended s u ip where
  sb := h'.sb.trans h.sb
  cons := h'.cons.trans h.cons
  cache jp hne := (h'.cache jp hne).trans (h.cache jp hne)
  slot := by
    rcases h.slot with ⟨addrs, hslot⟩
    rcases h'.slot with ⟨addrs', hslot'⟩
    exists addrs'
    rw [hslot', hslot]
  held := h'.held
  own := h'.own
  other i hi hne := by
    rw [h'.other i (h.sb.symm ▸ hi) (h.inum.symm ▸ hne), h.other i hi hne]
  keep p hne := by
    have hkeep := h.keep p hne
    rw [h'.keep p (hkeep.symm ▸ hne), hkeep]

theorem Grown.refl (hheld : s.Held ip) (hown : s.Own) : Grown s s ip :=
  { Extended.refl hheld hown with bytes := fun _ _ _ _ => rfl }

theorem Grown.trans (hheld : s.Held ip) (h : Grown s t ip)
    (h' : Grown t u ip) : Grown s u ip :=
  { h.toExtended.trans h'.toExtended with
    bytes := by
      intro i k hi htype
      have htype' : (t.dinode i).type ≠ 0 := by
        rw [h.type_eq hheld hi]
        exact htype
      rw [h'.bytes i k (h.sb.symm ▸ hi) htype', h.bytes i k hi htype] }

end Extended

theorem grown_allocated {s : Fs} {ip : Slot} {b : Nat} (log : Log)
    (hheld : s.Held ip) (hown : s.Own) (htype : (s.icache ip).din.type ≠ 0)
    (hlt : b < s.sb.size) (hfree : s.sb.bitAt s.disk b = false) :
    Grown s (s.allocated b log) ip where
  sb := rfl
  cons := rfl
  cache _ _ := rfl
  slot := ⟨(s.icache ip).din.addrs, rfl⟩
  held := ⟨hheld.ref_pos, hheld.valid, hheld.inum_lt, hheld.unique⟩
  own := allocated_own log hown hlt hfree
  other i hi _ := allocated_dinode log (hown.free hlt hfree).1 hi
  keep p _ := by
    have hplace := allocated_place log hown hlt hfree p hheld.inum_lt
      (hheld.dinode_eq ▸ htype)
    rw [hheld.dinode_eq] at hplace
    exact hplace
  bytes i k hi hti := by
    rw [allocated_dinode log (hown.free hlt hfree).1 hi]
    exact allocated_byteAt log hown hlt hfree k hi hti

theorem Filled.grown {s s' : Fs} {ip : Slot} {p : Place} {b : Nat}
    (h : Filled s s' (s.icache ip).inum p b) (hheld : s.Held ip)
    (hown : s.Own) (hspare : s.Spare b)
    (htype : (s.icache ip).din.type ≠ 0) (hcons : s'.cons = s.cons)
    (hcache : forall jp, jp ≠ ip -> s'.icache jp = s.icache jp)
    (hslot : exists addrs, s'.icache ip =
      { s.icache ip with din := { (s.icache ip).din with addrs := addrs } })
    (hheld' : s'.Held ip) : Grown s s' ip := by
  have hdin := hheld.dinode_eq
  have hinum : (s'.icache ip).inum = (s.icache ip).inum := by
    rcases hslot with ⟨addrs, heq⟩
    rw [heq]
  have hdin' : s'.dinode (s.icache ip).inum = (s'.icache ip).din := by
    rw [← hinum]
    exact hheld'.dinode_eq
  have htype' : (s.dinode (s.icache ip).inum).type ≠ 0 := hdin ▸ htype
  refine ⟨⟨h.sb, hcons, hcache, hslot, hheld',
    h.own hown hspare hheld.inum_lt htype', h.other, ?_⟩, ?_⟩
  · intro q hne
    have hq : q ≠ p := by
      intro heq
      have hempty := h.empty
      rw [hdin, ← heq] at hempty
      exact hne hempty
    rw [← hdin', h.place, if_neg hq, hdin]
  · intro i k hi hti
    rcases eq_or_ne i (s.icache ip).inum with rfl | hne
    · exact h.byteAt_self hown hspare hheld.inum_lt htype' k
    · exact h.byteAt_other hown hheld.inum_lt htype' k hi hne hti

/-!
## Free blocks and logged blocks
-/

def freeCount (s : Fs) : Nat :=
  ((List.range s.sb.size).filter (fun b => !s.sb.bitAt s.disk b)).length

theorem freeCount_of_full {s : Fs} (h : s.Full) : s.freeCount = 0 := by
  unfold freeCount
  rw [List.length_eq_zero_iff, List.filter_eq_nil_iff]
  intro b hb
  simp [h b (List.mem_range.mp hb)]

theorem freeCount_congr {s s' : Fs} (hsb : s'.sb = s.sb)
    (h : forall c, c < s.sb.size ->
      s.sb.bitAt s'.disk c = s.sb.bitAt s.disk c) :
    s'.freeCount = s.freeCount := by
  unfold freeCount
  rw [hsb]
  congr 1
  apply List.filter_congr
  intro c hc
  rw [h c (List.mem_range.mp hc)]

theorem freeCount_allocated {s : Fs} {b : Nat} (log : Log) (hown : s.Own)
    (hlt : b < s.sb.size) (hfree : s.sb.bitAt s.disk b = false) :
    (s.allocated b log).freeCount + 1 = s.freeCount := by
  have hdata := (hown.free hlt hfree).1
  have hfilter : (List.range s.sb.size).filter
      (fun c => !s.sb.bitAt (s.allocated b log).disk c) =
        ((List.range s.sb.size).filter
          (fun c => !s.sb.bitAt s.disk c)).erase b := by
    rw [List.Nodup.erase_eq_filter (List.nodup_range.filter _),
      List.filter_filter]
    apply List.filter_congr
    intro c hc
    rcases eq_or_ne c b with rfl | hne
    · simp [allocated_bitAt_self log hdata]
    · rw [allocated_bitAt_of_ne log hdata (List.mem_range.mp hc) hne]
      simp [hne]
  have hmem : b ∈ (List.range s.sb.size).filter
      (fun c => !s.sb.bitAt s.disk c) := by
    simp [hlt, hfree]
  show (List.filter (fun c => !s.sb.bitAt (s.allocated b log).disk c)
    (List.range s.sb.size)).length + 1 = s.freeCount
  rw [hfilter, List.length_erase_of_mem hmem]
  have hpos := List.length_pos_of_mem hmem
  unfold freeCount
  lia

def IsBitmap (sb : Superblock) (c : Nat) : Prop :=
  exists b, b < sb.size ∧ c = sb.bblock b

/-!
## The specification of `bmap`
-/

/-- How a function that needs `need` free blocks may stop: the bitmap had
fewer, or the log refused one of the blocks in `logged`. -/
def AllocStop (s : Fs) (need : Nat) (logged : Nat -> Prop) (e : Stop) : Prop :=
  (e = .panic "balloc: out of blocks" ∧ s.freeCount < need) ∨
    exists bs, s.log.logAll bs = .error e ∧ forall c, c ∈ bs -> logged c

/-- What a block map function leaves after it filled at most place `p`. -/
structure Mapped (s s' : Fs) (ip : Slot) (p : Place) (b : Nat)
    (logged : Nat -> Prop) : Prop where
  grown : Grown s s' ip
  block : (s'.icache ip).din.place s'.disk p = b
  ne_zero : b ≠ 0
  rest : forall q, q ≠ p -> (s'.icache ip).din.place s'.disk q =
    (s.icache ip).din.place s.disk q
  free : s'.freeCount + (if (s.icache ip).din.place s.disk p = 0 then 1 else 0) =
    s.freeCount
  log : exists bs, s.log.logAll bs = .ok s'.log ∧ forall c, c ∈ bs -> logged c

theorem mapped_of_ne_zero {s : Fs} {ip : Slot} {p : Place} {b : Nat}
    {logged : Nat -> Prop} (hheld : s.Held ip) (hown : s.Own)
    (hblock : (s.icache ip).din.place s.disk p = b) (hne : b ≠ 0) :
    Mapped s s ip p b logged where
  grown := Grown.refl hheld hown
  block := hblock
  ne_zero := hne
  rest _ _ := rfl
  free := by
    rw [hblock, if_neg hne, Nat.add_zero]
  log := ⟨[], rfl, fun _ hc => absurd hc List.not_mem_nil⟩

theorem mapped_of_filled {s u : Fs} {ip : Slot} {p : Place} {b : Nat}
    {log : Log} {logged : Nat -> Prop} (hheld : s.Held ip) (hown : s.Own)
    (htype : (s.icache ip).din.type ≠ 0) (hlt : b < s.sb.size)
    (hfree : s.sb.bitAt s.disk b = false)
    (hempty : (s.icache ip).din.place s.disk p = 0)
    (hfill : Filled (s.allocated b log) u (s.icache ip).inum p b)
    (hgrown : Grown (s.allocated b log) u ip)
    (hlog : exists bs, s.log.logAll bs = .ok u.log ∧
      forall c, c ∈ bs -> logged c) :
    Mapped s u ip p b logged := by
  have halloc := grown_allocated log hheld hown htype hlt hfree
  have hdin : u.dinode (s.icache ip).inum = (u.icache ip).din := by
    have hu := hgrown.held.dinode_eq
    rw [hgrown.inum] at hu
    exact hu
  constructor
  · exact halloc.trans hheld hgrown
  · rw [← hdin, hfill.place, if_pos rfl]
  · have hpos := (hown.free hlt hfree).1.pos
    lia
  · intro q hq
    have hsame := allocated_place log hown hlt hfree q hheld.inum_lt
      (hheld.dinode_eq ▸ htype)
    rw [hheld.dinode_eq] at hsame
    rw [← hdin, hfill.place, if_neg hq,
      allocated_dinode log (hown.free hlt hfree).1 hheld.inum_lt,
      hheld.dinode_eq, hsame]
  · rw [if_pos hempty, freeCount_congr hfill.sb hfill.bits]
    exact freeCount_allocated log hown hlt hfree
  · exact hlog

theorem allocStop_of_balloc {s : Fs} {logged : Nat -> Nat -> Prop} {e : Stop}
    (hmap : forall b c, IsBitmap s.sb c -> logged b c)
    (hself : forall b, logged b b)
    (h : (e = .panic "balloc: out of blocks" ∧ s.Full) ∨
      exists b bs, b < s.sb.size ∧ s.sb.bitAt s.disk b = false ∧
        bs <+: [s.sb.bblock b, b] ∧ s.log.logAll bs = .error e) :
    exists b, AllocStop s 1 (logged b) e := by
  rcases h with ⟨rfl, hfull⟩ | ⟨b, bs, hlt, _, hpre, herr⟩
  · refine ⟨0, Or.inl ⟨rfl, ?_⟩⟩
    rw [freeCount_of_full hfull]
    exact Nat.zero_lt_one
  · refine ⟨b, Or.inr ⟨bs, herr, ?_⟩⟩
    intro c hc
    rcases List.mem_pair.mp (hpre.subset hc) with rfl | rfl
    · exact hmap b _ ⟨b, hlt, rfl⟩
    · exact hself c

theorem bmapAddr_spec {s : Fs} {ip : Slot} (k : Fin (NDIRECT + 1))
    (hheld : s.Held ip) (hown : s.Own)
    (htype : (s.icache ip).din.type ≠ 0) :
    wp (bmapAddr ip k)
      (fun b s' => Mapped s s' ip (.addr k) b
        (fun c => IsBitmap s.sb c ∨ c = b))
      (fun e => exists b, AllocStop s
        (if (s.icache ip).din.place s.disk (.addr k) = 0 then 1 else 0)
        (fun c => IsBitmap s.sb c ∨ c = b) e)
      s := by
  unfold bmapAddr
  simp only [inode, wp_bind, wp_gets]
  rcases eq_or_ne ((s.icache ip).din.addrs k) 0 with hzero | hne
  · have hplace : (s.icache ip).din.place s.disk (.addr k) = 0 := by
      simp only [Dinode.place, hzero]
      rfl
    simp only [hzero, if_true, wp_bind]
    apply wp_mono (balloc_spec s)
    · rintro b t ⟨hlt, hfree, log, hlog, rfl⟩
      have halloc := grown_allocated log hheld hown htype hlt hfree
      have hspare := allocated_spare log hown hlt hfree
      have hfill := filled_addr (k := k) halloc.held hspare hzero
      have hgrown := hfill.grown halloc.held halloc.own hspare htype rfl
        (fun jp hjp => withDin_icache_of_ne _ hjp)
        ⟨_, withDin_icache_self _⟩ (halloc.held.withDin _)
      show Mapped s ((s.allocated b log).withDin ip
        (addrSet (s.icache ip).din k b)) ip (.addr k) b _
      apply mapped_of_filled hheld hown htype hlt hfree hplace hfill hgrown
      refine ⟨_, hlog, ?_⟩
      intro c hc
      rcases List.mem_pair.mp hc with rfl | rfl
      · exact Or.inl ⟨b, hlt, rfl⟩
      · exact Or.inr rfl
    · intro e he
      rw [if_pos hplace]
      exact allocStop_of_balloc (fun _ _ hmap => Or.inl hmap)
        (fun _ => Or.inr rfl) he
  · have hblock : (s.icache ip).din.place s.disk (.addr k) =
        ((s.icache ip).din.addrs k).toNat := rfl
    simp only [if_neg hne, wp_pure]
    exact mapped_of_ne_zero hheld hown hblock
      (fun h0 => hne (UInt32.toNat_inj.mp h0))

theorem logged_of_mem {sb : Superblock} {b ind c : Nat} (hlt : b < sb.size)
    (h : c ∈ [sb.bblock b, b] ++ [ind]) :
    IsBitmap sb c ∨ c = b ∨ c = ind := by
  rcases List.mem_append.mp h with hpair | hlast
  · rcases List.mem_pair.mp hpair with rfl | rfl
    · exact Or.inl ⟨b, hlt, rfl⟩
    · exact Or.inr (Or.inl rfl)
  · exact Or.inr (Or.inr (List.mem_singleton.mp hlast))

theorem bmapEntry_spec {s : Fs} {ip : Slot} (j : Fin NINDIRECT)
    (hheld : s.Held ip) (hown : s.Own)
    (htype : (s.icache ip).din.type ≠ 0)
    (hind : (s.icache ip).din.place s.disk .indirect ≠ 0) :
    wp (bmapEntry ((s.icache ip).din.place s.disk .indirect) j)
      (fun b s' => Mapped s s' ip (.entry j) b
        (fun c => IsBitmap s.sb c ∨ c = b ∨
          c = (s.icache ip).din.place s.disk .indirect))
      (fun e => exists b, AllocStop s
        (if (s.icache ip).din.place s.disk (.entry j) = 0 then 1 else 0)
        (fun c => IsBitmap s.sb c ∨ c = b ∨
          c = (s.icache ip).din.place s.disk .indirect) e)
      s := by
  have hlast : (s.icache ip).din.addrs (Fin.last NDIRECT) ≠ 0 := by
    intro hzero
    apply hind
    simp only [Dinode.place, hzero]
    rfl
  have hentry : (s.icache ip).din.place s.disk (.entry j) =
      ((s.disk ((s.icache ip).din.place s.disk .indirect)).u32 (4 * j)).toNat := by
    simp only [Dinode.place, if_neg hlast]
  generalize hgen : (s.icache ip).din.place s.disk .indirect = ind at *
  unfold bmapEntry
  simp only [bread, wp_bind, wp_gets]
  rcases eq_or_ne ((s.disk ind).u32 (4 * j)) 0 with hzero | hne
  · have hplace : (s.icache ip).din.place s.disk (.entry j) = 0 := by
      rw [hentry, hzero]
      rfl
    simp only [hzero, if_true, wp_bind]
    apply wp_mono (balloc_spec s)
    · rintro b t ⟨hlt, hfree, log, hlog, rfl⟩
      have halloc := grown_allocated log hheld hown htype hlt hfree
      have hspare := allocated_spare log hown hlt hfree
      have hind' : ((s.allocated b log).icache ip).din.place
          (s.allocated b log).disk .indirect = ind :=
        (halloc.keep .indirect (hgen.symm ▸ hind)).trans hgen
      have hentry' : ((s.allocated b log).icache ip).din.place
          (s.allocated b log).disk (.entry j) = 0 := by
        have hsame := allocated_place log hown hlt hfree (.entry j)
          hheld.inum_lt (hheld.dinode_eq ▸ htype)
        rw [hheld.dinode_eq, hplace] at hsame
        exact hsame
      have hfill := filled_entry halloc.held halloc.own hspare htype
        (hind'.symm ▸ hind) hentry'
      rw [hind'] at hfill
      -- The last `log_write` is the one for the indirect block.
      simp only [bmodify, setDisk, wp_modify]
      apply wp_logWrite
      · intro log' hlog'
        have hfill' : Filled (s.allocated b log)
            { (s.allocated b log).withEntry ind j b with log := log' }
            (s.icache ip).inum (.entry j) b :=
          ⟨hfill.sb, hfill.bits, hfill.other, hfill.type, hfill.size,
            hfill.empty, hfill.place, hfill.data⟩
        have hgrown := hfill'.grown halloc.held halloc.own hspare htype rfl
          (fun _ _ => rfl) ⟨_, rfl⟩
          ⟨hheld.ref_pos, hheld.valid, hheld.inum_lt, hheld.unique⟩
        show Mapped s { (s.allocated b log).withEntry ind j b with
          log := log' } ip (.entry j) b _
        apply mapped_of_filled hheld hown htype hlt hfree hplace hfill' hgrown
        refine ⟨[s.sb.bblock b, b] ++ [ind], ?_, ?_⟩
        · rw [Log.logAll_append, hlog]
          simp only [Log.logAll]
          have hstep : log.logWrite (UInt32.ofNat ind) = .ok log' := hlog'
          rw [hstep]
        · exact fun c hc => logged_of_mem hlt hc
      · intro e he
        refine ⟨b, Or.inr ⟨[s.sb.bblock b, b] ++ [ind], ?_, ?_⟩⟩
        · rw [Log.logAll_append, hlog]
          simp only [Log.logAll]
          have hstep : log.logWrite (UInt32.ofNat ind) = .error e := he
          rw [hstep]
        · exact fun c hc => logged_of_mem hlt hc
    · intro e he
      rw [if_pos hplace]
      exact allocStop_of_balloc (fun _ _ hmap => Or.inl hmap)
        (fun _ => Or.inr (Or.inl rfl)) he
  · simp only [if_neg hne, wp_pure]
    exact mapped_of_ne_zero hheld hown hentry
      (fun h0 => hne (UInt32.toNat_inj.mp h0))

def bmapNeed (di : Dinode) (d : Nat -> Block) (bn : Nat) : Nat :=
  (if di.blockOf d bn = 0 then 1 else 0) +
    if NDIRECT ≤ bn ∧ di.place d .indirect = 0 then 1 else 0

/-- The blocks `bmap` may log: bitmap blocks, the indirect block and the block
it returns. -/
def bmapLogged (sb : Superblock) (ind b c : Nat) : Prop :=
  IsBitmap sb c ∨ c = b ∨ (c = ind ∧ ind ≠ 0)

/-- How `bmap` may stop; an indirect block that exists is the one it logs. -/
def BmapStop (s : Fs) (ip : Slot) (bn : Nat) (e : Stop) : Prop :=
  exists ind b,
    ((s.icache ip).din.place s.disk .indirect ≠ 0 ->
      ind = (s.icache ip).din.place s.disk .indirect) ∧
    AllocStop s (bmapNeed (s.icache ip).din s.disk bn)
      (bmapLogged s.sb ind b) e

/-- `bmap` returns the block behind the index, having changed no file. -/
structure BmapPost (s s' : Fs) (ip : Slot) (bn b : Nat) : Prop where
  grown : Grown s s' ip
  block : (s'.icache ip).din.blockOf s'.disk bn = b
  ne_zero : b ≠ 0
  rest : forall bn', bn' ≠ bn -> (s'.icache ip).din.blockOf s'.disk bn' =
    (s.icache ip).din.blockOf s.disk bn'
  indirect : (s'.icache ip).din.place s'.disk .indirect =
      (s.icache ip).din.place s.disk .indirect ∨
    NDIRECT ≤ bn ∧ (s.icache ip).din.place s.disk .indirect = 0
  indirect_ne : NDIRECT ≤ bn ->
    (s'.icache ip).din.place s'.disk .indirect ≠ 0
  free : s'.freeCount + bmapNeed (s.icache ip).din s.disk bn = s.freeCount
  log : exists bs, s.log.logAll bs = .ok s'.log ∧ forall c, c ∈ bs ->
    bmapLogged s.sb ((s'.icache ip).din.place s'.disk .indirect) b c

theorem blockOf_of_placeOf {di : Dinode} {d : Nat -> Block} {bn : Nat}
    {p : Place} (h : Dinode.placeOf bn = some p) :
    di.blockOf d bn = di.place d p := by
  unfold Dinode.blockOf
  rw [h]

theorem Mapped.blockOf_of_ne {s s' : Fs} {ip : Slot} {p : Place} {b : Nat}
    {logged : Nat -> Prop} (h : Mapped s s' ip p b logged) {bn : Nat}
    (hne : Dinode.placeOf bn ≠ some p) :
    (s'.icache ip).din.blockOf s'.disk bn =
      (s.icache ip).din.blockOf s.disk bn := by
  unfold Dinode.blockOf
  cases hp : Dinode.placeOf bn with
  | none => rfl
  | some q =>
      apply h.rest
      intro heq
      rw [heq] at hp
      exact hne hp

theorem bmap_direct_spec {s : Fs} {ip : Slot} {bn : Nat} (hheld : s.Held ip)
    (hown : s.Own) (htype : (s.icache ip).din.type ≠ 0) (hbn : bn < NDIRECT) :
    wp (bmap ip bn) (fun b s' => BmapPost s s' ip bn b)
      (BmapStop s ip bn)
      s := by
  have hplace : Dinode.placeOf bn = some (.addr ⟨bn, Nat.lt_succ_of_lt hbn⟩) := by
    unfold Dinode.placeOf
    rw [dif_pos hbn]
  have hneed : bmapNeed (s.icache ip).din s.disk bn =
      if (s.icache ip).din.place s.disk
        (.addr ⟨bn, Nat.lt_succ_of_lt hbn⟩) = 0 then 1 else 0 := by
    have hdirect : ¬ (NDIRECT ≤ bn ∧
        (s.icache ip).din.place s.disk .indirect = 0) :=
      fun hand => absurd hbn (Nat.not_lt.mpr hand.1)
    unfold bmapNeed
    rw [blockOf_of_placeOf hplace, if_neg hdirect, Nat.add_zero]
  unfold bmap
  rw [dif_pos hbn]
  apply wp_mono (bmapAddr_spec ⟨bn, Nat.lt_succ_of_lt hbn⟩ hheld hown htype)
  · intro b s' h
    constructor
    · exact h.grown
    · rw [blockOf_of_placeOf hplace]
      exact h.block
    · exact h.ne_zero
    · intro bn' hne
      apply h.blockOf_of_ne
      intro hp
      exact hne (Dinode.placeOf_inj hp hplace)
    · exact Or.inl (h.rest .indirect
        (Dinode.placeOf_ne_indirect hplace).symm)
    · intro hge
      exact absurd hbn (Nat.not_lt.mpr hge)
    · rw [hneed]
      exact h.free
    · rcases h.log with ⟨bs, hlog, hmem⟩
      refine ⟨bs, hlog, ?_⟩
      intro c hc
      rcases hmem c hc with hmap | hself
      · exact Or.inl hmap
      · exact Or.inr (Or.inl hself)
  · rintro e ⟨b, hstop⟩
    refine ⟨_, b, fun _ => rfl, ?_⟩
    rw [hneed]
    rcases hstop with hfull | ⟨bs, herr, hmem⟩
    · exact Or.inl hfull
    · refine Or.inr ⟨bs, herr, ?_⟩
      intro c hc
      rcases hmem c hc with hmap | hself
      · exact Or.inl hmap
      · exact Or.inr (Or.inl hself)

theorem bmap_indirect_spec {s : Fs} {ip : Slot} {bn : Nat} (hheld : s.Held ip)
    (hown : s.Own) (htype : (s.icache ip).din.type ≠ 0) (hge : NDIRECT ≤ bn)
    (hbn : bn < MAXFILE) :
    wp (bmap ip bn) (fun b s' => BmapPost s s' ip bn b)
      (BmapStop s ip bn)
      s := by
  have hlt : bn - NDIRECT < NINDIRECT := by lia
  have hplace : Dinode.placeOf bn = some (.entry ⟨bn - NDIRECT, hlt⟩) := by
    unfold Dinode.placeOf
    rw [dif_neg (by lia), dif_pos hlt]
  have hneed : bmapNeed (s.icache ip).din s.disk bn =
      (if (s.icache ip).din.place s.disk (.entry ⟨bn - NDIRECT, hlt⟩) = 0
        then 1 else 0) +
        if (s.icache ip).din.place s.disk .indirect = 0 then 1 else 0 := by
    unfold bmapNeed
    rw [blockOf_of_placeOf hplace]
    simp only [hge, true_and]
  unfold bmap
  rw [dif_neg (by lia), if_pos hlt, wp_bind]
  apply wp_mono (bmapAddr_spec (Fin.last NDIRECT) hheld hown htype)
  · intro ind t h
    have htype' : (t.icache ip).din.type ≠ 0 := by
      rw [h.grown.type]
      exact htype
    have hind : (t.icache ip).din.place t.disk .indirect ≠ 0 := by
      rw [h.block]
      exact h.ne_zero
    have hentry := h.rest (.entry ⟨bn - NDIRECT, hlt⟩) (fun heq => by cases heq)
    have hspec := bmapEntry_spec ⟨bn - NDIRECT, hlt⟩ h.grown.held h.grown.own
      htype' hind
    rw [h.block, hentry, h.grown.sb] at hspec
    rcases h.log with ⟨bs, hlog, hmem⟩
    have hmem' : forall b c, c ∈ bs -> bmapLogged s.sb ind b c := by
      intro b c hc
      rcases hmem c hc with hmap | hself
      · exact Or.inl hmap
      · exact Or.inr (Or.inr ⟨hself, h.ne_zero⟩)
    have hsame : (s.icache ip).din.place s.disk .indirect ≠ 0 ->
        ind = (s.icache ip).din.place s.disk .indirect :=
      fun hne => h.block.symm.trans (h.grown.keep .indirect hne)
    have hentryMem : forall b c,
        (IsBitmap s.sb c ∨ c = b ∨ c = ind) -> bmapLogged s.sb ind b c := by
      rintro b c (hmap | hself | hlast)
      · exact Or.inl hmap
      · exact Or.inr (Or.inl hself)
      · exact Or.inr (Or.inr ⟨hlast, h.ne_zero⟩)
    have hfree := h.free
    apply wp_mono hspec
    · intro b u h'
      have hkeep : (u.icache ip).din.place u.disk .indirect = ind := by
        rw [h'.rest .indirect (fun heq => by cases heq), h.block]
      constructor
      · exact h.grown.trans hheld h'.grown
      · rw [blockOf_of_placeOf hplace]
        exact h'.block
      · exact h'.ne_zero
      · intro bn' hne
        have hother : Dinode.placeOf bn' ≠
            some (.entry ⟨bn - NDIRECT, hlt⟩) :=
          fun hp => hne (Dinode.placeOf_inj hp hplace)
        rw [h'.blockOf_of_ne hother]
        apply h.blockOf_of_ne
        intro hp
        exact Dinode.placeOf_ne_indirect hp rfl
      · rcases eq_or_ne ((s.icache ip).din.place s.disk .indirect) 0 with
          hzero | hne
        · exact Or.inr ⟨hge, hzero⟩
        · apply Or.inl
          rw [hkeep, ← h.block]
          exact h.grown.keep .indirect hne
      · intro _
        rw [hkeep]
        exact h.ne_zero
      · have hfree' := h'.free
        rw [hentry] at hfree'
        rw [hneed]
        lia
      · rcases h'.log with ⟨bs', hlog', hmem''⟩
        refine ⟨bs ++ bs', ?_, ?_⟩
        · rw [Log.logAll_append, hlog]
          exact hlog'
        · intro c hc
          rw [hkeep]
          rcases List.mem_append.mp hc with hfirst | hsecond
          · exact hmem' b c hfirst
          · exact hentryMem b c (hmem'' c hsecond)
    · rintro e ⟨b, hstop⟩
      refine ⟨ind, b, hsame, ?_⟩
      rw [hneed]
      rcases hstop with ⟨rfl, hfull⟩ | ⟨bs', herr, hmem''⟩
      · refine Or.inl ⟨rfl, ?_⟩
        lia
      · refine Or.inr ⟨bs ++ bs', ?_, ?_⟩
        · rw [Log.logAll_append, hlog]
          exact herr
        · intro c hc
          rcases List.mem_append.mp hc with hfirst | hsecond
          · exact hmem' b c hfirst
          · exact hentryMem b c (hmem'' c hsecond)
  · rintro e ⟨b, hstop⟩
    refine ⟨_, b, fun _ => rfl, ?_⟩
    rw [hneed]
    rcases hstop with ⟨rfl, hfull⟩ | ⟨bs, herr, hmem⟩
    · refine Or.inl ⟨rfl, ?_⟩
      lia
    · refine Or.inr ⟨bs, herr, ?_⟩
      intro c hc
      rcases hmem c hc with hmap | hself
      · exact Or.inl hmap
      · exact Or.inr (Or.inl hself)

theorem bmap_spec {s : Fs} {ip : Slot} {bn : Nat} (hheld : s.Held ip)
    (hown : s.Own) (htype : (s.icache ip).din.type ≠ 0) (hbn : bn < MAXFILE) :
    wp (bmap ip bn) (fun b s' => BmapPost s s' ip bn b)
      (BmapStop s ip bn)
      s := by
  rcases Nat.lt_or_ge bn NDIRECT with hdirect | hindirect
  · exact bmap_direct_spec hheld hown htype hdirect
  · exact bmap_indirect_spec hheld hown htype hindirect hbn

end Fs
end Xv6
