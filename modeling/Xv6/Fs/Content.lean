import Xv6.Fs.Bmap

/-!
# File contents

`readi` and `writei` against the flat byte array of a file.  Both loops cut
their range at block boundaries; one iteration is related to the bytes of one
block, and the loop to the whole range by induction.
-/

namespace Xv6
namespace Fs

open Lib Lib.Run

/-!
## Reading
-/

theorem bmapAddr_of_ne_zero {s : Fs} {ip : Slot} {k : Fin (NDIRECT + 1)}
    (h : (s.icache ip).din.addrs k ≠ 0) :
    bmapAddr ip k s = .ok (((s.icache ip).din.addrs k).toNat, s) := by
  simp only [bmapAddr, inode, bind_run, gets, if_neg h]
  rfl

theorem bmapEntry_of_ne_zero {s : Fs} {ind j : Nat}
    (h : (s.disk ind).u32 (4 * j) ≠ 0) :
    bmapEntry ind j s = .ok (((s.disk ind).u32 (4 * j)).toNat, s) := by
  simp only [bmapEntry, bread, bind_run, gets, if_neg h]
  rfl

theorem bmap_of_mapped {s : Fs} {ip : Slot} {bn : Nat}
    (h : (s.icache ip).din.blockOf s.disk bn ≠ 0) :
    bmap ip bn s = .ok ((s.icache ip).din.blockOf s.disk bn, s) := by
  rcases (s.icache ip).din.blockOf_eq_place s.disk h with ⟨p, hp, hblock⟩
  rw [hblock] at h ⊢
  unfold Dinode.placeOf at hp
  unfold bmap
  split at hp
  · rename_i hlt
    cases hp
    have hne : (s.icache ip).din.addrs ⟨bn, Nat.lt_succ_of_lt hlt⟩ ≠ 0 := by
      intro hzero
      apply h
      simp only [Dinode.place, hzero]
      rfl
    rw [dif_pos hlt, bmapAddr_of_ne_zero hne]
    rfl
  · rename_i hge
    split at hp
    · rename_i hlt
      cases hp
      have hlast : (s.icache ip).din.addrs (Fin.last NDIRECT) ≠ 0 := by
        intro hzero
        apply h
        simp only [Dinode.place, hzero, if_true]
      simp only [Dinode.place, if_neg hlast] at h ⊢
      have hne : (s.disk ((s.icache ip).din.addrs
          (Fin.last NDIRECT)).toNat).u32 (4 * (bn - NDIRECT)) ≠ 0 := by
        intro hzero
        apply h
        rw [hzero]
        rfl
      rw [dif_neg hge, if_pos hlt, bind_run, bmapAddr_of_ne_zero hlast]
      exact bmapEntry_of_ne_zero hne
    · cases hp

theorem blockBytes_eq {di : Dinode} {d : Nat -> Block} {off m : Nat}
    (hmap : di.blockOf d (off / BSIZE) ≠ 0) (hm : off % BSIZE + m ≤ BSIZE) :
    blockBytes (d (di.blockOf d (off / BSIZE))) (off % BSIZE) m =
      (List.range m).map (fun k => di.byteAt d (off + k)) := by
  unfold blockBytes
  apply List.map_congr_left
  intro k hk
  have hlt := List.mem_range.mp hk
  have hdiv : (off + k) / BSIZE = off / BSIZE := by lia
  have hmod : (off + k) % BSIZE = off % BSIZE + k := by lia
  unfold Dinode.byteAt
  rw [hdiv, hmod, if_neg hmap]

theorem readiLoop_spec (s : Fs) (ip : Slot) (fuel off n : Nat)
    (hfuel : n ≤ fuel)
    (hmap : forall i, off ≤ i -> i < off + n ->
      (s.icache ip).din.blockOf s.disk (i / BSIZE) ≠ 0) :
    readiLoop ip fuel off n s =
      .ok ((List.range n).map
        (fun k => (s.icache ip).din.byteAt s.disk (off + k)), s) := by
  induction fuel generalizing off n with
  | zero =>
      have hn : n = 0 := by lia
      subst hn
      rfl
  | succ fuel ih =>
      rcases Nat.eq_zero_or_pos n with rfl | hpos
      · rfl
      · have hblock := hmap off (Nat.le_refl off) (by lia)
        have hmod : off % BSIZE < BSIZE := Nat.mod_lt _ (by lia)
        generalize hm : min n (BSIZE - off % BSIZE) = m
        have hmpos : 0 < m := by lia
        have hmn : m ≤ n := by lia
        have hrest := ih (off + m) (n - m) (by lia)
          (fun i hlo hhi => hmap i (by lia) (by lia))
        have hbytes := blockBytes_eq hblock (m := m) (by lia)
        have hsplit : (List.range n).map
            (fun k => (s.icache ip).din.byteAt s.disk (off + k)) =
              (List.range m).map
                (fun k => (s.icache ip).din.byteAt s.disk (off + k)) ++
              (List.range (n - m)).map
                (fun k => (s.icache ip).din.byteAt s.disk (off + m + k)) := by
          have hn : n = m + (n - m) := by lia
          rw [hn, List.range_add, List.map_append, List.map_map,
            Nat.add_sub_cancel_left]
          congr 1
          apply List.map_congr_left
          intro k _
          rw [Function.comp_apply, Nat.add_assoc]
        simp only [readiLoop, if_neg (Nat.ne_of_gt hpos), bind_run, hm,
          bmap_of_mapped hblock, bread, gets, hrest, hbytes]
        rw [hsplit]
        rfl

/-- `readi` on a file without holes: the bytes of the range that lie below the
size, and `-1` exactly for an offset past the size or a range that wraps. -/
theorem readi_spec {s : Fs} {ip : Slot} (pid : Int32) (off n : UInt32)
    (hdev : (s.icache ip).din.type ≠ T_DEV)
    (hmap : (s.icache ip).din.HoleFree s.disk) :
    readi pid ip off n s =
      if (s.icache ip).din.size.toNat < off.toNat ∨
          2 ^ 32 ≤ off.toNat + n.toNat then
        .ok ((-1, []), s)
      else
        .ok (((min n.toNat ((s.icache ip).din.size.toNat - off.toNat) : Nat),
          (((s.icache ip).din.content s.disk).drop off.toNat).take n.toNat),
          s) := by
  have hoff := off.toNat_lt
  have hn := n.toNat_lt
  have hsize := (s.icache ip).din.size.toNat_lt
  have hadd : (off + n).toNat = (off.toNat + n.toNat) % 2 ^ 32 :=
    UInt32.toNat_add off n
  have hcond : ((s.icache ip).din.size < off ∨ off + n < off) ↔
      ((s.icache ip).din.size.toNat < off.toNat ∨
        2 ^ 32 ≤ off.toNat + n.toNat) := by
    rw [UInt32.lt_iff_toNat_lt, UInt32.lt_iff_toNat_lt, hadd]
    lia
  unfold readi
  simp only [inode, bind_run, gets, if_neg hdev]
  rcases Decidable.em ((s.icache ip).din.size.toNat < off.toNat ∨
      2 ^ 32 ≤ off.toNat + n.toNat) with hbad | hgood
  · rw [if_pos (hcond.mpr hbad), if_pos hbad]
    rfl
  · rw [if_neg (fun h => hgood (hcond.mp h)), if_neg hgood]
    -- The clipped count as a natural number.
    have hclip : (if (s.icache ip).din.size < off + n then
        (s.icache ip).din.size - off else n).toNat =
          min n.toNat ((s.icache ip).din.size.toNat - off.toNat) := by
      have hle : off.toNat ≤ (s.icache ip).din.size.toNat := by lia
      split
      · rename_i hlt
        rw [UInt32.lt_iff_toNat_lt, hadd] at hlt
        rw [UInt32.toNat_sub_of_le _ _ (UInt32.le_iff_toNat_le.mpr hle)]
        lia
      · rename_i hlt
        rw [UInt32.lt_iff_toNat_lt, hadd] at hlt
        lia
    have hloop := readiLoop_spec s ip
      (min n.toNat ((s.icache ip).din.size.toNat - off.toNat)) off.toNat _
      (Nat.le_refl _) (fun i hlo hhi => hmap (i / BSIZE) (by lia))
    simp only [hclip, bind_run, hloop]
    have hcontent : (List.range (min n.toNat
        ((s.icache ip).din.size.toNat - off.toNat))).map
          (fun k => (s.icache ip).din.byteAt s.disk (off.toNat + k)) =
        (((s.icache ip).din.content s.disk).drop off.toNat).take n.toNat := by
      apply List.ext_getElem
      · simp [Dinode.content]
      · intro k hk hk'
        simp [Dinode.content]
    rw [hcontent]
    rfl

/-!
## Writing one block

A write into a block behind an index of the file.  The block is a data block
of this file alone and is not its indirect block, so the inode table, all
places and the bitmap stay as they are.
-/

/-- The state with `m` bytes of `src` written at offset `o` of block `b`. -/
def patched (s : Fs) (b o m : Nat) (src : Nat -> UInt8) (log : Log) : Fs :=
  { s with
    disk := Function.update s.disk b ((s.disk b).patch o m src)
    log := log }

section Patched

variable {s : Fs} {ip : Slot} {bn : Nat} (o m : Nat) (src : Nat -> UInt8)
  (log : Log)
  (hheld : s.Held ip) (hown : s.Own) (htype : (s.icache ip).din.type ≠ 0)
  (hmap : (s.icache ip).din.blockOf s.disk bn ≠ 0)
include hheld hown htype hmap

theorem blockOf_isData :
    s.sb.IsData ((s.icache ip).din.blockOf s.disk bn) := by
  rcases (s.icache ip).din.blockOf_eq_place s.disk hmap with ⟨p, _, hblock⟩
  have hdin := hheld.dinode_eq
  rw [hblock] at hmap ⊢
  rw [← hdin] at hmap htype ⊢
  exact hown.isData _ p hheld.inum_lt htype hmap

theorem place_eq_blockOf {i : Nat} {q : Place} (hi : i < s.sb.ninodes)
    (hti : (s.dinode i).type ≠ 0)
    (heq : (s.dinode i).place s.disk q =
      (s.icache ip).din.blockOf s.disk bn) :
    i = (s.icache ip).inum ∧ Dinode.placeOf bn = some q := by
  rcases (s.icache ip).din.blockOf_eq_place s.disk hmap with ⟨p, hp, hblock⟩
  have hdin := hheld.dinode_eq
  rw [hblock, ← hdin] at heq
  have hne : (s.dinode i).place s.disk q ≠ 0 := by
    rw [heq, hdin, ← hblock]
    exact hmap
  rcases hown.inj i q _ p hi hheld.inum_lt hti (hdin.symm ▸ htype) hne heq with
    ⟨hinum, rfl⟩
  exact ⟨hinum, hp⟩

theorem patched_dinode {i : Nat} (hi : i < s.sb.ninodes) :
    (s.patched ((s.icache ip).din.blockOf s.disk bn) o m src log).dinode i =
      s.dinode i := by
  have hdata := blockOf_isData hheld hown htype hmap
  have hne : s.sb.iblock i ≠ (s.icache ip).din.blockOf s.disk bn :=
    fun heq => s.sb.iblock_not_isData hi (heq.symm ▸ hdata)
  exact dinode_congr rfl (fun _ => rfl) (s.sb.dinodeAt_update hne)

theorem patched_bitAt {c : Nat} (hc : c < s.sb.size) :
    s.sb.bitAt
      (s.patched ((s.icache ip).din.blockOf s.disk bn) o m src log).disk c =
      s.sb.bitAt s.disk c := by
  apply s.sb.bitAt_update
  intro heq
  exact s.sb.bblock_not_isData hc
    (heq.symm ▸ blockOf_isData hheld hown htype hmap)

theorem patched_place {i : Nat} (q : Place) (hi : i < s.sb.ninodes)
    (hti : (s.dinode i).type ≠ 0) :
    (s.dinode i).place
      (s.patched ((s.icache ip).din.blockOf s.disk bn) o m src log).disk q =
      (s.dinode i).place s.disk q := by
  apply (s.dinode i).place_congr s.disk
  intro _
  apply Function.update_of_ne
  intro heq
  have hself := place_eq_blockOf hheld hown htype hmap hi hti heq
  exact Dinode.placeOf_ne_indirect hself.2 rfl

theorem patched_own :
    (s.patched ((s.icache ip).din.blockOf s.disk bn) o m src log).Own := by
  apply hown.congr
    (s.patched ((s.icache ip).din.blockOf s.disk bn) o m src log) rfl
  · intro i hi
    rw [patched_dinode o m src log hheld hown htype hmap hi]
  · intro i p hi hti
    rw [patched_dinode o m src log hheld hown htype hmap hi]
    exact patched_place o m src log hheld hown htype hmap p hi hti
  · intro c hc hbit
    exact (patched_bitAt o m src log hheld hown htype hmap hc).trans hbit

theorem patched_byteAt_other {i : Nat} (k : Nat) (hi : i < s.sb.ninodes)
    (hti : (s.dinode i).type ≠ 0) (hne : i ≠ (s.icache ip).inum) :
    (s.dinode i).byteAt
      (s.patched ((s.icache ip).din.blockOf s.disk bn) o m src log).disk k =
      (s.dinode i).byteAt s.disk k := by
  apply (s.dinode i).byteAt_congr s.disk
  intro q _
  apply Function.update_of_ne
  intro heq
  exact hne (place_eq_blockOf hheld hown htype hmap hi hti heq).1

theorem patched_blockOf (bn' : Nat) :
    (s.icache ip).din.blockOf
      (s.patched ((s.icache ip).din.blockOf s.disk bn) o m src log).disk bn' =
      (s.icache ip).din.blockOf s.disk bn' := by
  have hdin := hheld.dinode_eq
  unfold Dinode.blockOf
  cases Dinode.placeOf bn' with
  | none => rfl
  | some q =>
      have hplace : (s.dinode (s.icache ip).inum).place
          (s.patched ((s.icache ip).din.blockOf s.disk bn) o m src log).disk
          q = (s.dinode (s.icache ip).inum).place s.disk q :=
        patched_place o m src log hheld hown htype hmap q hheld.inum_lt
          (hdin.symm ▸ htype)
      rw [hdin] at hplace
      exact hplace

theorem patched_byteAt_self (k : Nat) (hm : o + m ≤ BSIZE) :
    (s.icache ip).din.byteAt
      (s.patched ((s.icache ip).din.blockOf s.disk bn) o m src log).disk k =
      if bn * BSIZE + o ≤ k ∧ k < bn * BSIZE + o + m then
        src (k - (bn * BSIZE + o))
      else
        (s.icache ip).din.byteAt s.disk k := by
  have hmod : k % BSIZE < BSIZE := Nat.mod_lt _ (by lia)
  have hkdiv : k / BSIZE * BSIZE + k % BSIZE = k := Nat.div_add_mod' k BSIZE
  unfold Dinode.byteAt
  rw [patched_blockOf o m src log hheld hown htype hmap]
  rcases eq_or_ne (k / BSIZE) bn with rfl | hne
  · have hdisk : (s.patched ((s.icache ip).din.blockOf s.disk (k / BSIZE))
        o m src log).disk ((s.icache ip).din.blockOf s.disk (k / BSIZE)) =
          (s.disk ((s.icache ip).din.blockOf s.disk (k / BSIZE))).patch o m
            src := Function.update_self _ _ _
    rw [if_neg hmap, if_neg hmap, hdisk]
    rcases Decidable.em (o ≤ k % BSIZE ∧ k % BSIZE < o + m) with hin | hout
    · rw [if_pos (by lia), Bytes.get_patch_in _ _ hin.1 hin.2 hmod]
      congr 1
      lia
    · rw [if_neg (by lia), Bytes.get_patch_out _ _ (by lia)]
  · -- Another index: its block is not the patched one.
    have hout : ¬ (bn * BSIZE + o ≤ k ∧ k < bn * BSIZE + o + m) := by
      intro hin
      apply hne
      have hlo : bn * BSIZE ≤ k := by lia
      have hhi : k < (bn + 1) * BSIZE := by lia
      exact Nat.div_eq_of_lt_le hlo hhi
    rw [if_neg hout]
    rcases eq_or_ne ((s.icache ip).din.blockOf s.disk (k / BSIZE)) 0 with
      hzero | hnz
    · rw [if_pos hzero, if_pos hzero]
    · rw [if_neg hnz, if_neg hnz]
      congr 1
      apply Function.update_of_ne
      intro heq
      rcases (s.icache ip).din.blockOf_eq_place s.disk hnz with ⟨q, hq, hb⟩
      have hdin := hheld.dinode_eq
      have hself := place_eq_blockOf (i := (s.icache ip).inum) (q := q) hheld
        hown htype hmap hheld.inum_lt (hdin.symm ▸ htype)
        (by rw [hdin, ← hb, heq])
      exact hne (Dinode.placeOf_inj hq hself.2)

end Patched

/-!
## The blocks of a range
-/

/-- The block indices that the bytes from `lo` up to `hi` lie in. -/
def blocksOf (lo hi : Nat) : List Nat :=
  List.range' (lo / BSIZE)
    (if lo < hi then (hi - 1) / BSIZE - lo / BSIZE + 1 else 0)

theorem blocksOf_empty {lo hi : Nat} (h : hi ≤ lo) : blocksOf lo hi = [] := by
  unfold blocksOf
  rw [if_neg (by lia)]
  rfl

theorem blocksOf_step {lo hi m : Nat} (h : lo < hi)
    (hm : m = min (hi - lo) (BSIZE - lo % BSIZE)) :
    blocksOf lo hi = lo / BSIZE :: blocksOf (lo + m) hi := by
  have hmod : lo % BSIZE < BSIZE := Nat.mod_lt _ (by lia)
  rcases Nat.lt_or_ge (lo + m) hi with hlt | hge
  · have hnext : (lo + m) / BSIZE = lo / BSIZE + 1 := by lia
    have hle : lo / BSIZE + 1 ≤ (hi - 1) / BSIZE := by lia
    have hcount : (hi - 1) / BSIZE - lo / BSIZE + 1 =
        ((hi - 1) / BSIZE - (lo / BSIZE + 1) + 1) + 1 := by lia
    unfold blocksOf
    rw [if_pos h, if_pos hlt, hnext, hcount, List.range'_succ]
  · have hlast : (hi - 1) / BSIZE = lo / BSIZE := by lia
    rw [blocksOf_empty hge]
    unfold blocksOf
    rw [if_pos h, hlast, Nat.sub_self]
    rfl

theorem lt_of_mem_blocksOf {lo hi m bn : Nat} (h : lo < hi)
    (hm : m = min (hi - lo) (BSIZE - lo % BSIZE))
    (hbn : bn ∈ blocksOf (lo + m) hi) : lo / BSIZE < bn := by
  have hmod : lo % BSIZE < BSIZE := Nat.mod_lt _ (by lia)
  rcases Nat.lt_or_ge (lo + m) hi with hlt | hge
  · have hnext : (lo + m) / BSIZE = lo / BSIZE + 1 := by lia
    unfold blocksOf at hbn
    rw [List.mem_range'_1] at hbn
    lia
  · rw [blocksOf_empty hge] at hbn
    exact absurd hbn List.not_mem_nil

/-- The free blocks that mapping all of `bns` takes. -/
def needOf (di : Dinode) (d : Nat -> Block) (bns : List Nat) : Nat :=
  (bns.filter (fun bn => di.blockOf d bn = 0)).length +
    if (exists bn, bn ∈ bns ∧ NDIRECT ≤ bn) ∧ di.place d .indirect = 0
    then 1 else 0

theorem bmapNeed_le_needOf (di : Dinode) (d : Nat -> Block) (bn : Nat)
    (rest : List Nat) : bmapNeed di d bn ≤ needOf di d (bn :: rest) := by
  have hblock : (if di.blockOf d bn = 0 then 1 else 0) ≤
      ((bn :: rest).filter (fun bn' => di.blockOf d bn' = 0)).length := by
    rw [List.filter_cons]
    rcases eq_or_ne (di.blockOf d bn) 0 with hz | hz
    · simp [hz]
    · simp [hz]
  have hind : (if NDIRECT ≤ bn ∧ di.place d .indirect = 0 then 1 else 0) ≤
      if (exists bn', bn' ∈ bn :: rest ∧ NDIRECT ≤ bn') ∧
        di.place d .indirect = 0 then 1 else 0 := by
    rcases Decidable.em (NDIRECT ≤ bn ∧ di.place d .indirect = 0) with
      hyes | hno
    · rw [if_pos hyes, if_pos ⟨⟨bn, List.mem_cons_self, hyes.1⟩, hyes.2⟩]
    · rw [if_neg hno]
      exact Nat.zero_le _
  exact Nat.add_le_add hblock hind

theorem BmapPost.needOf_cons {s t : Fs} {ip : Slot} {bn b : Nat}
    (h : BmapPost s t ip bn b) {rest : List Nat} (hrest : bn ∉ rest) :
    needOf (t.icache ip).din t.disk rest +
        bmapNeed (s.icache ip).din s.disk bn =
      needOf (s.icache ip).din s.disk (bn :: rest) := by
  have hfilter : rest.filter
      (fun bn' => (t.icache ip).din.blockOf t.disk bn' = 0) =
        rest.filter (fun bn' => (s.icache ip).din.blockOf s.disk bn' = 0) := by
    apply List.filter_congr
    intro bn' hbn'
    have hne : bn' ≠ bn := fun heq => hrest (heq ▸ hbn')
    rw [h.rest bn' hne]
  have hcons : (exists bn', bn' ∈ bn :: rest ∧ NDIRECT ≤ bn') ↔
      NDIRECT ≤ bn ∨ exists bn', bn' ∈ rest ∧ NDIRECT ≤ bn' := by
    simp only [List.mem_cons, or_and_right, exists_or, exists_eq_left]
  have hlen : ((bn :: rest).filter
      (fun bn' => (s.icache ip).din.blockOf s.disk bn' = 0)).length =
        (rest.filter
          (fun bn' => (s.icache ip).din.blockOf s.disk bn' = 0)).length +
          if (s.icache ip).din.blockOf s.disk bn = 0 then 1 else 0 := by
    rw [List.filter_cons]
    rcases eq_or_ne ((s.icache ip).din.blockOf s.disk bn) 0 with hz | hz
    · simp [hz]
    · simp [hz]
  have hone : (if (exists bn', bn' ∈ rest ∧ NDIRECT ≤ bn') ∧
        (t.icache ip).din.place t.disk .indirect = 0 then 1 else 0) +
      (if NDIRECT ≤ bn ∧ (s.icache ip).din.place s.disk .indirect = 0
        then 1 else 0) =
      if (exists bn', bn' ∈ bn :: rest ∧ NDIRECT ≤ bn') ∧
        (s.icache ip).din.place s.disk .indirect = 0 then 1 else 0 := by
    rcases Nat.lt_or_ge bn NDIRECT with hlt | hge
    · -- A direct index does not touch the indirect block.
      have hnot : ¬ NDIRECT ≤ bn := Nat.not_le.mpr hlt
      have hsame := h.indirect.resolve_right (fun hand => hnot hand.1)
      simp only [hcons, hsame, hnot, false_and, if_false, false_or,
        Nat.add_zero]
    · rw [if_neg (fun hand => h.indirect_ne hge hand.2)]
      simp only [hcons, hge, true_and, true_or, Nat.zero_add]
  unfold needOf bmapNeed
  rw [hfilter, hlen]
  lia

/-!
## The loop of `writei`
-/

/-- `s'` is `s` after the bytes `off + lo` up to `off + hi` of the file in slot
`ip` were written from `src`. -/
structure Wrote (s s' : Fs) (ip : Slot) (src : Nat -> UInt8)
    (off lo hi : Nat) : Prop extends Extended s s' ip where
  bytesOther : forall i k, i < s.sb.ninodes -> (s.dinode i).type ≠ 0 ->
    i ≠ (s.icache ip).inum ->
      (s'.dinode i).byteAt s'.disk k = (s.dinode i).byteAt s.disk k
  bytes : forall k, (s'.icache ip).din.byteAt s'.disk k =
    if off + lo ≤ k ∧ k < off + hi then src (k - off)
    else (s.icache ip).din.byteAt s.disk k
  mapped : forall k, off + lo ≤ k -> k < off + hi ->
    (s'.icache ip).din.blockOf s'.disk (k / BSIZE) ≠ 0

theorem Wrote.blockOf_keep {s s' : Fs} {ip : Slot} {src : Nat -> UInt8}
    {off lo hi : Nat} (h : Wrote s s' ip src off lo hi) {bn : Nat}
    (hne : (s.icache ip).din.blockOf s.disk bn ≠ 0) :
    (s'.icache ip).din.blockOf s'.disk bn =
      (s.icache ip).din.blockOf s.disk bn := by
  rcases (s.icache ip).din.blockOf_eq_place s.disk hne with ⟨p, hp, hblock⟩
  rw [hblock] at hne ⊢
  rw [blockOf_of_placeOf hp]
  exact h.keep p hne

theorem Wrote.refl {s : Fs} {ip : Slot} {src : Nat -> UInt8} {off lo : Nat}
    (hheld : s.Held ip) (hown : s.Own) : Wrote s s ip src off lo lo where
  toExtended := Extended.refl hheld hown
  bytesOther _ _ _ _ _ := rfl
  bytes k := by
    rw [if_neg (by lia)]
  mapped k hlo hhi := by
    exact absurd hhi (Nat.not_lt.mpr hlo)

theorem Wrote.trans {s t u : Fs} {ip : Slot} {src : Nat -> UInt8}
    {off lo mid hi : Nat} (h : Wrote s t ip src off lo mid)
    (h' : Wrote t u ip src off mid hi) (hlo : lo ≤ mid) (hhi : mid ≤ hi) :
    Wrote s u ip src off lo hi where
  toExtended := h.toExtended.trans h'.toExtended
  bytesOther i k hi htype hne := by
    have htype' : (t.dinode i).type ≠ 0 := by
      rw [h.other i hi hne]
      exact htype
    rw [h'.bytesOther i k (h.sb.symm ▸ hi) htype'
      (h.inum.symm ▸ hne), h.bytesOther i k hi htype hne]
  bytes k := by
    rw [h'.bytes, h.bytes]
    rcases Nat.lt_or_ge k (off + mid) with hlt | hge
    · rw [if_neg (by lia)]
      rcases Nat.lt_or_ge k (off + lo) with hout | hin
      · rw [if_neg (by lia), if_neg (by lia)]
      · rw [if_pos (by lia), if_pos (by lia)]
    · rcases Nat.lt_or_ge k (off + hi) with hin | hout
      · rw [if_pos (by lia), if_pos (by lia)]
      · rw [if_neg (by lia), if_neg (by lia), if_neg (by lia)]
  mapped k hk hk' := by
    rcases Nat.lt_or_ge k (off + mid) with hlt | hge
    · have hne := h.mapped k hk hlt
      rw [h'.blockOf_keep hne]
      exact hne
    · exact h'.mapped k hge hk'

theorem BmapPost.mapped {s t : Fs} {ip : Slot} {bn b : Nat}
    (h : BmapPost s t ip bn b) :
    (t.icache ip).din.blockOf t.disk bn ≠ 0 := by
  rw [h.block]
  exact h.ne_zero

theorem BmapPost.wrote {s t : Fs} {ip : Slot} {src : Nat -> UInt8}
    {off lo m b : Nat} {log : Log} (hheld : s.Held ip)
    (htype : (s.icache ip).din.type ≠ 0)
    (h : BmapPost s t ip ((off + lo) / BSIZE) b)
    (hm : (off + lo) % BSIZE + m ≤ BSIZE) :
    Wrote s (t.patched b ((off + lo) % BSIZE) m (fun k => src (lo + k)) log)
      ip src off lo (lo + m) := by
  have htype' : (t.icache ip).din.type ≠ 0 := by
    rw [h.grown.type]
    exact htype
  have hmap := h.mapped
  have hdivmod : (off + lo) / BSIZE * BSIZE + (off + lo) % BSIZE = off + lo :=
    Nat.div_add_mod' _ _
  have hdin := h.grown.held.dinode_eq
  have hinum : (t.icache ip).inum < t.sb.ninodes := h.grown.held.inum_lt
  rw [← h.block]
  have htable : forall i, i < s.sb.ninodes ->
      (t.patched ((t.icache ip).din.blockOf t.disk ((off + lo) / BSIZE))
        ((off + lo) % BSIZE) m (fun k => src (lo + k)) log).dinode i =
          t.dinode i :=
    fun i hi => patched_dinode _ m _ log h.grown.held h.grown.own htype' hmap
      (h.grown.sb.symm ▸ hi)
  refine ⟨⟨h.grown.sb, h.grown.cons, h.grown.cache, h.grown.slot,
    ⟨h.grown.held.ref_pos, h.grown.held.valid, h.grown.held.inum_lt,
      h.grown.held.unique⟩,
    patched_own _ m _ log h.grown.held h.grown.own htype' hmap, ?_, ?_⟩,
    ?_, ?_, ?_⟩
  · intro i hi hne
    rw [htable i hi, h.grown.other i hi hne]
  · intro p hne
    have hplace := patched_place ((off + lo) % BSIZE) m
      (fun k => src (lo + k)) log h.grown.held h.grown.own htype' hmap p hinum
      (hdin.symm ▸ htype')
    rw [hdin] at hplace
    exact hplace.trans (h.grown.keep p hne)
  · intro i k hi hti hne
    have hti' : (t.dinode i).type ≠ 0 := by
      rw [h.grown.type_eq hheld hi]
      exact hti
    rw [htable i hi, ← h.grown.bytes i k hi hti]
    exact patched_byteAt_other _ m _ log h.grown.held h.grown.own htype' hmap k
      (h.grown.sb.symm ▸ hi) hti' (h.grown.inum.symm ▸ hne)
  · intro k
    have hself := patched_byteAt_self _ m (fun k => src (lo + k)) log
      h.grown.held h.grown.own htype' hmap k hm
    have hold := h.grown.bytes _ k hheld.inum_lt (hheld.dinode_eq.symm ▸ htype)
    have hdint : t.dinode (s.icache ip).inum = (t.icache ip).din := by
      rw [← h.grown.inum]
      exact hdin
    rw [hdint, hheld.dinode_eq] at hold
    rw [hdivmod, hold] at hself
    refine hself.trans ?_
    rw [Nat.add_assoc off lo m]
    rcases Decidable.em (off + lo ≤ k ∧ k < off + (lo + m)) with hin | hout
    · rw [if_pos hin, if_pos hin]
      congr 1
      lia
    · rw [if_neg hout, if_neg hout]
  · intro k hlo hhi
    have hdiv : k / BSIZE = (off + lo) / BSIZE := by lia
    rw [hdiv]
    have hblock := patched_blockOf ((off + lo) % BSIZE) m
      (fun k => src (lo + k)) log h.grown.held h.grown.own htype' hmap
      ((off + lo) / BSIZE)
    exact fun h0 => hmap (hblock.symm.trans h0)

/-- The blocks a write of several blocks may log: bitmap blocks, the indirect
block and the data blocks. -/
def writeLogged (sb : Superblock) (ind : Nat) (blocks : List Nat) (c : Nat) :
    Prop :=
  IsBitmap sb c ∨ c ∈ blocks ∨ (c = ind ∧ ind ≠ 0)

def WriteLog (s s' : Fs) (ip : Slot) (bns : List Nat) : Prop :=
  exists bs blocks, s.log.logAll bs = .ok s'.log ∧
    blocks.length ≤ bns.length ∧ forall c, c ∈ bs ->
      writeLogged s.sb ((s'.icache ip).din.place s'.disk .indirect) blocks c

def WriteStop (s : Fs) (ip : Slot) (bns : List Nat) (e : Stop) : Prop :=
  (e = .panic "balloc: out of blocks" ∧
      s.freeCount < needOf (s.icache ip).din s.disk bns) ∨
    exists bs ind blocks, s.log.logAll bs = .error e ∧
      ((s.icache ip).din.place s.disk .indirect ≠ 0 ->
        ind = (s.icache ip).din.place s.disk .indirect) ∧
      blocks.length ≤ bns.length ∧
      forall c, c ∈ bs -> writeLogged s.sb ind blocks c

theorem bmapLogged.write {sb : Superblock} {ind ind' b c : Nat}
    {blocks : List Nat} (h : bmapLogged sb ind b c)
    (hind : ind ≠ 0 -> ind' = ind) : writeLogged sb ind' (b :: blocks) c := by
  rcases h with hmap | rfl | ⟨rfl, hne⟩
  · exact Or.inl hmap
  · exact Or.inr (Or.inl List.mem_cons_self)
  · exact Or.inr (Or.inr ⟨(hind hne).symm, (hind hne).symm ▸ hne⟩)

theorem writeLogged.cons {sb : Superblock} {ind b c : Nat} {blocks : List Nat}
    (h : writeLogged sb ind blocks c) : writeLogged sb ind (b :: blocks) c := by
  rcases h with hmap | hmem | hind
  · exact Or.inl hmap
  · exact Or.inr (Or.inl (List.mem_cons_of_mem b hmem))
  · exact Or.inr (Or.inr hind)

structure WroteBlock (s u : Fs) (ip : Slot) (src : Nat -> UInt8)
    (off lo m : Nat) : Prop where
  wrote : Wrote s u ip src off lo (lo + m)
  free : forall rest, (off + lo) / BSIZE ∉ rest ->
    u.freeCount + needOf (s.icache ip).din s.disk
        ((off + lo) / BSIZE :: rest) =
      s.freeCount + needOf (u.icache ip).din u.disk rest
  log : exists bs b, s.log.logAll bs = .ok u.log ∧ forall c, c ∈ bs ->
    bmapLogged s.sb ((u.icache ip).din.place u.disk .indirect) b c

theorem patched_needOf {s : Fs} {ip : Slot} {bn : Nat} (o m : Nat)
    (src : Nat -> UInt8) (log : Log) (hheld : s.Held ip) (hown : s.Own)
    (htype : (s.icache ip).din.type ≠ 0)
    (hmap : (s.icache ip).din.blockOf s.disk bn ≠ 0) (bns : List Nat) :
    needOf (s.icache ip).din
        (s.patched ((s.icache ip).din.blockOf s.disk bn) o m src log).disk
        bns =
      needOf (s.icache ip).din s.disk bns := by
  have hplace := patched_place o m src log hheld hown htype hmap .indirect
    hheld.inum_lt (hheld.dinode_eq.symm ▸ htype)
  rw [hheld.dinode_eq] at hplace
  unfold needOf
  simp only [patched_blockOf o m src log hheld hown htype hmap, hplace]

theorem writeiBlock_spec {s : Fs} {ip : Slot} {src : Nat -> UInt8}
    {off lo m : Nat} (hheld : s.Held ip) (hown : s.Own)
    (htype : (s.icache ip).din.type ≠ 0)
    (hbn : (off + lo) / BSIZE < MAXFILE)
    (hm : (off + lo) % BSIZE + m ≤ BSIZE) :
    wp (writeiBlock ip (fun k => src (lo + k)) (off + lo) m)
      (fun _ u => WroteBlock s u ip src off lo m)
      (WriteStop s ip [(off + lo) / BSIZE]) s := by
  unfold writeiBlock
  rw [wp_bind]
  apply wp_mono (bmap_spec hheld hown htype hbn)
  · intro b t h
    have htype' : (t.icache ip).din.type ≠ 0 := by
      rw [h.grown.type]
      exact htype
    have hmap := h.mapped
    rcases h.log with ⟨bs, hlog, hmem⟩
    simp only [bmodify, setDisk, wp_bind, wp_modify]
    apply wp_logWrite
    · intro log hlogb
      show WroteBlock s (t.patched b ((off + lo) % BSIZE) m
        (fun k => src (lo + k)) log) ip src off lo m
      have hplace := patched_place ((off + lo) % BSIZE) m
        (fun k => src (lo + k)) log h.grown.held h.grown.own htype' hmap
        .indirect h.grown.held.inum_lt (h.grown.held.dinode_eq.symm ▸ htype')
      rw [h.grown.held.dinode_eq, h.block] at hplace
      constructor
      · exact h.wrote hheld htype hm
      · intro rest hrest
        have hneed := h.needOf_cons hrest
        have hfree := h.free
        have hcount : (t.patched b ((off + lo) % BSIZE) m
            (fun k => src (lo + k)) log).freeCount = t.freeCount := by
          rw [← h.block]
          exact freeCount_congr rfl (fun c hc => patched_bitAt _ m _ log
            h.grown.held h.grown.own htype' hmap hc)
        have hsame := patched_needOf ((off + lo) % BSIZE) m
          (fun k => src (lo + k)) log h.grown.held h.grown.own htype' hmap rest
        rw [h.block] at hsame
        rw [hcount]
        show t.freeCount + _ = s.freeCount + needOf (t.icache ip).din _ rest
        rw [hsame]
        lia
      · refine ⟨bs ++ [b], b, ?_, ?_⟩
        · have hb : t.log.logWrite (UInt32.ofNat b) = .ok log := hlogb
          rw [Log.logAll_append, hlog]
          simp only [Log.logAll, hb]
          rfl
        · intro c hc
          show bmapLogged s.sb ((t.icache ip).din.place _ .indirect) b c
          rw [hplace]
          rcases List.mem_append.mp hc with hbs | hself
          · exact hmem c hbs
          · exact Or.inr (Or.inl (List.mem_singleton.mp hself))
    · intro e he
      refine Or.inr ⟨bs ++ [b], (t.icache ip).din.place t.disk .indirect, [b],
        ?_, fun hne => h.grown.keep .indirect hne, Nat.le_refl _, ?_⟩
      · have hb : t.log.logWrite (UInt32.ofNat b) = .error e := he
        rw [Log.logAll_append, hlog]
        simp only [Log.logAll, hb]
      · intro c hc
        rcases List.mem_append.mp hc with hbs | hself
        · exact (hmem c hbs).write (fun _ => rfl)
        · exact Or.inr (Or.inl hself)
  · rintro e ⟨ind, b, hind, hstop⟩
    rcases hstop with ⟨rfl, hfull⟩ | ⟨bs, herr, hmem⟩
    · exact Or.inl ⟨rfl, Nat.lt_of_lt_of_le hfull (bmapNeed_le_needOf _ _ _ _)⟩
    · exact Or.inr ⟨bs, ind, [b], herr, hind, Nat.le_refl _,
        fun c hc => (hmem c hc).write (fun _ => rfl)⟩

theorem WriteStop.cons {s : Fs} {ip : Slot} {bn : Nat} {e : Stop}
    (h : WriteStop s ip [bn] e) (rest : List Nat) :
    WriteStop s ip (bn :: rest) e := by
  rcases h with ⟨rfl, hfull⟩ | ⟨bs, ind, blocks, herr, hind, hlen, hmem⟩
  · refine Or.inl ⟨rfl, Nat.lt_of_lt_of_le hfull ?_⟩
    have hone : needOf (s.icache ip).din s.disk [bn] =
        bmapNeed (s.icache ip).din s.disk bn := by
      unfold needOf bmapNeed
      rcases eq_or_ne ((s.icache ip).din.blockOf s.disk bn) 0 with hz | hz
      · simp [hz]
      · simp [hz]
    rw [hone]
    exact bmapNeed_le_needOf _ _ _ _
  · refine Or.inr ⟨bs, ind, blocks, herr, hind, ?_, hmem⟩
    simp only [List.length_cons, List.length_nil] at hlen ⊢
    lia

theorem WroteBlock.log_trans {s u v : Fs} {ip : Slot} {src : Nat -> UInt8}
    {off lo m : Nat} (h : WroteBlock s u ip src off lo m) {hi : Nat}
    (hw : Wrote u v ip src off (lo + m) hi) {rest : List Nat}
    (hlog : WriteLog u v ip rest) :
    WriteLog s v ip ((off + lo) / BSIZE :: rest) := by
  rcases h.log with ⟨bs, b, hbs, hmem⟩
  rcases hlog with ⟨bs', blocks, hbs', hlen, hmem'⟩
  refine ⟨bs ++ bs', b :: blocks, ?_, Nat.succ_le_succ hlen, ?_⟩
  · rw [Log.logAll_append, hbs]
    exact hbs'
  · intro c hc
    rcases List.mem_append.mp hc with hfirst | hsecond
    · exact (hmem c hfirst).write (hw.keep .indirect)
    · have hc' := hmem' c hsecond
      rw [h.wrote.sb] at hc'
      exact hc'.cons

theorem WroteBlock.stop_trans {s u : Fs} {ip : Slot} {src : Nat -> UInt8}
    {off lo m : Nat} (h : WroteBlock s u ip src off lo m) {rest : List Nat}
    (hrest : (off + lo) / BSIZE ∉ rest) {e : Stop}
    (hstop : WriteStop u ip rest e) :
    WriteStop s ip ((off + lo) / BSIZE :: rest) e := by
  rcases hstop with ⟨rfl, hfull⟩ | ⟨bs', ind, blocks, herr, hind, hlen, hmem'⟩
  · have hfree := h.free rest hrest
    exact Or.inl ⟨rfl, by lia⟩
  · rcases h.log with ⟨bs, b, hbs, hmem⟩
    refine Or.inr ⟨bs ++ bs', ind, b :: blocks, ?_, ?_,
      Nat.succ_le_succ hlen, ?_⟩
    · rw [Log.logAll_append, hbs]
      exact herr
    · intro hne
      have hkept := h.wrote.keep .indirect hne
      rw [← hkept]
      exact hind (hkept.symm ▸ hne)
    · intro c hc
      rcases List.mem_append.mp hc with hfirst | hsecond
      · exact (hmem c hfirst).write hind
      · have hc' := hmem' c hsecond
        rw [h.wrote.sb] at hc'
        exact hc'.cons

/-- What the loop of `writei` leaves once it wrote from `tot` on. -/
structure LoopPost (s s' : Fs) (ip : Slot) (src : Nat -> UInt8)
    (off tot n : Nat) : Prop where
  wrote : Wrote s s' ip src off tot n
  free : s'.freeCount + needOf (s.icache ip).din s.disk
    (blocksOf (off + tot) (off + n)) = s.freeCount
  log : WriteLog s s' ip (blocksOf (off + tot) (off + n))

theorem LoopPost.done {s : Fs} {ip : Slot} {src : Nat -> UInt8} {off n : Nat}
    (hheld : s.Held ip) (hown : s.Own) : LoopPost s s ip src off n n := by
  constructor
  · exact Wrote.refl hheld hown
  · rw [blocksOf_empty (Nat.le_refl _)]
    simp [needOf]
  · exact ⟨[], [], rfl, Nat.zero_le _,
      fun c hc => absurd hc List.not_mem_nil⟩

theorem writeiLoop_spec {ip : Slot} (src : Nat -> UInt8) {off n : Nat}
    (hmax : off + n ≤ MAXFILE * BSIZE) (fuel tot : Nat) (s : Fs)
    (hheld : s.Held ip) (hown : s.Own)
    (htype : (s.icache ip).din.type ≠ 0) (htot : tot ≤ n)
    (hfuel : n - tot ≤ fuel) :
    wp (writeiLoop ip src off n fuel tot)
      (fun _ s' => LoopPost s s' ip src off tot n)
      (WriteStop s ip (blocksOf (off + tot) (off + n))) s := by
  induction fuel generalizing tot s with
  | zero =>
      have heq : tot = n := by lia
      rw [heq]
      exact LoopPost.done hheld hown
  | succ fuel ih =>
      unfold writeiLoop
      rcases Nat.lt_or_ge tot n with hlt | hge
      · rw [if_pos hlt, wp_bind]
        generalize hm : min (n - tot) (BSIZE - (off + tot) % BSIZE) = m
        have hmod : (off + tot) % BSIZE < BSIZE := Nat.mod_lt _ (by lia)
        have hrange : off + tot < off + n := by lia
        have hmn : m = min (off + n - (off + tot))
            (BSIZE - (off + tot) % BSIZE) := by lia
        have hnot : (off + tot) / BSIZE ∉ blocksOf (off + tot + m) (off + n) :=
          fun hmem => Nat.lt_irrefl _ (lt_of_mem_blocksOf hrange hmn hmem)
        rw [blocksOf_step hrange hmn]
        apply wp_mono (writeiBlock_spec hheld hown htype (by lia) (by lia))
        · intro _ u hu
          have htype' : (u.icache ip).din.type ≠ 0 := by
            rw [hu.wrote.type]
            exact htype
          have hrest := ih (tot + m) u hu.wrote.held hu.wrote.own htype'
            (by lia) (by lia)
          rw [← Nat.add_assoc] at hrest
          apply wp_mono hrest
          · intro _ v hv
            have hfree := hu.free _ hnot
            have hfree' := hv.free
            rw [← Nat.add_assoc] at hfree'
            constructor
            · exact hu.wrote.trans hv.wrote (by lia) (by lia)
            · rw [blocksOf_step hrange hmn]
              lia
            · have hlog := hv.log
              rw [← Nat.add_assoc] at hlog
              rw [blocksOf_step hrange hmn]
              exact hu.log_trans hv.wrote hlog
          · exact fun e he => hu.stop_trans hnot he
        · exact fun e he => he.cons _
      · have heq : tot = n := by lia
        rw [if_neg (Nat.not_lt.mpr hge), heq]
        exact LoopPost.done hheld hown

end Fs
end Xv6
