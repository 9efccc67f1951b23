import Xv6.Fs.Content

/-!
# Files as byte arrays

`writei` and `readi` on a file without holes act on one flat array of bytes.
What a write needs beyond its arguments is free blocks for the indices it maps
and room in the log for the blocks it changes.
-/

namespace Xv6
namespace Fs

open Lib Lib.Run

/-!
## Writing the inode back
-/

def synced (s : Fs) (ip : Slot) (log : Log) : Fs :=
  { s with
    disk := s.sb.setDinode s.disk (s.icache ip).inum (s.icache ip).din
    log := log }

section Synced

variable {s : Fs} {ip : Slot} (log : Log)

theorem iupdate_spec (s : Fs) (ip : Slot) :
    wp (iupdate ip)
      (fun _ s' => exists log,
        s.log.logAll [s.sb.iblock (s.icache ip).inum] = .ok log ∧
          s' = s.synced ip log)
      (fun e => s.log.logAll [s.sb.iblock (s.icache ip).inum] = .error e)
      s := by
  unfold iupdate
  simp only [inode, setDisk, wp_bind, wp_gets, wp_modify]
  apply wp_logWrite
  · intro log hlog
    refine ⟨log, ?_, rfl⟩
    simp only [Log.logAll, hlog]
  · intro e he
    simp only [Log.logAll, he]

theorem synced_disk_of_isData (hheld : s.Held ip) {c : Nat}
    (hc : s.sb.IsData c) : (s.synced ip log).disk c = s.disk c := by
  apply Function.update_of_ne
  intro heq
  exact s.sb.iblock_not_isData hheld.inum_lt (heq ▸ hc)

theorem synced_bitAt (hheld : s.Held ip) (c : Nat) :
    s.sb.bitAt (s.synced ip log).disk c = s.sb.bitAt s.disk c :=
  s.sb.bitAt_update (s.sb.iblock_ne_bblock c hheld.inum_lt).symm

theorem synced_dinode (hheld : s.Held ip) (i : Nat) :
    (s.synced ip log).dinode i = s.dinode i := by
  rcases eq_or_ne i (s.icache ip).inum with rfl | hne
  · have hheld' : (s.synced ip log).Held ip :=
      ⟨hheld.ref_pos, hheld.valid, hheld.inum_lt, hheld.unique⟩
    exact hheld'.dinode_eq.trans hheld.dinode_eq.symm
  · exact dinode_congr rfl (fun _ => rfl)
      (s.sb.dinodeAt_setDinode_of_ne _ _ hne)

theorem synced_place (hheld : s.Held ip) (hown : s.Own) {i : Nat} (p : Place)
    (hi : i < s.sb.ninodes) (hti : (s.dinode i).type ≠ 0) :
    (s.dinode i).place (s.synced ip log).disk p =
      (s.dinode i).place s.disk p :=
  (s.dinode i).place_congr s.disk _ p (fun hne =>
    synced_disk_of_isData log hheld (hown.isData i .indirect hi hti hne))

theorem synced_byteAt (hheld : s.Held ip) (hown : s.Own) {i : Nat} (k : Nat)
    (hi : i < s.sb.ninodes) (hti : (s.dinode i).type ≠ 0) :
    (s.dinode i).byteAt (s.synced ip log).disk k =
      (s.dinode i).byteAt s.disk k :=
  (s.dinode i).byteAt_congr s.disk _ k (fun p hne =>
    synced_disk_of_isData log hheld (hown.isData i p hi hti hne))

theorem synced_own (hheld : s.Held ip) (hown : s.Own) :
    (s.synced ip log).Own := by
  apply hown.congr (s.synced ip log) rfl
  · intro i _
    rw [synced_dinode log hheld]
  · intro i p hi hti
    rw [synced_dinode log hheld]
    exact synced_place log hheld hown p hi hti
  · intro c _ hbit
    exact (synced_bitAt log hheld c).trans hbit

end Synced

theorem place_withSize (di : Dinode) (d : Nat -> Block) (size : UInt32)
    (p : Place) :
    ({ di with size := size } : Dinode).place d p = di.place d p := by
  cases p with
  | addr k | entry j => rfl

theorem blockOf_withSize (di : Dinode) (d : Nat -> Block) (size : UInt32)
    (bn : Nat) :
    ({ di with size := size } : Dinode).blockOf d bn = di.blockOf d bn := by
  unfold Dinode.blockOf
  cases Dinode.placeOf bn with
  | none => rfl
  | some p => exact place_withSize di d size p

theorem byteAt_withSize (di : Dinode) (d : Nat -> Block) (size : UInt32)
    (k : Nat) :
    ({ di with size := size } : Dinode).byteAt d k = di.byteAt d k := by
  unfold Dinode.byteAt
  rw [blockOf_withSize]

theorem own_withSize {s : Fs} {ip : Slot} (size : UInt32) (hheld : s.Held ip)
    (hown : s.Own) :
    (s.withDin ip { (s.icache ip).din with size := size }).Own := by
  apply hown.congr
    (s.withDin ip { (s.icache ip).din with size := size }) rfl
  · intro i _
    rcases eq_or_ne i (s.icache ip).inum with rfl | hne
    · rw [hheld.withDin_dinode, hheld.dinode_eq]
    · rw [withDin_dinode_of_ne _ hne]
  · intro i p _ _
    rcases eq_or_ne i (s.icache ip).inum with rfl | hne
    · rw [hheld.withDin_dinode, hheld.dinode_eq]
      exact place_withSize _ _ _ p
    · rw [withDin_dinode_of_ne _ hne]
      rfl
  · exact fun _ _ hbit => hbit

/-!
## The result of `writei`
-/

/-- How many different blocks a write to the block indices `bns` logs at most
before the inode block: the bitmap blocks, the data blocks and the indirect
block. -/
def logNeed (sb : Superblock) (bns : List Nat) : Nat :=
  (sb.size / BPB + 1) + bns.length + 1

theorem logged_card {sb : Superblock} {ind : Nat} {blocks bns bs : List Nat}
    (hlen : blocks.length ≤ bns.length)
    (hbs : forall c, c ∈ bs -> writeLogged sb ind blocks c) :
    exists S : Finset Nat, S.card ≤ logNeed sb bns ∧
      forall c, c ∈ bs -> c ∈ S := by
  refine ⟨(Finset.range (sb.size / BPB + 1)).image (fun k => k + sb.bmapstart) ∪
    blocks.toFinset ∪ {ind}, ?_, ?_⟩
  · have hmap : ((Finset.range (sb.size / BPB + 1)).image
        (fun k => k + sb.bmapstart)).card ≤ sb.size / BPB + 1 :=
      Finset.card_image_le.trans_eq (Finset.card_range _)
    have hblocks := blocks.toFinset_card_le
    have hind : ({ind} : Finset Nat).card = 1 := Finset.card_singleton ind
    have hunion := Finset.card_union_le
      ((Finset.range (sb.size / BPB + 1)).image (fun k => k + sb.bmapstart) ∪
        blocks.toFinset) {ind}
    have hunion' := Finset.card_union_le
      ((Finset.range (sb.size / BPB + 1)).image (fun k => k + sb.bmapstart))
      blocks.toFinset
    unfold logNeed
    lia
  · intro c hc
    rw [Finset.mem_union, Finset.mem_union, Finset.mem_singleton]
    rcases hbs c hc with ⟨b, hb, rfl⟩ | hmem | ⟨hind, _⟩
    · apply Or.inl
      apply Or.inl
      have hdiv : b / BPB ≤ sb.size / BPB := Nat.div_le_div_right (by lia)
      exact Finset.mem_image.mpr
        ⟨b / BPB, Finset.mem_range.mpr (Nat.lt_succ_of_le hdiv), rfl⟩
    · exact Or.inl (Or.inr (List.mem_toFinset.mpr hmem))
    · exact Or.inr hind

/-- A write stops on a full disk, or at one of the blocks `bs` that its loop
logs, or at the inode block `last` after them. -/
def WriteiStop (s : Fs) (ip : Slot) (bns : List Nat) (e : Stop) : Prop :=
  (e = .panic "balloc: out of blocks" ∧
      s.freeCount < needOf (s.icache ip).din s.disk bns) ∨
    exists bs last, exists S : Finset Nat,
      (s.log.logAll bs = .error e ∨ s.log.logAll (bs ++ [last]) = .error e) ∧
      S.card ≤ logNeed s.sb bns ∧ forall c, c ∈ bs -> c ∈ S

theorem WriteStop.writei {s : Fs} {ip : Slot} {bns : List Nat} {e : Stop}
    (h : WriteStop s ip bns e) : WriteiStop s ip bns e := by
  rcases h with hfull | ⟨bs, ind, blocks, herr, _, hlen, hmem⟩
  · exact Or.inl hfull
  · rcases logged_card hlen hmem with ⟨S, hcard, hsub⟩
    exact Or.inr ⟨bs, 0, S, Or.inl herr, hcard, hsub⟩

theorem WriteiStop.false {s : Fs} {ip : Slot} {bns : List Nat} {e : Stop}
    (h : WriteiStop s ip bns e)
    (hfree : needOf (s.icache ip).din s.disk bns ≤ s.freeCount)
    (hroom : s.log.Room (logNeed s.sb bns)) : False := by
  rcases h with ⟨_, hfull⟩ | ⟨bs, last, S, herr, hcard, hsub⟩
  · lia
  · rcases Log.logAll_of_card S hroom hcard bs hsub with ⟨log, hok, hspare⟩
    rw [Log.logAll_append, hok] at herr
    rcases herr with hloop | hlast
    · cases hloop
    · simp only [Log.logAll, hspare.logWrite] at hlast
      cases hlast

/-- The file in slot `ip` after a write, and every other file as before. -/
structure WriteiPost (s s' : Fs) (ip : Slot) (src : Nat -> UInt8)
    (off n : Nat) : Prop where
  sb : s'.sb = s.sb
  held : s'.Held ip
  own : s'.Own
  type : (s'.icache ip).din.type = (s.icache ip).din.type
  inum : (s'.icache ip).inum = (s.icache ip).inum
  size : (s'.icache ip).din.size.toNat =
    max (s.icache ip).din.size.toNat (off + n)
  bytes : forall k, (s'.icache ip).din.byteAt s'.disk k =
    if off ≤ k ∧ k < off + n then src (k - off)
    else (s.icache ip).din.byteAt s.disk k
  keep : forall bn, (s.icache ip).din.blockOf s.disk bn ≠ 0 ->
    (s'.icache ip).din.blockOf s'.disk bn ≠ 0
  mapped : forall k, off ≤ k -> k < off + n ->
    (s'.icache ip).din.blockOf s'.disk (k / BSIZE) ≠ 0
  other : forall i, i < s.sb.ninodes -> (s.dinode i).type ≠ 0 ->
    i ≠ (s.icache ip).inum ->
      (s'.dinode i).content s'.disk = (s.dinode i).content s.disk

theorem Wrote.post {s t : Fs} {ip : Slot} {src : Nat -> UInt8} {off n : Nat}
    (h : Wrote s t ip src off 0 n)
    (hsize : off + n ≤ (s.icache ip).din.size.toNat) :
    WriteiPost s t ip src off n where
  sb := h.sb
  held := h.held
  own := h.own
  type := h.type
  inum := h.inum
  size := by
    rw [h.size]
    lia
  bytes k := by
    have hbytes := h.bytes k
    rw [Nat.add_zero] at hbytes
    exact hbytes
  keep bn hne := by
    rw [h.blockOf_keep hne]
    exact hne
  mapped k hlo hhi := h.mapped k hlo hhi
  other i hi hti hne := by
    unfold Dinode.content
    rw [h.other i hi hne]
    apply List.map_congr_left
    intro k _
    have hbytes := h.bytesOther i k hi hti hne
    rw [h.other i hi hne] at hbytes
    exact hbytes

theorem Wrote.post_grown {s t : Fs} {ip : Slot} {src : Nat -> UInt8}
    {off n : Nat} {size : UInt32} (log : Log)
    (h : Wrote s t ip src off 0 n) (htype : (s.icache ip).din.type ≠ 0)
    (hsize : size.toNat = off + n)
    (hgrow : (s.icache ip).din.size.toNat < off + n) :
    WriteiPost s
      ((t.withDin ip { (t.icache ip).din with size := size }).synced ip log)
      ip src off n := by
  have hheld := h.held.withDin { (t.icache ip).din with size := size }
  have hown := own_withSize size h.held h.own
  have hslot : ((t.withDin ip
      { (t.icache ip).din with size := size }).icache ip) =
        { t.icache ip with din := { (t.icache ip).din with size := size } } :=
    withDin_icache_self _
  have htype' : (t.icache ip).din.type ≠ 0 := by
    rw [h.type]
    exact htype
  -- The blocks of this file are data blocks, which `iupdate` does not touch.
  have hdata : forall p, (t.icache ip).din.place t.disk p ≠ 0 ->
      ((t.withDin ip { (t.icache ip).din with size := size }).synced ip
        log).disk ((t.icache ip).din.place t.disk p) =
          t.disk ((t.icache ip).din.place t.disk p) := by
    intro p hne
    apply synced_disk_of_isData log hheld
    rw [← h.held.dinode_eq] at hne htype' ⊢
    exact h.own.isData _ p h.held.inum_lt htype' hne
  have hbytes : forall k, ({ (t.icache ip).din with size := size } :
      Dinode).byteAt ((t.withDin ip
        { (t.icache ip).din with size := size }).synced ip log).disk k =
          (t.icache ip).din.byteAt t.disk k := by
    intro k
    rw [byteAt_withSize]
    exact (t.icache ip).din.byteAt_congr t.disk _ k hdata
  have hblock : forall bn, ({ (t.icache ip).din with size := size } :
      Dinode).blockOf ((t.withDin ip
        { (t.icache ip).din with size := size }).synced ip log).disk bn =
          (t.icache ip).din.blockOf t.disk bn := by
    intro bn
    rw [blockOf_withSize]
    exact (t.icache ip).din.blockOf_congr t.disk _ bn (hdata .indirect)
  constructor
  · exact h.sb
  · exact ⟨hheld.ref_pos, hheld.valid, hheld.inum_lt, hheld.unique⟩
  · exact synced_own log hheld hown
  · show (((t.withDin ip _).icache ip).din.type) = _
    rw [hslot]
    exact h.type
  · show ((t.withDin ip _).icache ip).inum = _
    rw [hslot]
    exact h.inum
  · show ((t.withDin ip _).icache ip).din.size.toNat = _
    rw [hslot]
    show size.toNat = _
    lia
  · intro k
    show ((t.withDin ip _).icache ip).din.byteAt _ k = _
    rw [hslot, hbytes k]
    have hloop := h.bytes k
    rw [Nat.add_zero] at hloop
    exact hloop
  · intro bn hne
    show ((t.withDin ip _).icache ip).din.blockOf _ bn ≠ 0
    rw [hslot, hblock bn, h.blockOf_keep hne]
    exact hne
  · intro k hlo hhi
    show ((t.withDin ip _).icache ip).din.blockOf _ (k / BSIZE) ≠ 0
    rw [hslot, hblock]
    exact h.mapped k hlo hhi
  · intro i hi hti hne
    have hi' : i < t.sb.ninodes := h.sb.symm ▸ hi
    have hne' : i ≠ (t.icache ip).inum := h.inum.symm ▸ hne
    have htable : (t.withDin ip { (t.icache ip).din with
        size := size }).dinode i = s.dinode i := by
      rw [withDin_dinode_of_ne _ hne', h.other i hi hne]
    have hsame : ((t.withDin ip { (t.icache ip).din with
        size := size }).synced ip log).dinode i = s.dinode i := by
      rw [synced_dinode log hheld, htable]
    unfold Dinode.content
    rw [hsame]
    apply List.map_congr_left
    intro k _
    have hsync := synced_byteAt log hheld hown k hi' (htable.symm ▸ hti)
    rw [htable] at hsync
    have hloop := h.bytesOther i k hi hti hne
    rw [h.other i hi hne] at hloop
    exact hsync.trans hloop

/-- The arguments that `writei` and `readi` refuse: an offset past the size, or
a range that wraps around. -/
def BadRange (di : Dinode) (off n : UInt32) : Prop :=
  di.size.toNat < off.toNat ∨ 2 ^ 32 ≤ off.toNat + n.toNat

theorem badRange_iff (di : Dinode) (off n : UInt32) :
    (di.size < off ∨ off + n < off) ↔ BadRange di off n := by
  have hoff := off.toNat_lt
  have hn := n.toNat_lt
  unfold BadRange
  rw [UInt32.lt_iff_toNat_lt, UInt32.lt_iff_toNat_lt, UInt32.toNat_add]
  lia

theorem toNat_add_of_not_bad {di : Dinode} {off n : UInt32}
    (h : ¬ BadRange di off n) : (off + n).toNat = off.toNat + n.toNat := by
  unfold BadRange at h
  rw [UInt32.toNat_add, Nat.mod_eq_of_lt (by lia)]

section Writei

variable {s : Fs} {ip : Slot} (pid : Int32) (src : Nat -> UInt8)
  {off n : UInt32} (hdev : (s.icache ip).din.type ≠ T_DEV)
include hdev

theorem writei_of_bad
    (hbad : BadRange (s.icache ip).din off n ∨
      MAXFILE * BSIZE < off.toNat + n.toNat) :
    writei pid ip src off n s = .ok (-1, s) := by
  unfold writei
  simp only [inode, bind_run, gets, if_neg hdev]
  rcases Decidable.em ((s.icache ip).din.size < off ∨ off + n < off) with
    hrange | hrange
  · rw [if_pos hrange]
    rfl
  · have hgood := fun h => hrange ((badRange_iff _ _ _).mpr h)
    have hmax := hbad.resolve_left hgood
    rw [if_neg hrange, toNat_add_of_not_bad hgood, if_pos hmax]
    rfl

theorem writei_spec (hheld : s.Held ip) (hown : s.Own)
    (htype : (s.icache ip).din.type ≠ 0)
    (hgood : ¬ BadRange (s.icache ip).din off n)
    (hmax : off.toNat + n.toNat ≤ MAXFILE * BSIZE) :
    wp (writei pid ip src off n)
      (fun r s' => r = n.toNat ∧
        WriteiPost s s' ip src off.toNat n.toNat)
      (WriteiStop s ip (blocksOf off.toNat (off.toNat + n.toNat))) s := by
  have hadd := toNat_add_of_not_bad hgood
  have hoffle : off.toNat ≤ (s.icache ip).din.size.toNat := by
    unfold BadRange at hgood
    lia
  unfold writei
  simp only [inode, wp_bind, wp_gets, if_neg hdev]
  rw [if_neg (fun h => hgood ((badRange_iff _ _ _).mp h)),
    if_neg (by rw [hadd]; lia), wp_bind]
  have hloop := writeiLoop_spec src hmax n.toNat 0 s hheld hown htype
    (Nat.zero_le _) (Nat.le_refl _)
  rw [Nat.add_zero] at hloop
  apply wp_mono hloop
  · intro _ t ht
    have hw := ht.wrote
    rw [wp_bind, wp_gets]
    rcases Decidable.em (0 < n ∧ (t.icache ip).din.size < off + n) with
      hgrow | hsame
    · rw [if_pos hgrow]
      have hlt : (s.icache ip).din.size.toNat < off.toNat + n.toNat := by
        have hlt' := UInt32.lt_iff_toNat_lt.mp hgrow.2
        rw [hw.size, hadd] at hlt'
        exact hlt'
      simp only [setDin, setInode, wp_bind, wp_modify]
      apply wp_mono (iupdate_spec
        (t.withDin ip { (t.icache ip).din with size := off + n }) ip)
      · rintro _ u ⟨log, _, rfl⟩
        exact ⟨rfl, hw.post_grown log htype hadd hlt⟩
      · intro e he
        -- The inode block is the last one that a write logs.
        rcases ht.log with ⟨bs, blocks, hbs, hlen, hmem⟩
        rw [Nat.add_zero] at hlen
        have hinum : ((t.withDin ip { (t.icache ip).din with
            size := off + n }).icache ip).inum = (s.icache ip).inum := by
          rw [withDin_icache_self]
          exact hw.inum
        have hsb : (t.withDin ip { (t.icache ip).din with
            size := off + n }).sb = s.sb := hw.sb
        rw [hinum, hsb] at he
        rcases logged_card hlen hmem with ⟨S, hcard, hsub⟩
        refine Or.inr ⟨bs, s.sb.iblock (s.icache ip).inum, S, Or.inr ?_, hcard,
          hsub⟩
        rw [Log.logAll_append, hbs]
        exact he
    · rw [if_neg hsame]
      refine ⟨rfl, hw.post ?_⟩
      rw [UInt32.lt_iff_toNat_lt, UInt32.lt_iff_toNat_lt,
        hw.size, hadd] at hsame
      have hzero : (0 : UInt32).toNat = 0 := rfl
      rw [hzero] at hsame
      lia
  · exact fun e he => he.writei

end Writei

/-!
## Content refinement
-/

/-- The bytes of a file after `n` bytes of `src` were stored at `off`. -/
def splice (bytes : List UInt8) (src : Nat -> UInt8) (off n : Nat) :
    List UInt8 :=
  bytes.take off ++ (List.range n).map src ++ bytes.drop (off + n)

theorem WriteiPost.content {s s' : Fs} {ip : Slot} {src : Nat -> UInt8}
    {off n : Nat} (h : WriteiPost s s' ip src off n)
    (hoff : off ≤ (s.icache ip).din.size.toNat) :
    (s'.icache ip).din.content s'.disk =
      splice ((s.icache ip).din.content s.disk) src off n := by
  have hlen : ((s.icache ip).din.content s.disk).length =
      (s.icache ip).din.size.toNat := by
    simp [Dinode.content]
  have hsize := h.size
  apply List.ext_getElem
  · simp only [Dinode.content, splice, List.length_map, List.length_range,
      List.length_append, List.length_take, List.length_drop]
    lia
  · intro k hk hk'
    simp only [Dinode.content, splice, List.getElem_append, List.getElem_map,
      List.getElem_range, List.getElem_take, List.getElem_drop,
      List.length_append, List.length_take, List.length_map,
      List.length_range, h.bytes]
    have hmin : min off (s.icache ip).din.size.toNat = off :=
      Nat.min_eq_left hoff
    rcases Nat.lt_or_ge k off with hlo | hge
    · rw [if_neg (by lia), dif_pos (by lia), dif_pos (by lia)]
    · rcases Nat.lt_or_ge k (off + n) with hin | hhi
      · rw [if_pos ⟨hge, hin⟩, dif_pos (by lia), dif_neg (by lia), hmin]
      · rw [if_neg (by lia), dif_neg (by lia)]
        congr 1
        lia

theorem WriteiPost.holeFree {s s' : Fs} {ip : Slot} {src : Nat -> UInt8}
    {off n : Nat} (h : WriteiPost s s' ip src off n)
    (hoff : off ≤ (s.icache ip).din.size.toNat)
    (hmap : (s.icache ip).din.HoleFree s.disk) :
    (s'.icache ip).din.HoleFree s'.disk := by
  intro bn hbn
  rw [h.size] at hbn
  rcases Nat.lt_or_ge (bn * BSIZE) (s.icache ip).din.size.toNat with hold | hnew
  · exact h.keep bn (hmap bn hold)
  · have hdiv : bn * BSIZE / BSIZE = bn := Nat.mul_div_cancel bn (by lia)
    have hmapped := h.mapped (bn * BSIZE) (by lia) (by lia)
    rw [hdiv] at hmapped
    exact hmapped

/-- `writei` and `readi` on a file without holes are operations on its bytes.
A write needs the free blocks that its range maps anew, and room in the log
for the blocks it changes. -/
theorem writei_readi_content {s : Fs} {ip : Slot} (hheld : s.Held ip)
    (hown : s.Own) (htype : (s.icache ip).din.type ≠ 0)
    (hdev : (s.icache ip).din.type ≠ T_DEV)
    (hmap : (s.icache ip).din.HoleFree s.disk) (pid : Int32)
    (src : Nat -> UInt8) (off n : UInt32) :
    (BadRange (s.icache ip).din off n ∨
        MAXFILE * BSIZE < off.toNat + n.toNat ->
      writei pid ip src off n s = .ok (-1, s)) ∧
    (¬ (BadRange (s.icache ip).din off n ∨
        MAXFILE * BSIZE < off.toNat + n.toNat) ->
      needOf (s.icache ip).din s.disk
        (blocksOf off.toNat (off.toNat + n.toNat)) ≤ s.freeCount ->
      s.log.Room (logNeed s.sb (blocksOf off.toNat (off.toNat + n.toNat))) ->
      exists s', writei pid ip src off n s = .ok ((n.toNat : Int), s') ∧
        (s'.icache ip).din.content s'.disk =
          splice ((s.icache ip).din.content s.disk) src off.toNat n.toNat ∧
        (s'.icache ip).din.size.toNat =
          max (s.icache ip).din.size.toNat (off.toNat + n.toNat) ∧
        (s'.icache ip).din.HoleFree s'.disk ∧ s'.Held ip ∧ s'.Own ∧
        forall i, i < s.sb.ninodes -> (s.dinode i).type ≠ 0 ->
          i ≠ (s.icache ip).inum ->
            (s'.dinode i).content s'.disk = (s.dinode i).content s.disk) ∧
    (BadRange (s.icache ip).din off n ->
      readi pid ip off n s = .ok ((-1, []), s)) ∧
    (¬ BadRange (s.icache ip).din off n ->
      readi pid ip off n s =
        .ok (((min n.toNat ((s.icache ip).din.size.toNat - off.toNat) : Nat),
          (((s.icache ip).din.content s.disk).drop off.toNat).take n.toNat),
          s)) := by
  have hread := readi_spec pid off n hdev hmap
  refine ⟨writei_of_bad pid src hdev, ?_, ?_, ?_⟩
  · intro hgood hfree hroom
    have hrange : ¬ BadRange (s.icache ip).din off n :=
      fun h => hgood (Or.inl h)
    have hmax : off.toNat + n.toNat ≤ MAXFILE * BSIZE :=
      Nat.not_lt.mp (fun h => hgood (Or.inr h))
    have hoff : off.toNat ≤ (s.icache ip).din.size.toNat :=
      Nat.not_lt.mp (fun h => hrange (Or.inl h))
    have hspec := writei_spec pid src hdev hheld hown htype hrange hmax
    cases hrun : writei pid ip src off n s with
    | error e =>
        have hstop : WriteiStop s ip _ e := wp_error hspec hrun
        exact (hstop.false hfree hroom).elim
    | ok r =>
        rcases r with ⟨v, s'⟩
        rcases wp_ok hspec hrun with ⟨rfl, hpost⟩
        exact ⟨s', rfl, hpost.content hoff, hpost.size,
          hpost.holeFree hoff hmap, hpost.held, hpost.own, hpost.other⟩
  · intro hbad
    rw [hread]
    exact if_pos hbad
  · intro hgood
    rw [hread]
    exact if_neg hgood

/-!
An image with one empty file, open in the first slot, inside a transaction that
has logged nothing yet.
-/

def emptyBitmap : Block := fun i =>
  if i.val < 7 then 255 else if i.val = 7 then 7 else 0

def oneFileFs : Fs where
  sb := Superblock.mkfs
  disk := fun b =>
    if b = Superblock.mkfs.bmapstart then emptyBitmap else fun _ => 0
  log :=
    { start := 2
      size := LOGSIZE
      outstanding := 1
      committing := false
      lh := { n := 0, block := fun _ => 0 } }
  icache := fun ip =>
    if ip = 0 then
      { inum := 2
        ref := 1
        lock := some 1
        valid := true
        din := { Dinode.zero with type := T_FILE, nlink := 1 } }
    else
      { inum := 0, ref := 0, lock := none, valid := false, din := Dinode.zero }
  cons := fun _ => none

theorem oneFileFs_held : oneFileFs.Held 0 := by
  constructor
  · decide
  · rfl
  · decide
  · intro jp href _
    rcases eq_or_ne jp 0 with hzero | hne
    · exact hzero
    · have hslot : (oneFileFs.icache jp).ref = 0 := by
        simp only [oneFileFs, if_neg hne]
      rw [hslot] at href
      exact absurd href (by decide)

theorem oneFileFs_place {i : Nat} (hi : i < oneFileFs.sb.ninodes)
    (hti : (oneFileFs.dinode i).type ≠ 0) (p : Place) :
    (oneFileFs.dinode i).place oneFileFs.disk p = 0 := by
  rcases eq_or_ne i 2 with rfl | hne
  · have hdin : oneFileFs.dinode 2 =
        { Dinode.zero with type := T_FILE, nlink := 1 } :=
      oneFileFs_held.dinode_eq
    rw [hdin]
    cases p with
    | addr k | entry j => rfl
  · exfalso
    apply hti
    have hcached : oneFileFs.cached i = none := by
      apply List.find?_eq_none.mpr
      intro jp _
      rcases eq_or_ne jp 0 with rfl | hjp
      · simp [oneFileFs, hne.symm]
      · simp [oneFileFs, hjp]
    have hblock : oneFileFs.disk (oneFileFs.sb.iblock i) = fun _ => 0 := by
      have hlt := oneFileFs.sb.iblock_lt hi
      exact if_neg (Nat.ne_of_lt hlt)
    unfold dinode
    rw [hcached]
    simp only [Superblock.dinodeAt, Dinode.ofBlock, hblock]
    simp [Bytes.le, Bytes.leOf, Bytes.get]

theorem oneFileFs_own : oneFileFs.Own := by
  constructor
  · intro i p hi hti hne
    exact absurd (oneFileFs_place hi hti p) hne
  · intro i p j q hi _ hti _ hne _
    exact absurd (oneFileFs_place hi hti p) hne
  · intro i p hi hti hne
    exact absurd (oneFileFs_place hi hti p) hne
  · have hall : forall b, b < oneFileFs.sb.datastart ->
        oneFileFs.sb.bitAt oneFileFs.disk b = true := by
      decide +kernel
    intro b hb hnot
    apply hall
    unfold Superblock.IsData at hnot
    lia

theorem oneFileFs_holeFree :
    (oneFileFs.icache 0).din.HoleFree oneFileFs.disk := by
  intro bn hbn
  exact absurd hbn (Nat.not_lt_zero _)

/-- 26 blocks, the most that a fresh log takes in one call. -/
theorem writei_readi_content_oneFileFs :
    exists s', writei 1 0 (fun _ => 7) 0 13312 oneFileFs = .ok (13312, s') ∧
      (s'.icache 0).din.content s'.disk =
        (List.range 13312).map (fun _ => 7) := by
  have h := (writei_readi_content oneFileFs_held oneFileFs_own (by decide)
    (by decide) oneFileFs_holeFree 1 (fun _ => 7) 0 13312).2.1
    (by unfold BadRange; decide) (by decide +kernel)
    ⟨by decide, by decide, by decide +kernel, by decide +kernel⟩
  rcases h with ⟨s', hrun, hcontent, _⟩
  refine ⟨s', hrun, hcontent.trans ?_⟩
  have hempty : (oneFileFs.icache 0).din.content oneFileFs.disk = [] := rfl
  rw [hempty]
  unfold splice
  rw [List.take_nil, List.drop_nil, List.nil_append, List.append_nil]
  rfl

/-- One call for thirty blocks stops, although all of them are free. -/
theorem writei_stops_on_full_log :
    oneFileFs.Held 0 ∧ oneFileFs.Own ∧
      (oneFileFs.icache 0).din.type ≠ T_DEV ∧
      (oneFileFs.icache 0).din.HoleFree oneFileFs.disk ∧
      ¬ BadRange (oneFileFs.icache 0).din 0 15360 ∧
      15360 ≤ MAXFILE * BSIZE ∧
      needOf (oneFileFs.icache 0).din oneFileFs.disk (blocksOf 0 15360) ≤
        oneFileFs.freeCount ∧
      (match writei 1 0 (fun _ => 7) 0 15360 oneFileFs with
        | .ok _ => none
        | .error e => some e) = some (.panic "too big a transaction") := by
  refine ⟨oneFileFs_held, oneFileFs_own, by decide, oneFileFs_holeFree, ?_,
    by decide, by decide +kernel, by decide +kernel⟩
  unfold BadRange
  decide

end Fs
end Xv6
