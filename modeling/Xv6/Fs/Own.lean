import Xv6.Fs.Map
import Xv6.Log.Room

/-!
# Block ownership

The inode table as the file system sees it, and who owns which block.  The
copy in the inode cache, where there is a valid one, stands for the inode on
disk, since `iupdate` writes it back only at the end of a change.
-/

namespace Xv6

open Lib Lib.Run

namespace Fs

theorem wp_logWrite {b : Nat} {Q : Unit -> Fs -> Prop} {E : Stop -> Prop}
    {s : Fs}
    (hok : forall log, s.log.logWrite (UInt32.ofNat b) = .ok log ->
      Q () { s with log := log })
    (herr : forall e, s.log.logWrite (UInt32.ofNat b) = .error e -> E e) :
    wp (logWrite b) Q E s := by
  unfold wp logWrite
  cases hlog : s.log.logWrite (UInt32.ofNat b) with
  | ok log => exact hok log hlog
  | error e => exact herr e hlog

/-!
## The allocator
-/

def Full (s : Fs) : Prop :=
  forall b, b < s.sb.size -> s.sb.bitAt s.disk b = true

def allocated (s : Fs) (b : Nat) (log : Log) : Fs :=
  { s with
    disk := Function.update (s.sb.setBit s.disk b) b (fun _ => 0)
    log := log }

theorem balloc_spec (s : Fs) :
    wp balloc
      (fun b s' => b < s.sb.size ∧ s.sb.bitAt s.disk b = false ∧
        exists log, s.log.logAll [s.sb.bblock b, b] = .ok log ∧
          s' = s.allocated b log)
      (fun e => (e = .panic "balloc: out of blocks" ∧ s.Full) ∨
        exists b bs, b < s.sb.size ∧ s.sb.bitAt s.disk b = false ∧
          bs <+: [s.sb.bblock b, b] ∧ s.log.logAll bs = .error e)
      s := by
  unfold balloc
  rw [wp_bind, wp_gets]
  cases hfind : (List.range s.sb.size).find?
      (fun b => !s.sb.bitAt s.disk b) with
  | none =>
      apply Or.inl
      constructor
      · rfl
      · intro b hb
        have hbit := List.find?_eq_none.mp hfind b (List.mem_range.mpr hb)
        simpa using hbit
  | some b =>
      have hlt := List.mem_range.mp (List.mem_of_find?_eq_some hfind)
      have hfree : s.sb.bitAt s.disk b = false := by
        simpa using List.find?_some hfind
      simp only [setDisk, bzero, bmodify, wp_bind, wp_modify, wp_gets]
      apply wp_logWrite
      · intro log hlog
        apply wp_logWrite
        · intro log' hlog'
          refine ⟨hlt, hfree, log', ?_, rfl⟩
          simp only [Log.logAll, hlog, hlog']
        · intro e he
          refine Or.inr ⟨b, [s.sb.bblock b, b], hlt, hfree,
            List.prefix_rfl, ?_⟩
          simp only [Log.logAll, hlog, he]
      · intro e he
        refine Or.inr ⟨b, [s.sb.bblock b], hlt, hfree, ⟨[b], rfl⟩, ?_⟩
        simp only [Log.logAll, he]

/-!
## The inode table
-/

def cached (s : Fs) (inum : Nat) : Option Slot :=
  (List.finRange NINODE).find? (fun ip =>
    0 < (s.icache ip).ref ∧ (s.icache ip).valid = true ∧
      (s.icache ip).inum = inum)

def dinode (s : Fs) (inum : Nat) : Dinode :=
  match s.cached inum with
  | some ip => (s.icache ip).din
  | none => s.sb.dinodeAt s.disk inum

theorem dinode_congr {s s' : Fs} {i : Nat} (hcached : s'.cached i = s.cached i)
    (hdin : forall ip, (s'.icache ip).din = (s.icache ip).din)
    (hdisk : s'.sb.dinodeAt s'.disk i = s.sb.dinodeAt s.disk i) :
    s'.dinode i = s.dinode i := by
  unfold dinode
  rw [hcached]
  cases s.cached i with
  | some ip => exact hdin ip
  | none => exact hdisk

/-- The slot is the one valid copy of its inode, as after `iget` and
`ilock`. -/
structure Held (s : Fs) (ip : Slot) : Prop where
  ref_pos : 0 < (s.icache ip).ref
  valid : (s.icache ip).valid = true
  inum_lt : (s.icache ip).inum < s.sb.ninodes
  unique : forall jp, 0 < (s.icache jp).ref ->
    (s.icache jp).inum = (s.icache ip).inum -> jp = ip

theorem Held.cached_eq {s : Fs} {ip : Slot} (h : s.Held ip) :
    s.cached (s.icache ip).inum = some ip := by
  unfold cached
  cases hfind : (List.finRange NINODE).find? (fun jp =>
      0 < (s.icache jp).ref ∧ (s.icache jp).valid = true ∧
        (s.icache jp).inum = (s.icache ip).inum) with
  | none =>
      have hnot := List.find?_eq_none.mp hfind ip (List.mem_finRange ip)
      simp [h.ref_pos, h.valid] at hnot
  | some jp =>
      have hjp : 0 < (s.icache jp).ref ∧ (s.icache jp).valid = true ∧
          (s.icache jp).inum = (s.icache ip).inum := by
        simpa using List.find?_some hfind
      rw [h.unique jp hjp.1 hjp.2.2]

theorem Held.dinode_eq {s : Fs} {ip : Slot} (h : s.Held ip) :
    s.dinode (s.icache ip).inum = (s.icache ip).din := by
  unfold dinode
  rw [h.cached_eq]

/-- Whose block a number is: the places of all allocated inodes, each data
block at most once, and the bitmap marks them and everything that is not a
data block. -/
structure Own (s : Fs) : Prop where
  isData : forall i p, i < s.sb.ninodes -> (s.dinode i).type ≠ 0 ->
    (s.dinode i).place s.disk p ≠ 0 ->
      s.sb.IsData ((s.dinode i).place s.disk p)
  inj : forall i p j q, i < s.sb.ninodes -> j < s.sb.ninodes ->
    (s.dinode i).type ≠ 0 -> (s.dinode j).type ≠ 0 ->
      (s.dinode i).place s.disk p ≠ 0 ->
        (s.dinode i).place s.disk p = (s.dinode j).place s.disk q ->
          i = j ∧ p = q
  used : forall i p, i < s.sb.ninodes -> (s.dinode i).type ≠ 0 ->
    (s.dinode i).place s.disk p ≠ 0 ->
      s.sb.bitAt s.disk ((s.dinode i).place s.disk p) = true
  reserved : forall b, b < s.sb.size -> ¬ s.sb.IsData b ->
    s.sb.bitAt s.disk b = true

theorem Own.free {s : Fs} (h : s.Own) {b : Nat} (hlt : b < s.sb.size)
    (hfree : s.sb.bitAt s.disk b = false) :
    s.sb.IsData b ∧ forall i p, i < s.sb.ninodes -> (s.dinode i).type ≠ 0 ->
      (s.dinode i).place s.disk p ≠ b := by
  have hdata : s.sb.IsData b := by
    apply Classical.byContradiction
    intro hnot
    rw [h.reserved b hlt hnot] at hfree
    exact Bool.noConfusion hfree
  constructor
  · exact hdata
  · intro i p hi htype heq
    have hne : (s.dinode i).place s.disk p ≠ 0 := by
      have hpos := hdata.pos
      lia
    have hused := h.used i p hi htype hne
    rw [heq, hfree] at hused
    exact Bool.noConfusion hused

theorem Own.congr {s : Fs} (h : s.Own) (s' : Fs) (hsb : s'.sb = s.sb)
    (htype : forall i, i < s.sb.ninodes ->
      (s'.dinode i).type = (s.dinode i).type)
    (hplace : forall i p, i < s.sb.ninodes -> (s.dinode i).type ≠ 0 ->
      (s'.dinode i).place s'.disk p = (s.dinode i).place s.disk p)
    (hbits : forall c, c < s.sb.size -> s.sb.bitAt s.disk c = true ->
      s.sb.bitAt s'.disk c = true) : s'.Own := by
  constructor
  · intro i p hi hti hne
    rw [hsb] at hi ⊢
    rw [htype i hi] at hti
    rw [hplace i p hi hti] at hne ⊢
    exact h.isData i p hi hti hne
  · intro i p j q hi hj hti htj hne heq
    rw [hsb] at hi hj
    rw [htype i hi] at hti
    rw [htype j hj] at htj
    rw [hplace i p hi hti] at hne heq
    rw [hplace j q hj htj] at heq
    exact h.inj i p j q hi hj hti htj hne heq
  · intro i p hi hti hne
    rw [hsb] at hi ⊢
    rw [htype i hi] at hti
    rw [hplace i p hi hti] at hne ⊢
    exact hbits _ (h.isData i p hi hti hne).2 (h.used i p hi hti hne)
  · intro c hc hnot
    rw [hsb] at hc hnot ⊢
    exact hbits c hc (h.reserved c hc hnot)

end Fs
end Xv6
