import Xv6.Balance
import Xv6.Fs.View
import Xv6.Lib.Words

/-!
# Writing to an open inode

`filewrite` cuts a write into pieces, each its own transaction, and stops at the
first one that `writei` refuses.  What the pieces before it have stored stays.
-/

namespace Xv6

open Lib Lib.Run

namespace Fs

/-- The bytes that `writei` takes: on a device those that its driver takes, on a
file those that neither leave a gap nor go past the largest size. -/
def Accepts (di : Dinode) (off n : Nat) : Prop :=
  if di.type = T_DEV then
    ¬ noDevice di.major
  else
    off ≤ di.size.toNat ∧ off + n ≤ MAXFILE * BSIZE

/-- What a call of `writei` on a locked inode leaves if it returns. -/
structure WriteiEnd (s s' : Fs) (ip : Slot) (src : Nat -> UInt8)
    (off n : Nat) (r : Int) : Prop where
  held : s'.Held ip
  own : s'.Own
  inum : (s'.icache ip).inum = (s.icache ip).inum
  type : (s'.icache ip).din.type = (s.icache ip).din.type
  refused : ¬ Accepts (s.icache ip).din off n -> r = -1 ∧ s' = s
  taken : Accepts (s.icache ip).din off n -> r = n
  device : (s.icache ip).din.type = T_DEV -> SameView s s'
  content : (s.icache ip).din.type ≠ T_DEV ->
    Accepts (s.icache ip).din off n ->
      (s'.icache ip).din.content s'.disk =
        splice ((s.icache ip).din.content s.disk) src off n

section Writei

variable {s : Fs} {ip : Slot} (pid : Int32) (src : Nat -> UInt8)
variable {off n : UInt32}

theorem WriteiEnd.refuse (hheld : s.Held ip) (hown : s.Own)
    (h : ¬ Accepts (s.icache ip).din off.toNat n.toNat) :
    WriteiEnd s s ip src off.toNat n.toNat (-1) :=
  ⟨hheld, hown, rfl, rfl, fun _ => ⟨rfl, rfl⟩, fun h' => absurd h' h,
    fun _ => SameView.refl s, fun _ h' => absurd h' h⟩

theorem wp_consolewrite (hheld : s.Held ip) (hn : n.toNat < 2 ^ 31) :
    wp (consolewrite pid ip n)
      (fun r s' => r = n.toNat ∧ SameView s s' ∧ s'.Held ip ∧
        (s'.icache ip).inum = (s.icache ip).inum) (fun _ => True) s := by
  unfold consolewrite
  simp only [wp_bind, wp_pure]
  apply wp_post (wp_iunlock_view hheld (fun _ => trivial))
  rintro _ s1 ⟨hview1, hheld1, hinum1⟩
  apply wp_post (wp_ilock_view hheld1.only (fun _ => trivial))
  rintro _ s2 ⟨hview2, hheld2, hinum2⟩
  exact ⟨toInt_toInt32 hn, hview1.trans hview2, hheld2, hinum2.trans hinum1⟩

theorem wp_writei_end (hheld : s.Held ip) (hown : s.Own)
    (htype : (s.icache ip).din.type ≠ 0) (hn : n.toNat < 2 ^ 31) :
    wp (writei pid ip src off n)
      (fun r s' => WriteiEnd s s' ip src off.toNat n.toNat r) (fun _ => True)
      s := by
  rcases eq_or_ne (s.icache ip).din.type T_DEV with hdev | hdev
  · have haccepts : Accepts (s.icache ip).din off.toNat n.toNat ↔
        ¬ noDevice (s.icache ip).din.major := by
      unfold Accepts
      rw [if_pos hdev]
    unfold writei
    simp only [inode, wp_bind, wp_gets]
    rw [if_pos hdev, wp_ite]
    constructor
    · intro hnone
      exact .refuse src hheld hown (fun h => haccepts.mp h hnone)
    · intro hsome
      apply wp_post (wp_consolewrite pid hheld hn)
      rintro r s' ⟨rfl, hview, hheld', hinum⟩
      have hdin : (s'.icache ip).din = (s.icache ip).din := by
        rw [← hheld'.dinode_eq, hview.dinode, hinum, hheld.dinode_eq]
      refine ⟨hheld', hview.own hown, hinum, by rw [hdin],
        fun h => absurd (haccepts.mpr hsome) h, fun _ => rfl, fun _ => hview,
        fun h => absurd hdev h⟩
  · have haccepts : Accepts (s.icache ip).din off.toNat n.toNat ↔
        off.toNat ≤ (s.icache ip).din.size.toNat ∧
          off.toNat + n.toNat ≤ MAXFILE * BSIZE := by
      unfold Accepts
      rw [if_neg hdev]
    rcases Classical.em (BadRange (s.icache ip).din off n ∨
      MAXFILE * BSIZE < off.toNat + n.toNat) with hbad | hgood
    · refine wp_of_ok (writei_of_bad pid src hdev hbad) (.refuse src hheld hown ?_)
      rw [haccepts]
      rintro ⟨hoff, hmax⟩
      rcases hbad with (hpast | hwrap) | hlarge
      · lia
      · have hbig : MAXFILE * BSIZE < 2 ^ 32 := by decide
        lia
      · lia
    · have hrange : ¬ BadRange (s.icache ip).din off n :=
        fun h => hgood (.inl h)
      have hmax : off.toNat + n.toNat ≤ MAXFILE * BSIZE :=
        Nat.not_lt.mp (fun h => hgood (.inr h))
      have hoff : off.toNat ≤ (s.icache ip).din.size.toNat :=
        Nat.not_lt.mp (fun h => hrange (.inl h))
      apply wp_mono (writei_spec pid src hdev hheld hown htype hrange hmax)
      · rintro r s' ⟨rfl, hpost⟩
        exact ⟨hpost.held, hpost.own, hpost.inum, hpost.type,
          fun h => absurd (haccepts.mpr ⟨hoff, hmax⟩) h, fun _ => rfl,
          fun h => absurd h hdev, fun _ _ => hpost.content hoff⟩
      · exact fun _ _ => trivial

end Writei

theorem splice_splice (bytes : List UInt8) (src : Nat -> UInt8) {off : Nat}
    (i m : Nat) (hoff : off ≤ bytes.length) :
    splice (splice bytes src off i) (fun j => src (i + j)) (off + i) m =
      splice bytes src off (i + m) := by
  have hlen : (bytes.take off ++ (List.range i).map src).length = off + i := by
    simp [hoff]
  unfold splice
  rw [← hlen, List.take_left, List.drop_length_add_append, List.drop_drop, hlen,
    List.range_add, List.map_append, List.map_map, Nat.add_assoc]
  simp only [List.append_assoc]
  rfl

theorem splice_zero (bytes : List UInt8) (src : Nat -> UInt8) (off : Nat) :
    splice bytes src off 0 = bytes := by
  simp [splice]

theorem splice_window (bytes : List UInt8) (src : Nat -> UInt8) {off : Nat}
    (n : Nat) (hoff : off ≤ bytes.length) :
    ((splice bytes src off n).drop off).take n = (List.range n).map src := by
  have hlen : (bytes.take off).length = off := by simp [hoff]
  have hpiece : ((List.range n).map src).length = n := by simp
  unfold splice
  rw [List.append_assoc, List.drop_left' hlen, List.take_left' hpiece]

theorem splice_length (bytes : List UInt8) (src : Nat -> UInt8) {off : Nat}
    (n : Nat) (hoff : off ≤ bytes.length) :
    (splice bytes src off n).length = max bytes.length (off + n) := by
  simp only [splice, List.length_append, List.length_take, List.length_map,
    List.length_range, List.length_drop]
  lia

end Fs

namespace Kernel

def din (k : Kernel) (ip : Slot) : Dinode := k.fs.dinode (k.fs.icache ip).inum

def contentOf (k : Kernel) (ip : Slot) : List UInt8 :=
  (k.din ip).content k.fs.disk

theorem contentOf_length (k : Kernel) (ip : Slot) :
    (k.contentOf ip).length = (k.din ip).size.toNat := by
  simp [contentOf, Dinode.content]

structure OpenInode (k : Kernel) (f : Fslot) (ip : Slot) : Prop where
  slot : (k.file f).ip = ip
  only : k.fs.Only ip
  own : k.fs.Own
  type : (k.din ip).type ≠ 0

/-!
## One piece
-/

/-- What one transaction leaves if it returns. -/
structure PieceEnd (k k' : Kernel) (f : Fslot) (ip : Slot)
    (src : Nat -> UInt8) (n : Nat) (r : Int) : Prop where
  opened : k'.OpenInode f ip
  type : (k'.din ip).type = (k.din ip).type
  device : (k.din ip).type = T_DEV ->
    (k'.din ip).major = (k.din ip).major ∧ k'.contentOf ip = k.contentOf ip
  refused : ¬ Fs.Accepts (k.din ip) (k.file f).off.toNat n ->
    r = -1 ∧ (k'.file f).off = (k.file f).off ∧
      k'.contentOf ip = k.contentOf ip
  taken : Fs.Accepts (k.din ip) (k.file f).off.toNat n ->
    r = n ∧ (k'.file f).off = (k.file f).off + UInt32.ofNat n
  content : (k.din ip).type ≠ T_DEV ->
    Fs.Accepts (k.din ip) (k.file f).off.toNat n ->
      k'.contentOf ip =
        Fs.splice (k.contentOf ip) src (k.file f).off.toNat n

section Piece

variable {k : Kernel} {f : Fslot} {ip : Slot}

theorem wp_unlocked {s : Fs} (hheld : s.Held ip) (pid : Int32) (r : Int) :
    wp (do
        onFs (Fs.iunlock pid ip)
        onFs Fs.endOp
        pure r)
      (fun r' k' => r' = r ∧ k'.file = k.file ∧ Fs.SameView s k'.fs ∧
        k'.fs.Only ip ∧ (k'.fs.icache ip).inum = (s.icache ip).inum)
      (fun _ => True) { k with fs := s } := by
  unfold onFs
  simp only [wp_bind, wp_zoom, wp_pure]
  apply wp_post (Fs.wp_iunlock_view hheld (fun _ => trivial))
  rintro _ s1 ⟨hview1, hheld1, hinum1⟩
  apply wp_post (Fs.wp_endOp_view (fun _ => trivial))
  rintro _ s2 ⟨hview2, hslots2⟩
  refine ⟨trivial, trivial, hview1.trans hview2, ?_, ?_⟩
  · apply hheld1.only.congr hview2.sb
    intro jp
    rw [hslots2]
    exact ⟨rfl, rfl⟩
  · show (s2.icache ip).inum = _
    rw [hslots2, hinum1]

theorem wp_filewriteOp (h : k.OpenInode f ip) (cur : Pslot)
    (src : Nat -> UInt8) {n : Nat} (hpos : 0 < n) (hn : n < 2 ^ 31) :
    wp (filewriteOp cur f ip src n)
      (fun r k' => PieceEnd k k' f ip src n r) (fun _ => True) k := by
  unfold filewriteOp pidOf onFs
  simp only [wp_bind, wp_gets, wp_zoom]
  apply wp_post (Fs.wp_beginOp_view trivial)
  rintro _ s1 ⟨hview1, hslots1⟩
  have honly1 : s1.Only ip := by
    apply h.only.congr hview1.sb
    intro jp
    rw [hslots1]
    exact ⟨rfl, rfl⟩
  apply wp_post (Fs.wp_ilock_view honly1 (fun _ => trivial))
  rintro _ s2 ⟨hview2, hheld2, hinum2⟩
  have hview := hview1.trans hview2
  have hdin : k.din ip = (s2.icache ip).din := by
    unfold din
    rw [← hheld2.dinode_eq, hview.dinode, hinum2, hslots1]
  have hcontent : k.contentOf ip = (s2.icache ip).din.content s2.disk := by
    unfold contentOf
    rw [hdin, hview.disk]
  have hsize : (UInt32.ofNat n).toNat = n :=
    UInt32.toNat_ofNat_of_lt (by lia)
  apply wp_post (Fs.wp_writei_end (k.proc cur).pid src hheld2
    (hview.own h.own) (hdin ▸ h.type) (by rw [hsize]; exact hn))
  intro r s3 hend
  rw [hsize] at hend
  -- what the transaction leaves, once the offset is known
  have hfinish : forall file : Fslot -> File, (file f).ip = ip ->
      (r = -1 -> (file f).off = (k.file f).off) ->
      (r = n -> (file f).off = (k.file f).off + UInt32.ofNat n) ->
      wp (do
          onFs (Fs.iunlock (k.proc cur).pid ip)
          onFs Fs.endOp
          pure r)
        (fun r k' => PieceEnd k k' f ip src n r) (fun _ => True)
        { k with fs := s3, file := file } := by
    intro file hslot hsame hmoved
    refine wp_post (wp_unlocked (k := { k with file := file }) hend.held
      (k.proc cur).pid r) ?_
    rintro _ k' ⟨rfl, hfile, hview', honly, hinum⟩
    have hdin' : k'.din ip = (s3.icache ip).din := by
      unfold din
      rw [hview'.dinode, hinum, hend.held.dinode_eq]
    have hcontent' : k'.contentOf ip =
        (s3.icache ip).din.content s3.disk := by
      unfold contentOf
      rw [hdin', hview'.disk]
    constructor
    · refine ⟨by rw [hfile]; exact hslot, honly, hview'.own hend.own, ?_⟩
      rw [hdin', hend.type, ← hdin]
      exact h.type
    · rw [hdin', hend.type, hdin]
    · intro hdev
      rw [hdin] at hdev
      have hsame3 := hend.device hdev
      have hdin3 : (s3.icache ip).din = (s2.icache ip).din := by
        rw [← hend.held.dinode_eq, hsame3.dinode, hend.inum,
          hheld2.dinode_eq]
      rw [hdin', hdin, hcontent', hcontent, hdin3, hsame3.disk]
      exact ⟨rfl, rfl⟩
    · intro hno
      rw [hdin] at hno
      rcases hend.refused hno with ⟨rfl, rfl⟩
      rw [hfile, hcontent', hcontent]
      exact ⟨rfl, hsame rfl, rfl⟩
    · intro hyes
      rw [hdin] at hyes
      have hr := hend.taken hyes
      rw [hfile]
      exact ⟨hr, hmoved hr⟩
    · intro hdev hyes
      rw [hdin] at hdev hyes
      rw [hcontent', hcontent]
      exact hend.content hdev hyes
  rw [wp_ite]
  constructor
  · intro hr
    rw [wp_bind]
    apply wp_modify.mpr
    refine hfinish _ ?_ ?_ ?_
    · rw [Function.update_self]
      exact h.slot
    · intro hr'
      lia
    · rintro rfl
      rw [Function.update_self]
      rfl
  · intro hr
    refine hfinish k.file h.slot (fun _ => rfl) ?_
    intro hr'
    lia

end Piece

/-!
## The loop
-/

/-- A write of `n` bytes that began in `k₀` has stored `i` of them. -/
structure Progress (k₀ k : Kernel) (f : Fslot) (ip : Slot)
    (src : Nat -> UInt8) (n i : Nat) : Prop where
  opened : k.OpenInode f ip
  type : (k.din ip).type = (k₀.din ip).type
  off : (k.file f).off = (k₀.file f).off + UInt32.ofNat i
  device : (k₀.din ip).type = T_DEV ->
    (k.din ip).major = (k₀.din ip).major ∧ k.contentOf ip = k₀.contentOf ip ∧
      (0 < i -> ¬ Fs.noDevice (k₀.din ip).major)
  content : (k₀.din ip).type ≠ T_DEV ->
    k.contentOf ip =
      Fs.splice (k₀.contentOf ip) src (k₀.file f).off.toNat i
  fits : (k₀.din ip).type ≠ T_DEV -> 0 < i ->
    (k₀.file f).off.toNat ≤ (k₀.din ip).size.toNat ∧
      (k₀.file f).off.toNat + i ≤ MAXFILE * BSIZE
  first : 0 < i -> min n writeMax ≤ i

def Refused (k₀ : Kernel) (f : Fslot) (ip : Slot) (n i : Nat) : Prop :=
  if (k₀.din ip).type = T_DEV then
    Fs.noDevice (k₀.din ip).major
  else
    (k₀.din ip).size.toNat < (k₀.file f).off.toNat ∨
      MAXFILE * BSIZE < (k₀.file f).off.toNat + i + min (n - i) writeMax

section Loop

variable {k₀ k : Kernel} {f : Fslot} {ip : Slot} {src : Nat -> UInt8}
variable {n i : Nat}

theorem OpenInode.progress (h : k₀.OpenInode f ip) :
    Progress k₀ k₀ f ip src n 0 where
  opened := h
  type := rfl
  off := (UInt32.add_zero _).symm
  device := fun _ => ⟨rfl, rfl, fun hpos => absurd hpos (Nat.lt_irrefl 0)⟩
  content := fun _ => (Fs.splice_zero _ _ _).symm
  fits := fun _ hpos => absurd hpos (Nat.lt_irrefl 0)
  first := fun hpos => absurd hpos (Nat.lt_irrefl 0)

theorem Progress.off_toNat (h : Progress k₀ k f ip src n i)
    (hfile : (k₀.din ip).type ≠ T_DEV) :
    (k.file f).off.toNat = (k₀.file f).off.toNat + i := by
  rw [h.off]
  rcases Nat.eq_zero_or_pos i with rfl | hpos
  · rw [show UInt32.ofNat 0 = 0 from rfl, UInt32.add_zero, Nat.add_zero]
  · have hbig : MAXFILE * BSIZE < 2 ^ 32 := by decide
    have hfits := (h.fits hfile hpos).2
    rw [UInt32.toNat_add, UInt32.toNat_ofNat_of_lt' (by lia),
      Nat.mod_eq_of_lt (by lia)]

theorem Progress.accepts_iff (h : Progress k₀ k f ip src n i) :
    Fs.Accepts (k.din ip) (k.file f).off.toNat (min (n - i) writeMax) ↔
      ¬ Refused k₀ f ip n i := by
  unfold Fs.Accepts Refused
  rw [h.type]
  rcases eq_or_ne (k₀.din ip).type T_DEV with hdev | hfile
  · rw [if_pos hdev, if_pos hdev, (h.device hdev).1]
  · rw [if_neg hfile, if_neg hfile, h.off_toNat hfile, ← k.contentOf_length,
      h.content hfile, ← k₀.contentOf_length]
    rcases Nat.lt_or_ge (k₀.contentOf ip).length (k₀.file f).off.toNat with
      hpast | hoff
    · refine iff_of_false ?_ (fun hno => hno (.inl hpast))
      rcases Nat.eq_zero_or_pos i with rfl | hpos
      · rw [Fs.splice_zero]
        lia
      · have hfits := (h.fits hfile hpos).1
        rw [← k₀.contentOf_length] at hfits
        lia
    · rw [Fs.splice_length _ _ _ hoff]
      lia

theorem Progress.next (h : Progress k₀ k f ip src n i) (hi : i < n)
    (htaken : ¬ Refused k₀ f ip n i) {k' : Kernel} {r : Int}
    (hend : PieceEnd k k' f ip (fun j => src (i + j)) (min (n - i) writeMax) r) :
    Progress k₀ k' f ip src n (i + min (n - i) writeMax) := by
  have hmax : 0 < writeMax := by decide
  have haccepts := h.accepts_iff.mpr htaken
  unfold Refused at htaken
  constructor
  · exact hend.opened
  · exact hend.type.trans h.type
  · rw [(hend.taken haccepts).2, h.off, UInt32.add_assoc]
    congr 1
    exact (UInt32.ofNat_add _ _).symm
  · intro hdev
    rw [if_pos hdev] at htaken
    rcases h.device hdev with ⟨hmajor, hcontent, _⟩
    rcases hend.device (h.type.trans hdev) with ⟨hmajor', hcontent'⟩
    exact ⟨hmajor'.trans hmajor, hcontent'.trans hcontent, fun _ => htaken⟩
  · intro hfile
    rw [if_neg hfile, ← k₀.contentOf_length] at htaken
    rw [hend.content (by rw [h.type]; exact hfile) haccepts,
      h.content hfile, h.off_toNat hfile,
      Fs.splice_splice _ _ _ _ (by lia)]
  · intro hfile _
    rw [if_neg hfile] at htaken
    lia
  · intro _
    rcases Nat.eq_zero_or_pos i with rfl | hpos
    · lia
    · have hfirst := h.first hpos
      lia

theorem Progress.stay (h : Progress k₀ k f ip src n i)
    (hrefused : Refused k₀ f ip n i) {k' : Kernel} {r : Int}
    (hend : PieceEnd k k' f ip (fun j => src (i + j)) (min (n - i) writeMax) r) :
    r = -1 ∧ Progress k₀ k' f ip src n i := by
  have hno : ¬ Fs.Accepts (k.din ip) (k.file f).off.toNat
      (min (n - i) writeMax) :=
    fun haccepts => h.accepts_iff.mp haccepts hrefused
  rcases hend.refused hno with ⟨hr, hoff, hcontent⟩
  refine ⟨hr, hend.opened, hend.type.trans h.type, hoff.trans h.off, ?_, ?_,
    h.fits, h.first⟩
  · intro hdev
    rcases h.device hdev with ⟨hmajor, hsame, hdriver⟩
    rcases hend.device (h.type.trans hdev) with ⟨hmajor', _⟩
    exact ⟨hmajor'.trans hmajor, hcontent.trans hsame, hdriver⟩
  · exact fun hfile => hcontent.trans (h.content hfile)

theorem wp_filewriteLoop (cur : Pslot) (hn : n < 2 ^ 31) (fuel : Nat)
    (hfuel : n ≤ fuel + i) (hi : i ≤ n) (h : Progress k₀ k f ip src n i) :
    wp (filewriteLoop cur f ip src n fuel i)
      (fun i' k' => Progress k₀ k' f ip src n i' ∧ i' ≤ n ∧
        (i' < n -> Refused k₀ f ip n i')) (fun _ => True) k := by
  induction fuel generalizing i k with
  | zero =>
      have hall : i = n := by lia
      exact ⟨h, hi, fun hlt => absurd hlt (by lia)⟩
  | succ fuel ih =>
      unfold filewriteLoop
      rw [wp_ite]
      constructor
      · intro hlt
        have hmax : 0 < writeMax := by decide
        rw [wp_bind]
        apply wp_post (wp_filewriteOp h.opened cur _ (by lia) (by lia))
        intro r k' hend
        rcases Classical.em (Refused k₀ f ip n i) with hrefused | htaken
        · rcases h.stay hrefused hend with ⟨rfl, h'⟩
          rw [if_pos (by decide)]
          exact ⟨h', hi, fun _ => hrefused⟩
        · have hr := (hend.taken (h.accepts_iff.mpr htaken)).1
          rw [if_neg (by lia), if_neg (not_not.mpr hr)]
          exact ih (by lia) (by lia) (h.next hlt htaken hend)
      · intro hge
        exact ⟨h, hi, fun hlt => absurd hlt hge⟩

end Loop

/-!
## What the call reports
-/

/-- The value that the call returns says what it has done: all bytes are stored,
or the file and the offset are as before. -/
structure Truthful (k k' : Kernel) (f : Fslot) (ip : Slot)
    (src : Nat -> UInt8) (n : Nat) (r : Int) : Prop where
  done : r = n -> (k'.file f).off = (k.file f).off + UInt32.ofNat n ∧
    ((k.din ip).type ≠ T_DEV ->
      ((k'.contentOf ip).drop (k.file f).off.toNat).take n =
          (List.range n).map src ∧
        k'.contentOf ip =
          Fs.splice (k.contentOf ip) src (k.file f).off.toNat n)
  failed : r = -1 -> (k'.file f).off = (k.file f).off ∧
    k'.contentOf ip = k.contentOf ip ∧ (k'.din ip).size = (k.din ip).size

/-- The first piece of a write fits in the file, but not all of it. -/
def Straddles (k : Kernel) (f : Fslot) (ip : Slot) (n : Nat) : Prop :=
  (k.din ip).type ≠ T_DEV ∧
    (k.file f).off.toNat ≤ (k.din ip).size.toNat ∧
      (k.file f).off.toNat + min n writeMax ≤ MAXFILE * BSIZE ∧
        MAXFILE * BSIZE < (k.file f).off.toNat + n

section Report

variable {k k' : Kernel} {f : Fslot} {ip : Slot} {src : Nat -> UInt8}
variable {n i : Nat}

theorem Progress.truthful (h : Progress k k' f ip src n n) :
    Truthful k k' f ip src n n := by
  refine ⟨fun _ => ⟨h.off, fun hfile => ⟨?_, h.content hfile⟩⟩,
    fun hr => absurd hr (by lia)⟩
  rcases Nat.eq_zero_or_pos n with rfl | hpos
  · rw [List.take_zero]
    rfl
  · have hoff := (h.fits hfile hpos).1
    rw [← k.contentOf_length] at hoff
    rw [h.content hfile]
    exact Fs.splice_window _ _ _ hoff

theorem Progress.failed_iff (h : Progress k k' f ip src n i) (hi : i < n)
    (hn : n < 2 ^ 31) : Truthful k k' f ip src n (-1) ↔ i = 0 := by
  constructor
  · intro htruth
    have hoff := (htruth.failed rfl).1
    rw [h.off] at hoff
    have hzero : UInt32.ofNat i = 0 := by lia
    have hnat := congrArg UInt32.toNat hzero
    rw [UInt32.toNat_ofNat_of_lt' (by lia)] at hnat
    exact hnat
  · rintro rfl
    have hcontent : k'.contentOf ip = k.contentOf ip := by
      rcases eq_or_ne (k.din ip).type T_DEV with hdev | hfile
      · exact (h.device hdev).2.1
      · rw [h.content hfile, Fs.splice_zero]
    refine ⟨fun hr => absurd hr (by lia), fun _ => ⟨?_, hcontent, ?_⟩⟩
    · rw [h.off]
      exact UInt32.add_zero _
    · apply UInt32.toNat_inj.mp
      rw [← k'.contentOf_length, ← k.contentOf_length, hcontent]

theorem Progress.stopped_iff (h : Progress k k' f ip src n i) (hi : i < n)
    (hrefused : Refused k f ip n i) : i = 0 ↔ ¬ Straddles k f ip n := by
  unfold Refused at hrefused
  constructor
  · rintro rfl ⟨hfile, hoff, hfirst, _⟩
    rw [if_neg hfile] at hrefused
    lia
  · intro hno
    apply by_contradiction
    intro hpos
    have hpos : 0 < i := Nat.pos_of_ne_zero hpos
    rcases eq_or_ne (k.din ip).type T_DEV with hdev | hfile
    · rw [if_pos hdev] at hrefused
      exact (h.device hdev).2.2 hpos hrefused
    · rw [if_neg hfile] at hrefused
      have hfits := h.fits hfile hpos
      have hfirst := h.first hpos
      exact hno ⟨hfile, hfits.1, by lia, by lia⟩

theorem not_straddles_of_done (h : Progress k k' f ip src n n) :
    ¬ Straddles k f ip n := by
  rintro ⟨hfile, hoff, hfirst, hpast⟩
  rcases Nat.eq_zero_or_pos n with rfl | hpos
  · lia
  · have hfits := h.fits hfile hpos
    lia

end Report

/-- A call of `filewrite` on an open inode that returns tells the truth, unless
its first piece fits in the file and not all of it does. -/
theorem filewrite_truthful_iff {k k' : Kernel} {f : Fslot} {ip : Slot}
    (hopen : k.OpenInode f ip) (htype : (k.file f).type = .FD_INODE)
    (hwritable : (k.file f).writable = true) (cur : Pslot)
    (src : Nat -> UInt8) {n : Int32} (hn : 0 ≤ n.toInt) {r : Int}
    (hrun : filewrite cur f src n k = .ok (r, k')) :
    Truthful k k' f ip src n.toInt.toNat r ↔
      ¬ Straddles k f ip n.toInt.toNat := by
  have hlt : n.toInt.toNat < 2 ^ 31 := by
    have hbound := n.toInt_lt
    lia
  have hwp : wp (filewrite cur f src n)
      (fun r k' => Truthful k k' f ip src n.toInt.toNat r ↔
        ¬ Straddles k f ip n.toInt.toNat) (fun _ => True) k := by
    unfold filewrite
    rw [wp_bind, wp_gets, if_neg (by rw [hwritable]; decide)]
    simp only [htype, hopen.slot, wp_bind, wp_pure]
    apply wp_post (wp_filewriteLoop cur hlt n.toInt.toNat (by lia)
      (Nat.zero_le _) hopen.progress)
    rintro i k' ⟨hprogress, hle, hrefused⟩
    rcases Nat.lt_or_ge i n.toInt.toNat with hless | hge
    · rw [if_neg (by lia), hprogress.failed_iff hless hlt]
      exact hprogress.stopped_iff hless (hrefused hless)
    · have hall : i = n.toInt.toNat := by lia
      subst hall
      rw [if_pos (by lia)]
      refine iff_of_true ?_ (not_straddles_of_done hprogress)
      have hcast : n.toInt = (n.toInt.toNat : Int) := by lia
      rw [hcast]
      exact hprogress.truthful
  have hreport := wp_ok hwp hrun
  exact hreport

end Kernel

/-!
## A file of the largest size

The blocks of the file are those from 59 on, the indirect block is the one after
the direct ones.
-/

namespace Fs

def fullDin : Dinode :=
  { Dinode.zero with
    type := T_FILE
    nlink := 1
    size := 71680
    addrs := fun k => UInt32.ofNat (59 + k) }

def fullDisk : Nat -> Block := fun b =>
  if b = Superblock.mkfs.bmapstart then
    fun i => if i.val < 25 then 255 else 0
  else if b = 71 then
    fun i => Bytes.byteOf (72 + i.val / 4) (i.val % 4)
  else
    fun _ => 0

def fullFs : Fs where
  sb := Superblock.mkfs
  disk := fullDisk
  log :=
    { start := 2
      size := LOGSIZE
      outstanding := 0
      committing := false
      lh := { n := 0, block := fun _ => 0 } }
  icache := fun ip =>
    if ip = 0 then
      { inum := 2, ref := 1, lock := none, valid := true, din := fullDin }
    else
      { inum := 0, ref := 0, lock := none, valid := false, din := Dinode.zero }
  cons := fun _ => none

theorem fullFs_held : fullFs.Held 0 := by
  refine ⟨by decide, rfl, by decide, ?_⟩
  intro jp href _
  rcases eq_or_ne jp 0 with hzero | hne
  · exact hzero
  · have hslot : (fullFs.icache jp).ref = 0 := by
      simp only [fullFs, if_neg hne]
    rw [hslot] at href
    exact absurd href (by decide)

theorem fullFs_type {i : Nat} (hi : i < fullFs.sb.ninodes)
    (hti : (fullFs.dinode i).type ≠ 0) : i = 2 := by
  apply by_contradiction
  intro hne
  apply hti
  have hcached : fullFs.cached i = none := by
    apply List.find?_eq_none.mpr
    intro jp _
    rcases eq_or_ne jp 0 with rfl | hjp
    · simp [fullFs, Ne.symm hne]
    · simp [fullFs, hjp]
  have hblock : fullFs.disk (fullFs.sb.iblock i) = fun _ => 0 := by
    have hlt : fullFs.sb.iblock i < 58 := fullFs.sb.iblock_lt hi
    have hbmap : Superblock.mkfs.bmapstart = 58 := rfl
    show fullDisk _ = _
    unfold fullDisk
    rw [if_neg (by lia), if_neg (by lia)]
  unfold dinode
  rw [hcached]
  simp only [Superblock.dinodeAt, Dinode.ofBlock, hblock]
  simp [Bytes.le, Bytes.leOf, Bytes.get]

def fullIndex : Place -> Nat
  | .addr k => k
  | .entry j => NDIRECT + 1 + j

theorem fullIndex_inj {p q : Place} (h : fullIndex p = fullIndex q) : p = q := by
  cases p with
  | addr k =>
      cases q with
      | addr k' => exact congrArg Place.addr (Fin.ext h)
      | entry j =>
          have hk := k.isLt
          simp only [fullIndex] at h
          lia
  | entry j =>
      cases q with
      | addr k =>
          have hk := k.isLt
          simp only [fullIndex] at h
          lia
      | entry j' =>
          simp only [fullIndex] at h
          exact congrArg Place.entry (Fin.ext (by lia))

theorem fullIndex_lt (p : Place) : fullIndex p < 141 := by
  cases p with
  | addr k => exact k.isLt.trans (by decide)
  | entry j =>
      have hj : j.val < 128 := j.isLt
      show NDIRECT + 1 + j.val < 141
      lia

theorem fullFs_place (p : Place) :
    (fullFs.dinode 2).place fullFs.disk p = 59 + fullIndex p := by
  have hdin : fullFs.dinode 2 = fullDin := fullFs_held.dinode_eq
  rw [hdin]
  cases p with
  | addr k =>
      have hall : forall k : Fin (NDIRECT + 1),
          fullDin.place fullFs.disk (.addr k) = 59 + k := by
        decide
      exact hall k
  | entry j =>
      have hall : forall j : Fin NINDIRECT,
          fullDin.place fullFs.disk (.entry j) = 72 + j := by
        decide +kernel
      rw [hall j]
      show 72 + j.val = 59 + (NDIRECT + 1 + j.val)
      lia

theorem fullFs_own : fullFs.Own := by
  have hused : forall b, b < 200 ->
      fullFs.sb.bitAt fullFs.disk b = true := by
    decide +kernel
  have hdata : forall b, 59 ≤ b -> b < 200 -> fullFs.sb.IsData b := by
    intro b hlo hhi
    have hstart : fullFs.sb.datastart = 59 := rfl
    have hsize : fullFs.sb.size = 1000 := rfl
    unfold Superblock.IsData
    lia
  constructor
  · intro i p hi hti _
    rw [fullFs_type hi hti, fullFs_place]
    have hlt := fullIndex_lt p
    exact hdata _ (by lia) (by lia)
  · intro i p j q hi hj hti htj _ heq
    rw [fullFs_type hi hti, fullFs_type hj htj, fullFs_place,
      fullFs_place] at heq
    exact ⟨(fullFs_type hi hti).trans (fullFs_type hj htj).symm,
      fullIndex_inj (by lia)⟩
  · intro i p hi hti _
    rw [fullFs_type hi hti, fullFs_place]
    have hlt := fullIndex_lt p
    exact hused _ (by lia)
  · intro b hb hnot
    have hstart : fullFs.sb.datastart = 59 := rfl
    apply hused
    unfold Superblock.IsData at hnot
    lia

end Fs

namespace Kernel

/-- The file is open with an offset 1536 bytes before its end. -/
def fullKernel : Kernel :=
  { boot with
    fs := Fs.fullFs
    file := fun _ =>
      { type := .FD_INODE
        ref := 1
        readable := false
        writable := true
        pipe := 0
        ip := 0
        off := 70144 } }

theorem fullKernel_open : fullKernel.OpenInode 0 0 := by
  refine ⟨rfl, Fs.fullFs_held.only, Fs.fullFs_own, ?_⟩
  show (Fs.fullFs.dinode 2).type ≠ 0
  rw [show Fs.fullFs.dinode 2 = Fs.fullDin from Fs.fullFs_held.dinode_eq]
  decide

/-- The value that a call returned, with the offset and the first byte of the
last block of the file. -/
def fullRan (r : Except Stop (Int × Kernel)) :
    Option (Int × UInt32 × UInt8) :=
  match r with
  | .ok (r, k) => some (r, (k.file 0).off, (k.fs.disk 199).get 0)
  | .error _ => none

/-- A write of 1537 bytes returns `-1`, but 1536 of them are stored and the
offset has moved. -/
theorem filewrite_partial : exists k',
    fullKernel.OpenInode 0 0 ∧
      filewrite 0 0 (fun _ => 7) 1537 fullKernel = .ok (-1, k') ∧
        (k'.file 0).off = 71680 ∧ (k'.fs.disk 199).get 0 = 7 ∧
          (fullKernel.fs.disk 199).get 0 = 0 ∧
            ¬ Truthful fullKernel k' 0 0 (fun _ => 7) 1537 (-1) := by
  have hran : fullRan (filewrite 0 0 (fun _ => 7) 1537 fullKernel) =
      some (-1, 71680, 7) := by
    decide +kernel
  cases hrun : filewrite 0 0 (fun _ => 7) 1537 fullKernel with
  | error e =>
      rw [hrun] at hran
      cases hran
  | ok res =>
      rcases res with ⟨r, k'⟩
      rw [hrun] at hran
      have hvalues := Option.some.inj hran
      have hr : r = -1 := congrArg Prod.fst hvalues
      have hoff : (k'.file 0).off = 71680 :=
        congrArg (fun x : Int × UInt32 × UInt8 => x.2.1) hvalues
      have hbyte : (k'.fs.disk 199).get 0 = 7 :=
        congrArg (fun x : Int × UInt32 × UInt8 => x.2.2) hvalues
      subst hr
      refine ⟨k', fullKernel_open, rfl, hoff, hbyte, by decide +kernel, ?_⟩
      intro htruth
      have hsame := (htruth.failed rfl).1
      rw [hoff] at hsame
      exact absurd hsame (by decide)

/-- The file is open with its offset at the start. -/
def rewoundKernel : Kernel :=
  { fullKernel with
    file := fun f => { fullKernel.file f with off := 0 } }

theorem rewoundKernel_open : rewoundKernel.OpenInode 0 0 :=
  { fullKernel_open with }

/-- A write in two pieces. -/
theorem filewrite_truthful_two : exists k',
    filewrite 0 0 (fun _ => 7) 2000 rewoundKernel = .ok (2000, k') ∧
      Truthful rewoundKernel k' 0 0 (fun _ => 7) 2000 2000 := by
  have hvalue : value? (filewrite 0 0 (fun _ => 7) 2000 rewoundKernel) =
      some 2000 := by
    decide +kernel
  rcases value?_eq_some hvalue with ⟨k', hrun⟩
  refine ⟨k', hrun, (filewrite_truthful_iff rewoundKernel_open rfl rfl 0
    (fun _ => 7) (n := 2000) (by decide) hrun).mpr ?_⟩
  rintro ⟨_, _, _, hpast⟩
  exact absurd hpast (by decide)

end Kernel
end Xv6
