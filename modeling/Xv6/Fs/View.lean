import Xv6.Fs.Refine

/-!
# What the file system shows

Locking and unlocking an inode and entering and leaving a transaction change
neither the blocks nor the inodes as the file system sees them: a copy that
`ilock` reads shows what the disk showed.
-/

namespace Xv6
namespace Fs

open Lib Lib.Run

/-- The slot is the only entry of its inode. -/
structure Only (s : Fs) (ip : Slot) : Prop where
  ref_pos : 0 < (s.icache ip).ref
  inum_lt : (s.icache ip).inum < s.sb.ninodes
  unique : forall jp, 0 < (s.icache jp).ref ->
    (s.icache jp).inum = (s.icache ip).inum -> jp = ip

theorem Only.congr {s s' : Fs} {ip : Slot} (h : s.Only ip)
    (hsb : s'.sb = s.sb)
    (hslot : forall jp, (s'.icache jp).ref = (s.icache jp).ref ∧
      (s'.icache jp).inum = (s.icache jp).inum) : s'.Only ip := by
  constructor
  · rw [(hslot ip).1]
    exact h.ref_pos
  · rw [(hslot ip).2, hsb]
    exact h.inum_lt
  · intro jp href hinum
    rw [(hslot jp).1] at href
    rw [(hslot jp).2, (hslot ip).2] at hinum
    exact h.unique jp href hinum

theorem Held.only {s : Fs} {ip : Slot} (h : s.Held ip) : s.Only ip :=
  ⟨h.ref_pos, h.inum_lt, h.unique⟩

theorem Only.held {s : Fs} {ip : Slot} (h : s.Only ip)
    (hvalid : (s.icache ip).valid = true) : s.Held ip :=
  ⟨h.ref_pos, hvalid, h.inum_lt, h.unique⟩

structure SameView (s s' : Fs) : Prop where
  sb : s'.sb = s.sb
  disk : s'.disk = s.disk
  dinode : forall i, s'.dinode i = s.dinode i

theorem SameView.refl (s : Fs) : SameView s s :=
  ⟨rfl, rfl, fun _ => rfl⟩

theorem SameView.trans {s s' s'' : Fs} (h : SameView s s')
    (h' : SameView s' s'') : SameView s s'' :=
  ⟨h'.sb.trans h.sb, h'.disk.trans h.disk,
    fun i => (h'.dinode i).trans (h.dinode i)⟩

theorem SameView.own {s s' : Fs} (h : SameView s s') (hown : s.Own) :
    s'.Own := by
  apply hown.congr s' h.sb
  · intro i _
    rw [h.dinode]
  · intro i p _ _
    rw [h.dinode, h.disk]
  · intro c _ hbit
    rw [h.disk]
    exact hbit

theorem sameView_of_icache {s s' : Fs} (hsb : s'.sb = s.sb)
    (hdisk : s'.disk = s.disk)
    (hslot : forall ip, (s'.icache ip).ref = (s.icache ip).ref ∧
      (s'.icache ip).inum = (s.icache ip).inum ∧
      (s'.icache ip).valid = (s.icache ip).valid ∧
      (s'.icache ip).din = (s.icache ip).din) : SameView s s' := by
  refine ⟨hsb, hdisk, fun i => ?_⟩
  have hcached : s'.cached i = s.cached i := by
    unfold cached
    congr 1
    funext ip
    rcases hslot ip with ⟨href, hinum, hvalid, _⟩
    rw [href, hinum, hvalid]
  unfold dinode
  rw [hcached, hsb, hdisk]
  cases s.cached i with
  | none => rfl
  | some ip => exact (hslot ip).2.2.2

section Steps

variable {s : Fs} {ip : Slot} {pid : Int32} {E : Stop -> Prop}

theorem wp_beginOp_view (hE : E .sleep) :
    wp beginOp
      (fun _ s' => SameView s s' ∧ s'.icache = s.icache) E s := by
  unfold wp beginOp
  cases hlog : s.log.beginOp with
  | none => exact hE
  | some log => exact ⟨⟨rfl, rfl, fun _ => rfl⟩, rfl⟩

theorem wp_endOp_view (hE : forall e, E e) :
    wp endOp
      (fun _ s' => SameView s s' ∧ s'.icache = s.icache) E s := by
  unfold wp endOp
  cases hlog : s.log.endOp with
  | error e => exact hE e
  | ok r =>
      rcases r with ⟨last, log⟩
      cases last with
      | true | false => exact ⟨⟨rfl, rfl, fun _ => rfl⟩, rfl⟩

end Steps

/-!
## Slots
-/

def putSlot (s : Fs) (ip : Slot) (i : Inode) : Fs :=
  { s with icache := Function.update s.icache ip i }

section Slots

variable {s : Fs} {ip : Slot} {i : Inode}

@[simp] theorem putSlot_self : (s.putSlot ip i).icache ip = i :=
  Function.update_self ..

theorem putSlot_of_ne {jp : Slot} (h : jp ≠ ip) :
    (s.putSlot ip i).icache jp = s.icache jp :=
  Function.update_of_ne h _ _

theorem Only.putSlot (h : s.Only ip) (href : i.ref = (s.icache ip).ref)
    (hinum : i.inum = (s.icache ip).inum) : (s.putSlot ip i).Only ip := by
  refine h.congr ?_ ?_
  · rfl
  intro jp
  rcases eq_or_ne jp ip with rfl | hne
  · rw [putSlot_self]
    exact ⟨href, hinum⟩
  · rw [putSlot_of_ne hne]
    exact ⟨rfl, rfl⟩

theorem sameView_lock (s : Fs) (ip : Slot) (lock : Option Int32) :
    SameView s (s.putSlot ip { s.icache ip with lock := lock }) := by
  refine sameView_of_icache ?_ ?_ ?_
  · rfl
  · rfl
  intro jp
  rcases eq_or_ne jp ip with rfl | hne
  · rw [putSlot_self]
    exact ⟨rfl, rfl, rfl, rfl⟩
  · rw [putSlot_of_ne hne]
    exact ⟨rfl, rfl, rfl, rfl⟩

theorem Only.dinode_eq (h : s.Only ip) (hnot : (s.icache ip).valid = false) :
    s.dinode (s.icache ip).inum =
      s.sb.dinodeAt s.disk (s.icache ip).inum := by
  have hnone : s.cached (s.icache ip).inum = none := by
    apply List.find?_eq_none.mpr
    intro jp _ hjp
    rcases of_decide_eq_true hjp with ⟨hpos, hvalid, hinum⟩
    rw [h.unique jp hpos hinum, hnot] at hvalid
    cases hvalid
  unfold dinode
  rw [hnone]

theorem sameView_read (h : s.Only ip) (hnot : (s.icache ip).valid = false)
    (hinum : i.inum = (s.icache ip).inum) (href : i.ref = (s.icache ip).ref)
    (hvalid : i.valid = true)
    (hdin : i.din = s.sb.dinodeAt s.disk (s.icache ip).inum) :
    SameView s (s.putSlot ip i) := by
  refine ⟨rfl, rfl, fun n => ?_⟩
  have hheld : (s.putSlot ip i).Held ip := by
    apply (h.putSlot href hinum).held
    rw [putSlot_self, hvalid]
  rcases eq_or_ne n (s.icache ip).inum with rfl | hne
  · have hnew := hheld.dinode_eq
    rw [putSlot_self, hinum] at hnew
    rw [hnew, hdin, h.dinode_eq hnot]
  · have hcached : (s.putSlot ip i).cached n = s.cached n := by
      unfold cached
      congr 1
      funext jp
      rcases eq_or_ne jp ip with rfl | hjp
      · rw [putSlot_self, hinum]
        simp [hne.symm]
      · rw [putSlot_of_ne hjp]
    unfold dinode
    rw [hcached]
    cases hfind : s.cached n with
    | none => rfl
    | some jp =>
        have hjp : jp ≠ ip := by
          rintro rfl
          have hprop := List.find?_some hfind
          exact hne (of_decide_eq_true hprop).2.2.symm
        show ((s.putSlot ip i).icache jp).din = _
        rw [putSlot_of_ne hjp]

end Slots

section Locks

variable {s : Fs} {ip : Slot} {pid : Int32} {E : Stop -> Prop}

theorem wp_acquiresleep (hE : forall e, E e) :
    wp (acquiresleep pid ip)
      (fun _ s' => s' = s.putSlot ip { s.icache ip with lock := some pid }) E
      s := by
  unfold acquiresleep
  simp only [inode, wp_bind, wp_gets]
  cases hlock : (s.icache ip).lock with
  | some holder => exact hE _
  | none => exact wp_modify.mpr rfl

theorem wp_ilock_view (h : s.Only ip) (hE : forall e, E e) :
    wp (ilock pid ip)
      (fun _ s' => SameView s s' ∧ s'.Held ip ∧
        (s'.icache ip).inum = (s.icache ip).inum) E s := by
  unfold ilock
  simp only [inode, wp_bind, wp_gets, wp_ite]
  refine ⟨fun _ => hE _, fun _ => ?_⟩
  apply wp_post (wp_acquiresleep hE)
  rintro _ t rfl
  let i : Inode := { s.icache ip with lock := some pid }
  have hview : SameView s (s.putSlot ip i) := sameView_lock s ip (some pid)
  have honly : (s.putSlot ip i).Only ip := h.putSlot rfl rfl
  have hinum : ((s.putSlot ip i).icache ip).inum = (s.icache ip).inum := by
    rw [putSlot_self]
  constructor
  · intro hvalid
    exact ⟨hview, honly.held hvalid, hinum⟩
  · intro hvalid
    have hnot : ((s.putSlot ip i).icache ip).valid = false :=
      Bool.eq_false_iff.mpr hvalid
    apply wp_modify.mpr
    let di := s.sb.dinodeAt s.disk ((s.putSlot ip i).icache ip).inum
    let i' : Inode := { (s.putSlot ip i).icache ip with
      din := di, valid := true }
    have hview' : SameView (s.putSlot ip i)
        ((s.putSlot ip i).putSlot ip i') :=
      sameView_read honly hnot rfl rfl rfl rfl
    have honly' : ((s.putSlot ip i).putSlot ip i').Only ip :=
      honly.putSlot rfl rfl
    refine ⟨fun _ => hE _, fun _ => ?_⟩
    refine ⟨hview.trans hview', honly'.held ?_, ?_⟩
    · rw [putSlot_self]
    · show (((s.putSlot ip i).putSlot ip i').icache ip).inum = _
      rw [putSlot_self]
      exact hinum

theorem wp_iunlock_view (h : s.Held ip) (hE : forall e, E e) :
    wp (iunlock pid ip)
      (fun _ s' => SameView s s' ∧ s'.Held ip ∧
        (s'.icache ip).inum = (s.icache ip).inum) E s := by
  unfold iunlock releasesleep setInode
  simp only [inode, wp_bind, wp_gets, wp_ite]
  refine ⟨fun _ => hE _, fun _ => ?_⟩
  apply wp_modify.mpr
  have honly : (s.putSlot ip { s.icache ip with lock := none }).Only ip :=
    h.only.putSlot rfl rfl
  refine ⟨sameView_lock s ip none, honly.held ?_, ?_⟩
  · rw [putSlot_self]
    exact h.valid
  · show ((s.putSlot ip { s.icache ip with lock := none }).icache ip).inum = _
    rw [putSlot_self]

end Locks

end Fs
end Xv6
