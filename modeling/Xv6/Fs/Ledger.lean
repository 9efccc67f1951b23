import Xv6.Fs.Own
import Xv6.Fs.Sysfile

/-!
# What a call holds

Inode references, inode locks and open operations, split into what belongs to
everybody else and what the running call holds.  The others' part does not
change while the call runs, so the specification of a function only says how
it changes the call's part, and holds whatever else the call has.
-/

namespace Xv6
namespace Fs

open Lib Lib.Run

/-- What belongs to everybody but the running call. -/
structure Base where
  ref : Slot -> Int
  inum : Slot -> Nat
  valid : Slot -> Bool
  lock : Slot -> Option Int32
  outstanding : Int

/-- What the running call holds: references, locks, operations. -/
structure Ledger where
  refs : Multiset Slot
  locks : Multiset Slot
  ops : Nat

/-- The state is what the others have plus what the call holds.  A slot that
others refer to keeps its inode, and stays valid. -/
structure Holds (pid : Int32) (base : Base) (l : Ledger) (s : Fs) : Prop where
  ref : forall jp, (s.icache jp).ref = base.ref jp + (l.refs.count jp : Nat)
  lock : forall jp, (s.icache jp).lock =
    if jp ∈ l.locks then some pid else base.lock jp
  free : forall jp, jp ∈ l.locks -> base.lock jp = none
  nodup : l.locks.Nodup
  keep : forall jp, 0 < base.ref jp -> (s.icache jp).inum = base.inum jp ∧
    (base.valid jp = true -> (s.icache jp).valid = true)
  ops : s.log.outstanding = base.outstanding + l.ops

/-- The computation turns the ledger `l` into `l' r` if it returns `r`, whatever
belongs to the others. -/
abbrev Turns {α : Type} (pid : Int32) (m : FsM α) (l : Ledger)
    (l' : α -> Ledger) : Prop :=
  Run.Turns (Holds pid) m l l'

/-!
## Changes of the state
-/

section Changes

variable {pid : Int32} {base : Base} {l : Ledger} {s : Fs}

theorem Holds.congr (h : Holds pid base l s) (s' : Fs)
    (hcache : s'.icache = s.icache)
    (hlog : s'.log.outstanding = s.log.outstanding) : Holds pid base l s' := by
  constructor
  · intro jp
    rw [hcache]
    exact h.ref jp
  · intro jp
    rw [hcache]
    exact h.lock jp
  · exact h.free
  · exact h.nodup
  · intro jp hpos
    rw [hcache]
    exact h.keep jp hpos
  · rw [hlog]
    exact h.ops

theorem Holds.update (h : Holds pid base l s) (ip : Slot) (i : Inode)
    (l' : Ledger) (hrefs : forall jp, jp ≠ ip ->
      l'.refs.count jp = l.refs.count jp)
    (hlocks : forall jp, jp ≠ ip -> (jp ∈ l'.locks ↔ jp ∈ l.locks))
    (hops : l'.ops = l.ops) (hnodup : l'.locks.Nodup)
    (href : i.ref = base.ref ip + (l'.refs.count ip : Nat))
    (hlock : i.lock = if ip ∈ l'.locks then some pid else base.lock ip)
    (hfree : ip ∈ l'.locks -> base.lock ip = none)
    (hkeep : 0 < base.ref ip -> i.inum = base.inum ip ∧
      (base.valid ip = true -> i.valid = true)) :
    Holds pid base l' { s with icache := Function.update s.icache ip i } := by
  constructor
  · intro jp
    show (Function.update s.icache ip i jp).ref = _
    rcases eq_or_ne jp ip with rfl | hne
    · rw [Function.update_self]
      exact href
    · rw [Function.update_of_ne hne, hrefs jp hne]
      exact h.ref jp
  · intro jp
    show (Function.update s.icache ip i jp).lock = _
    rcases eq_or_ne jp ip with rfl | hne
    · rw [Function.update_self]
      exact hlock
    · rw [Function.update_of_ne hne, h.lock jp]
      simp only [hlocks jp hne]
  · intro jp hmem
    rcases eq_or_ne jp ip with rfl | hne
    · exact hfree hmem
    · exact h.free jp ((hlocks jp hne).mp hmem)
  · exact hnodup
  · intro jp hpos
    show (Function.update s.icache ip i jp).inum = _ ∧
      (_ -> (Function.update s.icache ip i jp).valid = true)
    rcases eq_or_ne jp ip with rfl | hne
    · rw [Function.update_self]
      exact hkeep hpos
    · rw [Function.update_of_ne hne]
      exact h.keep jp hpos
  · show s.log.outstanding = base.outstanding + l'.ops
    rw [hops]
    exact h.ops

theorem Holds.setSlot (h : Holds pid base l s) (ip : Slot) (di : Dinode)
    (v : Bool) (hv : (s.icache ip).valid = true -> v = true) :
    Holds pid base l
      { s with
        icache := Function.update s.icache ip
          { s.icache ip with din := di, valid := v } } :=
  h.update ip _ l (fun _ _ => rfl) (fun _ _ => Iff.rfl) rfl h.nodup
    (h.ref ip) (h.lock ip) (h.free ip)
    (fun hpos => ⟨(h.keep ip hpos).1, fun hb => hv ((h.keep ip hpos).2 hb)⟩)

theorem Holds.rebase (h : Holds pid base l s) (base' : Base) (l' : Ledger)
    (hlocks : l'.locks = l.locks) (hops : l'.ops = l.ops)
    (hlock : base'.lock = base.lock)
    (hout : base'.outstanding = base.outstanding)
    (hinum : base'.inum = fun jp => (s.icache jp).inum)
    (hvalid : base'.valid = fun _ => false)
    (href : forall jp, base'.ref jp + (l'.refs.count jp : Nat) =
      base.ref jp + (l.refs.count jp : Nat)) : Holds pid base' l' s := by
  constructor
  · intro jp
    rw [href jp]
    exact h.ref jp
  · intro jp
    rw [hlocks, hlock]
    exact h.lock jp
  · intro jp
    rw [hlocks, hlock]
    exact h.free jp
  · rw [hlocks]
    exact h.nodup
  · intro jp _
    rw [hinum, hvalid]
    exact ⟨rfl, fun hf => Bool.noConfusion hf⟩
  · rw [hops, hout]
    exact h.ops

theorem holds_of (pid : Int32) (r : Multiset Slot) (o : Nat) (s : Fs) :
    Holds pid
      { ref := fun jp => (s.icache jp).ref - (r.count jp : Nat)
        inum := fun jp => (s.icache jp).inum
        valid := fun jp => (s.icache jp).valid
        lock := fun jp => (s.icache jp).lock
        outstanding := s.log.outstanding - o } ⟨r, 0, o⟩ s := by
  constructor
  · intro jp
    simp
  · intro jp
    show _ = if jp ∈ (0 : Multiset Slot) then _ else _
    rw [if_neg (Multiset.notMem_zero jp)]
  · exact fun jp hmem => absurd hmem (Multiset.notMem_zero jp)
  · exact Multiset.nodup_zero
  · exact fun jp _ => ⟨rfl, id⟩
  · simp

end Changes

/-!
## Blocks and the log
-/

section Blocks

variable {pid : Int32} (l : Ledger)

theorem turns_setDisk (f : Superblock -> (Nat -> Block) -> Nat -> Block) :
    Turns pid (setDisk f) l (fun _ => l) :=
  fun _ _ h => h.congr _ rfl rfl

theorem turns_setDin (ip : Slot) (f : Dinode -> Dinode) :
    Turns pid (setDin ip f) l (fun _ => l) :=
  fun _ s h => h.setSlot ip (f (s.icache ip).din) _ id

theorem outstanding_of_logWrite {log log' : Log} {b : UInt32}
    (h : log.logWrite b = .ok log') : log'.outstanding = log.outstanding := by
  unfold Log.logWrite at h
  cases htest : log.logWriteTest with
  | ok _ =>
      rw [htest] at h
      cases h
      rfl
  | error e =>
      rw [htest] at h
      cases h

theorem turns_logWrite (b : Nat) : Turns pid (logWrite b) l (fun _ => l) := by
  intro base s h
  apply wp_logWrite
  · intro log hlog
    exact h.congr _ rfl (outstanding_of_logWrite hlog)
  · exact fun _ _ => trivial

theorem turns_bzero (b : Nat) : Turns pid (bzero b) l (fun _ => l) :=
  Turns.bind (turns_setDisk l _) (fun _ => turns_logWrite l b)

theorem turns_balloc : Turns pid balloc l (fun _ => l) := by
  apply Turns.bind (Turns.gets _ l)
  intro b
  cases b with
  | none => exact Turns.stop _ _ _
  | some b =>
      exact Turns.bind (turns_setDisk l _) (fun _ =>
        Turns.bind (Turns.gets _ l) (fun _ =>
          Turns.bind (turns_logWrite l _) (fun _ =>
            Turns.bind (turns_bzero l b) (fun _ => Turns.pure b rfl))))

theorem turns_bfree (b : Nat) : Turns pid (bfree b) l (fun _ => l) :=
  Turns.bind (Turns.gets _ l) (fun _ =>
    Turns.ite
      (Turns.bind (turns_setDisk l _) (fun _ =>
        Turns.bind (Turns.gets _ l) (fun _ => turns_logWrite l _)))
      (Turns.stop _ _ _))

theorem turns_iupdate (ip : Slot) : Turns pid (iupdate ip) l (fun _ => l) :=
  Turns.bind (Turns.gets _ l) (fun _ =>
    Turns.bind (turns_setDisk l _) (fun _ =>
      Turns.bind (Turns.gets _ l) (fun _ => turns_logWrite l _)))

theorem turns_itruncAddr (ip : Slot) (k : Fin (NDIRECT + 1)) :
    Turns pid (itruncAddr ip k) l (fun _ => l) :=
  Turns.bind (Turns.gets _ l) (fun _ =>
    Turns.ite (Turns.pure () rfl)
      (Turns.bind (turns_bfree l _) (fun _ => turns_setDin l ip _)))

theorem turns_itruncEntry (ind j : Nat) :
    Turns pid (itruncEntry ind j) l (fun _ => l) :=
  Turns.bind (Turns.gets _ l) (fun _ =>
    Turns.ite (Turns.pure () rfl) (turns_bfree l _))

theorem turns_itrunc (ip : Slot) : Turns pid (itrunc ip) l (fun _ => l) := by
  apply Turns.bind (Turns.forEach (fun _ => turns_itruncAddr l ip _) _)
  intro _
  apply Turns.bind (Turns.gets _ l)
  intro i
  have htail : Turns pid
      (do
        setDin ip (fun di => { di with size := 0 })
        iupdate ip) l (fun _ => l) :=
    Turns.bind (turns_setDin l ip _) (fun _ => turns_iupdate l ip)
  apply Turns.ite htail
  exact Turns.bind (Turns.forEach (fun _ => turns_itruncEntry l _ _) _)
    (fun _ => Turns.bind (turns_itruncAddr l ip _) (fun _ => htail))

theorem turns_bmapAddr (ip : Slot) (k : Fin (NDIRECT + 1)) :
    Turns pid (bmapAddr ip k) l (fun _ => l) :=
  Turns.bind (Turns.gets _ l) (fun _ =>
    Turns.ite
      (Turns.bind (turns_balloc l) (fun b =>
        Turns.bind (turns_setDin l ip _) (fun _ => Turns.pure b rfl)))
      (Turns.pure _ rfl))

theorem turns_bmapEntry (ind j : Nat) :
    Turns pid (bmapEntry ind j) l (fun _ => l) :=
  Turns.bind (Turns.gets _ l) (fun _ =>
    Turns.ite
      (Turns.bind (turns_balloc l) (fun b =>
        Turns.bind (turns_setDisk l _) (fun _ =>
          Turns.bind (turns_logWrite l ind) (fun _ => Turns.pure b rfl))))
      (Turns.pure _ rfl))

theorem turns_bmap (ip : Slot) (bn : Nat) :
    Turns pid (bmap ip bn) l (fun _ => l) := by
  unfold bmap
  rcases Nat.lt_or_ge bn NDIRECT with h | h
  · rw [dif_pos h]
    exact turns_bmapAddr l ip _
  · rw [dif_neg (Nat.not_lt.mpr h)]
    exact Turns.ite
      (Turns.bind (turns_bmapAddr l ip _) (fun _ => turns_bmapEntry l _ _))
      (Turns.stop _ _ _)

theorem turns_beginOp :
    Turns pid beginOp l (fun _ => { l with ops := l.ops + 1 }) := by
  intro base s h
  unfold wp beginOp
  cases hbegin : s.log.beginOp with
  | none => trivial
  | some log =>
      have hout : log.outstanding = s.log.outstanding + 1 := by
        unfold Log.beginOp at hbegin
        split at hbegin
        · cases hbegin
        · split at hbegin
          · cases hbegin
          · cases hbegin
            rfl
      exact ⟨h.ref, h.lock, h.free, h.nodup, h.keep, by
        rw [hout, h.ops]
        push_cast
        lia⟩

theorem turns_endOp : Turns pid endOp { l with ops := l.ops + 1 }
    (fun _ => l) := by
  intro base s h
  unfold wp endOp
  cases hend : s.log.endOp with
  | error e => trivial
  | ok r =>
      have hout : r.2.outstanding = s.log.outstanding - 1 := by
        unfold Log.endOp at hend
        simp only at hend
        split at hend
        · cases hend
        · split at hend
          · cases hend
            rfl
          · cases hend
            rfl
      have hops : s.log.outstanding - 1 = base.outstanding + l.ops := by
        rw [h.ops]
        push_cast
        lia
      rcases r with ⟨last, log⟩
      cases last with
      | true | false =>
          exact ⟨h.ref, h.lock, h.free, h.nodup, h.keep, hout.trans hops⟩

end Blocks

/-!
## The inode cache
-/

section Cache

variable {pid : Int32} (r k : Multiset Slot) (o : Nat)

theorem Holds.incRef {base : Base} {s : Fs}
    (h : Holds pid base ⟨r, k, o⟩ s) (ip : Slot) :
    Holds pid base ⟨ip ::ₘ r, k, o⟩
      { s with
        icache := Function.update s.icache ip
          { s.icache ip with ref := (s.icache ip).ref + 1 } } := by
  apply h.update ip
  · intro jp hne
    exact Multiset.count_cons_of_ne hne r
  · exact fun _ _ => Iff.rfl
  · rfl
  · exact h.nodup
  · show (s.icache ip).ref + 1 = _
    rw [h.ref ip, Multiset.count_cons_self]
    push_cast
    lia
  · exact h.lock ip
  · exact h.free ip
  · exact h.keep ip

theorem turns_idup (ip : Slot) :
    Turns pid (idup ip) ⟨r, k, o⟩ (fun jp => ⟨jp ::ₘ r, k, o⟩) :=
  fun _ _ h => h.incRef r k o ip

theorem turns_iget (inum : Nat) :
    Turns pid (iget inum) ⟨r, k, o⟩ (fun ip => ⟨ip ::ₘ r, k, o⟩) := by
  intro base s h
  unfold iget
  rw [wp_bind, wp_gets]
  cases (List.finRange NINODE).find?
      (fun ip => 0 < (s.icache ip).ref ∧ (s.icache ip).inum = inum) with
  | some ip => exact h.incRef r k o ip
  | none =>
      show wp _ _ _ s
      simp only [wp_bind, wp_gets]
      cases hfind : (List.finRange NINODE).find?
          (fun ip => (s.icache ip).ref = 0) with
      | none => trivial
      | some ip =>
          have hzero : (s.icache ip).ref = 0 := by
            simpa using List.find?_some hfind
          rw [h.ref ip] at hzero
          -- nobody refers to the recycled slot
          apply h.update ip
          · intro jp hne
            exact Multiset.count_cons_of_ne hne r
          · exact fun _ _ => Iff.rfl
          · rfl
          · exact h.nodup
          · show (1 : Int) = _
            rw [Multiset.count_cons_self]
            push_cast
            simp only at hzero
            lia
          · exact h.lock ip
          · exact h.free ip
          · intro hpos
            simp only at hzero
            lia

theorem turns_ialloc (type : UInt16) :
    Turns pid (ialloc type) ⟨r, k, o⟩ (fun ip => ⟨ip ::ₘ r, k, o⟩) := by
  apply Turns.bind (Turns.gets _ _)
  intro inum
  cases inum with
  | none => exact Turns.stop _ _ _
  | some inum =>
      exact Turns.bind (turns_setDisk _ _) (fun _ =>
        Turns.bind (Turns.gets _ _) (fun _ =>
          Turns.bind (turns_logWrite _ _) (fun _ => turns_iget r k o inum)))

theorem turns_acquiresleep (ip : Slot) :
    Turns pid (acquiresleep pid ip) ⟨r, k, o⟩ (fun _ => ⟨r, ip ::ₘ k, o⟩) := by
  intro base s h
  unfold acquiresleep inode
  rw [wp_bind, wp_gets]
  cases hlock : (s.icache ip).lock with
  | some holder => trivial
  | none =>
      have hnot : ip ∉ k := by
        intro hmem
        have hheld := h.lock ip
        rw [if_pos hmem, hlock] at hheld
        cases hheld
      apply h.update ip
      · exact fun _ _ => rfl
      · intro jp hne
        simp [hne]
      · rfl
      · exact Multiset.nodup_cons.mpr ⟨hnot, h.nodup⟩
      · exact h.ref ip
      · rw [if_pos (Multiset.mem_cons_self ip k)]
      · intro _
        have hbase := h.lock ip
        rw [if_neg hnot, hlock] at hbase
        exact hbase.symm
      · exact h.keep ip

theorem turns_releasesleep (ip : Slot) :
    Turns pid (releasesleep ip) ⟨r, ip ::ₘ k, o⟩ (fun _ => ⟨r, k, o⟩) := by
  intro base s h
  have hnodup := Multiset.nodup_cons.mp h.nodup
  have hmem : ip ∈ ip ::ₘ k := Multiset.mem_cons_self ip k
  apply h.update ip
  · exact fun _ _ => rfl
  · intro jp hne
    simp [hne]
  · rfl
  · exact hnodup.2
  · exact h.ref ip
  · rw [if_neg hnodup.1]
    exact (h.free ip hmem).symm
  · exact fun hk => absurd hk hnodup.1
  · exact h.keep ip

theorem turns_ilock (ip : Slot) :
    Turns pid (ilock pid ip) ⟨r, k, o⟩ (fun _ => ⟨r, ip ::ₘ k, o⟩) := by
  apply Turns.bind (Turns.gets _ _)
  intro i
  apply Turns.ite (Turns.stop _ _ _)
  apply Turns.bind (turns_acquiresleep r k o ip)
  intro _
  apply Turns.bind (Turns.gets _ _)
  intro i
  have hread : forall di, Turns pid
      (setInode ip (fun i => { i with din := di, valid := true }))
      ⟨r, ip ::ₘ k, o⟩ (fun _ => ⟨r, ip ::ₘ k, o⟩) :=
    fun di _ _ h => h.setSlot ip di true (fun _ => rfl)
  exact Turns.ite (Turns.pure () rfl)
    (Turns.bind (Turns.gets _ _) (fun di =>
      Turns.bind (hread di) (fun _ =>
        Turns.ite (Turns.stop _ _ _) (Turns.pure () rfl))))

theorem turns_iunlock (ip : Slot) :
    Turns pid (iunlock pid ip) ⟨r, ip ::ₘ k, o⟩ (fun _ => ⟨r, k, o⟩) :=
  Turns.bind (Turns.gets _ _) (fun _ =>
    Turns.ite (Turns.stop _ _ _) (turns_releasesleep r k o ip))

theorem Holds.decRef {base : Base} {s : Fs} {ip : Slot}
    (h : Holds pid base ⟨ip ::ₘ r, k, o⟩ s) :
    Holds pid base ⟨r, k, o⟩
      { s with
        icache := Function.update s.icache ip
          { s.icache ip with ref := (s.icache ip).ref - 1 } } := by
  apply h.update ip
  · intro jp hne
    exact (Multiset.count_cons_of_ne hne r).symm
  · exact fun _ _ => Iff.rfl
  · rfl
  · exact h.nodup
  · show (s.icache ip).ref - 1 = _
    rw [h.ref ip, Multiset.count_cons_self]
    push_cast
    lia
  · exact h.lock ip
  · exact h.free ip
  · exact h.keep ip

theorem Holds.invalid {base : Base} {l : Ledger} {s : Fs} {ip : Slot}
    (h : Holds pid base l s) (hbase : base.ref ip ≤ 0) :
    Holds pid base l
      { s with
        icache := Function.update s.icache ip
          { s.icache ip with valid := false } } :=
  h.update ip _ l (fun _ _ => rfl) (fun _ _ => Iff.rfl) rfl h.nodup
    (h.ref ip) (h.lock ip) (h.free ip) (fun hpos => by lia)

theorem turns_iput (ip : Slot) :
    Turns pid (iput pid ip) ⟨ip ::ₘ r, k, o⟩ (fun _ => ⟨r, k, o⟩) := by
  have htail : Turns pid
      (do
        releasesleep ip
        setInode ip (fun i => { i with ref := i.ref - 1 }))
      ⟨ip ::ₘ r, ip ::ₘ k, o⟩ (fun _ => ⟨r, k, o⟩) :=
    Turns.bind (turns_releasesleep _ k o ip)
      (fun _ _ _ h => h.decRef r k o)
  apply Turns.bind (turns_acquiresleep _ k o ip)
  intro _ base s h
  unfold inode
  rw [wp_bind, wp_gets]
  show wp (if _ then _ else _) _ _ s
  rw [wp_ite]
  constructor
  · rintro ⟨_, _, hone⟩
    have hbase : base.ref ip ≤ 0 := by
      have href := h.ref ip
      rw [hone, Multiset.count_cons_self] at href
      lia
    have hfree : Turns pid
        (do
          itrunc ip
          setDin ip (fun di => { di with type := 0 })
          iupdate ip)
        ⟨ip ::ₘ r, ip ::ₘ k, o⟩ (fun _ => ⟨ip ::ₘ r, ip ::ₘ k, o⟩) :=
      Turns.bind (turns_itrunc _ ip) (fun _ =>
        Turns.bind (turns_setDin _ ip _) (fun _ => turns_iupdate _ ip))
    have hdone := hfree base s h
    simp only [wp_bind] at hdone ⊢
    refine wp_post hdone (fun _ s1 h1 => ?_)
    refine wp_post h1 (fun _ s2 h2 => ?_)
    refine wp_post h2 (fun _ s3 h3 => ?_)
    have hlast := htail base _ (h3.invalid hbase)
    rw [wp_bind] at hlast
    exact hlast
  · intro _
    exact htail base s h

theorem turns_iunlockput (ip : Slot) :
    Turns pid (iunlockput pid ip) ⟨ip ::ₘ r, ip ::ₘ k, o⟩
      (fun _ => ⟨r, k, o⟩) :=
  Turns.bind (turns_iunlock _ k o ip) (fun _ => turns_iput r k o ip)

end Cache

/-!
## Contents and directories

The caller of these functions holds the lock of the inode; only the console
functions let go of it for a while.
-/

section Contents

variable {pid : Int32} (r k : Multiset Slot) (o : Nat) (ip : Slot)

theorem turns_consoleread (n : UInt32) :
    Turns pid (consoleread pid ip n) ⟨r, ip ::ₘ k, o⟩
      (fun _ => ⟨r, ip ::ₘ k, o⟩) := by
  apply Turns.bind (turns_iunlock r k o ip)
  intro _
  apply Turns.bind (Turns.gets _ _)
  intro res
  cases res with
  | none => exact Turns.stop _ _ _
  | some res =>
      exact Turns.bind (turns_ilock r k o ip) (fun _ => Turns.pure res rfl)

theorem turns_consolewrite (n : UInt32) :
    Turns pid (consolewrite pid ip n) ⟨r, ip ::ₘ k, o⟩
      (fun _ => ⟨r, ip ::ₘ k, o⟩) :=
  Turns.bind (turns_iunlock r k o ip) (fun _ =>
    Turns.bind (turns_ilock r k o ip) (fun _ => Turns.pure _ rfl))

theorem turns_readiLoop (l : Ledger) (fuel off n : Nat) :
    Turns pid (readiLoop ip fuel off n) l (fun _ => l) := by
  induction fuel generalizing off n with
  | zero => exact Turns.pure [] rfl
  | succ fuel ih =>
      exact Turns.ite (Turns.pure [] rfl)
        (Turns.bind (turns_bmap l ip _) (fun _ =>
          Turns.bind (Turns.gets _ l) (fun _ =>
            Turns.bind (ih _ _) (fun _ => Turns.pure _ rfl))))

theorem turns_readi (off n : UInt32) :
    Turns pid (readi pid ip off n) ⟨r, ip ::ₘ k, o⟩
      (fun _ => ⟨r, ip ::ₘ k, o⟩) := by
  apply Turns.bind (Turns.gets _ _)
  intro i
  apply Turns.ite
  · exact Turns.ite (Turns.pure _ rfl) (turns_consoleread r k o ip n)
  · apply Turns.ite
    · exact Turns.pure _ rfl
    · exact Turns.bind (turns_readiLoop ip _ _ _ _)
        (fun _ => Turns.pure _ rfl)

theorem turns_writeiBlock (l : Ledger) (src : Nat -> UInt8) (off m : Nat) :
    Turns pid (writeiBlock ip src off m) l (fun _ => l) :=
  Turns.bind (turns_bmap l ip _) (fun _ =>
    Turns.bind (turns_setDisk l _) (fun _ => turns_logWrite l _))

theorem turns_writeiLoop (l : Ledger) (src : Nat -> UInt8)
    (off n fuel tot : Nat) :
    Turns pid (writeiLoop ip src off n fuel tot) l (fun _ => l) := by
  induction fuel generalizing tot with
  | zero => exact Turns.pure () rfl
  | succ fuel ih =>
      exact Turns.ite
        (Turns.bind (turns_writeiBlock ip l _ _ _) (fun _ => ih _))
        (Turns.pure () rfl)

theorem turns_writei (src : Nat -> UInt8) (off n : UInt32) :
    Turns pid (writei pid ip src off n) ⟨r, ip ::ₘ k, o⟩
      (fun _ => ⟨r, ip ::ₘ k, o⟩) := by
  apply Turns.bind (Turns.gets _ _)
  intro i
  apply Turns.ite
  · exact Turns.ite (Turns.pure _ rfl) (turns_consolewrite r k o ip n)
  · apply Turns.ite
    · exact Turns.pure _ rfl
    · apply Turns.ite
      · exact Turns.pure _ rfl
      · apply Turns.bind (turns_writeiLoop ip _ _ _ _ _ _)
        intro _
        apply Turns.bind (Turns.gets _ _)
        intro i
        exact Turns.ite
          (Turns.bind (turns_setDin _ ip _) (fun _ =>
            Turns.bind (turns_iupdate _ ip) (fun _ => Turns.pure _ rfl)))
          (Turns.pure _ rfl)

theorem turns_dirScan (msg : String) (found : Dirent -> Bool)
    (fuel off : Nat) :
    Turns pid (dirScan pid ip msg found fuel off) ⟨r, ip ::ₘ k, o⟩
      (fun _ => ⟨r, ip ::ₘ k, o⟩) := by
  induction fuel generalizing off with
  | zero => exact Turns.pure _ rfl
  | succ fuel ih =>
      apply Turns.bind (Turns.gets _ _)
      intro i
      apply Turns.ite
      · apply Turns.bind (turns_readi r k o ip _ _)
        intro res
        apply Turns.ite
        · exact Turns.stop _ _ _
        · exact Turns.ite (Turns.pure _ rfl) (ih _)
      · exact Turns.pure _ rfl

def withRef (r : Multiset Slot) : Option (Slot × Nat) -> Multiset Slot
  | some (jp, _) => jp ::ₘ r
  | none => r

theorem turns_dirlookup (name : List UInt8) :
    Turns pid (dirlookup pid ip name) ⟨r, ip ::ₘ k, o⟩
      (fun res => ⟨withRef r res, ip ::ₘ k, o⟩) := by
  apply Turns.bind (Turns.gets _ _)
  intro i
  apply Turns.ite
  · exact Turns.stop _ _ _
  · apply Turns.bind (turns_dirScan r k o ip _ _ _ _)
    rintro ⟨off, de⟩
    cases de with
    | none => exact Turns.pure _ rfl
    | some de =>
        exact Turns.bind (turns_iget r _ o _) (fun _ => Turns.pure _ rfl)

theorem turns_dirlink (name : List UInt8) (inum : Nat) :
    Turns pid (dirlink pid ip name inum) ⟨r, ip ::ₘ k, o⟩
      (fun _ => ⟨r, ip ::ₘ k, o⟩) := by
  apply Turns.bind (turns_dirlookup r k o ip name)
  intro found
  cases found with
  | some found =>
      rcases found with ⟨jp, off⟩
      exact Turns.bind (turns_iput r _ o jp) (fun _ => Turns.pure _ rfl)
  | none =>
      apply Turns.bind (Turns.gets _ _)
      intro i
      apply Turns.bind (turns_dirScan r k o ip _ _ _ _)
      intro res
      apply Turns.bind (turns_writei r k o ip _ _ _)
      intro w
      exact Turns.ite (Turns.stop _ _ _) (Turns.pure _ rfl)

theorem turns_isdirempty :
    Turns pid (isdirempty pid ip) ⟨r, ip ::ₘ k, o⟩
      (fun _ => ⟨r, ip ::ₘ k, o⟩) :=
  Turns.bind (Turns.gets _ _) (fun _ =>
    Turns.bind (turns_dirScan r k o ip _ _ _ _) (fun _ => Turns.pure _ rfl))

end Contents

/-!
## Paths

A walk holds one reference at a time, and a lock only between two steps.
-/

section Paths

variable {pid : Int32} (r : Multiset Slot) (o : Nat)

def withName (r : Multiset Slot) : Option (Slot × List UInt8) -> Multiset Slot
  | some (jp, _) => jp ::ₘ r
  | none => r

theorem turns_namexLoop (k : Multiset Slot) (parent : Bool) (fuel : Nat)
    (ip : Slot) (path name : List UInt8) :
    Turns pid (namexLoop pid parent fuel ip path name) ⟨ip ::ₘ r, k, o⟩
      (fun res => ⟨withName r res, k, o⟩) := by
  have hend : forall ip name, Turns pid
      (if parent = true then (do
          iput pid ip
          pure none)
        else pure (some (ip, name)) : FsM (Option (Slot × List UInt8)))
      ⟨ip ::ₘ r, k, o⟩ (fun res => ⟨withName r res, k, o⟩) := by
    intro ip name
    exact Turns.ite
      (Turns.bind (turns_iput r k o ip) (fun _ => Turns.pure none rfl))
      (Turns.pure (some (ip, name)) rfl)
  have hfail : forall ip, Turns pid
      (do
        iunlockput pid ip
        pure none : FsM (Option (Slot × List UInt8)))
      ⟨ip ::ₘ r, ip ::ₘ k, o⟩ (fun res => ⟨withName r res, k, o⟩) := by
    intro ip
    exact Turns.bind (turns_iunlockput r k o ip)
      (fun _ => Turns.pure none rfl)
  induction fuel generalizing ip path name with
  | zero =>
      unfold namexLoop
      exact hend ip name
  | succ fuel ih =>
      unfold namexLoop
      cases hskip : skipelem path with
      | none => exact hend ip name
      | some elem =>
          rcases elem with ⟨name, rest⟩
          apply Turns.bind (turns_ilock _ k o ip)
          intro _
          apply Turns.bind (Turns.gets _ _)
          intro i
          apply Turns.ite
          · exact hfail ip
          · apply Turns.ite
            · exact Turns.bind (turns_iunlock _ k o ip)
                (fun _ => Turns.pure (some (ip, name)) rfl)
            · apply Turns.bind (turns_dirlookup _ k o ip name)
              intro found
              cases found with
              | none => exact hfail ip
              | some found =>
                  rcases found with ⟨next, off⟩
                  show Turns pid _ ⟨next ::ₘ ip ::ₘ r, ip ::ₘ k, o⟩ _
                  rw [Multiset.cons_swap]
                  exact Turns.bind (turns_iunlockput _ k o ip)
                    (fun _ => ih next rest name)

theorem turns_namexStart (k : Multiset Slot) (cwd : Option Slot)
    (path : List UInt8) :
    Turns pid (namexStart cwd path) ⟨r, k, o⟩ (fun ip => ⟨ip ::ₘ r, k, o⟩) := by
  apply Turns.ite
  · exact turns_iget r k o ROOTINO
  · cases cwd with
    | none => exact Turns.stop _ _ _
    | some cwd => exact turns_idup r k o cwd

theorem turns_namex (k : Multiset Slot) (cwd : Option Slot) (parent : Bool)
    (path : List UInt8) :
    Turns pid (namex pid cwd parent path) ⟨r, k, o⟩
      (fun res => ⟨withName r res, k, o⟩) :=
  Turns.bind (turns_namexStart r o k cwd path)
    (fun ip => turns_namexLoop r o k parent _ ip path [])

def withSlot (r : Multiset Slot) : Option Slot -> Multiset Slot
  | some jp => jp ::ₘ r
  | none => r

theorem turns_namei (k : Multiset Slot) (cwd : Option Slot) (path : List UInt8) :
    Turns pid (namei pid cwd path) ⟨r, k, o⟩
      (fun res => ⟨withSlot r res, k, o⟩) := by
  apply Turns.bind (turns_namex r o k cwd false path)
  intro res
  cases res with
  | none | some res => exact Turns.pure _ rfl

end Paths

end Fs
end Xv6
