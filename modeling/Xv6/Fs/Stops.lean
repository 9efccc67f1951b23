import Xv6.Fs.Own
import Xv6.Fs.Sysfile

/-!
# How the file system stops

A call on inodes that does not return sleeps, waits for its own lock, or is in
one of the panics of `fs.c` and `log.c`.  A null pointer only comes from a
relative path of a process without a current directory.
-/

namespace Xv6
namespace Fs

open Lib Lib.Run

/-- The panics on the way through `log_write`, the block allocator, the inode
cache and the lookup of names. -/
def panics : List String :=
  ["too big a transaction", "log_write outside of trans", "log.committing",
    "balloc: out of blocks", "freeing free block", "bmap: out of range",
    "iget: no inodes", "ilock", "ilock: no type", "iunlock",
    "dirlookup not DIR", "dirlookup read"]

def Stops (e : Stop) : Prop :=
  e = .sleep ∨ e = .deadlock ∨ exists msg, msg ∈ panics ∧ e = .panic msg

instance : DecidablePred Stops := fun e =>
  inferInstanceAs (Decidable
    (e = .sleep ∨ e = .deadlock ∨ exists msg, msg ∈ panics ∧ e = .panic msg))

theorem stops_logWrite (b : Nat) : StopsIn Stops (logWrite b) := by
  intro s
  apply wp_logWrite (fun _ _ => trivial)
  intro e he
  unfold Log.logWrite Log.logWriteTest at he
  split at he
  · cases he
  · next _ e' htest =>
      cases he
      split at htest
      · cases htest
        decide
      · split at htest
        · cases htest
          decide
        · cases htest

theorem stops_beginOp : StopsIn Stops beginOp := by
  intro s
  unfold wp beginOp
  cases s.log.beginOp with
  | some log => trivial
  | none => exact .inl rfl

theorem stops_endOp : StopsIn Stops endOp := by
  intro s
  unfold wp endOp
  cases hend : s.log.endOp with
  | ok r =>
      rcases r with ⟨last, log⟩
      cases last with
      | true | false => trivial
  | error e =>
      unfold Log.endOp at hend
      simp only at hend
      split at hend
      · cases hend
        show Stops _
        decide
      · split at hend
        · cases hend
        · cases hend

theorem stops_endWith {α : Type} (r : α) : StopsIn Stops (endWith r) :=
  StopsIn.bind stops_endOp (fun _ => StopsIn.pure r)

/-!
## Blocks
-/

theorem stops_balloc : StopsIn Stops balloc := by
  apply StopsIn.bind (StopsIn.gets _)
  intro b
  cases b with
  | none => exact StopsIn.stop (by decide)
  | some b =>
      exact StopsIn.bind (StopsIn.modify _) (fun _ =>
        StopsIn.bind (StopsIn.gets _) (fun _ =>
          StopsIn.bind (stops_logWrite _) (fun _ =>
            StopsIn.bind (StopsIn.bind (StopsIn.modify _)
              (fun _ => stops_logWrite b)) (fun _ => StopsIn.pure b))))

theorem stops_bfree (b : Nat) : StopsIn Stops (bfree b) :=
  StopsIn.bind (StopsIn.gets _) (fun _ =>
    StopsIn.ite
      (StopsIn.bind (StopsIn.modify _) (fun _ =>
        StopsIn.bind (StopsIn.gets _) (fun _ => stops_logWrite _)))
      (StopsIn.stop (by decide)))

theorem stops_bmapAddr (ip : Slot) (i : Fin (NDIRECT + 1)) :
    StopsIn Stops (bmapAddr ip i) :=
  StopsIn.bind (StopsIn.gets _) (fun _ =>
    StopsIn.ite
      (StopsIn.bind stops_balloc (fun _ =>
        StopsIn.bind (StopsIn.modify _) (fun _ => StopsIn.pure _)))
      (StopsIn.pure _))

theorem stops_bmapEntry (ind j : Nat) : StopsIn Stops (bmapEntry ind j) :=
  StopsIn.bind (StopsIn.gets _) (fun _ =>
    StopsIn.ite
      (StopsIn.bind stops_balloc (fun _ =>
        StopsIn.bind (StopsIn.modify _) (fun _ =>
          StopsIn.bind (stops_logWrite ind) (fun _ => StopsIn.pure _))))
      (StopsIn.pure _))

theorem stops_bmap (ip : Slot) (bn : Nat) : StopsIn Stops (bmap ip bn) := by
  unfold bmap
  rcases Decidable.em (bn < NDIRECT) with h | h
  · rw [dif_pos h]
    exact stops_bmapAddr ip _
  · rw [dif_neg h]
    exact StopsIn.ite
      (StopsIn.bind (stops_bmapAddr ip _) (fun _ => stops_bmapEntry _ _))
      (StopsIn.stop (by decide))

/-!
## Inodes
-/

theorem stops_iupdate (ip : Slot) : StopsIn Stops (iupdate ip) :=
  StopsIn.bind (StopsIn.gets _) (fun _ =>
    StopsIn.bind (StopsIn.modify _) (fun _ =>
      StopsIn.bind (StopsIn.gets _) (fun _ => stops_logWrite _)))

theorem stops_itruncAddr (ip : Slot) (i : Fin (NDIRECT + 1)) :
    StopsIn Stops (itruncAddr ip i) :=
  StopsIn.bind (StopsIn.gets _) (fun _ =>
    StopsIn.ite (StopsIn.pure ())
      (StopsIn.bind (stops_bfree _) (fun _ => StopsIn.modify _)))

theorem stops_itruncEntry (ind j : Nat) : StopsIn Stops (itruncEntry ind j) :=
  StopsIn.bind (StopsIn.gets _) (fun _ =>
    StopsIn.ite (StopsIn.pure ()) (stops_bfree _))

theorem stops_itrunc (ip : Slot) : StopsIn Stops (itrunc ip) := by
  apply StopsIn.bind (StopsIn.forEach (fun _ => stops_itruncAddr ip _) _)
  intro _
  apply StopsIn.bind (StopsIn.gets _)
  intro i
  have htail : StopsIn Stops
      (do
        setDin ip (fun di => { di with size := 0 })
        iupdate ip) :=
    StopsIn.bind (StopsIn.modify _) (fun _ => stops_iupdate ip)
  exact StopsIn.ite htail
    (StopsIn.bind (StopsIn.forEach (fun j => stops_itruncEntry _ j) _)
      (fun _ => StopsIn.bind (stops_itruncAddr ip _) (fun _ => htail)))

theorem stops_acquiresleep (pid : Int32) (ip : Slot) :
    StopsIn Stops (acquiresleep pid ip) := by
  apply StopsIn.bind (StopsIn.gets _)
  intro i
  cases i.lock with
  | none => exact StopsIn.modify _
  | some holder =>
      apply StopsIn.stop
      rcases Decidable.em (holder = pid) with h | h
      · rw [if_pos h]
        exact .inr (.inl rfl)
      · rw [if_neg h]
        exact .inl rfl

theorem stops_iput (pid : Int32) (ip : Slot) : StopsIn Stops (iput pid ip) := by
  apply StopsIn.bind (stops_acquiresleep pid ip)
  intro _
  apply StopsIn.bind (StopsIn.gets _)
  intro i
  have htail : StopsIn Stops
      (do
        releasesleep ip
        setInode ip (fun i => { i with ref := i.ref - 1 })) :=
    StopsIn.bind (StopsIn.modify _) (fun _ => StopsIn.modify _)
  exact StopsIn.ite
    (StopsIn.bind (stops_itrunc ip) (fun _ =>
      StopsIn.bind (StopsIn.modify _) (fun _ =>
        StopsIn.bind (stops_iupdate ip) (fun _ =>
          StopsIn.bind (StopsIn.modify _) (fun _ => htail)))))
    htail

theorem stops_ilock (pid : Int32) (ip : Slot) : StopsIn Stops (ilock pid ip) :=
  StopsIn.bind (StopsIn.gets _) (fun _ =>
    StopsIn.ite (StopsIn.stop (by decide))
      (StopsIn.bind (stops_acquiresleep pid ip) (fun _ =>
        StopsIn.bind (StopsIn.gets _) (fun _ =>
          StopsIn.ite (StopsIn.pure ())
            (StopsIn.bind (StopsIn.gets _) (fun _ =>
              StopsIn.bind (StopsIn.modify _) (fun _ =>
                StopsIn.ite (StopsIn.stop (by decide))
                  (StopsIn.pure ()))))))))

theorem stops_iunlock (pid : Int32) (ip : Slot) :
    StopsIn Stops (iunlock pid ip) :=
  StopsIn.bind (StopsIn.gets _) (fun _ =>
    StopsIn.ite (StopsIn.stop (by decide)) (StopsIn.modify _))

theorem stops_iunlockput (pid : Int32) (ip : Slot) :
    StopsIn Stops (iunlockput pid ip) :=
  StopsIn.bind (stops_iunlock pid ip) (fun _ => stops_iput pid ip)

theorem stops_iget (inum : Nat) : StopsIn Stops (iget inum) := by
  apply StopsIn.bind (StopsIn.gets _)
  intro cached
  cases cached with
  | some ip => exact StopsIn.bind (StopsIn.modify _) (fun _ => StopsIn.pure ip)
  | none =>
      apply StopsIn.bind (StopsIn.gets _)
      intro empty
      cases empty with
      | none => exact StopsIn.stop (by decide)
      | some ip =>
          exact StopsIn.bind (StopsIn.modify _) (fun _ => StopsIn.pure ip)

/-!
## Contents and names
-/

theorem stops_readiLoop (ip : Slot) (fuel off n : Nat) :
    StopsIn Stops (readiLoop ip fuel off n) := by
  induction fuel generalizing off n with
  | zero => exact StopsIn.pure []
  | succ fuel ih =>
      exact StopsIn.ite (StopsIn.pure [])
        (StopsIn.bind (stops_bmap ip _) (fun _ =>
          StopsIn.bind (StopsIn.gets _) (fun _ =>
            StopsIn.bind (ih _ _) (fun _ => StopsIn.pure _))))

theorem stops_consoleread (pid : Int32) (ip : Slot) (n : UInt32) :
    StopsIn Stops (consoleread pid ip n) := by
  apply StopsIn.bind (stops_iunlock pid ip)
  intro _
  apply StopsIn.bind (StopsIn.gets _)
  intro r
  cases r with
  | none => exact StopsIn.stop (.inl rfl)
  | some r =>
      exact StopsIn.bind (stops_ilock pid ip) (fun _ => StopsIn.pure r)

theorem stops_readi (pid : Int32) (ip : Slot) (off n : UInt32) :
    StopsIn Stops (readi pid ip off n) :=
  StopsIn.bind (StopsIn.gets _) (fun _ =>
    StopsIn.ite
      (StopsIn.ite (StopsIn.pure _) (stops_consoleread pid ip n))
      (StopsIn.ite (StopsIn.pure _)
        (StopsIn.bind (stops_readiLoop ip _ _ _) (fun _ => StopsIn.pure _))))

theorem stops_dirScan (pid : Int32) (dp : Slot) (found : Dirent -> Bool)
    (fuel off : Nat) :
    StopsIn Stops (dirScan pid dp "dirlookup read" found fuel off) := by
  induction fuel generalizing off with
  | zero => exact StopsIn.pure _
  | succ fuel ih =>
      exact StopsIn.bind (StopsIn.gets _) (fun _ =>
        StopsIn.ite
          (StopsIn.bind (stops_readi pid dp _ _) (fun _ =>
            StopsIn.ite (StopsIn.stop (by decide))
              (StopsIn.ite (StopsIn.pure _) (ih _))))
          (StopsIn.pure _))

theorem stops_dirlookup (pid : Int32) (dp : Slot) (name : List UInt8) :
    StopsIn Stops (dirlookup pid dp name) := by
  apply StopsIn.bind (StopsIn.gets _)
  intro i
  apply StopsIn.ite (StopsIn.stop (by decide))
  apply StopsIn.bind (stops_dirScan pid dp _ _ _)
  rintro ⟨off, de⟩
  cases de with
  | none => exact StopsIn.pure none
  | some de => exact StopsIn.bind (stops_iget _) (fun _ => StopsIn.pure _)

theorem stops_namexLoop (pid : Int32) (parent : Bool) (fuel : Nat) (ip : Slot)
    (path name : List UInt8) :
    StopsIn Stops (namexLoop pid parent fuel ip path name) := by
  have hend : forall (ip : Slot) (name : List UInt8), StopsIn Stops
      (if parent then do
        iput pid ip
        pure none
      else
        (pure (some (ip, name)) : FsM (Option (Slot × List UInt8)))) :=
    fun ip name => StopsIn.ite
      (StopsIn.bind (stops_iput pid ip) (fun _ => StopsIn.pure none))
      (StopsIn.pure _)
  induction fuel generalizing ip path name with
  | zero => exact hend ip name
  | succ fuel ih =>
      unfold namexLoop
      cases hskip : skipelem path with
      | none => exact hend ip name
      | some r =>
          have hnone : StopsIn Stops (do
              iunlockput pid ip
              (pure none : FsM (Option (Slot × List UInt8)))) :=
            StopsIn.bind (stops_iunlockput pid ip) (fun _ => StopsIn.pure none)
          apply StopsIn.bind (stops_ilock pid ip)
          intro _
          apply StopsIn.bind (StopsIn.gets _)
          intro i
          apply StopsIn.ite hnone
          apply StopsIn.ite
          · exact StopsIn.bind (stops_iunlock pid ip) (fun _ => StopsIn.pure _)
          · apply StopsIn.bind (stops_dirlookup pid ip r.1)
            intro found
            cases found with
            | none => exact hnone
            | some found =>
                exact StopsIn.bind (stops_iunlockput pid ip)
                  (fun _ => ih found.1 r.2 r.1)

theorem stops_namei (pid : Int32) (cwd : Option Slot) (path : List UInt8) :
    StopsIn (fun e => Stops e ∨ (cwd = none ∧ e = .nullDeref))
      (namei pid cwd path) := by
  have hleft : forall e, Stops e ->
      Stops e ∨ (cwd = none ∧ e = .nullDeref) := fun _ h => .inl h
  apply StopsIn.bind
  · apply StopsIn.bind
    · apply StopsIn.ite ((stops_iget ROOTINO).mono hleft)
      cases cwd with
      | none => exact StopsIn.stop (.inr ⟨rfl, rfl⟩)
      | some cwd =>
          exact StopsIn.bind (StopsIn.modify _) (fun _ => StopsIn.pure cwd)
    · exact fun ip => (stops_namexLoop pid false _ ip path []).mono hleft
  · exact fun r => StopsIn.pure _

end Fs
end Xv6
