import Xv6.Fs.Ledger

/-!
# Balance of the tree calls

What `create` and the calls of `sysfile.c` that change the tree hold when they
return: nothing but the inode that `create` and `chdir` hand on.
-/

namespace Xv6
namespace Fs

open Lib Lib.Run

section Calls

variable {pid : Int32} (r k : Multiset Slot) (o : Nat)

def withLocked (r k : Multiset Slot) (o : Nat) : Option Slot -> Ledger
  | some ip => ⟨ip ::ₘ r, ip ::ₘ k, o⟩
  | none => ⟨r, k, o⟩

theorem turns_create (cwd : Option Slot) (path : List UInt8)
    (type major minor : UInt16) :
    Turns pid (create pid cwd path type major minor) ⟨r, k, o⟩
      (withLocked r k o) := by
  apply Turns.bind (turns_namex r o k cwd true path)
  intro res
  cases res with
  | none => exact Turns.pure none rfl
  | some res =>
      rcases res with ⟨dp, name⟩
      apply Turns.bind (turns_ilock _ k o dp)
      intro _
      apply Turns.bind (turns_dirlookup _ k o dp name)
      intro found
      cases found with
      | some found =>
          rcases found with ⟨ip, off⟩
          show Turns pid _ ⟨ip ::ₘ dp ::ₘ r, dp ::ₘ k, o⟩ _
          rw [Multiset.cons_swap]
          apply Turns.bind (turns_iunlockput _ k o dp)
          intro _
          apply Turns.bind (turns_ilock _ k o ip)
          intro _
          apply Turns.bind (Turns.gets _ _)
          intro i
          exact Turns.ite (Turns.pure (some ip) rfl)
            (Turns.bind (turns_iunlockput r k o ip)
              (fun _ => Turns.pure none rfl))
      | none =>
          apply Turns.bind (turns_ialloc _ _ o type)
          intro ip
          apply Turns.bind (turns_ilock _ _ o ip)
          intro _
          apply Turns.bind (turns_setDin _ ip _)
          intro _
          apply Turns.bind (turns_iupdate _ ip)
          intro _
          -- the new entry, and what remains to be released
          have hlink : Turns pid
              (do
                let r ← dirlink pid dp name (← inode ip).inum
                if r < 0 then
                  panic "create: dirlink"
                else do
                  iunlockput pid dp
                  pure (some ip))
              ⟨ip ::ₘ dp ::ₘ r, ip ::ₘ dp ::ₘ k, o⟩ (withLocked r k o) := by
            apply Turns.bind (Turns.gets _ _)
            intro i
            rw [Multiset.cons_swap, Multiset.cons_swap ip dp k]
            apply Turns.bind (turns_dirlink _ _ o dp name _)
            intro w
            exact Turns.ite (Turns.stop _ _ _)
              (Turns.bind (turns_iunlockput _ _ o dp)
                (fun _ => Turns.pure (some ip) rfl))
          apply Turns.ite
          · apply Turns.bind (turns_setDin _ dp _)
            intro _
            apply Turns.bind (turns_iupdate _ dp)
            intro _
            apply Turns.bind (Turns.gets _ _)
            intro i
            apply Turns.bind (turns_dirlink _ _ o ip dotName _)
            intro dot
            apply Turns.ite
            · exact Turns.bind (Turns.stop _ _ (fun _ : Unit => _))
                (fun _ => hlink)
            · apply Turns.bind (Turns.gets _ _)
              intro j
              apply Turns.bind (turns_dirlink _ _ o ip dotdotName _)
              intro dotdot
              exact Turns.ite
                (Turns.bind (Turns.stop _ _ (fun _ : Unit => _))
                  (fun _ => hlink))
                hlink
          · exact hlink

theorem turns_endWith {α : Type} (a : α) :
    Turns pid (endWith a) ⟨r, k, o + 1⟩ (fun _ => ⟨r, k, o⟩) :=
  Turns.bind (turns_endOp ⟨r, k, o⟩) (fun _ => Turns.pure a rfl)

theorem turns_linkBad (ip : Slot) :
    Turns pid (linkBad pid ip) ⟨ip ::ₘ r, k, o + 1⟩ (fun _ => ⟨r, k, o⟩) :=
  Turns.bind (turns_ilock _ k _ ip) (fun _ =>
    Turns.bind (turns_setDin _ ip _) (fun _ =>
      Turns.bind (turns_iupdate _ ip) (fun _ =>
        Turns.bind (turns_iunlockput r k _ ip) (fun _ =>
          turns_endWith r k o _))))

theorem turns_sysLink (cwd : Option Slot) (old new : Option (List UInt8)) :
    Turns pid (sysLink pid cwd old new) ⟨r, k, o⟩ (fun _ => ⟨r, k, o⟩) := by
  cases old with
  | none => exact Turns.pure _ rfl
  | some old =>
      cases new with
      | none => exact Turns.pure _ rfl
      | some new =>
          apply Turns.bind (turns_beginOp _)
          intro _
          apply Turns.bind (turns_namei r (o + 1) k cwd old)
          intro res
          cases res with
          | none => exact turns_endWith r k o _
          | some ip =>
              apply Turns.bind (turns_ilock _ k _ ip)
              intro _
              apply Turns.bind (Turns.gets _ _)
              intro i
              apply Turns.ite
              · exact Turns.bind (turns_iunlockput r k _ ip)
                  (fun _ => turns_endWith r k o _)
              · apply Turns.bind (turns_setDin _ ip _)
                intro _
                apply Turns.bind (turns_iupdate _ ip)
                intro _
                apply Turns.bind (turns_iunlock _ k _ ip)
                intro _
                apply Turns.bind (turns_namex _ _ k cwd true new)
                intro res
                cases res with
                | none => exact turns_linkBad r k o ip
                | some res =>
                    rcases res with ⟨dp, name⟩
                    apply Turns.bind (turns_ilock _ k _ dp)
                    intro _
                    apply Turns.bind (Turns.gets _ _)
                    intro i
                    apply Turns.bind (turns_dirlink _ k _ dp name _)
                    intro w
                    apply Turns.ite
                    · exact Turns.bind (turns_iunlockput _ k _ dp)
                        (fun _ => turns_linkBad r k o ip)
                    · exact Turns.bind (turns_iunlockput _ k _ dp) (fun _ =>
                        Turns.bind (turns_iput r k _ ip)
                          (fun _ => turns_endWith r k o _))

theorem turns_unlinkBad (dp : Slot) :
    Turns pid (unlinkBad pid dp) ⟨dp ::ₘ r, dp ::ₘ k, o + 1⟩
      (fun _ => ⟨r, k, o⟩) :=
  Turns.bind (turns_iunlockput r k _ dp) (fun _ => turns_endWith r k o _)

theorem turns_sysUnlink (cwd : Option Slot) (path : Option (List UInt8)) :
    Turns pid (sysUnlink pid cwd path) ⟨r, k, o⟩ (fun _ => ⟨r, k, o⟩) := by
  cases path with
  | none => exact Turns.pure _ rfl
  | some path =>
      apply Turns.bind (turns_beginOp _)
      intro _
      apply Turns.bind (turns_namex r (o + 1) k cwd true path)
      intro res
      cases res with
      | none => exact turns_endWith r k o _
      | some res =>
          rcases res with ⟨dp, name⟩
          apply Turns.bind (turns_ilock _ k _ dp)
          intro _
          apply Turns.ite
          · exact turns_unlinkBad r k o dp
          · apply Turns.bind (turns_dirlookup _ k _ dp name)
            intro found
            cases found with
            | none => exact turns_unlinkBad r k o dp
            | some found =>
                rcases found with ⟨ip, off⟩
                apply Turns.bind (turns_ilock _ _ _ ip)
                intro _
                apply Turns.bind (Turns.gets _ _)
                intro i
                -- both inodes are locked from here on
                have hbad : Turns pid
                    (do
                      iunlockput pid ip
                      unlinkBad pid dp)
                    ⟨ip ::ₘ dp ::ₘ r, ip ::ₘ dp ::ₘ k, o + 1⟩
                    (fun _ => ⟨r, k, o⟩) :=
                  Turns.bind (turns_iunlockput _ _ _ ip)
                    (fun _ => turns_unlinkBad r k o dp)
                have hdone : Turns pid
                    (do
                      iunlockput pid dp
                      setDin ip (fun di => { di with nlink := di.nlink - 1 })
                      iupdate ip
                      iunlockput pid ip
                      endWith 0 : FsM Int)
                    ⟨dp ::ₘ ip ::ₘ r, dp ::ₘ ip ::ₘ k, o + 1⟩
                    (fun _ => ⟨r, k, o⟩) :=
                  Turns.bind (turns_iunlockput _ _ _ dp) (fun _ =>
                    Turns.bind (turns_setDin _ ip _) (fun _ =>
                      Turns.bind (turns_iupdate _ ip) (fun _ =>
                        Turns.bind (turns_iunlockput r k _ ip)
                          (fun _ => turns_endWith r k o _))))
                have hrest : forall full : Bool, Turns pid
                    (if full = true then (do
                        iunlockput pid ip
                        unlinkBad pid dp)
                      else (do
                        let w ← writei pid dp Dirent.zero.bytes
                          (UInt32.ofNat off) (UInt32.ofNat Dirent.SIZE)
                        if w ≠ (Dirent.SIZE : Int) then
                          panic "unlink: writei"
                        else do
                          if (← inode ip).din.type = T_DIR then do
                            setDin dp (fun di =>
                              { di with nlink := di.nlink - 1 })
                            iupdate dp
                          else
                            pure ()
                          iunlockput pid dp
                          setDin ip (fun di =>
                            { di with nlink := di.nlink - 1 })
                          iupdate ip
                          iunlockput pid ip
                          endWith 0))
                    ⟨ip ::ₘ dp ::ₘ r, ip ::ₘ dp ::ₘ k, o + 1⟩
                    (fun _ => ⟨r, k, o⟩) := by
                  intro full
                  apply Turns.ite hbad
                  rw [Multiset.cons_swap, Multiset.cons_swap ip dp k]
                  apply Turns.bind (turns_writei _ _ _ dp _ _ _)
                  intro w
                  apply Turns.ite (Turns.stop _ _ _)
                  apply Turns.bind (Turns.gets _ _)
                  intro j
                  exact Turns.ite
                    (Turns.bind (turns_setDin _ dp _) (fun _ =>
                      Turns.bind (turns_iupdate _ dp) (fun _ => hdone)))
                    hdone
                apply Turns.ite
                · exact Turns.bind (Turns.stop _ _ (fun _ : Bool => _)) hrest
                · exact Turns.ite
                    (Turns.bind (turns_isdirempty _ _ _ ip)
                      (fun empty => hrest (!empty)))
                    (hrest false)

theorem turns_makeNode (cwd : Option Slot) (path : Option (List UInt8))
    (type major minor : UInt16) :
    Turns pid (makeNode pid cwd path type major minor) ⟨r, k, o⟩
      (fun _ => ⟨r, k, o⟩) := by
  apply Turns.bind (turns_beginOp _)
  intro _
  cases path with
  | none => exact turns_endWith r k o _
  | some path =>
      apply Turns.bind (turns_create r k (o + 1) cwd path type major minor)
      intro res
      cases res with
      | none => exact turns_endWith r k o _
      | some ip =>
          exact Turns.bind (turns_iunlockput r k _ ip)
            (fun _ => turns_endWith r k o _)

theorem turns_sysChdir (cwd : Option Slot) (path : Option (List UInt8)) :
    Turns pid (sysChdir pid cwd path) ⟨withSlot r cwd, k, o⟩
      (fun res => ⟨withSlot r res.2, k, o⟩) := by
  have hend : forall a : Int × Option Slot, Turns pid (endWith a)
      ⟨withSlot r a.2, k, o + 1⟩ (fun res => ⟨withSlot r res.2, k, o⟩) :=
    fun a => Turns.bind (turns_endOp ⟨withSlot r a.2, k, o⟩)
      (fun _ => Turns.pure a rfl)
  apply Turns.bind (turns_beginOp _)
  intro _
  cases path with
  | none => exact hend (-1, cwd)
  | some path =>
      apply Turns.bind (turns_namei _ (o + 1) k cwd path)
      intro res
      cases res with
      | none => exact hend (-1, cwd)
      | some ip =>
          apply Turns.bind (turns_ilock _ k _ ip)
          intro _
          apply Turns.bind (Turns.gets _ _)
          intro i
          apply Turns.ite
          · exact Turns.bind (turns_iunlockput _ k _ ip)
              (fun _ => hend (-1, cwd))
          · apply Turns.bind (turns_iunlock _ k _ ip)
            intro _
            cases cwd with
            | none => exact Turns.stop _ _ _
            | some cwd =>
                show Turns pid _ ⟨ip ::ₘ cwd ::ₘ r, k, o + 1⟩ _
                rw [Multiset.cons_swap]
                exact Turns.bind (turns_iput _ k _ cwd)
                  (fun _ => hend (0, some ip))

end Calls

end Fs
end Xv6
