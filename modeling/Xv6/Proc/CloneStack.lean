import Xv6.Proc.Args
import Xv6.Proc.Threads

/-!
# The stack of a new thread

`clone` copies the frame of its caller to the bytes below the address that the
caller passes for the new thread's stack.
-/

namespace Xv6
namespace Kernel

open Lib Lib.Run

/-!
## What a thread's stack should be
-/

/-- The address is one of a block, of which the byte after the end is one where
`last` is 1. -/
def InBlock (stack : UInt32) (size : Int32) (last : Nat) (va : UInt32) : Prop :=
  stack ≤ va ∧ (va.toNat : Int) < stack.toNat + size.toInt + last

/-- The bytes that the call copies stay in the new stack and in the image. -/
structure CopiesInside (k : Kernel) (cur : Pslot) (stack : UInt32)
    (size : Int32) : Prop where
  writes : forall m, m ∈ k.cloneMoves cur stack -> InBlock stack size 0 m.1
  image : forall m, m ∈ k.cloneMoves cur stack ->
    m.1 < (k.proc cur).sz ∧ m.2 < (k.proc cur).sz

/-- What the thread finds: its registers point into the new stack, and its frame
is that of the caller. -/
structure StartsInside (k k' : Kernel) (cur : Pslot) (stack : UInt32)
    (size : Int32) (p : Pslot) : Prop where
  esp : InBlock stack size 1 (k'.proc p).tf.esp
  ebp : InBlock stack size 1 (k'.proc p).tf.ebp
  frame : forall i, i < k.parentSize cur ->
    k'.userByte cur ((k'.proc p).tf.esp + i) =
      k.userByte cur ((k.proc cur).tf.esp + i)

/-- A call that makes a thread copies the frame into the new stack, and the
thread starts on that copy. -/
def ClonesInside (k : Kernel) (cur : Pslot) (stack : UInt32) (size : Int32) :
    Prop :=
  HasRoom k -> CopiesInside k cur stack size ∧
    forall r k' p, sysClone cur k = .ok (r, k') ->
      (k.proc p).state = .UNUSED -> (k'.proc p).state ≠ .UNUSED ->
        StartsInside k k' cur stack size p

/-!
## Whether the stack is the thread's own
-/

theorem not_inBlock_below (stack : UInt32) (size : Int32) :
    ¬ InBlock stack size 0 (stack - 1) := by
  have hsize : size.toInt < 2 ^ 31 := Int32.toInt_lt size
  rintro ⟨hlow, hhigh⟩
  rcases eq_or_ne stack 0 with rfl | hne
  · have hlast : ((0 : UInt32) - 1).toNat = 2 ^ 32 - 1 := rfl
    rw [hlast] at hhigh
    simp at hhigh
    lia
  · exact absurd hlow (by lia)

theorem not_inBlock_ebp (stack : UInt32) (size : Int32) :
    ¬ InBlock stack size 1 (stack - 4 * 4) := by
  have hsize : size.toInt < 2 ^ 31 := Int32.toInt_lt size
  rintro ⟨hlow, hhigh⟩
  have hwraps : stack < 16 := by lia
  have hva : (stack - 4 * 4).toNat = stack.toNat + (2 ^ 32 - 16) := by
    have h16 := UInt32.lt_iff_toNat_lt.mp hwraps
    rw [UInt32.toNat_sub]
    simp at h16 ⊢
    lia
  rw [hva] at hhigh
  lia

theorem copiesInside_iff (k : Kernel) (cur : Pslot) (stack : UInt32)
    (size : Int32) :
    CopiesInside k cur stack size ↔ k.parentSize cur = 0 := by
  constructor
  · intro h
    apply by_contradiction
    intro hne
    have hlast := h.writes _ (mem_moves.mpr
      ⟨k.parentSize cur - 1, by lia, rfl⟩)
    have hva : stack - k.parentSize cur + (k.parentSize cur - 1) =
        stack - 1 := by
      lia
    rw [hva] at hlast
    exact not_inBlock_below stack size hlast
  · intro h
    have hnone : k.cloneMoves cur stack = [] := by
      unfold cloneMoves
      rw [h, moves_zero]
    constructor
    · rw [hnone]
      exact fun m hm => absurd hm List.not_mem_nil
    · rw [hnone]
      exact fun m hm => absurd hm List.not_mem_nil

theorem not_clonesInside {k : Kernel} {cur : Pslot} {stack : UInt32}
    {size : Int32} (hlive : (k.proc cur).state ≠ .UNUSED)
    (haccepted : Accepted k cur stack size) (hroom : HasRoom k) :
    ¬ ClonesInside k cur stack size := by
  intro hinside
  rcases hinside hroom with ⟨hcopies, hstarts⟩
  have hempty := (copiesInside_iff k cur stack size).mp hcopies
  have hwp := wp_cloneFrame stack hlive
  rw [sysClone_eq haccepted] at hstarts
  cases hrun : cloneFrame cur stack k with
  | error e => exact wp_error hwp hrun hempty
  | ok res =>
      rcases res with ⟨r, k'⟩
      rcases wp_ok hwp hrun with ⟨k1, hclone, hmoved, _⟩
      have hprocs : k'.procs = k1.procs := by
        rw [hmoved]
        rfl
      rcases wp_ok (wp_clone_room stack hlive) hclone with
        ⟨_, p, kstack, hp, hk1⟩ | ⟨hnone, _⟩
      · have hproc : k'.proc p = cloneThread cur (k.proc cur) stack
            ((k.procs.counted.embryo p kstack).proc p) := by
          have hset := congrArg (fun t : Procs => t.proc p)
            (hprocs.trans hk1)
          exact hset.trans (Procs.set_self _ p _)
        have hstart := hstarts _ k' p hrun hp (by
          rw [hproc]
          exact Procstate.noConfusion)
        have hebp := hstart.ebp
        rw [hproc] at hebp
        exact not_inBlock_ebp stack size hebp
      · exact hnone hroom

/-- The thread gets a frame in its own stack only if the call fails for want of
a slot or a page, and the copy stays inside only if it is empty. -/
theorem sysClone_inside_iff {k : Kernel} {cur : Pslot} {stack : UInt32}
    {size : Int32} (hlive : (k.proc cur).state ≠ .UNUSED)
    (haccepted : Accepted k cur stack size) :
    (ClonesInside k cur stack size ↔ ¬ HasRoom k) ∧
      (CopiesInside k cur stack size ↔ k.parentSize cur = 0) := by
  refine ⟨⟨fun hinside hroom => ?_, fun hnone hroom => ?_⟩,
    copiesInside_iff k cur stack size⟩
  · exact not_clonesInside hlive haccepted hroom hinside
  · exact absurd hroom hnone

/-!
## A thread of the first process

The caller's registers make its frame the word at 16, and the stack that it
passes is the block of 1024 bytes at 2048.
-/

/-- The words of the caller's page: its frame, the address of the stack and the
size. -/
def threadArgs : Page :=
  pageOf (fun i =>
    if i = 4 then 7 else if i = 5 then 2048 else if i = 6 then 1024 else 0)

def threadCall : Kernel :=
  boot.userRan 0 { eax := 0, eip := 0, esp := 16, ebp := 4 }
    (Function.update boot.vm.mem (pageAddr 0x402) threadArgs)

theorem threadCall_accepted : Accepted threadCall 0 2048 1024 := by
  apply accepted_of_values
  · decide +kernel
  · decide +kernel

theorem threadCall_room : HasRoom threadCall := by
  refine ⟨⟨1, by decide⟩, ?_⟩
  show (List.range' 0x444 (0xE000 - 0x444)).map pageAddr ≠ []
  simp

theorem threadCall_live : (threadCall.proc 0).state ≠ .UNUSED := by
  decide

theorem sysClone_inside_threadCall :
    ClonesInside threadCall 0 2048 1024 ↔ ¬ HasRoom threadCall :=
  (sysClone_inside_iff threadCall_live threadCall_accepted).1

/-- What can be seen of the run: the thread's number and registers, and the
first byte of its frame. -/
def threadRan (r : Except Stop (Int × Kernel)) :
    Option (Int × UInt32 × UInt32 × Option UInt8) :=
  match r with
  | .ok (pid, k) =>
      some (pid, (k.proc 1).tf.esp, (k.proc 1).tf.ebp, k.userByte 0 2044)
  | .error _ => none

/-- The call is accepted and makes a thread, whose frame is below its stack:
`clone` has written to bytes that are not of the block. -/
theorem thread_below_stack :
    Accepted threadCall 0 2048 1024 ∧ HasRoom threadCall ∧
      ¬ ClonesInside threadCall 0 2048 1024 ∧
        threadCall.userByte 0 2044 = some 0 ∧
          threadRan (sysClone 0 threadCall) =
            some (2, 2044, 2032, some 7) := by
  refine ⟨threadCall_accepted, threadCall_room,
    not_clonesInside threadCall_live threadCall_accepted threadCall_room,
    ?_, ?_⟩
  · decide +kernel
  · decide +kernel

end Kernel
end Xv6
