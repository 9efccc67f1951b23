import Xv6.Memmove
import Xv6.Syscall
import Xv6.Proc.Children

/-!
# The call of clone

`sys_clone` fetches the stack and its size, of which `clone` gets the stack
only.  `clone` copies the frame of its caller to the bytes below the stack.  The
frame is what lies from the saved `esp` to 16 bytes above the saved `ebp`, and
the difference is taken modulo `2 ^ 32`.
-/

namespace Xv6

open Lib Lib.Run

/-!
## Stores

The kernel runs on the caller's page table, and with the write-protect bit of
`cr0` set, so that a store to a page without `PTE_W` faults in the kernel
too.
-/

/-- The page that a store to an address reaches. -/
def Vm.frameAt (s : Vm) (pgdir va : UInt32) : Option UInt32 :=
  let pde := (s.mem pgdir).u32 (4 * PDX va)
  if pde &&& PTE_P = 0 ∨ pde &&& PTE_W = 0 then
    none
  else
    let pte := (s.mem (PTE_ADDR pde)).u32 (4 * PTX va)
    if pte &&& PTE_P = 0 ∨ pte &&& PTE_W = 0 then
      none
    else
      some (PTE_ADDR pte)

namespace Kernel

def storeByte (cur : Pslot) (va : UInt32) (b : UInt8) : KM Unit := do
  match ← gets (fun k =>
      (k.proc cur).pgdir.bind (fun pgdir => k.vm.frameAt pgdir va)) with
  | none => panic "trap"
  | some pa =>
      onVm (Vm.setPage pa (fun pg =>
        pg.patch (va.toNat % PGSIZE) 1 (fun _ => b)))

def moveByte (cur : Pslot) (m : UInt32 × UInt32) : KM Unit := do
  let b ← loadByte cur m.2
  storeByte cur m.1 b

def memmove (cur : Pslot) (dst src n : UInt32) : KM Unit :=
  forEach (moveByte cur) (moves dst src n)

/-!
## The calls
-/

/-- The size of the caller's frame as `clone` takes it. -/
def parentSize (k : Kernel) (cur : Pslot) : UInt32 :=
  (k.proc cur).tf.ebp + 4 * 4 - (k.proc cur).tf.esp

/-- The bytes that `clone` copies once it has a slot for the thread. -/
def cloneMoves (k : Kernel) (cur : Pslot) (stack : UInt32) :
    List (UInt32 × UInt32) :=
  moves (stack - k.parentSize cur) (k.proc cur).tf.esp (k.parentSize cur)

/-- `clone` with the copy of the frame. -/
def cloneFrame (cur : Pslot) (stack : UInt32) : KM Int := do
  modify (fun k => { k with numofthread := k.numofthread + 1 })
  match ← allocproc with
  | none => pure (-1)
  | some newp => do
      let pr ← gets (fun k => k.proc cur)
      let bottomStack := pr.tf.esp
      let topStack := pr.tf.ebp + 4 * 4
      let parentSize := topStack - bottomStack
      setProc newp (fun p =>
        { p with
          pgdir := pr.pgdir
          sz := pr.sz
          parent := some cur
          threadIndictor := 1
          tf :=
            { pr.tf with
              eax := 0
              esp := stack - parentSize
              ebp := stack - 4 * 4 } })
      memmove cur (stack - parentSize) bottomStack parentSize
      setProc newp (fun p =>
        { p with
          ofile := fun fd => (pr.ofile fd).or (p.ofile fd)
          cwd := pr.cwd
          state := .RUNNABLE
          name := pr.name.take 15 })
      let pid ← pidOf newp
      pure pid.toInt

def sysClone (cur : Pslot) : KM Int := do
  match ← argptr cur 0 4 with
  | none => pure (-1)
  | some stack => do
      match ← argint cur 1 with
      | none => pure (-1)
      | some _ => cloneFrame cur stack

structure Accepted (k : Kernel) (cur : Pslot) (stack : UInt32) (size : Int32) :
    Prop where
  stack : argptr cur 0 4 k = .ok (some stack, k)
  size : argint cur 1 k = .ok (some size, k)

theorem sysClone_eq {k : Kernel} {cur : Pslot} {stack : UInt32} {size : Int32}
    (h : Accepted k cur stack size) :
    sysClone cur k = cloneFrame cur stack k := by
  unfold sysClone
  rw [bind_run, h.stack]
  show (argint cur 1 >>= _) k = _
  rw [bind_run, h.size]

/-!
## What a copy changes
-/

theorem mem_moves {dst src n : UInt32} {m : UInt32 × UInt32} :
    m ∈ moves dst src n ↔ exists i, i < n ∧ m = (dst + i, src + i) := by
  have hbytes : m ∈ (List.range n.toNat).map (fun i =>
        (dst + UInt32.ofNat i, src + UInt32.ofNat i)) ↔
      exists i, i < n ∧ m = (dst + i, src + i) := by
    constructor
    · intro hm
      rcases List.mem_map.mp hm with ⟨i, hi, rfl⟩
      have hin : i < n.toNat := List.mem_range.mp hi
      refine ⟨UInt32.ofNat i, ?_, rfl⟩
      rw [UInt32.lt_iff_toNat_lt,
        UInt32.toNat_ofNat_of_lt' (hin.trans n.toNat_lt)]
      exact hin
    · rintro ⟨i, hi, rfl⟩
      refine List.mem_map.mpr ⟨i.toNat, ?_, by rw [UInt32.ofNat_toNat]⟩
      exact List.mem_range.mpr (UInt32.lt_iff_toNat_lt.mp hi)
  unfold moves
  split
  · rw [List.mem_reverse]
    exact hbytes
  · exact hbytes

theorem moves_zero (dst src : UInt32) : moves dst src 0 = [] := by
  simp [moves]

/-- Only the contents of pages differ. -/
def Moved (k k' : Kernel) : Prop :=
  k' = { k with vm := { k.vm with mem := k'.vm.mem } }

theorem Moved.trans {k k1 k2 : Kernel} (h1 : Moved k k1) (h2 : Moved k1 k2) :
    Moved k k2 := by
  unfold Moved at h1 h2 ⊢
  rw [h2, h1]

theorem wp_moveByte (cur : Pslot) (m : UInt32 × UInt32) (k : Kernel) :
    wp (moveByte cur m) (fun _ k' => Moved k k') (fun _ => True) k := by
  unfold moveByte loadByte storeByte
  rw [wp_bind, wp_bind, wp_gets]
  cases k.userByte cur m.2 with
  | none => trivial
  | some b =>
      rw [wp_pure, wp_bind, wp_gets]
      cases (k.proc cur).pgdir.bind (fun pgdir => k.vm.frameAt pgdir m.1) with
      | none => trivial
      | some pa => rfl

theorem wp_memmove (cur : Pslot) (dst src n : UInt32) (k : Kernel) :
    wp (memmove cur dst src n)
      (fun _ k' => Moved k k' ∧ (n = 0 -> k' = k)) (fun _ => n ≠ 0) k := by
  unfold memmove
  rcases eq_or_ne n 0 with rfl | hn
  · rw [moves_zero]
    exact ⟨rfl, fun _ => rfl⟩
  · refine wp_mono (wp_forEach (I := fun _ k' => Moved k k')
      (E := fun _ => True) rfl ?_)
      (fun _ _ hk' => ⟨hk', fun h => absurd h hn⟩) (fun _ _ => hn)
    intro m _ k1 hk1
    exact wp_post (wp_moveByte cur m k1) (fun _ _ hk2 => hk1.trans hk2)

/-- The copy changes nothing else: up to the contents of pages the call does
what `clone` does, and it returns where there is nothing to copy. -/
theorem wp_cloneFrame {cur : Pslot} {k : Kernel} (stack : UInt32)
    (hlive : (k.proc cur).state ≠ .UNUSED) :
    wp (cloneFrame cur stack)
      (fun r k' => exists k1, clone cur stack k = .ok (r, k1) ∧ Moved k1 k' ∧
        (k.parentSize cur = 0 -> k' = k1))
      (fun _ => k.parentSize cur ≠ 0) k := by
  rcases allocproc_returns { k with numofthread := k.numofthread + 1 } with
    ⟨r, k1, halloc, heffect⟩
  unfold cloneFrame clone
  rw [wp_bind, wp_modify, wp_bind]
  refine wp_of_ok halloc ?_
  cases r with
  | none =>
      exact ⟨k1, bind_eq_ok.mpr ⟨(), _, rfl, bind_eq_ok.mpr
        ⟨none, k1, halloc, rfl⟩⟩, rfl, fun _ => rfl⟩
  | some newp =>
      have hcur : k1.proc cur = k.proc cur := by
        show k1.procs.proc cur = _
        generalize k1.procs = t1 at heffect
        cases heffect with
        | found _ kstack hp _ =>
            have hne : cur ≠ newp := by
              rintro rfl
              exact hlive hp
            exact k.procs.counted.embryo_of_ne hne kstack
      simp only [wp_bind, wp_gets, setProc, wp_modify, pidOf, wp_pure]
      rw [hcur]
      refine wp_mono (wp_memmove cur _ _ _ _) ?_ (fun _ he => he)
      intro _ k2 hk2'
      rcases hk2' with ⟨hk2, hsame⟩
      refine ⟨{ k1 with
          proc := Function.update k1.proc newp
            (cloneThread cur (k.proc cur) stack (k1.proc newp)) },
        bind_eq_ok.mpr ⟨(), _, rfl, bind_eq_ok.mpr
          ⟨some newp, k1, halloc, ?_⟩⟩, ?_, ?_⟩
      · rw [congrArg Kernel.proc hk2, ← hcur]
        simp only [bind_run, gets, Run.modify, Function.update_self]
        rfl
      · unfold Moved at hk2 ⊢
        rw [hk2]
        simp [cloneThread]
      · intro hframe
        rw [hsame hframe]
        simp [cloneThread]

/-!
## Calls with nothing to copy
-/

theorem keeps_loadByte (cur : Pslot) (va : UInt32) :
    Keeps id (loadByte cur va) := by
  refine Turns.bind (keeps_gets _) (fun r => ?_)
  cases r with
  | none => exact keeps_stop _
  | some b => exact keeps_pure b

theorem keeps_argint (cur : Pslot) (n : Int32) : Keeps id (argint cur n) := by
  refine Turns.bind (keeps_gets _) (fun esp => Turns.bind (keeps_gets _)
    (fun sz => Turns.ite (keeps_pure none) ?_))
  exact Turns.bind (keeps_loadByte cur _) (fun _ =>
    Turns.bind (keeps_loadByte cur _) (fun _ =>
      Turns.bind (keeps_loadByte cur _) (fun _ =>
        Turns.bind (keeps_loadByte cur _) (fun _ => keeps_pure _))))

theorem keeps_argptr (cur : Pslot) (n size : Int32) :
    Keeps id (argptr cur n size) := by
  refine Turns.bind (keeps_argint cur n) (fun r => ?_)
  cases r with
  | none => exact keeps_pure none
  | some i =>
      exact Turns.bind (keeps_gets _)
        (fun _ => Turns.ite (keeps_pure none) (keeps_pure _))

theorem accepted_of_values {k : Kernel} {cur : Pslot} {stack : UInt32}
    {size : Int32} (hstack : value? (argptr cur 0 4 k) = some (some stack))
    (hsize : value? (argint cur 1 k) = some (some size)) :
    Accepted k cur stack size := by
  rcases value?_eq_some hstack with ⟨k1, hk1⟩
  rcases value?_eq_some hsize with ⟨k2, hk2⟩
  constructor
  · rw [hk1, show k1 = k from (keeps_argptr cur 0 4).ok hk1]
  · rw [hk2, show k2 = k from (keeps_argint cur 1).ok hk2]

theorem sysClone_cases {k k' : Kernel} {cur : Pslot} {r : Int}
    (hrun : sysClone cur k = .ok (r, k')) :
    r = -1 ∧ k' = k ∨
      exists stack, cloneFrame cur stack k = .ok (r, k') := by
  rcases bind_eq_ok.mp hrun with ⟨stack, k1, hstack, hrest⟩
  cases show k1 = k from (keeps_argptr cur 0 4).ok hstack
  cases stack with
  | none =>
      cases hrest
      exact Or.inl ⟨rfl, rfl⟩
  | some stack =>
      rcases bind_eq_ok.mp hrest with ⟨size, k2, hsize, hlast⟩
      cases show k2 = k from (keeps_argint cur 1).ok hsize
      cases size with
      | none =>
          cases hlast
          exact Or.inl ⟨rfl, rfl⟩
      | some size => exact Or.inr ⟨stack, hlast⟩

/-- The call is accepted, and the caller's frame is empty. -/
def plainClone (k : Kernel) (cur : Pslot) (stack : UInt32) : Bool :=
  value? (argptr cur 0 4 k) = some (some stack) &&
    (value? (argint cur 1 k)).join.isSome && k.parentSize cur = 0

theorem sysClone_plain {k : Kernel} {cur : Pslot} {stack : UInt32}
    (hlive : (k.proc cur).state ≠ .UNUSED)
    (h : k.plainClone cur stack = true) :
    sysClone cur k = clone cur stack k := by
  simp only [plainClone, Bool.and_eq_true, decide_eq_true_eq] at h
  rcases h with ⟨⟨hstack, hsize⟩, hframe⟩
  rcases Option.isSome_iff_exists.mp hsize with ⟨size, hjoin⟩
  have haccepted := accepted_of_values hstack (Option.join_eq_some_iff.mp hjoin)
  rw [sysClone_eq haccepted]
  have hwp := wp_cloneFrame stack hlive
  cases hrun : cloneFrame cur stack k with
  | error e =>
      have hne := wp_error hwp hrun
      exact absurd hframe hne
  | ok res =>
      rcases res with ⟨r, k'⟩
      rcases wp_ok hwp hrun with ⟨k1, hclone, _, hsame⟩
      rw [hclone, hsame hframe]

end Kernel
end Xv6
