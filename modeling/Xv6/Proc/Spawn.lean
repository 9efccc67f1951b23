import Xv6.Proc.Runs
import Xv6.Vm.Boot

/-!
# Forks that succeed

`fork` returns the pid of a child whenever there is a free slot, the caller's
image is mapped and there are free pages for a kernel stack, a page directory,
its tables and the copy of the image.
-/

namespace Xv6

open Lib Lib.Run

namespace Vm

/-- Every page is free or in use, `pgdir` is in use and maps its first `i`
pages, and `n` pages are free. -/
structure Room (pgdir : UInt32) (i n : Nat) (s : Vm) : Prop where
  others : exists o, Holds o none 0 s ∧ o.Has pgdir
  maps : forall j, j < i -> s.frame pgdir j ≠ none
  free : n ≤ s.freelist.length

section Room

variable {o : Others} {s s' : Vm} {pgdir : UInt32} {i n : Nat}

theorem Holds.settled {d : Option UInt32} {loose : Multiset UInt32}
    (h : Holds o d loose s') (hhas : o.Has pgdir)
    (hmaps : forall j, j < i -> o.image.frame pgdir j ≠ none)
    (hfree : n ≤ s'.freelist.length) : Room pgdir i n s' := by
  rcases h.entry_other hhas with ⟨htable, hentry⟩
  refine ⟨⟨{ o with pages := s'.space d + (loose + o.pages), mem := s'.mem },
    ⟨h.data, h.kend, ?_, fun _ _ => rfl⟩, ?_, fun t ht => ?_⟩, ?_, hfree⟩
  · show _ + (0 + (0 + (s'.space d + (loose + o.pages)))) = _
    rw [zero_add, zero_add]
    exact h.sum
  · exact Multiset.mem_add.mpr (.inr (Multiset.mem_add.mpr (.inr hhas.dir)))
  · refine Multiset.mem_add.mpr (.inr (Multiset.mem_add.mpr
      (.inr (hhas.tables t ?_))))
    change t ∈ s'.tables pgdir at ht
    unfold tables at ht ⊢
    rwa [htable] at ht
  · intro j hj
    rw [frame_congr (congrFun hentry j)]
    exact hmaps j hj

theorem Room.frame (h : Room pgdir i n s) :
    exists o, Holds o none 0 s ∧ o.Has pgdir ∧
      forall j, j < i -> o.image.frame pgdir j ≠ none := by
  rcases h.others with ⟨o, ho, hhas⟩
  refine ⟨o, ho, hhas, fun j hj => ?_⟩
  rw [← frame_congr (congrFun (ho.entry_other hhas).2 j)]
  exact h.maps j hj

theorem Room.wp_kalloc (h : Room pgdir i (1 + n) s) :
    wp kalloc (fun r s' => r ≠ none ∧ Room pgdir i n s') (fun _ => False) s := by
  have hlen := h.free
  rcases h.frame with ⟨o, ho, hhas, hmaps⟩
  apply wp_post ho.wp_kalloc
  intro r s' hpost
  rcases hpost with ⟨_, _, hempty⟩ | ⟨x, rfl, h', _, hfree⟩
  · rw [hempty, List.length_nil] at hlen
    lia
  · rw [hfree, List.length_cons] at hlen
    exact ⟨Option.some_ne_none x, h'.settled hhas hmaps (by lia)⟩

theorem Room.wp_copyuvm {sz : UInt32} (hsz : sz ≤ KERNBASE)
    (h : Room pgdir (pagesOf sz) (1 + (NPDENTRIES + (n + pagesOf sz) + 1)) s) :
    wp (copyuvm pgdir sz)
      (fun r s' => r ≠ none ∧ Room pgdir (pagesOf sz) n s')
      (fun _ => False) s := by
  have hlen := h.free
  rcases h.frame with ⟨o, ho, hhas, hmaps⟩
  have hcard := ho.card_none
  apply wp_post (ho.wp_copyuvm hsz hhas
    (fun j hj hnone => absurd hnone (hmaps j hj)))
  intro r s' hpost
  rcases hpost with ⟨_, _, hscarce⟩ | ⟨d, rfl, h', hcopy, _⟩
  · unfold Scarce at hscarce
    lia
  · have hle := h'.card_le
    have hframes := hcopy.card_le
    exact ⟨Option.some_ne_none d, h'.settled hhas hmaps (by lia)⟩

end Room

end Vm

namespace Kernel

/-- The process `cur` can fork, and `n` free pages are left then. -/
structure CanFork (n : Nat) (cur : Pslot) (k : Kernel) : Prop where
  live : (k.proc cur).state ≠ .UNUSED
  slot : exists p, (k.proc p).state = .UNUSED
  size : (k.proc cur).sz ≤ KERNBASE
  file : forall fd f, (k.proc cur).ofile fd = some f -> 1 ≤ (k.file f).ref
  cwd : (k.proc cur).cwd ≠ none
  room : exists pgdir, (k.proc cur).pgdir = some pgdir ∧
    k.vm.Room pgdir (pagesOf (k.proc cur).sz)
      (1 + (1 + (NPDENTRIES + (n + pagesOf (k.proc cur).sz) + 1)))

def Spawned (k k' : Kernel) : Prop :=
  exists p, (k.proc p).state = .UNUSED ∧ (k'.proc p).state = .RUNNABLE

theorem fork_returns {n : Nat} {cur : Pslot} {k : Kernel}
    (h : CanFork n cur k) :
    exists k', fork cur k = .ok (k.nextpid.toInt, k') ∧
      (exists d, (k.proc cur).pgdir = some d ∧
        k'.vm.Room d (pagesOf (k.proc cur).sz) n) ∧
      exists p kstack pgdir, (k.proc p).state = .UNUSED ∧
        (forall q, q < p -> (k.proc q).state ≠ .UNUSED) ∧
          k'.procs = k.procs.forked cur p kstack pgdir := by
  rcases h.room with ⟨d, hpgdir, hroom⟩
  rcases h.slot with ⟨p0, hp0⟩
  have hwp : wp (fork cur)
      (fun r k' => r = k.nextpid.toInt ∧
        k'.vm.Room d (pagesOf (k.proc cur).sz) n ∧
        exists p kstack pgdir, (k.proc p).state = .UNUSED ∧
          (forall q, q < p -> (k.proc q).state ≠ .UNUSED) ∧
            k'.procs = k.procs.forked cur p kstack pgdir)
      (fun _ => False) k := by
    apply wp_fork h.live
    · intro hnone
      cases hpgdir.symm.trans hnone
    · exact h.cwd
    · intro fd f hf hlow
      have hopen := h.file fd f hf
      lia
    · exact fun hfull => absurd hp0 (hfull p0)
    · intro p hp hfirst
      apply wp_post hroom.wp_kalloc
      rintro r s ⟨hr, hs⟩
      cases r with
      | none => exact absurd rfl hr
      | some x =>
          intro d' hd'
          cases hpgdir.symm.trans hd'
          apply wp_post (hs.wp_copyuvm h.size)
          rintro r s ⟨hr, hs⟩
          cases r with
          | none => exact absurd rfl hr
          | some copy =>
              exact fun _ _ _ => ⟨rfl, hs, p, x, copy, hp, hfirst, rfl⟩
  rcases wp_returns hwp with ⟨_, k', hrun, rfl, hroom', heffect⟩
  exact ⟨k', hrun, ⟨d, hpgdir, hroom'⟩, heffect⟩

theorem clone_returns {pgdir : UInt32} {i n : Nat} {cur : Pslot} {k : Kernel}
    (stack : UInt32) (hlive : (k.proc cur).state ≠ .UNUSED)
    (hslot : exists p, (k.proc p).state = .UNUSED)
    (hroom : k.vm.Room pgdir i (1 + n)) :
    exists k', clone cur stack k = .ok (k.nextpid.toInt, k') ∧
      exists p kstack, (k.proc p).state = .UNUSED ∧
        (forall q, q < p -> (k.proc q).state ≠ .UNUSED) ∧
          k'.procs = k.procs.cloned cur p kstack stack := by
  rcases hslot with ⟨p0, hp0⟩
  have hwp : wp (clone cur stack)
      (fun r k' => r = k.nextpid.toInt ∧
        exists p kstack, (k.proc p).state = .UNUSED ∧
          (forall q, q < p -> (k.proc q).state ≠ .UNUSED) ∧
            k'.procs = k.procs.cloned cur p kstack stack)
      (fun _ => False) k := by
    apply wp_clone hlive
    · exact fun hfull => absurd hp0 (hfull p0)
    · intro p hp hfirst
      apply wp_post hroom.wp_kalloc
      rintro r s ⟨hr, _⟩
      cases r with
      | none => exact absurd rfl hr
      | some x => exact ⟨rfl, p, x, hp, hfirst, rfl⟩
  rcases wp_returns hwp with ⟨_, k', hrun, rfl, heffect⟩
  exact ⟨k', hrun, heffect⟩

/-!
## The booted system
-/

theorem boot_room {i n : Nat} (hn : n + i ≤ 0xE000 - 0x444) :
    Vm.Room (pageAddr 0x401) 1 n
      { bootVm with freelist := bootVm.freelist.drop i } := by
  rcases boot_opened with ⟨o, h⟩
  have hlen : bootVm.freelist.length = 0xE000 - 0x444 := by
    simp [bootVm]
  have htaken : Vm.Holds (o.park bootVm (pageAddr 0x401)) none
      (bootVm.freelist.take i : List UInt32)
      { bootVm with freelist := bootVm.freelist.drop i } := by
    refine ⟨h.data, h.kend, ?_, h.park.mem⟩
    rw [← h.park.sum]
    show (bootVm.freelist.drop i : Multiset UInt32) + (0 + (_ + _)) =
      (bootVm.freelist : Multiset UInt32) + (0 + (0 + _))
    rw [zero_add, zero_add, zero_add, ← add_assoc, Multiset.coe_add,
      ← Multiset.coe_eq_coe.mpr List.perm_append_comm,
      List.take_append_drop]
  apply htaken.settled (Vm.park_has o bootVm _)
  · intro j hj
    exact (boot_maps j (by unfold UPAGES; lia)).mpr hj
  · rw [List.length_drop]
    lia

section CanFork

variable {k : Kernel} (hlive : (k.proc 0).state ≠ .UNUSED)
  (hslot : exists p, (k.proc p).state = .UNUSED)
  (hpgdir : (k.proc 0).pgdir = some (pageAddr 0x401))
  (hsz : (k.proc 0).sz = 4096)
  (hfile : forall fd f, (k.proc 0).ofile fd = some f -> 1 ≤ (k.file f).ref)
  (hcwd : (k.proc 0).cwd ≠ none)
include hlive hslot hpgdir hsz hfile hcwd

theorem canFork_room {n : Nat}
    (hroom : k.vm.Room (pageAddr 0x401) 1
      (1 + (1 + (NPDENTRIES + (n + 1) + 1)))) : CanFork n 0 k := by
  have hpages : pagesOf (k.proc 0).sz = 1 := by
    rw [hsz]
    decide
  refine ⟨hlive, hslot, ?_, hfile, hcwd, pageAddr 0x401, hpgdir, ?_⟩
  · rw [hsz]
    decide
  · rw [hpages]
    exact hroom

theorem canFork_init {i : Nat}
    (hvm : k.vm = { bootVm with freelist := bootVm.freelist.drop i })
    (hi : i ≤ 1000) : CanFork 5000 0 k := by
  apply canFork_room hlive hslot hpgdir hsz hfile hcwd
  rw [hvm]
  apply boot_room
  show 1 + (1 + (1024 + (5000 + 1) + 1)) + i ≤ 0xE000 - 0x444
  lia

end CanFork

theorem boot_canFork : CanFork 5000 0 boot := by
  refine canFork_init (i := 0) (by decide) ⟨1, by decide⟩ rfl rfl ?_
    (by decide) rfl (by decide)
  intro fd f h
  cases h

theorem child_steps {k : Kernel} {p : Pslot}
    (hcan : CanFork 5000 0 k) (hcur : (k.proc 0).state = .RUNNING)
    (hp : (k.proc p).state = .UNUSED)
    (hfirst : forall q, q < p -> (k.proc q).state ≠ .UNUSED) :
    exists k1 k' kstack pgdir, Step k (.fork 0) k1 ∧
      Step k1 (.dispatch p) k' ∧ (exists d, (k.proc 0).pgdir = some d ∧
        k'.vm.Room d (pagesOf (k.proc 0).sz) 5000) ∧
        k'.procs = (k.procs.forked 0 p kstack pgdir).set p
          (fun pr => { pr with state := .RUNNING, chan := none }) := by
  rcases fork_returns hcan with
    ⟨k1, hfork, hroom, q, kstack, pgdir, hq, hfirstq, hprocs⟩
  have hslot : q = p := first_unique hq hfirstq hp hfirst
  subst hslot
  have hproc : k1.proc q = (k.procs.forked 0 q kstack pgdir).proc q :=
    congrArg (fun t => Procs.proc t q) hprocs
  have hready : (k1.proc q).state = .RUNNABLE := by
    rw [hproc]
    simp [Procs.forked, Procs.map, forkChild]
  refine ⟨k1, next (.dispatch q) k1, kstack, pgdir,
    ⟨enabled_call rfl hcur, _, hfork⟩, step_next (enabled_dispatch hready) rfl,
    hroom, ?_⟩
  rw [← hprocs]
  rfl

theorem child_runs {C : Kernel -> Act -> Prop} {k : Kernel} {p : Pslot}
    (hruns : Runs Step C boot k) (hC : C k (.fork 0))
    (hC' : forall k', C k' (.dispatch p))
    (hcan : CanFork 5000 0 k) (hcur : (k.proc 0).state = .RUNNING)
    (hp : (k.proc p).state = .UNUSED)
    (hfirst : forall q, q < p -> (k.proc q).state ≠ .UNUSED) :
    exists k' kstack pgdir, (exists d, (k.proc 0).pgdir = some d ∧
        k'.vm.Room d (pagesOf (k.proc 0).sz) 5000) ∧
      Runs Step C boot k' ∧
      k'.procs = (k.procs.forked 0 p kstack pgdir).set p
        (fun pr => { pr with state := .RUNNING, chan := none }) := by
  rcases child_steps hcan hcur hp hfirst with
    ⟨k1, k', kstack, pgdir, hfork, hdispatch, hroom, hprocs⟩
  exact ⟨k', kstack, pgdir, hroom,
    (hruns.tail _ hC hfork).tail _ (hC' k1) hdispatch, hprocs⟩

end Kernel
end Xv6
