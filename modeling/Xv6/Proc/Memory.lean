import Xv6.Proc.Files
import Xv6.Vm.Boot

/-!
# The pages of the processes

A page that the allocator manages is free, or it belongs to an address space,
is a kernel stack or holds a pipe.  What the processes hold is read off the
process table, what the pipes hold off the file table.  A thread that is reaped
leaves its kernel stack to nobody; such pages are counted as lost.
-/

namespace Xv6
namespace Kernel

open Lib Lib.Run

/-!
## What is held
-/

structure Holding where
  pgdir : Option UInt32
  kstack : Option UInt32
  sz : UInt32

/-- What a slot of the process table holds, nothing if it is free. -/
def holding (pr : Proc) : Option Holding :=
  if pr.state = .UNUSED then none else some ⟨pr.pgdir, pr.kstack, pr.sz⟩

abbrev Holdings : Type := Pslot -> Option Holding

def holdings (k : Kernel) : Holdings := fun p => holding (k.proc p)

/-- The page and the direction of a file that is an end of a pipe. -/
def endOf (fl : File) : Option (UInt32 × Bool) :=
  if fl.type = .FD_PIPE then some (fl.pipe, fl.writable) else none

namespace Holdings

@[irreducible] def dirs (t : Holdings) : Finset UInt32 :=
  (gather (fun p => (t p).bind Holding.pgdir) Finset.univ).toFinset

@[irreducible] def kstacks (t : Holdings) : Multiset UInt32 :=
  gather (fun p => (t p).bind Holding.kstack) Finset.univ

theorem mem_dirs {t : Holdings} {d : UInt32} :
    d ∈ t.dirs ↔ exists p h, t p = some h ∧ h.pgdir = some d := by
  unfold dirs
  rw [Multiset.mem_toFinset, mem_gather]
  constructor
  · rintro ⟨p, _, hp⟩
    rcases Option.bind_eq_some_iff.mp hp with ⟨h, hh, hd⟩
    exact ⟨p, h, hh, hd⟩
  · rintro ⟨p, h, hh, hd⟩
    exact ⟨p, Finset.mem_univ p, Option.bind_eq_some_iff.mpr ⟨h, hh, hd⟩⟩

end Holdings

abbrev Ends : Type := Fslot -> Option (UInt32 × Bool)

@[irreducible] def Ends.pipes (e : Ends) : Finset UInt32 :=
  (gather (fun f => (e f).map Prod.fst) Finset.univ).toFinset

theorem Ends.mem_pipes {e : Ends} {p : UInt32} :
    p ∈ e.pipes ↔ exists f w, e f = some (p, w) := by
  unfold Ends.pipes
  rw [Multiset.mem_toFinset, mem_gather]
  constructor
  · rintro ⟨f, _, hf⟩
    rcases Option.map_eq_some_iff.mp hf with ⟨⟨q, w⟩, he, rfl⟩
    exact ⟨f, w, he⟩
  · rintro ⟨f, w, hf⟩
    exact ⟨f, Finset.mem_univ f, Option.map_eq_some_iff.mpr ⟨_, hf, rfl⟩⟩

/-- The memory, the ends of the pipes, and whether an end is open. -/
structure Memory where
  vm : Vm
  ends : Ends
  isOpen : UInt32 -> Bool -> Bool

def memory (k : Kernel) : Memory where
  vm := k.vm
  ends := fun f => endOf (k.file f)
  isOpen := fun p w => if w then (k.pipe p).writeopen else (k.pipe p).readopen

/-- Every page has one owner, `lost` apart. -/
structure Allotted (b : Vm.Managed) (lost : Multiset UInt32) (t : Holdings)
    (m : Memory) : Prop where
  data : m.vm.data = b.data
  kend : m.vm.kend = b.kend
  sum : (m.vm.freelist : Multiset UInt32) +
    (∑ d ∈ t.dirs, m.vm.pages d +
      (t.kstacks + (m.ends.pipes.val + lost))) = b.all
  isOpen : forall p w, m.isOpen p w = true ↔ exists f, m.ends f = some (p, w)
  inj : forall f f' e, m.ends f = some e -> m.ends f' = some e -> f = f'
  size : forall p h, t p = some h -> h.sz ≤ KERNBASE

/-!
## Between the kernel and one address space
-/

/-- The others of an operation: the address spaces `D` and the pages `P`. -/
def beside (b : Vm.Managed) (s : Vm) (D : Finset UInt32)
    (P : Multiset UInt32) : Vm.Others where
  toManaged := b
  pages := ∑ d ∈ D, s.pages d + P
  mem := s.mem

section Beside

variable {b : Vm.Managed} {lost P : Multiset UInt32} {t : Holdings}
  {m : Memory} {D : Finset UInt32} {s s' : Vm} {loose : Multiset UInt32}

theorem beside_mem {d pa : UInt32} (hd : d ∈ D) (hpa : pa ∈ s.pages d) :
    pa ∈ (beside b s D P).pages := by
  apply Multiset.mem_add.mpr
  exact .inl (Multiset.mem_of_le
    (Finset.single_le_sum (fun _ _ => Multiset.zero_le _) hd) hpa)

theorem beside_has {d : UInt32} (hd : d ∈ D) : (beside b s D P).Has d := by
  constructor
  · exact beside_mem hd (Multiset.mem_cons_self d _)
  · intro t ht
    exact beside_mem hd
      (Multiset.mem_cons_of_mem (Multiset.mem_add.mpr (.inl ht)))

theorem beside_keeps {d : UInt32} {d' : Option UInt32}
    (h : Vm.Holds (beside b s D P) d' loose s') (hd : d ∈ D) :
    s'.table d = s.table d ∧ s'.entry d = s.entry d :=
  h.entry_other (beside_has hd)

theorem beside_pages {d' : Option UInt32}
    (h : Vm.Holds (beside b s D P) d' loose s') :
    ∑ d ∈ D, s'.pages d = ∑ d ∈ D, s.pages d := by
  apply Finset.sum_congr rfl
  intro d hd
  rcases beside_keeps h hd with ⟨htable, hentry⟩
  exact Vm.pages_congr htable hentry

theorem beside_notMem {d : UInt32}
    (h : Vm.Holds (beside b s D P) (some d) loose s') : d ∉ D := by
  intro hd
  have hmem : d ∈ (beside b s D P).pages :=
    beside_mem hd (Multiset.mem_cons_self d _)
  exact (h.space_out (Multiset.mem_cons_self d _)).2 hmem

theorem Allotted.closed (h : Allotted b lost t m) :
    Vm.Holds (beside b m.vm t.dirs (t.kstacks + (m.ends.pipes.val + lost))) none 0
      m.vm := by
  constructor
  · exact h.data
  · exact h.kend
  · show _ + (0 + (0 + _)) = _
    rw [zero_add, zero_add]
    exact h.sum
  · exact fun _ _ => rfl

theorem Allotted.opened (h : Allotted b lost t m) {d : UInt32} (hd : d ∈ t.dirs) :
    Vm.Holds (beside b m.vm (t.dirs.erase d)
      (t.kstacks + (m.ends.pipes.val + lost))) (some d) 0 m.vm := by
  apply h.closed.divide
  · rfl
  · exact fun _ _ => rfl
  · show m.vm.pages d + (0 + (_ + _)) = 0 + (0 + (_ + _))
    rw [zero_add, zero_add, zero_add, ← Finset.add_sum_erase _ _ hd, add_assoc]

theorem Allotted.rest (h : Allotted b lost t m)
    (hs : Vm.Holds (beside b m.vm t.dirs (t.kstacks + (m.ends.pipes.val + lost)))
      none 0 s') : Allotted b lost t { m with vm := s' } := by
  have hsum := hs.sum
  change _ + (0 + (0 + (_ + _))) = b.all at hsum
  rw [zero_add, zero_add, ← beside_pages hs] at hsum
  exact ⟨hs.data, hs.kend, hsum, h.isOpen, h.inj, h.size⟩

theorem Allotted.work (h : Allotted b lost t m) {d : UInt32} (hd : d ∈ t.dirs)
    (hs : Vm.Holds (beside b m.vm (t.dirs.erase d)
      (t.kstacks + (m.ends.pipes.val + lost))) (some d) 0 s') :
    Allotted b lost t { m with vm := s' } := by
  have hsum := hs.sum
  change _ + (s'.pages d + (0 + (_ + _))) = b.all at hsum
  rw [zero_add, ← beside_pages hs, ← add_assoc (s'.pages d),
    Finset.add_sum_erase _ _ hd] at hsum
  exact ⟨hs.data, hs.kend, hsum, h.isOpen, h.inj, h.size⟩

end Beside

/-!
## A slot changes
-/

namespace Holdings

variable {t : Holdings} {p : Pslot}

def Unshared (t : Holdings) (p : Pslot) (d : UInt32) : Prop :=
  forall q h, q ≠ p -> t q = some h -> h.pgdir ≠ some d

theorem mem_dirs_update {v : Option Holding} {d : UInt32} :
    d ∈ dirs (Function.update t p v) ↔ v.bind Holding.pgdir = some d ∨
      exists q h, q ≠ p ∧ t q = some h ∧ h.pgdir = some d := by
  rw [mem_dirs]
  constructor
  · rintro ⟨q, h, hq, hd⟩
    rcases eq_or_ne q p with rfl | hne
    · rw [Function.update_self] at hq
      exact .inl (Option.bind_eq_some_iff.mpr ⟨h, hq, hd⟩)
    · rw [Function.update_of_ne hne] at hq
      exact .inr ⟨q, h, hne, hq, hd⟩
  · rintro (hv | ⟨q, h, hne, hq, hd⟩)
    · rcases Option.bind_eq_some_iff.mp hv with ⟨h, hh, hd⟩
      exact ⟨p, h, by rw [Function.update_self, hh], hd⟩
    · exact ⟨q, h, by rw [Function.update_of_ne hne, hq], hd⟩

theorem dirs_others {d : UInt32} (hp : t p = none) :
    (exists q h, q ≠ p ∧ t q = some h ∧ h.pgdir = some d) ↔ d ∈ t.dirs := by
  rw [mem_dirs]
  constructor
  · rintro ⟨q, h, _, hq, hd⟩
    exact ⟨q, h, hq, hd⟩
  · rintro ⟨q, h, hq, hd⟩
    refine ⟨q, h, ?_, hq, hd⟩
    rintro rfl
    rw [hp] at hq
    cases hq

theorem dirs_others_erase {h : Holding} {d d' : UInt32} (hp : t p = some h)
    (hd : h.pgdir = some d) (halone : t.Unshared p d) :
    (exists q h, q ≠ p ∧ t q = some h ∧ h.pgdir = some d') ↔
      d' ∈ t.dirs.erase d := by
  rw [Finset.mem_erase, mem_dirs]
  constructor
  · rintro ⟨q, h', hne, hq, hd'⟩
    refine ⟨?_, q, h', hq, hd'⟩
    rintro rfl
    exact halone q h' hne hq hd'
  · rintro ⟨hne, q, h', hq, hd'⟩
    refine ⟨q, h', ?_, hq, hd'⟩
    rintro rfl
    rw [hp] at hq
    cases hq
    rw [hd] at hd'
    cases hd'
    exact hne rfl

theorem kstacks_take {h : Holding} {x : UInt32} (hp : t p = none)
    (hx : h.kstack = some x) :
    kstacks (Function.update t p (some h)) = x ::ₘ t.kstacks := by
  unfold kstacks
  apply gather_fill (Finset.mem_univ p)
  · rw [hp]
    rfl
  · rw [Function.update_self]
    exact hx
  · intro q _ hq
    rw [Function.update_of_ne hq]

theorem kstacks_drop {h : Holding} {x : UInt32} (hp : t p = some h)
    (hx : h.kstack = some x) :
    t.kstacks = x ::ₘ kstacks (Function.update t p none) := by
  unfold kstacks
  apply gather_fill (Finset.mem_univ p)
  · rw [Function.update_self]
    rfl
  · rw [hp]
    exact hx
  · intro q _ hq
    rw [Function.update_of_ne hq]

theorem kstacks_keep {h h' : Holding} (hp : t p = some h)
    (hk : h'.kstack = h.kstack) :
    kstacks (Function.update t p (some h')) = t.kstacks := by
  unfold kstacks
  apply gather_congr
  intro q _
  rcases eq_or_ne q p with rfl | hne
  · rw [Function.update_self, hp]
    exact hk
  · rw [Function.update_of_ne hne]

theorem dirs_keep {h h' : Holding} (hp : t p = some h)
    (hd : h'.pgdir = h.pgdir) :
    dirs (Function.update t p (some h')) = t.dirs := by
  ext d
  rw [mem_dirs_update, mem_dirs]
  constructor
  · rintro (hv | ⟨q, h'', _, hq, hd'⟩)
    · exact ⟨p, h, hp, hd.symm.trans hv⟩
    · exact ⟨q, h'', hq, hd'⟩
  · rintro ⟨q, h'', hq, hd'⟩
    rcases eq_or_ne q p with rfl | hne
    · rw [hp] at hq
      cases hq
      exact .inl (hd.trans hd')
    · exact .inr ⟨q, h'', hne, hq, hd'⟩

theorem size_update {h : Holding}
    (hsize : forall q h, t q = some h -> h.sz ≤ KERNBASE)
    (hh : h.sz ≤ KERNBASE) (q : Pslot) (h' : Holding)
    (hq : Function.update t p (some h) q = some h') : h'.sz ≤ KERNBASE := by
  rcases eq_or_ne q p with rfl | hne
  · rw [Function.update_self] at hq
    cases hq
    exact hh
  · rw [Function.update_of_ne hne] at hq
    exact hsize q h' hq

end Holdings

section Slot

variable {b : Vm.Managed} {lost : Multiset UInt32} {t : Holdings}
  {m : Memory} {s' : Vm} {p : Pslot} {h : Holding}

theorem Allotted.fork (hown : Allotted b lost t m) {x d : UInt32}
    (hs : Vm.Holds (beside b m.vm t.dirs (t.kstacks + (m.ends.pipes.val + lost)))
      (some d) {x} s') (hp : t p = none) (hd : h.pgdir = some d)
    (hx : h.kstack = some x) (hsz : h.sz ≤ KERNBASE) :
    Allotted b lost (Function.update t p (some h)) { m with vm := s' } := by
  have hdirs : Holdings.dirs (Function.update t p (some h)) =
      insert d t.dirs := by
    ext d'
    rw [Holdings.mem_dirs_update, Holdings.dirs_others hp, Finset.mem_insert]
    show h.pgdir = some d' ∨ _ ↔ _
    rw [hd, Option.some_inj, eq_comm]
  have hnew := beside_notMem hs
  refine ⟨hs.data, hs.kend, ?_, hown.isOpen, hown.inj,
    Holdings.size_update hown.size hsz⟩
  have hsum := hs.sum
  change _ + (s'.pages d + ({x} + (_ + (t.kstacks + (m.ends.pipes.val + lost))))) =
    b.all at hsum
  rw [← beside_pages hs] at hsum
  show (s'.freelist : Multiset UInt32) + (∑ d ∈ _, s'.pages d +
    (_ + (m.ends.pipes.val + lost))) = _
  rw [hdirs, Finset.sum_insert hnew, Holdings.kstacks_take hp hx, ← hsum,
    ← Multiset.singleton_add]
  simp only [add_assoc, add_left_comm]

theorem Allotted.clone (hown : Allotted b lost t m) {x : UInt32}
    (hs : Vm.Holds (beside b m.vm t.dirs (t.kstacks + (m.ends.pipes.val + lost)))
      none {x} s') (hp : t p = none) {q : Pslot} {h' : Holding}
    (hq : t q = some h') (hd : h.pgdir = h'.pgdir) (hx : h.kstack = some x)
    (hsz : h.sz ≤ KERNBASE) :
    Allotted b lost (Function.update t p (some h)) { m with vm := s' } := by
  have hdirs : Holdings.dirs (Function.update t p (some h)) = t.dirs := by
    ext d'
    rw [Holdings.mem_dirs_update, Holdings.dirs_others hp]
    show h.pgdir = some d' ∨ _ ↔ _
    rw [hd, or_iff_right_iff_imp]
    exact fun hd' => Holdings.mem_dirs.mpr ⟨q, h', hq, hd'⟩
  refine ⟨hs.data, hs.kend, ?_, hown.isOpen, hown.inj,
    Holdings.size_update hown.size hsz⟩
  have hsum := hs.sum
  change _ + (0 + ({x} + (_ + (t.kstacks + (m.ends.pipes.val + lost))))) =
    b.all at hsum
  rw [← beside_pages hs] at hsum
  show (s'.freelist : Multiset UInt32) + (∑ d ∈ _, s'.pages d +
    (_ + (m.ends.pipes.val + lost))) = _
  rw [hdirs, Holdings.kstacks_take hp hx, ← hsum, ← Multiset.singleton_add,
    zero_add]
  simp only [add_assoc, add_left_comm]

theorem Allotted.reaping (hown : Allotted b lost t m) {x d : UInt32}
    (hp : t p = some h) (hd : h.pgdir = some d) (hx : h.kstack = some x) :
    Vm.Holds (beside b m.vm (t.dirs.erase d)
      (Holdings.kstacks (Function.update t p none) + (m.ends.pipes.val + lost)))
      (some d) {x} m.vm := by
  have hmem : d ∈ t.dirs := Holdings.mem_dirs.mpr ⟨p, h, hp, hd⟩
  apply (hown.opened hmem).divide
  · rfl
  · exact fun _ _ => rfl
  · show m.vm.pages d + ({x} + (_ + (_ + _))) =
      m.vm.pages d + (0 + (_ + (_ + _)))
    rw [Holdings.kstacks_drop hp hx, ← Multiset.singleton_add, zero_add]
    simp only [add_assoc, add_left_comm]

theorem Allotted.reaped (hown : Allotted b lost t m) {d : UInt32}
    (hs : Vm.Holds (beside b m.vm (t.dirs.erase d)
      (Holdings.kstacks (Function.update t p none) + (m.ends.pipes.val + lost)))
      none 0 s') (hp : t p = some h) (hd : h.pgdir = some d)
    (halone : t.Unshared p d) :
    Allotted b lost (Function.update t p none) { m with vm := s' } := by
  have hdirs : Holdings.dirs (Function.update t p none) = t.dirs.erase d := by
    ext d'
    rw [Holdings.mem_dirs_update, Holdings.dirs_others_erase hp hd halone]
    show none = some d' ∨ _ ↔ _
    simp
  refine ⟨hs.data, hs.kend, ?_, hown.isOpen, hown.inj, ?_⟩
  · have hsum := hs.sum
    change _ + (0 + (0 + (_ + _))) = b.all at hsum
    rw [zero_add, zero_add, ← beside_pages hs] at hsum
    show (s'.freelist : Multiset UInt32) + (∑ d ∈ _, s'.pages d + _) = _
    rw [hdirs]
    exact hsum
  · intro q h' hq
    rcases eq_or_ne q p with rfl | hne
    · rw [Function.update_self] at hq
      cases hq
    · rw [Function.update_of_ne hne] at hq
      exact hown.size q h' hq

theorem Allotted.replaced (hown : Allotted b lost t m) {d old : UInt32}
    {h' : Holding}
    (hs : Vm.Holds (beside b m.vm (t.dirs.erase old)
      (t.kstacks + (m.ends.pipes.val + lost))) (some d) 0 s')
    (hp : t p = some h) (hold : h.pgdir = some old)
    (halone : t.Unshared p old) (hd : h'.pgdir = some d)
    (hk : h'.kstack = h.kstack) (hsz : h'.sz ≤ KERNBASE) :
    Allotted b lost (Function.update t p (some h')) { m with vm := s' } := by
  have hdirs : Holdings.dirs (Function.update t p (some h')) =
      insert d (t.dirs.erase old) := by
    ext d'
    rw [Holdings.mem_dirs_update, Holdings.dirs_others_erase hp hold halone,
      Finset.mem_insert]
    show h'.pgdir = some d' ∨ _ ↔ _
    rw [hd, Option.some_inj, eq_comm]
  refine ⟨hs.data, hs.kend, ?_, hown.isOpen, hown.inj,
    Holdings.size_update hown.size hsz⟩
  have hsum := hs.sum
  change _ + (s'.pages d + (0 + (_ + _))) = b.all at hsum
  rw [zero_add, ← beside_pages hs] at hsum
  show (s'.freelist : Multiset UInt32) + (∑ d ∈ _, s'.pages d + (_ + _)) = _
  rw [hdirs, Finset.sum_insert (beside_notMem hs), Holdings.kstacks_keep hp hk,
    add_assoc]
  exact hsum

theorem Allotted.resized (hown : Allotted b lost t m) {h' : Holding}
    (hp : t p = some h) (hd : h'.pgdir = h.pgdir) (hk : h'.kstack = h.kstack)
    (hsz : h'.sz ≤ KERNBASE) :
    Allotted b lost (Function.update t p (some h')) m := by
  refine ⟨hown.data, hown.kend, ?_, hown.isOpen, hown.inj,
    Holdings.size_update hown.size hsz⟩
  rw [Holdings.dirs_keep hp hd, Holdings.kstacks_keep hp hk]
  exact hown.sum

theorem Allotted.abandoned (hown : Allotted b lost t m) (p : Pslot) :
    exists lost', Allotted b lost' (Function.update t p none) m := by
  have hstacks : exists l, t.kstacks =
      l + Holdings.kstacks (Function.update t p none) := by
    cases hp : t p with
    | none =>
        refine ⟨0, ?_⟩
        have hsame : Function.update t p none = t := by
          rw [← hp, Function.update_eq_self]
        rw [hsame, zero_add]
    | some h =>
        cases hx : h.kstack with
        | some x => exact ⟨{x}, Holdings.kstacks_drop hp hx⟩
        | none =>
            refine ⟨0, ?_⟩
            rw [zero_add]
            unfold Holdings.kstacks
            apply gather_congr
            intro q _
            rcases eq_or_ne q p with rfl | hne
            · rw [Function.update_self, hp]
              exact hx
            · rw [Function.update_of_ne hne]
  rcases hstacks with ⟨l, hl⟩
  have hsub : Holdings.dirs (Function.update t p none) ⊆ t.dirs := by
    intro d hd
    rcases Holdings.mem_dirs_update.mp hd with hv | ⟨q, h, _, hq, hd'⟩
    · cases hv
    · exact Holdings.mem_dirs.mpr ⟨q, h, hq, hd'⟩
  refine ⟨∑ d ∈ t.dirs \ Holdings.dirs (Function.update t p none),
    m.vm.pages d + (l + lost), hown.data, hown.kend, ?_, hown.isOpen,
    hown.inj, ?_⟩
  · rw [← hown.sum, hl, ← Finset.sum_sdiff hsub]
    simp only [add_assoc, add_left_comm]
  · intro q h' hq
    rcases eq_or_ne q p with rfl | hne
    · rw [Function.update_self] at hq
      cases hq
    · rw [Function.update_of_ne hne] at hq
      exact hown.size q h' hq

end Slot

/-!
## A pipe comes or goes
-/

section Pipe

variable {b : Vm.Managed} {lost : Multiset UInt32} {t : Holdings}
  {m : Memory} {s' : Vm}

theorem Allotted.pipeMade (hown : Allotted b lost t m) {x : UInt32}
    (hs : Vm.Holds (beside b m.vm t.dirs
      (t.kstacks + (m.ends.pipes.val + lost))) none {x} s')
    {f0 f1 : Fslot} (hne : f1 ≠ f0) (h0 : m.ends f0 = none)
    (h1 : m.ends f1 = none) :
    Allotted b lost t
      { vm := s'
        ends := Function.update (Function.update m.ends f0 (some (x, false)))
          f1 (some (x, true))
        isOpen := fun p w => if p = x then true else m.isOpen p w } := by
  have hends : forall f p w,
      Function.update (Function.update m.ends f0 (some (x, false))) f1
        (some (x, true)) f = some (p, w) ↔
          (f = f1 ∧ p = x ∧ w = true) ∨ (f = f0 ∧ p = x ∧ w = false) ∨
            m.ends f = some (p, w) := by
    intro f p w
    rcases eq_or_ne f f1 with rfl | hf1
    · rw [Function.update_self, h1]
      simp [hne, eq_comm]
    · rw [Function.update_of_ne hf1]
      rcases eq_or_ne f f0 with rfl | hf0
      · rw [Function.update_self, h0]
        simp [hf1, eq_comm]
      · rw [Function.update_of_ne hf0]
        simp [hf0, hf1]
  have hfresh : x ∉ m.ends.pipes := by
    intro hx
    apply (hs.loose_out (Multiset.mem_singleton_self x)).2
    show x ∈ _ + (_ + (m.ends.pipes.val + lost))
    rw [Multiset.mem_add, Multiset.mem_add, Multiset.mem_add]
    exact .inr (.inr (.inl hx))
  have hnone : forall f w, m.ends f ≠ some (x, w) :=
    fun f w hf => hfresh (Ends.mem_pipes.mpr ⟨f, w, hf⟩)
  have hpipes : Ends.pipes (Function.update
      (Function.update m.ends f0 (some (x, false))) f1 (some (x, true))) =
        insert x m.ends.pipes := by
    ext p
    rw [Ends.mem_pipes, Finset.mem_insert, Ends.mem_pipes]
    simp only [hends]
    constructor
    · rintro ⟨f, w, ⟨_, rfl, _⟩ | ⟨_, rfl, _⟩ | hf⟩
      · exact .inl rfl
      · exact .inl rfl
      · exact .inr ⟨f, w, hf⟩
    · rintro (rfl | ⟨f, w, hf⟩)
      · exact ⟨f1, true, .inl ⟨rfl, rfl, rfl⟩⟩
      · exact ⟨f, w, .inr (.inr hf)⟩
  refine ⟨hs.data, hs.kend, ?_, ?_, ?_, hown.size⟩
  · have hsum := hs.sum
    change _ + (0 + ({x} + (_ + (t.kstacks + (m.ends.pipes.val + lost))))) =
      b.all at hsum
    rw [← beside_pages hs] at hsum
    show (s'.freelist : Multiset UInt32) + (∑ d ∈ _, s'.pages d + _) = _
    rw [hpipes, Finset.insert_val_of_notMem hfresh, ← hsum,
      ← Multiset.singleton_add, zero_add]
    simp only [add_assoc, add_left_comm]
  · intro p w
    simp only [hends]
    rcases eq_or_ne p x with rfl | hp
    · rw [if_pos rfl]
      simp only [true_and, true_iff]
      cases w with
      | true => exact ⟨f1, .inl ⟨rfl, rfl⟩⟩
      | false => exact ⟨f0, .inr (.inl ⟨rfl, rfl⟩)⟩
    · rw [if_neg hp, hown.isOpen]
      simp [hp]
  · rintro f f' ⟨p, w⟩ hf hf'
    rw [hends] at hf hf'
    rcases hf with ⟨rfl, rfl, rfl⟩ | ⟨rfl, rfl, rfl⟩ | hf
    · rcases hf' with ⟨rfl, _⟩ | ⟨_, _, hw⟩ | hf'
      · rfl
      · cases hw
      · exact absurd hf' (hnone f' true)
    · rcases hf' with ⟨_, _, hw⟩ | ⟨rfl, _⟩ | hf'
      · cases hw
      · rfl
      · exact absurd hf' (hnone f' false)
    · rcases hf' with ⟨_, rfl, _⟩ | ⟨_, rfl, _⟩ | hf'
      · exact absurd hf (hnone f w)
      · exact absurd hf (hnone f w)
      · exact hown.inj f f' _ hf hf'

def closeEnd (o : UInt32 -> Bool -> Bool) (p : UInt32) (w : Bool) :
    UInt32 -> Bool -> Bool :=
  fun q v => if q = p ∧ v = w then false else o q v

theorem ends_closed {f : Fslot} {p : UInt32} {w : Bool}
    (hinj : forall f f' e, m.ends f = some e -> m.ends f' = some e -> f = f')
    (hf : m.ends f = some (p, w)) (f' : Fslot) (e : UInt32 × Bool) :
    Function.update m.ends f none f' = some e ↔
      m.ends f' = some e ∧ e ≠ (p, w) := by
  rcases eq_or_ne f' f with rfl | hne
  · rw [Function.update_self, hf]
    constructor
    · intro h
      cases h
    · rintro ⟨h, hne⟩
      cases h
      exact absurd rfl hne
  · rw [Function.update_of_ne hne]
    constructor
    · intro h
      refine ⟨h, ?_⟩
      rintro rfl
      exact hne (hinj f' f _ h hf)
    · exact fun h => h.1

theorem Allotted.isOpen_closed (hown : Allotted b lost t m) {f : Fslot}
    {p : UInt32} {w : Bool} (hf : m.ends f = some (p, w)) (q : UInt32)
    (v : Bool) : closeEnd m.isOpen p w q v = true ↔
      exists f', Function.update m.ends f none f' = some (q, v) := by
  unfold closeEnd
  simp only [ends_closed hown.inj hf]
  rcases Decidable.em (q = p ∧ v = w) with ⟨rfl, rfl⟩ | hne
  · simp
  · rw [if_neg hne, hown.isOpen]
    simp [hne]

theorem Allotted.inj_closed (hown : Allotted b lost t m) {f : Fslot}
    {p : UInt32} {w : Bool} (hf : m.ends f = some (p, w)) (f' f'' : Fslot)
    (e : UInt32 × Bool) (h' : Function.update m.ends f none f' = some e)
    (h'' : Function.update m.ends f none f'' = some e) : f' = f'' :=
  hown.inj f' f'' e ((ends_closed hown.inj hf f' e).mp h').1
    ((ends_closed hown.inj hf f'' e).mp h'').1

theorem Allotted.endClosed (hown : Allotted b lost t m) {f : Fslot} {p : UInt32}
    {w : Bool} (hf : m.ends f = some (p, w)) (hopen : m.isOpen p (!w) = true) :
    Allotted b lost t
      { m with
        ends := Function.update m.ends f none
        isOpen := closeEnd m.isOpen p w } := by
  have hpipes : Ends.pipes (Function.update m.ends f none) = m.ends.pipes := by
    ext q
    simp only [Ends.mem_pipes, ends_closed hown.inj hf]
    constructor
    · rintro ⟨f', v, hf', _⟩
      exact ⟨f', v, hf'⟩
    · rintro ⟨f', v, hf'⟩
      rcases eq_or_ne q p with rfl | hne
      · rcases (hown.isOpen q (!w)).mp hopen with ⟨f'', hf''⟩
        exact ⟨f'', !w, hf'', by simp⟩
      · exact ⟨f', v, hf', by simp [hne]⟩
  refine ⟨hown.data, hown.kend, ?_, hown.isOpen_closed hf, hown.inj_closed hf,
    hown.size⟩
  rw [← hown.sum, hpipes]

theorem Allotted.pipeClosing (hown : Allotted b lost t m) {p : UInt32}
    (hp : p ∈ m.ends.pipes) :
    Vm.Holds (beside b m.vm t.dirs
      (t.kstacks + ((m.ends.pipes.erase p).val + lost))) none {p} m.vm := by
  have hval : m.ends.pipes.val = {p} + (m.ends.pipes.erase p).val := by
    rw [Finset.erase_val, Multiset.singleton_add,
      Multiset.cons_erase (Finset.mem_def.mp hp)]
  apply hown.closed.divide
  · rfl
  · exact fun _ _ => rfl
  · show (0 : Multiset UInt32) + ({p} + (_ + (_ + (_ + _)))) =
      0 + (0 + (_ + (_ + (_ + _))))
    rw [hval, zero_add, zero_add, zero_add]
    simp only [add_assoc, add_left_comm]

theorem Allotted.pipeClosed (hown : Allotted b lost t m) {f : Fslot} {p : UInt32}
    {w : Bool} (hf : m.ends f = some (p, w)) (hopen : m.isOpen p (!w) ≠ true)
    (hs : Vm.Holds (beside b m.vm t.dirs
      (t.kstacks + ((m.ends.pipes.erase p).val + lost))) none 0 s') :
    Allotted b lost t
      { vm := s'
        ends := Function.update m.ends f none
        isOpen := closeEnd m.isOpen p w } := by
  have hpipes : Ends.pipes (Function.update m.ends f none) =
      m.ends.pipes.erase p := by
    ext q
    simp only [Ends.mem_pipes, Finset.mem_erase, ends_closed hown.inj hf]
    constructor
    · rintro ⟨f', v, hf', hne⟩
      refine ⟨?_, f', v, hf'⟩
      rintro rfl
      have hv : v = !w := by
        cases v <;> cases w <;> simp at hne ⊢
      exact hopen ((hown.isOpen q (!w)).mpr ⟨f', hv ▸ hf'⟩)
    · rintro ⟨hne, f', v, hf'⟩
      exact ⟨f', v, hf', by simp [hne]⟩
  refine ⟨hs.data, hs.kend, ?_, hown.isOpen_closed hf, hown.inj_closed hf,
    hown.size⟩
  have hsum := hs.sum
  change _ + (0 + (0 + (_ + _))) = b.all at hsum
  rw [zero_add, zero_add, ← beside_pages hs] at hsum
  show (s'.freelist : Multiset UInt32) + (∑ d ∈ _, s'.pages d + _) = _
  rw [hpipes]
  exact hsum

end Pipe

/-!
## The booted system
-/

theorem boot_allotted : Allotted bootManaged 0 boot.holdings boot.memory := by
  have hinit : boot.holdings 0 =
      some ⟨some (pageAddr 0x401), some (pageAddr 0x400), 4096⟩ := rfl
  have hother : forall p, p ≠ 0 -> boot.holdings p = none := by
    intro p hp
    show holding (if p = 0 then initProc else zeroProc) = none
    rw [if_neg hp]
    rfl
  have hdirs : boot.holdings.dirs = {pageAddr 0x401} := by
    ext d
    rw [Holdings.mem_dirs, Finset.mem_singleton]
    constructor
    · rintro ⟨p, h, hp, hd⟩
      rcases eq_or_ne p 0 with rfl | hne
      · rw [hinit] at hp
        cases hp
        exact (Option.some.inj hd).symm
      · rw [hother p hne] at hp
        cases hp
    · rintro rfl
      exact ⟨0, _, hinit, rfl⟩
  have hstacks : boot.holdings.kstacks = pageRange 0x400 1 := by
    unfold Holdings.kstacks
    rw [gather_erase_some (Finset.mem_univ 0) (a := pageAddr 0x400)
      (by rw [hinit]; rfl), gather_empty]
    · rfl
    · intro p hp
      rw [hother p (Finset.ne_of_mem_erase hp)]
      rfl
  have hends : forall f, boot.memory.ends f = none := fun _ => rfl
  have hpipes : boot.memory.ends.pipes = ∅ := by
    apply Finset.eq_empty_of_forall_notMem
    intro p hp
    rcases Ends.mem_pipes.mp hp with ⟨f, w, hf⟩
    rw [hends] at hf
    cases hf
  refine ⟨rfl, rfl, ?_, ?_, ?_, ?_⟩
  · rw [hdirs, hstacks, hpipes, Finset.sum_singleton]
    show pageRange 0x444 (0xE000 - 0x444) + (bootVm.pages (pageAddr 0x401) +
      (pageRange 0x400 1 + (0 + 0))) = pageRange 0x400 (0xE000 - 0x400)
    rw [boot_pages, pageRange_add 0x401 1 66, add_zero, add_zero,
      add_comm (pageRange 0x401 67), pageRange_add 0x400 1 67, add_comm,
      pageRange_add 0x400 68]
  · intro p w
    constructor
    · intro h
      cases w <;> cases h
    · rintro ⟨f, hf⟩
      rw [hends] at hf
      cases hf
  · intro f f' e hf
    rw [hends] at hf
    cases hf
  · intro p h hp
    rcases eq_or_ne p 0 with rfl | hne
    · rw [hinit] at hp
      cases hp
      decide
    · rw [hother p hne] at hp
      cases hp

end Kernel
end Xv6
