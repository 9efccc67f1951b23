import Xv6.Vm.Tables

/-!
# Who owns a page

The pages of an address space are its page directory, its page tables and what
its user half maps.  The free list, one address space that is being worked on,
some loose pages and the pages of everybody else together always are the same
pages, each of them once.  Whatever the functions do, they only move pages
between these four places.
-/

namespace Xv6

open Lib Lib.Run

namespace Vm

/-!
## The pages and their owners
-/

/-- What the linker script promises of its symbols: `data` is page aligned
between the end of low memory and the end of physical memory, and nothing is
managed at address 0. -/
structure Linked (data kend : UInt32) : Prop where
  data : exists m, data = pageAddr m ∧ 0x100 < m ∧ m < 0xE000
  kend : 0 < kend

/-- The pages that the allocator manages, and the linker's symbols. -/
structure Managed where
  all : Multiset UInt32
  data : UInt32
  kend : UInt32
  nodup : all.Nodup
  managed : forall pa, pa ∈ all ->
    pa.toNat % PGSIZE = 0 ∧ kend ≤ pa ∧ pa < PHYSTOP
  linked : Linked data kend

/-- What an operation leaves alone: the `pages` of others with the contents
`mem`. -/
structure Others extends Managed where
  pages : Multiset UInt32
  mem : UInt32 -> Page

/-- The pages of the address space that is worked on, if there is one. -/
def space (s : Vm) : Option UInt32 -> Multiset UInt32
  | none => 0
  | some d => s.pages d

/-- Every page is free, in the address space, loose or somebody else's. -/
structure Holds (o : Others) (d : Option UInt32) (loose : Multiset UInt32)
    (s : Vm) : Prop where
  data : s.data = o.data
  kend : s.kend = o.kend
  sum : (s.freelist : Multiset UInt32) + (s.space d + (loose + o.pages)) = o.all
  mem : forall pa, pa ∈ o.pages -> s.mem pa = o.mem pa

theorem PTE_ADDR_of_aligned {pa : UInt32} (h : pa.toNat % PGSIZE = 0) :
    PTE_ADDR pa = pa := by
  apply UInt32.toNat_inj.mp
  rw [PTE_ADDR_toNat]
  lia

section Moves

variable {o : Others} {s s' : Vm} {loose : Multiset UInt32}

section Apart

variable {d : Option UInt32}

theorem Holds.nodup (h : Holds o d loose s) :
    ((s.freelist : Multiset UInt32) +
      (s.space d + (loose + o.pages))).Nodup := by
  rw [h.sum]
  exact o.nodup

theorem Holds.free_out (h : Holds o d loose s) {x : UInt32}
    (hx : x ∈ s.freelist) : x ∉ s.space d ∧ x ∉ loose ∧ x ∉ o.pages := by
  have hapart := Multiset.disjoint_left.mp
    (Multiset.nodup_add.mp h.nodup).2.2 (Multiset.mem_coe.mpr hx)
  rw [Multiset.mem_add, Multiset.mem_add, not_or, not_or] at hapart
  exact hapart

theorem Holds.space_out (h : Holds o d loose s) {x : UInt32}
    (hx : x ∈ s.space d) : x ∉ loose ∧ x ∉ o.pages := by
  have hnodup := (Multiset.nodup_add.mp h.nodup).2.1
  have hapart := Multiset.disjoint_left.mp
    (Multiset.nodup_add.mp hnodup).2.2 hx
  rw [Multiset.mem_add, not_or] at hapart
  exact hapart

theorem Holds.loose_out (h : Holds o d loose s) {x : UInt32}
    (hx : x ∈ loose) : x ∉ s.space d ∧ x ∉ o.pages := by
  have hnodup := (Multiset.nodup_add.mp
    (Multiset.nodup_add.mp h.nodup).2.1).2.1
  constructor
  · exact fun hspace => (h.space_out hspace).1 hx
  · exact Multiset.disjoint_left.mp (Multiset.nodup_add.mp hnodup).2.2 hx

theorem Holds.space_nodup (h : Holds o d loose s) : (s.space d).Nodup :=
  (Multiset.nodup_add.mp (Multiset.nodup_add.mp h.nodup).2.1).1

theorem Holds.managed (h : Holds o d loose s) {x : UInt32}
    (hx : x ∈ s.freelist ∨ x ∈ s.space d ∨ x ∈ loose) :
    x.toNat % PGSIZE = 0 ∧ s.kend ≤ x ∧ x < PHYSTOP := by
  rw [h.kend]
  apply o.managed
  rw [← h.sum, Multiset.mem_add, Multiset.mem_add, Multiset.mem_add,
    Multiset.mem_coe]
  tauto

theorem Holds.move {d' : Option UInt32} {loose' : Multiset UInt32}
    (h : Holds o d loose s) (hdata : s'.data = s.data)
    (hkend : s'.kend = s.kend)
    (hmem : forall pa, pa ∈ o.pages -> s'.mem pa = s.mem pa)
    (hsum : (s'.freelist : Multiset UInt32) + (s'.space d' + loose') =
      (s.freelist : Multiset UInt32) + (s.space d + loose)) :
    Holds o d' loose' s' := by
  constructor
  · exact hdata.trans h.data
  · exact hkend.trans h.kend
  · rw [← h.sum, ← add_assoc (s'.space d'), ← add_assoc, hsum, add_assoc,
      add_assoc]
  · exact fun pa hpa => (hmem pa hpa).trans (h.mem pa hpa)

theorem space_write {x : UInt32}
    (hx : forall d', d = some d' -> x ≠ d' ∧ x ∉ s.tables d')
    (hmem : forall pa, pa ≠ x -> s'.mem pa = s.mem pa) :
    s'.space d = s.space d := by
  cases d with
  | none => rfl
  | some d =>
      rcases hx d rfl with ⟨hd, ht⟩
      rcases pages_write hd ht hmem with ⟨htable, hentry⟩
      exact pages_congr htable hentry

theorem notMem_space {x : UInt32} (hx : x ∉ s.space d) :
    forall d', d = some d' -> x ≠ d' ∧ x ∉ s.tables d' := by
  rintro d' rfl
  change x ∉ s.pages d' at hx
  unfold pages at hx
  rw [Multiset.mem_cons, not_or, Multiset.mem_add, not_or] at hx
  exact ⟨hx.1, hx.2.1⟩

theorem Holds.take (h : Holds o d loose s) {x : UInt32} {rest : List UInt32}
    (hfree : s.freelist = x :: rest) :
    Holds o d (x ::ₘ loose) { s with freelist := rest } := by
  have hspace : Vm.space { s with freelist := rest } d = s.space d := by
    cases d <;> rfl
  apply h.move
  · rfl
  · rfl
  · exact fun _ _ => rfl
  · rw [hspace, hfree]
    show (rest : Multiset UInt32) + _ = (x ::ₘ (rest : Multiset UInt32)) + _
    rw [Multiset.add_cons, Multiset.add_cons, Multiset.cons_add]

theorem Holds.fill (h : Holds o d loose s) {x : UInt32} (hx : x ∉ o.pages)
    (hspace : forall d', d = some d' -> x ≠ d' ∧ x ∉ s.tables d') (pg : Page) :
    Holds o d loose { s with mem := Function.update s.mem x pg } := by
  have hmem : forall pa, pa ≠ x ->
      Vm.mem { s with mem := Function.update s.mem x pg } pa = s.mem pa :=
    fun pa hpa => Function.update_of_ne hpa pg s.mem
  apply h.move
  · rfl
  · rfl
  · exact fun pa hpa => hmem pa (fun heq => hx (heq ▸ hpa))
  · rw [space_write hspace hmem]

theorem Holds.give {x : UInt32} (h : Holds o d (x ::ₘ loose) s) (pg : Page) :
    Holds o d loose
      { s with
        mem := Function.update s.mem x pg
        freelist := x :: s.freelist } := by
  rcases h.loose_out (Multiset.mem_cons_self x loose) with ⟨hspace, hout⟩
  have hfill := h.fill hout (notMem_space hspace) pg
  have hsame : Vm.space
      { s with
        mem := Function.update s.mem x pg
        freelist := x :: s.freelist } d =
      Vm.space { s with mem := Function.update s.mem x pg } d := by
    cases d <;> rfl
  apply hfill.move
  · rfl
  · rfl
  · exact fun _ _ => rfl
  · rw [hsame]
    show (x ::ₘ (s.freelist : Multiset UInt32)) + _ = _
    rw [Multiset.cons_add, Multiset.add_cons, Multiset.add_cons]

end Apart

section Space

variable {d : UInt32}

theorem Holds.dir_out (h : Holds o (some d) loose s) :
    d ∉ s.tables d ∧ d ∉ s.frames d := by
  have hnodup := h.space_nodup
  change (d ::ₘ (s.tables d + s.frames d)).Nodup at hnodup
  rw [Multiset.nodup_cons, Multiset.mem_add, not_or] at hnodup
  exact hnodup.1

theorem Holds.tables_nodup (h : Holds o (some d) loose s) :
    (s.tables d).Nodup ∧ (s.frames d).Nodup ∧
      Disjoint (s.tables d) (s.frames d) := by
  have hnodup := h.space_nodup
  change (d ::ₘ (s.tables d + s.frames d)).Nodup at hnodup
  exact Multiset.nodup_add.mp (Multiset.nodup_cons.mp hnodup).2

theorem Holds.table_ne (h : Holds o (some d) loose s) {j : Nat} {t : UInt32}
    (ht : s.table d j = some t) : t ≠ d := by
  rintro rfl
  exact h.dir_out.1 (table_mem ht)

theorem mem_space_frame {n : Nat} {pa : UInt32} (hn : n < UPAGES)
    (hpa : s.frame d n = some pa) : pa ∈ s.space (some d) :=
  Multiset.mem_cons_of_mem (Multiset.mem_add.mpr (.inr (frame_mem hn hpa)))

theorem Holds.frame_out (h : Holds o (some d) loose s) {n : Nat} {pa : UInt32}
    (hn : n < UPAGES) (hpa : s.frame d n = some pa) :
    pa ∉ o.pages ∧
      forall d', some d = some d' -> pa ≠ d' ∧ pa ∉ s.tables d' := by
  have hmem := frame_mem hn hpa
  refine ⟨(h.space_out (mem_space_frame hn hpa)).2, ?_⟩
  rintro d' ⟨⟩
  constructor
  · rintro rfl
    exact h.dir_out.2 hmem
  · exact Multiset.disjoint_right.mp h.tables_nodup.2.2 hmem

theorem Holds.fill_frame (h : Holds o (some d) loose s) {n : Nat}
    {pa : UInt32} (hn : n < UPAGES) (hpa : s.frame d n = some pa) (pg : Page) :
    Holds o (some d) loose { s with mem := Function.update s.mem pa pg } ∧
      Vm.table { s with mem := Function.update s.mem pa pg } d = s.table d ∧
      Vm.entry { s with mem := Function.update s.mem pa pg } d =
        s.entry d := by
  rcases h.frame_out hn hpa with ⟨hout, hspace⟩
  rcases hspace d rfl with ⟨hd, htables⟩
  refine ⟨h.fill hout hspace pg, pages_write hd htables ?_⟩
  exact fun x hx => Function.update_of_ne hx _ _

theorem Holds.tabled (h : Holds o (some d) loose s) : Tabled d s := by
  constructor
  · have hnodup := h.nodup
    rw [← add_assoc] at hnodup
    apply Multiset.nodup_of_le _ (Multiset.nodup_add.mp hnodup).1
    show _ ≤ _ + (d ::ₘ (s.tables d + s.frames d))
    rw [Multiset.add_cons, Multiset.cons_le_cons_iff, add_comm,
      add_le_add_iff_left]
    exact Multiset.le_add_right _ _
  · exact fun pa hpa => PTE_ADDR_of_aligned (h.managed (.inl hpa)).1

theorem Holds.mapped {v n : Nat} {loose' : Multiset UInt32}
    (h : Holds o (some d) loose s) (hmap : Mapped d v n s s')
    (hframes : s'.frames d + loose' = s.frames d + loose) :
    Holds o (some d) loose' s' := by
  apply h.move hmap.data hmap.kend
  · intro pa hpa
    apply hmap.mem
    · exact fun hfree => (h.free_out hfree).2.2 hpa
    · intro heq
      subst heq
      exact (h.space_out (Multiset.mem_cons_self pa _)).2 hpa
    · intro ht
      exact (h.space_out (Multiset.mem_cons_of_mem
        (Multiset.mem_add.mpr (.inl ht)))).2 hpa
  · show (s'.freelist : Multiset UInt32) +
      ((d ::ₘ (s'.tables d + s'.frames d)) + loose') =
        (s.freelist : Multiset UInt32) +
          ((d ::ₘ (s.tables d + s.frames d)) + loose)
    have hpool := hmap.pool
    simp only [Multiset.cons_add, Multiset.add_cons]
    rw [add_assoc, add_assoc, hframes, ← add_assoc, ← add_assoc,
      add_comm (s'.freelist : Multiset UInt32), hpool, add_comm (s.tables d),
      add_assoc, add_assoc]

theorem Holds.store (h : Holds o (some d) loose s) {n : Nat} {t v : UInt32}
    {loose' : Multiset UInt32} (ht : s.table d (n / 1024) = some t)
    (hframes : (s.store t (n % 1024) v).frames d + loose' =
      s.frames d + loose) :
    Holds o (some d) loose' (s.store t (n % 1024) v) :=
  h.mapped (Mapped.cons h.tabled (Walked.refl d _ s) ht
    (Mapped.refl d (n + 1) 0 _)) hframes

theorem Holds.store_entry (h : Holds o (some d) loose s) {n : Nat}
    {t : UInt32} (ht : s.table d (n / 1024) = some t) (v : UInt32) :
    (s.store t (n % 1024) v).entry d = Function.update (s.entry d) n v :=
  Vm.store_entry (h.table_ne ht) ht h.tables_nodup.1

theorem Holds.map {n : Nat} {pa : UInt32}
    (h : Holds o (some d) (pa ::ₘ loose) s) (hn : n < UPAGES)
    (hmap : Mapped d n 1 s s') (hnone : s.frame d n = none)
    (hpa : s'.frame d n = some pa) : Holds o (some d) loose s' := by
  apply h.mapped hmap
  have hframes : s'.frames d = pa ::ₘ s.frames d := by
    apply gather_fill (Finset.mem_range.mpr hn) hnone hpa
    exact fun m _ hm => frame_congr (hmap.entry m (by lia))
  rw [hframes, Multiset.cons_add, Multiset.add_cons]

theorem Holds.reflag {n : Nat} {t v : UInt32} (h : Holds o (some d) loose s)
    (ht : s.table d (n / 1024) = some t)
    (hv : n < UPAGES -> target v = s.frame d n) :
    Holds o (some d) loose (s.store t (n % 1024) v) := by
  apply h.store ht
  have hentry := h.store_entry ht v
  have hframes : (s.store t (n % 1024) v).frames d = s.frames d := by
    unfold frames
    apply gather_congr
    intro m hm
    show target _ = s.frame d m
    rw [hentry]
    rcases eq_or_ne m n with rfl | hne
    · rw [Function.update_self]
      exact hv (Finset.mem_range.mp hm)
    · rw [Function.update_of_ne hne]
      rfl
  rw [hframes]

theorem Holds.unmap {n : Nat} {t pa : UInt32} (h : Holds o (some d) loose s)
    (hn : n < UPAGES) (ht : s.table d (n / 1024) = some t)
    (hpa : s.frame d n = some pa) (pg : Page) :
    Holds o (some d) loose
      (Vm.store
        { s with
          mem := Function.update s.mem pa pg
          freelist := pa :: s.freelist } t (n % 1024) 0) := by
  have hentry := h.store_entry ht 0
  have hnone : (s.store t (n % 1024) 0).frame d n = none := by
    unfold frame
    rw [hentry, Function.update_self, target_zero]
  have hframes : s.frames d = pa ::ₘ (s.store t (n % 1024) 0).frames d := by
    unfold frames
    apply gather_fill (Finset.mem_range.mpr hn) hnone hpa
    intro m _ hm
    unfold frame
    rw [hentry, Function.update_of_ne hm]
  have hloose : Holds o (some d) (pa ::ₘ loose) (s.store t (n % 1024) 0) := by
    apply h.store ht
    rw [hframes, Multiset.cons_add, Multiset.add_cons]
  -- the two writes are to different pages
  have hne : t ≠ pa := fun heq =>
    ((h.frame_out hn hpa).2 d rfl).2 (heq ▸ table_mem ht)
  have hgive := hloose.give pg
  unfold Vm.store at hgive ⊢
  dsimp only at hgive ⊢
  rw [Function.update_of_ne hne, Function.update_comm hne.symm]
  exact hgive

theorem Holds.adopt (h : Holds o none (d ::ₘ loose) s) :
    Holds o (some d) loose
      { s with mem := Function.update s.mem d (fun _ => 0) } ∧
      Vm.entry { s with mem := Function.update s.mem d (fun _ => 0) } d =
        fun _ => 0 := by
  have htable : forall j, Vm.table
      { s with mem := Function.update s.mem d (fun _ => 0) } d j = none :=
    table_of_zero (Function.update_self ..)
  have hentry : Vm.entry
      { s with mem := Function.update s.mem d (fun _ => 0) } d =
        fun _ => 0 := by
    funext n
    exact entry_of_none (htable _)
  have htables : Vm.tables
      { s with mem := Function.update s.mem d (fun _ => 0) } d = 0 :=
    gather_empty (fun j _ => htable j)
  have hframes : Vm.frames
      { s with mem := Function.update s.mem d (fun _ => 0) } d = 0 := by
    apply gather_empty
    intro n _
    unfold frame
    rw [hentry, target_zero]
  refine ⟨?_, hentry⟩
  apply h.move
  · rfl
  · rfl
  · intro pa hpa
    have hne : pa ≠ d := by
      rintro rfl
      exact (h.loose_out (Multiset.mem_cons_self pa loose)).2 hpa
    exact Function.update_of_ne hne _ _
  · show (s.freelist : Multiset UInt32) + ((d ::ₘ (_ + _)) + loose) =
      (s.freelist : Multiset UInt32) + (0 + d ::ₘ loose)
    rw [htables, hframes, zero_add, zero_add, Multiset.cons_add, zero_add]

theorem Holds.release (h : Holds o (some d) loose s)
    (hnone : forall n, n < UPAGES -> s.frame d n = none) :
    Holds o none (d ::ₘ (s.tables d + loose)) s := by
  have hframes : s.frames d = 0 :=
    gather_empty (fun n hn => hnone n (Finset.mem_range.mp hn))
  apply h.move
  · rfl
  · rfl
  · exact fun _ _ => rfl
  · show (s.freelist : Multiset UInt32) + (0 + _) =
      (s.freelist : Multiset UInt32) +
        ((d ::ₘ (s.tables d + s.frames d)) + loose)
    rw [hframes, zero_add, add_zero, Multiset.cons_add]

end Space

theorem Holds.divide {o' : Others} {d d' : Option UInt32}
    {loose' : Multiset UInt32} (h : Holds o d loose s)
    (ho : o'.toManaged = o.toManaged)
    (hmem : forall pa, pa ∈ o'.pages -> s.mem pa = o'.mem pa)
    (hsum : s.space d' + (loose' + o'.pages) =
      s.space d + (loose + o.pages)) : Holds o' d' loose' s := by
  have hdata : o'.data = o.data := congrArg Managed.data ho
  have hkend : o'.kend = o.kend := congrArg Managed.kend ho
  have hall : o'.all = o.all := congrArg Managed.all ho
  constructor
  · exact h.data.trans hdata.symm
  · exact h.kend.trans hkend.symm
  · rw [hall, hsum, h.sum]
  · exact hmem

/-!
## Setting an address space aside
-/

/-- The others and the address space `d` as it is now. -/
def Others.park (o : Others) (s : Vm) (d : UInt32) : Others :=
  { o with
    pages := s.pages d + o.pages
    mem := s.mem }

section Park

variable {d : UInt32}

theorem Holds.park (h : Holds o (some d) loose s) :
    Holds (o.park s d) none loose s := by
  apply h.divide
  · rfl
  · exact fun _ _ => rfl
  · show 0 + (loose + (s.pages d + o.pages)) =
      s.pages d + (loose + o.pages)
    rw [zero_add, add_left_comm]

theorem park_keeps {d' : Option UInt32} (h : Holds (o.park s d) d' loose s') :
    s'.table d = s.table d ∧ s'.entry d = s.entry d := by
  have hmem : forall pa, pa ∈ s.pages d -> s'.mem pa = s.mem pa :=
    fun pa hpa => h.mem pa (Multiset.mem_add.mpr (.inl hpa))
  have hd := hmem d (Multiset.mem_cons_self d _)
  refine ⟨table_congr hd, entry_congr hd (fun t ht => hmem t ?_)⟩
  exact Multiset.mem_cons_of_mem (Multiset.mem_add.mpr (.inl ht))

theorem Holds.unpark {loose' : Multiset UInt32}
    (hold : Holds o (some d) loose' s)
    (h : Holds (o.park s d) none loose s') : Holds o (some d) loose s' := by
  rcases park_keeps h with ⟨htable, hentry⟩
  apply h.divide
  · rfl
  · intro pa hpa
    exact (h.mem pa (Multiset.mem_add.mpr (.inr hpa))).trans (hold.mem pa hpa)
  · show s'.pages d + (loose + o.pages) =
      0 + (loose + (s.pages d + o.pages))
    rw [pages_congr htable hentry, zero_add, add_left_comm]

theorem Holds.swap {old : UInt32} {loose' : Multiset UInt32}
    (hold : Holds o (some old) loose' s)
    (h : Holds (o.park s old) (some d) loose s') :
    Holds (o.park s' d) (some old) loose s' ∧
      Holds o (some d) (s'.pages old + loose) s' := by
  rcases park_keeps h with ⟨htable, hentry⟩
  have hpages := pages_congr htable hentry
  constructor
  · apply h.divide
    · rfl
    · exact fun _ _ => rfl
    · show s'.pages old + (loose + (s'.pages d + o.pages)) =
        s'.pages d + (loose + (s.pages old + o.pages))
      rw [hpages]
      simp only [add_left_comm]
  · apply h.divide
    · rfl
    · intro pa hpa
      exact (h.mem pa (Multiset.mem_add.mpr (.inr hpa))).trans
        (hold.mem pa hpa)
    · show s'.pages d + (s'.pages old + loose + o.pages) =
        s'.pages d + (loose + (s.pages old + o.pages))
      rw [hpages, add_comm (s.pages old), add_assoc]

end Park

end Moves

end Vm
end Xv6
