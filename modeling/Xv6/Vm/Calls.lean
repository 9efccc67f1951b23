import Xv6.Vm.Pages

/-!
# What the page-table functions do to the pages

Each function is specified once: where its pages go, in which range of page
numbers it changes the entries of its address space, and which panics it can
reach.  Every path is covered, with and without free pages.
-/

namespace Xv6

open Lib Lib.Run

def pagesOf (sz : UInt32) : Nat := (sz.toNat + 4095) / 4096

theorem pageAddr_lt {i : Nat} {sz : UInt32} (hi : i < 2 ^ 20) :
    pageAddr i < sz ↔ i < pagesOf sz := by
  rw [UInt32.lt_iff_toNat_lt, pageAddr_toNat hi]
  unfold pagesOf
  lia

theorem pagesOf_le {sz : UInt32} (h : sz ≤ KERNBASE) : pagesOf sz ≤ UPAGES := by
  have hnat := UInt32.le_iff_toNat_le.mp h
  change sz.toNat ≤ 0x80000000 at hnat
  unfold pagesOf UPAGES
  lia

theorem pagesOf_mono {a b : UInt32} (h : a ≤ b) : pagesOf a ≤ pagesOf b := by
  have hnat := UInt32.le_iff_toNat_le.mp h
  unfold pagesOf
  lia

theorem PGROUNDUP_eq {sz : UInt32} (h : sz ≤ KERNBASE) :
    PGROUNDUP sz = pageAddr (pagesOf sz) := by
  have hnat := UInt32.le_iff_toNat_le.mp h
  change sz.toNat ≤ 0x80000000 at hnat
  have hpages := pagesOf_le h
  have hsum : (sz + 4095).toNat = sz.toNat + 4095 := by
    rw [UInt32.toNat_add]
    show (_ + 4095) % 2 ^ 32 = _
    lia
  apply UInt32.toNat_inj.mp
  show (PTE_ADDR _).toNat = _
  rw [PTE_ADDR_toNat, hsum, pageAddr_toNat (by unfold UPAGES at hpages; lia)]
  unfold pagesOf
  lia

theorem pagesOf_le_add {a b : UInt32} (h : a ≤ KERNBASE) :
    pagesOf b ≤ pagesOf a + ((b - PGROUNDUP a).toNat / PGSIZE + 1) := by
  have hup := pagesOf_le h
  unfold UPAGES at hup
  rcases Nat.lt_or_ge (pagesOf a) (pagesOf b) with hlt | hge
  · have hlow : pageAddr (pagesOf a) ≤ b :=
      UInt32.le_of_lt ((pageAddr_lt (by lia)).mpr hlt)
    rw [PGROUNDUP_eq h, UInt32.toNat_sub_of_le _ _ hlow,
      pageAddr_toNat (by lia)]
    unfold pagesOf at hlt ⊢
    lia
  · lia

namespace Vm

section Calls

variable {o : Others} {s : Vm} {loose : Multiset UInt32} {E : Stop -> Prop}

/-!
## Single pages
-/

section Single

variable {d : Option UInt32}

theorem Holds.wp_kalloc (h : Holds o d loose s) :
    wp kalloc
      (fun r s' => (r = none ∧ s' = s ∧ s.freelist = []) ∨
        exists x, r = some x ∧ Holds o d (x ::ₘ loose) s' ∧
          s'.mem = s.mem ∧ s.freelist = x :: s'.freelist)
      E s := by
  unfold kalloc
  rw [wp_bind, wp_gets]
  cases hfree : s.freelist with
  | nil => exact .inl ⟨rfl, rfl, rfl⟩
  | cons x rest =>
      simp only [wp_bind, wp_modify, wp_pure]
      exact .inr ⟨x, rfl, h.take hfree, trivial, rfl⟩

theorem Holds.wp_kfree {x : UInt32} (h : Holds o d (x ::ₘ loose) s) :
    wp (kfree x)
      (fun _ s' => Holds o d loose s' ∧
        forall pa, pa ≠ x -> s'.mem pa = s.mem pa)
      E s := by
  have hx := h.managed (.inr (.inr (Multiset.mem_cons_self x loose)))
  unfold kfree
  rw [wp_bind, wp_gets, if_neg (by
    rw [not_or, not_or, not_not, UInt32.not_lt, UInt32.not_le]
    exact hx)]
  unfold memset setPage
  simp only [wp_bind, wp_modify]
  refine ⟨h.give _, ?_⟩
  intro pa hpa
  exact Function.update_of_ne hpa _ _

end Single

/-- There is no room for a page directory with all its tables and `n` pages. -/
def Scarce (o : Others) (loose : Multiset UInt32) (n : Nat) : Prop :=
  o.all.card ≤ NPDENTRIES + 1 + n + (loose + o.pages).card

theorem Scarce.mono {m n : Nat} (h : Scarce o loose m) (hmn : m ≤ n) :
    Scarce o loose n := by
  unfold Scarce at h ⊢
  lia

theorem Holds.card_none (h : Holds o none loose s) :
    s.freelist.length + (loose + o.pages).card = o.all.card := by
  rw [← h.sum, Multiset.card_add (s.freelist : Multiset UInt32),
    Multiset.coe_card]
  show _ = _ + Multiset.card (0 + (loose + o.pages))
  rw [zero_add]

section Space

variable {d : UInt32}

theorem Holds.card_le (h : Holds o (some d) loose s) :
    o.all.card ≤ s.freelist.length + (NPDENTRIES + 1 + (s.frames d).card +
      (loose + o.pages).card) := by
  have htables : (s.tables d).card ≤ (Finset.range NPDENTRIES).card :=
    card_gather_le _ _
  rw [Finset.card_range] at htables
  rw [← h.sum, Multiset.card_add, Multiset.coe_card, Multiset.card_add]
  show _ + (Multiset.card (d ::ₘ (s.tables d + s.frames d)) + _) ≤ _
  rw [Multiset.card_cons, Multiset.card_add]
  lia

theorem Holds.scarce {n : Nat} (h : Holds o (some d) loose s)
    (hempty : s.freelist = []) (hn : (s.frames d).card ≤ n) :
    Scarce o loose n := by
  have hcard := h.card_le
  rw [hempty, List.length_nil] at hcard
  unfold Scarce
  lia

theorem Holds.entry_loose {s' : Vm} {x : UInt32}
    (h : Holds o (some d) loose s) (hx : x ∈ loose)
    (hmem : forall pa, pa ≠ x -> s'.mem pa = s.mem pa) :
    s'.table d = s.table d ∧ s'.entry d = s.entry d := by
  rcases notMem_space (h.loose_out hx).1 d rfl with ⟨hd, ht⟩
  exact pages_write hd ht hmem

theorem frames_congr {s' : Vm} (h : s'.entry d = s.entry d) :
    s'.frames d = s.frames d := by
  unfold frames frame
  rw [h]

/-!
## Mapping a page
-/

theorem Holds.mem_mapped {s' : Vm} {x : UInt32} {v n : Nat}
    (h : Holds o (some d) loose s) (hx : x ∈ s.frames d ∨ x ∈ loose)
    (hmap : Mapped d v n s s') : s'.mem x = s.mem x := by
  rcases hx with hx | hx
  · have hspace : x ∈ s.space (some d) :=
      Multiset.mem_cons_of_mem (Multiset.mem_add.mpr (.inr hx))
    apply hmap.mem
    · exact fun hfree => (h.free_out hfree).1 hspace
    · intro heq
      subst heq
      exact h.dir_out.2 hx
    · exact Multiset.disjoint_right.mp h.tables_nodup.2.2 hx
  · rcases notMem_space (h.loose_out hx).1 d rfl with ⟨hd, ht⟩
    exact hmap.mem x (fun hfree => (h.free_out hfree).2.1 hx) hd ht

/-- The free page `x` was filled and mapped at `n` with the entry `e`. -/
structure Placed (d : UInt32) (n : Nat) (x e : UInt32) (pg : Page)
    (s s' : Vm) : Prop where
  fresh : x ∈ s.freelist
  frame : target e = some x
  entry : s'.entry d = Function.update (s.entry d) n e
  page : s'.mem x = pg
  mem : forall y, y ∈ s.frames d -> s'.mem y = s.mem y
  table : forall j, UPAGES / 1024 ≤ j -> s'.table d j = s.table d j
  free : s'.freelist <:+ s.freelist
  room : s.freelist.length ≤ s'.freelist.length + 2

theorem Placed.self {n : Nat} {x e : UInt32} {pg : Page} {s' : Vm}
    (h : Placed d n x e pg s s') : s'.frame d n = some x := by
  unfold Vm.frame
  rw [h.entry, Function.update_self]
  exact h.frame

theorem Placed.other {n m : Nat} {x e : UInt32} {pg : Page} {s' : Vm}
    (h : Placed d n x e pg s s') (hne : m ≠ n) :
    s'.entry d m = s.entry d m := by
  rw [h.entry, Function.update_of_ne hne]

theorem Holds.wp_place {perm x : UInt32} {n : Nat} {rest : List UInt32}
    (h : Holds o (some d) loose s) (hfree : s.freelist = x :: rest) (pg : Page)
    (hn : n < UPAGES) (hperm : PTE_ADDR perm = 0)
    (hremap : s.frame d n ≠ none -> E (.panic "remap")) :
    wp (mappages d (pageAddr n) 4096 x perm)
      (fun r s' =>
        (r = false ∧ Holds o (some d) (x ::ₘ loose) s' ∧
          s'.entry d = s.entry d ∧ s'.table d = s.table d ∧ rest = [] ∧
          s'.freelist = [] ∧
          forall y, y ∈ s.frames d -> s'.mem y = s.mem y) ∨
        (r = true ∧ Holds o (some d) loose s' ∧
          Placed d n x (x ||| perm ||| PTE_P) pg s s'))
      E { s with freelist := rest, mem := Function.update s.mem x pg } := by
  have hn' : n < 2 ^ 20 := by
    unfold UPAGES at hn
    lia
  have hxmem : x ∈ s.freelist := hfree ▸ List.mem_cons_self
  have hxspace := (h.free_out hxmem).1
  have hx := Multiset.mem_cons_self x loose
  have htake := h.take hfree
  have hfill := htake.fill (htake.loose_out hx).2 (notMem_space
    (htake.loose_out hx).1) pg
  rcases notMem_space hxspace d rfl with ⟨hd, ht⟩
  generalize hs1 : ({ s with
    freelist := rest, mem := Function.update s.mem x pg } : Vm) = s1
  have h1 : Holds o (some d) (x ::ₘ loose) s1 := hs1 ▸ hfill
  have hmem1 : forall y, y ≠ x -> s1.mem y = s.mem y :=
    fun y hy => hs1 ▸ Function.update_of_ne hy _ _
  have hself1 : s1.mem x = pg := hs1 ▸ Function.update_self ..
  have hfree1 : s1.freelist = rest := hs1 ▸ rfl
  rcases pages_write hd ht hmem1 with ⟨htable1, hentry1⟩
  have hframe1 : forall y, y ∈ s.frames d -> s1.mem y = s.mem y := by
    intro y hy
    apply hmem1
    intro heq
    subst heq
    exact hxspace (Multiset.mem_cons_of_mem (Multiset.mem_add.mpr (.inr hy)))
  have hframes1 := frames_congr hentry1
  have htarget : target (x ||| perm ||| PTE_P) = some x :=
    target_entry (PTE_ADDR_of_aligned (h.managed (.inl hxmem)).1) hperm
  show wp (mappages d (pageAddr n) (pageAddr 1) x perm) _ E s1
  rw [mappages_eq perm x (covers_pages (by lia) (by lia)),
    pageAddr_toNat hn', Nat.mul_div_cancel_left n (by decide)]
  apply h1.tabled.wp_mappagesLoop_succ hn'
  · rw [frame_congr (congrFun hentry1 n)]
    exact hremap
  · intro hempty
    exact .inl ⟨rfl, h1, hentry1, htable1, hfree1 ▸ hempty, hempty, hframe1⟩
  · intro s2 t hwalk hnone ht2
    have htabled2 := h1.tabled.walked hwalk
    have hmap : Mapped d n 1 s1
        (s2.store t (n % 1024) (x ||| perm ||| PTE_P)) :=
      Mapped.cons h1.tabled hwalk ht2 (Mapped.refl d (n + 1) 0 _)
    have hentry := htabled2.store_entry ht2 (x ||| perm ||| PTE_P)
    rw [hwalk.entry, hentry1] at hentry
    have hframe : (s2.store t (n % 1024) (x ||| perm ||| PTE_P)).frame d n =
        some x := by
      unfold Vm.frame
      rw [hentry, Function.update_self, htarget]
    refine .inr ⟨rfl, h1.map hn hmap hnone hframe, hxmem, htarget, hentry, ?_,
      ?_, ?_, ?_, ?_⟩
    · exact (h1.mem_mapped (.inr hx) hmap).trans hself1
    · intro y hy
      rw [h1.mem_mapped (.inl (hframes1 ▸ hy)) hmap]
      exact hframe1 y hy
    · intro j hj
      rw [hmap.table j (fun m hm hm' => by unfold UPAGES at hn hj; lia),
        htable1]
    · rw [hfree]
      exact (hfree1 ▸ hwalk.free).trans (List.suffix_cons x rest)
    · have hroom := hwalk.room
      rw [hfree1] at hroom
      rw [hfree, List.length_cons]
      exact Nat.succ_le_succ hroom

/-!
## Unmapping
-/

/-- The pages from `a` up to `b` are unmapped, the other entries as before. -/
structure Cleared (d : UInt32) (a b : Nat) (s s' : Vm) : Prop where
  gone : forall n, a ≤ n -> n < b -> s'.frame d n = none
  same : forall n, ¬ (a ≤ n ∧ n < b) -> s'.entry d n = s.entry d n

theorem Cleared.of_le {a b : Nat} (h : b ≤ a) : Cleared d a b s s := by
  constructor
  · intro n hn hn'
    lia
  · exact fun _ _ => rfl

theorem Cleared.cons {a c b : Nat} {s' s'' : Vm} (hac : a ≤ c)
    (hgone : forall n, a ≤ n -> n < c -> n < b -> s'.frame d n = none)
    (hsame : forall n, ¬ (a ≤ n ∧ n < c ∧ n < b) ->
      s'.entry d n = s.entry d n)
    (h : Cleared d c b s' s'') : Cleared d a b s s'' := by
  constructor
  · intro n hn hn'
    rcases Nat.lt_or_ge n c with hlt | hge
    · rw [frame_congr (h.same n (by lia))]
      exact hgone n hn hlt hn'
    · exact h.gone n hge hn'
  · intro n hn
    rw [h.same n (by lia), hsame n (by lia)]

/-- The user pages with `P` keep their contents, and the kernel its tables. -/
structure Spares (d : UInt32) (P : Nat -> Prop) (s s' : Vm) : Prop where
  mem : forall n pa, n < UPAGES -> P n -> s.frame d n = some pa ->
    s'.mem pa = s.mem pa
  table : forall j, UPAGES / 1024 ≤ j -> s'.table d j = s.table d j

theorem Spares.refl (d : UInt32) (P : Nat -> Prop) (s : Vm) : Spares d P s s :=
  ⟨fun _ _ _ _ _ => rfl, fun _ _ => rfl⟩

theorem Spares.mono {P Q : Nat -> Prop} {s' : Vm} (h : Spares d P s s')
    (hQ : forall n, Q n -> P n) : Spares d Q s s' :=
  ⟨fun n pa hn hn' => h.mem n pa hn (hQ n hn'), h.table⟩

theorem Spares.trans {P : Nat -> Prop} {s' s'' : Vm} (h : Spares d P s s')
    (hentry : forall n, P n -> s'.entry d n = s.entry d n)
    (h' : Spares d P s' s'') : Spares d P s s'' := by
  constructor
  · intro n pa hn hP hpa
    rw [← h.mem n pa hn hP hpa]
    exact h'.mem n pa hn hP ((frame_congr (hentry n hP)).trans hpa)
  · intro j hj
    rw [h'.table j hj, h.table j hj]

theorem Holds.wp_unmap (h : Holds o (some d) loose s) {n : Nat}
    {t pa : UInt32} {m : VmM Unit} {Q : Unit -> Vm -> Prop} (hn : n < UPAGES)
    (ht : s.table d (n / 1024) = some t) (hpa : s.frame d n = some pa)
    (hm : forall s', Holds o (some d) loose s' ->
      s'.entry d = Function.update (s.entry d) n 0 ->
      (forall x, x ∈ s.frames d -> x ≠ pa -> s'.mem x = s.mem x) ->
      s'.table d = s.table d -> wp m Q E s') :
    wp (do
      kfree pa
      setWord t (n % 1024) 0
      m) Q E s := by
  have hmanaged := h.managed (.inr (.inl (mem_space_frame hn hpa)))
  rcases (h.frame_out hn hpa).2 d rfl with ⟨hd, htables⟩
  unfold kfree
  simp only [wp_bind, wp_gets]
  rw [if_neg (by
    rw [not_or, not_or, not_not, UInt32.not_lt, UInt32.not_le]
    exact hmanaged)]
  unfold memset setWord setPage
  simp only [wp_bind, wp_modify]
  -- the state between the two writes
  generalize hs1 : ({ s with
    mem := Function.update s.mem pa (fun _ => 1)
    freelist := pa :: s.freelist } : Vm) = s1
  have hunmap : Holds o (some d) loose (s1.store t (n % 1024) 0) :=
    hs1 ▸ h.unmap hn ht hpa _
  have hmem1 : forall x, x ≠ pa -> s1.mem x = s.mem x :=
    fun x hx => hs1 ▸ Function.update_of_ne hx _ _
  rcases pages_write hd htables hmem1 with ⟨htable1, hentry1⟩
  have hnodup : (s1.tables d).Nodup := by
    unfold tables
    rw [htable1]
    exact h.tables_nodup.1
  have htd := h.table_ne ht
  subst hs1
  apply hm _ hunmap
  · rw [← hentry1]
    exact Vm.store_entry htd (by rw [htable1]; exact ht) hnodup
  · intro x hx hne
    have hxt : x ≠ t := fun heq =>
      Multiset.disjoint_right.mp h.tables_nodup.2.2 hx (heq ▸ table_mem ht)
    exact (Function.update_of_ne hxt _ _).trans (hmem1 x hne)
  · exact (store_table htd).trans htable1

theorem Cleared.succ {i b : Nat} {s' s'' : Vm} (hib : i < b)
    (hentry : s'.entry d = Function.update (s.entry d) i (s'.entry d i))
    (hnone : s'.frame d i = none) (h : Cleared d (i + 1) b s' s'') :
    Cleared d i b s s'' := by
  apply h.cons (Nat.le_succ i)
  · intro n hn hn' _
    obtain rfl : n = i := by lia
    exact hnone
  · intro n hn
    rw [hentry, Function.update_of_ne (by lia)]

theorem Holds.wp_deallocuvmLoop {oldsz : UInt32} (hold : oldsz ≤ KERNBASE)
    (fuel : Nat) {i : Nat} (h : Holds o (some d) loose s)
    (hi : i ≤ UPAGES) (hfuel : pagesOf oldsz ≤ i + fuel) :
    wp (deallocuvmLoop d oldsz fuel (pageAddr i))
      (fun _ s' => Holds o (some d) loose s' ∧
        Cleared d i (pagesOf oldsz) s s' ∧
        Spares d (fun n => ¬ (i ≤ n ∧ n < pagesOf oldsz)) s s' ∧
        s'.table d = s.table d)
      E s := by
  have hlast := pagesOf_le hold
  induction fuel generalizing i s with
  | zero => exact ⟨h, Cleared.of_le hfuel, Spares.refl d _ s, rfl⟩
  | succ fuel ih =>
      have hi' : i < 2 ^ 20 := by
        unfold UPAGES at hi
        lia
      unfold deallocuvmLoop
      rw [wp_ite, pageAddr_lt hi']
      constructor
      · intro hlt
        have hiu : i < UPAGES := by lia
        rw [wp_bind, wp_walkpgdir_find, PDX_pageAddr hi', PTX_pageAddr hi']
        cases ht : s.table d (i / 1024) with
        | none =>
            -- no page of this table is mapped
            have hskip : UInt32.ofNat ((i / 1024 + 1) * 2 ^ 22) =
                pageAddr ((i / 1024 + 1) * 1024) := by
              unfold pageAddr
              congr 1
              lia
            show wp (deallocuvmLoop d oldsz fuel _) _ E s
            rw [hskip]
            apply wp_post (ih h (by unfold UPAGES at hiu ⊢; lia) (by lia))
            intro _ s' hpost
            rcases hpost with ⟨h', hclear, hspares, htable⟩
            refine ⟨h', hclear.cons (by lia) ?_ (fun _ _ => rfl),
              hspares.mono (fun n hP => by lia), htable⟩
            intro n hn hn' _
            have hdiv : n / 1024 = i / 1024 := by lia
            unfold frame
            rw [entry_of_none (hdiv ▸ ht), target_zero]
        | some t =>
            have hword : s.wordAt t (i % 1024) = s.entry d i :=
              (entry_of_table ht).symm
            show wp (do
              let pte ← word t (i % 1024)
              _) _ E s
            unfold word
            rw [wp_bind, wp_gets, pageAddr_succ]
            apply wp_ite.mpr
            constructor
            · intro hpres
              have hframe : s.frame d i =
                  some (PTE_ADDR (s.wordAt t (i % 1024))) := by
                unfold frame target
                rw [← hword]
                exact if_pos hpres
              have hmanaged := h.managed
                (.inr (.inl (mem_space_frame hiu hframe)))
              have hne : PTE_ADDR (s.wordAt t (i % 1024)) ≠ 0 := by
                intro hzero
                rw [hzero, h.kend] at hmanaged
                exact absurd (UInt32.lt_of_lt_of_le o.linked.kend
                  hmanaged.2.1) (UInt32.lt_irrefl 0)
              change PTE_ADDR ((s.mem t).u32 (4 * (i % 1024))) ≠ 0 at hne
              rw [if_neg hne]
              apply h.wp_unmap hiu ht hframe
              intro s1 h1 hentry hmem htable1
              have hgone : s1.entry d i = 0 := by
                rw [hentry, Function.update_self]
              have hspares1 : Spares d
                  (fun n => ¬ (i ≤ n ∧ n < pagesOf oldsz)) s s1 := by
                refine ⟨fun n pa hn hP hpa => ?_, fun j _ => by rw [htable1]⟩
                -- the other pages are not the one that is freed
                apply hmem pa (frame_mem hn hpa)
                intro heq
                subst heq
                have hsame := gather_inj h.tables_nodup.2.1
                  (Finset.mem_range.mpr hn) (Finset.mem_range.mpr hiu) hpa
                  hframe
                lia
              apply wp_post (ih h1 (by lia) (by lia))
              intro _ s2 hpost
              rcases hpost with ⟨h2, hclear, hspares, htable2⟩
              refine ⟨h2, hclear.succ hlt (hgone ▸ hentry) ?_, ?_,
                htable2.trans htable1⟩
              · unfold frame
                rw [hgone, target_zero]
              · apply hspares1.trans _ (hspares.mono (fun n hP => by lia))
                intro n hP
                rw [hentry, Function.update_of_ne (by lia)]
            · intro hpres
              apply wp_post (ih h (by lia) (by lia))
              intro _ s' hpost
              rcases hpost with ⟨h', hclear, hspares, htable⟩
              refine ⟨h', hclear.succ hlt (Function.update_eq_self i _).symm ?_,
                hspares.mono (fun n hP => by lia), htable⟩
              rw [frame_eq_none, ← hword]
              exact not_not.mp hpres
      · intro hge
        exact ⟨h, Cleared.of_le (by lia), Spares.refl d _ s, rfl⟩

theorem Holds.wp_deallocuvm (h : Holds o (some d) loose s)
    {oldsz newsz : UInt32} (hold : oldsz ≤ KERNBASE) :
    wp (deallocuvm d oldsz newsz)
      (fun r s' => r = (if oldsz ≤ newsz then oldsz else newsz) ∧
        Holds o (some d) loose s' ∧
        Cleared d (pagesOf newsz) (pagesOf oldsz) s s' ∧
        Spares d (fun n => ¬ (pagesOf newsz ≤ n ∧ n < pagesOf oldsz)) s s' ∧
        s'.table d = s.table d)
      E s := by
  unfold deallocuvm
  rw [wp_ite]
  constructor
  · intro hle
    rw [if_pos hle]
    exact ⟨rfl, h, Cleared.of_le (pagesOf_mono hle), Spares.refl d _ s, rfl⟩
  · intro hlt
    rw [if_neg hlt]
    have hle := UInt32.le_of_lt (UInt32.not_le.mp hlt)
    have hnew := UInt32.le_trans hle hold
    have hup := pagesOf_le hnew
    have hfuel : pagesOf oldsz ≤ pagesOf newsz +
        ((oldsz - PGROUNDUP newsz).toNat / PGSIZE + 1) :=
      pagesOf_le_add hnew
    show wp (do
      deallocuvmLoop d oldsz ((oldsz - PGROUNDUP newsz).toNat / PGSIZE + 1)
        (PGROUNDUP newsz)
      pure newsz) _ E s
    rw [wp_bind]
    generalize (oldsz - PGROUNDUP newsz).toNat / PGSIZE + 1 = fuel at hfuel ⊢
    rw [PGROUNDUP_eq hnew]
    exact wp_post (h.wp_deallocuvmLoop hold fuel hup hfuel)
      (fun _ s' hpost => ⟨rfl, hpost⟩)

/-!
## Freeing an address space
-/

theorem Holds.wp_freePde {l : List Nat} {f : Nat -> Option UInt32} {j : Nat}
    (hj : j < NPDENTRIES)
    (h : Holds o none (d ::ₘ (((j :: l).filterMap f : List UInt32) + loose)) s)
    (hf : s.table d = f) :
    wp (freePde d j)
      (fun _ s' =>
        Holds o none (d ::ₘ ((l.filterMap f : List UInt32) + loose)) s' ∧
        s'.table d = f)
      E s := by
  have htable : f j = target (s.wordAt d j) := by
    rw [← hf]
    exact if_pos hj
  unfold freePde word
  rw [wp_bind, wp_gets, wp_ite]
  constructor
  · intro hpres
    have hsome : f j = some (PTE_ADDR ((s.mem d).u32 (4 * j))) := by
      rw [htable]
      exact if_pos hpres
    generalize PTE_ADDR ((s.mem d).u32 (4 * j)) = t at hsome
    rw [List.filterMap_cons_some hsome] at h
    have hswap : d ::ₘ (((t :: l.filterMap f : List UInt32) :
        Multiset UInt32) + loose) =
          t ::ₘ (d ::ₘ ((l.filterMap f : List UInt32) + loose)) := by
      rw [← Multiset.cons_coe, Multiset.cons_add, Multiset.cons_swap]
    rw [hswap] at h
    have hne : d ≠ t := by
      rintro rfl
      have hnodup := h.nodup
      rw [Multiset.nodup_add, Multiset.nodup_add, Multiset.nodup_add,
        Multiset.nodup_cons] at hnodup
      exact hnodup.2.1.2.1.1.1 (Multiset.mem_cons_self d _)
    apply wp_post h.wp_kfree
    rintro _ s' ⟨h', hmem⟩
    exact ⟨h', (table_congr (hmem d hne)).trans hf⟩
  · intro hpres
    have hnone : f j = none := by
      rw [htable]
      exact if_neg hpres
    rw [List.filterMap_cons_none hnone] at h
    exact ⟨h, hf⟩

theorem Holds.wp_freePdes (f : Nat -> Option UInt32) (l : List Nat)
    (hl : forall j, j ∈ l -> j < NPDENTRIES)
    (h : Holds o none (d ::ₘ ((l.filterMap f : List UInt32) + loose)) s)
    (hf : s.table d = f) :
    wp (forEach (freePde d) l) (fun _ s' => Holds o none (d ::ₘ loose) s')
      E s := by
  induction l generalizing s with
  | nil =>
      rw [List.filterMap_nil, Multiset.coe_nil, zero_add] at h
      exact h
  | cons j rest ih =>
      unfold forEach
      rw [wp_bind]
      apply wp_post (h.wp_freePde (hl j List.mem_cons_self) hf)
      rintro _ s' ⟨h', hf'⟩
      exact ih (fun i hi => hl i (List.mem_cons_of_mem j hi)) h' hf'

theorem Holds.wp_freevm (h : Holds o (some d) loose s) :
    wp (freevm (some d)) (fun _ s' => Holds o none loose s') E s := by
  have hpages : pagesOf KERNBASE = UPAGES := by decide
  have hzero : pagesOf 0 = 0 := by decide
  have hrange : forall j, j ∈ List.range NPDENTRIES -> j < NPDENTRIES :=
    fun j hj => List.mem_range.mp hj
  unfold freevm
  generalize hl : List.range NPDENTRIES = l at hrange ⊢
  simp only [wp_bind]
  apply wp_post (h.wp_deallocuvm (UInt32.le_refl _))
  rintro _ s1 ⟨_, h1, hclear, _⟩
  rw [hpages, hzero] at hclear
  have hloose := h1.release (fun n hn => hclear.gone n (Nat.zero_le n) hn)
  unfold tables at hloose
  rw [gather_range, hl] at hloose
  apply wp_post (hloose.wp_freePdes (s1.table d) l hrange rfl)
  intro _ s2 h2
  exact wp_post h2.wp_kfree (fun _ _ h3 => h3.1)

end Space

end Calls

end Vm
end Xv6
