import Xv6.Vm.Grow

/-!
# Copies of user memory

`copyuvm` copies an address space, and `copyout` copies bytes into one.
-/

namespace Xv6
namespace Vm

open Lib Lib.Run

section Space

variable {o : Others} {s : Vm} {loose : Multiset UInt32} {E : Stop -> Prop}
  {d : UInt32}

/-!
## Copying
-/

def Others.image (o : Others) : Vm where
  data := o.data
  kend := o.kend
  freelist := []
  mem := o.mem

structure Others.Has (o : Others) (d : UInt32) : Prop where
  dir : d ∈ o.pages
  tables : forall t, t ∈ o.image.tables d -> t ∈ o.pages

theorem park_has (o : Others) (s : Vm) (d : UInt32) : (o.park s d).Has d := by
  constructor
  · exact Multiset.mem_add.mpr (.inl (Multiset.mem_cons_self d _))
  · intro t ht
    refine Multiset.mem_add.mpr (.inl (Multiset.mem_cons_of_mem ?_))
    exact Multiset.mem_add.mpr (.inl ht)

theorem Holds.entry_other {d' : Option UInt32} (h : Holds o d' loose s)
    (hd : o.Has d) :
    s.table d = o.image.table d ∧ s.entry d = o.image.entry d := by
  have hmem : s.mem d = o.image.mem d := h.mem d hd.dir
  exact ⟨table_congr hmem,
    entry_congr hmem (fun t ht => h.mem t (hd.tables t ht))⟩

theorem PTE_ADDR_FLAGS (pte : UInt32) : PTE_ADDR (PTE_FLAGS pte) = 0 := by
  unfold PTE_ADDR PTE_FLAGS
  rw [UInt32.and_assoc]
  show pte &&& 0 = 0
  exact UInt32.and_zero

theorem Holds.wp_copyuvmBad (h : Holds o (some d) loose s)
    {Q : Option UInt32 -> Vm -> Prop}
    (hQ : forall s', Holds o none loose s' -> Q none s') :
    wp (copyuvmBad d) Q E s := by
  unfold copyuvmBad
  rw [wp_bind]
  exact wp_post h.wp_freevm (fun _ s' h' => hQ s' h')

theorem PTE_FLAGS_entry {pa pte : UInt32} (hpa : PTE_ADDR pa = pa)
    (hpres : pte &&& PTE_P ≠ 0) :
    PTE_FLAGS (pa ||| PTE_FLAGS pte ||| PTE_P) = PTE_FLAGS pte := by
  have hlow : pa &&& 0xFFF = 0 := by
    rw [← hpa]
    unfold PTE_ADDR
    rw [UInt32.and_assoc]
    exact UInt32.and_zero
  have hbit : pte &&& 0xFFF &&& 0xFFF ||| PTE_P &&& 0xFFF =
      pte &&& 0xFFF := by
    have hone : pte.toBitVec[0] = true := by
      apply of_not_not
      intro hzero
      apply hpres
      apply UInt32.eq_of_toBitVec_eq
      ext j hj
      rcases Nat.eq_zero_or_pos j with rfl | hpos
      · simp [PTE_P, hzero]
      · simp [PTE_P, Nat.ne_of_gt hpos]
    apply UInt32.eq_of_toBitVec_eq
    ext j hj
    rcases Nat.eq_zero_or_pos j with rfl | hpos
    · simp [PTE_P, hone]
    · simp [PTE_P, Nat.ne_of_gt hpos]
  unfold PTE_FLAGS
  rw [or_and_distrib, or_and_distrib, hlow, UInt32.zero_or, hbit]

/-- The copy of the pages below `i`, with the contents of those that are the
others'. -/
structure Copied (o : Others) (pgdir d : UInt32) (i : Nat) (s : Vm) :
    Prop where
  flags : forall n, n < i ->
    PTE_FLAGS (s.entry d n) = PTE_FLAGS (o.image.entry pgdir n)
  page : forall n src dst, n < i -> o.image.frame pgdir n = some src ->
    s.frame d n = some dst -> src ∈ o.pages -> s.mem dst = o.mem src

def Maps (d : UInt32) (n : Nat) (s : Vm) : Prop :=
  forall m, m < UPAGES -> (s.frame d m ≠ none ↔ m < n)

theorem Maps.card_le {n : Nat} (h : Maps d n s) : (s.frames d).card ≤ n := by
  have hout : gather (s.frame d)
      ((Finset.range UPAGES).filter (fun m => ¬ m < n)) = 0 := by
    apply gather_empty
    intro m hm
    rcases Finset.mem_filter.mp hm with ⟨hmu, hge⟩
    exact not_not.mp (fun hne => hge ((h m (Finset.mem_range.mp hmu)).mp hne))
  have hin : (Finset.range UPAGES).filter (fun m => m < n) ⊆
      Finset.range n := by
    intro m hm
    exact Finset.mem_range.mpr (Finset.mem_filter.mp hm).2
  unfold frames
  rw [gather_filter_add _ _ (fun m => m < n), hout, add_zero]
  apply (card_gather_le _ _).trans
  apply (Finset.card_le_card hin).trans
  rw [Finset.card_range]

theorem Placed.maps {i : Nat} {x e : UInt32} {pg : Page} {s' : Vm}
    (h : Placed d i x e pg s s') (hmaps : Maps d i s) : Maps d (i + 1) s' := by
  intro n hn
  rcases eq_or_ne n i with rfl | hne
  · rw [h.self]
    simp
  · rw [frame_congr (h.other hne), hmaps n hn]
    lia

theorem Copied.place {pgdir x pte : UInt32} {i : Nat} {s' : Vm}
    (h : Copied o pgdir d i s) (hi : i < UPAGES)
    (hpte : o.image.entry pgdir i = pte) (hpres : pte &&& PTE_P ≠ 0)
    (hx : PTE_ADDR x = x)
    (hpage : Placed d i x (x ||| PTE_FLAGS pte ||| PTE_P)
      (s.mem (PTE_ADDR pte)) s s')
    (hmem : forall pa, pa ∈ o.pages -> s.mem pa = o.mem pa) :
    Copied o pgdir d (i + 1) s' := by
  constructor
  · intro n hn
    rcases eq_or_ne n i with rfl | hne
    · rw [hpage.entry, Function.update_self, PTE_FLAGS_entry hx hpres, hpte]
    · rw [hpage.other hne]
      exact h.flags n (by lia)
  · intro n src dst hn hsrc hdst hin
    rcases eq_or_ne n i with rfl | hne
    · rw [hpage.self] at hdst
      cases hdst
      have haddr : PTE_ADDR pte = src := by
        unfold frame target at hsrc
        rw [hpte, if_pos hpres] at hsrc
        exact Option.some.inj hsrc
      rw [hpage.page, haddr]
      exact hmem src hin
    · rw [frame_congr (hpage.other hne)] at hdst
      rw [hpage.mem dst (frame_mem (by lia) hdst)]
      exact h.page n src dst (by lia) hsrc hdst hin

theorem Holds.wp_copyuvmLoop {pgdir sz : UInt32} (hsz : sz ≤ KERNBASE)
    (hsrc : o.Has pgdir)
    (hmiss : forall n, n < pagesOf sz -> o.image.frame pgdir n = none ->
      E (.panic "copyuvm: pte should exist") ∧
        E (.panic "copyuvm: page not present"))
    (fuel : Nat) {i : Nat} (h : Holds o (some d) loose s)
    (hmaps : Maps d i s) (hcopied : Copied o pgdir d i s)
    (hi : i + fuel = pagesOf sz) :
    wp (copyuvmLoop pgdir d sz fuel (pageAddr i))
      (fun r s' => (r = none ∧ Holds o none loose s' ∧
          Scarce o loose (pagesOf sz)) ∨
        (r = some d ∧ Holds o (some d) loose s' ∧ Maps d (pagesOf sz) s' ∧
          Copied o pgdir d (pagesOf sz) s' ∧
          forall n, UPAGES ≤ n -> s'.entry d n = s.entry d n))
      E s := by
  have hlast := pagesOf_le hsz
  induction fuel generalizing i s with
  | zero =>
      obtain rfl : i = pagesOf sz := by lia
      exact .inr ⟨rfl, h, hmaps, hcopied, fun _ _ => rfl⟩
  | succ fuel ih =>
      have hiu : i < UPAGES := by lia
      have hi' : i < 2 ^ 20 := by
        unfold UPAGES at hiu
        lia
      have hlt : pageAddr i < sz := (pageAddr_lt hi').mpr (by lia)
      rcases h.entry_other hsrc with ⟨htable, hentry⟩
      unfold copyuvmLoop
      rw [if_pos hlt, wp_bind, wp_walkpgdir_find, PDX_pageAddr hi',
        PTX_pageAddr hi']
      cases ht : s.table pgdir (i / 1024) with
      | none =>
          have hnone : o.image.frame pgdir i = none := by
            unfold frame
            rw [entry_of_none (htable ▸ ht), target_zero]
          exact (hmiss i (by lia) hnone).1
      | some t =>
          have hword : s.wordAt t (i % 1024) = o.image.entry pgdir i := by
            rw [← hentry]
            exact (entry_of_table ht).symm
          show wp (do
            let pte ← word t (i % 1024)
            _) _ E s
          unfold word
          rw [wp_bind, wp_gets, wp_ite]
          constructor
          · intro hzero
            refine (hmiss i (by lia) (frame_eq_none.mpr ?_)).2
            rw [← hword]
            exact hzero
          · intro hpres
            change (s.mem t).u32 (4 * (i % 1024)) = _ at hword
            generalize (s.mem t).u32 (4 * (i % 1024)) = pte at hword hpres
            unfold kalloc setPage
            cases hfree : s.freelist with
            | nil =>
                simp only [wp_bind, wp_gets, hfree, wp_pure]
                have hscarce := (h.scarce hfree hmaps.card_le).mono
                  (show i ≤ pagesOf sz by lia)
                exact h.wp_copyuvmBad
                  (fun s' h' => .inl ⟨rfl, h', hscarce⟩)
            | cons x rest =>
                simp only [wp_bind, wp_gets, hfree, wp_modify, wp_pure]
                have hunmapped : s.frame d i ≠ none ->
                    E (.panic "remap") := by
                  intro hmapped
                  have hlt' := (hmaps i hiu).mp hmapped
                  lia
                apply wp_post (h.wp_place hfree (s.mem (PTE_ADDR pte)) hiu
                  (PTE_ADDR_FLAGS pte) hunmapped)
                intro r s1 hpost
                rcases hpost with ⟨rfl, h1, hentry1, _, _, hempty, _⟩ |
                  ⟨rfl, h1, hpage⟩
                · show wp (do
                    kfree x
                    copyuvmBad d) _ E s1
                  rw [wp_bind]
                  have hscarce : Scarce o loose (pagesOf sz) := by
                    have hcard := h1.card_le
                    have hframes := hmaps.card_le
                    rw [← frames_congr hentry1] at hframes
                    rw [hempty, List.length_nil, Multiset.cons_add,
                      Multiset.card_cons] at hcard
                    unfold Scarce
                    lia
                  apply wp_post h1.wp_kfree
                  intro _ s2 hpost
                  exact hpost.1.wp_copyuvmBad
                    (fun s' h' => .inl ⟨rfl, h', hscarce⟩)
                · show wp (copyuvmLoop pgdir d sz fuel (pageAddr i + 4096)) _
                    E s1
                  rw [pageAddr_succ]
                  have hx := PTE_ADDR_of_aligned
                    (h.managed (.inl hpage.fresh)).1
                  apply wp_post (ih h1 (hpage.maps hmaps)
                    (hcopied.place hiu hword.symm hpres hx hpage h.mem)
                    (by lia))
                  intro r s2 hpost
                  rcases hpost with hbad |
                    ⟨rfl, h2, hmaps2, hcopied2, hkernel⟩
                  · exact .inl hbad
                  · refine .inr ⟨rfl, h2, hmaps2, hcopied2, fun n hn => ?_⟩
                    rw [hkernel n hn, hpage.other (by lia)]

theorem Holds.wp_copyuvm {pgdir sz : UInt32} (h : Holds o none loose s)
    (hsz : sz ≤ KERNBASE) (hsrc : o.Has pgdir)
    (hmiss : forall n, n < pagesOf sz -> o.image.frame pgdir n = none ->
      E (.panic "copyuvm: pte should exist") ∧
        E (.panic "copyuvm: page not present")) :
    wp (copyuvm pgdir sz)
      (fun r s' => (r = none ∧ Holds o none loose s' ∧
          Scarce o loose (pagesOf sz)) ∨
        exists d, r = some d ∧ Holds o (some d) loose s' ∧
          Maps d (pagesOf sz) s' ∧ Copied o pgdir d (pagesOf sz) s' ∧
          Kmapped d s')
      E s := by
  unfold copyuvm
  rw [wp_bind]
  apply wp_post h.wp_setupkvm
  intro r s' hpost
  rcases hpost with ⟨rfl, h', hscarce⟩ | ⟨d, rfl, h', hfresh, hkspace⟩
  · exact .inl ⟨rfl, h', hscarce.mono (Nat.zero_le _)⟩
  · have hcount : (sz.toNat + PGSIZE - 1) / PGSIZE = pagesOf sz := by
      unfold pagesOf
      lia
    have hempty : Maps d 0 s' := by
      intro n hn
      unfold frame
      rw [hfresh.user n hn, target_zero]
      simp
    show wp (copyuvmLoop pgdir d sz _ (pageAddr 0)) _ E s'
    rw [hcount]
    have hnone : Copied o pgdir d 0 s' :=
      ⟨fun n hn => absurd hn (Nat.not_lt_zero n),
        fun n _ _ hn => absurd hn (Nat.not_lt_zero n)⟩
    apply wp_post (h'.wp_copyuvmLoop hsz hsrc hmiss (pagesOf sz) hempty hnone
      (Nat.zero_add _))
    intro r s'' hpost
    rcases hpost with hbad | ⟨rfl, h'', hmaps, hcopied, hkernel⟩
    · exact .inl hbad
    · refine .inr ⟨d, rfl, h'', hmaps, hcopied, fun n hn => ?_⟩
      rw [hkernel n hn, hkspace.kmapped n hn, h'.data, h''.data]

/-!
## User memory
-/

theorem target_clear (e : UInt32) : target (e &&& ~~~PTE_U) = target e := by
  have hP : ~~~PTE_U &&& PTE_P = PTE_P := by decide
  have haddr : ~~~PTE_U &&& 0xFFFFF000 = 0xFFFFF000 := by decide
  unfold target PTE_ADDR
  rw [UInt32.and_assoc, UInt32.and_assoc, hP, haddr]

theorem Holds.wp_clearpteu (h : Holds o (some d) loose s) {uva : UInt32}
    (hmiss : s.table d (uva.toNat / 4096 / 1024) = none ->
      E (.panic "clearpteu")) :
    wp (clearpteu d uva)
      (fun _ s' => Holds o (some d) loose s' ∧ s'.table d = s.table d ∧
        s'.entry d = Function.update (s.entry d) (uva.toNat / 4096)
          (s.entry d (uva.toNat / 4096) &&& ~~~PTE_U))
      E s := by
  have hdiv : PDX uva = uva.toNat / 4096 / 1024 := by
    unfold PDX
    lia
  unfold clearpteu
  rw [wp_bind, wp_walkpgdir_find, hdiv,
    show PTX uva = uva.toNat / 4096 % 1024 from rfl]
  generalize uva.toNat / 4096 = n at hmiss ⊢
  cases ht : s.table d (n / 1024) with
  | none => exact hmiss ht
  | some t =>
      show wp (do
        let pte ← word t (n % 1024)
        setWord t (n % 1024) (pte &&& ~~~PTE_U)) _ E s
      unfold word setWord setPage
      rw [wp_bind, wp_gets, wp_modify]
      have hword : (s.mem t).u32 (4 * (n % 1024)) = s.entry d n :=
        (entry_of_table ht).symm
      rw [hword]
      exact ⟨h.reflag ht (fun _ => target_clear _),
        store_table (h.table_ne ht), h.store_entry ht _⟩

theorem wp_uva2ka {n : Nat} (hn : n < 2 ^ 20)
    (hnull : s.table d (n / 1024) = none -> E .nullDeref) :
    wp (uva2ka d (pageAddr n))
      (fun r s' => s' = s ∧
        (r = none -> s.frame d n = none ∨ s.entry d n &&& PTE_U = 0) ∧
        forall pa, r = some pa ->
          s.frame d n = some pa ∧ s.entry d n &&& PTE_U ≠ 0)
      E s := by
  unfold uva2ka
  rw [wp_bind, wp_walkpgdir_find, PDX_pageAddr hn, PTX_pageAddr hn]
  cases ht : s.table d (n / 1024) with
  | none => exact hnull ht
  | some t =>
      have hword : (s.mem t).u32 (4 * (n % 1024)) = s.entry d n :=
        (entry_of_table ht).symm
      show wp (do
        let pte ← word t (n % 1024)
        _) _ E s
      unfold word
      rw [wp_bind, wp_gets, hword, wp_ite, wp_ite]
      refine ⟨fun hpres => ?_, fun hpres => ⟨fun huser => ?_, fun huser => ?_⟩⟩
      · exact ⟨rfl, fun _ => .inl (frame_eq_none.mpr hpres),
          fun pa hpa => nomatch hpa⟩
      · exact ⟨rfl, fun _ => .inr huser, fun pa hpa => nomatch hpa⟩
      · refine ⟨rfl, fun hr => (nomatch hr), ?_⟩
        rintro pa ⟨⟩
        exact ⟨if_pos hpres, huser⟩

/-- The pages that `len` bytes from an address on lie in; addresses wrap. -/
def Touched (va : UInt32) (len n : Nat) : Prop :=
  exists i, i < len ∧ (va.toNat + i) % 2 ^ 32 / 4096 = n

theorem sub_PGROUNDDOWN (va : UInt32) :
    (va - PGROUNDDOWN va).toNat = va.toNat % 4096 := by
  have hle : PGROUNDDOWN va ≤ va := by
    apply UInt32.le_iff_toNat_le.mpr
    show (PTE_ADDR va).toNat ≤ _
    rw [PTE_ADDR_toNat]
    lia
  rw [UInt32.toNat_sub_of_le _ _ hle]
  show va.toNat - (PTE_ADDR va).toNat = _
  rw [PTE_ADDR_toNat]
  lia

theorem pageAddr_next {va : UInt32} {i : Nat} :
    ((pageAddr (va.toNat / 4096 + 1)).toNat + i) % 2 ^ 32 =
      (va.toNat + (4096 - va.toNat % 4096 + i)) % 2 ^ 32 := by
  have hva := va.toNat_lt
  unfold pageAddr
  rw [UInt32.toNat_ofNat']
  lia

theorem Holds.wp_copyoutLoop (fuel : Nat) {va : UInt32} {bs : List UInt8}
    (h : Holds o (some d) loose s) (hfuel : bs.length ≤ fuel)
    (hkernel : forall n, UPAGES ≤ n -> s.entry d n &&& PTE_U = 0)
    (hnull : forall n, Touched va bs.length n ->
      s.table d (n / 1024) = none -> E .nullDeref) :
    wp (copyoutLoop d fuel va bs)
      (fun r s' => Holds o (some d) loose s' ∧ s'.entry d = s.entry d ∧
        (r = true -> forall n, Touched va bs.length n ->
          s.entry d n &&& PTE_U ≠ 0))
      E s := by
  induction fuel generalizing va bs s with
  | zero =>
      refine ⟨h, rfl, ?_⟩
      rintro _ n ⟨i, hi, _⟩
      lia
  | succ fuel ih =>
      have hva := va.toNat_lt
      unfold copyoutLoop
      rw [wp_ite]
      constructor
      · rintro rfl
        refine ⟨h, rfl, ?_⟩
        rintro _ n ⟨i, hi, _⟩
        exact absurd hi (Nat.not_lt_zero i)
      · intro hne
        have hlen := List.length_pos_of_ne_nil hne
        have hlo : va.toNat / 4096 < 2 ^ 20 := by lia
        have hfirst : Touched va bs.length (va.toNat / 4096) :=
          ⟨0, hlen, by lia⟩
        show wp (uva2ka d (PGROUNDDOWN va) >>= _) _ E s
        rw [wp_bind, PGROUNDDOWN_eq]
        apply wp_post (wp_uva2ka hlo (hnull _ hfirst))
        rintro r s' ⟨rfl, _, hr⟩
        cases r with
        | none => exact ⟨h, rfl, fun hr => nomatch hr⟩
        | some pa =>
            rcases hr pa rfl with ⟨hframe, huser⟩
            have hup : va.toNat / 4096 < UPAGES := by
              apply Nat.lt_of_not_le
              exact fun hle => huser (hkernel _ hle)
            unfold setPage
            simp only [wp_bind, wp_modify]
            rw [← PGROUNDDOWN_eq, sub_PGROUNDDOWN, PGROUNDDOWN_eq,
              pageAddr_succ]
            generalize hpg : Bytes.patch _ _ _ _ = pg
            rcases h.fill_frame hup hframe pg with ⟨h1, htable1, hentry1⟩
            generalize ({ s' with
              mem := Function.update s'.mem pa pg } : Vm) = s1
                at h1 htable1 hentry1
            -- what does not lie in this page lies behind it
            generalize hn : min (PGSIZE - va.toNat % 4096) bs.length = n
            have hdrop := List.length_drop (i := n) (l := bs)
            have htouch : forall m,
                Touched (pageAddr (va.toNat / 4096 + 1)) (bs.drop n).length m ->
                  Touched va bs.length m := by
              rintro m ⟨i, hi, rfl⟩
              refine ⟨4096 - va.toNat % 4096 + i, by lia, ?_⟩
              rw [pageAddr_next]
            apply wp_post (ih h1 (by lia)
              (fun m hm => by rw [hentry1]; exact hkernel m hm)
              (fun m hm => by rw [htable1]; exact hnull m (htouch m hm)))
            rintro r s2 ⟨h2, hentry2, hall⟩
            refine ⟨h2, hentry2.trans hentry1, ?_⟩
            rintro hr m ⟨i, hi, rfl⟩
            rcases Nat.lt_or_ge i (4096 - va.toNat % 4096) with hin | hout
            · have hpage : (va.toNat + i) % 2 ^ 32 / 4096 =
                  va.toNat / 4096 := by lia
              rw [hpage]
              exact huser
            · rw [← hentry1]
              apply hall hr
              refine ⟨i - (4096 - va.toNat % 4096), by lia, ?_⟩
              rw [pageAddr_next]
              congr 2
              lia

end Space

end Vm
end Xv6
