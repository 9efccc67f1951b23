import Xv6.Vm.Setup

/-!
# Growing an address space
-/

namespace Xv6
namespace Vm

open Lib Lib.Run

section Space

variable {o : Others} {s : Vm} {loose : Multiset UInt32} {E : Stop -> Prop}
  {d : UInt32}

/-- The pages from `a` up to `b` were mapped for the user on free pages and
cleared; the other entries and the pages that were mapped are as before. -/
structure Filled (d : UInt32) (a b : Nat) (s s' : Vm) : Prop where
  page : forall n, a ≤ n -> n < b -> exists x, x ∈ s.freelist ∧
    s'.frame d n = some x ∧
    s'.entry d n = (x ||| (PTE_W ||| PTE_U) ||| PTE_P) ∧ s'.mem x = fun _ => 0
  same : forall n, ¬ (a ≤ n ∧ n < b) -> s'.entry d n = s.entry d n
  spares : Spares d (fun n => ¬ (a ≤ n ∧ n < b)) s s'
  free : s'.freelist <:+ s.freelist
  room : s.freelist.length ≤ s'.freelist.length + 2 * (b - a)

theorem Filled.of_le {a b : Nat} (h : b ≤ a) : Filled d a b s s := by
  refine ⟨fun n hn hn' => ?_, fun _ _ => rfl, Spares.refl d _ s,
    List.suffix_refl _, Nat.le_add_right _ _⟩
  lia

theorem Filled.mapped {a b : Nat} {s' : Vm} (h : Filled d a b s s') (n : Nat)
    (hn : a ≤ n) (hn' : n < b) : s'.frame d n ≠ none := by
  rcases h.page n hn hn' with ⟨x, _, hframe, _⟩
  rw [hframe]
  exact Option.some_ne_none x

theorem Filled.user {a b : Nat} {s' : Vm} (h : Filled d a b s s') (n : Nat)
    (hn : a ≤ n) (hn' : n < b) : s'.entry d n &&& PTE_U ≠ 0 := by
  rcases h.page n hn hn' with ⟨x, _, _, hentry, _⟩
  rw [hentry, or_and_distrib, or_and_distrib]
  intro hzero
  have hbit := congrArg (fun y : UInt32 => y.toBitVec[2]) hzero
  simp [PTE_W, PTE_U, PTE_P] at hbit

theorem Placed.spares {P : Nat -> Prop} {n : Nat} {x e : UInt32} {pg : Page}
    {s' : Vm} (h : Placed d n x e pg s s') : Spares d P s s' :=
  ⟨fun _ pa hm _ hpa => h.mem pa (frame_mem hm hpa), h.table⟩

theorem Filled.cons {i b : Nat} {x : UInt32} {s' s'' : Vm} (hib : i < b)
    (hi : i < UPAGES)
    (hpage : Placed d i x (x ||| (PTE_W ||| PTE_U) ||| PTE_P) (fun _ => 0) s s')
    (h : Filled d (i + 1) b s' s'') : Filled d i b s s'' := by
  have hself : s''.entry d i = s'.entry d i := h.same i (by lia)
  refine ⟨fun n hn hn' => ?_, fun n hn => ?_, ?_, h.free.trans hpage.free, ?_⟩
  · rcases eq_or_ne n i with rfl | hne
    · refine ⟨x, hpage.fresh, (frame_congr hself).trans hpage.self, ?_, ?_⟩
      · rw [hself, hpage.entry, Function.update_self]
      · rw [h.spares.mem n x hi (by lia) hpage.self, hpage.page]
    · rcases h.page n (by lia) hn' with ⟨y, hy, hrest⟩
      exact ⟨y, hpage.free.subset hy, hrest⟩
  · rw [h.same n (by lia), hpage.other (by lia)]
  · apply hpage.spares.trans _ (h.spares.mono (fun n hn => by lia))
    exact fun n hn => hpage.other (by lia)
  · have hone := hpage.room
    have hrest := h.room
    lia

theorem Holds.wp_allocuvmLoop {oldsz newsz : UInt32} (hnew : newsz ≤ KERNBASE)
    (fuel : Nat) {i : Nat} (h : Holds o (some d) loose s)
    (hold : pagesOf oldsz ≤ i) (hi : i ≤ UPAGES)
    (hfuel : pagesOf newsz ≤ i + fuel)
    (hremap : forall n, i ≤ n -> n < pagesOf newsz -> s.frame d n ≠ none ->
      E (.panic "remap")) :
    wp (allocuvmLoop d oldsz newsz fuel (pageAddr i))
      (fun r s' => Holds o (some d) loose s' ∧
        if r then Filled d i (pagesOf newsz) s s'
        else Cleared d (pagesOf oldsz) (pagesOf newsz) s s' ∧
          Spares d (fun n => ¬ (pagesOf oldsz ≤ n ∧ n < pagesOf newsz)) s s' ∧
          s.freelist.length < 2 * (pagesOf newsz - i))
      E s := by
  have hlast := pagesOf_le hnew
  induction fuel generalizing i s with
  | zero => exact ⟨h, Filled.of_le hfuel⟩
  | succ fuel ih =>
      have hi' : i < 2 ^ 20 := by
        unfold UPAGES at hi
        lia
      unfold allocuvmLoop
      rw [wp_ite, pageAddr_lt hi']
      constructor
      · intro hlt
        have hiu : i < UPAGES := by lia
        unfold kalloc memset setPage
        cases hfree : s.freelist with
        | nil =>
            simp only [wp_bind, wp_gets, hfree, wp_pure]
            apply wp_post (h.wp_deallocuvm hnew)
            intro _ s1 hpost
            rcases hpost with ⟨_, h1, hclear, hspares, _⟩
            exact ⟨h1, hclear, hspares, by rw [List.length_nil]; lia⟩
        | cons x rest =>
            simp only [wp_bind, wp_gets, hfree, wp_modify, wp_pure]
            apply wp_post (h.wp_place hfree (fun _ => 0) hiu (by decide)
              (hremap i (Nat.le_refl i) hlt))
            intro r s1 hpost
            rcases hpost with ⟨rfl, h1, hentry1, htable1, rfl, _, hmem1⟩ |
              ⟨rfl, h1, hpage⟩
            · show wp (do
                let _ ← deallocuvm d newsz oldsz
                kfree x
                pure false) _ E s1
              simp only [wp_bind]
              apply wp_post (h1.wp_deallocuvm hnew)
              intro _ s2 hpost
              rcases hpost with ⟨_, h2, hclear, hspares, _⟩
              have hx := Multiset.mem_cons_self x loose
              apply wp_post h2.wp_kfree
              intro _ s3 hpost
              rcases hpost with ⟨h3, hmem3⟩
              rcases h2.entry_loose hx hmem3 with ⟨htable3, hentry3⟩
              have hsame : forall n, s1.entry d n = s.entry d n :=
                fun n => congrFun hentry1 n
              refine ⟨h3, ⟨fun n hn hn' => ?_, fun n hn => ?_⟩, ?_, ?_⟩
              · rw [frame_congr (congrFun hentry3 n)]
                exact hclear.gone n hn hn'
              · rw [hentry3, hclear.same n hn, hsame]
              · have hspares1 : Spares d (fun _ => True) s s1 :=
                  ⟨fun n pa hn _ hpa => hmem1 pa (frame_mem hn hpa),
                    fun j _ => by rw [htable1]⟩
                refine (hspares1.mono fun _ _ => trivial).trans
                  (fun n _ => hsame n) ?_
                refine hspares.trans (fun n hn => hclear.same n hn)
                  ⟨fun n pa hn _ hpa => ?_, fun j _ => by rw [htable3]⟩
                apply hmem3
                intro heq
                subst heq
                exact (h2.loose_out hx).1 (mem_space_frame hn hpa)
              · rw [List.length_singleton]
                lia
            · show wp (allocuvmLoop d oldsz newsz fuel (pageAddr i + 4096)) _
                E s1
              rw [pageAddr_succ]
              have hother : forall n, n ≠ i -> s1.entry d n = s.entry d n :=
                fun n hn => hpage.other hn
              apply wp_post (ih h1 (by lia) (by lia) (by lia) _)
              · intro r s2 hpost
                rcases hpost with ⟨h2, hpost⟩
                refine ⟨h2, ?_⟩
                cases r with
                | true => exact Filled.cons hlt hiu hpage hpost
                | false =>
                    change Cleared d _ _ s1 s2 ∧ _ at hpost
                    rcases hpost with ⟨hclear, hspares, hroom⟩
                    have hone := hpage.room
                    refine ⟨⟨hclear.gone, fun n hn => ?_⟩, ?_, ?_⟩
                    · rw [hclear.same n hn, hother n (by lia)]
                    · exact hpage.spares.trans (fun n hn => hother n (by lia))
                        hspares
                    · rw [← hfree]
                      lia
              · intro n hn hn'
                rw [frame_congr (hother n (by lia))]
                exact hremap n (by lia) hn'
      · intro hge
        exact ⟨h, Filled.of_le (by lia)⟩

inductive Allocs (d oldsz newsz : UInt32) (s : Vm) : UInt32 -> Vm -> Prop where
  | fail {s' : Vm}
      (h : forall n, s'.entry d n = s.entry d n ∨
        (pagesOf oldsz ≤ n ∧ n < pagesOf newsz ∧ s'.frame d n = none))
      (hscarce : newsz < KERNBASE ->
        s.freelist.length < 2 * (pagesOf newsz - pagesOf oldsz)) :
      Allocs d oldsz newsz s 0 s'
  | keep (hlt : newsz < oldsz) : Allocs d oldsz newsz s oldsz s
  | grow {s' : Vm} (hle : oldsz ≤ newsz) (hlt : newsz < KERNBASE)
      (h : Filled d (pagesOf oldsz) (pagesOf newsz) s s') :
      Allocs d oldsz newsz s newsz s'

theorem Holds.wp_allocuvm (h : Holds o (some d) loose s)
    {oldsz newsz : UInt32}
    (hremap : newsz < KERNBASE -> forall n, pagesOf oldsz ≤ n ->
      n < pagesOf newsz -> s.frame d n ≠ none -> E (.panic "remap")) :
    wp (allocuvm d oldsz newsz)
      (fun r s' => Holds o (some d) loose s' ∧ Allocs d oldsz newsz s r s' ∧
        Spares d (fun n => ¬ (pagesOf oldsz ≤ n ∧ n < pagesOf newsz)) s s')
      E s := by
  unfold allocuvm
  rw [wp_ite]
  constructor
  · intro hge
    exact ⟨h, Allocs.fail (fun n => .inl rfl)
      (fun hlt => absurd hlt (UInt32.not_lt.mpr hge)), Spares.refl d _ s⟩
  · intro hlt
    rw [wp_ite]
    constructor
    · intro hlt'
      exact ⟨h, Allocs.keep hlt', Spares.refl d _ s⟩
    · intro hge
      have hlt' := UInt32.not_le.mp hlt
      have hle := UInt32.not_lt.mp hge
      have hnew := UInt32.le_of_lt hlt'
      have hold := UInt32.le_trans hle hnew
      have hup := pagesOf_le hold
      have hfuel : pagesOf newsz ≤ pagesOf oldsz +
          ((newsz - PGROUNDUP oldsz).toNat / PGSIZE + 1) :=
        pagesOf_le_add hold
      show wp (do
        let ok ← allocuvmLoop d oldsz newsz
          ((newsz - PGROUNDUP oldsz).toNat / PGSIZE + 1) (PGROUNDUP oldsz)
        pure (if ok then newsz else 0)) _ E s
      rw [wp_bind]
      generalize (newsz - PGROUNDUP oldsz).toNat / PGSIZE + 1 = fuel
        at hfuel ⊢
      rw [PGROUNDUP_eq hold]
      apply wp_post (h.wp_allocuvmLoop hnew fuel (Nat.le_refl _) hup hfuel
        (hremap hlt'))
      intro r s' hpost
      rcases hpost with ⟨h', hpost⟩
      cases r with
      | true =>
          change Filled d _ _ s s' at hpost
          exact ⟨h', Allocs.grow hle hlt' hpost, hpost.spares⟩
      | false =>
          change Cleared d _ _ s s' ∧ _ at hpost
          rcases hpost with ⟨hclear, hspares, hroom⟩
          refine ⟨h', Allocs.fail (fun n => ?_) (fun _ => hroom), hspares⟩
          rcases Decidable.em (pagesOf oldsz ≤ n ∧ n < pagesOf newsz) with
            hin | hout
          · exact .inr ⟨hin.1, hin.2, hclear.gone n hin.1 hin.2⟩
          · exact .inl (hclear.same n hout)

end Space

end Vm
end Xv6
