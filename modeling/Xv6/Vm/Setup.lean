import Xv6.Vm.Calls

/-!
# A new address space
-/

namespace Xv6
namespace Vm

open Lib Lib.Run

section Space

variable {o : Others} {s : Vm} {loose : Multiset UInt32} {E : Stop -> Prop}
  {d : UInt32}

theorem kernelEntry_user (a : Nat) {perm : UInt32}
    (hperm : perm &&& PTE_U = 0) :
    (pageAddr a ||| perm ||| PTE_P) &&& PTE_U = 0 := by
  have haligned : pageAddr a = pageAddr a &&& 0xFFFFF000 := by
    refine (PTE_ADDR_of_aligned ?_).symm
    unfold pageAddr
    rw [UInt32.toNat_ofNat']
    lia
  have hpage : pageAddr a &&& PTE_U = 0 := by
    rw [haligned, UInt32.and_assoc]
    exact UInt32.and_zero
  rw [or_and_distrib, or_and_distrib, hpage, hperm]
  decide

/-- The address space that `setupkvm` makes: nothing in the user half, nothing
that the user may touch, and the last page mapped. -/
structure Fresh (d : UInt32) (s : Vm) : Prop where
  user : forall n, n < UPAGES -> s.entry d n = 0
  kernel : forall n, s.entry d n &&& PTE_U = 0
  top : s.frame d 0xFFFFF ≠ none

/-- The pages of an entry of `kmap`. -/
def Kmap.Covers (k : Kmap) (n : Nat) : Prop :=
  k.virt.toNat / 4096 ≤ n ∧
    n < k.virt.toNat / 4096 + (k.physEnd - k.physStart).toNat / 4096

instance (k : Kmap) (n : Nat) : Decidable (k.Covers n) :=
  inferInstanceAs (Decidable (_ ∧ _))

/-- The entry for the page `n` that `kmap` asks for. -/
def kentry (data : UInt32) (n : Nat) : UInt32 :=
  match (kmap data).find? (fun k => k.Covers n) with
  | some k => (k.physStart + pageAddr (n - k.virt.toNat / 4096)) ||| k.perm |||
      PTE_P
  | none => 0

/-- The entry `k` maps whole pages of the kernel's half, from `v` up to `w`. -/
structure Kmap.Fits (k : Kmap) (v w a : Nat) : Prop where
  virt : k.virt = pageAddr v
  phys : k.physStart = pageAddr a
  size : k.physEnd - k.physStart = pageAddr (w - v)
  perm : k.perm &&& PTE_U = 0
  lo : UPAGES ≤ v
  pos : v < w
  hi : w ≤ 2 ^ 20

theorem Kmap.Fits.covers {k : Kmap} {v w a : Nat} (h : k.Fits v w a)
    {n : Nat} : k.Covers n ↔ v ≤ n ∧ n < w := by
  have hlo := h.lo
  have hpos := h.pos
  have hhi := h.hi
  unfold UPAGES at hlo
  have hvirt : k.virt.toNat = 4096 * v := by
    rw [h.virt]
    exact pageAddr_toNat (by lia)
  have hsize : (k.physEnd - k.physStart).toNat = 4096 * (w - v) := by
    rw [h.size]
    exact pageAddr_toNat (by lia)
  unfold Covers
  rw [hvirt, hsize]
  lia

inductive Ordered : Nat -> List Kmap -> Prop where
  | nil {v : Nat} : Ordered v []
  | cons {k : Kmap} {ks : List Kmap} {u v w a : Nat} (hle : u ≤ v)
      (hk : k.Fits v w a) (h : Ordered w ks) : Ordered u (k :: ks)

theorem Ordered.fits {u : Nat} {ks : List Kmap} (h : Ordered u ks) {k : Kmap}
    (hk : k ∈ ks) : exists v w a, u ≤ v ∧ k.Fits v w a := by
  induction h with
  | nil => cases hk
  | cons hle hfits _ ih =>
      rcases List.mem_cons.mp hk with rfl | hk
      · exact ⟨_, _, _, hle, hfits⟩
      · rcases ih hk with ⟨v, w, a, hle', hfits'⟩
        have hpos := hfits.pos
        exact ⟨v, w, a, by lia, hfits'⟩

theorem Ordered.le {u n : Nat} {ks : List Kmap} (h : Ordered u ks) {k : Kmap}
    (hk : k ∈ ks) (hn : k.Covers n) : u ≤ n := by
  rcases h.fits hk with ⟨v, w, a, hle, hfits⟩
  have hin := hfits.covers.mp hn
  lia

theorem kmap_fits {m : Nat} (hlo : 0x100 < m) (hhi : m < 0xE000) :
    exists low text memory devices,
      kmap (pageAddr m) = [low, text, memory, devices] ∧
      low.Fits 0x80000 0x80100 0 ∧ text.Fits 0x80100 (0x80000 + m) 0x100 ∧
      memory.Fits (0x80000 + m) 0x8E000 m ∧
      devices.Fits 0xFE000 0x100000 0xFE000 := by
  have htext : pageAddr m - EXTMEM = pageAddr (0x80000 + m - 0x80100) :=
    (pageAddr_sub (n := 0x100) (by lia)).trans (congrArg pageAddr (by lia))
  have hmemory : PHYSTOP - pageAddr m = pageAddr (0x8E000 - (0x80000 + m)) :=
    (pageAddr_sub (m := 0xE000) (by lia)).trans (congrArg pageAddr (by lia))
  have hvirt : KERNBASE + EXTMEM = pageAddr 0x80100 := by decide
  have hphys : EXTMEM = pageAddr 0x100 := by decide
  have hwrite : PTE_W &&& PTE_U = 0 := by decide
  refine ⟨_, _, _, _, rfl, ?_, ?_, ?_, ?_⟩
  · exact ⟨by decide, by decide, by decide, by decide, by decide, by decide,
      by decide⟩
  · exact ⟨hvirt, hphys, htext, UInt32.zero_and, by decide, by lia, by lia⟩
  · exact ⟨pageAddr_add 0x80000 m, rfl, hmemory, hwrite, Nat.le_add_right _ _,
      by lia, by decide⟩
  · exact ⟨by decide, by decide, by decide, by decide, by decide, by decide,
      by decide⟩

theorem kmap_ordered {m : Nat} (hlo : 0x100 < m) (hhi : m < 0xE000) :
    Ordered UPAGES (kmap (pageAddr m)) := by
  rcases kmap_fits hlo hhi with
    ⟨low, text, memory, devices, hkmap, hlow, htext, hmemory, hdevices⟩
  rw [hkmap]
  exact .cons (Nat.le_refl _) hlow (.cons (Nat.le_refl _) htext
    (.cons (Nat.le_refl _) hmemory (.cons (by decide) hdevices .nil)))

theorem kmap_covers {m : Nat} (hlo : 0x100 < m) (hhi : m < 0xE000) (n : Nat) :
    (exists k, k ∈ kmap (pageAddr m) ∧ k.Covers n) ↔
      (0x80000 ≤ n ∧ n < 0x8E000) ∨ (0xFE000 ≤ n ∧ n < 0x100000) := by
  rcases kmap_fits hlo hhi with
    ⟨low, text, memory, devices, hkmap, hlow, htext, hmemory, hdevices⟩
  rw [hkmap]
  simp only [List.mem_cons, List.not_mem_nil, or_false, exists_eq_or_imp,
    exists_eq_left, hlow.covers, htext.covers, hmemory.covers, hdevices.covers]
  lia

/-- The directory has the entries of `ks`, and what it had. -/
structure Laid (ks : List Kmap) (d : UInt32) (s s' : Vm) : Prop where
  page : forall n k, k ∈ ks -> k.Covers n -> s'.entry d n =
    (k.physStart + pageAddr (n - k.virt.toNat / 4096)) ||| k.perm ||| PTE_P
  same : forall n, (forall k, k ∈ ks -> ¬ k.Covers n) ->
    s'.entry d n = s.entry d n
  table : forall j, (forall k, k ∈ ks -> forall n, k.Covers n -> j ≠ n / 1024) ->
    s'.table d j = s.table d j

theorem Laid.cons {k : Kmap} {ks : List Kmap} {v w a : Nat} {s' s'' : Vm}
    (hk : k.Fits v w a) (hks : Ordered w ks) (hmap : Mapped d v (w - v) s s')
    (hin : forall m, v ≤ m -> m < v + (w - v) ->
      s'.entry d m = (k.physStart + pageAddr (m - v)) ||| k.perm ||| PTE_P)
    (h : Laid ks d s' s'') : Laid (k :: ks) d s s'' := by
  have hpos := hk.pos
  have hhi := hk.hi
  have hvirt : k.virt.toNat / 4096 = v := by
    rw [hk.virt, pageAddr_toNat (by lia)]
    lia
  constructor
  · intro n k' hk' hn
    rcases List.mem_cons.mp hk' with rfl | hk'
    · have hn' := hk.covers.mp hn
      have hout : forall k, k ∈ ks -> ¬ k.Covers n := by
        intro k hmem hcov
        have hge := hks.le hmem hcov
        lia
      rw [h.same n hout, hin n hn'.1 (by lia), hvirt]
    · exact h.page n k' hk' hn
  · intro n hout
    have hself := hout k List.mem_cons_self
    rw [hk.covers] at hself
    rw [h.same n (fun k' hk' => hout k' (List.mem_cons_of_mem k hk')),
      hmap.entry n (by lia)]
  · intro j hj
    rw [h.table j (fun k' hk' => hj k' (List.mem_cons_of_mem k hk'))]
    apply hmap.table
    intro m hm hm'
    exact hj k List.mem_cons_self m (hk.covers.mpr (by lia))

theorem Holds.wp_setupkvmLoop {ks : List Kmap} {v : Nat}
    (h : Holds o (some d) loose s) (hks : Ordered v ks)
    (huser : forall n, n < UPAGES -> s.frame d n = none)
    (hnone : forall n, v ≤ n -> s.frame d n = none) :
    wp (setupkvmLoop d ks)
      (fun r s' => (r = none ∧ Holds o none loose s' ∧ Scarce o loose 0) ∨
        (r = some d ∧ Holds o (some d) loose s' ∧ Laid ks d s s'))
      E s := by
  induction hks generalizing s with
  | nil =>
      exact .inr ⟨rfl, h, ⟨fun _ _ hk => (nomatch hk), fun _ _ => rfl,
        fun _ _ => rfl⟩⟩
  | @cons k ks u v w a hle hk hks ih =>
      have hlo := hk.lo
      have hpos := hk.pos
      have hhi := hk.hi
      unfold UPAGES at hlo
      have hcovers : Covers (pageAddr v) (pageAddr (w - v)) (w - v - 1) := by
        have hsize := covers_pages (v := v) (n := w - v - 1) (by lia) (by lia)
        rwa [Nat.sub_add_cancel (by lia)] at hsize
      unfold setupkvmLoop
      rw [wp_bind, hk.virt, hk.size, mappages_eq k.perm k.physStart hcovers,
        pageAddr_toNat (by lia), Nat.mul_div_cancel_left v (by decide),
        Nat.sub_add_cancel (by lia)]
      apply wp_post (h.tabled.wp_mappagesLoop k.perm k.physStart (by lia)
        (fun m hm _ hne => absurd (hnone m (by lia)) hne))
      intro r s1 hpost
      rcases hpost with ⟨hmap, hin, hfail⟩
      have hframes : forall n, n < v -> s1.frame d n = s.frame d n :=
        fun n hn => frame_congr (hmap.entry n (by lia))
      have huser1 : forall n, n < UPAGES -> s1.frame d n = none := by
        intro n hn
        rw [hframes n (by unfold UPAGES at hn; lia), huser n hn]
      have hempty : s1.frames d = 0 :=
        gather_empty (fun n hn => huser1 n (Finset.mem_range.mp hn))
      have hempty0 : s.frames d = 0 :=
        gather_empty (fun n hn => huser n (Finset.mem_range.mp hn))
      have h1 : Holds o (some d) loose s1 :=
        h.mapped hmap (by rw [hempty, hempty0])
      cases r with
      | false =>
          show wp (do
            freevm (some d)
            pure none) _ E s1
          rw [wp_bind]
          apply wp_post h1.wp_freevm
          intro _ s2 h2
          exact .inl ⟨rfl, h2, h1.scarce (hfail rfl) (by rw [hempty]; rfl)⟩
      | true =>
          have hnone1 : forall n, w ≤ n -> s1.frame d n = none := by
            intro n hn
            rw [frame_congr (hmap.entry n (by lia)), hnone n (by lia)]
          apply wp_post (ih h1 huser1 hnone1)
          intro r s2 hpost
          rcases hpost with hfail | ⟨hr, h2, hlaid⟩
          · exact .inl hfail
          · exact .inr ⟨hr, h2, hlaid.cons hk hks hmap (hin rfl)⟩

/-- The pages from `KERNBASE` on are mapped as `kmap` says. -/
def Kmapped (d : UInt32) (s : Vm) : Prop :=
  forall n, UPAGES ≤ n -> s.entry d n = kentry s.data n

/-- There are no tables for what lies between the memory and the devices. -/
def Gap (d : UInt32) (s : Vm) : Prop :=
  forall j, 0x8E000 / 1024 ≤ j -> j < 0xFE000 / 1024 -> s.table d j = none

/-- The half of the kernel is as `setupkvm` makes it. -/
structure Kspace (d : UInt32) (s : Vm) : Prop where
  kmapped : Kmapped d s
  gap : Gap d s

theorem Kspace.congr {s' : Vm} (h : Kspace d s) (hdata : s'.data = s.data)
    (hentry : forall n, UPAGES ≤ n -> s'.entry d n = s.entry d n)
    (htable : forall j, UPAGES / 1024 ≤ j -> s'.table d j = s.table d j) :
    Kspace d s' := by
  constructor
  · intro n hn
    rw [hentry n hn, hdata]
    exact h.kmapped n hn
  · intro j hj hj'
    rw [htable j (by unfold UPAGES; lia)]
    exact h.gap j hj hj'

theorem Kspace.same {s' : Vm} (h : Kspace d s) (hdata : s'.data = s.data)
    (hentry : s'.entry d = s.entry d) (htable : s'.table d = s.table d) :
    Kspace d s' :=
  h.congr hdata (fun n _ => congrFun hentry n) (fun j _ => congrFun htable j)

theorem kentry_present {data : UInt32} {n : Nat}
    (h : exists k, k ∈ kmap data ∧ k.Covers n) :
    kentry data n &&& PTE_P ≠ 0 := by
  rcases h with ⟨k, hk, hcov⟩
  unfold kentry
  cases hfind : (kmap data).find? (fun k => k.Covers n) with
  | none => exact absurd (decide_eq_true hcov) (List.find?_eq_none.mp hfind k hk)
  | some k' => exact present_or _

theorem Laid.entry {data : UInt32} {s' : Vm}
    (h : Laid (kmap data) d s s') (hzero : forall n, s.entry d n = 0) (n : Nat) :
    s'.entry d n = kentry data n := by
  unfold kentry
  cases hfind : (kmap data).find? (fun k => k.Covers n) with
  | none =>
      rw [h.same n _, hzero]
      intro k hk
      have hnot := List.find?_eq_none.mp hfind k hk
      rwa [decide_eq_true_eq] at hnot
  | some k =>
      have hcov := List.find?_some hfind
      exact h.page n k (List.mem_of_find?_eq_some hfind)
        (of_decide_eq_true hcov)

theorem Holds.wp_setupkvm (h : Holds o none loose s) :
    wp setupkvm
      (fun r s' => (r = none ∧ Holds o none loose s' ∧ Scarce o loose 0) ∨
        exists d, r = some d ∧ Holds o (some d) loose s' ∧ Fresh d s' ∧
          Kspace d s')
      E s := by
  rcases o.linked.data with ⟨m, hm, hlo, hhi⟩
  unfold setupkvm
  rw [wp_bind]
  apply wp_post h.wp_kalloc
  intro r s0 hpost
  rcases hpost with ⟨rfl, rfl, hempty⟩ | ⟨d, rfl, h0, _⟩
  · have hcard := h.card_none
    rw [hempty, List.length_nil] at hcard
    exact .inl ⟨rfl, h, by unfold Scarce; lia⟩
  rcases h0.adopt with ⟨h1, hzero⟩
  unfold memset setPage
  simp only [wp_bind, wp_modify]
  rw [if_neg (by decide)]
  simp only [wp_bind, wp_gets]
  have hdata : kmap s0.data = kmap (pageAddr m) := by rw [h0.data, hm]
  rw [hdata]
  have hnone : forall j, Vm.table { s0 with
      mem := Function.update s0.mem d (fun _ => 0) } d j = none :=
    table_of_zero (Function.update_self ..)
  generalize hs1 : ({ s0 with
    mem := Function.update s0.mem d (fun _ => 0) } : Vm) = s1
      at h1 hzero hnone
  have hframe : forall n, s1.frame d n = none := by
    intro n
    unfold frame
    rw [hzero, target_zero]
  apply wp_post (h1.wp_setupkvmLoop (kmap_ordered hlo hhi)
    (fun n _ => hframe n) (fun n _ => hframe n))
  intro r s2 hpost
  rcases hpost with hfail | ⟨rfl, h2, hlaid⟩
  · exact .inl hfail
  have hentry := hlaid.entry (fun n => congrFun hzero n)
  have huncovered : forall n, n < UPAGES -> s2.entry d n = 0 := by
    intro n hn
    rw [hlaid.same n, hzero]
    intro k hk hcov
    have hle := (kmap_ordered hlo hhi).le hk hcov
    lia
  refine .inr ⟨d, rfl, h2, ⟨huncovered, fun n => ?_, ?_⟩, ⟨?_, ?_⟩⟩
  · rcases Classical.em (exists k, k ∈ kmap (pageAddr m) ∧ k.Covers n) with
      ⟨k, hk, hcov⟩ | hout
    · rcases (kmap_ordered hlo hhi).fits hk with ⟨v, w, a, _, hfits⟩
      rw [hlaid.page n k hk hcov, hfits.phys, pageAddr_add]
      exact kernelEntry_user _ hfits.perm
    · rw [hlaid.same n (fun k hk hcov => hout ⟨k, hk, hcov⟩), hzero]
      exact UInt32.zero_and
  · rcases (kmap_covers hlo hhi 0xFFFFF).mpr (by lia) with ⟨k, hk, hcov⟩
    rw [Ne, frame_eq_none, hlaid.page _ k hk hcov]
    exact present_or _
  · intro n _
    rw [h2.data, hm]
    exact hentry n
  · intro j hj hj'
    rw [hlaid.table j, hnone]
    intro k hk n hcov
    have hin := (kmap_covers hlo hhi n).mp ⟨k, hk, hcov⟩
    lia

theorem Holds.wp_setupkvm_room (h : Holds o none loose s)
    (hfree : NPDENTRIES + 1 < s.freelist.length) :
    wp setupkvm
      (fun r s' => exists d, r = some d ∧ Holds o (some d) loose s' ∧
        Fresh d s' ∧ s.freelist.length ≤ s'.freelist.length + (NPDENTRIES + 1))
      E s := by
  have hcard := h.card_none
  apply wp_post h.wp_setupkvm
  intro r s' hpost
  rcases hpost with ⟨_, _, hscarce⟩ | ⟨d, hr, h', hfresh, _⟩
  · unfold Scarce at hscarce
    lia
  · have hframes : s'.frames d = 0 := by
      apply gather_empty
      intro n hn
      unfold frame
      rw [hfresh.user n (Finset.mem_range.mp hn), target_zero]
    have hcard' := h'.card_le
    rw [hframes, Multiset.card_zero] at hcard'
    exact ⟨d, hr, h', hfresh, by lia⟩

end Space

end Vm
end Xv6
