import Xv6.Lib.Gather
import Xv6.Vm.Entries

/-!
# Page directories and their tables

A page directory points to tables, and these to pages.  As long as the tables
are pages of their own, an entry is found again where it was stored, and
`mappages` changes the entries of its range and no others.
-/

namespace Xv6

open Lib Lib.Run

abbrev UPAGES : Nat := 0x80000

namespace Vm

def target (e : UInt32) : Option UInt32 :=
  if e &&& PTE_P ≠ 0 then some (PTE_ADDR e) else none

/-- The page table under the entry `j` of the page directory `d`. -/
def table (s : Vm) (d : UInt32) (j : Nat) : Option UInt32 :=
  if j < NPDENTRIES then target (s.wordAt d j) else none

/-- The entry for the page `n`, 0 where there is no table. -/
def entry (s : Vm) (d : UInt32) (n : Nat) : UInt32 :=
  match s.table d (n / 1024) with
  | none => 0
  | some t => s.wordAt t (n % 1024)

def frame (s : Vm) (d : UInt32) (n : Nat) : Option UInt32 :=
  target (s.entry d n)

def tables (s : Vm) (d : UInt32) : Multiset UInt32 :=
  gather (s.table d) (Finset.range NPDENTRIES)

def frames (s : Vm) (d : UInt32) : Multiset UInt32 :=
  gather (s.frame d) (Finset.range UPAGES)

def pages (s : Vm) (d : UInt32) : Multiset UInt32 :=
  d ::ₘ (s.tables d + s.frames d)

/-!
## What a write changes
-/

section Writes

variable {s s' : Vm} {d : UInt32}

theorem table_lt {j : Nat} {t : UInt32} (h : s.table d j = some t) :
    j < NPDENTRIES := by
  unfold table at h
  split at h
  · next hj => exact hj
  · cases h

theorem table_mem {j : Nat} {t : UInt32} (h : s.table d j = some t) :
    t ∈ s.tables d :=
  mem_gather.mpr ⟨j, Finset.mem_range.mpr (table_lt h), h⟩

theorem entry_of_table {n : Nat} {t : UInt32}
    (h : s.table d (n / 1024) = some t) :
    s.entry d n = s.wordAt t (n % 1024) := by
  unfold entry
  rw [h]

theorem entry_of_none {n : Nat} (h : s.table d (n / 1024) = none) :
    s.entry d n = 0 := by
  unfold entry
  rw [h]

theorem target_zero : target 0 = none := by decide

theorem target_tableEntry (t : UInt32) :
    target (t ||| PTE_P ||| PTE_W ||| PTE_U) = some (PTE_ADDR t) := by
  unfold target
  rw [if_pos (tableEntry_present t), tableEntry_addr]

theorem frame_table {n : Nat} {pa : UInt32} (h : s.frame d n = some pa) :
    exists t, s.table d (n / 1024) = some t := by
  cases ht : s.table d (n / 1024) with
  | some t => exact ⟨t, rfl⟩
  | none =>
      unfold frame at h
      rw [entry_of_none ht, target_zero] at h
      cases h

theorem frame_mem {n : Nat} {pa : UInt32} (hn : n < UPAGES)
    (h : s.frame d n = some pa) : pa ∈ s.frames d :=
  mem_gather.mpr ⟨n, Finset.mem_range.mpr hn, h⟩

theorem table_congr (hd : s'.mem d = s.mem d) : s'.table d = s.table d := by
  funext j
  have hword : s'.wordAt d j = s.wordAt d j := by
    unfold wordAt
    rw [hd]
  unfold table
  rw [hword]

theorem entry_congr (hd : s'.mem d = s.mem d)
    (ht : forall t, t ∈ s.tables d -> s'.mem t = s.mem t) :
    s'.entry d = s.entry d := by
  funext n
  unfold entry
  rw [table_congr hd]
  cases h : s.table d (n / 1024) with
  | none => rfl
  | some t =>
      show s'.wordAt t _ = s.wordAt t _
      unfold wordAt
      rw [ht t (table_mem h)]

theorem table_of_zero (h : s.mem d = fun _ => 0) (j : Nat) :
    s.table d j = none := by
  unfold table wordAt
  rw [h, Bytes.u32_zero, target_zero, ite_self]

theorem pages_congr (htable : s'.table d = s.table d)
    (hentry : s'.entry d = s.entry d) : s'.pages d = s.pages d := by
  have hframe : s'.frame d = s.frame d := by
    funext n
    unfold frame
    rw [hentry]
  unfold pages tables frames
  rw [htable, hframe]

theorem pages_write {x : UInt32} (hx : x ≠ d) (ht : x ∉ s.tables d)
    (hmem : forall pa, pa ≠ x -> s'.mem pa = s.mem pa) :
    s'.table d = s.table d ∧ s'.entry d = s.entry d := by
  have hd := hmem d (Ne.symm hx)
  refine ⟨table_congr hd, entry_congr hd ?_⟩
  intro t hmem'
  apply hmem
  rintro rfl
  exact ht hmem'

theorem newTable_table {j : Nat} {t : UInt32} (rest : List UInt32)
    (hj : j < NPDENTRIES) (ht : t ≠ d) (haligned : PTE_ADDR t = t) :
    (s.newTable d j t rest).table d = Function.update (s.table d) j (some t) := by
  funext i
  rcases eq_or_ne i j with rfl | hne
  · rw [Function.update_self]
    unfold table
    rw [if_pos hj, newTable_wordAt_entry s d t rest hj, target_tableEntry,
      haligned]
  · rw [Function.update_of_ne hne]
    have hword := newTable_wordAt_dir s rest (Ne.symm ht) hne
    unfold table
    rw [hword]

theorem newTable_entry {j : Nat} {t : UInt32} (rest : List UInt32)
    (hj : j < NPDENTRIES) (ht : t ≠ d) (haligned : PTE_ADDR t = t)
    (hnone : s.table d j = none) (hfresh : t ∉ s.tables d)
    (hdir : d ∉ s.tables d) :
    (s.newTable d j t rest).entry d = s.entry d := by
  funext n
  have htable := newTable_table (s := s) rest hj ht haligned
  rcases eq_or_ne (n / 1024) j with heq | hne
  · have hnew : (s.newTable d j t rest).table d (n / 1024) = some t := by
      rw [htable, heq, Function.update_self]
    rw [entry_of_table hnew, newTable_wordAt_table s j rest ht,
      entry_of_none (heq ▸ hnone)]
  · have hsame : (s.newTable d j t rest).table d (n / 1024) =
        s.table d (n / 1024) := by
      rw [htable, Function.update_of_ne hne]
    cases hold : s.table d (n / 1024) with
    | none => rw [entry_of_none (hsame.trans hold), entry_of_none hold]
    | some t' =>
        have hmem := table_mem hold
        have hd' : t' ≠ d := fun h => hdir (h ▸ hmem)
        have ht' : t' ≠ t := fun h => hfresh (h ▸ hmem)
        rw [entry_of_table (hsame.trans hold), entry_of_table hold,
          newTable_wordAt_of_ne s d j rest hd' ht']

theorem store_table {t : UInt32} {i : Nat} {v : UInt32} (ht : t ≠ d) :
    (s.store t i v).table d = s.table d :=
  table_congr (Function.update_of_ne (Ne.symm ht) _ _)

theorem store_entry {t : UInt32} {n : Nat} {v : UInt32} (ht : t ≠ d)
    (htable : s.table d (n / 1024) = some t) (hnodup : (s.tables d).Nodup) :
    (s.store t (n % 1024) v).entry d = Function.update (s.entry d) n v := by
  funext m
  have hsame : (s.store t (n % 1024) v).table d (m / 1024) =
      s.table d (m / 1024) :=
    congrFun (store_table ht) _
  rcases eq_or_ne m n with rfl | hne
  · rw [Function.update_self, entry_of_table (hsame.trans htable),
      wordAt_store_self _ _ _ (Nat.mod_lt _ (by decide))]
  · rw [Function.update_of_ne hne]
    cases hold : s.table d (m / 1024) with
    | none => rw [entry_of_none (hsame.trans hold), entry_of_none hold]
    | some t' =>
        rw [entry_of_table (hsame.trans hold), entry_of_table hold]
        rcases eq_or_ne t' t with rfl | ht'
        · -- the same table, so another index
          have hdiv : m / 1024 = n / 1024 :=
            gather_inj hnodup (Finset.mem_range.mpr (table_lt hold))
              (Finset.mem_range.mpr (table_lt htable)) hold htable
          rw [wordAt_store_index]
          lia
        · rw [wordAt_store_page _ _ _ _ ht']

end Writes

/-!
## Directories with tables of their own
-/

/-- The tables of the page directory `d` are pages of their own, and neither
they nor the directory are free. -/
structure Tabled (d : UInt32) (s : Vm) : Prop where
  nodup : (d ::ₘ (s.tables d + (s.freelist : Multiset UInt32))).Nodup
  aligned : forall pa, pa ∈ s.freelist -> PTE_ADDR pa = pa

structure Walked (d : UInt32) (j : Nat) (s s' : Vm) : Prop where
  data : s'.data = s.data
  kend : s'.kend = s.kend
  entry : s'.entry d = s.entry d
  pool : s'.tables d + (s'.freelist : Multiset UInt32) =
    s.tables d + (s.freelist : Multiset UInt32)
  mem : forall x, x ∉ s.freelist -> x ≠ d -> s'.mem x = s.mem x
  table : forall i, i ≠ j -> s'.table d i = s.table d i
  free : s'.freelist <:+ s.freelist
  room : s.freelist.length ≤ s'.freelist.length + 1

section Walks

variable {s s' : Vm} {d : UInt32} {E : Stop -> Prop}

theorem Tabled.dir_out (h : Tabled d s) : d ∉ s.tables d ∧ d ∉ s.freelist := by
  have hout := (Multiset.nodup_cons.mp h.nodup).1
  rwa [Multiset.mem_add, not_or, Multiset.mem_coe] at hout

theorem Tabled.tables_nodup (h : Tabled d s) : (s.tables d).Nodup :=
  (Multiset.nodup_add.mp (Multiset.nodup_cons.mp h.nodup).2).1

theorem Tabled.table_ne (h : Tabled d s) {j : Nat} {t : UInt32}
    (ht : s.table d j = some t) : t ≠ d := by
  intro heq
  subst heq
  exact h.dir_out.1 (table_mem ht)

theorem Tabled.free_out (h : Tabled d s) {x : UInt32} (hx : x ∈ s.freelist) :
    x ≠ d ∧ x ∉ s.tables d := by
  have hnodup := (Multiset.nodup_cons.mp h.nodup).2
  constructor
  · intro heq
    exact h.dir_out.2 (heq ▸ hx)
  · exact Multiset.disjoint_right.mp (Multiset.nodup_add.mp hnodup).2.2
      (Multiset.mem_coe.mpr hx)

theorem Tabled.walked {j : Nat} (h : Tabled d s) (hwalk : Walked d j s s') :
    Tabled d s' := by
  constructor
  · rw [hwalk.pool]
    exact h.nodup
  · exact fun pa hpa => h.aligned pa (hwalk.free.subset hpa)

theorem Tabled.store_entry (h : Tabled d s) {n : Nat} {t : UInt32}
    (ht : s.table d (n / 1024) = some t) (v : UInt32) :
    (s.store t (n % 1024) v).entry d = Function.update (s.entry d) n v :=
  Vm.store_entry (h.table_ne ht) ht h.tables_nodup

theorem store_tables {t : UInt32} {i : Nat} {v : UInt32} (ht : t ≠ d) :
    (s.store t i v).tables d = s.tables d := by
  unfold tables
  rw [store_table ht]

theorem Tabled.store (h : Tabled d s) {t : UInt32} (ht : t ≠ d) (i : Nat)
    (v : UInt32) : Tabled d (s.store t i v) := by
  constructor
  · rw [store_tables ht]
    exact h.nodup
  · exact h.aligned

theorem Walked.refl (d : UInt32) (j : Nat) (s : Vm) : Walked d j s s :=
  ⟨rfl, rfl, rfl, rfl, fun _ _ _ => rfl, fun _ _ => rfl, List.suffix_refl _,
    Nat.le_succ _⟩

theorem Tabled.newTable (h : Tabled d s) {j : Nat} {t : UInt32}
    {rest : List UInt32} (hfree : s.freelist = t :: rest)
    (hj : j < NPDENTRIES) (hnone : s.table d j = none) :
    Walked d j s (s.newTable d j t rest) ∧
      (s.newTable d j t rest).table d j = some t := by
  have htmem : t ∈ s.freelist := hfree ▸ List.mem_cons_self
  rcases h.free_out htmem with ⟨htd, httables⟩
  have haligned := h.aligned t htmem
  have htable := newTable_table (s := s) rest hj htd haligned
  have hself : (s.newTable d j t rest).table d j = some t := by
    rw [htable, Function.update_self]
  have hother : forall i, i ≠ j ->
      (s.newTable d j t rest).table d i = s.table d i := by
    intro i hi
    rw [htable, Function.update_of_ne hi]
  have htables : (s.newTable d j t rest).tables d = t ::ₘ s.tables d :=
    gather_fill (Finset.mem_range.mpr hj) hnone hself
      (fun i _ hi => hother i hi)
  refine ⟨⟨rfl, rfl, ?_, ?_, ?_, hother, ?_, ?_⟩, hself⟩
  · exact newTable_entry rest hj htd haligned hnone httables h.dir_out.1
  · rw [htables, hfree]
    show (t ::ₘ s.tables d) + (rest : Multiset UInt32) =
      s.tables d + (t ::ₘ (rest : Multiset UInt32))
    rw [Multiset.cons_add, Multiset.add_cons]
  · intro x hx hxd
    have hxt : x ≠ t := fun heq => hx (heq ▸ htmem)
    exact (Function.update_of_ne hxd _ _).trans (Function.update_of_ne hxt _ _)
  · rw [hfree]
    exact List.suffix_cons t rest
  · rw [hfree]
    exact Nat.le_refl _

theorem PDX_lt (va : UInt32) : PDX va < NPDENTRIES := by
  have hva := va.toNat_lt
  unfold PDX
  lia

theorem table_eq {j : Nat} (hj : j < NPDENTRIES) :
    s.table d j = target (s.wordAt d j) := if_pos hj

theorem wp_walkpgdir_find {va : UInt32}
    {Q : Option (UInt32 × Nat) -> Vm -> Prop} :
    wp (walkpgdir d va false) Q E s ↔
      Q ((s.table d (PDX va)).map (fun t => (t, PTX va))) s := by
  rw [table_eq (PDX_lt va)]
  unfold walkpgdir word target wordAt
  rw [wp_bind, wp_gets]
  generalize (s.mem d).u32 (4 * PDX va) = pde
  rcases Decidable.em (pde &&& PTE_P = 0) with hzero | hpres
  · rw [if_neg (not_not.mpr hzero), if_neg (not_not.mpr hzero), if_pos rfl]
    exact Iff.rfl
  · rw [if_pos hpres, if_pos hpres]
    exact Iff.rfl

theorem Tabled.wp_walkpgdir (h : Tabled d s) {n : Nat} (hn : n < 2 ^ 20) :
    wp (walkpgdir d (pageAddr n) true)
      (fun r s' => Walked d (n / 1024) s s' ∧
        (r = none -> s' = s ∧ s.freelist = []) ∧
        forall x, r = some x ->
          s'.table d (n / 1024) = some x.1 ∧ x.2 = n % 1024)
      E s := by
  have hj : n / 1024 < NPDENTRIES := by lia
  have htable := table_eq (s := s) (d := d) hj
  unfold walkpgdir word
  rw [PDX_pageAddr hn, PTX_pageAddr hn, wp_bind, wp_gets, wp_ite]
  constructor
  · intro hpres
    refine ⟨Walked.refl d _ s, (fun hr => by cases hr), fun x hx => ?_⟩
    cases hx
    exact ⟨htable.trans (if_pos hpres), rfl⟩
  · intro habsent
    have hnone : s.table d (n / 1024) = none := htable.trans (if_neg habsent)
    rw [if_neg (by decide)]
    unfold kalloc
    cases hfree : s.freelist with
    | nil =>
        simp only [wp_bind, wp_gets, hfree, wp_pure]
        exact ⟨Walked.refl d _ s, fun _ => ⟨trivial, trivial⟩,
          (fun x hx => by cases hx)⟩
    | cons t rest =>
        rcases h.newTable hfree hj hnone with ⟨hwalk, hself⟩
        unfold memset setWord setPage
        simp only [wp_bind, wp_gets, hfree, wp_modify, wp_pure]
        refine ⟨hwalk, (fun hr => by cases hr), fun x hx => ?_⟩
        cases hx
        exact ⟨hself, rfl⟩

/-!
## Mapping
-/

theorem frame_eq_none {n : Nat} :
    s.frame d n = none ↔ s.entry d n &&& PTE_P = 0 := by
  unfold frame target
  rw [ite_eq_right_iff]
  constructor
  · intro h
    apply of_not_not
    exact fun hne => nomatch h hne
  · exact fun h hne => absurd h hne

theorem frame_congr {n : Nat} (h : s'.entry d n = s.entry d n) :
    s'.frame d n = s.frame d n := by
  unfold frame
  rw [h]

theorem present_or (x : UInt32) : (x ||| PTE_P) &&& PTE_P ≠ 0 := by
  rw [or_and_distrib]
  intro h
  have hbit := congrArg (fun x : UInt32 => x.toBitVec[0]) h
  simp [PTE_P] at hbit

theorem target_entry {pa perm : UInt32} (hpa : PTE_ADDR pa = pa)
    (hperm : PTE_ADDR perm = 0) :
    target (pa ||| perm ||| PTE_P) = some pa := by
  have hP : PTE_P &&& 0xFFFFF000 = 0 := by decide
  have haddr : PTE_ADDR (pa ||| perm ||| PTE_P) = pa := by
    unfold PTE_ADDR at hpa hperm ⊢
    rw [or_and_distrib, or_and_distrib, hpa, hperm, hP]
    simp
  unfold target
  rw [if_pos (present_or _), haddr]

theorem Tabled.wp_mappagesLoop_succ (h : Tabled d s) {perm pa : UInt32}
    {n k : Nat} {Q : Bool -> Vm -> Prop} (hn : n < 2 ^ 20)
    (hremap : s.frame d n ≠ none -> E (.panic "remap"))
    (hfail : s.freelist = [] -> Q false s)
    (hnext : forall s' t, Walked d (n / 1024) s s' -> s.frame d n = none ->
      s'.table d (n / 1024) = some t ->
        wp (mappagesLoop d perm k (pageAddr (n + 1)) (pa + 4096)) Q E
          (s'.store t (n % 1024) (pa ||| perm ||| PTE_P))) :
    wp (mappagesLoop d perm (k + 1) (pageAddr n) pa) Q E s := by
  unfold mappagesLoop
  rw [wp_bind]
  apply wp_post (h.wp_walkpgdir hn)
  intro r s' hpost
  rcases hpost with ⟨hwalk, hnone, hr⟩
  cases r with
  | none =>
      rcases hnone rfl with ⟨rfl, hempty⟩
      exact hfail hempty
  | some x =>
      rcases x with ⟨t, i⟩
      rcases hr _ rfl with ⟨ht, hi⟩
      change i = n % 1024 at hi
      subst hi
      have hword : s'.wordAt t (n % 1024) = s.entry d n := by
        rw [← hwalk.entry]
        exact (entry_of_table ht).symm
      unfold word
      simp only [wp_bind, wp_gets]
      rw [wp_ite]
      constructor
      · intro hpres
        apply hremap
        rw [Ne, frame_eq_none, ← hword]
        exact hpres
      · intro hpres
        unfold setWord setPage
        rw [wp_bind, wp_modify, pageAddr_succ]
        apply hnext s' t hwalk _ ht
        rw [frame_eq_none, ← hword]
        exact not_not.mp hpres

/-- What is the same after the pages from `v` up to `v + n` were mapped, or as
many of them as there were tables for. -/
structure Mapped (d : UInt32) (v n : Nat) (s s' : Vm) : Prop where
  data : s'.data = s.data
  kend : s'.kend = s.kend
  pool : s'.tables d + (s'.freelist : Multiset UInt32) =
    s.tables d + (s.freelist : Multiset UInt32)
  mem : forall x, x ∉ s.freelist -> x ≠ d -> x ∉ s.tables d ->
    s'.mem x = s.mem x
  entry : forall m, ¬ (v ≤ m ∧ m < v + n) -> s'.entry d m = s.entry d m
  table : forall j, (forall m, v ≤ m -> m < v + n -> j ≠ m / 1024) ->
    s'.table d j = s.table d j

theorem Mapped.refl (d : UInt32) (v n : Nat) (s : Vm) : Mapped d v n s s :=
  ⟨rfl, rfl, rfl, fun _ _ _ _ => rfl, fun _ _ => rfl, fun _ _ => rfl⟩

theorem Mapped.cons (h : Tabled d s) {v n : Nat} {t w : UInt32} {s1 : Vm}
    (hwalk : Walked d (v / 1024) s s1) (ht : s1.table d (v / 1024) = some t)
    (hrest : Mapped d (v + 1) n (s1.store t (v % 1024) w) s') :
    Mapped d v (n + 1) s s' := by
  have h1 := h.walked hwalk
  have htd := h1.table_ne ht
  have hpool : s'.tables d + (s'.freelist : Multiset UInt32) =
      s.tables d + (s.freelist : Multiset UInt32) := by
    rw [hrest.pool, store_tables htd]
    exact hwalk.pool
  refine ⟨hrest.data.trans hwalk.data, hrest.kend.trans hwalk.kend, hpool,
    ?_, ?_, ?_⟩
  · -- a page outside the pool is outside it after the walk too
    intro x hfree hxd htables
    have hout : x ∉ s1.tables d ∧ x ∉ s1.freelist := by
      rw [← Multiset.mem_coe, ← not_or, ← Multiset.mem_add, hwalk.pool,
        Multiset.mem_add, not_or, Multiset.mem_coe]
      exact ⟨htables, hfree⟩
    have hxt : x ≠ t := fun heq => hout.1 (heq ▸ table_mem ht)
    rw [hrest.mem x hout.2 hxd (by rw [store_tables htd]; exact hout.1)]
    exact (Function.update_of_ne hxt _ _).trans (hwalk.mem x hfree hxd)
  · intro m hm
    rw [hrest.entry m (by lia), h1.store_entry ht,
      Function.update_of_ne (by lia), hwalk.entry]
  · intro j hj
    rw [hrest.table j (fun m hm hm' => hj m (by lia) (by lia)),
      store_table htd]
    exact hwalk.table j (hj v (by lia) (by lia))

theorem Tabled.wp_mappagesLoop (perm : UInt32) {n : Nat} (h : Tabled d s)
    {v : Nat} (pa : UInt32) (hv : v + n ≤ 2 ^ 20)
    (hremap : forall m, v ≤ m -> m < v + n -> s.frame d m ≠ none ->
      E (.panic "remap")) :
    wp (mappagesLoop d perm n (pageAddr v) pa)
      (fun r s' => Mapped d v n s s' ∧
        (r = true -> forall m, v ≤ m -> m < v + n ->
          s'.entry d m = (pa + pageAddr (m - v)) ||| perm ||| PTE_P) ∧
        (r = false -> s'.freelist = []))
      E s := by
  induction n generalizing v pa s with
  | zero =>
      refine ⟨Mapped.refl d v 0 s, fun _ m hm hm' => ?_, fun hr => nomatch hr⟩
      lia
  | succ n ih =>
      apply h.wp_mappagesLoop_succ (by lia) (hremap v (by lia) (by lia))
      · intro hempty
        exact ⟨Mapped.refl d v _ s, fun hr => (nomatch hr), fun _ => hempty⟩
      · intro s1 t hwalk _ ht
        have h1 := h.walked hwalk
        have hstore := h1.store_entry ht (pa ||| perm ||| PTE_P)
        apply wp_post (ih (h1.store (h1.table_ne ht) _ _) (v := v + 1)
          (pa + 4096) (by lia) _)
        · intro r s' hpost
          rcases hpost with ⟨hrest, hin, hfail⟩
          refine ⟨Mapped.cons h hwalk ht hrest, fun hr m hm hm' => ?_, hfail⟩
          rcases eq_or_ne m v with rfl | hne
          · rw [hrest.entry m (by lia), hstore, Function.update_self,
              Nat.sub_self]
            show _ = (pa + 0) ||| perm ||| PTE_P
            rw [UInt32.add_zero]
          · have hadd : pa + 4096 + pageAddr (m - (v + 1)) =
                pa + pageAddr (m - v) := by
              show pa + pageAddr 1 + _ = _
              rw [UInt32.add_assoc, pageAddr_add]
              congr 2
              lia
            rw [hin hr m (by lia) (by lia), hadd]
        · intro m hm hm'
          rw [frame_congr (s := s)]
          · exact hremap m (by lia) (by lia)
          · rw [hstore, Function.update_of_ne (by lia), hwalk.entry]

theorem PGROUNDDOWN_eq (va : UInt32) :
    PGROUNDDOWN va = pageAddr (va.toNat / 4096) := by
  have hva := va.toNat_lt
  apply UInt32.toNat_inj.mp
  show (PTE_ADDR va).toNat = _
  rw [PTE_ADDR_toNat, pageAddr_toNat (by lia)]
  lia

/-- The pages that overlap a range of `size` bytes are the first one and `n`
more. -/
structure Covers (va size : UInt32) (n : Nat) : Prop where
  pos : 0 < size
  fits : va.toNat + size.toNat ≤ 2 ^ 32
  last : (va.toNat + size.toNat - 1) / 4096 = va.toNat / 4096 + n

theorem Covers.last_eq {va size : UInt32} {n : Nat} (h : Covers va size n) :
    PGROUNDDOWN (va + size - 1) = pageAddr (va.toNat / 4096 + n) := by
  have hpos := UInt32.lt_iff_toNat_lt.mp h.pos
  have hfits := h.fits
  change 0 < size.toNat at hpos
  have hva := va.toNat_lt
  have hsize := size.toNat_lt
  have hend : (va + size - 1).toNat = va.toNat + size.toNat - 1 := by
    rw [UInt32.toNat_sub, UInt32.toNat_add]
    show (2 ^ 32 - 1 + (va.toNat + size.toNat) % 2 ^ 32) % 2 ^ 32 = _
    lia
  rw [PGROUNDDOWN_eq, hend, h.last]

theorem Covers.lt {va size : UInt32} {n : Nat} (h : Covers va size n) :
    va.toNat / 4096 + n < 2 ^ 20 := by
  have hpos := UInt32.lt_iff_toNat_lt.mp h.pos
  have hfits := h.fits
  rw [← h.last]
  change 0 < size.toNat at hpos
  lia

theorem mappages_eq {va size : UInt32} {n : Nat} (perm pa : UInt32)
    (h : Covers va size n) :
    mappages d va size pa perm =
      mappagesLoop d perm (n + 1) (pageAddr (va.toNat / 4096)) pa := by
  have hlt := h.lt
  have hcount : (pageAddr (va.toNat / 4096 + n) -
      pageAddr (va.toNat / 4096)).toNat / PGSIZE = n := by
    rw [pageAddr_sub (by lia), pageAddr_toNat (by lia)]
    lia
  unfold mappages
  simp only [PGROUNDDOWN_eq va, h.last_eq, hcount]

theorem covers_pages {v n : Nat} (hn : n + 1 < 2 ^ 20)
    (hv : v + (n + 1) ≤ 2 ^ 20) : Covers (pageAddr v) (pageAddr (n + 1)) n := by
  have hsize := pageAddr_toNat hn
  have hva : (pageAddr v).toNat = 4096 * v := pageAddr_toNat (by lia)
  refine ⟨?_, by lia, by lia⟩
  rw [UInt32.lt_iff_toNat_lt, hsize]
  show 0 < 4096 * (n + 1)
  lia

/-!
## The loop as the source has it
-/

/-- The loop of `mappages`, which is left when `a` is `last`; `none` while it
has not been left. -/
def mappagesUntil (pgdir perm last : UInt32) :
    Nat -> UInt32 -> UInt32 -> VmM (Option Bool)
  | 0, _, _ => pure none
  | fuel + 1, a, pa => do
      match ← walkpgdir pgdir a true with
      | none => pure (some false)
      | some (pgtab, i) => do
          let pte ← word pgtab i
          if pte &&& PTE_P ≠ 0 then
            panic "remap"
          else do
            setWord pgtab i (pa ||| perm ||| PTE_P)
            if a = last then
              pure (some true)
            else
              mappagesUntil pgdir perm last fuel (a + 4096) (pa + 4096)

theorem mappagesUntil_succ {perm last a pa : UInt32} {fuel n : Nat}
    (hrest : (if a = last then pure (some true) else
        mappagesUntil d perm last fuel (a + 4096) (pa + 4096)) =
      (do
        let r ← mappagesLoop d perm n (a + 4096) (pa + 4096)
        pure (some r))) :
    mappagesUntil d perm last (fuel + 1) a pa =
      (do
        let r ← mappagesLoop d perm (n + 1) a pa
        pure (some r)) := by
  unfold mappagesUntil mappagesLoop
  rw [bind_bind]
  congr 1
  funext r
  cases r with
  | none => rfl
  | some x =>
      simp only [bind_bind]
      congr 1
      funext pte
      rcases Decidable.em (pte &&& PTE_P = 0) with hzero | hpres
      · rw [if_neg (not_not.mpr hzero), if_neg (not_not.mpr hzero), bind_bind,
          hrest]
      · rw [if_pos hpres, if_pos hpres]
        rfl

theorem mappagesUntil_eq (perm : UInt32) {n fuel v : Nat} (pa : UInt32)
    (hv : v + n < 2 ^ 20) (hfuel : n < fuel) :
    mappagesUntil d perm (pageAddr (v + n)) fuel (pageAddr v) pa =
      (do
        let r ← mappagesLoop d perm (n + 1) (pageAddr v) pa
        pure (some r)) := by
  induction n generalizing v pa fuel with
  | zero =>
      rcases Nat.exists_eq_add_of_lt hfuel with ⟨fuel, rfl⟩
      apply mappagesUntil_succ
      rw [Nat.add_zero, if_pos rfl]
      rfl
  | succ n ih =>
      rcases Nat.exists_eq_add_of_lt hfuel with ⟨k, rfl⟩
      have hne : pageAddr v ≠ pageAddr (v + (n + 1)) := by
        intro heq
        have hpage := pageAddr_inj (by lia) hv heq
        lia
      apply mappagesUntil_succ
      have hmore : n < n + 1 + k := by lia
      rw [if_neg hne, pageAddr_succ, ← ih (pa + 4096) (by lia) hmore]
      congr 2
      lia

theorem PTE_ADDR_add {pa : UInt32} (hpa : PTE_ADDR pa = pa) (n : Nat) :
    PTE_ADDR (pa + pageAddr n) = pa + pageAddr n := by
  have hnat := congrArg UInt32.toNat hpa
  rw [PTE_ADDR_toNat] at hnat
  apply UInt32.toNat_inj.mp
  rw [PTE_ADDR_toNat, UInt32.toNat_add]
  unfold pageAddr
  rw [UInt32.toNat_ofNat']
  lia

/-- A range that overlaps no mapped page is mapped page by page, and nothing
else changes. -/
theorem mappages_exact {va size pa : UInt32} (perm : UInt32) (h : Tabled d s)
    (hpos : 0 < size) (hfits : va.toNat + size.toNat ≤ 2 ^ 32)
    (hpa : PTE_ADDR pa = pa)
    (hnone : forall m, va.toNat / 4096 ≤ m ->
      m ≤ (va.toNat + size.toNat - 1) / 4096 -> s.frame d m = none) :
    exists fuel r s',
      mappagesUntil d perm (PGROUNDDOWN (va + size - 1)) fuel
        (PGROUNDDOWN va) pa s = .ok (some r, s') ∧
      mappages d va size pa perm s = .ok (r, s') ∧
      (r = true ->
        (forall m, va.toNat / 4096 ≤ m ->
          m ≤ (va.toNat + size.toNat - 1) / 4096 ->
            s'.entry d m =
              (pa + pageAddr (m - va.toNat / 4096)) ||| perm ||| PTE_P ∧
            (PTE_ADDR perm = 0 ->
              s'.frame d m = some (pa + pageAddr (m - va.toNat / 4096)))) ∧
        forall m, m < va.toNat / 4096 ∨
          (va.toNat + size.toNat - 1) / 4096 < m ->
            s'.entry d m = s.entry d m) := by
  have hpos' : 0 < size.toNat := UInt32.lt_iff_toNat_lt.mp hpos
  rcases Nat.exists_eq_add_of_le (show va.toNat / 4096 ≤
    (va.toNat + size.toNat - 1) / 4096 by lia) with ⟨n, hn⟩
  have hcovers : Covers va size n := ⟨hpos, hfits, hn⟩
  have hlt := hcovers.lt
  have hloop := h.wp_mappagesLoop (E := fun _ => False) perm
    (n := n + 1) (v := va.toNat / 4096) pa (by lia)
    (fun m hm hm' hne => hne (hnone m hm (by lia)))
  have huntil := mappagesUntil_eq (d := d) perm (n := n)
    (v := va.toNat / 4096) pa hlt (Nat.lt_succ_self n)
  rcases wp_returns hloop with ⟨r, s', hrun, hmap, hin, _⟩
  refine ⟨n + 1, r, s', ?_, ?_, fun hr => ⟨?_, ?_⟩⟩
  · rw [PGROUNDDOWN_eq va, hcovers.last_eq, huntil, bind_run, hrun]
    rfl
  · rw [mappages_eq perm pa hcovers]
    exact hrun
  · intro m hm hm'
    have hentry := hin hr m hm (by lia)
    refine ⟨hentry, fun hperm => ?_⟩
    unfold frame
    rw [hentry]
    exact target_entry (PTE_ADDR_add hpa _) hperm
  · intro m hm
    exact hmap.entry m (by lia)

/-- A directory without tables gets none before that of the first page, so a
free page for each directory entry from there on, and one more, are enough. -/
theorem Tabled.mappages_room {va size pa perm : UInt32} {n : Nat} {r : Bool}
    (h : Tabled d s) (hcovers : Covers va size n)
    (hempty : forall j, s.table d j = none)
    (hroom : NPDENTRIES - va.toNat / 4096 / 1024 < s.freelist.length)
    (hrun : mappages d va size pa perm s = .ok (r, s')) : r = true := by
  have hlt := hcovers.lt
  have hloop := h.wp_mappagesLoop (E := fun _ => True) perm (n := n + 1)
    (v := va.toNat / 4096) pa (by lia) (fun _ _ _ _ => trivial)
  rw [mappages_eq perm pa hcovers] at hrun
  rcases wp_ok hloop hrun with ⟨hmapped, _, hfail⟩
  cases r with
  | true => rfl
  | false =>
      have hzero : s.tables d = 0 := gather_empty (fun j _ => hempty j)
      have hpool := congrArg Multiset.card hmapped.pool
      rw [hfail rfl, hzero, zero_add, Multiset.coe_nil, add_zero,
        Multiset.coe_card] at hpool
      have hlow : gather (s'.table d) ((Finset.range NPDENTRIES).filter
          (fun j => ¬ va.toNat / 4096 / 1024 ≤ j)) = 0 := by
        apply gather_empty
        intro j hj
        have hj' := (Finset.mem_filter.mp hj).2
        rw [hmapped.table j (fun m hm _ => by lia)]
        exact hempty j
      have hhigh : (gather (s'.table d) ((Finset.range NPDENTRIES).filter
          (fun j => va.toNat / 4096 / 1024 ≤ j))).card ≤
            NPDENTRIES - va.toNat / 4096 / 1024 := by
        apply (card_gather_le _ _).trans
        rw [← Nat.card_Ico]
        apply Finset.card_le_card
        intro j hj
        rcases Finset.mem_filter.mp hj with ⟨hj, hle⟩
        exact Finset.mem_Ico.mpr ⟨hle, Finset.mem_range.mp hj⟩
      unfold tables at hpool
      rw [gather_filter_add _ _ (fun j => va.toNat / 4096 / 1024 ≤ j), hlow,
        add_zero] at hpool
      lia

/-- An empty directory and nine free pages. -/
def nineFree : Vm :=
  ⟨0, 0, (List.range' 2 9).map pageAddr, fun _ _ => 0⟩

theorem nineFree_table (j : Nat) : nineFree.table 0x1000 j = none :=
  table_of_zero rfl j

theorem nineFree_tabled : Tabled 0x1000 nineFree := by
  have htables : nineFree.tables 0x1000 = 0 :=
    gather_empty (fun j _ => nineFree_table j)
  constructor
  · rw [htables, zero_add]
    have hnodup : (0x1000 :: nineFree.freelist).Nodup := by decide
    exact Multiset.coe_nodup.mpr hnodup
  · intro pa hpa
    rcases List.mem_map.mp hpa with ⟨m, hm, rfl⟩
    have hlt := (List.mem_range'_1.mp hm).2
    exact PTE_ADDR_pageAddr (by lia)

theorem covers_devices : Covers DEVSPACE 0x2000000 8191 :=
  covers_pages (v := 0xFE000) (n := 8191) (by lia) (by lia)

/-- The devices, up to the end of the address space. -/
theorem mappages_exact_devices :
    exists fuel s',
      mappagesUntil 0x1000 PTE_W (PGROUNDDOWN (DEVSPACE + 0x2000000 - 1)) fuel
        (PGROUNDDOWN DEVSPACE) DEVSPACE nineFree = .ok (some true, s') ∧
      mappages 0x1000 DEVSPACE 0x2000000 DEVSPACE PTE_W nineFree =
        .ok (true, s') ∧
      s'.frame 0x1000 0xFFFFF = some 0xFFFFF000 ∧
      s'.entry 0x1000 0 = nineFree.entry 0x1000 0 := by
  have hpa : PTE_ADDR DEVSPACE = DEVSPACE := by decide
  rcases mappages_exact PTE_W nineFree_tabled covers_devices.pos
    covers_devices.fits hpa (fun m _ _ => by
      rw [frame_eq_none, entry_of_none (nineFree_table _)]
      decide) with ⟨fuel, r, s', huntil, hrun, hexact⟩
  have hr := nineFree_tabled.mappages_room covers_devices nineFree_table
    (by decide +kernel) hrun
  rcases hexact hr with ⟨hin, hout⟩
  subst hr
  have hlast : DEVSPACE + pageAddr (0xFFFFF - DEVSPACE.toNat / 4096) =
      0xFFFFF000 := by
    decide +kernel
  refine ⟨fuel, s', huntil, hrun, ?_, hout 0 (Or.inl (by decide +kernel))⟩
  rw [← hlast]
  exact (hin 0xFFFFF (by decide +kernel) (by decide +kernel)).2
    (by decide +kernel)

end Walks

end Vm
end Xv6
