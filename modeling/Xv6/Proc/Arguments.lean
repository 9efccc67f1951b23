import Xv6.Lib.Stored
import Xv6.Proc.ImageSize
import Xv6.Proc.UserPages

/-!
# The arguments of a new program

What `exec` copies to the new stack, byte by byte: where each string goes, when
a copy is refused, and when it runs into addresses that have no page table.
-/

namespace Xv6

open Lib Lib.Run Lib.Memory

namespace Vm

/-- The memory that a user of `d` sees. -/
def userMem (s : Vm) (d : UInt32) : Memory := fun va =>
  if va / 4096 < UPAGES then
    (s.content d (va / 4096)).map (fun pg => pg.get (va % 4096))
  else
    none

section Copy

variable {o : Others} {s s' : Vm} {loose : Multiset UInt32} {d sz : UInt32}
  {E : Stop -> Prop}

theorem userMem_congr
    (h : forall n, n < UPAGES -> s'.content d n = s.content d n) :
    s'.userMem d = s.userMem d := by
  funext va
  unfold userMem
  rcases Nat.lt_or_ge (va / 4096) UPAGES with hlt | hge
  · rw [if_pos hlt, if_pos hlt, h _ hlt]
  · rw [if_neg (Nat.not_lt.mpr hge), if_neg (Nat.not_lt.mpr hge)]

/-!
## Copying into one page
-/

theorem Holds.wrote (h : Holds o (some d) loose s) {n : Nat} {pa : UInt32}
    (hn : n < UPAGES) (hpa : s.frame d n = some pa) (off : Nat)
    (bs : List UInt8) (hoff : off + bs.length ≤ 4096)
    (hmem : s'.mem = Function.update s.mem pa
      ((s.mem pa).patch off bs.length (fun k => bs.getD k 0)))
    (hentry : s'.entry d = s.entry d) :
    Wrote (4096 * n + off) bs (s.userMem d) (s'.userMem d) := by
  have hself : s'.content d n =
      some ((s.mem pa).patch off bs.length (fun k => bs.getD k 0)) := by
    unfold content
    rw [frame_congr (congrFun hentry n), hpa, Option.map_some, hmem,
      Function.update_self]
  have hold : s.content d n = some (s.mem pa) := by
    unfold content
    rw [hpa, Option.map_some]
  have hother : forall m, m < UPAGES -> m ≠ n ->
      s'.content d m = s.content d m := by
    intro m hm hne
    unfold content
    rw [frame_congr (congrFun hentry m)]
    cases hx : s.frame d m with
    | none => rfl
    | some x =>
        have hxpa : x ≠ pa := by
          rintro rfl
          exact hne (gather_inj h.tables_nodup.2.1 (Finset.mem_range.mpr hm)
            (Finset.mem_range.mpr hn) hx hpa)
        rw [Option.map_some, Option.map_some, hmem,
          Function.update_of_ne hxpa]
  constructor
  · intro i hi
    have hpage : (4096 * n + off + i) / 4096 = n := by lia
    have hbyte : (4096 * n + off + i) % 4096 = off + i := by lia
    unfold userMem
    rw [hpage, hbyte, if_pos hn, hself, Option.map_some,
      Bytes.get_patch_in _ _ (by lia) (by lia) (by lia),
      Nat.add_sub_cancel_left, List.getElem?_eq_getElem hi,
      List.getD_eq_getElem _ _ hi]
  · intro x hx
    unfold userMem
    rcases Nat.lt_or_ge (x / 4096) UPAGES with hlt | hge
    · rw [if_pos hlt, if_pos hlt]
      rcases eq_or_ne (x / 4096) n with heq | hne
      · rw [heq, hself, hold, Option.map_some, Option.map_some,
          Bytes.get_patch_out _ _ (by lia)]
      · rw [hother _ hlt hne]
    · rw [if_neg (Nat.not_lt.mpr hge), if_neg (Nat.not_lt.mpr hge)]

theorem copyoutLoop_nil (fuel : Nat) (va : UInt32) :
    copyoutLoop d fuel va [] = pure true := by
  cases fuel with
  | zero | succ fuel => rfl

theorem Holds.wp_copyout_page (h : Holds o (some d) loose s) {n : Nat}
    {va : UInt32} {bs : List UInt8} (hn : n < UPAGES)
    (hmapped : s.frame d n ≠ none) (huser : s.entry d n &&& PTE_U ≠ 0)
    (hlo : 4096 * n ≤ va.toNat) (hhi : va.toNat + bs.length ≤ 4096 * (n + 1)) :
    wp (copyout d va bs)
      (fun r s' => r = true ∧ Holds o (some d) loose s' ∧
        s'.entry d = s.entry d ∧ s'.table d = s.table d ∧
        Wrote va.toNat bs (s.userMem d) (s'.userMem d))
      E s := by
  unfold copyout
  cases bs with
  | nil => exact ⟨rfl, h, rfl, rfl, Wrote.nil _ _⟩
  | cons b rest =>
      rcases Option.ne_none_iff_exists'.mp hmapped with ⟨pa, hpa⟩
      rcases frame_table hpa with ⟨t, ht⟩
      generalize hbs : b :: rest = bs at hhi
      have hlen : bs.length = rest.length + 1 := by
        rw [← hbs, List.length_cons]
      have hne : bs ≠ [] := by
        rw [← hbs]
        exact List.cons_ne_nil b rest
      have hpage : va.toNat / 4096 = n := by lia
      have hn' : n < 2 ^ 20 := by
        unfold UPAGES at hn
        lia
      have hall : min (PGSIZE - va.toNat % 4096) bs.length = bs.length := by
        lia
      rw [hlen]
      unfold copyoutLoop
      rw [if_neg hne]
      show wp (uva2ka d (PGROUNDDOWN va) >>= _) _ E s
      rw [wp_bind, PGROUNDDOWN_eq, hpage]
      apply wp_post (wp_uva2ka hn' (fun hnone => absurd hnone (by simp [ht])))
      rintro r s' ⟨rfl, hnone, hsome⟩
      cases r with
      | none =>
          rcases hnone rfl with hframe | hzero
          · exact absurd hframe hmapped
          · exact absurd hzero huser
      | some x =>
          rcases hsome x rfl with ⟨hx, _⟩
          have hoff := sub_PGROUNDDOWN va
          rw [PGROUNDDOWN_eq, hpage] at hoff
          unfold setPage
          simp only [wp_bind, wp_modify]
          rw [hoff, hall, List.drop_length, copyoutLoop_nil]
          rcases h.fill_frame hn hx
            ((s'.mem x).patch (va.toNat % 4096) bs.length
              (fun k => bs.getD k 0)) with ⟨h1, htable, hentry⟩
          have hwrote := h.wrote hn hx (va.toNat % 4096) bs (by lia) rfl
            hentry
          have haddr : 4096 * n + va.toNat % 4096 = va.toNat := by lia
          rw [haddr] at hwrote
          exact ⟨rfl, h1, hentry, htable, hwrote⟩

/-!
## Copying into the half of the kernel
-/

theorem Holds.table_none_iff (h : Holds o (some d) loose s)
    (hk : Kspace d s) {n : Nat} (hlo : UPAGES ≤ n) (hhi : n < 2 ^ 20) :
    s.table d (n / 1024) = none ↔ 0x8E000 ≤ n ∧ n < 0xFE000 := by
  constructor
  · intro hnone
    apply of_not_not
    intro hout
    have hmapped : s.frame d n ≠ none := by
      rcases o.linked.data with ⟨m, hm, hmlo, hmhi⟩
      rw [Ne, frame_eq_none, hk.kmapped n hlo, h.data, hm]
      apply kentry_present
      apply (kmap_covers hmlo hmhi n).mpr
      unfold UPAGES at hlo
      lia
    rcases Option.ne_none_iff_exists'.mp hmapped with ⟨pa, hpa⟩
    rcases frame_table hpa with ⟨t, ht⟩
    rw [ht] at hnone
    cases hnone
  · rintro ⟨hge, hlt⟩
    exact hk.gap _ (by lia) (by lia)

theorem Holds.wp_copyout_kernel (h : Holds o (some d) loose s)
    (hk : Kspace d s)
    (hkernel : forall n, UPAGES ≤ n -> s.entry d n &&& PTE_U = 0)
    {va : UInt32} {bs : List UInt8} (hne : bs ≠ [])
    (hva : 0x80000000 ≤ va.toNat) :
    wp (copyout d va bs)
      (fun r s' => r = false ∧ s' = s ∧
        ¬ (0x8E000000 ≤ va.toNat ∧ va.toNat < 0xFE000000))
      (fun e => e = .nullDeref ∧
        (0x8E000000 ≤ va.toNat ∧ va.toNat < 0xFE000000)) s := by
  have hlt := va.toNat_lt
  have hlo : UPAGES ≤ va.toNat / 4096 := by
    unfold UPAGES
    lia
  have hhi : va.toNat / 4096 < 2 ^ 20 := by lia
  have hiff := h.table_none_iff hk hlo hhi
  rcases List.exists_cons_of_ne_nil hne with ⟨b, rest, rfl⟩
  unfold copyout
  rw [List.length_cons]
  unfold copyoutLoop
  rw [if_neg hne]
  show wp (uva2ka d (PGROUNDDOWN va) >>= _) _ _ s
  rw [wp_bind, PGROUNDDOWN_eq]
  cases ht : s.table d (va.toNat / 4096 / 1024) with
  | none =>
      have hgap := hiff.mp ht
      unfold uva2ka
      rw [wp_bind, wp_walkpgdir_find, PDX_pageAddr hhi, PTX_pageAddr hhi, ht]
      exact ⟨rfl, by lia⟩
  | some t =>
      have hgap : ¬ (0x8E000 ≤ va.toNat / 4096 ∧ va.toNat / 4096 < 0xFE000) := by
        intro hin
        rw [hiff.mpr hin] at ht
        cases ht
      apply wp_post (wp_uva2ka hhi (fun hnone => absurd hnone (by simp [ht])))
      rintro r s' ⟨rfl, _, hsome⟩
      cases r with
      | none => exact ⟨rfl, rfl, by lia⟩
      | some pa => exact absurd (hkernel _ hlo) (hsome pa rfl).2

end Copy

/-!
## The strings
-/

/-- The bytes that a string takes on the stack, with its null and the
rounding. -/
def slot (arg : List UInt8) : Nat :=
  (arg.length + 1 + 3) / 4 * 4

def room (argv : List (List UInt8)) : Nat :=
  (argv.map slot).sum

theorem slot_mod (arg : List UInt8) : slot arg % 4 = 0 := by
  unfold slot
  lia

theorem room_cons (arg : List UInt8) (rest : List (List UInt8)) :
    room (arg :: rest) = slot arg + room rest := by
  unfold room
  rw [List.map_cons, List.sum_cons]

/-- There is no table for the address `used` bytes below the end of the
stack. -/
def Missing (sz : UInt32) (used : Nat) : Prop :=
  sz.toNat + 0x2000000 < used ∧ used ≤ sz.toNat + 0x72000000

/-- The copy of a string starts at such an address, and those before it fit. -/
def Overruns (sz : UInt32) (argc used : Nat) (argv : List (List UInt8)) :
    Prop :=
  exists i, i < argv.length ∧ argc + i < MAXARG ∧
    used + room (argv.take i) ≤ 4096 ∧
    Missing sz (used + room (argv.take (i + 1)))

theorem not_overruns_nil {sz : UInt32} {argc used : Nat} :
    ¬ Overruns sz argc used [] := by
  rintro ⟨i, hi, _⟩
  exact Nat.not_lt_zero i hi

theorem overruns_cons {sz : UInt32} {argc used : Nat} {arg : List UInt8}
    {rest : List (List UInt8)} (hused : used ≤ 4096) :
    Overruns sz argc used (arg :: rest) ↔ argc < MAXARG ∧
      (Missing sz (used + slot arg) ∨
        Overruns sz (argc + 1) (used + slot arg) rest) := by
  have hzero : room [] = 0 := rfl
  constructor
  · rintro ⟨i, hi, hargc, hfit, hmiss⟩
    refine ⟨by lia, ?_⟩
    cases i with
    | zero =>
        rw [List.take_succ_cons, List.take_zero, room_cons, hzero] at hmiss
        exact .inl hmiss
    | succ i =>
        rw [List.take_succ_cons, room_cons] at hfit hmiss
        rw [List.length_cons] at hi
        rw [← Nat.add_assoc] at hfit hmiss
        exact .inr ⟨i, by lia, by lia, hfit, hmiss⟩
  · rintro ⟨hargc, hmiss | ⟨i, hi, hargc', hfit, hmiss⟩⟩
    · refine ⟨0, by simp, hargc, ?_, ?_⟩
      · rw [List.take_zero, hzero]
        exact hused
      · rw [List.take_succ_cons, List.take_zero, room_cons, hzero]
        exact hmiss
    · refine ⟨i + 1, ?_, by lia, ?_, ?_⟩
      · rw [List.length_cons]
        lia
      · rw [List.take_succ_cons, room_cons, ← Nat.add_assoc]
        exact hfit
      · rw [List.take_succ_cons, room_cons, ← Nat.add_assoc]
        exact hmiss

section Push

variable {o : Others} {s s' : Vm} {loose : Multiset UInt32} {d sz : UInt32}
  {E : Stop -> Prop} {g : Nat}

theorem Stack.kernel (h : Stack d sz g s) :
    forall n, UPAGES ≤ n -> s.entry d n &&& PTE_U = 0 :=
  h.image.kernel

theorem Stack.mapped (h : Stack d sz g s) : s.frame d (g + 1) ≠ none := by
  have hlt := h.lt
  refine (h.image.maps (g + 1) (by lia)).mpr ?_
  unfold pagesOf
  rw [h.size]
  lia

theorem Holds.wp_push (h : Holds o (some d) loose s)
    (hstack : Stack d sz g s) (hk : Kspace d s) {used : Nat} {sp : UInt32}
    (hused : used ≤ 4096) (hmod : used % 4 = 0)
    (hsp : sp.toNat + used = sz.toNat) (arg : List UInt8)
    (harg : arg.length < 0x80000000) :
    wp (copyout d ((sp - UInt32.ofNat (arg.length + 1)) &&& 0xFFFFFFFC)
        (arg ++ [0]))
      (fun r s' => Holds o (some d) loose s' ∧ s'.entry d = s.entry d ∧
        ((r = true ∧ used + slot arg ≤ 4096 ∧ s'.table d = s.table d ∧
            Wrote (sz.toNat - (used + slot arg)) (arg ++ [0]) (s.userMem d)
              (s'.userMem d)) ∨
          (r = false ∧ 4096 < used + slot arg ∧
            ¬ Missing sz (used + slot arg))))
      (fun e => e = .nullDeref ∧ 4096 < used + slot arg ∧
        Missing sz (used + slot arg)) s := by
  have hsize := hstack.size
  have hlt := hstack.lt
  have hbase := UInt32.lt_iff_toNat_lt.mp hstack.image.size
  have hkern : KERNBASE.toNat = 0x80000000 := by decide
  have hbytes : (arg ++ [0]).length = arg.length + 1 := by simp
  have hne : arg ++ [0] ≠ [] := by simp
  have hva : ((sp - UInt32.ofNat (arg.length + 1)) &&& 0xFFFFFFFC).toNat =
      (2 ^ 32 + sp.toNat - (arg.length + 1)) % 2 ^ 32 / 4 * 4 :=
    push_toNat (by lia)
  generalize (sp - UInt32.ofNat (arg.length + 1)) &&& 0xFFFFFFFC = va at hva ⊢
  have hslot : slot arg = (arg.length + 1 + 3) / 4 * 4 := rfl
  rcases Nat.lt_or_ge 4096 (used + slot arg) with hover | hfit
  · rcases Nat.lt_or_ge sz.toNat (used + slot arg) with hwrap | hguard
    · -- below address 0
      have haddr : va.toNat + (used + slot arg) = 2 ^ 32 + sz.toNat := by lia
      apply wp_mono (h.wp_copyout_kernel hk hstack.kernel hne (by lia))
      · rintro r s' ⟨rfl, rfl, hout⟩
        refine ⟨h, rfl, .inr ⟨rfl, hover, ?_⟩⟩
        unfold Missing
        lia
      · rintro e ⟨rfl, hin⟩
        refine ⟨rfl, hover, ?_⟩
        unfold Missing
        lia
    · -- the guard page is in the way
      have haddr : va.toNat + (used + slot arg) = sz.toNat := by lia
      have hmiss : ¬ Missing sz (used + slot arg) := by
        unfold Missing
        lia
      apply wp_mono (h.wp_copyout_stack hstack (fun n hn hge _ => ?_))
      · rintro r s' ⟨h', hentry, hpages⟩
        refine ⟨h', hentry, .inr ⟨?_, hover, hmiss⟩⟩
        cases r with
        | false => rfl
        | true =>
            refine absurd rfl (hpages rfl g ?_).1
            refine ⟨4096 * (g + 1) - 4 - va.toNat, ?_, ?_⟩
            · rw [hbytes]
              lia
            · lia
      · rintro e he
        exact he
      · rcases hn with ⟨i, hi, rfl⟩
        rw [hbytes] at hi
        lia
  · have haddr : va.toNat = sz.toNat - (used + slot arg) := by lia
    rw [← haddr]
    apply wp_post (h.wp_copyout_page (n := g + 1) (by lia) hstack.mapped
      hstack.user (by lia) (by rw [hbytes]; lia))
    rintro r s' ⟨rfl, h', hentry, htable, hwrote⟩
    exact ⟨h', hentry, .inl ⟨rfl, hfit, htable, hwrote⟩⟩

/-- The strings lie at the addresses `args` between `lo` and `hi`, and nothing
else was written. -/
structure Pushed (lo hi : Nat) (argv : List (List UInt8))
    (args : List UInt32) (m m' : Memory) : Prop where
  strings : List.Forall₂ (fun p a => p.toNat % 4 = 0 ∧ lo ≤ p.toNat ∧
    Stored m' p.toNat (a ++ [0])) args argv
  others : forall x, ¬ (lo ≤ x ∧ x < hi) -> m' x = m x

theorem Pushed.nil (lo hi : Nat) (m : Memory) : Pushed lo hi [] [] m m :=
  ⟨List.Forall₂.nil, fun _ _ => rfl⟩

theorem Pushed.cons {lo hi : Nat} {arg : List UInt8} {va : UInt32}
    {rest : List (List UInt8)} {args : List UInt32} {m m1 m2 : Memory}
    (hwrote : Wrote va.toNat (arg ++ [0]) m m1) (hmod : va.toNat % 4 = 0)
    (hlo : lo ≤ va.toNat) (hhi : va.toNat + (arg.length + 1) ≤ hi)
    (h : Pushed lo va.toNat rest args m1 m2) :
    Pushed lo hi (arg :: rest) (va :: args) m m2 := by
  have hbytes : (arg ++ [0]).length = arg.length + 1 := by simp
  constructor
  · refine List.Forall₂.cons ⟨hmod, hlo, ?_⟩ h.strings
    exact hwrote.stored.frame (fun x hx _ => h.others x (by lia))
  · intro x hx
    rw [h.others x (by lia), hwrote.others x (by rw [hbytes]; lia)]

inductive Pushes (d sz : UInt32) (argc used : Nat) (argv : List (List UInt8))
    (ustack : List UInt32) (s : Vm) :
    Option (UInt32 × List UInt32) -> Vm -> Prop where
  | done {s' : Vm} (sp : UInt32) (args : List UInt32)
      (hfit : used + room argv ≤ 4096) (hargc : argc + argv.length ≤ MAXARG)
      (hsp : sp.toNat + (used + room argv) = sz.toNat)
      (htable : s'.table d = s.table d)
      (hpushed : Pushed (sz.toNat - (used + room argv)) (sz.toNat - used) argv
        args (s.userMem d) (s'.userMem d)) :
      Pushes d sz argc used argv ustack s (some (sp, ustack ++ args)) s'
  | refused {s' : Vm}
      (h : ¬ (used + room argv ≤ 4096 ∧ argc + argv.length ≤ MAXARG)) :
      Pushes d sz argc used argv ustack s none s'

theorem Holds.wp_pushes (argv : List (List UInt8)) (argc used : Nat)
    (sp : UInt32) (ustack : List UInt32) (h : Holds o (some d) loose s)
    (hstack : Stack d sz g s) (hk : Kspace d s) (hargc : argc ≤ MAXARG)
    (hused : used ≤ 4096) (hmod : used % 4 = 0)
    (hsp : sp.toNat + used = sz.toNat)
    (hargv : forall a, a ∈ argv -> a.length < 0x80000000) :
    wp (Kernel.pushArgs d argv argc sp ustack)
      (fun r s' => Holds o (some d) loose s' ∧ s'.entry d = s.entry d ∧
        ¬ Overruns sz argc used argv ∧
        Pushes d sz argc used argv ustack s r s')
      (fun e => e = .nullDeref ∧ Overruns sz argc used argv) s := by
  have hsize := hstack.size
  have hszlt := sz.toNat_lt
  induction argv generalizing argc used sp ustack s with
  | nil =>
      have hzero : room [] = 0 := rfl
      refine ⟨h, rfl, not_overruns_nil, ?_⟩
      have hdone : Pushes d sz argc used [] ustack s
          (some (sp, ustack ++ [])) s := by
        refine .done sp [] ?_ hargc ?_ rfl (Pushed.nil _ _ _)
        · rw [hzero]
          exact hused
        · rw [hzero]
          exact hsp
      rw [List.append_nil] at hdone
      exact hdone
  | cons arg rest ih =>
      have hrest : forall a, a ∈ rest -> a.length < 0x80000000 :=
        fun a ha => hargv a (List.mem_cons_of_mem arg ha)
      have hslot := slot_mod arg
      have hlong : arg.length + 1 ≤ slot arg := by
        unfold slot
        lia
      unfold Kernel.pushArgs
      rw [wp_ite]
      constructor
      · intro hmany
        refine ⟨h, rfl, ?_, .refused ?_⟩
        · rw [overruns_cons hused]
          lia
        · rw [List.length_cons]
          lia
      · intro hmore
        rw [Nat.not_le] at hmore
        have hpush := h.wp_push hstack hk hused hmod hsp arg
          (hargv arg List.mem_cons_self)
        show wp (copyout d _ (arg ++ [0]) >>= _) _ _ s
        rw [wp_bind]
        have harg := hargv arg List.mem_cons_self
        have hva : ((sp - UInt32.ofNat (arg.length + 1)) &&&
            0xFFFFFFFC).toNat =
              (2 ^ 32 + sp.toNat - (arg.length + 1)) % 2 ^ 32 / 4 * 4 :=
          push_toNat (by lia)
        generalize (sp - UInt32.ofNat (arg.length + 1)) &&& 0xFFFFFFFC = va
          at hpush hva ⊢
        apply wp_mono hpush
        · rintro r s1 ⟨h1, hentry1, ⟨rfl, hfit, htable1, hwrote⟩ |
            ⟨rfl, hover, hmiss⟩⟩
          · have haddr : va.toNat + (used + slot arg) = sz.toNat := by
              unfold slot at hfit hslot ⊢
              lia
            have hk1 := hk.same (h1.data.trans h.data.symm) hentry1 htable1
            have hwrote' : Wrote va.toNat (arg ++ [0]) (s.userMem d)
                (s1.userMem d) := by
              rw [show va.toNat = sz.toNat - (used + slot arg) by lia]
              exact hwrote
            have hmiss : ¬ Missing sz (used + slot arg) := by
              unfold Missing
              lia
            show wp (Kernel.pushArgs d rest (argc + 1) va (ustack ++ [va])) _ _
              s1
            apply wp_mono (ih (argc + 1) _ va (ustack ++ [va]) h1
              (hstack.congr hentry1) hk1 hmore hfit (by lia) haddr hrest)
            · rintro r s2 ⟨h2, hentry2, hover, hpushes⟩
              refine ⟨h2, hentry2.trans hentry1, ?_, ?_⟩
              · rw [overruns_cons hused]
                rintro ⟨_, hbad | hbad⟩
                · exact hmiss hbad
                · exact hover hbad
              · cases hpushes with
                | done sp' args hfit' hargc' hsp' htable hpushed =>
                    have htotal : used + room (arg :: rest) =
                        used + slot arg + room rest := by
                      rw [room_cons, Nat.add_assoc]
                    rw [show sz.toNat - (used + slot arg) = va.toNat by lia]
                      at hpushed
                    have hcons : Pushed
                        (sz.toNat - (used + room (arg :: rest)))
                        (sz.toNat - used) (arg :: rest) (va :: args)
                        (s.userMem d) (s2.userMem d) := by
                      rw [htotal]
                      exact .cons hwrote' (by lia) (by lia) (by lia) hpushed
                    rw [List.append_assoc, List.singleton_append]
                    refine .done sp' (va :: args) ?_ ?_ ?_
                      (htable.trans htable1) hcons
                    · rw [htotal]
                      exact hfit'
                    · rw [List.length_cons]
                      lia
                    · rw [htotal]
                      exact hsp'
                | refused hbad =>
                    apply Pushes.refused
                    rintro ⟨hfit', hargc'⟩
                    rw [room_cons, ← Nat.add_assoc] at hfit'
                    rw [List.length_cons] at hargc'
                    exact hbad ⟨hfit', by lia⟩
            · rintro e ⟨rfl, hover⟩
              refine ⟨rfl, ?_⟩
              rw [overruns_cons hused]
              exact ⟨hmore, .inr hover⟩
          · refine ⟨h1, hentry1, ?_, .refused ?_⟩
            · rw [overruns_cons hused]
              rintro ⟨_, hbad | ⟨i, _, _, hfit, _⟩⟩
              · exact hmiss hbad
              · lia
            · rw [room_cons]
              lia
        · rintro e ⟨rfl, _, hmiss⟩
          refine ⟨rfl, ?_⟩
          rw [overruns_cons hused]
          exact ⟨hmore, .inl hmiss⟩

/-!
## The frame of `main`
-/

/-- The memory from `sp` on, read as the frame of a call `main(argc, argv)`. -/
structure CallFrame (m : Memory) (sp : Nat) (argv : List (List UInt8)) :
    Prop where
  ret : m.word sp = some 0xffffffff
  argc : exists c, m.word (sp + 4) = some c ∧ c.toNat = argv.length
  vector : exists v, m.word (sp + 8) = some v ∧ v.toNat % 4 = 0 ∧
    (forall i a, argv[i]? = some a -> exists p,
      m.word (v.toNat + 4 * i) = some p ∧ p.toNat % 4 = 0 ∧
        Stored m p.toNat (a ++ [0])) ∧
    m.word (v.toNat + 4 * argv.length) = some 0

theorem Pushed.callFrame {lo hi sp : Nat} {argv : List (List UInt8)}
    {args : List UInt32} {c v : UInt32} {m m1 m2 : Memory}
    (h : Pushed lo hi argv args m m1) (hc : c.toNat = argv.length)
    (hv : v.toNat = sp + 12) (hmod : sp % 4 = 0)
    (hlo : sp + 4 * (argv.length + 4) = lo)
    (hwrote : Wrote sp
      (Kernel.wordBytes ([0xffffffff, c, v] ++ args ++ [0])) m1 m2) :
    CallFrame m2 sp argv := by
  have hlen : args.length = argv.length := h.strings.length_eq
  have hbytes : (Kernel.wordBytes ([0xffffffff, c, v] ++ args ++ [0])).length =
      4 * (argv.length + 4) := by
    rw [wordBytes_length]
    simp [hlen]
  have hwords : forall i, i < argv.length + 4 -> m2.word (sp + 4 * i) =
      ([0xffffffff, c, v] ++ args ++ [0])[i]? := by
    intro i hi
    apply hwrote.stored.words
    simp [hlen]
    lia
  refine ⟨hwords 0 (by lia), ⟨c, hwords 1 (by lia), hc⟩, v, hwords 2 (by lia),
    by lia, ?_, ?_⟩
  · intro i a ha
    rcases List.getElem?_eq_some_iff.mp ha with ⟨hi, rfl⟩
    have hi' : i < args.length := hlen ▸ hi
    rcases h.strings.get hi' hi with ⟨hpmod, hplo, hstored⟩
    refine ⟨args[i], ?_, hpmod, ?_⟩
    · have hword := hwords (3 + i) (by lia)
      rw [show sp + 4 * (3 + i) = v.toNat + 4 * i by lia,
        List.append_assoc, List.getElem?_append_right (by simp),
        List.getElem?_append_left (by simpa using hi')] at hword
      rw [hword]
      simp [hi']
    · exact hwrote.frame hstored (.inr (by rw [hbytes, hlo]; exact hplo))
  · have hfirst : ([0xffffffff, c, v] ++ args).length = 3 + argv.length := by
      rw [List.length_append, hlen]
      rfl
    have hword := hwords (3 + argv.length) (by lia)
    rw [show sp + 4 * (3 + argv.length) = v.toNat + 4 * argv.length by lia,
      List.getElem?_append_right (Nat.le_of_eq hfirst), hfirst,
      Nat.sub_self] at hword
    exact hword

inductive Arguments (d sz : UInt32) (argv : List (List UInt8)) (s : Vm) :
    Option (UInt32 × UInt32) -> Vm -> Prop where
  | done {s' : Vm} (sp : UInt32)
      (hfit : room argv + 4 * (argv.length + 4) ≤ 4096)
      (hargc : argv.length ≤ MAXARG)
      (hsp : sp.toNat + (room argv + 4 * (argv.length + 4)) = sz.toNat)
      (hframe : CallFrame (s'.userMem d) sp.toNat argv)
      (hothers : forall x, ¬ (sp.toNat ≤ x ∧ x < sz.toNat) ->
        s'.userMem d x = s.userMem d x) :
      Arguments d sz argv s (some (sz, sp)) s'
  | refused {s' : Vm}
      (h : ¬ (room argv + 4 * (argv.length + 4) ≤ 4096 ∧
        argv.length ≤ MAXARG)) : Arguments d sz argv s none s'

theorem words_toNat {n : Nat} (hn : n ≤ MAXARG) :
    ((3 + UInt32.ofNat n + 1) * 4).toNat = 4 * (n + 4) ∧
      ((UInt32.ofNat n + 1) * 4).toNat = 4 * (n + 1) := by
  constructor
  · rw [UInt32.toNat_mul, UInt32.toNat_add, UInt32.toNat_add,
      UInt32.toNat_ofNat']
    simp
    lia
  · rw [UInt32.toNat_mul, UInt32.toNat_add, UInt32.toNat_ofNat']
    simp
    lia

theorem room_mod (argv : List (List UInt8)) : room argv % 4 = 0 := by
  induction argv with
  | nil => rfl
  | cons arg rest ih =>
      have hslot := slot_mod arg
      rw [room_cons]
      lia

theorem Holds.wp_arguments (argv : List (List UInt8))
    (h : Holds o (some d) loose s) (hstack : Stack d sz g s)
    (hk : Kspace d s)
    (hargv : forall a, a ∈ argv -> a.length < 0x80000000) :
    wp (execArgs d sz argv)
      (fun r s' => Holds o (some d) loose s' ∧ s'.entry d = s.entry d ∧
        ¬ Overruns sz 0 0 argv ∧ Arguments d sz argv s r s')
      (fun e => e = .nullDeref ∧ Overruns sz 0 0 argv) s := by
  have hsize := hstack.size
  have hlt := hstack.lt
  have hmod := room_mod argv
  unfold execArgs
  rw [wp_bind]
  apply wp_mono (h.wp_pushes argv 0 0 sz [] hstack hk (by decide) (by decide)
    rfl rfl hargv)
  · rintro r s1 ⟨h1, hentry1, hover, hpushes⟩
    cases hpushes with
    | refused hbad =>
        refine ⟨h1, hentry1, hover, .refused ?_⟩
        lia
    | done sp args hfit hargc hsp htable hpushed =>
        rw [Nat.zero_add] at hfit hargc hsp hpushed
        rw [Nat.sub_zero] at hpushed
        have hlen : args.length = argv.length := hpushed.strings.length_eq
        rcases words_toNat hargc with ⟨hwords, hvector⟩
        have hmax : argv.length ≤ 32 := hargc
        dsimp only
        rw [List.nil_append, wp_bind, hlen]
        have hva : (sp - (3 + UInt32.ofNat argv.length + 1) * 4).toNat +
            4 * (argv.length + 4) = sp.toNat := by
          rw [UInt32.toNat_sub_of_le _ _ (by
            rw [UInt32.le_iff_toNat_le, hwords]
            lia), hwords]
          lia
        have hv : (sp - (UInt32.ofNat argv.length + 1) * 4).toNat +
            4 * (argv.length + 1) = sp.toNat := by
          rw [UInt32.toNat_sub_of_le _ _ (by
            rw [UInt32.le_iff_toNat_le, hvector]
            lia), hvector]
          lia
        have hc : (UInt32.ofNat argv.length).toNat = argv.length := by
          rw [UInt32.toNat_ofNat']
          lia
        generalize sp - (3 + UInt32.ofNat argv.length + 1) * 4 = va at hva ⊢
        generalize sp - (UInt32.ofNat argv.length + 1) * 4 = v at hv ⊢
        generalize UInt32.ofNat argv.length = c at hc ⊢
        have hbytes : (Kernel.wordBytes
            ([0xffffffff, c, v] ++ args ++ [0])).length =
              4 * (argv.length + 4) := by
          rw [wordBytes_length]
          simp [hlen]
        rcases Nat.lt_or_ge 4096 (room argv + 4 * (argv.length + 4)) with
          hlow | hroom
        · -- the words reach into the guard page
          apply wp_mono (h1.wp_copyout_stack (hstack.congr hentry1)
            (fun n hn hge _ => ?_))
          · rintro r s2 ⟨h2, hentry2, hpages⟩
            cases r with
            | false =>
                refine ⟨h2, hentry2.trans hentry1, hover, .refused ?_⟩
                lia
            | true =>
                refine absurd rfl (hpages rfl g ?_).1
                refine ⟨4096 * (g + 1) - 1 - va.toNat, ?_, ?_⟩
                · rw [hbytes]
                  lia
                · lia
          · exact fun e he => he
          · rcases hn with ⟨i, hi, rfl⟩
            rw [hbytes] at hi
            lia
        · apply wp_post (h1.wp_copyout_page (n := g + 1) (by lia)
            (hstack.congr hentry1).mapped (hstack.congr hentry1).user
            (by lia) (by rw [hbytes]; lia))
          rintro r s2 ⟨rfl, h2, hentry2, _, hwrote⟩
          refine ⟨h2, hentry2.trans hentry1, hover, .done va hroom hargc
            (by lia) ?_ ?_⟩
          · exact hpushed.callFrame hc (by lia) (by lia) (by lia) hwrote
          · intro x hx
            rw [hwrote.others x (by rw [hbytes]; lia), hpushed.others x (by lia)]
  · rintro e ⟨rfl, hover⟩
    exact ⟨rfl, hover⟩

end Push

theorem park_userMem {o : Others} {s s' : Vm} {loose : Multiset UInt32}
    {d : UInt32} {d' : Option UInt32} (h : Holds (o.park s d) d' loose s') :
    s'.userMem d = s.userMem d := by
  apply userMem_congr
  intro n hn
  unfold content
  rw [frame_congr (congrFun (park_keeps h).2 n)]
  cases hpa : s.frame d n with
  | none => rfl
  | some pa =>
      rw [Option.map_some, Option.map_some,
        h.mem pa (Multiset.mem_add.mpr (.inl (Multiset.mem_cons_of_mem
          (Multiset.mem_add.mpr (.inr (frame_mem hn hpa))))))]
      rfl

end Vm

namespace Kernel

section Exec

variable {o : Vm.Others} {k k1 k' : Kernel} {old d sz : UInt32} {cur : Pslot}

/-- The process after `exec`: the stack of the new image `d` of `sz` bytes holds
the arguments, and the rest of the image is as it was loaded. -/
structure HandedOver (cur : Pslot) (argv : List (List UInt8)) (d sz : UInt32)
    (k1 k' : Kernel) : Prop where
  pgdir : (k'.proc cur).pgdir = some d
  size : (k'.proc cur).sz = sz
  frame : Vm.CallFrame (k'.vm.userMem d) (k'.proc cur).tf.esp.toNat argv
  aligned : (k'.proc cur).tf.esp.toNat % 4 = 0
  inside : sz.toNat - 4096 ≤ (k'.proc cur).tf.esp.toNat ∧
    (k'.proc cur).tf.esp.toNat < sz.toNat
  others : forall x, ¬ (sz.toNat - 4096 ≤ x ∧ x < sz.toNat) ->
    k'.vm.userMem d x = k1.vm.userMem d x
  guarded : k'.vm.entry d (sz.toNat / 4096 - 2) &&& PTE_U = 0

theorem wp_execEnd {g : Nat} (path : List UInt8) (argv : List (List UInt8))
    (entry : UInt32) (hpgdir : (k.proc cur).pgdir = some old)
    (hold : Vm.Holds o (some old) 0 k.vm)
    (hb : Building (o.park k.vm old) d k k1)
    (hstack : Vm.Stack d sz g k1.vm) (hkspace : Vm.Kspace d k1.vm)
    (hargv : forall a, a ∈ argv -> a.length < 0x80000000) :
    wp (execEnd cur path argv (some (d, sz, entry)))
      (fun r k' => ¬ Vm.Overruns sz 0 0 argv ∧
        ((r = -1 ∧ ¬ (Vm.room argv + 4 * (argv.length + 4) ≤ 4096 ∧
            argv.length ≤ MAXARG)) ∨
          (r = 0 ∧ HandedOver cur argv d sz k1 k')))
      (fun e => (e = .nullDeref ∧ Vm.Overruns sz 0 0 argv) ∨
        (e ≠ .nullDeref ∧ ¬ Vm.Overruns sz 0 0 argv ∧
          (k.proc cur).kstack = none)) k1 := by
  have hsize := hstack.size
  show wp (onVm (Vm.execArgs d sz argv) >>= _) _ _ k1
  unfold onVm
  rw [wp_bind, wp_zoom]
  apply wp_mono (hb.holds.wp_arguments argv hstack hkspace hargv)
  · rintro x s2 ⟨h2, hentry, hover, harguments⟩
    cases harguments with
    | refused hbad =>
        apply wp_bind.mpr
        unfold onVm
        rw [wp_zoom]
        apply wp_post h2.wp_freevm
        exact fun _ _ _ => ⟨hover, .inl ⟨rfl, hbad⟩⟩
    | done sp hfit hargc hsp hframe hothers =>
        have hb2 : Building (o.park k.vm old) d k { k1 with vm := s2 } :=
          ⟨hb.still, h2⟩
        apply wp_execCommit path hold hpgdir _ hb2
        · intro k' _ _ hprocs _ hkeep
          have hmem : k'.vm.userMem d = s2.userMem d := Vm.park_userMem hkeep
          have hent : k'.vm.entry d = s2.entry d := (Vm.park_keeps hkeep).2
          have hproc : k'.proc cur = { k.proc cur with
              name := baseName path
              pgdir := some d
              sz := sz
              tf := { (k.proc cur).tf with eip := entry, esp := sp } } := by
            have hself := congrArg (fun x => x.proc cur) hprocs
            exact hself.trans (Function.update_self ..)
          have hroom := Vm.room_mod argv
          refine ⟨hover, .inr ⟨rfl, ?_⟩⟩
          constructor
          · rw [hproc]
          · rw [hproc]
          · rw [hproc, hmem]
            exact hframe
          · rw [hproc]
            show sp.toNat % 4 = 0
            lia
          · rw [hproc]
            show _ ≤ sp.toNat ∧ sp.toNat < _
            lia
          · intro x hx
            rw [hmem]
            exact hothers x (by lia)
          · have hguard : sz.toNat / 4096 - 2 = g := by lia
            rw [hguard, hent, hentry]
            exact hstack.guarded
        · intro hnone
          exact .inr ⟨Stop.noConfusion, hover, hnone⟩
  · rintro e ⟨rfl, hover⟩
    exact .inl ⟨rfl, hover⟩

/-- A successful `exec` hands its arguments over: the new stack is the frame of
a call with the same strings, in the page above the guard page. -/
theorem exec_hands_over (path : List UInt8) (argv : List (List UInt8))
    (hpgdir : (k.proc cur).pgdir = some old)
    (hold : Vm.Holds o (some old) 0 k.vm)
    (hargv : forall a, a ∈ argv -> a.length < 0x80000000)
    (hrun : exec cur path argv k = .ok (0, k')) :
    exists d sz entry k1, execSpace cur path k =
        .ok (some (d, sz, entry), k1) ∧ HandedOver cur argv d sz k1 k' := by
  rw [exec_eq] at hrun
  rcases bind_eq_ok.mp hrun with ⟨r, k1, hspace, hend⟩
  have hmade : Spaces (o.park k.vm old) k r k1 :=
    wp_ok (wp_execSpace (E := fun _ => True) cur path (fun _ _ => trivial)
      (fun _ => trivial) hold.park) hspace
  cases hmade with
  | fail _ _ => cases hend
  | made d sz entry g hb hstack hkspace =>
      rcases wp_ok (wp_execEnd path argv entry hpgdir hold hb hstack hkspace
        hargv) hend with ⟨_, ⟨hbad, _⟩ | ⟨_, hdone⟩⟩
      · cases hbad
      · exact ⟨d, sz, entry, k1, hspace, hdone⟩

theorem exec_overruns {path : List UInt8} {argv : List (List UInt8)}
    {entry : UInt32} (hpgdir : (k.proc cur).pgdir = some old)
    (hold : Vm.Holds o (some old) 0 k.vm)
    (hargv : forall a, a ∈ argv -> a.length < 0x80000000)
    (hspace : execSpace cur path k = .ok (some (d, sz, entry), k1)) :
    exec cur path argv k = .error .nullDeref ↔ Vm.Overruns sz 0 0 argv := by
  have hmade : Spaces (o.park k.vm old) k (some (d, sz, entry)) k1 :=
    wp_ok (wp_execSpace (E := fun _ => True) cur path (fun _ _ => trivial)
      (fun _ => trivial) hold.park) hspace
  rw [exec_eq, bind_run, hspace]
  cases hmade with
  | made d sz entry g hb hstack hkspace =>
      have hend := wp_execEnd path argv entry hpgdir hold hb hstack
        hkspace hargv
      dsimp only
      cases hlast : execEnd cur path argv (some (d, sz, entry)) k1 with
      | ok x =>
          have hnot := (wp_ok hend hlast).1
          constructor
          · exact fun hnull => nomatch hnull
          · exact fun hover => absurd hover hnot
      | error e =>
          rcases wp_error hend hlast with ⟨rfl, hover⟩ | ⟨hne, hnot, _⟩
          · exact ⟨fun _ => hover, fun _ => rfl⟩
          · constructor
            · rintro ⟨⟩
              exact absurd rfl hne
            · exact fun hover => absurd hover hnot

/-- `exec` only follows a missing table where an argument is so long that its
copy wraps around, past the kernel's devices.  The size of the image is the one
that the headers of the file give. -/
theorem exec_null_iff (path : List UInt8) (argv : List (List UInt8))
    (hpgdir : (k.proc cur).pgdir = some old)
    (hcwd : (k.proc cur).cwd ≠ none) (hold : Vm.Holds o (some old) 0 k.vm)
    (hargv : forall a, a ∈ argv -> a.length < 0x80000000) :
    (exec cur path argv k ≠ .error .nullDeref ↔
      forall d sz entry k1,
        execSpace cur path k = .ok (some (d, sz, entry), k1) ->
          ¬ Vm.Overruns sz 0 0 argv) ∧
      forall ip s d sz entry k1,
        execOpen (k.proc cur).pid (k.proc cur).cwd path k.fs =
            .ok (some ip, s) -> Whole s ip ->
          execSpace cur path k = .ok (some (d, sz, entry), k1) ->
            sz = imageSize (fileBytes s ip) := by
  refine ⟨?_, fun ip s d sz entry k1 hopen hwhole hspace =>
    execSpace_size hopen hwhole hspace⟩
  have hstops : ¬ Fs.Stops .nullDeref := by decide
  have hspace := wp_execSpace (E := fun e => e ≠ .nullDeref) cur path
    (fun e he hnull => hstops (hnull ▸ he)) (fun hnone => absurd hnone hcwd)
    hold.park
  cases hrun : execSpace cur path k with
  | error e =>
      have hne := wp_error hspace hrun
      rw [exec_eq, bind_run, hrun]
      constructor
      · exact fun _ d sz entry k1 hok => nomatch hok
      · intro _ hnull
        cases hnull
        exact hne rfl
  | ok r =>
      rcases r with ⟨_ | ⟨d, sz, entry⟩, k1⟩
      · rw [exec_eq, bind_run, hrun]
        constructor
        · exact fun _ d sz entry k1 hok => nomatch hok
        · exact fun _ hnull => nomatch hnull
      · rw [Ne, exec_overruns hpgdir hold hargv hrun]
        constructor
        · rintro hnot d' sz' entry' k1' ⟨⟩
          exact hnot
        · exact fun hfit => hfit d sz entry k1 rfl

end Exec

/-!
## A program without segments

The disk has a file `x` that is an ELF header and nothing else.
-/

def toolRoot : Block := fun i =>
  if i.val < 32 then
    rootBlock i
  else if i.val < 48 then
    Dirent.bytes { inum := 2, name := [120] } (i.val - 32)
  else
    0

def toolBlock : Block := fun i =>
  if i.val < 4 then Bytes.byteOf ELF_MAGIC.toNat i.val else 0

def toolDinode : Dinode :=
  { Dinode.zero with
    type := T_FILE
    nlink := 1
    size := 52
    addrs := fun k => if k.val = 0 then 60 else 0 }

def toolDisk : Nat -> Block := fun b =>
  if b = 59 then toolRoot else if b = 60 then toolBlock else rootDisk b

def toolFs : Fs :=
  { rootFs with
    disk := Superblock.mkfs.setDinode
      (Superblock.mkfs.setDinode toolDisk 1 { rootDinode with size := 48 })
      2 toolDinode }

def toolBoot : Kernel := { boot with fs := toolFs }

/-- The calls of `exec` into the file system. -/
def toolCalls : FsM (Slot × Int × List UInt8) := do
  Fs.beginOp
  match ← Fs.namei 1 (some 0) [120] with
  | none => stop .nullDeref
  | some ip => do
      Fs.ilock 1 ip
      let r ← Fs.readi 1 ip 0 (UInt32.ofNat ELFHDR)
      Fs.iunlockput 1 ip
      Fs.endOp
      pure (ip, r)

def toolBytes : List UInt8 := [127, 69, 76, 70] ++ List.replicate 48 0

theorem toolCalls_ok :
    exists s, toolCalls toolFs = .ok ((1, 52, toolBytes), s) := by
  have hvalue : (match toolCalls toolFs with
      | .ok (a, _) => some a
      | .error _ => none) = some (1, 52, toolBytes) := by
    decide +kernel
  cases hrun : toolCalls toolFs with
  | error e =>
      rw [hrun] at hvalue
      cases hvalue
  | ok x =>
      rcases x with ⟨a, s⟩
      rw [hrun] at hvalue
      cases hvalue
      exact ⟨s, rfl⟩

theorem tool_loads {k : Kernel} {o : Vm.Others} (hfs : k.fs = toolFs)
    (hpid : (k.proc 0).pid = 1) (hcwd : (k.proc 0).cwd = some 0)
    (h : Vm.Holds o none 0 k.vm) (hfree : 1029 ≤ k.vm.freelist.length) :
    exists d k1, execSpace 0 [120] k = .ok (some (d, 8192, 0), k1) := by
  suffices hwp : wp (execSpace 0 [120])
      (fun r _ => exists d, r = some (d, 8192, 0)) (fun _ => False) k by
    rcases wp_returns hwp with ⟨_, k1, hrun, d, rfl⟩
    exact ⟨d, k1, hrun⟩
  rcases toolCalls_ok with ⟨s6, hcalls⟩
  rcases bind_eq_ok.mp hcalls with ⟨_, s1, hbegin, hcalls⟩
  rcases bind_eq_ok.mp hcalls with ⟨ip, s2, hname, hcalls⟩
  cases ip with
  | none => cases hcalls
  | some ip =>
  rcases bind_eq_ok.mp hcalls with ⟨_, s3, hlock, hcalls⟩
  rcases bind_eq_ok.mp hcalls with ⟨r, s4, hread, hcalls⟩
  rcases bind_eq_ok.mp hcalls with ⟨_, s5, hput, hcalls⟩
  rcases bind_eq_ok.mp hcalls with ⟨_, s7, hlast, hcalls⟩
  cases hcalls
  unfold execSpace pidOf cwdOf
  rw [wp_bind, wp_gets, wp_bind, wp_gets, hpid, hcwd, wp_bind]
  apply wp_onFs_ok (by rw [hfs]; exact hbegin)
  rw [wp_bind]
  apply wp_onFs_ok hname
  apply wp_bind.mpr
  apply wp_onFs_ok hlock
  apply wp_bind.mpr
  apply wp_onFs_ok hread
  have hmagic : (Elfhdr.ofBytes toolBytes).magic = ELF_MAGIC := by decide
  have hphnum : (Elfhdr.ofBytes toolBytes).phnum = 0 := by decide
  have hentry : (Elfhdr.ofBytes toolBytes).entry = 0 := by decide
  dsimp only
  rw [if_neg (by decide), if_neg (not_not.mpr hmagic), wp_bind, hphnum, hentry]
  unfold onVm
  rw [wp_zoom]
  apply wp_post (h.wp_setupkvm_room (by lia))
  rintro r s8 ⟨d, rfl, h8, hfresh, hroom⟩
  show wp (onFs (Fs.iunlockput 1 1) >>= _) _ _ _
  rw [wp_bind]
  apply wp_onFs_ok hput
  rw [wp_bind]
  apply wp_onFs_ok hlast
  rw [wp_bind, wp_zoom]
  apply wp_post (h8.wp_execRoom hfresh.image)
  rintro r s9 ⟨_, hsome, hstack⟩
  have hpages : pagesOf 0 + 2 < UPAGES := by decide
  cases r with
  | none => exact absurd rfl (hsome hpages (by lia))
  | some sz =>
      have hsize := (hstack sz rfl).1.size
      have hpages : pagesOf 0 = 0 := by decide
      have hsz : sz = 8192 := by
        apply UInt32.toNat_inj.mp
        rw [hsize, hpages]
        rfl
      exact ⟨d, by rw [hsz]⟩

theorem toolBoot_free : 56000 ≤ toolBoot.vm.freelist.length := by
  show 56000 ≤ (List.map pageAddr (List.range' 0x444 (0xE000 - 0x444))).length
  rw [List.length_map, List.length_range']
  decide

theorem toolBoot_opened :
    exists o, Vm.Holds o (some (pageAddr 0x401)) 0 toolBoot.vm :=
  boot_opened

theorem not_overruns_short (sz : UInt32) : ¬ Vm.Overruns sz 0 0 [[120]] := by
  rw [Vm.overruns_cons (by decide)]
  rintro ⟨_, hmiss | hrest⟩
  · have hslot : Vm.slot [120] = 4 := by decide
    rw [hslot] at hmiss
    unfold Vm.Missing at hmiss
    lia
  · exact Vm.not_overruns_nil hrest

theorem tool_runs {k : Kernel} {o : Vm.Others} {old : UInt32}
    (hfs : k.fs = toolFs) (hpid : (k.proc 0).pid = 1)
    (hcwd : (k.proc 0).cwd = some 0) (hkstack : (k.proc 0).kstack ≠ none)
    (hpgdir : (k.proc 0).pgdir = some old)
    (hold : Vm.Holds o (some old) 0 k.vm)
    (hfree : 1029 ≤ k.vm.freelist.length) :
    exists k', exec 0 [120] [[120]] k = .ok (0, k') := by
  have hargv : forall a : List UInt8, a ∈ [[120]] ->
      a.length < 0x80000000 := by
    decide
  rcases tool_loads hfs hpid hcwd hold.park hfree with ⟨d, k1, hspace⟩
  have hmade := wp_ok (wp_execSpace (E := fun _ => True) 0 [120]
    (fun _ _ => trivial) (fun _ => trivial) hold.park) hspace
  cases hmade with
  | made d sz entry g hb hstack hkspace =>
      have hend := wp_execEnd [120] [[120]] 0 hpgdir hold hb hstack
        hkspace hargv
      rw [exec_eq, bind_run, hspace]
      dsimp only
      cases hlast : execEnd 0 [120] [[120]] (some (d, 8192, 0)) k1 with
      | error e =>
          rcases wp_error hend hlast with ⟨_, hover⟩ | ⟨_, _, hnone⟩
          · exact absurd hover (not_overruns_short _)
          · exact absurd hnone hkstack
      | ok x =>
          rcases x with ⟨r, k'⟩
          rcases (wp_ok hend hlast).2 with ⟨_, hbad⟩ | ⟨rfl, _⟩
          · exact absurd (by decide) hbad
          · exact ⟨k', rfl⟩

/-- The call commits: `init` gets an image of two pages. -/
theorem exec_fails_cleanly_tool :
    exists o k' d sz entry sp, exec 0 [120] [[120]] toolBoot = .ok (0, k') ∧
      Vm.Image d sz k'.vm ∧ Vm.Holds o (some d) 0 k'.vm ∧
      k'.procs = toolBoot.procs.set 0 (fun pr =>
        { pr with
          name := baseName [120]
          pgdir := some d
          sz := sz
          tf := { pr.tf with eip := entry, esp := sp } }) := by
  rcases toolBoot_opened with ⟨o, h⟩
  have hfree : 1029 ≤ toolBoot.vm.freelist.length :=
    le_trans (by decide) toolBoot_free
  rcases tool_loads rfl rfl rfl h.park hfree with ⟨d, k1, hspace⟩
  rcases tool_runs rfl rfl rfl (Option.some_ne_none _)
    rfl h hfree with ⟨k', hrun⟩
  have hpgdir : (toolBoot.proc 0).pgdir = some (pageAddr 0x401) := rfl
  have hkstack : (toolBoot.proc 0).kstack ≠ none := Option.some_ne_none _
  have hcwd : (toolBoot.proc 0).cwd ≠ none := Option.some_ne_none _
  generalize toolBoot = k at h hspace hrun hpgdir hkstack hcwd ⊢
  have hshort : forall d sz entry k1,
      execSpace 0 [120] k = .ok (some (d, sz, entry), k1) ->
        forall a : List UInt8, a ∈ [[120]] -> a.length < sz.toNat := by
    intro d' sz entry k2 hspace' a ha
    rw [hspace] at hspace'
    cases hspace'
    rw [List.mem_singleton.mp ha]
    decide
  rcases wp_ok (exec_fails_cleanly [120] [[120]] hpgdir hkstack hcwd h hshort)
    hrun with ⟨_, d', sz, entry, sp, himage, hholds, hprocs⟩ | ⟨hbad, _⟩
  · exact ⟨o, k', d', sz, entry, sp, hrun, himage, hholds, hprocs⟩
  · cases hbad

theorem exec_hands_over_tool :
    exists k' d sz entry k1, exec 0 [120] [[120]] toolBoot = .ok (0, k') ∧
      execSpace 0 [120] toolBoot = .ok (some (d, sz, entry), k1) ∧
      HandedOver 0 [[120]] d sz k1 k' := by
  rcases toolBoot_opened with ⟨o, h⟩
  have hfree : 1029 ≤ toolBoot.vm.freelist.length :=
    le_trans (by decide) toolBoot_free
  rcases tool_runs rfl rfl rfl (Option.some_ne_none _)
    rfl h hfree with ⟨k', hrun⟩
  rcases exec_hands_over [120] [[120]] rfl h (by decide) hrun with
    ⟨d, sz, entry, k1, hspace, hover⟩
  exact ⟨k', d, sz, entry, k1, hrun, hspace, hover⟩

theorem exec_null_tool : exec 0 [120] [[120]] toolBoot ≠ .error .nullDeref := by
  rcases toolBoot_opened with ⟨o, h⟩
  apply (exec_null_iff [120] [[120]] rfl (Option.some_ne_none _) h
    (by decide)).1.mpr
  exact fun d sz entry k1 _ => not_overruns_short sz

theorem growproc_grows {o : Vm.Others} {loose : Multiset UInt32} {cur : Pslot}
    {d : UInt32} {k : Kernel} (hk : Fitted o loose cur d k) {n : Int32}
    (hn : 0 < n) (newsz : UInt32) (hnew : (k.proc cur).sz + n.toUInt32 = newsz)
    (hle : (k.proc cur).sz ≤ newsz) (hlt : newsz < KERNBASE)
    (hroom : 2 * (pagesOf newsz - pagesOf (k.proc cur).sz) ≤
      k.vm.freelist.length) :
    exists k', growproc cur n k = .ok (0, k') ∧ k'.fs = k.fs ∧
      k'.proc cur = { k.proc cur with sz := newsz } ∧
      Vm.Holds o (some d) loose k'.vm ∧ k.vm.freelist.length ≤
        k'.vm.freelist.length +
          2 * (pagesOf newsz - pagesOf (k.proc cur).sz) := by
  have hne : newsz ≠ 0 := by
    rintro rfl
    have hpos := UInt32.lt_of_lt_of_le hk.pos hle
    exact UInt32.lt_irrefl 0 hpos
  rcases wp_returns (wp_growproc (E := fun _ => False) hk.holds hk.pgdir
    (UInt32.le_of_lt hk.lt) n (fun m hm hm' hframe =>
      absurd ((hk.maps m hm').mp hframe) (Nat.not_lt.mpr hm)) hk.kstack) with
    ⟨r, k', hrun, sz, s', hsized, hs, _, hsettles⟩
  cases hsized with
  | down hneg => exact absurd hn (Int32.not_lt.mpr (Int32.le_of_lt hneg))
  | zero hzero =>
      subst hzero
      exact absurd hn (by decide)
  | up _ hallocs =>
      rw [hnew] at hallocs
      cases hallocs with
      | fail _ hscarce => exact absurd (hscarce hlt) (Nat.not_lt.mpr hroom)
      | keep hlt' => exact absurd hle (UInt32.not_le.mpr hlt')
      | grow _ _ hfill =>
          cases hsettles with
          | fail hfail => exact absurd hfail.2 hne
          | done _ =>
              exact ⟨_, hrun, rfl, Function.update_self .., hs, hfill.room⟩

theorem overruns_long {arg : List UInt8} (harg : arg.length = 0x2004000) :
    Vm.Overruns 8192 0 0 [arg] := by
  have hslot : Vm.slot arg = 0x2004004 := by
    unfold Vm.slot
    lia
  have hzero : Vm.room [] = 0 := rfl
  have hsize : (8192 : UInt32).toNat = 8192 := rfl
  refine ⟨0, Nat.zero_lt_one, by decide, ?_, ?_⟩
  · rw [List.take_zero, hzero]
    decide
  · rw [List.take_succ_cons, List.take_zero, Vm.room_cons, hslot, hzero]
    unfold Vm.Missing
    lia

/-- A process that has grown to 34 megabytes passes an argument of more than 32
megabytes: the copy starts at an address that has no page table. -/
theorem exec_missing_table :
    exists k, growproc 0 0x2200000 toolBoot = .ok (0, k) ∧
      0x2004000 < (k.proc 0).sz.toNat ∧
      exec 0 [120] [List.replicate 0x2004000 97] k = .error .nullDeref := by
  have hlong : (List.replicate 0x2004000 (97 : UInt8)).length = 0x2004000 :=
    List.length_replicate
  generalize List.replicate 0x2004000 (97 : UInt8) = arg at hlong
  rcases toolBoot_opened with ⟨o, h⟩
  have hfitted : Fitted o 0 0 (pageAddr 0x401) toolBoot :=
    ⟨rfl, nofun, h, boot_maps, by decide, by decide⟩
  have hpages : 2 * (pagesOf 0x2201000 - pagesOf 4096) = 17408 := by decide
  have hfree := toolBoot_free
  rcases growproc_grows hfitted (n := 0x2200000) (by decide) 0x2201000
    (by decide) (by decide) (by decide)
    (by rw [show (toolBoot.proc 0).sz = 4096 from rfl, hpages]; lia) with
    ⟨k, hgrow, hfs, hproc, h', hlen⟩
  have hinit : toolBoot.proc 0 = initProc := rfl
  rw [hinit] at hproc hlen
  have hsz : (k.proc 0).sz = 0x2201000 := congrArg Proc.sz hproc
  have hpid : (k.proc 0).pid = 1 := congrArg Proc.pid hproc
  have hcwd : (k.proc 0).cwd = some 0 := congrArg Proc.cwd hproc
  have hpgdir : (k.proc 0).pgdir = some (pageAddr 0x401) :=
    congrArg Proc.pgdir hproc
  rw [show initProc.sz = 4096 from rfl, hpages] at hlen
  refine ⟨k, hgrow, by rw [hsz]; decide, ?_⟩
  rcases tool_loads hfs hpid hcwd h'.park (by lia) with ⟨d, k1, hspace⟩
  apply (exec_overruns hpgdir h' _ hspace).mpr
  · exact overruns_long hlong
  · intro a ha
    rw [List.mem_singleton.mp ha, hlong]
    decide

end Kernel
end Xv6
