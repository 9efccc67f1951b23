import Xv6.Proc.Memory

/-!
# A new image

`exec` builds an address space beside the one it runs in, and either frees it
again or gives up the old one for it.  Whatever the program headers say, the
pages below the size of the image are mapped and no others; the stack page
lies under the guard page, so a string that does not fit is refused.
-/

namespace Xv6

open Lib Lib.Run

namespace Vm

/-!
## The pages of an image
-/

/-- The pages below `sz` are mapped, and the user may not touch what the
kernel maps. -/
structure Image (d sz : UInt32) (s : Vm) : Prop where
  maps : Maps d (pagesOf sz) s
  kernel : forall n, UPAGES ≤ n -> s.entry d n &&& PTE_U = 0
  top : s.frame d 0xFFFFF ≠ none
  size : sz < KERNBASE

section Image

variable {o : Others} {s s' : Vm} {loose : Multiset UInt32}
  {E : Stop -> Prop} {d sz : UInt32}

theorem Fresh.image (h : Fresh d s) : Image d 0 s := by
  refine ⟨fun n hn => ?_, fun n _ => h.kernel n, h.top, by decide⟩
  have hzero : pagesOf 0 = 0 := by decide
  unfold frame
  rw [h.user n hn, target_zero, hzero]
  simp

theorem Image.congr (h : Image d sz s) (hentry : s'.entry d = s.entry d) :
    Image d sz s' := by
  rcases h with ⟨hmaps, hkernel, htop, hsize⟩
  unfold Maps frame at hmaps
  unfold frame at htop
  rw [← hentry] at hmaps hkernel htop
  exact ⟨hmaps, hkernel, htop, hsize⟩

theorem Image.pages_lt (h : Image d sz s) : pagesOf sz ≤ UPAGES :=
  pagesOf_le (UInt32.le_of_lt h.size)

theorem Image.filled {newsz : UInt32} (h : Image d sz s) (hle : sz ≤ newsz)
    (hlt : newsz < KERNBASE)
    (hfill : Filled d (pagesOf sz) (pagesOf newsz) s s') :
    Image d newsz s' := by
  have hpages := pagesOf_mono hle
  have hnew := pagesOf_le (UInt32.le_of_lt hlt)
  refine ⟨fun n hn => ?_, fun n hn => ?_, ?_, hlt⟩
  · rcases Decidable.em (pagesOf sz ≤ n ∧ n < pagesOf newsz) with hin | hout
    · have hmapped := hfill.mapped n hin.1 hin.2
      simp [hmapped, hin.2]
    · have hmaps := h.maps n hn
      unfold frame at hmaps ⊢
      rw [hfill.same n hout, hmaps]
      lia
  · rw [hfill.same n (by lia)]
    exact h.kernel n hn
  · have htop := h.top
    unfold frame at htop ⊢
    rw [hfill.same _ (by lia)]
    exact htop

theorem Holds.wp_allocuvm_image (h : Holds o (some d) loose s)
    (himage : Image d sz s) (newsz : UInt32) :
    wp (allocuvm d sz newsz)
      (fun r s' => Holds o (some d) loose s' ∧
        (r ≠ 0 -> Image d r s' ∧ newsz ≤ r ∧ (Kspace d s -> Kspace d s')))
      E s := by
  apply wp_post (h.wp_allocuvm ?_)
  · rintro r s' ⟨h', hallocs, hspares⟩
    refine ⟨h', fun hr => ?_⟩
    cases hallocs with
    | fail _ _ => exact absurd rfl hr
    | keep hlt => exact ⟨himage, UInt32.le_of_lt hlt, id⟩
    | grow hle hlt hfill =>
        refine ⟨himage.filled hle hlt hfill, UInt32.le_refl _, fun hk => ?_⟩
        have hpages := pagesOf_le (UInt32.le_of_lt hlt)
        refine hk.congr (h'.data.trans h.data.symm) ?_ hspares.table
        exact fun n hn => hfill.same n (by lia)
  · -- nothing is mapped from `sz` on
    intro hlt n hn hn' hmapped
    have hnew := pagesOf_le (UInt32.le_of_lt hlt)
    have hbelow := (himage.maps n (by lia)).mp hmapped
    lia

theorem Image.page (h : Image d sz s) {n : Nat} (hn : n < pagesOf sz) :
    exists t pa, s.table d (n / 1024) = some t ∧ s.frame d n = some pa ∧
      s.wordAt t (n % 1024) = s.entry d n ∧ PTE_ADDR (s.entry d n) = pa := by
  have hup := h.pages_lt
  have hmapped := (h.maps n (by lia)).mpr hn
  rcases Option.ne_none_iff_exists'.mp hmapped with ⟨pa, hpa⟩
  rcases frame_table hpa with ⟨t, ht⟩
  refine ⟨t, pa, ht, hpa, (entry_of_table ht).symm, ?_⟩
  unfold frame target at hpa
  split at hpa
  · exact Option.some.inj hpa
  · cases hpa

/-!
## Copying to the stack
-/

/-- The stack of an image of `g + 2` pages: the page `g` guards it. -/
structure Stack (d sz : UInt32) (g : Nat) (s : Vm) : Prop where
  image : Image d sz s
  size : sz.toNat = 4096 * (g + 2)
  guarded : s.entry d g &&& PTE_U = 0
  user : s.entry d (g + 1) &&& PTE_U ≠ 0

theorem Stack.congr {g : Nat} (h : Stack d sz g s)
    (hentry : s'.entry d = s.entry d) : Stack d sz g s' :=
  ⟨h.image.congr hentry, h.size, by rw [hentry]; exact h.guarded,
    by rw [hentry]; exact h.user⟩

theorem Stack.lt {g : Nat} (h : Stack d sz g s) : g + 2 < UPAGES := by
  have hlt : sz.toNat < 0x80000000 := UInt32.lt_iff_toNat_lt.mp h.image.size
  have hsize := h.size
  unfold UPAGES
  lia

theorem Stack.page {g n : Nat} (h : Stack d sz g s) (hn : n < g + 2) :
    exists t, s.table d (n / 1024) = some t := by
  have hpages : n < pagesOf sz := by
    unfold pagesOf
    rw [h.size]
    lia
  rcases h.image.page hpages with ⟨t, _, ht, _⟩
  exact ⟨t, ht⟩

theorem Stack.top {g : Nat} (h : Stack d sz g s) :
    exists t, s.table d (0xFFFFF / 1024) = some t := by
  rcases Option.ne_none_iff_exists'.mp h.image.top with ⟨pa, hpa⟩
  exact frame_table hpa

theorem Holds.wp_copyout_stack (h : Holds o (some d) loose s) {g : Nat}
    (hstack : Stack d sz g s) {va : UInt32} {bs : List UInt8}
    (hnull : forall n, Touched va bs.length n -> g + 2 ≤ n -> n ≠ 0xFFFFF ->
      E .nullDeref) :
    wp (copyout d va bs)
      (fun r s' => Holds o (some d) loose s' ∧ s'.entry d = s.entry d ∧
        (r = true -> forall n, Touched va bs.length n ->
          n ≠ g ∧ n < UPAGES))
      E s := by
  unfold copyout
  apply wp_post (h.wp_copyoutLoop bs.length (Nat.le_refl _)
    hstack.image.kernel (fun n hn hnone => ?_))
  · rintro r s' ⟨h', hentry, hall⟩
    refine ⟨h', hentry, fun hr n hn => ⟨?_, ?_⟩⟩
    · rintro rfl
      exact hall hr n hn hstack.guarded
    · apply Nat.lt_of_not_le
      exact fun hle => hall hr n hn (hstack.image.kernel n hle)
  · rcases Nat.lt_or_ge n (g + 2) with hlt | hge
    · rcases hstack.page hlt with ⟨t, ht⟩
      rw [ht] at hnone
      cases hnone
    · refine hnull n hn hge ?_
      rintro rfl
      rcases hstack.top with ⟨t, ht⟩
      rw [ht] at hnone
      cases hnone

end Image

/-!
## The arguments
-/

section Args

variable {o : Others} {s s' : Vm} {loose : Multiset UInt32}
  {E : Stop -> Prop} {d sz : UInt32}

theorem word_toNat (x : UInt32) :
    (x &&& 0xFFFFFFFC).toNat = x.toNat / 4 * 4 :=
  (UInt32.toNat_and x _).trans (and_mask x (k := 2) (by decide))

theorem push_toNat {sp : UInt32} {n : Nat} (hn : n < 2 ^ 32) :
    ((sp - UInt32.ofNat n) &&& 0xFFFFFFFC).toNat =
      (2 ^ 32 + sp.toNat - n) % 2 ^ 32 / 4 * 4 := by
  rw [word_toNat, UInt32.toNat_sub, UInt32.toNat_ofNat']
  lia

/-- A stack pointer in the stack page. -/
def InStack (g : Nat) (sp : UInt32) : Prop :=
  4096 * (g + 1) ≤ sp.toNat ∧ sp.toNat ≤ 4096 * (g + 2)

theorem push_touched {g len : Nat} {sp va : UInt32} (hsp : InStack g sp)
    (hup : g + 2 < UPAGES) (hlen : len < 4096 * (g + 2))
    (hva : va.toNat =
      (2 ^ 32 + sp.toNat - (len + 1)) % 2 ^ 32 / 4 * 4) :
    (forall n, Touched va (len + 1) n -> g + 2 ≤ n -> n = 0xFFFFF) ∧
      ((forall n, Touched va (len + 1) n -> n ≠ g ∧ n < UPAGES) ->
        InStack g va) := by
  rcases hsp with ⟨hlo, hhi⟩
  rcases Nat.lt_or_ge sp.toNat (len + 1) with hwrap | hfit
  · -- below address 0, in the last page
    have hvalo : 0xFFFFF000 ≤ va.toNat := by lia
    have hvahi := va.toNat_lt
    constructor
    · rintro n ⟨i, hi, rfl⟩ hge
      rcases Nat.lt_or_ge (va.toNat + i) (2 ^ 32) with hin | hout
      · lia
      · lia
    · intro hall
      have hfirst := hall (va.toNat / 4096) ⟨0, by lia, by lia⟩
      lia
  · constructor
    · rintro n ⟨i, hi, rfl⟩ hge
      lia
    · intro hall
      refine ⟨?_, by lia⟩
      apply Nat.le_of_not_lt
      intro hlt
      -- the last bytes lie in the guard page
      refine (hall g ⟨4096 * (g + 1) - 4 - va.toNat, by lia, ?_⟩).1 rfl
      lia

theorem Holds.wp_pushArgs {g : Nat} (argv : List (List UInt8)) (argc : Nat)
    {sp : UInt32} (ustack : List UInt32) (h : Holds o (some d) loose s)
    (hstack : Stack d sz g s)
    (hsp : E .nullDeref ∨ InStack g sp ∧
      forall a, a ∈ argv -> a.length < 4096 * (g + 2))
    (hlen : ustack.length ≤ argc) (hargc : argc ≤ MAXARG) :
    wp (Kernel.pushArgs d argv argc sp ustack)
      (fun r s' => Holds o (some d) loose s' ∧ s'.entry d = s.entry d ∧
        forall sp' args, r = some (sp', args) ->
          (E .nullDeref ∨ InStack g sp') ∧ args.length ≤ MAXARG)
      E s := by
  induction argv generalizing argc sp ustack s with
  | nil =>
      refine ⟨h, rfl, ?_⟩
      rintro sp' args ⟨⟩
      exact ⟨hsp.imp_right And.left, hlen.trans hargc⟩
  | cons arg rest ih =>
      have hup := hstack.lt
      have hbytes : (arg ++ [0]).length = arg.length + 1 := by simp
      unfold Kernel.pushArgs
      rw [wp_ite]
      constructor
      · exact fun _ => ⟨h, rfl, fun _ _ hr => nomatch hr⟩
      · intro hmore
        generalize hva :
          (sp - UInt32.ofNat (arg.length + 1)) &&& 0xFFFFFFFC = va
        have hpush : E .nullDeref ∨
            (forall n, Touched va (arg.length + 1) n -> g + 2 ≤ n ->
              n = 0xFFFFF) ∧
            ((forall n, Touched va (arg.length + 1) n ->
              n ≠ g ∧ n < UPAGES) -> InStack g va) := by
          rcases hsp with hE | ⟨hin, hshort⟩
          · exact .inl hE
          · have harg := hshort arg List.mem_cons_self
            refine .inr (push_touched hin hup harg ?_)
            rw [← hva]
            exact push_toNat (by lia)
        show wp (copyout d va (arg ++ [0]) >>= _) _ E s
        rw [wp_bind]
        apply wp_post (h.wp_copyout_stack hstack (fun n hn hge htop => ?_))
        · rintro r s' ⟨h', hentry, hpages⟩
          cases r with
          | false => exact ⟨h', hentry, fun _ _ hr => nomatch hr⟩
          | true =>
              have hpages' := hpages rfl
              rw [hbytes] at hpages'
              apply wp_post (ih (argc + 1) (ustack ++ [va]) h'
                (hstack.congr hentry) ?_ ?_ (by lia))
              · rintro r s'' ⟨h'', hentry', hr⟩
                exact ⟨h'', hentry'.trans hentry, hr⟩
              · rcases hpush with hE | ⟨_, hin⟩
                · exact .inl hE
                · rcases hsp with hE | ⟨_, hshort⟩
                  · exact .inl hE
                  · refine .inr ⟨hin hpages', fun a ha => ?_⟩
                    exact hshort a (List.mem_cons_of_mem arg ha)
              · rw [List.length_append]
                exact Nat.succ_le_succ hlen
        · rcases hpush with hE | ⟨hpush, _⟩
          · exact hE
          · rw [hbytes] at hn
            exact absurd (hpush n hn hge) htop

/-- The part of `execStack` that makes room for the stack. -/
@[irreducible] def execRoom (pgdir sz : UInt32) : VmM (Option UInt32) := do
  let sz := PGROUNDUP sz
  let sz ← allocuvm pgdir sz (sz + 2 * 4096)
  if sz = 0 then
    pure none
  else do
    clearpteu pgdir (sz - 2 * 4096)
    pure (some sz)

/-- The part of `execStack` that copies the arguments. -/
@[irreducible] def execArgs (pgdir sz : UInt32) (argv : List (List UInt8)) :
    VmM (Option (UInt32 × UInt32)) := do
  match ← Kernel.pushArgs pgdir argv 0 sz [] with
  | none => pure none
  | some (sp, args) => do
      let argc := UInt32.ofNat args.length
      let ustack := [0xffffffff, argc, sp - (argc + 1) * 4] ++ args ++ [0]
      let sp := sp - (3 + argc + 1) * 4
      let ok ← copyout pgdir sp (Kernel.wordBytes ustack)
      pure (if ok then some (sz, sp) else none)

theorem execStack_eq (pgdir sz : UInt32) (argv : List (List UInt8)) :
    Kernel.execStack pgdir sz argv = (do
      match ← execRoom pgdir sz with
      | none => pure none
      | some sz => execArgs pgdir sz argv) := by
  unfold Kernel.execStack execRoom execArgs
  dsimp only
  rw [bind_bind]
  apply bind_congr_run
  intro sz
  rcases Decidable.em (sz = 0) with hzero | hne
  · rw [if_pos hzero, if_pos hzero]
    rfl
  · rw [if_neg hne, if_neg hne, bind_bind]
    rfl

theorem pagesOf_pageAddr {n : Nat} (hn : n < 2 ^ 20) :
    pagesOf (pageAddr n) = n := by
  unfold pagesOf
  rw [pageAddr_toNat hn]
  lia

theorem Holds.wp_execRoom (h : Holds o (some d) loose s)
    (himage : Image d sz s) :
    wp (execRoom d sz)
      (fun r s' => Holds o (some d) loose s' ∧
        (pagesOf sz + 2 < UPAGES -> 4 ≤ s.freelist.length -> r ≠ none) ∧
        forall sz', r = some sz' -> Stack d sz' (pagesOf sz) s' ∧
          (Kspace d s -> Kspace d s'))
      E s := by
  have hpages := himage.pages_lt
  generalize hg : pagesOf sz = g at hpages
  have hup : PGROUNDUP sz = pageAddr g := by
    rw [PGROUNDUP_eq (UInt32.le_of_lt himage.size), hg]
  have hadd : pageAddr g + 2 * 4096 = pageAddr (g + 2) := pageAddr_add g 2
  have hsub : pageAddr (g + 2) - 2 * 4096 = pageAddr g :=
    pageAddr_sub (m := g + 2) (n := 2) (by lia)
  have hold := pagesOf_pageAddr (n := g) (by lia)
  have hnew := pagesOf_pageAddr (n := g + 2) (by lia)
  have hlast := pageAddr_toNat (n := g + 2) (by lia)
  unfold execRoom
  dsimp only
  rw [hup, hadd, wp_bind]
  generalize hz : pageAddr (g + 2) = newsz at hsub hnew hlast ⊢
  apply wp_post (h.wp_allocuvm ?_)
  · rintro r s' ⟨h', hallocs, hspares⟩
    cases hallocs with
    | fail _ hscarce =>
        rw [if_pos rfl]
        refine ⟨h', fun hfit hfree => ?_, fun _ hr => nomatch hr⟩
        have hlt : newsz < KERNBASE := by
          have hbase : KERNBASE.toNat = 0x80000000 := by decide
          unfold UPAGES at hfit
          rw [UInt32.lt_iff_toNat_lt, hlast, hbase]
          lia
        have hroom := hscarce hlt
        rw [hold, hnew] at hroom
        lia
    | keep hlt =>
        rw [UInt32.lt_iff_toNat_lt, hlast, pageAddr_toNat (by lia)] at hlt
        lia
    | grow _ hlt hfill =>
        have hbase : newsz.toNat < 0x80000000 := UInt32.lt_iff_toNat_lt.mp hlt
        rw [hold, hnew] at hfill
        have hr : newsz ≠ 0 := by
          intro hzero
          rw [hzero] at hlast
          change 0 = _ at hlast
          lia
        have hnat : (pageAddr g).toNat / 4096 = g := by
          rw [pageAddr_toNat (by lia)]
          exact Nat.mul_div_cancel_left g (by decide)
        have hguard : s'.table d ((pageAddr g).toNat / 4096 / 1024) ≠ none := by
          rcases Option.ne_none_iff_exists'.mp
            (hfill.mapped g (by lia) (by lia)) with ⟨pa, hpa⟩
          rcases frame_table hpa with ⟨t, ht⟩
          rw [hnat, ht]
          exact Option.some_ne_none t
        rw [if_neg hr, hsub, wp_bind]
        apply wp_post (h'.wp_clearpteu (fun hnone => absurd hnone hguard))
        rw [hnat]
        rintro _ s'' ⟨h'', htable, hentry⟩
        refine ⟨h'', fun _ _ hr => (nomatch hr), fun sz' hsz' => ?_⟩
        have hframe : forall n, s''.frame d n = s'.frame d n := by
          intro n
          unfold frame
          rw [hentry]
          rcases eq_or_ne n g with rfl | hne
          · rw [Function.update_self, target_clear]
          · rw [Function.update_of_ne hne]
        rw [← Option.some.inj hsz']
        refine ⟨⟨?_, hlast, ?_, ?_⟩, ?_⟩
        · refine ⟨fun n hn => ?_, fun n hn => ?_, ?_, hlt⟩
          · rw [hframe, hnew]
            rcases Decidable.em (g ≤ n ∧ n < g + 2) with hin | hout
            · have hmapped := hfill.mapped n hin.1 hin.2
              simp [hmapped, hin.2]
            · have hmaps := himage.maps n hn
              unfold frame at hmaps ⊢
              rw [hfill.same n hout, hmaps, hg]
              lia
          · rw [hentry, Function.update_of_ne (by lia), hfill.same n (by lia)]
            exact himage.kernel n hn
          · have htop := himage.top
            rw [hframe]
            unfold frame at htop ⊢
            rw [hfill.same _ (by lia)]
            exact htop
        · rw [hentry, Function.update_self, UInt32.and_assoc]
          exact UInt32.and_zero
        · rw [hentry, Function.update_of_ne (by lia)]
          exact hfill.user (g + 1) (by lia) (by lia)
        · intro hk
          refine hk.congr (h''.data.trans h.data.symm) ?_ ?_
          · intro n hn
            rw [hentry, Function.update_of_ne (by lia), hfill.same n (by lia)]
          · intro j hj
            rw [htable]
            exact hspares.table j hj
  · -- nothing is mapped from `sz` on
    intro hlt n hn hn' hmapped
    rw [hold] at hn
    have hup' := pagesOf_le (UInt32.le_of_lt hlt)
    have hbelow := (himage.maps n (by lia)).mp hmapped
    lia

theorem wordBytes_length (ws : List UInt32) :
    (Kernel.wordBytes ws).length = 4 * ws.length := by
  unfold Kernel.wordBytes
  rw [List.length_flatMap]
  simp [Nat.mul_comm]

theorem words_touched {g n : Nat} {sp : UInt32} (hsp : InStack g sp)
    {m : Nat} (hm : m ≤ MAXARG)
    (hn : Touched (sp - (3 + UInt32.ofNat m + 1) * 4) (4 * (m + 4)) n) :
    n < g + 2 := by
  have hwords : ((3 + UInt32.ofNat m + 1) * 4).toNat = 4 * (m + 4) := by
    rw [UInt32.toNat_mul, UInt32.toNat_add, UInt32.toNat_add,
      UInt32.toNat_ofNat']
    simp
    lia
  rcases hsp with ⟨hlo, hhi⟩
  rcases hn with ⟨i, hi, rfl⟩
  rw [UInt32.toNat_sub, hwords]
  lia

theorem Holds.wp_execArgs {g : Nat} (argv : List (List UInt8))
    (h : Holds o (some d) loose s) (hstack : Stack d sz g s)
    (hargv : E .nullDeref ∨ forall a, a ∈ argv -> a.length < sz.toNat) :
    wp (execArgs d sz argv)
      (fun r s' => Holds o (some d) loose s' ∧ s'.entry d = s.entry d ∧
        forall x, r = some x -> x.1 = sz)
      E s := by
  rw [hstack.size] at hargv
  have hstart : InStack g sz := by
    unfold InStack
    rw [hstack.size]
    lia
  unfold execArgs
  rw [wp_bind]
  apply wp_post (h.wp_pushArgs argv 0 [] hstack
    (hargv.imp_right (fun hshort => ⟨hstart, hshort⟩)) (Nat.le_refl _)
    (by decide))
  rintro r s1 ⟨h1, hentry1, hr⟩
  cases r with
  | none => exact ⟨h1, hentry1, fun _ hx => nomatch hx⟩
  | some r =>
      rcases r with ⟨sp, args⟩
      rcases hr sp args rfl with ⟨hsp, hlen⟩
      dsimp only
      rw [wp_bind]
      generalize hws : ([0xffffffff, UInt32.ofNat args.length,
        sp - (UInt32.ofNat args.length + 1) * 4] ++ args ++ [0] :
          List UInt32) = ws
      have hbytes : (Kernel.wordBytes ws).length = 4 * (args.length + 4) := by
        rw [wordBytes_length, ← hws]
        simp
      apply wp_post (h1.wp_copyout_stack (hstack.congr hentry1)
        (fun n hn hge _ => ?_))
      · rintro ok s2 ⟨h2, hentry2, _⟩
        refine ⟨h2, hentry2.trans hentry1, ?_⟩
        cases ok with
        | true =>
            intro x hx
            rw [← Option.some.inj hx]
        | false => exact fun x hx => nomatch hx
      · rcases hsp with hE | hsp
        · exact hE
        · rw [hbytes] at hn
          have hlt := words_touched hsp hlen hn
          lia

end Args

end Vm

namespace Kernel

/-!
## Loading the program
-/

/-- What `exec` leaves alone before it commits. -/
def still (k : Kernel) : (Fslot -> File) × (UInt32 -> Pipe) × Procs :=
  (k.file, k.pipe, k.procs)

section Load

variable {o : Vm.Others} {E : Stop -> Prop} {k : Kernel} {d : UInt32}

theorem wp_onFs_still {α : Type} {m : FsM α} {Q : α -> Kernel -> Prop}
    (hm : StopsIn Fs.Stops m) (hE : forall e, Fs.Stops e -> E e)
    (h : forall a k', k'.still = k.still -> k'.vm = k.vm -> Q a k') :
    wp (onFs m) Q E k := by
  unfold onFs
  rw [wp_zoom]
  exact wp_mono (hm k.fs) (fun a s _ => h a { k with fs := s } rfl rfl) hE

/-- The state between the calls of `exec`: the new address space is worked
on. -/
structure Building (o : Vm.Others) (d : UInt32) (k k' : Kernel) : Prop where
  still : k'.still = k.still
  holds : Vm.Holds o (some d) 0 k'.vm

theorem wp_loaduvmLoop {sz filesz : UInt32} {m : Nat} (pid : Int32)
    (ip : Slot) (offset : UInt32) (hE : forall e, Fs.Stops e -> E e)
    (fuel : Nat) {j : Nat} {k1 : Kernel} (hb : Building o d k k1) (himage : Vm.Image d sz k1.vm)
    (hkspace : Vm.Kspace d k1.vm)
    (hfit : 4096 * m + filesz.toNat ≤ sz.toNat) (hj : 4096 * j < 2 ^ 32) :
    wp (loaduvmLoop pid d (pageAddr m) ip offset filesz fuel (pageAddr j))
      (fun _ k' => Building o d k k' ∧ Vm.Image d sz k'.vm ∧
        Vm.Kspace d k'.vm) E k1 := by
  have hsz := sz.toNat_lt
  have hbase : sz.toNat < 0x80000000 := UInt32.lt_iff_toNat_lt.mp himage.size
  induction fuel generalizing j k1 with
  | zero => exact ⟨hb, himage, hkspace⟩
  | succ fuel ih =>
      unfold loaduvmLoop
      rw [wp_ite]
      constructor
      · intro hlt
        rw [UInt32.lt_iff_toNat_lt, pageAddr_toNat (by lia)] at hlt
        have hpage : m + j < pagesOf sz := by
          unfold pagesOf
          lia
        have hn : m + j < 2 ^ 20 := by lia
        rcases himage.page hpage with ⟨t, pa, ht, hpa, hword, haddr⟩
        have hup := himage.pages_lt
        simp only [wp_bind]
        unfold onVm
        rw [wp_zoom, pageAddr_add, Vm.wp_walkpgdir_find, PDX_pageAddr hn,
          PTX_pageAddr hn, ht]
        show wp (do
          let pte ← zoom vm (fun s k => { k with vm := s })
            (Vm.word t ((m + j) % 1024))
          _) _ E k1
        unfold Vm.word
        rw [wp_bind, wp_zoom, wp_gets]
        change Vm.wordAt _ _ _ = _ at hword
        unfold Vm.wordAt at hword
        rw [hword, haddr]
        simp only [wp_bind]
        apply wp_onFs_still (Fs.stops_readi pid ip _ _) hE
        intro r k2 hstill hvm
        unfold Vm.setPage
        rw [wp_zoom, wp_modify, hvm]
        rcases hb.holds.fill_frame (by lia) hpa _ with ⟨h2, htable, hentry⟩
        have hb2 : Building o d k { k2 with
            vm := { k1.vm with
              mem := Function.update k1.vm.mem pa
                ((k1.vm.mem pa).patch 0 r.2.length
                  (fun k => r.2.getD k 0)) } } :=
          ⟨hstill.trans hb.still, h2⟩
        have himage2 := himage.congr hentry
        have hkspace2 := hkspace.same (h2.data.trans hb.holds.data.symm)
          hentry htable
        rw [wp_ite]
        refine ⟨fun _ => ⟨hb2, himage2, hkspace2⟩, fun _ => ?_⟩
        rw [pageAddr_succ]
        exact ih hb2 himage2 hkspace2 (by lia)
      · exact fun _ => ⟨hb, himage, hkspace⟩

theorem pageAddr_of_aligned {va : UInt32} (h : va.toNat % 4096 = 0) :
    va = pageAddr (va.toNat / 4096) := by
  have hva := va.toNat_lt
  apply UInt32.toNat_inj.mp
  rw [pageAddr_toNat (by lia)]
  lia

theorem wp_execLoad (pid : Int32) (ip : Slot)
    (hE : forall e, Fs.Stops e -> E e) (n : Nat) {off sz : UInt32}
    {k1 : Kernel} (hb : Building o d k k1) (himage : Vm.Image d sz k1.vm)
    (hkspace : Vm.Kspace d k1.vm) :
    wp (execLoad pid ip d n off sz)
      (fun r k' => Building o d k k' ∧
        forall sz', r = some sz' -> Vm.Image d sz' k'.vm ∧
          Vm.Kspace d k'.vm) E k1 := by
  induction n generalizing off sz k1 with
  | zero =>
      refine ⟨hb, ?_⟩
      rintro sz' ⟨⟩
      exact ⟨himage, hkspace⟩
  | succ n ih =>
      have hbad : forall k', Building o d k k' -> Building o d k k' ∧
          forall sz', (none : Option UInt32) = some sz' ->
            Vm.Image d sz' k'.vm ∧ Vm.Kspace d k'.vm :=
        fun k' hb' => ⟨hb', fun _ hr => nomatch hr⟩
      unfold execLoad
      rw [wp_bind]
      apply wp_onFs_still (Fs.stops_readi pid ip _ _) hE
      intro r k2 hstill hvm
      have hb2 : Building o d k k2 :=
        ⟨hstill.trans hb.still, by rw [hvm]; exact hb.holds⟩
      have himage2 : Vm.Image d sz k2.vm := by
        rw [hvm]
        exact himage
      have hkspace2 : Vm.Kspace d k2.vm := by
        rw [hvm]
        exact hkspace
      rw [wp_ite]
      refine ⟨fun _ => hbad k2 hb2, fun _ => ?_⟩
      dsimp only
      generalize Proghdr.ofBytes r.2 = ph
      rw [wp_ite, wp_ite, wp_ite]
      refine ⟨fun _ => ih hb2 himage2 hkspace2, fun _ => ⟨fun _ => hbad k2 hb2,
        fun hmemsz => ⟨fun _ => hbad k2 hb2, fun hwrap => ?_⟩⟩⟩
      rw [wp_bind]
      unfold onVm
      rw [wp_zoom]
      apply wp_post (hb2.holds.wp_allocuvm_image himage2 _)
      rintro sz' s3 ⟨h3, himage3⟩
      have hb3 : Building o d k { k2 with vm := s3 } := ⟨hb2.still, h3⟩
      rw [wp_ite, wp_ite]
      refine ⟨fun _ => hbad _ hb3, fun hne => ⟨fun _ => hbad _ hb3,
        fun halign => ?_⟩⟩
      rcases himage3 hne with ⟨himage3, hend, hkspace3⟩
      have haddr := pageAddr_of_aligned (not_not.mp halign)
      have hfit : 4096 * (ph.vaddr.toNat / 4096) + ph.filesz.toNat ≤
          sz'.toNat := by
        have hfile := UInt32.le_iff_toNat_le.mp (UInt32.not_lt.mp hmemsz)
        have hsum := UInt32.le_iff_toNat_le.mp (UInt32.not_lt.mp hwrap)
        have hlast := UInt32.le_iff_toNat_le.mp hend
        have hvaddr := ph.vaddr.toNat_lt
        have hsize := ph.memsz.toNat_lt
        rw [UInt32.toNat_add] at hsum hlast
        lia
      rw [wp_bind]
      unfold loaduvm
      rw [if_neg halign]
      have hload := wp_loaduvmLoop pid ip ph.off hE
        (ph.filesz.toNat / PGSIZE + 1) (j := 0) hb3 himage3
        (hkspace3 hkspace2) hfit (by decide)
      rw [← haddr] at hload
      apply wp_post hload
      rintro ok k4 ⟨hb4, himage4, hkspace4⟩
      cases ok with
      | true => exact ih hb4 himage4 hkspace4
      | false => exact hbad k4 hb4

/-!
## Before the arguments
-/

/-- The part of `exec` before the arguments: the page directory, the size and
the entry point of the new image, `none` where `exec` has failed. -/
def execSpace (cur : Pslot) (path : List UInt8) :
    KM (Option (UInt32 × UInt32 × UInt32)) := do
  let pid ← pidOf cur
  let cwd ← cwdOf cur
  onFs Fs.beginOp
  match ← onFs (Fs.namei pid cwd path) with
  | none => do
      let _ ← onFs (Fs.endWith (-1 : Int))
      pure none
  | some ip => do
      onFs (Fs.ilock pid ip)
      let r ← onFs (Fs.readi pid ip 0 (UInt32.ofNat ELFHDR))
      let elf := Elfhdr.ofBytes r.2
      if r.1 ≠ (ELFHDR : Int) then do
        let _ ← execBad pid none (some ip)
        pure none
      else if elf.magic ≠ ELF_MAGIC then do
        let _ ← execBad pid none (some ip)
        pure none
      else do
        match ← onVm Vm.setupkvm with
        | none => do
            let _ ← execBad pid none (some ip)
            pure none
        | some pgdir => do
            match ← execLoad pid ip pgdir elf.phnum elf.phoff 0 with
            | none => do
                let _ ← execBad pid (some pgdir) (some ip)
                pure none
            | some sz => do
                onFs (Fs.iunlockput pid ip)
                onFs Fs.endOp
                match ← onVm (Vm.execRoom pgdir sz) with
                | none => do
                    let _ ← execBad pid (some pgdir) none
                    pure none
                | some sz => pure (some (pgdir, sz, elf.entry))

def execEnd (cur : Pslot) (path : List UInt8) (argv : List (List UInt8)) :
    Option (UInt32 × UInt32 × UInt32) -> KM Int
  | none => pure (-1)
  | some (pgdir, sz, entry) => do
      match ← onVm (Vm.execArgs pgdir sz argv) with
      | none => execBad 0 (some pgdir) none
      | some (sz, sp) => execCommit cur path pgdir sz entry sp

theorem execBad_bind (pid : Int32) (pgdir : Option UInt32) (ip : Option Slot)
    (cur : Pslot) (path : List UInt8) (argv : List (List UInt8)) :
    (do
      let _ ← execBad pid pgdir ip
      pure none) >>= execEnd cur path argv = execBad pid pgdir ip := by
  unfold execBad
  cases pgdir <;> cases ip <;> simp only [bind_bind, pure_bind_run] <;> rfl

theorem onVm_bind {α β : Type} (m : VmM α) (f : α -> VmM β) :
    onVm (m >>= f) = onVm m >>= fun a => onVm (f a) := by
  unfold onVm
  apply zoom_bind
  · exact fun _ _ => rfl
  · exact fun _ _ _ => rfl

theorem onFs_bind {α β : Type} (m : FsM α) (f : α -> FsM β) :
    onFs (m >>= f) = onFs m >>= fun a => onFs (f a) := by
  unfold onFs
  apply zoom_bind
  · exact fun _ _ => rfl
  · exact fun _ _ _ => rfl

theorem exec_eq (cur : Pslot) (path : List UInt8)
    (argv : List (List UInt8)) :
    exec cur path argv = execSpace cur path >>= execEnd cur path argv := by
  unfold exec execSpace
  simp only [bind_bind]
  apply bind_congr_run
  intro pid
  apply bind_congr_run
  intro cwd
  apply bind_congr_run
  intro _
  apply bind_congr_run
  intro ip
  cases ip with
  | none =>
      unfold Fs.endWith
      simp only [onFs_bind, bind_bind]
      rfl
  | some ip =>
      simp only [bind_bind]
      apply bind_congr_run
      intro _
      apply bind_congr_run
      intro r
      rcases Decidable.em (r.1 ≠ (ELFHDR : Int)) with hread | hread
      · rw [if_pos hread, if_pos hread, execBad_bind]
      · rw [if_neg hread, if_neg hread]
        rcases Decidable.em ((Elfhdr.ofBytes r.2).magic ≠ ELF_MAGIC) with
          hmagic | hmagic
        · rw [if_pos hmagic, if_pos hmagic, execBad_bind]
        · rw [if_neg hmagic, if_neg hmagic]
          simp only [bind_bind]
          apply bind_congr_run
          intro pgdir
          cases pgdir with
          | none => exact (execBad_bind _ _ _ _ _ _).symm
          | some pgdir =>
              simp only [bind_bind]
              apply bind_congr_run
              intro sz
              cases sz with
              | none => exact (execBad_bind _ _ _ _ _ _).symm
              | some sz =>
                  simp only [bind_bind]
                  apply bind_congr_run
                  intro _
                  apply bind_congr_run
                  intro _
                  rw [Vm.execStack_eq, onVm_bind, bind_bind]
                  apply bind_congr_run
                  intro sz'
                  cases sz' with
                  | none =>
                      refine Eq.trans ?_ (execBad_bind _ _ _ _ _ _).symm
                      rfl
                  | some sz' => rfl

theorem Building.freed {k1 k' : Kernel} (hb : Building o d k k1)
    (hstill : k'.still = k1.still) (hvm : k'.vm = k1.vm) :
    Building o d k k' :=
  ⟨hstill.trans hb.still, by rw [hvm]; exact hb.holds⟩

theorem wp_execBad {pid : Int32} {ip : Option Slot} {k1 : Kernel}
    (hE : forall e, Fs.Stops e -> E e) {pgdir : Option UInt32}
    (hstill : k1.still = k.still) (h : Vm.Holds o pgdir 0 k1.vm) :
    wp (execBad pid pgdir ip)
      (fun r k' => r = -1 ∧ k'.still = k.still ∧ Vm.Holds o none 0 k'.vm)
      E k1 := by
  -- after the memory
  have htail : forall k2 : Kernel, k2.still = k.still ->
      Vm.Holds o none 0 k2.vm ->
      wp (execBad pid none ip)
        (fun r k' => r = -1 ∧ k'.still = k.still ∧ Vm.Holds o none 0 k'.vm)
        E k2 := by
    intro k2 hstill2 h2
    cases ip with
    | none => exact ⟨rfl, hstill2, h2⟩
    | some ip =>
        apply wp_bind.mpr
        apply wp_onFs_still (Fs.stops_iunlockput pid ip) hE
        intro _ k3 hstill3 hvm3
        apply wp_bind.mpr
        apply wp_onFs_still Fs.stops_endOp hE
        intro _ k4 hstill4 hvm4
        refine ⟨rfl, ?_, ?_⟩
        · rw [hstill4, hstill3, hstill2]
        · rw [hvm4, hvm3]
          exact h2
  cases pgdir with
  | none => exact htail k1 hstill h
  | some pgdir =>
      apply wp_bind.mpr
      unfold onVm
      rw [wp_zoom]
      apply wp_post h.wp_freevm
      exact fun _ s2 h2 => htail { k1 with vm := s2 } hstill h2

/-- What the part before the arguments leaves behind. -/
inductive Spaces (o : Vm.Others) (k : Kernel) :
    Option (UInt32 × UInt32 × UInt32) -> Kernel -> Prop where
  | fail {k' : Kernel} (hstill : k'.still = k.still)
      (h : Vm.Holds o none 0 k'.vm) : Spaces o k none k'
  | made {k' : Kernel} (d sz entry : UInt32) (g : Nat)
      (hb : Building o d k k') (hstack : Vm.Stack d sz g k'.vm)
      (hkspace : Vm.Kspace d k'.vm) : Spaces o k (some (d, sz, entry)) k'

theorem wp_execBad_space {pid : Int32} {ip : Option Slot} {k1 : Kernel}
    (hE : forall e, Fs.Stops e -> E e) {pgdir : Option UInt32}
    (hstill : k1.still = k.still) (h : Vm.Holds o pgdir 0 k1.vm) :
    wp (do
      let _ ← execBad pid pgdir ip
      pure none) (Spaces o k) E k1 := by
  rw [wp_bind]
  apply wp_post (wp_execBad hE hstill h)
  rintro r k' ⟨_, hstill', h'⟩
  exact .fail hstill' h'

theorem wp_execRoom (pid : Int32) (ip : Slot) (entry : UInt32) {sz : UInt32}
    {k1 : Kernel} (hE : forall e, Fs.Stops e -> E e)
    (hb : Building o d k k1) (himage : Vm.Image d sz k1.vm)
    (hkspace : Vm.Kspace d k1.vm) :
    wp (do
      onFs (Fs.iunlockput pid ip)
      onFs Fs.endOp
      match ← onVm (Vm.execRoom d sz) with
      | none => do
          let _ ← execBad pid (some d) none
          pure none
      | some sz => pure (some (d, sz, entry))) (Spaces o k) E k1 := by
  rw [wp_bind]
  apply wp_onFs_still (Fs.stops_iunlockput pid ip) hE
  intro _ k2 hstill2 hvm2
  rw [wp_bind]
  apply wp_onFs_still Fs.stops_endOp hE
  intro _ k3 hstill3 hvm3
  have hb3 := (hb.freed hstill2 hvm2).freed hstill3 hvm3
  have himage3 : Vm.Image d sz k3.vm := by
    rw [hvm3, hvm2]
    exact himage
  have hkspace3 : Vm.Kspace d k3.vm := by
    rw [hvm3, hvm2]
    exact hkspace
  unfold onVm
  rw [wp_bind, wp_zoom]
  apply wp_post (hb3.holds.wp_execRoom himage3)
  rintro sz' s4 ⟨h4, _, hroom⟩
  have hb4 : Building o d k { k3 with vm := s4 } := ⟨hb3.still, h4⟩
  cases sz' with
  | none => exact wp_execBad_space hE hb4.still hb4.holds
  | some sz' =>
      rcases hroom sz' rfl with ⟨hstack, hkspace4⟩
      exact .made d sz' entry _ hb4 hstack (hkspace4 hkspace3)

theorem wp_execSpace (cur : Pslot) (path : List UInt8)
    (hE : forall e, Fs.Stops e -> E e)
    (hcwd : (k.proc cur).cwd = none -> E .nullDeref)
    (h : Vm.Holds o none 0 k.vm) :
    wp (execSpace cur path) (Spaces o k) E k := by
  unfold execSpace pidOf cwdOf
  rw [wp_bind, wp_gets, wp_bind, wp_gets, wp_bind]
  apply wp_onFs_still Fs.stops_beginOp hE
  intro _ k1 hstill1 hvm1
  rw [wp_bind]
  have hnamei : forall e, Fs.Stops e ∨
      ((k.proc cur).cwd = none ∧ e = .nullDeref) -> E e := by
    rintro e (he | ⟨hnone, rfl⟩)
    · exact hE e he
    · exact hcwd hnone
  have hstart : wp (onFs (Fs.namei (k.proc cur).pid (k.proc cur).cwd path))
      (fun _ k' => k'.still = k1.still ∧ k'.vm = k1.vm) E k1 := by
    unfold onFs
    rw [wp_zoom]
    exact wp_mono (Fs.stops_namei _ _ path k1.fs)
      (fun _ _ _ => ⟨rfl, rfl⟩) hnamei
  apply wp_post hstart
  rintro ip k2 ⟨hstill2, hvm2⟩
  have hstill2' : k2.still = k.still := hstill2.trans hstill1
  have h2 : Vm.Holds o none 0 k2.vm := by
    rw [hvm2, hvm1]
    exact h
  cases ip with
  | none =>
      apply wp_bind.mpr
      apply wp_onFs_still (Fs.stops_endWith (-1 : Int)) hE
      intro _ k3 hstill3 hvm3
      refine .fail (hstill3.trans hstill2') ?_
      rw [hvm3]
      exact h2
  | some ip =>
      apply wp_bind.mpr
      apply wp_onFs_still (Fs.stops_ilock _ ip) hE
      intro _ k3 hstill3 hvm3
      apply wp_bind.mpr
      apply wp_onFs_still (Fs.stops_readi _ ip _ _) hE
      intro r k4 hstill4 hvm4
      have hstill4' : k4.still = k.still := by
        rw [hstill4, hstill3, hstill2']
      have h4 : Vm.Holds o none 0 k4.vm := by
        rw [hvm4, hvm3]
        exact h2
      rw [wp_ite, wp_ite]
      refine ⟨fun _ => wp_execBad_space hE hstill4' h4, fun _ =>
        ⟨fun _ => wp_execBad_space hE hstill4' h4, fun _ => ?_⟩⟩
      apply wp_bind.mpr
      unfold onVm
      rw [wp_zoom]
      apply wp_post h4.wp_setupkvm
      rintro pgdir s5 (⟨rfl, h5, _⟩ | ⟨d, rfl, h5, hfresh, hkspace⟩)
      · have hstill5 : Kernel.still { k4 with vm := s5 } = k.still := hstill4'
        exact wp_execBad_space hE hstill5 h5
      · have hb5 : Building o d k { k4 with vm := s5 } := ⟨hstill4', h5⟩
        apply wp_bind.mpr
        apply wp_post (wp_execLoad _ ip hE _ hb5 hfresh.image hkspace)
        rintro sz k6 ⟨hb6, hloaded⟩
        cases sz with
        | none => exact wp_execBad_space hE hb6.still hb6.holds
        | some sz =>
            rcases hloaded sz rfl with ⟨himage, hkspace6⟩
            exact wp_execRoom _ ip _ hE hb6 himage hkspace6

/-!
## Committing
-/

/-- What `exec` leaves behind; `old` is the caller's address space. -/
inductive Execs (o : Vm.Others) (old : UInt32) (cur : Pslot)
    (path : List UInt8) (k : Kernel) : Int -> Kernel -> Prop where
  | fail {k' : Kernel} (hstill : k'.still = k.still)
      (h : Vm.Holds (o.park k.vm old) none 0 k'.vm) :
      Execs o old cur path k (-1) k'
  | done {k' : Kernel} (d sz entry sp : UInt32) (hfile : k'.file = k.file)
      (hpipe : k'.pipe = k.pipe)
      (hprocs : k'.procs = k.procs.set cur (fun pr =>
        { pr with
          name := baseName path
          pgdir := some d
          sz := sz
          tf := { pr.tf with eip := entry, esp := sp } }))
      (h : Vm.Holds o (some d) 0 k'.vm) (himage : Vm.Image d sz k'.vm) :
      Execs o old cur path k 0 k'

variable {old : UInt32} {cur : Pslot}

theorem wp_execCommit (path : List UInt8) {sz entry sp : UInt32}
    {Q : Int -> Kernel -> Prop} {k1 : Kernel}
    (hold : Vm.Holds o (some old) 0 k.vm)
    (hpgdir : (k.proc cur).pgdir = some old)
    (hkstack : (k.proc cur).kstack = none ->
      E (.panic "switchuvm: no kstack"))
    (hb : Building (o.park k.vm old) d k k1)
    (hdone : forall k', k'.file = k.file -> k'.pipe = k.pipe ->
      k'.procs = k.procs.set cur (fun pr =>
        { pr with
          name := baseName path
          pgdir := some d
          sz := sz
          tf := { pr.tf with eip := entry, esp := sp } }) ->
      Vm.Holds o (some d) 0 k'.vm ->
      Vm.Holds (o.park k1.vm d) none 0 k'.vm -> Q 0 k') :
    wp (execCommit cur path d sz entry sp) Q E k1 := by
  have hprocs : k1.procs = k.procs := congrArg (fun x => x.2.2) hb.still
  have hproc : k1.proc = k.proc := congrArg Procs.proc hprocs
  rcases hold.swap hb.holds with ⟨hswap, hnew⟩
  unfold execCommit
  rw [wp_bind, wp_gets, hproc, hpgdir]
  apply wp_bind.mpr
  apply wp_modify.mpr
  apply wp_bind.mpr
  unfold switchuvm
  simp only [wp_bind, wp_gets, wp_ite, Function.update_self]
  refine ⟨fun hnone => ?_, fun _ => ⟨fun hnone => ?_, fun _ => ?_⟩⟩
  · rw [hproc] at hnone
    exact hkstack hnone
  · cases hnone
  · unfold onVm
    simp only [wp_pure, wp_zoom]
    apply wp_post hswap.wp_freevm
    intro _ s2 h2
    refine hdone _ ?_ ?_ ?_ (hnew.unpark h2) h2
    · exact congrArg Prod.fst hb.still
    · exact congrArg (fun x => x.2.1) hb.still
    · rw [← hprocs]
      rfl

theorem wp_exec (path : List UInt8) (argv : List (List UInt8))
    (hE : forall e, Fs.Stops e -> E e)
    (hcwd : (k.proc cur).cwd = none -> E .nullDeref)
    (hkstack : (k.proc cur).kstack = none ->
      E (.panic "switchuvm: no kstack"))
    (hpgdir : (k.proc cur).pgdir = some old)
    (hold : Vm.Holds o (some old) 0 k.vm)
    (hargv : E .nullDeref ∨ forall d sz entry k',
      execSpace cur path k = .ok (some (d, sz, entry), k') ->
        forall a, a ∈ argv -> a.length < sz.toNat) :
    wp (exec cur path argv) (Execs o old cur path k) E k := by
  have hspace := wp_execSpace (E := E) cur path hE hcwd hold.park
  rw [exec_eq]
  apply wp_bind.mpr
  apply wp_iff.mpr
  constructor
  · intro r k1 hrun
    have hmade : Spaces (o.park k.vm old) k r k1 := wp_ok hspace hrun
    cases hmade with
    | fail hstill h => exact .fail hstill h
    | made d sz entry g hb hstack _ =>
        have hshort : E .nullDeref ∨
            forall a, a ∈ argv -> a.length < sz.toNat :=
          hargv.imp_right (fun hall => hall d sz entry k1 hrun)
        show wp (do
          match ← onVm (Vm.execArgs d sz argv) with
          | none => execBad 0 (some d) none
          | some (sz, sp) => execCommit cur path d sz entry sp) _ E k1
        unfold onVm
        rw [wp_bind, wp_zoom]
        apply wp_post (hb.holds.wp_execArgs argv hstack hshort)
        rintro x s2 ⟨h2, hentry, hsame⟩
        cases x with
        | none =>
            have hstill2 : Kernel.still { k1 with vm := s2 } = k.still :=
              hb.still
            apply wp_post (wp_execBad hE hstill2 h2)
            rintro r' k' ⟨rfl, hstill, h'⟩
            exact .fail hstill h'
        | some x =>
            rcases x with ⟨sz', sp⟩
            cases hsame (sz', sp) rfl
            have hb2 : Building (o.park k.vm old) d k { k1 with vm := s2 } :=
              ⟨hb.still, h2⟩
            apply wp_execCommit path hold hpgdir hkstack hb2
            intro k' hfile hpipe hprocs hnew hkeep
            have himage : Vm.Image d sz' s2 := hstack.image.congr hentry
            exact .done d sz' entry sp hfile hpipe hprocs hnew
              (himage.congr (Vm.park_keeps hkeep).2)
  · intro e hrun
    have he : E e := wp_error hspace hrun
    exact he

/-- The panics of `loaduvm`, `clearpteu`, `mappages` and `deallocuvm`. -/
def imagePanics : List String :=
  ["loaduvm: addr must be page aligned", "loaduvm: address should exist",
    "clearpteu", "remap", "kfree"]

/-- A failed `exec` leaves the processes as they were and every page it took
free again; it only stops where the file system does. -/
theorem exec_fails_cleanly (path : List UInt8) (argv : List (List UInt8))
    (hpgdir : (k.proc cur).pgdir = some old)
    (hkstack : (k.proc cur).kstack ≠ none) (hcwd : (k.proc cur).cwd ≠ none)
    (hold : Vm.Holds o (some old) 0 k.vm)
    (hargv : forall d sz entry k',
      execSpace cur path k = .ok (some (d, sz, entry), k') ->
        forall a, a ∈ argv -> a.length < sz.toNat) :
    wp (exec cur path argv)
      (fun r k' =>
        (r = 0 ∧ exists d sz entry sp, Vm.Image d sz k'.vm ∧
          Vm.Holds o (some d) 0 k'.vm ∧
          k'.procs = k.procs.set cur (fun pr =>
            { pr with
              name := baseName path
              pgdir := some d
              sz := sz
              tf := { pr.tf with eip := entry, esp := sp } })) ∨
        (r = -1 ∧ k'.procs = k.procs ∧
          (k'.vm.freelist : Multiset UInt32) = k.vm.freelist))
      (fun e => Fs.Stops e ∧
        forall msg, msg ∈ imagePanics -> e ≠ .panic msg) k := by
  have hE : forall e, Fs.Stops e -> Fs.Stops e ∧
      forall msg, msg ∈ imagePanics -> e ≠ .panic msg := by
    intro e he
    refine ⟨he, ?_⟩
    rintro msg hmsg rfl
    have hnot : forall msg, msg ∈ imagePanics -> ¬ Fs.Stops (.panic msg) := by
      decide
    exact hnot msg hmsg he
  apply wp_post (wp_exec path argv hE (fun h => absurd h hcwd)
    (fun h => absurd h hkstack) hpgdir hold (.inr hargv))
  intro r k' hexec
  cases hexec with
  | fail hstill h =>
      refine .inr ⟨rfl, congrArg (fun x => x.2.2) hstill, ?_⟩
      have hsum := h.sum.trans hold.park.sum.symm
      exact add_right_cancel hsum
  | done d sz entry sp _ _ hprocs h himage =>
      exact .inl ⟨rfl, d, sz, entry, sp, himage, h, hprocs⟩

end Load

end Kernel

end Xv6
