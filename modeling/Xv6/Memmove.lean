import Xv6.Lib.Words

/-!
# The two memmoves

The kernel's `memmove` copies from the end where the source begins below the
destination and reaches into it.  The user library has a function of the same
name that always copies from the start.
-/

namespace Xv6

/-- The bytes that `memmove` copies, where to and where from, in the order of
its loops: from the last one on where the source begins below the destination
and reaches into it. -/
def Kernel.moves (dst src n : UInt32) : List (UInt32 × UInt32) :=
  let bytes := (List.range n.toNat).map (fun i =>
    (dst + UInt32.ofNat i, src + UInt32.ofNat i))
  if src < dst ∧ dst < src + n then bytes.reverse else bytes

namespace Memmove

abbrev Mem := UInt32 -> UInt8

def forth (dst src : UInt32) (n : Nat) : List (UInt32 × UInt32) :=
  (List.range n).map (fun i => (dst + UInt32.ofNat i, src + UInt32.ofNat i))

def copyByte (mem : Mem) (m : UInt32 × UInt32) : Mem :=
  Function.update mem m.1 (mem m.2)

def kernelMemmove (mem : Mem) (dst src n : UInt32) : Mem :=
  (Kernel.moves dst src n).foldl copyByte mem

/-- The user library's function, whose loop does nothing for a negative `n`. -/
def userMemmove (mem : Mem) (dst src : UInt32) (n : Int32) : Mem :=
  (forth dst src n.toInt.toNat).foldl copyByte mem

/-- The `n` bytes at `dst` are those that were at `src`, and no other byte has
changed. -/
structure Moved (dst src : UInt32) (n : Nat) (mem mem' : Mem) : Prop where
  inside : forall i, i < n ->
    mem' (dst + UInt32.ofNat i) = mem (src + UInt32.ofNat i)
  outside : forall a, (forall i, i < n -> a ≠ dst + UInt32.ofNat i) ->
    mem' a = mem a

theorem Moved.unique {dst src : UInt32} {n : Nat} {mem mem1 mem2 : Mem}
    (h1 : Moved dst src n mem mem1) (h2 : Moved dst src n mem mem2) :
    mem1 = mem2 := by
  funext a
  rcases Classical.em (exists i, i < n ∧ a = dst + UInt32.ofNat i) with
    ⟨i, hi, rfl⟩ | hout
  · rw [h1.inside i hi, h2.inside i hi]
  · have hne : forall i, i < n -> a ≠ dst + UInt32.ofNat i :=
      fun i hi ha => hout ⟨i, hi, ha⟩
    rw [h1.outside a hne, h2.outside a hne]

/-!
## Copies that do not disturb each other
-/

theorem foldl_copyByte_outside {l : List (UInt32 × UInt32)} {a : UInt32}
    (h : forall m, m ∈ l -> a ≠ m.1) (mem : Mem) :
    l.foldl copyByte mem a = mem a := by
  induction l generalizing mem with
  | nil => rfl
  | cons m l ih =>
      rw [List.foldl_cons, ih (fun m' hm => h m' (List.mem_cons_of_mem m hm))]
      exact Function.update_of_ne (h m List.mem_cons_self) _ _

theorem foldl_copyByte_inside {l : List (UInt32 × UInt32)}
    (h : l.Pairwise (fun a b => a.1 ≠ b.2 ∧ a.1 ≠ b.1)) (mem : Mem) :
    forall m, m ∈ l -> l.foldl copyByte mem m.1 = mem m.2 := by
  induction l generalizing mem with
  | nil =>
      intro m hm
      cases hm
  | cons m l ih =>
      rcases List.pairwise_cons.mp h with ⟨hm, hl⟩
      intro m' hm'
      rw [List.foldl_cons]
      rcases List.mem_cons.mp hm' with rfl | hm'
      · rw [foldl_copyByte_outside (fun b hb => (hm b hb).2)]
        exact Function.update_self _ _ _
      · rw [ih hl _ m' hm']
        exact Function.update_of_ne (hm m' hm').1.symm _ _

section Ranges

variable {dst src : UInt32} {n : Nat}

theorem toNat_add_ofNat {a : UInt32} {i : Nat} (h : a.toNat + i < 2 ^ 32) :
    (a + UInt32.ofNat i).toNat = a.toNat + i := by
  rw [UInt32.toNat_add, UInt32.toNat_ofNat_of_lt' (Nat.lt_of_le_of_lt
    (Nat.le_add_left i _) h)]
  exact Nat.mod_eq_of_lt h

theorem add_ofNat_ne {a b : UInt32} {i j : Nat} (hi : a.toNat + i < 2 ^ 32)
    (hj : b.toNat + j < 2 ^ 32) (h : a.toNat + i ≠ b.toNat + j) :
    a + UInt32.ofNat i ≠ b + UInt32.ofNat j := by
  intro heq
  apply h
  rw [← toNat_add_ofNat hi, ← toNat_add_ofNat hj, heq]

theorem moved_of_pairwise {l : List (UInt32 × UInt32)} (mem : Mem)
    (hmem : forall m, m ∈ l ↔ m ∈ forth dst src n)
    (h : l.Pairwise (fun a b => a.1 ≠ b.2 ∧ a.1 ≠ b.1)) :
    Moved dst src n mem (l.foldl copyByte mem) := by
  constructor
  · intro i hi
    apply foldl_copyByte_inside h mem
      (dst + UInt32.ofNat i, src + UInt32.ofNat i)
    exact (hmem _).mpr (List.mem_map.mpr ⟨i, List.mem_range.mpr hi, rfl⟩)
  · intro a ha
    apply foldl_copyByte_outside
    intro m hm
    rcases List.mem_map.mp ((hmem m).mp hm) with ⟨i, hi, rfl⟩
    exact ha i (List.mem_range.mp hi)

variable (hsrc : src.toNat + n ≤ 2 ^ 32) (hdst : dst.toNat + n ≤ 2 ^ 32)

include hsrc hdst in
theorem moved_forth (mem : Mem)
    (h : dst ≤ src ∨ src.toNat + n ≤ dst.toNat) :
    Moved dst src n mem ((forth dst src n).foldl copyByte mem) := by
  rw [UInt32.le_iff_toNat_le] at h
  apply moved_of_pairwise mem (fun _ => Iff.rfl)
  apply List.pairwise_map.mpr
  apply List.Pairwise.imp_of_mem _ List.pairwise_lt_range
  intro i j hi hj hij
  rw [List.mem_range] at hi hj
  exact ⟨add_ofNat_ne (by lia) (by lia) (by lia),
    add_ofNat_ne (by lia) (by lia) (by lia)⟩

include hsrc hdst in
theorem moved_back (mem : Mem) (h : src < dst) :
    Moved dst src n mem ((forth dst src n).reverse.foldl copyByte mem) := by
  rw [UInt32.lt_iff_toNat_lt] at h
  apply moved_of_pairwise mem (fun _ => List.mem_reverse)
  apply List.pairwise_reverse.mpr
  apply List.pairwise_map.mpr
  apply List.Pairwise.imp_of_mem _ List.pairwise_lt_range
  intro i j hi hj hij
  rw [List.mem_range] at hi hj
  exact ⟨add_ofNat_ne (by lia) (by lia) (by lia),
    add_ofNat_ne (by lia) (by lia) (by lia)⟩

/-!
## Copying from the start into the source
-/

theorem forth_succ (dst src : UInt32) (k : Nat) (mem : Mem) :
    (forth dst src (k + 1)).foldl copyByte mem =
      copyByte ((forth dst src k).foldl copyByte mem)
        (dst + UInt32.ofNat k, src + UInt32.ofNat k) := by
  unfold forth
  rw [List.range_succ, List.map_append, List.foldl_append]
  rfl

include hdst in
theorem forth_inside (mem : Mem) {i k : Nat} (hi : i < k) (hk : k ≤ n) :
    (forth dst src k).foldl copyByte mem (dst + UInt32.ofNat i) =
      (forth dst src i).foldl copyByte mem (src + UInt32.ofNat i) := by
  induction k with
  | zero => cases hi
  | succ k ih =>
      rw [forth_succ]
      rcases Nat.lt_or_ge i k with hlt | hge
      · rw [← ih hlt (by lia)]
        exact Function.update_of_ne
          (add_ofNat_ne (by lia) (by lia) (by lia)) _ _
      · cases Nat.le_antisymm hge (Nat.lt_succ_iff.mp hi)
        exact Function.update_self _ _ _

theorem forth_outside (mem : Mem) {a : UInt32} {k : Nat}
    (h : forall i, i < k -> a ≠ dst + UInt32.ofNat i) :
    (forth dst src k).foldl copyByte mem a = mem a := by
  apply foldl_copyByte_outside
  intro m hm
  rcases List.mem_map.mp hm with ⟨i, hi, rfl⟩
  exact h i (List.mem_range.mp hi)

/-- The bytes that are in both ranges repeat. -/
def Repeats (mem : Mem) (dst src : UInt32) (n : Nat) : Prop :=
  forall i, dst.toNat + i < src.toNat + n ->
    mem (dst + UInt32.ofNat i) = mem (src + UInt32.ofNat i)

theorem source_eq (h : src < dst) {i : Nat} :
    src + UInt32.ofNat (i + (dst.toNat - src.toNat)) =
      dst + UInt32.ofNat i := by
  rw [UInt32.lt_iff_toNat_lt] at h
  apply UInt32.toNat_inj.mp
  have hsrc := src.toNat_lt
  have hdst := dst.toNat_lt
  simp only [UInt32.toNat_add, UInt32.toNat_ofNat']
  lia

include hsrc hdst in
theorem moved_forth_iff (mem : Mem) (h : src < dst) :
    Moved dst src n mem ((forth dst src n).foldl copyByte mem) ↔
      Repeats mem dst src n := by
  have hlt := UInt32.lt_iff_toNat_lt.mp h
  constructor
  · intro hmoved i hi
    have hj : i + (dst.toNat - src.toNat) < n := by lia
    have hlate := hmoved.inside _ hj
    rw [forth_inside hdst mem hj (Nat.le_refl n), source_eq h,
      forth_inside hdst mem (by lia) (by lia),
      ← forth_inside hdst mem (show i < n by lia) (Nat.le_refl n),
      hmoved.inside i (by lia)] at hlate
    exact hlate.symm
  · intro hrepeats
    refine ⟨fun i => ?_, fun a ha => forth_outside mem ha⟩
    -- a byte whose source was overwritten is one of the bytes before it
    induction i using Nat.strongRecOn with
    | ind i ih =>
        intro hi
        rw [forth_inside hdst mem hi (Nat.le_refl n)]
        rcases Nat.lt_or_ge i (dst.toNat - src.toNat) with hsmall | hlarge
        · apply forth_outside
          intro j hj
          exact add_ofNat_ne (by lia) (by lia) (by lia)
        · rcases Nat.exists_eq_add_of_le' hlarge with ⟨j, rfl⟩
          rw [source_eq h, forth_inside hdst mem (by lia) (by lia),
            ← forth_inside hdst mem (show j < n by lia) (Nat.le_refl n),
            ih j (by lia) (by lia)]
          exact (hrepeats j (by lia)).symm

end Ranges

section Both

variable {dst src : UInt32} {n : Int32}

theorem kernelMemmove_moved (mem : Mem) {n : UInt32}
    (hsrc : src.toNat + n.toNat ≤ 2 ^ 32)
    (hdst : dst.toNat + n.toNat ≤ 2 ^ 32) :
    Moved dst src n.toNat mem (kernelMemmove mem dst src n) := by
  show Moved _ _ _ _ ((if src < dst ∧ dst < src + n then
    (forth dst src n.toNat).reverse else forth dst src n.toNat).foldl _ _)
  split
  · rename_i h
    exact moved_back hsrc hdst mem h.1
  · rename_i h
    apply moved_forth hsrc hdst mem
    rcases Decidable.em (dst ≤ src) with hle | hgt
    · exact Or.inl hle
    · right
      rw [not_and] at h
      have hlt := UInt32.not_le.mp hgt
      have hend := h hlt
      rw [UInt32.lt_iff_toNat_lt] at hlt hend
      rw [UInt32.toNat_add] at hend
      lia

/-- Both functions move `n` bytes, and so agree, exactly when the bytes that are
in both ranges repeat or the destination is not above the source. -/
theorem memmoves_agree_iff (mem : Mem) (hn : 0 ≤ n)
    (hsrc : src.toNat + n.toInt.toNat ≤ 2 ^ 32)
    (hdst : dst.toNat + n.toInt.toNat ≤ 2 ^ 32) :
    (Moved dst src n.toInt.toNat mem
        (kernelMemmove mem dst src n.toUInt32) ∧
      Moved dst src n.toInt.toNat mem (userMemmove mem dst src n) ∧
      kernelMemmove mem dst src n.toUInt32 = userMemmove mem dst src n) ↔
      (src < dst -> Repeats mem dst src n.toInt.toNat) := by
  have hkernel : Moved dst src n.toInt.toNat mem
      (kernelMemmove mem dst src n.toUInt32) := by
    rw [← Lib.toNat_toUInt32 (Int32.not_lt.mpr hn)] at hsrc hdst ⊢
    exact kernelMemmove_moved mem hsrc hdst
  have huser : Moved dst src n.toInt.toNat mem (userMemmove mem dst src n) ↔
      (src < dst -> Repeats mem dst src n.toInt.toNat) := by
    rcases Decidable.em (src < dst) with h | h
    · rw [userMemmove, moved_forth_iff hsrc hdst mem h]
      exact ⟨fun hrepeats _ => hrepeats, fun hrepeats => hrepeats h⟩
    · refine ⟨fun _ hlt => absurd hlt h, fun _ => ?_⟩
      exact moved_forth hsrc hdst mem (Or.inl (UInt32.not_lt.mp h))
  rw [← huser]
  constructor
  · exact fun h => h.2.1
  · exact fun h => ⟨hkernel, h, hkernel.unique h⟩

end Both

/-- Two bytes are moved up by one: the first of them is in both places. -/
theorem userMemmove_smears :
    userMemmove (fun a => a.toUInt8) 1 0 2 2 = 0 ∧
      kernelMemmove (fun a => a.toUInt8) 1 0 2 2 = 1 := by
  decide

/-- Two bytes are moved down by one. -/
theorem memmoves_agree_down :
    kernelMemmove (fun a => a.toUInt8) 0 1 2 =
      userMemmove (fun a => a.toUInt8) 0 1 2 := by
  have hiff := @memmoves_agree_iff 0 1 2 (fun a => a.toUInt8) (by decide)
    (by decide) (by decide)
  exact (hiff.mpr (fun h => absurd h (by decide))).2.2

end Memmove
end Xv6
