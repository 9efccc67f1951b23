import Mathlib

/-!
# Fixed-size byte blocks

Disk sectors and memory pages are finite blocks of bytes that the code reads
and writes at byte offsets, sometimes as little-endian integers.  This module
develops the two primitives everything else is built from: reading a byte with
`get` and replacing a range of bytes with `patch`.
-/

namespace Xv6
namespace Lib

/-- A block of `n` bytes. -/
abbrev Bytes (n : Nat) : Type := Fin n -> UInt8

namespace Bytes

variable {n : Nat}

/-- The byte at an offset; offsets past the end read as zero. -/
def get (b : Bytes n) (i : Nat) : UInt8 :=
  if h : i < n then b ⟨i, h⟩ else 0

/-- Replace the `len` bytes from `off` on by the bytes of
`src`. -/
def patch (b : Bytes n) (off len : Nat) (src : Nat -> UInt8) : Bytes n :=
  fun j => if off ≤ j.val ∧ j.val < off + len then src (j.val - off) else b j

theorem get_of_lt (b : Bytes n) {i : Nat} (h : i < n) :
    b.get i = b ⟨i, h⟩ := by
  simp [get, h]

theorem get_patch_in (b : Bytes n) {off len i : Nat} (src : Nat -> UInt8)
    (hlo : off ≤ i) (hhi : i < off + len) (hn : i < n) :
    (b.patch off len src).get i = src (i - off) := by
  simp [get, patch, hlo, hhi, hn]

theorem get_patch_out (b : Bytes n) {off len i : Nat} (src : Nat -> UInt8)
    (h : i < off ∨ off + len ≤ i) :
    (b.patch off len src).get i = b.get i := by
  unfold get patch
  by_cases hn : i < n
  · have hout : ¬ (off ≤ i ∧ i < off + len) := by lia
    simp [hn, hout]
  · simp [hn]

theorem get_patch_one (b : Bytes n) {i : Nat} (hi : i < n) (c : UInt8) :
    (b.patch i 1 (fun _ => c)).get = Function.update b.get i c := by
  funext j
  rcases eq_or_ne j i with rfl | hne
  · rw [Function.update_self]
    exact get_patch_in _ _ le_rfl (Nat.lt_succ_self _) hi
  · rw [Function.update_of_ne hne]
    exact get_patch_out _ _ (by lia)

/-!
## Little-endian integers
-/

/-- The `k`-th byte of a number, least significant first. -/
def byteOf (v k : Nat) : UInt8 :=
  UInt8.ofNat (v / 256 ^ k)

/-- The little-endian number held in `w` bytes of a byte source. -/
def leOf (src : Nat -> UInt8) (off : Nat) : Nat -> Nat
  | 0 => 0
  | w + 1 => leOf src off w + 256 ^ w * (src (off + w)).toNat

/-- The little-endian number held in `w` bytes of a block. -/
def le (b : Bytes n) (off w : Nat) : Nat :=
  leOf b.get off w

theorem leOf_congr {src src' : Nat -> UInt8} {off off' w : Nat}
    (h : forall k, k < w -> src (off + k) = src' (off' + k)) :
    leOf src off w = leOf src' off' w := by
  induction w with
  | zero => rfl
  | succ w ih =>
      have hlast := h w (Nat.lt_succ_self w)
      have hinit := ih (fun k hk => h k (Nat.lt_succ_of_lt hk))
      simp only [leOf, hlast, hinit]

theorem byteOf_toNat (v k : Nat) :
    (byteOf v k).toNat = v / 256 ^ k % 256 := by
  simp [byteOf]

theorem leOf_byteOf (v w : Nat) :
    leOf (byteOf v) 0 w = v % 256 ^ w := by
  induction w with
  | zero => simp [leOf, Nat.mod_one]
  | succ w ih =>
      rw [leOf, ih, Nat.zero_add, byteOf_toNat, Nat.mod_pow_succ]

theorem le_patch_in (b : Bytes n) {off len o w : Nat} (src : Nat -> UInt8)
    (ho : o + w ≤ len) (hn : off + o + w ≤ n) :
    (b.patch off len src).le (off + o) w = leOf src o w := by
  unfold le
  apply leOf_congr
  intro k hk
  rw [get_patch_in b src (by lia) (by lia) (by lia)]
  congr 1
  lia

theorem le_patch_out (b : Bytes n) {off len o w : Nat} (src : Nat -> UInt8)
    (h : o + w ≤ off ∨ off + len ≤ o) :
    (b.patch off len src).le o w = b.le o w := by
  unfold le
  apply leOf_congr
  intro k hk
  exact get_patch_out b src (by lia)

def u32 (b : Bytes n) (off : Nat) : UInt32 :=
  UInt32.ofNat (b.le off 4)

def setU32 (b : Bytes n) (off : Nat) (v : UInt32) : Bytes n :=
  b.patch off 4 (byteOf v.toNat)

theorem u32_setU32 (b : Bytes n) {off : Nat} (v : UInt32) (h : off + 4 ≤ n) :
    (b.setU32 off v).u32 off = v := by
  have hle : (b.setU32 off v).le (off + 0) 4 = leOf (byteOf v.toNat) 0 4 :=
    le_patch_in b (byteOf v.toNat) (by lia) (by lia)
  rw [Nat.add_zero, leOf_byteOf] at hle
  have hv : v.toNat < 256 ^ 4 := v.toNat_lt
  unfold u32
  rw [hle, Nat.mod_eq_of_lt hv, UInt32.ofNat_toNat]

theorem u32_zero (off : Nat) : u32 (fun _ => 0 : Bytes n) off = 0 := by
  have hzero : forall w, leOf (get (fun _ => 0 : Bytes n)) off w = 0 := by
    intro w
    induction w with
    | zero => rfl
    | succ w ih =>
        rw [leOf, ih]
        simp [get]
  unfold u32 le
  rw [hzero]
  rfl

theorem u32_setU32_of_disjoint (b : Bytes n) {off o : Nat} (v : UInt32)
    (h : o + 4 ≤ off ∨ off + 4 ≤ o) :
    (b.setU32 off v).u32 o = b.u32 o := by
  unfold u32 setU32
  rw [le_patch_out b _ h]

end Bytes

end Lib
end Xv6
