import Xv6.Lib.Words
import Xv6.Syscall
import Xv6.Proc.Runs

/-!
# Sound argument checks

Images stay below `KERNBASE`, so the sums in the checks of `syscall.c` do not
wrap, and what the checks let through lies in the image.
-/

namespace Xv6
namespace Kernel

open Lib Lib.Run

/-!
## Images stay below the kernel
-/

theorem fares_size {t : Procs} {q : Pslot} {a : Act} {pr : Proc}
    (h : Fares t q pr a) (hsize : forall p, (t.proc p).sz < KERNBASE) :
    pr.sz < KERNBASE := by
  have hsame : forall p, pr.sz = (t.proc p).sz -> pr.sz < KERNBASE := by
    intro p heq
    rw [heq]
    exact hsize p
  cases h with
  | kept _ hkept | moved _ hkept => exact hsame q hkept.sz
  | free _ _ _ _ hsz | exited _ _ hsz | reaped _ _ _ _ hsz => exact hsame q hsz
  | made _ cur _ _ _ _ _ _ hsz => exact hsame cur hsz
  | own _ _ hslot => exact hslot.size (hsize q)

theorem booted_size {k : Kernel} (h : Booted k) (p : Pslot) :
    (k.proc p).sz < KERNBASE := by
  rcases eq_or_ne p k.initproc with rfl | hp
  · rcases h.init with ⟨_, _, _, _, _, hinit⟩
    rw [hinit]
    exact (by decide : (4096 : UInt32) < KERNBASE)
  · rw [h.other p hp]
    decide

theorem size_below {k₀ k : Kernel} (hboot : Booted k₀)
    (hruns : Runs Step (fun _ _ => True) k₀ k) (p : Pslot) :
    (k.proc p).sz < KERNBASE :=
  hruns.invariant (I := fun k => forall p, (k.proc p).sz < KERNBASE)
    (booted_size hboot)
    (fun _ _ _ h _ hstep q => fares_size (step_fares hstep q) h) p

/-!
## The checks
-/

/-- The four bytes from `addr` on are in the image and hold `v`. -/
def IntAt (k : Kernel) (cur : Pslot) (addr : UInt32) (v : Int32) : Prop :=
  addr.toNat + 4 ≤ (k.proc cur).sz.toNat ∧
    exists b : Nat -> UInt8,
      (forall i, i < 4 ->
        k.userByte cur (addr + UInt32.ofNat i) = some (b i)) ∧
        v = (UInt32.ofNat (Bytes.leOf b 0 4)).toInt32

/-- The `size` bytes from `p` on are in the image. -/
def BlockAt (k : Kernel) (cur : Pslot) (p : UInt32) (size : Int32) : Prop :=
  0 ≤ size ∧ p.toNat + size.toInt.toNat ≤ (k.proc cur).sz.toNat

/-- There is a string of `len` bytes at `p`, which with its nul is in the
image. -/
def StringAt (k : Kernel) (cur : Pslot) (p : UInt32) (len : Nat) : Prop :=
  p.toNat + len < (k.proc cur).sz.toNat ∧
    k.userByte cur (p + UInt32.ofNat len) = some 0 ∧
      forall i, i < len -> exists b, b ≠ 0 ∧
        k.userByte cur (p + UInt32.ofNat i) = some b

section Checks

variable {cur : Pslot} {k : Kernel}

theorem wp_loadByte {va : UInt32} {Q : UInt8 -> Kernel -> Prop}
    (h : forall b, k.userByte cur va = some b -> Q b k) :
    wp (loadByte cur va) Q (fun _ => True) k := by
  unfold loadByte
  rw [wp_bind, wp_gets]
  cases hbyte : k.userByte cur va with
  | none => exact trivial
  | some b => exact h b hbyte

theorem wp_fetchint {addr : UInt32} (hsz : (k.proc cur).sz < KERNBASE) :
    wp (fetchint cur addr)
      (fun r k' => k' = k ∧ forall v, r = some v -> IntAt k cur addr v)
      (fun _ => True) k := by
  unfold fetchint
  rw [wp_bind, wp_gets, wp_ite]
  constructor
  · exact fun _ => ⟨rfl, fun v hv => by cases hv⟩
  · intro hcheck
    -- the address is below `KERNBASE`, so `addr + 4` does not wrap
    have hbound : addr.toNat + 4 ≤ (k.proc cur).sz.toNat := by
      have hadd : (addr + 4).toNat = (addr.toNat + 4) % 2 ^ 32 :=
        UInt32.toNat_add addr 4
      have hbase : KERNBASE.toNat = 2 ^ 31 := rfl
      simp only [UInt32.le_iff_toNat_le, UInt32.lt_iff_toNat_lt] at hcheck hsz
      lia
    rw [wp_bind]
    apply wp_loadByte
    intro b0 h0
    rw [wp_bind]
    apply wp_loadByte
    intro b1 h1
    rw [wp_bind]
    apply wp_loadByte
    intro b2 h2
    rw [wp_bind]
    apply wp_loadByte
    intro b3 h3
    refine ⟨rfl, ?_⟩
    intro v hv
    cases hv
    refine ⟨hbound, fun i => [b0, b1, b2, b3].getD i 0, ?_, rfl⟩
    intro i hi
    interval_cases i
    · rw [show addr + UInt32.ofNat 0 = addr from UInt32.add_zero addr]
      exact h0
    · exact h1
    · exact h2
    · exact h3

theorem wp_argint (n : Int32) (hsz : (k.proc cur).sz < KERNBASE) :
    wp (argint cur n)
      (fun r k' => k' = k ∧ forall v, r = some v ->
        IntAt k cur (argAddr (k.proc cur).tf.esp n) v)
      (fun _ => True) k := by
  unfold argint
  rw [wp_bind, wp_gets]
  exact wp_fetchint hsz

theorem wp_argptr (n size : Int32) (hsz : (k.proc cur).sz < KERNBASE) :
    wp (argptr cur n size)
      (fun r k' => k' = k ∧ forall p, r = some p -> BlockAt k cur p size)
      (fun _ => True) k := by
  unfold argptr
  rw [wp_bind]
  apply wp_post (wp_argint n hsz)
  rintro r _ ⟨rfl, _⟩
  cases r with
  | none => exact ⟨rfl, fun p hp => by cases hp⟩
  | some i =>
      rw [wp_bind, wp_gets, wp_ite]
      constructor
      · exact fun _ => ⟨rfl, fun p hp => by cases hp⟩
      · intro hcheck
        refine ⟨rfl, ?_⟩
        intro p hp
        cases hp
        rcases not_or.mp hcheck with ⟨hsign, hrange⟩
        refine ⟨Int32.not_lt.mp hsign, ?_⟩
        -- both summands are below `2 ^ 31`
        have hadd : (i.toUInt32 + size.toUInt32).toNat =
            (i.toUInt32.toNat + size.toUInt32.toNat) % 2 ^ 32 :=
          UInt32.toNat_add _ _
        have hsize : size.toInt < 2 ^ 31 := size.toInt_lt
        have hbase : KERNBASE.toNat = 2 ^ 31 := rfl
        rw [toNat_toUInt32 hsign] at hadd
        simp only [UInt32.le_iff_toNat_le, UInt32.lt_iff_toNat_lt] at hrange hsz
        lia

theorem wp_fetchstrLoop (n : Nat) (s : UInt32) (len : Nat) :
    wp (fetchstrLoop cur n s len)
      (fun r _ => forall len', r = some len' ->
        len ≤ len' ∧ len' < len + n ∧
          k.userByte cur (s + UInt32.ofNat (len' - len)) = some 0 ∧
            forall i, i < len' - len -> exists b, b ≠ 0 ∧
              k.userByte cur (s + UInt32.ofNat i) = some b)
      (fun _ => True) k := by
  induction n generalizing s len with
  | zero => exact fun len' h => by cases h
  | succ n ih =>
      unfold fetchstrLoop
      rw [wp_bind]
      apply wp_loadByte
      intro b hb
      rw [wp_ite]
      constructor
      · rintro rfl len' h
        cases h
        refine ⟨le_rfl, by lia, ?_, fun i hi => by lia⟩
        rw [Nat.sub_self, show s + UInt32.ofNat 0 = s from UInt32.add_zero s]
        exact hb
      · intro hne
        apply wp_post (ih (s + 1) (len + 1))
        intro r _ hr len' h
        rcases hr len' h with ⟨hle, hlt, hzero, hbefore⟩
        have hshift : forall i, s + 1 + UInt32.ofNat i =
            s + UInt32.ofNat (i + 1) := by
          intro i
          rw [UInt32.add_assoc, UInt32.ofNat_add, UInt32.add_comm 1]
          rfl
        refine ⟨by lia, by lia, ?_, ?_⟩
        · rw [hshift] at hzero
          rw [show len' - len = len' - (len + 1) + 1 by lia]
          exact hzero
        · intro i hi
          cases i with
          | zero =>
              refine ⟨b, hne, ?_⟩
              rw [show s + UInt32.ofNat 0 = s from UInt32.add_zero s]
              exact hb
          | succ i =>
              rw [← hshift]
              exact hbefore i (by lia)

theorem wp_fetchstr (addr : UInt32) :
    wp (fetchstr cur addr)
      (fun r _ => forall x, r = some x -> StringAt k cur x.1 x.2)
      (fun _ => True) k := by
  unfold fetchstr
  rw [wp_bind, wp_gets, wp_ite]
  constructor
  · exact fun _ x hx => by cases hx
  · intro hcheck
    rw [wp_bind]
    apply wp_post (wp_fetchstrLoop _ addr 0)
    intro r _ hr
    cases r with
    | none => exact fun x hx => by cases hx
    | some len =>
        intro x hx
        cases hx
        rcases hr len rfl with ⟨_, hlt, hzero, hbefore⟩
        refine ⟨?_, hzero, hbefore⟩
        have haddr := UInt32.not_le.mp hcheck
        have hsub : ((k.proc cur).sz - addr).toNat =
            (k.proc cur).sz.toNat - addr.toNat :=
          UInt32.toNat_sub_of_le _ _ (UInt32.le_of_lt haddr)
        rw [UInt32.lt_iff_toNat_lt] at haddr
        lia

theorem wp_argstr (n : Int32) (hsz : (k.proc cur).sz < KERNBASE) :
    wp (argstr cur n)
      (fun r _ => forall x, r = some x -> StringAt k cur x.1 x.2)
      (fun _ => True) k := by
  unfold argstr
  rw [wp_bind]
  apply wp_post (wp_argint n hsz)
  rintro r _ ⟨rfl, _⟩
  cases r with
  | none => exact fun x hx => by cases hx
  | some addr => exact wp_fetchstr addr.toUInt32

end Checks

/-- The kernel once the program of `cur` has run: its registers and the memory
are any. -/
def userRan (k : Kernel) (cur : Pslot) (tf : Trapframe)
    (mem : UInt32 -> Page) : Kernel :=
  { k with
    vm := { k.vm with mem := mem }
    proc := Function.update k.proc cur { k.proc cur with tf := tf } }

/-- In every state that a run reaches, whatever the registers and the memory of
the caller, what `argint`, `argptr`, `fetchstr` and `argstr` let through is in
the caller's image. -/
theorem args_sound {k₀ k : Kernel} (hboot : Booted k₀)
    (hruns : Runs Step (fun _ _ => True) k₀ k) (cur : Pslot) (tf : Trapframe)
    (mem : UInt32 -> Page) :
    (k.proc cur).sz < KERNBASE ∧
      (forall n v k', argint cur n (k.userRan cur tf mem) = .ok (some v, k') ->
        IntAt (k.userRan cur tf mem) cur (argAddr tf.esp n) v) ∧
      (forall n size p k',
        argptr cur n size (k.userRan cur tf mem) = .ok (some p, k') ->
          BlockAt (k.userRan cur tf mem) cur p size) ∧
      (forall addr p len k',
        fetchstr cur addr (k.userRan cur tf mem) = .ok (some (p, len), k') ->
          StringAt (k.userRan cur tf mem) cur p len) ∧
      forall n p len k',
        argstr cur n (k.userRan cur tf mem) = .ok (some (p, len), k') ->
          StringAt (k.userRan cur tf mem) cur p len := by
  have hsz := size_below hboot hruns cur
  have hslot : (k.userRan cur tf mem).proc cur = { k.proc cur with tf := tf } :=
    Function.update_self cur _ _
  have hsz' : ((k.userRan cur tf mem).proc cur).sz < KERNBASE := by
    rw [hslot]
    exact hsz
  have hesp : ((k.userRan cur tf mem).proc cur).tf.esp = tf.esp := by
    rw [hslot]
  refine ⟨hsz, ?_, ?_, ?_, ?_⟩
  · intro n v k' hrun
    rw [← hesp]
    exact (wp_ok (wp_argint n hsz') hrun).2 v rfl
  · intro n size p k' hrun
    exact (wp_ok (wp_argptr n size hsz') hrun).2 p rfl
  · intro addr p len k' hrun
    exact wp_ok (wp_fetchstr addr) hrun (p, len) rfl
  · intro n p len k' hrun
    exact wp_ok (wp_argstr n hsz') hrun (p, len) rfl

/-- The first argument of a call of `init` with the stack pointer 16 is the word
0 at the address 20, so it names a block at the start of the image. -/
theorem args_sound_boot : exists k',
    argptr 0 0 8 (boot.userRan 0 { eax := 0, eip := 0, esp := 16, ebp := 0 }
        boot.vm.mem) = .ok (some 0, k') ∧
      BlockAt (boot.userRan 0 { eax := 0, eip := 0, esp := 16, ebp := 0 }
        boot.vm.mem) 0 0 8 := by
  have hvalue : value?
      (argptr 0 0 8 (boot.userRan 0 { eax := 0, eip := 0, esp := 16, ebp := 0 }
        boot.vm.mem)) = some (some 0) := by
    decide +kernel
  rcases value?_eq_some hvalue with ⟨k', hrun⟩
  exact ⟨k', hrun,
    (args_sound boot_booted Runs.refl 0 _ _).2.2.1 0 8 0 k' hrun⟩

end Kernel
end Xv6
