import Xv6.Rand

/-!
# The random number generator

`sgenrand` and `genrand` of `rand.c`.  The generator is defined by a recurrence
on words; the code keeps the last 624 of them and makes the next 624 at one
time, in place, in three parts that read old and new words side by side.  An
`unsigned long` has 32 bits.
-/

namespace Xv6
namespace Rand

abbrev N : Nat := 624
abbrev M : Nat := 397

def MATRIX_A : UInt32 := 0x9908b0df
def UPPER_MASK : UInt32 := 0x80000000
def LOWER_MASK : UInt32 := 0x7fffffff

def mag01 (x : UInt32) : UInt32 := if x = 0 then 0 else MATRIX_A

/-- `mti` is `N + 1` as long as `mt` is not initialized. -/
structure Generator where
  mt : Nat -> UInt32
  mti : Nat

def sgenrand (seed : UInt32) (g : Generator) : Generator where
  mt := (List.range (N - 1)).foldl
    (fun mt i => Function.update mt (i + 1) (69069 * mt i))
    (Function.update g.mt 0 seed)
  mti := N

/-- `(y >> 1) ^ mag01[y & 0x1]`, with `y` from two words. -/
def twist (u v : UInt32) : UInt32 :=
  let y := (u &&& UPPER_MASK) ||| (v &&& LOWER_MASK)
  (y >>> 1) ^^^ mag01 (y &&& 1)

def refillLow (mt : Nat -> UInt32) (kk : Nat) : Nat -> UInt32 :=
  Function.update mt kk (mt (kk + M) ^^^ twist (mt kk) (mt (kk + 1)))

def refillHigh (mt : Nat -> UInt32) (kk : Nat) : Nat -> UInt32 :=
  Function.update mt kk (mt (kk - (N - M)) ^^^ twist (mt kk) (mt (kk + 1)))

/-- The two loops of `genrand`, and the last word. -/
def refill (mt : Nat -> UInt32) : Nat -> UInt32 :=
  let mt := (List.range (N - M)).foldl refillLow mt
  let mt := (List.range' (N - M) (M - 1)).foldl refillHigh mt
  Function.update mt (N - 1) (mt (M - 1) ^^^ twist (mt (N - 1)) (mt 0))

def temper (y : UInt32) : UInt32 :=
  let y := y ^^^ (y >>> 11)
  let y := y ^^^ ((y <<< 7) &&& 0x9d2c5680)
  let y := y ^^^ ((y <<< 15) &&& 0xefc60000)
  y ^^^ (y >>> 18)

def genrand (g : Generator) : UInt32 × Generator :=
  let g :=
    if N ≤ g.mti then
      let g := if g.mti = N + 1 then sgenrand 4357 g else g
      { mt := refill g.mt, mti := 0 }
    else
      g
  (temper (g.mt g.mti) &&& RAND_MAX, { g with mti := g.mti + 1 })

def advance (g : Generator) : Nat -> Generator
  | 0 => g
  | n + 1 => (genrand (advance g n)).2

/-!
## The recurrence
-/

/-- The words that the generator is defined by. -/
def word (seed : UInt32) (n : Nat) : UInt32 :=
  if _h : n < N then
    match n with
    | 0 => seed
    | n + 1 => 69069 * word seed n
  else
    word seed (n - N + M) ^^^ twist (word seed (n - N)) (word seed (n - N + 1))
  termination_by n
  decreasing_by all_goals lia

section Recurrence

variable {seed : UInt32} {b k : Nat} {mt : Nat -> UInt32}

theorem word_succ {n : Nat} (h : n + 1 < N) :
    word seed (n + 1) = 69069 * word seed n := by
  rw [word, dif_pos h]

theorem word_add (n : Nat) : word seed (n + N) =
    word seed (n + M) ^^^ twist (word seed n) (word seed (n + 1)) := by
  rw [word, dif_neg (Nat.not_lt.mpr (Nat.le_add_left N n)), Nat.add_sub_cancel]

/-- The first `k` of the words from `b` on have been replaced by the words `N`
later. -/
def Replaced (seed : UInt32) (b k : Nat) (mt : Nat -> UInt32) : Prop :=
  forall i, i < N -> mt i = word seed (if i < k then b + i + N else b + i)

theorem Replaced.succ (h : Replaced seed b k mt) {v : UInt32}
    (hv : v = word seed (b + k + M) ^^^
      twist (word seed (b + k)) (word seed (b + k + 1))) :
    Replaced seed b (k + 1) (Function.update mt k v) := by
  intro i hi
  rcases eq_or_ne i k with rfl | hne
  · rw [Function.update_self, hv, if_pos (Nat.lt_succ_self i), word_add]
  · have hlt : i < k + 1 ↔ i < k := by lia
    rw [Function.update_of_ne hne, h i hi]
    simp only [hlt]

theorem Replaced.low (h : Replaced seed b k mt) (hk : k < N - M) :
    Replaced seed b (k + 1) (refillLow mt k) := by
  apply h.succ
  rw [h (k + M) (by lia), h k (by lia), h (k + 1) (by lia),
    if_neg (by lia), if_neg (by lia), if_neg (by lia)]
  simp only [Nat.add_assoc]

/-- Here the word `M` later is a new one. -/
theorem Replaced.high (h : Replaced seed b k mt) (hk : N - M ≤ k)
    (hlt : k < N - 1) : Replaced seed b (k + 1) (refillHigh mt k) := by
  apply h.succ
  rw [h (k - (N - M)) (by lia), h k (by lia), h (k + 1) (by lia),
    if_pos (by lia), if_neg (by lia), if_neg (by lia)]
  have hindex : b + (k - (N - M)) + N = b + k + M := by lia
  rw [hindex, Nat.add_assoc b k 1]

theorem Replaced.refill (h : Replaced seed b 0 mt) :
    Replaced seed (b + N) 0 (refill mt) := by
  have hlow : forall n, n ≤ N - M ->
      Replaced seed b n ((List.range n).foldl refillLow mt) := by
    intro n hn
    induction n with
    | zero => exact h
    | succ n ih =>
        rw [List.range_succ, List.foldl_append]
        exact (ih (by lia)).low (by lia)
  have hhigh : forall n, n ≤ M - 1 -> Replaced seed b (N - M + n)
      ((List.range' (N - M) n).foldl refillHigh
        ((List.range (N - M)).foldl refillLow mt)) := by
    intro n hn
    induction n with
    | zero =>
        rw [List.range'_zero, List.foldl_nil, Nat.add_zero]
        exact hlow _ (Nat.le_refl _)
    | succ n ih =>
        rw [List.range'_concat, List.foldl_append, Nat.one_mul]
        exact (ih (by lia)).high (by lia) (by lia)
  have hlast := hhigh (M - 1) (Nat.le_refl _)
  unfold Rand.refill
  dsimp only
  generalize (List.range' (N - M) (M - 1)).foldl refillHigh
    ((List.range (N - M)).foldl refillLow mt) = mt' at hlast ⊢
  -- the last word is made from the first of the new ones
  have hall := hlast.succ (v := mt' (M - 1) ^^^ twist (mt' (N - 1)) (mt' 0))
    (by
      rw [hlast (M - 1) (by lia), hlast (N - 1) (by lia), hlast 0 (by lia),
        if_pos (by lia), if_neg (by lia), if_pos (by lia),
        show b + (M - 1) + N = b + (N - M + (M - 1)) + M by lia,
        show b + 0 + N = b + (N - M + (M - 1)) + 1 by lia,
        show N - M + (M - 1) = N - 1 by lia])
  intro i hi
  rw [if_neg (Nat.not_lt_zero i), Nat.add_right_comm]
  refine (hall i hi).trans ?_
  rw [if_pos (by lia)]

theorem sgenrand_replaced (seed : UInt32) (g : Generator) :
    Replaced seed 0 0 (sgenrand seed g).mt := by
  have hloop : forall n, n < N -> forall i, i ≤ n ->
      (List.range n).foldl
        (fun mt i => Function.update mt (i + 1) (69069 * mt i))
        (Function.update g.mt 0 seed) i = word seed i := by
    intro n hn
    induction n with
    | zero =>
        intro i hi
        rw [Nat.le_zero.mp hi, word]
        exact Function.update_self ..
    | succ n ih =>
        intro i hi
        rw [List.range_succ, List.foldl_append]
        show Function.update _ (n + 1) _ i = _
        rcases eq_or_ne i (n + 1) with rfl | hne
        · rw [Function.update_self, ih (by lia) n le_rfl, word_succ hn]
        · rw [Function.update_of_ne hne]
          exact ih (by lia) i (by lia)
  intro i hi
  rw [if_neg (Nat.not_lt_zero i), Nat.zero_add]
  unfold sgenrand
  dsimp only
  exact hloop (N - 1) (by lia) i (by lia)

/-- The next word is that with the number `n`.  A generator without a seed is
about to get the default one. -/
def Holds (seed : UInt32) (n : Nat) (g : Generator) : Prop :=
  (g.mti = N + 1 ∧ seed = 4357 ∧ n = N) ∨
    exists b, Replaced seed b 0 g.mt ∧ g.mti ≤ N ∧ b + g.mti = n

theorem Holds.genrand {n : Nat} {g : Generator} (h : Holds seed n g) :
    (genrand g).1 = temper (word seed n) &&& RAND_MAX ∧
      Holds seed (n + 1) (genrand g).2 := by
  have htake : forall b mt mti, Replaced seed b 0 mt -> mti < N ->
      b + mti = n ->
      temper (mt mti) &&& RAND_MAX = temper (word seed n) &&& RAND_MAX ∧
        Holds seed (n + 1) { mt := mt, mti := mti + 1 } := by
    rintro b mt mti hmt hlt rfl
    constructor
    · rw [hmt mti hlt, if_neg (Nat.not_lt_zero _)]
    · exact Or.inr ⟨b, hmt, hlt, rfl⟩
  unfold Rand.genrand
  dsimp only
  rcases h with ⟨hnone, rfl, rfl⟩ | ⟨b, hmt, hle, hn⟩
  · rw [if_pos (by lia), if_pos hnone]
    exact htake (0 + N) _ 0 (sgenrand_replaced 4357 g).refill
      (Nat.zero_lt_succ _) (Nat.zero_add N)
  · split
    case isTrue hge =>
      rw [if_neg (by lia)]
      exact htake (b + N) _ 0 hmt.refill (Nat.zero_lt_succ _) (by lia)
    case isFalse hlt => exact htake b _ _ hmt (Nat.not_le.mp hlt) hn

theorem Holds.advance {g : Generator} (h : Holds seed N g) (n : Nat) :
    Holds seed (N + n) (advance g n) := by
  induction n with
  | zero => exact h
  | succ n ih => exact ih.genrand.2

end Recurrence

/-- The calls return the words of the recurrence from the `N`-th on, tempered
and without their first bit, with the default seed if there was none. -/
theorem genrand_follows_recurrence (seed : UInt32) (g : Generator) (n : Nat) :
    (genrand (advance (sgenrand seed g) n)).1 =
      temper (word seed (N + n)) &&& RAND_MAX ∧
    (genrand (advance { g with mti := N + 1 } n)).1 =
      temper (word 4357 (N + n)) &&& RAND_MAX := by
  have hseeded : Holds seed N (sgenrand seed g) :=
    Or.inr ⟨0, sgenrand_replaced seed g, Nat.le_refl N, Nat.zero_add N⟩
  have hunseeded : Holds 4357 N { g with mti := N + 1 } :=
    Or.inl ⟨rfl, rfl, rfl⟩
  exact ⟨(hseeded.advance n).genrand.1, (hunseeded.advance n).genrand.1⟩

end Rand
end Xv6
