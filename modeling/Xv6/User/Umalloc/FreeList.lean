import Xv6.Lib.Links
import Xv6.User.Umalloc

/-!
# The free list

It starts at `base`, which is a block without units, and comes back to it.  Each
block ends before the next one starts, so that the addresses only fall at the
end of the list and no two blocks touch.  `free` searches the list for the place
of a block and joins it with its neighbours.
-/

namespace Xv6
namespace Umalloc

open Lib

abbrev sentinel (base : Nat) : Blk := ⟨base, 0⟩

/-- The blocks that the pointers lead to from `y`, up to `base`. -/
structure Chain (base : Nat) (hdr : Headers) (y : Nat) (l : List Blk) :
    Prop where
  ring : Segment Blk.addr (fun a => (hdr a).ptr) y l base
  size : forall b, b ∈ l -> (hdr b.addr).size = b.size
  gaps : l.Pairwise (fun b c => b.stop 8 < c.addr)

abbrev FreeList (base : Nat) (hdr : Headers) (blks : List Blk) : Prop :=
  Chain base hdr base (sentinel base :: blks)

section Chain

variable {base y : Nat} {hdr hdr' : Headers} {l l' m : List Blk} {b c : Blk}

namespace Chain

theorem after (h : Chain base hdr y (m ++ b :: l)) :
    Chain base hdr (hdr b.addr).ptr l := by
  rcases segment_append.mp h.ring with ⟨_, _, _, hrest⟩
  refine ⟨hrest, fun c hc => h.size c (by simp [hc]), ?_⟩
  exact (List.pairwise_cons.mp (List.pairwise_append.mp h.gaps).2.1).2

theorem stop_lt_of_mem (h : Chain base hdr y (m ++ b :: l)) (hc : c ∈ l) :
    b.stop 8 < c.addr :=
  (List.pairwise_cons.mp (List.pairwise_append.mp h.gaps).2.1).1 c hc

theorem addr_lt (h : Chain base hdr y (m ++ b :: l)) (hc : c ∈ m) :
    c.addr < b.addr := by
  have hgap := (List.pairwise_append.mp h.gaps).2.2 c hc b (by simp)
  unfold Blk.stop at hgap
  lia

theorem lt_addr (h : Chain base hdr y (m ++ b :: l)) (hc : c ∈ l) :
    b.addr < c.addr := by
  have hgap := h.stop_lt_of_mem hc
  unfold Blk.stop at hgap
  lia

theorem relink (h : Chain base hdr y (m ++ b :: l))
    (hnew : Chain base hdr' b.addr l')
    (hm : forall c, c ∈ m -> hdr' c.addr = hdr c.addr)
    (hle : forall c, c ∈ l' -> b.addr ≤ c.addr) :
    Chain base hdr' y (m ++ l') := by
  rcases h with ⟨hring, hsize, hgaps⟩
  constructor
  · rcases segment_append.mp hring with ⟨x, hfirst, hx, _⟩
    rw [hx] at hfirst
    refine segment_append.mpr ⟨b.addr, ?_, hnew.ring⟩
    exact hfirst.congr (fun c hc => congrArg Header.ptr (hm c hc))
  · intro c hc
    rcases List.mem_append.mp hc with hc | hc
    · rw [hm c hc]
      exact hsize c (by simp [hc])
    · exact hnew.size c hc
  · rw [List.pairwise_append] at hgaps ⊢
    refine ⟨hgaps.1, hnew.gaps, ?_⟩
    intro c hc d hd
    exact Nat.lt_of_lt_of_le (hgaps.2.2 c hc b (by simp)) (hle d hd)

theorem cons (h : Chain base hdr y l) (hb : hdr b.addr = ⟨y, b.size⟩)
    (hlt : forall c, c ∈ l -> b.stop 8 < c.addr) :
    Chain base hdr b.addr (b :: l) := by
  refine ⟨⟨rfl, ?_⟩, ?_, List.pairwise_cons.mpr ⟨hlt, h.gaps⟩⟩
  · show Segment _ _ (hdr b.addr).ptr l base
    rw [hb]
    exact h.ring
  · intro c hc
    rcases List.mem_cons.mp hc with rfl | hc
    · rw [hb]
    · exact h.size c hc

theorem congr (h : Chain base hdr y l)
    (hhdr : forall c, c ∈ l -> hdr' c.addr = hdr c.addr) :
    Chain base hdr' y l where
  ring := h.ring.congr (fun c hc => congrArg Header.ptr (hhdr c hc))
  size c hc := by
    rw [hhdr c hc]
    exact h.size c hc
  gaps := h.gaps

end Chain

theorem FreeList.base_le (h : FreeList base hdr l)
    (hb : b ∈ sentinel base :: l) : base ≤ b.addr := by
  rcases List.mem_cons.mp hb with rfl | hb
  · exact Nat.le_refl base
  · have hlt := (List.pairwise_cons.mp h.gaps).1 b hb
    unfold Blk.stop at hlt
    lia

end Chain

/-!
## The search of `free`
-/

def Stops (hdr : Headers) (bp p : Nat) : Prop :=
  (p < bp ∧ bp < (hdr p).ptr) ∨
    ((hdr p).ptr ≤ p ∧ (p < bp ∨ bp < (hdr p).ptr))

section search

variable {base bp fuel fuel' y z p : Nat} {hdr : Headers} {l : List Blk}
  {b : Blk}

theorem FreeList.of_stops (h : FreeList base hdr l) (hbp : base < bp)
    (hb : b ∈ sentinel base :: l) (hstops : Stops hdr bp b.addr) :
    exists m k, sentinel base :: l = m ++ b :: k ∧ b.addr < bp ∧
      forall c, c ∈ k -> bp < c.addr := by
  have hle := h.base_le hb
  rcases List.append_of_mem hb with ⟨m, k, hnodes⟩
  refine ⟨m, k, hnodes, ?_⟩
  have hchain := h
  unfold FreeList at hchain
  rw [hnodes] at hchain
  unfold Stops at hstops
  cases k with
  | nil =>
      have hptr : (hdr b.addr).ptr = base := hchain.after.ring
      rw [hptr] at hstops
      exact ⟨by lia, nofun⟩
  | cons c k =>
      have hptr : (hdr b.addr).ptr = c.addr := hchain.after.ring.1
      have hbc := hchain.stop_lt_of_mem (c := c) (by simp)
      rw [hptr] at hstops
      unfold Blk.stop at hbc
      refine ⟨by lia, ?_⟩
      intro d hd
      rcases List.mem_cons.mp hd with rfl | hd
      · lia
      · have hcd := (List.pairwise_cons.mp hchain.after.gaps).1 d hd
        unfold Blk.stop at hcd
        lia

theorem exists_last_below (a : Blk) (l : List Blk) (ha : a.addr < bp)
    (hl : forall c, c ∈ l -> c.addr ≠ bp) :
    exists b m k, a :: l = m ++ b :: k ∧ b.addr < bp ∧
      forall c, k.head? = some c -> bp < c.addr := by
  induction l generalizing a with
  | nil => exact ⟨a, [], [], rfl, ha, nofun⟩
  | cons c l ih =>
      rcases lt_or_ge c.addr bp with hc | hc
      · rcases ih c hc (fun d hd => hl d (List.mem_cons_of_mem c hd)) with
          ⟨b, m, k, heq, hb⟩
        exact ⟨b, a :: m, k, by rw [heq]; rfl, hb⟩
      · refine ⟨a, [], c :: l, rfl, ha, ?_⟩
        rintro d ⟨⟩
        have hcne := hl c (by simp)
        lia

theorem FreeList.exists_stops (h : FreeList base hdr l) (hbp : base < bp)
    (hne : forall c, c ∈ l -> c.addr ≠ bp) :
    exists b, b ∈ sentinel base :: l ∧ Stops hdr bp b.addr := by
  rcases exists_last_below (sentinel base) l hbp hne with
    ⟨b, m, k, hnodes, hb, hhead⟩
  have hmem : b ∈ sentinel base :: l := by
    rw [hnodes]
    simp
  refine ⟨b, hmem, ?_⟩
  have hle := h.base_le hmem
  unfold FreeList at h
  rw [hnodes] at h
  cases k with
  | nil =>
      have hptr : (hdr b.addr).ptr = base := h.after.ring
      exact Or.inr ⟨by lia, Or.inl hb⟩
  | cons c k =>
      have hptr : (hdr b.addr).ptr = c.addr := h.after.ring.1
      exact Or.inl ⟨hb, by rw [hptr]; exact hhead c rfl⟩

theorem search_of_stops (h : Stops hdr bp y) :
    search bp hdr (fuel + 1) y = some y := by
  unfold search
  rcases h with h | h
  · rw [if_pos h]
  · rw [if_pos h, ite_self]

theorem search_of_not_stops (h : ¬ Stops hdr bp y) :
    search bp hdr (fuel + 1) y = search bp hdr fuel (hdr y).ptr := by
  rcases not_or.mp h with ⟨h₁, h₂⟩
  conv_lhs => unfold search
  rw [if_neg h₁, if_neg h₂]

theorem search_ends
    (hring : Segment Blk.addr (fun a => (hdr a).ptr) y l z)
    (hstop : exists b, b ∈ l ∧ Stops hdr bp b.addr) :
    exists b, b ∈ l ∧ Stops hdr bp b.addr ∧
      search bp hdr l.length y = some b.addr := by
  induction l generalizing y with
  | nil =>
      rcases hstop with ⟨b, hb, _⟩
      cases hb
  | cons a l ih =>
      rcases hring with ⟨rfl, hring⟩
      rcases Classical.em (Stops hdr bp a.addr) with ha | ha
      · exact ⟨a, by simp, ha, search_of_stops ha⟩
      rcases hstop with ⟨b, hb, hbstop⟩
      rcases List.mem_cons.mp hb with rfl | hb
      · exact absurd hbstop ha
      rcases ih hring ⟨b, hb, hbstop⟩ with ⟨c, hc, hcstop, hsearch⟩
      refine ⟨c, List.mem_cons_of_mem a hc, hcstop, ?_⟩
      rw [List.length_cons, search_of_not_stops ha]
      exact hsearch

theorem FreeList.rotate (h : FreeList base hdr l)
    (hb : b ∈ sentinel base :: l) :
    exists k, Segment Blk.addr (fun a => (hdr a).ptr) b.addr (b :: k) b.addr ∧
      (b :: k).Perm (sentinel base :: l) := by
  rcases List.append_of_mem hb with ⟨m, k, hnodes⟩
  have hring := h.ring
  rw [hnodes] at hring
  rcases hring.rotate with ⟨x, hrot⟩
  have hx : x = b.addr := hrot.1
  subst hx
  refine ⟨k ++ m, hrot, ?_⟩
  rw [hnodes, ← List.cons_append]
  exact List.perm_append_comm

theorem FreeList.search_ends (h : FreeList base hdr l) (hbp : base < bp)
    (hne : forall c, c ∈ l -> c.addr ≠ bp) (hb : b ∈ sentinel base :: l) :
    exists x fuel, x ∈ sentinel base :: l ∧ Stops hdr bp x.addr ∧
      search bp hdr fuel b.addr = some x.addr := by
  rcases h.rotate hb with ⟨k, hring, hperm⟩
  rcases h.exists_stops hbp hne with ⟨x, hx, hstop⟩
  rcases Umalloc.search_ends hring ⟨x, hperm.mem_iff.mpr hx, hstop⟩ with
    ⟨x, hx, hstop, hsearch⟩
  exact ⟨x, _, hperm.mem_iff.mp hx, hstop, hsearch⟩

theorem search_mono (hle : fuel ≤ fuel')
    (h : search bp hdr fuel y = some p) : search bp hdr fuel' y = some p := by
  induction fuel generalizing fuel' y with
  | zero => cases h
  | succ fuel ih =>
      cases fuel' with
      | zero => lia
      | succ fuel' =>
          rcases Classical.em (Stops hdr bp y) with hs | hs
          · rw [search_of_stops hs] at h ⊢
            exact h
          · rw [search_of_not_stops hs] at h ⊢
            exact ih (by lia) h

end search

/-!
## Joining blocks
-/

/-- `b` in front of a list, joined with its first block if they touch. -/
def joined (b : Blk) : List Blk -> List Blk
  | [] => [b]
  | c :: l =>
      if b.stop 8 = c.addr then ⟨b.addr, b.size + c.size⟩ :: l else b :: c :: l

section joined

variable {b c : Blk} {l rest cs : List Blk} {hdr : Headers} {y base : Nat}

theorem joined_of_eq (h : b.stop 8 = c.addr) :
    joined b (c :: l) = ⟨b.addr, b.size + c.size⟩ :: l := if_pos h

theorem joined_of_ne (h : b.stop 8 ≠ c.addr) :
    joined b (c :: l) = b :: c :: l := if_neg h

theorem joined_eq (b : Blk) (l : List Blk) :
    exists c l', joined b l = c :: l' ∧ c.addr = b.addr ∧
      b.size ≤ c.size ∧ forall d, d ∈ l' -> d ∈ l := by
  cases l with
  | nil => exact ⟨b, [], rfl, rfl, Nat.le_refl _, fun d hd => hd⟩
  | cons c l =>
      rcases eq_or_ne (b.stop 8) c.addr with heq | hne
      · rw [joined_of_eq heq]
        exact ⟨_, l, rfl, rfl, Nat.le_add_right b.size c.size,
          fun d hd => List.mem_cons_of_mem c hd⟩
      · rw [joined_of_ne hne]
        exact ⟨b, c :: l, rfl, rfl, Nat.le_refl _, fun d hd => hd⟩

theorem exists_le_joined (hc : c ∈ l) :
    exists d, d ∈ joined b l ∧ c.size ≤ d.size := by
  cases l with
  | nil => cases hc
  | cons a l =>
      rcases eq_or_ne (b.stop 8) a.addr with heq | hne
      · rw [joined_of_eq heq]
        rcases List.mem_cons.mp hc with rfl | hc
        · exact ⟨_, List.mem_cons_self, Nat.le_add_left c.size b.size⟩
        · exact ⟨c, List.mem_cons_of_mem _ hc, Nat.le_refl _⟩
      · rw [joined_of_ne hne]
        exact ⟨c, List.mem_cons_of_mem b hc, Nat.le_refl _⟩

theorem addr_le_joined (hle : forall c, c ∈ l -> b.addr ≤ c.addr)
    (hc : c ∈ joined b l) : b.addr ≤ c.addr := by
  rcases joined_eq b l with ⟨d, l', heq, hd, _, hl'⟩
  rw [heq] at hc
  rcases List.mem_cons.mp hc with rfl | hc
  · exact Nat.le_of_eq hd.symm
  · exact hle c (hl' c hc)

theorem gaps_joined (hl : l.Pairwise (fun b c => b.stop 8 < c.addr))
    (hb : forall c, c ∈ l -> b.stop 8 ≤ c.addr) :
    (joined b l).Pairwise (fun b c => b.stop 8 < c.addr) := by
  cases l with
  | nil => exact List.pairwise_singleton _ b
  | cons c l =>
      rcases List.pairwise_cons.mp hl with ⟨hc, hrest⟩
      rcases eq_or_ne (b.stop 8) c.addr with heq | hne
      · rw [joined_of_eq heq]
        refine List.pairwise_cons.mpr ⟨?_, hrest⟩
        intro d hd
        have hcd := hc d hd
        unfold Blk.stop at hcd heq ⊢
        dsimp only
        lia
      · rw [joined_of_ne hne]
        refine List.pairwise_cons.mpr ⟨?_, hl⟩
        intro d hd
        have hbc := hb c (by simp)
        rcases List.mem_cons.mp hd with rfl | hd
        · lia
        · have hcd := hc d hd
          unfold Blk.stop at *
          lia

theorem tiles_joined (h : Tiles 8 cs (b :: (l ++ rest))) :
    Tiles 8 cs (joined b l ++ rest) := by
  cases l with
  | nil => exact h
  | cons c l =>
      rcases eq_or_ne (b.stop 8) c.addr with heq | hne
      · have hc : c = ⟨b.addr + 8 * b.size, c.size⟩ := by
          rw [show b.addr + 8 * b.size = c.addr from heq]
        rw [joined_of_eq heq]
        rw [List.cons_append, hc] at h
        exact h.merge
      · rw [joined_of_ne hne]
        exact h

theorem plus_eq (h : b.stop 8 < 2 ^ 32) : plus b.addr b.size = b.stop 8 :=
  Nat.mod_eq_of_lt h

theorem join_of_ne {p q a : Nat} (h : a ≠ p) : join p q hdr a = hdr a := by
  unfold join
  split
  · exact Function.update_of_ne h ..
  · exact Function.update_of_ne h ..

theorem join_apart (hb : (hdr b.addr).size = b.size)
    (hstop : b.stop 8 < 2 ^ 32) (hne : b.stop 8 ≠ y) :
    join b.addr y hdr b.addr = ⟨y, b.size⟩ := by
  unfold join
  rw [hb, plus_eq hstop, if_neg hne, Function.update_self]

theorem join_touching (hb : (hdr b.addr).size = b.size)
    (hc : (hdr c.addr).size = c.size) (hstop : c.stop 8 < 2 ^ 32)
    (heq : b.stop 8 = c.addr) :
    join b.addr c.addr hdr b.addr =
      ⟨(hdr c.addr).ptr, b.size + c.size⟩ := by
  have hfit : b.size + c.size < 2 ^ 32 := by
    unfold Blk.stop at hstop heq
    lia
  have hbstop : b.stop 8 < 2 ^ 32 := by
    unfold Blk.stop at hstop heq ⊢
    lia
  unfold join
  rw [hb, hc, plus_eq hbstop, if_pos heq, Function.update_self,
    Nat.mod_eq_of_lt hfit]

theorem Chain.join (h : Chain base hdr y l)
    (hb : (hdr b.addr).size = b.size)
    (hstop : forall c, c ∈ b :: l -> c.stop 8 < 2 ^ 32)
    (hlt : forall c, c ∈ l -> b.addr < c.addr)
    (hle : forall c, c ∈ l -> b.stop 8 ≤ c.addr)
    (hbase : base < b.stop 8 ∨ l ≠ []) :
    Chain base (join b.addr y hdr) b.addr (joined b l) := by
  have hbstop := hstop b (by simp)
  have hoff : Chain base (Umalloc.join b.addr y hdr) y l :=
    h.congr (fun c hc => join_of_ne (Nat.ne_of_gt (hlt c hc)))
  cases l with
  | nil =>
      have hy : y = base := h.ring
      have hne : b.stop 8 ≠ y := by
        rcases hbase with hbase | hbase
        · lia
        · exact absurd rfl hbase
      exact hoff.cons (join_apart hb hbstop hne) (by simp)
  | cons c l =>
      have hy : y = c.addr := h.ring.1
      subst hy
      rcases eq_or_ne (b.stop 8) c.addr with heq | hne
      · rw [joined_of_eq heq]
        have hjoin := join_touching hb (h.size c (by simp))
          (hstop c (by simp)) heq
        have hrest : Chain base (Umalloc.join b.addr c.addr hdr)
            (hdr c.addr).ptr l := by
          have hafter := Chain.after (m := []) hoff
          rwa [join_of_ne (Nat.ne_of_gt (hlt c (by simp)))] at hafter
        refine hrest.cons (b := ⟨b.addr, b.size + c.size⟩) hjoin ?_
        intro d hd
        have hcd := Chain.stop_lt_of_mem (m := []) h hd
        unfold Blk.stop at hcd heq ⊢
        dsimp only
        lia
      · rw [joined_of_ne hne]
        refine hoff.cons (join_apart hb hbstop hne) ?_
        have hgaps := gaps_joined h.gaps hle
        rw [joined_of_ne hne] at hgaps
        exact (List.pairwise_cons.mp hgaps).1

end joined

end Umalloc
end Xv6
