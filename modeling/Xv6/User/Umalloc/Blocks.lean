import Xv6.User.Umalloc.FreeList

/-!
# Free and live blocks

The blocks of the free list and the others tile the memory from `sbrk`, before
and after a block is freed or taken.
-/

namespace Xv6
namespace Umalloc

open Lib

/-!
## Freeing a block
-/

/-- The memory lies between `base` and the end of the address space. -/
def Bounded (base : Nat) (chunks : List Blk) : Prop :=
  forall c, c ∈ chunks -> base + 8 ≤ c.addr ∧ c.stop 8 < 2 ^ 32

section insert

variable {base : Nat} {hdr : Headers} {bs blks rest cs : List Blk} {b x : Blk}

theorem Bounded.le_addr (h : Bounded base cs) (htiles : Tiles 8 cs bs)
    (hb : b ∈ bs) : base + 8 ≤ b.addr :=
  htiles.le_addr (fun c hc => (h c hc).1) hb

theorem Bounded.stop_lt (h : Bounded base cs) (htiles : Tiles 8 cs bs)
    (hb : b ∈ bs) : b.stop 8 < 2 ^ 32 :=
  Nat.lt_of_le_sub_one (by decide)
    (htiles.stop_le (fun c hc => Nat.le_sub_one_of_lt (h c hc).2) hb)

theorem stop_le_of_lt (htiles : Tiles 8 cs (b :: (blks ++ rest)))
    (hx : x ∈ sentinel base :: blks) (hlt : x.addr < b.addr) :
    x.stop 8 ≤ b.addr := by
  rcases List.mem_cons.mp hx with rfl | hx
  · exact Nat.le_of_lt hlt
  · rcases (List.pairwise_cons.mp htiles.apart).1 x (by simp [hx]) with h | h
    · unfold Blk.stop at h
      lia
    · exact h

theorem le_of_lt (htiles : Tiles 8 cs (b :: (blks ++ rest))) (hx : x ∈ blks)
    (hlt : b.addr < x.addr) : b.stop 8 ≤ x.addr := by
  rcases (List.pairwise_cons.mp htiles.apart).1 x (by simp [hx]) with h | h
  · exact h
  · unfold Blk.stop at h
    lia

theorem perm_around (m l rest : List Blk) (x : Blk) :
    ((m ++ x :: l) ++ rest).Perm (l ++ x :: (m ++ rest)) := by
  apply List.perm_iff_count.mpr
  intro a
  simp only [List.count_append, List.count_cons]
  lia

theorem split_nodes {m k : List Blk}
    (hnodes : sentinel base :: blks = m ++ x :: k) (rest : List Blk) :
    exists r, (blks ++ rest).Perm (k ++ r) ∧
      (m = [] ∧ x = sentinel base ∧ r = rest ∨
        exists m', m = sentinel base :: m' ∧ r = x :: (m' ++ rest)) := by
  cases m with
  | nil =>
      rcases List.cons.inj hnodes with ⟨rfl, rfl⟩
      exact ⟨rest, List.Perm.refl _, Or.inl ⟨rfl, rfl, rfl⟩⟩
  | cons a m =>
      rcases List.cons.inj hnodes with ⟨rfl, rfl⟩
      exact ⟨x :: (m ++ rest), perm_around m k rest x, Or.inr ⟨m, rfl, rfl⟩⟩

theorem FreeList.insert (h : FreeList base hdr blks) (hcs : Bounded base cs)
    (htiles : Tiles 8 cs (b :: (blks ++ rest)))
    (hsize : (hdr b.addr).size = b.size) (hx : x ∈ sentinel base :: blks)
    (hstops : Stops hdr b.addr x.addr) :
    exists blks',
      FreeList base (join x.addr b.addr (join b.addr (hdr x.addr).ptr hdr))
        blks' ∧
      (exists x', x' ∈ sentinel base :: blks' ∧ x'.addr = x.addr) ∧
      Tiles 8 cs (blks' ++ rest) ∧ exists c, c ∈ blks' ∧ b.size ≤ c.size := by
  have hbbase := hcs.le_addr htiles (b := b) (by simp)
  have hbstop := hcs.stop_lt htiles (b := b) (by simp)
  rcases h.of_stops (by lia) hx hstops with ⟨m, k, hnodes, hxb, hk⟩
  rcases split_nodes hnodes rest with ⟨r, hr, hm⟩
  have htiles' := htiles.perm (hr.cons b)
  have hxsize := h.size x hx
  have hxstop := stop_le_of_lt htiles hx hxb
  unfold FreeList at h
  rw [hnodes] at h
  -- the list from `b` on
  have hupper := h.after.join hsize
    (fun c hc => hcs.stop_lt htiles' (by simp at hc ⊢; tauto)) hk
    (fun c hc => le_of_lt htiles' hc (hk c hc))
    (Or.inl (by unfold Blk.stop; lia))
  have htilesJ := tiles_joined htiles'
  have hfrom : forall c, c ∈ joined b k -> b.addr ≤ c.addr := fun c hc =>
    addr_le_joined (fun d hd => Nat.le_of_lt (hk d hd)) hc
  -- the list from `x` on
  rcases joined_eq b k with ⟨c, t, hjoined, hcaddr, hcsize, _⟩
  have hlower := hupper.join (b := x)
    (by rw [join_of_ne (Nat.ne_of_lt hxb)]; exact hxsize)
    (by
      intro d hd
      rcases List.mem_cons.mp hd with rfl | hd
      · unfold Blk.stop at *
        lia
      · exact hcs.stop_lt htilesJ (by simp [hd]))
    (fun d hd => Nat.lt_of_lt_of_le hxb (hfrom d hd))
    (fun d hd => Nat.le_trans hxstop (hfrom d hd))
    (Or.inr (by simp [hjoined]))
  have hnew := h.relink hlower
    (by
      intro d hd
      have hlt := h.addr_lt hd
      rw [join_of_ne (Nat.ne_of_lt hlt), join_of_ne (by lia)])
    (fun d hd => addr_le_joined (fun e he =>
      Nat.le_trans (Nat.le_of_lt hxb) (hfrom e he)) hd)
  rcases hm with ⟨rfl, rfl, rfl⟩ | ⟨m, rfl, rfl⟩
  · -- `base` is never joined with the block after it
    have hne : (sentinel base).stop 8 ≠ c.addr := by
      unfold Blk.stop
      lia
    rw [List.nil_append, hjoined, joined_of_ne hne, ← hjoined] at hnew
    exact ⟨joined b k, hnew, ⟨sentinel base, by simp, rfl⟩, htilesJ, c,
      by simp [hjoined], hcsize⟩
  · rcases joined_eq x (joined b k) with ⟨c', t', hjoined', hcaddr', _⟩
    rcases exists_le_joined (b := x) (c := c) (l := joined b k)
      (by simp [hjoined]) with ⟨d, hd, hcd⟩
    have htilesX := tiles_joined (htilesJ.perm List.perm_middle)
    refine ⟨m ++ joined x (joined b k), hnew,
      ⟨c', by simp [hjoined'], hcaddr'⟩, ?_, d, by simp [hd],
      Nat.le_trans hcsize hcd⟩
    rw [List.append_assoc]
    exact htilesX.perm (List.perm_append_comm_assoc ..)

end insert

/-- The free blocks `blks` and the blocks `rest` tile the memory. -/
structure Arena (base : Nat) (h : Heap) (blks rest : List Blk) : Prop where
  list : FreeList base h.hdr blks
  freep : exists x, x ∈ sentinel base :: blks ∧ x.addr = h.freep
  tiles : Tiles 8 h.chunks (blks ++ rest)
  bounded : Bounded base h.chunks

namespace Arena

variable {base : Nat} {h : Heap} {blks rest rest' : List Blk} {b c x : Blk}

theorem perm (ha : Arena base h blks rest) (hp : rest.Perm rest') :
    Arena base h blks rest' :=
  { ha with tiles := ha.tiles.perm (hp.append_left blks) }

theorem addr_ne (ha : Arena base h blks rest)
    (hx : x ∈ sentinel base :: blks) (hb : b ∈ rest) : x.addr ≠ b.addr := by
  have hmem : b ∈ blks ++ rest := List.mem_append_right blks hb
  rcases List.mem_cons.mp hx with rfl | hx
  · have hbase := ha.bounded.le_addr ha.tiles hmem
    dsimp only
    lia
  · have hapart := (List.pairwise_append.mp ha.tiles.apart).2.2 x hx b hb
    exact hapart.addr_ne (by decide)
      (ha.tiles.pos x (List.mem_append_left rest hx)) (ha.tiles.pos b hmem)

theorem free_ends (ha : Arena base h blks (b :: rest))
    (hsize : (h.hdr b.addr).size = b.size) :
    exists fuel h' blks', free fuel (plus b.addr 1) h = some h' ∧
      Arena base h' blks' rest ∧ (exists c, c ∈ blks' ∧ b.size ≤ c.size) ∧
      h'.live = h.live ∧ h'.chunks = h.chunks ∧
      forall c, c ∈ rest -> h'.hdr c.addr = h.hdr c.addr := by
  have htiles := ha.tiles.perm List.perm_middle
  have hbase := ha.bounded.le_addr htiles (b := b) (by simp)
  have hpos := htiles.pos b (by simp)
  have hstop := ha.bounded.stop_lt htiles (b := b) (by simp)
  rcases ha.freep with ⟨x₀, hx₀, hfreep⟩
  rcases ha.list.search_ends (show base < b.addr by lia)
    (fun c hc => ha.addr_ne (List.mem_cons_of_mem _ hc) (by simp)) hx₀ with
    ⟨x, fuel, hx, hstops, hsearch⟩
  rcases ha.list.insert ha.bounded htiles hsize hx hstops with
    ⟨blks', hlist, hx', htiles', hbig⟩
  have hbp : plus b.addr 1 - 8 = b.addr := by
    unfold plus Blk.stop at *
    lia
  rw [hfreep] at hsearch
  refine ⟨fuel, { h with
    hdr := join x.addr b.addr (join b.addr (h.hdr x.addr).ptr h.hdr)
    freep := x.addr }, blks', ?_, ⟨hlist, hx', htiles', ha.bounded⟩, hbig, rfl,
    rfl, ?_⟩
  · unfold free
    simp only [hbp, hsearch]
  · intro c hc
    have hcx : c.addr ≠ x.addr :=
      (ha.addr_ne hx (List.mem_cons_of_mem b hc)).symm
    have hcb : c.addr ≠ b.addr := by
      have hmem : c ∈ blks ++ rest := List.mem_append_right blks hc
      exact ((List.pairwise_cons.mp htiles.apart).1 c hmem).symm.addr_ne
        (by decide) (htiles.pos c (List.mem_cons_of_mem b hmem)) hpos
    dsimp only
    rw [join_of_ne hcx, join_of_ne hcb]

end Arena

/-!
## Taking a block
-/

section take

variable {base n : Nat} {h : Heap} {blks rest : List Blk} {p v : Blk}

theorem replace_after {m k : List Blk}
    (hnodes : sentinel base :: blks = m ++ v :: k) :
    exists r, blks.Perm (k ++ r) ∧ forall k', exists blks',
      sentinel base :: blks' = m ++ v :: k' ∧ blks'.Perm (k' ++ r) := by
  cases m with
  | nil =>
      rcases List.cons.inj hnodes with ⟨rfl, rfl⟩
      exact ⟨[], by simp, fun k' => ⟨k', rfl, by simp⟩⟩
  | cons a m =>
      rcases List.cons.inj hnodes with ⟨rfl, rfl⟩
      have hperm : forall k : List Blk,
          (m ++ v :: k).Perm (k ++ v :: m) := fun k => by
        have h := perm_around m k [] v
        rwa [List.append_nil, List.append_nil] at h
      exact ⟨v :: m, hperm k, fun k' => ⟨m ++ v :: k', rfl, hperm k'⟩⟩

theorem Arena.split_after (ha : Arena base h blks rest)
    (hv : v ∈ sentinel base :: blks)
    (hpos : 0 < (h.hdr (h.hdr v.addr).ptr).size) :
    exists m p k, sentinel base :: blks = m ++ v :: p :: k ∧
      (h.hdr v.addr).ptr = p.addr := by
  rcases List.append_of_mem hv with ⟨m, k, hnodes⟩
  have hlist := ha.list
  unfold FreeList at hlist
  rw [hnodes] at hlist
  cases k with
  | nil =>
      have hptr : (h.hdr v.addr).ptr = base := hlist.after.ring
      have hzero := ha.list.size (sentinel base) (by simp)
      rw [hptr] at hpos
      dsimp only at hzero
      lia
  | cons p k => exact ⟨m, p, k, hnodes, hlist.after.ring.1⟩

theorem Arena.relink {m k k' : List Blk} {q : Blk} {hdr : Headers} {y : Nat}
    (ha : Arena base h blks rest)
    (hnodes : sentinel base :: blks = m ++ v :: k) (live : List Live)
    (hnew : Chain base hdr y k') (hv : hdr v.addr = ⟨y, v.size⟩)
    (hlt : forall c, c ∈ k' -> v.stop 8 < c.addr)
    (hbelow : forall a, a < v.addr -> hdr a = h.hdr a)
    (htiles : forall r, Tiles 8 h.chunks (k ++ r) ->
      Tiles 8 h.chunks (k' ++ q :: r)) :
    exists blks', Arena base ⟨hdr, v.addr, live, h.chunks⟩ blks'
      (q :: rest) := by
  rcases replace_after hnodes with ⟨r, hperm, hreplace⟩
  rcases hreplace k' with ⟨blks', hnodes', hperm'⟩
  refine ⟨blks', ?_, ⟨v, by rw [hnodes']; simp, rfl⟩, ?_, ha.bounded⟩
  · have hlist := ha.list
    unfold FreeList at hlist ⊢
    rw [hnodes] at hlist
    rw [hnodes']
    refine hlist.relink (hnew.cons hv hlt)
      (fun c hc => hbelow c.addr (hlist.addr_lt hc)) ?_
    intro c hc
    rcases List.mem_cons.mp hc with rfl | hc
    · exact Nat.le_refl _
    · exact Nat.le_of_lt (Nat.lt_of_le_of_lt (Nat.le_add_right ..) (hlt c hc))
  · have hold := ha.tiles.perm (hperm.append_right rest)
    rw [List.append_assoc] at hold
    apply (htiles _ hold).perm
    refine List.perm_middle.trans (List.Perm.trans ?_ List.perm_middle.symm)
    rw [← List.append_assoc]
    exact (hperm'.symm.append_right rest).cons q

theorem Arena.take_all {m k : List Blk} (ha : Arena base h blks rest)
    (hnodes : sentinel base :: blks = m ++ v :: p :: k) (live : List Live) :
    exists blks', Arena base
      ⟨Function.update h.hdr v.addr
        ⟨(h.hdr p.addr).ptr, (h.hdr v.addr).size⟩, v.addr, live, h.chunks⟩
      blks' (p :: rest) := by
  have hlist := ha.list
  unfold FreeList at hlist
  rw [hnodes] at hlist
  have hlt : forall c, c ∈ k -> v.stop 8 < c.addr :=
    fun c hc => hlist.stop_lt_of_mem (List.mem_cons_of_mem p hc)
  apply ha.relink hnodes live
    ((Chain.after (m := []) hlist.after).congr (fun c hc => ?_))
  · rw [Function.update_self, hlist.size v (by simp)]
  · exact hlt
  · exact fun a ha => Function.update_of_ne (Nat.ne_of_lt ha) ..
  · exact fun r hr => hr.perm List.perm_middle.symm
  · exact Function.update_of_ne (Nat.ne_of_gt
      (hlist.lt_addr (List.mem_cons_of_mem p hc))) ..

theorem Arena.take_tail {m k : List Blk} {hdr : Headers}
    (ha : Arena base h blks rest)
    (hnodes : sentinel base :: blks = m ++ v :: p :: k) (hn : 0 < n)
    (hlt : n < p.size) (live : List Live)
    (hp : hdr p.addr = ⟨(h.hdr p.addr).ptr, p.size - n⟩)
    (hoff : forall a, a ≠ p.addr -> a ≠ p.addr + 8 * (p.size - n) ->
      hdr a = h.hdr a) :
    exists blks', Arena base ⟨hdr, v.addr, live, h.chunks⟩ blks'
      (⟨p.addr + 8 * (p.size - n), n⟩ :: rest) := by
  have hlist := ha.list
  unfold FreeList at hlist
  rw [hnodes] at hlist
  have hv : v.addr < p.addr := hlist.lt_addr (by simp)
  have hpk : forall c, c ∈ k -> p.addr + 8 * p.size < c.addr :=
    fun c hc => Chain.stop_lt_of_mem (m := []) hlist.after hc
  have hrest : Chain base hdr (h.hdr p.addr).ptr k :=
    (Chain.after (m := []) hlist.after).congr (fun c hc => by
      have hpc := hpk c hc
      exact hoff c.addr (by lia) (by lia))
  have hbelow : forall a, a < p.addr -> hdr a = h.hdr a :=
    fun a ha => hoff a (by lia) (by lia)
  apply ha.relink hnodes live
    (hrest.cons (b := ⟨p.addr, p.size - n⟩) hp (fun c hc => ?_))
  · have hptr : (h.hdr v.addr).ptr = p.addr := hlist.after.ring.1
    rw [hbelow v.addr hv, ← hptr, ← hlist.size v (by simp)]
  · intro c hc
    rcases List.mem_cons.mp hc with rfl | hc
    · exact hlist.stop_lt_of_mem (c := p) (by simp)
    · exact hlist.stop_lt_of_mem (List.mem_cons_of_mem p hc)
  · exact fun a ha => hbelow a (Nat.lt_trans ha hv)
  · intro r hr
    have hcut : Tiles 8 h.chunks (⟨p.addr, p.size - n⟩ ::
        ⟨p.addr + 8 * (p.size - n), n⟩ :: (k ++ r)) := by
      apply Tiles.split _ (by lia) hn
      rw [Nat.sub_add_cancel (Nat.le_of_lt hlt)]
      exact hr
    exact hcut.perm (List.perm_middle.symm.cons _)
  · have hpc := hpk c hc
    unfold Blk.stop
    dsimp only
    lia

theorem Arena.take (nbytes : Nat) (ha : Arena base h blks rest)
    (hv : v ∈ sentinel base :: blks) (hn : 0 < n)
    (hfit : n ≤ (h.hdr (h.hdr v.addr).ptr).size) :
    exists blks' q h', take nbytes n v.addr (h.hdr v.addr).ptr h =
        (q + 8, h') ∧
      Arena base h' blks' (⟨q, n⟩ :: rest) ∧
      h'.live = ⟨⟨q, n⟩, nbytes⟩ :: h.live ∧ (h'.hdr q).size = n ∧
      forall c, c ∈ rest -> (h'.hdr c.addr).size = (h.hdr c.addr).size := by
  rcases ha.split_after hv (by lia) with ⟨m, p, k, hnodes, hptr⟩
  have hmem : p ∈ blks := by
    cases m with
    | nil | cons a m =>
        rw [(List.cons.inj hnodes).2]
        simp
  have hsize := ha.list.size p (List.mem_cons_of_mem _ hmem)
  have hstop := ha.bounded.stop_lt ha.tiles (b := p) (by simp [hmem])
  rw [hptr] at hfit ⊢
  unfold Umalloc.take
  rw [hsize]
  rw [hsize] at hfit
  rcases eq_or_ne p.size n with rfl | hne
  · rw [if_pos rfl]
    rcases ha.take_all hnodes (⟨⟨p.addr, p.size⟩, nbytes⟩ :: h.live) with
      ⟨blks', ha'⟩
    have hsizes : forall a, (Function.update h.hdr v.addr
        ⟨(h.hdr p.addr).ptr, (h.hdr v.addr).size⟩ a).size =
          (h.hdr a).size := by
      intro a
      rcases eq_or_ne a v.addr with rfl | hav
      · rw [Function.update_self]
      · rw [Function.update_of_ne hav]
    refine ⟨blks', p.addr, _, Prod.ext ?_ rfl, ha', rfl, ?_, ?_⟩
    · unfold plus Blk.stop at *
      lia
    · exact (hsizes p.addr).trans hsize
    · exact fun c _ => hsizes c.addr
  · rw [if_neg hne]
    have hq : plus p.addr (p.size - n) = p.addr + 8 * (p.size - n) := by
      unfold plus Blk.stop at *
      lia
    dsimp only
    rw [hq]
    generalize hhdr : Function.update (Function.update h.hdr p.addr
      ⟨(h.hdr p.addr).ptr, p.size - n⟩) (p.addr + 8 * (p.size - n))
      ⟨(Function.update h.hdr p.addr ⟨(h.hdr p.addr).ptr, p.size - n⟩
        (p.addr + 8 * (p.size - n))).ptr, n⟩ = hdr
    have hoff : forall a, a ≠ p.addr -> a ≠ p.addr + 8 * (p.size - n) ->
        hdr a = h.hdr a := by
      intro a hap haq
      rw [← hhdr, Function.update_of_ne haq, Function.update_of_ne hap]
    rcases ha.take_tail hnodes hn (by lia)
      (⟨⟨p.addr + 8 * (p.size - n), n⟩, nbytes⟩ :: h.live)
      (by rw [← hhdr, Function.update_of_ne (by lia), Function.update_self])
      hoff with ⟨blks', ha'⟩
    refine ⟨blks', p.addr + 8 * (p.size - n), _, Prod.ext ?_ rfl, ha', rfl,
      ?_, ?_⟩
    · unfold plus Blk.stop at *
      dsimp only
      lia
    · dsimp only
      rw [← hhdr, Function.update_self]
    · intro c hc
      have hapart := (List.pairwise_append.mp ha.tiles.apart).2.2 p hmem c hc
      have hpos := ha.tiles.pos c (List.mem_append_right blks hc)
      unfold Blk.Apart Blk.stop at hapart
      dsimp only
      rw [hoff c.addr (by lia) (by lia)]

end take

end Umalloc
end Xv6
