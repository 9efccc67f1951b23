import Xv6.User.Umalloc.Blocks

/-!
# The heap under malloc and free
-/

namespace Xv6
namespace Umalloc

open Lib

/-- The live blocks have their sizes in their headers, and room for the bytes
asked for after them. -/
structure Inv (base : Nat) (h : Heap) (blks : List Blk) : Prop where
  arena : Arena base h blks (h.live.map Live.blk)
  size : forall b, b ∈ h.live -> (h.hdr b.blk.addr).size = b.blk.size
  room : forall b, b ∈ h.live -> b.nbytes + 8 ≤ 8 * b.blk.size

section Inv

variable {base n nbytes fuel fuel' : Nat} {sbrk : Nat -> Option Nat}
  {h h' : Heap} {blks blks' : List Blk} {b : Live} {v : Blk}

theorem Inv.of_live (hi : Inv base h blks)
    (ha : Arena base h' blks' (h'.live.map Live.blk))
    (hlive : forall b, b ∈ h'.live -> b ∈ h.live ∧
      (h'.hdr b.blk.addr).size = (h.hdr b.blk.addr).size) :
    Inv base h' blks' where
  arena := ha
  size b hb := (hlive b hb).2.trans (hi.size b (hlive b hb).1)
  room b hb := hi.room b (hlive b hb).1

theorem Inv.free_ends (hi : Inv base h blks) (hb : b ∈ h.live) :
    exists fuel h' blks', free fuel (plus b.blk.addr 1) h = some h' ∧
      Inv base { h' with live := h'.live.erase b } blks' := by
  have hperm : (h.live.map Live.blk).Perm
      (b.blk :: (h.live.erase b).map Live.blk) :=
    (List.perm_cons_erase hb).map Live.blk
  rcases (hi.arena.perm hperm).free_ends (hi.size b hb) with
    ⟨fuel, h', blks', hfree, ha, _, hlive, hchunks, hkeep⟩
  refine ⟨fuel, h', blks', hfree, ?_⟩
  rw [hlive]
  apply hi.of_live
  · exact ⟨ha.list, ha.freep, ha.tiles, ha.bounded⟩
  · intro c hc
    exact ⟨List.mem_of_mem_erase hc,
      congrArg Header.size (hkeep c.blk (List.mem_map_of_mem hc))⟩

theorem Arena.grow {rest : List Blk} {c : Blk} (ha : Arena base h blks rest)
    (hc : 0 < c.size) (hbase : base + 8 ≤ c.addr) (hstop : c.stop 8 < 2 ^ 32)
    (hchunks : forall d, d ∈ h.chunks -> d.stop 8 ≤ c.addr) :
    Arena base { h with
      hdr := Function.update h.hdr c.addr ⟨(h.hdr c.addr).ptr, c.size⟩
      chunks := c :: h.chunks } blks (c :: rest) := by
  have htiles := (ha.tiles.grow hc hchunks).perm List.perm_middle.symm
  have hbounded : Bounded base (c :: h.chunks) := by
    intro d hd
    rcases List.mem_cons.mp hd with rfl | hd
    · exact ⟨hbase, hstop⟩
    · exact ha.bounded d hd
  refine ⟨ha.list.congr ?_, ha.freep, htiles, hbounded⟩
  intro d hd
  apply Function.update_of_ne
  rcases List.mem_cons.mp hd with rfl | hd
  · dsimp only
    lia
  · have hpos := ha.tiles.pos d (List.mem_append_left _ hd)
    have hle := ha.tiles.stop_le hchunks (List.mem_append_left _ hd)
    unfold Blk.stop at hle
    lia

theorem Inv.morecore_ends (hi : Inv base h blks) (hbase : 0 < base)
    (hfresh : Fresh base h.chunks sbrk) (hn : n * 8 < 2 ^ 31) :
    exists fuel p h' blks', morecore sbrk fuel n h = some (p, h') ∧
      Inv base h' blks' ∧ (p = 0 ∨ p = h'.freep ∧ p ≠ 0 ∧
        exists c, c ∈ blks' ∧ n ≤ c.size) := by
  unfold morecore
  have hnu : n ≤ (if n < 4096 then 4096 else n) ∧
      0 < (if n < 4096 then 4096 else n) ∧
        (if n < 4096 then 4096 else n) * 8 < 2 ^ 31 := by
    split
    · lia
    · lia
  generalize (if n < 4096 then 4096 else n) = nu at hnu
  rcases hnu with ⟨hle, hpos, hlt⟩
  have hmod : nu * 8 % 2 ^ 32 = nu * 8 := Nat.mod_eq_of_lt (by lia)
  dsimp only
  rw [hmod]
  cases hsbrk : sbrk (nu * 8) with
  | none => exact ⟨0, 0, h, blks, rfl, hi, Or.inl rfl⟩
  | some a =>
      rcases hfresh (nu * 8) a (by lia) hlt hsbrk with ⟨habove, hend, hold⟩
      have hgrow := hi.arena.grow (c := ⟨a, nu⟩) hpos habove
        (by unfold Blk.stop; dsimp only; lia) hold
      rcases hgrow.free_ends
        (by dsimp only; rw [Function.update_self]) with
        ⟨fuel, h', blks', hfree, ha, ⟨c, hc, hsize⟩, hlive, _, hkeep⟩
      dsimp only at hfree hsize hkeep hlive
      refine ⟨fuel, h'.freep, h', blks', by simp only [hfree],
        hi.of_live (by rw [hlive]; exact ha) ?_,
        Or.inr ⟨rfl, ?_, c, hc, Nat.le_trans hle hsize⟩⟩
      · intro b hb
        rw [hlive] at hb
        have hmem := List.mem_map_of_mem (f := Live.blk) hb
        have hne : b.blk.addr ≠ a := by
          have htiles := hi.arena.tiles
          have hbpos := htiles.pos b.blk (List.mem_append_right blks hmem)
          have hble := htiles.stop_le hold (List.mem_append_right blks hmem)
          unfold Blk.stop at hble
          lia
        rw [hkeep b.blk hmem, Function.update_of_ne hne]
        exact ⟨hb, rfl⟩
      · rcases ha.freep with ⟨x, hx, hfreep⟩
        have := ha.list.base_le hx
        lia

end Inv

/-!
## The loop of `malloc`
-/

section loop

variable {base n nbytes fuel fuel' p y prevp : Nat} {sbrk : Nat -> Option Nat}
  {h : Heap} {blks rest k : List Blk} {v : Blk}

theorem mallocLoop_found (sbrk : Nat -> Option Nat) (nbytes : Nat)
    (hring : Segment Blk.addr (fun a => (h.hdr a).ptr) (h.hdr v.addr).ptr k
      h.freep)
    (hv : v ∈ sentinel base :: blks)
    (hk : forall c, c ∈ k -> c ∈ sentinel base :: blks ∧ c.addr ≠ h.freep)
    (hbig : (exists c, c ∈ k ∧ n ≤ (h.hdr c.addr).size) ∨
      n ≤ (h.hdr h.freep).size) :
    exists fuel w, w ∈ sentinel base :: blks ∧
      n ≤ (h.hdr (h.hdr w.addr).ptr).size ∧
      mallocLoop sbrk nbytes n fuel v.addr (h.hdr v.addr).ptr h =
        some (take nbytes n w.addr (h.hdr w.addr).ptr h) := by
  induction k generalizing v with
  | nil =>
      have hp : (h.hdr v.addr).ptr = h.freep := hring
      have hfit : n ≤ (h.hdr (h.hdr v.addr).ptr).size := by
        rw [hp]
        rcases hbig with ⟨c, hc, _⟩ | hbig
        · cases hc
        · exact hbig
      exact ⟨1, v, hv, hfit, mallocLoop_take hfit⟩
  | cons c k ih =>
      rcases hring with ⟨hp, hring⟩
      rcases Nat.lt_or_ge (h.hdr c.addr).size n with hsmall | hfit
      · have hbig' : (exists c, c ∈ k ∧ n ≤ (h.hdr c.addr).size) ∨
            n ≤ (h.hdr h.freep).size := by
          rcases hbig with ⟨d, hd, hbig⟩ | hbig
          · rcases List.mem_cons.mp hd with rfl | hd
            · lia
            · exact Or.inl ⟨d, hd, hbig⟩
          · exact Or.inr hbig
        rcases ih hring (hk c (by simp)).1
          (fun d hd => hk d (List.mem_cons_of_mem c hd)) hbig' with
          ⟨fuel, w, hw, hfit, hrun⟩
        refine ⟨fuel + 1, w, hw, hfit, ?_⟩
        rw [hp, mallocLoop_next hsmall (hk c (by simp)).2]
        exact hrun
      · rw [← hp] at hfit
        exact ⟨1, v, hv, hfit, mallocLoop_take hfit⟩

theorem mallocLoop_round (sbrk : Nat -> Option Nat) (nbytes fuel prevp : Nat)
    (hring : Segment Blk.addr (fun a => (h.hdr a).ptr) y k h.freep)
    (hk : forall c, c ∈ k -> (h.hdr c.addr).size < n ∧ c.addr ≠ h.freep) :
    exists w, mallocLoop sbrk nbytes n (k.length + fuel) prevp y h =
      mallocLoop sbrk nbytes n fuel w h.freep h := by
  induction k generalizing prevp y with
  | nil =>
      have hy : y = h.freep := hring
      refine ⟨prevp, ?_⟩
      rw [hy, List.length_nil, Nat.zero_add]
  | cons c k ih =>
      rcases hring with ⟨rfl, hring⟩
      rcases hk c (by simp) with ⟨hsmall, hne⟩
      rcases ih c.addr hring
        (fun d hd => hk d (List.mem_cons_of_mem c hd)) with ⟨w, hw⟩
      refine ⟨w, ?_⟩
      rw [List.length_cons, Nat.add_right_comm, mallocLoop_next hsmall hne]
      exact hw

theorem free_mono {ap : Nat} {h' : Heap} (hle : fuel ≤ fuel')
    (hrun : free fuel ap h = some h') : free fuel' ap h = some h' := by
  unfold free at hrun ⊢
  dsimp only at hrun ⊢
  cases hsearch : search (ap - 8) h.hdr fuel h.freep with
  | none =>
      rw [hsearch] at hrun
      cases hrun
  | some p =>
      rw [search_mono hle hsearch]
      rw [hsearch] at hrun
      exact hrun

theorem morecore_mono {r : Nat × Heap} (hle : fuel ≤ fuel')
    (hrun : morecore sbrk fuel n h = some r) :
    morecore sbrk fuel' n h = some r := by
  unfold morecore at hrun ⊢
  dsimp only at hrun ⊢
  cases hsbrk : sbrk ((if n < 4096 then 4096 else n) * 8 % 2 ^ 32) with
  | none =>
      rw [hsbrk] at hrun
      exact hrun
  | some a =>
      rw [hsbrk] at hrun
      dsimp only at hrun ⊢
      split at hrun
      · cases hrun
      case h_2 h' hfree =>
        rw [free_mono hle hfree]
        exact hrun

theorem mallocLoop_mono {r : Nat × Heap} (hle : fuel ≤ fuel')
    (hrun : mallocLoop sbrk nbytes n fuel prevp p h = some r) :
    mallocLoop sbrk nbytes n fuel' prevp p h = some r := by
  induction fuel generalizing fuel' prevp p h with
  | zero => cases hrun
  | succ fuel ih =>
      rcases Nat.exists_eq_add_of_lt (Nat.lt_of_lt_of_le
        (Nat.succ_pos fuel) hle) with ⟨fuel'', hfuel⟩
      rw [Nat.zero_add] at hfuel
      subst hfuel
      have hle' : fuel ≤ fuel'' := Nat.le_of_succ_le_succ hle
      rcases Nat.lt_or_ge (h.hdr p).size n with hsmall | hfit
      · rcases eq_or_ne p h.freep with rfl | hp
        · rw [mallocLoop_more hsmall] at hrun ⊢
          cases hmore : morecore sbrk fuel n h with
          | none =>
              rw [hmore] at hrun
              cases hrun
          | some q =>
              rw [hmore] at hrun
              rw [morecore_mono hle' hmore]
              dsimp only at hrun ⊢
              rcases eq_or_ne q.1 0 with hq | hq
              · rw [if_pos hq] at hrun ⊢
                exact hrun
              · rw [if_neg hq] at hrun ⊢
                exact ih hle' hrun
        · rw [mallocLoop_next hsmall hp] at hrun ⊢
          exact ih hle' hrun
      · rw [mallocLoop_take hfit] at hrun ⊢
        exact hrun

theorem Arena.around (ha : Arena base h blks rest) :
    exists x k, x ∈ sentinel base :: blks ∧ x.addr = h.freep ∧
      Segment Blk.addr (fun a => (h.hdr a).ptr) (h.hdr x.addr).ptr k h.freep ∧
      (x :: k).Perm (sentinel base :: blks) ∧
      forall c, c ∈ k -> c.addr ≠ h.freep := by
  rcases ha.freep with ⟨x, hx, hfreep⟩
  rcases ha.list.rotate hx with ⟨k, hring, hperm⟩
  refine ⟨x, k, hx, hfreep, hfreep ▸ hring.2, hperm, ?_⟩
  have hne : (sentinel base :: blks).Pairwise (fun b c => b.addr ≠ c.addr) :=
    ha.list.gaps.imp (fun {b c} hgap => by unfold Blk.stop at hgap; lia)
  have hne' := (hperm.pairwise_iff (fun h => Ne.symm h)).mpr hne
  intro c hc
  rw [← hfreep]
  exact ((List.pairwise_cons.mp hne').1 c hc).symm

end loop

section malloc

variable {base n nbytes : Nat} {sbrk : Nat -> Option Nat} {h : Heap}
  {blks : List Blk}

def Returned (nbytes r : Nat) (h : Heap) : Prop :=
  exists b, b ∈ h.live ∧ b.nbytes = nbytes ∧ r = b.blk.addr + 8

theorem Inv.take_ends {v : Blk} (hi : Inv base h blks)
    (hv : v ∈ sentinel base :: blks) (hn : 0 < n)
    (hroom : nbytes + 8 ≤ 8 * n)
    (hfit : n ≤ (h.hdr (h.hdr v.addr).ptr).size) :
    exists r h' blks', take nbytes n v.addr (h.hdr v.addr).ptr h = (r, h') ∧
      Inv base h' blks' ∧ Returned nbytes r h' := by
  rcases hi.arena.take nbytes hv hn hfit with
    ⟨blks', q, h', htake, ha, hlive, hq, hsizes⟩
  refine ⟨q + 8, h', blks', htake, ⟨?_, ?_, ?_⟩, ⟨⟨q, n⟩, nbytes⟩, ?_, rfl, rfl⟩
  · rw [hlive]
    exact ha
  · intro b hb
    rw [hlive] at hb
    rcases List.mem_cons.mp hb with rfl | hb
    · exact hq
    · rw [hsizes b.blk (List.mem_map_of_mem hb)]
      exact hi.size b hb
  · intro b hb
    rw [hlive] at hb
    rcases List.mem_cons.mp hb with rfl | hb
    · exact hroom
    · exact hi.room b hb
  · rw [hlive]
    exact List.mem_cons_self

theorem Inv.loop_found (sbrk : Nat -> Option Nat) (hi : Inv base h blks)
    (hn : 0 < n)
    (hroom : nbytes + 8 ≤ 8 * n) (hbig : exists c, c ∈ blks ∧ n ≤ c.size) :
    exists fuel r h' blks',
      mallocLoop sbrk nbytes n fuel h.freep (h.hdr h.freep).ptr h =
        some (r, h') ∧
      Inv base h' blks' ∧ Returned nbytes r h' := by
  rcases hi.arena.around with ⟨x, k, hx, hfreep, hring, hperm, hne⟩
  have hsize := hi.arena.list.size
  rcases hbig with ⟨c, hc, hbig⟩
  have hcsize := hsize c (List.mem_cons_of_mem _ hc)
  have hbig' : (exists c, c ∈ k ∧ n ≤ (h.hdr c.addr).size) ∨
      n ≤ (h.hdr h.freep).size := by
    rcases List.mem_cons.mp (hperm.mem_iff.mpr (List.mem_cons_of_mem _ hc)) with
      rfl | hk
    · right
      rw [← hfreep, hcsize]
      exact hbig
    · left
      exact ⟨c, hk, by rw [hcsize]; exact hbig⟩
  rcases mallocLoop_found sbrk nbytes hring hx
    (fun c hc => ⟨hperm.mem_iff.mp (List.mem_cons_of_mem x hc), hne c hc⟩)
    hbig' with ⟨fuel, w, hw, hfit, hrun⟩
  rcases hi.take_ends hw hn hroom hfit with ⟨r, h', blks', htake, hi', hret⟩
  rw [hfreep, htake] at hrun
  exact ⟨fuel, r, h', blks', hrun, hi', hret⟩

theorem Inv.loop_round (nbytes : Nat) (hi : Inv base h blks) (hn : 0 < n)
    (hsmall : forall c, c ∈ blks -> c.size < n) :
    (h.hdr h.freep).size < n ∧ exists m, forall sbrk fuel, exists w,
      mallocLoop sbrk nbytes n (m + fuel) h.freep (h.hdr h.freep).ptr h =
        mallocLoop sbrk nbytes n fuel w h.freep h := by
  have hsizes : forall c, c ∈ sentinel base :: blks ->
      (h.hdr c.addr).size < n := by
    intro c hc
    rw [hi.arena.list.size c hc]
    rcases List.mem_cons.mp hc with rfl | hc
    · exact hn
    · exact hsmall c hc
  rcases hi.arena.around with ⟨x, k, hx, hfreep, hring, hperm, hne⟩
  have hlast := hsizes x hx
  rw [hfreep] at hlast hring
  refine ⟨hlast, k.length, fun sbrk fuel => ?_⟩
  exact mallocLoop_round sbrk nbytes fuel h.freep hring (fun c hc =>
    ⟨hsizes c (hperm.mem_iff.mp (List.mem_cons_of_mem x hc)), hne c hc⟩)

theorem Inv.loop_ends (hi : Inv base h blks) (hbase : 0 < base)
    (hfresh : Fresh base h.chunks sbrk) (hn : 0 < n) (hlt : n * 8 < 2 ^ 31)
    (hroom : nbytes + 8 ≤ 8 * n) :
    exists fuel r h' blks',
      mallocLoop sbrk nbytes n fuel h.freep (h.hdr h.freep).ptr h =
        some (r, h') ∧
      Inv base h' blks' ∧ (r = 0 ∨ Returned nbytes r h') := by
  rcases Classical.em (exists c, c ∈ blks ∧ n ≤ c.size) with hbig | hsmall
  · rcases hi.loop_found sbrk hn hroom hbig with
      ⟨fuel, r, h', blks', hrun, hi', hret⟩
    exact ⟨fuel, r, h', blks', hrun, hi', Or.inr hret⟩
  rcases hi.loop_round nbytes hn (fun c hc =>
    Nat.lt_of_not_le (fun hle => hsmall ⟨c, hc, hle⟩)) with ⟨hlast, m, hround⟩
  rcases hi.morecore_ends hbase hfresh hlt with
    ⟨fuel₁, p, h₁, blks₁, hmore, hi₁, hp⟩
  rcases hp with rfl | ⟨rfl, hp, hbig⟩
  · rcases hround sbrk (fuel₁ + 1) with ⟨w, hw⟩
    refine ⟨_, 0, h₁, blks₁, hw.trans ?_, hi₁, Or.inl rfl⟩
    rw [mallocLoop_more hlast, hmore]
    exact if_pos rfl
  · rcases hi₁.loop_found sbrk hn hroom hbig with
      ⟨fuel₂, r, h', blks', hrun, hi', hret⟩
    rcases hround sbrk (max fuel₁ fuel₂ + 1) with ⟨w, hw⟩
    refine ⟨_, r, h', blks', hw.trans ?_, hi', Or.inr hret⟩
    rw [mallocLoop_more hlast, morecore_mono (Nat.le_max_left ..) hmore]
    dsimp only
    rw [if_neg hp]
    exact mallocLoop_mono (Nat.le_max_right ..) hrun

end malloc

/-!
## Runs
-/

section runs

variable {base nbytes : Nat} {sbrk : Nat -> Option Nat} {h h' : Heap}
  {blks : List Blk}

/-- No call of `malloc` was made yet, or the list is there. -/
def Ready (base : Nat) (h : Heap) : Prop :=
  (h.freep = 0 ∧ h.live = [] ∧ h.chunks = []) ∨ exists blks, Inv base h blks

theorem Inv.freep_ne (hi : Inv base h blks) (hbase : 0 < base) :
    h.freep ≠ 0 := by
  rcases hi.arena.freep with ⟨x, hx, hfreep⟩
  have hle := hi.arena.list.base_le hx
  lia

theorem Ready.setup (hr : Ready base h) (hbase : 0 < base) :
    (setup base h).chunks = h.chunks ∧
      exists blks, Inv base (setup base h) blks := by
  unfold Umalloc.setup
  rcases hr with ⟨hfreep, hlive, hchunks⟩ | ⟨blks, hi⟩
  · rw [if_pos hfreep]
    refine ⟨rfl, [], ⟨⟨⟨rfl, ?_⟩, ?_, by simp⟩, ⟨sentinel base, by simp, rfl⟩,
      ?_, ?_⟩, ?_, ?_⟩
    · show (Function.update h.hdr base ⟨base, 0⟩ base).ptr = base
      rw [Function.update_self]
    · intro b hb
      rw [List.mem_singleton.mp hb]
      dsimp only
      rw [Function.update_self]
    · dsimp only
      rw [hlive, hchunks]
      exact Tiles.nil
    · dsimp only
      rw [hchunks]
      exact nofun
    · dsimp only
      rw [hlive]
      exact nofun
    · dsimp only
      rw [hlive]
      exact nofun
  · rw [if_neg (hi.freep_ne hbase)]
    exact ⟨rfl, blks, hi⟩

theorem nunits_bounds (hle : nbytes ≤ 2 ^ 31 - 16) :
    nbytes + 8 ≤ 8 * nunits nbytes ∧ nunits nbytes * 8 < 2 ^ 31 := by
  unfold nunits
  lia

theorem Ready.malloc_ends (hr : Ready base h) (hbase : 0 < base)
    (hle : nbytes ≤ 2 ^ 31 - 16) (hfresh : Fresh base h.chunks sbrk) :
    exists fuel r h', malloc base sbrk fuel nbytes h = some (r, h') ∧
      Ready base h' ∧ (r = 0 ∨ Returned nbytes r h') := by
  rcases hr.setup hbase with ⟨hchunks, blks, hi⟩
  rcases nunits_bounds hle with ⟨hroom, hn⟩
  rw [← hchunks] at hfresh
  rcases hi.loop_ends hbase hfresh (by lia) hn hroom with
    ⟨fuel, r, h', blks', hrun, hi', hret⟩
  exact ⟨fuel, r, h', hrun, Or.inr ⟨blks', hi'⟩, hret⟩

theorem malloc_unique {fuel fuel' : Nat} {r r' : Nat × Heap}
    (hrun : malloc base sbrk fuel nbytes h = some r)
    (hrun' : malloc base sbrk fuel' nbytes h = some r') : r = r' := by
  have h₁ := mallocLoop_mono (Nat.le_max_left fuel fuel') hrun
  have h₂ := mallocLoop_mono (Nat.le_max_right fuel fuel') hrun'
  exact Option.some.inj (h₁.symm.trans h₂)

theorem free_unique {fuel fuel' ap : Nat} {h₁ h₂ : Heap}
    (hrun : free fuel ap h = some h₁) (hrun' : free fuel' ap h = some h₂) :
    h₁ = h₂ := by
  have hmax := free_mono (Nat.le_max_left fuel fuel') hrun
  have hmax' := free_mono (Nat.le_max_right fuel fuel') hrun'
  exact Option.some.inj (hmax.symm.trans hmax')

theorem Inv.write {hdr : Headers} (hi : Inv base h blks)
    (hwrite : forall a, hdr a ≠ h.hdr a ->
      exists b, b ∈ h.live ∧ b.blk.addr < a ∧ a < b.blk.stop 8) :
    Inv base { h with hdr := hdr } blks := by
  have htiles := hi.arena.tiles
  have hsame : forall c, c ∈ blks ++ h.live.map Live.blk ->
      hdr c.addr = h.hdr c.addr := by
    intro c hc
    by_contra hne
    rcases hwrite c.addr hne with ⟨b, hb, hlt, hgt⟩
    rcases htiles.outside (List.mem_append_right blks (List.mem_map_of_mem hb))
      hc with hle | hle
    · lia
    · lia
  have hnode : forall c, c ∈ sentinel base :: blks ->
      hdr c.addr = h.hdr c.addr := by
    intro c hc
    rcases List.mem_cons.mp hc with rfl | hc
    · by_contra hne
      rcases hwrite base hne with ⟨b, hb, hlt, _⟩
      have hbase := hi.arena.bounded.le_addr htiles
        (List.mem_append_right blks (List.mem_map_of_mem hb))
      lia
    · exact hsame c (List.mem_append_left _ hc)
  refine hi.of_live ⟨hi.arena.list.congr hnode, hi.arena.freep, htiles,
    hi.arena.bounded⟩ (fun b hb => ⟨hb, congrArg Header.size (hsame b.blk
      (List.mem_append_right blks (List.mem_map_of_mem hb)))⟩)

/-- The program keeps to its blocks and asks for at most `2 ^ 31 - 16` bytes. -/
def Sized (base : Nat) (h : Heap) : Act -> Prop
  | .malloc nbytes sbrk => nbytes ≤ 2 ^ 31 - 16 ∧ Fresh base h.chunks sbrk
  | .free b => Proper base h (.free b)
  | .write hdr => Proper base h (.write hdr)

theorem Proper.sized {a : Act} (ha : Proper base h a) : Sized base h a := by
  cases a with
  | malloc nbytes sbrk =>
      exact ⟨Nat.le_trans (Nat.le_of_lt ha.1) (by decide), ha.2⟩
  | free b | write hdr => exact ha

theorem Ready.step {a : Act} (hr : Ready base h) (hbase : 0 < base)
    (hproper : Sized base h a) (hstep : Step base h a h') :
    Ready base h' := by
  cases hstep with
  | malloc hrun =>
      rcases hr.malloc_ends hbase hproper.1 hproper.2 with
        ⟨_, _, _, hrun', hr', _⟩
      rw [(Prod.mk.inj (malloc_unique hrun hrun')).2]
      exact hr'
  | free hrun =>
      rcases hr with ⟨_, hlive, _⟩ | ⟨blks, hi⟩
      · have hmem : _ ∈ h.live := hproper
        rw [hlive] at hmem
        cases hmem
      · rcases hi.free_ends hproper with ⟨_, h₁, blks', hrun', hi'⟩
        rw [free_unique hrun hrun']
        exact Or.inr ⟨blks', hi'⟩
  | write =>
      rcases hr with hr | ⟨blks, hi⟩
      · exact Or.inl hr
      · exact Or.inr ⟨blks, hi.write hproper⟩

/-- The free list is circular through `base`, its addresses fall only once, its
blocks neither overlap nor touch.  Each unit from `sbrk` is in exactly one block,
free or live.  A live block has the bytes asked for after its header, and no
other block reaches into it. -/
structure Sound (base : Nat) (h : Heap) (blks : List Blk) : Prop where
  ring : Segment Blk.addr (fun a => (h.hdr a).ptr) base (sentinel base :: blks)
    base
  size : forall b, b ∈ sentinel base :: blks -> (h.hdr b.addr).size = b.size
  freep : exists b, b ∈ sentinel base :: blks ∧ b.addr = h.freep
  gaps : (sentinel base :: blks).Pairwise (fun b c => b.stop 8 < c.addr)
  once : forall c u, c ∈ h.chunks -> Blk.HasUnit 8 c u ->
    ExistsUnique (fun b => b ∈ blks ++ h.live.map Live.blk ∧
      Blk.HasUnit 8 b u)
  inside : forall b u, b ∈ blks ++ h.live.map Live.blk ->
    Blk.HasUnit 8 b u -> exists c, c ∈ h.chunks ∧ Blk.HasUnit 8 c u
  apart : (blks ++ h.live.map Live.blk).Pairwise (Blk.Apart 8)
  above : forall b, b ∈ blks ++ h.live.map Live.blk -> base + 8 ≤ b.addr
  usable : forall b, b ∈ h.live -> (h.hdr b.blk.addr).size = b.blk.size ∧
    b.blk.addr + 8 + b.nbytes ≤ b.blk.stop 8

theorem Inv.sound (hi : Inv base h blks) : Sound base h blks where
  ring := hi.arena.list.ring
  size := hi.arena.list.size
  freep := hi.arena.freep
  gaps := hi.arena.list.gaps
  once := by
    intro c u hc hu
    rcases (hi.arena.tiles.units u).mp ⟨c, hc, hu⟩ with ⟨b, hb, hbu⟩
    refine ⟨b, ⟨hb, hbu⟩, ?_⟩
    rintro d ⟨hd, hdu⟩
    exact hi.arena.tiles.unique (by decide) hd hb hdu hbu
  inside := fun b u hb hu => (hi.arena.tiles.units u).mpr ⟨b, hb, hu⟩
  apart := hi.arena.tiles.apart
  above := fun b hb => hi.arena.bounded.le_addr hi.arena.tiles hb
  usable := by
    intro b hb
    have hroom := hi.room b hb
    refine ⟨hi.size b hb, ?_⟩
    unfold Blk.stop
    lia

theorem ready_of_runs {hdr : Headers} (hbase : 0 < base)
    (hruns : Runs (Step base) (Sized base) (start hdr) h) : Ready base h :=
  hruns.invariant (Or.inl ⟨rfl, rfl, rfl⟩)
    (fun _ _ _ hr hproper hstep => hr.step hbase hproper hstep)

theorem heap_sound {hdr : Headers} (hbase : 0 < base)
    (hruns : Runs (Step base) (Proper base) (start hdr) h) :
    ((h.freep = 0 ∧ h.live = [] ∧ h.chunks = []) ∨
      exists blks, Sound base h blks) ∧
    (forall nbytes sbrk, nbytes < 2 ^ 30 -> Fresh base h.chunks sbrk ->
      exists fuel r h', malloc base sbrk fuel nbytes h = some (r, h') ∧
        (r = 0 ∨ Returned nbytes r h')) ∧
    forall b, b ∈ h.live ->
      exists fuel h', free fuel (plus b.blk.addr 1) h = some h' := by
  have hr := ready_of_runs hbase (hruns.mono (fun _ _ h => h.sized))
  refine ⟨?_, ?_, ?_⟩
  · rcases hr with hr | ⟨blks, hi⟩
    · exact Or.inl hr
    · exact Or.inr ⟨blks, hi.sound⟩
  · intro nbytes sbrk hlt hfresh
    rcases hr.malloc_ends hbase (Nat.le_trans (Nat.le_of_lt hlt) (by decide))
      hfresh with ⟨fuel, r, h', hrun, _, hret⟩
    exact ⟨fuel, r, h', hrun, hret⟩
  · intro b hb
    rcases hr with ⟨_, hlive, _⟩ | ⟨blks, hi⟩
    · rw [hlive] at hb
      cases hb
    · rcases hi.free_ends hb with ⟨fuel, h', _, hrun, _⟩
      exact ⟨fuel, h', hrun⟩

/-- A program whose `base` is at 4096 asks for ten bytes, for which `sbrk`
answers 8192, and for twenty bytes, and frees the first block. -/
theorem exists_freed : exists h,
    Runs (Step 4096) (Proper 4096) (start (fun _ => ⟨0, 0⟩)) h ∧
    h.freep ≠ 0 ∧ h.live = [⟨⟨40904, 4⟩, 20⟩] ∧ h.chunks = [⟨8192, 4096⟩] := by
  have hfresh : Fresh 4096 [] (fun _ => some 8192) := by
    rintro n a _ hn ⟨⟩
    exact ⟨by lia, by lia, fun c hc => absurd hc List.not_mem_nil⟩
  have hnone (chunks : List Blk) : Fresh 4096 chunks (fun _ => none) := by
    intro n a _ _ ha
    cases ha
  have hten : Runs (Step 4096) (Proper 4096) (start (fun _ => ⟨0, 0⟩)) _ :=
    Runs.tail (.malloc 10 (fun _ => some 8192)) Runs.refl
      ⟨by decide, hfresh⟩
      (@Step.malloc 4096 _ 10 5 _ _ _ rfl)
  have htwenty := hten.tail (Act.malloc 20 (fun _ => none)) ⟨by decide, hnone _⟩
    (@Step.malloc 4096 _ 20 5 _ _ _ rfl)
  have hfreed := htwenty.tail (Act.free ⟨⟨40936, 3⟩, 10⟩)
    (show _ ∈ [_, _] by decide) (@Step.free 4096 _ 5 _ _ rfl)
  exact ⟨_, hfreed, by decide, rfl, rfl⟩

theorem heap_sound_freed : exists h,
    Runs (Step 4096) (Proper 4096) (start (fun _ => ⟨0, 0⟩)) h ∧
    (exists blks, Sound 4096 h blks) ∧ h.live = [⟨⟨40904, 4⟩, 20⟩] := by
  rcases exists_freed with ⟨h, hruns, hfreep, hlive, _⟩
  refine ⟨h, hruns, ?_, hlive⟩
  rcases (heap_sound (by decide) hruns).1 with ⟨hzero, _⟩ | hsound
  · exact absurd hzero hfreep
  · exact hsound

end runs

end Umalloc
end Xv6
