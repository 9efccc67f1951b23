import Xv6.Proc.UserPages
import Xv6.User.Umalloc.Heap

/-!
# Large sizes

The units are counted and turned into bytes in 32 bits, and `sbrk` takes the
bytes as a signed word.
-/

namespace Xv6
namespace Umalloc

open Lib

section sizes

variable {base n nbytes fuel prevp p r sz : Nat} {sbrk sbrk' : Nat -> Option Nat}
  {h h' : Heap} {blks : List Blk}

/-- The bytes `morecore` asks for. -/
def amount (nu : Nat) : Nat := (if nu < 4096 then 4096 else nu) * 8

/-- `sbrk` as the kernel answers it to a process of `sz` bytes. -/
def Extends (sz : Nat) (sbrk : Nat -> Option Nat) : Prop :=
  forall n a, 0 < n -> n < 2 ^ 31 -> sbrk n = some a ->
    a = sz ∧ sz + n < 2 ^ 31

/-- What a program gets from `sbrk` when the kernel is in the state `k`. -/
def sbrkOf (cur : Pslot) (k : Kernel) (n : Nat) : Option Nat :=
  match Kernel.sysSbrk cur (some (Int32.ofNat n)) k with
  | .ok (r, _) => if r = -1 then none else some (r % 2 ^ 32).toNat
  | .error _ => none

theorem extends_sbrkOf {cur : Pslot} {k : Kernel} {o : Vm.Others}
    {loose : Multiset UInt32} {d : UInt32}
    (hk : Kernel.Fitted o loose cur d k) :
    Extends (k.proc cur).sz.toNat (sbrkOf cur k) := by
  intro n a hpos hlt hsome
  have hn : (Int32.ofNat n).toInt = n := Int32.toInt_ofNat_of_lt hlt
  have hsz : (k.proc cur).sz.toNat < 2 ^ 31 := UInt32.lt_iff_toNat_lt.mp hk.lt
  have hwp : Run.wp (Kernel.sysSbrk cur (some (Int32.ofNat n)))
      (fun r _ => r = -1 ∨
        r = ((k.proc cur).sz.toNat : Int) ∧ (k.proc cur).sz.toNat + n < 2 ^ 31)
      (fun _ => False) k := by
    unfold Kernel.sysSbrk
    simp only [Run.wp_bind, Run.wp_gets]
    apply Run.wp_post (Kernel.wp_growth hk (Int32.ofNat n))
    intro r k' hgrowth
    rcases hgrowth.resized hk (by lia) with ⟨rfl, hnew, htop, _⟩ | ⟨rfl, _⟩
    · have htop' : (k'.proc cur).sz.toNat < 2 ^ 31 :=
        UInt32.lt_iff_toNat_lt.mp htop
      exact Or.inr ⟨toInt_toInt32 hsz, by lia⟩
    · exact Or.inl rfl
  unfold sbrkOf at hsome
  split at hsome
  next r k' hrun =>
    rcases Run.wp_ok hwp hrun with rfl | ⟨rfl, htop⟩
    · cases hsome
    · rw [if_neg (by lia)] at hsome
      refine ⟨?_, htop⟩
      rw [← Option.some.inj hsome]
      lia
  · cases hsome

theorem extends_sbrkOf_boot :
    Extends (Kernel.boot.proc 0).sz.toNat (sbrkOf 0 Kernel.boot) := by
  rcases Kernel.boot_fitted with ⟨o, h⟩
  exact extends_sbrkOf h

/-- The result is `0` or the start of `nbytes` bytes below the size of the
process, apart from the other live blocks. -/
def Answers (base sz : Nat) (h : Heap) (nbytes : Nat)
    (sbrk : Nat -> Option Nat) : Prop :=
  exists fuel r h', malloc base sbrk fuel nbytes h = some (r, h') ∧
    (r = 0 ∨ exists b : Blk, h'.live = ⟨b, nbytes⟩ :: h.live ∧
      r = b.addr + 8 ∧ r + nbytes ≤ b.stop 8 ∧
      (b.stop 8 ≤ sz ∨ sbrk (amount (nunits nbytes)) = some sz ∧
        b.stop 8 ≤ sz + amount (nunits nbytes)) ∧
      forall c, c ∈ h.live -> b.Apart 8 c.blk)

/-- Neither the units nor the bytes wrap, and only a positive amount is asked
for. -/
structure Honours (base sz : Nat) (h : Heap) (nbytes : Nat) : Prop where
  units : nbytes + 8 - 1 < 2 ^ 32
  bytes : amount (nunits nbytes) < 2 ^ 32
  positive : forall sbrk sbrk',
    (forall n, 0 < n -> n < 2 ^ 31 -> sbrk n = sbrk' n) ->
      forall fuel, malloc base sbrk fuel nbytes h =
        malloc base sbrk' fuel nbytes h
  answer : forall sbrk, Extends sz sbrk -> Answers base sz h nbytes sbrk

theorem amount_bounds (hle : nbytes ≤ 2 ^ 31 - 16) :
    0 < amount (nunits nbytes) ∧ amount (nunits nbytes) < 2 ^ 31 := by
  have hbounds := nunits_bounds hle
  unfold amount
  lia

theorem morecore_records {q : Nat × Heap}
    (hrun : morecore sbrk fuel n h = some q) :
    q.2.live = h.live ∧ ((q = (0, h) ∧ sbrk (amount n % 2 ^ 32) = none) ∨
      exists c, q.2.chunks = c :: h.chunks ∧ c.size * 8 = amount n ∧
        sbrk (amount n % 2 ^ 32) = some c.addr) := by
  unfold morecore at hrun
  unfold amount
  dsimp only at hrun
  split at hrun
  case h_1 hnone =>
    cases hrun
    exact ⟨rfl, Or.inl ⟨rfl, hnone⟩⟩
  case h_2 a hsome =>
    unfold free at hrun
    dsimp only at hrun
    split at hrun
    · cases hrun
    case h_2 h₁ hfree =>
      split at hfree
      · cases hfree
      · cases hfree
        cases hrun
        exact ⟨rfl, Or.inr ⟨⟨a, _⟩, rfl, rfl, hsome⟩⟩

theorem mallocLoop_records
    (hrun : mallocLoop sbrk nbytes n fuel prevp p h = some (r, h')) :
    (exists l, h'.chunks = l ++ h.chunks ∧ forall c, c ∈ l ->
      c.size * 8 = amount n ∧ sbrk (amount n % 2 ^ 32) = some c.addr) ∧
    (r = 0 ∨ exists b : Blk, h'.live = ⟨b, nbytes⟩ :: h.live ∧
      r = plus b.addr 1) := by
  induction fuel generalizing prevp p h with
  | zero => cases hrun
  | succ fuel ih =>
      rcases Nat.lt_or_ge (h.hdr p).size n with hsmall | hfit
      · rcases eq_or_ne p h.freep with rfl | hp
        · rw [mallocLoop_more hsmall] at hrun
          cases hmore : morecore sbrk fuel n h with
          | none =>
              rw [hmore] at hrun
              cases hrun
          | some q =>
              rw [hmore] at hrun
              dsimp only at hrun
              rcases morecore_records hmore with ⟨hlive, hq⟩
              have hgot : exists l, q.2.chunks = l ++ h.chunks ∧
                  forall c, c ∈ l -> c.size * 8 = amount n ∧
                    sbrk (amount n % 2 ^ 32) = some c.addr := by
                rcases hq with ⟨rfl, _⟩ | ⟨c, hc, hsbrk⟩
                · exact ⟨[], rfl, nofun⟩
                · exact ⟨[c], hc, by simpa using hsbrk⟩
              rcases eq_or_ne q.1 0 with hq0 | hq0
              · rw [if_pos hq0] at hrun
                cases hrun
                exact ⟨hgot, Or.inl rfl⟩
              · rw [if_neg hq0] at hrun
                rcases ih hrun with ⟨⟨l, hl, hgets⟩, hr⟩
                rcases hgot with ⟨l', hl', hgets'⟩
                rw [hlive] at hr
                refine ⟨⟨l ++ l', ?_, ?_⟩, hr⟩
                · rw [hl, hl', List.append_assoc]
                · intro c hc
                  rcases List.mem_append.mp hc with hc | hc
                  · exact hgets c hc
                  · exact hgets' c hc
        · rw [mallocLoop_next hsmall hp] at hrun
          exact ih hrun
      · rw [mallocLoop_take hfit] at hrun
        unfold take at hrun
        split at hrun
        · cases hrun
          exact ⟨⟨[], rfl, nofun⟩, Or.inr ⟨_, rfl, rfl⟩⟩
        · cases hrun
          exact ⟨⟨[], rfl, nofun⟩, Or.inr ⟨_, rfl, rfl⟩⟩

theorem mallocLoop_congr
    (hsame : sbrk (amount n % 2 ^ 32) = sbrk' (amount n % 2 ^ 32)) :
    mallocLoop sbrk nbytes n fuel prevp p h =
      mallocLoop sbrk' nbytes n fuel prevp p h := by
  have hmore : forall fuel h,
      morecore sbrk fuel n h = morecore sbrk' fuel n h := by
    intro fuel h
    unfold morecore
    unfold amount at hsame
    dsimp only
    rw [hsame]
  induction fuel generalizing prevp p h with
  | zero => rfl
  | succ fuel ih =>
      unfold mallocLoop
      simp only [hmore, ih]

theorem setup_records (base : Nat) (h : Heap) :
    (setup base h).live = h.live ∧ (setup base h).chunks = h.chunks := by
  unfold setup
  split
  · exact ⟨rfl, rfl⟩
  · exact ⟨rfl, rfl⟩

theorem Ready.answer (hr : Ready base h) (hbase : 0 < base)
    (hsz : base + 8 ≤ sz) (hchunks : forall c, c ∈ h.chunks -> c.stop 8 ≤ sz)
    (hle : nbytes ≤ 2 ^ 31 - 16) (hext : Extends sz sbrk) :
    Answers base sz h nbytes sbrk := by
  have hfresh : Fresh base h.chunks sbrk := by
    intro n a hpos hlt hsome
    rcases hext n a hpos hlt hsome with ⟨rfl, htop⟩
    exact ⟨hsz, by lia, hchunks⟩
  rcases hr.malloc_ends hbase hle hfresh with ⟨fuel, r, h', hrun, hr', _⟩
  refine ⟨fuel, r, h', hrun, ?_⟩
  rcases setup_records base h with ⟨hslive, hschunks⟩
  rcases mallocLoop_records hrun with ⟨⟨l, hl, hgets⟩, hret⟩
  rcases hret with rfl | ⟨b, hlive, rfl⟩
  · exact Or.inl rfl
  rw [hslive] at hlive
  rw [hschunks] at hl
  rcases hr' with ⟨_, hnil, _⟩ | ⟨blks, hi⟩
  · rw [hlive] at hnil
    cases hnil
  have htiles := hi.arena.tiles
  have hroom := hi.room ⟨b, nbytes⟩ (by rw [hlive]; simp)
  have hstop := hi.arena.bounded.stop_lt htiles (b := b) (by simp [hlive])
  rw [hlive] at htiles
  have hamount := amount_bounds hle
  rw [Nat.mod_eq_of_lt (by lia)] at hgets
  have hplus : plus b.addr 1 = b.addr + 8 := by
    unfold plus Blk.stop at *
    dsimp only at hroom
    lia
  refine Or.inr ⟨b, hlive, hplus, ?_, ?_, ?_⟩
  · unfold Blk.stop
    dsimp only at hroom
    lia
  · cases l with
    | nil =>
        rw [List.nil_append] at hl
        rw [hl] at htiles
        exact Or.inl (htiles.stop_le hchunks (by simp))
    | cons c l =>
        have hsome := (hgets c (by simp)).2
        have hsize := hext _ _ hamount.1 hamount.2 hsome
        rw [hsize.1] at hsome
        refine Or.inr ⟨hsome, htiles.stop_le ?_ (by simp)⟩
        intro d hd
        rw [hl] at hd
        rcases List.mem_append.mp hd with hd | hd
        · rcases hgets d hd with ⟨hunits, hd⟩
          have haddr := hext _ _ hamount.1 hamount.2 hd
          unfold Blk.stop
          lia
        · exact Nat.le_trans (hchunks d hd) (Nat.le_add_right ..)
  · intro c hc
    have hapart := (List.pairwise_append.mp htiles.apart).2.1
    exact (List.pairwise_cons.mp hapart).1 c.blk (List.mem_map_of_mem hc)

theorem Ready.asks (hr : Ready base h) (hbase : 0 < base) (htop : sz ≤ 2 ^ 31)
    (hchunks : forall c, c ∈ h.chunks -> c.stop 8 ≤ sz)
    (hlarge : 2 ^ 31 ≤ nunits nbytes * 8) (hfit : nunits nbytes * 8 < 2 ^ 32) :
    exists fuel, malloc base (fun _ => none) fuel nbytes h ≠
      malloc base (fun n => if n < 2 ^ 31 then none else some 0) fuel nbytes
        h := by
  rcases hr.setup hbase with ⟨hschunks, blks, hi⟩
  have hsmall : forall c, c ∈ blks -> c.size < nunits nbytes := by
    intro c hc
    have hmem := List.mem_append_left
      ((Umalloc.setup base h).live.map Live.blk) hc
    have hstop := hi.arena.tiles.stop_le (by rw [hschunks]; exact hchunks) hmem
    have haddr := hi.arena.bounded.le_addr hi.arena.tiles hmem
    unfold Blk.stop at hstop
    lia
  rcases hi.loop_round nbytes (by lia) hsmall with ⟨hlast, m, hround⟩
  rcases hround (fun _ => none) 1 with ⟨w, hw⟩
  rcases hround (fun n => if n < 2 ^ 31 then none else some 0) 1 with ⟨w', hw'⟩
  have hmore : morecore (fun n => if n < 2 ^ 31 then none else some 0) 0
      (nunits nbytes) (Umalloc.setup base h) = none := by
    unfold morecore
    dsimp only
    rw [if_neg (show ¬ nunits nbytes < 4096 by lia), Nat.mod_eq_of_lt hfit,
      if_neg (Nat.not_lt.mpr hlarge)]
    rfl
  refine ⟨m + 1, fun heq => ?_⟩
  unfold malloc at heq
  dsimp only at heq
  rw [hw, hw', mallocLoop_more hlast, mallocLoop_more hlast, hmore] at heq
  cases heq

theorem malloc_honours_iff {hdr : Headers} (hbase : 0 < base)
    (hruns : Runs (Step base) (Sized base) (start hdr) h)
    (hsz : base + 8 ≤ sz) (htop : sz ≤ 2 ^ 31)
    (hchunks : forall c, c ∈ h.chunks -> c.stop 8 ≤ sz) :
    Honours base sz h nbytes ↔ nbytes ≤ 2 ^ 31 - 16 := by
  have hr := ready_of_runs hbase hruns
  constructor
  · intro hon
    by_contra hlarge
    have hunits := hon.units
    have hbytes := hon.bytes
    have hnunits : 2 ^ 31 ≤ nunits nbytes * 8 := by
      unfold nunits
      lia
    unfold amount at hbytes
    rw [if_neg (by lia)] at hbytes
    rcases hr.asks hbase htop hchunks hnunits hbytes with ⟨fuel, hne⟩
    apply hne (hon.positive _ _ ?_ fuel)
    intro n _ hlt
    rw [if_pos hlt]
  · intro hle
    have hamount := amount_bounds hle
    refine ⟨by lia, by lia, ?_, ?_⟩
    · intro sbrk sbrk' hsame fuel
      apply mallocLoop_congr
      rw [Nat.mod_eq_of_lt (by lia)]
      exact hsame _ hamount.1 hamount.2
    · exact fun sbrk hext => hr.answer hbase hsz hchunks hle hext

/-- The largest size, after some calls, in a process of 40960 bytes. -/
theorem malloc_honours_largest : exists h,
    Runs (Step 4096) (Sized 4096) (start (fun _ => ⟨0, 0⟩)) h ∧
      h.live = [⟨⟨40904, 4⟩, 20⟩] ∧ Honours 4096 40960 h (2 ^ 31 - 16) := by
  rcases exists_freed with ⟨h, hruns, _, hlive, hchunks⟩
  have hsized := hruns.mono (fun _ _ ha => ha.sized)
  refine ⟨h, hsized, hlive, (malloc_honours_iff (by decide) hsized (by decide)
    (by decide) ?_).mpr (by decide)⟩
  rw [hchunks]
  decide

/-- For the largest word `malloc` returns a block of a header only, where the
memory ends. -/
theorem malloc_wraps :
    Extends 8192 (fun n => if n < 2 ^ 30 then some 8192 else none) ∧
    (exists h', malloc 4096 (fun n => if n < 2 ^ 30 then some 8192 else none) 5
        (2 ^ 32 - 1) (start (fun _ => ⟨0, 0⟩)) = some (8192 + 32768, h') ∧
      h'.live = [⟨⟨40952, 1⟩, 2 ^ 32 - 1⟩]) ∧
    ¬ Honours 4096 8192 (start (fun _ => ⟨0, 0⟩)) (2 ^ 32 - 1) := by
  refine ⟨?_, ⟨_, rfl, rfl⟩, fun hon => absurd hon.units (by decide)⟩
  intro n a _ _ hsome
  dsimp only at hsome
  split at hsome
  case isTrue hlt =>
    cases hsome
    exact ⟨rfl, by lia⟩
  · cases hsome

end sizes

end Umalloc
end Xv6
