import Xv6.Ide
import Xv6.Lib.Table

/-!
# The buffer cache

`bget`, `bread`, `bwrite` and `brelse` of `bio.c`, used by any number of
processes; one that has several buffers counts once for each of them.  What is
done under `bcache.lock` is one step, and so is taking or giving back a sleep
lock.  The list through `next` is a list here, and the disk is that of
`memide.c`.  To its users the cache is a memory of blocks, as the models of the
log and the file system have it.
-/

namespace Xv6
namespace Bcache

open Lib Ide

/-- A buffer that a process uses, and the block that it asked for. -/
structure Use where
  b : Bslot
  dev : UInt32
  blockno : UInt32

inductive Pc where
  | out
  /-- `bget` has counted the process, which waits for the sleep lock. -/
  | wants (u : Use)
  | has (u : Use)
  /-- `brelse` has released the sleep lock. -/
  | leaves (u : Use)

def Pc.use : Pc -> Option Use
  | out => none
  | wants u | has u | leaves u => some u

structure State (ι : Type) where
  buf : Bslot -> Buf
  refcnt : Bslot -> Nat
  /-- From `bcache.head.next` on. -/
  lru : List Bslot
  owner : Bslot -> Option ι
  disk : Disk
  pc : ι -> Pc

variable {ι : Type} [DecidableEq ι]

namespace State

/-- The state after `binit`: each buffer is put in front of those before it. -/
def start (disk : Disk) : State ι where
  buf := fun _ => ⟨false, false, 0, 0, fun _ => 0⟩
  refcnt := fun _ => 0
  lru := (List.finRange NBUF).reverse
  owner := fun _ => none
  disk := disk
  pc := fun _ => .out

def goto (s : State ι) (p : ι) (pc : Pc) : State ι :=
  { s with pc := Function.update s.pc p pc }

/-- `bget` up to the release of `bcache.lock`; there is no result if it
panics. -/
def bget (s : State ι) (dev blockno : UInt32) : Option (Bslot × State ι) :=
  match s.lru.find? (fun b =>
    (s.buf b).dev = dev ∧ (s.buf b).blockno = blockno) with
  | some b =>
      some (b, { s with
        refcnt := Function.update s.refcnt b (s.refcnt b + 1) })
  | none =>
      match s.lru.reverse.find? (fun b =>
        s.refcnt b = 0 ∧ (s.buf b).dirty = false) with
      | some b =>
          some (b, { s with
            buf := Function.update s.buf b
              ⟨false, false, dev, blockno, (s.buf b).data⟩
            refcnt := Function.update s.refcnt b 1 })
      | none => none

/-- `brelse` from where it acquires `bcache.lock`. -/
def unref (s : State ι) (b : Bslot) : State ι :=
  { s with
    refcnt := Function.update s.refcnt b (s.refcnt b - 1)
    lru := if s.refcnt b - 1 = 0 then b :: s.lru.erase b else s.lru }

def setBuf (s : State ι) (b : Bslot) (x : Buf) : State ι :=
  { s with buf := Function.update s.buf b x }

end State

inductive Act (ι : Type) where
  | bget (p : ι) (dev blockno : UInt32)
  | acquiresleep (p : ι)
  | iderw (p : ι)
  | modify (p : ι) (data : Block)
  | logWrite (p : ι)
  | bwrite (p : ι)
  | releasesleep (p : ι)
  | unref (p : ι)

/-- `iderw` is the call in `bread`.  A process works on its buffer after `bread`
has returned; what it does with the data is up to it. -/
inductive Step (s : State ι) : Act ι -> State ι -> Prop where
  | bget {p : ι} {u : Use} {s' : State ι} (hpc : s.pc p = .out)
      (hget : s.bget u.dev u.blockno = some (u.b, s')) :
      Step s (.bget p u.dev u.blockno) (s'.goto p (.wants u))
  | acquiresleep {p : ι} {u : Use} (hpc : s.pc p = .wants u)
      (hfree : s.owner u.b = none) :
      Step s (.acquiresleep p)
        { s.goto p (.has u) with
          owner := Function.update s.owner u.b (some p) }
  | iderw {p : ι} {u : Use} {x : Buf} {disk : Disk} (hpc : s.pc p = .has u)
      (hvalid : (s.buf u.b).valid = false)
      (hrw : Memide.iderw (s.owner u.b = some p) (s.buf u.b) s.disk =
        .ok (x, disk)) :
      Step s (.iderw p) { s.setBuf u.b x with disk := disk }
  | modify {p : ι} {u : Use} (data : Block) (hpc : s.pc p = .has u)
      (hvalid : (s.buf u.b).valid = true) :
      Step s (.modify p data)
        (s.setBuf u.b { s.buf u.b with data := data })
  | logWrite {p : ι} {u : Use} (hpc : s.pc p = .has u)
      (hvalid : (s.buf u.b).valid = true) :
      Step s (.logWrite p) (s.setBuf u.b { s.buf u.b with dirty := true })
  | bwrite {p : ι} {u : Use} {x : Buf} {disk : Disk} (hpc : s.pc p = .has u)
      (hvalid : (s.buf u.b).valid = true)
      (hrw : Memide.iderw (s.owner u.b = some p)
        { s.buf u.b with dirty := true } s.disk = .ok (x, disk)) :
      Step s (.bwrite p) { s.setBuf u.b x with disk := disk }
  | releasesleep {p : ι} {u : Use} (hpc : s.pc p = .has u)
      (hvalid : (s.buf u.b).valid = true) :
      Step s (.releasesleep p)
        { s.goto p (.leaves u) with
          owner := Function.update s.owner u.b none }
  | unref {p : ι} {u : Use} (hpc : s.pc p = .leaves u) :
      Step s (.unref p) ((s.unref u.b).goto p .out)

/-- What was changed has been written, or marked for the log, when the buffer is
released. -/
def Written (s : State ι) : Act ι -> Prop
  | .releasesleep p => forall u, s.pc p = .has u ->
      (s.buf u.b).dirty = true ∨
        (s.buf u.b).data = s.disk (s.buf u.b).blockno.toNat
  | _ => True

/-- The blocks as the processes wrote them. -/
abbrev Memory : Type := UInt32 -> Block

/-- What an action means for the blocks: only `modify` changes one. -/
def Act.apply (s : State ι) (m : Memory) : Act ι -> Memory
  | .modify p data =>
      match s.pc p with
      | .has u => Function.update m u.blockno data
      | _ => m
  | _ => m

/-- A step of the cache beside the step of the blocks. -/
def Both (x : State ι × Memory) (a : Act ι) (y : State ι × Memory) : Prop :=
  Step x.1 a y.1 ∧ y.2 = a.apply x.1 x.2

def Pc.weight (b : Bslot) (pc : Pc) : Nat :=
  if pc.use.map Use.b = some b then 1 else 0

structure Inv [Fintype ι] (s : State ι) (m : Memory) : Prop where
  nodup : s.lru.Nodup
  mem : forall b, b ∈ s.lru
  refcnt : forall b, s.refcnt b = Finset.univ.sum (fun p => (s.pc p).weight b)
  asked : forall p u, (s.pc p).use = some u ->
    (s.buf u.b).dev = u.dev ∧ (s.buf u.b).blockno = u.blockno
  owner : forall p b, s.owner b = some p ↔ exists u, s.pc p = .has u ∧ u.b = b
  one : forall b c, (s.buf b).dev ≠ 0 -> (s.buf c).dev = (s.buf b).dev ->
    (s.buf c).blockno = (s.buf b).blockno -> c = b
  flags : forall b, (s.buf b).valid = false -> (s.buf b).dirty = false
  dev : forall b, (s.buf b).valid = true -> (s.buf b).dev = 1
  shows : forall b, (s.buf b).valid = true ->
    (s.buf b).data = m (s.buf b).blockno
  -- a block that differs from the disk is in a buffer that is not recycled
  differs : forall n, m n ≠ s.disk n.toNat -> exists b,
    (s.buf b).valid = true ∧ (s.buf b).blockno = n ∧
      ((s.buf b).dirty = true ∨ s.owner b ≠ none)

section Invariant

variable [Fintype ι] {s : State ι} {m : Memory} {p : ι} {u : Use}

omit [DecidableEq ι] in
theorem start_inv (disk : Disk) :
    Inv (State.start disk : State ι) (fun n => disk n.toNat) where
  nodup := List.nodup_reverse.mpr (List.nodup_finRange NBUF)
  mem b := by simp [State.start]
  refcnt b := by simp [State.start, Pc.weight, Pc.use]
  asked p u hu := by simp [State.start, Pc.use] at hu
  owner p b := by simp [State.start]
  one b c hb := by simp [State.start] at hb
  flags b _ := rfl
  dev b hb := by simp [State.start] at hb
  shows b hb := by simp [State.start] at hb
  differs n hn := absurd rfl hn

theorem weight_of_use {pc : Pc} {u : Use} (h : pc.use = some u) (b : Bslot) :
    pc.weight b = if u.b = b then 1 else 0 := by
  simp [Pc.weight, h]

theorem Inv.sum_goto (h : Inv s m) (pc : Pc) (b : Bslot) :
    Finset.univ.sum (fun q => (Function.update s.pc p pc q).weight b) +
      (s.pc p).weight b = s.refcnt b + pc.weight b := by
  rw [h.refcnt]
  exact sum_update (Pc.weight b) s.pc pc (Finset.mem_univ p)

omit [DecidableEq ι] in
theorem Inv.unused (h : Inv s m) {b : Bslot} (hb : s.refcnt b = 0) (q : ι)
    {v : Use} (hv : (s.pc q).use = some v) : v.b ≠ b := by
  intro hvb
  rw [h.refcnt, Finset.sum_eq_zero_iff] at hb
  have hzero := hb q (Finset.mem_univ q)
  simp [weight_of_use hv, hvb] at hzero

theorem Inv.asked_goto (h : Inv s m) {pc : Pc}
    (hp : pc.use = none ∨ pc.use = (s.pc p).use) (q : ι) (v : Use)
    (hv : (Function.update s.pc p pc q).use = some v) :
    (s.buf v.b).dev = v.dev ∧ (s.buf v.b).blockno = v.blockno := by
  by_cases hq : q = p
  · subst hq
    rw [Function.update_self] at hv
    rcases hp with hp | hp
    · simp [hp] at hv
    · exact h.asked q v (hp ▸ hv)
  · rw [Function.update_of_ne hq] at hv
    exact h.asked q v hv

theorem Inv.refcnt_goto (h : Inv s m) {pc : Pc} (hp : pc.use = (s.pc p).use)
    (b : Bslot) : s.refcnt b =
      Finset.univ.sum (fun q => (Function.update s.pc p pc q).weight b) := by
  have hsum := h.sum_goto (p := p) pc b
  simp only [Pc.weight, hp] at hsum ⊢
  lia

theorem Inv.owner_goto (h : Inv s m) {pc : Pc}
    (hold : forall v, s.pc p ≠ .has v) (hnew : forall v, pc ≠ .has v)
    (q : ι) (b : Bslot) :
    s.owner b = some q ↔
      exists v, Function.update s.pc p pc q = .has v ∧ v.b = b := by
  rw [h.owner]
  by_cases hq : q = p
  · subst hq
    simp [hold, hnew]
  · rw [Function.update_of_ne hq]

/-- A process gets or gives back the sleep lock of the buffer that it uses. -/
theorem Inv.owner_set (h : Inv s m) (hu : (s.pc p).use = some u) {pc : Pc}
    {o : Option ι} (hold : s.owner u.b = none ∨ s.owner u.b = some p)
    (hnew : o = some p ∧ pc = .has u ∨ o = none ∧ forall v, pc ≠ .has v)
    (q : ι) (b : Bslot) : Function.update s.owner u.b o b = some q ↔
      exists v, Function.update s.pc p pc q = .has v ∧ v.b = b := by
  by_cases hq : q = p
  · subst hq
    rw [Function.update_self]
    by_cases hb : b = u.b
    · subst hb
      rw [Function.update_self]
      rcases hnew with ⟨rfl, rfl⟩ | ⟨rfl, hpc⟩
      · simp
      · simp [hpc]
    · rw [Function.update_of_ne hb, h.owner]
      constructor
      · intro hv
        rcases hv with ⟨v, hv, rfl⟩
        rw [hv] at hu
        cases hu
        exact absurd rfl hb
      · intro hv
        rcases hv with ⟨v, hv, rfl⟩
        rcases hnew with ⟨-, rfl⟩ | ⟨-, hpc⟩
        · cases hv
          exact absurd rfl hb
        · exact absurd hv (hpc v)
  · rw [Function.update_of_ne hq]
    by_cases hb : b = u.b
    · subst hb
      rw [← h.owner, Function.update_self]
      have hother : s.owner u.b ≠ some q := by
        rcases hold with ho | ho
        · simp [ho]
        · simp [ho, Ne.symm hq]
      rcases hnew with ⟨rfl, -⟩ | ⟨rfl, -⟩
      · simp [hother, Ne.symm hq]
      · simp [hother]
    · rw [Function.update_of_ne hb, h.owner]

theorem Inv.acquiresleep (h : Inv s m) (hpc : s.pc p = .wants u)
    (hfree : s.owner u.b = none) :
    Inv { s.goto p (.has u) with
      owner := Function.update s.owner u.b (some p) } m where
  nodup := h.nodup
  mem := h.mem
  refcnt := h.refcnt_goto (by rw [hpc]; rfl)
  asked := h.asked_goto (.inr (by rw [hpc]; rfl))
  owner := h.owner_set (by rw [hpc]; rfl) (.inl hfree) (.inl ⟨rfl, rfl⟩)
  one := h.one
  flags := h.flags
  dev := h.dev
  shows := h.shows
  differs n hn := by
    rcases h.differs n hn with ⟨b, hvalid, hblock, hb⟩
    refine ⟨b, hvalid, hblock, hb.imp_right ?_⟩
    intro howner
    rcases eq_or_ne b u.b with rfl | hbu
    · exact absurd hfree howner
    · simpa [State.goto, hbu] using howner

theorem Inv.releasesleep (h : Inv s m) (hpc : s.pc p = .has u)
    (hwritten : (s.buf u.b).dirty = true ∨
      (s.buf u.b).data = s.disk (s.buf u.b).blockno.toNat) :
    Inv { s.goto p (.leaves u) with
      owner := Function.update s.owner u.b none } m where
  nodup := h.nodup
  mem := h.mem
  refcnt := h.refcnt_goto (by rw [hpc]; rfl)
  asked := h.asked_goto (.inr (by rw [hpc]; rfl))
  owner := h.owner_set (by rw [hpc]; rfl)
    (.inr ((h.owner p u.b).mpr ⟨u, hpc, rfl⟩)) (.inr ⟨rfl, by simp⟩)
  one := h.one
  flags := h.flags
  dev := h.dev
  shows := h.shows
  differs n hn := by
    rcases h.differs n hn with ⟨b, hb, hblock, hkept⟩
    by_cases hbu : b = u.b
    · subst hbu
      rcases hwritten with hdirty | hdata
      · exact ⟨_, hb, hblock, .inl hdirty⟩
      · rw [h.shows _ hb, hblock] at hdata
        exact absurd hdata hn
    · exact ⟨b, hb, hblock, by simpa [State.goto, hbu] using hkept⟩

omit [DecidableEq ι] [Fintype ι] in
theorem setBuf_names {b : Bslot} {x : Buf} {disk : Disk}
    (hdev : x.dev = (s.buf b).dev) (hblock : x.blockno = (s.buf b).blockno)
    (c : Bslot) :
    (({ s.setBuf b x with disk := disk } : State ι).buf c).dev =
        (s.buf c).dev ∧
      (({ s.setBuf b x with disk := disk } : State ι).buf c).blockno =
        (s.buf c).blockno := by
  rcases eq_or_ne c b with rfl | hc
  · simp [State.setBuf, hdev, hblock]
  · simp [State.setBuf, hc]

omit [DecidableEq ι] in
/-- What a process does to a buffer that it has locked, and to the block of
it. -/
theorem Inv.setBuf (h : Inv s m) (hpc : s.pc p = .has u) {x : Buf}
    {disk : Disk} {m' : Memory} (hvalid : x.valid = true)
    (hone : (s.buf u.b).dev = 1) (hdev : x.dev = (s.buf u.b).dev)
    (hblock : x.blockno = (s.buf u.b).blockno) (hdata : x.data = m' x.blockno)
    (hm : forall n, n ≠ x.blockno -> m' n = m n)
    (hdisk : forall n : UInt32, n ≠ x.blockno ->
      disk n.toNat = s.disk n.toNat) :
    Inv { s.setBuf u.b x with disk := disk } m' where
  nodup := h.nodup
  mem := h.mem
  refcnt := h.refcnt
  asked q v hv := by
    rw [(setBuf_names hdev hblock v.b).1, (setBuf_names hdev hblock v.b).2]
    exact h.asked q v hv
  owner := h.owner
  one b c := by
    rw [(setBuf_names hdev hblock b).1, (setBuf_names hdev hblock b).2,
      (setBuf_names hdev hblock c).1, (setBuf_names hdev hblock c).2]
    exact h.one b c
  flags b := by
    rcases eq_or_ne b u.b with rfl | hb
    · simp [State.setBuf, hvalid]
    · simpa [State.setBuf, hb] using h.flags b
  dev b := by
    rw [(setBuf_names hdev hblock b).1]
    rcases eq_or_ne b u.b with rfl | hb
    · exact fun _ => hone
    · simpa [State.setBuf, hb] using h.dev b
  shows b hb := by
    by_cases hbu : b = u.b
    · simpa [State.setBuf, hbu] using hdata
    · simp only [State.setBuf, Function.update_of_ne hbu] at hb ⊢
      rw [hm _ ?_]
      · exact h.shows b hb
      · intro hsame
        have hdevs := (h.dev b hb).trans hone.symm
        exact hbu (h.one u.b b (by simp [hone]) hdevs (hsame.trans hblock))
  differs n hn := by
    have howner := (h.owner p u.b).mpr ⟨u, hpc, rfl⟩
    by_cases hnx : n = x.blockno
    · exact ⟨u.b, by simp [State.setBuf, hvalid, hnx, howner]⟩
    · rw [hm n hnx] at hn
      have hold : m n ≠ s.disk n.toNat := by
        simpa [hdisk n hnx] using hn
      rcases h.differs n hold with ⟨b, hb, hbn, hkept⟩
      have hbu : b ≠ u.b := by
        intro hbu
        subst hbu
        exact hnx (hbn.symm.trans hblock.symm)
      exact ⟨b, by simpa [State.setBuf, hbu, hb, hbn] using hkept⟩

theorem iderw_ok {held : Bool} {b x : Buf} {d d' : Disk}
    (h : Memide.iderw held b d = .ok (x, d')) :
    b.dev = 1 ∧ Memide.sync b d = (x, d') := by
  unfold Memide.iderw at h
  split_ifs at h with _ _ hdev
  exact ⟨by simpa using hdev, Except.ok.inj h⟩

omit [DecidableEq ι] [Fintype ι] in
theorem bget_cases {dev blockno : UInt32} {b : Bslot} {s' : State ι}
    (h : s.bget dev blockno = some (b, s')) :
    ((s.buf b).dev = dev ∧ (s.buf b).blockno = blockno ∧
      s' = { s with
        refcnt := Function.update s.refcnt b (s.refcnt b + 1) }) ∨
    ((forall c, c ∈ s.lru ->
        ¬((s.buf c).dev = dev ∧ (s.buf c).blockno = blockno)) ∧
      s.refcnt b = 0 ∧ (s.buf b).dirty = false ∧
      s' = { s with
        buf := Function.update s.buf b
          ⟨false, false, dev, blockno, (s.buf b).data⟩
        refcnt := Function.update s.refcnt b (s.refcnt b + 1) }) := by
  unfold State.bget at h
  split at h
  · rename_i c hc
    cases h
    have hfound := List.find?_some hc
    simp only [decide_eq_true_eq] at hfound
    exact .inl ⟨hfound.1, hfound.2, rfl⟩
  · rename_i hnone
    split at h
    · rename_i c hc
      cases h
      have hfound := List.find?_some hc
      simp only [decide_eq_true_eq] at hfound
      refine .inr ⟨?_, hfound.1, hfound.2, by rw [hfound.1]⟩
      simpa using hnone
    · cases h

theorem Inv.refcnt_enter (h : Inv s m) (hpc : s.pc p = .out) (c : Bslot) :
    Function.update s.refcnt u.b (s.refcnt u.b + 1) c = Finset.univ.sum
      (fun q => (Function.update s.pc p (.wants u) q).weight c) := by
  have hsum := h.sum_goto (p := p) (.wants u) c
  rw [hpc, weight_of_use (show (Pc.wants u).use = some u from rfl)] at hsum
  by_cases hc : c = u.b
  · subst hc
    simp [Pc.weight, Pc.use] at hsum ⊢
    exact hsum.symm
  · simp [Pc.weight, Pc.use, hc, Ne.symm hc] at hsum ⊢
    exact hsum.symm

theorem Inv.hit (h : Inv s m) (hpc : s.pc p = .out)
    (hdev : (s.buf u.b).dev = u.dev)
    (hblock : (s.buf u.b).blockno = u.blockno) :
    Inv (State.goto { s with
      refcnt := Function.update s.refcnt u.b (s.refcnt u.b + 1) }
        p (.wants u)) m where
  nodup := h.nodup
  mem := h.mem
  refcnt := h.refcnt_enter hpc
  asked q v hv := by
    by_cases hq : q = p
    · subst hq
      simp [State.goto, Pc.use] at hv
      subst hv
      exact ⟨hdev, hblock⟩
    · simp only [State.goto, Function.update_of_ne hq] at hv
      exact h.asked q v hv
  owner := h.owner_goto (by simp [hpc]) (by simp)
  one := h.one
  flags := h.flags
  dev := h.dev
  shows := h.shows
  differs := h.differs

/-- A buffer that nobody uses and that is not dirty gets a block that no buffer
has. -/
theorem Inv.recycle (h : Inv s m) (hpc : s.pc p = .out)
    (hmiss : forall c, c ∈ s.lru ->
      ¬((s.buf c).dev = u.dev ∧ (s.buf c).blockno = u.blockno))
    (hfree : s.refcnt u.b = 0) (hclean : (s.buf u.b).dirty = false) :
    Inv (State.goto { s with
      buf := Function.update s.buf u.b
        ⟨false, false, u.dev, u.blockno, (s.buf u.b).data⟩
      refcnt := Function.update s.refcnt u.b (s.refcnt u.b + 1) }
        p (.wants u)) m where
  nodup := h.nodup
  mem := h.mem
  refcnt := h.refcnt_enter hpc
  asked q v hv := by
    by_cases hq : q = p
    · subst hq
      simp [State.goto, Pc.use] at hv
      subst hv
      simp [State.goto]
    · simp only [State.goto, Function.update_of_ne hq] at hv
      simpa [State.goto, h.unused hfree q hv] using h.asked q v hv
  owner := h.owner_goto (by simp [hpc]) (by simp)
  one b c hb hdev hblock := by
    by_cases hbu : b = u.b
    · by_cases hcu : c = u.b
      · exact hcu.trans hbu.symm
      · simp only [State.goto, hbu, Function.update_self,
          Function.update_of_ne hcu] at hdev hblock
        exact absurd ⟨hdev, hblock⟩ (hmiss c (h.mem c))
    · by_cases hcu : c = u.b
      · simp only [State.goto, hcu, Function.update_self,
          Function.update_of_ne hbu] at hdev hblock
        exact absurd ⟨hdev.symm, hblock.symm⟩ (hmiss b (h.mem b))
      · simp only [State.goto, Function.update_of_ne hbu,
          Function.update_of_ne hcu] at hb hdev hblock
        exact h.one b c hb hdev hblock
  flags b := by
    rcases eq_or_ne b u.b with rfl | hb
    · simp [State.goto]
    · simpa [State.goto, hb] using h.flags b
  dev b := by
    rcases eq_or_ne b u.b with rfl | hb
    · simp [State.goto]
    · simpa [State.goto, hb] using h.dev b
  shows b := by
    rcases eq_or_ne b u.b with rfl | hb
    · simp [State.goto]
    · simpa [State.goto, hb] using h.shows b
  differs n hn := by
    rcases h.differs n hn with ⟨b, hb, hbn, hkept⟩
    have hbu : b ≠ u.b := by
      intro hbu
      subst hbu
      rcases hkept with hdirty | howner
      · simp [hclean] at hdirty
      · rcases Option.ne_none_iff_exists'.mp howner with ⟨q, hq⟩
        rcases (h.owner q _).mp hq with ⟨v, hv, hvb⟩
        exact h.unused hfree q (by rw [hv]; rfl) hvb
    exact ⟨b, by simpa [State.goto, hbu, hb, hbn] using hkept⟩

theorem Inv.unref (h : Inv s m) (hpc : s.pc p = .leaves u) :
    Inv ((s.unref u.b).goto p .out) m where
  nodup := by
    simp only [State.goto, State.unref]
    split_ifs
    · exact List.nodup_cons.mpr
        ⟨h.nodup.not_mem_erase, h.nodup.erase u.b⟩
    · exact h.nodup
  mem b := by
    have hb := h.mem b
    simp only [State.goto, State.unref]
    split_ifs
    · by_cases hbu : b = u.b
      · simp [hbu]
      · exact List.mem_cons_of_mem _ ((List.mem_erase_of_ne hbu).mpr hb)
    · exact hb
  refcnt b := by
    have hsum := h.sum_goto (p := p) .out b
    rw [hpc, weight_of_use (show (Pc.leaves u).use = some u from rfl)] at hsum
    by_cases hb : b = u.b
    · subst hb
      simp [State.goto, State.unref, Pc.weight, Pc.use] at hsum ⊢
      lia
    · simp [State.goto, State.unref, Pc.weight, Pc.use, hb, Ne.symm hb]
        at hsum ⊢
      exact hsum.symm
  asked := h.asked_goto (.inl rfl)
  owner := h.owner_goto (by simp [hpc]) (by simp)
  one := h.one
  flags := h.flags
  dev := h.dev
  shows := h.shows
  differs := h.differs

theorem step_inv {a : Act ι} {s' : State ι} (h : Inv s m)
    (hwritten : Written s a) (hstep : Step s a s') :
    Inv s' (a.apply s m) := by
  cases hstep with
  | bget hpc hget =>
      rcases bget_cases hget with ⟨hdev, hblock, rfl⟩ |
        ⟨hmiss, hfree, hclean, rfl⟩
      · exact h.hit hpc hdev hblock
      · exact h.recycle hpc hmiss hfree hclean
  | acquiresleep hpc hfree => exact h.acquiresleep hpc hfree
  | iderw hpc hvalid hrw =>
      rename_i p u x disk
      rcases iderw_ok hrw with ⟨hdev, hsync⟩
      simp only [Memide.sync, h.flags _ hvalid] at hsync
      cases hsync
      refine h.setBuf hpc rfl hdev rfl rfl ?_ (fun _ _ => rfl)
        (fun _ _ => rfl)
      -- no valid buffer has the block, so it is on the disk as it was written
      by_contra hne
      rcases h.differs _ (Ne.symm hne) with ⟨b, hb, hbn, -⟩
      have hbu := h.one u.b b (by simp [hdev])
        ((h.dev b hb).trans hdev.symm) hbn
      simp [← hbu, hb] at hvalid
  | modify data hpc hvalid =>
      rename_i p u
      have hasked := h.asked p u (by rw [hpc]; rfl)
      simp only [Act.apply, hpc]
      refine h.setBuf hpc hvalid (h.dev _ hvalid) rfl rfl ?_ ?_
        (fun _ _ => rfl)
      · simp [hasked.2]
      · intro n hn
        rw [hasked.2] at hn
        exact Function.update_of_ne hn _ _
  | logWrite hpc hvalid =>
      exact h.setBuf hpc hvalid (h.dev _ hvalid) rfl rfl (h.shows _ hvalid)
        (fun _ _ => rfl) (fun _ _ => rfl)
  | bwrite hpc hvalid hrw =>
      rcases iderw_ok hrw with ⟨hdev, hsync⟩
      cases hsync
      refine h.setBuf hpc rfl hdev rfl rfl (h.shows _ hvalid)
        (fun _ _ => rfl) ?_
      intro n hn
      exact Function.update_of_ne (fun he => hn (UInt32.toNat_inj.mp he)) _ _
  | releasesleep hpc hvalid =>
      exact h.releasesleep hpc (hwritten _ hpc)
  | unref hpc => exact h.unref hpc

theorem runs_inv {d : Disk} {x : State ι × Memory}
    (h : Runs Both (fun y => Written y.1)
      (State.start d, fun n => d n.toNat) x) : Inv x.1 x.2 := by
  apply h.invariant (I := fun y => Inv y.1 y.2) (start_inv d)
  intro y a z hy hwritten hstep
  rw [hstep.2]
  exact step_inv hy hwritten hstep.1

omit [Fintype ι] in
theorem runs_step {x : State ι × Memory} {s s' : State ι} {a : Act ι}
    {m : Memory} (h : Runs Both (fun y => Written y.1) x (s, m))
    (hstep : Step s a s') (hwritten : Written s a) :
    Runs Both (fun y => Written y.1) x (s', a.apply s m) :=
  h.tail a hwritten ⟨hstep, rfl⟩

/-- A process reads block 5 and changes it. -/
theorem exists_modified : exists x : State Unit × Memory, exists u : Use,
    Runs Both (fun y => Written y.1)
      (State.start (fun _ _ => 0), fun _ _ => 0) x ∧
    x.1.pc () = .has u ∧ (x.1.buf u.b).valid = true ∧
    x.2 u.blockno = (fun _ => 7) ∧
    (Finset.univ.filter (fun p => (x.1.pc p).use.isSome)).card +
      (Finset.univ.filter (fun b => (x.1.buf b).dirty = true)).card < NBUF := by
  have h₁ := runs_step (m := fun _ _ => 0) .refl
    (Step.bget (s := State.start (fun _ _ => 0)) (p := ())
      (u := ⟨0, 1, 5⟩) rfl rfl) trivial
  have h₂ := runs_step h₁
    (.acquiresleep (p := ()) (u := ⟨0, 1, 5⟩) rfl rfl) trivial
  have h₃ := runs_step h₂
    (.iderw (p := ()) (u := ⟨0, 1, 5⟩) rfl rfl rfl) trivial
  have h₄ := runs_step h₃
    (.modify (p := ()) (u := ⟨0, 1, 5⟩) (fun _ => 7) rfl rfl) trivial
  exact ⟨_, ⟨0, 1, 5⟩, h₄, rfl, rfl, rfl, by decide⟩

/-- Each block has one owner at a time, who finds in its buffer what was written
to the block last; what is not yet on the disk is in a buffer that is dirty or
locked. -/
theorem bread_returns_last_write {d : Disk} {x : State ι × Memory}
    (h : Runs Both (fun y => Written y.1)
      (State.start d, fun n => d n.toNat) x) :
    (forall p u, x.1.pc p = .has u -> (x.1.buf u.b).valid = true ->
      (x.1.buf u.b).data = x.2 u.blockno) ∧
    (forall p q u v, x.1.pc p = .has u -> x.1.pc q = .has v -> u.dev ≠ 0 ->
      v.dev = u.dev -> v.blockno = u.blockno -> q = p) ∧
    (forall n, x.2 n ≠ x.1.disk n.toNat -> exists b,
      (x.1.buf b).valid = true ∧ (x.1.buf b).blockno = n ∧
        ((x.1.buf b).dirty = true ∨ x.1.owner b ≠ none)) := by
  have hinv := runs_inv h
  refine ⟨?_, ?_, hinv.differs⟩
  · intro p u hpc hvalid
    rw [hinv.shows u.b hvalid, (hinv.asked p u (by rw [hpc]; rfl)).2]
  · intro p q u v hp hq hne hdev hblock
    have hu := hinv.asked p u (by rw [hp]; rfl)
    have hv := hinv.asked q v (by rw [hq]; rfl)
    have hsame : v.b = u.b := by
      apply hinv.one
      · rw [hu.1]
        exact hne
      · rw [hu.1, hv.1, hdev]
      · rw [hu.2, hv.2, hblock]
    have hpo := (hinv.owner p u.b).mpr ⟨u, hp, rfl⟩
    have hqo := (hinv.owner q u.b).mpr ⟨v, hq, hsame⟩
    rw [hpo] at hqo
    exact (Option.some.inj hqo).symm

theorem bread_returns_last_write_modified :
    exists x : State Unit × Memory, exists u,
      Runs Both (fun y => Written y.1)
        (State.start (fun _ _ => 0), fun _ _ => 0) x ∧
      x.1.pc () = .has u ∧ (x.1.buf u.b).data = (fun _ => 7) := by
  rcases exists_modified with ⟨x, u, hrun, hpc, hvalid, hwritten, _⟩
  exact ⟨x, u, hrun, hpc,
    ((bread_returns_last_write hrun).1 () u hpc hvalid).trans hwritten⟩

omit [DecidableEq ι] in
theorem Inv.exists_user (h : Inv s m) {b : Bslot} (hb : s.refcnt b ≠ 0) :
    exists q, exists v, (s.pc q).use = some v ∧ v.b = b := by
  rw [h.refcnt] at hb
  rcases Finset.exists_ne_zero_of_sum_ne_zero hb with ⟨q, -, hq⟩
  refine ⟨q, ?_⟩
  unfold Pc.weight at hq
  split_ifs at hq with hu
  · simpa using hu
  · exact absurd rfl hq

omit [DecidableEq ι] in
theorem Inv.bget_isSome (h : Inv s m) (dev blockno : UInt32)
    (hroom : (Finset.univ.filter (fun q => (s.pc q).use.isSome)).card +
      (Finset.univ.filter (fun b => (s.buf b).dirty = true)).card < NBUF) :
    (s.bget dev blockno).isSome := by
  by_contra hnone
  -- then every buffer is in use or dirty
  have hall : forall b, s.refcnt b ≠ 0 ∨ (s.buf b).dirty = true := by
    intro b
    unfold State.bget at hnone
    split at hnone
    · simp at hnone
    · split at hnone
      · simp at hnone
      · rename_i hfree
        have hb := List.find?_eq_none.mp hfree b (by simpa using h.mem b)
        simpa [or_iff_not_imp_left] using hb
  have hused : (Finset.univ.filter (fun b => s.refcnt b ≠ 0)).card ≤
      (Finset.univ.filter (fun q => (s.pc q).use.isSome)).card := by
    rw [← Finset.card_map Function.Embedding.some]
    apply Finset.card_le_card_of_surjOn (fun q => (s.pc q).use.map Use.b)
    intro c hc
    rcases Finset.mem_map.mp hc with ⟨b, hb, rfl⟩
    replace hb := (Finset.mem_filter.mp hb).2
    rcases h.exists_user hb with ⟨q, v, hv, rfl⟩
    exact ⟨q, by simp [hv], by simp [hv]⟩
  have hcover : (Finset.univ : Finset Bslot).card ≤
      (Finset.univ.filter (fun b => s.refcnt b ≠ 0)).card +
        (Finset.univ.filter (fun b => (s.buf b).dirty = true)).card := by
    refine (Finset.card_le_card ?_).trans (Finset.card_union_le _ _)
    intro b _
    simpa using hall b
  rw [Finset.card_univ, Fintype.card_fin] at hcover
  lia

/-- The list has every buffer once, the count that `brelse` lowers is positive,
`bread` and `bwrite` find what `iderw` asks for, and `bget` finds a buffer unless
all of them are in use or dirty. -/
theorem cache_never_panics {d : Disk} {x : State ι × Memory}
    (h : Runs Both (fun y => Written y.1)
      (State.start d, fun n => d n.toNat) x) :
    (x.1.lru.Nodup ∧ forall b, b ∈ x.1.lru) ∧
    (forall p u, (x.1.pc p).use = some u -> 0 < x.1.refcnt u.b) ∧
    (forall p u, x.1.pc p = .has u -> x.1.owner u.b = some p ∧
      (u.dev = 1 -> u.blockno.toNat < FSSIZE ->
        ((x.1.buf u.b).valid = false -> exists y,
          Memide.iderw (x.1.owner u.b = some p) (x.1.buf u.b) x.1.disk =
            .ok y) ∧
        exists y, Memide.iderw (x.1.owner u.b = some p)
          { x.1.buf u.b with dirty := true } x.1.disk = .ok y)) ∧
    ((Finset.univ.filter (fun p => (x.1.pc p).use.isSome)).card +
      (Finset.univ.filter (fun b => (x.1.buf b).dirty = true)).card < NBUF ->
      forall dev blockno, (x.1.bget dev blockno).isSome) := by
  have hinv := runs_inv h
  refine ⟨⟨hinv.nodup, hinv.mem⟩, ?_, ?_, fun hroom dev blockno =>
    hinv.bget_isSome dev blockno hroom⟩
  · intro p u hu
    by_contra hzero
    exact hinv.unused (by lia) p hu rfl
  · intro p u hpc
    have howner := (hinv.owner p u.b).mpr ⟨u, hpc, rfl⟩
    have hasked := hinv.asked p u (by rw [hpc]; rfl)
    refine ⟨howner, ?_⟩
    intro hdev hblock
    rw [← hasked.1] at hdev
    rw [← hasked.2] at hblock
    have hrange := Nat.not_le.mpr hblock
    constructor
    · intro hvalid
      simp [Memide.iderw, howner, hdev, hrange, Buf.synced, hvalid]
    · simp [Memide.iderw, howner, hdev, hrange, Buf.synced]

theorem cache_never_panics_modified :
    exists x : State Unit × Memory, exists u,
      Runs Both (fun y => Written y.1)
        (State.start (fun _ _ => 0), fun _ _ => 0) x ∧
      x.1.pc () = .has u ∧ x.1.owner u.b = some () ∧
      (x.1.bget 1 6).isSome := by
  rcases exists_modified with ⟨x, u, hrun, hpc, _, _, hroom⟩
  have hnone := cache_never_panics hrun
  exact ⟨x, u, hrun, hpc, (hnone.2.2.1 () u hpc).1, hnone.2.2.2 hroom 1 6⟩

end Invariant

end Bcache
end Xv6
