import Xv6.Ide.Invariant

/-!
# The disk as a memory
-/

namespace Xv6
namespace Ide

open Lib

variable {ι : Type} [DecidableEq ι]

structure Start (s : State ι) : Prop where
  idequeue : s.idequeue = none
  device : s.device = .idle
  havedisk1 : s.havedisk1 = true
  pc : forall p, s.pc p = .out
  panic : s.panic = none
  requests : s.requests = []
  completed : s.completed = 0

omit [DecidableEq ι] in
theorem Start.inv {s : State ι} (h : Start s) : Inv s.disk s := by
  have hqueue : s.queue = [] := by
    unfold State.queue
    rw [h.requests, List.drop_nil]
    rfl
  have hnone : forall k : Nat, s.requests[k]? = none := by
    intro k
    rw [h.requests]
    rfl
  constructor
  · rw [hqueue, h.idequeue]
    exact Linked.nil
  · rw [hqueue]
    exact List.nodup_nil
  · rw [h.completed]
    exact Nat.zero_le _
  · intro r hr
    rw [h.requests] at hr
    cases hr
  · intro k r _ hr
    rw [hnone k] at hr
    cases hr
  · intro p b k hp
    rw [h.pc p] at hp
    cases hp
  · intro p b k hp
    rw [h.pc p] at hp
    cases hp
  · refine Serves.idle (hnone _) h.device ?_
    unfold State.done
    rw [h.requests, List.take_nil]
    rfl
  · exact h.havedisk1
  · exact Or.inl h.panic

section Results

variable {d : Disk} {s : State ι}

omit [DecidableEq ι] in
theorem Inv.started (h : Inv d s) :
    s.idequeue = none ∧ s.device = .idle ∨ exists b, s.idequeue = some b ∧
      (s.device = .busy (s.buf b).command ∨
        s.device = .ready ((s.buf b).answer (s.done d))) := by
  have hhead : forall {r : Request}, s.requests[s.completed]? = some r ->
      s.idequeue = some r.b ∧ s.buf r.b = r.buf := by
    intro r hr
    exact ⟨h.head hr, (h.queued _ r le_rfl hr).1⟩
  cases h.serves with
  | idle hnone hdevice _ =>
      refine Or.inl ⟨?_, hdevice⟩
      have hlinked := h.linked
      rw [queue_nil hnone] at hlinked
      cases hq : s.idequeue with
      | none => rfl
      | some b =>
          rw [hq] at hlinked
          cases hlinked
  | busy r hr hdevice _ =>
      rcases hhead hr with ⟨hq, hbuf⟩
      exact Or.inr ⟨r.b, hq, Or.inl (by rw [hbuf]; exact hdevice)⟩
  | ready r hr hdevice _ =>
      rcases hhead hr with ⟨hq, hbuf⟩
      exact Or.inr ⟨r.b, hq, Or.inr (by rw [hbuf]; exact hdevice)⟩

theorem Inv.returns (h : Inv d s) {p : ι} {b : Bslot} {k : Nat}
    (hpc : s.pc p = .loop b k) (hout : (s.step p).pc p = .out) :
    k < s.completed ∧ exists r, s.requests[k]? = some r ∧ r.b = b ∧
      Memide.iderw true r.buf (memDisk d (s.requests.take k)) =
        .ok (s.buf b, memDisk d (s.requests.take (k + 1))) := by
  have hp : (s.pc p).request = some (b, k) := by rw [hpc]; rfl
  have hsynced : (s.buf b).synced = true := by
    unfold State.step at hout
    rw [hpc] at hout
    dsimp only at hout
    split at hout
    case isTrue hsynced => exact hsynced
    case isFalse =>
      rw [show State.pc _ p = _ from Function.update_self ..] at hout
      cases hout
  have hlt := (h.synced_iff hp).mp hsynced
  rcases h.waits p b k hp with ⟨_, r, hr, hrb, hdone⟩
  rcases h.proper r (List.mem_of_getElem? hr) with ⟨hnot, hdev, hblock⟩
  refine ⟨hlt, r, hr, hrb, ?_⟩
  rw [hdone hlt, memDisk_take_succ d hr]
  unfold Memide.iderw
  rw [if_neg (by decide), if_neg (by rw [hnot]; decide),
    if_neg (not_not.mpr hdev), if_neg (Nat.not_le.mpr hblock)]

omit [DecidableEq ι] in
theorem Inv.disk (h : Inv d s) :
    s.disk = memDisk d (s.requests.take s.completed) ∨
      (exists data, s.device = .ready data) ∧
        s.disk = memDisk d (s.requests.take (s.completed + 1)) := by
  cases h.serves with
  | idle _ _ hdisk | busy _ _ _ hdisk => exact Or.inl hdisk
  | ready r hr hdevice hdisk =>
      refine Or.inr ⟨⟨_, hdevice⟩, ?_⟩
      rw [memDisk_take_succ d hr]
      exact hdisk

omit [DecidableEq ι] in
theorem completed_idestart (s : State ι) (b : Bslot) :
    (s.idestart b).completed = s.completed := by
  unfold State.idestart
  split
  · rfl
  · rfl

omit [DecidableEq ι] in
theorem completed_ideintr {b : Bslot} (hb : s.idequeue = some b)
    (data : Option Block) : (s.ideintr data).completed = s.completed + 1 := by
  unfold State.ideintr
  rw [hb]
  dsimp only
  split
  · rfl
  · rw [completed_idestart]

theorem next_act (h : s.panic = none) (a : Act ι) : next a s = s.act a := by
  unfold next
  rw [h]

theorem Inv.progress (h : Inv d s) (hpanic : s.panic = none)
    (hidle : s.idelock = none) {b : Bslot} (hb : s.idequeue = some b) :
    (next .intr (next .disk s)).completed = s.completed + 1 := by
  have hready : exists data, next .disk s =
      { s with device := .ready data, disk := s.execute.disk } := by
    rw [next_act hpanic .disk]
    show exists data, s.execute = _
    rcases h.started with ⟨hnone, _⟩ | ⟨c, _, hbusy | hready⟩
    · rw [hb] at hnone
      cases hnone
    · rw [execute_command hbusy]
      exact ⟨_, rfl⟩
    · have hsame : s.execute = s := by
        unfold State.execute
        rw [hready]
      refine ⟨(s.buf c).answer (s.done d), ?_⟩
      rw [hsame, ← hready]
  rcases hready with ⟨data, hready⟩
  rw [hready, next_act (by exact hpanic) .intr]
  unfold State.act
  dsimp only
  rw [if_pos hidle]
  exact completed_ideintr (by exact hb) data

end Results

/-- The calls of `iderw` are served in the order in which they were queued, one
at a time, and leave the buffers and the disk as `memide.c` does when it is
given them in that order. -/
theorem ide_refines_memide {ι : Type} [DecidableEq ι] {s₀ s : State ι}
    (hstart : Start s₀) (hruns : Runs (Moves next) Proper s₀ s) :
    (s.panic = none ∨ s.panic = some "iderw: nothing to do") ∧
    -- the queue is the requests that are not done, in order
    s.completed ≤ s.requests.length ∧
    Linked s.qnext s.idequeue
      ((s.requests.drop s.completed).map Request.b) ∧
    -- its head is the command that was started
    (s.idequeue = none ∧ s.device = .idle ∨ exists b, s.idequeue = some b ∧
      (s.device = .busy (s.buf b).command ∨ s.device = .ready
        ((s.buf b).answer (memDisk s₀.disk
          (s.requests.take s.completed))))) ∧
    -- it is done once, when the disk interrupts
    (s.panic = none -> s.idelock = none -> s.idequeue ≠ none ->
      (next .intr (next .disk s)).completed = s.completed + 1) ∧
    (forall p b k, s.pc p = .asleep b k -> s.completed ≤ k) ∧
    -- a call that returns is done, and has what `memide.c` gives
    (forall p b k, s.pc p = .loop b k -> (s.step p).pc p = .out ->
      k < s.completed ∧ exists r, s.requests[k]? = some r ∧ r.b = b ∧
        Memide.iderw true r.buf (memDisk s₀.disk (s.requests.take k)) =
          .ok (s.buf b, memDisk s₀.disk (s.requests.take (k + 1)))) ∧
    (s.disk = memDisk s₀.disk (s.requests.take s.completed) ∨
      (exists data, s.device = .ready data) ∧
        s.disk = memDisk s₀.disk (s.requests.take (s.completed + 1))) := by
  have hinv : Inv s₀.disk s := by
    apply hruns.invariant hstart.inv
    rintro s a _ h hC rfl
    exact next_inv h hC
  refine ⟨hinv.panic, hinv.completed, hinv.linked, hinv.started, ?_,
    hinv.asleep, ?_, hinv.disk⟩
  · intro hpanic hidle hqueue
    rcases Option.ne_none_iff_exists'.mp hqueue with ⟨b, hb⟩
    exact hinv.progress hpanic hidle hb
  · exact fun p b k hpc hout => hinv.returns hpc hout

/-- The process `p` has the lock of a buffer with new data for block 3, and `q`
that of a buffer for block 2 that has not been read. -/
def twoLocked (p q : ι) : State ι where
  buf := fun b =>
    if b.val = 0 then ⟨true, true, 1, 3, fun _ => 7⟩
    else ⟨false, false, 1, 2, fun _ => 0⟩
  owner := fun b =>
    if b.val = 0 then some p else if b.val = 1 then some q else none
  idequeue := none
  qnext := fun _ => none
  idelock := none
  havedisk1 := true
  pc := fun _ => .out
  device := .idle
  disk := fun n _ => UInt8.ofNat n
  panic := none
  requests := []
  completed := 0

omit [DecidableEq ι] in
theorem twoLocked_start (p q : ι) : Start (twoLocked p q) :=
  ⟨rfl, rfl, rfl, fun _ => rfl, rfl, rfl, rfl⟩

/-- Both requests are queued before the first one is done. -/
theorem ide_refines_memide_two : exists s : State (Fin 2),
    Runs (Moves next) Proper (twoLocked 0 1) s ∧ s.requests.length = 2 ∧
    (exists r, Memide.iderw true r
        (memDisk (twoLocked (0 : Fin 2) 1).disk (s.requests.take 1)) =
      .ok (s.buf 1,
        memDisk (twoLocked (0 : Fin 2) 1).disk (s.requests.take 2))) ∧
    (s.buf 1).data 0 = 2 ∧ s.disk 3 0 = 7 := by
  have hruns : Runs (Moves next) Proper (twoLocked (0 : Fin 2) 1)
      (schedule next [.iderw 0 0, .step 0, .iderw 1 1, .step 1, .disk, .intr,
        .disk, .intr, .step 0, .step 0, .step 1] (twoLocked 0 1)) := by
    apply runs_schedule Runs.refl
    exact ⟨⟨rfl, rfl, by decide⟩, trivial, ⟨rfl, rfl, by decide⟩, trivial,
      trivial, trivial, trivial, trivial, trivial, trivial, trivial, trivial⟩
  rcases (ide_refines_memide (twoLocked_start 0 1) hruns).2.2.2.2.2.2.1 1 1 1
    rfl rfl with ⟨_, r, _, _, hmem⟩
  exact ⟨_, hruns, rfl, ⟨r.buf, hmem⟩, rfl, rfl⟩

end Ide
end Xv6
