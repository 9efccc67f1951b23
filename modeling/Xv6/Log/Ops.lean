import Xv6.Lib.Machine
import Xv6.Lib.Table
import Xv6.Log.Transaction

/-!
# Operations on one log

Any number of processes run operations against one log and one buffer cache.  A
step is one critical section of `begin_op`, `log_write` or `end_op`, a change of
a buffer by a process inside an operation, or one of the stages of `commit()`,
which runs without the lock.
-/

namespace Xv6
namespace Log

inductive Stage where
  | writeLog
  | writeHead
  | install
  | clear
  | done
  deriving DecidableEq, Repr

inductive Place where
  | idle
  /-- Between `begin_op` and `end_op`, having added `added` blocks to the log. -/
  | running (added : Nat)
  /-- In `log_write`, past its tests and before its `acquire`. -/
  | storing (added : Nat) (b : UInt32)
  /-- In `end_op`, with the commit to do. -/
  | committing (stage : Stage)
  deriving DecidableEq, Repr

namespace Place

def Active : Place -> Prop
  | running _ => True
  | storing _ _ => True
  | _ => False

def Commits : Place -> Prop
  | committing _ => True
  | _ => False

def added : Place -> Nat
  | running added => added
  | storing added _ => added
  | _ => 0

def permitted : Place -> Nat
  | running added => MAXOPBLOCKS - added
  | storing added _ => MAXOPBLOCKS - added
  | _ => 0

theorem permitted_running (n : Nat) :
    (running n).permitted = MAXOPBLOCKS - n := rfl

theorem permitted_storing (n : Nat) (b : UInt32) :
    (storing n b).permitted = MAXOPBLOCKS - n := rfl

theorem permitted_le (q : Place) : q.permitted ≤ MAXOPBLOCKS := by
  cases q with
  | idle | committing stage => exact Nat.zero_le _
  | running added | storing added b => exact Nat.sub_le _ _

theorem active_of_running {q : Place} {n : Nat} (h : q = running n) :
    q.Active := by
  rw [h]
  trivial

theorem commits_of_stage {q : Place} {stage : Stage}
    (h : q = committing stage) : q.Commits := by
  rw [h]
  trivial

theorem not_active_of_commits {q : Place} (h : q.Commits) : ¬ q.Active := by
  cases q with
  | committing stage => exact id
  | _ => exact h.elim

end Place

/-- The log, the buffers, and the places of the processes `ι`. -/
structure Shared (ι : Type) where
  log : Log
  io : Bio
  place : ι -> Place
  /-- The blocks whose buffers were logged since the last commit, kept apart
  from what the log itself records. -/
  logged : Finset Nat

inductive Call (ι : Type) where
  | begin (p : ι)
  | modify (p : ι) (b : UInt32) (data : Block)
  | test (p : ι) (b : UInt32)
  | store (p : ι) (b : UInt32)
  | endOp (p : ι)
  /-- The next stage of `commit()`, or the end of `end_op` after it. -/
  | commit (p : ι)

section Step

variable {ι : Type} [DecidableEq ι]

inductive CallStep (s : Shared ι) : Call ι -> Shared ι -> Prop where
  | begin {p : ι} {log : Log} (hp : s.place p = .idle)
      (h : s.log.beginOp = some log) :
      CallStep s (.begin p)
        { s with log := log, place := Function.update s.place p (.running 0) }
  | modify {p : ι} {added : Nat} {b : UInt32} {data : Block}
      (hp : s.place p = .running added) :
      CallStep s (.modify p b data)
        { s with
          io :=
            { s.io with buf := Function.update s.io.buf b.toNat (some data) } }
  | test {p : ι} {added : Nat} {b : UInt32} (hp : s.place p = .running added)
      (h : s.log.logWriteTest = .ok ()) :
      CallStep s (.test p b)
        { s with place := Function.update s.place p (.storing added b) }
  | store {p : ι} {added : Nat} {b : UInt32}
      (hp : s.place p = .storing added b) :
      CallStep s (.store p b)
        { s with
          log := s.log.logWriteStore b
          place := Function.update s.place p
            (.running (if b.toNat ∈ s.log.homes then added else added + 1))
          logged := insert b.toNat s.logged }
  | last {p : ι} {added : Nat} {log : Log} (hp : s.place p = .running added)
      (h : s.log.endOp = .ok (true, log)) :
      CallStep s (.endOp p)
        { s with
          log := log
          place := Function.update s.place p (.committing .writeLog) }
  | endOp {p : ι} {added : Nat} {log : Log} (hp : s.place p = .running added)
      (h : s.log.endOp = .ok (false, log)) :
      CallStep s (.endOp p)
        { s with log := log, place := Function.update s.place p .idle }
  -- commit()
  | empty {p : ι} (hp : s.place p = .committing .writeLog)
      (h : ¬ 0 < s.log.lh.n) :
      CallStep s (.commit p)
        { s with place := Function.update s.place p (.committing .done) }
  | writeLog {p : ι} (hp : s.place p = .committing .writeLog)
      (h : 0 < s.log.lh.n) :
      CallStep s (.commit p)
        { s with
          io := s.log.writeLog s.io
          place := Function.update s.place p (.committing .writeHead) }
  | writeHead {p : ι} (hp : s.place p = .committing .writeHead) :
      CallStep s (.commit p)
        { s with
          io := s.log.writeHead s.io
          place := Function.update s.place p (.committing .install) }
  | install {p : ι} (hp : s.place p = .committing .install) :
      CallStep s (.commit p)
        { s with
          io := s.log.installTrans s.io
          place := Function.update s.place p (.committing .clear) }
  | clear {p : ι} (hp : s.place p = .committing .clear) :
      CallStep s (.commit p)
        { log := s.log.clear
          io := s.log.clear.writeHead s.io
          place := Function.update s.place p (.committing .done)
          logged := ∅ }
  | done {p : ι} (hp : s.place p = .committing .done) :
      CallStep s (.commit p)
        { s with
          log := s.log.endCommit
          place := Function.update s.place p .idle }

/-- No operation adds more than `MAXOPBLOCKS` blocks to the log. -/
def AddsFew (s : Shared ι) : Call ι -> Prop
  | .store p b =>
      b.toNat ∉ s.log.homes -> (s.place p).added < MAXOPBLOCKS
  | _ => True

structure Shared.Start (s : Shared ι) : Prop where
  empty : s.log.lh.n = 0
  outstanding : s.log.outstanding = 0
  committing : s.log.committing = false
  place : forall p, s.place p = .idle
  logged : s.logged = ∅

end Step

/-!
## The invariant
-/

section Invariant

variable {ι : Type}

/-- The log records each logged block once. -/
structure Recorded (log : Log) (logged : Finset Nat) : Prop where
  nonneg : 0 ≤ log.lh.n
  nodup : log.homes.Nodup
  exact : forall b, b ∈ log.homes ↔ b ∈ logged

theorem Recorded.congr {log log' : Log} {logged : Finset Nat}
    (h : Recorded log logged) (hlh : log'.lh = log.lh) :
    Recorded log' logged := by
  have hhomes : log'.homes = log.homes := by
    unfold homes
    rw [hlh]
  constructor
  · rw [hlh]
    exact h.nonneg
  · rw [hhomes]
    exact h.nodup
  · rw [hhomes]
    exact h.exact

/-- `ops` is the set of the processes inside an operation. -/
structure Shared.Inv (s : Shared ι) (ops : Finset ι) : Prop where
  recorded : Recorded s.log s.logged
  active : forall p, p ∈ ops ↔ (s.place p).Active
  outstanding : s.log.outstanding = ops.card
  few : forall p, (s.place p).added ≤ MAXOPBLOCKS
  reserve : s.log.lh.n + (ops.sum (fun p => (s.place p).permitted) : Nat) ≤
    LOGSIZE
  commits : forall p, (s.place p).Commits -> s.log.committing = true
  sole : forall p q, (s.place p).Commits -> (s.place q).Commits -> p = q
  quiet : s.log.committing = true -> ops = ∅

theorem Shared.start_inv {s : Shared ι} (h : s.Start) : s.Inv ∅ where
  recorded :=
    { nonneg := by simp [h.empty]
      nodup := by simp [homes, h.empty]
      exact := by simp [homes, h.empty, h.logged] }
  active := by simp [h.place, Place.Active]
  outstanding := by simp [h.outstanding]
  few := by simp [h.place, Place.added]
  reserve := by simp [h.empty]
  commits := by simp [h.place, Place.Commits]
  sole := by simp [h.place, Place.Commits]
  quiet := fun _ => rfl

variable [DecidableEq ι] {s s' : Shared ι} {ops ops' : Finset ι}

theorem Shared.Inv.move (h : s.Inv ops) {log' : Log} {io' : Bio}
    {logged' : Finset Nat} {p : ι} {q : Place}
    (hrecorded : Recorded log' logged')
    (hself : p ∈ ops' ↔ q.Active)
    (hothers : forall x, x ≠ p -> (x ∈ ops' ↔ x ∈ ops))
    (hout : log'.outstanding = ops'.card) (hfew : q.added ≤ MAXOPBLOCKS)
    (hreserve : log'.lh.n + (ops'.sum
      (fun x => (Function.update s.place p q x).permitted) : Nat) ≤ LOGSIZE)
    (hcommits : q.Commits ∨ (exists x, x ≠ p ∧ (s.place x).Commits) ->
      log'.committing = true)
    (hsole : q.Commits -> forall x, x ≠ p -> ¬ (s.place x).Commits)
    (hquiet : log'.committing = true -> ops' = ∅) :
    Shared.Inv
      { log := log'
        io := io'
        place := Function.update s.place p q
        logged := logged' } ops' := by
  have hplace : forall x, (x = p ∧ Function.update s.place p q x = q) ∨
      (x ≠ p ∧ Function.update s.place p q x = s.place x) := by
    intro x
    rcases eq_or_ne x p with rfl | hx
    · exact Or.inl ⟨rfl, Function.update_self x _ _⟩
    · exact Or.inr ⟨hx, Function.update_of_ne hx _ _⟩
  constructor
  · exact hrecorded
  · intro x
    show x ∈ ops' ↔ (Function.update s.place p q x).Active
    rcases hplace x with ⟨rfl, heq⟩ | ⟨hx, heq⟩
    · rw [heq]
      exact hself
    · rw [heq, hothers x hx]
      exact h.active x
  · exact hout
  · intro x
    show (Function.update s.place p q x).added ≤ _
    rcases hplace x with ⟨_, heq⟩ | ⟨_, heq⟩
    · rw [heq]
      exact hfew
    · rw [heq]
      exact h.few x
  · exact hreserve
  · intro x hx
    change (Function.update s.place p q x).Commits at hx
    rcases hplace x with ⟨_, heq⟩ | ⟨hne, heq⟩
    · rw [heq] at hx
      exact hcommits (Or.inl hx)
    · rw [heq] at hx
      exact hcommits (Or.inr ⟨x, hne, hx⟩)
  · intro x y hx hy
    change (Function.update s.place p q x).Commits at hx
    change (Function.update s.place p q y).Commits at hy
    rcases hplace x with ⟨hxp, heqx⟩ | ⟨hxp, heqx⟩
    · rcases hplace y with ⟨hyp, _⟩ | ⟨hyp, heqy⟩
      · rw [hxp, hyp]
      · rw [heqx] at hx
        rw [heqy] at hy
        exact absurd hy (hsole hx y hyp)
    · rcases hplace y with ⟨_, heqy⟩ | ⟨_, heqy⟩
      · rw [heqx] at hx
        rw [heqy] at hy
        exact absurd hx (hsole hy x hxp)
      · rw [heqx] at hx
        rw [heqy] at hy
        exact h.sole x y hx hy
  · exact hquiet

theorem sum_permitted_of_notMem {p : ι} (q : Place) (hp : p ∉ ops) :
    ops.sum (fun x => (Function.update s.place p q x).permitted) =
      ops.sum (fun x => (s.place x).permitted) := by
  apply Finset.sum_congr rfl
  intro x hx
  have hne : x ≠ p := by
    rintro rfl
    exact hp hx
  rw [Function.update_of_ne hne]

theorem Shared.inv_begin {p : ι} {log : Log} (h : s.Inv ops)
    (hp : s.place p = .idle) (hbegin : s.log.beginOp = some log) :
    Shared.Inv
      { s with log := log, place := Function.update s.place p (.running 0) }
      (insert p ops) := by
  unfold beginOp at hbegin
  split at hbegin
  · cases hbegin
  · next hcommitting =>
    split at hbegin
    · cases hbegin
    · next hroom =>
      cases hbegin
      have hnot : p ∉ ops := by
        rw [h.active p, hp]
        exact id
      have hbound : ops.sum (fun x => (s.place x).permitted) ≤
          ops.card * MAXOPBLOCKS :=
        Finset.sum_le_card_nsmul _ _ _ (fun x _ => (s.place x).permitted_le)
      have hout := h.outstanding
      apply h.move
      · exact h.recorded.congr rfl
      · simp [Place.Active]
      · intro x hx
        simp [hx]
      · rw [Finset.card_insert_of_notMem hnot]
        simp only [hout]
        push_cast
        ring
      · exact Nat.zero_le _
      · rw [Finset.sum_insert hnot, Function.update_self,
          sum_permitted_of_notMem _ hnot, Place.permitted_running]
        simp only [Nat.cast_add]
        lia
      · rintro (hcommits | ⟨x, _, hx⟩)
        · exact hcommits.elim
        · exact h.commits x hx
      · exact fun hcommits => hcommits.elim
      · exact fun htrue => absurd htrue hcommitting

omit [DecidableEq ι] in
theorem Shared.Inv.permitted_le {p : ι} (h : s.Inv ops)
    (hp : (s.place p).Active) :
    (s.place p).permitted ≤ ops.sum (fun x => (s.place x).permitted) :=
  Finset.single_le_sum (f := fun x => (s.place x).permitted)
    (fun _ _ => Nat.zero_le _) ((h.active p).mpr hp)

theorem Shared.inv_inside {p : ι} {log' : Log} {logged' : Finset Nat} {q : Place}
    {n : Nat} (h : s.Inv ops) (hp : (s.place p).Active) (hq : q.Active)
    (hrecorded : Recorded log' logged')
    (hout : log'.outstanding = s.log.outstanding)
    (hcommitting : log'.committing = s.log.committing)
    (hadded : q.added = (s.place p).added + n) (hfew : q.added ≤ MAXOPBLOCKS)
    (hn : log'.lh.n = s.log.lh.n + n) :
    Shared.Inv
      { s with
        log := log'
        place := Function.update s.place p q
        logged := logged' } ops := by
  have hmem : p ∈ ops := (h.active p).mpr hp
  have hpermitted : forall {q : Place}, q.Active ->
      q.permitted = MAXOPBLOCKS - q.added := by
    intro q hq
    cases q with
    | running added | storing added b => rfl
    | idle | committing stage => exact hq.elim
  have hsum := Lib.sum_update Place.permitted s.place q hmem
  have hself := h.permitted_le hp
  have hreserve := h.reserve
  rw [hpermitted hp] at hsum hself
  rw [hpermitted hq] at hsum
  apply h.move
  · exact hrecorded
  · exact iff_of_true hmem hq
  · exact fun _ _ => Iff.rfl
  · rw [hout]
    exact h.outstanding
  · exact hfew
  · rw [hn]
    lia
  · rintro (hcommits | ⟨x, _, hx⟩)
    · exact absurd hq (Place.not_active_of_commits hcommits)
    · rw [hcommitting]
      exact h.commits x hx
  · exact fun hcommits =>
      absurd hq (Place.not_active_of_commits hcommits)
  · rw [hcommitting]
    exact h.quiet

theorem recorded_store {log : Log} {logged : Finset Nat} {b : UInt32}
    (h : Recorded log logged)
    (hroom : b.toNat ∉ log.homes -> log.lh.n < LOGSIZE) :
    Recorded (log.logWriteStore b) (insert b.toNat logged) ∧
      (log.logWriteStore b).lh.n =
        log.lh.n + ((if b.toNat ∈ log.homes then 0 else 1 : Nat) : Int) := by
  rcases Decidable.em (b.toNat ∈ log.homes) with hmem | hnew
  · have hold : insert b.toNat logged = logged :=
      Finset.insert_eq_self.mpr ((h.exact _).mp hmem)
    rw [logWriteStore_of_mem hmem, hold, if_pos hmem]
    exact ⟨h, by simp⟩
  · rcases homes_logWriteStore_of_not_mem hnew h.nonneg (hroom hnew) with
      ⟨hhomes, hn⟩
    rw [if_neg hnew]
    refine ⟨⟨?_, ?_, ?_⟩, by simpa using hn⟩
    · rw [hn]
      have := h.nonneg
      lia
    · rw [hhomes]
      apply List.Nodup.append h.nodup (List.nodup_singleton _)
      simpa using hnew
    · intro c
      rw [hhomes, List.mem_append, List.mem_singleton, Finset.mem_insert,
        h.exact]
      exact or_comm

theorem Shared.inv_store {p : ι} {added : Nat} {b : UInt32} (h : s.Inv ops)
    (hp : s.place p = .storing added b)
    (hfew : b.toNat ∉ s.log.homes -> (s.place p).added < MAXOPBLOCKS) :
    Shared.Inv
      { s with
        log := s.log.logWriteStore b
        place := Function.update s.place p
          (.running (if b.toNat ∈ s.log.homes then added else added + 1))
        logged := insert b.toNat s.logged } ops := by
  have hactive : (s.place p).Active := by
    rw [hp]
    trivial
  have hself := h.permitted_le hactive
  have hreserve := h.reserve
  have hadded := h.few p
  rw [hp] at hself hfew hadded
  rw [Place.permitted_storing] at hself
  simp only [Place.added] at hfew hadded
  have hroom : b.toNat ∉ s.log.homes -> s.log.lh.n < LOGSIZE := by
    intro hnew
    have := hfew hnew
    lia
  rcases recorded_store h.recorded hroom with ⟨hrecorded, hn⟩
  apply Shared.inv_inside (n := if b.toNat ∈ s.log.homes then 0 else 1) h hactive
  · trivial
  · exact hrecorded
  · rfl
  · rfl
  · rw [hp]
    show (if b.toNat ∈ s.log.homes then added else added + 1) = added + _
    split
    · rfl
    · rfl
  · show (if b.toNat ∈ s.log.homes then added else added + 1) ≤ _
    split
    · exact hadded
    · next hnew => exact hfew hnew
  · exact hn

theorem Shared.inv_leave {p : ι} {log' : Log} {q : Place} (h : s.Inv ops)
    (hp : (s.place p).Active) (hq : ¬ q.Active)
    (hlog : log'.lh = s.log.lh)
    (hout : log'.outstanding = s.log.outstanding - 1)
    (hcommits : q.Commits ∨ s.log.committing = true ->
      log'.committing = true)
    (hsole : q.Commits -> s.log.committing = false)
    (hquiet : log'.committing = true -> s.log.outstanding = 1) :
    Shared.Inv
      { s with log := log', place := Function.update s.place p q }
      (ops.erase p) := by
  have hmem : p ∈ ops := (h.active p).mpr hp
  have hcard := Finset.card_erase_of_mem hmem
  have hpos : 0 < ops.card := Finset.card_pos.mpr ⟨p, hmem⟩
  have houtstanding := h.outstanding
  have hadded : q.added = 0 := by
    cases q with
    | running added | storing added b => exact absurd trivial hq
    | idle | committing stage => rfl
  apply h.move
  · exact h.recorded.congr hlog
  · exact iff_of_false (Finset.notMem_erase p ops) hq
  · intro x hx
    simp [hx]
  · rw [hout]
    lia
  · rw [hadded]
    exact Nat.zero_le _
  · rw [hlog, sum_permitted_of_notMem _ (Finset.notMem_erase p ops)]
    have hless := Finset.sum_le_sum_of_subset (f := fun x =>
      (s.place x).permitted) (Finset.erase_subset p ops)
    have hreserve := h.reserve
    lia
  · rintro (hself | ⟨x, _, hx⟩)
    · exact hcommits (Or.inl hself)
    · exact hcommits (Or.inr (h.commits x hx))
  · intro hself x _ hx
    have htrue := h.commits x hx
    rw [hsole hself] at htrue
    cases htrue
  · intro htrue
    apply Finset.card_eq_zero.mp
    have hone := hquiet htrue
    lia

theorem Shared.inv_stage {p : ι} {log' : Log} {io' : Bio} {logged' : Finset Nat}
    {q : Place} (h : s.Inv ops) (hp : (s.place p).Commits) (hq : ¬ q.Active)
    (hrecorded : Recorded log' logged')
    (hout : log'.outstanding = s.log.outstanding)
    (hn : log'.lh.n ≤ s.log.lh.n)
    (hcommits : q.Commits -> log'.committing = true) :
    Shared.Inv
      { log := log'
        io := io'
        place := Function.update s.place p q
        logged := logged' } ops := by
  have hempty : ops = ∅ := h.quiet (h.commits p hp)
  have hadded : q.added = 0 := by
    cases q with
    | running added | storing added b => exact absurd trivial hq
    | idle | committing stage => rfl
  subst hempty
  have hothers : forall x, x ≠ p -> ¬ (s.place x).Commits :=
    fun x hx hcommits => hx (h.sole x p hcommits hp)
  apply h.move
  · exact hrecorded
  · exact iff_of_false (Finset.notMem_empty p) hq
  · exact fun _ _ => Iff.rfl
  · rw [hout]
    exact h.outstanding
  · rw [hadded]
    exact Nat.zero_le _
  · have hreserve := h.reserve
    simp only [Finset.sum_empty] at hreserve ⊢
    lia
  · rintro (hself | ⟨x, hx, hcommits⟩)
    · exact hcommits hself
    · exact absurd hcommits (hothers x hx)
  · exact fun _ => hothers
  · exact fun _ => rfl

theorem recorded_clear (log : Log) : Recorded log.clear ∅ where
  nonneg := le_refl _
  nodup := by simp [homes, clear]
  exact := by simp [homes, clear]

theorem endOp_ok {log log' : Log} {last : Bool}
    (h : log.endOp = .ok (last, log')) :
    log.committing = false ∧
      ((last = true ∧ log.outstanding = 1 ∧
          log' = { log with outstanding := 0, committing := true }) ∨
        (last = false ∧ log.outstanding ≠ 1 ∧
          log' = { log with outstanding := log.outstanding - 1 })) := by
  unfold endOp at h
  dsimp only at h
  split at h
  · cases h
  · rename_i hcom
    refine ⟨by simpa using hcom, ?_⟩
    split at h
    · rename_i hlast
      cases h
      exact Or.inl ⟨rfl, by lia, by rw [hlast]⟩
    · rename_i hlast
      cases h
      exact Or.inr ⟨rfl, by lia, rfl⟩

theorem callStep_inv {e : Call ι} (h : s.Inv ops) (hfew : AddsFew s e)
    (hstep : CallStep s e s') : exists ops', s'.Inv ops' := by
  -- a stage of the commit that leaves the header as it is
  have hstage : forall {p : ι} {stage stage' : Stage} (io' : Bio),
      s.place p = .committing stage -> Shared.Inv
        { s with
          io := io'
          place := Function.update s.place p (.committing stage') } ops := by
    intro p stage stage' io' hp
    have hcommits := Place.commits_of_stage hp
    exact Shared.inv_stage h hcommits id h.recorded rfl (le_refl _)
      (fun _ => h.commits p hcommits)
  cases hstep with
  | begin hp hbegin => exact ⟨_, Shared.inv_begin h hp hbegin⟩
  | modify hp => exact ⟨ops, { h with }⟩
  | @test p added b hp _ =>
      have hactive := Place.active_of_running hp
      refine ⟨ops, Shared.inv_inside (n := 0) h hactive trivial h.recorded rfl
        rfl ?_ ?_ (by simp)⟩
      · rw [hp]
        rfl
      · have hadded := h.few p
        rw [hp] at hadded
        exact hadded
  | store hp => exact ⟨ops, Shared.inv_store h hp hfew⟩
  | @last p added log hp hend =>
      have hactive := Place.active_of_running hp
      rcases endOp_ok hend with ⟨hfalse, ⟨_, hone, rfl⟩ | ⟨hnot, _⟩⟩
      · have hzero : (0 : Int) = s.log.outstanding - 1 := by lia
        exact ⟨_, Shared.inv_leave h hactive id rfl hzero (fun _ => rfl)
          (fun _ => hfalse) (fun _ => hone)⟩
      · cases hnot
  | @endOp p added log hp hend =>
      have hactive := Place.active_of_running hp
      rcases endOp_ok hend with ⟨hfalse, ⟨hlast, _⟩ | ⟨_, _, rfl⟩⟩
      · cases hlast
      · refine ⟨_, Shared.inv_leave h hactive id rfl rfl ?_
          (fun _ => hfalse) ?_⟩
        · rintro (hcommits | htrue)
          · exact hcommits.elim
          · exact htrue
        · intro htrue
          rw [show s.log.committing = true from htrue] at hfalse
          cases hfalse
  | empty hp _ => exact ⟨ops, hstage s.io hp⟩
  | writeLog hp _ | writeHead hp | install hp => exact ⟨ops, hstage _ hp⟩
  | @clear p hp =>
      have hcommits := Place.commits_of_stage hp
      exact ⟨ops, Shared.inv_stage h hcommits id (recorded_clear s.log) rfl
        h.recorded.nonneg (fun _ => h.commits p hcommits)⟩
  | @done p hp =>
      have hcommits := Place.commits_of_stage hp
      exact ⟨ops, Shared.inv_stage h hcommits id (h.recorded.congr rfl) rfl
        (le_refl _) (fun hidle => hidle.elim)⟩

theorem runs_inv {s₀ : Shared ι} (hstart : s₀.Start)
    (hruns : Lib.Runs (fun s e s' => CallStep s e s') AddsFew s₀ s) :
    exists ops, s.Inv ops := by
  apply hruns.invariant (I := fun s => exists ops, Shared.Inv s ops)
  · exact ⟨∅, Shared.start_inv hstart⟩
  · rintro s e s' ⟨ops, h⟩ hfew hstep
    exact callStep_inv h hfew hstep

end Invariant

def freshLog : Log where
  start := 2
  size := LOGSIZE
  outstanding := 0
  committing := false
  lh := { n := 0, block := fun _ => 0 }

def freshShared : Shared Nat where
  log := freshLog
  io := Bio.boot (fun _ _ => 0)
  place := fun _ => .idle
  logged := ∅

end Log
end Xv6
