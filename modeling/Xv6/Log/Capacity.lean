import Xv6.Log.Ops

/-!
# Log capacity

`begin_op` reserves `MAXOPBLOCKS` blocks for each admitted operation out of
`LOGSIZE`, whereas `log_write` refuses once `log.size - 1` blocks are in the
log.  The reservation bounds the transaction by `LOGSIZE`, and the last two
values below that bound are the ones `log_write` panics on.
-/

namespace Xv6
namespace Log

section Capacity

variable {ι : Type} [DecidableEq ι] {s₀ s s' : Shared ι}

theorem callStep_size {e : Call ι} (hstep : CallStep s e s') :
    s'.log.size = s.log.size := by
  cases hstep with
  | begin hp hbegin =>
      unfold beginOp at hbegin
      split at hbegin
      · cases hbegin
      · split at hbegin
        · cases hbegin
        · cases hbegin
          rfl
  | last hp hend | endOp hp hend =>
      rcases endOp_ok hend with ⟨_, ⟨_, _, rfl⟩ | ⟨_, _, rfl⟩⟩
      · rfl
      · rfl
  | _ => rfl

theorem Recorded.card {log : Log} {logged : Finset Nat}
    (h : Recorded log logged) : (logged.card : Int) = log.lh.n := by
  have hset : logged = log.homes.toFinset := by
    ext b
    rw [List.mem_toFinset]
    exact (h.exact b).symm
  have hnonneg := h.nonneg
  rw [hset, List.toFinset_card_of_nodup h.nodup, homes_length]
  lia

/-- In every interleaving the transaction holds at most `LOGSIZE` blocks, and
`log_write` called by any running operation panics exactly when the calls since
the last commit have already logged all but one of that number. -/
theorem logWriteTest_ne_tooBig_iff (hstart : s₀.Start)
    (hsize : s₀.log.size = LOGSIZE)
    (hruns : Lib.Runs (fun s e s' => CallStep s e s') AddsFew s₀ s) {p : ι}
    {added : Nat} (hplace : s.place p = .running added) :
    s.logged.card ≤ LOGSIZE ∧
      (s.log.logWriteTest ≠ .error (.panic "too big a transaction") ↔
        s.logged.card < LOGSIZE - 1) := by
  rcases runs_inv hstart hruns with ⟨ops, h⟩
  have hlogsize : s.log.size = LOGSIZE :=
    hruns.invariant (I := fun s => s.log.size = LOGSIZE) hsize
      (fun _ _ _ h _ hstep => (callStep_size hstep).trans h)
  have hp : p ∈ ops := by
    rw [h.active p, hplace]
    trivial
  have hout : 1 ≤ s.log.outstanding := by
    have hpos : 0 < ops.card := Finset.card_pos.mpr ⟨p, hp⟩
    rw [h.outstanding]
    lia
  have hcard := h.recorded.card
  have hreserve := h.reserve
  refine ⟨by lia, ?_⟩
  unfold logWriteTest
  constructor
  · intro hne
    by_contra hlt
    apply hne
    rw [if_pos (Or.inr (by lia))]
  · intro hlt
    rw [if_neg (by lia), if_neg (by lia)]
    intro heq
    cases heq

end Capacity

/-- Every block that an operation logs is new to the log, and there are at most
`MAXOPBLOCKS` of them. -/
def LogsNew (s : Shared Nat) : Call Nat -> Prop
  | .store p b =>
      b.toNat ∉ s.log.homes ∧ (s.place p).added < MAXOPBLOCKS
  | _ => True

/-- Three operations have begun.  The first two log ten blocks each, and then
the third one logs blocks; `i` is the number of blocks so far. -/
def threeOps : Nat -> Shared Nat
  | 0 =>
      { freshShared with
        log := { freshLog with outstanding := 3 }
        place := Function.update (Function.update (Function.update
          freshShared.place 0 (.running 0)) 1 (.running 0)) 2 (.running 0) }
  | i + 1 =>
      let s := threeOps i
      { s with
        log := s.log.logWriteStore (UInt32.ofNat (100 + i))
        place := Function.update s.place (i / 10) (.running (i % 10 + 1))
        logged := insert (100 + i) s.logged }

theorem threeOps_ready : forall i : Fin 29,
    (threeOps i).place (i / 10) = .running (i % 10) ∧
      (threeOps i).log.logWriteTest = .ok () ∧
        100 + i.val ∉ (threeOps i).log.homes := by
  decide +kernel

theorem threeOps_runs {i : Nat} (hi : i ≤ 29) :
    Lib.Runs (fun s e s' => CallStep s e s') LogsNew freshShared
      (threeOps i) := by
  induction i with
  | zero =>
      exact ((Lib.Runs.refl.tail (.begin 0) trivial (.begin rfl rfl)).tail
        (.begin 1) trivial (.begin rfl rfl)).tail (.begin 2) trivial
          (.begin rfl rfl)
  | succ i ih =>
      rcases threeOps_ready ⟨i, hi⟩ with ⟨hplace, htest, hnew⟩
      have hb : (UInt32.ofNat (100 + i)).toNat = 100 + i :=
        UInt32.toNat_ofNat_of_lt' (by lia)
      have htested := (ih (by lia)).tail
        (Call.test (i / 10) (UInt32.ofNat (100 + i))) trivial
        (CallStep.test hplace htest)
      have hplace' := Function.update_self (i / 10)
        (Place.storing (i % 10) (UInt32.ofNat (100 + i))) (threeOps i).place
      have hfew : (Place.storing (i % 10) (UInt32.ofNat (100 + i))).added <
          MAXOPBLOCKS :=
        Nat.mod_lt i (by decide)
      rw [← hplace'] at hfew
      have hstored := htested.tail
        (Call.store (i / 10) (UInt32.ofNat (100 + i)))
        ⟨hb.symm ▸ hnew, hfew⟩ (CallStep.store hplace')
      simp only [Function.update_idem, hb] at hstored
      rw [if_neg hnew] at hstored
      exact hstored

/-- Three concurrent operations of at most `MAXOPBLOCKS` distinct blocks each
are all admitted, and the thirtieth block makes `log_write` panic. -/
theorem logWrite_panics_within_allowance :
    exists s : Shared Nat,
      Lib.Runs (fun s e s' => CallStep s e s') LogsNew freshShared s ∧
        s.place 2 = .running 9 ∧ 129 ∉ s.log.homes ∧
          s.log.logWriteTest = .error (.panic "too big a transaction") :=
  ⟨threeOps 29, threeOps_runs (le_refl _), by decide +kernel,
    by decide +kernel, by decide +kernel⟩

theorem addsFew_of_logsNew {s : Shared Nat} {e : Call Nat}
    (h : LogsNew s e) : AddsFew s e := by
  cases e with
  | store p b => exact fun _ => h.2
  | _ => trivial

/-- With 28 blocks in the log there is room for one more. -/
theorem logWriteTest_ne_tooBig_last :
    (threeOps 28).logged.card ≤ LOGSIZE ∧
      (threeOps 28).log.logWriteTest ≠
        .error (.panic "too big a transaction") := by
  have hstart : freshShared.Start := ⟨rfl, rfl, rfl, fun _ => rfl, rfl⟩
  have hbound := logWriteTest_ne_tooBig_iff hstart rfl
    ((threeOps_runs (i := 28) (by decide)).mono (fun _ _ => addsFew_of_logsNew))
    (p := 2) (threeOps_ready 28).1
  exact ⟨hbound.1, hbound.2.mpr (by decide +kernel)⟩

end Log
end Xv6
