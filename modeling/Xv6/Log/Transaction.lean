import Xv6.Log.Code
import Xv6.Stop

/-!
# Transactions

The part of `log.c` that file-system calls see: `begin_op`, `log_write` and
`end_op`.  Each critical section under `log.lock` is one function, so that
their interleavings can be described as steps.  In `log_write` the capacity
test stands before the `acquire`, so it is a section of its own.
-/

namespace Xv6
namespace Log

open Logheader

/-- One pass through the loop of `begin_op`; `none` is going to sleep. -/
def beginOp (log : Log) : Option Log :=
  if log.committing then
    none
  else if log.lh.n + (log.outstanding + 1) * MAXOPBLOCKS > LOGSIZE then
    -- this op might exhaust log space; wait for commit.
    none
  else
    some { log with outstanding := log.outstanding + 1 }

/-- The tests at the head of `log_write`, made without the lock. -/
def logWriteTest (log : Log) : Except Stop Unit :=
  if log.lh.n ≥ LOGSIZE ∨ log.lh.n ≥ (log.size : Int) - 1 then
    .error (.panic "too big a transaction")
  else if log.outstanding < 1 then
    .error (.panic "log_write outside of trans")
  else
    .ok ()

/-- The index at which the absorption loop of `log_write` ends: the first
entry that holds `blockno`, or `n`. -/
def absorbIndex (lh : Logheader) (blockno : UInt32) : Nat :=
  ((List.range lh.n.toNat).find? (fun i => lh.blockAt i = blockno.toNat)).getD
    lh.n.toNat

/-- The locked section of `log_write`: record the block number, absorbing a
block that the transaction already holds. -/
def logWriteStore (log : Log) (blockno : UInt32) : Log :=
  let i := absorbIndex log.lh blockno
  { log with
    lh :=
      { n := if (i : Int) = log.lh.n then log.lh.n + 1 else log.lh.n
        block := fun j => if j.val = i then blockno else log.lh.block j } }

def logWrite (log : Log) (blockno : UInt32) : Except Stop Log :=
  match log.logWriteTest with
  | .ok () => .ok (log.logWriteStore blockno)
  | .error e => .error e

/-- The first locked section of `end_op`; the result says whether this was
the last outstanding operation, which then commits. -/
def endOp (log : Log) : Except Stop (Bool × Log) :=
  let log := { log with outstanding := log.outstanding - 1 }
  if log.committing then
    .error (.panic "log.committing")
  else if log.outstanding = 0 then
    .ok (true, { log with committing := true })
  else
    .ok (false, log)

/-- The second locked section of `end_op`, after `commit()`. -/
def endCommit (log : Log) : Log :=
  { log with committing := false }

/-!
## Absorption
-/

theorem absorbIndex_of_mem {log : Log} {b : UInt32}
    (h : b.toNat ∈ log.homes) :
    absorbIndex log.lh b < log.lh.n.toNat ∧
      log.lh.blockAt (absorbIndex log.lh b) = b.toNat := by
  unfold absorbIndex
  cases hfind : (List.range log.lh.n.toNat).find?
      (fun i => log.lh.blockAt i = b.toNat) with
  | none =>
      rw [List.find?_eq_none] at hfind
      rcases List.mem_map.mp h with ⟨i, hi, heq⟩
      have hnot := hfind i hi
      simp [heq] at hnot
  | some i =>
      have hmem := List.mem_of_find?_eq_some hfind
      have hval := List.find?_some hfind
      exact ⟨List.mem_range.mp hmem, by simpa using hval⟩

theorem absorbIndex_of_not_mem {log : Log} {b : UInt32}
    (h : b.toNat ∉ log.homes) :
    absorbIndex log.lh b = log.lh.n.toNat := by
  unfold absorbIndex
  cases hfind : (List.range log.lh.n.toNat).find?
      (fun i => log.lh.blockAt i = b.toNat) with
  | none => rfl
  | some i =>
      have hmem := List.mem_of_find?_eq_some hfind
      have hval := List.find?_some hfind
      exact absurd (List.mem_map.mpr ⟨i, hmem, by simpa using hval⟩) h

theorem homes_length (log : Log) : log.homes.length = log.lh.n.toNat := by
  simp [homes]

theorem logWriteStore_of_mem {log : Log} {b : UInt32}
    (h : b.toNat ∈ log.homes) : log.logWriteStore b = log := by
  obtain ⟨hlt, hval⟩ := absorbIndex_of_mem h
  have hn : ¬ ((absorbIndex log.lh b : Int) = log.lh.n) := by lia
  have hblock : (fun j : Fin LOGSIZE =>
      if j.val = absorbIndex log.lh b then b else log.lh.block j) =
        log.lh.block := by
    funext j
    split
    · rename_i hj
      rw [← hj] at hval
      unfold blockAt at hval
      rw [dif_pos j.isLt] at hval
      exact (UInt32.toNat_inj.mp hval).symm
    · rfl
  unfold logWriteStore
  simp only [hn, if_false, hblock]

theorem homes_logWriteStore_of_not_mem {log : Log} {b : UInt32}
    (h : b.toNat ∉ log.homes) (h0 : 0 ≤ log.lh.n) (hn : log.lh.n < LOGSIZE) :
    (log.logWriteStore b).homes = log.homes ++ [b.toNat] ∧
      (log.logWriteStore b).lh.n = log.lh.n + 1 := by
  have hidx := absorbIndex_of_not_mem h
  have hcast : ((log.lh.n.toNat : Nat) : Int) = log.lh.n := by lia
  have hn' : (log.logWriteStore b).lh.n = log.lh.n + 1 := by
    simp [logWriteStore, hidx, hcast]
  refine ⟨?_, hn'⟩
  have hlt : log.lh.n.toNat < LOGSIZE := by lia
  have hlast : (log.logWriteStore b).lh.blockAt log.lh.n.toNat = b.toNat := by
    simp only [logWriteStore, blockAt, hidx, hlt, dif_pos, if_true]
  have hinit : forall i, i < log.lh.n.toNat ->
      (log.logWriteStore b).lh.blockAt i = log.lh.blockAt i := by
    intro i hi
    have hne : i ≠ log.lh.n.toNat := by lia
    simp only [logWriteStore, blockAt, hidx, hne, if_false]
  unfold homes
  rw [hn', show (log.lh.n + 1).toNat = log.lh.n.toNat + 1 by lia,
    List.range_succ, List.map_append, List.map_singleton, hlast]
  congr 1
  apply List.map_congr_left
  intro i hi
  exact hinit i (List.mem_range.mp hi)

end Log
end Xv6
