import Xv6.Log.Transaction

/-!
# Room in the log

Every change of a block is followed by one `log_write`, so what a function
does to the log is the list of the blocks it wrote.  Absorption makes the
space it takes the number of different blocks in that list.
-/

namespace Xv6
namespace Log

def logAll (log : Log) : List Nat -> Except Stop Log
  | [] => .ok log
  | b :: rest =>
      match log.logWrite (UInt32.ofNat b) with
      | .ok log' => log'.logAll rest
      | .error e => .error e

theorem logAll_append (log : Log) (bs cs : List Nat) :
    log.logAll (bs ++ cs) =
      match log.logAll bs with
      | .ok log' => log'.logAll cs
      | .error e => .error e := by
  induction bs generalizing log with
  | nil => rfl
  | cons b rest ih =>
      simp only [List.cons_append, logAll]
      cases log.logWrite (UInt32.ofNat b) with
      | ok log' => exact ih log'
      | error e => rfl

/-- Inside a transaction, with space for `k` more blocks and one to spare for
the test that `log_write` makes before it absorbs. -/
structure Room (log : Log) (k : Nat) : Prop where
  outstanding : 1 ≤ log.outstanding
  n_nonneg : 0 ≤ log.lh.n
  logsize : log.lh.n + k < LOGSIZE
  size : log.lh.n + k < (log.size : Int) - 1

theorem Room.mono {log : Log} {k l : Nat} (h : log.Room k) (hle : l ≤ k) :
    log.Room l where
  outstanding := h.outstanding
  n_nonneg := h.n_nonneg
  logsize := by
    have hk := h.logsize
    lia
  size := by
    have hk := h.size
    lia

theorem Room.logWrite {log : Log} {k : Nat} (h : log.Room k) (b : UInt32) :
    log.logWrite b = .ok (log.logWriteStore b) := by
  have hlogsize := h.logsize
  have hsize := h.size
  have hout := h.outstanding
  have htest : log.logWriteTest = .ok () := by
    unfold logWriteTest
    rw [if_neg (by lia), if_neg (by lia)]
  unfold Log.logWrite
  rw [htest]

/-- The blocks of `bs` lie in `A`, and the log has room for those of `A` that
it does not hold yet: then no `log_write` of `bs` stops, and one more block
fits.  By induction on `bs`; a new block uses up one of the room and leaves `A`
one smaller. -/
theorem logAll_of_room (A : Finset Nat) (bs : List Nat) (log : Log)
    (hroom : log.Room (A \ log.homes.toFinset).card)
    (hbs : forall b, b ∈ bs -> (UInt32.ofNat b).toNat ∈ A) :
    exists log', log.logAll bs = .ok log' ∧ log'.Room 0 := by
  induction bs generalizing log with
  | nil => exact ⟨log, rfl, hroom.mono (Nat.zero_le _)⟩
  | cons b rest ih =>
      have hrest : forall c, c ∈ rest -> (UInt32.ofNat c).toNat ∈ A :=
        fun c hc => hbs c (List.mem_cons_of_mem b hc)
      have hb := hbs b List.mem_cons_self
      simp only [logAll, hroom.logWrite]
      rcases Decidable.em ((UInt32.ofNat b).toNat ∈ log.homes) with hin | hout
      · rw [logWriteStore_of_mem hin]
        exact ih log hroom hrest
      · have hlt : log.lh.n < LOGSIZE := by
          have hk := hroom.logsize
          lia
        rcases homes_logWriteStore_of_not_mem hout hroom.n_nonneg hlt with
          ⟨hhomes, hn⟩
        have hset : A \ (log.logWriteStore (UInt32.ofNat b)).homes.toFinset =
            (A \ log.homes.toFinset).erase (UInt32.ofNat b).toNat := by
          rw [hhomes]
          ext c
          simp only [Finset.mem_sdiff, List.mem_toFinset, List.mem_append,
            List.mem_singleton, Finset.mem_erase]
          tauto
        have hmem : (UInt32.ofNat b).toNat ∈ A \ log.homes.toFinset :=
          Finset.mem_sdiff.mpr
            ⟨hb, fun h => hout (List.mem_toFinset.mp h)⟩
        have hcard := Finset.card_erase_add_one hmem
        apply ih _ _ hrest
        rw [hset]
        constructor
        · exact hroom.outstanding
        · rw [hn]
          have h0 := hroom.n_nonneg
          lia
        · rw [hn]
          have hk := hroom.logsize
          lia
        · show (log.logWriteStore (UInt32.ofNat b)).lh.n + _ <
            (log.size : Int) - 1
          rw [hn]
          have hk := hroom.size
          lia

theorem logAll_of_card {log : Log} {k : Nat} (S : Finset Nat)
    (hroom : log.Room k) (hcard : S.card ≤ k) (bs : List Nat)
    (hbs : forall b, b ∈ bs -> b ∈ S) :
    exists log', log.logAll bs = .ok log' ∧ log'.Room 0 := by
  apply logAll_of_room (S.image (fun b => (UInt32.ofNat b).toNat)) bs log
  · apply hroom.mono
    calc ((S.image (fun b => (UInt32.ofNat b).toNat)) \
          log.homes.toFinset).card
        ≤ (S.image (fun b => (UInt32.ofNat b).toNat)).card :=
          Finset.card_le_card Finset.sdiff_subset
      _ ≤ S.card := Finset.card_image_le
      _ ≤ k := hcard
  · intro b hb
    exact Finset.mem_image_of_mem _ (hbs b hb)

end Log
end Xv6
