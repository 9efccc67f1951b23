import Xv6.Sched.Lottery

/-!
# Shares of the lottery

How many values of `winner` select a process.  With tickets that are not
negative the bins follow each other: the bin of a process goes from the sum of
the tickets before it to that sum plus its own tickets.  A winner on the
boundary of two bins belongs to the lower one, so that every bin leaves out its
lower end, except that of the first runnable process, which also has the zero.
-/

namespace Xv6
namespace Kernel

open Lib Lib.Run

def winners (proc : Pslot -> Proc) (p : Pslot) : Set Int :=
  { w | (exists r, 0 ≤ r ∧ r ≤ RAND_MAX ∧ lotteryWinner proc r = some w) ∧
    lotteryPick proc w (List.finRange NPROC) 0 = some (some p) }

/-- Every winner that can be drawn selects a runnable process, and as many of
them select `p` as it has tickets. -/
structure FairShare (proc : Pslot -> Proc) (p : Pslot) : Prop where
  selects : forall r, 0 ≤ r -> r ≤ RAND_MAX ->
    exists w q, lotteryWinner proc r = some w ∧
      lotteryPick proc w (List.finRange NPROC) 0 = some (some q) ∧
        (proc q).state = .RUNNABLE
  share : ((winners proc p).ncard : Int) = (proc p).tickets

/-- Runnable processes have no negative tickets, some runnable process has
tickets, and the total is an `int`. -/
structure Tickets (proc : Pslot -> Proc) : Prop where
  nonneg : forall q, (proc q).state = .RUNNABLE -> 0 ≤ (proc q).tickets
  pos : 1 ≤ ticketSum proc NPROC
  fits : ticketSum proc NPROC ≤ INT_MAX

section Bins

variable {proc : Pslot -> Proc}

theorem inDraw_nonneg
    (hnonneg : forall q, (proc q).state = .RUNNABLE -> 0 ≤ (proc q).tickets)
    (q : Pslot) : 0 ≤ inDraw proc q := by
  unfold inDraw
  split
  · exact hnonneg q (by assumption)
  · exact le_refl _

theorem drawSum_nonneg
    (hnonneg : forall q, (proc q).state = .RUNNABLE -> 0 ≤ (proc q).tickets)
    (ps : List Pslot) : 0 ≤ drawSum proc ps := by
  apply List.sum_nonneg
  intro x hx
  rcases List.mem_map.mp hx with ⟨q, _, rfl⟩
  exact inDraw_nonneg hnonneg q

theorem drawSum_append (ps qs : List Pslot) :
    drawSum proc (ps ++ qs) = drawSum proc ps + drawSum proc qs := by
  simp [drawSum]

theorem drawSum_of_none {ps : List Pslot}
    (h : forall q, q ∈ ps -> (proc q).state ≠ .RUNNABLE) :
    drawSum proc ps = 0 := by
  unfold drawSum
  rw [List.map_congr_left (fun q hq => inDraw_of_not (h q hq))]
  simp

theorem lotteryPick_mem {w b : Int} {ps : List Pslot} {p : Pslot}
    (h : lotteryPick proc w ps b = some (some p)) : p ∈ ps := by
  induction ps generalizing b with
  | nil => cases h
  | cons q ps ih =>
      rw [lotteryPick] at h
      rcases Decidable.em ((proc q).state ≠ .RUNNABLE) with hskip | hrun
      · rw [if_pos hskip] at h
        exact List.mem_cons_of_mem q (ih h)
      · rw [if_neg hrun] at h
        rcases Option.bind_eq_some_iff.mp h with ⟨bin, _, hend⟩
        rcases lt_or_ge bin w with hlt | hge
        · rw [if_pos hlt] at hend
          exact List.mem_cons_of_mem q (ih hend)
        · rw [if_neg (by lia)] at hend
          cases hend
          exact List.mem_cons_self

/-- The winners that select the slot after `ps`: its bin starts behind the
tickets of `ps`, or without a lower end if no process of `ps` is runnable. -/
theorem lotteryPick_append {w b : Int} {ps qs : List Pslot} {p : Pslot}
    (hnonneg : forall q, (proc q).state = .RUNNABLE -> 0 ≤ (proc q).tickets)
    (hp : (proc p).state = .RUNNABLE) (hps : p ∉ ps) (hqs : p ∉ qs)
    (hfits : forall n, FitsInt (b + drawSum proc ((ps ++ p :: qs).take n))) :
    lotteryPick proc w (ps ++ p :: qs) b = some (some p) ↔
      w ≤ b + drawSum proc ps + (proc p).tickets ∧
        ((exists q, q ∈ ps ∧ (proc q).state = .RUNNABLE) ->
          b + drawSum proc ps < w) := by
  induction ps generalizing b with
  | nil =>
      have hbin : FitsInt (b + inDraw proc p) := by simpa using hfits 1
      rw [List.nil_append, lotteryPick_of_runnable hp hbin,
        inDraw_of_runnable hp, drawSum_nil, add_zero]
      rcases lt_or_ge (b + (proc p).tickets) w with hlt | hge
      · rw [if_pos hlt]
        constructor
        · exact fun h => absurd (lotteryPick_mem h) hqs
        · exact fun h => absurd h.1 (by lia)
      · rw [if_neg (by lia)]
        refine iff_of_true rfl ⟨hge, ?_⟩
        rintro ⟨q, hq, _⟩
        cases hq
  | cons q ps ih =>
      have hne : p ≠ q := fun h => hps (h ▸ List.mem_cons_self)
      have hrest : forall n, FitsInt (b + inDraw proc q +
          drawSum proc ((ps ++ p :: qs).take n)) := by
        intro n
        have hn := hfits (n + 1)
        rw [List.cons_append, List.take_succ_cons, drawSum_cons,
          ← add_assoc] at hn
        exact hn
      have hnext := ih (fun h => hps (List.mem_cons_of_mem q h)) hrest
      have hsum := drawSum_nonneg hnonneg ps
      rw [List.cons_append, drawSum_cons, ← add_assoc]
      rcases Decidable.em ((proc q).state = .RUNNABLE) with hrun | hrun
      · rw [lotteryPick_of_runnable hrun (by simpa using hrest 0)]
        have hearlier : exists r, r ∈ q :: ps ∧ (proc r).state = .RUNNABLE :=
          ⟨q, List.mem_cons_self, hrun⟩
        rcases lt_or_ge (b + inDraw proc q) w with hlt | hge
        · rw [if_pos hlt, hnext]
          constructor
          · rintro ⟨hle, hlow⟩
            refine ⟨hle, fun _ => ?_⟩
            rcases Decidable.em
              (exists r, r ∈ ps ∧ (proc r).state = .RUNNABLE) with hsome | hnone
            · exact hlow hsome
            · rw [drawSum_of_none (fun r hr h => hnone ⟨r, hr, h⟩)]
              lia
          · rintro ⟨hle, hlow⟩
            exact ⟨hle, fun _ => hlow hearlier⟩
        · rw [if_neg (by lia)]
          constructor
          · intro h
            cases h
            exact absurd rfl hne
          · rintro ⟨_, hlow⟩
            have hlt := hlow hearlier
            lia
      · rw [lotteryPick_of_not hrun]
        rw [inDraw_of_not hrun, add_zero] at hnext ⊢
        rw [hnext]
        constructor
        · rintro ⟨hle, hlow⟩
          refine ⟨hle, ?_⟩
          rintro ⟨r, hr, hrunr⟩
          rcases List.mem_cons.mp hr with rfl | hr
          · exact absurd hrunr hrun
          · exact hlow ⟨r, hr, hrunr⟩
        · rintro ⟨hle, hlow⟩
          refine ⟨hle, ?_⟩
          rintro ⟨r, hr, hrunr⟩
          exact hlow ⟨r, List.mem_cons_of_mem q hr, hrunr⟩

end Bins

/-!
## The table
-/

theorem finRange_split (p : Pslot) : exists qs : List Pslot,
    List.finRange NPROC = (List.finRange NPROC).take p.val ++ p :: qs ∧
      p ∉ qs ∧ forall q, q ∈ (List.finRange NPROC).take p.val ↔ q < p := by
  have hlen : p.val < (List.finRange NPROC).length := by simp
  have hget : (List.finRange NPROC)[p.val] = p := by simp
  have hsplit : List.finRange NPROC = (List.finRange NPROC).take p.val ++
      p :: (List.finRange NPROC).drop (p.val + 1) := by
    nth_rewrite 1 [← List.take_append_drop p.val (List.finRange NPROC)]
    rw [List.drop_eq_getElem_cons hlen, hget]
  have hat : forall i (h : i < (List.finRange NPROC).length),
      (List.finRange NPROC)[i].val = i := by
    intro i h
    simp
  refine ⟨_, hsplit, ?_, ?_⟩
  · intro hmem
    rcases List.mem_drop_iff_getElem.mp hmem with ⟨i, hi, heq⟩
    have hval := congrArg Fin.val heq
    rw [hat] at hval
    lia
  · intro q
    rw [List.mem_take_iff_getElem]
    constructor
    · rintro ⟨i, hi, rfl⟩
      show _ < p.val
      rw [hat]
      lia
    · intro hlt
      have hlt' : q.val < p.val := hlt
      have hq := q.isLt
      refine ⟨q.val, ?_, ?_⟩
      · simp
        lia
      · simp

section Table

variable {proc : Pslot -> Proc}

theorem ticketSum_succ {p : Pslot} (hp : (proc p).state = .RUNNABLE) :
    ticketSum proc (p.val + 1) = ticketSum proc p.val + (proc p).tickets := by
  have hlen : p.val < (List.finRange NPROC).length := by simp
  unfold ticketSum
  rw [List.take_succ_eq_append_getElem hlen, drawSum_append, drawSum_cons,
    drawSum_nil, add_zero]
  have hget : (List.finRange NPROC)[p.val] = p := by simp
  rw [hget, inDraw_of_runnable hp]

theorem ticketSum_bounds
    (hnonneg : forall q, (proc q).state = .RUNNABLE -> 0 ≤ (proc q).tickets)
    (n : Nat) : 0 ≤ ticketSum proc n ∧ ticketSum proc n ≤ ticketSum proc NPROC := by
  refine ⟨drawSum_nonneg hnonneg _, ?_⟩
  rw [← ticketSum_all proc, ← List.take_append_drop n (List.finRange NPROC),
    drawSum_append]
  have hrest := drawSum_nonneg hnonneg ((List.finRange NPROC).drop n)
  unfold ticketSum
  lia

theorem Tickets.fitsInt (h : Tickets proc) (n : Nat) :
    FitsInt (ticketSum proc n) := by
  have hbounds := ticketSum_bounds h.nonneg n
  have hfits := h.fits
  constructor
  · lia
  · lia

theorem Tickets.divisor (h : Tickets proc)
    (hroom : ticketSum proc NPROC < INT_MAX) :
    lotteryDivisor proc = some (ticketSum proc NPROC + 1) := by
  have hpos := h.pos
  refine (lotteryDivisor_iff proc _).mpr ⟨h.fitsInt, ?_, rfl⟩
  constructor
  · lia
  · lia

theorem Tickets.drawn_iff (h : Tickets proc)
    (hroom : ticketSum proc NPROC < INT_MAX) (w : Int) :
    (exists r, 0 ≤ r ∧ r ≤ RAND_MAX ∧ lotteryWinner proc r = some w) ↔
      0 ≤ w ∧ w ≤ ticketSum proc NPROC := by
  have hpos := h.pos
  have hwinner : forall r, lotteryWinner proc r =
      some (r.tmod (ticketSum proc NPROC + 1)) := by
    intro r
    unfold lotteryWinner
    rw [h.divisor hroom]
    exact if_neg (by lia)
  constructor
  · rintro ⟨r, hr, _, hw⟩
    rw [hwinner] at hw
    cases hw
    have hlow := Int.tmod_nonneg (ticketSum proc NPROC + 1) hr
    have hlt := Int.tmod_lt_of_pos r
      (show 0 < ticketSum proc NPROC + 1 by lia)
    exact ⟨hlow, by lia⟩
  · rintro ⟨hlow, hle⟩
    refine ⟨w, hlow, by lia, ?_⟩
    rw [hwinner, Int.tmod_eq_of_lt hlow (by lia)]

theorem Tickets.winners_eq (h : Tickets proc)
    (hroom : ticketSum proc NPROC < INT_MAX) {p : Pslot}
    (hp : (proc p).state = .RUNNABLE) :
    winners proc p = { w | 0 ≤ w ∧
      w ≤ ticketSum proc p.val + (proc p).tickets ∧
        ((exists q, q < p ∧ (proc q).state = .RUNNABLE) ->
          ticketSum proc p.val < w) } := by
  rcases finRange_split p with ⟨qs, hsplit, hqs, hmem⟩
  have hfits : forall n, FitsInt (0 + drawSum proc
      (((List.finRange NPROC).take p.val ++ p :: qs).take n)) := by
    intro n
    rw [← hsplit, zero_add]
    exact h.fitsInt n
  have hbounds := ticketSum_bounds h.nonneg (p.val + 1)
  rw [ticketSum_succ hp] at hbounds
  ext w
  have hpick := lotteryPick_append (w := w) h.nonneg hp
    (fun hself => lt_irrefl p ((hmem p).mp hself)) hqs hfits
  rw [← hsplit, zero_add] at hpick
  show (_ ∧ _) ↔ (_ ∧ _)
  rw [h.drawn_iff hroom, hpick]
  have hearlier : (exists q, q ∈ (List.finRange NPROC).take p.val ∧
      (proc q).state = .RUNNABLE) ↔
        exists q, q < p ∧ (proc q).state = .RUNNABLE := by
    simp only [hmem]
  rw [hearlier]
  constructor
  · rintro ⟨⟨hlow, _⟩, hle, hbin⟩
    exact ⟨hlow, hle, hbin⟩
  · rintro ⟨hlow, hle, hbin⟩
    exact ⟨⟨hlow, le_trans hle hbounds.2⟩, hle, hbin⟩

theorem Tickets.ncard_later (h : Tickets proc)
    (hroom : ticketSum proc NPROC < INT_MAX) {p : Pslot}
    (hp : (proc p).state = .RUNNABLE)
    (hearlier : exists q, q < p ∧ (proc q).state = .RUNNABLE) :
    ((winners proc p).ncard : Int) = (proc p).tickets := by
  have hlow := (ticketSum_bounds h.nonneg p.val).1
  have htickets := h.nonneg p hp
  have hset : winners proc p = ((Finset.Ioc (ticketSum proc p.val)
      (ticketSum proc p.val + (proc p).tickets) : Finset Int) : Set Int) := by
    rw [h.winners_eq hroom hp]
    ext w
    rw [Finset.coe_Ioc, Set.mem_Ioc]
    constructor
    · rintro ⟨_, hle, hbin⟩
      exact ⟨hbin hearlier, hle⟩
    · rintro ⟨hlt, hle⟩
      exact ⟨by lia, hle, fun _ => hlt⟩
  rw [hset, Set.ncard_coe_finset, Int.card_Ioc]
  lia

theorem Tickets.ncard_first (h : Tickets proc)
    (hroom : ticketSum proc NPROC < INT_MAX) {p : Pslot}
    (hp : (proc p).state = .RUNNABLE)
    (hfirst : ¬ exists q, q < p ∧ (proc q).state = .RUNNABLE) :
    ((winners proc p).ncard : Int) = (proc p).tickets + 1 := by
  rcases finRange_split p with ⟨_, _, _, hmem⟩
  have hzero : ticketSum proc p.val = 0 :=
    drawSum_of_none (fun q hq hrun => hfirst ⟨q, (hmem q).mp hq, hrun⟩)
  have htickets := h.nonneg p hp
  have hset : winners proc p =
      ((Finset.Icc 0 (proc p).tickets : Finset Int) : Set Int) := by
    rw [h.winners_eq hroom hp, hzero, zero_add]
    ext w
    rw [Finset.coe_Icc, Set.mem_Icc]
    constructor
    · rintro ⟨hlow, hle, _⟩
      exact ⟨hlow, hle⟩
    · rintro ⟨hlow, hle⟩
      exact ⟨hlow, hle, fun hearlier => absurd hearlier hfirst⟩
  rw [hset, Set.ncard_coe_finset, Int.card_Icc]
  lia

theorem Tickets.selects (h : Tickets proc)
    (hroom : ticketSum proc NPROC < INT_MAX)
    (hrun : exists q, (proc q).state = .RUNNABLE) (r : Int) (hr : 0 ≤ r)
    (hmax : r ≤ RAND_MAX) : exists w q, lotteryWinner proc r = some w ∧
      lotteryPick proc w (List.finRange NPROC) 0 = some (some q) ∧
        (proc q).state = .RUNNABLE := by
  have hne : ticketSum proc NPROC + 1 ≠ 0 := by
    have hpos := h.pos
    lia
  have hwinner : lotteryWinner proc r =
      some (r.tmod (ticketSum proc NPROC + 1)) := by
    unfold lotteryWinner
    rw [h.divisor hroom]
    exact if_neg hne
  have hle := ((h.drawn_iff hroom _).mp ⟨r, hr, hmax, hwinner⟩).2
  have hfits : forall n,
      FitsInt (0 + drawSum proc ((List.finRange NPROC).take n)) := by
    intro n
    rw [zero_add]
    exact h.fitsInt n
  have hreach : Reaches proc (r.tmod (ticketSum proc NPROC + 1)) 0
      (List.finRange NPROC) := by
    apply reaches_total
    · rcases hrun with ⟨q, hq⟩
      exact ⟨q, List.mem_finRange q, hq⟩
    · rw [ticketSum_all, zero_add]
      exact hle
  rcases (lotteryPick_iff hfits).mpr hreach with ⟨q, hpick, hq⟩
  exact ⟨_, q, hwinner, hpick, hq⟩

end Table

/-- The share of a runnable process is its tickets exactly if another runnable
process stands before it in the table and the total plus one is an `int`.  The
first runnable process has one winner more than tickets. -/
theorem fair_share_iff {proc : Pslot -> Proc} {p : Pslot} (h : Tickets proc)
    (hp : (proc p).state = .RUNNABLE) :
    (FairShare proc p ↔ ticketSum proc NPROC < INT_MAX ∧
      exists q, q < p ∧ (proc q).state = .RUNNABLE) ∧
      (ticketSum proc NPROC < INT_MAX ->
        (¬ exists q, q < p ∧ (proc q).state = .RUNNABLE) ->
          ((winners proc p).ncard : Int) = (proc p).tickets + 1) := by
  refine ⟨?_, fun hroom hfirst => h.ncard_first hroom hp hfirst⟩
  constructor
  · rintro ⟨hselects, hshare⟩
    have hroom : ticketSum proc NPROC < INT_MAX := by
      rcases hselects 0 (le_refl _) (by decide) with ⟨w, _, hw, _⟩
      rcases Option.bind_eq_some_iff.mp hw with ⟨d, hd, _⟩
      have hmax := ((lotteryDivisor_iff proc d).mp hd).2.1.2
      lia
    refine ⟨hroom, ?_⟩
    rcases Decidable.em (exists q, q < p ∧ (proc q).state = .RUNNABLE) with
      hearlier | hfirst
    · exact hearlier
    · have hmore := h.ncard_first hroom hp hfirst
      lia
  · rintro ⟨hroom, hearlier⟩
    exact ⟨h.selects hroom ⟨p, hp⟩, h.ncard_later hroom hp hearlier⟩

/-- Two runnable processes, the first without tickets and the second with
one. -/
def twoRunnable (q : Pslot) : Proc :=
  { boot.proc q with
    state := if q.val < 2 then .RUNNABLE else .UNUSED
    tickets := if q.val = 1 then 1 else 0 }

theorem twoRunnable_tickets : Tickets twoRunnable := by
  refine ⟨?_, by decide +kernel, by decide +kernel⟩
  intro q _
  show (0 : Int) ≤ if q.val = 1 then 1 else 0
  split
  · decide
  · decide

theorem fair_share_iff_second :
    FairShare twoRunnable 1 ∧ (twoRunnable 1).tickets = 1 :=
  ⟨(fair_share_iff twoRunnable_tickets rfl).1.mpr
    ⟨by decide +kernel, 0, by decide, rfl⟩, rfl⟩

/-- The winner zero selects a process that has no tickets. -/
theorem lottery_selects_without_tickets :
    Tickets twoRunnable ∧ (twoRunnable 0).state = .RUNNABLE ∧
      (twoRunnable 0).tickets = 0 ∧ 0 ∈ winners twoRunnable 0 ∧
        ((winners twoRunnable 0).ncard : Int) = 1 ∧
          ¬ FairShare twoRunnable 0 := by
  have hroom : ticketSum twoRunnable NPROC < INT_MAX := by decide +kernel
  have hfirst : ¬ exists q : Pslot, q < 0 ∧ (twoRunnable q).state = .RUNNABLE := by
    rintro ⟨q, hq, _⟩
    exact absurd hq (Fin.not_lt_zero q)
  have hcard : ((winners twoRunnable 0).ncard : Int) = 1 :=
    twoRunnable_tickets.ncard_first hroom rfl hfirst
  refine ⟨twoRunnable_tickets, rfl, rfl, ?_, hcard, ?_⟩
  · rw [twoRunnable_tickets.winners_eq hroom rfl]
    exact ⟨le_refl _, by decide +kernel, fun h => absurd h hfirst⟩
  · intro h
    have hshare := h.share
    rw [hcard] at hshare
    cases hshare

end Kernel
end Xv6
