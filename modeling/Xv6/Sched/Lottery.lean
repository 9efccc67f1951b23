import Xv6.Sched.Tickets

/-!
# The lottery scheduler

One iteration of `lottery_scheduler`: the tickets of the runnable processes are
summed up, a winner is drawn, and the first process whose bin reaches the winner
is dispatched.  Sums are of type `int`; a sum that overflows and a division by
zero have no value.
-/

namespace Xv6
namespace Kernel

open Lib Lib.Run

abbrev INT_MIN : Int := -2147483648
abbrev INT_MAX : Int := 2147483647

abbrev RAND_MAX : Int := 2147483647

def FitsInt (n : Int) : Prop := INT_MIN ≤ n ∧ n ≤ INT_MAX

instance (n : Int) : Decidable (FitsInt n) := inferInstanceAs (Decidable (_ ∧ _))

def addInt (a b : Int) : Option Int :=
  if FitsInt (a + b) then some (a + b) else none

def lotteryAdd (proc : Pslot -> Proc) (totalTickets : Int) (p : Pslot) :
    Option Int :=
  if (proc p).state = .RUNNABLE then
    addInt totalTickets (proc p).tickets
  else
    some totalTickets

def lotteryDivisor (proc : Pslot -> Proc) : Option Int := do
  let totalTickets ← (List.finRange NPROC).foldlM (lotteryAdd proc) 0
  addInt totalTickets 1

/-- The winner for the number `r` from `genrand`. -/
def lotteryWinner (proc : Pslot -> Proc) (r : Int) : Option Int := do
  let divisor ← lotteryDivisor proc
  if divisor = 0 then none else some (r.tmod divisor)

/-- The second loop over the remaining slots. -/
def lotteryPick (proc : Pslot -> Proc) (winner : Int) :
    List Pslot -> Int -> Option (Option Pslot)
  | [], _ => some none
  | p :: rest, ticketBin =>
      if (proc p).state ≠ .RUNNABLE then
        lotteryPick proc winner rest ticketBin
      else do
        let bin ← addInt ticketBin (proc p).tickets
        if bin < winner then
          lotteryPick proc winner rest bin
        else
          some (some p)

def lotteryRun (pr : Proc) : Proc :=
  { pr with
    executionCount :=
      if 1 < pr.tickets then pr.executionCount + 1 else pr.executionCount
    state := .RUNNING
    chan := none }

/-- An iteration up to the switch, for the number `r` from `genrand`: the table,
and the process that the CPU switches to. -/
def lotteryIteration (proc : Pslot -> Proc) (r : Int) :
    Option ((Pslot -> Proc) × Option Pslot) := do
  let winner ← lotteryWinner proc r
  match ← lotteryPick proc winner (List.finRange NPROC) 0 with
  | none => some (proc, none)
  | some p => some (Function.update proc p (lotteryRun (proc p)), some p)

/-!
## Sums of tickets
-/

/-- The tickets that take part in the lottery. -/
def inDraw (proc : Pslot -> Proc) (p : Pslot) : Int :=
  if (proc p).state = .RUNNABLE then (proc p).tickets else 0

def drawSum (proc : Pslot -> Proc) (ps : List Pslot) : Int :=
  (ps.map (inDraw proc)).sum

@[simp] theorem drawSum_nil (proc : Pslot -> Proc) : drawSum proc [] = 0 := rfl

@[simp] theorem drawSum_cons (proc : Pslot -> Proc) (p : Pslot)
    (ps : List Pslot) :
    drawSum proc (p :: ps) = inDraw proc p + drawSum proc ps := by
  simp [drawSum]

theorem inDraw_of_runnable {proc : Pslot -> Proc} {p : Pslot}
    (h : (proc p).state = .RUNNABLE) : inDraw proc p = (proc p).tickets :=
  if_pos h

theorem inDraw_of_not {proc : Pslot -> Proc} {p : Pslot}
    (h : (proc p).state ≠ .RUNNABLE) : inDraw proc p = 0 :=
  if_neg h

theorem lotteryAdd_eq {proc : Pslot -> Proc} {b : Int} (hb : FitsInt b)
    (p : Pslot) : lotteryAdd proc b p = addInt b (inDraw proc p) := by
  unfold lotteryAdd
  rcases Decidable.em ((proc p).state = .RUNNABLE) with hrun | hrun
  · rw [if_pos hrun, inDraw_of_runnable hrun]
  · rw [if_neg hrun, inDraw_of_not hrun]
    unfold addInt
    rw [add_zero, if_pos hb]

theorem foldlM_lotteryAdd {proc : Pslot -> Proc} {ps : List Pslot} {b s : Int}
    (hb : FitsInt b) : ps.foldlM (lotteryAdd proc) b = some s ↔
      (forall n, FitsInt (b + drawSum proc (ps.take n))) ∧
        s = b + drawSum proc ps := by
  induction ps generalizing b with
  | nil =>
      simp [hb]
      exact eq_comm
  | cons p ps ih =>
      rw [List.foldlM_cons, lotteryAdd_eq hb]
      unfold addInt
      rcases Decidable.em (FitsInt (b + inDraw proc p)) with hfits | hover
      · rw [if_pos hfits]
        show ps.foldlM (lotteryAdd proc) (b + inDraw proc p) = some s ↔ _
        rw [ih hfits, drawSum_cons, add_assoc]
        constructor
        · rintro ⟨hall, hs⟩
          refine ⟨?_, hs⟩
          intro n
          cases n with
          | zero => simpa using hb
          | succ n =>
              rw [List.take_succ_cons, drawSum_cons, ← add_assoc]
              exact hall n
        · rintro ⟨hall, hs⟩
          refine ⟨?_, hs⟩
          intro n
          have hn := hall (n + 1)
          rw [List.take_succ_cons, drawSum_cons, ← add_assoc] at hn
          exact hn
      · rw [if_neg hover]
        constructor
        · intro h
          cases h
        · rintro ⟨hall, _⟩
          have hone := hall 1
          simp at hone
          exact absurd hone hover

/-- The bin of some runnable process in `ps` reaches the winner. -/
def Reaches (proc : Pslot -> Proc) (winner b : Int) (ps : List Pslot) : Prop :=
  exists i p, ps[i]? = some p ∧ (proc p).state = .RUNNABLE ∧
    winner ≤ b + drawSum proc (ps.take (i + 1))

theorem reaches_cons (proc : Pslot -> Proc) (winner b : Int) (p : Pslot)
    (ps : List Pslot) : Reaches proc winner b (p :: ps) ↔
      ((proc p).state = .RUNNABLE ∧ winner ≤ b + inDraw proc p) ∨
        Reaches proc winner (b + inDraw proc p) ps := by
  constructor
  · rintro ⟨i, q, hi, hrun, hle⟩
    cases i with
    | zero =>
        cases hi
        simp at hle
        exact Or.inl ⟨hrun, hle⟩
    | succ i =>
        rw [List.take_succ_cons, drawSum_cons, ← add_assoc] at hle
        exact Or.inr ⟨i, q, hi, hrun, hle⟩
  · rintro (⟨hrun, hle⟩ | ⟨i, q, hi, hrun, hle⟩)
    · exact ⟨0, p, rfl, hrun, by simpa using hle⟩
    · refine ⟨i + 1, q, hi, hrun, ?_⟩
      rw [List.take_succ_cons, drawSum_cons, ← add_assoc]
      exact hle

theorem lotteryPick_of_not {proc : Pslot -> Proc} {p : Pslot}
    (h : (proc p).state ≠ .RUNNABLE) (winner b : Int) (ps : List Pslot) :
    lotteryPick proc winner (p :: ps) b = lotteryPick proc winner ps b :=
  if_pos h

theorem lotteryPick_of_runnable {proc : Pslot -> Proc} {p : Pslot} {b : Int}
    (h : (proc p).state = .RUNNABLE) (hfits : FitsInt (b + inDraw proc p))
    (winner : Int) (ps : List Pslot) :
    lotteryPick proc winner (p :: ps) b =
      if b + inDraw proc p < winner then
        lotteryPick proc winner ps (b + inDraw proc p)
      else
        some (some p) := by
  have hadd : addInt b (proc p).tickets = some (b + inDraw proc p) := by
    rw [← inDraw_of_runnable h]
    exact if_pos hfits
  rw [lotteryPick, if_neg (not_not.mpr h), hadd]
  rfl

theorem lotteryPick_iff {proc : Pslot -> Proc} {winner : Int} {ps : List Pslot}
    {b : Int} (hfits : forall n, FitsInt (b + drawSum proc (ps.take n))) :
    (exists p, lotteryPick proc winner ps b = some (some p) ∧
      (proc p).state = .RUNNABLE) ↔ Reaches proc winner b ps := by
  induction ps generalizing b with
  | nil => simp [lotteryPick, Reaches]
  | cons p ps ih =>
      have hrest : forall n,
          FitsInt (b + inDraw proc p + drawSum proc (ps.take n)) := by
        intro n
        have hn := hfits (n + 1)
        rw [List.take_succ_cons, drawSum_cons, ← add_assoc] at hn
        exact hn
      rw [reaches_cons, ← ih hrest]
      rcases Decidable.em ((proc p).state = .RUNNABLE) with hrun | hrun
      · rw [lotteryPick_of_runnable hrun (by simpa using hrest 0)]
        rcases lt_or_ge (b + inDraw proc p) winner with hlt | hge
        · rw [if_pos hlt]
          constructor
          · exact Or.inr
          · rintro (⟨_, hle⟩ | h)
            · lia
            · exact h
        · rw [if_neg (by lia)]
          exact iff_of_true ⟨p, rfl, hrun⟩ (Or.inl ⟨hrun, hge⟩)
      · rw [lotteryPick_of_not hrun, inDraw_of_not hrun, add_zero]
        constructor
        · exact Or.inr
        · rintro (⟨h, _⟩ | h)
          · exact absurd h hrun
          · exact h

theorem reaches_total {proc : Pslot -> Proc} {winner b : Int} {ps : List Pslot}
    (hrun : exists p, p ∈ ps ∧ (proc p).state = .RUNNABLE)
    (hle : winner ≤ b + drawSum proc ps) : Reaches proc winner b ps := by
  induction ps generalizing b with
  | nil =>
      rcases hrun with ⟨p, hp, _⟩
      cases hp
  | cons p ps ih =>
      rw [drawSum_cons, ← add_assoc] at hle
      rw [reaches_cons]
      rcases Decidable.em (exists q, q ∈ ps ∧ (proc q).state = .RUNNABLE) with
        hlater | hlast
      · exact Or.inr (ih hlater hle)
      · left
        have hnone : forall q, q ∈ ps -> inDraw proc q = 0 :=
          fun q hq => inDraw_of_not (fun h => hlast ⟨q, hq, h⟩)
        have hzero : drawSum proc ps = 0 := by
          unfold drawSum
          rw [List.map_congr_left hnone]
          simp
        rcases hrun with ⟨q, hq, hrunq⟩
        rcases List.mem_cons.mp hq with rfl | hq'
        · exact ⟨hrunq, by lia⟩
        · exact absurd ⟨q, hq', hrunq⟩ hlast

/-!
## When an iteration is defined and dispatches a process
-/

/-- The tickets of the runnable processes in the first `n` slots. -/
def ticketSum (proc : Pslot -> Proc) (n : Nat) : Int :=
  drawSum proc ((List.finRange NPROC).take n)

/-- The divisor has a value that is not zero, and if there is a runnable process
one is dispatched for every number that `genrand` can return. -/
def LotteryRight (proc : Pslot -> Proc) : Prop :=
  (exists divisor, lotteryDivisor proc = some divisor ∧ divisor ≠ 0) ∧
    ((exists q, (proc q).state = .RUNNABLE) ->
      forall r, 0 ≤ r -> r ≤ RAND_MAX ->
        exists proc' p, lotteryIteration proc r = some (proc', some p) ∧
          (proc p).state = .RUNNABLE)

/-- Every sum of tickets fits into an `int`, and so does the total plus one.
The total is not `-1`.  If it is negative some sum on the way is large enough
for every winner. -/
structure Drawable (proc : Pslot -> Proc) : Prop where
  fits : forall n, FitsInt (ticketSum proc n)
  room : FitsInt (ticketSum proc NPROC + 1)
  nonzero : ticketSum proc NPROC ≠ -1
  reach : (exists q, (proc q).state = .RUNNABLE) ->
    0 ≤ ticketSum proc NPROC ∨ exists q, (proc q).state = .RUNNABLE ∧
      -ticketSum proc NPROC - 2 ≤ ticketSum proc (q.val + 1)

theorem ticketSum_all (proc : Pslot -> Proc) :
    drawSum proc (List.finRange NPROC) = ticketSum proc NPROC := by
  unfold ticketSum
  rw [List.take_of_length_le (by simp)]

theorem lotteryDivisor_iff (proc : Pslot -> Proc) (d : Int) :
    lotteryDivisor proc = some d ↔
      (forall n, FitsInt (ticketSum proc n)) ∧
        FitsInt (ticketSum proc NPROC + 1) ∧ d = ticketSum proc NPROC + 1 := by
  have hfold : forall s,
      (List.finRange NPROC).foldlM (lotteryAdd proc) 0 = some s ↔
        (forall n, FitsInt (ticketSum proc n)) ∧ s = ticketSum proc NPROC := by
    intro s
    rw [foldlM_lotteryAdd (by decide), ticketSum_all]
    simp only [zero_add]
    exact Iff.rfl
  unfold lotteryDivisor
  constructor
  · intro h
    rcases Option.bind_eq_some_iff.mp h with ⟨s, hs, hadd⟩
    rcases (hfold s).mp hs with ⟨hall, rfl⟩
    unfold addInt at hadd
    split at hadd
    · exact ⟨hall, by assumption, (Option.some.inj hadd).symm⟩
    · cases hadd
  · rintro ⟨hall, hroom, rfl⟩
    rw [(hfold _).mpr ⟨hall, rfl⟩]
    exact if_pos hroom

theorem reaches_finRange (proc : Pslot -> Proc) (winner : Int) :
    Reaches proc winner 0 (List.finRange NPROC) ↔
      exists q, (proc q).state = .RUNNABLE ∧
        winner ≤ ticketSum proc (q.val + 1) := by
  unfold Reaches ticketSum
  constructor
  · rintro ⟨i, p, hi, hrun, hle⟩
    have hip : p.val = i := by
      rcases List.getElem?_eq_some_iff.mp hi with ⟨hlt, heq⟩
      rw [← heq]
      simp
    rw [zero_add, ← hip] at hle
    exact ⟨p, hrun, hle⟩
  · rintro ⟨q, hrun, hle⟩
    refine ⟨q.val, q, by simp, hrun, ?_⟩
    rw [zero_add]
    exact hle

theorem lotteryIteration_iff {proc : Pslot -> Proc} {d : Int}
    (hd : lotteryDivisor proc = some d) (hne : d ≠ 0) (r : Int) :
    (exists proc' p, lotteryIteration proc r = some (proc', some p) ∧
      (proc p).state = .RUNNABLE) ↔
      exists q, (proc q).state = .RUNNABLE ∧
        r.tmod d ≤ ticketSum proc (q.val + 1) := by
  have hwinner : lotteryWinner proc r = some (r.tmod d) := by
    unfold lotteryWinner
    rw [hd]
    exact if_neg hne
  have hfits : forall n,
      FitsInt (0 + drawSum proc ((List.finRange NPROC).take n)) := by
    intro n
    rw [zero_add]
    exact ((lotteryDivisor_iff proc d).mp hd).1 n
  rw [← reaches_finRange, ← lotteryPick_iff hfits]
  unfold lotteryIteration
  rw [hwinner, Option.bind_eq_bind, Option.bind_some]
  constructor
  · rintro ⟨proc', p, hiter, hrun⟩
    rcases Option.bind_eq_some_iff.mp hiter with ⟨o, hpick, hend⟩
    cases o with
    | none => cases hend
    | some q =>
        cases hend
        exact ⟨p, hpick, hrun⟩
  · rintro ⟨p, hpick, hrun⟩
    refine ⟨Function.update proc p (lotteryRun (proc p)), p, ?_, hrun⟩
    rw [hpick]
    rfl

theorem tmod_neg_divisor {t r : Int} (ht : t < -1) (hr : 0 ≤ r) :
    r.tmod (t + 1) ≤ -t - 2 ∧
      (r ≤ -t - 2 -> r.tmod (t + 1) = r) := by
  have hdivisor : t + 1 = -(-t - 1) := by lia
  rw [hdivisor, Int.tmod_neg]
  constructor
  · have hlt := Int.tmod_lt_of_pos r (show 0 < -t - 1 by lia)
    lia
  · intro hle
    exact Int.tmod_eq_of_lt hr (by lia)

theorem lotteryRight_iff (proc : Pslot -> Proc) :
    LotteryRight proc ↔ Drawable proc := by
  constructor
  · rintro ⟨⟨d, hd, hne⟩, hdispatch⟩
    rcases (lotteryDivisor_iff proc d).mp hd with ⟨hfits, hroom, rfl⟩
    refine ⟨hfits, hroom, by lia, ?_⟩
    intro hrun
    rcases lt_or_ge (ticketSum proc NPROC) 0 with hneg | hge
    · right
      have ht : ticketSum proc NPROC < -1 := by lia
      have hmin := (hfits NPROC).1
      have hr := (tmod_neg_divisor ht
        (show 0 ≤ -ticketSum proc NPROC - 2 by lia)).2 (le_refl _)
      rcases (lotteryIteration_iff hd hne _).mp
        (hdispatch hrun (-ticketSum proc NPROC - 2) (by lia) (by lia)) with
        ⟨q, hq, hle⟩
      rw [hr] at hle
      exact ⟨q, hq, hle⟩
    · exact Or.inl hge
  · intro h
    have hd : lotteryDivisor proc = some (ticketSum proc NPROC + 1) :=
      (lotteryDivisor_iff proc _).mpr ⟨h.fits, h.room, rfl⟩
    have hnonzero := h.nonzero
    have hne : ticketSum proc NPROC + 1 ≠ 0 := by lia
    refine ⟨⟨_, hd, hne⟩, ?_⟩
    intro hrun r hr _
    rw [lotteryIteration_iff hd hne]
    rcases lt_or_ge (ticketSum proc NPROC) 0 with hneg | hge
    · rcases (h.reach hrun).resolve_left (by lia) with ⟨q, hq, hle⟩
      have hwinner := (tmod_neg_divisor
        (show ticketSum proc NPROC < -1 by lia) hr).1
      exact ⟨q, hq, by lia⟩
    · have hwinner := Int.tmod_lt_of_pos r
        (show 0 < ticketSum proc NPROC + 1 by lia)
      rw [← reaches_finRange]
      apply reaches_total
      · rcases hrun with ⟨q, hq⟩
        exact ⟨q, List.mem_finRange q, hq⟩
      · rw [ticketSum_all]
        lia

/-!
## Runs
-/

/-- So many tickets in each of the slots add up to less than `INT_MAX`. -/
abbrev MAX_ASKED : Int := 33554431

/-- No call of `sys_tickets` asks for a negative number, or for more. -/
def AsksFew (_ : Kernel) (a : Act) : Prop :=
  forall q n, a = .tickets q (some n) -> 0 ≤ n.toInt ∧ n.toInt ≤ MAX_ASKED

def Few (s : Share) : Prop := 0 ≤ s.tickets ∧ s.tickets ≤ MAX_ASKED

theorem Few.resetTickets {pr : Proc} (h : Few pr.share) :
    Few (resetTickets pr).share := by
  unfold Kernel.resetTickets
  split
  · split
    · exact h
    · exact h
  · show (0 : Int) ≤ DEFAULT_TICKETS ∧ DEFAULT_TICKETS ≤ MAX_ASKED
    decide

theorem Few.shares {q : Pslot} {pr : Proc} {a : Act} {s : Share}
    (h : Few pr.share) (hs : Shares q pr a s)
    (ha : forall q n, a = .tickets q (some n) ->
      0 ≤ n.toInt ∧ n.toInt ≤ MAX_ASKED) : Few s := by
  cases hs with
  | same | taken => exact h
  | child cur _ =>
      have hchild : Few
          (Proc.share { pr with pass := 0, state := .RUNNABLE }) := h
      exact hchild.resetTickets
  | reset cur => exact h.resetTickets
  | tickets n => exact ha q n rfl

theorem booted_few {k : Kernel} (h : Booted k) (q : Pslot) :
    Few (k.proc q).share := by
  have hzero : Few { tickets := 0, stride := 0, pass := 0 } := by
    constructor
    · decide
    · decide
  rcases eq_or_ne q k.initproc with rfl | hne
  · rcases h.init with ⟨_, _, _, _, _, hinit⟩
    rw [hinit]
    exact hzero
  · rw [h.other q hne]
    exact hzero

theorem ticketSum_few {proc : Pslot -> Proc}
    (h : forall q, Few (proc q).share) (n : Nat) :
    0 ≤ ticketSum proc n ∧ ticketSum proc n ≤ 2147483584 := by
  have hdraw : forall q, 0 ≤ inDraw proc q ∧ inDraw proc q ≤ MAX_ASKED := by
    intro q
    unfold inDraw
    split
    · exact h q
    · decide
  unfold ticketSum drawSum
  constructor
  · apply List.sum_nonneg
    intro x hx
    rcases List.mem_map.mp hx with ⟨q, _, rfl⟩
    exact (hdraw q).1
  · have hsum := List.sum_le_card_nsmul
      (((List.finRange NPROC).take n).map (inDraw proc)) MAX_ASKED (by
        intro x hx
        rcases List.mem_map.mp hx with ⟨q, _, rfl⟩
        exact (hdraw q).2)
    have hlen : (((List.finRange NPROC).take n).map (inDraw proc)).length ≤ 64 := by
      simp
    rw [nsmul_eq_mul] at hsum
    have hcast : ((((List.finRange NPROC).take n).map (inDraw proc)).length : Int) ≤
        64 := by exact_mod_cast hlen
    unfold MAX_ASKED at hsum
    lia

theorem drawable_of_few {proc : Pslot -> Proc}
    (h : forall q, Few (proc q).share) : Drawable proc := by
  have hsum := ticketSum_few h
  have hall := hsum NPROC
  refine ⟨?_, ?_, by lia, fun _ => Or.inl hall.1⟩
  · intro n
    have hn := hsum n
    constructor
    · lia
    · lia
  · constructor
    · lia
    · lia

/-- An iteration is defined and dispatches a runnable process exactly if the
sums of tickets are drawable, and they are along every run in which no process
asks for a negative or a very large number of tickets. -/
theorem lottery_right_iff (proc : Pslot -> Proc) :
    (LotteryRight proc ↔ Drawable proc) ∧
      forall k₀ k, Booted k₀ -> Runs Step AsksFew k₀ k -> k.proc = proc ->
        LotteryRight proc := by
  refine ⟨lotteryRight_iff proc, ?_⟩
  rintro k₀ k hboot hruns rfl
  have hfew := hruns.invariant (I := fun k => forall q, Few (k.proc q).share)
    (booted_few hboot)
    (fun _ _ _ h hC hstep q => (h q).shares (step_shares hstep q) hC)
  exact (lotteryRight_iff k.proc).mpr (drawable_of_few hfew)

theorem lottery_right_iff_ticketed :
    exists k : Kernel, Runs Step AsksFew boot k ∧
      (k.proc 0).state = .RUNNABLE ∧ (k.proc 0).tickets = 5 ∧
        LotteryRight k.proc := by
  have hask : Runs Step AsksFew boot (next (.tickets 0 (some 5)) boot) := by
    refine Runs.tail (.tickets 0 (some 5)) Runs.refl ?_
      (step_next (enabled_call rfl rfl) rfl)
    intro q n h
    cases h
    decide
  have hyield : Runs Step AsksFew boot
      (play [.tickets 0 (some 5), .yield 0] boot) := by
    refine Runs.tail (.yield 0) hask ?_ (step_next (enabled_call rfl rfl) rfl)
    intro q n h
    cases h
  exact ⟨_, hyield, rfl, rfl,
    (lottery_right_iff _).2 boot _ boot_booted hyield rfl⟩

/-- `init` asks for `-1` tickets and yields: the divisor is zero. -/
theorem lottery_divides_by_zero :
    exists k : Kernel, Runs Step Called boot k ∧
      (k.proc 0).state = .RUNNABLE ∧ lotteryDivisor k.proc = some 0 ∧
        forall r, lotteryIteration k.proc r = none := by
  refine ⟨play [.tickets 0 (some (-1)), .yield 0] boot,
    runs_play Runs.refl (by decide +kernel), by decide +kernel, ?_⟩
  have hzero : lotteryDivisor
      (play [.tickets 0 (some (-1)), .yield 0] boot).proc = some 0 := by
    decide +kernel
  refine ⟨hzero, ?_⟩
  intro r
  unfold lotteryIteration lotteryWinner
  rw [hzero]
  rfl

end Kernel
end Xv6
