import Xv6.Sched.Stride

/-!
# The range of a pass

The stride of a process is the signed quotient of a constant and its tickets,
which a process chooses freely.  A stride is negative only for tickets between
`-TOTAL_MAX_TICKETS` and `-1`, and it is zero for the tickets beyond
`TOTAL_MAX_TICKETS` on either side.
-/

namespace Xv6
namespace Kernel

open Lib Lib.Run

/-- The tickets for which the quotient is not negative. -/
def Unsigned (n : Int) : Prop := n < -TOTAL_MAX_TICKETS ∨ 0 ≤ n

theorem tdiv_of_lt_neg {n : Int} (h : n < -TOTAL_MAX_TICKETS) :
    TOTAL_MAX_TICKETS.tdiv n = 0 := by
  have hneg : TOTAL_MAX_TICKETS.tdiv (-n) = 0 :=
    Int.tdiv_eq_zero_of_lt (by decide) (by lia)
  rw [Int.tdiv_neg] at hneg
  lia

theorem tdiv_range {n : Int} (h : Unsigned n) :
    0 ≤ TOTAL_MAX_TICKETS.tdiv n ∧
      TOTAL_MAX_TICKETS.tdiv n ≤ TOTAL_MAX_TICKETS := by
  rcases h with h | h
  · rw [tdiv_of_lt_neg h]
    decide
  · constructor
    · exact Int.tdiv_nonneg (by decide) h
    · exact Int.tdiv_le_self n (by decide)

theorem tdiv_pos_iff (n : Int) :
    0 < TOTAL_MAX_TICKETS.tdiv n ↔ 1 ≤ n ∧ n ≤ TOTAL_MAX_TICKETS := by
  constructor
  · intro hpos
    constructor
    · rcases lt_or_ge n 1 with hlt | hge
      · have hneg : 0 ≤ TOTAL_MAX_TICKETS.tdiv (-n) :=
          Int.tdiv_nonneg (by decide) (by lia)
        rw [Int.tdiv_neg] at hneg
        lia
      · exact hge
    · rcases lt_or_ge TOTAL_MAX_TICKETS n with hlt | hge
      · rw [Int.tdiv_eq_zero_of_lt (by decide) hlt] at hpos
        exact absurd hpos (lt_irrefl 0)
      · exact hge
  · rintro ⟨hone, htotal⟩
    rw [Int.tdiv_eq_ediv_of_nonneg (by decide)]
    have hquot : 1 ≤ TOTAL_MAX_TICKETS / n :=
      (Int.le_ediv_iff_mul_le (by lia)).mpr (by lia)
    lia

/-!
## What an iteration does to a slot
-/

inductive Iterated (s : Sched) (q : Pslot) : Proc -> Prop where
  | same : Iterated s q (s.kernel.proc q)
  | rescaled : Iterated s q (rescale (s.kernel.proc q))
  | run (h : (s.kernel.proc q).pass < maxPass) :
      Iterated s q (strideRun (rescale (s.kernel.proc q)))
  | reset : Iterated s q
      { s.kernel.proc q with pass := (s.kernel.proc q).stride }
  | resetRun : Iterated s q
      (strideRun { s.kernel.proc q with pass := (s.kernel.proc q).stride })

theorem iteration_above {s : Sched}
    (h : forall q, (s.kernel.proc q).state = .RUNNABLE ->
      maxPass ≤ (s.kernel.proc q).pass) (q : Pslot) :
    Iterated s q ((strideIteration s).kernel.proc q) := by
  rw [strideIteration_proc, scan_above h]
  rcases Decidable.em (exists p, s.min = some p ∧
      (s.kernel.proc p).state = .RUNNABLE) with ⟨p, hmin, hrun⟩ | hnone
  · rw [strideSwitch_some hmin hrun]
    have hsettled : Pick.settled
        { minpass := maxPass, min := s.min, proc := s.kernel.proc } =
        fun q => { s.kernel.proc q with pass := (s.kernel.proc q).stride } :=
      if_pos ⟨le_refl _, show (0 : Int) < maxPass by decide⟩
    rw [hsettled]
    rcases eq_or_ne q p with rfl | hq
    · simp only [Function.update_self]
      exact Iterated.resetRun
    · simp only [Function.update_of_ne hq]
      exact Iterated.reset
  · rw [strideSwitch_none (fun p hp hrun => hnone ⟨p, hp, hrun⟩)]
    exact Iterated.same

theorem iteration_slot (s : Sched) (q : Pslot) :
    Iterated s q ((strideIteration s).kernel.proc q) := by
  rcases below_or_above s.kernel.proc with hbelow | habove
  · rcases iteration_below hbelow with ⟨p, hleast, _, _, hslot, hother⟩
    rcases eq_or_ne q p with rfl | hq
    · rw [hslot]
      apply Iterated.run
      rcases hbelow with ⟨r, hrun, hlt⟩
      have hle := hleast.2 r hrun
      lia
    · rcases hother q hq with heq | heq
      · rw [heq]
        exact Iterated.same
      · rw [heq]
        exact Iterated.rescaled
  · exact iteration_above habove q

/-!
## The range
-/

/-- The stride and the pass are in range, and the tickets will give a stride
that is. -/
structure Ranged (s : Share) : Prop where
  tickets : Unsigned s.tickets
  stride : 0 ≤ s.stride ∧ s.stride ≤ TOTAL_MAX_TICKETS
  pass : 0 ≤ s.pass ∧ s.pass ≤ maxPass + TOTAL_MAX_TICKETS

theorem Ranged.resetTickets {pr : Proc} (h : Ranged pr.share) :
    Ranged (resetTickets pr).share := by
  unfold Kernel.resetTickets
  split
  · split
    · have hrange := tdiv_range h.tickets
      refine ⟨h.tickets, hrange, hrange.1, ?_⟩
      show TOTAL_MAX_TICKETS.tdiv pr.tickets ≤ _
      have hle : TOTAL_MAX_TICKETS.tdiv pr.tickets ≤ TOTAL_MAX_TICKETS :=
        hrange.2
      unfold maxPass
      lia
    · exact h
  · refine ⟨Or.inr ?_, ?_, h.pass⟩
    · show (0 : Int) ≤ DEFAULT_TICKETS
      decide
    · show (0 : Int) ≤ 0 ∧ (0 : Int) ≤ TOTAL_MAX_TICKETS
      decide

theorem Ranged.rescale {pr : Proc} (h : Ranged pr.share) :
    Ranged (rescale pr).share := by
  refine ⟨h.tickets, ?_, h.pass⟩
  unfold Kernel.rescale
  show 0 ≤ ite _ _ _ ∧ ite _ _ _ ≤ _
  split
  · exact tdiv_range h.tickets
  · exact h.stride

theorem Ranged.run {pr : Proc} (h : Ranged pr.share) (hlt : pr.pass < maxPass) :
    Ranged (strideRun pr).share := by
  refine ⟨h.tickets, h.stride, ?_⟩
  have hpass : 0 ≤ pr.pass := h.pass.1
  have hstride : 0 ≤ pr.stride ∧ pr.stride ≤ TOTAL_MAX_TICKETS := h.stride
  show 0 ≤ pr.pass + pr.stride ∧ pr.pass + pr.stride ≤ _
  lia

theorem Ranged.reset {pr : Proc} (h : Ranged pr.share) :
    Ranged (Proc.share { pr with pass := pr.stride }) := by
  have hstride : 0 ≤ pr.stride ∧ pr.stride ≤ TOTAL_MAX_TICKETS := h.stride
  refine ⟨h.tickets, h.stride, hstride.1, ?_⟩
  show pr.stride ≤ _
  unfold maxPass
  lia

theorem Ranged.iterated {s : Sched} {q : Pslot} {pr : Proc}
    (h : Ranged (s.kernel.proc q).share) (hpr : Iterated s q pr) :
    Ranged pr.share := by
  cases hpr with
  | same => exact h
  | rescaled => exact h.rescale
  | run hlt => exact h.rescale.run hlt
  | reset => exact h.reset
  | resetRun =>
      apply h.reset.run
      have hstride : (s.kernel.proc q).stride ≤ TOTAL_MAX_TICKETS := h.stride.2
      show (s.kernel.proc q).stride < maxPass
      unfold TOTAL_MAX_TICKETS at hstride
      unfold maxPass
      lia

/-- No call of `sys_tickets` asks for tickets that give a negative stride. -/
def AsksUnsigned (_ : Sched) (a : SchedAct) : Prop :=
  forall q n, a = .call (.tickets q (some n)) -> Unsigned n.toInt

theorem Ranged.shares {q : Pslot} {pr : Proc} {a : Act} {s : Share}
    (h : Ranged pr.share) (hs : Shares q pr a s)
    (ha : forall q n, a = .tickets q (some n) -> Unsigned n.toInt) :
    Ranged s := by
  have htaken : Ranged { pr.share with pass := 0 } := by
    refine ⟨h.tickets, h.stride, ?_⟩
    show (0 : Int) ≤ 0 ∧ 0 ≤ maxPass + TOTAL_MAX_TICKETS
    decide
  cases hs with
  | same => exact h
  | taken _ hunused => exact htaken
  | child cur hunused =>
      have hchild : Ranged
          (Proc.share { pr with pass := 0, state := .RUNNABLE }) := htaken
      exact hchild.resetTickets
  | reset cur => exact h.resetTickets
  | tickets n => exact ⟨ha q n rfl, h.stride, h.pass⟩

theorem ranged_step {s s' : Sched} {a : SchedAct}
    (h : forall q, Ranged (s.kernel.proc q).share) (hC : AsksUnsigned s a)
    (hstep : SchedStep s a s') (q : Pslot) :
    Ranged (s'.kernel.proc q).share := by
  cases a with
  | call a =>
      apply (h q).shares (step_shares hstep.2.1 q)
      rintro p n rfl
      exact hC p n rfl
  | stride =>
      rw [show s' = strideIteration s from hstep]
      exact (h q).iterated (iteration_slot s q)

theorem booted_ranged {k : Kernel} (h : Booted k) (q : Pslot) :
    Ranged (k.proc q).share := by
  have hzero : Ranged { tickets := 0, stride := 0, pass := 0 } := by
    constructor
    · exact Or.inr (le_refl 0)
    · decide
    · decide
  rcases eq_or_ne q k.initproc with rfl | hne
  · rcases h.init with ⟨_, _, _, _, _, hinit⟩
    rw [hinit]
    exact hzero
  · rw [h.other q hne]
    exact hzero

/-- The tickets of a process, or its stride if it has none, let its pass
grow. -/
def Paced (pr : Proc) : Prop :=
  (1 ≤ pr.tickets ∧ pr.tickets ≤ TOTAL_MAX_TICKETS) ∨
    (pr.tickets = 0 ∧ 0 < pr.stride)

theorem rescale_pos_iff (pr : Proc) : 0 < (rescale pr).stride ↔ Paced pr := by
  unfold rescale Paced
  rcases eq_or_ne pr.tickets 0 with hzero | hne
  · simp [hzero]
  · simp [hne, tdiv_pos_iff]

/-- Along every run in which no process asks for tickets that give a negative
stride, every pass stays in range.  A dispatch without a reset increases the
pass exactly if the process is paced. -/
theorem stride_in_range {s₀ s : Sched} (hboot : Booted s₀.kernel)
    (hruns : Runs SchedStep AsksUnsigned s₀ s) :
    (forall p, 0 ≤ (s.kernel.proc p).pass ∧
      (s.kernel.proc p).pass ≤ maxPass + TOTAL_MAX_TICKETS) ∧
      forall p, dispatched s.min s.kernel.proc = some p ->
        ¬ (strideScan s.min s.kernel.proc).resets ->
          ((s.kernel.proc p).pass <
            ((strideIteration s).kernel.proc p).pass ↔
              Paced (s.kernel.proc p)) := by
  constructor
  · intro p
    have hranged := hruns.invariant
      (I := fun s => forall q, Ranged (s.kernel.proc q).share)
      (booted_ranged hboot) (fun _ _ _ h hC hstep => ranged_step h hC hstep)
    exact (hranged p).pass
  · intro p hp hresets
    rcases below_or_above s.kernel.proc with hbelow | habove
    · rcases iteration_below hbelow with ⟨q, _, _, hq, hslot, _⟩
      have hpq : p = q := Option.some.inj (hp.symm.trans hq)
      subst hpq
      rw [← rescale_pos_iff, hslot]
      show _ < (s.kernel.proc p).pass + (rescale (s.kernel.proc p)).stride ↔ _
      lia
    · rw [scan_above habove] at hresets
      exact absurd ⟨le_refl _, show (0 : Int) < maxPass by decide⟩ hresets

theorem bootSched_booted : Booted Sched.boot.kernel := by
  constructor
  · exact ⟨pageAddr 0x400, pageAddr 0x401, 0, .RUNNABLE, Or.inl rfl, rfl⟩
  · intro p hp
    exact (Function.update_of_ne hp _ _).trans (if_neg hp)
  · rfl
  · rfl
  · exact fun _ => ⟨rfl, rfl⟩

theorem stride_in_range_ticketed :
    exists s, Runs SchedStep AsksUnsigned Sched.boot s ∧
      (0 ≤ (s.kernel.proc 0).pass ∧
        (s.kernel.proc 0).pass ≤ maxPass + TOTAL_MAX_TICKETS) ∧
        dispatched s.min s.kernel.proc = some 0 ∧ Paced (s.kernel.proc 0) ∧
          (s.kernel.proc 0).pass <
            ((strideIteration s).kernel.proc 0).pass := by
  have hrun : Runs SchedStep AsksUnsigned Sched.boot
      (strideIteration Sched.boot) :=
    Runs.tail .stride Runs.refl (fun _ _ => SchedAct.noConfusion) rfl
  have hask : Runs SchedStep AsksUnsigned Sched.boot (ticketed 5) := by
    refine Runs.tail (.call (.tickets 0 (some 5))) hrun ?_
      ⟨fun _ => Act.noConfusion, ?_, rfl⟩
    · intro q n h
      cases h
      right
      decide
    · exact step_next (enabled_call rfl (ticketed_running 5)) rfl
  have hyield : Runs SchedStep AsksUnsigned Sched.boot
      { kernel := next (.yield 0) (ticketed 5).kernel
        min := (ticketed 5).min } := by
    refine Runs.tail (.call (.yield 0)) hask ?_
      ⟨fun _ => Act.noConfusion, ?_, rfl⟩
    · intro q n h
      cases h
    · exact step_next (enabled_call rfl (ticketed_running 5)) rfl
  have hrange := stride_in_range bootSched_booted hyield
  have hpaced : Paced ((next (.yield 0) (ticketed 5).kernel).proc 0) :=
    Or.inl (by decide +kernel)
  exact ⟨_, hyield, hrange.1 0, by decide +kernel, hpaced,
    (hrange.2 0 (by decide +kernel) (by decide +kernel)).mpr hpaced⟩

/-- `init` asks for `-1` tickets and forks, and has a negative pass.  Already
the first dispatch of `init` leaves its pass at zero. -/
theorem pass_negative_and_stuck :
    (exists s : Sched, s.Reached ∧ (s.kernel.proc 0).pass = -100000) ∧
      dispatched Sched.boot.min Sched.boot.kernel.proc = some 0 ∧
        ¬ (strideScan Sched.boot.min Sched.boot.kernel.proc).resets ∧
          ((strideIteration Sched.boot).kernel.proc 0).pass =
            (Sched.boot.kernel.proc 0).pass := by
  constructor
  · rcases fork_returns (ticketed_canFork (-1)) with
      ⟨k, hfork, _, p, kstack, pgdir, hp, _, hprocs⟩
    have hne : (0 : Pslot) ≠ p := by
      rintro rfl
      rw [ticketed_running] at hp
      cases hp
    refine ⟨_, reached_call (ticketed_reached (-1)) (a := .fork 0)
      (fun _ => Act.noConfusion) (enabled_call rfl (ticketed_running (-1)))
      hfork, ?_⟩
    have hslot : k.proc 0 = resetTickets ((ticketed (-1)).kernel.proc 0) :=
      (congrArg (fun t => Procs.proc t 0) hprocs).trans
        (Procs.forked_of_ne _ _ hne _ _)
    show (k.proc 0).pass = _
    rw [hslot, (ticketed_proc (-1)).1]
    decide
  · decide +kernel

end Kernel
end Xv6
