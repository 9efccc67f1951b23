import Xv6.Lib.Schedule

/-!
# The frisbee game

The threads of `prog3`, each of which runs `worker`.  A thread takes one step at
a time: the test of the loop, the test for the last pass, an attempt to get the
lock, the test whose turn it is, a pass, and the release of the lock.  The
lock is a word that `xchg` sets and clears.
-/

namespace Xv6
namespace Frisbee

open Lib

/-- Where a thread stands in `worker`. -/
inductive Pc where
  | loop
  | check
  | acquire
  | turn
  | pass
  | release
  | done
  deriving DecidableEq, Repr

/-- The variables of the program, the place of every thread, and the threads
that have made a pass, in order. -/
structure Game (n : Nat) where
  output : Nat
  passnum : Nat
  workpid : Nat
  locked : Bool
  pc : Fin n -> Pc
  passes : List (Fin n)

variable {n : Nat}

def Game.goto (s : Game n) (t : Fin n) (pc : Pc) : Game n :=
  { s with pc := Function.update s.pc t pc }

def next (t : Fin n) (s : Game n) : Game n :=
  match s.pc t with
  | .loop =>
      if s.output < s.passnum then s.goto t .check else s.goto t .done
  | .check =>
      if s.output = s.passnum then s.goto t .done else s.goto t .acquire
  | .acquire =>
      if s.locked then s else { s.goto t .turn with locked := true }
  | .turn =>
      if t.val = s.workpid then s.goto t .pass else s.goto t .release
  | .pass =>
      { s.goto t .release with
        output := s.output + 1
        workpid := if s.workpid + 1 = n then 0 else s.workpid + 1
        passes := s.passes ++ [t] }
  | .release => { s.goto t .loop with locked := false }
  | .done => s

def start (n m : Nat) : Game n where
  output := 0
  passnum := m
  workpid := 0
  locked := false
  pc := fun _ => .loop
  passes := []

def Finished (s : Game n) : Prop := forall t, s.pc t = .done

/-- Along every interleaving the passes are made in turn, and there are `m` of
them when all threads have finished. -/
def PassesRight (n m : Nat) : Prop :=
  forall s, Interleaves next (start n m) s ->
    (forall k t, s.passes[k]? = some t -> t.val = k % n) ∧
      (Finished s -> s.output = m)

/-!
## What a step does
-/

def Critical (pc : Pc) : Prop := pc = .turn ∨ pc = .pass ∨ pc = .release

/-- The places between the test of the loop and the end of a pass. -/
def Past (pc : Pc) : Prop :=
  pc = .check ∨ pc = .acquire ∨ pc = .turn ∨ pc = .pass

instance (pc : Pc) : Decidable (Past pc) := inferInstanceAs (Decidable (_ ∨ _))

/-- The cases of a step. -/
inductive Moved (t : Fin n) (s : Game n) : Game n -> Prop where
  | same : Moved t s s
  | enter (h : s.pc t = .loop) (hlt : s.output < s.passnum) :
      Moved t s (s.goto t .check)
  | leave (h : s.pc t = .loop ∨ s.pc t = .check)
      (hge : s.passnum ≤ s.output) : Moved t s (s.goto t .done)
  | ask (h : s.pc t = .check) : Moved t s (s.goto t .acquire)
  | lock (h : s.pc t = .acquire) (hfree : s.locked = false) :
      Moved t s { s.goto t .turn with locked := true }
  | mine (h : s.pc t = .turn) (hwork : s.workpid = t.val) :
      Moved t s (s.goto t .pass)
  | other (h : s.pc t = .turn) : Moved t s (s.goto t .release)
  | pass (h : s.pc t = .pass) :
      Moved t s { s.goto t .release with
        output := s.output + 1
        workpid := if s.workpid + 1 = n then 0 else s.workpid + 1
        passes := s.passes ++ [t] }
  | unlock (h : s.pc t = .release) :
      Moved t s { s.goto t .loop with locked := false }

theorem next_moved (t : Fin n) (s : Game n) : Moved t s (next t s) := by
  unfold next
  cases hpc : s.pc t with
  | loop =>
      dsimp only
      split
      · exact Moved.enter hpc (by assumption)
      · exact Moved.leave (Or.inl hpc) (by lia)
  | check =>
      dsimp only
      split
      · exact Moved.leave (Or.inr hpc) (by lia)
      · exact Moved.ask hpc
  | acquire =>
      dsimp only
      split
      · exact Moved.same
      · exact Moved.lock hpc (Bool.eq_false_iff.mpr (by assumption))
  | turn =>
      dsimp only
      split
      · exact Moved.mine hpc (Eq.symm (by assumption))
      · exact Moved.other hpc
  | pass => exact Moved.pass hpc
  | release => exact Moved.unlock hpc
  | done => exact Moved.same

theorem Moved.passnum {t : Fin n} {s s' : Game n} (h : Moved t s s') :
    s'.passnum = s.passnum := by
  cases h <;> rfl

theorem goto_pc (s : Game n) (t u : Fin n) (pc : Pc) :
    (s.goto t pc).pc u = if u = t then pc else s.pc u := by
  unfold Game.goto
  rcases eq_or_ne u t with rfl | hne
  · simp
  · simp [hne]

/-!
## Turns
-/

/-- The lock has one holder, and the passes have been made in turn. -/
structure Turns (s : Game n) : Prop where
  locked : forall t, Critical (s.pc t) -> s.locked = true
  one : forall t u, Critical (s.pc t) -> Critical (s.pc u) -> t = u
  mine : forall t, s.pc t = .pass -> s.workpid = t.val
  work : s.workpid = s.output % n
  count : s.passes.length = s.output
  order : forall k t, s.passes[k]? = some t -> t.val = k % n

theorem turns_start (m : Nat) : Turns (start n m) where
  locked := by
    rintro t (h | h | h) <;> cases h
  one := by
    rintro t u (h | h | h) <;> cases h
  mine := by
    intro t h
    cases h
  work := (Nat.zero_mod n).symm
  count := rfl
  order := by
    intro k t h
    cases h

theorem Turns.goto {s : Game n} {t : Fin n} {pc : Pc} (h : Turns s)
    (hcritical : Critical pc -> Critical (s.pc t))
    (hpass : pc = .pass -> s.workpid = t.val) : Turns (s.goto t pc) where
  locked := by
    intro u hu
    rw [goto_pc] at hu
    split at hu
    · exact h.locked t (hcritical hu)
    · exact h.locked u hu
  one := by
    intro u v hu hv
    have hback : forall u, Critical ((s.goto t pc).pc u) ->
        Critical (s.pc u) := by
      intro u hu
      rw [goto_pc] at hu
      split at hu
      · rename_i heq
        rw [heq]
        exact hcritical hu
      · exact hu
    exact h.one u v (hback u hu) (hback v hv)
  mine := by
    intro u hu
    rw [goto_pc] at hu
    split at hu
    · rename_i heq
      rw [heq]
      exact hpass hu
    · exact h.mine u hu
  work := h.work
  count := h.count
  order := h.order

theorem succ_mod_eq (hn : 0 < n) (k : Nat) :
    (k + 1) % n = if k % n + 1 = n then 0 else k % n + 1 := by
  have hlt := Nat.mod_lt k hn
  rw [← Nat.mod_add_mod]
  split
  · rename_i hlast
    rw [hlast, Nat.mod_self]
  · exact Nat.mod_eq_of_lt (by lia)

theorem turns_lock {s : Game n} {t : Fin n} (h : Turns s)
    (hfree : s.locked = false) :
    Turns { s.goto t .turn with locked := true } where
  locked := fun _ _ => rfl
  one := by
    have hnone : forall u, ¬ Critical (s.pc u) := by
      intro u hu
      have hlocked := h.locked u hu
      rw [hfree] at hlocked
      cases hlocked
    have hself : forall u, Critical ((s.goto t .turn).pc u) -> u = t := by
      intro u hu
      rw [goto_pc] at hu
      split at hu
      · assumption
      · exact absurd hu (hnone u)
    intro u v hu hv
    rw [hself u hu, hself v hv]
  mine := by
    intro u hu
    have hpc : (s.goto t .turn).pc u = .pass := hu
    rw [goto_pc] at hpc
    split at hpc
    · cases hpc
    · exact h.mine u hpc
  work := h.work
  count := h.count
  order := h.order

theorem turns_unlock {s : Game n} {t : Fin n} (h : Turns s)
    (hpc : s.pc t = .release) :
    Turns { s.goto t .loop with locked := false } := by
  have hnone : forall u, ¬ Critical ((s.goto t .loop).pc u) := by
    intro u hu
    rw [goto_pc] at hu
    split at hu
    · rcases hu with hu | hu | hu <;> cases hu
    · rename_i hne
      exact hne (h.one u t hu (Or.inr (Or.inr hpc)))
  exact
    { locked := fun u hu => absurd hu (hnone u)
      one := fun u _ hu _ => absurd hu (hnone u)
      mine := fun u hu => absurd (Or.inr (Or.inl hu)) (hnone u)
      work := h.work
      count := h.count
      order := h.order }

theorem turns_pass {s : Game n} {t : Fin n} (h : Turns s)
    (hpc : s.pc t = .pass) :
    Turns { s.goto t .release with
      output := s.output + 1
      workpid := if s.workpid + 1 = n then 0 else s.workpid + 1
      passes := s.passes ++ [t] } := by
  have hcritical : Critical (s.pc t) := Or.inr (Or.inl hpc)
  have hmoved : Turns (s.goto t .release) :=
    h.goto (fun _ => hcritical) Pc.noConfusion
  have hn : 0 < n := Nat.zero_lt_of_lt t.isLt
  exact
    { locked := hmoved.locked
      one := hmoved.one
      mine := by
        -- No other thread is at a pass while `t` has the lock.
        intro u hu
        have hat : (s.goto t .release).pc u = .pass := hu
        rw [goto_pc] at hat
        split at hat
        · cases hat
        · rename_i hne
          exact absurd (h.one u t (Or.inr (Or.inl hat)) hcritical) hne
      work := by
        show (if s.workpid + 1 = n then 0 else s.workpid + 1) = _
        rw [h.work, succ_mod_eq hn]
      count := by
        show (s.passes ++ [t]).length = s.output + 1
        rw [List.length_append, h.count]
        rfl
      order := by
        intro k u hk
        have hget : (s.passes ++ [t])[k]? = some u := hk
        rcases lt_or_ge k s.passes.length with hlt | hge
        · rw [List.getElem?_append_left hlt] at hget
          exact h.order k u hget
        · rw [List.getElem?_append_right hge] at hget
          rcases List.getElem?_eq_some_iff.mp hget with ⟨hone, heq⟩
          have hlast : k = s.output := by
            have hlen : k - s.passes.length < 1 := hone
            have hcount := h.count
            lia
          have hself : t = u := by
            rw [← heq]
            simp
          rw [hlast, ← h.work, ← hself]
          exact (h.mine t hpc).symm }

theorem turns_next {s : Game n} (h : Turns s) (t : Fin n) :
    Turns (next t s) := by
  have hplain : forall pc, ¬ Critical pc -> Turns (s.goto t pc) :=
    fun pc hpc => h.goto (fun hc => absurd hc hpc)
      (fun heq => absurd (Or.inr (Or.inl heq)) hpc)
  have hmoved := next_moved t s
  generalize next t s = s' at hmoved
  cases hmoved with
  | same => exact h
  | enter => exact hplain .check (by rintro (h | h | h) <;> cases h)
  | leave => exact hplain .done (by rintro (h | h | h) <;> cases h)
  | ask => exact hplain .acquire (by rintro (h | h | h) <;> cases h)
  | lock _ hfree => exact turns_lock h hfree
  | mine hpc hwork => exact h.goto (fun _ => Or.inl hpc) (fun _ => hwork)
  | other hpc => exact h.goto (fun _ => Or.inl hpc) Pc.noConfusion
  | pass hpc => exact turns_pass h hpc
  | unlock hpc => exact turns_unlock h hpc

/-!
## How many passes

Once the last pass has been made no thread gets past the test of the loop, and
each of those that are past it makes at most one pass more.
-/

def past (s : Game n) : Finset (Fin n) :=
  Finset.univ.filter (fun t => Past (s.pc t))

theorem mem_past {s : Game n} {t : Fin n} : t ∈ past s ↔ Past (s.pc t) := by
  simp [past]

structure Bounded (s : Game n) : Prop where
  most : s.output < s.passnum ∨ s.output + (past s).card < s.passnum + n
  least : forall t, s.pc t = .done -> s.passnum ≤ s.output

theorem past_goto {s : Game n} {t : Fin n} {pc : Pc}
    (h : Past pc -> Past (s.pc t)) : past (s.goto t pc) ⊆ past s := by
  intro u hu
  rw [mem_past, goto_pc] at hu
  rw [mem_past]
  split at hu
  · rename_i heq
    rw [heq]
    exact h hu
  · exact hu

theorem Bounded.goto {s : Game n} {t : Fin n} {pc : Pc} (h : Bounded s)
    (hpast : s.output < s.passnum ∨ (Past pc -> Past (s.pc t)))
    (hdone : pc = .done -> s.passnum ≤ s.output) : Bounded (s.goto t pc) where
  most := by
    show s.output < s.passnum ∨ s.output + _ < s.passnum + n
    rcases hpast with hlt | hsub
    · exact Or.inl hlt
    · have hcard := Finset.card_le_card (past_goto hsub)
      have hmost := h.most
      lia
  least := by
    intro u hu
    show s.passnum ≤ s.output
    rw [goto_pc] at hu
    split at hu
    · exact hdone hu
    · exact h.least u hu

theorem bounded_pass {s : Game n} {t : Fin n} (h : Bounded s)
    (hpc : s.pc t = .pass) (workpid : Nat) (passes : List (Fin n)) :
    Bounded { s.goto t .release with
      output := s.output + 1, workpid := workpid, passes := passes } where
  most := by
    have hout : past (s.goto t .release) ⊆ (past s).erase t := by
      intro u hu
      rw [mem_past, goto_pc] at hu
      split at hu
      · rcases hu with hu | hu | hu | hu <;> cases hu
      · rename_i hne
        exact Finset.mem_erase.mpr ⟨hne, mem_past.mpr hu⟩
    have hmem : t ∈ past s :=
      mem_past.mpr (Or.inr (Or.inr (Or.inr hpc)))
    have hcard := Finset.card_le_card hout
    rw [Finset.card_erase_of_mem hmem] at hcard
    have hpos := Finset.card_pos.mpr ⟨t, hmem⟩
    have hall : (past s).card ≤ n := by
      simpa using Finset.card_le_univ (past s)
    have hmost := h.most
    show s.output + 1 < s.passnum ∨
      s.output + 1 + (past (s.goto t .release)).card < s.passnum + n
    lia
  least := by
    intro u hu
    show s.passnum ≤ s.output + 1
    have hat : (s.goto t .release).pc u = .done := hu
    rw [goto_pc] at hat
    split at hat
    · cases hat
    · exact Nat.le_succ_of_le (h.least u hat)

theorem bounded_next {s : Game n} (h : Bounded s) (t : Fin n) :
    Bounded (next t s) := by
  have hmoved := next_moved t s
  generalize next t s = s' at hmoved
  have hrelease : ¬ Past .release := by
    rintro (h | h | h | h) <;> cases h
  have hloop : ¬ Past .loop := by
    rintro (h | h | h | h) <;> cases h
  cases hmoved with
  | same => exact h
  | enter _ hlt => exact h.goto (Or.inl hlt) Pc.noConfusion
  | leave hpc hge =>
      refine h.goto (Or.inr ?_) (fun _ => hge)
      rintro (h | h | h | h) <;> cases h
  | ask hpc => exact h.goto (Or.inr (fun _ => Or.inl hpc)) Pc.noConfusion
  | lock hpc _ =>
      have hturn : Bounded (s.goto t .turn) :=
        h.goto (Or.inr (fun _ => Or.inr (Or.inl hpc))) Pc.noConfusion
      exact ⟨hturn.most, hturn.least⟩
  | mine hpc _ =>
      exact h.goto (Or.inr (fun _ => Or.inr (Or.inr (Or.inl hpc))))
        Pc.noConfusion
  | other hpc =>
      exact h.goto (Or.inr (fun hp => absurd hp hrelease)) Pc.noConfusion
  | pass hpc => exact bounded_pass h hpc _ _
  | unlock hpc =>
      have hback : Bounded (s.goto t .loop) :=
        h.goto (Or.inr (fun hp => absurd hp hloop)) Pc.noConfusion
      exact ⟨hback.most, hback.least⟩

theorem bounded_start (hn : 0 < n) (m : Nat) : Bounded (start n m) where
  most := by
    have hnone : past (start n m) = ∅ := by
      rw [Finset.eq_empty_iff_forall_notMem]
      intro t ht
      rcases mem_past.mp ht with h | h | h | h <;> cases h
    rw [hnone]
    show 0 < m ∨ 0 + 0 < m + n
    lia
  least := by
    intro t h
    cases h

theorem passnum_kept {m : Nat} {s : Game n} (h : Interleaves next (start n m) s) :
    s.passnum = m := by
  refine h.invariant (I := fun s => s.passnum = m) rfl ?_
  intro s t hs
  rw [(next_moved t s).passnum, hs]

theorem output_bounds {m : Nat} {s : Game n} (hn : 0 < n)
    (h : Interleaves next (start n m) s) :
    s.output < m + n ∧ (Finished s -> m ≤ s.output) := by
  have hbounded : Bounded s :=
    h.invariant (bounded_start hn m) (fun _ t hs => bounded_next hs t)
  have hpassnum := passnum_kept h
  constructor
  · have hmost := hbounded.most
    lia
  · intro hfinished
    have hleast := hbounded.least ⟨0, hn⟩ (hfinished _)
    lia

theorem output_of_zero {s : Game n} (h : Interleaves next (start n 0) s) :
    s.output = 0 := by
  have hidle : s.output = 0 ∧ s.passnum = 0 ∧
      forall t, s.pc t = .loop ∨ s.pc t = .done := by
    refine h.invariant (I := fun s => s.output = 0 ∧ s.passnum = 0 ∧
      forall t, s.pc t = .loop ∨ s.pc t = .done)
      ⟨rfl, rfl, fun _ => Or.inl rfl⟩ ?_
    rintro s t ⟨hout, hpass, hpc⟩
    have hmoved := next_moved t s
    generalize next t s = s' at hmoved
    have hat := hpc t
    cases hmoved with
    | same => exact ⟨hout, hpass, hpc⟩
    | enter _ hlt => lia
    | leave =>
        refine ⟨hout, hpass, ?_⟩
        intro u
        rw [goto_pc]
        split
        · exact Or.inr rfl
        · exact hpc u
    | ask h | lock h | mine h | other h | pass h | unlock h =>
        rcases hat with hat | hat <;> cases h.symm.trans hat
  exact hidle.1

/-!
## A pass too many

Two threads get past the test of the loop before the last pass is made.  The one
whose turn comes next then makes a pass of its own.
-/

theorem schedule_pass {s : Game n} {t : Fin n} (hpc : s.pc t = .acquire)
    (hfree : s.locked = false) (hwork : s.workpid = t.val) :
    schedule next [t, t, t, t] s =
      { s.goto t .loop with
        output := s.output + 1
        workpid := if s.workpid + 1 = n then 0 else s.workpid + 1
        locked := false
        passes := s.passes ++ [t] } := by
  simp [next, hpc, hfree, hwork, Game.goto]

theorem schedule_ask {s : Game n} {t : Fin n} (hpc : s.pc t = .loop)
    (hlt : s.output < s.passnum) :
    schedule next [t, t] s = s.goto t .acquire := by
  have hne : s.output ≠ s.passnum := by lia
  simp [next, hpc, hlt, hne, Game.goto]

structure Resting (s : Game n) : Prop where
  loop : forall t, s.pc t = .loop
  free : s.locked = false
  work : s.workpid = s.output % n

theorem resting_start (m : Nat) : Resting (start n m) :=
  ⟨fun _ => rfl, rfl, (Nat.zero_mod n).symm⟩

theorem update_loop {s : Game n} (h : Resting s) (t : Fin n) (pc : Pc) :
    Function.update (Function.update s.pc t pc) t .loop = s.pc := by
  rw [Function.update_idem, ← h.loop t, Function.update_eq_self]

theorem Resting.pass {s : Game n} (h : Resting s) (hn : 0 < n)
    (hlt : s.output < s.passnum) :
    exists s', Interleaves next s s' ∧ Resting s' ∧
      s'.output = s.output + 1 ∧ s'.passnum = s.passnum := by
  have hmod := Nat.mod_lt s.output hn
  generalize ht : (⟨s.output % n, hmod⟩ : Fin n) = t
  have hval : t.val = s.output % n := by rw [← ht]
  have hask := schedule_ask (h.loop t) hlt
  have hpass := schedule_pass (s := s.goto t .acquire) (t := t)
    (by simp [Game.goto]) h.free (h.work.trans hval.symm)
  refine ⟨_, (interleaves_schedule [t, t] s).trans
    (interleaves_schedule [t, t, t, t] _), ?_⟩
  rw [hask, hpass]
  refine ⟨⟨?_, rfl, ?_⟩, rfl, rfl⟩
  · intro u
    show Function.update (Function.update s.pc t .acquire) t .loop u = .loop
    rw [update_loop h]
    exact h.loop u
  · show (if s.workpid + 1 = n then 0 else s.workpid + 1) =
      (s.output + 1) % n
    rw [h.work, succ_mod_eq hn]

theorem resting_reached (hn : 0 < n) {m k : Nat} (hk : k ≤ m) :
    exists s, Interleaves next (start n m) s ∧ Resting s ∧ s.output = k ∧
      s.passnum = m := by
  induction k with
  | zero => exact ⟨_, Interleaves.refl _, resting_start m, rfl, rfl⟩
  | succ k ih =>
      rcases ih (by lia) with ⟨s, hruns, hrest, hout, hpassnum⟩
      rcases hrest.pass hn (by lia) with ⟨s', hruns', hrest', hout', hsame⟩
      exact ⟨s', hruns.trans hruns', hrest', by lia, hsame.trans hpassnum⟩

theorem Resting.twice {s : Game n} (h : Resting s) (hn : 2 ≤ n)
    (hlast : s.output + 1 = s.passnum) :
    exists s', Interleaves next s s' ∧ (forall t, s'.pc t = .loop) ∧
      s'.output = s.passnum + 1 ∧ s'.passnum = s.passnum := by
  have hpos : 0 < n := by lia
  have hmod := Nat.mod_lt s.output hpos
  have hmod' := Nat.mod_lt (s.output + 1) hpos
  generalize ht : (⟨s.output % n, hmod⟩ : Fin n) = t
  generalize hu : (⟨(s.output + 1) % n, hmod'⟩ : Fin n) = u
  have htval : t.val = s.output % n := by rw [← ht]
  have huval : u.val = (s.output + 1) % n := by rw [← hu]
  have hne : t ≠ u := by
    intro heq
    have hval := congrArg Fin.val heq
    rw [htval, huval, succ_mod_eq hpos] at hval
    split at hval <;> lia
  -- `u` and `t` go to the lock, `t` passes, and then `u` does.
  have hask : schedule next [u, u] s = s.goto u .acquire :=
    schedule_ask (h.loop u) (by lia)
  have hask' : schedule next [t, t] (s.goto u .acquire) =
      (s.goto u .acquire).goto t .acquire := by
    apply schedule_ask
    · rw [goto_pc, if_neg hne]
      exact h.loop t
    · show s.output < s.passnum
      lia
  have hpass := schedule_pass
    (s := (s.goto u .acquire).goto t .acquire) (t := t)
    (by simp [Game.goto]) h.free (h.work.trans htval.symm)
  generalize hs₁ : schedule next [t, t, t, t]
    ((s.goto u .acquire).goto t .acquire) = s₁ at hpass
  have hpass' := schedule_pass (s := s₁) (t := u)
    (by simp [hpass, Game.goto, hne.symm]) (by rw [hpass]) (by
      rw [hpass, huval, succ_mod_eq hpos, ← h.work]
      rfl)
  refine ⟨_, (interleaves_schedule [u, u] s).trans
    ((interleaves_schedule [t, t] _).trans
      ((interleaves_schedule [t, t, t, t] _).trans
        (interleaves_schedule [u, u, u, u] _))), ?_⟩
  rw [hask, hask', hs₁, hpass', hpass]
  refine ⟨?_, ?_, rfl⟩
  · intro v
    simp only [Game.goto, Function.update_apply]
    split
    · rfl
    · split
      · rfl
      · exact h.loop v
  · show s.output + 1 + 1 = s.passnum + 1
    lia

theorem schedule_finish {ts : List (Fin n)} {s : Game n}
    (hloop : forall t, s.pc t = .loop ∨ s.pc t = .done)
    (hge : s.passnum ≤ s.output) :
    schedule next ts s =
      { s with pc := fun t => if t ∈ ts then .done else s.pc t } := by
  induction ts generalizing s with
  | nil => simp
  | cons t ts ih =>
      have hnext : next t s = s.goto t .done := by
        unfold next
        rcases hloop t with hpc | hpc
        · simp [hpc, hge]
        · rw [hpc]
          show s = s.goto t .done
          unfold Game.goto
          rw [← hpc, Function.update_eq_self]
      have hafter : forall u,
          (s.goto t .done).pc u = .loop ∨ (s.goto t .done).pc u = .done := by
        intro u
        rw [goto_pc]
        split
        · exact Or.inr rfl
        · exact hloop u
      rw [schedule_cons, hnext, ih hafter hge]
      unfold Game.goto
      congr 1
      funext u
      simp only [List.mem_cons, Function.update_apply]
      split
      · simp [*]
      · split
        · simp [*]
        · simp [*]

theorem passes_more {m : Nat} (hn : 2 ≤ n) (hm : 1 ≤ m) :
    exists s, Interleaves next (start n m) s ∧ Finished s ∧
      s.output = m + 1 := by
  rcases resting_reached (n := n) (by lia) (Nat.sub_le m 1) with
    ⟨s, hruns, hrest, hout, hpassnum⟩
  rcases hrest.twice hn (by lia) with ⟨s', hruns', hloop, hout', hsame⟩
  refine ⟨schedule next (List.finRange n) s',
    (hruns.trans hruns').trans (interleaves_schedule _ _), ?_⟩
  rw [schedule_finish (fun t => Or.inl (hloop t)) (by lia)]
  constructor
  · intro t
    exact if_pos (List.mem_finRange t)
  · show s'.output = m + 1
    lia

theorem passesRight_iff (hn : 1 ≤ n) (m : Nat)
    (hturns : forall s : Game n, Interleaves next (start n m) s -> Turns s) :
    PassesRight n m ↔ n = 1 ∨ m = 0 := by
  constructor
  · intro hright
    rcases lt_or_ge 1 n with hmany | hone
    · right
      rcases Nat.eq_zero_or_pos m with hzero | hpos
      · exact hzero
      · rcases passes_more hmany hpos with ⟨s, hruns, hfinished, hout⟩
        have hexact := (hright s hruns).2 hfinished
        lia
    · left
      lia
  · rintro (rfl | rfl)
    · intro s h
      refine ⟨(hturns s h).order, fun hfinished => ?_⟩
      rcases output_bounds hn h with ⟨hlt, hge⟩
      have hm := hge hfinished
      lia
    · intro s h
      exact ⟨(hturns s h).order, fun _ => output_of_zero h⟩

/-- The passes are made in turn along every interleaving.  There are exactly as
many as asked for along every interleaving if and only if there is one thread
only or no pass to make; otherwise there can be up to `n - 1` more.  So the
counters do not overflow as long as `m + n` is an `int`. -/
theorem passes_right_iff (hn : 1 ≤ n) (m : Nat) :
    (PassesRight n m ↔ n = 1 ∨ m = 0) ∧
      forall s : Game n, Interleaves next (start n m) s ->
        (forall k t, s.passes[k]? = some t -> t.val = k % n) ∧
          (Finished s -> m ≤ s.output ∧ s.output < m + n) ∧
            s.output < m + n ∧ s.workpid < n := by
  have hturns : forall s : Game n, Interleaves next (start n m) s -> Turns s :=
    fun s h => h.invariant (turns_start m) (fun _ t hs => turns_next hs t)
  refine ⟨passesRight_iff hn m hturns, fun s h => ?_⟩
  rcases output_bounds hn h with ⟨hlt, hge⟩
  refine ⟨(hturns s h).order, fun hfinished => ⟨hge hfinished, hlt⟩, hlt, ?_⟩
  rw [(hturns s h).work]
  exact Nat.mod_lt _ hn

theorem passes_right_iff_one : PassesRight 1 3 :=
  (passes_right_iff (le_refl 1) 3).1.mpr (Or.inl rfl)

/-- Two threads, asked for one pass, make two. -/
theorem two_threads_pass_twice :
    exists s : Game 2, Interleaves next (start 2 1) s ∧ Finished s ∧
      s.output = 2 ∧ s.passes = [0, 1] := by
  refine ⟨schedule next [0, 1, 0, 1, 0, 0, 0, 0, 1, 1, 1, 1, 0, 1] (start 2 1),
    interleaves_schedule _ _, ?_, by decide, by decide⟩
  unfold Finished
  decide

end Frisbee
end Xv6
