import Xv6.Lib.Machine

/-!
# Schedules

Threads whose steps are functions of a shared state.  An interleaving is the
list of the threads that take the next step.
-/

namespace Xv6
namespace Lib

variable {σ ι : Type}

/-- The state after a thread `t` has taken its next step. -/
def Moves (next : ι -> σ -> σ) (s : σ) (t : ι) (s' : σ) : Prop := s' = next t s

def Interleaves (next : ι -> σ -> σ) (s s' : σ) : Prop :=
  Runs (Moves next) (fun _ _ => True) s s'

def schedule (next : ι -> σ -> σ) (ts : List ι) (s : σ) : σ :=
  ts.foldl (fun s t => next t s) s

section Schedule

variable {next : ι -> σ -> σ} {s s' s'' : σ}

@[simp] theorem schedule_nil (s : σ) : schedule next [] s = s := rfl

@[simp] theorem schedule_cons (t : ι) (ts : List ι) (s : σ) :
    schedule next (t :: ts) s = schedule next ts (next t s) := rfl

theorem Interleaves.refl (s : σ) : Interleaves next s s := Runs.refl

theorem Interleaves.single (t : ι) (h : next t s = s') :
    Interleaves next s s' :=
  Runs.tail t Runs.refl trivial h.symm

theorem Interleaves.trans (h : Interleaves next s s')
    (h' : Interleaves next s' s'') : Interleaves next s s'' := by
  induction h' with
  | refl => exact h
  | tail t _ _ hstep ih => exact Runs.tail t ih trivial hstep

theorem interleaves_schedule (ts : List ι) (s : σ) :
    Interleaves next s (schedule next ts s) := by
  induction ts generalizing s with
  | nil => exact Runs.refl
  | cons t ts ih =>
      have hfirst : Interleaves next s (next t s) := Interleaves.single t rfl
      exact hfirst.trans (ih (next t s))

def Meets (next : ι -> σ -> σ) (C : σ -> ι -> Prop) : List ι -> σ -> Prop
  | [], _ => True
  | t :: ts, s => C s t ∧ Meets next C ts (next t s)

theorem runs_schedule {C : σ -> ι -> Prop} {s₀ : σ} {ts : List ι}
    (hruns : Runs (Moves next) C s₀ s) (h : Meets next C ts s) :
    Runs (Moves next) C s₀ (schedule next ts s) := by
  induction ts generalizing s with
  | nil => exact hruns
  | cons t ts ih => exact ih (Runs.tail t hruns h.1 rfl) h.2

theorem Interleaves.invariant {I : σ -> Prop} (h : Interleaves next s s')
    (hstart : I s) (hstep : forall s t, I s -> I (next t s)) : I s' := by
  refine Runs.invariant h hstart ?_
  rintro s t _ hs _ rfl
  exact hstep s t hs

end Schedule

end Lib
end Xv6
