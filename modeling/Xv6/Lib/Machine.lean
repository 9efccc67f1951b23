import Mathlib

/-!
# Stateful computations that may stop

Code that threads a state and may stop before it returns is a function from
states to a result or the reason of the stop.  `wp` is its weakest
precondition: one condition for the states it returns in and one for the
reasons it stops with, so that partial correctness, total correctness and the
absence of one particular stop are instances of the same rules.
-/

namespace Xv6
namespace Lib

/-- A computation on states `σ` that returns an `α` or stops with an `ε`. -/
def Run (ε σ α : Type) : Type := σ -> Except ε (α × σ)

namespace Run

variable {ε σ τ α β : Type}

instance : Monad (Run ε σ) where
  pure a := fun s => .ok (a, s)
  bind m f := fun s =>
    match m s with
    | .ok (a, s') => f a s'
    | .error e => .error e

def stop (e : ε) : Run ε σ α := fun _ => .error e

def gets (f : σ -> α) : Run ε σ α := fun s => .ok (f s, s)

def modify (f : σ -> σ) : Run ε σ Unit := fun s => .ok ((), f s)

def zoom (view : τ -> σ) (put : σ -> τ -> τ) (m : Run ε σ α) : Run ε τ α :=
  fun t =>
    match m (view t) with
    | .ok (a, s) => .ok (a, put s t)
    | .error e => .error e

def forEach (f : β -> Run ε σ Unit) : List β -> Run ε σ Unit
  | [] => pure ()
  | x :: rest => do
      f x
      forEach f rest

/-!
## Weakest preconditions
-/

/-- From `s` the computation either returns and satisfies `Q`, or stops with a
reason in `E`. -/
def wp (m : Run ε σ α) (Q : α -> σ -> Prop) (E : ε -> Prop) (s : σ) : Prop :=
  match m s with
  | .ok (a, s') => Q a s'
  | .error e => E e

theorem wp_iff {m : Run ε σ α} {Q : α -> σ -> Prop} {E : ε -> Prop} {s : σ} :
    wp m Q E s ↔
      (forall a s', m s = .ok (a, s') -> Q a s') ∧
        (forall e, m s = .error e -> E e) := by
  unfold wp
  cases hm : m s with
  | ok r =>
      obtain ⟨a, s'⟩ := r
      simp
  | error e => simp

theorem wp_ok {m : Run ε σ α} {Q : α -> σ -> Prop} {E : ε -> Prop} {s s' : σ}
    {a : α} (h : wp m Q E s) (hm : m s = .ok (a, s')) : Q a s' :=
  (wp_iff.mp h).1 a s' hm

theorem wp_error {m : Run ε σ α} {Q : α -> σ -> Prop} {E : ε -> Prop} {s : σ}
    {e : ε} (h : wp m Q E s) (hm : m s = .error e) : E e :=
  (wp_iff.mp h).2 e hm

theorem wp_of_ok {m : Run ε σ α} {Q : α -> σ -> Prop} {E : ε -> Prop}
    {s s' : σ} {a : α} (hm : m s = .ok (a, s')) (h : Q a s') : wp m Q E s := by
  unfold wp
  rw [hm]
  exact h

theorem wp_returns {m : Run ε σ α} {Q : α -> σ -> Prop} {s : σ}
    (h : wp m Q (fun _ => False) s) : exists a s', m s = .ok (a, s') ∧ Q a s' := by
  cases hm : m s with
  | ok r => exact ⟨r.1, r.2, rfl, wp_ok h hm⟩
  | error e => exact (wp_error h hm).elim

@[simp] theorem wp_pure {a : α} {Q : α -> σ -> Prop} {E : ε -> Prop} {s : σ} :
    wp (pure a : Run ε σ α) Q E s ↔ Q a s := Iff.rfl

@[simp] theorem wp_stop {e : ε} {Q : α -> σ -> Prop} {E : ε -> Prop} {s : σ} :
    wp (stop e : Run ε σ α) Q E s ↔ E e := Iff.rfl

@[simp] theorem wp_gets {f : σ -> α} {Q : α -> σ -> Prop} {E : ε -> Prop}
    {s : σ} : wp (gets f : Run ε σ α) Q E s ↔ Q (f s) s := Iff.rfl

@[simp] theorem wp_modify {f : σ -> σ} {Q : Unit -> σ -> Prop} {E : ε -> Prop}
    {s : σ} : wp (modify f : Run ε σ Unit) Q E s ↔ Q () (f s) := Iff.rfl

theorem bind_run (m : Run ε σ α) (f : α -> Run ε σ β) (s : σ) :
    (m >>= f) s =
      match m s with
      | .ok (a, s') => f a s'
      | .error e => .error e := rfl

theorem bind_eq_ok {m : Run ε σ α} {f : α -> Run ε σ β} {s s' : σ} {b : β} :
    (m >>= f) s = .ok (b, s') ↔
      exists a s1, m s = .ok (a, s1) ∧ f a s1 = .ok (b, s') := by
  rw [bind_run]
  cases m s with
  | ok r =>
      rcases r with ⟨a, s1⟩
      simp
  | error e => simp

theorem bind_bind {γ : Type} (m : Run ε σ α) (f : α -> Run ε σ β)
    (g : β -> Run ε σ γ) : (m >>= f) >>= g = m >>= fun a => f a >>= g := by
  funext s
  simp only [bind_run]
  cases m s with
  | ok r | error e => rfl

theorem pure_bind_run (a : α) (f : α -> Run ε σ β) :
    (pure a : Run ε σ α) >>= f = f a := rfl

theorem zoom_bind {view : τ -> σ} {put : σ -> τ -> τ}
    (hview : forall s t, view (put s t) = s)
    (hput : forall s s' t, put s' (put s t) = put s' t) (m : Run ε σ α)
    (f : α -> Run ε σ β) :
    zoom view put (m >>= f) = zoom view put m >>= fun a =>
      zoom view put (f a) := by
  funext t
  have hzoom : forall {γ : Type} (m : Run ε σ γ) (t : τ),
      zoom view put m t = match m (view t) with
        | .ok (a, s) => .ok (a, put s t)
        | .error e => .error e := fun _ _ => rfl
  rw [bind_run, hzoom, hzoom, bind_run]
  cases m (view t) with
  | error e => rfl
  | ok r =>
      rcases r with ⟨a, s⟩
      show _ = zoom view put (f a) (put s t)
      rw [hzoom, hview]
      dsimp only
      cases f a s with
      | error e => rfl
      | ok r =>
          rcases r with ⟨b, s'⟩
          show Except.ok (b, put s' t) = Except.ok (b, put s' (put s t))
          rw [hput]

theorem bind_congr_run {m : Run ε σ α} {f g : α -> Run ε σ β}
    (h : forall a, f a = g a) : m >>= f = m >>= g := by
  rw [funext h]

@[simp] theorem wp_bind {m : Run ε σ α} {f : α -> Run ε σ β}
    {Q : β -> σ -> Prop} {E : ε -> Prop} {s : σ} :
    wp (m >>= f) Q E s ↔ wp m (fun a s' => wp (f a) Q E s') E s := by
  unfold wp
  rw [bind_run]
  cases m s with
  | ok r | error e => rfl

@[simp] theorem wp_zoom {view : τ -> σ} {put : σ -> τ -> τ} {m : Run ε σ α}
    {Q : α -> τ -> Prop} {E : ε -> Prop} {t : τ} :
    wp (zoom view put m) Q E t ↔
      wp m (fun a s => Q a (put s t)) E (view t) := by
  unfold wp zoom
  cases m (view t) with
  | ok r | error e => rfl

theorem wp_ite {c : Prop} [Decidable c] {m m' : Run ε σ α}
    {Q : α -> σ -> Prop} {E : ε -> Prop} {s : σ} :
    wp (if c then m else m') Q E s ↔
      (c -> wp m Q E s) ∧ (¬ c -> wp m' Q E s) := by
  by_cases h : c <;> simp [h]

theorem wp_mono {m : Run ε σ α} {Q Q' : α -> σ -> Prop} {E E' : ε -> Prop}
    {s : σ} (h : wp m Q E s) (hQ : forall a s', Q a s' -> Q' a s')
    (hE : forall e, E e -> E' e) : wp m Q' E' s := by
  unfold wp at h ⊢
  cases hm : m s with
  | ok r =>
      rw [hm] at h
      exact hQ _ _ h
  | error e =>
      rw [hm] at h
      exact hE _ h

theorem wp_post {m : Run ε σ α} {Q Q' : α -> σ -> Prop} {E : ε -> Prop}
    {s : σ} (h : wp m Q E s) (hQ : forall a s', Q a s' -> Q' a s') :
    wp m Q' E s :=
  wp_mono h hQ (fun _ he => he)

theorem wp_trivial {m : Run ε σ α} {Q : α -> σ -> Prop} {s : σ}
    (h : forall a s', Q a s') : wp m Q (fun _ => True) s :=
  wp_iff.mpr ⟨fun a s' _ => h a s', fun _ _ => trivial⟩

theorem wp_bind_trivial {m : Run ε σ α} {f : α -> Run ε σ β}
    {Q : β -> σ -> Prop} {s : σ}
    (h : forall a s', wp (f a) Q (fun _ => True) s') :
    wp (m >>= f) Q (fun _ => True) s :=
  wp_bind.mpr (wp_trivial h)

theorem wp_and {m : Run ε σ α} {Q Q' : α -> σ -> Prop} {E E' : ε -> Prop}
    {s : σ} (h : wp m Q E s) (h' : wp m Q' E' s) :
    wp m (fun a s' => Q a s' ∧ Q' a s') (fun e => E e ∧ E' e) s := by
  unfold wp at h h' ⊢
  cases hm : m s with
  | ok r | error e =>
      rw [hm] at h h'
      exact ⟨h, h'⟩

theorem wp_forEach {f : β -> Run ε σ Unit} {I : List β -> σ -> Prop}
    {E : ε -> Prop} {xs : List β} {s : σ} (hstart : I xs s)
    (hstep : forall x rest s, I (x :: rest) s ->
      wp (f x) (fun _ s' => I rest s') E s) :
    wp (forEach f xs) (fun _ s' => I [] s') E s := by
  induction xs generalizing s with
  | nil => exact hstart
  | cons x rest ih =>
      unfold forEach
      rw [wp_bind]
      exact wp_post (hstep x rest s hstart) (fun _ s' hs' => ih hs')

/-!
## Ledgers

An invariant with two parameters: one that stays what it is while the
computation runs, and one, the ledger, that the computation turns into another
in a way that only depends on its result.
-/

section Turns

variable {κ ι : Type} {I : κ -> ι -> σ -> Prop}

/-- If it returns `r`, the computation turns the ledger `l` into `l' r`. -/
def Turns (I : κ -> ι -> σ -> Prop) (m : Run ε σ α) (l : ι) (l' : α -> ι) :
    Prop :=
  forall b s, I b l s -> wp m (fun r s' => I b (l' r) s') (fun _ => True) s

namespace Turns

theorem pure (a : α) {l : ι} {l' : α -> ι} (h : l = l' a) :
    Turns I (Pure.pure a : Run ε σ α) l l' := by
  rw [h]
  exact fun _ _ hs => hs

theorem stop (e : ε) (l : ι) (l' : α -> ι) :
    Turns I (Run.stop e : Run ε σ α) l l' :=
  fun _ _ _ => trivial

theorem gets (f : σ -> α) (l : ι) :
    Turns I (Run.gets f : Run ε σ α) l (fun _ => l) :=
  fun _ _ h => h

theorem bind {m : Run ε σ α} {f : α -> Run ε σ β} {l : ι} {l' : α -> ι}
    {l'' : β -> ι} (hm : Turns I m l l')
    (hf : forall a, Turns I (f a) (l' a) l'') : Turns I (m >>= f) l l'' := by
  intro b s h
  rw [wp_bind]
  exact wp_post (hm b s h) (fun a s' h' => hf a b s' h')

theorem ite {c : Prop} [Decidable c] {m m' : Run ε σ α} {l : ι} {l' : α -> ι}
    (h : Turns I m l l') (h' : Turns I m' l l') :
    Turns I (if c then m else m') l l' := by
  rcases Decidable.em c with hc | hc
  · rw [if_pos hc]
    exact h
  · rw [if_neg hc]
    exact h'

theorem forEach {f : β -> Run ε σ Unit} {l : ι}
    (h : forall x, Turns I (f x) l (fun _ => l)) (xs : List β) :
    Turns I (Run.forEach f xs) l (fun _ => l) := by
  induction xs with
  | nil => exact Turns.pure () rfl
  | cons x rest ih => exact Turns.bind (h x) (fun _ => ih)

end Turns
end Turns

/-!
## Views

A computation seen through a function of its state.  What it returns and leaves
is described in terms of the view alone, for every state that has the view.
-/

section Sees

variable {ρ : Type} {view : σ -> ρ}

/-- From every state with the view `t`, a result and the view it leaves satisfy
`Q`. -/
def Sees (view : σ -> ρ) (m : Run ε σ α) (t : ρ) (Q : α -> ρ -> Prop) : Prop :=
  forall s, view s = t ->
    wp m (fun a s' => Q a (view s')) (fun _ => True) s

abbrev Keeps (view : σ -> ρ) (m : Run ε σ α) : Prop :=
  Turns (fun (t : ρ) (_ : Unit) s => view s = t) m () (fun _ => ())

theorem Keeps.ok {m : Run ε σ α} (h : Keeps view m) {s s' : σ} {a : α}
    (hm : m s = .ok (a, s')) : view s' = view s :=
  (wp_iff.mp (h (view s) s rfl)).1 a s' hm

namespace Sees

theorem pure {a : α} {t : ρ} {Q : α -> ρ -> Prop} (h : Q a t) :
    Sees view (Pure.pure a : Run ε σ α) t Q := by
  rintro s rfl
  exact h

theorem stop (e : ε) (t : ρ) (Q : α -> ρ -> Prop) :
    Sees view (Run.stop e : Run ε σ α) t Q :=
  fun _ _ => trivial

theorem gets (f : ρ -> α) {g : α -> Run ε σ β} {t : ρ} {Q : β -> ρ -> Prop}
    (h : Sees view (g (f t)) t Q) :
    Sees view (Run.gets (fun s => f (view s)) >>= g) t Q := by
  rintro s rfl
  exact h s rfl

theorem modify {f : σ -> σ} (g : ρ -> ρ) {t : ρ} {Q : Unit -> ρ -> Prop}
    (hf : forall s, view (f s) = g (view s)) (h : Q () (g t)) :
    Sees view (Run.modify f : Run ε σ Unit) t Q := by
  rintro s rfl
  rw [wp_modify, hf]
  exact h

theorem bind {m : Run ε σ α} {f : α -> Run ε σ β} {t : ρ}
    {R : α -> ρ -> Prop} {Q : β -> ρ -> Prop} (hm : Sees view m t R)
    (hf : forall a t', R a t' -> Sees view (f a) t' Q) :
    Sees view (m >>= f) t Q := by
  intro s hs
  rw [wp_bind]
  exact wp_post (hm s hs) (fun a s' h => hf a _ h s' rfl)

theorem modify_bind {f : σ -> σ} (g : ρ -> ρ) {m : Unit -> Run ε σ β} {t : ρ}
    {Q : β -> ρ -> Prop} (hf : forall s, view (f s) = g (view s))
    (h : Sees view (m ()) (g t) Q) :
    Sees view (Run.modify f >>= m) t Q := by
  apply bind (R := fun _ t' => t' = g t) (modify g hf rfl)
  rintro _ _ rfl
  exact h

theorem keep {m : Run ε σ α} {f : α -> Run ε σ β} {t : ρ}
    {Q : β -> ρ -> Prop} (hm : Keeps view m)
    (hf : forall a, Sees view (f a) t Q) : Sees view (m >>= f) t Q := by
  intro s hs
  rw [wp_bind]
  exact wp_post (hm t s hs) (fun a s' h => hf a s' h)

theorem post {m : Run ε σ α} {t : ρ} {R Q : α -> ρ -> Prop}
    (hm : Sees view m t R) (h : forall a t', R a t' -> Q a t') :
    Sees view m t Q :=
  fun s hs => wp_post (hm s hs) (fun a s' => h a (view s'))

theorem ok {m : Run ε σ α} {Q : α -> ρ -> Prop} {s s' : σ} {a : α}
    (hm : Sees view m (view s) Q) (hrun : m s = .ok (a, s')) :
    Q a (view s') :=
  (wp_iff.mp (hm s rfl)).1 a s' hrun

theorem forEach {f : β -> Run ε σ Unit} {I : List β -> ρ -> Prop}
    {xs : List β} {t : ρ} (hstart : I xs t)
    (hstep : forall x rest t, I (x :: rest) t ->
      Sees view (f x) t (fun _ t' => I rest t')) :
    Sees view (Run.forEach f xs) t (fun _ t' => I [] t') := by
  rintro s rfl
  exact wp_forEach (I := fun rest s => I rest (view s)) hstart
    (fun x rest s' h => hstep x rest _ h s' rfl)

end Sees
end Sees

/-!
## Results
-/

section Returns

variable {P : α -> Prop}

/-- Whatever state it starts in, what the computation returns is in `P`. -/
structure Returns (P : α -> Prop) (m : Run ε σ α) : Prop where
  run : forall s, wp m (fun r _ => P r) (fun _ => True) s

namespace Returns

theorem pure {a : α} (h : P a) : Returns P (Pure.pure a : Run ε σ α) :=
  ⟨fun _ => h⟩

theorem any (m : Run ε σ α) : Returns (fun _ => True) m :=
  ⟨fun _ => wp_iff.mpr ⟨fun _ _ _ => trivial, fun _ _ => trivial⟩⟩

theorem bind {m : Run ε σ α} {f : α -> Run ε σ β} {Q : β -> Prop}
    (hm : Returns P m) (hf : forall a, P a -> Returns Q (f a)) :
    Returns Q (m >>= f) := by
  constructor
  intro s
  rw [wp_bind]
  exact wp_post (hm.run s) (fun a s' ha => (hf a ha).run s')

theorem after {m : Run ε σ α} {f : α -> Run ε σ β} {Q : β -> Prop}
    (hf : forall a, Returns Q (f a)) : Returns Q (m >>= f) :=
  bind (any m) (fun a _ => hf a)

theorem ite {c : Prop} [Decidable c] {m m' : Run ε σ α}
    (h : c -> Returns P m) (h' : ¬ c -> Returns P m') :
    Returns P (if c then m else m') :=
  ⟨fun s => wp_ite.mpr ⟨fun hc => (h hc).run s, fun hc => (h' hc).run s⟩⟩

theorem zoom {view : τ -> σ} {put : σ -> τ -> τ} {m : Run ε σ α}
    (h : Returns P m) : Returns P (Run.zoom view put m) :=
  ⟨fun t => wp_zoom.mpr (h.run (view t))⟩

theorem under {Q : Prop} {m : Run ε σ α} (h : Q -> Returns P m) :
    Returns (fun r => Q -> P r) m := by
  constructor
  intro s
  apply wp_iff.mpr
  constructor
  · exact fun a s' hrun hQ => wp_ok ((h hQ).run s) hrun
  · exact fun _ _ => trivial

end Returns

theorem Turns.bind_returns {κ ι : Type} {I : κ -> ι -> σ -> Prop}
    {m : Run ε σ α} {f : α -> Run ε σ β} {l : ι} {l' : α -> ι} {l'' : β -> ι}
    (hm : Turns I m l l') (hP : Returns P m)
    (hf : forall a, P a -> Turns I (f a) (l' a) l'') :
    Turns I (m >>= f) l l'' := by
  intro b s h
  rw [wp_bind]
  apply wp_mono (wp_and (hm b s h) (hP.run s))
  · exact fun a s' hs' => hf a hs'.2 b s' hs'.1
  · exact fun _ _ => trivial

end Returns

/-!
## Stops
-/

section StopsIn

variable {E : ε -> Prop}

/-- Whatever state it starts in, the computation only stops with a reason in
`E`. -/
def StopsIn (E : ε -> Prop) (m : Run ε σ α) : Prop :=
  forall s, wp m (fun _ _ => True) E s

namespace StopsIn

theorem pure (a : α) : StopsIn E (Pure.pure a : Run ε σ α) :=
  fun _ => trivial

theorem gets (f : σ -> α) : StopsIn E (Run.gets f : Run ε σ α) :=
  fun _ => trivial

theorem modify (f : σ -> σ) : StopsIn E (Run.modify f : Run ε σ Unit) :=
  fun _ => trivial

theorem stop {e : ε} (h : E e) : StopsIn E (Run.stop e : Run ε σ α) :=
  fun _ => h

theorem bind {m : Run ε σ α} {f : α -> Run ε σ β} (hm : StopsIn E m)
    (hf : forall a, StopsIn E (f a)) : StopsIn E (m >>= f) := by
  intro s
  rw [wp_bind]
  exact wp_post (hm s) (fun a s' _ => hf a s')

theorem ite {c : Prop} [Decidable c] {m m' : Run ε σ α} (h : StopsIn E m)
    (h' : StopsIn E m') : StopsIn E (if c then m else m') := by
  intro s
  exact wp_ite.mpr ⟨fun _ => h s, fun _ => h' s⟩

theorem forEach {f : β -> Run ε σ Unit} (h : forall x, StopsIn E (f x))
    (xs : List β) : StopsIn E (Run.forEach f xs) := by
  induction xs with
  | nil => exact StopsIn.pure ()
  | cons x rest ih => exact StopsIn.bind (h x) (fun _ => ih)

theorem zoom {view : τ -> σ} {put : σ -> τ -> τ} {m : Run ε σ α}
    (h : StopsIn E m) : StopsIn E (Run.zoom view put m) :=
  fun t => wp_zoom.mpr (h (view t))

theorem mono {E' : ε -> Prop} {m : Run ε σ α} (h : StopsIn E m)
    (hE : forall e, E e -> E' e) : StopsIn E' m :=
  fun s => wp_mono (h s) (fun _ _ _ => trivial) hE

end StopsIn
end StopsIn

end Run

/-!
## Runs of a transition system
-/

section Runs

variable {σ ι : Type} {step : σ -> ι -> σ -> Prop} {C C' : σ -> ι -> Prop}

/-- The states that `s` can reach by steps that each meet the condition `C` in
the state they start from. -/
inductive Runs (step : σ -> ι -> σ -> Prop) (C : σ -> ι -> Prop) (s : σ) :
    σ -> Prop where
  | refl : Runs step C s s
  | tail {s' s'' : σ} (a : ι) (h : Runs step C s s') (hC : C s' a)
      (hstep : step s' a s'') : Runs step C s s''

theorem Runs.invariant {I : σ -> Prop} {s s' : σ} (h : Runs step C s s')
    (hstart : I s)
    (hstep : forall s a s', I s -> C s a -> step s a s' -> I s') : I s' := by
  induction h with
  | refl => exact hstart
  | tail a _ hC hs ih => exact hstep _ a _ ih hC hs

theorem Runs.mono {s s' : σ} (h : Runs step C s s')
    (hC : forall s a, C s a -> C' s a) : Runs step C' s s' := by
  induction h with
  | refl => exact Runs.refl
  | tail a _ hCa hs ih => exact Runs.tail a ih (hC _ a hCa) hs

end Runs

end Lib
end Xv6
