import Mathlib

/-!
# Stores that can lose power

A store maps addresses to values and is changed by atomic single-address
writes that reach it in program order.  Losing power keeps a prefix of the
writes issued so far.  The lemmas here reduce statements about every such
prefix to statements about one write, and compute a store after a batch of
writes to distinct addresses.
-/

namespace Xv6
namespace Lib
namespace Crash

variable {A V : Type} [DecidableEq A]

/-- Apply a list of writes to a store, oldest write first. -/
def replay (d : A -> V) (ws : List (A × V)) : A -> V :=
  ws.foldl (fun d w => Function.update d w.1 w.2) d

@[simp] theorem replay_nil (d : A -> V) : replay d [] = d := rfl

@[simp] theorem replay_cons (d : A -> V) (w : A × V) (ws : List (A × V)) :
    replay d (w :: ws) = replay (Function.update d w.1 w.2) ws := rfl

theorem replay_append (d : A -> V) (ws ws' : List (A × V)) :
    replay d (ws ++ ws') = replay (replay d ws) ws' :=
  List.foldl_append

def Keeps (P : (A -> V) -> Prop) (ws : List (A × V)) : Prop :=
  forall w, w ∈ ws -> forall d, P d -> P (Function.update d w.1 w.2)

theorem Keeps.take {P : (A -> V) -> Prop} {ws : List (A × V)}
    (h : Keeps P ws) (k : Nat) : Keeps P (ws.take k) := by
  intro w hw
  exact h w (List.mem_of_mem_take hw)

theorem Keeps.replay {P : (A -> V) -> Prop} {ws : List (A × V)} {d : A -> V}
    (h : Keeps P ws) (hd : P d) : P (replay d ws) := by
  induction ws generalizing d with
  | nil => exact hd
  | cons w rest ih =>
      rw [replay_cons]
      apply ih
      · intro w' hw'
        exact h w' (List.mem_cons_of_mem w hw')
      · exact h w List.mem_cons_self d hd

/-- The stores a crash can leave behind while a list of writes is issued. -/
def CrashOf (d : A -> V) (ws : List (A × V)) (d' : A -> V) : Prop :=
  exists k, k ≤ ws.length ∧ d' = replay d (ws.take k)

omit [DecidableEq A] in
theorem take_append_cases (ws ws' : List (A × V)) (k : Nat) :
    (k ≤ ws.length ∧ (ws ++ ws').take k = ws.take k) ∨
      (ws.length < k ∧
        (ws ++ ws').take k = ws ++ ws'.take (k - ws.length)) := by
  rcases Nat.lt_or_ge ws.length k with hlt | hle
  · right
    refine ⟨hlt, ?_⟩
    rw [List.take_append, List.take_of_length_le (Nat.le_of_lt hlt)]
  · left
    refine ⟨hle, ?_⟩
    rw [List.take_append, Nat.sub_eq_zero_of_le hle, List.take_zero,
      List.append_nil]

theorem replay_of_not_mem {d : A -> V} {ws : List (A × V)} {a : A}
    (h : a ∉ ws.map Prod.fst) : replay d ws a = d a := by
  induction ws generalizing d with
  | nil => rfl
  | cons w rest ih =>
      simp only [List.map_cons, List.mem_cons, not_or] at h
      rw [replay_cons, ih h.2, Function.update_of_ne h.1]

theorem replay_of_mem {d : A -> V} {ws : List (A × V)} {w : A × V}
    (hnodup : (ws.map Prod.fst).Nodup) (hw : w ∈ ws) :
    replay d ws w.1 = w.2 := by
  induction ws generalizing d with
  | nil => cases hw
  | cons w' rest ih =>
      simp only [List.map_cons, List.nodup_cons] at hnodup
      rw [replay_cons]
      rcases List.mem_cons.mp hw with rfl | hrest
      · rw [replay_of_not_mem hnodup.1, Function.update_self]
      · exact ih hnodup.2 hrest

end Crash
end Lib
end Xv6
