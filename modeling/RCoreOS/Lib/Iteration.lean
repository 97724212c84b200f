import Mathlib.Order.Preorder.Finite
import Mathlib.Logic.Relation

/-! Iterating a partial function. If there are finitely many values, the iteration stops exactly
when no value comes back.
-/

namespace Iteration

open Relation (ReflTransGen TransGen)

variable {α : Type} {next : α → Option α} {a b c : α} {n : Nat}

def Next (next : α → Option α) (a b : α) : Prop :=
  next a = some b

/-- The value after some steps; there is none once the iteration has stopped. -/
def after (next : α → Option α) (n : Nat) (a : α) : Option α :=
  (fun value => Option.bind value next)^[n] (some a)

/-- The iteration from the value stops. -/
def Stops (next : α → Option α) (a : α) : Prop :=
  ∃ n, after next n a = none

/-- No value that comes up from the given one on comes up again. -/
def Acyclic (next : α → Option α) (a : α) : Prop :=
  ∀ b, ReflTransGen (Next next) a b → ¬ TransGen (Next next) b b

theorem after_succ (next : α → Option α) (n : Nat) (a : α)
    : after next (n + 1) a = (next a).bind (after next n) := by
  rw [after, Function.iterate_succ_apply, Option.bind_some]
  cases next a with
  | none => exact Function.iterate_fixed rfl n
  | some b => rfl

theorem after_succ' (next : α → Option α) (n : Nat) (a : α)
    : after next (n + 1) a = (after next n a).bind next :=
  Function.iterate_succ_apply' ..

/-- What comes before a cycle has a next value, which comes before the cycle, too. -/
theorem next_to_cycle (reaches : ReflTransGen (Next next) a b) (cycle : TransGen (Next next) b b)
    : ∃ c, Next next a c ∧ ReflTransGen (Next next) c b := by
  rcases ReflTransGen.cases_head reaches with rfl | onward
  · exact TransGen.head'_iff.mp cycle
  · exact onward

/-- Before a cycle the iteration goes on, by induction on the steps. -/
theorem after_to_cycle (reaches : ReflTransGen (Next next) a b) (cycle : TransGen (Next next) b b)
    (n : Nat)
    : after next n a ≠ none := by
  induction n generalizing a with
  | zero => exact Option.some_ne_none a
  | succ n ih =>
      obtain ⟨c, step, onward⟩ := next_to_cycle reaches cycle
      rw [after_succ, step]
      exact ih onward

/-- The values of an iteration come up one after the other. -/
theorem reaches_after (i : Nat) {k : Nat} (before : after next i a = some b)
    (later : after next (i + k) a = some c)
    : ReflTransGen (Next next) b c := by
  induction k generalizing c with
  | zero =>
      rw [Nat.add_zero, before] at later
      cases later
      exact .refl
  | succ k ih =>
      rw [← Nat.add_assoc, after_succ'] at later
      obtain ⟨d, here, step⟩ := Option.bind_eq_some_iff.mp later
      exact .tail (ih here) step

/-- An iteration through finitely many values stops if it never comes back, by the pigeonhole
principle.
-/
theorem stops_iff_acyclic (finite : (Set.range next).Finite) : Stops next a ↔ Acyclic next a := by
  constructor
  · rintro ⟨n, stopped⟩ b reaches cycle
    exact after_to_cycle reaches cycle n stopped
  · intro acyclic
    by_contra endless
    have goesOn (n : Nat) : ∃ b, after next n a = some b := by
      refine Option.ne_none_iff_exists'.mp fun none => endless ⟨n, none⟩
    have inRange (n : Nat) : after next (n + 1) a ∈ Set.range next := by
      obtain ⟨b, here⟩ := goesOn n
      rw [after_succ', here]
      exact ⟨b, rfl⟩
    obtain ⟨i, j, less, same⟩ := finite.exists_lt_map_eq_of_forall_mem inRange
    obtain ⟨k, rfl⟩ := Nat.exists_eq_add_of_lt less
    obtain ⟨b, here⟩ := goesOn (i + 1)
    obtain ⟨c, onward⟩ := goesOn (i + 1 + 1)
    have step : Next next b c := by
      rw [after_succ', here] at onward
      exact onward
    have again : after next (i + 1 + 1 + k) a = some b := by
      rw [← here, same]
      congr 1
      omega
    refine acyclic b (reaches_after 0 rfl ((Nat.zero_add (i + 1)).symm ▸ here)) ?_
    exact TransGen.head' step (reaches_after (i + 1 + 1) onward again)

end Iteration
