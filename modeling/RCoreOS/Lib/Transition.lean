import Mathlib.Logic.Relation

/-! Runs of a transition system and the invariant rule: what holds initially and is kept by
every step holds in every state a run can reach.
-/

namespace Transition

variable {State : Type} {init : State → Prop} {step : State → State → Prop}

/-- The states that runs from an initial state reach. -/
def Reachable (init : State → Prop) (step : State → State → Prop) (s : State) : Prop :=
  ∃ first, init first ∧ Relation.ReflTransGen step first s

theorem Reachable.start {s : State} (initial : init s) : Reachable init step s :=
  ⟨s, initial, .refl⟩

theorem Reachable.next {s s' : State} (reachable : Reachable init step s)
    (stepped : step s s') : Reachable init step s' := by
  obtain ⟨first, initial, run⟩ := reachable
  exact ⟨first, initial, run.tail stepped⟩

/-- The invariant rule, by induction on the run. -/
theorem Reachable.invariant (inv : State → Prop) (start : ∀ s, init s → inv s)
    (keep : ∀ s s', inv s → step s s' → inv s') {s : State}
    (reachable : Reachable init step s)
    : inv s := by
  obtain ⟨first, initial, run⟩ := reachable
  induction run with
  | refl => exact start first initial
  | tail _ stepped ih => exact keep _ _ ih stepped

/-- A list of actions is a run if each of them is a step, by induction on the actions. -/
theorem Reachable.actions {Action : Type} {run : State → Action → Option State}
    {actions : List Action}
    (steps : ∀ action ∈ actions, ∀ s s', run s action = some s' → step s s') {s s' : State}
    (reachable : Reachable init step s) (done : actions.foldlM run s = some s')
    : Reachable init step s' := by
  induction actions generalizing s with
  | nil =>
      cases done
      exact reachable
  | cons action rest ih =>
      rw [List.foldlM_cons] at done
      obtain ⟨next, first, more⟩ := Option.bind_eq_some_iff.mp done
      exact ih (fun action later => steps action (List.mem_cons_of_mem _ later))
        (reachable.next (steps action (List.mem_cons_self ..) s next first)) more

-----------------------------------------------------------------------------------------
-- Conditions along a list of actions
-----------------------------------------------------------------------------------------

section Along

variable {Action : Type} {run : State → Action → Option State} {may : State → Action → Prop}

/-- Every action of the list satisfies a condition in the state in which it is taken. -/
def Along (run : State → Action → Option State) (may : State → Action → Prop)
    : State → List Action → Prop
  | _, [] => True
  | s, action :: rest => may s action ∧ ∀ s', run s action = some s' → Along run may s' rest

instance Along.decidable [∀ s action, Decidable (may s action)]
    : (s : State) → (actions : List Action) → Decidable (Along run may s actions)
  | _, [] => isTrue trivial
  | s, action :: rest =>
      match next : run s action with
      | none => decidable_of_iff (may s action) (by simp [Along, next])
      | some s' =>
          have := Along.decidable s' rest
          decidable_of_iff (may s action ∧ Along run may s' rest) (by simp [Along, next])

theorem Along.of_forall {actions : List Action} (all : ∀ action ∈ actions, ∀ s, may s action)
    (s : State)
    : Along run may s actions := by
  induction actions generalizing s with
  | nil => trivial
  | cons action rest ih =>
      exact ⟨all action (List.mem_cons_self ..) s,
        fun s' _ => ih (fun action later => all action (List.mem_cons_of_mem _ later)) s'⟩

/-- What every action keeps that satisfies the condition is kept by the list, by induction on
the actions.
-/
theorem Along.invariant {actions : List Action} (inv : State → Prop)
    (keep : ∀ s action s', inv s → may s action → run s action = some s' → inv s') {s s' : State}
    (along : Along run may s actions) (start : inv s) (done : actions.foldlM run s = some s')
    : inv s' := by
  induction actions generalizing s with
  | nil =>
      cases done
      exact start
  | cons action rest ih =>
      rw [List.foldlM_cons] at done
      obtain ⟨next, first, more⟩ := Option.bind_eq_some_iff.mp done
      exact ih (along.2 next first) (keep s action next start along.1 first) more

/-- The simulation rule: if every action that is allowed of the abstract state goes through and
keeps the relation, a list of allowed actions goes through, by induction on the actions.
-/
theorem Along.simulates {Abstract : Type} {describe : Abstract → Action → Abstract}
    {allowed : Abstract → Action → Prop} (relation : State → Abstract → Prop)
    (simulate : ∀ s abstract action, relation s abstract → allowed abstract action
      → ∃ s', run s action = some s' ∧ relation s' (describe abstract action))
    {actions : List Action} {s : State} {abstract : Abstract}
    (along : Along (fun abstract action => some (describe abstract action)) allowed abstract actions)
    (start : relation s abstract)
    : ∃ s', actions.foldlM run s = some s' ∧ relation s' (actions.foldl describe abstract) := by
  induction actions generalizing s abstract with
  | nil => exact ⟨s, rfl, start⟩
  | cons action rest ih =>
      obtain ⟨next, first, related⟩ := simulate s abstract action start along.1
      obtain ⟨s', more, done⟩ := ih (along.2 _ rfl) related
      refine ⟨s', ?_, done⟩
      rw [List.foldlM_cons, first]
      exact more

end Along

-----------------------------------------------------------------------------------------
-- Actions that an observer does not see
-----------------------------------------------------------------------------------------

/-- An observer cannot tell whether the actions that it does not see were taken: states that look
the same to it still do afterwards, by induction on the actions.
-/
theorem foldl_filter {Action : Type} {run : State → Action → State} {Same : State → State → Prop}
    (seen : Action → Bool) {actions : List Action}
    (both : ∀ action ∈ actions, seen action = true
      → ∀ s t, Same s t → Same (run s action) (run t action))
    (hidden : ∀ action ∈ actions, seen action = false → ∀ s t, Same s t → Same (run s action) t)
    {s t : State} (same : Same s t)
    : Same (actions.foldl run s) ((actions.filter seen).foldl run t) := by
  induction actions generalizing s t with
  | nil => exact same
  | cons action rest ih =>
      obtain ⟨bothFirst, both⟩ := List.forall_mem_cons.mp both
      obtain ⟨hiddenFirst, hidden⟩ := List.forall_mem_cons.mp hidden
      by_cases isSeen : seen action = true
      · rw [List.filter_cons_of_pos isSeen, List.foldl_cons, List.foldl_cons]
        exact ih both hidden (bothFirst isSeen s t same)
      · rw [List.filter_cons_of_neg isSeen, List.foldl_cons]
        exact ih both hidden (hiddenFirst (eq_false_of_ne_true isSeen) s t same)

end Transition
