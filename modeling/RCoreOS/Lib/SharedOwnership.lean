import Mathlib.Data.List.Count
import Mathlib.Logic.Function.Basic

/-! Reference-counted objects: each has a counter, and the references to it lie in places. A new
reference is counted, a dropped one is discounted, and moving references between places
leaves the counters alone.
-/

namespace SharedOwnership

variable {Obj : Type} [DecidableEq Obj]

/-- A new reference to an object. -/
def clone (strong : Obj → Nat) (a : Obj) : Obj → Nat :=
  Function.update strong a (strong a + 1)

/-- A reference to an object is dropped. -/
def drop (strong : Obj → Nat) (a : Obj) : Obj → Nat :=
  Function.update strong a (strong a - 1)

/-- References are dropped one after the other. -/
def dropAll (strong : Obj → Nat) (refs : List Obj) : Obj → Nat :=
  refs.foldl drop strong

/-- The counters are right: each counts the references to its object. -/
def Counted (strong : Obj → Nat) (refs : List Obj) : Prop :=
  ∀ a, strong a = refs.count a

variable {strong : Obj → Nat} {refs refs' : List Obj} {a : Obj}

theorem Counted.move (counted : Counted strong refs) (moved : refs.Perm refs')
    : Counted strong refs' :=
  fun a => (counted a).trans (moved.count_eq a)

theorem Counted.clone (counted : Counted strong refs) (a : Obj)
    : Counted (clone strong a) (a :: refs) := by
  intro b
  by_cases same : b = a
  · subst same
    simp [SharedOwnership.clone, counted b]
  · simp [SharedOwnership.clone, same, Ne.symm same, counted b]

theorem Counted.drop (counted : Counted strong (a :: refs)) : Counted (drop strong a) refs := by
  intro b
  by_cases same : b = a
  · subst same
    simp [SharedOwnership.drop, counted b]
  · simp [SharedOwnership.drop, same, Ne.symm same, counted b]

/-- By induction on the references that are dropped. -/
theorem Counted.dropAll {dropped : List Obj} (counted : Counted strong (dropped ++ refs))
    : Counted (dropAll strong dropped) refs := by
  induction dropped generalizing strong with
  | nil => exact counted
  | cons a rest ih => exact ih (Counted.drop counted)

/-- An object to which there is a reference is alive. -/
theorem Counted.pos_iff (counted : Counted strong refs) : 0 < strong a ↔ a ∈ refs := by
  rw [counted a, List.count_pos_iff]

theorem Counted.eq_zero_iff (counted : Counted strong refs) : strong a = 0 ↔ a ∉ refs := by
  rw [counted a, List.count_eq_zero]

/-- An object whose counter is one has no other references. -/
theorem Counted.alone_iff (counted : Counted strong (a :: refs)) : strong a = 1 ↔ a ∉ refs := by
  rw [counted a, List.count_cons_self, Nat.succ_inj, List.count_eq_zero]

/-- An object in two different places has a counter of at least two. -/
theorem Counted.shared (counted : Counted strong (a :: refs)) (again : a ∈ refs)
    : 1 < strong a := by
  have := List.count_pos_iff.mpr again
  rw [counted a, List.count_cons_self]
  omega

end SharedOwnership
