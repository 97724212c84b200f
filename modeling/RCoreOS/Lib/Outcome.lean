import Mathlib.Init

/-! Partial correctness up to allowed failures: a computation ends in a value that satisfies
its postcondition, or fails in one of the ways that are allowed.
-/

namespace Outcome

variable {ε α β : Type} {allowed : ε → Prop} {post : α → Prop} {post' : β → Prop}

@[simp]
theorem ok_bind (a : α) (f : α → Except ε β) : (Except.ok a >>= f) = f a :=
  rfl

@[simp]
theorem error_bind (e : ε) (f : α → Except ε β) : (Except.error e >>= f) = .error e :=
  rfl

@[simp]
theorem pure_eq_ok (a : α) : (pure a : Except ε α) = .ok a :=
  rfl

/-- A sequence that returns is made of two parts that do. -/
theorem bind_eq_ok {x : Except ε α} {f : α → Except ε β} {b : β}
    : (x >>= f) = .ok b ↔ ∃ a, x = .ok a ∧ f a = .ok b := by
  cases x <;> simp

/-- A function of the value of a computation that returns. -/
theorem map_eq_ok {x : Except ε α} {f : α → β} {b : β}
    : x.map f = .ok b ↔ ∃ a, x = .ok a ∧ f a = b := by
  cases x <;> simp [Except.map]

/-- The computation fails in an allowed way or returns a value that satisfies `post`. -/
def Ends (allowed : ε → Prop) (post : α → Prop) : Except ε α → Prop
  | .ok a => post a
  | .error e => allowed e

theorem Ends.pure {a : α} (holds : post a) : Ends allowed post (Except.ok a) :=
  holds

/-- The postcondition of a computation about whose failures nothing is said. -/
abbrev Returns (post : α → Prop) (x : Except ε α) : Prop :=
  Ends (fun _ => True) post x

/-- A computation that returns has its own value. -/
theorem Returns.self (x : Except ε α) : Returns (x = .ok ·) x := by
  cases x with
  | ok a => exact (rfl : Except.ok a = .ok a)
  | error e => trivial

/-- A computation whose value is known. -/
theorem Ends.of_eq {x : Except ε α} {a : α} (run : x = .ok a) (holds : post a)
    : Ends allowed post x :=
  run ▸ holds

/-- A weaker postcondition. -/
theorem Ends.imp {post₂ : α → Prop} {x : Except ε α} (ends : Ends allowed post x)
    (weaker : ∀ a, post a → post₂ a)
    : Ends allowed post₂ x := by
  cases x with
  | ok a => exact weaker a ends
  | error e => exact ends

/-- The rest of a computation starts from the postcondition of its first part. -/
theorem Ends.bind {x : Except ε α} {f : α → Except ε β} (first : Ends allowed post x)
    (rest : ∀ a, post a → Ends allowed post' (f a))
    : Ends allowed post' (x >>= f) := by
  cases x with
  | ok a => exact rest a first
  | error e => exact first

/-- A computation that returns a value satisfied its postcondition. -/
theorem Ends.of_ok {x : Except ε α} {a : α} (ends : Ends allowed post x) (ok : x = .ok a)
    : post a := by
  subst ok
  exact ends

/-- A computation that failed did so in an allowed way. -/
theorem Ends.of_error {x : Except ε α} {e : ε} (ends : Ends allowed post x)
    (error : x = .error e)
    : allowed e := by
  subst error
  exact ends

/-- The loop rule: what holds before a turn for the items that are left holds after it for
those that are left then.
-/
theorem Ends.foldlM {step : β → α → Except ε β} (inv : List α → β → Prop)
    (turn : ∀ item rest state,
      inv (item :: rest) state → Ends allowed (inv rest) (step state item))
    {items : List α} {state : β} (start : inv items state)
    : Ends allowed (inv []) (items.foldlM step state) := by
  induction items generalizing state with
  | nil => exact start
  | cons item rest ih =>
      rw [List.foldlM_cons]
      exact (turn item rest state start).bind fun _ holds => ih holds

/-- The loop rule for a counter: what holds before the turn `i` holds for `i + 1` after it. -/
theorem Ends.foldlM_range {step : β → Nat → Except ε β} (inv : Nat → β → Prop) {count : Nat}
    (turn : ∀ i < count, ∀ state, inv i state → Ends allowed (inv (i + 1)) (step state i))
    {state : β} (start : inv 0 state)
    : Ends allowed (inv count) ((List.range count).foldlM step state) := by
  induction count with
  | zero => exact start
  | succ count ih =>
      rw [List.range_succ, List.foldlM_append]
      refine (ih fun i before => turn i (Nat.lt_succ_of_lt before)).bind fun last holds => ?_
      rw [List.foldlM_cons]
      exact (turn count (Nat.lt_succ_self count) last holds).bind fun _ done => done

end Outcome
