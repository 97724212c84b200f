import Mathlib.Logic.Function.Basic

/-! Something that at most one of many holders has: a flag that tells whether it is taken, and how
often each holder has it.
-/

variable {Holder : Type} {taken : Bool} {held : Holder → Nat}

/-- One holder has it once if it is taken, and otherwise nobody has it. -/
def Exclusive (taken : Bool) (held : Holder → Nat) : Prop :=
  match taken with
  | true => ∃ holder, held holder = 1 ∧ ∀ other, other ≠ holder → held other = 0
  | false => ∀ holder, held holder = 0

namespace Exclusive

theorem le_one (exclusive : Exclusive taken held) (holder : Holder) : held holder ≤ 1 := by
  cases taken with
  | false => exact exclusive holder ▸ Nat.zero_le 1
  | true =>
      obtain ⟨owner, once, others⟩ := exclusive
      by_cases same : holder = owner
      · exact same ▸ Nat.le_of_eq once
      · exact others holder same ▸ Nat.zero_le 1

theorem taken_of_held (exclusive : Exclusive taken held) (holder : Holder)
    (has : 0 < held holder)
    : taken = true := by
  cases taken with
  | false => exact absurd (exclusive holder) (Nat.ne_of_gt has)
  | true => rfl

/-- Two holders that have it are the same. -/
theorem owner_unique (exclusive : Exclusive taken held) {holder other : Holder}
    (has : 0 < held holder) (hasToo : 0 < held other)
    : holder = other := by
  cases taken with
  | false => exact absurd (exclusive holder) (Nat.ne_of_gt has)
  | true =>
      obtain ⟨owner, -, others⟩ := exclusive
      have isOwner {holder : Holder} (has : 0 < held holder) : holder = owner := by
        by_contra differs
        exact Nat.ne_of_gt has (others holder differs)
      exact (isOwner has).trans (isOwner hasToo).symm

variable [DecidableEq Holder]

/-- What nobody has can be taken. -/
theorem take (exclusive : Exclusive false held) (holder : Holder)
    : Exclusive true (Function.update held holder (held holder + 1)) := by
  refine ⟨holder, ?_, fun other differs => ?_⟩
  · rw [Function.update_self, exclusive holder]
  · rw [Function.update_of_ne differs]
    exact exclusive other

/-- After the holder gives it back, nobody has it. -/
theorem release (exclusive : Exclusive taken held) {holder : Holder} {left : Nat}
    (has : held holder = left + 1)
    : Exclusive false (Function.update held holder left) := by
  have none : left = 0 := by
    have once := exclusive.le_one holder
    omega
  intro other
  by_cases same : other = holder
  · rw [same, Function.update_self, none]
  · rw [Function.update_of_ne same]
    by_contra hasToo
    exact same (exclusive.owner_unique (Nat.pos_of_ne_zero hasToo) (has ▸ Nat.succ_pos left))

theorem keep (exclusive : Exclusive taken held) {holder : Holder} {now : Nat}
    (same : now = held holder)
    : Exclusive taken (Function.update held holder now) := by
  rw [same, Function.update_eq_self]
  exact exclusive

end Exclusive
