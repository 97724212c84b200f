import Mathlib.Data.List.Perm.Basic
import Mathlib.Data.List.MinMax
import Mathlib.Order.Basic

/-! Priority queues that give out their least item first. What comes first among items with equal
keys is left open.
-/

/-- The operations of a queue `Q` of items `A`. -/
structure PriorityQueue (Q A : Type) where
  new : Q
  push : Q → A → Q
  peek : Q → Option A
  pop : Q → Option (A × Q)
  retain : (A → Bool) → Q → Q

namespace PriorityQueue

variable {Q A K : Type} [LinearOrder K]

/-- The queue holds its items in some order, and `peek` and `pop` find one with the least key. -/
structure Lawful (pq : PriorityQueue Q A) (key : A → K) where
  items : Q → List A
  items_new : items pq.new = []
  items_push (q : Q) (a : A) : (items (pq.push q a)).Perm (a :: items q)
  items_retain (p : A → Bool) (q : Q) : (items (pq.retain p q)).Perm ((items q).filter p)
  peek_none {q : Q} : pq.peek q = none → items q = []
  peek_some {q : Q} {a : A} : pq.peek q = some a → a ∈ items q ∧ ∀ b ∈ items q, key a ≤ key b
  pop_none {q : Q} : pq.pop q = none → items q = []
  pop_some {q q' : Q} {a : A}
    : pq.pop q = some (a, q') → (items q).Perm (a :: items q') ∧ ∀ b ∈ items q, key a ≤ key b

-----------------------------------------------------------------------------------------
-- Taking out what is due
-----------------------------------------------------------------------------------------

section TakeUntil

variable (pq : PriorityQueue Q A) (key : A → K)

/-- Takes out the least item if its key is not above the bound. -/
def popUpTo (q : Q) (bound : K) : Option (A × Q) :=
  match pq.peek q with
  | none => none
  | some a => if key a ≤ bound then pq.pop q else none

/-- Takes out items for as long as there are some that are not above the bound of the turn, in at
most so many turns, starting with turn `i`.
-/
def takeUpTo (bound : Nat → K) : Nat → Nat → Q → Option (List A × Q)
  | 0, _, _ => none
  | turns + 1, i, q =>
      match pq.popUpTo key q (bound i) with
      | none => some ([], q)
      | some (a, q) => do
          let (rest, q) ← takeUpTo bound turns (i + 1) q
          some (a :: rest, q)

end TakeUntil

variable {pq : PriorityQueue Q A} {key : A → K} (lawful : pq.Lawful key) {q q' : Q} {a : A}
  {bound : Nat → K}

include lawful

/-- What is taken out is a least item that is not above the bound. -/
theorem popUpTo_some {b : K} (taken : pq.popUpTo key q b = some (a, q'))
    : (lawful.items q).Perm (a :: lawful.items q') ∧ (∀ other ∈ lawful.items q, key a ≤ key other)
      ∧ key a ≤ b := by
  unfold popUpTo at taken
  split at taken
  · cases taken
  rename_i first peeked
  split at taken
  · rename_i due
    obtain ⟨perm, least⟩ := lawful.pop_some taken
    refine ⟨perm, least, (least first ?_).trans due⟩
    exact (lawful.peek_some peeked).1
  · cases taken

/-- Nothing is taken out exactly when all items are above the bound. -/
theorem popUpTo_none {b : K} (none : pq.popUpTo key q b = none)
    : ∀ other ∈ lawful.items q, b < key other := by
  unfold popUpTo at none
  split at none
  · rename_i empty
    simp [lawful.peek_none empty]
  · rename_i first peeked
    obtain ⟨member, least⟩ := lawful.peek_some peeked
    split at none
    · rw [lawful.pop_none none] at member
      cases member
    · rename_i later
      exact fun other otherIn => (not_le.mp later).trans_le (least other otherIn)

/-- Any number of turns above that of the items takes out items in the order of their keys, each of
them not above the bound of its own turn, until all items are above the bound. By induction on the
number of items.
-/
theorem takeUpTo_ends (bound : Nat → K) (i : Nat) (q : Q)
    : ∃ taken q', (∀ turns, (lawful.items q).length < turns
        → pq.takeUpTo key bound turns i q = some (taken, q'))
      ∧ (lawful.items q).Perm (taken ++ lawful.items q')
      ∧ taken.Pairwise (fun a b => key a ≤ key b)
      ∧ (∀ j, (under : j < taken.length) → key taken[j] ≤ bound (i + j))
      ∧ ∀ other ∈ lawful.items q', bound (i + taken.length) < key other := by
  induction size : (lawful.items q).length using Nat.strong_induction_on generalizing q i with
  | h size ih =>
      subst size
      cases first : pq.popUpTo key q (bound i) with
      | none =>
          refine ⟨[], q, fun turns enough => ?_, .refl _, .nil,
            fun j under => absurd under (Nat.not_lt_zero j), popUpTo_none lawful first⟩
          obtain ⟨turns, rfl⟩ := Nat.exists_eq_succ_of_ne_zero (Nat.ne_zero_of_lt enough)
          rw [takeUpTo, first]
      | some found =>
          obtain ⟨a, q₁⟩ := found
          obtain ⟨perm, least, due⟩ := popUpTo_some lawful first
          have fewer : (lawful.items q₁).length < (lawful.items q).length := by
            rw [perm.length_eq, List.length_cons]
            exact Nat.lt_succ_self _
          obtain ⟨taken, q', run, perm', sorted, dues, later⟩ := ih _ fewer (i + 1) q₁ rfl
          refine ⟨a :: taken, q', fun turns enough => ?_, perm.trans (perm'.cons a), ?_, ?_, ?_⟩
          · obtain ⟨turns, rfl⟩ := Nat.exists_eq_succ_of_ne_zero (Nat.ne_zero_of_lt enough)
            rw [takeUpTo, first]
            simp [run turns (Nat.lt_of_lt_of_le fewer (Nat.le_of_lt_succ enough))]
          · refine List.pairwise_cons.mpr ⟨fun b member => ?_, sorted⟩
            have inRest : b ∈ lawful.items q₁ :=
              perm'.mem_iff.mpr (List.mem_append_left _ member)
            exact least b (perm.mem_iff.mpr (List.mem_cons_of_mem _ inRest))
          · intro j under
            cases j with
            | zero => exact due
            | succ j =>
                have onward := dues j (Nat.lt_of_succ_lt_succ under)
                rwa [Nat.add_right_comm, Nat.add_assoc] at onward
          · intro other member
            have onward := later other member
            rwa [Nat.add_right_comm, Nat.add_assoc] at onward

omit lawful

-----------------------------------------------------------------------------------------
-- Plain lists
-----------------------------------------------------------------------------------------

variable [DecidableEq A]

/-- A list that is searched for its least item. -/
def searched (key : A → K) : PriorityQueue (List A) A where
  new := []
  push l a := a :: l
  peek l := l.argmin key
  pop l := (l.argmin key).map fun a => (a, l.erase a)
  retain p l := l.filter p

def searchedLawful (key : A → K) : (searched key).Lawful key where
  items l := l
  items_new := rfl
  items_push _ _ := .refl _
  items_retain _ _ := .refl _
  peek_none := List.argmin_eq_none.mp
  peek_some found := ⟨List.argmin_mem found, fun _ member => List.le_of_mem_argmin member found⟩
  pop_none none := List.argmin_eq_none.mp (Option.map_eq_none_iff.mp none)
  pop_some popped := by
    obtain ⟨a, found, made⟩ := Option.map_eq_some_iff.mp popped
    cases made
    exact ⟨List.perm_cons_erase (List.argmin_mem found),
      fun _ member => List.le_of_mem_argmin member found⟩

end PriorityQueue
