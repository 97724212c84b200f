import RCoreOS.Lib.Outcome
import Mathlib.Data.List.Forall2

/-! Lists that are related entry by entry: what a map that may fail returns, and how a relation
between all entries follows from a condition on those of one list.
-/

namespace Outcome

open List (Forall₂)

variable {ε α β : Type}

/-- A map over a list that returns maps each entry, by induction on the list. -/
theorem mapM_eq_ok {f : α → Except ε β} {xs : List α} {ys : List β} (run : xs.mapM f = .ok ys)
    : Forall₂ (fun x y => f x = .ok y) xs ys := by
  induction xs generalizing ys with
  | nil =>
      cases run
      exact .nil
  | cons x xs ih =>
      rw [List.mapM_cons] at run
      obtain ⟨y, first, run⟩ := bind_eq_ok.mp run
      obtain ⟨rest, others, run⟩ := bind_eq_ok.mp run
      cases run
      exact .cons first (ih others)

/-- A map that returns at every entry returns all of them, by induction on the list. -/
theorem mapM_ok {f : α → Except ε β} {g : α → β} {xs : List α} (each : ∀ x ∈ xs, f x = .ok (g x))
    : xs.mapM f = .ok (xs.map g) := by
  induction xs with
  | nil => rfl
  | cons x xs ih =>
      obtain ⟨first, others⟩ := List.forall_mem_cons.mp each
      rw [List.mapM_cons, first, ok_bind, ih others, ok_bind]
      rfl

/-- What a partial map over a counter returns, by induction on the number of its turns. -/
theorem mapM_range_eq_some {f : Nat → Option β} {count : Nat} {ys : List β}
    (run : (List.range count).mapM f = some ys)
    : ys.length = count ∧ ∀ i < count, f i = ys[i]? := by
  induction count generalizing ys with
  | zero =>
      cases run
      exact ⟨rfl, nofun⟩
  | succ count ih =>
      rw [List.range_succ, List.mapM_append] at run
      obtain ⟨earlier, first, run⟩ := Option.bind_eq_some_iff.mp run
      obtain ⟨last, second, run⟩ := Option.bind_eq_some_iff.mp run
      obtain ⟨length, each⟩ := ih first
      rw [List.mapM_cons] at second
      obtain ⟨y, here, second⟩ := Option.bind_eq_some_iff.mp second
      cases second
      cases run
      refine ⟨by simp [length], fun i inside => ?_⟩
      rcases Nat.lt_succ_iff_lt_or_eq.mp inside with before | rfl
      · rw [List.getElem?_append_left (length.symm ▸ before), each i before]
      · rw [List.getElem?_append_right (Nat.le_of_eq length), length, Nat.sub_self, here]
        rfl

end Outcome

namespace List

variable {α β : Type}

/-- Entries that are related one way are related the other way when a condition holds of each
entry of the first list, by induction on the relation.
-/
theorem Forall₂.iff_forall {R S : α → β → Prop} {P : α → Prop} {xs : List α} {ys : List β}
    (related : Forall₂ R xs ys) (entry : ∀ x y, R x y → (S x y ↔ P x))
    : Forall₂ S xs ys ↔ ∀ x ∈ xs, P x := by
  induction related with
  | nil => simp
  | cons first _ ih => rw [forall₂_cons, forall_mem_cons, ih, entry _ _ first]

/-- Each entry has its counterpart in the other list, by induction on the relation. -/
theorem Forall₂.exists_right {R : α → β → Prop} {xs : List α} {ys : List β}
    (related : Forall₂ R xs ys) {x : α} (member : x ∈ xs)
    : ∃ y ∈ ys, R x y := by
  induction related with
  | nil => cases member
  | cons first _ ih =>
      rcases List.mem_cons.mp member with rfl | later
      · exact ⟨_, List.mem_cons_self .., first⟩
      · obtain ⟨y, isEntry, related⟩ := ih later
        exact ⟨y, List.mem_cons_of_mem _ isEntry, related⟩

theorem Forall₂.exists_left {R : α → β → Prop} {xs : List α} {ys : List β}
    (related : Forall₂ R xs ys) {y : β} (member : y ∈ ys)
    : ∃ x ∈ xs, R x y :=
  related.flip.exists_right member

/-- A relation on two lists in two parts, by induction on the first parts. -/
theorem forall₂_append_iff {S : α → β → Prop} {xs xs' : List α} {ys ys' : List β}
    (length : xs.length = ys.length)
    : Forall₂ S (xs ++ xs') (ys ++ ys') ↔ Forall₂ S xs ys ∧ Forall₂ S xs' ys' := by
  induction xs generalizing ys with
  | nil =>
      cases List.length_eq_zero_iff.mp length.symm
      simp
  | cons x xs ih =>
      cases ys with
      | nil => cases length
      | cons y ys =>
          rw [cons_append, cons_append, forall₂_cons, forall₂_cons, ih (Nat.succ.inj length),
            and_assoc]

end List
