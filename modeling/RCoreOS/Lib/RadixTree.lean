import Mathlib.Tactic.Common
import Mathlib.Algebra.Group.Nat.Defs
import Mathlib.Logic.Function.Basic

/-! Lookup trees of fixed height whose nodes live in a store and link each other by name.
A placement gives every node one height and one key prefix, so two lookups that share a
node agree on everything above it, and an update of one slot is invisible elsewhere.
-/

namespace RadixTree

variable {Node : Type}

/-- The child links of a store: slot `i` of node `a` names at most one child. -/
abbrev Links (Node : Type) := Node → Nat → Option Node

/-- The slot that `key` selects in a node of the given height. -/
def digit (base height key : Nat) : Nat :=
  key / base ^ height % base

/-- `Visits base links root top key h a` holds when the lookup of `key` from `root`, a node
of height `top`, passes node `a` at height `h`.
-/
inductive Visits (base : Nat) (links : Links Node) (root : Node) (top key : Nat)
    : Nat → Node → Prop
  | root : Visits base links root top key top root
  | down {h a b} (above : Visits base links root top key (h + 1) a)
    (linked : links a (digit base (h + 1) key) = some b)
    : Visits base links root top key h b

/-- A placement assigns heights and key prefixes along all links below the root. Nodes that
are no longer linked may keep their place; a node without a place is unreachable.
-/
structure Placed (base : Nat) (links : Links Node) (root : Node) (top : Nat)
    (place : Node → Option (Nat × Nat))
    : Prop where
  root : place root = some (top, 0)
  bounded : ∀ {a h pre}, place a = some (h, pre) → h ≤ top
  down
    : ∀ {a h pre i b},
        place a = some (h + 1, pre)
        → i < base
        → links a i = some b
        → place b = some (h, pre * base + i)

/-- Two stores that agree on every slot except slot `i` of node `n`. -/
def AgreeOff (links next : Links Node) (n : Node) (i : Nat) : Prop :=
  ∀ a j, a ≠ n ∨ j ≠ i → next a j = links a j

-----------------------------------------------------------------------------------------
-- Lookups under a placement
-----------------------------------------------------------------------------------------

section Lookups

variable {base top : Nat} {links next : Links Node} {root : Node}
variable {place : Node → Option (Nat × Nat)}

/-- A digit is a valid slot of a nonempty node. -/
theorem digit_lt (positive : 0 < base) (height key : Nat) : digit base height key < base :=
  Nat.mod_lt _ positive

/-- The prefix at one height is the next prefix followed by the digit between them. -/
theorem prefix_step (base height key : Nat)
    : key / base ^ (height + 1) * base + digit base height key = key / base ^ height := by
  unfold digit
  rw [Nat.pow_succ, ← Nat.div_div_eq_div_mul]
  exact Nat.div_add_mod' _ _

/-- A visited node is never above the root, by induction on the descent. -/
theorem Visits.height_le {key h a} (visit : Visits base links root top key h a)
    : h ≤ top := by
  induction visit with
  | root => exact Nat.le_refl _
  | down _ _ ih => omega

/-- A lookup passes at most one node at each height. -/
theorem Visits.functional {key h a b}
    (first : Visits base links root top key h a)
    (second : Visits base links root top key h b)
    : a = b := by
  induction first generalizing b with
  | root =>
      cases second with
      | root => rfl
      | down above _ => exact absurd above.height_le (by omega)
  | @down h _ _ above linked ih =>
      cases second with
      | root => exact absurd above.height_le (by omega)
      | down above' linked' =>
          have same := ih above'
          subst same
          exact Option.some.inj (linked.symm.trans linked')

/-- A visited node is placed at its height under the prefix of the key, by induction on the
descent: each link appends one digit.
-/
theorem Placed.visits (placed : Placed base links root top place) (positive : 0 < base)
    {key h a} (bound : key < base ^ (top + 1))
    (visit : Visits base links root top key h a)
    : place a = some (h, key / base ^ (h + 1)) := by
  induction visit with
  | root => rw [Nat.div_eq_of_lt bound]; exact placed.root
  | @down h a b _ linked ih =>
      have below := placed.down ih (digit_lt positive _ _) linked
      rwa [prefix_step] at below

/-- Lookups that meet in a node meet at the same height under the same prefix. -/
theorem Placed.meet (placed : Placed base links root top place) (positive : 0 < base)
    {key other h h' a} (bound : key < base ^ (top + 1)) (bound' : other < base ^ (top + 1))
    (visit : Visits base links root top key h a)
    (visit' : Visits base links root top other h' a)
    : h = h' ∧ key / base ^ (h + 1) = other / base ^ (h' + 1) := by
  have same := (placed.visits positive bound visit).symm.trans
    (placed.visits positive bound' visit')
  simpa only [Option.some.injEq, Prod.mk.injEq] using same

/-- A node is visited by every key with the prefix it was visited under, by induction on the
descent: the digits above the node are digits of that prefix.
-/
theorem Visits.of_prefix_eq {key other h a}
    (same : other / base ^ (h + 1) = key / base ^ (h + 1))
    (visit : Visits base links root top key h a)
    : Visits base links root top other h a := by
  induction visit with
  | root => exact .root
  | @down h a b _ linked ih =>
      refine .down (ih ?_) ?_
      · rw [Nat.pow_succ, ← Nat.div_div_eq_div_mul, same, Nat.div_div_eq_div_mul]
      · unfold digit at linked ⊢
        rwa [same]

/-- A lookup is kept by a change that keeps its links, by induction on the descent. -/
theorem Visits.congr {key h a}
    (same : ∀ h' a' b, h ≤ h' → Visits base links root top key (h' + 1) a'
      → links a' (digit base (h' + 1) key) = some b → next a' (digit base (h' + 1) key) = some b)
    (visit : Visits base links root top key h a)
    : Visits base next root top key h a := by
  induction visit with
  | root => exact .root
  | @down h a b above linked ih =>
      have higher := ih fun h' a' b' le => same h' a' b' (by omega)
      exact .down higher (same h a b (Nat.le_refl h) above linked)

/-- A change of slot `i` of `n` is invisible to keys whose lookup does not pass that slot. -/
theorem Visits.agree_off {n : Node} {i height pre : Nat}
    (placed : Placed base links root top place) (positive : 0 < base)
    (agree : AgreeOff links next n i) (at_n : place n = some (height, pre))
    {key h a} (bound : key < base ^ (top + 1))
    (away : key / base ^ height ≠ pre * base + i)
    (visit : Visits base links root top key h a)
    : Visits base next root top key h a := by
  refine visit.congr fun h a b _ above linked => ?_
  rw [agree _ _ ?_]
  · exact linked
  by_contra same
  simp only [not_or, not_not] at same
  obtain ⟨rfl, digitEq⟩ := same
  have here := placed.visits positive bound above
  rw [at_n, Option.some.injEq, Prod.mk.injEq] at here
  obtain ⟨rfl, rfl⟩ := here
  exact away (by rw [← digitEq]; exact (prefix_step _ _ _).symm)

/-- A change of a slot of `n` leaves all lookups unchanged down to the height of `n`. -/
theorem Visits.agree_above {n : Node} {i height pre : Nat}
    (placed : Placed base links root top place) (positive : 0 < base)
    (agree : AgreeOff links next n i) (at_n : place n = some (height, pre))
    {key h a} (bound : key < base ^ (top + 1)) (above : height ≤ h)
    (visit : Visits base links root top key h a)
    : Visits base next root top key h a := by
  refine visit.congr fun h' a b le higher linked => ?_
  rw [agree _ _ (Or.inl ?_)]
  · exact linked
  rintro rfl
  have here := placed.visits positive bound higher
  rw [at_n, Option.some.injEq, Prod.mk.injEq] at here
  omega

/-- Every placed node other than the root hangs from a slot of a placed node. -/
def Hanging (base : Nat) (links : Links Node) (root : Node)
    (place : Node → Option (Nat × Nat)) : Prop :=
  ∀ b h pre, place b = some (h, pre) → b ≠ root
    → ∃ a above i, place a = some (h + 1, above) ∧ i < base ∧ links a i = some b

/-- When nothing is cut loose, a placed node is visited by the keys with its prefix, by
induction on its distance from the root.
-/
theorem Placed.visited (placed : Placed base links root top place) (positive : 0 < base)
    (hanging : Hanging base links root place) {b h pre}
    (at_b : place b = some (h, pre))
    : Visits base links root top (pre * base ^ (h + 1)) h b := by
  obtain ⟨distance, eq⟩ : ∃ distance, distance = top - h := ⟨_, rfl⟩
  induction distance generalizing b h pre with
  | zero =>
      by_cases isRoot : b = root
      · subst isRoot
        rw [placed.root, Option.some.injEq, Prod.mk.injEq] at at_b
        obtain ⟨rfl, rfl⟩ := at_b
        exact .root
      · obtain ⟨a, above, i, at_a, _, _⟩ := hanging _ _ _ at_b isRoot
        have := placed.bounded at_a
        omega
  | succ distance ih =>
      have notRoot : b ≠ root := by
        rintro rfl
        rw [placed.root, Option.some.injEq, Prod.mk.injEq] at at_b
        omega
      obtain ⟨a, above, i, at_a, lt, linked⟩ := hanging _ _ _ at_b notRoot
      have here := placed.down at_a lt linked
      rw [at_b, Option.some.injEq, Prod.mk.injEq] at here
      obtain ⟨-, rfl⟩ := here
      have split : (above * base + i) * base ^ (h + 1) / base ^ (h + 1) = above * base + i :=
        Nat.mul_div_cancel _ (Nat.pow_pos positive)
      refine .down (a := a) ((ih at_a (by omega)).of_prefix_eq ?_) ?_
      · have outer : above * base ^ (h + 1 + 1) / base ^ (h + 1 + 1) = above :=
          Nat.mul_div_cancel _ (Nat.pow_pos positive)
        rw [outer, Nat.pow_succ base (h + 1), ← Nat.div_div_eq_div_mul, split, Nat.mul_comm above,
          Nat.mul_add_div positive, Nat.div_eq_of_lt lt, Nat.add_zero]
      · unfold digit
        rw [split, Nat.mul_comm above, Nat.mul_add_mod, Nat.mod_eq_of_lt lt]
        exact linked

end Lookups

-----------------------------------------------------------------------------------------
-- Updates of one slot
-----------------------------------------------------------------------------------------

section Updates

variable {base top : Nat} {links next : Links Node} {root n : Node} {i : Nat}
variable {place : Node → Option (Nat × Nat)}

/-- Cutting a slot keeps every place. -/
theorem Placed.cut (placed : Placed base links root top place)
    (agree : AgreeOff links next n i) (empty : next n i = none)
    : Placed base next root top place where
  root := placed.root
  bounded := placed.bounded
  down := by
    intro a h pre j b at_a lt linked
    by_cases same : a = n ∧ j = i
    · rw [same.1, same.2, empty] at linked
      cases linked
    · rw [agree a j (by tauto)] at linked
      exact placed.down at_a lt linked

/-- A slot of a node of height zero carries no place. -/
theorem Placed.leaf (placed : Placed base links root top place)
    (agree : AgreeOff links next n i) {pre : Nat} (at_n : place n = some (0, pre))
    : Placed base next root top place where
  root := placed.root
  bounded := placed.bounded
  down := by
    intro a h pre' j b at_a lt linked
    have other : a ≠ n := by
      rintro rfl
      rw [at_n] at at_a
      simp at at_a
    rw [agree a j (Or.inl other)] at linked
    exact placed.down at_a lt linked

/-- The links after the unplaced, childless node `fresh` is put into slot `i` of `n`. -/
structure Graft (links next : Links Node) (place : Node → Option (Nat × Nat))
    (n : Node) (i : Nat) (fresh : Node)
    : Prop where
  agree : ∀ a j, a ≠ fresh → a ≠ n ∨ j ≠ i → next a j = links a j
  empty : links n i = none
  linked : next n i = some fresh
  unplaced : place fresh = none
  childless : ∀ j, next fresh j = none

variable {h pre : Nat} {fresh : Node}

/-- A graft places its node below the slot it is linked from. -/
theorem Placed.graft [DecidableEq Node] (placed : Placed base links root top place)
    (graft : Graft links next place n i fresh) (at_n : place n = some (h + 1, pre))
    : Placed base next root top
        (Function.update place fresh (some (h, pre * base + i))) where
  root := by
    rw [Function.update_of_ne ?_]
    · exact placed.root
    · intro same
      exact absurd (same ▸ placed.root) (by simp [graft.unplaced])
  bounded := by
    intro a h' pre' at_a
    by_cases same : a = fresh
    · subst same
      rw [Function.update_self, Option.some.injEq, Prod.mk.injEq] at at_a
      have := placed.bounded at_n
      omega
    · rw [Function.update_of_ne same] at at_a
      exact placed.bounded at_a
  down := by
    intro a h' pre' j b at_a lt linked
    have notFresh : a ≠ fresh := by
      rintro rfl
      rw [graft.childless] at linked
      cases linked
    rw [Function.update_of_ne notFresh] at at_a
    by_cases same : a = n ∧ j = i
    · obtain ⟨rfl, rfl⟩ := same
      rw [graft.linked, Option.some.injEq] at linked
      subst linked
      rw [at_n, Option.some.injEq, Prod.mk.injEq] at at_a
      obtain ⟨heq, rfl⟩ := at_a
      obtain rfl : h = h' := by omega
      exact Function.update_self ..
    · rw [graft.agree a j notFresh (by tauto)] at linked
      have old := placed.down at_a lt linked
      have known : b ≠ fresh := by
        rintro rfl
        rw [graft.unplaced] at old
        cases old
      rw [Function.update_of_ne known]
      exact old

/-- A graft keeps every lookup: the slot was empty and the node was not visited. -/
theorem Visits.graft (placed : Placed base links root top place) (positive : 0 < base)
    (graft : Graft links next place n i fresh) {key h a} (bound : key < base ^ (top + 1))
    (visit : Visits base links root top key h a)
    : Visits base next root top key h a := by
  refine visit.congr fun h a b _ above linked => ?_
  rw [graft.agree _ _ ?_ ?_]
  · exact linked
  · rintro rfl
    have here := placed.visits positive bound above
    rw [graft.unplaced] at here
    cases here
  · by_contra same
    simp only [not_or, not_not] at same
    rw [same.1, same.2, graft.empty] at linked
    cases linked

/-- Writing a slot that held no link cuts nothing loose. -/
theorem Hanging.write (hanging : Hanging base links root place)
    (agree : AgreeOff links next n i) (free : links n i = none)
    : Hanging base next root place := by
  intro b h pre at_b notRoot
  obtain ⟨a, above, j, at_a, lt, linked⟩ := hanging _ _ _ at_b notRoot
  refine ⟨a, above, j, at_a, lt, ?_⟩
  rw [agree a j]
  · exact linked
  by_contra same
  simp only [not_or, not_not] at same
  rw [same.1, same.2, free] at linked
  cases linked

/-- Writing a slot of a node of height zero cuts nothing loose. -/
theorem Hanging.leaf (hanging : Hanging base links root place)
    (agree : AgreeOff links next n i) {pre : Nat} (at_n : place n = some (0, pre))
    : Hanging base next root place := by
  intro b h pre' at_b notRoot
  obtain ⟨a, above, j, at_a, lt, linked⟩ := hanging _ _ _ at_b notRoot
  refine ⟨a, above, j, at_a, lt, ?_⟩
  rw [agree a j (Or.inl ?_)]
  · exact linked
  rintro rfl
  rw [at_n] at at_a
  simp at at_a

/-- After a graft everything hangs, the new node from its slot. -/
theorem Hanging.graft [DecidableEq Node] (hanging : Hanging base links root place)
    (graft : Graft links next place n i fresh) (at_n : place n = some (h + 1, pre))
    (lt : i < base)
    : Hanging base next root
        (Function.update place fresh (some (h, pre * base + i))) := by
  have known {a pos} (at_a : place a = some pos) : a ≠ fresh := by
    rintro rfl
    rw [graft.unplaced] at at_a
    cases at_a
  intro b h' pre' at_b notRoot
  by_cases isFresh : b = fresh
  · subst isFresh
    rw [Function.update_self, Option.some.injEq, Prod.mk.injEq] at at_b
    obtain ⟨rfl, -⟩ := at_b
    exact ⟨n, pre, i, by rw [Function.update_of_ne (known at_n)]; exact at_n, lt, graft.linked⟩
  · rw [Function.update_of_ne isFresh] at at_b
    obtain ⟨a, above, j, at_a, lt', linked⟩ := hanging _ _ _ at_b notRoot
    refine ⟨a, above, j, by rw [Function.update_of_ne (known at_a)]; exact at_a, lt', ?_⟩
    rw [graft.agree a j (known at_a)]
    · exact linked
    by_contra same
    simp only [not_or, not_not] at same
    rw [same.1, same.2, graft.empty] at linked
    cases linked

end Updates

-----------------------------------------------------------------------------------------
-- Changes outside the tree
-----------------------------------------------------------------------------------------

section Outside

variable {base top : Nat} {links next : Links Node} {root : Node}
variable {place : Node → Option (Nat × Nat)}

/-- Two stores that agree on all placed nodes. -/
def AgreeOn (links next : Links Node) (place : Node → Option (Nat × Nat)) : Prop :=
  ∀ a i, (place a).isSome → next a i = links a i

theorem Placed.agree_on (placed : Placed base links root top place)
    (agree : AgreeOn links next place) : Placed base next root top place where
  root := placed.root
  bounded := placed.bounded
  down := by
    intro a h pre i b at_a lt linked
    rw [agree a i (by simp [at_a])] at linked
    exact placed.down at_a lt linked

/-- A lookup passes placed nodes only. -/
theorem Visits.agree_on (placed : Placed base links root top place) (positive : 0 < base)
    (agree : AgreeOn links next place) {key h a} (bound : key < base ^ (top + 1))
    (visit : Visits base links root top key h a)
    : Visits base next root top key h a := by
  refine visit.congr fun h a b _ above linked => ?_
  rwa [agree a _ (by simp [placed.visits positive bound above])]

theorem Hanging.agree_on (hanging : Hanging base links root place)
    (agree : AgreeOn links next place) : Hanging base next root place := by
  intro b h pre at_b notRoot
  obtain ⟨a, above, i, at_a, lt, linked⟩ := hanging b h pre at_b notRoot
  exact ⟨a, above, i, at_a, lt, by rwa [agree a i (by simp [at_a])]⟩

end Outside

end RadixTree
