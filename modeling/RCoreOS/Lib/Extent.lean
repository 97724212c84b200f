import Mathlib.Data.List.Perm.Basic
import Mathlib.Data.List.Pairwise
import Mathlib.Data.Nat.Init
import Mathlib.Algebra.Ring.Nat
import Mathlib.Order.Interval.Finset.Nat

/-! Ranges of addresses: disjointness, containment, how large disjoint ranges are together, and
the cutting of a range into equal tiles.
-/

/-- The addresses from `start` on, `size` many. -/
structure Extent where
  start : Nat
  size : Nat
deriving DecidableEq, Repr

namespace Extent

def stop (e : Extent) : Nat :=
  e.start + e.size

instance : Membership Nat Extent where
  mem e address := e.start ≤ address ∧ address < e.stop

/-- One range ends before the other begins. -/
def Apart (a b : Extent) : Prop :=
  a.stop ≤ b.start ∨ b.stop ≤ a.start

def Within (a b : Extent) : Prop :=
  b.start ≤ a.start ∧ a.stop ≤ b.stop

/-- Every address of the range lies in one of the regions. -/
def Covered (regions : List Extent) (e : Extent) : Prop :=
  ∀ address ∈ e, ∃ region ∈ regions, address ∈ region

variable {a b c e : Extent} {address : Nat} {regions : List Extent}

instance : Decidable (address ∈ e) :=
  inferInstanceAs (Decidable (e.start ≤ address ∧ address < e.stop))

instance : Decidable (Apart a b) :=
  inferInstanceAs (Decidable (_ ∨ _))

instance : Decidable (Within a b) :=
  inferInstanceAs (Decidable (_ ∧ _))

theorem mem_iff : address ∈ e ↔ e.start ≤ address ∧ address < e.stop :=
  Iff.rfl

theorem Apart.symm (apart : Apart a b) : Apart b a :=
  Or.symm apart

theorem Within.refl (e : Extent) : Within e e :=
  ⟨Nat.le_refl _, Nat.le_refl _⟩

theorem Within.trans (inner : Within a b) (outer : Within b c) : Within a c :=
  ⟨Nat.le_trans outer.1 inner.1, Nat.le_trans inner.2 outer.2⟩

theorem Within.mem (within : Within a b) (member : address ∈ a) : address ∈ b :=
  ⟨Nat.le_trans within.1 member.1, Nat.lt_of_lt_of_le member.2 within.2⟩

/-- A smaller range with the same start. -/
theorem Within.of_le {start small large : Nat} (le : small ≤ large)
    : Within ⟨start, small⟩ ⟨start, large⟩ :=
  ⟨Nat.le_refl _, Nat.add_le_add_left le start⟩

/-- Parts of disjoint ranges are disjoint. -/
theorem Apart.mono (apart : Apart a b) {a' b' : Extent} (left : Within a' a)
    (right : Within b' b)
    : Apart a' b' := by
  rcases apart with before | after
  · exact .inl (Nat.le_trans left.2 (Nat.le_trans before right.1))
  · exact .inr (Nat.le_trans right.2 (Nat.le_trans after left.1))

theorem Apart.not_mem (apart : Apart a b) (member : address ∈ a) : address ∉ b := by
  intro other
  rcases apart with before | after
  · exact absurd (Nat.lt_of_lt_of_le member.2 before) (Nat.not_lt.mpr other.1)
  · exact absurd (Nat.lt_of_lt_of_le other.2 after) (Nat.not_lt.mpr member.1)

/-- Ranges that are not empty are apart if they have no address in common. -/
theorem Apart.of_disjoint (nonempty : 0 < a.size) (nonempty' : 0 < b.size)
    (disjoint : ∀ address ∈ a, address ∉ b)
    : Apart a b := by
  rcases Nat.lt_or_ge a.start b.start with before | after
  · refine .inl (Nat.le_of_not_lt fun overlap => ?_)
    exact disjoint b.start ⟨Nat.le_of_lt before, overlap⟩
      ⟨Nat.le_refl _, Nat.lt_add_of_pos_right nonempty'⟩
  · refine .inr (Nat.le_of_not_lt fun overlap => ?_)
    exact disjoint a.start ⟨Nat.le_refl _, Nat.lt_add_of_pos_right nonempty⟩ ⟨after, overlap⟩

/-- Disjoint ranges that are not empty start at different addresses. -/
theorem Apart.start_ne (apart : Apart a b) (nonempty : 0 < a.size) (nonempty' : 0 < b.size)
    : a.start ≠ b.start := by
  intro same
  have inside : a.start ∈ a := ⟨Nat.le_refl _, Nat.lt_add_of_pos_right nonempty⟩
  exact apart.not_mem inside ⟨same ▸ Nat.le_refl _, by
    unfold stop
    omega⟩

theorem Covered.mono (covered : Covered regions b) (within : Within a b) : Covered regions a :=
  fun address member => covered address (within.mem member)

theorem Covered.cons (covered : Covered regions e) (region : Extent)
    : Covered (region :: regions) e := by
  intro address member
  obtain ⟨found, known, inside⟩ := covered address member
  exact ⟨found, List.mem_cons_of_mem _ known, inside⟩

/-- Pairwise disjointness does not depend on the order. -/
theorem apart_perm {l l' : List Extent} (perm : l.Perm l')
    : l.Pairwise Apart ↔ l'.Pairwise Apart :=
  perm.pairwise_iff fun apart => apart.symm

-----------------------------------------------------------------------------------------
-- Sizes
-----------------------------------------------------------------------------------------

/-- The addresses of some ranges. -/
def addresses : List Extent → Finset Nat
  | [] => ∅
  | e :: rest => Finset.Ico e.start e.stop ∪ addresses rest

theorem mem_addresses {extents : List Extent}
    : address ∈ addresses extents ↔ ∃ e ∈ extents, address ∈ e := by
  induction extents with
  | nil => simp [addresses]
  | cons e rest ih =>
      rw [addresses, Finset.mem_union, ih, Finset.mem_Ico]
      simp [mem_iff]

/-- Disjoint ranges have as many addresses as their sizes say, by induction on them. -/
theorem card_addresses {extents : List Extent} (apart : extents.Pairwise Apart)
    : (addresses extents).card = (extents.map size).sum := by
  induction extents with
  | nil => rfl
  | cons e rest ih =>
      obtain ⟨first, others⟩ := List.pairwise_cons.mp apart
      have disjoint : Disjoint (Finset.Ico e.start e.stop) (addresses rest) := by
        rw [Finset.disjoint_left]
        intro address inside later
        obtain ⟨other, member, inside'⟩ := mem_addresses.mp later
        exact (first other member).not_mem (mem_iff.mpr (Finset.mem_Ico.mp inside)) inside'
      rw [addresses, Finset.card_union_of_disjoint disjoint, ih others, Nat.card_Ico,
        List.map_cons, List.sum_cons, stop, Nat.add_sub_cancel_left]

/-- Disjoint ranges between two bounds are together no larger than the distance of these. -/
theorem sum_size_le {extents : List Extent} (apart : extents.Pairwise Apart) {low high : Nat}
    (inside : ∀ e ∈ extents, low ≤ e.start ∧ e.stop ≤ high)
    : (extents.map size).sum ≤ high - low := by
  have within : addresses extents ⊆ Finset.Ico low high := by
    intro address member
    obtain ⟨e, known, here⟩ := mem_addresses.mp member
    have bounds := inside e known
    have lies := mem_iff.mp here
    exact Finset.mem_Ico.mpr ⟨bounds.1.trans lies.1, lies.2.trans_le bounds.2⟩
  have smaller := Finset.card_le_card within
  rwa [card_addresses apart, Nat.card_Ico] at smaller

-----------------------------------------------------------------------------------------
-- Tiles
-----------------------------------------------------------------------------------------

/-- `count` ranges of one size, side by side. -/
def tiles (start size count : Nat) : List Extent :=
  (List.range count).map fun i => ⟨start + size * i, size⟩

variable {start size count : Nat}

theorem tiles_within (tile : Extent) (member : tile ∈ tiles start size count)
    : Within tile ⟨start, size * count⟩ := by
  obtain ⟨i, below, rfl⟩ := List.mem_map.mp member
  refine ⟨Nat.le_add_right .., ?_⟩
  have inside : size * (i + 1) ≤ size * count :=
    Nat.mul_le_mul_left size (List.mem_range.mp below)
  rw [Nat.mul_succ] at inside
  simp only [stop]
  omega

theorem tiles_apart : (tiles start size count).Pairwise Apart := by
  refine List.pairwise_map.mpr (List.pairwise_lt_range.imp fun {i j} less => .inl ?_)
  have inside : size * (i + 1) ≤ size * j := Nat.mul_le_mul_left size less
  rw [Nat.mul_succ] at inside
  simp only [stop]
  omega

end Extent
