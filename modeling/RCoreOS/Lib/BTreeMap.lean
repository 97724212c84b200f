import Mathlib.Order.Lattice
import Mathlib.Data.List.Perm.Basic
import Mathlib.Data.List.Nodup

/-! Ordered maps as sorted association lists. -/

variable {κ ν : Type} [LinearOrder κ]

/-- An ordered map: its entries in the order of their keys, one for each key. -/
structure BTreeMap (κ ν : Type) [LinearOrder κ] where
  entries : List (κ × ν)
  sorted : entries.Pairwise (fun a b => a.1 < b.1)

namespace BTreeMap

/-- The entries after an insertion, and the value that was replaced. -/
def insertEntry (key : κ) (value : ν) : List (κ × ν) → Option ν × List (κ × ν)
  | [] => (none, [(key, value)])
  | (key', value') :: rest =>
      if key < key' then (none, (key, value) :: (key', value') :: rest)
      else if key = key' then (some value', (key, value) :: rest)
      else ((insertEntry key value rest).1, (key', value') :: (insertEntry key value rest).2)

/-- Keys that an insertion leaves are old ones or the inserted one. -/
theorem insertEntry_keys (key : κ) (value : ν) (entries : List (κ × ν)) {entry : κ × ν}
    (member : entry ∈ (insertEntry key value entries).2)
    : entry.1 = key ∨ entry ∈ entries := by
  induction entries with
  | nil =>
      simp only [insertEntry, List.mem_singleton] at member
      exact .inl (by rw [member])
  | cons head rest ih =>
      unfold insertEntry at member
      split at member
      · rcases List.mem_cons.mp member with new | old
        · exact .inl (by rw [new])
        · exact .inr old
      split at member
      · rcases List.mem_cons.mp member with new | old
        · exact .inl (by rw [new])
        · exact .inr (List.mem_cons_of_mem _ old)
      · rcases List.mem_cons.mp member with first | later
        · exact .inr (first ▸ List.mem_cons_self ..)
        · exact (ih later).imp_right (List.mem_cons_of_mem _)

theorem insertEntry_sorted (key : κ) (value : ν) {entries : List (κ × ν)}
    (sorted : entries.Pairwise (fun a b => a.1 < b.1))
    : (insertEntry key value entries).2.Pairwise (fun a b => a.1 < b.1) := by
  induction entries with
  | nil => simp [insertEntry]
  | cons head rest ih =>
      obtain ⟨below, sorted⟩ := List.pairwise_cons.mp sorted
      unfold insertEntry
      split
      · rename_i less
        refine List.pairwise_cons.mpr ⟨fun b member => ?_, List.pairwise_cons.mpr ⟨below, sorted⟩⟩
        rcases List.mem_cons.mp member with rfl | later
        · exact less
        · exact lt_trans less (below b later)
      split
      · rename_i same
        refine List.pairwise_cons.mpr ⟨fun b member => ?_, sorted⟩
        exact same ▸ below b member
      · rename_i notLess notSame
        refine List.pairwise_cons.mpr ⟨fun b member => ?_, ih sorted⟩
        rcases insertEntry_keys key value rest member with new | old
        · rw [new]
          exact lt_of_le_of_ne (not_lt.mp notLess) (Ne.symm notSame)
        · exact below b old

/-- A new key is added next to the old entries. -/
theorem insertEntry_fresh (key : κ) (value : ν) {entries : List (κ × ν)}
    (fresh : key ∉ entries.map Prod.fst)
    : (insertEntry key value entries).1 = none
      ∧ (insertEntry key value entries).2.Perm ((key, value) :: entries) := by
  induction entries with
  | nil => exact ⟨rfl, .refl _⟩
  | cons head rest ih =>
      simp only [List.map_cons, List.mem_cons, not_or] at fresh
      unfold insertEntry
      split
      · exact ⟨rfl, .refl _⟩
      · obtain ⟨none, perm⟩ := ih fresh.2
        rw [if_neg fresh.1]
        exact ⟨none, (perm.cons head).trans (.swap ..)⟩

/-- A known key gets the new value in its place. -/
theorem insertEntry_known (key : κ) (value old : ν) {pre post : List (κ × ν)}
    (below : ∀ entry ∈ pre, entry.1 < key)
    : insertEntry key value (pre ++ (key, old) :: post)
      = (some old, pre ++ (key, value) :: post) := by
  induction pre with
  | nil => simp [insertEntry]
  | cons head pre ih =>
      have less := below head (List.mem_cons_self ..)
      rw [List.cons_append, insertEntry, if_neg (lt_asymm less), if_neg (ne_of_lt less).symm,
        ih fun entry member => below entry (List.mem_cons_of_mem head member)]
      rfl

/-- A key behind all others is added at the end. -/
theorem insertEntry_last (key : κ) (value : ν) {entries : List (κ × ν)}
    (below : ∀ entry ∈ entries, entry.1 < key)
    : insertEntry key value entries = (none, entries ++ [(key, value)]) := by
  induction entries with
  | nil => rfl
  | cons head rest ih =>
      have less := below head (List.mem_cons_self ..)
      rw [insertEntry, if_neg (lt_asymm less), if_neg (ne_of_lt less).symm,
        ih fun entry member => below entry (List.mem_cons_of_mem head member)]
      rfl

def empty : BTreeMap κ ν where
  entries := []
  sorted := .nil

def insert (m : BTreeMap κ ν) (key : κ) (value : ν) : Option ν × BTreeMap κ ν :=
  ((insertEntry key value m.entries).1, {
    entries := (insertEntry key value m.entries).2
    sorted := insertEntry_sorted key value m.sorted })

def values (m : BTreeMap κ ν) : List ν :=
  m.entries.map Prod.snd

def get (m : BTreeMap κ ν) (key : κ) : Option ν :=
  (m.entries.find? fun entry => entry.1 = key).map Prod.snd

/-- Takes the entry of a key out of the map, with the value it had. -/
def remove (m : BTreeMap κ ν) (key : κ) : Option ν × BTreeMap κ ν :=
  (m.get key, {
    entries := m.entries.filter fun entry => entry.1 ≠ key
    sorted := m.sorted.filter _ })

def first (m : BTreeMap κ ν) : Option (κ × ν) :=
  m.entries.head?

/-- Takes the first entry out of the map. -/
def popFirst (m : BTreeMap κ ν) : Option ((κ × ν) × BTreeMap κ ν) :=
  match found : m.entries with
  | [] => none
  | entry :: rest => some (entry, {
      entries := rest
      sorted := (List.pairwise_cons.mp (found ▸ m.sorted)).2 })

variable {m : BTreeMap κ ν} {key : κ} {value : ν}

/-- Keys occur once. -/
theorem keys_nodup (m : BTreeMap κ ν) : (m.entries.map Prod.fst).Nodup :=
  (m.sorted.imp ne_of_lt).map Prod.fst fun _ _ ne => ne

theorem insert_fresh (fresh : key ∉ m.entries.map Prod.fst) (value : ν)
    : (m.insert key value).1 = none
      ∧ (m.insert key value).2.entries.Perm ((key, value) :: m.entries) :=
  insertEntry_fresh key value fresh

/-- The old value of a known key is returned. -/
theorem insert_old {old : ν} (member : (key, old) ∈ m.entries)
    : (m.insert key value).1 = some old := by
  obtain ⟨pre, post, split⟩ := List.append_of_mem member
  have sorted := m.sorted
  rw [split, List.pairwise_append] at sorted
  have below : ∀ entry ∈ pre, entry.1 < key := fun entry member =>
    sorted.2.2 entry member _ (List.mem_cons_self ..)
  simp only [insert, split, insertEntry_known key value old below]

/-- An entry that is found can be replaced, and stays where it was. -/
theorem insert_known {pre post : List (κ × ν)} {old : ν}
    (split : m.entries = pre ++ (key, old) :: post) (value : ν)
    : (m.insert key value).2.entries = pre ++ (key, value) :: post := by
  have sorted := m.sorted
  rw [split, List.pairwise_append] at sorted
  have below : ∀ entry ∈ pre, entry.1 < key := fun entry member =>
    sorted.2.2 entry member _ (List.mem_cons_self ..)
  simp only [insert, split, insertEntry_known key value old below]

/-- An entry that is inserted again changes nothing. -/
theorem insert_same (member : (key, value) ∈ m.entries) : (m.insert key value).2 = m := by
  obtain ⟨pre, post, split⟩ := List.append_of_mem member
  have same : (m.insert key value).2.entries = m.entries :=
    (insert_known split value).trans split.symm
  rcases inserted : (m.insert key value).2 with ⟨entries, sorted⟩
  rw [inserted] at same
  cases m
  cases same
  rfl

/-- A lookup finds the entries of the map and nothing else. -/
theorem get_eq_some : m.get key = some value ↔ (key, value) ∈ m.entries := by
  unfold get
  constructor
  · intro found
    obtain ⟨entry, first, rfl⟩ := Option.map_eq_some_iff.mp found
    have same : entry.1 = key := by simpa using List.find?_some first
    exact same ▸ List.mem_of_find?_eq_some first
  · intro member
    obtain ⟨pre, post, split⟩ := List.append_of_mem member
    have sorted := m.sorted
    rw [split, List.pairwise_append] at sorted
    have skipped : pre.find? (fun entry => entry.1 = key) = none := by
      refine List.find?_eq_none.mpr fun entry earlier => ?_
      simpa using ne_of_lt (sorted.2.2 entry earlier _ (List.mem_cons_self ..))
    simp [split, List.find?_append, skipped]

/-- A lookup fails on exactly the keys that the map does not have. -/
theorem get_eq_none : m.get key = none ↔ key ∉ m.entries.map Prod.fst := by
  rw [Option.eq_none_iff_forall_ne_some]
  constructor
  · intro missing member
    obtain ⟨entry, found, rfl⟩ := List.mem_map.mp member
    exact missing entry.2 (get_eq_some.mpr found)
  · intro missing value found
    exact missing (List.mem_map.mpr ⟨(key, value), get_eq_some.mp found, rfl⟩)

@[simp]
theorem get_empty (key : κ) : (empty : BTreeMap κ ν).get key = none :=
  rfl

/-- Entries after an insertion, by induction on the entries in their order. -/
theorem mem_insertEntry {entries : List (κ × ν)}
    (sorted : entries.Pairwise (fun a b => a.1 < b.1)) (entry : κ × ν)
    : entry ∈ (insertEntry key value entries).2
      ↔ entry = (key, value) ∨ entry ∈ entries ∧ entry.1 ≠ key := by
  induction entries with
  | nil => simp [insertEntry]
  | cons head rest ih =>
      obtain ⟨below, sorted⟩ := List.pairwise_cons.mp sorted
      unfold insertEntry
      split
      · rename_i less
        have later : ∀ other ∈ head :: rest, other.1 ≠ key := by
          intro other member
          rcases List.mem_cons.mp member with rfl | member
          · exact (ne_of_lt less).symm
          · exact (ne_of_lt (lt_trans less (below other member))).symm
        rw [List.mem_cons]
        exact or_congr_right ⟨fun member => ⟨member, later entry member⟩, And.left⟩
      split
      · rename_i same
        have later : ∀ other ∈ rest, other.1 ≠ key := fun other member =>
          (ne_of_lt (same ▸ below other member)).symm
        rw [List.mem_cons]
        refine or_congr_right
          ⟨fun member => ⟨List.mem_cons_of_mem _ member, later entry member⟩, ?_⟩
        rintro ⟨member, other⟩
        rcases List.mem_cons.mp member with rfl | member
        · exact absurd same.symm other
        · exact member
      · rename_i notSame
        rw [List.mem_cons, List.mem_cons, ih sorted]
        constructor
        · rintro (rfl | inserted | ⟨member, other⟩)
          · exact .inr ⟨.inl rfl, Ne.symm notSame⟩
          · exact .inl inserted
          · exact .inr ⟨.inr member, other⟩
        · rintro (inserted | ⟨rfl | member, other⟩)
          · exact .inr (.inl inserted)
          · exact .inl rfl
          · exact .inr (.inr ⟨member, other⟩)

/-- A lookup after an insertion sees the new value under its key and the old ones elsewhere. -/
theorem get_insert [DecidableEq κ] (m : BTreeMap κ ν) (key key' : κ) (value : ν)
    : (m.insert key value).2.get key' = if key' = key then some value else m.get key' := by
  refine Option.ext fun found => ?_
  rw [get_eq_some]
  refine (mem_insertEntry m.sorted (key', found)).trans ?_
  split
  · rename_i same
    simp [same, eq_comm]
  · rename_i other
    rw [get_eq_some]
    simp [other]

/-- A lookup after a removal misses the removed key and sees the others. -/
theorem get_remove [DecidableEq κ] (m : BTreeMap κ ν) (key key' : κ)
    : (m.remove key).2.get key' = if key' = key then none else m.get key' := by
  refine Option.ext fun found => ?_
  rw [get_eq_some]
  change (key', found) ∈ m.entries.filter _ ↔ _
  rw [List.mem_filter]
  split
  · rename_i same
    simp [same]
  · rename_i other
    simp [other, get_eq_some]

/-- The removed entry and the entries that are left make up the map. -/
theorem remove_perm (found : m.get key = some value)
    : m.entries.Perm ((key, value) :: (m.remove key).2.entries) := by
  obtain ⟨pre, post, split⟩ := List.append_of_mem (get_eq_some.mp found)
  have sorted := m.sorted
  rw [split, List.pairwise_append, List.pairwise_cons] at sorted
  obtain ⟨-, ⟨after, -⟩, before⟩ := sorted
  have left : (m.remove key).2.entries = pre ++ post := by
    have keepPre : pre.filter (fun entry => entry.1 ≠ key) = pre :=
      List.filter_eq_self.mpr fun entry member =>
        decide_eq_true (ne_of_lt (before entry member _ (List.mem_cons_self ..)))
    have keepPost : post.filter (fun entry => entry.1 ≠ key) = post :=
      List.filter_eq_self.mpr fun entry member =>
        decide_eq_true (ne_of_lt (after entry member)).symm
    simp only [remove, split, List.filter_append, keepPre]
    rw [List.filter_cons_of_neg (by simp), keepPost]
  rw [left, split]
  exact List.perm_middle

/-- The first entry has the least key. -/
theorem popFirst_eq {entry : κ × ν} {rest : BTreeMap κ ν}
    (popped : m.popFirst = some (entry, rest))
    : m.entries = entry :: rest.entries ∧ ∀ other ∈ m.entries, entry.1 ≤ other.1 := by
  unfold popFirst at popped
  split at popped
  · cases popped
  · next found =>
      cases popped
      have sorted := m.sorted
      rw [found] at sorted
      refine ⟨found, ?_⟩
      intro other member
      rw [found] at member
      rcases List.mem_cons.mp member with rfl | later
      · exact le_rfl
      · exact ((List.pairwise_cons.mp sorted).1 other later).le

end BTreeMap
