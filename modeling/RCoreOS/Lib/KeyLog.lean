import Mathlib.Data.List.Infix
import Mathlib.Data.List.Induction

/-! Logs of a table from keys to values: which entry a log leaves under a key, and logs in
which an entry is never added over another one.
-/

namespace KeyLog

variable {κ ν : Type} [DecidableEq κ]

/-- One change of the table. -/
inductive Change (κ ν : Type) where
  | added (key : κ) (value : ν)
  | removed (key : κ)

/-- What a change leaves under a key that had `old`. -/
def Change.apply (key : κ) (old : Option ν) : Change κ ν → Option ν
  | .added key' value => if key' = key then some value else old
  | .removed key' => if key' = key then none else old

@[simp]
theorem apply_added (key key' : κ) (value : ν) (old : Option ν)
    : Change.apply key old (.added key' value) = if key' = key then some value else old :=
  rfl

@[simp]
theorem apply_removed (key key' : κ) (old : Option ν)
    : Change.apply key old (.removed key') = if key' = key then none else old :=
  rfl

/-- The entry a log leaves under a key. -/
def current (log : List (Change κ ν)) (key : κ) : Option ν :=
  log.foldl (Change.apply key) none

/-- Between two additions under a key there is a removal. -/
def Exclusive (log : List (Change κ ν)) : Prop :=
  ∀ before key first between second after,
    log = before ++ .added key first :: between ++ .added key second :: after →
      .removed key ∈ between

variable {log between : List (Change κ ν)} {key : κ} {value : ν}

theorem current_append (log more : List (Change κ ν)) (key : κ)
    : current (log ++ more) key = more.foldl (Change.apply key) (current log key) :=
  List.foldl_append ..

theorem current_snoc (log : List (Change κ ν)) (change : Change κ ν) (key : κ)
    : current (log ++ [change]) key = change.apply key (current log key) :=
  current_append log [change] key

/-- An entry stays as long as it is not removed, though its value may change, by induction
on the changes that follow.
-/
theorem current_isSome (present : (current log key).isSome) (kept : .removed key ∉ between)
    : (current (log ++ between) key).isSome := by
  induction between using List.reverseRecOn with
  | nil => rwa [List.append_nil]
  | append_singleton between change ih =>
      simp only [List.mem_append, List.mem_singleton, not_or] at kept
      rw [← List.append_assoc, current_snoc]
      cases change with
      | added key' value =>
          rw [apply_added]
          split
          · rfl
          · exact ih kept.1
      | removed key' =>
          have other : key' ≠ key := fun same => kept.2 (same ▸ rfl)
          rw [apply_removed, if_neg other]
          exact ih kept.1

/-- An entry was added, and has not been removed or replaced since, by induction on the
log.
-/
theorem added_of_current (found : current log key = some value)
    : ∃ before between, log = before ++ .added key value :: between
      ∧ .removed key ∉ between ∧ ∀ other, .added key other ∉ between := by
  induction log using List.reverseRecOn with
  | nil => cases found
  | append_singleton log change ih =>
      rw [current_snoc] at found
      cases change with
      | added key' value' =>
          rw [apply_added] at found
          split at found
          · next same =>
              cases found
              exact ⟨log, [], by rw [same], by simp, by simp⟩
          · next other =>
              obtain ⟨before, between, rfl, kept, alone⟩ := ih found
              refine ⟨before, between ++ [.added key' value'], by simp, by simp [kept], ?_⟩
              intro value''
              simp [alone value'', Ne.symm other]
      | removed key' =>
          rw [apply_removed] at found
          split at found
          · cases found
          · next other =>
              obtain ⟨before, between, rfl, kept, alone⟩ := ih found
              refine ⟨before, between ++ [.removed key'], by simp, ?_, by simp [alone]⟩
              simp [kept, Ne.symm other]

omit [DecidableEq κ] in
theorem exclusive_nil : Exclusive ([] : List (Change κ ν)) := by
  intro before key first between second after split
  simp at split

omit [DecidableEq κ] in
theorem Exclusive.removed (exclusive : Exclusive log) (key : κ)
    : Exclusive (log ++ [.removed key]) := by
  intro before key' first between second after split
  obtain rfl | ⟨after, last, rfl⟩ := List.eq_nil_or_concat after
  · have ends := (List.append_inj_right' split rfl)
    simp at ends
  · rw [List.concat_eq_append, ← List.cons_append, ← List.append_assoc] at split
    exact exclusive before key' first between second after (List.append_inj_left' split rfl)

/-- An addition under a key without an entry keeps a log exclusive. -/
theorem Exclusive.added (exclusive : Exclusive log) (absent : current log key = none)
    (value : ν)
    : Exclusive (log ++ [.added key value]) := by
  intro before key' first between second after split
  obtain rfl | ⟨after, last, rfl⟩ := List.eq_nil_or_concat after
  · obtain ⟨rfl, ends⟩ := List.append_inj' split rfl
    simp only [List.cons.injEq, Change.added.injEq] at ends
    obtain ⟨⟨rfl, rfl⟩, -⟩ := ends
    by_contra kept
    have present : (current (before ++ [.added key first]) key).isSome := by
      simp [current_snoc]
    have still := current_isSome present kept
    rw [List.append_assoc, List.singleton_append, absent] at still
    cases still
  · rw [List.concat_eq_append, ← List.cons_append, ← List.append_assoc] at split
    exact exclusive before key' first between second after (List.append_inj_left' split rfl)

/-- An addition over an entry breaks a log. -/
theorem not_exclusive {other : ν} (present : current log key = some value)
    : ¬ Exclusive (log ++ [.added key other]) := by
  intro exclusive
  obtain ⟨before, between, rfl, kept, -⟩ := added_of_current present
  exact kept (exclusive before key value between other [] (by simp))

omit [DecidableEq κ] in
theorem Exclusive.init {change : Change κ ν} (exclusive : Exclusive (log ++ [change]))
    : Exclusive log := by
  intro before key first between second after split
  refine exclusive before key first between second (after ++ [change]) ?_
  rw [split]
  simp

/-- An entry of an exclusive log can only give way to another value through a removal, by
induction on the changes that follow.
-/
theorem Exclusive.kept {more : List (Change κ ν)} {value' : ν}
    (exclusive : Exclusive (log ++ more)) (earlier : current log key = some value)
    (later : current (log ++ more) key = some value') (kept : .removed key ∉ more)
    : value' = value := by
  induction more using List.reverseRecOn generalizing value' with
  | nil =>
      rw [List.append_nil, earlier] at later
      exact (Option.some.inj later).symm
  | append_singleton more change ih =>
      simp only [List.mem_append, List.mem_singleton, not_or] at kept
      rw [← List.append_assoc] at exclusive later
      have present : (current log key).isSome := by rw [earlier]; rfl
      obtain ⟨middle, found⟩ := Option.isSome_iff_exists.mp (current_isSome present kept.1)
      have same := ih exclusive.init found kept.1
      rw [current_snoc, found] at later
      cases change with
      | added key' other =>
          by_cases here : key' = key
          · subst here
            exact absurd exclusive (not_exclusive found)
          · rw [apply_added, if_neg here] at later
            exact (Option.some.inj later).symm.trans same
      | removed key' =>
          have other : key' ≠ key := fun same => kept.2 (same ▸ rfl)
          rw [apply_removed, if_neg other] at later
          exact (Option.some.inj later).symm.trans same

end KeyLog
