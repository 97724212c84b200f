import RCoreOS.LinkedList.UnsafeList

/-! The documentation of the safe `push_back` says that an entry that is already on the list is
dropped. The code links it once more, which cuts off all entries behind it.
-/

namespace RCoreOS.LinkedList.UnsafeList

open CircularList

variable {Entry : Type} {l : UnsafeList Entry} {m m' : Memory Entry} {pre post : List Entry}
  {entry : Entry}

-----------------------------------------------------------------------------------------
-- Loops that go a known way first
-----------------------------------------------------------------------------------------

/-- A loop that goes along some entries to another one sees them and what it sees from there on,
by induction on the entries.
-/
theorem collect_along {move : Option Entry → Option (Option Entry)}
    (moves : ∀ before cur behind, pre = before ++ cur :: behind
      → move (some cur) = some (behind ++ [entry]).head?)
    (turns : Nat)
    : collect move turns (pre ++ [entry]).head?
      = if pre.length ≤ turns then
          (collect move (turns - pre.length) (some entry)).after pre
        else .goesOn := by
  induction pre generalizing turns with
  | nil => simp
  | cons cur behind ih =>
      have onward := ih fun before other behind' split => moves (cur :: before) other behind'
        (by rw [split]; rfl)
      cases turns with
      | zero => rfl
      | succ turns =>
          have moved := moves [] cur behind rfl
          simp only [List.cons_append, List.head?_cons, collect, moved, onward turns,
            List.length_cons, Nat.add_le_add_iff_right, Nat.add_sub_add_right]
          split
          · exact Walk.after_after ..
          · rfl

/-- A loop that stays at an entry does not end. -/
theorem collect_stays {move : Option Entry → Option (Option Entry)}
    (stays : move (some entry) = some (some entry)) (turns : Nat)
    : collect move turns (some entry) = .goesOn := by
  induction turns with
  | zero => rfl
  | succ turns ih => simp [collect, stays, ih, Walk.after]

variable [DecidableEq Entry]

/-- Where a cursor goes depends on the next entry alone. -/
theorem moveNext_congr (same : nextOf m' entry = nextOf m entry)
    : l.moveNext m' (some entry) = l.moveNext m (some entry) := by
  unfold nextOf at same
  cases isFirst : l.first with
  | none => simp [moveNext, isFirst]
  | some head =>
      cases here : m entry <;> cases there : m' entry <;>
        simp_all [moveNext, innerRef]

-----------------------------------------------------------------------------------------
-- The entry is linked once more
-----------------------------------------------------------------------------------------

/-- The links are those of an insertion behind the last entry. -/
theorem Represents.pushBack_eq {entries : List Entry} {first last : Entry}
    (represents : Represents m l entries) (isFirst : entries.head? = some first)
    (isLast : entries.getLast? = some last) (obj : Entry)
    : l.pushBack m obj = some (l, linkAfter m last first obj) := by
  have head : l.first = some first := represents.first.trans isFirst
  have lastIn : ∃ links, innerRef m first = some links ∧ links.prev = last := by
    have back := represents.back_eq
    simp only [UnsafeList.back, isLast, head] at back
    obtain ⟨links, here, prev⟩ := Option.bind_eq_some_iff.mp back
    exact ⟨links, here, by simpa using prev⟩
  have firstIn : ∃ links, innerRef m last = some links ∧ links.next = first := by
    obtain ⟨init, rfl⟩ := List.getLast?_eq_some_iff.mp isLast
    refine ⟨_, represents.innerRef_eq, ?_⟩
    cases init <;> simp_all
  obtain ⟨links, firstHere, rfl⟩ := lastIn
  obtain ⟨lastLinks, lastHere, rfl⟩ := firstIn
  have done := insertAfter_eq lastHere (Option.isSome_iff_exists.mpr ⟨links, firstHere⟩) obj
  simp [UnsafeList.pushBack, head, firstHere, done]

/-- Alone in the list, an entry can be pushed again. -/
theorem Represents.pushBack_alone (represents : Represents m l [entry])
    : Represents (linkAfter m entry entry entry) l [entry] := by
  refine ⟨represents.first, represents.distinct, ?_, ?_⟩ <;>
    simp [linkAfter]

/-- The last one of several entries comes behind itself. -/
theorem moveNext_last {first : Entry} (isFirst : l.first = some first) (apart : entry ≠ first)
    : l.moveNext (linkAfter m entry first entry) (some entry) = some (some entry) := by
  have self : nextOf (linkAfter m entry first entry) entry = some entry := by simp [linkAfter]
  obtain ⟨links, here, next⟩ := Option.map_eq_some_iff.mp self
  simp [moveNext, isFirst, innerRef, here, next, apart]

/-- Any other entry becomes the last one. -/
theorem moveNext_cut {first last : Entry} (isFirst : l.first = some first) (apart : entry ≠ last)
    : l.moveNext (linkAfter m last first entry) (some entry) = some none := by
  have self : nextOf (linkAfter m last first entry) entry = some first := by
    simp [linkAfter, apart]
  obtain ⟨links, here, next⟩ := Option.map_eq_some_iff.mp self
  simp [moveNext, isFirst, innerRef, here, next]

/-- An entry that is pushed again is harmless if it is alone. If it is the last one of several,
loops over the list do not end any more. Otherwise the list loses all entries behind it.
-/
theorem pushBack_again (represents : Represents m l (pre ++ entry :: post))
    : ∃ m', l.pushBack m entry = some (l, m')
      ∧ (pre = [] ∧ post = [] → Represents m' l [entry])
      ∧ (pre ≠ [] ∧ post = [] → ∀ turns, l.iter m' turns = .goesOn)
      ∧ (post ≠ [] → ∀ turns, pre.length < turns → l.iter m' turns = .ends (pre ++ [entry])) := by
  obtain ⟨first, isFirst⟩ : ∃ first, (pre ++ entry :: post).head? = some first := by
    cases pre <;> exact ⟨_, rfl⟩
  obtain ⟨last, isLast⟩ : ∃ last, (pre ++ entry :: post).getLast? = some last :=
    ⟨_, List.getLast?_eq_some_getLast (by simp)⟩
  have head : l.first = some first := represents.first.trans isFirst
  have fromHead : (pre ++ [entry]).head? = l.front := by
    rw [represents.front_eq]
    cases pre <;> rfl
  have distinct := List.nodup_cons.mp (List.perm_middle.nodup_iff.mp represents.distinct)
  -- before the entry, no links to next entries are written
  have along : ∀ last ∈ entry :: post, ∀ before cur rest, pre = before ++ cur :: rest
      → l.moveNext (linkAfter m last first entry) (some cur) = some (rest ++ [entry]).head? := by
    rintro last lastIn before cur rest rfl
    have curOther : cur ≠ entry := by
      rintro rfl
      exact distinct.1 (by simp)
    have curLast : cur ≠ last := by
      rintro rfl
      rcases List.mem_cons.mp lastIn with same | behind
      · exact curOther same
      · exact (List.nodup_append.mp distinct.2).2.2 cur (by simp) cur behind rfl
    have same : nextOf (linkAfter m last first entry) cur = nextOf m cur := by
      simp [linkAfter, curOther, curLast]
    have split : Represents m l (before ++ cur :: (rest ++ entry :: post)) := by
      simpa using represents
    rw [moveNext_congr same, split.moveNext_eq]
    cases rest <;> rfl
  refine ⟨_, represents.pushBack_eq isFirst isLast entry, ?_, ?_, ?_⟩
  · rintro ⟨rfl, rfl⟩
    cases isFirst
    cases isLast
    exact represents.pushBack_alone
  · rintro ⟨others, rfl⟩ turns
    obtain rfl : entry = last := by simpa using isLast
    have apart : entry ≠ first := by
      rintro rfl
      cases pre with
      | nil => exact others rfl
      | cons head pre =>
          cases isFirst
          simp at distinct
    rw [iter, ← fromHead, collect_along (along entry (List.mem_cons_self ..)),
      collect_stays (moveNext_last head apart)]
    split <;> rfl
  · intro behind turns enough
    have lastBehind : last ∈ post := by
      rw [List.getLast?_append, List.getLast?_cons] at isLast
      cases isLast
      exact getLast?_getD_mem behind entry
    have apart : entry ≠ last := by
      rintro rfl
      exact distinct.1 (by simp [lastBehind])
    rw [iter, ← fromHead, collect_along (along last (List.mem_cons_of_mem _ lastBehind)),
      if_pos (Nat.le_of_lt enough)]
    obtain ⟨more, rfl⟩ := Nat.exists_eq_add_of_lt enough
    rw [show pre.length + more + 1 - pre.length = more + 1 by omega, collect,
      moveNext_cut head apart]
    simp [collect, Walk.after]

/-- Three entries in a list. -/
def threeEntries : Memory Nat
  | 1 => some ⟨2, 3⟩
  | 2 => some ⟨3, 1⟩
  | 3 => some ⟨1, 2⟩
  | _ => none

theorem pushBack_again_threeEntries
    : ∃ m', (⟨some 1⟩ : UnsafeList Nat).pushBack threeEntries 2 = some (⟨some 1⟩, m')
      ∧ ([1] = [] ∧ [3] = [] → Represents m' ⟨some 1⟩ [2])
      ∧ ([1] ≠ [] ∧ [3] = [] → ∀ turns, (⟨some 1⟩ : UnsafeList Nat).iter m' turns = .goesOn)
      ∧ ([3] ≠ []
        → ∀ turns, 1 < turns → (⟨some 1⟩ : UnsafeList Nat).iter m' turns = .ends ([1] ++ [2])) :=
  pushBack_again (show Represents threeEntries ⟨some 1⟩ ([1] ++ 2 :: [3]) from
    ⟨rfl, by decide, ⟨rfl, rfl⟩, ⟨rfl, rfl⟩, rfl, rfl⟩)

end RCoreOS.LinkedList.UnsafeList
