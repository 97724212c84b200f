import RCoreOS.Lib.CircularList
import Mathlib.Data.List.Induction

/-! The intrusive lists of the `linked_list` crate: a list is a pointer to its first entry, and
the entries carry their links themselves. Every operation works on the links of all entries.
-/

namespace RCoreOS.LinkedList

open CircularList

/-- `unsafe_list::List`. -/
structure UnsafeList (Entry : Type) where
  first : Option Entry
deriving DecidableEq, Repr

/-- What becomes of a loop over the entries in some turns: it ends and has seen these entries, it
goes on, or it reads links that are not initialised.
-/
inductive Walk (Entry : Type) where
  | ends (entries : List Entry)
  | goesOn
  | undefined
deriving DecidableEq, Repr

/-- The same loop when it has seen some entries before. -/
def Walk.after {Entry : Type} (seen : List Entry) : Walk Entry → Walk Entry
  | .ends entries => .ends (seen ++ entries)
  | .goesOn => .goesOn
  | .undefined => .undefined

@[simp]
theorem Walk.after_nil {Entry : Type} (walk : Walk Entry) : walk.after [] = walk := by
  cases walk <;> rfl

@[simp]
theorem Walk.after_after {Entry : Type} (walk : Walk Entry) (seen earlier : List Entry)
    : (walk.after seen).after earlier = walk.after (earlier ++ seen) := by
  cases walk <;> simp [Walk.after]

namespace UnsafeList

variable {Entry : Type}

def new : UnsafeList Entry :=
  ⟨none⟩

def isEmpty (l : UnsafeList Entry) : Bool :=
  l.first.isNone

/-- `inner` and `inner_ref`. To read links that are not initialised is undefined. -/
def innerRef (m : Memory Entry) (ptr : Entry) : Option (Links Entry) :=
  m ptr

def front (l : UnsafeList Entry) : Option Entry :=
  l.first

def back (l : UnsafeList Entry) (m : Memory Entry) : Option (Option Entry) :=
  match l.first with
  | none => some none
  | some first => do
      let links ← innerRef m first
      some (some links.prev)

section Operations

variable [DecidableEq Entry] (l : UnsafeList Entry) (m : Memory Entry)

def insertOnlyEntry (obj : Entry) : UnsafeList Entry × Memory Entry :=
  (⟨some obj⟩, write m obj ⟨obj, obj⟩)

/-- The list head stays, so that only the links are returned. -/
def insertAfter (existing new : Entry) : Option (Memory Entry) := do
  let existingInner ← innerRef m existing
  let next := existingInner.next
  let m := write m new ⟨next, existing⟩
  let m := setNext m existing new
  let _ ← innerRef m next
  some (setPrev m next new)

def insertBefore (existing new : Entry) : Option (UnsafeList Entry × Memory Entry) := do
  let links ← innerRef m existing
  let m ← insertAfter m links.prev new
  let first ← l.first
  some (if first = existing then ⟨some new⟩ else l, m)

def pushBack (obj : Entry) : Option (UnsafeList Entry × Memory Entry) :=
  match l.first with
  | some first => do
      let links ← innerRef m first
      let m ← insertAfter m links.prev obj
      some (l, m)
  | none => some (insertOnlyEntry m obj)

def pushFront (obj : Entry) : Option (UnsafeList Entry × Memory Entry) :=
  match l.first with
  | some first => insertBefore l m first obj
  | none => some (insertOnlyEntry m obj)

/-- The links of the removed entry are dropped before its neighbours are linked. -/
def remove (entry : Entry) : Option (UnsafeList Entry × Memory Entry) := do
  let inner ← innerRef m entry
  let m := erase m entry
  if inner.next = entry then some (⟨none⟩, m)
  else
    let _ ← innerRef m inner.prev
    let m := setNext m inner.prev inner.next
    let _ ← innerRef m inner.next
    let m := setPrev m inner.next inner.prev
    let first ← l.first
    some (if first = entry then ⟨some inner.next⟩ else l, m)

/-- `move_next` of a cursor. Behind the last entry it is on none. -/
def moveNext : Option Entry → Option (Option Entry)
  | none => some l.first
  | some cur =>
      match l.first with
      | none => some none
      | some head => do
          let links ← innerRef m cur
          some (if links.next ≠ head then some links.next else none)

/-- `move_prev` of a cursor. -/
def movePrev (cur : Option Entry) : Option (Option Entry) :=
  match l.first with
  | none => some none
  | some head =>
      match cur with
      | none => do
          let links ← innerRef m head
          some (some links.prev)
      | some cur =>
          if cur = head then some none
          else do
            let links ← innerRef m cur
            some (some links.prev)

/-- A loop that moves a cursor until it is on no entry, for at most so many turns. -/
def collect (move : Option Entry → Option (Option Entry)) : Nat → Option Entry → Walk Entry
  | _, none => .ends []
  | 0, some _ => .goesOn
  | turns + 1, some cur =>
      match move (some cur) with
      | none => .undefined
      | some next => (collect move turns next).after [cur]

/-- A loop over `iter()`. -/
def iter (turns : Nat) : Walk Entry :=
  collect (moveNext l m) turns l.front

/-- A loop over `iter_back().rev()`. -/
def iterBackRev (turns : Nat) : Walk Entry :=
  match l.back m with
  | none => .undefined
  | some last => collect (movePrev l m) turns last

end Operations

-----------------------------------------------------------------------------------------
-- What a list represents
-----------------------------------------------------------------------------------------

/-- The entries of a list in order: the head is the first one, and the links lead around. -/
structure Represents (m : Memory Entry) (l : UnsafeList Entry) (entries : List Entry) : Prop where
  first : l.first = entries.head?
  distinct : entries.Nodup
  circular : Circular m entries

/-- The operation is defined and leaves the entries `after`; only links of entries of the list
and of `obj` are written.
-/
def Leaves (m : Memory Entry) (obj : Entry) (entries after : List Entry)
    (result : Option (UnsafeList Entry × Memory Entry))
    : Prop :=
  ∃ l' m', result = some (l', m') ∧ Represents m' l' after
    ∧ ∀ other, other ∉ obj :: entries → m' other = m other

variable {l : UnsafeList Entry} {m : Memory Entry} {entries pre post : List Entry}
  {entry obj existing : Entry}

theorem represents_new (m : Memory Entry) : Represents m new [] :=
  ⟨rfl, List.nodup_nil, trivial⟩

theorem Represents.frame {m' : Memory Entry} (represents : Represents m l entries)
    (same : ∀ entry ∈ entries, m' entry = m entry)
    : Represents m' l entries :=
  ⟨represents.first, represents.distinct, represents.circular.frame same⟩

/-- The links of an entry in the middle of a list. -/
theorem Represents.innerRef_eq (represents : Represents m l (pre ++ entry :: post))
    : innerRef m entry
      = some ⟨(post ++ pre).head?.getD entry, (post ++ pre).getLast?.getD entry⟩ := by
  have next := represents.circular.next_eq
  have prev := represents.circular.prev_eq
  unfold nextOf prevOf at *
  have member : entry ∈ pre ++ entry :: post := by simp
  obtain ⟨links, here⟩ :=
    Option.isSome_iff_exists.mp (represents.circular.initialised member)
  rw [here, Option.map_some, Option.some_inj] at next prev
  rw [innerRef, here, ← next, ← prev]

theorem Represents.front_eq (represents : Represents m l entries) : l.front = entries.head? :=
  represents.first

theorem Represents.back_eq (represents : Represents m l entries)
    : l.back m = some entries.getLast? := by
  cases entries with
  | nil =>
      have isFirst : l.first = none := represents.first
      simp [back, isFirst]
  | cons first rest =>
      have isFirst : l.first = some first := represents.first
      have here : innerRef m first = some ⟨_, _⟩ :=
        (show Represents m l ([] ++ first :: rest) from represents).innerRef_eq
      simp [back, isFirst, here, List.getLast?_cons]

/-- The neighbours of an entry are other entries if there are any. -/
theorem head?_getD_mem {around : List Entry} (others : around ≠ []) (entry : Entry)
    : around.head?.getD entry ∈ around := by
  rw [List.head?_eq_some_head others]
  exact List.head_mem others

theorem getLast?_getD_mem {around : List Entry} (others : around ≠ []) (entry : Entry)
    : around.getLast?.getD entry ∈ around := by
  rw [List.getLast?_eq_some_getLast others]
  exact List.getLast_mem others

/-- The neighbours of an entry are in the list. -/
theorem next_mem (pre post : List Entry) (entry : Entry)
    : (post ++ pre).head?.getD entry ∈ pre ++ entry :: post := by
  by_cases others : post ++ pre = []
  · simp [others]
  · have member := head?_getD_mem others entry
    rw [List.mem_append] at member ⊢
    exact member.symm.imp_right (List.mem_cons_of_mem _)

theorem prev_mem (pre post : List Entry) (entry : Entry)
    : (post ++ pre).getLast?.getD entry ∈ pre ++ entry :: post := by
  by_cases others : post ++ pre = []
  · simp [others]
  · have member := getLast?_getD_mem others entry
    rw [List.mem_append] at member ⊢
    exact member.symm.imp_right (List.mem_cons_of_mem _)

/-- A new entry keeps the entries of a list different. -/
theorem nodup_insert (distinct : (pre ++ post).Nodup) (fresh : obj ∉ pre ++ post)
    : (pre ++ obj :: post).Nodup :=
  List.perm_middle.nodup_iff.mpr (List.nodup_cons.mpr ⟨fresh, distinct⟩)

/-- The entries before the only occurrence of one of them. -/
theorem split_at (distinct : entries.Nodup) (member : entry ∈ entries)
    : ∃ pre post, entries = pre ++ entry :: post ∧ entry ∉ pre := by
  obtain ⟨pre, post, rfl⟩ := List.append_of_mem member
  refine ⟨pre, post, rfl, fun before => ?_⟩
  exact (List.nodup_append.mp distinct).2.2 _ before _ (by simp) rfl

theorem erase_split [DecidableEq Entry] (whole : entries = pre ++ entry :: post)
    (notBefore : entry ∉ pre)
    : entries.erase entry = pre ++ post := by
  rw [whole, List.erase_append_right _ notBefore, List.erase_cons_head]

-----------------------------------------------------------------------------------------
-- What the operations do
-----------------------------------------------------------------------------------------

variable [DecidableEq Entry]

theorem insertAfter_eq {links : Links Entry} (here : innerRef m existing = some links)
    (nextHere : (m links.next).isSome = true) (obj : Entry)
    : insertAfter m existing obj = some (linkAfter m existing links.next obj) := by
  have nextSome
      : (setNext (write m obj ⟨links.next, existing⟩) existing obj links.next).isSome = true := by
    simp [nextHere]
  obtain ⟨nextLinks, nextHere⟩ := Option.isSome_iff_exists.mp nextSome
  simp only [insertAfter, here, Option.bind_eq_bind, Option.bind_some]
  rw [innerRef, nextHere]
  rfl

/-- An insertion behind an entry writes the links of both and of the next one. -/
theorem Represents.insertAfter_circular (represents : Represents m l (pre ++ existing :: post))
    (fresh : obj ∉ pre ++ existing :: post)
    : ∃ m', insertAfter m existing obj = some m'
      ∧ Circular m' (pre ++ existing :: obj :: post)
      ∧ ∀ other, other ∉ obj :: (pre ++ existing :: post) → m' other = m other := by
  have nextIn := next_mem pre post existing
  refine ⟨_, insertAfter_eq represents.innerRef_eq (represents.circular.initialised nextIn) obj,
    represents.circular.linkAfter represents.distinct fresh, fun other outside => ?_⟩
  simp only [List.mem_cons, not_or] at outside
  refine linkAfter_of_ne (fun same => ?_) (fun same => ?_) outside.1
  · exact outside.2 (by simp [same])
  · exact outside.2 (same ▸ nextIn)

theorem Represents.insertAfter (represents : Represents m l (pre ++ existing :: post))
    (fresh : obj ∉ pre ++ existing :: post)
    : Leaves m obj (pre ++ existing :: post) (pre ++ existing :: obj :: post)
        ((UnsafeList.insertAfter m existing obj).map fun m => (l, m)) := by
  obtain ⟨m', done, circular, same⟩ := represents.insertAfter_circular fresh
  rw [done]
  refine ⟨l, m', rfl, ⟨?_, ?_, circular⟩, same⟩
  · rw [represents.first]
    cases pre <;> rfl
  · have distinct := represents.distinct
    rw [List.append_cons] at distinct fresh ⊢
    exact nodup_insert distinct fresh

/-- Behind the entry before the first one, which is the last one, is the end of the list. -/
theorem Represents.insertAfter_last {first : Entry} {rest : List Entry}
    (represents : Represents m l (first :: rest)) (fresh : obj ∉ first :: rest)
    : ∃ links m', innerRef m first = some links
      ∧ UnsafeList.insertAfter m links.prev obj = some m'
      ∧ Circular m' (first :: rest ++ [obj])
      ∧ ∀ other, other ∉ obj :: first :: rest → m' other = m other := by
  have here : innerRef m first = some ⟨_, _⟩ :=
    (show Represents m l ([] ++ first :: rest) from represents).innerRef_eq
  obtain ⟨init, last, whole⟩ := (List.eq_nil_or_concat (first :: rest)).resolve_left (by simp)
  rw [List.concat_eq_append] at whole
  have isLast : (rest ++ []).getLast?.getD first = last := by
    have same := congrArg List.getLast? whole
    rw [List.getLast?_cons, List.getLast?_concat, Option.some_inj] at same
    rwa [List.append_nil]
  rw [whole] at represents fresh ⊢
  obtain ⟨m', done, circular, same⟩ := represents.insertAfter_circular fresh
  refine ⟨_, m', here, ?_, ?_, same⟩
  · rw [isLast]
    exact done
  · rw [List.append_assoc]
    exact circular

theorem Represents.insertBefore (represents : Represents m l (pre ++ existing :: post))
    (fresh : obj ∉ pre ++ existing :: post)
    : Leaves m obj (pre ++ existing :: post) (pre ++ obj :: existing :: post)
        (UnsafeList.insertBefore l m existing obj) := by
  have distinct := nodup_insert represents.distinct fresh
  cases pre with
  | nil =>
      obtain ⟨links, m', here, done, circular, same⟩ := represents.insertAfter_last fresh
      have isFirst : l.first = some existing := represents.first
      refine ⟨⟨some obj⟩, m', ?_, ⟨rfl, distinct, circular.rotate⟩, same⟩
      simp [UnsafeList.insertBefore, here, done, isFirst]
  | cons first pre =>
      have isFirst : l.first = some first := represents.first
      have apart : first ≠ existing := by
        intro same
        exact (List.nodup_cons.mp represents.distinct).1 (by simp [same])
      have here : innerRef m existing = some ⟨_, _⟩ := represents.innerRef_eq
      obtain ⟨init, last, whole⟩ :=
        (List.eq_nil_or_concat (first :: pre)).resolve_left (List.cons_ne_nil first pre)
      rw [List.concat_eq_append] at whole
      rw [whole, ← List.append_assoc, List.getLast?_concat, Option.getD_some] at here
      have split : Represents m l (init ++ last :: existing :: post) := by
        simpa [whole] using represents
      obtain ⟨m', done, circular, same⟩ :=
        split.insertAfter_circular (by simpa [whole] using fresh)
      refine ⟨l, m', ?_, ⟨represents.first, distinct, ?_⟩, ?_⟩
      · simp [UnsafeList.insertBefore, here, done, isFirst, apart]
      · simpa [whole] using circular
      · simpa [whole] using same

theorem Represents.pushBack (represents : Represents m l entries) (fresh : obj ∉ entries)
    : Leaves m obj entries (entries ++ [obj]) (UnsafeList.pushBack l m obj) := by
  have distinct : (entries ++ [obj]).Nodup :=
    nodup_insert (by simpa using represents.distinct) (by simpa using fresh)
  cases entries with
  | nil =>
      have isFirst : l.first = none := represents.first
      refine ⟨⟨some obj⟩, write m obj ⟨obj, obj⟩, ?_, ⟨rfl, distinct, ?_⟩, ?_⟩
      · simp [UnsafeList.pushBack, isFirst, insertOnlyEntry]
      · simp [Circular, CircularList.Path, Linked]
      · intro other outside
        exact Function.update_of_ne (fun same => outside (by simp [same])) ..
  | cons first rest =>
      have isFirst : l.first = some first := represents.first
      obtain ⟨links, m', here, done, circular, same⟩ := represents.insertAfter_last fresh
      refine ⟨l, m', ?_, ⟨represents.first, distinct, circular⟩, same⟩
      simp [UnsafeList.pushBack, isFirst, here, done]

theorem Represents.pushFront (represents : Represents m l entries) (fresh : obj ∉ entries)
    : Leaves m obj entries (obj :: entries) (UnsafeList.pushFront l m obj) := by
  cases entries with
  | nil =>
      have only := represents.pushBack fresh
      rw [UnsafeList.pushFront, represents.first]
      rwa [UnsafeList.pushBack, represents.first] at only
  | cons first rest =>
      have isFirst : l.first = some first := represents.first
      rw [UnsafeList.pushFront, isFirst]
      exact (show Represents m l ([] ++ first :: rest) from represents).insertBefore fresh

theorem remove_eq {links : Links Entry} {first : Entry} (isFirst : l.first = some first)
    (here : innerRef m entry = some links) (others : links.next ≠ entry)
    (prevOther : links.prev ≠ entry) (nextHere : (m links.next).isSome = true)
    (prevHere : (m links.prev).isSome = true)
    : UnsafeList.remove l m entry
      = some (if first = entry then ⟨some links.next⟩ else l,
          unlink m entry links.prev links.next) := by
  have prevSome : (erase m entry links.prev).isSome = true := by simp [prevOther, prevHere]
  have nextSome
      : (setNext (erase m entry) links.prev links.next links.next).isSome = true := by
    simp [others, nextHere]
  obtain ⟨prevLinks, prevHere⟩ := Option.isSome_iff_exists.mp prevSome
  obtain ⟨nextLinks, nextHere⟩ := Option.isSome_iff_exists.mp nextSome
  simp only [UnsafeList.remove, here, Option.bind_eq_bind, Option.bind_some, if_neg others,
    isFirst]
  rw [innerRef, prevHere, Option.bind_some, innerRef, nextHere]
  rfl

/-- A removed entry has no links any more. -/
theorem Represents.remove (represents : Represents m l (pre ++ entry :: post))
    : ∃ l' m', UnsafeList.remove l m entry = some (l', m') ∧ Represents m' l' (pre ++ post)
      ∧ m' entry = none ∧ ∀ other, other ∉ pre ++ entry :: post → m' other = m other := by
  obtain ⟨fresh, distinct⟩ :=
    List.nodup_cons.mp (List.perm_middle.nodup_iff.mp represents.distinct)
  have turned : (pre ++ post).Perm (post ++ pre) := List.perm_append_comm
  have here : innerRef m entry = some ⟨_, _⟩ := represents.innerRef_eq
  have nextIn := next_mem pre post entry
  have prevIn := prev_mem pre post entry
  by_cases alone : post ++ pre = []
  · obtain ⟨rfl, rfl⟩ := List.append_eq_nil_iff.mp alone
    refine ⟨⟨none⟩, erase m entry, ?_, represents_new _, by simp [erase], ?_⟩
    · simp [UnsafeList.remove, here]
    · intro other outside
      exact Function.update_of_ne (fun same => outside (by simp [same])) ..
  · have neighbours : ∀ other ∈ post ++ pre, other ≠ entry := by
      rintro other member rfl
      exact fresh (turned.mem_iff.mpr member)
    have nextOther := neighbours _ (head?_getD_mem alone entry)
    have prevOther := neighbours _ (getLast?_getD_mem alone entry)
    obtain ⟨first, isFirst⟩ : ∃ first, l.first = some first := by
      rw [represents.first]
      cases pre <;> exact ⟨_, rfl⟩
    refine ⟨_, _, remove_eq isFirst here nextOther prevOther
      (represents.circular.initialised nextIn) (represents.circular.initialised prevIn),
      ⟨?_, distinct, represents.circular.unlink represents.distinct alone⟩,
      unlink_self prevOther.symm nextOther.symm, fun other outside => ?_⟩
    · have head := represents.first
      rw [isFirst] at head
      cases pre with
      | nil =>
          cases head
          rw [List.append_nil] at alone
          simp [List.head?_eq_some_head alone]
      | cons head pre =>
          cases head
          have apart : first ≠ entry := fun same => fresh (by simp [same])
          rw [if_neg apart, isFirst]
          rfl
    · refine unlink_of_ne (fun same => ?_) (fun same => ?_) (fun same => ?_)
      · exact outside (by simp [same])
      · exact outside (same ▸ prevIn)
      · exact outside (same ▸ nextIn)

-----------------------------------------------------------------------------------------
-- What the cursors see
-----------------------------------------------------------------------------------------

/-- From an entry the cursor goes to the one behind it, and from the last one to none. -/
theorem Represents.moveNext_eq (represents : Represents m l (pre ++ entry :: post))
    : l.moveNext m (some entry) = some post.head? := by
  have here : innerRef m entry = some ⟨_, _⟩ := represents.innerRef_eq
  obtain ⟨head, isFirst⟩ : ∃ head, l.first = some head := by
    rw [represents.first]
    cases pre <;> exact ⟨_, rfl⟩
  have first := represents.first
  rw [isFirst] at first
  simp only [moveNext, isFirst, here, Option.bind_eq_bind, Option.bind_some]
  cases post with
  | nil =>
      have isHead : ([] ++ pre).head?.getD entry = head := by
        cases pre <;> simp_all
      rw [if_neg (not_not.mpr isHead)]
      rfl
  | cons behind post =>
      have apart : behind ≠ head := by
        rintro rfl
        have distinct := represents.distinct
        cases pre <;> simp_all
      exact congrArg some (if_pos apart)

/-- From an entry the cursor goes to the one before it, and from the first one to none. -/
theorem Represents.movePrev_eq (represents : Represents m l (pre ++ entry :: post))
    : l.movePrev m (some entry) = some pre.getLast? := by
  have here : innerRef m entry = some ⟨_, _⟩ := represents.innerRef_eq
  cases pre with
  | nil =>
      have isFirst : l.first = some entry := represents.first
      simp [movePrev, isFirst]
  | cons first pre =>
      have isFirst : l.first = some first := represents.first
      have apart : entry ≠ first := by
        rintro rfl
        exact (List.nodup_cons.mp represents.distinct).1 (by simp)
      simp [movePrev, isFirst, apart, here, List.getLast?_append, List.getLast?_cons]

/-- The loop forward from an entry sees it and those behind it, by induction on these. -/
theorem Represents.collect_moveNext (represents : Represents m l (pre ++ post)) {turns : Nat}
    (enough : post.length ≤ turns)
    : collect (l.moveNext m) turns post.head? = .ends post := by
  induction post generalizing pre turns with
  | nil => cases turns <;> rfl
  | cons entry post ih =>
      cases turns with
      | zero => exact absurd enough (Nat.not_succ_le_zero _)
      | succ turns =>
          have moved : Represents m l ((pre ++ [entry]) ++ post) := by simpa using represents
          have onward := ih moved (Nat.le_of_succ_le_succ enough)
          simp [collect, represents.moveNext_eq, onward, Walk.after]

/-- The loop backward from an entry sees it and those before it, by induction on these. -/
theorem Represents.collect_movePrev (represents : Represents m l (pre ++ post)) {turns : Nat}
    (enough : pre.length ≤ turns)
    : collect (l.movePrev m) turns pre.getLast? = .ends pre.reverse := by
  induction pre using List.reverseRecOn generalizing post turns with
  | nil => cases turns <;> rfl
  | append_singleton pre entry ih =>
      cases turns with
      | zero => simp at enough
      | succ turns =>
          have represents : Represents m l (pre ++ entry :: post) := by simpa using represents
          have onward := ih represents (by simpa using enough)
          simp [collect, represents.movePrev_eq, onward, Walk.after]

/-- A loop over the list sees its entries in order. -/
theorem Represents.iter_eq (represents : Represents m l entries) {turns : Nat}
    (enough : entries.length ≤ turns)
    : l.iter m turns = .ends entries := by
  rw [iter, represents.front_eq]
  exact (show Represents m l ([] ++ entries) from represents).collect_moveNext enough

/-- A loop backward sees them in the opposite order. -/
theorem Represents.iterBackRev_eq (represents : Represents m l entries) {turns : Nat}
    (enough : entries.length ≤ turns)
    : l.iterBackRev m turns = .ends entries.reverse := by
  rw [iterBackRev, represents.back_eq]
  have all : Represents m l (entries ++ []) := by simpa using represents
  exact all.collect_movePrev enough

end UnsafeList

end RCoreOS.LinkedList
