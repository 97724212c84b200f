import RCoreOS.LinkedList.UnsafeList
import RCoreOS.Lib.Transition
import Mathlib.Data.Fintype.Basic

/-! Several lists over the links of one adapter. While every call keeps its safety contract, no
call reads links that are not initialised, and each list is the sequence of entries that the
calls describe.
-/

namespace RCoreOS.LinkedList

open CircularList Transition

/-- The links of all entries and the heads of the lists. -/
structure Lists (Name Entry : Type) where
  memory : Memory Entry
  list : Name → UnsafeList Entry

/-- The calls on a list; `popFront` is the one of the safe wrapper. -/
inductive Call (Name Entry : Type) where
  | pushBack (name : Name) (obj : Entry)
  | pushFront (name : Name) (obj : Entry)
  | insertAfter (name : Name) (existing new : Entry)
  | insertBefore (name : Name) (existing new : Entry)
  | remove (name : Name) (entry : Entry)
  | popFront (name : Name)
deriving DecidableEq, Repr

namespace Lists

variable {Name Entry : Type} [DecidableEq Name] [DecidableEq Entry]

def new : Lists Name Entry where
  memory _ := none
  list _ := .new

/-- The list of the name becomes the one that a call returned. -/
def store (s : Lists Name Entry) (name : Name)
    (result : Option (UnsafeList Entry × Memory Entry))
    : Option (Lists Name Entry) :=
  result.map fun (l, memory) => ⟨memory, Function.update s.list name l⟩

def step (s : Lists Name Entry) : Call Name Entry → Option (Lists Name Entry)
  | .pushBack name obj => s.store name ((s.list name).pushBack s.memory obj)
  | .pushFront name obj => s.store name ((s.list name).pushFront s.memory obj)
  | .insertAfter name existing new =>
      s.store name ((UnsafeList.insertAfter s.memory existing new).map fun m => (s.list name, m))
  | .insertBefore name existing new =>
      s.store name ((s.list name).insertBefore s.memory existing new)
  | .remove name entry => s.store name ((s.list name).remove s.memory entry)
  | .popFront name =>
      match (s.list name).front with
      | none => some s
      | some entry => s.store name ((s.list name).remove s.memory entry)

-----------------------------------------------------------------------------------------
-- What the calls are for
-----------------------------------------------------------------------------------------

/-- The sequence with a new entry behind an existing one. -/
def insertBehind (existing new : Entry) : List Entry → List Entry
  | [] => []
  | entry :: rest =>
      if entry = existing then entry :: new :: rest
      else entry :: insertBehind existing new rest

/-- The sequence with a new entry in front of an existing one. -/
def insertInFront (existing new : Entry) : List Entry → List Entry
  | [] => []
  | entry :: rest =>
      if entry = existing then new :: entry :: rest
      else entry :: insertInFront existing new rest

/-- The sequences of entries after a call. -/
def describe (contents : Name → List Entry) : Call Name Entry → Name → List Entry
  | .pushBack name obj => Function.update contents name (contents name ++ [obj])
  | .pushFront name obj => Function.update contents name (obj :: contents name)
  | .insertAfter name existing new =>
      Function.update contents name (insertBehind existing new (contents name))
  | .insertBefore name existing new =>
      Function.update contents name (insertInFront existing new (contents name))
  | .remove name entry => Function.update contents name ((contents name).erase entry)
  | .popFront name => Function.update contents name (contents name).tail

/-- The entry is in no list. -/
def Unlisted (contents : Name → List Entry) (obj : Entry) : Prop :=
  ∀ name, obj ∉ contents name

/-- The safety requirements of the calls: new entries are in no list, and existing ones are in
the list at hand.
-/
def Contract (contents : Name → List Entry) : Call Name Entry → Prop
  | .pushBack _ obj => Unlisted contents obj
  | .pushFront _ obj => Unlisted contents obj
  | .insertAfter name existing new => existing ∈ contents name ∧ Unlisted contents new
  | .insertBefore name existing new => existing ∈ contents name ∧ Unlisted contents new
  | .remove name entry => entry ∈ contents name
  | .popFront _ => True

instance [Fintype Name] (contents : Name → List Entry) (obj : Entry)
    : Decidable (Unlisted contents obj) :=
  inferInstanceAs (Decidable (∀ name, obj ∉ contents name))

instance [Fintype Name] (contents : Name → List Entry)
    : (call : Call Name Entry) → Decidable (Contract contents call)
  | .pushBack _ obj => inferInstanceAs (Decidable (Unlisted contents obj))
  | .pushFront _ obj => inferInstanceAs (Decidable (Unlisted contents obj))
  | .insertAfter name existing new =>
      inferInstanceAs (Decidable (existing ∈ contents name ∧ Unlisted contents new))
  | .insertBefore name existing new =>
      inferInstanceAs (Decidable (existing ∈ contents name ∧ Unlisted contents new))
  | .remove name entry => inferInstanceAs (Decidable (entry ∈ contents name))
  | .popFront _ => isTrue trivial

/-- Every list represents its sequence, no entry is in two of them, and the links of an entry are
initialised in lists only.
-/
structure Represents (s : Lists Name Entry) (contents : Name → List Entry) : Prop where
  lists : ∀ name, UnsafeList.Represents s.memory (s.list name) (contents name)
  apart : ∀ name other entry, entry ∈ contents name → entry ∈ contents other → name = other
  free : ∀ entry, Unlisted contents entry → s.memory entry = none

-----------------------------------------------------------------------------------------
-- Every call keeps the lists
-----------------------------------------------------------------------------------------

variable {s : Lists Name Entry} {contents : Name → List Entry} {name : Name} {obj : Entry}
  {after : List Entry}

omit [DecidableEq Name] in
theorem insertBehind_eq {existing new : Entry} {pre post : List Entry}
    (notBefore : existing ∉ pre)
    : insertBehind existing new (pre ++ existing :: post) = pre ++ existing :: new :: post := by
  induction pre with
  | nil => exact if_pos rfl
  | cons head tail ih =>
      obtain ⟨apart, notBefore⟩ := not_or.mp (List.mem_cons.not.mp notBefore)
      rw [List.cons_append, insertBehind, if_neg (Ne.symm apart), ih notBefore]
      rfl

omit [DecidableEq Name] in
theorem insertInFront_eq {existing new : Entry} {pre post : List Entry}
    (notBefore : existing ∉ pre)
    : insertInFront existing new (pre ++ existing :: post) = pre ++ new :: existing :: post := by
  induction pre with
  | nil => exact if_pos rfl
  | cons head tail ih =>
      obtain ⟨apart, notBefore⟩ := not_or.mp (List.mem_cons.not.mp notBefore)
      rw [List.cons_append, insertInFront, if_neg (Ne.symm apart), ih notBefore]
      rfl

/-- One list changes: it may get entries that were in no list and lose entries of its own, whose
links are not initialised then. The links of entries outside of it stay.
-/
theorem Represents.change {l' : UnsafeList Entry} {m' : Memory Entry}
    (represents : s.Represents contents) (list : UnsafeList.Represents m' l' after)
    (origin : ∀ entry ∈ after, entry ∈ contents name ∨ Unlisted contents entry)
    (same : ∀ entry, entry ∉ after → entry ∉ contents name → m' entry = s.memory entry)
    (gone : ∀ entry ∈ contents name, entry ∉ after → m' entry = none)
    : Represents ⟨m', Function.update s.list name l'⟩ (Function.update contents name after) := by
  have elsewhere : ∀ other entry, other ≠ name → entry ∈ contents other → entry ∉ after := by
    intro other entry different member inAfter
    rcases origin entry inAfter with own | unlisted
    · exact different (represents.apart other name entry member own)
    · exact unlisted other member
  constructor
  · intro other
    show UnsafeList.Represents m' (Function.update s.list name l' other) _
    by_cases here : other = name
    · subst here
      rw [Function.update_self, Function.update_self]
      exact list
    · rw [Function.update_of_ne here, Function.update_of_ne here]
      refine (represents.lists other).frame fun entry member => ?_
      refine same entry (elsewhere other entry here member) fun own => ?_
      exact here (represents.apart other name entry member own)
  · intro one other entry inOne inOther
    by_cases oneHere : one = name <;> by_cases otherHere : other = name
    · rw [oneHere, otherHere]
    · subst oneHere
      rw [Function.update_self] at inOne
      rw [Function.update_of_ne otherHere] at inOther
      exact absurd inOne (elsewhere other entry otherHere inOther)
    · subst otherHere
      rw [Function.update_self] at inOther
      rw [Function.update_of_ne oneHere] at inOne
      exact absurd inOther (elsewhere one entry oneHere inOne)
    · rw [Function.update_of_ne oneHere] at inOne
      rw [Function.update_of_ne otherHere] at inOther
      exact represents.apart one other entry inOne inOther
  · intro entry unlisted
    have notAfter : entry ∉ after := by
      have here := unlisted name
      rwa [Function.update_self] at here
    by_cases own : entry ∈ contents name
    · exact gone entry own notAfter
    · refine (same entry notAfter own).trans (represents.free entry fun other => ?_)
      by_cases here : other = name
      · rwa [here]
      · have there := unlisted other
        rwa [Function.update_of_ne here] at there

/-- An insertion into one list. -/
theorem Represents.insert {result : Option (UnsafeList Entry × Memory Entry)}
    (represents : s.Represents contents) (unlisted : Unlisted contents obj)
    (leaves : UnsafeList.Leaves s.memory obj (contents name) after result)
    (members : after.Perm (obj :: contents name))
    : ∃ s', s.store name result = some s'
      ∧ s'.Represents (Function.update contents name after) := by
  obtain ⟨l', m', rfl, list, same⟩ := leaves
  refine ⟨_, rfl, represents.change list ?_ ?_ ?_⟩
  · intro entry member
    rcases List.mem_cons.mp (members.mem_iff.mp member) with rfl | own
    · exact .inr unlisted
    · exact .inl own
  · exact fun entry notAfter _ => same entry fun member => notAfter (members.mem_iff.mpr member)
  · intro entry own notAfter
    exact absurd (members.mem_iff.mpr (List.mem_cons_of_mem _ own)) notAfter

/-- A removal from one list. -/
theorem Represents.erase {entry : Entry} (represents : s.Represents contents)
    (member : entry ∈ contents name)
    : ∃ s', s.store name ((s.list name).remove s.memory entry) = some s'
      ∧ s'.Represents (Function.update contents name ((contents name).erase entry)) := by
  have list := represents.lists name
  obtain ⟨pre, post, whole, notBefore⟩ := UnsafeList.split_at list.distinct member
  have rest := UnsafeList.erase_split whole notBefore
  have left : ∀ other, other ∈ contents name ↔ other = entry ∨ other ∈ pre ++ post := by
    intro other
    rw [whole, List.perm_middle.mem_iff, List.mem_cons]
  obtain ⟨l', m', done, list, gone, same⟩ := UnsafeList.Represents.remove (whole ▸ list)
  rw [done, rest]
  refine ⟨_, rfl, represents.change list ?_ ?_ ?_⟩
  · exact fun other behind => .inl ((left other).mpr (.inr behind))
  · exact fun other _ outside => same other (whole ▸ outside)
  · intro other own notAfter
    rcases (left other).mp own with rfl | behind
    · exact gone
    · exact absurd behind notAfter

/-- A call that keeps its contract goes through and does what it is for. -/
theorem Represents.step (represents : s.Represents contents) {call : Call Name Entry}
    (contract : Contract contents call)
    : ∃ s', s.step call = some s' ∧ s'.Represents (describe contents call) := by
  cases call with
  | pushBack name obj =>
      refine represents.insert contract ((represents.lists name).pushBack (contract name)) ?_
      exact List.perm_append_singleton obj _
  | pushFront name obj =>
      exact represents.insert contract ((represents.lists name).pushFront (contract name)) .rfl
  | insertAfter name existing new =>
      obtain ⟨member, unlisted⟩ := contract
      have list := represents.lists name
      have fresh := unlisted name
      obtain ⟨pre, post, whole, notBefore⟩ := UnsafeList.split_at list.distinct member
      rw [whole] at list fresh
      refine represents.insert unlisted ?_ ?_
      · rw [whole, insertBehind_eq notBefore]
        exact list.insertAfter fresh
      · rw [whole, insertBehind_eq notBefore, List.append_cons pre existing (new :: post),
          List.append_cons pre existing post]
        exact List.perm_middle
  | insertBefore name existing new =>
      obtain ⟨member, unlisted⟩ := contract
      have list := represents.lists name
      have fresh := unlisted name
      obtain ⟨pre, post, whole, notBefore⟩ := UnsafeList.split_at list.distinct member
      rw [whole] at list fresh
      refine represents.insert unlisted ?_ ?_
      · rw [whole, insertInFront_eq notBefore]
        exact list.insertBefore fresh
      · rw [whole, insertInFront_eq notBefore]
        exact List.perm_middle
  | remove name entry => exact represents.erase contract
  | popFront name =>
      have isFront := (represents.lists name).front_eq
      cases here : contents name with
      | nil =>
          refine ⟨s, ?_, ?_⟩
          · simp [Lists.step, isFront, here]
          · rw [describe, here, List.tail_nil, ← here, Function.update_eq_self]
            exact represents
      | cons entry rest =>
          have member : entry ∈ contents name := by simp [here]
          have erased := represents.erase member
          rw [here, List.erase_cons_head] at erased
          simpa [Lists.step, describe, isFront, here] using erased

omit [DecidableEq Name] [DecidableEq Entry] in
theorem represents_new : Represents (new : Lists Name Entry) fun _ => [] where
  lists _ := UnsafeList.represents_new _
  apart _ _ _ member := by simp at member
  free _ _ := rfl

/-- What the callers see of a list that holds the given entries: both of its ends, and loops in
both directions that end.
-/
structure Shows (s : Lists Name Entry) (name : Name) (entries : List Entry) : Prop where
  isEmpty : (s.list name).isEmpty = entries.isEmpty
  front : (s.list name).front = entries.head?
  back : (s.list name).back s.memory = some entries.getLast?
  forward : ∀ turns, entries.length ≤ turns → (s.list name).iter s.memory turns = .ends entries
  backward : ∀ turns, entries.length ≤ turns
    → (s.list name).iterBackRev s.memory turns = .ends entries.reverse

/-- In every run of calls on any number of lists that keep their contracts, all calls are defined,
and every list then shows the sequence of entries that the calls describe.
-/
theorem run_shows {calls : List (Call Name Entry)}
    (contracts : Along (fun contents call => some (describe contents call)) Contract
      (fun _ => []) calls)
    : ∃ s, calls.foldlM step (new : Lists Name Entry) = some s
      ∧ ∀ name, s.Shows name (calls.foldl describe (fun _ => []) name) := by
  have simulated : ∀ (s : Lists Name Entry) contents call, s.Represents contents
      → Contract contents call
      → ∃ s', s.step call = some s' ∧ s'.Represents (describe contents call) :=
    fun _ _ _ represents contract => represents.step contract
  obtain ⟨s, done, represents⟩ := Along.simulates Represents simulated contracts represents_new
  refine ⟨s, done, fun name => ?_⟩
  have list := represents.lists name
  refine ⟨?_, list.front_eq, list.back_eq, fun _ => list.iter_eq, fun _ => list.iterBackRev_eq⟩
  rw [UnsafeList.isEmpty, list.first]
  cases calls.foldl describe (fun _ => []) name <;> rfl

/-- Two lists that hand entries to each other. -/
def handOver : List (Call (Fin 2) Nat) :=
  [.pushBack 0 3, .pushFront 0 1, .insertAfter 0 1 2, .pushBack 1 9, .remove 0 3,
    .insertBefore 1 9 3, .popFront 0]

theorem run_shows_handOver
    : ∃ s, handOver.foldlM step (new : Lists (Fin 2) Nat) = some s
      ∧ ∀ name, s.Shows name (handOver.foldl describe (fun _ => []) name) :=
  run_shows (by decide)

end Lists

end RCoreOS.LinkedList
