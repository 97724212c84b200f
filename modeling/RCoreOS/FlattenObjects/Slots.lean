import RCoreOS.Lib.KeyLog
import RCoreOS.Lib.Transition
import Mathlib.Data.List.Count
import Mathlib.Data.List.Range
import Mathlib.Logic.Function.Basic

/-! The container of numbered objects behind descriptor tables: a bitmap of the ids that are
taken, a counter, and slots that are only initialised for those ids.
-/

namespace RCoreOS

/-- A container of at most `cap` objects. A slot that was never written is `none`; a removal
leaves the slot as it is.
-/
structure FlattenObjects (Bits T : Type) (cap : Nat) where
  objects : Vector (Option T) cap
  idBitmap : Bits
  count : Nat
deriving DecidableEq

namespace FlattenObjects

/-- The operations of the `bitmaps` crate that the container uses, on its bitmap of 1024 bits. -/
structure IdBitmap (Bits : Type) where
  zeroed : Bits
  get : Bits → Nat → Bool
  set : Bits → Nat → Bool → Bits
  firstFalseIndex : Bits → Option Nat

/-- What the crate documents: a bit has the value it was last set to. -/
structure IdBitmap.Lawful {Bits : Type} (bm : IdBitmap Bits) : Prop where
  get_zeroed {i : Nat} (inside : i < 1024) : bm.get bm.zeroed i = false
  get_set {bits : Bits} {index i : Nat} (value : Bool) (inside : index < 1024)
    : bm.get (bm.set bits index value) i = if i = index then value else bm.get bits i
  firstFalse_some {bits : Bits} {index : Nat} (found : bm.firstFalseIndex bits = some index)
    : index < 1024 ∧ bm.get bits index = false ∧ ∀ i, i < index → bm.get bits i = true
  firstFalse_none {bits : Bits} (full : bm.firstFalseIndex bits = none) {i : Nat}
    (inside : i < 1024)
    : bm.get bits i = true

variable {Bits T : Type} {cap : Nat} (bm : IdBitmap Bits)

/-- `none` is the failed assertion that the ids fit in the bitmap. -/
def new : Option (FlattenObjects Bits T cap) :=
  if cap ≤ 1024 then
    some { objects := Vector.replicate cap none, idBitmap := bm.zeroed, count := 0 }
  else none

def isAssigned (f : FlattenObjects Bits T cap) (id : Nat) : Bool :=
  id < cap && bm.get f.idBitmap id

/-- `assume_init`: `none` is an index out of bounds or the read of an uninitialised slot. -/
def assumeInit (f : FlattenObjects Bits T cap) (id : Nat) : Option T :=
  f.objects[id]?.join

/-- The outer `none` is a crash, as in the operations below. -/
def get (f : FlattenObjects Bits T cap) (id : Nat) : Option (Option T) :=
  if f.isAssigned bm id then (f.assumeInit id).map some else some none

/-- The common end of `add` and `add_at`. An id that the bitmap or the slots do not have is
an index out of bounds.
-/
def write (f : FlattenObjects Bits T cap) (id : Nat) (value : T)
    : Option (FlattenObjects Bits T cap) :=
  if inside : id < 1024 ∧ id < cap then
    some {
      objects := f.objects.set id (some value) inside.2
      idBitmap := bm.set f.idBitmap id true
      count := f.count + 1 }
  else none

def add (f : FlattenObjects Bits T cap) (value : T)
    : Option (Option Nat × FlattenObjects Bits T cap) :=
  match bm.firstFalseIndex f.idBitmap with
  | none => some (none, f)
  | some id =>
      if id < cap then (f.write bm id value).map (some id, ·)
      else some (none, f)

def addAt (f : FlattenObjects Bits T cap) (id : Nat) (value : T)
    : Option (Option Nat × FlattenObjects Bits T cap) :=
  if f.isAssigned bm id then some (none, f)
  else (f.write bm id value).map (some id, ·)

/-- A count of zero cannot be decremented. -/
def remove (f : FlattenObjects Bits T cap) (id : Nat)
    : Option (Option T × FlattenObjects Bits T cap) :=
  if f.isAssigned bm id then
    match f.count, f.assumeInit id with
    | count + 1, some value =>
        some (some value, { f with idBitmap := bm.set f.idBitmap id false, count })
    | _, _ => none
  else some (none, f)

-----------------------------------------------------------------------------------------
-- Runs
-----------------------------------------------------------------------------------------

inductive Call (T : Type) where
  | add (value : T)
  | addAt (id : Nat) (value : T)
  | remove (id : Nat)
  | get (id : Nat)

inductive Answer (T : Type) where
  | id (id : Option Nat)
  | object (value : Option T)
deriving DecidableEq

/-- One call; `none` is a crash. -/
def run (f : FlattenObjects Bits T cap)
    : Call T → Option (Answer T × FlattenObjects Bits T cap)
  | .add value => (f.add bm value).map fun (id, f) => (.id id, f)
  | .addAt id value => (f.addAt bm id value).map fun (id, f) => (.id id, f)
  | .remove id => (f.remove bm id).map fun (value, f) => (.object value, f)
  | .get id => (f.get bm id).map fun value => (.object value, f)

/-- What a call that was answered stored or took out. -/
def changes : Call T → Answer T → List (KeyLog.Change Nat T)
  | .add value, .id (some id) => [.added id value]
  | .addAt _ value, .id (some id) => [.added id value]
  | .remove id, .object (some _) => [.removed id]
  | _, _ => []

/-- An id below the capacity is given to `add_at`. -/
def Call.InRange (cap : Nat) : Call T → Prop
  | .addAt id _ => id < cap
  | _ => True

end FlattenObjects

/-- A container and the log of what was stored and taken out. -/
structure SlotTable (Bits T : Type) (cap : Nat) where
  objects : FlattenObjects Bits T cap
  log : List (KeyLog.Change Nat T)

namespace SlotTable

open FlattenObjects

variable {Bits T : Type} {cap : Nat} (bm : IdBitmap Bits)

/-- The object that was last stored under an id and not taken out. -/
def held (s : SlotTable Bits T cap) (id : Nat) : Option T :=
  KeyLog.current s.log id

def Started (s : SlotTable Bits T cap) : Prop :=
  FlattenObjects.new bm = some s.objects ∧ s.log = []

/-- The call returns the answer. -/
def Answers (s : SlotTable Bits T cap) (call : Call T) (answer : Answer T)
    (s' : SlotTable Bits T cap) : Prop :=
  s.objects.run bm call = some (answer, s'.objects) ∧ s'.log = s.log ++ changes call answer

abbrev Reachable (allowed : Call T → Prop) (s : SlotTable Bits T cap) : Prop :=
  Transition.Reachable (Started bm)
    (fun s s' => ∃ call answer, allowed call ∧ s.Answers bm call answer s') s

/-- The bitmap, the counter and the slots agree with what was stored. -/
structure Exact (s : SlotTable Bits T cap) : Prop where
  count : s.objects.count = (List.range cap).countP (s.objects.isAssigned bm)
  assigned : ∀ id, s.objects.isAssigned bm id = (s.held id).isSome
  slots : ∀ id, s.objects.get bm id = some (s.held id)

/-- What a call should answer, and what it should leave alone. -/
structure Right (s : SlotTable Bits T cap) (call : Call T) (answer : Answer T)
    (s' : SlotTable Bits T cap) : Prop where
  exact : s'.Exact bm
  least : ∀ value id,
    call = .add value → answer = .id (some id)
      → id < cap ∧ s.held id = none ∧ ∀ i, i < id → (s.held i).isSome
  full : ∀ value,
    call = .add value → answer = .id none → ∀ id, id < cap → (s.held id).isSome
  given : ∀ id value,
    call = .addAt id value → answer = .id (if (s.held id).isSome then none else some id)
  taken : ∀ id, call = .remove id ∨ call = .get id → answer = .object (s.held id)
  unchanged : answer = .id none ∨ answer = .object none → s' = s

variable {bm} {s s' : SlotTable Bits T cap}

-----------------------------------------------------------------------------------------
-- Storing and taking out
-----------------------------------------------------------------------------------------

/-- Counting after one value of a predicate was changed, by induction on the range. -/
theorem countP_update (p : Nat → Bool) (id n : Nat) (value : Bool)
    : (List.range n).countP (Function.update p id value)
        + (if id < n ∧ p id = true then 1 else 0)
      = (List.range n).countP p + (if id < n ∧ value = true then 1 else 0) := by
  induction n with
  | zero => rfl
  | succ n ih =>
      rw [List.range_succ, List.countP_append, List.countP_append, List.countP_singleton,
        List.countP_singleton]
      by_cases here : n = id
      · subst here
        rw [Function.update_self]
        simp only [Nat.lt_irrefl, false_and, if_false, Nat.lt_succ_self, true_and] at ih ⊢
        omega
      · rw [Function.update_of_ne here]
        have bound : id < n + 1 ↔ id < n := by omega
        simp only [bound]
        omega

/-- The ids that are assigned after one bit was set. -/
theorem isAssigned_set (lawful : bm.Lawful) (f f' : FlattenObjects Bits T cap) {id : Nat}
    {value : Bool} (inside : id < 1024) (below : id < cap)
    (set : f'.idBitmap = bm.set f.idBitmap id value)
    : f'.isAssigned bm = Function.update (f.isAssigned bm) id value := by
  funext i
  rw [isAssigned, set, lawful.get_set value inside]
  by_cases here : i = id
  · subst here
    rw [Function.update_self, if_pos rfl]
    simp [below]
  · rw [Function.update_of_ne here, if_neg here, isAssigned]

/-- One id gets another value, and its assignment follows. -/
theorem update_isSome {assigned : Nat → Bool} {held : Nat → Option T}
    (same : ∀ i, assigned i = (held i).isSome) (id : Nat) (value : Option T) (i : Nat)
    : Function.update assigned id value.isSome i = (if id = i then value else held i).isSome := by
  by_cases here : id = i
  · rw [← here, Function.update_self, if_pos rfl]
  · rw [Function.update_of_ne (Ne.symm here), if_neg here]
    exact same i

/-- An id that is not assigned can be written. -/
theorem Exact.write (lawful : bm.Lawful) (fits : cap ≤ 1024) (exact : s.Exact bm) {id : Nat}
    (below : id < cap) (free : s.held id = none) (value : T)
    : ∃ f, s.objects.write bm id value = some f
        ∧ Exact bm ⟨f, s.log ++ [.added id value]⟩ := by
  have inside : id < 1024 := below.trans_le fits
  have unassigned : s.objects.isAssigned bm id = false := by
    rw [exact.assigned, free]
    rfl
  refine ⟨_, dif_pos ⟨inside, below⟩, ?_⟩
  have assigned := isAssigned_set lawful s.objects
    { objects := s.objects.objects.set id (some value) below
      idBitmap := bm.set s.objects.idBitmap id true
      count := s.objects.count + 1 } inside below rfl
  have held (i : Nat) : KeyLog.current (s.log ++ [.added id value]) i
      = if id = i then some value else s.held i := by
    rw [KeyLog.current_snoc, KeyLog.apply_added]
    rfl
  refine ⟨?_, fun i => ?_, fun i => ?_⟩
  · have counted := countP_update (s.objects.isAssigned bm) id cap true
    have count := exact.count
    rw [if_neg (by simp [unassigned]), if_pos ⟨below, rfl⟩] at counted
    dsimp only
    rw [assigned]
    omega
  · dsimp only [SlotTable.held]
    rw [assigned, held]
    exact update_isSome exact.assigned id (some value) i
  · dsimp only [SlotTable.held]
    rw [held, FlattenObjects.get, assigned]
    by_cases here : id = i
    · subst here
      rw [Function.update_self, if_pos rfl, if_pos rfl]
      simp [assumeInit, below]
    · have before := exact.slots i
      rw [FlattenObjects.get] at before
      rw [Function.update_of_ne (Ne.symm here), if_neg here, ← before]
      simp only [assumeInit]
      rw [Vector.getElem?_set_ne below here]

/-- An object that is held can be taken out. -/
theorem Exact.remove (lawful : bm.Lawful) (fits : cap ≤ 1024) (exact : s.Exact bm) {id : Nat}
    {value : T} (holds : s.held id = some value)
    : ∃ f, s.objects.remove bm id = some (some value, f)
        ∧ Exact bm ⟨f, s.log ++ [.removed id]⟩ := by
  have assigned : s.objects.isAssigned bm id = true := by
    rw [exact.assigned, holds]
    rfl
  have below : id < cap := by
    rw [isAssigned, Bool.and_eq_true, decide_eq_true_eq] at assigned
    exact assigned.1
  have counted := countP_update (s.objects.isAssigned bm) id cap false
  rw [if_pos ⟨below, assigned⟩, if_neg (by simp), ← exact.count] at counted
  have slot : s.objects.assumeInit id = some value := by
    have found := exact.slots id
    rw [FlattenObjects.get, if_pos assigned, holds] at found
    cases init : s.objects.assumeInit id with
    | none => simp [init] at found
    | some other => simpa [init] using found
  have after := isAssigned_set lawful s.objects
    { s.objects with
      idBitmap := bm.set s.objects.idBitmap id false
      count := s.objects.count - 1 } (below.trans_le fits) below rfl
  have held (i : Nat) : KeyLog.current (s.log ++ [.removed id]) i
      = if id = i then none else s.held i := by
    rw [KeyLog.current_snoc, KeyLog.apply_removed]
    rfl
  have run : s.objects.remove bm id = some (some value, { s.objects with
      idBitmap := bm.set s.objects.idBitmap id false
      count := s.objects.count - 1 }) := by
    obtain ⟨count, more⟩ : ∃ count, s.objects.count = count + 1 :=
      Nat.exists_eq_add_one.mpr (by omega)
    simp only [FlattenObjects.remove, if_pos assigned, slot, more]
    rfl
  refine ⟨_, run, ?_, fun i => ?_, fun i => ?_⟩
  · dsimp only
    rw [after]
    omega
  · dsimp only [SlotTable.held]
    rw [after, held]
    exact update_isSome exact.assigned id none i
  · dsimp only [SlotTable.held]
    rw [held, FlattenObjects.get, after]
    by_cases here : id = i
    · subst here
      rw [Function.update_self, if_neg Bool.false_ne_true, if_pos rfl]
    · rw [Function.update_of_ne (Ne.symm here), if_neg here]
      exact exact.slots i

-----------------------------------------------------------------------------------------
-- Every call
-----------------------------------------------------------------------------------------

theorem Started.exact (lawful : bm.Lawful) (started : s.Started bm) : s.Exact bm := by
  obtain ⟨created, noLog⟩ := started
  unfold FlattenObjects.new at created
  split at created
  · rename_i fits
    have objects := (Option.some.inj created).symm
    have unassigned : s.objects.isAssigned bm = fun _ => false := by
      funext id
      rw [objects, isAssigned]
      by_cases below : id < cap
      · simp [lawful.get_zeroed (below.trans_le fits)]
      · simp [below]
    have nothing (id : Nat) : s.held id = none := by
      rw [held, noLog]
      rfl
    refine ⟨?_, fun id => ?_, fun id => ?_⟩
    · rw [unassigned, objects]
      simp
    · rw [unassigned, nothing]
      rfl
    · rw [FlattenObjects.get, unassigned, if_neg Bool.false_ne_true, nothing]
  · cases created

/-- An id is held by the log exactly when its bit is set and it is below the capacity. -/
theorem Exact.bit (exact : s.Exact bm) {id : Nat} (below : id < cap)
    : bm.get s.objects.idBitmap id = (s.held id).isSome := by
  rw [← exact.assigned, isAssigned, decide_eq_true below, Bool.true_and]

/-- An id beyond the capacity is never held. -/
theorem Exact.held_none (exact : s.Exact bm) {id : Nat} (beyond : ¬ id < cap)
    : s.held id = none := by
  have absent := exact.assigned id
  rw [isAssigned, decide_eq_false beyond, Bool.false_and] at absent
  exact Option.isNone_iff_eq_none.mp (Option.isSome_eq_false_iff.mp absent.symm)

/-- A call that is answered without a change of the log leaves everything as it is. -/
theorem answers_same {call : Call T} {answer : Answer T}
    (run : s.objects.run bm call = some (answer, s.objects))
    (quiet : changes call answer = [])
    : s.Answers bm call answer s :=
  ⟨run, by rw [quiet, List.append_nil]⟩

theorem Exact.add (lawful : bm.Lawful) (fits : cap ≤ 1024) (exact : s.Exact bm) (value : T)
    : ∃ answer s', s.Answers bm (.add value) answer s' ∧ s.Right bm (.add value) answer s' := by
  have full (noneFree : ∀ id, id < cap → bm.get s.objects.idBitmap id = true)
      : Right bm s (.add value) (.id none) s :=
    ⟨exact, nofun, fun _ _ _ id below => exact.bit below ▸ noneFree id below, nofun, nofun,
      fun _ => rfl⟩
  cases first : bm.firstFalseIndex s.objects.idBitmap with
  | none =>
      refine ⟨_, s, answers_same ?_ rfl, full fun id below => ?_⟩
      · simp only [run, FlattenObjects.add, first]
        rfl
      · exact lawful.firstFalse_none first (below.trans_le fits)
  | some id =>
      obtain ⟨-, free, lower⟩ := lawful.firstFalse_some first
      by_cases below : id < cap
      · have unheld : s.held id = none := by
          rw [exact.bit below] at free
          exact Option.isNone_iff_eq_none.mp (Option.isSome_eq_false_iff.mp free)
        obtain ⟨f, written, exact'⟩ := exact.write lawful fits below unheld value
        refine ⟨.id (some id), ⟨f, _⟩, ⟨?_, rfl⟩, exact', ?_, nofun, nofun, nofun, nofun⟩
        · simp only [run, FlattenObjects.add, first, if_pos below, written]
          rfl
        · rintro _ _ ⟨⟩ ⟨⟩
          exact ⟨below, unheld, fun i less => exact.bit (less.trans below) ▸ lower i less⟩
      · refine ⟨_, s, answers_same ?_ rfl, full fun i inside => lower i (by omega)⟩
        simp only [run, FlattenObjects.add, first, if_neg below]
        rfl

/-- `add_at` stores under every free id below the capacity. -/
theorem Exact.addAt (lawful : bm.Lawful) (fits : cap ≤ 1024) (exact : s.Exact bm) {id : Nat}
    (below : id < cap) (value : T)
    : ∃ answer s',
        s.Answers bm (.addAt id value) answer s' ∧ s.Right bm (.addAt id value) answer s' := by
  cases holds : s.held id with
  | none =>
      obtain ⟨f, written, exact'⟩ := exact.write lawful fits below holds value
      have unassigned : s.objects.isAssigned bm id = false := by
        rw [exact.assigned, holds]
        rfl
      refine ⟨.id (some id), ⟨f, _⟩, ⟨?_, rfl⟩, exact', nofun, nofun, ?_, nofun, nofun⟩
      · simp only [run, FlattenObjects.addAt, unassigned, written]
        rfl
      · rintro _ _ ⟨⟩
        rw [holds]
        rfl
  | some old =>
      have assigned : s.objects.isAssigned bm id = true := by
        rw [exact.assigned, holds]
        rfl
      refine ⟨.id none, s, answers_same ?_ rfl, exact, nofun, nofun, ?_, nofun,
        fun _ => rfl⟩
      · simp only [run, FlattenObjects.addAt, assigned]
        rfl
      · rintro _ _ ⟨⟩
        rw [holds]
        rfl

/-- An id beyond the capacity has no slot to write. -/
theorem Exact.addAt_crash (exact : s.Exact bm) {id : Nat} (beyond : ¬ id < cap) (value : T)
    : s.objects.run bm (.addAt id value) = none := by
  have unassigned : s.objects.isAssigned bm id = false := by
    rw [exact.assigned, exact.held_none beyond]
    rfl
  simp only [run, FlattenObjects.addAt, unassigned, FlattenObjects.write]
  rw [dif_neg fun inside => beyond inside.2]
  rfl

theorem Exact.removal (lawful : bm.Lawful) (fits : cap ≤ 1024) (exact : s.Exact bm) (id : Nat)
    : ∃ answer s',
        s.Answers bm (.remove id) answer s' ∧ s.Right bm (.remove id) answer s' := by
  cases holds : s.held id with
  | none =>
      have unassigned : s.objects.isAssigned bm id = false := by
        rw [exact.assigned, holds]
        rfl
      refine ⟨.object none, s, answers_same ?_ rfl, exact, nofun, nofun, nofun, ?_,
        fun _ => rfl⟩
      · simp only [run, FlattenObjects.remove, unassigned]
        rfl
      · rintro _ (⟨⟨⟩⟩ | ⟨⟨⟩⟩)
        rw [holds]
  | some value =>
      obtain ⟨f, removed, exact'⟩ := exact.remove lawful fits holds
      refine ⟨.object (some value), ⟨f, _⟩, ⟨?_, rfl⟩, exact', nofun, nofun, nofun, ?_, nofun⟩
      · simp only [run, removed]
        rfl
      · rintro _ (⟨⟨⟩⟩ | ⟨⟨⟩⟩)
        rw [holds]

theorem Exact.lookup (exact : s.Exact bm) (id : Nat)
    : ∃ answer s', s.Answers bm (.get id) answer s' ∧ s.Right bm (.get id) answer s' := by
  refine ⟨.object (s.held id), s, answers_same ?_ rfl, exact, nofun, nofun, nofun, ?_,
    fun _ => rfl⟩
  · simp only [run, exact.slots]
    rfl
  · rintro _ (⟨⟨⟩⟩ | ⟨⟨⟩⟩)
    rfl

/-- From a state that is exact, a call is answered as it should exactly when its id is in
range; by cases on the call.
-/
theorem Exact.call (lawful : bm.Lawful) (fits : cap ≤ 1024) (exact : s.Exact bm)
    (call : Call T)
    : (∃ answer s', s.Answers bm call answer s' ∧ s.Right bm call answer s')
      ↔ call.InRange cap := by
  cases call with
  | add value => exact iff_of_true (exact.add lawful fits value) trivial
  | addAt id value =>
      refine ⟨fun ⟨answer, s', answers, _⟩ => ?_, fun below => exact.addAt lawful fits below value⟩
      by_contra beyond
      rw [Answers, exact.addAt_crash beyond] at answers
      cases answers.1
  | remove id => exact iff_of_true (exact.removal lawful fits id) trivial
  | get id => exact iff_of_true (exact.lookup id) trivial

/-- A call has one answer. -/
theorem Answers.unique {call : Call T} {answer answer' : Answer T} {s₁ s₂ : SlotTable Bits T cap}
    (first : s.Answers bm call answer s₁) (second : s.Answers bm call answer' s₂)
    : answer = answer' ∧ s₁ = s₂ := by
  obtain ⟨run₁, log₁⟩ := first
  obtain ⟨run₂, log₂⟩ := second
  rw [run₁] at run₂
  cases s₁
  cases s₂
  cases run₂
  exact ⟨rfl, by rw [SlotTable.mk.injEq]; exact ⟨rfl, log₁.trans log₂.symm⟩⟩

/-- As long as `add_at` is only given ids below the capacity, the bitmap, the counter and the
slots agree with what was stored, and every call is answered as it should; the next call is
exactly when it meets the condition, too.
-/
theorem slots_exact (lawful : bm.Lawful) (fits : cap ≤ 1024)
    (reachable : Reachable bm (Call.InRange cap) s)
    : s.Exact bm
      ∧ ∀ call, (∃ answer s', s.Answers bm call answer s' ∧ s.Right bm call answer s')
        ↔ call.InRange cap := by
  have exact : s.Exact bm := by
    refine reachable.invariant (Exact bm) (fun s started => started.exact lawful) ?_
    rintro s s' exact ⟨call, answer, inRange, answers⟩
    obtain ⟨answer', s'', answers', right⟩ := (exact.call lawful fits call).mpr inRange
    exact (answers.unique answers').2 ▸ right.exact
  exact ⟨exact, exact.call lawful fits⟩

-----------------------------------------------------------------------------------------
-- A bitmap
-----------------------------------------------------------------------------------------

/-- The set bits, listed. -/
def listed : IdBitmap (List Nat) where
  zeroed := []
  get bits index := index ∈ bits
  set bits index value := if value then index :: bits else bits.filter (· ≠ index)
  firstFalseIndex bits := (List.range' 0 1024).find? (· ∉ bits)

theorem listed_lawful : listed.Lawful where
  get_zeroed _ := rfl
  get_set := by
    intro bits index i value _
    cases value
    · by_cases here : i = index
      · simp [listed, here]
      · simp [listed, here]
    · by_cases here : i = index
      · simp [listed, here]
      · simp [listed, here]
  firstFalse_some := by
    intro bits index found
    obtain ⟨free, inside, lower⟩ := List.find?_range'_eq_some.mp found
    have below := List.mem_range'_1.mp inside
    refine ⟨by omega, by simpa [listed] using free, fun i less => ?_⟩
    simpa [listed] using lower i (Nat.zero_le i) less
  firstFalse_none := by
    intro bits full i inside
    have taken := List.find?_eq_none.mp full i (List.mem_range'_1.mpr ⟨Nat.zero_le i, by omega⟩)
    simpa [listed] using taken

def empty : SlotTable (List Nat) Nat 4 where
  objects := { objects := Vector.replicate 4 none, idBitmap := [], count := 0 }
  log := []

theorem empty_started : empty.Started listed :=
  ⟨rfl, rfl⟩

/-- The id right behind the capacity makes `add_at` crash on an empty container. -/
theorem addAt_beyond
    : ¬ ∀ s : SlotTable (List Nat) Nat 4,
        Reachable listed (fun _ => True) s
        → ∀ call, ∃ answer s', s.Answers listed call answer s' ∧ s.Right listed call answer s' := by
  intro everywhere
  obtain ⟨answer, s', answers, -⟩ := everywhere empty (.start empty_started) (.addAt 4 23)
  have crash : empty.objects.run listed (.addAt 4 23) = none := by decide
  rw [Answers, crash] at answers
  cases answers.1

/-- Witness: the first object gets id 0. -/
theorem slots_exact_first
    : ∃ s : SlotTable (List Nat) Nat 4,
        empty.Answers listed (.add 23) (.id (some 0)) s
        ∧ s.Exact listed
        ∧ s.held 0 = some 23 := by
  have run : ∃ f, empty.objects.run listed (.add 23) = some (.id (some 0), f) := by
    simp only [run, FlattenObjects.add, empty, listed]
    exact ⟨_, rfl⟩
  obtain ⟨f, answered⟩ := run
  have answers : empty.Answers listed (.add 23) (.id (some 0)) ⟨f, [.added 0 23]⟩ :=
    ⟨answered, rfl⟩
  have reachable : Reachable listed (Call.InRange 4) ⟨f, [.added 0 23]⟩ :=
    Transition.Reachable.next (.start empty_started) ⟨.add 23, _, trivial, answers⟩
  exact ⟨_, answers, (slots_exact listed_lawful (by decide) reachable).1, rfl⟩

end SlotTable

end RCoreOS
