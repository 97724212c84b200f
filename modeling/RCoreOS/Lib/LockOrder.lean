import RCoreOS.Lib.Transition
import Mathlib.Logic.Function.Basic
import Mathlib.Data.List.Basic
import Mathlib.Data.Fintype.Card
import Mathlib.Order.WellFounded

/-! Tasks that take and release locks. Tasks that wait only for locks above all the locks they
hold never wait in a cycle; programs that nest their locks are checked pair by pair.
-/

namespace LockOrder

variable {Task Lock : Type} [DecidableEq Task] [DecidableEq Lock]

inductive Action (Lock : Type) where
  | lock (l : Lock)
  | unlock (l : Lock)

/-- The locks that tasks hold and wait for, and what is left of their programs. -/
structure Locks (Task Lock : Type) where
  held : Task → List Lock
  waiting : Task → Option Lock
  left : Task → List (Action Lock)

inductive Event (Task : Type) where
  | start (t : Task)
  | take (t : Task)
  | wait (t : Task)
  | release (t : Task)

namespace Locks

variable {s s' : Locks Task Lock} {t t' : Task} {l l' : Lock}

/-- Nobody holds anything or has anything to do. -/
def Idle (s : Locks Task Lock) : Prop :=
  ∀ t, s.held t = [] ∧ s.waiting t = none ∧ s.left t = []

def Free (s : Locks Task Lock) (l : Lock) : Prop :=
  ∀ t, l ∉ s.held t

def WaitsFor (s : Locks Task Lock) (t t' : Task) : Prop :=
  ∃ l, s.waiting t = some l ∧ l ∈ s.held t'

/-- Tasks that each wait for a lock of the next one, in a cycle. -/
def Deadlocked (s : Locks Task Lock) : Prop :=
  ∃ t, Relation.TransGen s.WaitsFor t t

/-- A task takes the lock it asks for when it is free, and else waits for it. -/
inductive Step (Program : List (Action Lock) → Prop)
    : Locks Task Lock → Event Task → Locks Task Lock → Prop where
  | start (s : Locks Task Lock) (t : Task) (program : List (Action Lock))
      (done : s.left t = []) (known : Program program)
      : Step Program s (.start t) { s with left := Function.update s.left t program }
  | take (s : Locks Task Lock) (t : Task) (l : Lock) (rest : List (Action Lock))
      (next : s.left t = .lock l :: rest) (free : s.Free l)
      : Step Program s (.take t)
          { held := Function.update s.held t (l :: s.held t)
            waiting := Function.update s.waiting t none
            left := Function.update s.left t rest }
  | wait (s : Locks Task Lock) (t : Task) (l : Lock) (rest : List (Action Lock))
      (next : s.left t = .lock l :: rest) (taken : ¬ s.Free l)
      : Step Program s (.wait t) { s with waiting := Function.update s.waiting t (some l) }
  | release (s : Locks Task Lock) (t : Task) (l : Lock) (rest : List (Action Lock))
      (next : s.left t = .unlock l :: rest)
      : Step Program s (.release t)
          { s with
            held := Function.update s.held t ((s.held t).erase l)
            left := Function.update s.left t rest }

-----------------------------------------------------------------------------------------
-- Waiting upwards
-----------------------------------------------------------------------------------------

/-- Every task waits for a lock above all the locks it holds. -/
def Upwards (rank : Lock → Nat) (s : Locks Task Lock) : Prop :=
  ∀ t l, s.waiting t = some l → ∀ l' ∈ s.held t, rank l' < rank l

omit [DecidableEq Task] [DecidableEq Lock] in
/-- The locks that are waited for grow along the waiting tasks, by induction on the path. -/
theorem Upwards.grows {rank : Lock → Nat} (upwards : s.Upwards rank)
    (path : Relation.TransGen s.WaitsFor t t') (waits' : s.waiting t' = some l')
    : ∃ l, s.waiting t = some l ∧ rank l < rank l' := by
  induction path generalizing l' with
  | single waits =>
      obtain ⟨l, waiting, held⟩ := waits
      exact ⟨l, waiting, upwards _ _ waits' l held⟩
  | tail _ waits ih =>
      obtain ⟨between, waiting, held⟩ := waits
      obtain ⟨l, first, less⟩ := ih waiting
      exact ⟨l, first, Nat.lt_trans less (upwards _ _ waits' between held)⟩

omit [DecidableEq Task] [DecidableEq Lock] in
theorem Upwards.not_deadlocked {rank : Lock → Nat} (upwards : s.Upwards rank)
    : ¬ s.Deadlocked := by
  intro deadlocked
  obtain ⟨t, path⟩ := deadlocked
  obtain ⟨_, ⟨l, waiting, -⟩, -⟩ := Relation.TransGen.head'_iff.mp path
  obtain ⟨l', waiting', less⟩ := upwards.grows path waiting
  rw [waiting] at waiting'
  cases waiting'
  exact Nat.lt_irrefl _ less

omit [DecidableEq Task] [DecidableEq Lock] in
/-- Along the tasks that wait for each other there is one that waits for nothing that is held. -/
theorem Upwards.exists_unblocked [Finite Task] {rank : Lock → Nat} (upwards : s.Upwards rank)
    (waits : s.WaitsFor t t')
    : ∃ last, Relation.TransGen s.WaitsFor t last
      ∧ ∀ l, s.waiting last = some l → ∀ u, l ∉ s.held u := by
  have irrefl : Std.Irrefl (Function.swap (Relation.TransGen s.WaitsFor)) :=
    ⟨fun t cycle => upwards.not_deadlocked ⟨t, cycle⟩⟩
  have trans : IsTrans Task (Function.swap (Relation.TransGen s.WaitsFor)) :=
    ⟨fun _ _ _ first second => second.trans first⟩
  have wellFounded := Finite.wellFounded_of_trans_of_irrefl
    (Function.swap (Relation.TransGen s.WaitsFor))
  obtain ⟨last, path, highest⟩ := wellFounded.has_min
    { last | Relation.TransGen s.WaitsFor t last } ⟨t', .single waits⟩
  refine ⟨last, path, fun l waiting u held => ?_⟩
  exact highest u (path.tail ⟨l, waiting, held⟩) (.single ⟨l, waiting, held⟩)

end Locks

-----------------------------------------------------------------------------------------
-- Programs
-----------------------------------------------------------------------------------------

/-- Takes a lock, runs a program and releases the lock. -/
def under (l : Lock) (program : List (Action Lock)) : List (Action Lock) :=
  .lock l :: (program ++ [.unlock l])

/-- Every lock is asked for when all the locks held then allow it. -/
def Allowed (may : Lock → Lock → Prop) : List Lock → List (Action Lock) → Prop
  | _, [] => True
  | held, .lock l :: rest => (∀ l' ∈ held, may l' l) ∧ Allowed may (l :: held) rest
  | held, .unlock l :: rest => Allowed may (held.erase l) rest

/-- The locks that are held in the end. -/
def heldAfter : List Lock → List (Action Lock) → List Lock
  | held, [] => held
  | held, .lock l :: rest => heldAfter (l :: held) rest
  | held, .unlock l :: rest => heldAfter (held.erase l) rest

/-- A program that asks only for locks it may take, and gives back what it takes. -/
structure Nested (may : Lock → Lock → Prop) (held : List Lock) (program : List (Action Lock))
    : Prop where
  allowed : Allowed may held program
  givesBack : heldAfter held program = held

variable {may : Lock → Lock → Prop} {held : List Lock} {l : Lock}

theorem allowed_append {program program' : List (Action Lock)}
    : Allowed may held (program ++ program')
      ↔ Allowed may held program ∧ Allowed may (heldAfter held program) program' := by
  induction program generalizing held with
  | nil => simp [Allowed, heldAfter]
  | cons action program ih =>
      cases action with
      | lock l => simp only [List.cons_append, Allowed, heldAfter, ih, and_assoc]
      | unlock l => simp only [List.cons_append, Allowed, heldAfter, ih]

theorem heldAfter_append {program program' : List (Action Lock)}
    : heldAfter held (program ++ program') = heldAfter (heldAfter held program) program' := by
  induction program generalizing held with
  | nil => rfl
  | cons action program ih =>
      cases action with
      | lock l => exact ih
      | unlock l => exact ih

theorem Nested.nil : Nested may held [] :=
  ⟨trivial, rfl⟩

theorem Nested.append {program program' : List (Action Lock)} (first : Nested may held program)
    (second : Nested may held program')
    : Nested may held (program ++ program') where
  allowed := allowed_append.mpr ⟨first.allowed, first.givesBack.symm ▸ second.allowed⟩
  givesBack := by rw [heldAfter_append, first.givesBack, second.givesBack]

/-- A program under one more lock. -/
theorem Nested.under {program : List (Action Lock)} (mayTake : ∀ l' ∈ held, may l' l)
    (inner : Nested may (l :: held) program)
    : Nested may held (under l program) where
  allowed := ⟨mayTake, allowed_append.mpr ⟨inner.allowed, trivial⟩⟩
  givesBack := by
    rw [LockOrder.under, heldAfter, heldAfter_append, inner.givesBack, heldAfter,
      List.erase_cons_head, heldAfter]

theorem Nested.flatMap {α : Type} {program : α → List (Action Lock)} {items : List α}
    (each : ∀ item ∈ items, Nested may held (program item))
    : Nested may held (items.flatMap program) := by
  induction items with
  | nil => exact .nil
  | cons item items ih =>
      rw [List.flatMap_cons]
      exact (each item (List.mem_cons_self ..)).append
        (ih fun item' member => each item' (List.mem_cons_of_mem _ member))

-----------------------------------------------------------------------------------------
-- Runs
-----------------------------------------------------------------------------------------

namespace Locks

variable {s s' : Locks Task Lock} {Program : List (Action Lock) → Prop}
  {order inverted : Lock → Lock → Prop} {rank : Lock → Nat}

/-- No task begins to wait for a lock while it holds one that comes behind it. -/
def Uninverted (inverted : Lock → Lock → Prop) (s : Locks Task Lock) : Event Task → Prop
  | .wait t => ∀ l rest, s.left t = .lock l :: rest → ∀ l' ∈ s.held t, ¬ inverted l' l
  | _ => True

/-- What is left of every program is allowed and gives everything back, and tasks wait for the
lock they ask for, upwards.
-/
structure Sound (rank : Lock → Nat) (inverted : Lock → Lock → Prop) (s : Locks Task Lock)
    : Prop where
  allowed
    : ∀ t, Allowed (fun l' l => rank l' < rank l ∨ inverted l' l) (s.held t) (s.left t)
  givesBack : ∀ t, heldAfter (s.held t) (s.left t) = []
  asks : ∀ t l, s.waiting t = some l → ∃ rest, s.left t = .lock l :: rest
  upwards : s.Upwards rank

omit [DecidableEq Task] in
theorem Idle.sound (idle : s.Idle) : s.Sound rank inverted where
  allowed t := by rw [(idle t).2.2]; trivial
  givesBack t := by rw [(idle t).2.2, heldAfter, (idle t).1]
  asks t l waits := by simp [(idle t).2.1] at waits
  upwards t l waits := by simp [(idle t).2.1] at waits

omit [DecidableEq Task] in
/-- A task that does not ask for a lock does not wait. -/
theorem Sound.not_waiting (sound : s.Sound rank inverted) {t : Task}
    (other : ∀ l rest, s.left t ≠ .lock l :: rest)
    : s.waiting t = none := by
  cases waits : s.waiting t with
  | none => rfl
  | some l =>
      obtain ⟨rest, next⟩ := sound.asks t l waits
      exact absurd next (other l rest)

/-- Only one task changes in a step, and it is enough to look at this task. -/
theorem Sound.update (sound : s.Sound rank inverted) (t : Task) (held : List Lock)
    (waiting : Option Lock) (left : List (Action Lock))
    (allowed : Allowed (fun l' l => rank l' < rank l ∨ inverted l' l) held left)
    (givesBack : heldAfter held left = [])
    (asks : ∀ l, waiting = some l → ∃ rest, left = .lock l :: rest)
    (upwards : ∀ l, waiting = some l → ∀ l' ∈ held, rank l' < rank l)
    : Sound rank inverted
      { held := Function.update s.held t held
        waiting := Function.update s.waiting t waiting
        left := Function.update s.left t left } where
  allowed t' := by
    by_cases same : t' = t
    · subst same
      simpa only [Function.update_self] using allowed
    · simpa only [Function.update_of_ne same] using sound.allowed t'
  givesBack t' := by
    by_cases same : t' = t
    · subst same
      simpa only [Function.update_self] using givesBack
    · simpa only [Function.update_of_ne same] using sound.givesBack t'
  asks t' := by
    by_cases same : t' = t
    · subst same
      simpa only [Function.update_self] using asks
    · simpa only [Function.update_of_ne same] using sound.asks t'
  upwards t' := by
    by_cases same : t' = t
    · subst same
      simpa only [Function.update_self] using upwards
    · simpa only [Function.update_of_ne same] using sound.upwards t'

/-- Every step keeps this when no wait is inverted, by the cases of the step. -/
theorem Sound.step
    (programs : ∀ program, Program program
      → Nested (fun l' l => rank l' < rank l ∨ inverted l' l) [] program)
    (sound : s.Sound rank inverted) {event : Event Task} (stepped : Step Program s event s')
    (uninverted : s.Uninverted inverted event)
    : s'.Sound rank inverted := by
  cases stepped with
  | start t program done known =>
      have empty : s.held t = [] := by simpa [done, heldAfter] using sound.givesBack t
      have nobody := sound.not_waiting (t := t) (by simp [done])
      have nested := programs program known
      have kept := sound.update t [] none program nested.allowed nested.givesBack
        (fun _ waits => by cases waits) (fun _ waits => by cases waits)
      rwa [← empty, ← nobody, Function.update_eq_self, Function.update_eq_self] at kept
  | take t l rest next free =>
      have allowed := sound.allowed t
      have givesBack := sound.givesBack t
      rw [next] at allowed givesBack
      exact sound.update t (l :: s.held t) none rest allowed.2 givesBack
        (fun _ waits => by cases waits) (fun _ waits => by cases waits)
  | wait t l rest next taken =>
      have allowed := sound.allowed t
      have kept := sound.update t (s.held t) (some l) (s.left t) (sound.allowed t)
        (sound.givesBack t) (fun l' waits => ⟨rest, by cases waits; exact next⟩)
        fun l' waits l'' held => by
          cases waits
          rw [next] at allowed
          exact (allowed.1 l'' held).resolve_right (uninverted l rest next l'' held)
      rwa [Function.update_eq_self, Function.update_eq_self] at kept
  | release t l rest next =>
      have allowed := sound.allowed t
      have givesBack := sound.givesBack t
      have nobody := sound.not_waiting (t := t) (by simp [next])
      rw [next] at allowed givesBack
      have kept := sound.update t ((s.held t).erase l) none rest allowed givesBack
        (fun _ waits => by cases waits) (fun _ waits => by cases waits)
      rwa [← nobody, Function.update_eq_self] at kept

/-- No run in which tasks wait only upwards reaches a deadlock, when all programs nest their
locks upwards or in one of the inverted pairs.
-/
theorem not_deadlocked (rank : Lock → Nat)
    (programs : ∀ program, Program program
      → Nested (fun l' l => rank l' < rank l ∨ inverted l' l) [] program)
    (reachable : Transition.Reachable Idle
      (fun s s' => ∃ event, Step Program s event s' ∧ s.Uninverted inverted event) s)
    : ¬ s.Deadlocked := by
  have sound : s.Sound rank inverted :=
    reachable.invariant (Sound rank inverted) (fun _ idle => idle.sound)
      fun s s' before ⟨_, stepped, uninverted⟩ => before.step programs stepped uninverted
  exact sound.upwards.not_deadlocked

end Locks

end LockOrder
