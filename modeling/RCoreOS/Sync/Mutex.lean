import RCoreOS.Lib.Transition
import Mathlib.Data.List.Nodup
import Mathlib.Logic.Function.Basic

/-! The sleeping mutex of the `sync` kernel under arbitrary interleavings. The owner word
changes outside the run-queue lock, while the check that sends a task to sleep happens under
it; a task that is switched out takes no step until it is unblocked.
-/

namespace RCoreOS.Sync

/-- Where a task is in the code of the mutex and its wait queue. -/
inductive Point where
  /-- Outside of all calls. -/
  | outside
  /-- In `lock`, before `compare_exchange_weak`. -/
  | exchange
  /-- In `wait_until`, before taking the run-queue lock. -/
  | wait
  /-- In `wait_until`, before evaluating the condition under the run-queue lock. -/
  | check
  /-- In `wait_until`, before `block_current` under the run-queue lock. -/
  | sleep
  /-- Inside `block_current`, switched out. -/
  | asleep
  /-- In `wait_until`, before `cancel_events`. -/
  | leave
  /-- In `force_unlock`, before `notify_one`. -/
  | notify
  /-- `lock` found that the task owns the mutex already. -/
  | relockPanic
  /-- `force_unlock` found that the task does not own the mutex. -/
  | unlockPanic
deriving DecidableEq, Repr

/-- The mutex, the kernel state its wait queue uses, and every task's point and guard. -/
structure Kernel (Task : Type) where
  ownerId : Nat
  queue : List Task
  /-- `TASK_IN_WAIT_QUEUE`, the ids of the tasks in a wait queue. -/
  inWaitQueue : Nat → Bool
  blocked : Task → Bool
  /-- The task that holds `RUN_QUEUE.lock()`. -/
  runQueue : Option Task
  point : Task → Point
  guard : Task → Bool

namespace Kernel

variable {Task : Type} [DecidableEq Task] (id : Task → Nat)

/-- An unlocked mutex that no task has called yet. -/
def new : Kernel Task where
  ownerId := 0
  queue := []
  inWaitQueue := fun _ => false
  blocked := fun _ => false
  runQueue := none
  point := fun _ => .outside
  guard := fun _ => false

/-- A value per task or per id, changed at one place. -/
def set {α β : Type} [DecidableEq α] (f : α → β) (a : α) (b : β) : α → β :=
  fun x => if x = a then b else f x

@[simp, grind =]
theorem set_apply {α β : Type} [DecidableEq α] (f : α → β) (a : α) (b : β) (x : α)
    : set f a b x = if x = a then b else f x := rfl

def goto (s : Kernel Task) (t : Task) (p : Point) : Kernel Task :=
  { s with point := set s.point t p }

def isLocked (s : Kernel Task) : Bool :=
  s.ownerId != 0

/-- A successful exchange of the owner word; the caller returns with a guard. -/
def acquire (s : Kernel Task) (t : Task) : Kernel Task :=
  { s.goto t .outside with
    ownerId := id t
    guard := set s.guard t true }

/-- A failed exchange in `lock`, which reports the owner it has seen. -/
def exchangeFailed (s : Kernel Task) (t : Task) : Kernel Task :=
  if s.ownerId = id t then s.goto t .relockPanic else s.goto t .wait

/-- The condition of `wait_until`: an unlocked mutex ends the wait and unlocks the run queue. -/
def checkCondition (s : Kernel Task) (t : Task) : Kernel Task :=
  if s.isLocked then s.goto t .sleep else { s.goto t .leave with runQueue := none }

/-- `block_current` queues the task and switches to another one, which unlocks the run queue. -/
def blockCurrent (s : Kernel Task) (t : Task) : Kernel Task :=
  { s.goto t .asleep with
    blocked := set s.blocked t true
    inWaitQueue := set s.inWaitQueue (id t) true
    queue := s.queue ++ [t]
    runQueue := none }

def cancelEvents (s : Kernel Task) (t : Task) : Kernel Task :=
  if s.inWaitQueue (id t) then
    { s with
      queue := s.queue.filter (· ≠ t)
      inWaitQueue := set s.inWaitQueue (id t) false }
  else s

def unblockTask (s : Kernel Task) (t : Task) : Kernel Task :=
  if s.blocked t then { s with blocked := set s.blocked t false } else s

def notifyOne (s : Kernel Task) : Kernel Task :=
  match s.queue with
  | [] => s
  | t :: rest =>
      Kernel.unblockTask
        { s with queue := rest, inWaitQueue := set s.inWaitQueue (id t) false } t

/-- The swap of `force_unlock` and its assertion. -/
def forceUnlock (s : Kernel Task) (t : Task) : Kernel Task :=
  let released := { s with ownerId := 0, guard := set s.guard t false }
  if s.ownerId = id t then released.goto t .notify else released.goto t .unlockPanic

/-- One atomic step of one task. `compare_exchange_weak` may fail on any owner word. -/
inductive Step (s : Kernel Task) : Kernel Task → Prop
  | lock (t) : s.point t = .outside → Step s (s.goto t .exchange)
  | exchange (t) : s.point t = .exchange → s.ownerId = 0 → Step s (s.acquire id t)
  | exchangeRefused (t) : s.point t = .exchange → Step s (s.exchangeFailed id t)
  | lockRunQueue (t)
    : s.point t = .wait → s.runQueue = none → Step s { s.goto t .check with runQueue := some t }
  | check (t) : s.point t = .check → Step s (s.checkCondition t)
  | block (t) : s.point t = .sleep → Step s (s.blockCurrent id t)
  | resume (t) : s.point t = .asleep → s.blocked t = false → Step s (s.goto t .wait)
  | leave (t) : s.point t = .leave → Step s ((s.cancelEvents id t).goto t .exchange)
  | tryLock (t) : s.point t = .outside → s.ownerId = 0 → Step s (s.acquire id t)
  | tryLockFailed (t) : s.point t = .outside → s.ownerId ≠ 0 → Step s s
  | unlock (t) : s.point t = .outside → s.guard t = true → Step s (s.forceUnlock id t)
  | notify (t)
    : s.point t = .notify → s.runQueue = none → Step s ((s.notifyOne id).goto t .outside)

/-- The states of any run of any number of tasks on one mutex. -/
abbrev Reachable (s : Kernel Task) : Prop :=
  Transition.Reachable (· = new) (fun s s' => Step id s s') s

/-- A task that will look at the owner word or wake a waiter before it sleeps. -/
def Pending (s : Kernel Task) (t : Task) : Prop :=
  match s.point t with
  | .exchange | .wait | .check | .leave | .notify => True
  | .asleep => s.blocked t = false
  | .outside | .sleep | .relockPanic | .unlockPanic => False

-----------------------------------------------------------------------------------------
-- Bookkeeping
-----------------------------------------------------------------------------------------

/-- How owner word, guards, locks and wait queue belong together between any two steps. -/
structure Bookkeeping (s : Kernel Task) : Prop where
  owner : ∀ t, s.guard t = true ↔ s.ownerId = id t
  runQueue : ∀ t, s.point t = .check ∨ s.point t = .sleep ↔ s.runQueue = some t
  queued : ∀ t, t ∈ s.queue ↔ s.blocked t = true
  asleep : ∀ t, s.blocked t = true → s.point t = .asleep
  nodup : s.queue.Nodup
  listed : ∀ t, s.inWaitQueue (id t) = true ↔ t ∈ s.queue
  asserted : ∀ t, s.point t ≠ .unlockPanic

variable {id} {s s' : Kernel Task}

section Events

variable {t : Task}

omit [DecidableEq Task] in
/-- Only a task between its check and its sleep holds the run queue. -/
theorem Bookkeeping.away (book : Bookkeeping id s) (check : s.point t ≠ .check)
    (sleep : s.point t ≠ .sleep)
    : s.runQueue ≠ some t :=
  fun holds => ((book.runQueue t).mpr holds).elim check sleep

omit [DecidableEq Task] in
theorem Bookkeeping.awake (book : Bookkeeping id s) (here : s.point t ≠ .asleep)
    : s.blocked t = false :=
  Bool.eq_false_iff.mpr fun blocked => here (book.asleep t blocked)

/-- A task that is awake may move between points where it does not hold the run queue. -/
theorem Bookkeeping.goto (book : Bookkeeping id s) {p : Point} (away : s.runQueue ≠ some t)
    (awake : s.blocked t = false) (quiet : p ≠ .check ∧ p ≠ .sleep ∧ p ≠ .unlockPanic)
    : Bookkeeping id (s.goto t p) := by
  refine { book with runQueue := ?_, asleep := ?_, asserted := ?_ } <;>
    intro u <;> simp only [Kernel.goto, set_apply]
  · have before := book.runQueue u
    grind
  · have before := book.asleep u
    grind
  · have before := book.asserted u
    grind

theorem Bookkeeping.acquire (distinct : Function.Injective id) (nonzero : ∀ t, id t ≠ 0)
    (book : Bookkeeping id s) (away : s.runQueue ≠ some t) (awake : s.blocked t = false)
    (free : s.ownerId = 0)
    : Bookkeeping id (s.acquire id t) := by
  refine { book.goto (p := .outside) away awake (by simp) with owner := fun u => ?_ }
  have before := book.owner u
  have other := nonzero u
  simp only [Kernel.acquire, set_apply, distinct.eq_iff]
  grind

theorem Bookkeeping.lockRunQueue (book : Bookkeeping id s) (here : s.point t = .wait)
    (unlocked : s.runQueue = none)
    : Bookkeeping id { s.goto t .check with runQueue := some t } := by
  refine { book with runQueue := ?_, asleep := ?_, asserted := ?_ } <;>
    intro u <;> simp only [Kernel.goto, set_apply]
  · have before := book.runQueue u
    grind
  · have before := book.asleep u
    grind
  · have before := book.asserted u
    grind

theorem Bookkeeping.checkCondition (book : Bookkeeping id s) (here : s.point t = .check)
    : Bookkeeping id (s.checkCondition t) := by
  have holds := (book.runQueue t).mp (.inl here)
  unfold Kernel.checkCondition
  split <;> refine { book with runQueue := ?_, asleep := ?_, asserted := ?_ } <;>
    intro u <;> simp only [Kernel.goto, set_apply]
  · have before := book.runQueue u
    grind
  · have before := book.asleep u
    grind
  · have before := book.asserted u
    grind
  · have before := book.runQueue u
    grind
  · have before := book.asleep u
    grind
  · have before := book.asserted u
    grind

/-- A task that goes to sleep enters the queue, where it was not before. -/
theorem Bookkeeping.blockCurrent (distinct : Function.Injective id) (book : Bookkeeping id s)
    (here : s.point t = .sleep)
    : Bookkeeping id (s.blockCurrent id t) := by
  have holds := (book.runQueue t).mp (.inr here)
  have absent : t ∉ s.queue := by
    rw [book.queued, book.awake (by simp [here])]
    decide
  constructor
  · exact book.owner
  · intro u
    have before := book.runQueue u
    simp only [Kernel.blockCurrent, Kernel.goto, set_apply]
    grind
  · intro u
    have before := book.queued u
    simp only [Kernel.blockCurrent, set_apply, List.mem_append, List.mem_singleton]
    grind
  · intro u
    have before := book.asleep u
    simp only [Kernel.blockCurrent, Kernel.goto, set_apply]
    grind
  · simp only [Kernel.blockCurrent]
    refine List.nodup_append.mpr ⟨book.nodup, List.nodup_singleton t, fun u member v last => ?_⟩
    rw [List.mem_singleton.mp last]
    exact fun same => absent (same ▸ member)
  · intro u
    have before := book.listed u
    simp only [Kernel.blockCurrent, set_apply, List.mem_append, List.mem_singleton,
      distinct.eq_iff]
    grind
  · intro u
    have before := book.asserted u
    simp only [Kernel.blockCurrent, Kernel.goto, set_apply]
    grind

omit [DecidableEq Task] in
/-- A task that runs is in no wait queue. -/
theorem Bookkeeping.unlisted (book : Bookkeeping id s) (awake : s.blocked t = false)
    : s.inWaitQueue (id t) = false := by
  rw [Bool.eq_false_iff, ne_eq, book.listed, book.queued, awake]
  decide

theorem Bookkeeping.forceUnlock (distinct : Function.Injective id) (nonzero : ∀ t, id t ≠ 0)
    (book : Bookkeeping id s) (here : s.point t = .outside) (held : s.guard t = true)
    : Bookkeeping id (s.forceUnlock id t) := by
  have owned : s.ownerId = id t := (book.owner t).mp held
  have moved := book.goto (t := t) (p := .notify) (book.away (by simp [here]) (by simp [here]))
    (book.awake (by simp [here])) (by simp)
  simp only [Kernel.forceUnlock, owned, if_true]
  refine { moved with owner := fun u => ?_ }
  have before := book.owner u
  have other := nonzero u
  rw [owned, distinct.eq_iff] at before
  simp only [Kernel.goto, set_apply]
  grind

/-- The first of the queue is woken and taken off the list. -/
theorem Bookkeeping.notifyOne (distinct : Function.Injective id) (book : Bookkeeping id s)
    : Bookkeeping id (s.notifyOne id) := by
  unfold Kernel.notifyOne
  cases queue : s.queue with
  | nil => exact book
  | cons w rest =>
      have woken : s.blocked w = true := (book.queued w).mp (by simp [queue])
      have nodup := book.nodup
      rw [queue, List.nodup_cons] at nodup
      simp only [unblockTask, woken, if_true]
      refine { book with queued := ?_, asleep := ?_, nodup := nodup.2, listed := ?_ } <;>
        intro u <;> simp only [set_apply, distinct.eq_iff]
      · have before := book.queued u
        rw [queue, List.mem_cons] at before
        grind
      · have before := book.asleep u
        grind
      · have before := book.listed u
        rw [queue, List.mem_cons] at before
        grind

end Events

/-- Every step keeps the books, by cases on the step. -/
theorem Step.bookkeeping (distinct : Function.Injective id) (nonzero : ∀ t, id t ≠ 0)
    (book : Bookkeeping id s) (step : Step id s s')
    : Bookkeeping id s' := by
  have away {t : Task} {p : Point} (here : s.point t = p) (quiet : p ≠ .check ∧ p ≠ .sleep)
      : s.runQueue ≠ some t :=
    book.away (here ▸ quiet.1) (here ▸ quiet.2)
  have awake {t : Task} {p : Point} (here : s.point t = p) (quiet : p ≠ .asleep)
      : s.blocked t = false :=
    book.awake (here ▸ quiet)
  cases step with
  | lock t here => exact book.goto (away here (by simp)) (awake here (by simp)) (by simp)
  | exchange t here free =>
      exact book.acquire distinct nonzero (away here (by simp)) (awake here (by simp)) free
  | exchangeRefused t here =>
      unfold exchangeFailed
      split <;> exact book.goto (away here (by simp)) (awake here (by simp)) (by simp)
  | lockRunQueue t here unlocked => exact book.lockRunQueue here unlocked
  | check t here => exact book.checkCondition here
  | block t here => exact book.blockCurrent distinct here
  | resume t here woken => exact book.goto (away here (by simp)) woken (by simp)
  | leave t here =>
      -- there is no event to cancel
      simp only [cancelEvents, book.unlisted (awake here (by simp)), Bool.false_eq_true, if_false]
      exact book.goto (away here (by simp)) (awake here (by simp)) (by simp)
  | tryLock t here free =>
      exact book.acquire distinct nonzero (away here (by simp)) (awake here (by simp)) free
  | tryLockFailed t here taken => exact book
  | unlock t here held => exact book.forceUnlock distinct nonzero here held
  | notify t here unlocked =>
      have point : (s.notifyOne id).point = s.point := by
        unfold Kernel.notifyOne unblockTask
        split
        · rfl
        · split <;> rfl
      have runQueue : (s.notifyOne id).runQueue = none := by
        unfold Kernel.notifyOne unblockTask
        split
        · exact unlocked
        · split <;> exact unlocked
      have notified := book.notifyOne distinct
      refine notified.goto (by simp [runQueue]) (notified.awake ?_) (by simp)
      simp [point, here]

-----------------------------------------------------------------------------------------
-- No lost wake-up
-----------------------------------------------------------------------------------------

/-- A task about to sleep still sees the mutex locked, or its last owner is yet to notify. -/
def Committed (s : Kernel Task) : Prop :=
  ∀ t, s.point t = .sleep → s.ownerId ≠ 0 ∨ ∃ u, s.point u = .notify

/-- While the mutex is free and tasks wait for it, some task will look after them. -/
def Attended (s : Kernel Task) : Prop :=
  s.ownerId = 0 → s.queue ≠ [] → ∃ u, s.Pending u

/-- The run-queue lock keeps a notifier out between a check and the sleep that follows it. -/
theorem Step.committed (nonzero : ∀ t, id t ≠ 0) (book : Bookkeeping id s)
    (committed : Committed s) (step : Step id s s')
    : Committed s' := by
  have holder := book.runQueue
  -- a task that moves between other points, and is no notifier before, disturbs nobody
  have moved {t : Task} {p : Point} (quiet : s.point t ≠ .notify) (awake : p ≠ .sleep)
      : Committed (s.goto t p) := by
    intro u aboutToSleep
    simp only [goto, set_apply] at aboutToSleep ⊢
    have asBefore := committed u
    grind
  cases step with
  | lock t here => exact moved (by simp [here]) (by decide)
  | exchange t here free => exact fun _ _ => .inl (nonzero t)
  | exchangeRefused t here =>
      unfold exchangeFailed
      split <;> exact moved (by simp [here]) (by decide)
  | lockRunQueue t here unlocked => exact moved (p := .check) (by simp [here]) (by decide)
  | check t here =>
      unfold checkCondition
      split
      · rename_i locked
        simp only [isLocked, bne_iff_ne, ne_eq] at locked
        exact fun _ _ => .inl locked
      · exact moved (p := .leave) (by simp [here]) (by decide)
  | block t here =>
      intro u aboutToSleep
      -- `t` holds the run queue, so no other task is about to sleep
      simp only [blockCurrent, goto, set_apply] at aboutToSleep
      have := holder t
      have := holder u
      grind
  | resume t here woken => exact moved (by simp [here]) (by decide)
  | leave t here =>
      have kept : Committed (s.goto t .exchange) := moved (by simp [here]) (by decide)
      unfold cancelEvents
      split <;> exact kept
  | tryLock t here free => exact fun _ _ => .inl (nonzero t)
  | tryLockFailed t here taken => exact committed
  | unlock t here held =>
      have owned : s.ownerId = id t := (book.owner t).mp held
      exact fun _ _ => .inr ⟨t, by simp [forceUnlock, owned, goto]⟩
  | notify t here unlocked =>
      intro u aboutToSleep
      -- the run queue is free, so no task is about to sleep
      have point : (s.notifyOne id).point = s.point := by
        unfold notifyOne unblockTask
        split
        · rfl
        · split <;> rfl
      simp only [goto, set_apply, point] at aboutToSleep
      have := holder u
      grind

/-- Every step leaves the waiters attended: its own task looks at the owner word again, or
wakes a waiter, or leaves the mutex locked; a task that goes to sleep leaves a notifier.
-/
theorem Step.attended (nonzero : ∀ t, id t ≠ 0) (book : Bookkeeping id s)
    (committed : Committed s) (attended : Attended s) (step : Step id s s')
    : Attended s' := by
  intro free waiting
  cases step with
  | lock t here => exact ⟨t, by simp [Pending, goto]⟩
  | exchange t here free' => exact absurd free (nonzero t)
  | exchangeRefused t here =>
      unfold exchangeFailed at free ⊢
      split at free
      · rename_i own
        exact absurd (own.symm.trans free) (nonzero t)
      · rename_i other
        exact ⟨t, by simp [Pending, goto, other]⟩
  | lockRunQueue t here unlocked => exact ⟨t, by simp [Pending, goto]⟩
  | check t here =>
      unfold checkCondition at free ⊢
      split at free
      · rename_i locked
        simp only [isLocked, bne_iff_ne, ne_eq] at locked
        exact absurd free locked
      · rename_i unlocked
        exact ⟨t, by simp [Pending, goto, unlocked]⟩
  | block t here =>
      rcases committed t here with locked | ⟨u, notifier⟩
      · exact absurd free locked
      · have other : u ≠ t := by
          rintro rfl
          simp [here] at notifier
        exact ⟨u, by simp [Pending, blockCurrent, goto, other, notifier]⟩
  | resume t here woken => exact ⟨t, by simp [Pending, goto]⟩
  | leave t here => exact ⟨t, by simp [Pending, goto]⟩
  | tryLock t here free' => exact absurd free (nonzero t)
  | tryLockFailed t here taken => exact attended free waiting
  | unlock t here held =>
      have owned : s.ownerId = id t := (book.owner t).mp held
      exact ⟨t, by simp [Pending, forceUnlock, goto, owned]⟩
  | notify t here unlocked =>
      unfold notifyOne at waiting ⊢
      cases queue : s.queue with
      | nil =>
          rw [queue] at waiting
          exact absurd queue waiting
      | cons w rest =>
          have blocked : s.blocked w = true := (book.queued w).mp (by simp [queue])
          have asleep := book.asleep w blocked
          have other : w ≠ t := by
            rintro rfl
            simp [here] at asleep
          refine ⟨w, ?_⟩
          simp [Pending, unblockTask, blocked, goto, other, asleep]

-----------------------------------------------------------------------------------------
-- Every run
-----------------------------------------------------------------------------------------

theorem Reachable.invariant (distinct : Function.Injective id) (nonzero : ∀ t, id t ≠ 0)
    (reachable : Reachable id s)
    : Bookkeeping id s ∧ Committed s ∧ Attended s := by
  refine Transition.Reachable.invariant (fun s => Bookkeeping id s ∧ Committed s ∧ Attended s)
    ?_ ?_ reachable
  · rintro s rfl
    refine ⟨⟨fun t => ?_, ?_, ?_, ?_, ?_, ?_, ?_⟩, ?_, ?_⟩
    · simpa [new] using (nonzero t).symm
    all_goals simp [new, Committed, Attended]
  · rintro s s' ⟨book, committed, attended⟩ step
    exact ⟨step.bookkeeping distinct nonzero book, step.committed nonzero book committed,
      step.attended nonzero book committed attended⟩

/-- In every run at most one task holds a guard, the assertion of `force_unlock` holds, and
whenever the mutex is free while a task is queued, some task is yet to notify the queue or
was woken, or never slept, and is yet to look at the owner word again.
-/
theorem Reachable.exclusive_and_attended (distinct : Function.Injective id)
    (nonzero : ∀ t, id t ≠ 0) (reachable : Reachable id s)
    : (∀ t u, s.guard t = true → s.guard u = true → t = u)
      ∧ (∀ t, s.point t ≠ .unlockPanic)
      ∧ (s.ownerId = 0 → ∀ t ∈ s.queue, ∃ u, s.Pending u) := by
  obtain ⟨book, -, attended⟩ := reachable.invariant distinct nonzero
  refine ⟨fun t u held held' => ?_, book.asserted, fun free t waiting => ?_⟩
  · exact distinct (((book.owner t).mp held).symm.trans ((book.owner u).mp held'))
  · exact attended free (List.ne_nil_of_mem waiting)

/-- Witness: task 1 sleeps while task 0 holds the mutex; task 0 releases it and is yet to
notify.
-/
theorem exclusive_and_attended_at_release
    : ∃ s : Kernel Nat, s.ownerId = 0 ∧ s.queue = [1] ∧ ∃ u, s.Pending u := by
  let id : Nat → Nat := (· + 1)
  have start : Reachable id new := .start rfl
  have locked := (start.next (.lock 0 rfl)).next (.exchange 0 rfl rfl)
  have refused := (locked.next (.lock 1 rfl)).next (.exchangeRefused 1 rfl)
  have slept := ((refused.next (.lockRunQueue 1 rfl rfl)).next (.check 1 rfl)).next (.block 1 rfl)
  have released := slept.next (.unlock 0 rfl rfl)
  have safe := @Reachable.exclusive_and_attended _ _ id _ (fun a b eq => Nat.succ.inj eq)
    (fun t => Nat.succ_ne_zero t) released
  exact ⟨_, rfl, rfl, safe.2.2 rfl 1 (List.mem_singleton.mpr rfl)⟩

end Kernel

end RCoreOS.Sync
