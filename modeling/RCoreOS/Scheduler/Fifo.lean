import RCoreOS.LinkedList.UnsafeList
import RCoreOS.Scheduler.RoundRobin

/-! The FIFO scheduler keeps its tasks in an intrusive list. With the states in which the run queue
keeps the tasks, no task is put into the list twice, so that the scheduler is a plain queue.
-/

namespace RCoreOS.Scheduler

open CircularList LinkedList Transition

/-- The scheduler with the links of all task objects, and the states in which the run queue keeps
them.
-/
structure FifoScheduler (Task : Type) where
  readyQueue : UnsafeList Task
  links : Memory Task
  state : Task → TaskState

namespace FifoScheduler

open RRScheduler (Event)

variable {Task : Type} [DecidableEq Task]

def new : FifoScheduler Task where
  readyQueue := .new
  links _ := none
  state _ := .new

/-- The ready queue after an operation on its list. -/
def setQueue (s : FifoScheduler Task) (result : Option (UnsafeList Task × Memory Task))
    : Option (FifoScheduler Task) :=
  result.map fun (readyQueue, links) => { s with readyQueue, links }

def addTask (s : FifoScheduler Task) (t : Task) : Option (FifoScheduler Task) :=
  s.setQueue (s.readyQueue.pushBack s.links t)

def removeTask (s : FifoScheduler Task) (t : Task) : Option (FifoScheduler Task) :=
  s.setQueue (s.readyQueue.remove s.links t)

/-- The picked task, if there is one, and the scheduler that is left. -/
def pickNextTask (s : FifoScheduler Task) : Option (Option Task × FifoScheduler Task) :=
  match s.readyQueue.front with
  | none => some (none, s)
  | some t => (s.setQueue (s.readyQueue.remove s.links t)).map fun s => (some t, s)

def putPrevTask (s : FifoScheduler Task) (prev : Task) (_preempt : Bool)
    : Option (FifoScheduler Task) :=
  s.setQueue (s.readyQueue.pushBack s.links prev)

def taskTick (_s : FifoScheduler Task) (_current : Task) : Bool :=
  false

def setPriority (_s : FifoScheduler Task) (_task : Task) (_prio : Int64) : Bool :=
  false

def setState (s : FifoScheduler Task) (t : Task) (state : TaskState) : FifoScheduler Task :=
  { s with state := Function.update s.state t state }

/-- What the run queue does with its scheduler. A tick leaves it alone. -/
def step (s : FifoScheduler Task) : Event Task → Option (FifoScheduler Task)
  | .add t => (s.setState t .ready).addTask t
  | .unblock t => (s.setState t .ready).addTask t
  | .pick t => do
      let (next, s) ← s.pickNextTask
      if next = some t then some (s.setState t .running) else none
  | .tick _ => some s
  | .putPrev t preempt => (s.setState t .ready).putPrevTask t preempt
  | .block t => some (s.setState t .blocked)
  | .exit t => some (s.setState t .exited)
  | .remove t => (s.setState t .exited).removeTask t

end FifoScheduler

-----------------------------------------------------------------------------------------
-- The plain queue
-----------------------------------------------------------------------------------------

/-- What the scheduler is for: the ready tasks in the order in which they became ready. -/
structure PlainQueue (Task : Type) where
  queue : List Task
  state : Task → TaskState

namespace PlainQueue

open RRScheduler (Event)

variable {Task : Type} [DecidableEq Task]

def new : PlainQueue Task where
  queue := []
  state _ := .new

/-- What the run queue may do: it adds new tasks and blocked ones, puts back running ones and
removes ready ones, and the task that it picks is the first one of the queue.
-/
def Allowed (p : PlainQueue Task) : Event Task → Prop
  | .add t => p.state t = .new
  | .unblock t => p.state t = .blocked
  | .pick t => p.queue.head? = some t
  | .tick t => p.state t = .running
  | .putPrev t _ => p.state t = .running
  | .block t => p.state t = .running
  | .exit t => p.state t = .running
  | .remove t => p.state t = .ready

def describe (p : PlainQueue Task) : Event Task → PlainQueue Task
  | .add t => ⟨p.queue ++ [t], Function.update p.state t .ready⟩
  | .unblock t => ⟨p.queue ++ [t], Function.update p.state t .ready⟩
  | .pick t => ⟨p.queue.tail, Function.update p.state t .running⟩
  | .tick _ => p
  | .putPrev t _ => ⟨p.queue ++ [t], Function.update p.state t .ready⟩
  | .block t => ⟨p.queue, Function.update p.state t .blocked⟩
  | .exit t => ⟨p.queue, Function.update p.state t .exited⟩
  | .remove t => ⟨p.queue.erase t, Function.update p.state t .exited⟩

instance (p : PlainQueue Task) : (event : Event Task) → Decidable (p.Allowed event)
  | .add t => inferInstanceAs (Decidable (p.state t = .new))
  | .unblock t => inferInstanceAs (Decidable (p.state t = .blocked))
  | .pick t => inferInstanceAs (Decidable (p.queue.head? = some t))
  | .tick t => inferInstanceAs (Decidable (p.state t = .running))
  | .putPrev t _ => inferInstanceAs (Decidable (p.state t = .running))
  | .block t => inferInstanceAs (Decidable (p.state t = .running))
  | .exit t => inferInstanceAs (Decidable (p.state t = .running))
  | .remove t => inferInstanceAs (Decidable (p.state t = .ready))

/-- The task that an event puts into the queue. -/
def queuedBy : Event Task → Option Task
  | .add t => some t
  | .unblock t => some t
  | .putPrev t _ => some t
  | _ => none

/-- The task that an event picks. -/
def pickedBy : Event Task → Option Task
  | .pick t => some t
  | _ => none

/-- The task that an event removes before it was picked. -/
def removedBy : Event Task → Option Task
  | .remove t => some t
  | _ => none

-----------------------------------------------------------------------------------------
-- First in, first out
-----------------------------------------------------------------------------------------

theorem filterMap_cons_toList {α β : Type} (f : α → Option β) (a : α) (rest : List α)
    : (a :: rest).filterMap f = (f a).toList ++ rest.filterMap f := by
  cases here : f a <;> simp [here]

/-- One event takes the task that it picks from the front and puts the one that it queues at the
end.
-/
theorem describe_queue {p : PlainQueue Task} {event : Event Task} (allowed : p.Allowed event)
    : ((pickedBy event).toList ++ (p.describe event).queue).Sublist
        (p.queue ++ (queuedBy event).toList)
      ∧ (removedBy event = none → (pickedBy event).toList ++ (p.describe event).queue
          = p.queue ++ (queuedBy event).toList) := by
  cases event with
  | pick t =>
      obtain ⟨rest, isFirst⟩ := List.head?_eq_some_iff.mp allowed
      simp [pickedBy, queuedBy, describe, isFirst]
  | remove t => simp [pickedBy, queuedBy, removedBy, describe, List.erase_sublist]
  | _ => simp [pickedBy, queuedBy, describe]

/-- The tasks that were queued are those that were picked and then those that still are queued,
in this order, but for those that were removed. By induction on the events.
-/
theorem picked_queue {p : PlainQueue Task} {events : List (Event Task)}
    (allowed : Along (fun p event => some (describe p event)) Allowed p events)
    : (events.filterMap pickedBy ++ (events.foldl describe p).queue).Sublist
        (p.queue ++ events.filterMap queuedBy)
      ∧ (events.filterMap removedBy = []
        → events.filterMap pickedBy ++ (events.foldl describe p).queue
          = p.queue ++ events.filterMap queuedBy) := by
  induction events generalizing p with
  | nil => simp
  | cons event rest ih =>
      obtain ⟨sublist, equal⟩ := describe_queue allowed.1
      obtain ⟨sublists, equals⟩ := ih (allowed.2 _ rfl)
      rw [filterMap_cons_toList, filterMap_cons_toList, List.foldl_cons, List.append_assoc,
        ← List.append_assoc p.queue]
      refine ⟨?_, fun kept => ?_⟩
      · refine (sublists.append_left _).trans ?_
        rw [← List.append_assoc]
        exact sublist.append_right _
      · rw [filterMap_cons_toList, List.append_eq_nil_iff] at kept
        rw [equals kept.2, ← List.append_assoc, equal (Option.toList_eq_nil_iff.mp kept.1)]

end PlainQueue

-----------------------------------------------------------------------------------------
-- The scheduler is the plain queue
-----------------------------------------------------------------------------------------

namespace FifoScheduler

open RRScheduler (Event)

variable {Task : Type} [DecidableEq Task] {s : FifoScheduler Task} {p : PlainQueue Task} {t : Task}

/-- The intrusive list holds the tasks of the plain queue, which are the ready ones. -/
structure Refines (s : FifoScheduler Task) (p : PlainQueue Task) : Prop where
  list : s.readyQueue.Represents s.links p.queue
  state : s.state = p.state
  ready : ∀ t, t ∈ p.queue ↔ p.state t = .ready

omit [DecidableEq Task] in
theorem refines_new : Refines (new : FifoScheduler Task) .new where
  list := UnsafeList.represents_new _
  state := rfl
  ready t := by simp [PlainQueue.new]

/-- A task that is not ready is put at the end. -/
theorem Refines.enqueue (refines : s.Refines p) (unready : p.state t ≠ .ready)
    : ∃ s', (s.setState t .ready).setQueue (s.readyQueue.pushBack s.links t) = some s'
      ∧ s'.Refines ⟨p.queue ++ [t], Function.update p.state t .ready⟩ := by
  have fresh : t ∉ p.queue := fun member => unready ((refines.ready t).mp member)
  obtain ⟨readyQueue, links, done, list, -⟩ := refines.list.pushBack fresh
  rw [done]
  refine ⟨_, rfl, list, ?_, fun u => ?_⟩
  · exact congrArg (Function.update · t .ready) refines.state
  · by_cases same : u = t
    · simp [same]
    · simp [same, refines.ready]

/-- A ready task is taken out of the list. -/
theorem Refines.dequeue (refines : s.Refines p) (member : t ∈ p.queue) {state : TaskState}
    (unready : state ≠ .ready)
    : ∃ readyQueue links, s.readyQueue.remove s.links t = some (readyQueue, links)
      ∧ Refines ⟨readyQueue, links, Function.update s.state t state⟩
        ⟨p.queue.erase t, Function.update p.state t state⟩ := by
  have list := refines.list
  have distinct := list.distinct
  obtain ⟨before, behind, whole, notBefore⟩ := UnsafeList.split_at distinct member
  have erased := UnsafeList.erase_split whole notBefore
  rw [whole] at list
  obtain ⟨readyQueue, links, done, list, -⟩ := list.remove
  refine ⟨readyQueue, links, done, erased ▸ list, ?_, fun u => ?_⟩
  · exact congrArg (Function.update · t state) refines.state
  · rw [distinct.mem_erase_iff]
    by_cases same : u = t
    · simp [same, unready]
    · simp [same, refines.ready]

/-- A change of the state of a task that neither was nor becomes ready. -/
theorem Refines.setState (refines : s.Refines p) {state : TaskState} (unready : p.state t ≠ .ready)
    (stays : state ≠ .ready)
    : (s.setState t state).Refines ⟨p.queue, Function.update p.state t state⟩ where
  list := refines.list
  state := by rw [FifoScheduler.setState, refines.state]
  ready u := by
    by_cases same : u = t
    · simp [same, stays, refines.ready, unready]
    · simp [same, refines.ready]

theorem Refines.step (refines : s.Refines p) {event : Event Task} (allowed : p.Allowed event)
    : ∃ s', s.step event = some s' ∧ s'.Refines (p.describe event) := by
  cases event with
  | add t => exact refines.enqueue (by simp [show p.state t = .new from allowed])
  | unblock t => exact refines.enqueue (by simp [show p.state t = .blocked from allowed])
  | pick t =>
      obtain ⟨rest, isFirst⟩ := List.head?_eq_some_iff.mp allowed
      have member : t ∈ p.queue := by simp [isFirst]
      obtain ⟨readyQueue, links, done, refined⟩ :=
        refines.dequeue member (show TaskState.running ≠ .ready by decide)
      have front : s.readyQueue.front = some t := refines.list.front_eq.trans allowed
      rw [isFirst, List.erase_cons_head] at refined
      refine ⟨⟨readyQueue, links, Function.update s.state t .running⟩, ?_, ?_⟩
      · simp [FifoScheduler.step, pickNextTask, front, setQueue, done, FifoScheduler.setState]
      · rw [PlainQueue.describe, isFirst]
        exact refined
  | tick t => exact ⟨s, rfl, refines⟩
  | putPrev t preempt => exact refines.enqueue (by simp [show p.state t = .running from allowed])
  | block t =>
      exact ⟨_, rfl, refines.setState (by simp [show p.state t = .running from allowed])
        (by decide)⟩
  | exit t =>
      exact ⟨_, rfl, refines.setState (by simp [show p.state t = .running from allowed])
        (by decide)⟩
  | remove t =>
      have member : t ∈ p.queue := (refines.ready t).mpr allowed
      obtain ⟨readyQueue, links, done, refined⟩ :=
        refines.dequeue member (show TaskState.exited ≠ .ready by decide)
      refine ⟨_, ?_, refined⟩
      simp [FifoScheduler.step, removeTask, FifoScheduler.setState, setQueue, done]

/-- In every run in which the run queue does what it may do, all operations on the intrusive list
are defined, and the scheduler is the plain queue: tasks are picked in the order in which they
were queued.
-/
theorem run_fifo {events : List (Event Task)}
    (allowed : Along (fun p event => some (PlainQueue.describe p event)) PlainQueue.Allowed
      .new events)
    : ∃ s queue, events.foldlM step (new : FifoScheduler Task) = some s
      ∧ s.readyQueue.Represents s.links queue ∧ (∀ t, t ∈ queue ↔ s.state t = .ready)
      ∧ (events.filterMap PlainQueue.pickedBy ++ queue).Sublist
        (events.filterMap PlainQueue.queuedBy)
      ∧ (events.filterMap PlainQueue.removedBy = []
        → events.filterMap PlainQueue.pickedBy ++ queue
          = events.filterMap PlainQueue.queuedBy) := by
  have simulated : ∀ (s : FifoScheduler Task) p event, s.Refines p → p.Allowed event
      → ∃ s', s.step event = some s' ∧ s'.Refines (p.describe event) :=
    fun _ _ _ refines allowed => refines.step allowed
  obtain ⟨s, done, refines⟩ := Along.simulates Refines simulated allowed refines_new
  refine ⟨s, _, done, refines.list, fun t => ?_, PlainQueue.picked_queue allowed⟩
  rw [refines.state]
  exact refines.ready t

/-- Two tasks that take turns until one of them blocks, and a third one that is removed. -/
def twoTurns : List (Event Nat) :=
  [.add 1, .add 2, .add 3, .pick 1, .putPrev 1 true, .pick 2, .remove 3, .block 2, .pick 1,
    .unblock 2, .tick 1, .exit 1]

theorem run_fifo_twoTurns
    : ∃ s queue, twoTurns.foldlM step (new : FifoScheduler Nat) = some s
      ∧ s.readyQueue.Represents s.links queue ∧ (∀ t, t ∈ queue ↔ s.state t = .ready)
      ∧ (twoTurns.filterMap PlainQueue.pickedBy ++ queue).Sublist
        (twoTurns.filterMap PlainQueue.queuedBy)
      ∧ (twoTurns.filterMap PlainQueue.removedBy = []
        → twoTurns.filterMap PlainQueue.pickedBy ++ queue
          = twoTurns.filterMap PlainQueue.queuedBy) :=
  run_fifo (by decide)

end FifoScheduler

end RCoreOS.Scheduler
