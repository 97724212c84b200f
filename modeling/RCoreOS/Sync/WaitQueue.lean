import RCoreOS.Lib.Transition
import Mathlib.Data.List.Nodup
import Mathlib.Logic.Function.Basic

/-! The wait queues and the timer list of the `sync` kernel under arbitrary interleavings. What
happens under the run-queue lock is one step; the reads of the flags, `cancel_events`, the
arming of an alarm and the removal of an expired event from the timer list are not under it
and are steps of their own.
-/

namespace RCoreOS.Sync

/-- The calls that put a task to sleep, with their wait queues and deadlines. -/
inductive WaitCall (Queue : Type) where
  | wait (queue : Queue)
  | waitUntil (queue : Queue)
  | waitTimeout (queue : Queue) (deadline : Nat)
  | waitTimeoutUntil (queue : Queue) (deadline : Nat)
  | sleepUntil (deadline : Nat)
deriving DecidableEq, Repr

namespace WaitCall

variable {Queue : Type}

def queue : WaitCall Queue → Option Queue
  | wait queue | waitUntil queue | waitTimeout queue _ | waitTimeoutUntil queue _ => some queue
  | sleepUntil _ => none

def deadline : WaitCall Queue → Option Nat
  | wait _ | waitUntil _ => none
  | waitTimeout _ deadline | waitTimeoutUntil _ deadline | sleepUntil deadline => some deadline

/-- Whether the call evaluates a condition before it blocks. -/
def hasCondition : WaitCall Queue → Bool
  | waitUntil _ | waitTimeoutUntil .. => true
  | wait _ | waitTimeout .. | sleepUntil _ => false

end WaitCall

/-- Where a task is in a call. From `cancelQueue` on the task carries what the call will return:
whether it has timed out.
-/
inductive WaitPoint where
  /-- Outside of all calls. -/
  | outside
  /-- Before `set_alarm_wakeup`. -/
  | arm
  /-- In `wait_timeout_until`, before comparing the time with the deadline. -/
  | look
  /-- Before taking the run-queue lock, and evaluating the condition, to block. -/
  | block
  /-- Inside `block_current` or `sleep_until`, switched out. -/
  | asleep
  /-- In `wait_timeout`, before reading whether the task is still in the wait queue. -/
  | read
  /-- In `cancel_events`, before `in_wait_queue`. -/
  | cancelQueue (timeout : Bool)
  /-- In `cancel_events`, before taking the task out of the queue. -/
  | unlist (timeout : Bool)
  /-- In `cancel_events`, before `in_timer_list`. -/
  | cancelTimer (timeout : Bool)
  /-- In `cancel_events`, before `cancel_alarm`. -/
  | disarm (timeout : Bool)
deriving DecidableEq, Repr

/-- What the call of a task on its way out returns. -/
def WaitPoint.returns : WaitPoint → Option Bool
  | cancelQueue timeout | unlist timeout | cancelTimer timeout | disarm timeout => some timeout
  | outside | arm | look | block | asleep | read => none

/-- The wait queues, the timer list and the flags, and where every task is. -/
structure WaitSystem (Task Queue : Type) where
  now : Nat
  queue : Queue → List Task
  /-- `TASK_IN_WAIT_QUEUE` -/
  inWaitQueue : Nat → Bool
  /-- `TIMER_LIST`, the deadlines and tasks of the wake-up events. -/
  timerList : List (Nat × Task)
  /-- `TASK_IN_TIME_LIST` -/
  inTimerList : Nat → Bool
  /-- Events that `check_events` has taken out of the timer list, before their callbacks. -/
  expired : List (Nat × Task)
  blocked : Task → Bool
  /-- The call that a task is in, or its last one. -/
  call : Task → WaitCall Queue
  point : Task → WaitPoint
  /-- History: in its present call, `notify_one` has taken an entry of the task out of a queue
  while the task was not blocked.
  -/
  credited : Task → Bool

/-- One atomic step of a task, of a notifier, of the timer interrupt or of a sender of signals. -/
inductive WaitEvent (Task Queue : Type) where
  | wait (t : Task) (queue : Queue)
  | waitUntil (t : Task) (queue : Queue)
  | waitTimeout (t : Task) (queue : Queue) (dur : Nat)
  | waitTimeoutUntil (t : Task) (queue : Queue) (dur : Nat)
  | setAlarm (t : Task)
  | look (t : Task)
  /-- The condition is found true. -/
  | meet (t : Task)
  /-- The condition, if there is one, is found false. -/
  | block (t : Task)
  | sleepUntil (t : Task) (deadline : Nat)
  | resume (t : Task)
  | read (t : Task)
  | cancelEvents (t : Task)
  | notifyOne (queue : Queue)
  /-- One turn of the loop of `notify_all`. -/
  | notifyAll (queue : Queue)
  | notifyTask (queue : Queue) (t : Task)
  /-- `expire_one` in `check_events`. -/
  | expire (event : Nat × Task)
  | callback (event : Nat × Task)
  | signal (t : Task)
  | tick (time : Nat)

namespace WaitSystem

variable {Task Queue : Type} [DecidableEq Task] [DecidableEq Queue] (id : Task → Nat)

/-- No task has made a call yet. -/
def new : WaitSystem Task Queue where
  now := 0
  queue := fun _ => []
  inWaitQueue := fun _ => false
  timerList := []
  inTimerList := fun _ => false
  expired := []
  blocked := fun _ => false
  call := fun _ => .sleepUntil 0
  point := fun _ => .outside
  credited := fun _ => false

def goto (s : WaitSystem Task Queue) (t : Task) (p : WaitPoint) : WaitSystem Task Queue :=
  { s with point := Function.update s.point t p }

/-- A task begins a call. -/
def enter (s : WaitSystem Task Queue) (t : Task) (call : WaitCall Queue) (p : WaitPoint)
    : WaitSystem Task Queue :=
  { s.goto t p with
    call := Function.update s.call t call
    credited := Function.update s.credited t false }

/-- `block_current` queues the task and switches to another one. -/
def blockCurrent (s : WaitSystem Task Queue) (t : Task) (queue : Queue)
    : WaitSystem Task Queue :=
  { s.goto t .asleep with
    blocked := Function.update s.blocked t true
    inWaitQueue := Function.update s.inWaitQueue (id t) true
    queue := Function.update s.queue queue (s.queue queue ++ [t]) }

def unblockTask (s : WaitSystem Task Queue) (t : Task) : WaitSystem Task Queue :=
  if s.blocked t then { s with blocked := Function.update s.blocked t false } else s

def setAlarmWakeup (s : WaitSystem Task Queue) (deadline : Nat) (t : Task)
    : WaitSystem Task Queue :=
  { s with
    inTimerList := Function.update s.inTimerList (id t) true
    timerList := (deadline, t) :: s.timerList }

def cancelAlarm (s : WaitSystem Task Queue) (t : Task) : WaitSystem Task Queue :=
  { s with
    inTimerList := Function.update s.inTimerList (id t) false
    timerList := s.timerList.filter (·.2 ≠ t) }

/-- The end of `sleep_until`, after its comparison of the deadline with the time. -/
def sleepUntil (s : WaitSystem Task Queue) (t : Task) (deadline : Nat)
    : WaitSystem Task Queue :=
  let s := (s.enter t (.sleepUntil deadline) .asleep).setAlarmWakeup id deadline t
  { s with blocked := Function.update s.blocked t true }

/-- A notifier has found the entry of a task in a queue. -/
def popTask (s : WaitSystem Task Queue) (queue : Queue) (t : Task) (rest : List Task)
    : WaitSystem Task Queue :=
  unblockTask { s with
    queue := Function.update s.queue queue rest
    inWaitQueue := Function.update s.inWaitQueue (id t) false } t

/-- Returns whether a task was taken out of the queue. -/
def notifyOne (s : WaitSystem Task Queue) (queue : Queue) : Bool × WaitSystem Task Queue :=
  match s.queue queue with
  | [] => (false, s)
  | t :: rest =>
      (true, { s.popTask id queue t rest with
        credited := if s.blocked t then s.credited else Function.update s.credited t true })

def notifyAll (s : WaitSystem Task Queue) (queue : Queue) : WaitSystem Task Queue :=
  match s.queue queue with
  | [] => s
  | t :: rest => s.popTask id queue t rest

def notifyTask (s : WaitSystem Task Queue) (queue : Queue) (t : Task)
    : Bool × WaitSystem Task Queue :=
  if t ∈ s.queue queue then (true, s.popTask id queue t ((s.queue queue).erase t))
  else (false, s)

/-- The callback of a wake-up event. -/
def callback (s : WaitSystem Task Queue) (event : Nat × Task) : WaitSystem Task Queue :=
  unblockTask { s with
    inTimerList := Function.update s.inTimerList (id event.2) false
    expired := s.expired.erase event } event.2

/-- Where a task goes on after it was woken. -/
def wakePoint : WaitCall Queue → WaitPoint
  | .wait _ => .cancelQueue false
  | .waitUntil _ => .block
  | .waitTimeout .. => .read
  | .waitTimeoutUntil .. => .look
  | .sleepUntil _ => .outside

/-- The entries of a task and its flag go in one step: once the entries are gone, only the task
itself sets or reads its flag.
-/
def unlist (s : WaitSystem Task Queue) (t : Task) (queue : Queue) : WaitSystem Task Queue :=
  { s with
    queue := Function.update s.queue queue ((s.queue queue).filter (· ≠ t))
    inWaitQueue := Function.update s.inWaitQueue (id t) false }

/-- `cancel_events`, step by step. -/
def cancelEvents (s : WaitSystem Task Queue) (t : Task) : Option (WaitSystem Task Queue) :=
  match s.point t, (s.call t).queue with
  | .cancelQueue timeout, some _ =>
      some (s.goto t (if s.inWaitQueue (id t) then .unlist timeout else .cancelTimer timeout))
  | .unlist timeout, some queue =>
      some ((s.unlist id t queue).goto t (.cancelTimer timeout))
  | .cancelTimer timeout, some _ =>
      some (s.goto t (if s.inTimerList (id t) then .disarm timeout else .outside))
  | .disarm _, some _ => some ((s.cancelAlarm id t).goto t .outside)
  | _, _ => none

/-- The state after an event that is possible. -/
def step (s : WaitSystem Task Queue) : WaitEvent Task Queue → Option (WaitSystem Task Queue)
  | .wait t queue =>
      if s.point t = .outside then some (s.enter t (.wait queue) .block) else none
  | .waitUntil t queue =>
      if s.point t = .outside then some (s.enter t (.waitUntil queue) .block) else none
  | .waitTimeout t queue dur =>
      if s.point t = .outside then some (s.enter t (.waitTimeout queue (s.now + dur)) .arm)
      else none
  | .waitTimeoutUntil t queue dur =>
      if s.point t = .outside then some (s.enter t (.waitTimeoutUntil queue (s.now + dur)) .arm)
      else none
  | .setAlarm t =>
      match s.point t, s.call t with
      | .arm, .waitTimeout _ deadline => some ((s.setAlarmWakeup id deadline t).goto t .block)
      | .arm, .waitTimeoutUntil _ deadline => some ((s.setAlarmWakeup id deadline t).goto t .look)
      | _, _ => none
  | .look t =>
      match s.point t, (s.call t).deadline with
      | .look, some deadline =>
          some (s.goto t (if s.now < deadline then .block else .cancelQueue true))
      | _, _ => none
  | .meet t =>
      if s.point t = .block ∧ (s.call t).hasCondition then some (s.goto t (.cancelQueue false))
      else none
  | .block t =>
      match s.point t, (s.call t).queue with
      | .block, some queue => some (s.blockCurrent id t queue)
      | _, _ => none
  | .sleepUntil t deadline =>
      if s.point t = .outside ∧ s.now < deadline then some (s.sleepUntil id t deadline) else none
  | .resume t =>
      if s.point t = .asleep ∧ s.blocked t = false then some (s.goto t (wakePoint (s.call t)))
      else none
  | .read t =>
      if s.point t = .read then some (s.goto t (.cancelQueue (s.inWaitQueue (id t)))) else none
  | .cancelEvents t => s.cancelEvents id t
  | .notifyOne queue => some (s.notifyOne id queue).2
  | .notifyAll queue => some (s.notifyAll id queue)
  | .notifyTask queue t => some (s.notifyTask id queue t).2
  | .expire event =>
      if event ∈ s.timerList ∧ event.1 ≤ s.now ∧ s.timerList.all (event.1 ≤ ·.1) then
        some { s with
          timerList := s.timerList.erase event
          expired := event :: s.expired }
      else none
  | .callback event => if event ∈ s.expired then some (s.callback id event) else none
  | .signal t => some (s.unblockTask t)
  | .tick time => if s.now ≤ time then some { s with now := time } else none

/-- The states of runs whose steps all meet a condition on the state before and the event. -/
abbrev Reachable (condition : WaitSystem Task Queue → WaitEvent Task Queue → Prop)
    (s : WaitSystem Task Queue) : Prop :=
  Transition.Reachable (· = new) (fun s s' => ∃ e, condition s e ∧ s.step id e = some s') s

-----------------------------------------------------------------------------------------
-- What the steps change
-----------------------------------------------------------------------------------------

variable {id} {s s' : WaitSystem Task Queue} {t : Task}

omit [DecidableEq Queue] in
theorem unblockTask_eq (s : WaitSystem Task Queue) (t : Task)
    : s.unblockTask t = { s with blocked := Function.update s.blocked t false } := by
  unfold unblockTask
  split
  · rfl
  · rename_i awake
    rw [Bool.not_eq_true] at awake
    rw [← awake, Function.update_eq_self]

theorem cancelEvents_cases (stepped : s.cancelEvents id t = some s')
    : (∃ timeout, s.point t = .cancelQueue timeout
        ∧ s' = s.goto t (if s.inWaitQueue (id t) then .unlist timeout else .cancelTimer timeout))
      ∨ (∃ timeout queue, s.point t = .unlist timeout ∧ (s.call t).queue = some queue
        ∧ s' = (s.unlist id t queue).goto t (.cancelTimer timeout))
      ∨ (∃ timeout, s.point t = .cancelTimer timeout
        ∧ s' = s.goto t (if s.inTimerList (id t) then .disarm timeout else .outside))
      ∨ ∃ timeout, s.point t = .disarm timeout ∧ s' = (s.cancelAlarm id t).goto t .outside := by
  unfold cancelEvents at stepped
  split at stepped
  · rename_i timeout _ here _
    exact .inl ⟨timeout, here, by simpa using stepped.symm⟩
  · rename_i timeout queue here listed
    exact .inr (.inl ⟨timeout, queue, here, listed, by simpa using stepped.symm⟩)
  · rename_i timeout _ here _
    exact .inr (.inr (.inl ⟨timeout, here, by simpa using stepped.symm⟩))
  · rename_i timeout _ here _
    exact .inr (.inr (.inr ⟨timeout, here, by simpa using stepped.symm⟩))
  · cases stepped

end WaitSystem

end RCoreOS.Sync
