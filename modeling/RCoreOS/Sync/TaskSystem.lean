import RCoreOS.Lib.SharedOwnership
import RCoreOS.Lib.Transition
import RCoreOS.Scheduler.Fifo

/-! The run queue of the `sync` kernel on one CPU with its FIFO scheduler, and all references to
tasks: those in the queues, the timer list and `EXITED_TASKS`, that of the CPU to the current
task, and those that handles and local variables hold.
-/

namespace RCoreOS.Sync

open Scheduler (TaskState)

/-- The tasks that the kernel makes when it starts. -/
structure KernelTasks (Task : Type) where
  idle : Task
  main : Task
  gc : Task
  idle_ne_main : idle ≠ main
  idle_ne_gc : idle ≠ gc
  main_ne_gc : main ≠ gc

/-- The wait queues of the kernel. -/
inductive QueueId (Task : Type) where
  /-- `WAIT_FOR_EXIT`, in which the `gc` task waits. -/
  | waitForExit
  /-- The queue of those who wait for a task to exit. -/
  | exitOf (task : Task)
  | other (n : Nat)
deriving DecidableEq, Repr

/-- The states of the tasks, and where the references to them are. -/
structure TaskSystem (Task : Type) where
  /-- The strong counts. A task whose count goes to zero is freed. -/
  strongCount : Task → Nat
  state : Task → TaskState
  current : Task
  readyQueue : List Task
  /-- The entries of all wait queues, the oldest first. -/
  waitQueues : List (QueueId Task × Task)
  /-- The tasks that have a queue in `WAIT_FOR_TASK_EXITS`. -/
  waitForTaskExits : Task → Bool
  /-- `TIMER_LIST`, the deadlines and tasks of the wake-up events. -/
  timerList : List (Nat × Task)
  /-- Events that `check_events` has taken out of the timer list, before their callbacks. -/
  expired : List (Nat × Task)
  /-- `EXITED_TASKS` -/
  exitedTasks : List Task
  /-- The task that `gc_entry` has popped and not yet looked at. -/
  collected : Option Task
  /-- The references of `TID2TASK`, of join handles and of local variables. -/
  handles : List Task

/-- What the tasks, the timer interrupt and the holders of references do, in any order. -/
inductive TaskEvent (Task : Type) where
  | spawn (t : Task)
  | yieldCurrent
  | preemptResched
  | exitCurrent
  | removeTask (t : Task)
  | blockCurrent (queue : QueueId Task)
  | sleepUntil (deadline now : Nat)
  | setAlarmWakeup (deadline : Nat)
  /-- The current task takes its entries out of a wait queue. -/
  | leaveQueue (queue : QueueId Task)
  | cancelAlarm
  | notifyOne (queue : QueueId Task)
  | notifyAll (queue : QueueId Task)
  | notifyTask (queue : QueueId Task) (t : Task)
  /-- `expire_one` in `check_events`. -/
  | expire (event : Nat × Task) (now : Nat)
  | callback (event : Nat × Task)
  /-- The end of `send_signal_to_thread`, which has a reference to the task. -/
  | signal (t : Task)
  | cloneRef (t : Task)
  | dropRef (t : Task)
  /-- `gc_entry` pops an exited task. -/
  | collect
  /-- `gc_entry` frees the task that it has popped, or puts it back. -/
  | release
  /-- `recycle_user_process` clears `EXITED_TASKS`. -/
  | clearExited
deriving Repr

namespace TaskSystem

variable {Task : Type} [DecidableEq Task] (k : KernelTasks Task)

/-- `init_kernel_task`: the main task runs, `gc` is ready, and `TID2TASK` has the idle task. -/
def init : TaskSystem Task where
  strongCount t := if t = k.idle then 2 else if t = k.main ∨ t = k.gc then 1 else 0
  state t :=
    if t = k.idle then .ready else if t = k.main then .running
    else if t = k.gc then .ready else .new
  current := k.main
  readyQueue := [k.gc]
  waitQueues := []
  waitForTaskExits t := t = k.main
  timerList := []
  expired := []
  exitedTasks := []
  collected := none
  handles := [k.idle]

def setState (s : TaskSystem Task) (t : Task) (state : TaskState) : TaskSystem Task :=
  { s with state := Function.update s.state t state }

def clone (s : TaskSystem Task) (t : Task) : TaskSystem Task :=
  { s with strongCount := SharedOwnership.clone s.strongCount t }

def drop (s : TaskSystem Task) (t : Task) : TaskSystem Task :=
  { s with strongCount := SharedOwnership.drop s.strongCount t }

def dropAll (s : TaskSystem Task) (refs : List Task) : TaskSystem Task :=
  { s with strongCount := SharedOwnership.dropAll s.strongCount refs }

-----------------------------------------------------------------------------------------
-- The run queue
-----------------------------------------------------------------------------------------

/-- Takes over the reference that the caller gives. -/
def addTask (s : TaskSystem Task) (task : Task) : Option (TaskSystem Task) := do
  guard (s.state task = .ready)
  some { s with readyQueue := s.readyQueue ++ [task] }

/-- Takes over the reference that the caller gives, and drops it if the task is not blocked. -/
def unblockTask (s : TaskSystem Task) (task : Task) : TaskSystem Task :=
  if s.state task = .blocked then
    { s.setState task .ready with readyQueue := s.readyQueue ++ [task] }
  else s.drop task

/-- What the loop of `resched` ends with: the task that it takes, or for want of one the task that
it has seen before and drops, and the ready queue that is left.
-/
structure Picked (Task : Type) where
  next : Option Task
  lost : Option Task
  readyQueue : List Task

/-- The loop of `resched`, with the tasks that it has not seen yet and those that it has put back.
A popped task that it has put back before is not put back once more.
-/
def pickNext (mayRun : Task → Bool) : List Task → List Task → Picked Task
  | [], [] => ⟨none, none, []⟩
  | [], task :: seen => ⟨none, some task, seen⟩
  | task :: rest, seen =>
      if task ∈ seen then ⟨none, some task, rest ++ seen⟩
      else if mayRun task then ⟨some task, none, rest ++ seen⟩
      else pickNext mayRun rest (seen ++ [task])

/-- Takes over the reference to the next task, which becomes that of the CPU. -/
def switchTo (s : TaskSystem Task) (next : Task) : Option (TaskSystem Task) :=
  let s := s.setState next .running
  if s.current = next then some (s.drop next)
  else do
    guard (1 < s.strongCount s.current)
    guard (1 ≤ s.strongCount next)
    some { s.drop s.current with current := next }

/-- The begin of `resched`: a running task becomes ready, and the idle task is not queued. -/
def putPrev (s : TaskSystem Task) : TaskSystem Task :=
  let prev := s.current
  if s.state prev = .running then
    let s := s.setState prev .ready
    if prev = k.idle then s
    else { s.clone prev with readyQueue := s.readyQueue ++ [prev] }
  else s

variable (mayRun : Task → Bool)

def resched (s : TaskSystem Task) : Option (TaskSystem Task) :=
  let s := s.putPrev k
  let picked := pickNext mayRun s.readyQueue []
  let s := { s.dropAll picked.lost.toList with readyQueue := picked.readyQueue }
  match picked.next with
  | some next => s.switchTo next
  | none => (s.clone k.idle).switchTo k.idle

def yieldCurrent (s : TaskSystem Task) : Option (TaskSystem Task) := do
  guard (s.state s.current = .running)
  s.resched k mayRun

/-- The current task may be preempted. -/
def preemptResched (s : TaskSystem Task) : Option (TaskSystem Task) := do
  guard (s.state s.current = .running)
  s.resched k mayRun

/-- The oldest entry of a wait queue, and the system without it. -/
def popFront (s : TaskSystem Task) (queue : QueueId Task) : Option (Task × TaskSystem Task) :=
  (s.waitQueues.find? (·.1 = queue)).map fun entry =>
    (entry.2, { s with waitQueues := s.waitQueues.erase entry })

def notifyOneLocked (s : TaskSystem Task) (queue : QueueId Task) : TaskSystem Task :=
  match s.popFront queue with
  | some (task, s) => s.unblockTask task
  | none => s

/-- The loop pops the entries of the queue one after the other. -/
def notifyAllLocked (s : TaskSystem Task) (queue : QueueId Task) : TaskSystem Task :=
  ((s.waitQueues.filter (·.1 = queue)).map Prod.snd).foldl unblockTask
    { s with waitQueues := s.waitQueues.filter (·.1 ≠ queue) }

def notifyWaitForExit (s : TaskSystem Task) (task : Task) : TaskSystem Task :=
  if s.waitForTaskExits task then
    { s with waitForTaskExits := Function.update s.waitForTaskExits task false }.notifyAllLocked
      (.exitOf task)
  else s

/-- `EXITED_TASKS` gets a reference of its own. -/
def pushExited (s : TaskSystem Task) (task : Task) : TaskSystem Task :=
  { s.clone task with exitedTasks := s.exitedTasks ++ [task] }

/-- The main task ends the system instead, which is not modelled. -/
def exitCurrent (s : TaskSystem Task) : Option (TaskSystem Task) := do
  let curr := s.current
  guard (s.state curr = .running)
  guard (curr ≠ k.idle)
  let s := ((s.setState curr .exited).notifyWaitForExit curr).pushExited curr
  (s.notifyOneLocked .waitForExit).resched k mayRun

def removeTask (s : TaskSystem Task) (task : Task) : Option (TaskSystem Task) := do
  guard (s.state task ≠ .running)
  guard (task ≠ k.idle)
  if s.state task = .ready then
    let s := (s.setState task .exited).pushExited task
    some { s.drop task with readyQueue := s.readyQueue.erase task }
  else some s

def blockCurrent (s : TaskSystem Task) (queue : QueueId Task) : Option (TaskSystem Task) := do
  let curr := s.current
  guard (s.state curr = .running)
  guard (curr ≠ k.idle)
  let s := s.setState curr .blocked
  let s := { s.clone curr with waitQueues := s.waitQueues ++ [(queue, curr)] }
  s.resched k mayRun

def setAlarmWakeup (s : TaskSystem Task) (deadline : Nat) (task : Task) : TaskSystem Task :=
  { s with timerList := (deadline, task) :: s.timerList }

def sleepUntil (s : TaskSystem Task) (deadline now : Nat) : Option (TaskSystem Task) := do
  let curr := s.current
  guard (s.state curr = .running)
  guard (curr ≠ k.idle)
  if now < deadline then
    let s := ((s.clone curr).setAlarmWakeup deadline curr).setState curr .blocked
    s.resched k mayRun
  else some s

-----------------------------------------------------------------------------------------
-- The wait queues, the timers and the collector
-----------------------------------------------------------------------------------------

def leaveQueue (s : TaskSystem Task) (queue : QueueId Task) : TaskSystem Task :=
  { s.dropAll ((s.waitQueues.filter (· = (queue, s.current))).map Prod.snd) with
    waitQueues := s.waitQueues.filter (· ≠ (queue, s.current)) }

def cancelAlarm (s : TaskSystem Task) : TaskSystem Task :=
  { s.dropAll ((s.timerList.filter (·.2 = s.current)).map Prod.snd) with
    timerList := s.timerList.filter (·.2 ≠ s.current) }

def notifyTask (s : TaskSystem Task) (queue : QueueId Task) (task : Task) : TaskSystem Task :=
  if (queue, task) ∈ s.waitQueues then
    { s with waitQueues := s.waitQueues.erase (queue, task) }.unblockTask task
  else s

def callback (s : TaskSystem Task) (event : Nat × Task) : TaskSystem Task :=
  { s with expired := s.expired.erase event }.unblockTask event.2

def spawn (s : TaskSystem Task) (t : Task) : Option (TaskSystem Task) :=
  let s := (s.setState t .ready).clone t
  ({ s with handles := t :: s.handles }.clone t).addTask t

def collect (s : TaskSystem Task) : TaskSystem Task :=
  match s.exitedTasks with
  | [] => s
  | t :: rest => { s with exitedTasks := rest, collected := some t }

def release (s : TaskSystem Task) : TaskSystem Task :=
  match s.collected with
  | none => s
  | some t =>
      let s := { s with collected := none }
      if s.strongCount t = 1 then s.drop t else { s with exitedTasks := s.exitedTasks ++ [t] }

/-- One turn of the loop over the exited tasks for each that there was at its begin. -/
def gcPass (s : TaskSystem Task) : TaskSystem Task :=
  (fun s => s.collect.release)^[s.exitedTasks.length] s

/-- The state after an event; `none` if an assertion fails. -/
def step (s : TaskSystem Task) : TaskEvent Task → Option (TaskSystem Task)
  | .spawn t => s.spawn t
  | .yieldCurrent => s.yieldCurrent k mayRun
  | .preemptResched => s.preemptResched k mayRun
  | .exitCurrent => s.exitCurrent k mayRun
  | .removeTask t => s.removeTask k t
  | .blockCurrent queue => s.blockCurrent k mayRun queue
  | .sleepUntil deadline now => s.sleepUntil k mayRun deadline now
  | .setAlarmWakeup deadline => some ((s.clone s.current).setAlarmWakeup deadline s.current)
  | .leaveQueue queue => some (s.leaveQueue queue)
  | .cancelAlarm => some s.cancelAlarm
  | .notifyOne queue => some (s.notifyOneLocked queue)
  | .notifyAll queue => some (s.notifyAllLocked queue)
  | .notifyTask queue t => some (s.notifyTask queue t)
  | .expire event _ =>
      some { s with timerList := s.timerList.erase event, expired := event :: s.expired }
  | .callback event => some (s.callback event)
  | .signal t => some ({ s with handles := s.handles.erase t }.unblockTask t)
  | .cloneRef t => some { s.clone t with handles := t :: s.handles }
  | .dropRef t => some { s.drop t with handles := s.handles.erase t }
  | .collect => some s.collect
  | .release => some s.release
  | .clearExited => some { s.dropAll s.exitedTasks with exitedTasks := [] }

/-- What the callers see to: the idle task only yields, the main task does not exit, only the `gc`
task collects, and whoever passes or drops a reference has it.
-/
def Allowed (s : TaskSystem Task) : TaskEvent Task → Prop
  | .spawn t => s.state t = .new
  | .exitCurrent => s.current ≠ k.idle ∧ s.current ≠ k.main
  | .removeTask t => t ∈ s.handles ∧ s.state t ≠ .running ∧ t ≠ k.idle
  | .blockCurrent _ | .sleepUntil .. => s.current ≠ k.idle
  | .expire event now =>
      event ∈ s.timerList ∧ event.1 ≤ now ∧ ∀ other ∈ s.timerList, event.1 ≤ other.1
  | .callback event => event ∈ s.expired
  | .signal t | .dropRef t => t ∈ s.handles
  | .cloneRef t => 0 < s.strongCount t
  | .collect => s.current = k.gc ∧ s.collected = none
  | .release => s.current = k.gc
  | .yieldCurrent | .preemptResched | .setAlarmWakeup _ | .leaveQueue _ | .cancelAlarm
  | .notifyOne _ | .notifyAll _ | .notifyTask .. | .clearExited => True

instance (s : TaskSystem Task) : (e : TaskEvent Task) → Decidable (s.Allowed k e)
  | .spawn t => inferInstanceAs (Decidable (s.state t = .new))
  | .exitCurrent => inferInstanceAs (Decidable (s.current ≠ k.idle ∧ s.current ≠ k.main))
  | .removeTask t =>
      inferInstanceAs (Decidable (t ∈ s.handles ∧ s.state t ≠ .running ∧ t ≠ k.idle))
  | .blockCurrent _ | .sleepUntil .. => inferInstanceAs (Decidable (s.current ≠ k.idle))
  | .expire event now =>
      inferInstanceAs (Decidable (event ∈ s.timerList ∧ event.1 ≤ now
        ∧ ∀ other ∈ s.timerList, event.1 ≤ other.1))
  | .callback event => inferInstanceAs (Decidable (event ∈ s.expired))
  | .signal t | .dropRef t => inferInstanceAs (Decidable (t ∈ s.handles))
  | .cloneRef t => inferInstanceAs (Decidable (0 < s.strongCount t))
  | .collect => inferInstanceAs (Decidable (s.current = k.gc ∧ s.collected = none))
  | .release => inferInstanceAs (Decidable (s.current = k.gc))
  | .yieldCurrent | .preemptResched | .setAlarmWakeup _ | .leaveQueue _ | .cancelAlarm
  | .notifyOne _ | .notifyAll _ | .notifyTask .. | .clearExited => isTrue trivial

/-- The states that the system reaches by allowed events. -/
abbrev Reachable (s : TaskSystem Task) : Prop :=
  Transition.Reachable (· = init k)
    (fun s s' => ∃ e, s.Allowed k e ∧ s.step k mayRun e = some s') s

end TaskSystem

end RCoreOS.Sync
