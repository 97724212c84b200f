import RCoreOS.Lib.BTreeMap
import RCoreOS.Lib.Transition
import Mathlib.Algebra.Ring.Nat
import Mathlib.Data.Prod.Lex
import Mathlib.Logic.Function.Basic

/-! The completely fair scheduler. A queued task is filed under the virtual runtime and the id
that it had when it was inserted, and is looked up under those it has when it is removed.
-/

namespace RCoreOS.Scheduler

/-- The order of `isize`. -/
instance int64LinearOrder : LinearOrder Int64 where
  le_refl := Int64.le_refl
  le_trans := fun _ _ _ => Int64.le_trans
  lt_iff_le_not_ge := fun a b => by
    rw [Int64.not_le]
    exact ⟨fun less => ⟨Int64.le_of_lt less, less⟩, And.right⟩
  le_antisymm := fun _ _ => Int64.le_antisymm
  le_total := Int64.le_total
  toDecidableLE := inferInstance

-----------------------------------------------------------------------------------------
-- Tasks
-----------------------------------------------------------------------------------------

def NICE2WEIGHT_POS : Vector Int64 20 :=
  #v[1024, 820, 655, 526, 423, 335, 272, 215, 172, 137, 110, 87, 70, 56, 45, 36, 29, 23, 18, 15]

def NICE2WEIGHT_NEG : Vector Int64 21 :=
  #v[1024, 1277, 1586, 1991, 2501, 3121, 3906, 4904, 6100, 7620, 9548, 11916, 14949, 18705,
    23254, 29154, 36291, 46273, 56483, 71755, 88761]

/-- A nice value that `set_priority` accepts. -/
structure Nice where
  value : Int
  low : -20 ≤ value
  high : value ≤ 19
deriving DecidableEq

structure CFSTask where
  initVruntime : Int64
  delta : Int64
  nice : Nice
  id : Int64

namespace CFSTask

def new : CFSTask where
  initVruntime := 0
  delta := 0
  nice := ⟨0, by decide, by decide⟩
  id := 0

def getWeight (task : CFSTask) : Int64 :=
  have low := task.nice.low
  have high := task.nice.high
  if sign : 0 ≤ task.nice.value then
    NICE2WEIGHT_POS.get ⟨task.nice.value.toNat, by omega⟩
  else NICE2WEIGHT_NEG.get ⟨(-task.nice.value).toNat, by omega⟩

def getVruntime (task : CFSTask) : Int64 :=
  if task.nice.value = 0 then task.initVruntime + task.delta
  else task.initVruntime + task.delta * 1024 / task.getWeight

def setPriority (task : CFSTask) (nice : Nice) : CFSTask :=
  { task with
    initVruntime := task.getVruntime
    delta := 0
    nice }

def taskTick (task : CFSTask) : CFSTask :=
  { task with delta := task.delta + 1 }

/-- What the ticks of a task add to its virtual runtime. -/
def tickPart (task : CFSTask) : Int64 :=
  if task.nice.value = 0 then task.delta else task.delta * 1024 / task.getWeight

theorem getVruntime_eq (task : CFSTask)
    : task.getVruntime = task.initVruntime + task.tickPart := by
  unfold getVruntime tickPart
  split <;> rfl

/-- The key under which a queued task is looked up. -/
def key (task : CFSTask) : Int64 ×ₗ Int64 :=
  toLex (task.getVruntime, task.id)

end CFSTask

-----------------------------------------------------------------------------------------
-- The scheduler
-----------------------------------------------------------------------------------------

/-- The state of a task as the run queue keeps it. -/
inductive TaskState where
  | new
  | ready
  | running
  | blocked
  | exited
deriving DecidableEq, Repr

/-- The scheduler with the tasks it shares with the run queue. `idPool` counts the ids that
were given out; an id is such a count as an `isize`.
-/
structure CFScheduler (Task : Type) where
  readyQueue : BTreeMap (Int64 ×ₗ Int64) Task
  minVruntime : Option Int64
  idPool : Nat
  task : Task → CFSTask
  state : Task → TaskState

namespace CFScheduler

variable {Task : Type} [DecidableEq Task]

def new : CFScheduler Task where
  readyQueue := BTreeMap.empty
  minVruntime := none
  idPool := 0
  task := fun _ => .new
  state := fun _ => .new

/-- The virtual runtime of the first entry of a queue. -/
def firstVruntime (queue : BTreeMap (Int64 ×ₗ Int64) Task) : Option Int64 :=
  queue.first.map fun entry => (ofLex entry.1).1

def nextId (s : CFScheduler Task) : Int64 :=
  Int64.ofNat s.idPool

def addTask (s : CFScheduler Task) (t : Task) : CFScheduler Task :=
  let vruntime := s.minVruntime.getD 0
  let queue := (s.readyQueue.insert (toLex (vruntime, s.nextId)) t).2
  { s with
    readyQueue := queue
    minVruntime := firstVruntime queue
    idPool := s.idPool + 1
    task := Function.update s.task t
      { s.task t with initVruntime := vruntime, id := s.nextId } }

def removeTask (s : CFScheduler Task) (t : Task) : Option Task × CFScheduler Task :=
  match s.readyQueue.remove (s.task t).key with
  | (some removed, queue) =>
      (some removed, { s with readyQueue := queue, minVruntime := firstVruntime queue })
  | (none, _) => (none, s)

def pickNextTask (s : CFScheduler Task) : Option (Task × CFScheduler Task) :=
  match s.readyQueue.popFirst with
  | some (entry, queue) => some (entry.2, { s with readyQueue := queue })
  | none => none

def putPrevTask (s : CFScheduler Task) (prev : Task) : CFScheduler Task :=
  let task := { s.task prev with id := s.nextId }
  { s with
    readyQueue := (s.readyQueue.insert (toLex (task.getVruntime, s.nextId)) prev).2
    idPool := s.idPool + 1
    task := Function.update s.task prev task }

def taskTick (s : CFScheduler Task) (current : Task) : Bool × CFScheduler Task :=
  let task := (s.task current).taskTick
  let resched :=
    match s.minVruntime with
    | none => true
    | some minVruntime => task.getVruntime > minVruntime
  (resched, { s with task := Function.update s.task current task })

def setPriority (s : CFScheduler Task) (t : Task) (prio : Int) : Bool × CFScheduler Task :=
  if range : -20 ≤ prio ∧ prio ≤ 19 then
    let task := (s.task t).setPriority ⟨prio, range.1, range.2⟩
    (true, { s with task := Function.update s.task t task })
  else (false, s)

def setState (s : CFScheduler Task) (t : Task) (state : TaskState) : CFScheduler Task :=
  { s with state := Function.update s.state t state }

/-- What the run queue does with the scheduler. -/
inductive Op (Task : Type) where
  | add (t : Task)
  | pick
  | tick (t : Task)
  | setPriority (t : Task) (prio : Int)
  | put (t : Task)
  | block (t : Task)
  | exit (t : Task)
  | remove (t : Task)

/-- One operation under the lock of the run queue. New and unblocked tasks are added, running
ones tick, change their priority, are put back, block or exit, and ready ones are removed.
-/
inductive Step (s : CFScheduler Task) : Op Task → CFScheduler Task → Prop
  | add (t) : s.state t = .new ∨ s.state t = .blocked →
      Step s (.add t) ((s.addTask t).setState t .ready)
  | pick {t s'} : s.pickNextTask = some (t, s') → Step s .pick (s'.setState t .running)
  | tick (t) : s.state t = .running → Step s (.tick t) (s.taskTick t).2
  | setPriority (t prio) : s.state t = .running →
      Step s (.setPriority t prio) (s.setPriority t prio).2
  | put (t) : s.state t = .running → Step s (.put t) ((s.putPrevTask t).setState t .ready)
  | block (t) : s.state t = .running → Step s (.block t) (s.setState t .blocked)
  | exit (t) : s.state t = .running → Step s (.exit t) (s.setState t .exited)
  | remove (t) : s.state t = .ready →
      Step s (.remove t) ((s.removeTask t).2.setState t .exited)

/-- The states of any run. -/
abbrev Reachable (s : CFScheduler Task) : Prop :=
  Transition.Reachable (· = new) (fun s s' => ∃ op, Step s op s') s

/-- Every task is queued under the key it has, the queue holds the ready tasks, each of which
can be removed, and the task that is picked has the least virtual runtime.
-/
structure KeysExact (s : CFScheduler Task) : Prop where
  keys : ∀ entry ∈ s.readyQueue.entries, entry.1 = (s.task entry.2).key
  queued : ∀ t, t ∈ s.readyQueue.values ↔ s.state t = .ready
  removed : ∀ t, s.state t = .ready → (s.removeTask t).1 = some t
    ∧ s.readyQueue.entries.Perm
      (((s.task t).key, t) :: (s.removeTask t).2.readyQueue.entries)
  picked : ∀ t s', s.pickNextTask = some (t, s') → ∀ u, s.state u = .ready →
    (s.task t).getVruntime ≤ (s.task u).getVruntime

/-- A task that is added has no ticks that count, and no queued task has the key under which a
task is inserted.
-/
def Tidy (s : CFScheduler Task) : Op Task → Prop
  | .add t => (s.task t).tickPart = 0
      ∧ toLex (s.minVruntime.getD 0, s.nextId) ∉ s.readyQueue.entries.map Prod.fst
  | .put t => toLex ((s.task t).getVruntime, s.nextId) ∉ s.readyQueue.entries.map Prod.fst
  | _ => True

/-- The states of runs of tidy operations. -/
abbrev TidyReachable (s : CFScheduler Task) : Prop :=
  Transition.Reachable (· = new) (fun s s' => ∃ op, Step s op s' ∧ s.Tidy op) s

-----------------------------------------------------------------------------------------
-- Exact keys
-----------------------------------------------------------------------------------------

variable {s s' : CFScheduler Task} {t : Task}

omit [DecidableEq Task] in
theorem mem_values {queue : BTreeMap (Int64 ×ₗ Int64) Task}
    : t ∈ queue.values ↔ ∃ key, (key, t) ∈ queue.entries := by
  simp [BTreeMap.values]

omit [DecidableEq Task] in
/-- A removal under the key of a queued task gives this task. -/
theorem removeTask_eq (found : s.readyQueue.get (s.task t).key = some t)
    : s.removeTask t = (some t, { s with
        readyQueue := (s.readyQueue.remove (s.task t).key).2
        minVruntime := firstVruntime (s.readyQueue.remove (s.task t).key).2 }) := by
  unfold removeTask BTreeMap.remove
  rw [found]

omit [DecidableEq Task] in
theorem pickNextTask_eq {picked : CFScheduler Task} (pick : s.pickNextTask = some (t, picked))
    : ∃ key queue, s.readyQueue.popFirst = some ((key, t), queue)
      ∧ picked = { s with readyQueue := queue } := by
  unfold pickNextTask at pick
  split at pick
  · next entry queue popped =>
      cases pick
      exact ⟨entry.1, queue, popped, rfl⟩
  · cases pick

omit [DecidableEq Task] in
theorem vruntime_le {task task' : CFSTask} (le : task.key ≤ task'.key)
    : task.getVruntime ≤ task'.getVruntime := by
  rcases Prod.Lex.toLex_le_toLex.mp le with less | ⟨same, -⟩
  · exact Int64.le_of_lt less
  · exact same.le

omit [DecidableEq Task] in
/-- Exact keys and a queue of the ready tasks make removals and picks right. -/
theorem keysExact_of (keys : ∀ entry ∈ s.readyQueue.entries, entry.1 = (s.task entry.2).key)
    (queued : ∀ t, t ∈ s.readyQueue.values ↔ s.state t = .ready)
    : s.KeysExact := by
  have filed : ∀ t, s.state t = .ready → ((s.task t).key, t) ∈ s.readyQueue.entries := by
    intro t ready
    obtain ⟨key, member⟩ := mem_values.mp ((queued t).mpr ready)
    exact keys _ member ▸ member
  refine ⟨keys, queued, ?_, ?_⟩
  · intro t ready
    have found := BTreeMap.get_eq_some.mpr (filed t ready)
    rw [removeTask_eq found]
    exact ⟨rfl, BTreeMap.remove_perm found⟩
  · intro t s' pick u ready
    obtain ⟨key, queue, popped, -⟩ := pickNextTask_eq pick
    obtain ⟨entries, least⟩ := BTreeMap.popFirst_eq popped
    have own : key = (s.task t).key := keys (key, t) (entries ▸ List.mem_cons_self ..)
    apply vruntime_le
    rw [← own]
    exact least _ (filed u ready)

omit [DecidableEq Task] in
/-- A step that leaves the queue and the ready tasks alone. -/
theorem KeysExact.frame (exact' : s.KeysExact) (queue : s'.readyQueue = s.readyQueue)
    (tasks : ∀ u, s.state u = .ready → s'.task u = s.task u)
    (states : ∀ u, s'.state u = .ready ↔ s.state u = .ready)
    : s'.KeysExact := by
  apply keysExact_of
  · intro entry member
    rw [queue] at member
    have ready := (exact'.queued entry.2).mp (mem_values.mpr ⟨entry.1, member⟩)
    rw [tasks entry.2 ready]
    exact exact'.keys entry member
  · intro u
    rw [queue, states]
    exact exact'.queued u

/-- A task that is not ready changes to another such state. -/
theorem KeysExact.setState {state : TaskState} (exact' : s.KeysExact)
    (away : s.state t ≠ .ready) (left : state ≠ .ready)
    : (s.setState t state).KeysExact := by
  refine KeysExact.frame exact' rfl (fun _ _ => rfl) ?_
  intro u
  by_cases same : u = t
  · subst same
    simp [CFScheduler.setState, away, left]
  · simp [CFScheduler.setState, same]

/-- A ready task that leaves the queue and is no longer ready. -/
theorem KeysExact.dequeue {key : Int64 ×ₗ Int64} {state : TaskState} (exact' : s.KeysExact)
    (entries : s.readyQueue.entries.Perm ((key, t) :: s'.readyQueue.entries))
    (tasks : s'.task = s.task) (states : s'.state = Function.update s.state t state)
    (left : state ≠ .ready)
    : s'.KeysExact := by
  have old : ∀ entry ∈ s'.readyQueue.entries, entry ∈ s.readyQueue.entries :=
    fun entry member => entries.mem_iff.mpr (List.mem_cons_of_mem _ member)
  have own : (key, t) ∈ s.readyQueue.entries := entries.mem_iff.mpr (List.mem_cons_self ..)
  have keys : ∀ entry ∈ s'.readyQueue.entries, entry.1 = (s'.task entry.2).key := by
    intro entry member
    rw [tasks]
    exact exact'.keys entry (old entry member)
  apply keysExact_of keys
  intro u
  rw [states, Function.update_apply]
  by_cases same : u = t
  · subst same
    rw [if_pos rfl]
    refine iff_of_false ?_ left
    intro member
    obtain ⟨key', member⟩ := mem_values.mp member
    have first : key' = key :=
      (exact'.keys _ (old _ member)).trans (exact'.keys _ own).symm
    have nodup := (entries.map Prod.fst).nodup_iff.mp s.readyQueue.keys_nodup
    exact (List.nodup_cons.mp nodup).1 (List.mem_map_of_mem (first ▸ member))
  · rw [if_neg same, ← exact'.queued u, mem_values, mem_values]
    refine exists_congr fun key' => ?_
    rw [entries.mem_iff, List.mem_cons, Prod.mk.injEq]
    simp [same]

/-- A task that was not ready is inserted: all keys stay exact exactly when it is inserted
under the key it has and this key is new.
-/
theorem KeysExact.enqueue_iff {key : Int64 ×ₗ Int64} {task : CFSTask} (exact' : s.KeysExact)
    (away : s.state t ≠ .ready) (queue : s'.readyQueue = (s.readyQueue.insert key t).2)
    (tasks : s'.task = Function.update s.task t task)
    (states : s'.state = Function.update s.state t .ready)
    : s'.KeysExact ↔ key = task.key ∧ key ∉ s.readyQueue.entries.map Prod.fst := by
  have others : ∀ u, s.state u = .ready → u ≠ t := by
    rintro u ready rfl
    exact away ready
  have inserted : (key, t) ∈ s'.readyQueue.entries := by
    rw [← BTreeMap.get_eq_some, queue, BTreeMap.get_insert, if_pos rfl]
  constructor
  · intro after
    have own : key = task.key := by
      have filed := after.keys _ inserted
      rwa [tasks, Function.update_self] at filed
    refine ⟨own, ?_⟩
    intro used
    obtain ⟨⟨key', u⟩, member, same⟩ := List.mem_map.mp used
    have ready := (exact'.queued u).mp (mem_values.mpr ⟨key', member⟩)
    have other := others u ready
    have ready' : s'.state u = .ready := by
      rw [states, Function.update_of_ne other]
      exact ready
    obtain ⟨key'', member'⟩ := mem_values.mp ((after.queued u).mpr ready')
    have filed := after.keys _ member'
    rw [tasks, Function.update_of_ne other, ← exact'.keys _ member] at filed
    obtain rfl : key'' = key := filed.trans same
    have twice := BTreeMap.get_eq_some.mpr member'
    rw [BTreeMap.get_eq_some.mpr inserted] at twice
    exact other (Option.some.inj twice).symm
  · rintro ⟨own, fresh⟩
    have entries : s'.readyQueue.entries.Perm ((key, t) :: s.readyQueue.entries) :=
      queue ▸ (BTreeMap.insert_fresh fresh t).2
    apply keysExact_of
    · intro entry member
      rcases List.mem_cons.mp (entries.mem_iff.mp member) with rfl | old
      · rw [tasks, Function.update_self]
        exact own
      · have ready := (exact'.queued entry.2).mp (mem_values.mpr ⟨entry.1, old⟩)
        rw [tasks, Function.update_of_ne (others _ ready)]
        exact exact'.keys entry old
    · intro u
      rw [states, Function.update_apply, mem_values]
      by_cases same : u = t
      · subst same
        rw [if_pos rfl]
        exact iff_of_true ⟨key, inserted⟩ rfl
      · rw [if_neg same, ← exact'.queued u, mem_values]
        refine exists_congr fun key' => ?_
        rw [entries.mem_iff, List.mem_cons, Prod.mk.injEq]
        simp [same]

-----------------------------------------------------------------------------------------
-- Runs
-----------------------------------------------------------------------------------------

omit [DecidableEq Task] in
theorem new_keysExact : (new : CFScheduler Task).KeysExact := by
  apply keysExact_of
  · intro entry member
    cases member
  · simp [new, BTreeMap.values, BTreeMap.empty]

/-- An added task is filed under the key it has when its ticks do not count. -/
theorem addTask_key (vruntime id : Int64) (task : CFSTask)
    : toLex (vruntime, id) = { task with initVruntime := vruntime, id }.key
      ↔ task.tickPart = 0 := by
  have same : { task with initVruntime := vruntime, id }.tickPart = task.tickPart := rfl
  rw [CFSTask.key, CFSTask.getVruntime_eq, same, toLex_inj, Prod.mk.injEq]
  constructor
  · rintro ⟨sum, -⟩
    grind
  · intro none
    rw [none]
    exact ⟨(Int64.add_zero vruntime).symm, rfl⟩

/-- An operation keeps the keys exact exactly when it is tidy. -/
theorem Step.keysExact_iff {op : Op Task} (exact' : s.KeysExact) (step : Step s op s')
    : s'.KeysExact ↔ s.Tidy op := by
  -- a task that is not ready may change
  have aside : ∀ {t : Task} {task}, s.state t ≠ .ready → ∀ u, s.state u = .ready →
      Function.update s.task t task u = s.task u := by
    intro t task away u ready
    apply Function.update_of_ne
    rintro rfl
    exact away ready
  cases step with
  | add t fresh =>
      have away : s.state t ≠ .ready := by
        rcases fresh with new | blocked
        · simp [new]
        · simp [blocked]
      have filed : ((s.addTask t).setState t .ready).KeysExact ↔ _ :=
        exact'.enqueue_iff away rfl rfl rfl
      rw [addTask_key] at filed
      exact filed
  | put t running =>
      have away : s.state t ≠ .ready := by simp [running]
      have filed : ((s.putPrevTask t).setState t .ready).KeysExact ↔ _ :=
        exact'.enqueue_iff away rfl rfl rfl
      exact filed.trans (and_iff_right rfl)
  | @pick t picked pick =>
      obtain ⟨key, queue, popped, rfl⟩ := pickNextTask_eq pick
      have entries := (BTreeMap.popFirst_eq popped).1
      refine iff_of_true ?_ trivial
      exact exact'.dequeue (List.Perm.of_eq entries) rfl rfl TaskState.noConfusion
  | remove t ready =>
      have removed := exact'.removed t ready
      refine iff_of_true ?_ trivial
      have kept : (s.removeTask t).2.task = s.task ∧ (s.removeTask t).2.state = s.state := by
        unfold removeTask
        split <;> exact ⟨rfl, rfl⟩
      have left : TaskState.exited ≠ .ready := TaskState.noConfusion
      refine exact'.dequeue removed.2 kept.1 ?_ left
      rw [setState, kept.2]
  | tick t running =>
      refine iff_of_true (exact'.frame rfl ?_ fun _ => .rfl) trivial
      exact aside (by simp [running])
  | setPriority t prio running =>
      refine iff_of_true ?_ trivial
      unfold CFScheduler.setPriority
      split
      · exact exact'.frame rfl (aside (by simp [running])) fun _ => .rfl
      · exact exact'
  | block t running =>
      exact iff_of_true (exact'.setState (by simp [running]) TaskState.noConfusion) trivial
  | exit t running =>
      exact iff_of_true (exact'.setState (by simp [running]) TaskState.noConfusion) trivial

theorem TidyReachable.keysExact (run : TidyReachable s) : s.KeysExact := by
  refine Transition.Reachable.invariant KeysExact ?_ ?_ run
  · rintro _ rfl
    exact new_keysExact
  · rintro s s' exact' ⟨op, step, tidy⟩
    exact (step.keysExact_iff exact').mpr tidy

/-- In every run of tidy operations all keys are exact, and the first operation that is not
tidy breaks this.
-/
theorem keys_exact (run : TidyReachable s)
    : s.KeysExact ∧ ∀ op s', Step s op s' → (s'.KeysExact ↔ s.Tidy op) :=
  ⟨run.keysExact, fun _ _ step => step.keysExact_iff run.keysExact⟩

/-- A task that was ticked, blocked and unblocked is filed under another key than it has. -/
theorem keys_differ : ¬ ∀ s : CFScheduler Unit, Reachable s → s.KeysExact := by
  intro all
  have run : Reachable (new : CFScheduler Unit) := .start rfl
  have added := run.next ⟨_, .add () (.inl rfl)⟩
  have picked := added.next ⟨_, .pick rfl⟩
  have ticked := picked.next ⟨_, .tick () rfl⟩
  have blocked := ticked.next ⟨_, .block () rfl⟩
  have unblocked := blocked.next ⟨_, .add () (.inr rfl)⟩
  have removed := ((all _ unblocked).removed () rfl).1
  revert removed
  decide +kernel

/-- A task that is added, runs, and is put back. -/
theorem keys_exact_put_back
    : ∃ s : CFScheduler Unit, (s.task ()).getVruntime = 1 ∧ s.KeysExact := by
  have run : TidyReachable (new : CFScheduler Unit) := .start rfl
  have added := run.next ⟨_, .add () (.inl rfl), by decide +kernel, List.not_mem_nil⟩
  have picked := added.next ⟨_, .pick rfl, trivial⟩
  have ticked := picked.next ⟨_, .tick () rfl, trivial⟩
  have put := ticked.next ⟨_, .put () rfl, List.not_mem_nil⟩
  exact ⟨_, by decide +kernel, (keys_exact put).1⟩

-----------------------------------------------------------------------------------------
-- Ids
-----------------------------------------------------------------------------------------

/-- The ids of queued tasks were given out before. -/
def Given (s : CFScheduler Task) : Prop :=
  ∀ entry ∈ s.readyQueue.entries, ∃ n < s.idPool, (ofLex entry.1).2 = Int64.ofNat n

omit [DecidableEq Task] in
/-- An insertion under the next id. -/
theorem Given.insert (given : s.Given) (vruntime : Int64)
    (queue : s'.readyQueue = (s.readyQueue.insert (toLex (vruntime, s.nextId)) t).2)
    (ids : s'.idPool = s.idPool + 1)
    : s'.Given := by
  intro entry member
  have found := BTreeMap.get_eq_some.mpr member
  rw [queue, BTreeMap.get_insert] at found
  rw [ids]
  split at found
  · next same => exact ⟨s.idPool, Nat.lt_succ_self _, by rw [same]; rfl⟩
  · obtain ⟨n, before, id⟩ := given entry (BTreeMap.get_eq_some.mp found)
    exact ⟨n, before.trans (Nat.lt_succ_self _), id⟩

theorem Step.given {op : Op Task} (given : s.Given) (step : Step s op s') : s'.Given := by
  cases step with
  | add t _ => exact given.insert _ rfl rfl
  | put t _ => exact given.insert _ rfl rfl
  | pick pick =>
      obtain ⟨key, queue, popped, rfl⟩ := pickNextTask_eq pick
      intro entry member
      exact given entry ((BTreeMap.popFirst_eq popped).1 ▸ List.mem_cons_of_mem _ member)
  | remove t _ =>
      unfold removeTask
      split
      · next removed queue found =>
          intro entry member
          have left : queue = (s.readyQueue.remove (s.task t).key).2 :=
            (congrArg Prod.snd found).symm
          subst left
          exact given entry (List.mem_of_mem_filter member)
      · exact given
  | tick t _ => exact given
  | setPriority t prio _ =>
      unfold CFScheduler.setPriority
      split <;> exact given
  | block t _ => exact given
  | exit t _ => exact given

/-- Up to `2 ^ 64` insertions the next id is not the one of a queued task. -/
theorem fresh_of_few (run : Reachable s) (few : s.idPool < 2 ^ 64) (vruntime : Int64)
    : toLex (vruntime, s.nextId) ∉ s.readyQueue.entries.map Prod.fst := by
  have given : s.Given := by
    refine Transition.Reachable.invariant Given ?_ ?_ run
    · rintro _ rfl entry member
      cases member
    · rintro s s' given ⟨op, step⟩
      exact step.given given
  intro used
  obtain ⟨entry, member, same⟩ := List.mem_map.mp used
  obtain ⟨n, before, id⟩ := given entry member
  rw [same] at id
  have bits : (BitVec.ofNat 64 s.idPool).toNat = (BitVec.ofNat 64 n).toNat :=
    congrArg (fun id : Int64 => id.toBitVec.toNat) id
  rw [BitVec.toNat_ofNat, BitVec.toNat_ofNat, Nat.mod_eq_of_lt few,
    Nat.mod_eq_of_lt (before.trans few)] at bits
  exact before.ne' bits

end CFScheduler

end RCoreOS.Scheduler
