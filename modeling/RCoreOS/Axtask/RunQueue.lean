import Mathlib.Data.List.Perm.Basic
import Mathlib.Data.List.Nodup

/-! The run queue of the `async2` kernel with the FIFO scheduler: how `resched` selects the
next task and which of the queued tasks it may lose on the way.
-/

namespace RCoreOS.Axtask

/-- The possible states of a task. -/
inductive TaskState where
  | running
  | ready
  | blocked
  | exited
deriving DecidableEq, Repr

/-- The fields of a task that the scheduler reads and writes. -/
structure Task where
  tid : Nat
  name : String
  isIdle : Bool
  cpuSet : Nat
  state : TaskState
  isStarted : Bool
  stackIdx : Nat
  hasBeenPreempted : Bool
  isZombie : Bool
deriving DecidableEq, Repr

def Task.isKernelTask (t : Task) : Bool :=
  t.name == "gc" || t.name == "idle" || t.name == "main"

/-- The task objects by reference, the run queue and the current task of one CPU. -/
structure Kernel (Ref : Type) where
  tasks : Ref → Task
  readyQueue : List Ref
  kstackState : Nat → Bool
  taskNub : UInt64
  curStack : Nat
  current : Ref
  idleTask : Ref
  thisCpuId : Nat

namespace Kernel

variable {Ref : Type}

def tid (k : Kernel Ref) (t : Ref) : Nat :=
  (k.tasks t).tid

/-- `mask & (1 << curr_cpu) != 0`. -/
def runsHere (k : Kernel Ref) (t : Ref) : Bool :=
  (k.tasks t).cpuSet &&& (1 <<< k.thisCpuId) != 0

/-- The test that ends the selection loop with a task that was not seen before. -/
def eligible (k : Kernel Ref) (tid : Nat) (t : Ref) : Bool :=
  k.runsHere t && (tid == k.tid t || tid == 0)

/-- The selection loop of `resched` over the ready queue: the task it pops last, or `none`
for the idle task, and the queue it leaves. Tasks are told apart by their ids in `taskSet`.
-/
def selectNext (k : Kernel Ref) (tid : Nat) (queue : List Ref) (taskSet : List Nat)
    : Option Ref × List Ref :=
  match queue with
  | [] => (none, [])
  | task :: rest =>
      if k.tid task = 3 then k.selectNext tid rest taskSet
      else if k.tid task ∈ taskSet then
        if (k.tasks task).isStarted then (some task, rest) else (none, rest)
      else if k.eligible tid task then (some task, rest)
      else k.selectNext tid (rest ++ [task]) (k.tid task :: taskSet)
termination_by (queue.countP (fun t => k.tid t ∉ taskSet), queue.length)
decreasing_by
  · by_cases seen : k.tid task ∈ taskSet
    · simp only [List.countP_cons, seen, not_true_eq_false, decide_false, Bool.false_eq_true,
        if_false, Nat.add_zero]
      exact Prod.Lex.right _ (Nat.lt_succ_self _)
    · exact Prod.Lex.left _ _ (by simp [seen])
  · rename_i unseen _
    refine Prod.Lex.left _ _ ?_
    have fewer : rest.countP (fun t => k.tid t ∉ k.tid task :: taskSet)
        ≤ rest.countP (fun t => k.tid t ∉ taskSet) := by
      apply List.countP_mono_left
      intro t _ absent
      simp only [List.mem_cons, not_or, decide_eq_true_eq] at absent ⊢
      exact absent.2
    rw [List.countP_append, List.countP_singleton, List.countP_cons_of_pos (by simpa using unseen)]
    simpa using Nat.lt_succ_of_le fewer

section Operations

variable [DecidableEq Ref]

/-- A change of one task object. -/
def modify (k : Kernel Ref) (t : Ref) (change : Task → Task) : Kernel Ref :=
  { k with tasks := fun u => if u = t then change (k.tasks u) else k.tasks u }

def setState (k : Kernel Ref) (t : Ref) (state : TaskState) : Kernel Ref :=
  k.modify t (fun task => { task with state })

/-- `add_task` of the FIFO scheduler. -/
def addTask (k : Kernel Ref) (t : Ref) : Kernel Ref :=
  { k with readyQueue := k.readyQueue ++ [t] }

/-- `put_prev_task` of the FIFO scheduler, which ignores `preempt`. -/
def putPrevTask (k : Kernel Ref) (prev : Ref) (_preempt : Bool) : Kernel Ref :=
  { k with readyQueue := k.readyQueue ++ [prev] }

/-- The first part of `resched`: a running task becomes ready and goes back to the queue. -/
def putCurrent (k : Kernel Ref) (preempt : Bool) : Kernel Ref :=
  if (k.tasks k.current).state = .running then
    let ready := k.setState k.current .ready
    if (k.tasks k.current).isIdle then ready else ready.putPrevTask k.current preempt
  else k

end Operations

-----------------------------------------------------------------------------------------
-- Which tasks the selection loop loses
-----------------------------------------------------------------------------------------

/-- A queue that the selection loop passes without choosing or dropping a task. -/
structure Passed (k : Kernel Ref) (tid : Nat) (queue : List Ref) : Prop where
  kept : ∀ t ∈ queue, k.tid t ≠ 3
  refused : ∀ t ∈ queue, k.eligible tid t = false
  distinct : (queue.map k.tid).Nodup

/-- After it has passed `pre`, the loop ends at `t` and chooses it: `t` is eligible, or has
started when its id was seen before.
-/
def ChoosesAfter (k : Kernel Ref) (tid : Nat) (pre : List Ref) (t : Ref) : Prop :=
  k.tid t ≠ 3
    ∧ if k.tid t ∈ pre.map k.tid then (k.tasks t).isStarted = true else k.eligible tid t = true

/-- From the rest of a queue whose first part `pre` was passed, the loop loses no task:
either it passes some more tasks and chooses the next one, or it passes all of them and the
first one it meets again has started.
-/
def KeepsRest (k : Kernel Ref) (tid : Nat) (pre rest : List Ref) : Prop :=
  (∃ mid t post,
      rest = mid ++ t :: post ∧ k.Passed tid (pre ++ mid) ∧ k.ChoosesAfter tid (pre ++ mid) t)
    ∨ (k.Passed tid (pre ++ rest) ∧ ∀ t ∈ (pre ++ rest).head?, (k.tasks t).isStarted = true)

/-- The chosen task and the queue that is left, together. -/
def accounted (selected : Option Ref × List Ref) : List Ref :=
  selected.1.toList ++ selected.2

/-- The loop only ever drops tasks. -/
theorem selectNext_length_le (k : Kernel Ref) (tid : Nat) (queue : List Ref) (seen : List Nat)
    : (accounted (k.selectNext tid queue seen)).length ≤ queue.length := by
  fun_induction selectNext k tid queue seen with
  | case1 => simp [accounted]
  | case2 seen task rest three ih => exact Nat.le_succ_of_le ih
  | case3 => simp [accounted]
  | case4 => simp [accounted]
  | case5 => simp [accounted]
  | case6 seen task rest _ _ _ ih => simpa using ih

section Rest

variable {k : Kernel Ref} {tid : Nat} {pre rest : List Ref} {task : Ref}

/-- Passing a queue depends on ids and eligibility only. -/
theorem passed_congr {k' : Kernel Ref} (tids : ∀ t, k'.tid t = k.tid t)
    (eligible : ∀ t, k'.eligible tid t = k.eligible tid t)
    : k'.Passed tid pre ↔ k.Passed tid pre := by
  have ids : k'.tid = k.tid := funext tids
  constructor
  · rintro ⟨kept, refused, distinct⟩
    exact ⟨by simpa only [ids] using kept, by simpa only [eligible] using refused,
      by simpa only [ids] using distinct⟩
  · rintro ⟨kept, refused, distinct⟩
    exact ⟨by simpa only [ids] using kept, by simpa only [eligible] using refused,
      by simpa only [ids] using distinct⟩

theorem passed_append_singleton
    : k.Passed tid (pre ++ [task])
      ↔ k.Passed tid pre
        ∧ k.tid task ≠ 3 ∧ k.eligible tid task = false ∧ k.tid task ∉ pre.map k.tid := by
  constructor
  · rintro ⟨kept, refused, distinct⟩
    rw [List.map_append, List.nodup_append] at distinct
    refine ⟨⟨fun t member => kept t (by simp [member]),
      fun t member => refused t (by simp [member]), distinct.1⟩, kept task (by simp),
      refused task (by simp), fun seen => ?_⟩
    exact distinct.2.2 _ seen (k.tid task) (by simp) rfl
  · rintro ⟨⟨kept, refused, distinct⟩, notThree, notEligible, unseen⟩
    refine ⟨fun t member => ?_, fun t member => ?_, ?_⟩
    · rcases List.mem_append.mp member with old | new
      · exact kept t old
      · exact List.mem_singleton.mp new ▸ notThree
    · rcases List.mem_append.mp member with old | new
      · exact refused t old
      · exact List.mem_singleton.mp new ▸ notEligible
    · rw [List.map_append, List.nodup_append]
      refine ⟨distinct, by simp, fun a seen b new same => ?_⟩
      simp only [List.map_cons, List.map_nil, List.mem_singleton] at new
      exact unseen (new ▸ same ▸ seen)

theorem passed_of_append (passed : k.Passed tid (pre ++ rest)) : k.Passed tid pre where
  kept t member := passed.kept t (List.mem_append_left _ member)
  refused t member := passed.refused t (List.mem_append_left _ member)
  distinct := by
    have distinct := passed.distinct
    rw [List.map_append, List.nodup_append] at distinct
    exact distinct.1

/-- The loop puts the tasks it passes behind the rest, by induction on them. -/
theorem selectNext_pass (pre mid rest : List Ref) (seen : List Nat)
    (passed : k.Passed tid (pre ++ mid))
    (sameIds : ∀ id, id ∈ seen ↔ id ∈ pre.map k.tid)
    : ∃ seen',
        (∀ id, id ∈ seen' ↔ id ∈ (pre ++ mid).map k.tid)
        ∧ k.selectNext tid (mid ++ (rest ++ pre)) seen
          = k.selectNext tid (rest ++ (pre ++ mid)) seen' := by
  induction mid generalizing pre seen with
  | nil => exact ⟨seen, by simpa using sameIds, by simp⟩
  | cons task mid ih =>
      have shift : pre ++ task :: mid = pre ++ [task] ++ mid := by simp
      rw [shift] at passed ⊢
      obtain ⟨-, notThree, refused, unseen⟩ := passed_append_singleton.mp (passed_of_append passed)
      rw [← sameIds] at unseen
      obtain ⟨seen', sameIds', selected⟩ := ih _ (k.tid task :: seen) passed (by
        intro id
        simp [sameIds id, or_comm])
      refine ⟨seen', sameIds', ?_⟩
      rw [List.cons_append, selectNext, if_neg notThree, if_neg unseen, refused,
        if_neg (by simp), ← selected]
      simp

/-- The chosen task and the tasks that are left were queued. -/
theorem selectNext_mem {queue : List Ref} {seen : List Nat} {t : Ref}
    (member : t ∈ accounted (k.selectNext tid queue seen))
    : t ∈ queue := by
  fun_induction selectNext k tid queue seen with
  | case1 => simp [accounted] at member
  | case2 seen task rest three ih => exact List.mem_cons_of_mem _ (ih member)
  | case3 => simpa [accounted] using member
  | case4 => exact List.mem_cons_of_mem _ (by simpa [accounted] using member)
  | case5 => simpa [accounted] using member
  | case6 seen task rest _ _ _ ih =>
      have rotated := ih member
      simp only [List.mem_append, List.mem_singleton] at rotated
      exact List.mem_cons.mpr rotated.symm

/-- The next task of the rest is chosen, or it is passed and no task is lost after it. -/
theorem keepsRest_cons (passed : k.Passed tid pre)
    : k.KeepsRest tid pre (task :: rest)
      ↔ k.ChoosesAfter tid pre task
        ∨ (k.Passed tid (pre ++ [task]) ∧ k.KeepsRest tid (pre ++ [task]) rest) := by
  have shift (mid : List Ref) : pre ++ task :: mid = pre ++ [task] ++ mid := by simp
  constructor
  · rintro (⟨_ | ⟨first, mid⟩, t, post, split, passed', chooses⟩ | ⟨passed', started⟩)
    · cases split
      exact .inl (by simpa using chooses)
    · cases split
      rw [shift] at passed' chooses
      exact .inr ⟨passed_of_append passed', .inl ⟨mid, t, post, rfl, passed', chooses⟩⟩
    · rw [shift] at passed' started
      exact .inr ⟨passed_of_append passed', .inr ⟨passed', started⟩⟩
  · rintro (chooses | ⟨-, ⟨mid, t, post, rfl, passed', chooses⟩ | ⟨passed', started⟩⟩)
    · exact .inl ⟨[], task, rest, rfl, by simpa using passed, by simpa using chooses⟩
    · exact .inl ⟨task :: mid, t, post, rfl, by rwa [shift], by rwa [shift]⟩
    · exact .inr ⟨by rwa [shift], by rwa [shift]⟩

/-- The loop loses no task exactly when the rest of the queue allows it, by induction on the
rest: the tasks it passes are put behind.
-/
theorem selectNext_perm_iff (rest : List Ref) (seen : List Nat) (passed : k.Passed tid pre)
    (sameIds : ∀ id, id ∈ seen ↔ id ∈ pre.map k.tid)
    : (accounted (k.selectNext tid (rest ++ pre) seen)).Perm (rest ++ pre)
      ↔ k.KeepsRest tid pre rest := by
  induction rest generalizing pre seen with
  | nil =>
      have whole : k.KeepsRest tid pre [] ↔ ∀ t ∈ pre.head?, (k.tasks t).isStarted = true := by
        simp [KeepsRest, passed]
      rw [whole]
      cases pre with
      | nil =>
          rw [List.append_nil, selectNext]
          simp [accounted]
      | cons first later =>
          have notThree := passed.kept first (by simp)
          have again : k.tid first ∈ seen := (sameIds _).mpr (by simp)
          rw [List.nil_append, selectNext, if_neg notThree, if_pos again]
          cases started : (k.tasks first).isStarted with
          | true => simp [accounted, started]
          | false =>
              simp only [Bool.false_eq_true, if_false, accounted]
              constructor
              · intro perm
                simpa using perm.length_eq
              · intro all
                simp [started] at all
  | cons task rest ih =>
      have shorter (selected : Option Ref × List Ref)
          (le : (accounted selected).length ≤ (rest ++ pre).length)
          : ¬ (accounted selected).Perm (task :: (rest ++ pre)) := by
        intro perm
        have := perm.length_eq
        simp only [List.length_cons] at this
        omega
      rw [keepsRest_cons passed, passed_append_singleton, List.cons_append, selectNext]
      split
      · rename_i three
        simp [shorter _ (selectNext_length_le k tid (rest ++ pre) seen), ChoosesAfter, three]
      rename_i notThree
      split
      · rename_i again
        rw [sameIds] at again
        cases started : (k.tasks task).isStarted with
        | true => simp [ChoosesAfter, notThree, again, started, accounted]
        | false =>
            have lost := shorter (none, rest ++ pre) (by simp [accounted])
            simp [ChoosesAfter, notThree, again, started, lost]
      rename_i unseen
      rw [sameIds] at unseen
      cases chosen : k.eligible tid task with
      | true => simp [ChoosesAfter, notThree, unseen, chosen, accounted]
      | false =>
          have passed' : k.Passed tid (pre ++ [task]) :=
            passed_append_singleton.mpr ⟨passed, notThree, chosen, unseen⟩
          have rotated : (task :: (rest ++ pre)).Perm (rest ++ (pre ++ [task])) := by
            rw [← List.append_assoc]
            exact (List.perm_append_singleton task (rest ++ pre)).symm
          have sameIds' : ∀ id, id ∈ k.tid task :: seen ↔ id ∈ (pre ++ [task]).map k.tid := by
            intro id
            simp [sameIds id, or_comm]
          rw [List.append_assoc, if_neg (by simp), rotated.congr_right,
            ih _ passed' sameIds']
          simp [ChoosesAfter, notThree, unseen, chosen, passed]

end Rest

section Reschedule

variable [DecidableEq Ref]

/-- The scheduler's tasks before the call, with the previous task when it is put back. -/
def tasksToKeep (k : Kernel Ref) : List Ref :=
  k.readyQueue
    ++ if (k.tasks k.current).state = .running ∧ (k.tasks k.current).isIdle = false
      then [k.current] else []

/-- `resched` conserves tasks: the queue that is left when the selection loop exits and the
chosen task are the tasks to keep, and the idle task when that is chosen.
-/
def Conserves (k : Kernel Ref) (preempt : Bool) (tid : Nat) : Prop :=
  let ready := k.putCurrent preempt
  match ready.selectNext tid ready.readyQueue [] with
  | (some next, queue) => (next :: queue).Perm k.tasksToKeep
  | (none, queue) => (k.idleTask :: queue).Perm (k.idleTask :: k.tasksToKeep)

theorem putCurrent_readyQueue (k : Kernel Ref) (preempt : Bool)
    : (k.putCurrent preempt).readyQueue = k.tasksToKeep := by
  unfold putCurrent tasksToKeep
  split
  · rename_i running
    cases idle : (k.tasks k.current).isIdle <;> simp [setState, modify, putPrevTask, running]
  · rename_i notRunning
    simp [notRunning]

theorem putCurrent_idleTask (k : Kernel Ref) (preempt : Bool)
    : (k.putCurrent preempt).idleTask = k.idleTask := by
  unfold putCurrent
  split
  · split <;> rfl
  · rfl

/-- The selection only reads ids, CPU sets and whether a task has started, so it does not
depend on the states that `putCurrent` writes.
-/
theorem putCurrent_tasks (k : Kernel Ref) (preempt : Bool) (t : Ref)
    : ((k.putCurrent preempt).tid t = k.tid t)
      ∧ ((k.putCurrent preempt).tasks t).isStarted = (k.tasks t).isStarted
      ∧ ∀ tid, (k.putCurrent preempt).eligible tid t = k.eligible tid t := by
  unfold putCurrent
  split
  · split <;>
      simp only [Kernel.tid, eligible, runsHere, setState, modify, putPrevTask] <;>
      split <;> simp
  · simp

/-- `resched` loses no task exactly when the selection loop passes some tasks and then
chooses one, or passes all tasks and the first of them, if any, has started. A task is passed
when its id is new and not 3 and it is not eligible.
-/
theorem resched_conserves_iff (k : Kernel Ref) (preempt : Bool) (tid : Nat)
    : k.Conserves preempt tid
      ↔ (∃ pre t post,
          k.tasksToKeep = pre ++ t :: post ∧ k.Passed tid pre ∧ k.ChoosesAfter tid pre t)
        ∨ (k.Passed tid k.tasksToKeep
          ∧ ∀ t ∈ k.tasksToKeep.head?, (k.tasks t).isStarted = true) := by
  have tids : (k.putCurrent preempt).tid = k.tid :=
    funext fun t => (k.putCurrent_tasks preempt t).1
  have started (t : Ref) := (k.putCurrent_tasks preempt t).2.1
  have eligible (t : Ref) := (k.putCurrent_tasks preempt t).2.2 tid
  have passed (queue : List Ref)
      : (k.putCurrent preempt).Passed tid queue ↔ k.Passed tid queue :=
    passed_congr (fun t => congrFun tids t) eligible
  have nothing : (k.putCurrent preempt).Passed tid [] := ⟨by simp, by simp, by simp⟩
  have loop := selectNext_perm_iff k.tasksToKeep [] nothing (by simp)
  rw [List.append_nil] at loop
  have conserves : k.Conserves preempt tid
      ↔ (accounted ((k.putCurrent preempt).selectNext tid k.tasksToKeep [])).Perm
        k.tasksToKeep := by
    unfold Conserves
    simp only [putCurrent_readyQueue]
    rcases (k.putCurrent preempt).selectNext tid k.tasksToKeep [] with ⟨_ | next, queue⟩
    · simp [accounted, List.perm_cons]
    · simp [accounted]
  rw [conserves, loop]
  simp only [KeepsRest, List.nil_append, passed, ChoosesAfter, tids, started, eligible]

end Reschedule

/-- The main task 0 runs, task 1 is queued and has not started, and task 2 is idle. -/
def oneFreshTask : Kernel Nat where
  tasks
    | 0 => ⟨1, "main", false, 1, .running, false, 0, false, false⟩
    | 1 => ⟨5, "user", false, 1, .ready, false, 0, false, false⟩
    | _ => ⟨3, "idle", true, 1, .ready, false, 0, false, false⟩
  readyQueue := [1]
  kstackState := fun _ => false
  taskNub := 1
  curStack := 0
  current := 0
  idleTask := 2
  thisCpuId := 0

/-- A request for a task that is not queued drops the fresh task and chooses the idle one. -/
theorem resched_loses_fresh_task : ¬ oneFreshTask.Conserves false 7 := by
  have selected : (oneFreshTask.putCurrent false).selectNext 7 [1, 0] [] = (none, [0]) := by
    simp [selectNext, putCurrent, setState, modify, putPrevTask, Kernel.tid, eligible,
      oneFreshTask]
  have keep : oneFreshTask.tasksToKeep = [1, 0] := by
    simp [tasksToKeep, oneFreshTask]
  unfold Conserves
  simp only [putCurrent_readyQueue, keep, selected]
  intro perm
  exact absurd perm.length_eq (by decide)

end Kernel

end RCoreOS.Axtask
