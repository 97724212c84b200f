import RCoreOS.Axtask.RunQueue

/-! Switching between tasks in the `async2` kernel. A switch to a task that has started
restores its registers and leaves the caller's frame; a switch to a fresh task takes a kernel
stack from the pool and returns to the caller.
-/

namespace RCoreOS.Axtask

/-- The number of kernel stacks; stack 0 is not handed out. -/
def KSTACK_NUM : Nat := 10

/-- Why the kernel panicked. -/
inductive Panic where
  /-- `no stack available`. -/
  | noStack
  /-- An index into the stack pool is out of bounds. -/
  | noSuchStack
  /-- `assert!(curr.is_running())`. -/
  | notRunning
  /-- `assert!(!curr.is_idle())`. -/
  | isIdle
  /-- `assert_ne!(owner_id, current_id)` of a mutex. -/
  | alreadyOwned
deriving DecidableEq, Repr

/-- Where control is after a call in some task's frame. -/
inductive Control where
  /-- The call returned to its caller. -/
  | returned
  /-- The registers of a task that has started were restored. -/
  | switched
  | panicked (reason : Panic)
  /-- The system was shut down. -/
  | terminated
  /-- The call has not ended in the given number of turns. -/
  | unfinished
deriving DecidableEq, Repr

namespace Kernel

variable {Ref : Type}

/-- The first free stack; stack 0 is that of the idle task. `none` is the panic. -/
def allocStack (k : Kernel Ref) : Option (Nat × Kernel Ref) :=
  match (List.range' 1 (KSTACK_NUM - 1)).find? (fun i => !k.kstackState i) with
  | some i => some (i, { k with kstackState := Function.update k.kstackState i true })
  | none => none

section Pool

variable {k k' : Kernel Ref} {i : Nat}

/-- A stack that is handed out was free. -/
theorem allocStack_some (alloc : k.allocStack = some (i, k'))
    : 1 ≤ i ∧ i < KSTACK_NUM ∧ k.kstackState i = false
      ∧ k' = { k with kstackState := Function.update k.kstackState i true } := by
  unfold allocStack at alloc
  split at alloc
  · rename_i j found
    cases alloc
    have free := List.find?_some found
    have range := List.mem_range'_1.mp (List.mem_of_find?_eq_some found)
    unfold KSTACK_NUM at *
    exact ⟨range.1, by omega, by simpa using free, rfl⟩
  · cases alloc

/-- The pool is exhausted when every stack but stack 0 is taken. -/
theorem allocStack_none
    : k.allocStack = none ↔ ∀ i, 1 ≤ i → i < KSTACK_NUM → k.kstackState i = true := by
  unfold allocStack
  split
  · rename_i i found
    have free := List.find?_some found
    have range := List.mem_range'_1.mp (List.mem_of_find?_eq_some found)
    simp only [reduceCtorEq, false_iff]
    intro all
    have := all i range.1 (by unfold KSTACK_NUM at *; omega)
    simp [this] at free
  · rename_i absent
    simp only [true_iff]
    intro i positive bound
    have member : i ∈ List.range' 1 (KSTACK_NUM - 1) := by
      rw [List.mem_range'_1]
      unfold KSTACK_NUM at *
      omega
    simpa using List.find?_eq_none.mp absent i member

end Pool

/-- `none` is the panic of an index out of bounds. -/
def freeStack (k : Kernel Ref) (idx : Nat) : Option (Kernel Ref) :=
  if idx < KSTACK_NUM then some { k with kstackState := Function.update k.kstackState idx false }
  else none

variable [DecidableEq Ref]

/-- `again` is the nested call of `resched` after a switch to a kernel task. -/
def switchTo (again : Kernel Ref → Control × Kernel Ref) (k : Kernel Ref) (prev next : Ref)
    : Control × Kernel Ref :=
  let k := k.setState next .running
  if prev = next then (.returned, k)
  else if (k.tasks next).isKernelTask then again { k with current := next }
  else if (k.tasks next).isStarted then
    let k := k.modify next (fun t => { t with hasBeenPreempted := false })
    (.switched, { k with curStack := (k.tasks next).stackIdx, current := next })
  else
    match k.allocStack with
    | none => (.panicked .noStack, k)
    | some (idx, k) =>
        let k := k.modify next (fun t => { t with isStarted := true, stackIdx := idx })
        (.returned, { k with curStack := idx, current := next })

/-- `resched` up to its switch: the state with the queue that is left, and the next task. -/
def selected (k : Kernel Ref) (preempt : Bool) (tid : Nat) : Kernel Ref × Ref :=
  let k := k.putCurrent preempt
  let (chosen, queue) := k.selectNext tid k.readyQueue []
  ({ k with readyQueue := queue }, chosen.getD k.idleTask)

/-- The first argument bounds the nested calls. -/
def resched : Nat → Kernel Ref → Bool → Nat → Control × Kernel Ref
  | 0, k, _, _ => (.unfinished, k)
  | turns + 1, k, preempt, tid =>
      switchTo (fun k => resched turns k false 0) (k.selected preempt tid).1 k.current
        (k.selected preempt tid).2

/-- The part of `block_current` after the task was pushed to its wait queue. -/
def blockCurrent (turns : Nat) (k : Kernel Ref) : Control × Kernel Ref :=
  if (k.tasks k.current).state ≠ .running then (.panicked .notRunning, k)
  else if (k.tasks k.current).isIdle then (.panicked .isIdle, k)
  else resched turns (k.setState k.current .blocked) false 0

def unblockTask (k : Kernel Ref) (t : Ref) : Kernel Ref :=
  if (k.tasks t).state = .blocked then (k.setState t .ready).addTask t else k

def taskadd (k : Kernel Ref) : Kernel Ref :=
  { k with taskNub := k.taskNub + 1 }

def tasksub (k : Kernel Ref) : Kernel Ref :=
  { k with taskNub := k.taskNub - 1 }

/-- A new task object is queued; ids and names are given by the caller. -/
def spawn (k : Kernel Ref) (t : Ref) (tid : Nat) (name : String) (cpuSet : Nat) : Kernel Ref :=
  let task : Task := {
    tid, name, cpuSet
    isIdle := name == "idle"
    state := .ready
    isStarted := false
    stackIdx := 0
    hasBeenPreempted := false
    isZombie := false }
  (k.modify t (fun _ => task)).taskadd.addTask t

/-- The start of `exit_current_task`: the stack is returned to the pool. -/
def beginExit (k : Kernel Ref) : Option (Kernel Ref) :=
  (k.modify k.current (fun t => { t with isZombie := true })).freeStack
    (k.tasks k.current).stackIdx

/-- The end of `exit_current_task`: `tasksub` and `exit_current`. The tasks `waiting` are those
that wait for this exit, and one that waits for any.
-/
def finishExit (turns : Nat) (waiting : List Ref) (k : Kernel Ref) : Control × Kernel Ref :=
  let k := k.tasksub
  if (k.tasks k.current).state ≠ .running then (.panicked .notRunning, k)
  else if (k.tasks k.current).isIdle then (.panicked .isIdle, k)
  else if k.taskNub = 0 then (.terminated, k)
  else
    let k := waiting.foldl unblockTask (k.setState k.current .exited)
    resched turns k false 1

-----------------------------------------------------------------------------------------
-- What is selected
-----------------------------------------------------------------------------------------

section Selection

variable {k : Kernel Ref} {preempt : Bool} {tid : Nat} {pre post rest : List Ref} {t : Ref}

theorem putCurrent_passed : (k.putCurrent preempt).Passed tid pre ↔ k.Passed tid pre :=
  passed_congr (fun t => (k.putCurrent_tasks preempt t).1)
    (fun t => (k.putCurrent_tasks preempt t).2.2 tid)

/-- The first task that is not passed is selected when it is eligible. -/
theorem selected_of_eligible (preempt : Bool) (keep : k.tasksToKeep = pre ++ t :: post)
    (passed : k.Passed tid pre) (notThree : k.tid t ≠ 3) (unseen : k.tid t ∉ pre.map k.tid)
    (eligible : k.eligible tid t = true)
    : k.selected preempt tid = ({ k.putCurrent preempt with readyQueue := post ++ pre }, t) := by
  have kept := k.putCurrent_tasks preempt
  obtain ⟨seen, sameIds, run⟩ := selectNext_pass (k := k.putCurrent preempt) [] pre
    (t :: post) [] (putCurrent_passed.mpr passed) (by simp)
  rw [List.append_nil, List.nil_append, List.cons_append, selectNext,
    if_neg (by rwa [(kept t).1]), if_neg, if_pos (by rwa [(kept t).2.2])] at run
  · unfold selected
    simp only [putCurrent_readyQueue, keep, run]
    rfl
  · rw [sameIds]
    simpa [(kept _).1] using unseen

/-- When all tasks are passed, the first one is met again and selected if it has started;
otherwise it is dropped for the idle task.
-/
theorem selected_of_passed (preempt : Bool) (keep : k.tasksToKeep = t :: rest)
    (passed : k.Passed tid (t :: rest))
    : k.selected preempt tid
      = ({ k.putCurrent preempt with readyQueue := rest },
          if (k.tasks t).isStarted then t else k.idleTask) := by
  have kept := k.putCurrent_tasks preempt
  obtain ⟨seen, sameIds, run⟩ := selectNext_pass (k := k.putCurrent preempt) []
    (t :: rest) [] [] (putCurrent_passed.mpr passed) (by simp)
  have notThree := passed.kept t (by simp)
  have seenAgain : (k.putCurrent preempt).tid t ∈ seen := (sameIds _).mpr (by simp)
  rw [List.append_nil, List.append_nil, List.nil_append, List.nil_append,
    selectNext.eq_def _ _ _ seen] at run
  simp only [if_neg (show ¬ (k.putCurrent preempt).tid t = 3 by rwa [(kept t).1]),
    if_pos seenAgain, (kept t).2.1] at run
  unfold selected
  simp only [putCurrent_readyQueue, keep, run, putCurrent_idleTask]
  split <;> rfl

theorem selected_of_empty (keep : k.tasksToKeep = [])
    : k.selected preempt tid
      = ({ k.putCurrent preempt with readyQueue := [] }, k.idleTask) := by
  unfold selected
  simp only [putCurrent_readyQueue, keep, putCurrent_idleTask, selectNext]
  rfl

end Selection

-----------------------------------------------------------------------------------------
-- The ways out of a switch
-----------------------------------------------------------------------------------------

section Cases

variable {k k₁ : Kernel Ref} {preempt : Bool} {tid turns : Nat} {next : Ref}

/-- A switch to the current task returns. -/
theorem resched_of_same (turns : Nat) (selected : k.selected preempt tid = (k₁, k.current))
    : k.resched (turns + 1) preempt tid = (.returned, k₁.setState k.current .running) := by
  simp [resched, selected, switchTo]

/-- A switch to a kernel task makes it current and selects again. -/
theorem resched_of_kernel (selected : k.selected preempt tid = (k₁, next))
    (other : k.current ≠ next) (kernel : (k₁.tasks next).isKernelTask = true)
    : k.resched (turns + 1) preempt tid
      = resched turns { k₁.setState next .running with current := next } false 0 := by
  have named : ((k₁.setState next .running).tasks next).isKernelTask = true := by
    simpa [setState, modify, Task.isKernelTask] using kernel
  simp [resched, selected, switchTo, other, named]

/-- A switch to a task that has started leaves the caller's frame. -/
theorem resched_of_started (turns : Nat) (selected : k.selected preempt tid = (k₁, next))
    (other : k.current ≠ next) (user : (k₁.tasks next).isKernelTask = false)
    (started : (k₁.tasks next).isStarted = true)
    : (k.resched (turns + 1) preempt tid).1 = .switched := by
  have named : ((k₁.setState next .running).tasks next).isKernelTask = false := by
    simpa [setState, modify, Task.isKernelTask] using user
  have started' : ((k₁.setState next .running).tasks next).isStarted = true := by
    simpa [setState, modify] using started
  simp [resched, selected, switchTo, other, named, started']

/-- A switch to a fresh task takes a stack and returns, or finds none. -/
theorem resched_of_fresh (turns : Nat) (selected : k.selected preempt tid = (k₁, next))
    (other : k.current ≠ next) (user : (k₁.tasks next).isKernelTask = false)
    (fresh : (k₁.tasks next).isStarted = false)
    : k.resched (turns + 1) preempt tid
      = match (k₁.setState next .running).allocStack with
        | none => (.panicked .noStack, k₁.setState next .running)
        | some (idx, k₂) =>
            (.returned, {
              k₂.modify next (fun t => { t with isStarted := true, stackIdx := idx }) with
              curStack := idx
              current := next }) := by
  have named : ((k₁.setState next .running).tasks next).isKernelTask = false := by
    simpa [setState, modify, Task.isKernelTask] using user
  have fresh' : ((k₁.setState next .running).tasks next).isStarted = false := by
    simpa [setState, modify] using fresh
  simp only [resched, selected, switchTo, other, named, fresh', Bool.false_eq_true, if_false]

end Cases

end Kernel

end RCoreOS.Axtask
