import RCoreOS.Axtask.SwitchTo
import RCoreOS.Lib.Transition

/-! Ownership of the kernel stack pool. A stack is taken deep inside a switch and returned by
an exiting task that is still current; over every run the taken stacks are exactly those of
the tasks that have started and not yet begun to exit.
-/

namespace RCoreOS.Axtask.Kernel

variable {Ref : Type}

/-- A task that has started and has not yet called `exit_current_task`. -/
def Holds (k : Kernel Ref) (t : Ref) : Prop :=
  (k.tasks t).isStarted = true ∧ (k.tasks t).isZombie = false

/-- The taken stacks and the tasks that hold one match. -/
structure StackPool (k : Kernel Ref) : Prop where
  owned
    : ∀ t,
        k.Holds t
        → 1 ≤ (k.tasks t).stackIdx
          ∧ (k.tasks t).stackIdx < KSTACK_NUM
          ∧ k.kstackState (k.tasks t).stackIdx = true
  apart
    : ∀ t u, k.Holds t → k.Holds u → (k.tasks t).stackIdx = (k.tasks u).stackIdx → t = u
  taken
    : ∀ i,
        1 ≤ i
        → i < KSTACK_NUM
        → k.kstackState i = true
        → ∃ t, k.Holds t ∧ (k.tasks t).stackIdx = i
  exited : ∀ t, (k.tasks t).isZombie = true → (k.tasks t).isStarted = true

/-- Two kernels that agree on everything the pool depends on. -/
structure SamePool (k k' : Kernel Ref) : Prop where
  kstacks : k'.kstackState = k.kstackState
  started : ∀ t, (k'.tasks t).isStarted = (k.tasks t).isStarted
  zombie : ∀ t, (k'.tasks t).isZombie = (k.tasks t).isZombie
  index : ∀ t, (k'.tasks t).stackIdx = (k.tasks t).stackIdx

namespace SamePool

variable {k k' k'' : Kernel Ref}

theorem refl (k : Kernel Ref) : SamePool k k :=
  ⟨rfl, fun _ => rfl, fun _ => rfl, fun _ => rfl⟩

theorem trans (first : SamePool k k') (second : SamePool k' k'') : SamePool k k'' where
  kstacks := second.kstacks.trans first.kstacks
  started t := (second.started t).trans (first.started t)
  zombie t := (second.zombie t).trans (first.zombie t)
  index t := (second.index t).trans (first.index t)

theorem holds (same : SamePool k k') (t : Ref) : k'.Holds t ↔ k.Holds t := by
  simp only [Holds, same.started, same.zombie]

theorem stackPool (same : SamePool k k') (pool : k.StackPool) : k'.StackPool where
  owned t holds := by
    rw [same.index, same.kstacks]
    exact pool.owned t ((same.holds t).mp holds)
  apart t u holds holds' eq := by
    rw [same.index, same.index] at eq
    exact pool.apart t u ((same.holds t).mp holds) ((same.holds u).mp holds') eq
  taken i positive bound state := by
    rw [same.kstacks] at state
    obtain ⟨t, holds, index⟩ := pool.taken i positive bound state
    exact ⟨t, (same.holds t).mpr holds, by rwa [same.index]⟩
  exited t zombie := by
    rw [same.zombie] at zombie
    rw [same.started]
    exact pool.exited t zombie

variable [DecidableEq Ref]

/-- A change of a task object that keeps its pool fields. -/
theorem modify (k : Kernel Ref) (t : Ref) (change : Task → Task)
    (started : ∀ task, (change task).isStarted = task.isStarted)
    (zombie : ∀ task, (change task).isZombie = task.isZombie)
    (index : ∀ task, (change task).stackIdx = task.stackIdx)
    : SamePool k (k.modify t change) := by
  refine ⟨rfl, fun u => ?_, fun u => ?_, fun u => ?_⟩ <;>
    simp only [Kernel.modify] <;> split <;> simp [started, zombie, index]

theorem setState (k : Kernel Ref) (t : Ref) (state : TaskState) : SamePool k (k.setState t state) :=
  modify k t _ (fun _ => rfl) (fun _ => rfl) (fun _ => rfl)

theorem unblockTask (k : Kernel Ref) (t : Ref) : SamePool k (k.unblockTask t) := by
  unfold Kernel.unblockTask
  split
  · have ready := setState k t .ready
    exact ⟨ready.kstacks, ready.started, ready.zombie, ready.index⟩
  · exact refl k

/-- An exit wakes tasks that wait for it. -/
theorem unblockTasks (waiting : List Ref) (k : Kernel Ref)
    : SamePool k (waiting.foldl Kernel.unblockTask k) := by
  induction waiting generalizing k with
  | nil => exact refl k
  | cons t waiting ih => exact (unblockTask k t).trans (ih _)

theorem exited (waiting : List Ref) (k : Kernel Ref)
    : SamePool k (waiting.foldl Kernel.unblockTask (k.tasksub.setState k.current .exited)) :=
  have counted : SamePool k k.tasksub := ⟨rfl, fun _ => rfl, fun _ => rfl, fun _ => rfl⟩
  (counted.trans (setState _ k.current .exited)).trans (unblockTasks waiting _)

/-- Up to its switch, `resched` changes task states and the queue only. -/
theorem selected (k : Kernel Ref) (preempt : Bool) (tid : Nat)
    : SamePool k (k.selected preempt tid).1 := by
  have same := setState k k.current .ready
  unfold Kernel.selected Kernel.putCurrent
  split
  · split <;> exact ⟨same.kstacks, same.started, same.zombie, same.index⟩
  · exact ⟨rfl, fun _ => rfl, fun _ => rfl, fun _ => rfl⟩

end SamePool

-----------------------------------------------------------------------------------------
-- Taking and returning stacks
-----------------------------------------------------------------------------------------

section Pool

variable [DecidableEq Ref] {k k' : Kernel Ref} {t : Ref} {i : Nat}

/-- A fresh task takes the stack that was handed out for it. -/
theorem StackPool.start (pool : k.StackPool) (fresh : (k.tasks t).isStarted = false)
    (alloc : k.allocStack = some (i, k'))
    : (k'.modify t (fun task => { task with isStarted := true, stackIdx := i })).StackPool := by
  obtain ⟨positive, bound, free, rfl⟩ := allocStack_some alloc
  have alive : (k.tasks t).isZombie = false := by
    by_contra zombie
    simp [pool.exited t (by simpa using zombie)] at fresh
  have other {u : Ref} (holds : k.Holds u) : (k.tasks u).stackIdx ≠ i := by
    intro same
    have state := (pool.owned u holds).2.2
    rw [same, free] at state
    cases state
  refine ⟨fun u holds => ?_, fun u v holds holds' eq => ?_, fun j positive' bound' state => ?_,
    fun u zombie => ?_⟩
  · by_cases new : u = t
    · simp [modify, new, positive, bound]
    · simp only [Holds, modify, new, if_false] at holds ⊢
      obtain ⟨positive', bound', state⟩ := pool.owned u holds
      exact ⟨positive', bound', by rwa [Function.update_of_ne (other holds)]⟩
  · simp only [Holds, modify] at holds holds' eq
    by_cases new : u = t <;> by_cases new' : v = t
    · rw [new, new']
    · simp only [new, new', if_true, if_false] at holds' eq
      exact absurd eq.symm (other holds')
    · simp only [new, new', if_true, if_false] at holds eq
      exact absurd eq (other holds)
    · simp only [new, new', if_false] at holds holds' eq
      exact pool.apart u v holds holds' eq
  · by_cases same : j = i
    · exact ⟨t, by simp [Holds, modify, alive], by simp [modify, same]⟩
    · simp only [modify, Function.update_of_ne same] at state
      obtain ⟨u, holds, index⟩ := pool.taken j positive' bound' state
      have old : u ≠ t := by
        rintro rfl
        simp [Holds, fresh] at holds
      exact ⟨u, by simpa [Holds, modify, old] using holds, by simpa [modify, old] using index⟩
  · by_cases new : u = t
    · simp [modify, new]
    · simp only [modify, new, if_false] at zombie ⊢
      exact pool.exited u zombie

/-- An exiting task returns the stack it holds. -/
theorem StackPool.exit (pool : k.StackPool) (holds : k.Holds k.current)
    (ended : k.beginExit = some k')
    : k'.StackPool := by
  unfold beginExit freeStack at ended
  rw [if_pos (pool.owned _ holds).2.1] at ended
  cases ended
  have others {u : Ref} (holds' : Holds (k.modify k.current fun task =>
      { task with isZombie := true }) u) : u ≠ k.current ∧ k.Holds u := by
    by_cases same : u = k.current
    · simp [Holds, modify, same] at holds'
    · exact ⟨same, by simpa [Holds, modify, same] using holds'⟩
  refine ⟨fun u holds' => ?_, fun u v holds' holds'' eq => ?_, fun j positive bound state => ?_,
    fun u zombie => ?_⟩
  · obtain ⟨other, old⟩ := others holds'
    obtain ⟨positive, bound, state⟩ := pool.owned u old
    have apart : (k.tasks u).stackIdx ≠ (k.tasks k.current).stackIdx :=
      fun eq => other (pool.apart u k.current old holds eq)
    simp only [modify, other, if_false]
    exact ⟨positive, bound, by rwa [Function.update_of_ne apart]⟩
  · obtain ⟨other, old⟩ := others holds'
    obtain ⟨other', old'⟩ := others holds''
    simp only [modify, other, other', if_false] at eq
    exact pool.apart u v old old' eq
  · by_cases freed : j = (k.tasks k.current).stackIdx
    · simp [modify, freed] at state
    · simp only [modify, Function.update_of_ne freed] at state
      obtain ⟨u, old, index⟩ := pool.taken j positive bound state
      have other : u ≠ k.current := by
        rintro rfl
        exact freed index.symm
      exact ⟨u, by simpa [Holds, modify, other] using old, by simpa [modify, other] using index⟩
  · by_cases same : u = k.current
    · simpa [modify, same] using holds.1
    · simp only [modify, same, if_false] at zombie ⊢
      exact pool.exited u zombie

/-- A new task object takes no stack when its reference names no started task. -/
theorem StackPool.spawn (pool : k.StackPool) (unused : (k.tasks t).isStarted = false)
    (tid : Nat) (name : String) (cpuSet : Nat)
    : (k.spawn t tid name cpuSet).StackPool := by
  have others {u : Ref} (holds : (k.spawn t tid name cpuSet).Holds u) : u ≠ t ∧ k.Holds u := by
    by_cases same : u = t
    · simp [Holds, Kernel.spawn, addTask, taskadd, modify, same] at holds
    · exact ⟨same, by simpa [Holds, Kernel.spawn, addTask, taskadd, modify, same] using holds⟩
  refine ⟨fun u holds => ?_, fun u v holds holds' eq => ?_, fun j positive bound state => ?_,
    fun u zombie => ?_⟩
  · obtain ⟨other, old⟩ := others holds
    simpa [Kernel.spawn, addTask, taskadd, modify, other] using pool.owned u old
  · obtain ⟨other, old⟩ := others holds
    obtain ⟨other', old'⟩ := others holds'
    simp only [Kernel.spawn, addTask, taskadd, modify, other, other', if_false] at eq
    exact pool.apart u v old old' eq
  · obtain ⟨u, old, index⟩ := pool.taken j positive bound state
    have other : u ≠ t := by
      rintro rfl
      simp [Holds, unused] at old
    exact ⟨u, by simpa [Holds, Kernel.spawn, addTask, taskadd, modify, other] using old,
      by simpa [Kernel.spawn, addTask, taskadd, modify, other] using index⟩
  · by_cases same : u = t
    · simp [Kernel.spawn, addTask, taskadd, modify, same] at zombie
    · simp only [Kernel.spawn, addTask, taskadd, modify, same, if_false] at zombie ⊢
      exact pool.exited u zombie

-----------------------------------------------------------------------------------------
-- Switches
-----------------------------------------------------------------------------------------

/-- A switch keeps the pool matched when the nested `resched` does. -/
theorem StackPool.switchTo (pool : k.StackPool) {again : Kernel Ref → Control × Kernel Ref}
    (nested : ∀ k, k.StackPool → (again k).2.StackPool) (prev next : Ref)
    : (k.switchTo again prev next).2.StackPool := by
  have same := SamePool.setState k next .running
  have running := same.stackPool pool
  unfold Kernel.switchTo
  dsimp only
  split
  · exact running
  split
  · exact nested _ ⟨running.owned, running.apart, running.taken, running.exited⟩
  split
  · have resumed := SamePool.modify (k.setState next .running) next
      (fun t => { t with hasBeenPreempted := false })
      (fun _ => rfl) (fun _ => rfl) (fun _ => rfl)
    have after := resumed.stackPool running
    exact ⟨after.owned, after.apart, after.taken, after.exited⟩
  · rename_i fresh
    split
    · exact running
    · rename_i idx k' alloc
      have after := running.start (by simpa using fresh) alloc
      exact ⟨after.owned, after.apart, after.taken, after.exited⟩

/-- `resched` keeps the pool matched, by induction on the nested calls. -/
theorem StackPool.resched (turns : Nat) (pool : k.StackPool) (preempt : Bool) (tid : Nat)
    : (k.resched turns preempt tid).2.StackPool := by
  induction turns generalizing k preempt tid with
  | zero => exact pool
  | succ turns ih =>
      have selected := (SamePool.selected k preempt tid).stackPool pool
      exact selected.switchTo (fun k pool => ih pool false 0) _ _

/-- A started task keeps its stack. -/
def KeepsStacks (k k' : Kernel Ref) : Prop :=
  ∀ t, (k.tasks t).isStarted = true
    → (k'.tasks t).isStarted = true ∧ (k'.tasks t).stackIdx = (k.tasks t).stackIdx

omit [DecidableEq Ref] in
theorem SamePool.keepsStacks (same : SamePool k k') : KeepsStacks k k' := fun t started =>
  ⟨(same.started t).trans started, same.index t⟩

omit [DecidableEq Ref] in
theorem KeepsStacks.trans {k'' : Kernel Ref} (first : KeepsStacks k k')
    (second : KeepsStacks k' k'') : KeepsStacks k k'' := fun t started =>
  ⟨(second t (first t started).1).1,
    (second t (first t started).1).2.trans (first t started).2⟩

/-- A switch only gives a stack to a task that has not started. -/
theorem switchTo_keepsStacks {again : Kernel Ref → Control × Kernel Ref}
    (nested : ∀ k, KeepsStacks k (again k).2) (prev next : Ref)
    : KeepsStacks k (k.switchTo again prev next).2 := by
  have running := (SamePool.setState k next .running).keepsStacks
  unfold Kernel.switchTo
  dsimp only
  split
  · exact running
  split
  · exact running.trans (nested { k.setState next .running with current := next })
  split
  · exact running.trans (SamePool.modify (k.setState next .running) next
      (fun t => { t with hasBeenPreempted := false })
      (fun _ => rfl) (fun _ => rfl) (fun _ => rfl)).keepsStacks
  · rename_i fresh
    split
    · exact running
    · rename_i idx k' alloc
      obtain ⟨-, -, -, rfl⟩ := allocStack_some alloc
      refine running.trans fun u started => ?_
      have other : u ≠ next := by
        rintro rfl
        exact fresh started
      simpa [modify, other] using started

theorem resched_keepsStacks (turns : Nat) (k : Kernel Ref) (preempt : Bool) (tid : Nat)
    : KeepsStacks k (k.resched turns preempt tid).2 := by
  induction turns generalizing k preempt tid with
  | zero => exact (SamePool.refl k).keepsStacks
  | succ turns ih =>
      exact (SamePool.selected k preempt tid).keepsStacks.trans
        (switchTo_keepsStacks (fun k => ih k false 0) _ _)

/-- A switch that finds no stack has changed nothing that the pool depends on. -/
theorem switchTo_noStack {again : Kernel Ref → Control × Kernel Ref}
    (nested : ∀ k k', again k = (.panicked .noStack, k') → SamePool k k' ∧ k'.allocStack = none)
    {prev next : Ref} (run : k.switchTo again prev next = (.panicked .noStack, k'))
    : SamePool k k' ∧ k'.allocStack = none := by
  have same := SamePool.setState k next .running
  unfold switchTo at run
  dsimp only at run
  split at run
  · cases run
  split at run
  · obtain ⟨same', none⟩ := nested _ _ run
    have moved : SamePool k { k.setState next .running with current := next } :=
      ⟨same.kstacks, same.started, same.zombie, same.index⟩
    exact ⟨moved.trans same', none⟩
  split at run
  · cases run
  split at run
  · rename_i none
    cases run
    exact ⟨same, none⟩
  · cases run

theorem resched_noStack (turns : Nat) {preempt : Bool} {tid : Nat}
    (run : k.resched turns preempt tid = (.panicked .noStack, k'))
    : SamePool k k' ∧ k'.allocStack = none := by
  induction turns generalizing k k' preempt tid with
  | zero => cases run
  | succ turns ih =>
      obtain ⟨same, none⟩ := switchTo_noStack (fun _ _ run => ih run) run
      exact ⟨(SamePool.selected k preempt tid).trans same, none⟩

end Pool

-----------------------------------------------------------------------------------------
-- Every run
-----------------------------------------------------------------------------------------

section Runs

variable [DecidableEq Ref]

/-- A call after which the kernel goes on, in the caller's frame or in another one. -/
def Goes (call : Control × Kernel Ref) (k' : Kernel Ref) : Prop :=
  call = (.returned, k') ∨ call = (.switched, k')

/-- One step of a run. Any task may be created, scheduled, blocked and woken in any order; a
task exits once, in two steps, between which others may run.
-/
inductive Step (k : Kernel Ref) : Kernel Ref → Prop
  | spawn (t tid name cpuSet)
    : (k.tasks t).isStarted = false → Step k (k.spawn t tid name cpuSet)
  | resched (turns preempt tid) {k'} : Goes (k.resched turns preempt tid) k' → Step k k'
  | block (turns) {k'} : Goes (k.blockCurrent turns) k' → Step k k'
  | unblock (t) : Step k (k.unblockTask t)
  | exitBegins {k'}
    : k.Holds k.current
      → (k.tasks k.current).isKernelTask = false
      → k.beginExit = some k'
      → Step k k'
  | exitEnds (turns waiting) {k'}
    : (k.tasks k.current).isZombie = true → Goes (k.finishExit turns waiting) k' → Step k k'

/-- At boot no task has started and all stacks are free. -/
def Boot (k : Kernel Ref) : Prop :=
  (∀ t, (k.tasks t).isStarted = false ∧ (k.tasks t).isZombie = false)
    ∧ k.kstackState = fun _ => false

abbrev Reachable (k : Kernel Ref) : Prop :=
  Transition.Reachable Boot Step k

variable {k k' : Kernel Ref}

/-- A call of `blockCurrent` goes on in the scheduler. -/
theorem blockCurrent_goes {turns : Nat} (run : Goes (k.blockCurrent turns) k')
    : Goes ((k.setState k.current .blocked).resched turns false 0) k' := by
  unfold blockCurrent at run
  split at run
  · rcases run with run | run <;> cases run
  split at run
  · rcases run with run | run <;> cases run
  · exact run

/-- A call of `finishExit` goes on in the scheduler. -/
theorem finishExit_goes {turns : Nat} {waiting : List Ref}
    (run : Goes (k.finishExit turns waiting) k')
    : Goes ((waiting.foldl unblockTask (k.tasksub.setState k.tasksub.current .exited)).resched
        turns false 1) k' := by
  unfold finishExit at run
  dsimp only at run
  split at run
  · rcases run with run | run <;> cases run
  split at run
  · rcases run with run | run <;> cases run
  split at run
  · rcases run with run | run <;> cases run
  · exact run

theorem Step.stackPool (pool : k.StackPool) (step : Step k k') : k'.StackPool := by
  have goes {call : Control × Kernel Ref} (kept : call.2.StackPool) (goes : Goes call k')
      : k'.StackPool := by
    rcases goes with rfl | rfl <;> exact kept
  cases step with
  | spawn t tid name cpuSet unused => exact pool.spawn unused tid name cpuSet
  | resched turns preempt tid run => exact goes (pool.resched turns preempt tid) run
  | block turns run =>
      have blocked := (SamePool.setState k k.current .blocked).stackPool pool
      exact goes (blocked.resched turns false 0) (blockCurrent_goes run)
  | unblock t => exact (SamePool.unblockTask k t).stackPool pool
  | exitBegins holds _ ended => exact pool.exit holds ended
  | exitEnds turns waiting _ run =>
      have exited := (SamePool.exited waiting k).stackPool pool
      exact goes (exited.resched turns false 1) (finishExit_goes run)

/-- From one step to the next a started task keeps its stack. -/
theorem Step.keepsStacks (step : Step k k') : KeepsStacks k k' := by
  have goes {call : Control × Kernel Ref} (kept : KeepsStacks k call.2) (goes : Goes call k')
      : KeepsStacks k k' := by
    rcases goes with rfl | rfl <;> exact kept
  have blocked := (SamePool.setState k k.current .blocked).keepsStacks
  cases step with
  | spawn t tid name cpuSet unused =>
      intro u started
      have other : u ≠ t := by
        rintro rfl
        simp [unused] at started
      simpa [Kernel.spawn, addTask, taskadd, modify, other] using started
  | resched turns preempt tid run => exact goes (resched_keepsStacks turns k preempt tid) run
  | block turns run =>
      exact goes (blocked.trans (resched_keepsStacks turns _ false 0)) (blockCurrent_goes run)
  | unblock t => exact (SamePool.unblockTask k t).keepsStacks
  | exitBegins holds _ ended =>
      unfold beginExit freeStack at ended
      split at ended
      · cases ended
        intro u started
        by_cases same : u = k.current <;> simpa [modify, same] using started
      · cases ended
  | exitEnds turns waiting _ run =>
      have exited := (SamePool.exited waiting k).keepsStacks
      exact goes (exited.trans (resched_keepsStacks turns _ false 1)) (finishExit_goes run)

theorem Reachable.stackPool (reachable : Reachable k) : k.StackPool := by
  refine Transition.Reachable.invariant StackPool ?_ (fun _ _ => Step.stackPool) reachable
  rintro k ⟨fresh, free⟩
  refine ⟨fun t holds => ?_, fun t u holds => ?_, fun i _ _ state => ?_, fun t zombie => ?_⟩
  · simp [Holds, fresh t] at holds
  · simp [Holds, fresh t] at holds
  · simp [free] at state
  · simp [fresh t] at zombie

/-- In every run a stack is taken exactly when one task holds it, so no two tasks share a
stack; and a task keeps the stack it started with, so it returns its own when it exits.
-/
theorem Reachable.stack_taken_iff (reachable : Reachable k)
    : (∀ i,
        1 ≤ i
        → i < KSTACK_NUM
        → (k.kstackState i = true ↔ ∃! t, k.Holds t ∧ (k.tasks t).stackIdx = i))
      ∧ ∀ k', Step k k' → KeepsStacks k k' := by
  have pool := reachable.stackPool
  refine ⟨fun i positive bound => ⟨fun state => ?_, ?_⟩, fun k' step => step.keepsStacks⟩
  · obtain ⟨t, holds, index⟩ := pool.taken i positive bound state
    refine ⟨t, ⟨holds, index⟩, ?_⟩
    rintro u ⟨holds', index'⟩
    exact pool.apart u t holds' holds (index'.trans index.symm)
  · rintro ⟨t, ⟨holds, index⟩, -⟩
    exact index ▸ (pool.owned t holds).2.2

/-- Every stack that is handed out has its own holder. -/
def AllHeld (k : Kernel Ref) : Prop :=
  ∃ holder : Nat → Ref,
    ∀ i, 1 ≤ i → i < KSTACK_NUM → k.Holds (holder i) ∧ (k.tasks (holder i)).stackIdx = i

omit [DecidableEq Ref] in
theorem StackPool.allHeld_iff (pool : k.StackPool) : k.allocStack = none ↔ k.AllHeld := by
  rw [allocStack_none]
  constructor
  · intro all
    have held (i : Nat)
        : ∃ t, 1 ≤ i → i < KSTACK_NUM → k.Holds t ∧ (k.tasks t).stackIdx = i := by
      by_cases inPool : 1 ≤ i ∧ i < KSTACK_NUM
      · obtain ⟨t, holds, index⟩ := pool.taken i inPool.1 inPool.2 (all i inPool.1 inPool.2)
        exact ⟨t, fun _ _ => ⟨holds, index⟩⟩
      · exact ⟨k.current, fun positive bound => absurd ⟨positive, bound⟩ inPool⟩
    exact ⟨fun i => (held i).choose, fun i => (held i).choose_spec⟩
  · rintro ⟨holder, held⟩ i positive bound
    obtain ⟨holds, index⟩ := held i positive bound
    exact index ▸ (pool.owned _ holds).2.2

/-- In every run the pool is exhausted exactly when nine tasks hold the nine stacks, and a
call of `resched`, `block_current` or `exit_current` reaches the panic only then.
-/
theorem Reachable.noStack_iff (reachable : Reachable k)
    : (k.allocStack = none ↔ k.AllHeld)
      ∧ ∀ k' turns preempt tid waiting,
          k.resched turns preempt tid = (.panicked .noStack, k')
            ∨ k.blockCurrent turns = (.panicked .noStack, k')
            ∨ k.finishExit turns waiting = (.panicked .noStack, k')
          → k.AllHeld := by
  have pool := reachable.stackPool
  have held {k₀ k' : Kernel Ref} {turns preempt tid} (same : SamePool k k₀)
      (run : k₀.resched turns preempt tid = (.panicked .noStack, k')) : k.AllHeld := by
    obtain ⟨same', none⟩ := resched_noStack turns run
    rw [← pool.allHeld_iff, allocStack_none]
    rw [allocStack_none, (same.trans same').kstacks] at none
    exact none
  refine ⟨pool.allHeld_iff, fun k' turns preempt tid waiting run => ?_⟩
  rcases run with run | run | run
  · exact held (SamePool.refl k) run
  · unfold blockCurrent at run
    split at run
    · cases run
    split at run
    · cases run
    · exact held (SamePool.setState k k.current .blocked) run
  · unfold finishExit at run
    dsimp only at run
    split at run
    · cases run
    split at run
    · cases run
    split at run
    · cases run
    · exact held (SamePool.exited waiting k) run

end Runs

-----------------------------------------------------------------------------------------
-- Ten tasks that yield
-----------------------------------------------------------------------------------------

/-- The main task 0 runs, task 11 is idle, and nothing else was created. -/
def booted : Kernel Nat where
  tasks
    | 0 => ⟨1, "main", false, 1, .running, false, 0, false, false⟩
    | _ => ⟨3, "idle", true, 1, .ready, false, 0, false, false⟩
  readyQueue := []
  kstackState := fun _ => false
  taskNub := 0
  curStack := 0
  current := 0
  idleTask := 11
  thisCpuId := 0

/-- Ten user tasks 1 to 10 are created, with ids from 4. -/
def tenSpawned : Kernel Nat :=
  (List.range' 1 10).foldl (fun k t => k.spawn t (t + 3) "user" 1) booted

/-- A user task as it is created. -/
def user (t : Nat) : Task :=
  ⟨t + 3, "user", false, 1, .ready, false, 0, false, false⟩

/-- Tasks 1 to `n` have started, each on its own stack, and the others wait in their order. -/
structure Yielding (n : Nat) (k : Kernel Nat) : Prop where
  reachable : k.Reachable
  taken : ∀ i, k.kstackState i = true ↔ 1 ≤ i ∧ i ≤ n
  queue : ∃ later, k.readyQueue = List.range' (n + 1) (10 - n) ++ later
  fresh : ∀ t, n < t → t ≤ 10 → k.tasks t = user t
  running : (k.tasks k.current).state = .running ∧ (k.tasks k.current).isIdle = false
  started : k.current ≤ n
  cpu : k.thisCpuId = 0

theorem tenSpawned_yielding : Yielding 0 tenSpawned where
  reachable := by
    have unstarted (k : Kernel Nat) (t tid : Nat) (all : ∀ u, (k.tasks u).isStarted = false)
        (u : Nat) : ((k.spawn t tid "user" 1).tasks u).isStarted = false := by
      by_cases same : u = t <;> simp [spawn, addTask, taskadd, modify, same, all]
    have spawned (ts : List Nat) (k : Kernel Nat) (reachable : k.Reachable)
        (all : ∀ u, (k.tasks u).isStarted = false)
        : (ts.foldl (fun k t => k.spawn t (t + 3) "user" 1) k).Reachable := by
      induction ts generalizing k with
      | nil => exact reachable
      | cons t ts ih =>
          exact ih _ (reachable.next (.spawn t (t + 3) "user" 1 (all t)))
            (unstarted k t (t + 3) all)
    have fresh (t : Nat)
        : (booted.tasks t).isStarted = false ∧ (booted.tasks t).isZombie = false := by
      cases t <;> exact ⟨rfl, rfl⟩
    exact spawned _ booted (.start ⟨fresh, rfl⟩) (fun t => (fresh t).1)
  taken i := by
    have free : tenSpawned.kstackState = fun _ => false := rfl
    simp only [free, Bool.false_eq_true, false_iff]
    omega
  queue := ⟨[], rfl⟩
  fresh t positive bound := by
    have each : ∀ t : Fin 11, 0 < t.val → tenSpawned.tasks t = user t := by decide
    exact each ⟨t, by omega⟩ positive
  running := ⟨rfl, rfl⟩
  started := Nat.le_refl 0
  cpu := rfl

theorem putCurrent_tasks_of_ne (k : Kernel Nat) (preempt : Bool) {t : Nat}
    (other : t ≠ k.current)
    : (k.putCurrent preempt).tasks t = k.tasks t := by
  unfold putCurrent
  split
  · split <;> simp [setState, modify, putPrevTask, other]
  · rfl

theorem putCurrent_cpu (k : Kernel Nat) (preempt : Bool)
    : (k.putCurrent preempt).thisCpuId = k.thisCpuId := by
  unfold putCurrent
  split
  · split <;> rfl
  · rfl

/-- A yield selects the first task that waits. -/
theorem Yielding.selected {n : Nat} {k : Kernel Nat} (yielding : Yielding n k) (more : n < 10)
    : ∃ later,
        k.selected false 0
          = ({ k.putCurrent false with
              readyQueue := List.range' (n + 1 + 1) (10 - (n + 1)) ++ later }, n + 1) := by
  obtain ⟨later, queue⟩ := yielding.queue
  have first : List.range' (n + 1) (10 - n)
      = (n + 1) :: List.range' (n + 1 + 1) (10 - (n + 1)) := by
    rw [show 10 - n = (10 - (n + 1)) + 1 by omega, List.range'_succ]
  have other : n + 1 ≠ k.current := by
    have := yielding.started
    omega
  have waiting := yielding.fresh (n + 1) (by omega) (by omega)
  refine ⟨later ++ [k.current], ?_⟩
  have kept := k.putCurrent_tasks false (n + 1)
  have eligible : (k.putCurrent false).eligible 0 (n + 1) = true := by
    rw [kept.2.2]
    simp [Kernel.eligible, runsHere, waiting, user, yielding.cpu]
  have notThree : (k.putCurrent false).tid (n + 1) ≠ 3 := by
    rw [kept.1]
    simp [Kernel.tid, waiting, user]
  have ready : (k.putCurrent false).readyQueue
      = (n + 1) :: (List.range' (n + 1 + 1) (10 - (n + 1)) ++ (later ++ [k.current])) := by
    rw [putCurrent_readyQueue, tasksToKeep, if_pos yielding.running, queue, first]
    simp
  unfold Kernel.selected
  simp only [ready]
  rw [selectNext, if_neg notThree, if_neg (by simp), if_pos eligible]
  rfl

/-- While stacks are left, a yield starts the next task on the next stack. -/
theorem Yielding.next {n : Nat} {k : Kernel Nat} (yielding : Yielding n k) (more : n < 9)
    : Yielding (n + 1) (k.resched 1 false 0).2 := by
  obtain ⟨later, selected⟩ := yielding.selected (by omega)
  have waiting := yielding.fresh (n + 1) (by omega) (by omega)
  have other : k.current ≠ n + 1 := by
    have := yielding.started
    omega
  have apart (t : Nat) (later : n < t) : (k.putCurrent false).tasks t = k.tasks t :=
    putCurrent_tasks_of_ne k false (by have := yielding.started; omega)
  have kstacks : (k.putCurrent false).kstackState = k.kstackState :=
    (SamePool.selected k false 0).kstacks ▸ by rw [selected]
  have alloc : (List.range' 1 (KSTACK_NUM - 1)).find? (fun i => !k.kstackState i)
      = some (n + 1) := by
    rw [List.find?_range'_eq_some, List.mem_range'_1]
    refine ⟨?_, by unfold KSTACK_NUM; omega, fun i positive bound => ?_⟩
    · have free := (yielding.taken (n + 1)).not.mpr (by omega)
      simpa using free
    · simpa using (yielding.taken i).mpr (by omega)
  have run := resched_of_fresh 0 selected other
    (by simp [apart, waiting, user, Task.isKernelTask]) (by simp [apart, waiting, user])
  simp only [allocStack, setState, modify, kstacks, alloc] at run
  have step := Step.resched 1 false 0 (.inl run)
  rw [run]
  refine ⟨yielding.reachable.next step, fun i => ?_, ⟨later, rfl⟩, fun t started bound => ?_,
    ?_, ?_, ?_⟩
  · by_cases same : i = n + 1
    · simp [same]
    · simp only [Function.update_of_ne same, yielding.taken]
      omega
  · have old : t ≠ n + 1 := by omega
    simp only [old, if_false, apart t (by omega)]
    exact yielding.fresh t (by omega) bound
  · simp [apart, waiting, user]
  · exact Nat.le_refl (n + 1)
  · have kept := (k.putCurrent_cpu false).trans yielding.cpu
    exact kept

/-- The tasks yield one after the other, `n` times. -/
def yields : Nat → Kernel Nat
  | 0 => tenSpawned
  | n + 1 => ((yields n).resched 1 false 0).2

theorem yields_yielding {n : Nat} (bound : n ≤ 9) : Yielding n (yields n) := by
  induction n with
  | zero => exact tenSpawned_yielding
  | succ n ih => exact (ih (by omega)).next (by omega)

/-- When nine tasks have started and yielded, the tenth finds no stack. -/
theorem noStack_after_nine_yields
    : (yields 9).Reachable ∧ ((yields 9).resched 1 false 0).1 = .panicked .noStack := by
  have yielding := yields_yielding (Nat.le_refl 9)
  obtain ⟨later, selected⟩ := yielding.selected (by decide)
  have other : (yields 9).current ≠ 10 := by
    have := yielding.started
    omega
  have waiting : ((yields 9).putCurrent false).tasks 10 = user 10 := by
    rw [putCurrent_tasks_of_ne _ false other.symm]
    exact yielding.fresh 10 (by decide) (by decide)
  have same := (SamePool.selected (yields 9) false 0).trans
    (SamePool.setState ((yields 9).selected false 0).1 10 .running)
  have none : (((yields 9).selected false 0).1.setState 10 .running).allocStack = none := by
    rw [allocStack_none, same.kstacks]
    intro i positive bound
    unfold KSTACK_NUM at bound
    exact (yielding.taken i).mpr ⟨positive, by omega⟩
  rw [selected] at none
  have run := resched_of_fresh 0 selected other
    (by simp [waiting, user, Task.isKernelTask]) (by simp [waiting, user])
  rw [none] at run
  exact ⟨yielding.reachable, congrArg Prod.fst run⟩

/-- Witness: after one yield the first task is the only holder of stack 1. -/
theorem stack_taken_after_yield
    : ∃! t, (yields 1).Holds t ∧ ((yields 1).tasks t).stackIdx = 1 := by
  have yielding := yields_yielding (n := 1) (by decide)
  have taken := Reachable.stack_taken_iff yielding.reachable
  exact (taken.1 1 (by decide) (by decide)).mp ((yielding.taken 1).mpr ⟨by decide, by decide⟩)

/-- Witness: after nine yields nine tasks hold the nine stacks. -/
theorem nine_yields_hold_all : (yields 9).AllHeld := by
  have yielding := yields_yielding (Nat.le_refl 9)
  refine (Reachable.noStack_iff yielding.reachable).1.mp (allocStack_none.mpr ?_)
  intro i positive bound
  unfold KSTACK_NUM at bound
  exact (yielding.taken i).mpr ⟨positive, by omega⟩

end RCoreOS.Axtask.Kernel
