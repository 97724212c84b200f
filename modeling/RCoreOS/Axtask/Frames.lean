import RCoreOS.Axtask.SwitchTo

/-! Which calls of `resched` leave the caller's frame. A switch to a started user task does; a
switch to a fresh one, or back to a kernel task, returns to the caller under another current
task.
-/

namespace RCoreOS.Axtask.Kernel

variable {Ref : Type}

-----------------------------------------------------------------------------------------
-- Rescheduling changes no identities and blocks no task
-----------------------------------------------------------------------------------------

/-- Two kernels that differ in task states, the queue and the current task only. -/
structure SameButStates (k k' : Kernel Ref) : Prop where
  tasks : ∀ t, ∃ state, k'.tasks t = { k.tasks t with state }
  kstacks : k'.kstackState = k.kstackState
  idleTask : k'.idleTask = k.idleTask
  cpu : k'.thisCpuId = k.thisCpuId

namespace SameButStates

variable {k k' k'' : Kernel Ref}

theorem refl (k : Kernel Ref) : SameButStates k k :=
  ⟨fun t => ⟨(k.tasks t).state, rfl⟩, rfl, rfl, rfl⟩

theorem trans (first : SameButStates k k') (second : SameButStates k' k'')
    : SameButStates k k'' where
  tasks t := by
    obtain ⟨_, same⟩ := first.tasks t
    obtain ⟨state, same'⟩ := second.tasks t
    exact ⟨state, by rw [same', same]⟩
  kstacks := second.kstacks.trans first.kstacks
  idleTask := second.idleTask.trans first.idleTask
  cpu := second.cpu.trans first.cpu

variable (same : SameButStates k k') (t : Ref)
include same

theorem tid : k'.tid t = k.tid t := by
  obtain ⟨_, eq⟩ := same.tasks t
  simp only [Kernel.tid, eq]

theorem eligible (tid : Nat) : k'.eligible tid t = k.eligible tid t := by
  obtain ⟨_, eq⟩ := same.tasks t
  simp only [Kernel.eligible, runsHere, Kernel.tid, eq, same.cpu]

theorem isStarted : (k'.tasks t).isStarted = (k.tasks t).isStarted := by
  obtain ⟨_, eq⟩ := same.tasks t
  rw [eq]

theorem isKernelTask : (k'.tasks t).isKernelTask = (k.tasks t).isKernelTask := by
  obtain ⟨_, eq⟩ := same.tasks t
  rw [eq]
  rfl

theorem isIdle : (k'.tasks t).isIdle = (k.tasks t).isIdle := by
  obtain ⟨_, eq⟩ := same.tasks t
  rw [eq]

end SameButStates

section Reschedule

variable [DecidableEq Ref] {k k' : Kernel Ref} {t : Ref}

theorem sameButStates_setState (k : Kernel Ref) (t : Ref) (state : TaskState)
    : SameButStates k (k.setState t state) where
  tasks u := by
    by_cases same : u = t
    · exact ⟨state, by simp [setState, modify, same]⟩
    · exact ⟨(k.tasks u).state, by simp [setState, modify, same]⟩
  kstacks := rfl
  idleTask := rfl
  cpu := rfl

theorem sameButStates_putCurrent (k : Kernel Ref) (preempt : Bool)
    : SameButStates k (k.putCurrent preempt) := by
  have same := sameButStates_setState k k.current .ready
  unfold putCurrent
  split
  · split <;> exact ⟨same.tasks, rfl, rfl, rfl⟩
  · exact .refl k

/-- What a reschedule keeps: identities, and that a task that was not blocked is not blocked
afterwards.
-/
structure Rescheduled (k k' : Kernel Ref) : Prop where
  tid : ∀ t, k'.tid t = k.tid t
  isIdle : ∀ t, (k'.tasks t).isIdle = (k.tasks t).isIdle
  idleTask : k'.idleTask = k.idleTask
  blocked : ∀ t, (k'.tasks t).state = .blocked → (k.tasks t).state = .blocked

omit [DecidableEq Ref] in
theorem Rescheduled.refl (k : Kernel Ref) : Rescheduled k k :=
  ⟨fun _ => rfl, fun _ => rfl, rfl, fun _ => id⟩

omit [DecidableEq Ref] in
theorem Rescheduled.trans {k'' : Kernel Ref} (first : Rescheduled k k')
    (second : Rescheduled k' k'')
    : Rescheduled k k'' where
  tid t := (second.tid t).trans (first.tid t)
  isIdle t := (second.isIdle t).trans (first.isIdle t)
  idleTask := second.idleTask.trans first.idleTask
  blocked t blocked := first.blocked t (second.blocked t blocked)

theorem rescheduled_modify (k : Kernel Ref) (t : Ref) (change : Task → Task)
    (tid : ∀ task, (change task).tid = task.tid)
    (isIdle : ∀ task, (change task).isIdle = task.isIdle)
    (blocked : ∀ task, (change task).state = .blocked → task.state = .blocked)
    : Rescheduled k (k.modify t change) := by
  refine ⟨fun u => ?_, fun u => ?_, rfl, fun u => ?_⟩ <;>
    simp only [Kernel.tid, modify] <;> split <;> simp_all

theorem rescheduled_setState (k : Kernel Ref) (t : Ref) (state : TaskState)
    (active : state ≠ .blocked)
    : Rescheduled k (k.setState t state) :=
  rescheduled_modify k t _ (fun _ => rfl) (fun _ => rfl) (fun _ blocked => absurd blocked active)

theorem rescheduled_selected (k : Kernel Ref) (preempt : Bool) (tid : Nat)
    : Rescheduled k (k.selected preempt tid).1 := by
  have same := rescheduled_setState k k.current .ready (by decide)
  unfold selected putCurrent
  split
  · split <;> exact ⟨same.tid, same.isIdle, same.idleTask, same.blocked⟩
  · exact ⟨fun _ => rfl, fun _ => rfl, rfl, fun _ => id⟩

theorem rescheduled_switchTo {again : Kernel Ref → Control × Kernel Ref}
    (nested : ∀ k, Rescheduled k (again k).2) (prev next : Ref)
    : Rescheduled k (k.switchTo again prev next).2 := by
  have running := rescheduled_setState k next .running (by decide)
  unfold switchTo
  dsimp only
  split
  · exact running
  split
  · have entered := nested { k.setState next .running with current := next }
    exact running.trans ⟨entered.tid, entered.isIdle, entered.idleTask, entered.blocked⟩
  split
  · have resumed := rescheduled_modify (k.setState next .running) next
      (fun task => { task with hasBeenPreempted := false }) (fun _ => rfl)
      (fun _ => rfl) (fun _ => id)
    exact running.trans ⟨resumed.tid, resumed.isIdle, resumed.idleTask, resumed.blocked⟩
  · split
    · exact running
    · rename_i idx k' alloc
      obtain ⟨-, -, -, rfl⟩ := allocStack_some alloc
      have started := rescheduled_modify (k.setState next .running) next
        (fun task => { task with isStarted := true, stackIdx := idx }) (fun _ => rfl)
        (fun _ => rfl) (fun _ => id)
      exact running.trans ⟨started.tid, started.isIdle, started.idleTask, started.blocked⟩

theorem rescheduled (turns : Nat) (k : Kernel Ref) (preempt : Bool) (tid : Nat)
    : Rescheduled k (k.resched turns preempt tid).2 := by
  induction turns generalizing k preempt tid with
  | zero => exact .refl k
  | succ turns ih =>
      exact (rescheduled_selected k preempt tid).trans
        (rescheduled_switchTo (fun k => ih k false 0) _ _)

-----------------------------------------------------------------------------------------
-- Which switches leave the caller's frame
-----------------------------------------------------------------------------------------

/-- What the code keeps of the tasks it queues: ids are distinct, the idle task is not queued,
and only the main task is a queued kernel task, which never starts.
-/
structure Queued (k : Kernel Ref) (queue : List Ref) : Prop where
  distinct : (queue.map k.tid).Nodup
  kept : ∀ t ∈ queue, k.tid t ≠ 3
  busy : ∀ t ∈ queue, (k.tasks t).isIdle = false
  oneKernel
    : ∀ t ∈ queue, ∀ u ∈ queue,
        (k.tasks t).isKernelTask = true → (k.tasks u).isKernelTask = true → t = u
  kernelFresh
    : ∀ t ∈ queue, (k.tasks t).isKernelTask = true → (k.tasks t).isStarted = false

omit [DecidableEq Ref] in
/-- A queued task that has started is a user task. -/
theorem Queued.user_of_started {k : Kernel Ref} {queue : List Ref} (queued : k.Queued queue)
    {t : Ref} (member : t ∈ queue) (started : (k.tasks t).isStarted = true)
    : (k.tasks t).isKernelTask = false := by
  by_contra kernel
  have fresh := queued.kernelFresh t member (by simpa using kernel)
  exact absurd (started.symm.trans fresh) (by decide)

/-- The idle task is a kernel task with id 3. -/
structure IdleReady (k : Kernel Ref) : Prop where
  tid : k.tid k.idleTask = 3
  kernel : (k.tasks k.idleTask).isKernelTask = true
  idle : (k.tasks k.idleTask).isIdle = true

/-- Every stack that is handed out is taken. -/
def Exhausted (k : Kernel Ref) : Prop :=
  ∀ i, 1 ≤ i → i < KSTACK_NUM → k.kstackState i = true

/-- The first queued user task that may run on this CPU has started or finds no stack; or no
queued task may run here and one of the first two has started.
-/
def Leaves (k : Kernel Ref) (queue : List Ref) : Prop :=
  (∃ t,
      (queue.filter (k.eligible 0)).find? (fun t => !(k.tasks t).isKernelTask) = some t
      ∧ ((k.tasks t).isStarted = true ∨ k.Exhausted))
    ∨ (queue.filter (k.eligible 0) = [] ∧ ∃ t ∈ queue.take 2, (k.tasks t).isStarted = true)

/-- The call left the caller's frame, or found no stack. -/
def Left (call : Control × Kernel Ref) : Prop :=
  call.1 = .switched ∨ call.1 = .panicked .noStack

/-- The call returned in the caller's frame, where another task is current now. -/
structure Stays (k : Kernel Ref) (queue : List Ref) (call : Control × Kernel Ref) : Prop where
  returned : call.1 = .returned
  running : (call.2.tasks call.2.current).state = .running
  other : call.2.current = k.idleTask ∨ call.2.current ∈ queue
  unqueued : call.2.current ∉ call.2.readyQueue

/-- The state of a nested `resched`, after a switch to `t`. -/
def entered (k : Kernel Ref) (preempt : Bool) (queue : List Ref) (t : Ref) : Kernel Ref :=
  { ({ k.putCurrent preempt with readyQueue := queue } : Kernel Ref).setState t .running with
    current := t }

theorem sameButStates_entered (k : Kernel Ref) (preempt : Bool) (queue : List Ref) (t : Ref)
    : SameButStates k (k.entered preempt queue t) := by
  have put := sameButStates_putCurrent k preempt
  have left : SameButStates k { k.putCurrent preempt with readyQueue := queue } :=
    ⟨put.tasks, put.kstacks, put.idleTask, put.cpu⟩
  have running := left.trans (sameButStates_setState _ t .running)
  exact ⟨running.tasks, running.kstacks, running.idleTask, running.cpu⟩

/-- A nested `resched` puts the kernel task back unless it is the idle one. -/
theorem entered_tasksToKeep (k : Kernel Ref) (preempt : Bool) (queue : List Ref) (t : Ref)
    : (k.entered preempt queue t).tasksToKeep
      = queue ++ if (k.tasks t).isIdle = false then [t] else [] := by
  have same := sameButStates_entered k preempt queue t
  have running : ((k.entered preempt queue t).tasks t).state = .running := by
    simp [entered, setState, modify]
  have current : (k.entered preempt queue t).current = t := rfl
  have ready : (k.entered preempt queue t).readyQueue = queue := rfl
  simp only [tasksToKeep, current, ready, running, same.isIdle t, true_and]

variable {preempt : Bool} {tid turns : Nat} {queue left : List Ref}

/-- More nested calls change no run that has ended, by induction on the calls. -/
theorem resched_more (more : Nat) (ended : (k.resched turns preempt tid).1 ≠ .unfinished)
    : k.resched (turns + more) preempt tid = k.resched turns preempt tid := by
  induction turns generalizing k preempt tid with
  | zero => exact absurd rfl ended
  | succ turns ih =>
      rw [Nat.add_right_comm]
      simp only [resched, switchTo] at ended ⊢
      split
      · rfl
      rename_i other
      rw [if_neg other] at ended
      split
      · rename_i kernel
        rw [if_pos kernel] at ended
        exact ih ended
      · rfl

/-- A switch to a user task leaves the frame, unless it is fresh and gets a stack. -/
theorem user_outcome (turns : Nat) (preempt : Bool) (member : t ∈ queue)
    (selected : k.selected preempt tid = ({ k.putCurrent preempt with readyQueue := left }, t))
    (away : t ∉ left) (other : k.current ≠ t) (user : (k.tasks t).isKernelTask = false)
    : ((k.tasks t).isStarted = true ∨ k.Exhausted → Left (k.resched (turns + 1) preempt tid))
      ∧ (¬ ((k.tasks t).isStarted = true ∨ k.Exhausted)
        → k.Stays queue (k.resched (turns + 1) preempt tid)) := by
  have put := sameButStates_putCurrent k preempt
  have user' : ((k.putCurrent preempt).tasks t).isKernelTask = false := by
    rw [put.isKernelTask, user]
  cases started : (k.tasks t).isStarted with
  | true =>
      have run := resched_of_started turns selected other user'
        (by rw [← started]; exact put.isStarted t)
      exact ⟨fun _ => .inl run, fun stays => absurd (.inl rfl) stays⟩
  | false =>
      have run := resched_of_fresh turns selected other user'
        (by rw [← started]; exact put.isStarted t)
      cases alloc : (({ k.putCurrent preempt with readyQueue := left } : Kernel Ref).setState t
          .running).allocStack with
      | none =>
          rw [alloc] at run
          have exhausted : k.Exhausted := by
            have all := allocStack_none.mp alloc
            unfold Exhausted
            rw [← put.kstacks]
            exact all
          exact ⟨fun _ => .inr (congrArg Prod.fst run), fun stays => absurd (.inr exhausted) stays⟩
      | some taken =>
          obtain ⟨idx, k₂⟩ := taken
          rw [alloc] at run
          obtain ⟨positive, bound, free, rfl⟩ := allocStack_some alloc
          have spare : ¬ k.Exhausted := by
            intro exhausted
            have state := exhausted idx positive bound
            rw [← put.kstacks] at state
            exact absurd (state.symm.trans free) (by decide)
          refine ⟨fun leaves => ?_, fun _ => ?_⟩
          · rcases leaves with absurdity | exhausted
            · cases absurdity
            · exact absurd exhausted spare
          · rw [run]
            exact ⟨rfl, by simp [setState, modify], .inr member, away⟩

/-- A switch to the current kernel task returns. -/
theorem same_outcome (turns : Nat) (known : t = k.idleTask ∨ t ∈ queue) (current : k.current = t)
    (selected : k.selected preempt tid = ({ k.putCurrent preempt with readyQueue := left }, t))
    (away : t ∉ left)
    : k.Stays queue (k.resched (turns + 1) preempt tid) := by
  subst current
  have run := resched_of_same turns selected
  have keeps : (k.putCurrent preempt).current = k.current := by
    unfold putCurrent
    split
    · split <;> rfl
    · rfl
  rw [run]
  exact ⟨rfl, by simp [setState, modify, keeps], by simpa [setState, modify, keeps] using known,
    by simpa [setState, modify, keeps] using away⟩

/-- A switch to another kernel task is followed by a nested `resched`. -/
theorem resched_enters
    (selected : k.selected preempt tid = ({ k.putCurrent preempt with readyQueue := left }, t))
    (other : k.current ≠ t) (kernel : (k.tasks t).isKernelTask = true)
    : k.resched (turns + 1) preempt tid
      = (k.entered preempt left t).resched turns false 0 :=
  resched_of_kernel selected other
    (((sameButStates_putCurrent k preempt).isKernelTask t).trans kernel)

omit [DecidableEq Ref] in
theorem SameButStates.passed (same : SameButStates k k') {pre : List Ref}
    (passed : k.Passed tid pre)
    : k'.Passed tid pre :=
  (passed_congr same.tid (fun t => same.eligible t tid)).mpr passed

omit [DecidableEq Ref] in
theorem SameButStates.idleReady (same : SameButStates k k') (idle : k.IdleReady)
    : k'.IdleReady where
  tid := by rw [same.idleTask, same.tid, idle.tid]
  kernel := by rw [same.idleTask, same.isKernelTask, idle.kernel]
  idle := by rw [same.idleTask, same.isIdle, idle.idle]

omit [DecidableEq Ref] in
theorem SameButStates.starts_iff (same : SameButStates k k') (t : Ref)
    : (k'.tasks t).isStarted = true ∨ k'.Exhausted
      ↔ (k.tasks t).isStarted = true ∨ k.Exhausted := by
  rw [same.isStarted, Exhausted, Exhausted, same.kstacks]

/-- With all tasks passed and the idle task current, the first task is chosen if it has
started; otherwise the idle task is chosen again.
-/
theorem idle_outcome (turns : Nat) (preempt : Bool) (keep : k.tasksToKeep = left)
    (passed : k.Passed 0 left)
    (queued : k.Queued queue) (sub : ∀ t ∈ left, t ∈ queue) (idle : k.IdleReady)
    (current : k.current = k.idleTask)
    : ((∃ t ∈ left.head?, (k.tasks t).isStarted = true)
        → Left (k.resched (turns + 1) preempt 0))
      ∧ ((¬ ∃ t ∈ left.head?, (k.tasks t).isStarted = true)
        → k.Stays queue (k.resched (turns + 1) preempt 0)) := by
  have unqueued (t : Ref) (member : t ∈ left) : k.idleTask ≠ t := by
    rintro rfl
    exact queued.kept _ (sub _ member) idle.tid
  cases left with
  | nil =>
      refine ⟨by simp, fun _ => ?_⟩
      exact same_outcome turns (.inl rfl) current (selected_of_empty keep) (by simp)
  | cons t rest =>
      have selected := selected_of_passed preempt keep passed
      have distinct := passed.distinct
      have absent : t ∉ rest := by
        intro member
        exact (List.nodup_cons.mp distinct).1 (List.mem_map_of_mem member)
      cases started : (k.tasks t).isStarted with
      | true =>
          rw [started, if_pos rfl] at selected
          have user := queued.user_of_started (sub t (by simp)) started
          have outcome := user_outcome turns preempt (sub t (by simp)) selected absent
            (current ▸ unqueued t (by simp)) user
          exact ⟨fun _ => outcome.1 (.inl started), fun none => absurd ⟨t, rfl, started⟩ none⟩
      | false =>
          rw [started, if_neg (by decide)] at selected
          refine ⟨fun leaves => ?_, fun _ => ?_⟩
          · obtain ⟨_, first, started'⟩ := leaves
            cases first
            exact absurd (started.symm.trans started') (by decide)
          · exact same_outcome turns (.inl rfl) current selected
              (fun member => unqueued _ (List.mem_cons_of_mem _ member) rfl)

omit [DecidableEq Ref] in
theorem Stays.of_entered (same : SameButStates k k') {call : Control × Kernel Ref}
    (stays : k'.Stays queue call)
    : k.Stays queue call :=
  ⟨stays.returned, stays.running, same.idleTask ▸ stays.other, stays.unqueued⟩

omit [DecidableEq Ref] in
theorem Queued.congr (same : SameButStates k k') (queued : k.Queued queue)
    : k'.Queued queue where
  distinct := by
    rw [show k'.tid = k.tid from funext same.tid]
    exact queued.distinct
  kept t member := (same.tid t).symm ▸ queued.kept t member
  busy t member := (same.isIdle t).trans (queued.busy t member)
  oneKernel t member u member' kernel kernel' := by
    rw [same.isKernelTask] at kernel kernel'
    exact queued.oneKernel t member u member' kernel kernel'
  kernelFresh t member kernel := by
    rw [same.isKernelTask] at kernel
    exact (same.isStarted t).trans (queued.kernelFresh t member kernel)

/-- When no queued task may run on this CPU, one of the first two has to have started. -/
theorem refused_outcome (keep : k.tasksToKeep = queue) (passed : k.Passed 0 queue)
    (queued : k.Queued queue) (idle : k.IdleReady) (away : k.current ∉ queue)
    (busy : k.current ≠ k.idleTask)
    : ((∃ t ∈ queue.take 2, (k.tasks t).isStarted = true)
        → Left (k.resched (turns + 2) preempt 0))
      ∧ ((¬ ∃ t ∈ queue.take 2, (k.tasks t).isStarted = true)
        → k.Stays queue (k.resched (turns + 2) preempt 0)) := by
  have nested (left : List Ref) (sub : ∀ t ∈ left, t ∈ queue) (passed : k.Passed 0 left)
      (selected : k.selected preempt 0
        = ({ k.putCurrent preempt with readyQueue := left }, k.idleTask))
      : ((∃ t ∈ left.head?, (k.tasks t).isStarted = true)
          → Left (k.resched (turns + 2) preempt 0))
        ∧ ((¬ ∃ t ∈ left.head?, (k.tasks t).isStarted = true)
          → k.Stays queue (k.resched (turns + 2) preempt 0)) := by
    have same := sameButStates_entered k preempt left k.idleTask
    have keep' := entered_tasksToKeep k preempt left k.idleTask
    rw [idle.idle, if_neg (by decide), List.append_nil] at keep'
    have outcome := idle_outcome turns false keep' (same.passed passed)
      (queued.congr same) sub (same.idleReady idle) same.idleTask.symm
    rw [resched_enters selected busy idle.kernel]
    simp only [same.isStarted] at outcome
    exact ⟨outcome.1, fun none => (outcome.2 none).of_entered same⟩
  cases queue with
  | nil =>
      have outcome := nested [] (by simp) passed (selected_of_empty keep)
      exact ⟨by simp, fun _ => outcome.2 (by simp)⟩
  | cons t rest =>
      have selected := selected_of_passed preempt keep passed
      cases started : (k.tasks t).isStarted with
      | true =>
          rw [started, if_pos rfl] at selected
          have user := queued.user_of_started (List.mem_cons_self ..) started
          have absent : t ∉ rest := by
            intro member
            exact (List.nodup_cons.mp passed.distinct).1 (List.mem_map_of_mem member)
          have other : k.current ≠ t := by
            rintro rfl
            exact away (by simp)
          have outcome := user_outcome (turns + 1) preempt (List.mem_cons_self (l := rest))
            selected absent other user
          exact ⟨fun _ => outcome.1 (.inl started),
            fun none => absurd ⟨t, by simp, started⟩ none⟩
      | false =>
          rw [started, if_neg (by decide)] at selected
          have passed' : k.Passed 0 rest :=
            ⟨fun u member => passed.kept u (List.mem_cons_of_mem t member),
              fun u member => passed.refused u (List.mem_cons_of_mem t member),
              (List.nodup_cons.mp passed.distinct).2⟩
          have outcome := nested rest (fun u member => List.mem_cons_of_mem t member) passed'
            selected
          have second : (∃ u ∈ (t :: rest).take 2, (k.tasks u).isStarted = true)
              ↔ ∃ u ∈ rest.head?, (k.tasks u).isStarted = true := by
            cases rest <;> simp [started]
          rw [second]
          exact outcome

/-- The first task that may run here, after `pre`, is selected; a user task that is fresh
returns, and a kernel task is followed by the next one or by itself.
-/
theorem eligible_outcome {pre post : List Ref} (turns : Nat) (preempt : Bool)
    (keep : k.tasksToKeep = pre ++ t :: post)
    (passed : k.Passed 0 pre) (eligible : k.eligible 0 t = true)
    (queued : k.Queued (pre ++ t :: post)) (away : k.current ≠ t)
    : ((∃ u,
          (t :: post.filter (k.eligible 0)).find? (fun u => !(k.tasks u).isKernelTask) = some u
          ∧ ((k.tasks u).isStarted = true ∨ k.Exhausted))
        → Left (k.resched (turns + 2) preempt 0))
      ∧ ((¬ ∃ u,
          (t :: post.filter (k.eligible 0)).find? (fun u => !(k.tasks u).isKernelTask) = some u
          ∧ ((k.tasks u).isStarted = true ∨ k.Exhausted))
        → k.Stays (pre ++ t :: post) (k.resched (turns + 2) preempt 0)) := by
  have ids := queued.distinct
  rw [List.map_append, List.map_cons, List.nodup_append, List.nodup_cons] at ids
  obtain ⟨idsPre, ⟨notPost, idsPost⟩, apart⟩ := ids
  have notPre : k.tid t ∉ pre.map k.tid :=
    fun member => apart _ member (k.tid t) (by simp) rfl
  have absent : t ∉ post ++ pre := by
    intro member
    rcases List.mem_append.mp member with member | member
    · exact notPost (List.mem_map_of_mem member)
    · exact notPre (List.mem_map_of_mem member)
  have member : t ∈ pre ++ t :: post := by simp
  have selected := selected_of_eligible preempt keep passed
    (queued.kept t member) notPre eligible
  cases kernel : (k.tasks t).isKernelTask with
  | false =>
      simp only [List.find?_cons, kernel, Bool.not_false, Option.some.injEq, exists_eq_left']
      exact user_outcome (turns + 1) preempt member selected absent away kernel
  | true =>
      simp only [List.find?_cons, kernel, Bool.not_true]
      have same := sameButStates_entered k preempt (post ++ pre) t
      have keep' := entered_tasksToKeep k preempt (post ++ pre) t
      rw [queued.busy t member, if_pos rfl] at keep'
      rw [resched_enters selected away kernel]
      cases next : post.filter (k.eligible 0) with
      | nil =>
          refine ⟨by simp, fun _ => ?_⟩
          have refused (u : Ref) (inPost : u ∈ post) : k.eligible 0 u = false := by
            have := List.filter_eq_nil_iff.mp next u inPost
            simpa using this
          have passed' : k.Passed 0 (post ++ pre) := by
            refine ⟨fun u old => queued.kept u ?_, fun u old => ?_, ?_⟩
            · rcases List.mem_append.mp old with old | old <;> simp [old]
            · rcases List.mem_append.mp old with old | old
              · exact refused u old
              · exact passed.refused u old
            · rw [List.map_append, List.nodup_append]
              exact ⟨idsPost, idsPre,
                fun a inPost b inPre eq => apart b inPre a (by simp [inPost]) eq.symm⟩
          have again := selected_of_eligible false keep' (same.passed passed')
            (by rw [same.tid]; exact queued.kept t member)
            (by
              rw [show (k.entered preempt (post ++ pre) t).tid = k.tid from funext same.tid,
                List.map_append, List.mem_append]
              exact fun old => old.elim notPost notPre)
            (by rw [same.eligible, eligible])
          exact (same_outcome turns (.inr member) rfl again
            (by simpa [or_comm] using absent)).of_entered same
      | cons u later =>
          obtain ⟨pre', post', split, refused, eligible', -⟩ := List.filter_eq_cons_iff.mp next
          subst split
          have inQueue : u ∈ pre ++ t :: (pre' ++ u :: post') := by simp
          have other : t ≠ u := by
            rintro rfl
            exact absent (by simp)
          have user : (k.tasks u).isKernelTask = false := by
            by_contra kernel'
            exact other (queued.oneKernel t member u inQueue kernel (by simpa using kernel'))
          simp only [List.find?_cons, user, Bool.not_false, Option.some.injEq, exists_eq_left']
          have ids' := idsPost
          rw [List.map_append, List.map_cons, List.nodup_append, List.nodup_cons] at ids'
          obtain ⟨idsPre', ⟨notPost', -⟩, apart'⟩ := ids'
          have notPre' : k.tid u ∉ pre'.map k.tid :=
            fun old => apart' _ old (k.tid u) (by simp) rfl
          have passed' : k.Passed 0 pre' := by
            refine ⟨fun v old => queued.kept v (by simp [old]), fun v old => ?_, idsPre'⟩
            simpa using refused v old
          have keep'' : (k.entered preempt (pre' ++ u :: post' ++ pre) t).tasksToKeep
              = pre' ++ u :: (post' ++ pre ++ [t]) := by
            rw [keep']
            simp
          have again := selected_of_eligible false keep'' (same.passed passed')
            (by rw [same.tid]; exact queued.kept u inQueue)
            (by
              rw [show (k.entered preempt (pre' ++ u :: post' ++ pre) t).tid = k.tid
                from funext same.tid]
              exact notPre')
            (by rw [same.eligible, eligible'])
          have absent' : u ∉ post' ++ pre ++ [t] ++ pre' := by
            intro old
            simp only [List.mem_append, List.mem_singleton] at old
            rcases old with ((old | old) | old) | old
            · exact notPost' (List.mem_map_of_mem old)
            · exact apart _ (List.mem_map_of_mem old) (k.tid u) (by simp) rfl
            · exact other old.symm
            · exact notPre' (List.mem_map_of_mem old)
          have outcome := user_outcome turns false inQueue again absent'
            other (by rw [same.isKernelTask, user])
          rw [same.starts_iff] at outcome
          exact ⟨outcome.1, fun stays => (outcome.2 stays).of_entered same⟩

/-- A reschedule leaves the frame exactly when the queue lets it. -/
theorem resched_outcome (turns : Nat) (preempt : Bool) (keep : k.tasksToKeep = queue)
    (queued : k.Queued queue)
    (idle : k.IdleReady) (away : k.current ∉ queue) (busy : k.current ≠ k.idleTask)
    : (k.Leaves queue → Left (k.resched (turns + 2) preempt 0))
      ∧ (¬ k.Leaves queue → k.Stays queue (k.resched (turns + 2) preempt 0)) := by
  unfold Leaves
  cases next : queue.filter (k.eligible 0) with
  | nil =>
      have refused (t : Ref) (member : t ∈ queue) : k.eligible 0 t = false := by
        simpa using List.filter_eq_nil_iff.mp next t member
      simpa using refused_outcome keep ⟨queued.kept, refused, queued.distinct⟩ queued idle away
        busy
  | cons t later =>
      obtain ⟨pre, post, split, refused, eligible, rfl⟩ := List.filter_eq_cons_iff.mp next
      subst split
      have ids := queued.distinct
      rw [List.map_append, List.nodup_append] at ids
      have passed : k.Passed 0 pre := by
        refine ⟨fun u old => queued.kept u (by simp [old]), fun u old => ?_, ids.1⟩
        simpa using refused u old
      have other : k.current ≠ t := by
        rintro rfl
        exact away (by simp)
      have outcome := eligible_outcome turns preempt keep passed eligible
        queued other
      rw [or_iff_left (by simp)]
      exact outcome

-----------------------------------------------------------------------------------------
-- A blocked task that is not queued stays blocked
-----------------------------------------------------------------------------------------

/-- A blocked task that no reschedule can select. -/
structure Asleep (k : Kernel Ref) (t : Ref) : Prop where
  blocked : (k.tasks t).state = .blocked
  unqueued : t ∉ k.readyQueue
  notIdle : t ≠ k.idleTask

theorem Asleep.modify (asleep : k.Asleep t) (u : Ref) (change : Task → Task)
    (kept : u = t → (change (k.tasks u)).state = .blocked)
    : (k.modify u change).Asleep t where
  blocked := by
    by_cases same : t = u
    · subst same
      simpa [Kernel.modify] using kept rfl
    · simpa [Kernel.modify, same] using asleep.blocked
  unqueued := asleep.unqueued
  notIdle := asleep.notIdle

/-- A reschedule selects another task. -/
theorem Asleep.selected (asleep : k.Asleep t) (preempt : Bool) (tid : Nat)
    : (k.selected preempt tid).1.Asleep t ∧ (k.selected preempt tid).2 ≠ t := by
  have put : (k.putCurrent preempt).Asleep t := by
    by_cases same : t = k.current
    · subst same
      rw [putCurrent, if_neg (by rw [asleep.blocked]; decide)]
      exact asleep
    · have ready := asleep.modify k.current (fun task => { task with state := .ready })
        (fun eq => absurd eq.symm same)
      unfold putCurrent
      split
      · split
        · exact ready
        · exact ⟨ready.blocked, by simpa [putPrevTask, setState, same] using ready.unqueued,
            ready.notIdle⟩
      · exact asleep
  have accounted (u : Ref) (member : u ∈ accounted ((k.putCurrent preempt).selectNext tid
      (k.putCurrent preempt).readyQueue [])) : u ≠ t := by
    rintro rfl
    exact put.unqueued (selectNext_mem member)
  unfold Kernel.selected
  dsimp only
  refine ⟨⟨put.blocked, fun member => ?_, put.notIdle⟩, ?_⟩
  · exact accounted t (by simp [Kernel.accounted, member]) rfl
  · cases chosen : ((k.putCurrent preempt).selectNext tid (k.putCurrent preempt).readyQueue []).1
      with
    | none => exact put.notIdle.symm
    | some u => exact accounted u (by simp [Kernel.accounted, chosen])

theorem Asleep.switchTo (asleep : k.Asleep t) {again : Kernel Ref → Control × Kernel Ref}
    (nested : ∀ k, k.Asleep t → (again k).2.Asleep t) (prev : Ref) {next : Ref}
    (other : next ≠ t)
    : (k.switchTo again prev next).2.Asleep t := by
  have running : (k.setState next .running).Asleep t :=
    asleep.modify next _ (fun eq => absurd eq other)
  unfold Kernel.switchTo
  dsimp only
  split
  · exact running
  split
  · exact nested _ ⟨running.blocked, running.unqueued, running.notIdle⟩
  split
  · have resumed := running.modify next
      (fun task => { task with hasBeenPreempted := false })
      (fun eq => absurd eq other)
    exact ⟨resumed.blocked, resumed.unqueued, resumed.notIdle⟩
  · split
    · exact running
    · rename_i idx k' alloc
      obtain ⟨-, -, -, rfl⟩ := allocStack_some alloc
      have started := running.modify next
        (fun task => { task with isStarted := true, stackIdx := idx })
        (fun eq => absurd eq other)
      exact ⟨started.blocked, started.unqueued, started.notIdle⟩

theorem Asleep.resched (turns : Nat) (asleep : k.Asleep t) (preempt : Bool) (tid : Nat)
    : (k.resched turns preempt tid).2.Asleep t := by
  induction turns generalizing k preempt tid with
  | zero => exact asleep
  | succ turns ih =>
      have selected := asleep.selected preempt tid
      exact selected.1.switchTo (fun k asleep => ih asleep false 0) _ selected.2

theorem Asleep.blockCurrent (asleep : k.Asleep t) (turns : Nat)
    : (k.blockCurrent turns).2.Asleep t := by
  unfold Kernel.blockCurrent
  split
  · exact asleep
  split
  · exact asleep
  · exact (asleep.modify k.current _ (fun _ => rfl)).resched turns false 0

end Reschedule

end RCoreOS.Axtask.Kernel
