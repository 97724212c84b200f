import RCoreOS.Axtask.Frames

/-! Blocking on a wait queue or a mutex. `block_current` relies on `resched` to leave the
caller's frame; after a switch to a fresh task, or back to a kernel task, it returns there,
and the loop of `wait_until` goes on with another task as the current one.
-/

namespace RCoreOS.Axtask

/-- What a blocking call reads and writes: the kernel, the wait queue, `TASK_IN_WAIT_QUEUE`,
and how often the call has looked at what it waits for.
-/
structure Waiter (Ref : Type) where
  kernel : Kernel Ref
  queue : List Ref
  inWaitQueue : Nat → Bool
  looked : Nat

namespace Waiter

variable {Ref : Type} [DecidableEq Ref]

def look (s : Waiter Ref) : Waiter Ref :=
  { s with looked := s.looked + 1 }

def cancelEvents (s : Waiter Ref) (curr : Ref) : Waiter Ref :=
  if s.inWaitQueue (s.kernel.tid curr) then
    { s with
      queue := s.queue.filter (fun t => curr ≠ t)
      inWaitQueue := Function.update s.inWaitQueue (s.kernel.tid curr) false }
  else s

/-- The closure that the wait queue gives to `block_current`. -/
def waitQueuePush (s : Waiter Ref) : Waiter Ref :=
  { s with
    queue := s.queue ++ [s.kernel.current]
    inWaitQueue := Function.update s.inWaitQueue (s.kernel.tid s.kernel.current) true }

/-- `block_current` with its closure, which is called after the assertions. -/
def blockCurrent (turns : Nat) (s : Waiter Ref) : Control × Waiter Ref :=
  let curr := s.kernel.tasks s.kernel.current
  let pushed := if curr.state = .running ∧ curr.isIdle = false then s.waitQueuePush else s
  let (control, kernel) := s.kernel.blockCurrent turns
  (control, { s with kernel, queue := pushed.queue, inWaitQueue := pushed.inWaitQueue })

/-- `condition n` is the outcome when the call looks for the `n`-th time. -/
def waitUntil (condition : Nat → Bool) : Nat → Waiter Ref → Control × Waiter Ref
  | 0, s => (.unfinished, s)
  | turns + 1, s =>
      if condition s.looked then (.returned, s.look.cancelEvents s.kernel.current)
      else
        match s.look.blockCurrent turns with
        | (.returned, s) => waitUntil condition turns s
        | ended => ended

/-- The loop of `Mutex::lock`; `found n` is the owner word when the call looks for the `n`-th
time, and the result holds the word that the call leaves.
-/
def lockLoop (found : Nat → Nat) (currentId : Nat) : Nat → Waiter Ref → Control × Nat × Waiter Ref
  | 0, s => (.unfinished, found s.looked, s)
  | turns + 1, s =>
      let ownerId := found s.looked
      if ownerId = 0 then (.returned, currentId, s.look)
      else if ownerId = currentId then (.panicked .alreadyOwned, ownerId, s.look)
      else
        match s.look.waitUntil (fun n => found n == 0) turns with
        | (.returned, s) => lockLoop found currentId turns s
        | (control, s) => (control, ownerId, s)

def lock (found : Nat → Nat) (turns : Nat) (s : Waiter Ref) : Control × Nat × Waiter Ref :=
  lockLoop found (s.kernel.tid s.kernel.current) turns s

end Waiter

namespace Kernel

variable {Ref : Type}

section Block

variable [DecidableEq Ref] {k k' : Kernel Ref} {t : Ref} {turns : Nat}

-----------------------------------------------------------------------------------------
-- A blocking call
-----------------------------------------------------------------------------------------

/-- The running task is about to block: it is neither idle nor queued, queued tasks are ready,
and its id is its own.
-/
structure CanBlock (k : Kernel Ref) : Prop where
  running : (k.tasks k.current).state = .running
  busy : (k.tasks k.current).isIdle = false
  notThree : k.tid k.current ≠ 3
  unqueued : k.tid k.current ∉ k.readyQueue.map k.tid
  ready : ∀ t ∈ k.readyQueue, (k.tasks t).state = .ready
  queued : k.Queued k.readyQueue
  idle : k.IdleReady

/-- A later point of the caller's frame, where another task is current. -/
structure Elsewhere (k k' : Kernel Ref) : Prop where
  running : (k'.tasks k'.current).state = .running
  otherId : k'.tid k'.current ≠ k.tid k.current
  awake : (k'.tasks k'.current).isIdle = true ∨ (k.tasks k'.current).state ≠ .blocked
  unqueued : k'.current ∉ k'.readyQueue
  idle : (k'.tasks k'.idleTask).isIdle = true
  tid : ∀ t, k'.tid t = k.tid t
  others : ∀ t, t ≠ k.current → (k'.tasks t).state = .blocked → (k.tasks t).state = .blocked

theorem CanBlock.blockCurrent (able : k.CanBlock)
    : k.blockCurrent turns = (k.setState k.current .blocked).resched turns false 0 := by
  simp [Kernel.blockCurrent, able.running, able.busy]

/-- Only the caller is blocked. -/
theorem CanBlock.others (able : k.CanBlock) (turns : Nat) (other : t ≠ k.current)
    (blocked : ((k.blockCurrent turns).2.tasks t).state = .blocked)
    : (k.tasks t).state = .blocked := by
  rw [able.blockCurrent] at blocked
  have before := (rescheduled turns (k.setState k.current .blocked) false 0).blocked t blocked
  simpa [setState, modify, other] using before

theorem CanBlock.outcome (able : k.CanBlock) (turns : Nat)
    : (k.Leaves k.readyQueue → Left (k.blockCurrent (turns + 2)))
      ∧ (¬ k.Leaves k.readyQueue → k.Stays k.readyQueue (k.blockCurrent (turns + 2))) := by
  have same := sameButStates_setState k k.current .blocked
  have keep : (k.setState k.current .blocked).tasksToKeep = k.readyQueue := by
    simp [tasksToKeep, setState, modify]
  have outcome := resched_outcome turns false keep
    (able.queued.congr same) (same.idleReady able.idle)
    (fun member => able.unqueued (List.mem_map_of_mem member))
    (fun eq => able.notThree (eq ▸ able.idle.tid))
  have leaves : (k.setState k.current .blocked).Leaves k.readyQueue ↔ k.Leaves k.readyQueue := by
    have eligible : (k.setState k.current .blocked).eligible 0 = k.eligible 0 :=
      funext fun t => same.eligible t 0
    simp only [Leaves, eligible, same.isKernelTask, same.isStarted, Exhausted, same.kstacks]
  rw [leaves, ← able.blockCurrent] at outcome
  exact ⟨outcome.1, fun stays => (outcome.2 stays).of_entered same⟩

/-- Fewer nested calls are either not enough or change nothing. -/
theorem CanBlock.enough (able : k.CanBlock) (turns : Nat)
    : (k.blockCurrent turns).1 = .unfinished
      ∨ k.blockCurrent (turns + 2) = k.blockCurrent turns := by
  rw [able.blockCurrent, able.blockCurrent]
  by_cases ended : ((k.setState k.current .blocked).resched turns false 0).1 = .unfinished
  · exact .inl ended
  · exact .inr (resched_more 2 ended)

/-- After a `block_current` that returned, another task is current. -/
theorem CanBlock.elsewhere (able : k.CanBlock)
    (stays : k.Stays k.readyQueue (k.blockCurrent turns))
    : k.Elsewhere (k.blockCurrent turns).2 := by
  have others := fun t other blocked => able.others turns (t := t) other blocked
  have kept : Rescheduled (k.setState k.current .blocked) (k.blockCurrent turns).2 := by
    rw [able.blockCurrent]
    exact rescheduled turns _ false 0
  have same := sameButStates_setState k k.current .blocked
  have tid (t : Ref) : (k.blockCurrent turns).2.tid t = k.tid t := (kept.tid t).trans (same.tid t)
  have isIdle (t : Ref) : ((k.blockCurrent turns).2.tasks t).isIdle = (k.tasks t).isIdle :=
    (kept.isIdle t).trans (same.isIdle t)
  have idleTask : (k.blockCurrent turns).2.idleTask = k.idleTask :=
    kept.idleTask.trans same.idleTask
  refine ⟨stays.running, ?_, ?_, stays.unqueued, ?_, tid, others⟩
  · rw [tid]
    rcases stays.other with current | member
    · rw [current, able.idle.tid]
      exact able.notThree.symm
    · exact fun eq => able.unqueued (eq ▸ List.mem_map_of_mem member)
  · rcases stays.other with current | member
    · exact .inl (by rw [isIdle, current, able.idle.idle])
    · exact .inr (by rw [able.ready _ member]; decide)
  · rw [idleTask, isIdle, able.idle.idle]

/-- The current task of a later point of the frame fails an assertion or falls asleep. -/
theorem Elsewhere.blocks (elsewhere : k.Elsewhere k') (turns : Nat)
    : (k'.blockCurrent turns).1 = .panicked .isIdle
      ∨ ((k'.blockCurrent turns).2.Asleep k'.current
        ∧ k'.current ≠ k.current
        ∧ (k.tasks k'.current).state ≠ .blocked) := by
  unfold Kernel.blockCurrent
  rw [if_neg (by simp [elsewhere.running])]
  cases idle : (k'.tasks k'.current).isIdle with
  | true => exact .inl (by simp)
  | false =>
      have awake := elsewhere.awake.resolve_left (by simp [idle])
      have notIdle : k'.current ≠ k'.idleTask := by
        intro eq
        rw [eq, elsewhere.idle] at idle
        cases idle
      have other : k'.current ≠ k.current := by
        intro eq
        exact elsewhere.otherId (by rw [eq, elsewhere.tid])
      have asleep : (k'.setState k'.current .blocked).Asleep k'.current :=
        ⟨by simp [setState, modify], elsewhere.unqueued, notIdle⟩
      exact .inr ⟨asleep.resched turns false 0, other, awake⟩

end Block

-----------------------------------------------------------------------------------------
-- Blocking blocks only the caller
-----------------------------------------------------------------------------------------

/-- A call of the current task has blocked no other task and failed no assertion of
`block_current`.
-/
structure BlocksOnlyCaller (k : Kernel Ref) (control : Control) (after : Kernel Ref) : Prop where
  others
    : ∀ t, t ≠ k.current → (after.tasks t).state = .blocked → (k.tasks t).state = .blocked
  asserts : control ≠ .panicked .notRunning ∧ control ≠ .panicked .isIdle

end Kernel

namespace Waiter

variable {Ref : Type} [DecidableEq Ref] {s : Waiter Ref} {condition : Nat → Bool} {t : Ref}

omit [DecidableEq Ref] in
@[simp]
theorem look_kernel : s.look.kernel = s.kernel := rfl

omit [DecidableEq Ref] in
@[simp]
theorem look_looked : s.look.looked = s.looked + 1 := rfl

@[simp]
theorem blockCurrent_control (turns : Nat)
    : (s.blockCurrent turns).1 = (s.kernel.blockCurrent turns).1 := rfl

@[simp]
theorem blockCurrent_kernel (turns : Nat)
    : (s.blockCurrent turns).2.kernel = (s.kernel.blockCurrent turns).2 := rfl

@[simp]
theorem blockCurrent_looked (turns : Nat) : (s.blockCurrent turns).2.looked = s.looked := rfl

@[simp]
theorem cancelEvents_kernel (curr : Ref) : (s.cancelEvents curr).kernel = s.kernel := by
  unfold cancelEvents
  split <;> rfl

@[simp]
theorem cancelEvents_looked (curr : Ref) : (s.cancelEvents curr).looked = s.looked := by
  unfold cancelEvents
  split <;> rfl

theorem waitUntil_of_true (turns : Nat) (ready : condition s.looked = true)
    : s.waitUntil condition (turns + 1) = (.returned, s.look.cancelEvents s.kernel.current) := by
  rw [waitUntil, if_pos ready]

/-- A turn that blocks ends the call, or returns and the call looks again. -/
theorem waitUntil_of_false (turns : Nat) (waits : condition s.looked = false)
    : s.waitUntil condition (turns + 1)
      = if (s.kernel.blockCurrent turns).1 = .returned
        then (s.look.blockCurrent turns).2.waitUntil condition turns
        else s.look.blockCurrent turns := by
  rw [waitUntil, if_neg (by simp [waits])]
  have control := blockCurrent_control (s := s.look) turns
  rw [look_kernel] at control
  rw [← control]
  rcases s.look.blockCurrent turns with ⟨control', s'⟩
  cases control' <;> simp

/-- A task that sleeps stays asleep while the call waits, by induction on its turns. -/
theorem waitUntil_asleep (condition : Nat → Bool) (turns : Nat) (asleep : s.kernel.Asleep t)
    : (s.waitUntil condition turns).2.kernel.Asleep t := by
  induction turns generalizing s with
  | zero => exact asleep
  | succ turns ih =>
      have blocked : (s.look.blockCurrent turns).2.kernel.Asleep t := asleep.blockCurrent turns
      cases waits : condition s.looked with
      | true =>
          rw [waitUntil_of_true turns waits]
          simpa using asleep
      | false =>
          rw [waitUntil_of_false turns waits]
          split
          · exact ih blocked
          · exact blocked

theorem lockLoop_asleep (found : Nat → Nat) (currentId turns : Nat)
    (asleep : s.kernel.Asleep t)
    : (lockLoop found currentId turns s).2.2.kernel.Asleep t := by
  induction turns generalizing s with
  | zero => exact asleep
  | succ turns ih =>
      rw [lockLoop]
      split
      · exact asleep
      split
      · exact asleep
      have waited := waitUntil_asleep (s := s.look) (fun n => found n == 0) turns asleep
      split
      · rename_i s' call
        rw [call] at waited
        exact ih waited
      · rename_i control s' call
        rw [call] at waited
        exact waited

-----------------------------------------------------------------------------------------
-- Waiting
-----------------------------------------------------------------------------------------

/-- `wait_until` blocks only the caller, however many turns it takes. -/
def WaitsAlone (s : Waiter Ref) (condition : Nat → Bool) : Prop :=
  ∀ turns,
    s.kernel.BlocksOnlyCaller (s.waitUntil condition turns).1 (s.waitUntil condition turns).2.kernel

omit [DecidableEq Ref] in
theorem not_blocksOnlyCaller_of_asleep {k after : Kernel Ref} {control : Control}
    (asleep : after.Asleep t) (other : t ≠ k.current) (awake : (k.tasks t).state ≠ .blocked)
    : ¬ k.BlocksOnlyCaller control after :=
  fun only => awake (only.others t other asleep.blocked)

/-- Once the frame goes on under another task, the next wait blocks that task, or fails. -/
theorem waits_elsewhere {k : Kernel Ref} (condition : Nat → Bool) (elsewhere : k.Elsewhere s.kernel)
    (waits : condition s.looked = false) (turns : Nat)
    : (s.waitUntil condition (turns + 1)).1 = .panicked .isIdle
      ∨ ∃ t,
          (s.waitUntil condition (turns + 1)).2.kernel.Asleep t
          ∧ t ≠ k.current
          ∧ (k.tasks t).state ≠ .blocked := by
  rw [waitUntil_of_false turns waits]
  rcases elsewhere.blocks turns with fails | ⟨asleep, other, awake⟩
  · rw [if_neg (by rw [fails]; decide)]
    exact .inl fails
  · refine .inr ⟨s.kernel.current, ?_, other, awake⟩
    split
    · exact waitUntil_asleep (s := (s.look.blockCurrent turns).2) condition turns asleep
    · exact asleep

/-- While the call is in its first turn, only the caller is blocked. -/
theorem blocksOnlyCaller_first {k : Kernel Ref} (able : k.CanBlock) (turns : Nat)
    {control : Control}
    (ended : control ≠ .panicked .notRunning ∧ control ≠ .panicked .isIdle)
    : k.BlocksOnlyCaller control (k.blockCurrent turns).2 :=
  ⟨fun _ other blocked => able.others _ other blocked, ended⟩

/-- Control leaves in the first turn, or the frame goes on under another task. -/
theorem first_turn {k : Kernel Ref} (able : k.CanBlock) (turns : Nat)
    : ((k.blockCurrent turns).1 = .unfinished
        ∨ (k.Leaves k.readyQueue ∧ Kernel.Left (k.blockCurrent turns)))
      ∨ (¬ k.Leaves k.readyQueue
        ∧ (k.blockCurrent turns).1 = .returned
        ∧ k.Elsewhere (k.blockCurrent turns).2) := by
  have outcome := able.outcome turns
  rcases able.enough turns with unfinished | same
  · exact .inl (.inl unfinished)
  · rw [same] at outcome
    by_cases leaves : k.Leaves k.readyQueue
    · exact .inl (.inr ⟨leaves, outcome.1 leaves⟩)
    · have stays := outcome.2 leaves
      exact .inr ⟨leaves, stays.returned, able.elsewhere stays⟩

omit [DecidableEq Ref] in
theorem left_asserts {call : Control × Kernel Ref} (left : Kernel.Left call)
    : call.1 ≠ .returned ∧ call.1 ≠ .panicked .notRunning ∧ call.1 ≠ .panicked .isIdle := by
  rcases left with switched | noStack
  · rw [switched]
    decide
  · rw [noStack]
    decide

/-- A contended `wait_until` blocks only the caller exactly when the queue lets the first
`block_current` leave the frame, or the condition is true when the call looks again.
-/
theorem waitsAlone_iff (able : s.kernel.CanBlock) (contended : condition s.looked = false)
    : s.WaitsAlone condition
      ↔ s.kernel.Leaves s.kernel.readyQueue ∨ condition (s.looked + 1) = true := by
  constructor
  · intro alone
    by_contra neither
    obtain ⟨stuck, waits⟩ := not_or.mp neither
    have turn := alone 4
    rw [waitUntil_of_false 3 contended] at turn
    have stays := (able.outcome 1).2 stuck
    have elsewhere := able.elsewhere stays
    rw [if_pos stays.returned] at turn
    have next := waits_elsewhere (s := (s.look.blockCurrent 3).2) condition
      elsewhere (by simpa using waits) 2
    rcases next with fails | ⟨t, asleep, other, awake⟩
    · exact turn.asserts.2 fails
    · exact not_blocksOnlyCaller_of_asleep asleep other awake turn
  · intro condition' turns
    cases turns with
    | zero => exact ⟨fun _ _ => id, nofun, nofun⟩
    | succ turns =>
        rw [waitUntil_of_false turns contended]
        rcases first_turn able turns with (unfinished | ⟨-, left⟩) | ⟨stuck, returned, elsewhere⟩
        · rw [if_neg (by rw [unfinished]; decide)]
          exact blocksOnlyCaller_first able turns
            (by simp [Waiter.blockCurrent, unfinished])
        · have asserts := left_asserts left
          rw [if_neg asserts.1]
          exact blocksOnlyCaller_first able turns asserts.2
        · rw [if_pos returned]
          have ready : condition (s.look.blockCurrent turns).2.looked = true :=
            condition'.resolve_left stuck
          cases turns with
          | zero => exact blocksOnlyCaller_first able 0 ⟨nofun, nofun⟩
          | succ turns =>
              rw [waitUntil_of_true turns ready]
              rw [cancelEvents_kernel]
              exact blocksOnlyCaller_first able (turns + 1) ⟨nofun, nofun⟩

-----------------------------------------------------------------------------------------
-- Locking
-----------------------------------------------------------------------------------------

/-- The call of `lock` blocked only its caller, and a guard it returned is owned by the
current task.
-/
def LockedAlone (k : Kernel Ref) (call : Control × Nat × Waiter Ref) : Prop :=
  k.BlocksOnlyCaller call.1 call.2.2.kernel
    ∧ (call.1 = .returned → call.2.1 = call.2.2.kernel.tid call.2.2.kernel.current)

def LocksAlone (s : Waiter Ref) (found : Nat → Nat) : Prop :=
  ∀ turns, LockedAlone s.kernel (s.lock found turns)

/-- From the `n`-th look on, each wait finds the mutex free and each exchange finds it taken
again, for ever.
-/
def Spins (found : Nat → Nat) (n : Nat) : Prop :=
  found n = 0 ∧ ∀ i, found (n + 1 + 2 * i) ≠ 0 ∧ found (n + 1 + 2 * i + 1) = 0

variable {found : Nat → Nat} {currentId : Nat}

/-- An exchange that fails is followed by a wait. -/
theorem lockLoop_of_taken (turns : Nat) (taken : found s.looked ≠ 0)
    (other : found s.looked ≠ currentId)
    : lockLoop found currentId (turns + 1) s
      = if (s.look.waitUntil (fun n => found n == 0) turns).1 = .returned
        then lockLoop found currentId turns (s.look.waitUntil (fun n => found n == 0) turns).2
        else ((s.look.waitUntil (fun n => found n == 0) turns).1, found s.looked,
          (s.look.waitUntil (fun n => found n == 0) turns).2) := by
  rw [lockLoop, if_neg taken, if_neg other]
  rcases s.look.waitUntil (fun n => found n == 0) turns with ⟨control, s'⟩
  cases control <;> simp

/-- A mutex that is free when the wait looks, and taken before the exchange, is tried again.
-/
theorem lockLoop_of_lost (turns : Nat) (taken : found s.looked ≠ 0)
    (other : found s.looked ≠ currentId) (free : found (s.looked + 1) = 0)
    : lockLoop found currentId (turns + 2) s
      = lockLoop found currentId (turns + 1) (s.look.look.cancelEvents s.kernel.current) := by
  rw [lockLoop_of_taken (turns + 1) taken other,
    waitUntil_of_true (s := s.look) turns (by simpa using free), if_pos rfl]
  rfl

/-- While it only loses races, the call changes no task, by induction on its turns. -/
theorem lockLoop_spins (found : Nat → Nat) (currentId turns : Nat)
    (others : ∀ n, found n ≠ currentId)
    (spins : ∀ i, found (s.looked + 2 * i) ≠ 0 ∧ found (s.looked + 2 * i + 1) = 0)
    : (lockLoop found currentId turns s).1 = .unfinished
      ∧ (lockLoop found currentId turns s).2.2.kernel = s.kernel := by
  induction turns generalizing s with
  | zero => exact ⟨rfl, rfl⟩
  | succ turns ih =>
      have taken : found s.looked ≠ 0 := (spins 0).1
      have free : found (s.looked + 1) = 0 := (spins 0).2
      cases turns with
      | zero =>
          rw [lockLoop_of_taken 0 taken (others _), if_neg nofun]
          exact ⟨rfl, rfl⟩
      | succ turns =>
          rw [lockLoop_of_lost turns taken (others _) free]
          have later := ih (s := s.look.look.cancelEvents s.kernel.current) (by
            intro i
            have next := spins (i + 1)
            simp only [cancelEvents_looked, look_looked]
            rwa [show s.looked + 2 * (i + 1) = s.looked + 1 + 1 + 2 * i by omega] at next)
          simpa using later

/-- A wait under another task that blocks it, or fails, spoils the call of `lock`. -/
theorem not_lockedAlone_of_waits {k : Kernel Ref} (turns : Nat) (taken : found s.looked ≠ 0)
    (other : found s.looked ≠ currentId)
    (waits : (s.look.waitUntil (fun n => found n == 0) turns).1 = .panicked .isIdle
      ∨ ∃ t,
          (s.look.waitUntil (fun n => found n == 0) turns).2.kernel.Asleep t
          ∧ t ≠ k.current
          ∧ (k.tasks t).state ≠ .blocked)
    : ¬ LockedAlone k (lockLoop found currentId (turns + 1) s) := by
  rw [lockLoop_of_taken turns taken other]
  rcases waits with fails | ⟨t, asleep, other, awake⟩
  · rw [if_neg (by rw [fails]; decide)]
    exact fun alone => alone.1.asserts.2 fails
  · intro alone
    refine not_blocksOnlyCaller_of_asleep ?_ other awake alone.1
    split
    · exact lockLoop_asleep found currentId turns asleep
    · exact asleep

/-- An exchange that succeeds under another current task returns the guard to that task. -/
theorem not_lockedAlone_of_free {k : Kernel Ref} (elsewhere : k.Elsewhere s.kernel) (turns : Nat)
    (free : found s.looked = 0)
    : ¬ LockedAlone k (lockLoop found (k.tid k.current) (turns + 1) s) := by
  intro alone
  have owner := alone.2
  simp only [lockLoop, free, if_true, look_kernel, forall_const] at owner
  exact elsewhere.otherId owner.symm

/-- Under another current task, the call blocks that task or returns a guard to it, unless it
loses every race; by induction on the races it loses.
-/
theorem lockLoop_elsewhere {k : Kernel Ref} (elsewhere : k.Elsewhere s.kernel) (races turns : Nat)
    (others : ∀ n, found n ≠ k.tid k.current)
    (ends : ¬ (found (s.looked + 2 * races) ≠ 0 ∧ found (s.looked + 2 * races + 1) = 0))
    : ¬ LockedAlone k (lockLoop found (k.tid k.current) (turns + 2 * races + 2) s) := by
  induction races generalizing s turns with
  | zero =>
      by_cases taken : found s.looked = 0
      · exact not_lockedAlone_of_free elsewhere _ taken
      · have held : found (s.looked + 1) ≠ 0 := fun free => ends ⟨taken, free⟩
        exact not_lockedAlone_of_waits (turns + 1) taken (others _)
          (waits_elsewhere (s := s.look) _ elsewhere (by simpa using held) turns)
  | succ races ih =>
      by_cases taken : found s.looked = 0
      · exact not_lockedAlone_of_free elsewhere _ taken
      by_cases free : found (s.looked + 1) = 0
      · rw [show turns + 2 * (races + 1) + 2 = (turns + 2 * races + 2) + 2 by omega,
          lockLoop_of_lost _ taken (others _) free,
          show turns + 2 * races + 2 + 1 = (turns + 1) + 2 * races + 2 by omega]
        refine ih (by simpa using elsewhere) (turns + 1) ?_
        simp only [cancelEvents_looked, look_looked]
        rwa [show s.looked + 1 + 1 + 2 * races = s.looked + 2 * (races + 1) by omega]
      · exact not_lockedAlone_of_waits (turns + 2 * (races + 1) + 1) taken (others _)
          (waits_elsewhere (s := s.look) _ elsewhere (by simpa using free) _)

/-- A contended `lock` blocks only its caller and returns its guard only to it exactly when
the queue lets the first `block_current` leave the frame, or the call never ends.
-/
theorem locksAlone_iff (able : s.kernel.CanBlock)
    (others : ∀ n, found n ≠ s.kernel.tid s.kernel.current)
    (contended : found s.looked ≠ 0 ∧ found (s.looked + 1) ≠ 0)
    : s.LocksAlone found
      ↔ s.kernel.Leaves s.kernel.readyQueue ∨ Spins found (s.looked + 2) := by
  have waits : (fun n => found n == 0) s.look.looked = false := by simpa using contended.2
  constructor
  · intro alone
    by_contra neither
    obtain ⟨stuck, ends⟩ := not_or.mp neither
    have first (turns : Nat)
        : s.kernel.Elsewhere (s.look.look.blockCurrent (turns + 2)).2.kernel
          ∧ s.look.waitUntil (fun n => found n == 0) (turns + 3)
            = (s.look.look.blockCurrent (turns + 2)).2.waitUntil (fun n => found n == 0)
              (turns + 2) := by
      have stays := (able.outcome turns).2 stuck
      refine ⟨able.elsewhere stays, ?_⟩
      rw [waitUntil_of_false (turns + 2) waits]
      exact if_pos stays.returned
    by_cases free : found (s.looked + 2) = 0
    · have loses : ∃ i, ¬ (found (s.looked + 3 + 2 * i) ≠ 0
          ∧ found (s.looked + 3 + 2 * i + 1) = 0) := by
        by_contra all
        exact ends ⟨free, not_exists_not.mp all⟩
      obtain ⟨races, loses⟩ := loses
      have turn := first (2 * races)
      have call := alone (2 * races + 3 + 1)
      rw [lock, lockLoop_of_taken (2 * races + 3) contended.1 (others _), turn.2,
        waitUntil_of_true (2 * races + 1) (by simpa using free), if_pos rfl,
        show 2 * races + 3 = 1 + 2 * races + 2 by omega] at call
      exact lockLoop_elsewhere (by simpa using turn.1) races 1 others (by simpa using loses) call
    · have turn := first 1
      refine not_lockedAlone_of_waits 4 contended.1 (others _) ?_ (alone 5)
      rw [turn.2]
      exact waits_elsewhere _ turn.1 (by simpa using free) 2
  · intro condition turns
    cases turns with
    | zero => exact ⟨⟨fun _ _ => id, nofun, nofun⟩, nofun⟩
    | succ turns =>
        rw [lock, lockLoop_of_taken turns contended.1 (others _)]
        cases turns with
        | zero => exact ⟨⟨fun _ _ => id, nofun, nofun⟩, nofun⟩
        | succ turns =>
            rw [waitUntil_of_false turns waits]
            rcases first_turn (k := s.look.kernel) able turns with
              (unfinished | ⟨-, left⟩) | ⟨stuck, returned, -⟩
            · have ends : (s.look.kernel.blockCurrent turns).1 ≠ .returned := by
                rw [unfinished]
                decide
              rw [if_neg ends, if_neg (show (s.look.look.blockCurrent turns).1 ≠ _ from ends)]
              exact ⟨blocksOnlyCaller_first able turns (by
                rw [blockCurrent_control]
                exact unfinished ▸ ⟨nofun, nofun⟩), fun returned => absurd returned ends⟩
            · have asserts := left_asserts left
              rw [if_neg asserts.1,
                if_neg (show (s.look.look.blockCurrent turns).1 ≠ _ from asserts.1)]
              exact ⟨blocksOnlyCaller_first able turns asserts.2,
                fun returned => absurd returned asserts.1⟩
            · rw [if_pos returned]
              obtain ⟨free, spins⟩ := condition.resolve_left stuck
              cases turns with
              | zero => exact ⟨blocksOnlyCaller_first able 0 ⟨nofun, nofun⟩, nofun⟩
              | succ turns =>
                  rw [waitUntil_of_true turns (by simpa using free), if_pos rfl]
                  have run := lockLoop_spins found
                    (s.kernel.tid s.kernel.current) (turns + 1 + 1)
                    (s := (s.look.look.blockCurrent (turns + 1)).2.look.cancelEvents
                      (s.look.look.blockCurrent (turns + 1)).2.kernel.current)
                    others (by simpa using spins)
                  refine ⟨?_, fun returned => absurd (run.1.symm.trans returned) (by decide)⟩
                  rw [run.1, run.2, cancelEvents_kernel]
                  exact blocksOnlyCaller_first able (turns + 1) ⟨nofun, nofun⟩

/-- Blocking blocks only the caller exactly when the queue lets the first `block_current`
leave the caller's frame: the first queued user task that may run here has started or finds
no stack. Otherwise another task goes on in that frame, and only a condition that is true at
the second look, or a mutex whose races are lost for ever, keeps it from being blocked.
-/
theorem blocks_only_caller_iff (able : s.kernel.CanBlock)
    : (∀ condition,
        condition s.looked = false
        → (s.WaitsAlone condition
          ↔ s.kernel.Leaves s.kernel.readyQueue ∨ condition (s.looked + 1) = true))
      ∧ ∀ found,
          (∀ n, found n ≠ s.kernel.tid s.kernel.current)
          → found s.looked ≠ 0 ∧ found (s.looked + 1) ≠ 0
          → (s.LocksAlone found
            ↔ s.kernel.Leaves s.kernel.readyQueue ∨ Spins found (s.looked + 2)) :=
  ⟨fun _ contended => waitsAlone_iff able contended,
    fun _ others contended => locksAlone_iff able others contended⟩

/-- The user task 0 runs on stack 1 and one user task waits in the queue. -/
def oneReady (isStarted : Bool) : Waiter Nat where
  kernel := {
    tasks := fun
      | 0 => ⟨4, "first", false, 1, .running, true, 1, false, false⟩
      | 1 => ⟨5, "second", false, 1, .ready, isStarted, 2, false, false⟩
      | _ => ⟨3, "idle", true, 1, .ready, false, 0, false, false⟩
    readyQueue := [1]
    kstackState := fun i => i == 1 || i == 2 && isStarted
    taskNub := 2
    curStack := 1
    current := 0
    idleTask := 2
    thisCpuId := 0 }
  queue := []
  inWaitQueue := fun _ => false
  looked := 0

theorem oneReady_canBlock (isStarted : Bool) : (oneReady isStarted).kernel.CanBlock where
  running := rfl
  busy := rfl
  notThree := by cases isStarted <;> decide
  unqueued := by cases isStarted <;> decide
  ready := by simp [oneReady]
  queued := by
    refine ⟨by cases isStarted <;> decide, ?_, ?_, ?_, ?_⟩ <;>
      simp [oneReady, Kernel.tid, Task.isKernelTask]
  idle := ⟨rfl, rfl, rfl⟩

/-- When the waiting task is fresh, a wait and a lock that block go on under it. -/
theorem fresh_task_is_blocked
    : ¬ (oneReady false).WaitsAlone (fun _ => false)
      ∧ ¬ (oneReady false).LocksAlone (fun _ => 6) := by
  have stuck : ¬ (oneReady false).kernel.Leaves (oneReady false).kernel.readyQueue := by
    rintro (⟨t, first, started | exhausted⟩ | ⟨none, -⟩)
    · have isSecond : t = 1 := by
        have member := (List.mem_filter.mp (List.mem_of_find?_eq_some first)).1
        simpa [oneReady] using member
      subst isSecond
      cases started
    · exact absurd (exhausted 3 (by decide) (by decide)) (by decide)
    · exact absurd none (by decide)
  have able := oneReady_canBlock false
  constructor
  · rw [waitsAlone_iff able rfl]
    simp [stuck]
  · rw [locksAlone_iff able (fun _ => by decide) (by decide)]
    simp [stuck, Spins]

/-- Witness: when the waiting task has started, both leave the caller's frame. -/
theorem started_task_takes_over
    : (oneReady true).WaitsAlone (fun _ => false) ∧ (oneReady true).LocksAlone (fun _ => 6) := by
  have leaves : (oneReady true).kernel.Leaves (oneReady true).kernel.readyQueue :=
    .inl ⟨1, by decide, .inl rfl⟩
  have both := blocks_only_caller_iff (oneReady_canBlock true)
  exact ⟨(both.1 _ rfl).mpr (.inl leaves),
    (both.2 _ (fun _ => by decide) (by decide)).mpr (.inl leaves)⟩

end Waiter

end RCoreOS.Axtask
