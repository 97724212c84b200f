import RCoreOS.Sync.WaitQueue

/-! Timed waits for conditions that other tasks change at any time. `wait_timeout_until` compares
the time with its deadline before it evaluates the condition, so a condition that became true
while the task slept is overlooked when the task runs again after the deadline.
-/

namespace RCoreOS.Sync

/-- The wait queues with the condition of every task, and what is recorded about it. -/
structure ConditionSystem (Task Queue : Type) extends WaitSystem Task Queue where
  /-- The value of the condition that a task waits for. -/
  condition : Task → Bool
  /-- History: the value that the condition had when the task last woke up or began its call. -/
  atWaking : Task → Bool
  /-- History: the condition was false at some time since the task last woke up or began its call.
  -/
  missed : Task → Bool
  /-- History: what the last evaluation of the condition has found. -/
  evaluated : Task → Option Bool

/-- A step of the wait queues, or of another task that changes what a condition depends on. -/
inductive ConditionEvent (Task Queue : Type) where
  | act (event : WaitEvent Task Queue)
  | change (t : Task) (value : Bool)

namespace WaitSystem

variable {Task Queue : Type} {id : Task → Nat} {s s' : WaitSystem Task Queue} {t : Task}

/-- The value that an event finds a condition to have. -/
def finding (s : WaitSystem Task Queue) : WaitEvent Task Queue → Option (Task × Bool)
  | .meet t => some (t, true)
  | .block t => if (s.call t).hasCondition then some (t, false) else none
  | _ => none

/-- The task wakes up or begins a call. -/
def Renews (s s' : WaitSystem Task Queue) (t : Task) : Prop :=
  s.blocked t = true ∧ s'.blocked t = false ∨ s.point t = .outside ∧ s'.point t ≠ .outside

instance (s s' : WaitSystem Task Queue) (t : Task) : Decidable (s.Renews s' t) :=
  inferInstanceAs (Decidable (_ ∨ _))

/-- What a step does to a task: it stays where it is, unless it was woken, or it moves on. -/
inductive Moves (s s' : WaitSystem Task Queue) (e : WaitEvent Task Queue) (t : Task) : Prop
  | stays (call : s'.call t = s.call t) (point : s'.point t = s.point t)
    (blocked : s'.blocked t = true → s.blocked t = true)
  /-- To a point on which nothing is decided yet. -/
  | undecided (there : (s'.point t).returns = none)
    (reads : s'.point t = .read → (s'.call t).hasCondition = false)
    (looks
      : s'.point t = .look → ∃ queue deadline, s'.call t = .waitTimeoutUntil queue deadline)
    (asleep : s'.blocked t = true → s'.point t = .asleep)
  | late (event : e = .look t) (call : s'.call t = s.call t) {deadline : Nat}
    (timed : (s.call t).deadline = some deadline) (past : deadline ≤ s.now)
    (here : s.point t = .look) (there : s'.point t = .cancelQueue true)
    (awake : s'.blocked t = s.blocked t)
  | met (event : e = .meet t) (call : s'.call t = s.call t) (here : s.point t = .block)
    (there : s'.point t = .cancelQueue false) (awake : s'.blocked t = s.blocked t)
  /-- The verdict of a call without a condition. -/
  | single (timeout : Bool) (call : (s'.call t).hasCondition = false)
    (there : s'.point t = .cancelQueue timeout) (awake : s'.blocked t = false)
  | leaves (timeout : Bool) (call : s'.call t = s.call t)
    (here : (s.point t).returns = some timeout)
    (there : (s'.point t).returns = some timeout ∨ s'.point t = .outside)
    (awake : s'.blocked t = s.blocked t)

/-- Where every task can be: asleep if it is blocked, about to read the queue's flag only in a call
without a condition, and about to look at the time only in `wait_timeout_until`.
-/
structure Placed (s : WaitSystem Task Queue) : Prop where
  asleep : ∀ t, s.blocked t = true → s.point t = .asleep
  reads : ∀ t, s.point t = .read → (s.call t).hasCondition = false
  looks
    : ∀ t, s.point t = .look → ∃ queue deadline, s.call t = .waitTimeoutUntil queue deadline

theorem Placed.awake (placed : s.Placed) {p : WaitPoint} (here : s.point t = p)
    (away : p ≠ .asleep)
    : s.blocked t = false := by
  cases blocked : s.blocked t with
  | false => rfl
  | true => exact absurd (here.symm.trans (placed.asleep t blocked)) away

variable [DecidableEq Task]

/-- A step of one task leaves the others where they are. -/
theorem Moves.act {e : WaitEvent Task Queue} {u : Task}
    (others
      : ∀ t, t ≠ u
        → s'.call t = s.call t ∧ s'.point t = s.point t ∧ s'.blocked t = s.blocked t)
    (self : s.Moves s' e u) (t : Task)
    : s.Moves s' e t := by
  by_cases other : t = u
  · rw [other]
    exact self
  · obtain ⟨call, point, blocked⟩ := others t other
    exact .stays call point (by simp [blocked])

/-- A task begins a call. -/
theorem Moves.enter {e : WaitEvent Task Queue} {u : Task} {call : WaitCall Queue} {p : WaitPoint}
    (awake : s.blocked u = false) (start : p = .arm ∨ p = .block)
    : ∀ t, s.Moves (s.enter u call p) e t := by
  refine Moves.act (u := u) (fun t other => ?_) ?_
  · simp [WaitSystem.enter, WaitSystem.goto, other]
  · rcases start with rfl | rfl
    all_goals
      refine .undecided ?_ ?_ ?_ ?_
      all_goals simp [WaitSystem.enter, WaitSystem.goto, WaitPoint.returns, awake]

/-- A task is unblocked, and nobody moves. -/
theorem Moves.unblock {e : WaitEvent Task Queue} {u : Task} (call : s'.call = s.call)
    (point : s'.point = s.point) (blocked : s'.blocked = Function.update s.blocked u false)
    (t : Task)
    : s.Moves s' e t := by
  refine .stays (by rw [call]) (by rw [point]) fun isBlocked => ?_
  rw [blocked, Function.update_apply] at isBlocked
  split at isBlocked
  · cases isBlocked
  · exact isBlocked

variable [DecidableEq Queue]

/-- The task of a step of `cancel_events` is on its way out. -/
theorem Moves.cancelEvents {e : WaitEvent Task Queue} {u : Task}
    (stepped : s.cancelEvents id u = some s')
    : ∀ t, s.Moves s' e t := by
  rcases cancelEvents_cases stepped with
    ⟨timeout, here, rfl⟩ | ⟨timeout, queue, here, -, rfl⟩ | ⟨timeout, here, rfl⟩
    | ⟨timeout, here, rfl⟩
  · refine Moves.act (u := u) (fun t other => by simp [goto, other]) ?_
    refine .leaves timeout rfl (by rw [here]; rfl) ?_ rfl
    simp only [goto, Function.update_self]
    split <;> exact .inl rfl
  · refine Moves.act (u := u) (fun t other => by simp [goto, unlist, other]) ?_
    refine .leaves timeout rfl (by rw [here]; rfl) ?_ rfl
    simp only [goto, Function.update_self]
    exact .inl rfl
  · refine Moves.act (u := u) (fun t other => by simp [goto, other]) ?_
    refine .leaves timeout rfl (by rw [here]; rfl) ?_ rfl
    simp only [goto, Function.update_self]
    split
    · exact .inl rfl
    · exact .inr rfl
  · refine Moves.act (u := u) (fun t other => by simp [goto, cancelAlarm, other]) ?_
    refine .leaves timeout rfl (by rw [here]; rfl) ?_ rfl
    simp only [goto, Function.update_self]
    exact .inr trivial

/-- Every step moves tasks in one of these ways. -/
theorem step_moves (placed : s.Placed) {e : WaitEvent Task Queue} (stepped : s.step id e = some s')
    : ∀ t, s.Moves s' e t := by
  have quiet {s₁ : WaitSystem Task Queue} (call : s₁.call = s.call) (point : s₁.point = s.point)
      (blocked : s₁.blocked = s.blocked) (t : Task)
      : s.Moves s₁ e t :=
    .stays (by rw [call]) (by rw [point]) (by simp [blocked])
  cases e with
  | wait u queue | waitUntil u queue | waitTimeout u queue dur | waitTimeoutUntil u queue dur =>
      obtain ⟨here, rfl⟩ := by simpa [step] using stepped
      exact Moves.enter (placed.awake here (by simp)) (by simp)
  | sleepUntil u deadline =>
      obtain ⟨-, rfl⟩ := by simpa [step] using stepped
      refine Moves.act (u := u) (fun t other => ?_) (.undecided ?_ ?_ ?_ ?_)
      · simp [sleepUntil, setAlarmWakeup, enter, goto, other]
      all_goals simp [sleepUntil, setAlarmWakeup, enter, goto, WaitPoint.returns]
  | setAlarm u =>
      simp only [step] at stepped
      split at stepped
      · rename_i here _
        cases stepped
        have awake := placed.awake here (by simp)
        refine Moves.act (u := u) (fun t other => ?_) (.undecided ?_ ?_ ?_ ?_)
        · simp [setAlarmWakeup, goto, other]
        all_goals simp [setAlarmWakeup, goto, WaitPoint.returns, awake]
      · rename_i here called
        cases stepped
        have awake := placed.awake here (by simp)
        refine Moves.act (u := u) (fun t other => ?_) (.undecided ?_ ?_ ?_ ?_)
        · simp [setAlarmWakeup, goto, other]
        all_goals simp [setAlarmWakeup, goto, WaitPoint.returns, awake, called]
      · cases stepped
  | look u =>
      simp only [step] at stepped
      split at stepped
      swap
      · cases stepped
      rename_i deadline here timed
      cases stepped
      refine Moves.act (u := u) (fun t other => by simp [goto, other]) ?_
      have awake := placed.awake here (by simp)
      rcases Nat.lt_or_ge s.now deadline with early | past
      · rw [if_pos early]
        exact .undecided (by simp [goto, WaitPoint.returns]) (by simp [goto]) (by simp [goto])
          (by simp [goto, awake])
      · rw [if_neg (Nat.not_lt.mpr past)]
        exact .late rfl rfl timed past here (by simp [goto]) rfl
  | meet u =>
      obtain ⟨⟨here, -⟩, rfl⟩ := by simpa [step] using stepped
      refine Moves.act (u := u) (fun t other => by simp [goto, other]) ?_
      exact .met rfl rfl here (by simp [goto]) rfl
  | block u =>
      simp only [step] at stepped
      split at stepped
      · cases stepped
        refine Moves.act (u := u) (fun t other => ?_) (.undecided ?_ ?_ ?_ ?_)
        · simp [blockCurrent, goto, other]
        all_goals simp [blockCurrent, goto, WaitPoint.returns]
      · cases stepped
  | resume u =>
      obtain ⟨⟨here, awake⟩, rfl⟩ := by simpa [step] using stepped
      refine Moves.act (u := u) (fun t other => by simp [goto, other]) ?_
      cases called : s.call u with
      | wait queue =>
          refine .single false ?_ ?_ awake
          · exact congrArg WaitCall.hasCondition called
          · simp [goto, wakePoint]
      | waitUntil queue | waitTimeout queue deadline | waitTimeoutUntil queue deadline
          | sleepUntil deadline =>
          refine .undecided ?_ ?_ ?_ ?_
          all_goals simp [goto, wakePoint, WaitPoint.returns, awake, called, WaitCall.hasCondition]
  | read u =>
      obtain ⟨here, rfl⟩ := by simpa [step] using stepped
      refine Moves.act (u := u) (fun t other => by simp [goto, other]) ?_
      exact .single (s.inWaitQueue (id u)) (placed.reads u here) (by simp [goto])
        (placed.awake here (by simp))
  | cancelEvents u => exact Moves.cancelEvents stepped
  | notifyOne queue =>
      cases stepped
      unfold notifyOne
      split
      · exact quiet rfl rfl rfl
      · simp only [popTask, unblockTask_eq]
        exact Moves.unblock rfl rfl rfl
  | notifyAll queue =>
      cases stepped
      unfold notifyAll
      split
      · exact quiet rfl rfl rfl
      · simp only [popTask, unblockTask_eq]
        exact Moves.unblock rfl rfl rfl
  | notifyTask queue u =>
      cases stepped
      unfold notifyTask
      split
      · simp only [popTask, unblockTask_eq]
        exact Moves.unblock rfl rfl rfl
      · exact quiet rfl rfl rfl
  | expire event | tick time =>
      obtain ⟨-, rfl⟩ := by simpa [step] using stepped
      exact quiet rfl rfl rfl
  | callback event =>
      obtain ⟨-, rfl⟩ := by simpa [step] using stepped
      simp only [callback, unblockTask_eq]
      exact Moves.unblock rfl rfl rfl
  | signal u =>
      cases stepped
      rw [unblockTask_eq]
      exact Moves.unblock rfl rfl rfl

/-- Every step leaves all tasks where they can be. -/
theorem Placed.step (placed : s.Placed) {e : WaitEvent Task Queue}
    (stepped : s.step id e = some s')
    : s'.Placed := by
  have each (t : Task)
      : (s'.blocked t = true → s'.point t = .asleep)
        ∧ (s'.point t = .read → (s'.call t).hasCondition = false)
        ∧ (s'.point t = .look
          → ∃ queue deadline, s'.call t = .waitTimeoutUntil queue deadline) := by
    cases step_moves placed stepped t with
    | stays call point blocked =>
        rw [point, call]
        exact ⟨fun isBlocked => placed.asleep t (blocked isBlocked), placed.reads t, placed.looks t⟩
    | undecided there reads looks asleep => exact ⟨asleep, reads, looks⟩
    | late event call timed past here there awake =>
        simp [there, awake, placed.awake here]
    | met event call here there awake =>
        simp [there, awake, placed.awake here]
    | single timeout call there awake =>
        simp [there, awake]
    | leaves timeout call here there awake =>
        have away : s.point t ≠ .asleep := by
          intro asleep
          simp [asleep, WaitPoint.returns] at here
        rw [awake, placed.awake rfl away]
        refine ⟨nofun, fun reads => ?_, fun looks => ?_⟩
        · simp [reads, WaitPoint.returns] at there
        · simp [looks, WaitPoint.returns] at there
  exact ⟨fun t => (each t).1, fun t => (each t).2.1, fun t => (each t).2.2⟩

omit [DecidableEq Task] [DecidableEq Queue] in
/-- A task that is on its way neither wakes up nor begins a call. -/
theorem Placed.not_renews (placed : s.Placed) {p : WaitPoint} (here : s.point t = p)
    (away : p ≠ .asleep) (inside : p ≠ .outside)
    : ¬ s.Renews s' t := by
  rintro (⟨asleep, -⟩ | ⟨outside, -⟩)
  · simp [placed.awake here away] at asleep
  · exact inside (here.symm.trans outside)

/-- Conditions are evaluated before blocking. -/
theorem finding_point {e : WaitEvent Task Queue} {value : Bool}
    (found : s.finding e = some (t, value)) (stepped : s.step id e = some s')
    : s.point t = .block := by
  cases e with
  | meet u =>
      cases found
      obtain ⟨⟨here, -⟩, -⟩ := by simpa [WaitSystem.step] using stepped
      exact here
  | block u =>
      simp only [finding, Option.ite_none_right_eq_some, Option.some.injEq, Prod.mk.injEq] at found
      obtain ⟨-, rfl, -⟩ := found
      simp only [WaitSystem.step] at stepped
      split at stepped
      · rename_i here _
        exact here
      · cases stepped
  | _ => cases found

end WaitSystem

namespace ConditionSystem

variable {Task Queue : Type} [DecidableEq Task] [DecidableEq Queue]

/-- No task has made a call yet. -/
def new (condition : Task → Bool) : ConditionSystem Task Queue where
  toWaitSystem := .new
  condition
  atWaking := condition
  missed := fun t => !condition t
  evaluated := fun _ => none

/-- The records after a step of the wait queues. -/
def record (s : ConditionSystem Task Queue) (e : WaitEvent Task Queue)
    (s' : WaitSystem Task Queue) : ConditionSystem Task Queue where
  toWaitSystem := s'
  condition := s.condition
  atWaking := fun t => if s.Renews s' t then s.condition t else s.atWaking t
  missed := fun t => if s.Renews s' t then !s.condition t else s.missed t
  evaluated :=
    match s.finding e with
    | some (t, value) => Function.update s.evaluated t (some value)
    | none => s.evaluated

/-- The condition of a task has a value from now on. -/
def change (s : ConditionSystem Task Queue) (t : Task) (value : Bool)
    : ConditionSystem Task Queue :=
  { s with
    condition := Function.update s.condition t value
    missed := Function.update s.missed t (s.missed t || !value) }

/-- The state after an event that is possible: conditions are found to be what they are. -/
def step (id : Task → Nat) (s : ConditionSystem Task Queue)
    : ConditionEvent Task Queue → Option (ConditionSystem Task Queue)
  | .act e =>
      if ∀ found ∈ s.finding e, s.condition found.1 = found.2 then
        (s.toWaitSystem.step id e).map (s.record e)
      else none
  | .change t value => some (s.change t value)

variable {id : Task → Nat} {s s' : ConditionSystem Task Queue} {t : Task} {timeout : Bool}

-----------------------------------------------------------------------------------------
-- Verdicts
-----------------------------------------------------------------------------------------

/-- In its next step the task returns from its call, and this is what it returns. -/
def Returns (id : Task → Nat) (s : ConditionSystem Task Queue) (t : Task) (timeout : Bool)
    : Prop :=
  (s.point t).returns = some timeout
    ∧ ∃ s', s.toWaitSystem.step id (.cancelEvents t) = some s' ∧ s'.point t = .outside

/-- `wait_timeout_until` returns true only if the condition was false at some time since the task
woke up, and false only if the condition was true when it was evaluated for the last time.
-/
def Honest (id : Task → Nat) (s : ConditionSystem Task Queue) : Prop :=
  ∀ t queue deadline timeout,
    s.call t = .waitTimeoutUntil queue deadline → s.Returns id t timeout
      → if timeout then s.missed t = true else s.evaluated t = some true

/-- A task that woke up, or began its call, with its condition true looks at the time before its
deadline.
-/
def Timely (s : ConditionSystem Task Queue) : ConditionEvent Task Queue → Prop
  | .act (.look t) =>
      ∀ deadline, (s.call t).deadline = some deadline → s.atWaking t = true → s.now < deadline
  | _ => True

/-- The states of runs whose steps all meet a condition on the state before and the event. -/
abbrev Reachable (id : Task → Nat)
    (allowed : ConditionSystem Task Queue → ConditionEvent Task Queue → Prop)
    (s : ConditionSystem Task Queue) : Prop :=
  Transition.Reachable (∃ condition, · = new condition)
    (fun s s' => ∃ e, allowed s e ∧ s.step id e = some s') s

/-- Tasks are where they can be, a condition was false at a task's waking only if the task has
missed it, and the verdicts fit to the records.
-/
structure Recorded (s : ConditionSystem Task Queue) : Prop where
  placed : s.Placed
  missed : ∀ t, s.atWaking t = false → s.missed t = true
  verdict
    : ∀ t timeout, (s.call t).hasCondition = true → (s.point t).returns = some timeout
      → if timeout then s.missed t = true else s.evaluated t = some true

omit [DecidableEq Queue] in
theorem record_missed {e : WaitEvent Task Queue} {s' : WaitSystem Task Queue}
    (same : ¬ s.Renews s' t)
    : (s.record e s').missed t = s.missed t :=
  if_neg same

/-- Only a task that is about to block evaluates its condition. -/
theorem record_evaluated {e : WaitEvent Task Queue} {s' : WaitSystem Task Queue}
    (stepped : s.toWaitSystem.step id e = some s') (away : s.point t ≠ .block)
    : (s.record e s').evaluated t = s.evaluated t := by
  cases found : s.finding e with
  | none => simp [record, found]
  | some evaluation =>
      obtain ⟨u, value⟩ := evaluation
      have other : t ≠ u := by
        intro same
        exact away (WaitSystem.finding_point (same ▸ found) stepped)
      simp [record, found, other]

/-- A step of the wait queues keeps the records, by what it does to each task. -/
theorem Recorded.act (recorded : s.Recorded) {e : WaitEvent Task Queue}
    {s' : WaitSystem Task Queue} (timely : s.Timely (.act e))
    (stepped : s.toWaitSystem.step id e = some s')
    : (s.record e s').Recorded where
  placed := recorded.placed.step stepped
  missed t := by
    simp only [record]
    split
    · simp
    · exact recorded.missed t
  verdict t timeout loops there := by
    change (s'.call t).hasCondition = true at loops
    change (s'.point t).returns = some timeout at there
    -- a task that was on its way keeps its records
    have kept (here : (s.point t).returns = some timeout) (call : s'.call t = s.call t)
        : if timeout then (s.record e s').missed t = true
          else (s.record e s').evaluated t = some true := by
      have asleep : s.point t ≠ .asleep := fun at' => by simp [at', WaitPoint.returns] at here
      have outside : s.point t ≠ .outside := fun at' => by simp [at', WaitPoint.returns] at here
      have block : s.point t ≠ .block := fun at' => by simp [at', WaitPoint.returns] at here
      rw [record_missed (recorded.placed.not_renews rfl asleep outside),
        record_evaluated stepped block]
      exact recorded.verdict t timeout (call ▸ loops) here
    cases WaitSystem.step_moves recorded.placed stepped t with
    | stays call point blocked => exact kept (point ▸ there) call
    | undecided nothing reads looks asleep =>
        rw [nothing] at there
        cases there
    | late event call timed past here decided awake =>
        subst event
        rw [decided] at there
        cases there
        have fresh : ¬ s.Renews s' t := recorded.placed.not_renews here (by simp) (by simp)
        rw [if_pos rfl, record_missed fresh]
        refine recorded.missed t (Bool.eq_false_iff.mpr fun held => ?_)
        exact Nat.not_lt.mpr past (timely _ timed held)
    | met event call here decided awake =>
        subst event
        rw [decided] at there
        cases there
        simp [record, WaitSystem.finding]
    | single verdict call decided awake =>
        rw [call] at loops
        cases loops
    | leaves timeout call here left awake =>
        rcases left with left | outside
        · rw [left] at there
          exact kept (here.trans there) call
        · rw [outside] at there
          cases there

omit [DecidableEq Queue] in
/-- A change of a condition keeps the records. -/
theorem Recorded.change (recorded : s.Recorded) (u : Task) (value : Bool)
    : (s.change u value).Recorded where
  placed := recorded.placed
  missed t woke := by
    have before := recorded.missed t woke
    simp only [ConditionSystem.change, Function.update_apply]
    split
    · rename_i same
      subst same
      simp [before]
    · exact before
  verdict t timeout loops there := by
    have before := recorded.verdict t timeout loops there
    cases timeout with
    | false => exact before
    | true =>
        simp only [ConditionSystem.change, Function.update_apply, if_true] at before ⊢
        split
        · rename_i same
          subst same
          simp [before]
        · exact before

theorem Recorded.step (recorded : s.Recorded) {e : ConditionEvent Task Queue}
    (timely : s.Timely e) (stepped : s.step id e = some s')
    : s'.Recorded := by
  cases e with
  | change t value =>
      cases stepped
      exact recorded.change t value
  | act e =>
      simp only [ConditionSystem.step, Option.ite_none_right_eq_some, Option.map_eq_some_iff]
        at stepped
      obtain ⟨-, next, stepped, rfl⟩ := stepped
      exact recorded.act timely stepped

theorem Reachable.recorded (reachable : Reachable id Timely s) : s.Recorded := by
  refine Transition.Reachable.invariant Recorded ?_ ?_ reachable
  · rintro s ⟨condition, rfl⟩
    constructor
    · constructor <;> simp [new, WaitSystem.new]
    · simp [new]
    · simp [new, WaitSystem.new, WaitPoint.returns]
  · rintro s s' recorded ⟨e, timely, stepped⟩
    exact recorded.step timely stepped

-----------------------------------------------------------------------------------------
-- The way out
-----------------------------------------------------------------------------------------

/-- On its own the task gets to its return, with the verdict and the records that it has. -/
structure Leaves (id : Task → Nat) (t : Task) (timeout : Bool)
    (s s' : ConditionSystem Task Queue)
    : Prop where
  run
    : Relation.ReflTransGen (fun s s' => s.step id (.act (.cancelEvents t)) = some s') s s'
  returns : s'.Returns id t timeout
  call : s'.call t = s.call t
  missed : s'.missed t = s.missed t

/-- A step of `cancel_events` comes first. -/
theorem Leaves.head {s₁ : WaitSystem Task Queue} {p : WaitPoint} (placed : s.Placed)
    (here : s.point t = p) (away : p ≠ .asleep ∧ p ≠ .outside)
    (stepped : s.toWaitSystem.cancelEvents id t = some s₁) (call : s₁.call t = s.call t)
    (rest
      : ∀ s₂ : ConditionSystem Task Queue,
          s₂.Placed → s₂.toWaitSystem = s₁ → ∃ s', Leaves id t timeout s₂ s')
    : ∃ s', Leaves id t timeout s s' := by
  have next : s.toWaitSystem.step id (.cancelEvents t) = some s₁ := stepped
  obtain ⟨s', leaves⟩ := rest (s.record (.cancelEvents t) s₁) (placed.step next) rfl
  refine ⟨s', .head ?_ leaves.run, leaves.returns, leaves.call.trans call, ?_⟩
  · simp [step, WaitSystem.finding, next]
  · exact leaves.missed.trans (record_missed (placed.not_renews here away.1 away.2))

variable {queue : Queue}

theorem leaves_disarm (here : s.point t = .disarm timeout)
    (called : (s.call t).queue = some queue)
    : ∃ s', Leaves id t timeout s s' := by
  refine ⟨s, .refl, ⟨by rw [here]; rfl, (s.cancelAlarm id t).goto t .outside, ?_, ?_⟩, rfl, rfl⟩
  · simp [WaitSystem.step, WaitSystem.cancelEvents, here, called]
  · simp [WaitSystem.goto]

theorem leaves_cancelTimer (placed : s.Placed) (here : s.point t = .cancelTimer timeout)
    (called : (s.call t).queue = some queue)
    : ∃ s', Leaves id t timeout s s' := by
  cases armed : s.inTimerList (id t) with
  | false =>
      refine ⟨s, .refl, ⟨by rw [here]; rfl, s.goto t .outside, ?_, ?_⟩, rfl, rfl⟩
      · simp [WaitSystem.step, WaitSystem.cancelEvents, here, called, armed]
      · simp [WaitSystem.goto]
  | true =>
      have stepped : s.toWaitSystem.cancelEvents id t = some (s.goto t (.disarm timeout)) := by
        simp [WaitSystem.cancelEvents, here, called, armed]
      refine Leaves.head placed here (by simp) stepped rfl fun s₂ _ same => ?_
      exact leaves_disarm (by simp [same, WaitSystem.goto]) (by rwa [same])

/-- Whatever the flags of the task are, it gets to its return. -/
theorem leaves_cancelQueue (placed : s.Placed) (here : s.point t = .cancelQueue timeout)
    (called : (s.call t).queue = some queue)
    : ∃ s', Leaves id t timeout s s' := by
  cases listed : s.inWaitQueue (id t) with
  | false =>
      have stepped : s.toWaitSystem.cancelEvents id t = some (s.goto t (.cancelTimer timeout)) := by
        simp [WaitSystem.cancelEvents, here, called, listed]
      refine Leaves.head placed here (by simp) stepped rfl fun s₂ placed₂ same => ?_
      exact leaves_cancelTimer placed₂ (by simp [same, WaitSystem.goto]) (by rwa [same])
  | true =>
      have stepped : s.toWaitSystem.cancelEvents id t = some (s.goto t (.unlist timeout)) := by
        simp [WaitSystem.cancelEvents, here, called, listed]
      refine Leaves.head placed here (by simp) stepped rfl fun s₂ placed₂ same => ?_
      have there : s₂.point t = .unlist timeout := by simp [same, WaitSystem.goto]
      have called₂ : (s₂.call t).queue = some queue := by rwa [same]
      have removed : s₂.toWaitSystem.cancelEvents id t
          = some ((s₂.unlist id t queue).goto t (.cancelTimer timeout)) := by
        simp [WaitSystem.cancelEvents, there, called₂]
      refine Leaves.head placed₂ there (by simp) removed rfl fun s₃ placed₃ same => ?_
      exact leaves_cancelTimer placed₃ (by simp [same, WaitSystem.goto]) (by rwa [same])

/-- A task that looks too late returns with a timeout all the same, although its condition was
true when it woke up and nothing has changed it.
-/
theorem Recorded.untimely (recorded : s.Recorded) (untimely : ¬ s.Timely (.act (.look t)))
    (unchanged : s.missed t = false) (stepped : s.step id (.act (.look t)) = some s')
    : ∃ s'', Leaves id t true s' s'' ∧ ¬ s''.Honest id := by
  simp only [Timely, not_forall, Nat.not_lt] at untimely
  obtain ⟨deadline, timed, held, past⟩ := untimely
  simp only [ConditionSystem.step, Option.ite_none_right_eq_some, Option.map_eq_some_iff]
    at stepped
  obtain ⟨-, next, moved, rfl⟩ := stepped
  have looked := moved
  simp only [WaitSystem.step, timed] at looked
  split at looked
  swap
  · cases looked
  rename_i here found
  cases found
  rw [if_neg (Nat.not_lt.mpr past), Option.some.injEq] at looked
  subst looked
  obtain ⟨queue, deadline', call⟩ := recorded.placed.looks t here
  have called : (s.call t).queue = some queue := by rw [call]; rfl
  obtain ⟨s'', leaves⟩ := leaves_cancelQueue
    (s := s.record (.look t) (s.goto t (.cancelQueue true)))
    (recorded.placed.step moved) (Function.update_self ..) called
  refine ⟨s'', leaves, fun honest => ?_⟩
  have missed := honest t queue deadline' true (leaves.call.trans call) leaves.returns
  have same : ¬ s.Renews (s.goto t (.cancelQueue true)) t :=
    recorded.placed.not_renews here (by simp) (by simp)
  rw [if_pos rfl, leaves.missed, record_missed same, unchanged] at missed
  cases missed

/-- As long as tasks that wake up with their condition true look at the time before their deadline,
`wait_timeout_until` is honest. One that looks too late returns with a timeout even if nothing has
made its condition false since it woke up.
-/
theorem Reachable.timeouts_honest (reachable : Reachable id Timely s)
    : s.Honest id
      ∧ ∀ t s', ¬ s.Timely (.act (.look t)) → s.missed t = false
        → s.step id (.act (.look t)) = some s'
        → ∃ s'', Leaves id t true s' s'' ∧ ¬ s''.Honest id := by
  have recorded := reachable.recorded
  refine ⟨?_, fun t s' => recorded.untimely⟩
  intro t queue deadline timeout call returns
  exact recorded.verdict t timeout (by rw [call]; rfl) returns.1

/-- The task sleeps, its condition becomes true, it is notified, and it looks at the time before
its deadline.
-/
theorem timeouts_honest_notified
    : ∃ s : ConditionSystem Nat Nat, (s.point 0).returns = some false ∧ s.Honest (fun t => t) := by
  have start : Reachable (fun t => t) Timely (new fun _ => false : ConditionSystem Nat Nat) :=
    .start ⟨_, rfl⟩
  have called := start.next ⟨.act (.waitTimeoutUntil 0 7 5), trivial, rfl⟩
  have armed := called.next ⟨.act (.setAlarm 0), trivial, rfl⟩
  have looked := armed.next
    ⟨.act (.look 0), fun deadline timed _ => by cases timed; decide, rfl⟩
  have slept := looked.next ⟨.act (.block 0), trivial, rfl⟩
  have changed := slept.next ⟨.change 0 true, trivial, rfl⟩
  have woken := (changed.next ⟨.act (.notifyOne 7), trivial, rfl⟩).next
    ⟨.act (.resume 0), trivial, rfl⟩
  have early := woken.next
    ⟨.act (.look 0), fun deadline timed _ => by cases timed; decide, rfl⟩
  have met := early.next ⟨.act (.meet 0), trivial, rfl⟩
  exact ⟨_, rfl, (Reachable.timeouts_honest met).1⟩

/-- The same task looks at the time only after its deadline: it returns true, although its condition
has been true from before it woke up, and its last evaluation is the one before it slept.
-/
theorem timeout_overlooks_condition
    : ∃ s : ConditionSystem Nat Nat,
        [.act (.waitTimeoutUntil 0 7 5), .act (.setAlarm 0), .act (.look 0), .act (.block 0),
            .change 0 true, .act (.notifyOne 7), .act (.tick 5), .act (.resume 0), .act (.look 0),
            .act (.cancelEvents 0), .act (.cancelEvents 0)].foldlM (step fun t => t)
            (new fun _ => false)
          = some s
        ∧ s.Returns (fun t => t) 0 true ∧ s.missed 0 = false ∧ s.condition 0 = true
        ∧ ¬ s.Honest (fun t => t) := by
  refine ⟨_, rfl, ⟨rfl, _, rfl, rfl⟩, rfl, rfl, fun honest => ?_⟩
  have missed := honest 0 7 5 true rfl ⟨rfl, _, rfl, rfl⟩
  cases missed

end ConditionSystem

end RCoreOS.Sync
