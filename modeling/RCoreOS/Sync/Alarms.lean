import RCoreOS.Sync.WaitQueue

/-! Timed waits and their alarms. An alarm wakes only a task that is blocked, and it is armed
before its task takes the run-queue lock. -/

namespace RCoreOS.Sync

namespace WaitSystem

variable {Task Queue : Type} {id : Task → Nat} {s s' : WaitSystem Task Queue} {t : Task}

/-- The wake-up events that have not been delivered. -/
def pending (s : WaitSystem Task Queue) : List (Nat × Task) :=
  s.timerList ++ s.expired

-----------------------------------------------------------------------------------------
-- The alarm of one task
-----------------------------------------------------------------------------------------

/-- What is known of the alarm of a task at each point of its call. -/
structure Awaits (s : WaitSystem Task Queue) (t : Task) : Prop where
  asleep : s.blocked t = true → s.point t = .asleep
  queue : s.point t = .look ∨ s.point t = .block → ∃ queue, (s.call t).queue = some queue
  kept
    : ∀ deadline, (s.call t).deadline = some deadline
      → s.blocked t = true ∨ s.point t = .block → (deadline, t) ∈ s.pending
  /-- An alarm that is gone has woken the task after its deadline. -/
  gone
    : ∀ deadline, (s.call t).deadline = some deadline
      → s.point t = .look ∨ s.point t = .asleep
      → (deadline, t) ∈ s.pending ∨ deadline ≤ s.now

/-- Only what becomes of its own events matters to a task that takes no step itself. -/
theorem Awaits.frame (awaits : s.Awaits t) (call : s'.call t = s.call t)
    (point : s'.point t = s.point t) (blocked : s'.blocked t = true → s.blocked t = true)
    (later : s.now ≤ s'.now)
    (kept : ∀ deadline, (deadline, t) ∈ s.pending → (deadline, t) ∈ s'.pending)
    : s'.Awaits t where
  asleep isBlocked := by
    rw [point]
    exact awaits.asleep (blocked isBlocked)
  queue here := by
    rw [point] at here
    rw [call]
    exact awaits.queue here
  kept deadline timed here := by
    rw [call] at timed
    rw [point] at here
    exact kept _ (awaits.kept deadline timed (here.imp_left blocked))
  gone deadline timed here := by
    rw [call] at timed
    rw [point] at here
    exact (awaits.gone deadline timed here).imp (kept deadline) (Nat.le_trans · later)

theorem Awaits.awake (awaits : s.Awaits t) {p : WaitPoint} (here : s.point t = p)
    (away : p ≠ .asleep)
    : s.blocked t = false := by
  cases blocked : s.blocked t with
  | false => rfl
  | true => exact absurd (here.symm.trans (awaits.asleep blocked)) away

/-- A task that neither sleeps nor is about to needs no alarm. -/
theorem Awaits.of_quiet (awake : s.blocked t = false)
    (quiet : s.point t ≠ .look ∧ s.point t ≠ .block ∧ s.point t ≠ .asleep)
    : s.Awaits t := by
  constructor <;> simp [awake, quiet]

/-- Every expired event is due, and every task awaits its alarm. -/
structure Alarmed (s : WaitSystem Task Queue) : Prop where
  due : ∀ event ∈ s.expired, event.1 ≤ s.now
  awaits : ∀ t, s.Awaits t

/-- A change that keeps the tasks where they are and the events, and blocks nobody. -/
theorem Alarmed.frame (alarmed : s.Alarmed) (call : s'.call = s.call) (point : s'.point = s.point)
    (blocked : ∀ t, s'.blocked t = true → s.blocked t = true) (now : s'.now = s.now)
    (timerList : s'.timerList = s.timerList) (expired : s'.expired = s.expired)
    : s'.Alarmed where
  due := by
    rw [expired, now]
    exact alarmed.due
  awaits t := by
    refine (alarmed.awaits t).frame (by rw [call]) (by rw [point]) (blocked t) (by simp [now]) ?_
    simp [pending, timerList, expired]

-----------------------------------------------------------------------------------------
-- Steps of a task and of the timer
-----------------------------------------------------------------------------------------

variable [DecidableEq Task]

/-- The callback of this event would come too early: its task has armed the alarm, or has
looked at the time, but does not block before its next step, and no second event would wake it.
-/
def Early (s : WaitSystem Task Queue) (event : Nat × Task) : Prop :=
  s.point event.2 = .block ∧ (s.call event.2).deadline = some event.1
    ∧ event ∉ s.timerList ++ s.expired.erase event

/-- No callback comes too early. -/
def Punctual (s : WaitSystem Task Queue) : WaitEvent Task Queue → Prop
  | .callback event => ¬ s.Early event
  | _ => True

/-- A step of one task, which disturbs no event of another. -/
theorem Alarmed.act (alarmed : s.Alarmed) (now : s'.now = s.now) (expired : s'.expired = s.expired)
    (others
      : ∀ u, u ≠ t
        → s'.call u = s.call u ∧ s'.point u = s.point u ∧ s'.blocked u = s.blocked u)
    (kept : ∀ event ∈ s.timerList, event.2 ≠ t → event ∈ s'.timerList) (self : s'.Awaits t)
    : s'.Alarmed where
  due := by
    rw [expired, now]
    exact alarmed.due
  awaits u := by
    by_cases other : u = t
    · rw [other]
      exact self
    · obtain ⟨call, point, blocked⟩ := others u other
      refine (alarmed.awaits u).frame call point (by simp [blocked]) (by simp [now]) ?_
      intro deadline member
      rw [pending, expired]
      exact List.mem_append.mpr
        ((List.mem_append.mp member).imp_left fun listed => kept _ listed other)

/-- An awake task moves to a point where it needs no alarm. -/
theorem Alarmed.goto (alarmed : s.Alarmed) (awake : s.blocked t = false) {p : WaitPoint}
    (quiet : p ≠ .look ∧ p ≠ .block ∧ p ≠ .asleep)
    : (s.goto t p).Alarmed := by
  refine alarmed.act (t := t) rfl rfl (fun u other => ?_) (fun _ member _ => member) ?_
  · simp [WaitSystem.goto, other]
  · exact .of_quiet awake (by simpa [WaitSystem.goto] using quiet)

/-- A task begins a call. -/
theorem Alarmed.enter (alarmed : s.Alarmed) (awake : s.blocked t = false)
    {call : WaitCall Queue} {p : WaitPoint}
    (ready : p = .arm ∨ p = .block ∧ call.deadline = none ∧ ∃ queue, call.queue = some queue)
    : (s.enter t call p).Alarmed := by
  refine alarmed.act (t := t) rfl rfl (fun u other => ?_)
    (fun _ member _ => member) ?_
  · simp [WaitSystem.enter, WaitSystem.goto, other]
  · rcases ready with rfl | ⟨rfl, untimed, queue⟩
    · exact .of_quiet awake (by simp [WaitSystem.enter, WaitSystem.goto])
    · constructor <;> simp [WaitSystem.enter, WaitSystem.goto, awake, untimed, queue]

/-- The alarm is armed. -/
theorem Alarmed.setAlarm (alarmed : s.Alarmed) (awake : s.blocked t = false) {deadline : Nat}
    (timed : (s.call t).deadline = some deadline) (queue : ∃ queue, (s.call t).queue = some queue)
    {p : WaitPoint} (next : p = .block ∨ p = .look)
    : ((s.setAlarmWakeup id deadline t).goto t p).Alarmed := by
  refine alarmed.act (t := t) rfl rfl (fun u other => ?_) (fun event member _ => ?_) ?_
  · simp [WaitSystem.goto, setAlarmWakeup, other]
  · simp [WaitSystem.goto, setAlarmWakeup, member]
  · rcases next with rfl | rfl
      <;> constructor
      <;> simp [WaitSystem.goto, setAlarmWakeup, awake, timed, queue, pending]

/-- A task that sees its deadline ahead still has its alarm. -/
theorem Alarmed.look (alarmed : s.Alarmed) (here : s.point t = .look) {deadline : Nat}
    (timed : (s.call t).deadline = some deadline)
    : (s.goto t (if s.now < deadline then .block else .cancelQueue true)).Alarmed := by
  have awaits := alarmed.awaits t
  have awake := awaits.awake here (by simp)
  split
  · rename_i ahead
    refine alarmed.act (t := t) rfl rfl (fun u other => ?_) (fun _ member _ => member) ?_
    · simp [WaitSystem.goto, other]
    · have armed : (deadline, t) ∈ s.pending :=
        (awaits.gone deadline timed (.inl here)).resolve_right (Nat.not_le.mpr ahead)
      have queue := awaits.queue (.inl here)
      rw [pending, List.mem_append] at armed
      constructor <;> simp [WaitSystem.goto, awake, timed, queue, pending, armed]
  · exact alarmed.goto awake (by simp)

theorem Alarmed.sleepUntil (alarmed : s.Alarmed) (t : Task) (deadline : Nat)
    : (s.sleepUntil id t deadline).Alarmed := by
  refine alarmed.act (t := t) rfl rfl (fun u other => ?_) (fun event member _ => ?_) ?_
  · simp [WaitSystem.sleepUntil, WaitSystem.enter, WaitSystem.goto, setAlarmWakeup, other]
  · simp [WaitSystem.sleepUntil, WaitSystem.enter, WaitSystem.goto, setAlarmWakeup, member]
  · constructor
      <;> simp [WaitSystem.sleepUntil, WaitSystem.enter, WaitSystem.goto, setAlarmWakeup,
        WaitCall.deadline, pending]

/-- A woken task goes on; the loop of `wait_timeout_until` looks at the time first. -/
theorem Alarmed.resume (alarmed : s.Alarmed) (here : s.point t = .asleep)
    (awake : s.blocked t = false)
    : (s.goto t (wakePoint (s.call t))).Alarmed := by
  have gone := (alarmed.awaits t).gone
  simp only [here, or_true, true_imp_iff] at gone
  have onto : (s.goto t (wakePoint (s.call t))).Awaits t := by
    cases call : s.call t with
    | wait queue => exact .of_quiet awake (by simp [WaitSystem.goto, wakePoint])
    | waitUntil queue =>
        constructor
          <;> simp [WaitSystem.goto, wakePoint, awake, call, WaitCall.queue, WaitCall.deadline]
    | waitTimeout queue deadline => exact .of_quiet awake (by simp [WaitSystem.goto, wakePoint])
    | waitTimeoutUntil queue deadline =>
        have gone := gone deadline (by simp [call, WaitCall.deadline])
        rw [pending, List.mem_append] at gone
        constructor
          <;> simp [WaitSystem.goto, wakePoint, awake, call, WaitCall.queue, WaitCall.deadline,
            pending, gone]
    | sleepUntil deadline => exact .of_quiet awake (by simp [WaitSystem.goto, wakePoint])
  refine alarmed.act (t := t) rfl rfl (fun u other => ?_) (fun _ member _ => member) onto
  simp [WaitSystem.goto, other]

/-- An event moves from the timer list to the expired ones. -/
theorem Alarmed.expire (alarmed : s.Alarmed) {event : Nat × Task} (due : event.1 ≤ s.now)
    : Alarmed { s with
        timerList := s.timerList.erase event
        expired := event :: s.expired } where
  due := by
    intro other member
    rcases List.mem_cons.mp member with rfl | older
    · exact due
    · exact alarmed.due other older
  awaits t := by
    refine (alarmed.awaits t).frame rfl rfl (fun isBlocked => isBlocked) (Nat.le_refl _) ?_
    intro deadline member
    simp only [pending, List.mem_append, List.mem_cons] at member ⊢
    by_cases same : (deadline, t) = event
    · exact .inr (.inl same)
    · exact member.imp (List.mem_erase_of_ne same).mpr .inr

/-- A callback that does not come too early wakes a blocked task, or finds a task that looks at
the time again before it sleeps.
-/
theorem Alarmed.callback (alarmed : s.Alarmed) {event : Nat × Task} (expired : event ∈ s.expired)
    (punctual : ¬ s.Early event)
    : (s.callback id event).Alarmed := by
  obtain ⟨time, u⟩ := event
  rw [WaitSystem.callback, unblockTask_eq]
  refine ⟨fun other member => alarmed.due other (List.mem_of_mem_erase member), fun t => ?_⟩
  have awaits := alarmed.awaits t
  have kept (deadline : Nat) (other : (deadline, t) ≠ (time, u))
      (member : (deadline, t) ∈ s.pending)
      : (deadline, t) ∈ s.timerList ++ s.expired.erase (time, u) := by
    rw [pending, List.mem_append] at member
    exact List.mem_append.mpr (member.imp_right (List.mem_erase_of_ne other).mpr)
  by_cases own : t = u
  · subst own
    refine ⟨by simp, awaits.queue, fun deadline timed here => ?_, fun deadline timed here => ?_⟩
    · simp only [Function.update_self, Bool.false_eq_true, false_or] at here
      by_cases same : deadline = time
      · subst same
        by_contra missing
        exact punctual ⟨here, timed, missing⟩
      · exact kept deadline (by simp [same]) (awaits.kept deadline timed (.inr here))
    · by_cases same : deadline = time
      · subst same
        exact .inr (alarmed.due _ expired)
      · exact (awaits.gone deadline timed here).imp_left (kept deadline (by simp [same]))
  · refine awaits.frame rfl rfl (fun isBlocked => ?_) (Nat.le_refl _) fun deadline =>
      kept deadline (by simp [own])
    simpa [Function.update_of_ne own] using isBlocked

-----------------------------------------------------------------------------------------
-- Steps that change the queues
-----------------------------------------------------------------------------------------

variable [DecidableEq Queue]

/-- A task blocks with its alarm armed. -/
theorem Alarmed.blockCurrent (alarmed : s.Alarmed) (here : s.point t = .block) (queue : Queue)
    : (s.blockCurrent id t queue).Alarmed := by
  refine alarmed.act (t := t) rfl rfl (fun u other => ?_)
    (fun _ member _ => member) ?_
  · simp [WaitSystem.blockCurrent, WaitSystem.goto, other]
  · have armed := (alarmed.awaits t).kept
    simp only [here, or_true, true_imp_iff] at armed
    constructor
    · simp [WaitSystem.blockCurrent, WaitSystem.goto]
    · simp [WaitSystem.blockCurrent, WaitSystem.goto]
    · exact fun deadline timed _ => armed deadline timed
    · exact fun deadline timed _ => .inl (armed deadline timed)

omit [DecidableEq Queue] in
/-- Waking a task leaves all alarms. -/
theorem Alarmed.unblockTask (alarmed : s.Alarmed) (t : Task) : (s.unblockTask t).Alarmed := by
  rw [unblockTask_eq]
  refine alarmed.frame rfl rfl (fun u isBlocked => ?_) rfl rfl rfl
  simp only [Function.update_apply] at isBlocked
  split at isBlocked
  · cases isBlocked
  · exact isBlocked

/-- Whoever takes an entry out of a queue wakes its task, and leaves all alarms. -/
theorem Alarmed.popTask (alarmed : s.Alarmed) (queue : Queue) (t : Task) (rest : List Task)
    : (s.popTask id queue t rest).Alarmed := by
  apply Alarmed.unblockTask
  exact alarmed.frame rfl rfl (fun _ isBlocked => isBlocked) rfl rfl rfl

theorem Alarmed.cancelEvents (alarmed : s.Alarmed) (stepped : s.cancelEvents id t = some s')
    : s'.Alarmed := by
  have awake {p : WaitPoint} := (alarmed.awaits t).awake (p := p)
  rcases cancelEvents_cases stepped with
    ⟨timeout, here, rfl⟩ | ⟨timeout, queue, here, -, rfl⟩ | ⟨timeout, here, rfl⟩
    | ⟨timeout, here, rfl⟩
  · refine alarmed.goto (awake here (by simp)) ?_
    split <;> simp
  · have unlisted : (s.unlist id t queue).Alarmed :=
      alarmed.frame rfl rfl (fun _ isBlocked => isBlocked) rfl rfl rfl
    exact unlisted.goto (awake here (by simp)) (by simp)
  · refine alarmed.goto (awake here (by simp)) ?_
    split <;> simp
  · refine alarmed.act (t := t) rfl rfl (fun u other => ?_) (fun event member other => ?_) ?_
    · simp [WaitSystem.goto, cancelAlarm, other]
    · simp [WaitSystem.goto, cancelAlarm, member, other]
    · exact .of_quiet (awake here (by simp)) (by simp [WaitSystem.goto])

/-- Every step but an early callback leaves all tasks with their alarms. -/
theorem Alarmed.step (alarmed : s.Alarmed) {e : WaitEvent Task Queue} (punctual : s.Punctual e)
    (stepped : s.step id e = some s')
    : s'.Alarmed := by
  have awake {t : Task} {p : WaitPoint} := (alarmed.awaits t).awake (p := p)
  cases e with
  | wait t queue =>
      obtain ⟨here, rfl⟩ := by simpa [WaitSystem.step] using stepped
      exact alarmed.enter (awake here (by simp)) (.inr ⟨rfl, rfl, queue, rfl⟩)
  | waitUntil t queue =>
      obtain ⟨here, rfl⟩ := by simpa [WaitSystem.step] using stepped
      exact alarmed.enter (awake here (by simp)) (.inr ⟨rfl, rfl, queue, rfl⟩)
  | waitTimeout t queue dur =>
      obtain ⟨here, rfl⟩ := by simpa [WaitSystem.step] using stepped
      exact alarmed.enter (awake here (by simp)) (.inl rfl)
  | waitTimeoutUntil t queue dur =>
      obtain ⟨here, rfl⟩ := by simpa [WaitSystem.step] using stepped
      exact alarmed.enter (awake here (by simp)) (.inl rfl)
  | setAlarm t =>
      simp only [WaitSystem.step] at stepped
      split at stepped
      · rename_i queue deadline here call
        cases stepped
        exact alarmed.setAlarm (awake here (by simp)) (by simp [call, WaitCall.deadline])
          ⟨queue, by simp [call, WaitCall.queue]⟩ (.inl rfl)
      · rename_i queue deadline here call
        cases stepped
        exact alarmed.setAlarm (awake here (by simp)) (by simp [call, WaitCall.deadline])
          ⟨queue, by simp [call, WaitCall.queue]⟩ (.inr rfl)
      · cases stepped
  | look t =>
      simp only [WaitSystem.step] at stepped
      split at stepped
      · rename_i deadline here timed
        cases stepped
        exact alarmed.look here timed
      · cases stepped
  | meet t =>
      obtain ⟨⟨here, -⟩, rfl⟩ := by simpa [WaitSystem.step] using stepped
      exact alarmed.goto (awake here (by simp)) (by simp)
  | block t =>
      simp only [WaitSystem.step] at stepped
      split at stepped
      · rename_i queue here _
        cases stepped
        exact alarmed.blockCurrent here queue
      · cases stepped
  | sleepUntil t deadline =>
      obtain ⟨-, rfl⟩ := by simpa [WaitSystem.step] using stepped
      exact alarmed.sleepUntil t deadline
  | resume t =>
      obtain ⟨⟨here, awake⟩, rfl⟩ := by simpa [WaitSystem.step] using stepped
      exact alarmed.resume here awake
  | read t =>
      obtain ⟨here, rfl⟩ := by simpa [WaitSystem.step] using stepped
      exact alarmed.goto (awake here (by simp)) (by simp)
  | cancelEvents t => exact alarmed.cancelEvents stepped
  | notifyOne queue =>
      cases stepped
      unfold WaitSystem.notifyOne
      split
      · exact alarmed
      · rename_i t rest _
        have popped : (s.popTask id queue t rest).Alarmed := alarmed.popTask queue t rest
        exact popped.frame rfl rfl (fun _ isBlocked => isBlocked) rfl rfl rfl
  | notifyAll queue =>
      cases stepped
      unfold WaitSystem.notifyAll
      split
      · exact alarmed
      · exact alarmed.popTask queue ..
  | notifyTask queue t =>
      cases stepped
      unfold WaitSystem.notifyTask
      split
      · exact alarmed.popTask queue ..
      · exact alarmed
  | expire event =>
      obtain ⟨⟨-, due, -⟩, rfl⟩ := by simpa [WaitSystem.step] using stepped
      exact alarmed.expire due
  | callback event =>
      obtain ⟨expired, rfl⟩ := by simpa [WaitSystem.step] using stepped
      exact alarmed.callback expired punctual
  | signal t =>
      cases stepped
      exact alarmed.unblockTask t
  | tick time =>
      obtain ⟨later, rfl⟩ := by simpa [WaitSystem.step] using stepped
      refine ⟨fun event member => Nat.le_trans (alarmed.due event member) later, fun t => ?_⟩
      exact (alarmed.awaits t).frame rfl rfl (fun isBlocked => isBlocked) later (by simp [pending])

-----------------------------------------------------------------------------------------
-- Every run
-----------------------------------------------------------------------------------------

/-- Every task that sleeps in a call with a deadline has the event of this deadline pending. -/
def AlarmsKept (s : WaitSystem Task Queue) : Prop :=
  ∀ t deadline, s.blocked t = true → (s.call t).deadline = some deadline
    → (deadline, t) ∈ s.pending

theorem Reachable.alarmed (reachable : Reachable id Punctual s) : s.Alarmed := by
  refine Transition.Reachable.invariant Alarmed ?_ ?_ reachable
  · rintro s rfl
    exact ⟨by simp [new], fun t => .of_quiet rfl (by simp [new])⟩
  · rintro s s' alarmed ⟨e, punctual, stepped⟩
    exact alarmed.step punctual stepped

/-- Without early callbacks every timed wait keeps its alarm while it sleeps; after an early
callback its task goes to sleep without one.
-/
theorem Reachable.alarms_kept (reachable : Reachable id Punctual s)
    : s.AlarmsKept
      ∧ ∀ e s', ¬ s.Punctual e → s.step id e = some s'
        → ∃ t s'', s'.step id (.block t) = some s'' ∧ ¬ s''.AlarmsKept := by
  have alarmed := reachable.alarmed
  refine ⟨fun t deadline asleep timed => (alarmed.awaits t).kept deadline timed (.inl asleep), ?_⟩
  intro e s' early stepped
  cases e with
  | callback event =>
      obtain ⟨-, rfl⟩ := by simpa [step] using stepped
      obtain ⟨here, timed, missing⟩ := not_not.mp early
      obtain ⟨queue, called⟩ := (alarmed.awaits event.2).queue (.inr here)
      refine ⟨event.2, (s.callback id event).blockCurrent id event.2 queue, ?_, fun kept => ?_⟩
      · simp [step, callback, unblockTask_eq, here, called]
      · refine missing ?_
        simpa [blockCurrent, goto, callback, unblockTask_eq, timed, pending]
          using kept event.2 event.1
  | _ => exact absurd trivial early

/-- Task 0 sleeps with its alarm armed; task 1 was woken by its own. -/
theorem alarms_kept_asleep
    : ∃ s : WaitSystem Nat Nat, s.blocked 0 = true ∧ s.blocked 1 = false ∧ s.AlarmsKept := by
  have start : Reachable (fun t => t) Punctual (new : WaitSystem Nat Nat) := .start rfl
  have called := start.next ⟨.waitTimeout 0 7 5, trivial, rfl⟩
  have slept := (called.next ⟨.setAlarm 0, trivial, rfl⟩).next ⟨.block 0, trivial, rfl⟩
  have second := (slept.next ⟨.sleepUntil 1 3, trivial, rfl⟩).next ⟨.tick 4, trivial, rfl⟩
  have expired := second.next ⟨.expire (3, 1), trivial, rfl⟩
  have woken := expired.next ⟨.callback (3, 1), fun early => absurd early.1 (by decide), rfl⟩
  exact ⟨_, rfl, rfl, (Reachable.alarms_kept woken).1⟩

/-- The alarm goes off before its task blocks, which then sleeps with no event pending. -/
theorem alarm_lost
    : ([.waitTimeout 0 7 5, .setAlarm 0, .tick 5, .expire (5, 0), .callback (5, 0),
          .block 0].foldlM (step (fun t : Nat => t)) (new : WaitSystem Nat Nat)).map
        (fun s => (s.blocked 0, (s.call 0).deadline, s.timerList, s.expired))
      = some (true, some 5, [], []) := by
  decide

end WaitSystem

end RCoreOS.Sync
