import RCoreOS.Sync.WaitQueue

/-! Entries in wait queues and the notifications spent on them. A timer or a signal wakes a task
without taking its entry out, so that the entry can be taken, or repeated, afterwards. -/

namespace RCoreOS.Sync

namespace WaitSystem

variable {Task Queue : Type} [DecidableEq Task] {id : Task → Nat}
variable {s s' : WaitSystem Task Queue} {t : Task}

/-- Every task has at most one entry, in one queue, none outside of its calls, and one exactly
when it is in `TASK_IN_WAIT_QUEUE`; no task reports a timeout after `notify_one` took its entry.
-/
structure Sound (id : Task → Nat) (s : WaitSystem Task Queue) : Prop where
  once : ∀ t queue, (s.queue queue).count t ≤ 1
  oneQueue : ∀ t queue other, t ∈ s.queue queue → t ∈ s.queue other → queue = other
  outside : ∀ t queue, s.point t = .outside → t ∉ s.queue queue
  flag : ∀ t, s.inWaitQueue (id t) = true ↔ ∃ queue, t ∈ s.queue queue
  notified : ∀ t, s.credited t = true → (s.point t).returns ≠ some true

/-- No task blocks again before its entry is gone, `notify_one` finds no entry of a task that is
about to report a timeout, and a task whose entry it took finds its deadline ahead.
-/
def Effective (id : Task → Nat) (s : WaitSystem Task Queue) : WaitEvent Task Queue → Prop
  | .block t => s.inWaitQueue (id t) = false
  | .notifyOne queue => ∀ t ∈ (s.queue queue).head?, (s.point t).returns ≠ some true
  | .look t => s.credited t = true → ∀ deadline ∈ (s.call t).deadline, s.now < deadline
  | _ => True

-----------------------------------------------------------------------------------------
-- The entries of one task
-----------------------------------------------------------------------------------------

/-- The points where a task may have an entry: once it has slept, and before it removes what
is left in the queue. Only the loops come back to the first two.
-/
def MayBeListed (call : WaitCall Queue) : WaitPoint → Prop
  | .look | .block => call.hasCondition = true
  | .asleep | .read | .cancelQueue _ | .unlist _ => True
  | .outside | .arm | .cancelTimer _ | .disarm _ => False

/-- Only the loops look at the time, and only the other calls read the flag. -/
def Fits (call : WaitCall Queue) : WaitPoint → Prop
  | .look => call.hasCondition = true
  | .read => call.hasCondition = false
  | _ => True

/-- What is known of the entries of a task at each point of its call. -/
structure Waits (id : Task → Nat) (s : WaitSystem Task Queue) (t : Task) : Prop where
  asleep : s.blocked t = true → s.point t = .asleep
  once : ∀ queue, (s.queue queue).count t ≤ 1
  listed
    : ∀ queue, t ∈ s.queue queue
      → (s.call t).queue = some queue ∧ MayBeListed (s.call t) (s.point t)
  flag : s.inWaitQueue (id t) = true ↔ ∃ queue, t ∈ s.queue queue
  fits : Fits (s.call t) (s.point t)
  notified : s.credited t = true → (s.point t).returns ≠ some true
  /-- A call that blocks once does not get its entry back. -/
  taken
    : s.credited t = true → (s.call t).hasCondition = false
      → s.point t ≠ .arm ∧ s.point t ≠ .block
        ∧ (s.point t = .asleep ∨ s.point t = .read → s.inWaitQueue (id t) = false)

theorem Waits.awake (waits : s.Waits id t) {p : WaitPoint} (here : s.point t = p)
    (away : p ≠ .asleep)
    : s.blocked t = false := by
  cases blocked : s.blocked t with
  | false => rfl
  | true => exact absurd (here.symm.trans (waits.asleep blocked)) away

theorem Waits.not_listed (waits : s.Waits id t) (away : ¬ MayBeListed (s.call t) (s.point t))
    (queue : Queue)
    : t ∉ s.queue queue :=
  fun member => away (waits.listed queue member).2

/-- Only its own entries and its flag matter to a task that takes no step itself. -/
theorem Waits.frame (waits : s.Waits id t) (call : s'.call t = s.call t)
    (point : s'.point t = s.point t) (credited : s'.credited t = s.credited t)
    (blocked : s'.blocked t = true → s.blocked t = true)
    (flag : s'.inWaitQueue (id t) = s.inWaitQueue (id t))
    (entries : ∀ queue, (s'.queue queue).count t = (s.queue queue).count t)
    : s'.Waits id t := by
  have member (queue : Queue) : t ∈ s'.queue queue ↔ t ∈ s.queue queue := by
    rw [← List.count_pos_iff, entries, List.count_pos_iff]
  obtain ⟨asleep, once, listed, flagged, fits, notified, taken⟩ := waits
  refine ⟨?_, ?_, ?_, ?_, ?_, ?_, ?_⟩
  · rw [point]
    exact fun isBlocked => asleep (blocked isBlocked)
  · simpa only [entries] using once
  · simpa only [member, call, point] using listed
  · simpa only [member, flag] using flagged
  · simpa only [call, point] using fits
  · simpa only [credited, point] using notified
  · simpa only [credited, call, point, flag] using taken

/-- A task moves on, awake. -/
theorem Waits.goto (waits : s.Waits id t) (awake : s.blocked t = false) {p : WaitPoint}
    (listed : ∀ queue, t ∈ s.queue queue → MayBeListed (s.call t) p)
    (fits : Fits (s.call t) p)
    (notified : s.credited t = true → p.returns ≠ some true)
    (taken
      : s.credited t = true → (s.call t).hasCondition = false
        → p ≠ .arm ∧ p ≠ .block
          ∧ (p = .asleep ∨ p = .read → s.inWaitQueue (id t) = false))
    : (s.goto t p).Waits id t where
  asleep := by simp [WaitSystem.goto, awake]
  once := waits.once
  listed queue member := by
    simp only [WaitSystem.goto, Function.update_self]
    exact ⟨(waits.listed queue member).1, listed queue member⟩
  flag := waits.flag
  fits := by simpa [WaitSystem.goto] using fits
  notified := by simpa [WaitSystem.goto] using notified
  taken := by simpa [WaitSystem.goto] using taken

-----------------------------------------------------------------------------------------
-- Steps
-----------------------------------------------------------------------------------------

/-- A step of one task, which disturbs no other. -/
theorem waits_act (waits : ∀ t, s.Waits id t)
    (others
      : ∀ u, u ≠ t
        → s'.call u = s.call u ∧ s'.point u = s.point u ∧ s'.credited u = s.credited u
          ∧ s'.blocked u = s.blocked u ∧ s'.inWaitQueue (id u) = s.inWaitQueue (id u)
          ∧ ∀ queue, (s'.queue queue).count u = (s.queue queue).count u)
    (self : s'.Waits id t) (u : Task)
    : s'.Waits id u := by
  by_cases other : u = t
  · rw [other]
    exact self
  · obtain ⟨call, point, credited, blocked, flag, entries⟩ := others u other
    exact (waits u).frame call point credited (by simp [blocked]) flag entries

theorem waits_goto (waits : ∀ t, s.Waits id t) {p : WaitPoint} (self : (s.goto t p).Waits id t)
    : ∀ u, (s.goto t p).Waits id u := by
  refine waits_act waits (fun u other => ?_) self
  simp [WaitSystem.goto, other]

/-- A task without an entry begins a call. -/
theorem waits_enter (waits : ∀ t, s.Waits id t) (here : s.point t = .outside)
    {call : WaitCall Queue} {p : WaitPoint} (start : p = .arm ∨ p = .block)
    : ∀ u, (s.enter t call p).Waits id u := by
  have unlisted := (waits t).not_listed (by simp [here, MayBeListed])
  refine waits_act waits (t := t) (fun u other => ?_) ⟨?_, ?_, ?_, ?_, ?_, ?_, ?_⟩
  · simp [WaitSystem.enter, WaitSystem.goto, other]
  · simp [WaitSystem.enter, WaitSystem.goto, (waits t).awake here]
  · exact (waits t).once
  · exact fun queue member => absurd member (unlisted queue)
  · exact (waits t).flag
  · rcases start with rfl | rfl <;> simp [WaitSystem.enter, WaitSystem.goto, Fits]
  · simp [WaitSystem.enter, WaitSystem.goto]
  · simp [WaitSystem.enter, WaitSystem.goto]

/-- A task without an entry goes to sleep until a deadline. -/
theorem waits_sleepUntil (waits : ∀ t, s.Waits id t) (here : s.point t = .outside)
    (deadline : Nat)
    : ∀ u, (s.sleepUntil id t deadline).Waits id u := by
  have unlisted := (waits t).not_listed (by simp [here, MayBeListed])
  refine waits_act waits (t := t) (fun u other => ?_) ⟨?_, ?_, ?_, ?_, ?_, ?_, ?_⟩
  · simp [WaitSystem.sleepUntil, WaitSystem.enter, WaitSystem.goto, setAlarmWakeup, other]
  · simp [WaitSystem.sleepUntil, WaitSystem.enter, WaitSystem.goto, setAlarmWakeup]
  · exact (waits t).once
  · exact fun queue member => absurd member (unlisted queue)
  · exact (waits t).flag
  · simp [WaitSystem.sleepUntil, WaitSystem.enter, WaitSystem.goto, setAlarmWakeup, Fits]
  · simp [WaitSystem.sleepUntil, WaitSystem.enter, WaitSystem.goto, setAlarmWakeup]
  · simp [WaitSystem.sleepUntil, WaitSystem.enter, WaitSystem.goto, setAlarmWakeup]

/-- The loops evaluate their conditions again, the other calls are on their way out. -/
theorem waits_resume (waits : ∀ t, s.Waits id t) (here : s.point t = .asleep)
    (awake : s.blocked t = false)
    : ∀ u, (s.goto t (wakePoint (s.call t))).Waits id u := by
  have taken := (waits t).taken
  simp only [here] at taken
  refine waits_goto waits ((waits t).goto awake (fun queue member => ?_) ?_ ?_ ?_)
  · have call := ((waits t).listed queue member).1
    cases called : s.call t with
    | sleepUntil deadline => simp [called, WaitCall.queue] at call
    | _ => simp [wakePoint, MayBeListed, WaitCall.hasCondition]
  · cases s.call t <;> simp [wakePoint, WaitCall.hasCondition, Fits]
  · cases s.call t <;> simp [wakePoint, WaitPoint.returns]
  · cases called : s.call t with
    | waitTimeout queue deadline =>
        intro credited single
        have unflagged := (taken credited (called ▸ single)).2.2
        exact ⟨by simp [wakePoint], by simp [wakePoint], fun _ => unflagged (by simp)⟩
    | _ => simp [wakePoint, WaitCall.hasCondition]

/-- A task is woken, by whatever. -/
theorem waits_unblockTask (waits : ∀ t, s.Waits id t) (t : Task)
    : ∀ u, (s.unblockTask t).Waits id u := by
  intro u
  rw [unblockTask_eq]
  refine (waits u).frame rfl rfl rfl (fun isBlocked => ?_) rfl fun _ => rfl
  simp only [Function.update_apply] at isBlocked
  split at isBlocked
  · cases isBlocked
  · exact isBlocked

variable [DecidableEq Queue]

/-- A task without an entry gets one as it blocks. -/
theorem waits_blockCurrent (distinct : Function.Injective id) (waits : ∀ t, s.Waits id t)
    (here : s.point t = .block) {queue : Queue} (called : (s.call t).queue = some queue)
    (gone : s.inWaitQueue (id t) = false)
    : ∀ u, (s.blockCurrent id t queue).Waits id u := by
  have unlisted (other : Queue) : t ∉ s.queue other := fun member => by
    simpa [gone] using (waits t).flag.mpr ⟨other, member⟩
  refine waits_act waits (t := t) (fun u other => ?_) ⟨?_, ?_, ?_, ?_, ?_, ?_, ?_⟩
  · refine ⟨rfl, ?_, rfl, ?_, ?_, fun other' => ?_⟩
    · simp [WaitSystem.blockCurrent, WaitSystem.goto, other]
    · simp [WaitSystem.blockCurrent, other]
    · simp [WaitSystem.blockCurrent, distinct.ne other]
    · simp only [WaitSystem.blockCurrent, Function.update_apply]
      split
      · rename_i same
        simp [List.count_append, same, Ne.symm other]
      · rfl
  · simp [WaitSystem.blockCurrent, WaitSystem.goto]
  · intro other
    simp only [WaitSystem.blockCurrent, Function.update_apply]
    split
    · rw [List.count_append, List.count_eq_zero_of_not_mem (unlisted queue)]
      simp
    · exact (waits t).once other
  · intro other member
    simp only [WaitSystem.blockCurrent, Function.update_apply] at member
    split at member
    · rename_i same
      exact ⟨same ▸ called, by simp [WaitSystem.blockCurrent, WaitSystem.goto, MayBeListed]⟩
    · exact absurd member (unlisted other)
  · refine iff_of_true (by simp [WaitSystem.blockCurrent]) ⟨queue, ?_⟩
    simp [WaitSystem.blockCurrent]
  · simp [WaitSystem.blockCurrent, WaitSystem.goto, Fits]
  · simp [WaitSystem.blockCurrent, WaitSystem.goto, WaitPoint.returns]
  · intro credited single
    exact absurd here ((waits t).taken credited single).2.1

/-- The entries of a task and its flag are gone, whoever takes them out. -/
theorem waits_without (distinct : Function.Injective id) (waits : ∀ t, s.Waits id t)
    {queue : Queue} {rest : List Task} (called : (s.call t).queue = some queue)
    (others : ∀ u, u ≠ t → rest.count u = (s.queue queue).count u) (none : t ∉ rest)
    : ∀ u, Waits id { s with
        queue := Function.update s.queue queue rest
        inWaitQueue := Function.update s.inWaitQueue (id t) false } u := by
  have unlisted (other : Queue) : t ∉ Function.update s.queue queue rest other := by
    rw [Function.update_apply]
    split
    · exact none
    · rename_i different
      intro member
      have same := called.symm.trans ((waits t).listed other member).1
      exact different (Option.some.inj same).symm
  refine waits_act waits (t := t) (fun u other => ?_)
    ⟨(waits t).asleep, fun other => ?_, fun other member => absurd member (unlisted other),
      ?_, (waits t).fits, (waits t).notified, ?_⟩
  · refine ⟨rfl, rfl, rfl, rfl, by simp [distinct.ne other], fun other' => ?_⟩
    simp only [Function.update_apply]
    split
    · rename_i same
      rw [same, others u other]
    · rfl
  · rw [List.count_eq_zero_of_not_mem (unlisted other)]
    exact Nat.zero_le 1
  · exact iff_of_false (by simp) fun listed => unlisted listed.choose listed.choose_spec
  · intro credited single
    have taken := (waits t).taken credited single
    exact ⟨taken.1, taken.2.1, fun _ => by simp⟩

/-- A notifier takes out the one entry of a task. -/
theorem waits_popTask (distinct : Function.Injective id) (waits : ∀ t, s.Waits id t)
    {queue : Queue} {rest : List Task} (perm : (s.queue queue).Perm (t :: rest))
    : ∀ u, (s.popTask id queue t rest).Waits id u := by
  have member : t ∈ s.queue queue := perm.mem_iff.mpr (List.mem_cons_self ..)
  have called := ((waits t).listed queue member).1
  refine waits_unblockTask (waits_without distinct waits called ?_ ?_) t
  · intro u other
    rw [perm.count_eq, List.count_cons_of_ne (Ne.symm other)]
  · have once := (waits t).once queue
    rw [perm.count_eq, List.count_cons_self] at once
    exact List.count_eq_zero.mp (by omega)

/-- A task that has lost its entry while awake is not about to report a timeout. -/
theorem waits_notifyOne (distinct : Function.Injective id) (waits : ∀ t, s.Waits id t)
    {queue : Queue} (effective : Effective id s (.notifyOne queue))
    : ∀ u, (s.notifyOne id queue).2.Waits id u := by
  unfold WaitSystem.notifyOne
  split
  · exact waits
  · rename_i t rest front
    have popped := waits_popTask distinct waits (.of_eq front)
    have member : t ∈ s.queue queue := by rw [front]; exact List.mem_cons_self ..
    have reached := ((waits t).listed queue member).2
    have waiting : (s.point t).returns ≠ some true := effective t (by rw [front]; rfl)
    cases blocked : s.blocked t with
    | true =>
        refine fun u => (popped u).frame rfl rfl ?_ (fun isBlocked => isBlocked) rfl fun _ => rfl
        simp [WaitSystem.popTask, unblockTask_eq]
    | false =>
        refine waits_act popped (t := t) (fun u other => ?_)
          ⟨(popped t).asleep, (popped t).once, (popped t).listed, (popped t).flag,
            (popped t).fits, fun _ => ?_, fun _ single => ?_⟩
        · simp [WaitSystem.popTask, unblockTask_eq, other]
        · simpa [WaitSystem.popTask, unblockTask_eq] using waiting
        · simp only [WaitSystem.popTask, unblockTask_eq] at single ⊢
          refine ⟨fun here => ?_, fun here => ?_, fun _ => by simp⟩
          · simp [here, MayBeListed] at reached
          · simp [here, MayBeListed, single] at reached

theorem waits_cancelEvents (distinct : Function.Injective id) (waits : ∀ t, s.Waits id t)
    (stepped : s.cancelEvents id t = some s')
    : ∀ u, s'.Waits id u := by
  rcases cancelEvents_cases stepped with
    ⟨timeout, here, rfl⟩ | ⟨timeout, queue, here, called, rfl⟩ | ⟨timeout, here, rfl⟩
    | ⟨timeout, here, rfl⟩
  · have notified := (waits t).notified
    rw [here] at notified
    refine waits_goto waits ((waits t).goto ((waits t).awake here (by simp)) ?_ ?_ ?_ ?_)
    · intro queue member
      rw [if_pos ((waits t).flag.mpr ⟨queue, member⟩)]
      trivial
    · split <;> trivial
    · split <;> exact notified
    · split <;> simp
  · have gone : ∀ u, (s.unlist id t queue).Waits id u := by
      refine waits_without distinct waits called (fun u other => ?_) (by simp)
      exact List.count_filter (by simpa using other)
    have notified := (waits t).notified
    rw [here] at notified
    refine waits_goto gone ((gone t).goto ((waits t).awake here (by simp)) ?_ trivial notified
      (by simp))
    intro other member
    have unflagged : (s.unlist id t queue).inWaitQueue (id t) = false := by
      simp [WaitSystem.unlist]
    simpa [unflagged] using (gone t).flag.mpr ⟨other, member⟩
  · have notified := (waits t).notified
    rw [here] at notified
    have unlisted := (waits t).not_listed (by simp [here, MayBeListed])
    refine waits_goto waits ((waits t).goto ((waits t).awake here (by simp)) ?_ ?_ ?_ ?_)
    · exact fun queue member => absurd member (unlisted queue)
    · split <;> trivial
    · split
      · exact notified
      · simp [WaitPoint.returns]
    · split <;> simp
  · have unarmed : ∀ u, (s.cancelAlarm id t).Waits id u := fun u =>
      (waits u).frame rfl rfl rfl (fun isBlocked => isBlocked) rfl fun _ => rfl
    have unlisted := (waits t).not_listed (by simp [here, MayBeListed])
    refine waits_goto unarmed ((unarmed t).goto ((waits t).awake here (by simp)) ?_ trivial
      (by simp [WaitPoint.returns]) (by simp))
    exact fun queue member => absurd member (unlisted queue)

/-- Every effective step keeps what is known of the entries. -/
theorem waits_step (distinct : Function.Injective id) (waits : ∀ t, s.Waits id t)
    {e : WaitEvent Task Queue} (effective : Effective id s e) (stepped : s.step id e = some s')
    : ∀ u, s'.Waits id u := by
  -- events that neither move a task nor touch a queue
  have quiet {s₁ : WaitSystem Task Queue} (call : s₁.call = s.call) (point : s₁.point = s.point)
      (credited : s₁.credited = s.credited) (blocked : s₁.blocked = s.blocked)
      (flag : s₁.inWaitQueue = s.inWaitQueue) (queue : s₁.queue = s.queue) (u : Task)
      : s₁.Waits id u :=
    (waits u).frame (by rw [call]) (by rw [point]) (by rw [credited]) (by simp [blocked])
      (by rw [flag]) (by simp [queue])
  cases e with
  | wait t queue =>
      obtain ⟨here, rfl⟩ := by simpa [WaitSystem.step] using stepped
      exact waits_enter waits here (.inr rfl)
  | waitUntil t queue =>
      obtain ⟨here, rfl⟩ := by simpa [WaitSystem.step] using stepped
      exact waits_enter waits here (.inr rfl)
  | waitTimeout t queue dur =>
      obtain ⟨here, rfl⟩ := by simpa [WaitSystem.step] using stepped
      exact waits_enter waits here (.inl rfl)
  | waitTimeoutUntil t queue dur =>
      obtain ⟨here, rfl⟩ := by simpa [WaitSystem.step] using stepped
      exact waits_enter waits here (.inl rfl)
  | setAlarm t =>
      have armed (deadline : Nat) : ∀ u, (s.setAlarmWakeup id deadline t).Waits id u :=
        quiet rfl rfl rfl rfl rfl rfl
      simp only [WaitSystem.step] at stepped
      split at stepped
      · rename_i queue deadline here call
        cases stepped
        have unlisted := (waits t).not_listed (by simp [here, MayBeListed])
        refine waits_goto (armed deadline)
          ((armed deadline t).goto ((waits t).awake here (by simp)) ?_ trivial ?_ ?_)
        · exact fun queue member => absurd member (unlisted queue)
        · simp [WaitPoint.returns]
        · exact fun credited single => absurd here ((waits t).taken credited single).1
      · rename_i queue deadline here call
        cases stepped
        have unlisted := (waits t).not_listed (by simp [here, MayBeListed])
        refine waits_goto (armed deadline)
          ((armed deadline t).goto ((waits t).awake here (by simp)) ?_ ?_ ?_ (by simp))
        · exact fun queue member => absurd member (unlisted queue)
        · simp [setAlarmWakeup, call, Fits, WaitCall.hasCondition]
        · simp [WaitPoint.returns]
      · cases stepped
  | look t =>
      simp only [WaitSystem.step] at stepped
      split at stepped
      · rename_i deadline here timed
        cases stepped
        have loops : (s.call t).hasCondition = true := by simpa [here, Fits] using (waits t).fits
        refine waits_goto waits ((waits t).goto ((waits t).awake here (by simp))
          (fun _ _ => ?_) ?_ (fun credited => ?_) (by simp [loops]))
        · split
          · exact loops
          · trivial
        · split <;> trivial
        · rw [if_pos (effective credited deadline timed)]
          simp [WaitPoint.returns]
      · cases stepped
  | meet t =>
      obtain ⟨⟨here, loops⟩, rfl⟩ := by simpa [WaitSystem.step] using stepped
      refine waits_goto waits ((waits t).goto ((waits t).awake here (by simp))
        (fun _ _ => trivial) trivial (by simp [WaitPoint.returns]) (by simp))
  | block t =>
      simp only [WaitSystem.step] at stepped
      split at stepped
      · rename_i queue here called
        cases stepped
        exact waits_blockCurrent distinct waits here called effective
      · cases stepped
  | sleepUntil t deadline =>
      obtain ⟨⟨here, -⟩, rfl⟩ := by simpa [WaitSystem.step] using stepped
      exact waits_sleepUntil waits here deadline
  | resume t =>
      obtain ⟨⟨here, awake⟩, rfl⟩ := by simpa [WaitSystem.step] using stepped
      exact waits_resume waits here awake
  | read t =>
      obtain ⟨here, rfl⟩ := by simpa [WaitSystem.step] using stepped
      have single : (s.call t).hasCondition = false := by simpa [here, Fits] using (waits t).fits
      refine waits_goto waits ((waits t).goto ((waits t).awake here (by simp))
        (fun _ _ => trivial) trivial (fun credited => ?_) (by simp))
      have unflagged := ((waits t).taken credited single).2.2 (.inr here)
      simp [unflagged, WaitPoint.returns]
  | cancelEvents t => exact waits_cancelEvents distinct waits stepped
  | notifyOne queue =>
      cases stepped
      exact waits_notifyOne distinct waits effective
  | notifyAll queue =>
      cases stepped
      unfold WaitSystem.notifyAll
      split
      · exact waits
      · rename_i front
        exact waits_popTask distinct waits (.of_eq front)
  | notifyTask queue t =>
      cases stepped
      unfold WaitSystem.notifyTask
      split
      · rename_i member
        exact waits_popTask distinct waits (List.perm_cons_erase member)
      · exact waits
  | expire event =>
      obtain ⟨-, rfl⟩ := by simpa [WaitSystem.step] using stepped
      exact quiet rfl rfl rfl rfl rfl rfl
  | callback event =>
      obtain ⟨-, rfl⟩ := by simpa [WaitSystem.step] using stepped
      have delivered : ∀ u, Waits id { s with
          inTimerList := Function.update s.inTimerList (id event.2) false
          expired := s.expired.erase event } u :=
        quiet rfl rfl rfl rfl rfl rfl
      exact waits_unblockTask delivered event.2
  | signal t =>
      cases stepped
      exact waits_unblockTask waits t
  | tick time =>
      obtain ⟨-, rfl⟩ := by simpa [WaitSystem.step] using stepped
      exact quiet rfl rfl rfl rfl rfl rfl

-----------------------------------------------------------------------------------------
-- Every run
-----------------------------------------------------------------------------------------

theorem Reachable.waits (distinct : Function.Injective id)
    (reachable : Reachable id (Effective id) s)
    : ∀ t, s.Waits id t := by
  refine Transition.Reachable.invariant (fun s => ∀ t, s.Waits id t) ?_ ?_ reachable
  · rintro s rfl t
    constructor <;> simp [new, Fits]
  · rintro s s' waits ⟨e, effective, stepped⟩
    exact waits_step distinct waits effective stepped

omit [DecidableEq Queue] in
theorem Sound.of_waits (waits : ∀ t, s.Waits id t) : s.Sound id where
  once t := (waits t).once
  oneQueue t queue other member member' :=
    Option.some.inj (((waits t).listed queue member).1.symm.trans
      ((waits t).listed other member').1)
  outside t queue here := (waits t).not_listed (by simp [here, MayBeListed]) queue
  flag t := (waits t).flag
  notified t := (waits t).notified

/-- A task stays credited until it begins another call. -/
theorem credited_kept {e : WaitEvent Task Queue} (stepped : s.step id e = some s')
    (credited : s.credited t = true)
    : s'.credited t = true ∨ s.point t = .outside := by
  by_cases here : s.point t = .outside
  · exact .inr here
  left
  -- a task that begins a call is another one
  have entered {u : Task} (outside : s.point u = .outside) (call : WaitCall Queue)
      (p : WaitPoint)
      : (s.enter u call p).credited t = true := by
    have other : t ≠ u := fun same => here (same ▸ outside)
    simpa [enter, goto, other] using credited
  have popped (u : Task) (queue : Queue) (rest : List Task)
      : (s.popTask id queue u rest).credited t = true := by
    simpa [popTask, unblockTask_eq] using credited
  cases e with
  | wait u queue =>
      obtain ⟨outside, rfl⟩ := by simpa [step] using stepped
      exact entered outside ..
  | waitUntil u queue =>
      obtain ⟨outside, rfl⟩ := by simpa [step] using stepped
      exact entered outside ..
  | waitTimeout u queue dur =>
      obtain ⟨outside, rfl⟩ := by simpa [step] using stepped
      exact entered outside ..
  | waitTimeoutUntil u queue dur =>
      obtain ⟨outside, rfl⟩ := by simpa [step] using stepped
      exact entered outside ..
  | sleepUntil u deadline =>
      obtain ⟨⟨outside, -⟩, rfl⟩ := by simpa [step] using stepped
      exact entered outside (.sleepUntil deadline) .asleep
  | cancelEvents u =>
      rcases cancelEvents_cases stepped with
        ⟨timeout, -, rfl⟩ | ⟨timeout, queue, -, -, rfl⟩ | ⟨timeout, -, rfl⟩ | ⟨timeout, -, rfl⟩
        <;> exact credited
  | notifyOne queue =>
      cases stepped
      unfold notifyOne
      split
      · exact credited
      · split
        · exact credited
        · simp only [Function.update_apply, credited, ite_self]
  | notifyAll queue =>
      cases stepped
      unfold notifyAll
      split
      · exact credited
      · exact popped ..
  | notifyTask queue u =>
      cases stepped
      unfold notifyTask
      split
      · exact popped ..
      · exact credited
  | callback event =>
      obtain ⟨-, rfl⟩ := by simpa [step] using stepped
      simpa [callback, unblockTask_eq] using credited
  | signal u =>
      cases stepped
      simpa [unblockTask_eq] using credited
  | setAlarm u =>
      simp only [step] at stepped
      split at stepped <;> cases stepped <;> exact credited
  | look u =>
      simp only [step] at stepped
      split at stepped <;> cases stepped
      exact credited
  | block u =>
      simp only [step] at stepped
      split at stepped <;> cases stepped
      exact credited
  | meet u | resume u | read u | expire event | tick time =>
      obtain ⟨-, rfl⟩ := by simpa [step] using stepped
      exact credited

/-- A call of `notify_one` that returns true wakes a blocked task, or credits one that is in a
call and awake.
-/
theorem notifyOne_wakes {queue : Queue} (returned : (s.notifyOne id queue).1 = true)
    : ∃ t rest,
        s.queue queue = t :: rest ∧ (s.notifyOne id queue).2.queue queue = rest
        ∧ (s.blocked t = true ∧ (s.notifyOne id queue).2.blocked t = false
          ∨ s.blocked t = false ∧ (s.notifyOne id queue).2.credited t = true) := by
  unfold notifyOne at returned ⊢
  split
  · rename_i empty
    simp [empty] at returned
  · rename_i t rest front
    refine ⟨t, rest, front, by simp [popTask, unblockTask_eq], ?_⟩
    cases blocked : s.blocked t with
    | true => exact .inl ⟨rfl, by simp [popTask, unblockTask_eq]⟩
    | false => exact .inr ⟨rfl, by simp⟩

/-- An event that is not effective leaves a second entry, or takes the entry of a task that
reports a timeout.
-/
theorem not_sound_of_not_effective (waits : ∀ t, s.Waits id t) {e : WaitEvent Task Queue}
    (stepped : s.step id e = some s') (idle : ¬ Effective id s e)
    : ¬ s'.Sound id := by
  intro sound
  cases e with
  | block t =>
      simp only [step] at stepped
      split at stepped
      · rename_i queue here called
        cases stepped
        obtain ⟨other, member⟩ := (waits t).flag.mp (by simpa [Effective] using idle)
        have same := called.symm.trans ((waits t).listed other member).1
        cases same
        have once := sound.once t queue
        have listed := List.count_pos_iff.mpr member
        simp [blockCurrent] at once
        omega
      · cases stepped
  | notifyOne queue =>
      cases stepped
      have found : ∃ t ∈ (s.queue queue).head?, (s.point t).returns = some true := by
        simpa [Effective] using idle
      obtain ⟨t, first, leaving⟩ := found
      obtain ⟨rest, front⟩ := List.head?_eq_some_iff.mp first
      have awake : s.blocked t = false := by
        cases blocked : s.blocked t with
        | false => rfl
        | true => simp [(waits t).asleep blocked, WaitPoint.returns] at leaving
      refine sound.notified t ?_ ?_
      · simp [notifyOne, front, awake]
      · simpa [notifyOne, front, popTask, unblockTask_eq] using leaving
  | look t =>
      simp only [step] at stepped
      split at stepped
      · rename_i deadline here timed
        cases stepped
        obtain ⟨credited, late⟩ : s.credited t = true ∧ deadline ≤ s.now := by
          simpa [Effective, timed] using idle
        refine sound.notified t credited ?_
        simp [goto, Nat.not_lt.mpr late, WaitPoint.returns]
      · cases stepped
  | _ => exact idle trivial

/-- In a run of effective steps the queues stay sound, and `notify_one` wakes a blocked task or
credits one in a call, until that task's next call; the next step keeps the queues sound
exactly if it is effective.
-/
theorem Reachable.notifications_effective (distinct : Function.Injective id)
    (reachable : Reachable id (Effective id) s)
    : s.Sound id
      ∧ (∀ queue, (s.notifyOne id queue).1 = true
        → ∃ t rest,
            s.queue queue = t :: rest ∧ (s.notifyOne id queue).2.queue queue = rest
            ∧ s.point t ≠ .outside
            ∧ (s.blocked t = true ∧ (s.notifyOne id queue).2.blocked t = false
              ∨ s.blocked t = false ∧ (s.notifyOne id queue).2.credited t = true))
      ∧ ∀ e s', s.step id e = some s'
        → (s'.Sound id ↔ Effective id s e)
          ∧ ∀ t, s.credited t = true → s'.credited t = true ∨ s.point t = .outside := by
  have waits := reachable.waits distinct
  have sound := Sound.of_waits waits
  refine ⟨sound, fun queue returned => ?_, fun e s' stepped => ⟨⟨fun sound => ?_, ?_⟩, ?_⟩⟩
  · obtain ⟨t, rest, front, popped, woken⟩ := notifyOne_wakes returned
    refine ⟨t, rest, front, popped, fun here => sound.outside t queue here ?_, woken⟩
    simp [front]
  · by_contra idle
    exact not_sound_of_not_effective waits stepped idle sound
  · exact fun effective => .of_waits (waits_step distinct waits effective stepped)
  · exact fun t => credited_kept stepped

/-- A signal has woken task 0, and `notify_one` takes its entry before it leaves `wait`. -/
theorem notifications_effective_signalled
    : ∃ s : WaitSystem Nat Nat,
        s.queue 7 = [0] ∧ s.blocked 0 = false ∧ (s.notifyOne (fun t => t) 7).2.credited 0 = true
        ∧ s.Sound (fun t => t) := by
  have start : Reachable (fun t => t) (Effective (fun t => t)) (new : WaitSystem Nat Nat) :=
    .start rfl
  have called := start.next ⟨.wait 0 7, trivial, rfl⟩
  have slept := called.next ⟨.block 0, rfl, rfl⟩
  have woken := slept.next ⟨.signal 0, trivial, rfl⟩
  exact ⟨_, rfl, rfl, rfl, (Reachable.notifications_effective (fun _ _ same => same) woken).1⟩

/-- A signal makes `wait_until` queue its task twice, and a notification is spent on a task that
has read that it timed out.
-/
theorem stale_entries
    : ([.waitUntil 0 7, .block 0, .signal 0, .resume 0, .block 0].foldlM
          (step (fun t : Nat => t)) (new : WaitSystem Nat Nat)).map (fun s => s.queue 7)
        = some [0, 0]
      ∧ ([.waitTimeout 0 7 5, .setAlarm 0, .block 0, .tick 5, .expire (5, 0), .callback (5, 0),
            .resume 0, .read 0].foldlM (step (fun t : Nat => t)) (new : WaitSystem Nat Nat)).map
          (fun s => ((s.notifyOne (fun t => t) 7).1, (s.point 0).returns))
        = some (true, some true) := by
  decide

end WaitSystem

end RCoreOS.Sync
