import RCoreOS.Taskctx.TimeStat
import Mathlib.Algebra.Ring.Nat

/-! The interval timer of a task. Accounted time makes a signal pending, and the check that
delivers it arms the timer again; until then the remaining time is left as it is.
-/

namespace RCoreOS.Taskctx

/-- `From<usize>`, which goes through `i32` and takes every other number for `NONE`. -/
def TimerType.ofUsize (num : Nat) : TimerType :=
  match num % 2 ^ 32 with
  | 0 => .REAL
  | 1 => .VIRTUAL
  | 2 => .PROF
  | _ => .NONE

/-- The number of the signal that a timer sends. -/
def TimerType.signal : TimerType → Option Nat
  | .REAL => some 14
  | .VIRTUAL => some 26
  | .PROF => some 27
  | .NONE => none

def TimeStat.checkPendingTimerSignal (stat : TimeStat) : Option Nat × TimeStat :=
  if stat.pendingTimerSignal then
    (stat.timerType.signal,
      { stat with pendingTimerSignal := false, timerRemainedNs := stat.timerIntervalNs })
  else (none, stat)

/-- A timer, the time accounted since it was set or last fired, and how often it has fired. -/
structure Timer where
  stat : TimeStat
  accounted : Nat
  fired : Nat

namespace Timer

/-- A timer that was just set. -/
def Set (interval value which : Nat) (s : Timer) : Prop :=
  (∃ stat : TimeStat, s.stat = stat.setTimer interval value (.ofUsize which))
    ∧ s.accounted = 0 ∧ s.fired = 0

/-- One call on the timer. -/
inductive Step (s : Timer) : Timer → Prop
  | update (delta) {stat}
    : s.stat.updateTimer delta = some stat →
      Step s { s with stat, accounted := s.accounted + delta }
  | fire {signal stat}
    : s.stat.checkPendingTimerSignal = (some signal, stat) →
      Step s { stat, accounted := 0, fired := s.fired + 1 }
  | check {stat}
    : s.stat.checkPendingTimerSignal = (none, stat) → Step s { s with stat }

/-- The states of any run of calls after the timer was set. -/
abbrev Reachable (interval value which : Nat) (s : Timer) : Prop :=
  Transition.Reachable (Set interval value which) Step s

/-- The time after which the timer fires next, if it is not 0. -/
def period (interval value : Nat) (s : Timer) : Nat :=
  if s.fired = 0 then value else interval

/-- All the time until the next signal has been accounted. -/
def Due (interval value : Nat) (s : Timer) : Prop :=
  0 < s.period interval value ∧ s.period interval value ≤ s.accounted

/-- A signal is pending when it is due; before, the remaining time counts down to it. -/
structure Counts (interval value : Nat) (type : TimerType) (s : Timer) : Prop where
  timerType : s.stat.timerType = type
  timerInterval : s.stat.timerIntervalNs = interval
  pending : s.stat.pendingTimerSignal = true → s.Due interval value ∧ 0 < s.stat.timerRemainedNs
  waiting : s.stat.pendingTimerSignal = false →
    if s.period interval value = 0 then s.stat.timerRemainedNs = 0
    else 0 < s.stat.timerRemainedNs
      ∧ s.stat.timerRemainedNs + s.accounted = s.period interval value

variable {interval value which delta : Nat} {type : TimerType} {s s' : Timer}
  {stat stat' : TimeStat}

theorem Set.counts (set : Set interval value which s)
    : s.Counts interval value (.ofUsize which) := by
  obtain ⟨⟨stat, start⟩, accounted, fired⟩ := set
  refine ⟨by rw [start]; rfl, by rw [start]; rfl, fun pending => ?_, fun _ => ?_⟩
  · rw [start] at pending
    cases pending
  · have remained : s.stat.timerRemainedNs = value := by rw [start]; rfl
    rw [period, if_pos fired, remained, accounted]
    split
    next zero => exact zero
    next positive => exact ⟨Nat.pos_of_ne_zero positive, rfl⟩

/-- What accounting time can do to a timer: nothing if it is not armed, count down, or make the
signal pending.
-/
theorem updateTimer_cases (updated : stat.updateTimer delta = some stat')
    : stat.timerRemainedNs = 0 ∧ stat' = stat
      ∨ delta < stat.timerRemainedNs
        ∧ stat' = { stat with timerRemainedNs := stat.timerRemainedNs - delta }
      ∨ 0 < stat.timerRemainedNs ∧ stat.timerRemainedNs ≤ delta
        ∧ stat' = { stat with pendingTimerSignal := true } := by
  unfold TimeStat.updateTimer at updated
  split at updated
  next zero => exact .inl ⟨zero, (Option.some.inj updated).symm⟩
  next armed =>
    split at updated
    next more =>
      rw [checkedSub, if_pos (Nat.le_of_lt more)] at updated
      exact .inr (.inl ⟨more, (Option.some.inj updated).symm⟩)
    next passed =>
      exact .inr (.inr ⟨Nat.pos_of_ne_zero armed, Nat.le_of_not_lt passed,
        (Option.some.inj updated).symm⟩)

/-- Accounted time is either taken off the remaining time, or the signal becomes pending. -/
theorem Counts.update (counts : s.Counts interval value type)
    (updated : s.stat.updateTimer delta = some stat)
    : Counts interval value type { s with stat, accounted := s.accounted + delta } := by
  obtain ⟨timerType, timerInterval, pending, waiting⟩ := counts
  rcases updateTimer_cases updated with ⟨zero, rfl⟩ | ⟨less, rfl⟩ | ⟨armed, passed, rfl⟩
  · refine ⟨timerType, timerInterval, fun isPending => ?_, fun isWaiting => ?_⟩
    · have positive := (pending isPending).2
      omega
    · have before := waiting isWaiting
      split at before
      next none => exact (if_pos none).symm ▸ zero
      next => omega
  · refine ⟨timerType, timerInterval, fun isPending => ?_, fun isWaiting => ?_⟩
    · obtain ⟨due, -⟩ := pending isPending
      exact ⟨⟨due.1, due.2.trans (Nat.le_add_right ..)⟩, Nat.sub_pos_of_lt less⟩
    · have before := waiting isWaiting
      split at before
      next none => omega
      next some =>
        refine (if_neg some).symm ▸ ⟨Nat.sub_pos_of_lt less, ?_⟩
        change s.stat.timerRemainedNs - delta + (s.accounted + delta) = s.period interval value
        omega
  · refine ⟨timerType, timerInterval, fun _ => ⟨?_, armed⟩, fun isWaiting => by cases isWaiting⟩
    change 0 < s.period interval value ∧ s.period interval value ≤ s.accounted + delta
    rcases isPending : s.stat.pendingTimerSignal with _ | _
    · have before := waiting isPending
      split at before
      · omega
      · omega
    · obtain ⟨⟨positive, le⟩, -⟩ := pending isPending
      omega

/-- A check delivers the signal exactly if it is due, and then arms the timer again. -/
theorem Counts.check (counts : s.Counts interval value type)
    : (s.Due interval value
        ∧ s.stat.checkPendingTimerSignal
          = (s.stat.timerType.signal, { s.stat with
              pendingTimerSignal := false
              timerRemainedNs := s.stat.timerIntervalNs }))
      ∨ (¬ s.Due interval value ∧ s.stat.checkPendingTimerSignal = (none, s.stat)) := by
  obtain ⟨-, -, pending, waiting⟩ := counts
  unfold TimeStat.checkPendingTimerSignal
  rcases isPending : s.stat.pendingTimerSignal with _ | _
  · refine .inr ⟨fun due => ?_, if_neg Bool.false_ne_true⟩
    have before := waiting isPending
    obtain ⟨positive, le⟩ := due
    split at before
    · omega
    · omega
  · exact .inl ⟨(pending isPending).1, if_pos rfl⟩

theorem Counts.step (counts : s.Counts interval value type) (known : type.signal ≠ none)
    (step : Step s s')
    : s'.Counts interval value type := by
  cases step with
  | update delta updated => exact counts.update updated
  | fire checked =>
      obtain ⟨due, fired⟩ | ⟨-, passed⟩ := counts.check
      · obtain ⟨-, rearmed⟩ := Prod.mk.inj (checked.symm.trans fired)
        rw [rearmed]
        refine ⟨counts.timerType, counts.timerInterval, fun isPending => ?_, fun _ => ?_⟩
        · cases isPending
        · rw [period, if_neg (Nat.succ_ne_zero _)]
          have remained : s.stat.timerIntervalNs = interval := counts.timerInterval
          split
          next zero => exact remained.trans zero
          next positive => exact ⟨remained ▸ Nat.pos_of_ne_zero positive, remained⟩
      · cases checked.symm.trans passed
  | check checked =>
      obtain ⟨-, fired⟩ | ⟨-, passed⟩ := counts.check
      · obtain ⟨unknown, -⟩ := Prod.mk.inj (checked.symm.trans fired)
        rw [counts.timerType] at unknown
        exact absurd unknown.symm known
      · cases checked.symm.trans passed
        exact counts

theorem signal_ne_none (known : type ≠ .NONE) : type.signal ≠ none := by
  cases type with
  | NONE => exact absurd rfl known
  | REAL | VIRTUAL | PROF => exact Option.some_ne_none _

theorem Reachable.counts (run : Reachable interval value which s)
    (known : TimerType.ofUsize which ≠ .NONE)
    : s.Counts interval value (.ofUsize which) :=
  Transition.Reachable.invariant (fun s => s.Counts interval value (.ofUsize which))
    (fun _ set => set.counts) (fun _ _ counts step => counts.step (signal_ne_none known) step) run

/-- Accounting time never underflows. -/
theorem updateTimer_isSome (stat : TimeStat) (delta : Nat) : (stat.updateTimer delta).isSome := by
  obtain ⟨stat', updated, -⟩ := stat.updateTimerIf_ok true delta
  exact Option.isSome_iff_exists.mpr ⟨stat', updated⟩

/-- In every run after a timer was set, no call fails, and a check returns a signal exactly if
the timer has not fired and the value has been accounted, or it has fired, is periodic, and its
interval has been accounted since.
-/
theorem fires_iff_due (positive : 0 < value) (known : TimerType.ofUsize which ≠ .NONE)
    (run : Reachable interval value which s)
    : (∀ delta, (s.stat.updateTimer delta).isSome)
      ∧ (s.stat.checkPendingTimerSignal.1.isSome
        ↔ if s.fired = 0 then value ≤ s.accounted
          else 0 < interval ∧ interval ≤ s.accounted) := by
  refine ⟨updateTimer_isSome s.stat, ?_⟩
  have counts := run.counts known
  have due : s.Due interval value
      ↔ if s.fired = 0 then value ≤ s.accounted else 0 < interval ∧ interval ≤ s.accounted := by
    unfold Due period
    split
    · exact and_iff_right positive
    · exact Iff.rfl
  rw [← due]
  obtain ⟨isDue, fired⟩ | ⟨notDue, passed⟩ := counts.check
  · refine iff_of_true ?_ isDue
    rw [fired, counts.timerType]
    exact Option.isSome_iff_ne_none.mpr (signal_ne_none known)
  · refine iff_of_false ?_ notDue
    rw [passed]
    exact Bool.false_ne_true

/-- A timer that was just set to 5, with an interval of 3. -/
def everyThree : Timer where
  stat := TimeStat.new.setTimer 3 5 .REAL
  accounted := 0
  fired := 0

/-- Witness: after 7 of 5 units the timer fires, and then not after 2 of 3 more. -/
theorem fires_iff_due_everyThree
    : ∃ s : Timer, s.fired = 1 ∧ s.accounted = 2
      ∧ ¬ s.stat.checkPendingTimerSignal.1.isSome := by
  have start : Reachable 3 5 0 everyThree := .start ⟨⟨_, rfl⟩, rfl, rfl⟩
  have expired := start.next (.update 7 rfl)
  have fired := expired.next (@Step.fire _ 14 _ rfl)
  have again := fired.next (.update 2 rfl)
  have due := (fires_iff_due (by decide) (by decide) again).2
  refine ⟨_, ?_, ?_, fun signal => absurd (due.mp signal) (by decide)⟩
  · rfl
  · rfl

end Timer

end RCoreOS.Taskctx
