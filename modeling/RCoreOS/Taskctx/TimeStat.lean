import RCoreOS.Lib.Transition
import Mathlib.Order.Lattice
import Mathlib.Order.Basic

/-! The time statistics of a task. Time is counted whenever the task changes between user mode
and the kernel or is switched out; the same change of mode is recorded in more than one layer of
the trap path. A task that is switched in for the first time goes on where the previous one was.
-/

namespace RCoreOS.Taskctx

inductive TimerType where
  | NONE
  | REAL
  | VIRTUAL
  | PROF
deriving DecidableEq, Repr

/-- The statistics and the interval timer of a task, in nanoseconds. -/
structure TimeStat where
  utimeNs : Nat
  stimeNs : Nat
  userTimestamp : Nat
  kernelTimestamp : Nat
  timerType : TimerType
  timerIntervalNs : Nat
  timerRemainedNs : Nat
  pendingTimerSignal : Bool
deriving DecidableEq, Repr

/-- A subtraction of `usize`; `none` is an underflow. -/
def checkedSub (a b : Nat) : Option Nat :=
  if b ≤ a then some (a - b) else none

namespace TimeStat

def new : TimeStat where
  utimeNs := 0
  stimeNs := 0
  userTimestamp := 0
  kernelTimestamp := 0
  timerType := .NONE
  timerIntervalNs := 0
  timerRemainedNs := 0
  pendingTimerSignal := false

def reset (stat : TimeStat) (currentTimestamp : Nat) : TimeStat :=
  { stat with
    utimeNs := 0
    stimeNs := 0
    userTimestamp := 0
    kernelTimestamp := currentTimestamp }

def updateTimer (stat : TimeStat) (delta : Nat) : Option TimeStat :=
  if stat.timerRemainedNs = 0 then some stat
  else if stat.timerRemainedNs > delta then do
    let remained ← checkedSub stat.timerRemainedNs delta
    some { stat with timerRemainedNs := remained }
  else some { stat with pendingTimerSignal := true }

/-- `update_timer` for the timers that a kind of time counts for. -/
def updateTimerIf (stat : TimeStat) (counts : Bool) (delta : Nat) : Option TimeStat :=
  if counts then stat.updateTimer delta else some stat

def switchIntoKernelMode (stat : TimeStat) (currentTimestamp : Nat) : Option TimeStat := do
  let delta ← checkedSub currentTimestamp stat.userTimestamp
  let stat := { stat with
    utimeNs := stat.utimeNs + delta
    kernelTimestamp := currentTimestamp }
  stat.updateTimerIf (stat.timerType ≠ .NONE) delta

def switchIntoUserMode (stat : TimeStat) (currentTimestamp : Nat) : Option TimeStat := do
  let delta ← checkedSub currentTimestamp stat.kernelTimestamp
  let stat := { stat with
    stimeNs := stat.stimeNs + delta
    userTimestamp := currentTimestamp }
  stat.updateTimerIf (stat.timerType = .REAL || stat.timerType = .PROF) delta

def swtichFromOldTask (stat : TimeStat) (currentTimestamp : Nat) : Option TimeStat := do
  let delta ← checkedSub currentTimestamp stat.kernelTimestamp
  let stat := { stat with
    stimeNs := stat.stimeNs + delta
    kernelTimestamp := currentTimestamp }
  stat.updateTimerIf (stat.timerType = .REAL || stat.timerType = .PROF) delta

def switchToNewTask (stat : TimeStat) (currentTimestamp : Nat) : Option TimeStat := do
  let delta ← checkedSub currentTimestamp stat.kernelTimestamp
  let stat := { stat with kernelTimestamp := currentTimestamp }
  stat.updateTimerIf (stat.timerType = .REAL) delta

def setTimer (stat : TimeStat) (timerIntervalNs timerRemainedNs : Nat) (timerType : TimerType)
    : TimeStat :=
  { stat with timerType, timerIntervalNs, timerRemainedNs, pendingTimerSignal := false }

/-- Two statistics that differ only in the timer. -/
structure SameTimes (stat stat' : TimeStat) : Prop where
  utimeNs : stat'.utimeNs = stat.utimeNs
  stimeNs : stat'.stimeNs = stat.stimeNs
  userTimestamp : stat'.userTimestamp = stat.userTimestamp
  kernelTimestamp : stat'.kernelTimestamp = stat.kernelTimestamp

/-- The timer is updated without underflow and touches no times. -/
theorem updateTimerIf_ok (stat : TimeStat) (counts : Bool) (delta : Nat)
    : ∃ stat', stat.updateTimerIf counts delta = some stat' ∧ SameTimes stat stat' := by
  unfold updateTimerIf
  split
  · unfold updateTimer
    split
    · exact ⟨stat, rfl, rfl, rfl, rfl, rfl⟩
    · split
      · next left =>
          rw [checkedSub, if_pos (Nat.le_of_lt left)]
          exact ⟨_, rfl, rfl, rfl, rfl, rfl⟩
      · exact ⟨_, rfl, rfl, rfl, rfl, rfl⟩
  · exact ⟨stat, rfl, rfl, rfl, rfl, rfl⟩

end TimeStat

-----------------------------------------------------------------------------------------
-- The calls of a task
-----------------------------------------------------------------------------------------

/-- Where the CPU is between two accounting calls of the task it runs, or why it does not run the
task.
-/
inductive Phase where
  /-- Not started yet, or a kernel task that is switched out. -/
  | fresh
  /-- Switched out after it was started. -/
  | out
  /-- In `task_loop`, before the return to user mode. -/
  | loop
  | user
  /-- In `handle_syscall` or `handle_page_fault`, between their two accounting calls. -/
  | handling
  /-- Behind the trap handler, `preempt_yield` included, or in `run_task`. -/
  | returned
deriving DecidableEq, Repr

/-- A task under a clock, with the time of the last reset. -/
structure Accounted where
  isKernelTask : Bool
  stat : TimeStat
  phase : Phase
  now : Nat
  lastReset : Nat
deriving DecidableEq, Repr

/-- The accounting calls. -/
inductive AccountingCall where
  | intoKernel
  | intoUser
  | fromOldTask
  | toNewTask
deriving DecidableEq, Repr

def AccountingCall.run (stat : TimeStat) (now : Nat) : AccountingCall → Option TimeStat
  | intoKernel => stat.switchIntoKernelMode now
  | intoUser => stat.switchIntoUserMode now
  | fromOldTask => stat.swtichFromOldTask now
  | toNewTask => stat.switchToNewTask now

/-- What a call does to the times. -/
def AccountingCall.count (stat : TimeStat) (now : Nat) : AccountingCall → TimeStat
  | intoKernel =>
      { stat with
        utimeNs := stat.utimeNs + (now - stat.userTimestamp)
        kernelTimestamp := now }
  | intoUser =>
      { stat with
        stimeNs := stat.stimeNs + (now - stat.kernelTimestamp)
        userTimestamp := now }
  | fromOldTask =>
      { stat with
        stimeNs := stat.stimeNs + (now - stat.kernelTimestamp)
        kernelTimestamp := now }
  | toNewTask => { stat with kernelTimestamp := now }

/-- A call after both timestamps succeeds. -/
theorem AccountingCall.run_ok {stat : TimeStat} {now : Nat} (call : AccountingCall)
    (user : stat.userTimestamp ≤ now) (kernel : stat.kernelTimestamp ≤ now)
    : ∃ stat', call.run stat now = some stat'
      ∧ TimeStat.SameTimes (call.count stat now) stat' := by
  cases call with
  | intoKernel =>
      simp only [run, TimeStat.switchIntoKernelMode, checkedSub, if_pos user]
      exact TimeStat.updateTimerIf_ok ..
  | intoUser =>
      simp only [run, TimeStat.switchIntoUserMode, checkedSub, if_pos kernel]
      exact TimeStat.updateTimerIf_ok ..
  | fromOldTask =>
      simp only [run, TimeStat.swtichFromOldTask, checkedSub, if_pos kernel]
      exact TimeStat.updateTimerIf_ok ..
  | toNewTask =>
      simp only [run, TimeStat.switchToNewTask, checkedSub, if_pos kernel]
      exact TimeStat.updateTimerIf_ok ..

/-- A call that returned after both timestamps has counted the time. -/
theorem AccountingCall.counts {stat stat' : TimeStat} {now : Nat} (call : AccountingCall)
    (user : stat.userTimestamp ≤ now) (kernel : stat.kernelTimestamp ≤ now)
    (ran : call.run stat now = some stat')
    : TimeStat.SameTimes (call.count stat now) stat' := by
  obtain ⟨returned, ran', times⟩ := call.run_ok user kernel
  cases ran.symm.trans ran'
  exact times

/-- What `switch_to` will find when the task comes next: only other tasks are marked as started.
-/
def switchedOut (isKernelTask : Bool) : Phase :=
  if isKernelTask then .fresh else .out

/-- The places of the accounting calls on the way of the CPU through `task_loop`, the trap
handler and task switches. `switch_to` of a task that is not started returns, so that the frames
of the previous task go on as those of the next one.
-/
inductive AccountingCall.At (isKernelTask : Bool) : Phase → AccountingCall → Phase → Prop
  | returnToUser : At isKernelTask .loop .intoUser .user
  | handle : At isKernelTask .user .intoKernel .handling
  | handled : At isKernelTask .handling .intoUser .returned
  | switchInHandler : At isKernelTask .handling .fromOldTask (switchedOut isKernelTask)
  | preemptYield : At isKernelTask .returned .fromOldTask (switchedOut isKernelTask)
  /-- The previous task was switched out in a handler, whose second call is still to come. -/
  | startInHandler : At isKernelTask .fresh .toNewTask .handling
  | start : At isKernelTask .fresh .toNewTask .returned
  /-- The context that is restored is the one saved in `preempt_yield`. -/
  | resume : At isKernelTask .out .toNewTask .loop

/-- User mode is entered by one call only. -/
theorem AccountingCall.At.into_user {isKernelTask : Bool} {before : Phase}
    {call : AccountingCall} (at' : call.At isKernelTask before .user)
    : call = .intoUser := by
  generalize into : Phase.user = phase at at'
  cases at' with
  | returnToUser => rfl
  | switchInHandler | preemptYield => cases isKernelTask <;> cases into
  | handle | handled | startInHandler | start | resume => cases into

namespace Accounted

/-- One step of the CPU with the task at a time that is not before the present one. An interrupt
from user mode comes to the end of the trap handler without an accounting call.
-/
inductive Step (s : Accounted) : Option AccountingCall → Accounted → Prop
  | account (call : AccountingCall) {stat phase now}
    : s.now ≤ now → call.At s.isKernelTask s.phase phase → call.run s.stat now = some stat →
      Step s (some call) { s with stat, phase, now }
  | interrupt {now}
    : s.now ≤ now → s.phase = .user → Step s none { s with phase := .returned, now }
  | again {now}
    : s.now ≤ now → s.phase = .returned → Step s none { s with phase := .loop, now }
  | setTimer (interval remained timerType)
    : s.phase = .handling →
      Step s none { s with stat := s.stat.setTimer interval remained timerType }

/-- A task that was just made: `new_task_inner` resets its times. The first task is not reset,
which is the same as a reset at 0, and runs at once.
-/
def Fresh (s : Accounted) : Prop :=
  s.stat = TimeStat.new.reset s.lastReset ∧ s.lastReset ≤ s.now
    ∧ (s.phase = .fresh ∨ s.lastReset = 0 ∧ s.phase = .returned)

/-- The states of any run. -/
abbrev Reachable (s : Accounted) : Prop :=
  Transition.Reachable Fresh (fun s s' => ∃ call, Step s call s') s

/-- The time counted is not more than has passed since the last reset, and no accounting call
that can come next underflows.
-/
structure Honest (s : Accounted) : Prop where
  total : s.stat.utimeNs + s.stat.stimeNs ≤ s.now - s.lastReset
  succeeds : ∀ (call : AccountingCall) phase now, s.now ≤ now →
    call.At s.isKernelTask s.phase phase → (call.run s.stat now).isSome

/-- A call that counts time from the kernel timestamp finds that the last recorded entry into
user mode is not after the last recorded entry into the kernel.
-/
def InKernel (s : Accounted) : Option AccountingCall → Prop
  | some .intoUser | some .fromOldTask => s.stat.userTimestamp ≤ s.stat.kernelTimestamp
  | _ => True

/-- No timestamp is ahead of the clock, and the one for user mode is the later one there. -/
structure Timed (s : Accounted) : Prop where
  user : s.stat.userTimestamp ≤ s.now
  kernel : s.stat.kernelTimestamp ≤ s.now
  reset : s.lastReset ≤ s.stat.kernelTimestamp
  inUser : s.phase = .user → s.stat.kernelTimestamp ≤ s.stat.userTimestamp

/-- The time counted ends at the later of the two timestamps. -/
def Bounded (s : Accounted) : Prop :=
  s.lastReset + s.stat.utimeNs + s.stat.stimeNs
    ≤ max s.stat.userTimestamp s.stat.kernelTimestamp

variable {s s' : Accounted} {call : Option AccountingCall}

theorem Fresh.timed (fresh : s.Fresh) : s.Timed := by
  obtain ⟨stat, started, phase⟩ := fresh
  constructor
  · rw [stat]
    exact Nat.zero_le _
  · rw [stat]
    exact started
  · rw [stat]
    rfl
  · intro user
    rw [user] at phase
    rcases phase with unstarted | ⟨-, first⟩
    · cases unstarted
    · cases first

theorem Fresh.bounded (fresh : s.Fresh) : s.Bounded := by
  rw [Bounded, fresh.1]
  exact le_max_right ..

theorem Step.timed (timed : s.Timed) (step : Step s call s') : s'.Timed := by
  obtain ⟨user, kernel, reset, inUser⟩ := timed
  cases step with
  | @account call stat phase now later at' ran =>
      obtain ⟨-, -, userTimestamp, kernelTimestamp⟩ :=
        call.counts (user.trans later) (kernel.trans later) ran
      refine ⟨?_, ?_, ?_, ?_⟩ <;> dsimp only
      · cases call <;> simp only [AccountingCall.count] at userTimestamp <;> omega
      · cases call <;> simp only [AccountingCall.count] at kernelTimestamp <;> omega
      · cases call <;> simp only [AccountingCall.count] at kernelTimestamp <;> omega
      · rintro rfl
        cases at'.into_user
        simp only [AccountingCall.count] at userTimestamp kernelTimestamp
        omega
  | interrupt later inside => exact ⟨user.trans later, kernel.trans later, reset, by simp⟩
  | again later inside => exact ⟨user.trans later, kernel.trans later, reset, by simp⟩
  | setTimer => exact ⟨user, kernel, reset, inUser⟩

theorem Step.bounded (timed : s.Timed) (bounded : s.Bounded) (step : Step s call s')
    (inKernel : s.InKernel call)
    : s'.Bounded := by
  obtain ⟨user, kernel, reset, inUser⟩ := timed
  unfold Bounded at bounded ⊢
  cases step with
  | @account call stat phase now later at' ran =>
      obtain ⟨utimeNs, stimeNs, userTimestamp, kernelTimestamp⟩ :=
        call.counts (user.trans later) (kernel.trans later) ran
      generalize s.phase = before at at' inUser
      cases at' <;> simp only [AccountingCall.count] at * <;>
        simp only [InKernel, forall_const] at inKernel inUser <;> omega
  | interrupt => exact bounded
  | again => exact bounded
  | setTimer => exact bounded

theorem Reachable.timed (run : Reachable s) : s.Timed := by
  refine Transition.Reachable.invariant Timed (fun _ fresh => fresh.timed) ?_ run
  rintro s s' timed ⟨call, step⟩
  exact step.timed timed

/-- Accounting calls do not underflow, in any run. -/
theorem Timed.succeeds (timed : s.Timed) (call : AccountingCall) {now : Nat}
    (later : s.now ≤ now)
    : (call.run s.stat now).isSome := by
  obtain ⟨stat', ran, -⟩ := call.run_ok (timed.user.trans later) (timed.kernel.trans later)
  rw [ran]
  rfl

/-- Where all time since the reset was counted, a call outside of the kernel that counts from
the kernel timestamp counts the last stay in the kernel twice.
-/
theorem doubled (all : s.lastReset + s.stat.utimeNs + s.stat.stimeNs
      = max s.stat.userTimestamp s.stat.kernelTimestamp)
    (timed : s.Timed) (step : Step s call s') (outside : ¬ s.InKernel call)
    : ¬ s'.Honest := by
  intro honest
  have total := honest.total
  obtain ⟨user, kernel, reset, inUser⟩ := timed
  cases step with
  | @account call stat phase now later at' ran =>
      obtain ⟨utimeNs, stimeNs, userTimestamp, kernelTimestamp⟩ :=
        call.counts (user.trans later) (kernel.trans later) ran
      cases call <;> simp only [InKernel, not_true_eq_false, AccountingCall.count] at * <;> omega
  | interrupt => exact outside trivial
  | again => exact outside trivial
  | setTimer => exact outside trivial

end Accounted

end RCoreOS.Taskctx
