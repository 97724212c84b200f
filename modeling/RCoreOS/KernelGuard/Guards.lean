import Mathlib.Data.List.Infix
import Mathlib.Data.BitVec

/-! The guards of critical sections: which instructions enter and leave a section with local IRQs or
preemption disabled, and what they do to the processor's status.
-/

namespace RCoreOS.KernelGuard

-----------------------------------------------------------------------------------------
-- Local IRQs
-----------------------------------------------------------------------------------------

/-- Bit 1: Supervisor Interrupt Enable. -/
def SIE_BIT : BitVec 64 := 1#64 <<< 1

/-- Local IRQs are enabled. -/
def irqsEnabled (sstatus : BitVec 64) : Bool :=
  sstatus.getLsbD 1

/-- The old `SIE` bit, and the status with the bit cleared. -/
def localIrqSaveAndDisable (sstatus : BitVec 64) : BitVec 64 × BitVec 64 :=
  (sstatus &&& SIE_BIT, sstatus &&& ~~~SIE_BIT)

/-- Restores the `SIE` bit. -/
def localIrqRestore (flags sstatus : BitVec 64) : BitVec 64 :=
  sstatus ||| flags

/-- Two statuses agree in all bits but `SIE`. -/
def SameElse (sstatus other : BitVec 64) : Prop :=
  ∀ i, i ≠ 1 → sstatus.getLsbD i = other.getLsbD i

theorem getLsbD_sieBit (i : Nat) : SIE_BIT.getLsbD i = decide (i = 1) := by
  by_cases isSie : i = 1
  · subst isSie
    rfl
  · have shifted : SIE_BIT = BitVec.twoPow 64 1 := rfl
    rw [shifted, BitVec.getLsbD_twoPow]
    simp [isSie, eq_comm]

@[simp] theorem irqsEnabled_saved (sstatus : BitVec 64)
    : irqsEnabled (localIrqSaveAndDisable sstatus).1 = irqsEnabled sstatus := by
  simp [irqsEnabled, localIrqSaveAndDisable, getLsbD_sieBit]

@[simp] theorem irqsEnabled_disabled (sstatus : BitVec 64)
    : irqsEnabled (localIrqSaveAndDisable sstatus).2 = false := by
  simp [irqsEnabled, localIrqSaveAndDisable, getLsbD_sieBit]

@[simp] theorem irqsEnabled_restore (flags sstatus : BitVec 64)
    : irqsEnabled (localIrqRestore flags sstatus) = (irqsEnabled sstatus || irqsEnabled flags) := by
  simp [irqsEnabled, localIrqRestore]

theorem sameElse_saved (sstatus : BitVec 64)
    : SameElse (localIrqSaveAndDisable sstatus).1 0 := by
  intro i notSie
  simp [localIrqSaveAndDisable, getLsbD_sieBit, notSie]

theorem sameElse_disabled {sstatus base : BitVec 64} (same : SameElse sstatus base)
    : SameElse (localIrqSaveAndDisable sstatus).2 base := by
  intro i notSie
  rw [← same i notSie, localIrqSaveAndDisable, BitVec.getLsbD_and, BitVec.getLsbD_not,
    getLsbD_sieBit]
  by_cases inside : i < 64
  · simp [notSie, inside]
  · simp [BitVec.getLsbD_of_ge _ _ (Nat.le_of_not_lt inside)]

theorem sameElse_restore {flags sstatus base : BitVec 64} (flagsOnly : SameElse flags 0)
    (same : SameElse sstatus base)
    : SameElse (localIrqRestore flags sstatus) base := by
  intro i notSie
  rw [localIrqRestore, BitVec.getLsbD_or, same i notSie, flagsOnly i notSie]
  simp

theorem SameElse.eq {sstatus base : BitVec 64} (same : SameElse sstatus base)
    (enabled : irqsEnabled sstatus = irqsEnabled base)
    : sstatus = base := by
  refine BitVec.eq_of_getLsbD_eq fun i _ => ?_
  by_cases isSie : i = 1
  · exact isSie ▸ enabled
  · exact same i isSie

-----------------------------------------------------------------------------------------
-- Guards
-----------------------------------------------------------------------------------------

/-- The guards for critical sections. -/
inductive BaseGuard where
  | noOp
  | irqSave
  | noPreempt
  | noPreemptIrqSave
  deriving DecidableEq

/-- The calls of which `acquire` and `release` consist. -/
inductive Op where
  | disablePreempt
  | enablePreempt
  | localIrqSaveAndDisable
  | localIrqRestore (flags : BitVec 64)
  deriving DecidableEq

/-- What the calls change: the status of the CPU, and the counter of the current task. -/
structure Cpu where
  sstatus : BitVec 64
  preemptDisableCount : Nat

/-- One call, with the state that is saved so far. -/
def Op.perform (op : Op) (cpu : Cpu) (irqState : BitVec 64) : Cpu × BitVec 64 :=
  match op with
  | .disablePreempt => ({ cpu with preemptDisableCount := cpu.preemptDisableCount + 1 }, irqState)
  | .enablePreempt => ({ cpu with preemptDisableCount := cpu.preemptDisableCount - 1 }, irqState)
  | .localIrqSaveAndDisable =>
    let (flags, sstatus) := KernelGuard.localIrqSaveAndDisable cpu.sstatus
    ({ cpu with sstatus }, flags)
  | .localIrqRestore flags =>
    ({ cpu with sstatus := KernelGuard.localIrqRestore flags cpu.sstatus }, irqState)

/-- The state that a call restores. -/
def Op.restores : Op → List (BitVec 64)
  | .localIrqRestore flags => [flags]
  | _ => []

namespace BaseGuard

variable {guard : BaseGuard} {op : Op} {todo : List Op} {irqState : BitVec 64}

/-- Something that must be done before entering the critical section. -/
def acquire : BaseGuard → List Op
  | .noOp => []
  | .irqSave => [.localIrqSaveAndDisable]
  | .noPreempt => [.disablePreempt]
  | .noPreemptIrqSave => [.disablePreempt, .localIrqSaveAndDisable]

/-- Something that must be done after leaving the critical section. -/
def release (irqState : BitVec 64) : BaseGuard → List Op
  | .noOp => []
  | .irqSave => [.localIrqRestore irqState]
  | .noPreempt => [.enablePreempt]
  | .noPreemptIrqSave => [.localIrqRestore irqState, .enablePreempt]

/-- The guard disables local IRQs. -/
def savesIrq : BaseGuard → Bool
  | .irqSave | .noPreemptIrqSave => true
  | .noOp | .noPreempt => false

/-- How often the guard disables preemption. -/
def preempts : BaseGuard → Nat
  | .noPreempt | .noPreemptIrqSave => 1
  | .noOp | .irqSave => 0

/-- How often preemption is disabled by what is done of `acquire`. -/
def preemptsSoFar (guard : BaseGuard) (todo : List Op) : Nat :=
  if .disablePreempt ∈ todo then 0 else guard.preempts

/-- The state that is saved by what is done of `acquire`. -/
def savedSoFar (guard : BaseGuard) (todo : List Op) (irqState : BitVec 64) : List (BitVec 64) :=
  if guard.savesIrq && decide (.localIrqSaveAndDisable ∉ todo) then [irqState] else []

/-- A call of `acquire` disables preemption once more, or it saves the state of the IRQs. -/
theorem acquire_cases (suffix : op :: todo <:+ guard.acquire)
    : (op = .disablePreempt ∧ guard.preemptsSoFar (op :: todo) = 0
        ∧ guard.preemptsSoFar todo = 1 ∧ ∀ before after,
          guard.savedSoFar (op :: todo) before = [] ∧ guard.savedSoFar todo after = [])
      ∨ (op = .localIrqSaveAndDisable
        ∧ guard.preemptsSoFar (op :: todo) = guard.preemptsSoFar todo
        ∧ ∀ before after,
          guard.savedSoFar (op :: todo) before = [] ∧ guard.savedSoFar todo after = [after]) := by
  cases guard <;> simp only [acquire, List.suffix_cons_iff, List.cons.injEq, List.suffix_nil,
    reduceCtorEq, or_false] at suffix
  case irqSave =>
    obtain ⟨rfl, rfl⟩ := suffix
    exact .inr ⟨rfl, rfl, fun _ _ => ⟨rfl, rfl⟩⟩
  case noPreempt =>
    obtain ⟨rfl, rfl⟩ := suffix
    exact .inl ⟨rfl, rfl, rfl, fun _ _ => ⟨rfl, rfl⟩⟩
  case noPreemptIrqSave =>
    rcases suffix with ⟨rfl, rfl⟩ | ⟨rfl, rfl⟩
    · exact .inl ⟨rfl, rfl, rfl, fun _ _ => ⟨rfl, rfl⟩⟩
    · exact .inr ⟨rfl, rfl, fun _ _ => ⟨rfl, rfl⟩⟩

/-- Before `acquire` nothing is done. -/
theorem notYet (guard : BaseGuard) (irqState : BitVec 64)
    : guard.preemptsSoFar guard.acquire = 0 ∧ guard.savedSoFar guard.acquire irqState = [] := by
  cases guard <;> exact ⟨rfl, rfl⟩

/-- A call of `release` restores the state, or it enables preemption again. -/
theorem release_cases (suffix : op :: todo <:+ guard.release irqState)
    : todo.flatMap Op.restores = [] ∧ (op = .localIrqRestore irqState ∨ op = .enablePreempt) := by
  cases guard <;> simp only [release, List.suffix_cons_iff, List.cons.injEq, List.suffix_nil,
    reduceCtorEq, or_false] at suffix
  case irqSave =>
    obtain ⟨rfl, rfl⟩ := suffix
    exact ⟨rfl, .inl rfl⟩
  case noPreempt =>
    obtain ⟨rfl, rfl⟩ := suffix
    exact ⟨rfl, .inr rfl⟩
  case noPreemptIrqSave =>
    rcases suffix with ⟨rfl, rfl⟩ | ⟨rfl, rfl⟩
    · exact ⟨rfl, .inl rfl⟩
    · exact ⟨rfl, .inr rfl⟩

/-- What `release` gives back is what the guard has taken. -/
theorem release_returns (guard : BaseGuard) (irqState : BitVec 64)
    : (guard.release irqState).count .enablePreempt = guard.preempts
      ∧ (guard.release irqState).flatMap Op.restores = guard.savedSoFar [] irqState := by
  cases guard <;> exact ⟨rfl, rfl⟩

end BaseGuard

end RCoreOS.KernelGuard
