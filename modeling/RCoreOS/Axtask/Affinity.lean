import RCoreOS.Axtask.RunQueue
import Mathlib.Data.Nat.Bitwise

/-! The CPU affinity mask of a task: what `set_cpu_set` stores, and on which CPU the run
queue lets a task run that `new_task_inner` has created.
-/

namespace RCoreOS.Axtask

/-- `axconfig::SMP`. The mask `(1 << SMP) - 1` is a constant expression, so that a count of
64 or more does not compile.
-/
structure Smp where
  count : UInt64
  positive : 0 < count
  builds : count < 64

/-- `1 << n` of `usize`, where only the low six bits of `n` count. -/
def shiftedOne (n : UInt64) : UInt64 :=
  1 <<< n

/-- The number of CPUs `set_cpu_set` reckons with. -/
def cpuSetLen (setSize maxCpuNum : UInt64) : UInt64 :=
  if setSize * 4 > maxCpuNum then maxCpuNum else setSize * 4

/-- The shift binds tighter than the `&`: the mask is compared with one bit. -/
def nowMask (mask setSize maxCpuNum : UInt64) : UInt64 :=
  mask &&& shiftedOne (cpuSetLen setSize maxCpuNum - 1)

namespace Task

def setCpuSet (task : Task) (mask setSize maxCpuNum : UInt64) : Task :=
  { task with cpuSet := (nowMask mask setSize maxCpuNum).toNat }

def getCpuSet (task : Task) : Nat :=
  task.cpuSet

end Task

/-- `new_task_inner`, from the object that `TaskInner::new` has made. -/
def newTaskInner (smp : Smp) (created : Task) : Task :=
  created.setCpuSet (shiftedOne smp.count - 1) 1 smp.count

-----------------------------------------------------------------------------------------
-- What the mask should be, and the one bit that is kept
-----------------------------------------------------------------------------------------

/-- The CPUs that a mask of `setSize` bytes covers. -/
def coveredCpus (setSize maxCpuNum : UInt64) : Nat :=
  min (4 * setSize.toNat) maxCpuNum.toNat

/-- The mask restricted to its lowest bits. -/
def restricted (mask : UInt64) (covered : Nat) : Nat :=
  mask.toNat % 2 ^ covered

/-- The CPU whose bit `set_cpu_set` keeps. -/
def keptCpu (setSize maxCpuNum : UInt64) : Nat :=
  (cpuSetLen setSize maxCpuNum - 1).toNat % 64

/-- The mask names no CPU on which the kept bit and the covered bits differ. -/
def OnlyKept (mask setSize maxCpuNum : UInt64) : Prop :=
  ∀ cpu, mask.toNat.testBit cpu = true
    → (cpu < coveredCpus setSize maxCpuNum ↔ cpu = keptCpu setSize maxCpuNum)

theorem shiftedOne_toNat (n : UInt64) : (shiftedOne n).toNat = 2 ^ (n.toNat % 64) := by
  have fits : 2 ^ (n.toNat % 64) < 2 ^ 64 :=
    Nat.pow_lt_pow_right (by decide) (Nat.mod_lt _ (by decide))
  rw [shiftedOne, UInt64.toNat_shiftLeft, UInt64.toNat_one, Nat.one_shiftLeft,
    Nat.mod_eq_of_lt fits]

@[simp] theorem getCpuSet_setCpuSet (task : Task) (mask setSize maxCpuNum : UInt64)
    : (task.setCpuSet mask setSize maxCpuNum).getCpuSet
        = (nowMask mask setSize maxCpuNum).toNat :=
  rfl

/-- The stored mask has at most the kept bit, and has it when the given mask does. -/
theorem nowMask_testBit (mask setSize maxCpuNum : UInt64) (cpu : Nat)
    : (nowMask mask setSize maxCpuNum).toNat.testBit cpu
        = (mask.toNat.testBit cpu && decide (cpu = keptCpu setSize maxCpuNum)) := by
  have same_bit : keptCpu setSize maxCpuNum = cpu ↔ cpu = keptCpu setSize maxCpuNum := eq_comm
  rw [nowMask, UInt64.toNat_and, shiftedOne_toNat, Nat.testBit_and, Nat.testBit_two_pow]
  exact congrArg _ (decide_eq_decide.mpr same_bit)

theorem restricted_testBit (mask : UInt64) (covered cpu : Nat)
    : (restricted mask covered).testBit cpu
        = (mask.toNat.testBit cpu && decide (cpu < covered)) := by
  rw [restricted, Nat.testBit_mod_two_pow, Bool.and_comm]

/-- The stored mask is the restricted one exactly when no bit of the mask tells the kept
bit and the covered ones apart, by comparing the two bit by bit.
-/
theorem nowMask_eq_restricted_iff (mask setSize maxCpuNum : UInt64)
    : (nowMask mask setSize maxCpuNum).toNat
          = restricted mask (coveredCpus setSize maxCpuNum)
        ↔ OnlyKept mask setSize maxCpuNum := by
  constructor
  · intro same cpu named
    have bits := congrArg (fun stored => stored.testBit cpu) same
    simp only [nowMask_testBit, restricted_testBit, named, Bool.true_and,
      decide_eq_decide] at bits
    exact bits.symm
  · intro only
    apply Nat.eq_of_testBit_eq
    intro cpu
    rw [nowMask_testBit, restricted_testBit]
    cases named : mask.toNat.testBit cpu with
    | false => rfl
    | true => simp only [Bool.true_and, only cpu named]

-----------------------------------------------------------------------------------------
-- The usual arguments
-----------------------------------------------------------------------------------------

/-- The arguments of a caller that counts its bytes without an overflow. -/
theorem cpuSetLen_toNat {setSize maxCpuNum : UInt64} (fits : 4 * setSize.toNat < 2 ^ 64)
    : (cpuSetLen setSize maxCpuNum).toNat = coveredCpus setSize maxCpuNum := by
  have product : (setSize * 4).toNat = 4 * setSize.toNat := by
    rw [UInt64.toNat_mul, show (4 : UInt64).toNat = 4 from rfl, Nat.mul_comm,
      Nat.mod_eq_of_lt fits]
  unfold cpuSetLen coveredCpus
  split
  · rename_i more
    have := UInt64.lt_iff_toNat_lt.mp more
    omega
  · rename_i less
    have := UInt64.le_iff_toNat_le.mp (UInt64.not_lt.mp less)
    omega

theorem keptCpu_eq {setSize maxCpuNum : UInt64} (fits : 4 * setSize.toNat < 2 ^ 64)
    (some_cpu : 0 < coveredCpus setSize maxCpuNum) (in_word : coveredCpus setSize maxCpuNum ≤ 64)
    : keptCpu setSize maxCpuNum = coveredCpus setSize maxCpuNum - 1 := by
  have len : (cpuSetLen setSize maxCpuNum).toNat = _ := cpuSetLen_toNat fits
  have below : (1 : UInt64) ≤ cpuSetLen setSize maxCpuNum :=
    UInt64.le_iff_toNat_le.mpr (by rw [len]; exact some_cpu)
  rw [keptCpu, UInt64.toNat_sub_of_le _ _ below, len, UInt64.toNat_one]
  exact Nat.mod_eq_of_lt (by omega)

/-- For a mask of at most 64 CPUs the stored mask is right exactly when the given one names
none of the CPUs below the last covered one.
-/
theorem nowMask_eq_restricted_iff_low {mask setSize maxCpuNum : UInt64}
    (fits : 4 * setSize.toNat < 2 ^ 64) (some_cpu : 0 < coveredCpus setSize maxCpuNum)
    (in_word : coveredCpus setSize maxCpuNum ≤ 64)
    : (nowMask mask setSize maxCpuNum).toNat
          = restricted mask (coveredCpus setSize maxCpuNum)
        ↔ mask.toNat % 2 ^ (coveredCpus setSize maxCpuNum - 1) = 0 := by
  rw [nowMask_eq_restricted_iff, OnlyKept, keptCpu_eq fits some_cpu in_word]
  constructor
  · intro only
    apply Nat.eq_of_testBit_eq
    intro cpu
    rw [Nat.testBit_mod_two_pow, Nat.zero_testBit, Bool.and_eq_false_iff, decide_eq_false_iff_not]
    by_contra low
    simp only [not_or, not_not, Bool.not_eq_false] at low
    have := only cpu low.2
    omega
  · intro none_low cpu named
    have high : ¬ cpu < coveredCpus setSize maxCpuNum - 1 := by
      intro low
      have bit := congrArg (fun stored => stored.testBit cpu) none_low
      simp only [Nat.testBit_mod_two_pow, low, named, Nat.zero_testBit] at bit
      simp at bit
    omega

-----------------------------------------------------------------------------------------
-- New tasks
-----------------------------------------------------------------------------------------

theorem Smp.toNat_pos (smp : Smp) : 0 < smp.count.toNat :=
  UInt64.lt_iff_toNat_lt.mp smp.positive

theorem Smp.toNat_lt (smp : Smp) : smp.count.toNat < 64 :=
  UInt64.lt_iff_toNat_lt.mp smp.builds

/-- The mask that names every CPU. -/
theorem Smp.mask_testBit (smp : Smp) (cpu : Nat)
    : (shiftedOne smp.count - 1).toNat.testBit cpu = decide (cpu < smp.count.toNat) := by
  have one_le : (1 : UInt64) ≤ shiftedOne smp.count := by
    rw [UInt64.le_iff_toNat_le, shiftedOne_toNat]
    exact Nat.one_le_two_pow
  rw [UInt64.toNat_sub_of_le _ _ one_le, shiftedOne_toNat, Nat.mod_eq_of_lt smp.toNat_lt,
    UInt64.toNat_one, Nat.testBit_two_pow_sub_one]

/-- The run queue's test reads one bit of the mask. -/
theorem Kernel.runsHere_eq_testBit {Ref : Type} (k : Kernel Ref) (t : Ref)
    : k.runsHere t = (k.tasks t).cpuSet.testBit k.thisCpuId := by
  rw [Kernel.runsHere, Nat.one_shiftLeft, Nat.and_two_pow]
  cases (k.tasks t).cpuSet.testBit k.thisCpuId with
  | true =>
      have := Nat.two_pow_pos k.thisCpuId
      simp only [Bool.toNat_true, Nat.one_mul, bne_iff_ne]
      omega
  | false => simp

theorem newTaskInner_testBit (smp : Smp) (created : Task) (cpu : Nat)
    : (newTaskInner smp created).cpuSet.testBit cpu = true
        ↔ cpu + 1 = min 4 smp.count.toNat := by
  have fits : 4 * (1 : UInt64).toNat < 2 ^ 64 := by decide
  have covered : coveredCpus 1 smp.count = min 4 smp.count.toNat := rfl
  have positive := smp.toNat_pos
  have kept := keptCpu_eq fits (by omega : 0 < coveredCpus 1 smp.count) (by omega)
  change (nowMask _ 1 smp.count).toNat.testBit cpu = true ↔ _
  rw [nowMask_testBit, smp.mask_testBit, kept, covered]
  simp only [Bool.and_eq_true, decide_eq_true_eq]
  omega

/-- A new task passes the affinity test of `resched` on one CPU only: the last one of the
first four. What `set_cpu_set` stores is the mask restricted to the covered CPUs exactly
when the mask names no CPU on which one kept bit and the covered bits differ.
-/
theorem affinity_iff {Ref : Type} (smp : Smp) (k : Kernel Ref) (t : Ref) (created task : Task)
    (mask setSize maxCpuNum : UInt64)
    : (k.thisCpuId < smp.count.toNat → k.tasks t = newTaskInner smp created
        → (k.runsHere t = true ↔ k.thisCpuId + 1 = min 4 smp.count.toNat))
      ∧ (0 < coveredCpus setSize maxCpuNum
        → ((task.setCpuSet mask setSize maxCpuNum).getCpuSet
              = restricted mask (coveredCpus setSize maxCpuNum)
            ↔ OnlyKept mask setSize maxCpuNum)) := by
  constructor
  · intro _ new
    rw [k.runsHere_eq_testBit, new, newTaskInner_testBit]
  · intro _
    rw [getCpuSet_setCpuSet]
    exact nowMask_eq_restricted_iff mask setSize maxCpuNum

def freshTask : Task :=
  { tid := 4, name := "worker", isIdle := false, cpuSet := 0, state := .ready
    isStarted := false, stackIdx := 0, hasBeenPreempted := false, isZombie := false }

def dualCore : Smp :=
  { count := 2, positive := by decide, builds := by decide }

/-- The first CPU of two, with one new task. -/
def firstOfTwo : Kernel Unit :=
  { tasks := fun _ => newTaskInner dualCore freshTask, readyQueue := [()]
    kstackState := fun _ => false, taskNub := 0, curStack := 0, current := ()
    idleTask := (), thisCpuId := 0 }

theorem affinity_iff_dualCore
    : (firstOfTwo.runsHere () = true ↔ 0 + 1 = min 4 2)
      ∧ ((freshTask.setCpuSet 0b10 1 2).getCpuSet = 0b10 ↔ OnlyKept 0b10 1 2) := by
  obtain ⟨runs, keeps⟩ := affinity_iff dualCore firstOfTwo () freshTask freshTask 0b10 1 2
  exact ⟨runs (by decide) rfl, keeps (by decide)⟩

/-- On two CPUs a new task may not run on the first one, and of a mask that names both CPUs
only the second is kept.
-/
theorem firstOfTwo_refuses
    : firstOfTwo.thisCpuId < dualCore.count.toNat
      ∧ firstOfTwo.tasks () = newTaskInner dualCore freshTask
      ∧ firstOfTwo.runsHere () = false
      ∧ (freshTask.setCpuSet 0b11 1 2).getCpuSet = 0b10
      ∧ restricted 0b11 (coveredCpus 1 2) = 0b11 :=
  ⟨by decide, rfl, by decide, by decide, by decide⟩

end RCoreOS.Axtask
