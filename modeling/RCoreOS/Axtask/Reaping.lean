import RCoreOS.Lib.Transition
import Mathlib.Data.List.Nodup
import Mathlib.Logic.Function.Basic

/-! Children of the kernel process: how they are created, exit and are waited for. An exit
removes the task from `TID2TASK`, while its parent keeps the id among its children.
-/

namespace RCoreOS.Axtask

/-- The key of the kernel process in `TID2TASK`. -/
def KERNEL_PROCESS_ID : Nat := 1

inductive WaitStatus where
  | exited
  | running
  | notExist
deriving DecidableEq, Repr

/-- Where a task is in its life and in `exit_current_task`, with the exit code that it passes. -/
inductive ExitPoint where
  /-- Not created yet. -/
  | absent
  | running
  /-- After `set_exit_code`. -/
  | coded (exitCode : BitVec 32)
  /-- After `set_zombie`. -/
  | marked (exitCode : BitVec 32)
  /-- After the removal from `TID2TASK`. -/
  | gone (exitCode : BitVec 32)
deriving DecidableEq, Repr

/-- The code of a task that is a zombie. -/
def ExitPoint.exited : ExitPoint → Option (BitVec 32)
  | absent | running | coded _ => none
  | marked exitCode | gone exitCode => some exitCode

structure Process where
  parent : Nat
  isZombie : Bool
  exitCode : BitVec 32
  point : ExitPoint
deriving DecidableEq, Repr

def Process.getCodeIfExit (p : Process) : Option (BitVec 32) :=
  if p.isZombie then some p.exitCode else none

/-- A lookup in `TID2TASK` whose `unwrap` fails. -/
inductive LookupPanic where
  | notRegistered (tid : Nat)
deriving DecidableEq, Repr

/-- Tasks by their ids, which of them `TID2TASK` has, and everyone's children. -/
structure Processes where
  idCounter : Nat
  process : Nat → Process
  tid2task : Nat → Bool
  children : Nat → List Nat

namespace Processes

def modify (s : Processes) (t : Nat) (change : Process → Process) : Processes :=
  { s with process := Function.update s.process t (change (s.process t)) }

/-- The end of `Task::init`: the new task becomes a child of the kernel process and is
registered. `none` is `Err(NotFound)`.
-/
def init (s : Processes) : Option Processes :=
  let tid := s.idCounter
  let task : Process := ⟨KERNEL_PROCESS_ID, false, 0, .running⟩
  if s.tid2task KERNEL_PROCESS_ID then
    some {
      idCounter := tid + 1
      process := Function.update s.process tid task
      tid2task := Function.update s.tid2task tid true
      children :=
        Function.update s.children KERNEL_PROCESS_ID (s.children KERNEL_PROCESS_ID ++ [tid]) }
  else none

/-- In `exit_current_task`, one turn of the loop that hands the children to the kernel. -/
def adopt (s : Processes) (childid : Nat) : Except LookupPanic Processes :=
  if s.tid2task childid then
    .ok { s.modify childid (fun p => { p with parent := KERNEL_PROCESS_ID }) with
      children :=
        Function.update s.children KERNEL_PROCESS_ID
          (s.children KERNEL_PROCESS_ID ++ [childid]) }
  else .error (.notRegistered childid)

/-- The last part of `exit_current_task`: the children go to the kernel process, and the task
leaves `TID2TASK`.
-/
def leave (s : Processes) (t : Nat) (exitCode : BitVec 32) : Except LookupPanic Processes :=
  if s.tid2task KERNEL_PROCESS_ID then
    ((s.children t).foldlM adopt s).map fun s =>
      { s.modify t (fun p => { p with point := .gone exitCode }) with
        tid2task := Function.update s.tid2task t false }
  else .error (.notRegistered KERNEL_PROCESS_ID)

/-- `tid as u64` -/
def asU64 (tid : Int) : Nat :=
  (BitVec.ofInt 64 tid).toNat

/-- What the loop of `wait_pid` has found so far. -/
structure Answer where
  status : WaitStatus
  exitTaskId : Nat
  answerId : Nat
  /-- What is written to `exit_code_ptr`. -/
  encoded : BitVec 32
deriving DecidableEq, Repr

/-- The loop of `wait_pid` over the children, from an index on. -/
def waitLoop (s : Processes) (tid : Int) (index : Nat) : List Nat → Answer →
    Except LookupPanic Answer
  | [], answer => .ok answer
  | childid :: rest, answer =>
      if !s.tid2task childid then .error (.notRegistered childid)
      else if tid = -1 then
        match (s.process childid).getCodeIfExit with
        | some exitCode => .ok ⟨.exited, index, childid, exitCode <<< 8⟩
        | none => s.waitLoop tid (index + 1) rest { answer with status := .running }
      else if childid = asU64 tid then
        match (s.process childid).getCodeIfExit with
        | some exitCode => .ok ⟨.exited, index, childid, exitCode <<< 8⟩
        | none => .ok { answer with status := .running }
      else s.waitLoop tid (index + 1) rest answer

/-- `wait_pid` of the kernel process: the id and the encoded exit code of a child, which is
removed from the children, or a status.
-/
def waitPid (s : Processes) (tid : Int)
    : Except LookupPanic (Except WaitStatus (Nat × BitVec 32) × Processes) :=
  (s.waitLoop tid 0 (s.children KERNEL_PROCESS_ID) ⟨.notExist, 0, 0, 0⟩).map fun answer =>
    if answer.status = .exited then
      (.ok (answer.answerId, answer.encoded), { s with
        children :=
          Function.update s.children KERNEL_PROCESS_ID
            ((s.children KERNEL_PROCESS_ID).eraseIdx answer.exitTaskId) })
    else (.error answer.status, s)

/-- The system after `init_kernel_task`, with ids below `idCounter` given away. -/
def new (idCounter : Nat) : Processes where
  idCounter
  process := fun _ => ⟨0, false, 0, .absent⟩
  tid2task := fun tid => tid = KERNEL_PROCESS_ID
  children := fun _ => []

end Processes

/-- The tasks, and what `wait_pid` has returned so far. -/
structure History where
  processes : Processes
  reaped : List (Nat × BitVec 32)

namespace History

open Processes

/-- What a return of `wait_pid` adds to the history. -/
def returned : Except WaitStatus (Nat × BitVec 32) → List (Nat × BitVec 32)
  | .ok child => [child]
  | .error _ => []

def Started (h : History) : Prop :=
  ∃ idCounter, KERNEL_PROCESS_ID < idCounter ∧ h = ⟨new idCounter, []⟩

/-- One step of a run: a task is created, takes a step of its exit, or is waited for. -/
inductive Step (h : History) : History → Prop
  | init (s : Processes) : h.processes.init = some s → Step h { h with processes := s }
  | setExitCode (t : Nat) (exitCode : BitVec 32)
    : (h.processes.process t).point = .running
      → Step h { h with processes := h.processes.modify t fun p =>
          { p with exitCode, point := .coded exitCode } }
  | setZombie (t : Nat) (exitCode : BitVec 32)
    : (h.processes.process t).point = .coded exitCode
      → Step h { h with processes := h.processes.modify t fun p =>
          { p with isZombie := true, point := .marked exitCode } }
  | leave (t : Nat) (exitCode : BitVec 32) (s : Processes)
    : (h.processes.process t).point = .marked exitCode → h.processes.leave t exitCode = .ok s
      → Step h { h with processes := s }
  | wait (tid : Int) (r : Except WaitStatus (Nat × BitVec 32)) (s : Processes)
    : h.processes.waitPid tid = .ok (r, s) → Step h ⟨s, returned r ++ h.reaped⟩

/-- The states that runs reach before a panic. -/
abbrev Reachable (h : History) : Prop :=
  Transition.Reachable Started Step h

end History

-----------------------------------------------------------------------------------------
-- What a call of wait_pid looks at
-----------------------------------------------------------------------------------------

namespace Processes

variable {s : Processes} {tid : Int} {c : Nat}

/-- The children that a call waits for. -/
def Matches (tid : Int) (c : Nat) : Prop :=
  tid = -1 ∨ c = asU64 tid

instance : Decidable (Matches tid c) :=
  inferInstanceAs (Decidable (_ ∨ _))

/-- The exit code of a child that has exited. -/
def exited (s : Processes) (c : Nat) : Option (BitVec 32) :=
  (s.process c).point.exited

/-- The children whose tasks the loop looks up: all up to the one where it stops. -/
def looked (s : Processes) (tid : Int) : List Nat → List Nat
  | [] => []
  | c :: rest =>
      if Matches tid c ∧ (tid = -1 → (s.process c).isZombie = true) then [c]
      else c :: s.looked tid rest

/-- Every child that the loop looks at is still registered. -/
def Clear (s : Processes) (tid : Int) : Prop :=
  ∀ c ∈ s.looked tid (s.children KERNEL_PROCESS_ID), s.tid2task c = true

/-- What `wait_pid` promises: it returns; it returns a child that has exited, if one matches,
with its exit code, and that child is no longer among the children; it reports a running child
only if no matching child has exited, and a missing one only if none matches.
-/
def WaitLaw (s : Processes) (tid : Int)
    : Except LookupPanic (Except WaitStatus (Nat × BitVec 32) × Processes) → Prop
  | .error _ => False
  | .ok (.ok (c, encoded), s') =>
      c ∈ s.children KERNEL_PROCESS_ID ∧ Matches tid c
        ∧ (∃ exitCode, s.exited c = some exitCode ∧ encoded = exitCode <<< 8)
        ∧ s'.children KERNEL_PROCESS_ID = (s.children KERNEL_PROCESS_ID).erase c
        ∧ c ∉ s'.children KERNEL_PROCESS_ID
  | .ok (.error .running, s') =>
      (∃ c ∈ s.children KERNEL_PROCESS_ID, Matches tid c)
        ∧ (∀ c ∈ s.children KERNEL_PROCESS_ID, Matches tid c → s.exited c = none) ∧ s' = s
  | .ok (.error .notExist, s') =>
      (∀ c ∈ s.children KERNEL_PROCESS_ID, ¬ Matches tid c) ∧ s' = s
  | .ok (.error .exited, _) => False

/-- Flags and codes are those of the points of the tasks. -/
def Recorded (s : Processes) : Prop :=
  ∀ c, (s.process c).getCodeIfExit = s.exited c

/-- How the loop ends, over the children that are left: at a child that has exited, at a
child that is running, or after the last one.
-/
inductive LoopEnd (s : Processes) (tid : Int) (index : Nat) (children : List Nat)
    (answer : Answer) : Answer → Prop
  | exited (pre post : List Nat) (c : Nat) (exitCode : BitVec 32)
    : children = pre ++ c :: post → Matches tid c → s.exited c = some exitCode
      → LoopEnd s tid index children answer ⟨.exited, index + pre.length, c, exitCode <<< 8⟩
  | running
    : (∃ c ∈ children, Matches tid c)
      → (∀ c ∈ children, Matches tid c → s.exited c = none)
      → LoopEnd s tid index children answer { answer with status := .running }
  | missing
    : (∀ c ∈ children, ¬ Matches tid c) → LoopEnd s tid index children answer answer

variable {children : List Nat} {index : Nat} {answer found : Answer}

/-- A child that the call does not wait for is passed. -/
theorem LoopEnd.passOther {rest : List Nat} {child : Nat} (other : ¬ Matches tid child)
    (ends : LoopEnd s tid (index + 1) rest answer found)
    : LoopEnd s tid index (child :: rest) answer found := by
  cases ends with
  | exited pre post c exitCode split isMatch exited =>
      rw [Nat.add_assoc, Nat.add_comm 1]
      exact .exited (child :: pre) post c exitCode (by rw [split]; rfl) isMatch exited
  | running some none =>
      obtain ⟨c, member, isMatch⟩ := some
      refine .running ⟨c, List.mem_cons_of_mem _ member, isMatch⟩ fun c member isMatch => ?_
      rcases List.mem_cons.mp member with rfl | older
      · exact absurd isMatch other
      · exact none c older isMatch
  | missing none =>
      refine .missing fun c member => ?_
      rcases List.mem_cons.mp member with rfl | older
      · exact other
      · exact none c older

/-- A call for any child passes a running one, and has found a child then. -/
theorem LoopEnd.passRunning {rest : List Nat} {child : Nat} (any : tid = -1)
    (awake : s.exited child = none)
    (ends : LoopEnd s tid (index + 1) rest { answer with status := .running } found)
    : LoopEnd s tid index (child :: rest) answer found := by
  have all (c : Nat) : Matches tid c := .inl any
  cases ends with
  | exited pre post c exitCode split isMatch exited =>
      rw [Nat.add_assoc, Nat.add_comm 1]
      exact .exited (child :: pre) post c exitCode (by rw [split]; rfl) isMatch exited
  | running some none =>
      refine .running ⟨child, List.mem_cons_self .., all child⟩ fun c member _ => ?_
      rcases List.mem_cons.mp member with rfl | older
      · exact awake
      · exact none c older (all c)
  | missing none =>
      refine .running ⟨child, List.mem_cons_self .., all child⟩ fun c member _ => ?_
      rcases List.mem_cons.mp member with rfl | older
      · exact awake
      · exact absurd (all c) (none c older)

/-- A zombie flag tells whether a child has exited. -/
theorem Recorded.zombie (recorded : s.Recorded) (c : Nat)
    : (s.process c).isZombie = true ↔ s.exited c ≠ none := by
  rw [← recorded c, Process.getCodeIfExit]
  cases (s.process c).isZombie <;> simp

/-- Where every lookup finds its task, the loop ends in one of these ways, by induction on the
children.
-/
theorem waitLoop_ends (recorded : s.Recorded)
    (registered : ∀ c ∈ s.looked tid children, s.tid2task c = true) (index : Nat)
    (answer : Answer)
    : ∃ found, s.waitLoop tid index children answer = .ok found
      ∧ LoopEnd s tid index children answer found := by
  induction children generalizing index answer with
  | nil => exact ⟨answer, rfl, .missing (by simp)⟩
  | cons child rest ih =>
      have known : s.tid2task child = true := by
        refine registered child ?_
        rw [looked]
        split <;> simp
      have code := recorded child
      -- the loop goes on unless it stops at this child
      have later (goesOn : ¬ (Matches tid child ∧ (tid = -1 → (s.process child).isZombie = true)))
          : ∀ c ∈ s.looked tid rest, s.tid2task c = true := by
        intro c member
        refine registered c ?_
        rw [looked, if_neg goesOn]
        exact List.mem_cons_of_mem _ member
      rw [waitLoop, known, code]
      simp only [Bool.not_true, Bool.false_eq_true, if_false]
      by_cases any : tid = -1
      · rw [if_pos any]
        rcases exit : s.exited child with _ | exitCode
        · have awake : (s.process child).isZombie ≠ true :=
            fun zombie => (recorded.zombie child).mp zombie exit
          obtain ⟨found, run, ends⟩ := ih (later fun stops => awake (stops.2 any)) (index + 1)
            { answer with status := .running }
          exact ⟨found, run, ends.passRunning any exit⟩
        · exact ⟨_, rfl, .exited [] rest child exitCode rfl (.inl any) exit⟩
      rw [if_neg any]
      by_cases here : child = asU64 tid
      · rw [if_pos here]
        rcases exit : s.exited child with _ | exitCode
        · refine ⟨_, rfl, .running ⟨child, List.mem_cons_self .., .inr here⟩ fun c _ isMatch => ?_⟩
          rw [isMatch.resolve_left any, ← here, exit]
        · exact ⟨_, rfl, .exited [] rest child exitCode rfl (.inr here) exit⟩
      · have other : ¬ Matches tid child := fun isMatch => isMatch.elim any here
        obtain ⟨found, run, ends⟩ := ih (later fun stops => other stops.1) (index + 1) answer
        rw [if_neg here]
        exact ⟨found, run, ends.passOther other⟩

/-- A lookup that does not find its task panics, by induction on the children. -/
theorem waitLoop_panics
    (missing : ∃ c ∈ s.looked tid children, s.tid2task c = false) (index : Nat)
    (answer : Answer)
    : ∃ panic, s.waitLoop tid index children answer = .error panic := by
  induction children generalizing index answer with
  | nil =>
      obtain ⟨c, member, -⟩ := missing
      cases member
  | cons child rest ih =>
      rcases known : s.tid2task child with _ | _
      · exact ⟨.notRegistered child, by simp [waitLoop, known]⟩
      obtain ⟨c, member, unknown⟩ := missing
      rw [looked] at member
      split at member
      · rw [List.mem_singleton.mp member, known] at unknown
        cases unknown
      · rename_i goesOn
        rcases List.mem_cons.mp member with rfl | later
        · rw [known] at unknown
          cases unknown
        have next := ih ⟨c, later, unknown⟩
        rw [waitLoop, known]
        simp only [Bool.not_true, Bool.false_eq_true, if_false]
        by_cases any : tid = -1
        · have awake : (s.process child).getCodeIfExit = none := by
            have notZombie : ¬ (s.process child).isZombie = true :=
              fun zombie => goesOn ⟨.inl any, fun _ => zombie⟩
            rw [Process.getCodeIfExit, if_neg notZombie]
          rw [if_pos any, awake]
          exact next (index + 1) _
        · have other : child ≠ asU64 tid := fun here =>
            goesOn ⟨.inr here, fun isAny => absurd isAny any⟩
          rw [if_neg any, if_neg other]
          exact next (index + 1) _

/-- `wait_pid` keeps its promise when every child that it looks at is registered. -/
theorem waitPid_law (recorded : s.Recorded) (nodup : (s.children KERNEL_PROCESS_ID).Nodup)
    (clear : s.Clear tid)
    : s.WaitLaw tid (s.waitPid tid) := by
  obtain ⟨found, run, ends⟩ := waitLoop_ends recorded clear 0 ⟨.notExist, 0, 0, 0⟩
  rw [waitPid, run]
  cases ends with
  | exited pre post c exitCode split isMatch exited =>
      have member : c ∈ s.children KERNEL_PROCESS_ID := by
        rw [split]
        simp
      have position : (s.children KERNEL_PROCESS_ID).eraseIdx (0 + pre.length)
          = (s.children KERNEL_PROCESS_ID).erase c := by
        have fresh : c ∉ pre := by
          rw [split, List.nodup_append] at nodup
          exact fun inside => nodup.2.2 c inside c (List.mem_cons_self ..) rfl
        rw [split, Nat.zero_add, List.erase_append_right _ fresh, List.erase_cons_head,
          List.eraseIdx_append_of_length_le (Nat.le_refl _), Nat.sub_self]
        rfl
      have left : Function.update s.children KERNEL_PROCESS_ID
          ((s.children KERNEL_PROCESS_ID).eraseIdx (0 + pre.length)) KERNEL_PROCESS_ID
          = (s.children KERNEL_PROCESS_ID).erase c := by
        rw [Function.update_self, position]
      have outside : c ∉ Function.update s.children KERNEL_PROCESS_ID
          ((s.children KERNEL_PROCESS_ID).eraseIdx (0 + pre.length)) KERNEL_PROCESS_ID := by
        rw [left]
        exact nodup.not_mem_erase
      exact ⟨member, isMatch, ⟨exitCode, exited, rfl⟩, left, outside⟩
  | running some none => exact ⟨some, none, rfl⟩
  | missing none => exact ⟨none, rfl⟩

/-- `wait_pid` changes nothing but the children of the kernel process. -/
theorem waitPid_children {r : Except WaitStatus (Nat × BitVec 32)} {s' : Processes}
    (run : s.waitPid tid = .ok (r, s'))
    : ∃ left, s' = { s with children := Function.update s.children KERNEL_PROCESS_ID left } := by
  rcases loop : s.waitLoop tid 0 (s.children KERNEL_PROCESS_ID) ⟨.notExist, 0, 0, 0⟩
    with _ | found
  · rw [waitPid, loop] at run
    cases run
  simp only [waitPid, loop, Except.map] at run
  split at run
  · cases run
    exact ⟨_, rfl⟩
  · cases run
    exact ⟨s.children KERNEL_PROCESS_ID, by rw [Function.update_eq_self]⟩

/-- `wait_pid` panics when a child that it looks at is not registered. -/
theorem waitPid_panics (unclear : ¬ s.Clear tid) : ∃ panic, s.waitPid tid = .error panic := by
  unfold Clear at unclear
  push Not at unclear
  obtain ⟨c, member, unknown⟩ := unclear
  obtain ⟨panic, run⟩ := waitLoop_panics ⟨c, member, Bool.eq_false_iff.mpr unknown⟩ 0
    ⟨.notExist, 0, 0, 0⟩
  refine ⟨panic, ?_⟩
  rw [waitPid, run]
  rfl

theorem waitPid_law_iff (recorded : s.Recorded) (nodup : (s.children KERNEL_PROCESS_ID).Nodup)
    (tid : Int)
    : s.WaitLaw tid (s.waitPid tid) ↔ s.Clear tid := by
  refine ⟨fun law => ?_, waitPid_law recorded nodup⟩
  by_contra unclear
  obtain ⟨panic, run⟩ := waitPid_panics unclear
  rw [run] at law
  exact law

end Processes

-----------------------------------------------------------------------------------------
-- Runs
-----------------------------------------------------------------------------------------

namespace History

open Processes

/-- The kernel process is registered, its children are tasks that have been created, each once,
and nobody else has children. Tasks that `wait_pid` has returned had exited with the code that
was returned, and do not come back.
-/
structure Orderly (h : History) : Prop where
  kernel : h.processes.tid2task KERNEL_PROCESS_ID = true
  kernelAlone : (h.processes.process KERNEL_PROCESS_ID).point = .absent
  above : KERNEL_PROCESS_ID < h.processes.idCounter
  nodup : (h.processes.children KERNEL_PROCESS_ID).Nodup
  created : ∀ c ∈ h.processes.children KERNEL_PROCESS_ID, c < h.processes.idCounter
  childless : ∀ t, t ≠ KERNEL_PROCESS_ID → h.processes.children t = []
  recorded : h.processes.Recorded
  coded : ∀ t exitCode, (h.processes.process t).point = .coded exitCode
    → (h.processes.process t).exitCode = exitCode
  reapedOnce : (h.reaped.map Prod.fst).Nodup
  reapedGone : ∀ child ∈ h.reaped, child.1 < h.processes.idCounter
    ∧ child.1 ∉ h.processes.children KERNEL_PROCESS_ID
    ∧ ∃ exitCode, h.processes.exited child.1 = some exitCode ∧ child.2 = exitCode <<< 8

variable {h : History} {t : Nat}

/-- A change of one task that does not take back an exit, and keeps its flag and code right. -/
theorem Orderly.modify (orderly : h.Orderly) (change : Process → Process)
    (notKernel : t ≠ KERNEL_PROCESS_ID)
    (recorded : (change (h.processes.process t)).getCodeIfExit
      = (change (h.processes.process t)).point.exited)
    (coded : ∀ exitCode, (change (h.processes.process t)).point = .coded exitCode
      → (change (h.processes.process t)).exitCode = exitCode)
    (kept : ∀ exitCode, h.processes.exited t = some exitCode
      → (change (h.processes.process t)).point.exited = some exitCode)
    : Orderly { h with processes := h.processes.modify t change } where
  kernel := orderly.kernel
  kernelAlone := by
    simp only [Processes.modify, Function.update_of_ne (Ne.symm notKernel)]
    exact orderly.kernelAlone
  above := orderly.above
  nodup := orderly.nodup
  created := orderly.created
  childless := orderly.childless
  recorded := by
    intro c
    by_cases here : c = t
    · subst here
      simp only [Processes.modify, Processes.exited, Function.update_self, recorded]
    · simp only [Processes.modify, Processes.exited, Function.update_of_ne here]
      exact orderly.recorded c
  coded := by
    intro c exitCode here
    by_cases same : c = t
    · subst same
      simp only [Processes.modify, Function.update_self] at here ⊢
      exact coded exitCode here
    · simp only [Processes.modify, Function.update_of_ne same] at here ⊢
      exact orderly.coded c exitCode here
  reapedOnce := orderly.reapedOnce
  reapedGone := by
    intro child member
    obtain ⟨old, outside, exitCode, exited, encoded⟩ := orderly.reapedGone child member
    refine ⟨old, outside, exitCode, ?_, encoded⟩
    by_cases here : child.1 = t
    · simp only [Processes.modify, Processes.exited, here, Function.update_self]
      exact kept exitCode (here ▸ exited)
    · simp only [Processes.modify, Processes.exited, Function.update_of_ne here]
      exact exited

/-- A task at a point of its life is not the kernel process. -/
theorem Orderly.notKernel (orderly : h.Orderly)
    (alive : (h.processes.process t).point ≠ .absent)
    : t ≠ KERNEL_PROCESS_ID := by
  rintro rfl
  exact alive orderly.kernelAlone

/-- The lookups of `exit_current_task` succeed: the kernel is registered, and the task has no
children to hand over.
-/
theorem Orderly.leave_ok (orderly : h.Orderly) {exitCode : BitVec 32}
    (alive : (h.processes.process t).point ≠ .absent)
    : h.processes.leave t exitCode
      = .ok { h.processes.modify t (fun p => { p with point := .gone exitCode }) with
        tid2task := Function.update h.processes.tid2task t false } := by
  rw [leave, if_pos orderly.kernel, orderly.childless t (orderly.notKernel alive)]
  rfl

/-- A new task becomes the last child. -/
theorem Orderly.init (orderly : h.Orderly) {s : Processes} (run : h.processes.init = some s)
    : Orderly { h with processes := s } := by
  rw [Processes.init, if_pos orderly.kernel] at run
  cases run
  have fresh : h.processes.idCounter ∉ h.processes.children KERNEL_PROCESS_ID :=
    fun member => Nat.lt_irrefl _ (orderly.created _ member)
  have notKernel := Nat.ne_of_lt orderly.above
  refine ⟨?_, ?_, Nat.lt_succ_of_lt orderly.above, ?_, fun c member => ?_, fun t other => ?_,
    fun c => ?_, fun c exitCode here => ?_, orderly.reapedOnce, fun child member => ?_⟩
  · exact (Function.update_of_ne notKernel ..).trans orderly.kernel
  · simp only [Function.update_of_ne notKernel]
    exact orderly.kernelAlone
  · simp only [Function.update_self]
    exact List.nodup_append.mpr ⟨orderly.nodup, by simp, by
      rintro c member d isNew rfl
      exact fresh (List.mem_singleton.mp isNew ▸ member)⟩
  · simp only [Function.update_self] at member
    rcases List.mem_append.mp member with older | isNew
    · exact Nat.lt_succ_of_lt (orderly.created c older)
    · exact Nat.lt_succ_of_le (Nat.le_of_eq (List.mem_singleton.mp isNew))
  · simp only [Function.update_of_ne other]
    exact orderly.childless t other
  · by_cases here : c = h.processes.idCounter
    · subst here
      simp only [exited, Function.update_self]
      rfl
    · simp only [exited, Function.update_of_ne here]
      exact orderly.recorded c
  · by_cases new : c = h.processes.idCounter
    · subst new
      simp only [Function.update_self] at here
      cases here
    · simp only [Function.update_of_ne new] at here ⊢
      exact orderly.coded c exitCode here
  · obtain ⟨old, outside, exitCode, isExited, encoded⟩ := orderly.reapedGone child member
    have other : child.1 ≠ h.processes.idCounter := Nat.ne_of_lt old
    refine ⟨Nat.lt_succ_of_lt old, ?_, exitCode, ?_, encoded⟩
    · simp only [Function.update_self, List.mem_append, List.mem_singleton, not_or]
      exact ⟨outside, other⟩
    · simp only [exited, Function.update_of_ne other]
      exact isExited

/-- A task that has finished its exit is no longer registered. -/
theorem Orderly.leave (orderly : h.Orderly) {exitCode : BitVec 32} {s : Processes}
    (marked : (h.processes.process t).point = .marked exitCode)
    (run : h.processes.leave t exitCode = .ok s)
    : Orderly { h with processes := s } := by
  have alive : (h.processes.process t).point ≠ .absent := by
    rw [marked]
    simp
  have notKernel := orderly.notKernel alive
  rw [orderly.leave_ok alive] at run
  cases run
  have code := orderly.recorded t
  rw [exited, marked] at code
  have modified := orderly.modify (fun p => { p with point := .gone exitCode }) notKernel code
    (by simp) ?_
  · exact { modified with
      kernel := (Function.update_of_ne (Ne.symm notKernel) ..).trans orderly.kernel }
  · intro exitCode' isExited
    rw [exited, marked] at isExited
    exact isExited

/-- A child that is returned was not returned before, and leaves the children. -/
theorem Orderly.wait (orderly : h.Orderly) {tid : Int} {r : Except WaitStatus (Nat × BitVec 32)}
    {s : Processes} (run : h.processes.waitPid tid = .ok (r, s))
    : Orderly ⟨s, returned r ++ h.reaped⟩ := by
  have clear : h.processes.Clear tid := by
    by_contra unclear
    obtain ⟨panic, failed⟩ := waitPid_panics unclear
    rw [failed] at run
    cases run
  have law := waitPid_law orderly.recorded orderly.nodup clear
  rw [run] at law
  rcases r with status | ⟨c, encoded⟩
  · have same : s = h.processes := by
      cases status with
      | exited => exact law.elim
      | running => exact law.2.2
      | notExist => exact law.2
    subst same
    exact orderly
  · obtain ⟨member, -, ⟨exitCode, exited, isEncoded⟩, left, outside⟩ := law
    obtain ⟨rest, rfl⟩ := waitPid_children run
    simp only [Function.update_self] at left outside
    subst left
    have subset (d : Nat) (still : d ∈ (h.processes.children KERNEL_PROCESS_ID).erase c)
        : d ∈ h.processes.children KERNEL_PROCESS_ID :=
      List.mem_of_mem_erase still
    refine ⟨orderly.kernel, orderly.kernelAlone, orderly.above, ?_, fun d still => ?_,
      fun t other => ?_, orderly.recorded, orderly.coded, ?_, fun child known => ?_⟩
    · simp only [Function.update_self]
      exact orderly.nodup.erase c
    · simp only [Function.update_self] at still
      exact orderly.created d (subset d still)
    · exact (Function.update_of_ne other ..).trans (orderly.childless t other)
    · refine List.nodup_cons.mpr ⟨fun again => ?_, orderly.reapedOnce⟩
      obtain ⟨child, known, same⟩ := List.mem_map.mp again
      exact (orderly.reapedGone child known).2.1 (same ▸ member)
    · simp only [Function.update_self]
      rcases List.mem_cons.mp known with rfl | older
      · exact ⟨orderly.created _ member, outside, exitCode, exited, isEncoded⟩
      · obtain ⟨old, gone, code⟩ := orderly.reapedGone child older
        exact ⟨old, fun still => gone (subset _ still), code⟩

/-- Runs keep order, by the lemma of each step. -/
theorem orderly_reachable (reachable : Reachable h) : h.Orderly := by
  refine reachable.invariant Orderly ?_ ?_
  · rintro h ⟨idCounter, above, rfl⟩
    exact {
      kernel := by simp [new]
      kernelAlone := rfl
      above
      nodup := .nil
      created := by simp [new]
      childless := fun _ _ => rfl
      recorded := fun _ => rfl
      coded := by simp [new]
      reapedOnce := .nil
      reapedGone := by simp }
  · intro h h' orderly stepped
    cases stepped with
    | init s run => exact orderly.init run
    | setExitCode t exitCode running =>
        have code := orderly.recorded t
        rw [exited, running] at code
        have awake : (h.processes.process t).isZombie = false := by
          by_contra zombie
          simp [Process.getCodeIfExit, zombie, ExitPoint.exited] at code
        refine orderly.modify _ (orderly.notKernel (by simp [running])) ?_ ?_
          fun code' isExited => ?_
        · simp [Process.getCodeIfExit, awake, ExitPoint.exited]
        · simp
        · rw [exited, running] at isExited
          cases isExited
    | setZombie t exitCode coded =>
        have code := orderly.coded t exitCode coded
        refine orderly.modify _ (orderly.notKernel (by simp [coded])) ?_ ?_ fun code' isExited => ?_
        · simp [Process.getCodeIfExit, code, ExitPoint.exited]
        · simp
        · rw [exited, coded] at isExited
          cases isExited
    | leave t exitCode s marked run => exact orderly.leave marked run
    | wait tid r s run => exact orderly.wait run

/-- In every state that a run reaches: exits do not panic, no child is returned twice, and a
returned child had exited with the returned code and is gone; and `wait_pid` keeps its promise
exactly if every child that it looks at is still registered.
-/
theorem children_reaped (reachable : Reachable h)
    : (∀ t exitCode, (h.processes.process t).point = .marked exitCode
        → ∃ s, h.processes.leave t exitCode = .ok s)
      ∧ (h.reaped.map Prod.fst).Nodup
      ∧ (∀ child ∈ h.reaped, child.1 ∉ h.processes.children KERNEL_PROCESS_ID
        ∧ ∃ exitCode, h.processes.exited child.1 = some exitCode ∧ child.2 = exitCode <<< 8)
      ∧ ∀ tid, h.processes.WaitLaw tid (h.processes.waitPid tid) ↔ h.processes.Clear tid := by
  have orderly := orderly_reachable reachable
  refine ⟨fun t exitCode marked => ?_, orderly.reapedOnce, fun child member => ?_, fun tid => ?_⟩
  · exact ⟨_, orderly.leave_ok (by simp [marked])⟩
  · exact (orderly.reapedGone child member).2
  · exact waitPid_law_iff orderly.recorded orderly.nodup tid

/-- One child has exited, but has not left `TID2TASK` yet. -/
theorem marked_child_reachable (exitCode : BitVec 32)
    : ∃ h, Reachable h ∧ h.processes.children KERNEL_PROCESS_ID = [2] ∧ h.processes.Clear (-1)
      ∧ (h.processes.process 2).point = .marked exitCode := by
  have created := (Transition.Reachable.start ⟨2, by decide, rfl⟩ : Reachable _).next
    (.init _ rfl)
  have marked := (created.next (.setExitCode 2 exitCode rfl)).next (.setZombie 2 exitCode rfl)
  refine ⟨_, marked, rfl, fun c member => ?_, rfl⟩
  rw [List.mem_singleton.mp member]
  rfl

/-- That child can be waited for. -/
theorem children_reaped_marked
    : ∃ h : History, (h.processes.process 2).point = .marked 7
      ∧ h.processes.WaitLaw (-1) (h.processes.waitPid (-1)) := by
  obtain ⟨h, reachable, -, clear, marked⟩ := marked_child_reachable 7
  exact ⟨h, marked, ((children_reaped reachable).2.2.2 (-1)).mpr clear⟩

/-- After its exit is finished, waiting for it panics. -/
theorem finished_child_panics
    : ∃ h, Reachable h ∧ h.processes.children KERNEL_PROCESS_ID = [2]
      ∧ h.processes.exited 2 = some 7
      ∧ h.processes.waitPid (-1) = .error (.notRegistered 2) := by
  have created := (Transition.Reachable.start ⟨2, by decide, rfl⟩ : Reachable _).next
    (.init _ rfl)
  have marked := (created.next (.setExitCode 2 7 rfl)).next (.setZombie 2 7 rfl)
  exact ⟨_, marked.next (.leave 2 7 _ rfl rfl), rfl, rfl, rfl⟩

end History

end RCoreOS.Axtask
