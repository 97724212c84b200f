import RCoreOS.Axfs.File
import RCoreOS.Lib.Transition
import Mathlib.Logic.Function.Basic
import Mathlib.Algebra.Order.Group.Nat
import Mathlib.Algebra.BigOperators.Group.List.Basic

/-! Appends of many handles to one RAM file. An append reads the size of the file in one
operation of the node and writes at this position in another one; nothing is lost as long as
each write still finds the size that was read for it.
-/

namespace RCoreOS.Axfs

/-- A completed write. -/
structure Written where
  offset : Nat
  bytes : List UInt8
deriving DecidableEq, Repr

/-- One file and all handles on it; `pending` is the buffer of a write between its two node
operations.
-/
structure Writers (Handle : Type) where
  node : FileNode
  file : Handle → File
  pending : Handle → Option (List UInt8)
  done : List Written

namespace Writers

variable {Handle : Type} [DecidableEq Handle]

/-- The first node operation of a write. -/
def start (s : Writers Handle) (h : Handle) (buf : List UInt8)
    : Except AxError (Writers Handle) := do
  let file ← (s.file h).startWrite s.node
  .ok { s with
    file := Function.update s.file h file
    pending := Function.update s.pending h (some buf) }

/-- The second node operation of a write. -/
def finish (s : Writers Handle) (h : Handle) (buf : List UInt8) : Writers Handle :=
  let (result, file, node) := (s.file h).finishWrite s.node buf
  { node
    file := Function.update s.file h file
    pending := Function.update s.pending h none
    done :=
      match result with
      | .ok _ => s.done ++ [⟨(s.file h).offset, buf⟩]
      | .error _ => s.done }

/-- One node operation of one handle; a handle does one write at a time. -/
inductive Step (s : Writers Handle) (h : Handle) : Writers Handle → Prop
  | start (buf) {s'} : s.pending h = none → s.start h buf = .ok s' → Step s h s'
  | finish (buf) : s.pending h = some buf → Step s h (s.finish h buf)

/-- Handles opened with append on a file that nobody writes yet. -/
structure Opened (initial : List UInt8) (s : Writers Handle) : Prop where
  content : s.node.content = initial
  append : ∀ h, (s.file h).isAppend = true
  idle : ∀ h, s.pending h = none
  done : s.done = []

/-- The states of any run of writes. -/
abbrev Reachable (initial : List UInt8) (s : Writers Handle) : Prop :=
  Transition.Reachable (Opened initial) (fun s s' => ∃ h, Step s h s') s

/-- What a completed write wrote is in the file, no two writes wrote the same byte, and the
file has grown by all of them.
-/
structure Kept (initial : List UInt8) (s : Writers Handle) : Prop where
  present : ∀ w ∈ s.done, (s.node.content.drop w.offset).take w.bytes.length = w.bytes
  apart : s.done.Pairwise fun w w' =>
    ∀ i < w.bytes.length, ∀ j < w'.bytes.length, w.offset + i ≠ w'.offset + j
  size : s.node.content.length = initial.length + (s.done.map (·.bytes.length)).sum

/-- If `h` is about to write bytes, then at the present end of the file. -/
def AtEnd (s : Writers Handle) (h : Handle) : Prop :=
  ∀ buf, s.pending h = some buf → buf ≠ [] → (s.file h).offset = s.node.content.length

/-- The states of runs in which every write finds the size that was read for it. -/
abbrev Undisturbed (initial : List UInt8) (s : Writers Handle) : Prop :=
  Transition.Reachable (Opened initial) (fun s s' => ∃ h, Step s h s' ∧ s.AtEnd h) s

-----------------------------------------------------------------------------------------
-- Steps
-----------------------------------------------------------------------------------------

variable {initial : List UInt8} {s s' : Writers Handle} {h : Handle}

/-- The positions taken by the appends under way lie inside the file. -/
structure Inside (s : Writers Handle) : Prop where
  append : ∀ h, (s.file h).isAppend = true
  offset : ∀ h, s.pending h ≠ none → (s.file h).offset ≤ s.node.content.length

theorem finish_eq (s : Writers Handle) (h : Handle) (buf : List UInt8)
    : s.finish h buf = {
        node := s.node.writeAt (s.file h).offset buf
        file := Function.update s.file h
          { s.file h with offset := (s.file h).offset + buf.length }
        pending := Function.update s.pending h none
        done := s.done ++ [⟨(s.file h).offset, buf⟩] } :=
  rfl

theorem start_eq {buf : List UInt8} (append : (s.file h).isAppend = true)
    (started : s.start h buf = .ok s')
    : s' = { s with
        file := Function.update s.file h { s.file h with offset := s.node.content.length }
        pending := Function.update s.pending h (some buf) } := by
  unfold start File.startWrite at started
  rw [if_pos append] at started
  split at started
  · cases started
  · cases started
    rfl

theorem Step.inside (inside : s.Inside) (step : Step s h s') : s'.Inside := by
  cases step with
  | start buf idle started =>
      rw [start_eq (inside.append h) started]
      constructor
      case append =>
        intro u
        by_cases same : u = h
        · simpa [same] using inside.append h
        · simpa [same] using inside.append u
      case offset =>
        intro u pending
        by_cases same : u = h
        · simp [same]
        · simpa [same] using inside.offset u (by simpa [same] using pending)
  | finish buf pending =>
      rw [finish_eq]
      constructor
      case append =>
        intro u
        by_cases same : u = h
        · simpa [same] using inside.append h
        · simpa [same] using inside.append u
      case offset =>
        intro u pending
        by_cases same : u = h
        · simp [same] at pending
        · have before := inside.offset u (by simpa [same] using pending)
          simp only [Function.update_of_ne same, FileNode.writeAt_length]
          exact before.trans (le_max_left ..)

omit [DecidableEq Handle] in
theorem Opened.inside (opened : Opened initial s) : s.Inside where
  append := opened.append
  offset := fun h pending => absurd (opened.idle h) pending

omit [DecidableEq Handle] in
theorem Opened.kept (opened : Opened initial s) : s.Kept initial := by
  constructor
  · simp [opened.done]
  · simp [opened.done]
  · simp [opened.done, opened.content]

omit [DecidableEq Handle] in
/-- Completed writes lie inside the file. -/
theorem Kept.bound (kept : s.Kept initial) {w : Written} (member : w ∈ s.done)
    (some : w.bytes ≠ [])
    : w.offset + w.bytes.length ≤ s.node.content.length := by
  have length := congrArg List.length (kept.present w member)
  rw [List.length_take, List.length_drop] at length
  have positive := List.length_pos_of_ne_nil some
  omega

/-- A write at the end of the file keeps all that was written. -/
theorem Kept.finish (kept : s.Kept initial) {buf : List UInt8}
    (atEnd : (s.file h).offset = s.node.content.length)
    : (s.finish h buf).Kept initial := by
  have content : (s.finish h buf).node.content = s.node.content ++ buf := by
    rw [finish_eq, atEnd]
    exact s.node.writeAt_end buf
  have done : (s.finish h buf).done = s.done ++ [⟨s.node.content.length, buf⟩] := by
    rw [finish_eq, atEnd]
  constructor
  case present =>
    rw [content, done]
    intro w member
    obtain old | new := List.mem_append.mp member
    · by_cases empty : w.bytes = []
      · simp [empty]
      · have bound := kept.bound old empty
        rw [List.drop_append_of_le_length (by omega),
          List.take_append_of_le_length (by rw [List.length_drop]; omega)]
        exact kept.present w old
    · rw [List.mem_singleton.mp new, List.drop_left, List.take_length]
  case apart =>
    rw [done, List.pairwise_append]
    refine ⟨kept.apart, List.pairwise_singleton .., ?_⟩
    intro w member w' new i hi j _
    have bound := kept.bound member (List.ne_nil_of_length_pos (by omega))
    rw [List.mem_singleton.mp new]
    simp only
    omega
  case size =>
    rw [content, done, List.length_append, kept.size]
    simp [Nat.add_assoc]

omit [DecidableEq Handle] in
/-- A handle without a write under way is not about to write. -/
theorem atEnd_of_idle (idle : s.pending h = none) : s.AtEnd h := by
  intro buf pending
  rw [idle] at pending
  cases pending

/-- A write of no bytes keeps all that was written. -/
theorem Kept.finish_nil (kept : s.Kept initial)
    (inside : (s.file h).offset ≤ s.node.content.length)
    : (s.finish h []).Kept initial := by
  have node : (s.finish h []).node = s.node := by
    rw [finish_eq]
    exact FileNode.writeAt_nil inside
  constructor
  · rw [node, finish_eq]
    intro w member
    obtain old | new := List.mem_append.mp member
    · exact kept.present w old
    · rw [List.mem_singleton.mp new]
      simp
  · rw [finish_eq, List.pairwise_append]
    refine ⟨kept.apart, List.pairwise_singleton .., ?_⟩
    intro w _ w' new i _ j hj
    rw [List.mem_singleton.mp new] at hj
    exact absurd hj (Nat.not_lt_zero j)
  · rw [node, finish_eq, kept.size]
    simp

/-- A write of bytes before the end of the file takes the room of other bytes: the file
grows by less than was written.
-/
theorem Kept.not_finish (kept : s.Kept initial) {buf : List UInt8} (some : buf ≠ [])
    (before : (s.file h).offset < s.node.content.length)
    : ¬ (s.finish h buf).Kept initial := by
  intro after
  have size := after.size
  have positive := List.length_pos_of_ne_nil some
  rw [finish_eq] at size
  simp only [FileNode.writeAt_length, List.map_append, List.map_cons, List.map_nil,
    List.sum_append, List.sum_cons, List.sum_nil] at size
  have held := kept.size
  omega

/-- A step keeps what was written exactly when a write finds the size that was read for it. -/
theorem Step.kept_iff (inside : s.Inside) (kept : s.Kept initial) (step : Step s h s')
    : s'.Kept initial ↔ s.AtEnd h := by
  cases step with
  | start buf idle started =>
      rw [start_eq (inside.append h) started]
      exact iff_of_true ⟨kept.present, kept.apart, kept.size⟩ (atEnd_of_idle idle)
  | finish buf pending =>
      have bound := inside.offset h (by simp [pending])
      by_cases empty : buf = []
      · subst empty
        refine iff_of_true (kept.finish_nil bound) ?_
        intro buf' pending' some
        rw [pending] at pending'
        cases pending'
        exact absurd rfl some
      · by_cases atEnd : (s.file h).offset = s.node.content.length
        · exact iff_of_true (kept.finish atEnd) fun _ _ _ => atEnd
        · refine iff_of_false (kept.not_finish empty (by omega)) ?_
          intro same
          exact atEnd (same buf pending empty)

-----------------------------------------------------------------------------------------
-- Runs
-----------------------------------------------------------------------------------------

/-- Every run of appends in which each write finds the size that was read for it loses
nothing, and the first write that finds another size does lose something.
-/
theorem appends_kept (run : Undisturbed initial s)
    : s.Kept initial ∧ ∀ h s', Step s h s' → (s'.Kept initial ↔ s.AtEnd h) := by
  have invariant : s.Inside ∧ s.Kept initial := by
    refine run.invariant (fun s => s.Inside ∧ s.Kept initial) ?_ ?_
    · intro s opened
      exact ⟨opened.inside, opened.kept⟩
    · rintro s s' ⟨inside, kept⟩ ⟨h, step, atEnd⟩
      exact ⟨step.inside inside, (step.kept_iff inside kept).mpr atEnd⟩
  exact ⟨invariant.2, fun h s' step => step.kept_iff invariant.1 invariant.2⟩

/-- Two handles that append to an empty file. -/
def twoHandles : Writers Bool where
  node := .new
  file := fun _ => { canRead := false, canWrite := true, isAppend := true, offset := 0 }
  pending := fun _ => none
  done := []

theorem twoHandles_opened : Opened [] twoHandles :=
  ⟨rfl, fun _ => rfl, fun _ => rfl, rfl⟩

/-- Two appends that both read the size before either writes. -/
theorem append_lost : ¬ ∀ s : Writers Bool, Reachable [] s → s.Kept [] := by
  intro all
  have run : Reachable [] twoHandles := .start twoHandles_opened
  have first := run.next ⟨true, .start [1] rfl rfl⟩
  have second := first.next ⟨false, .start [2] (by decide) rfl⟩
  have wrote := second.next ⟨true, .finish [1] (by decide)⟩
  have overwrote := wrote.next ⟨false, .finish [2] (by decide)⟩
  have size := (all _ overwrote).size
  revert size
  decide

/-- Two appends one after the other. -/
theorem appends_kept_in_turn
    : ∃ s : Writers Bool, s.done = [⟨0, [1]⟩, ⟨1, [2]⟩] ∧ s.Kept [] := by
  have run : Undisturbed [] twoHandles := .start twoHandles_opened
  have first := run.next ⟨true, .start [1] rfl rfl, atEnd_of_idle rfl⟩
  have wrote := first.next ⟨true, .finish [1] (by decide), fun _ _ _ => by decide⟩
  have second := wrote.next ⟨false, .start [2] (by decide) rfl, atEnd_of_idle (by decide)⟩
  have appended := second.next ⟨false, .finish [2] (by decide), fun _ _ _ => by decide⟩
  exact ⟨_, by decide, (appends_kept appended).1⟩

end Writers

end RCoreOS.Axfs
