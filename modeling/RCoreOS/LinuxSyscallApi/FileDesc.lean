import RCoreOS.Axfs.File
import RCoreOS.Lib.Outcome
import RCoreOS.Lib.Transition
import Mathlib.Logic.Function.Basic

/-! File descriptors shared by several tasks. A call locks the file once; a readiness query
locks it three times, to save the cursor, to move it to the end and to restore it.
-/

namespace RCoreOS.LinuxSyscallApi

open Axfs

/-- A file descriptor over a node, with the access bits of its open flags. -/
structure FileDesc (N : Type) where
  file : File
  node : N
  readable : Bool
  writable : Bool

/-- The calls that lock the file once. -/
inductive Call where
  | read (len : Nat)
  | write (buf : List UInt8)
  | seek (pos : SeekFrom)
deriving DecidableEq, Repr

inductive Answer where
  | data (bytes : List UInt8)
  | number (n : Nat)
  | error (e : AxError)
deriving DecidableEq, Repr

namespace FileDesc

variable {N : Type} [VfsNodeOps N]

def read (desc : FileDesc N) (len : Nat) : Answer × FileDesc N :=
  match desc.file.read desc.node len with
  | .ok (bytes, file) => (.data bytes, { desc with file })
  | .error e => (.error e, desc)

def seek (desc : FileDesc N) (pos : SeekFrom) : Except AxError (Nat × FileDesc N) := do
  let (pos, file) ← desc.file.seek desc.node pos
  .ok (pos, { desc with file })

/-- `file.write` on the locked file. -/
def fileWrite (desc : FileDesc N) (buf : List UInt8) : Except AxError Nat × FileDesc N :=
  let (result, file, node) := desc.file.write desc.node buf
  (result, { desc with file, node })

def writeAnswer (written : Except AxError Nat × FileDesc N) : Answer × FileDesc N :=
  match written with
  | (.ok n, desc) => (.number n, desc)
  | (.error e, desc) => (.error e, desc)

/-- A write behind the end of the file first fills the gap with zeros. An error is a panic of
an `unwrap`.
-/
def write (desc : FileDesc N) (buf : List UInt8) : Except AxError (Answer × FileDesc N) := do
  let (oldOffset, desc) ← desc.seek (.Current 0)
  let size ← VfsNodeOps.getAttr desc.node
  if oldOffset > size then
    let (_, desc) ← desc.seek (.Start size)
    match desc.fileWrite (List.replicate (oldOffset - size) 0) with
    | (.error e, desc) => .ok (.error e, desc)
    | (.ok _, desc) => .ok (writeAnswer (desc.fileWrite buf))
  else .ok (writeAnswer (desc.fileWrite buf))

/-- One call under the lock of the file. An error is a panic. -/
def run (desc : FileDesc N) : Call → Except AxError (Answer × FileDesc N)
  | .read len => .ok (desc.read len)
  | .write buf => desc.write buf
  | .seek pos =>
      match desc.seek pos with
      | .ok (pos, desc) => .ok (.number pos, desc)
      | .error e => .ok (.error e, desc)

/-- The cursor saved and moved to the end and restored, each under a lock of its own. An error
is a panic.
-/
def queryEnd (desc : FileDesc N) : Except AxError (Bool × FileDesc N) := do
  let (nowPos, desc) ← desc.seek (.Current 0)
  let (len, desc) ← desc.seek (.End 0)
  let (_, desc) ← desc.seek (.Start nowPos)
  .ok (nowPos != len, desc)

def readyToRead (desc : FileDesc N) : Except AxError (Bool × FileDesc N) :=
  if !desc.readable then .ok (false, desc) else desc.queryEnd

def readyToWrite (desc : FileDesc N) : Except AxError (Bool × FileDesc N) :=
  if !desc.writable then .ok (false, desc) else desc.queryEnd

/-- The descriptor with its cursor elsewhere. -/
def setCursor (desc : FileDesc N) (offset : Nat) : FileDesc N :=
  { desc with file := { desc.file with offset } }

/-- A seek only moves the cursor, to the position asked for. -/
theorem seek_eq {desc desc' : FileDesc N} {pos : SeekFrom} {newPos : Nat}
    (sought : desc.seek pos = .ok (newPos, desc'))
    : desc' = desc.setCursor newPos ∧ ∃ size, pos.target desc.file.offset size = some newPos := by
  obtain ⟨⟨newOffset, file⟩, found, ok⟩ := Outcome.bind_eq_ok.mp sought
  cases ok
  obtain ⟨rfl, target⟩ := File.seek_eq_ok found
  exact ⟨rfl, target⟩

/-- `seek(SeekFrom::Current(0))` returns the cursor and leaves it. -/
theorem seek_current {desc desc' : FileDesc N} {newPos : Nat}
    (sought : desc.seek (.Current 0) = .ok (newPos, desc'))
    : newPos = desc.file.offset ∧ desc' = desc := by
  obtain ⟨rfl, size, target⟩ := seek_eq sought
  rw [SeekFrom.target] at target
  obtain rfl := checkedAddSigned_zero target
  exact ⟨rfl, rfl⟩

theorem seek_start {desc desc' : FileDesc N} {pos newPos : Nat}
    (sought : desc.seek (.Start pos) = .ok (newPos, desc'))
    : desc' = desc.setCursor pos := by
  obtain ⟨rfl, size, target⟩ := seek_eq sought
  cases target
  rfl

theorem seek_of_target {desc : FileDesc N} {pos : SeekFrom} {size : Nat} (newPos : Nat)
    (attr : VfsNodeOps.getAttr desc.node = .ok size)
    (target : pos.target desc.file.offset size = some newPos)
    : desc.seek pos = .ok (newPos, desc.setCursor newPos) := by
  simp only [seek, File.seek, attr, Outcome.ok_bind, target, setCursor]

omit [VfsNodeOps N] in
@[simp]
theorem setCursor_setCursor (desc : FileDesc N) (offset offset' : Nat)
    : (desc.setCursor offset).setCursor offset' = desc.setCursor offset' :=
  rfl

omit [VfsNodeOps N] in
@[simp]
theorem setCursor_self (desc : FileDesc N) : desc.setCursor desc.file.offset = desc :=
  rfl

/-- A query that nobody disturbs leaves the descriptor as it was. -/
theorem queryEnd_keeps {desc desc' : FileDesc N} {ready : Bool}
    (queried : desc.queryEnd = .ok (ready, desc'))
    : desc' = desc := by
  obtain ⟨⟨nowPos, saved⟩, first, queried⟩ := Outcome.bind_eq_ok.mp queried
  obtain ⟨⟨len, moved⟩, second, queried⟩ := Outcome.bind_eq_ok.mp queried
  obtain ⟨⟨pos, restored⟩, third, queried⟩ := Outcome.bind_eq_ok.mp queried
  cases queried
  obtain ⟨rfl, rfl⟩ := seek_current first
  rw [seek_start third, (seek_eq second).1, setCursor_setCursor, setCursor_self]

/-- The same holds of both queries, with or without access. -/
theorem ready_keeps {desc desc' : FileDesc N} {ready : Bool}
    (queried : desc.readyToRead = .ok (ready, desc') ∨ desc.readyToWrite = .ok (ready, desc'))
    : desc' = desc := by
  unfold readyToRead readyToWrite at queried
  rcases queried with queried | queried
  · split at queried
    · cases queried
      rfl
    · exact queryEnd_keeps queried
  · split at queried
    · cases queried
      rfl
    · exact queryEnd_keeps queried

end FileDesc

/-- Where a task is in a readiness query. -/
inductive Query where
  | none
  /-- Behind `seek(SeekFrom::Current(0))`. -/
  | saved (nowPos : Nat)
  /-- Behind `seek(SeekFrom::End(0))`. -/
  | moved (nowPos len : Nat)
deriving DecidableEq, Repr

/-- The position a query will restore. -/
def Query.nowPos : Query → Option Nat
  | none => .none
  | saved nowPos => some nowPos
  | moved nowPos _ => some nowPos

/-- A completed call: the cursor at which it started and what it returned. -/
structure Event (Task : Type) where
  task : Task
  call : Call
  cursor : Nat
  answer : Answer
deriving DecidableEq, Repr

/-- A descriptor, the queries of all tasks, and the completed calls. -/
structure SharedDesc (Task N : Type) where
  desc : FileDesc N
  query : Task → Query
  history : List (Event Task)

namespace SharedDesc

variable {Task N : Type} [DecidableEq Task] [VfsNodeOps N]

def setQuery (s : SharedDesc Task N) (t : Task) (query : Query) (desc : FileDesc N)
    : SharedDesc Task N :=
  { s with
    desc
    query := Function.update s.query t query }

/-- A call that has completed. -/
def record (s : SharedDesc Task N) (t : Task) (call : Call) (answer : Answer)
    (desc : FileDesc N)
    : SharedDesc Task N :=
  { s with
    desc
    history := s.history ++ [⟨t, call, s.desc.file.offset, answer⟩] }

/-- What a task does under one lock of the file. -/
inductive Move where
  | call (call : Call)
  | saveCursor
  | moveToEnd
  | restore

/-- One acquisition of the lock of the file. -/
inductive Step (s : SharedDesc Task N) (t : Task) : Move → SharedDesc Task N → Prop
  | call (call) {answer desc}
    : s.query t = .none → s.desc.run call = .ok (answer, desc) →
      Step s t (.call call) (s.record t call answer desc)
  | saveCursor {nowPos desc}
    : s.query t = .none → s.desc.readable = true ∨ s.desc.writable = true →
      s.desc.seek (.Current 0) = .ok (nowPos, desc) →
      Step s t .saveCursor (s.setQuery t (.saved nowPos) desc)
  | moveToEnd {nowPos len desc}
    : s.query t = .saved nowPos → s.desc.seek (.End 0) = .ok (len, desc) →
      Step s t .moveToEnd (s.setQuery t (.moved nowPos len) desc)
  | restore {nowPos len pos desc}
    : s.query t = .moved nowPos len → s.desc.seek (.Start nowPos) = .ok (pos, desc) →
      Step s t .restore (s.setQuery t .none desc)

/-- A descriptor that nobody uses yet. -/
def start (desc : FileDesc N) : SharedDesc Task N where
  desc
  query := fun _ => .none
  history := []

/-- The states of any run on a descriptor. -/
abbrev Reachable (desc : FileDesc N) (s : SharedDesc Task N) : Prop :=
  Transition.Reachable (· = start desc) (fun s s' => ∃ t move, Step s t move s') s

/-- The states of runs of the calls alone. -/
abbrev CallsAlone (desc : FileDesc N) (s : SharedDesc Task N) : Prop :=
  Transition.Reachable (· = start desc) (fun s s' => ∃ t call, Step s t (.call call) s') s

/-- Some interleaving of the calls alone explains what the calls of each task returned, where
they started, and what they have made of the file; and it explains the cursor when no query is
under way.
-/
def Explained (desc : FileDesc N) (s : SharedDesc Task N) : Prop :=
  ∃ alone : SharedDesc Task N, CallsAlone desc alone
    ∧ (∀ t, alone.history.filter (·.task = t) = s.history.filter (·.task = t))
    ∧ alone.desc.node = s.desc.node
    ∧ ((∀ t, s.query t = .none) → alone.desc = s.desc)

/-- The cursor is where the query of each task found it. -/
def Unmoved (s : SharedDesc Task N) : Prop :=
  ∀ t nowPos, (s.query t).nowPos = some nowPos → s.desc.file.offset = nowPos

/-- A call finds the cursor where the queries under way found it and leaves it there, and a
query starts with the cursor where the queries that have moved it found it.
-/
def Undisturbing (s : SharedDesc Task N) : Move → Prop
  | .call call => s.Unmoved ∧ ∀ answer desc, s.desc.run call = .ok (answer, desc) →
      ∀ t nowPos, (s.query t).nowPos = some nowPos → desc.file.offset = nowPos
  | .saveCursor => ∀ t nowPos len, s.query t = .moved nowPos len → s.desc.file.offset = nowPos
  | .moveToEnd | .restore => True

/-- The states of runs without disturbance. -/
abbrev Undisturbed (desc : FileDesc N) (s : SharedDesc Task N) : Prop :=
  Transition.Reachable (· = start desc)
    (fun s s' => ∃ t move, Step s t move s' ∧ s.Undisturbing move) s

/-- A run of the calls alone that differs in nothing but the cursor: its cursor is what the
queries under way will restore, and the present one unless a query has moved it.
-/
structure Simulated (desc : FileDesc N) (s alone : SharedDesc Task N) : Prop where
  run : CallsAlone desc alone
  query : ∀ t, alone.query t = .none
  history : alone.history = s.history
  desc : alone.desc = s.desc.setCursor alone.desc.file.offset
  saved : ∀ t nowPos, (s.query t).nowPos = some nowPos → nowPos = alone.desc.file.offset
  present : (∀ t nowPos len, s.query t ≠ .moved nowPos len) →
    s.desc.file.offset = alone.desc.file.offset

variable {desc : FileDesc N} {s s' alone : SharedDesc Task N} {t : Task} {move : Move}

omit [VfsNodeOps N] in
/-- The cursor of a query that starts or goes on is one more position that is saved. -/
theorem saved_update {query : Query} {desc' : FileDesc N} {cursor : Nat}
    (saved : ∀ t nowPos, (s.query t).nowPos = some nowPos → nowPos = cursor)
    (own : ∀ nowPos, query.nowPos = some nowPos → nowPos = cursor)
    : ∀ u nowPos, ((s.setQuery t query desc').query u).nowPos = some nowPos →
      nowPos = cursor := by
  intro u nowPos found
  simp only [setQuery, Function.update_apply] at found
  split at found
  · exact own nowPos found
  · exact saved u nowPos found

/-- Every step without disturbance is simulated. -/
theorem Step.simulated (sim : Simulated desc s alone) (step : Step s t move s')
    (quiet : s.Undisturbing move)
    : ∃ alone', Simulated desc s' alone' := by
  cases step with
  | @call call answer desc' idle ran =>
      have here : s.desc.file.offset = alone.desc.file.offset := by
        by_cases moved : ∃ u nowPos len, s.query u = .moved nowPos len
        · obtain ⟨u, nowPos, len, moved⟩ := moved
          have inside : (s.query u).nowPos = some nowPos := by rw [moved]; rfl
          rw [quiet.1 u nowPos inside, sim.saved u nowPos inside]
        · exact sim.present fun u nowPos len found => moved ⟨u, nowPos, len, found⟩
      have same : alone.desc = s.desc := by
        rw [sim.desc, ← here, FileDesc.setCursor_self]
      have called : Step alone t (.call call) (alone.record t call answer desc') :=
        .call call (sim.query t) (same ▸ ran)
      refine ⟨_, sim.run.next ⟨t, call, called⟩, sim.query, ?_, rfl, ?_, fun _ => rfl⟩
      · simp only [record, sim.history, same]
      · intro u nowPos inside
        exact (quiet.2 answer desc' ran u nowPos inside).symm
  | @saveCursor nowPos desc' idle readable sought =>
      have here : s.desc.file.offset = alone.desc.file.offset := by
        by_cases moved : ∃ u nowPos len, s.query u = .moved nowPos len
        · obtain ⟨u, nowPos, len, moved⟩ := moved
          have inside : (s.query u).nowPos = some nowPos := by rw [moved]; rfl
          rw [quiet u nowPos len moved, sim.saved u nowPos inside]
        · exact sim.present fun u nowPos len found => moved ⟨u, nowPos, len, found⟩
      obtain ⟨value, rfl⟩ := FileDesc.seek_current sought
      refine ⟨alone, sim.run, sim.query, sim.history, sim.desc, ?_, fun _ => here⟩
      apply saved_update sim.saved
      intro nowPos' same
      cases same
      exact value.trans here
  | @moveToEnd nowPos len desc' saved sought =>
      have own : nowPos = alone.desc.file.offset := sim.saved t nowPos (by rw [saved]; rfl)
      refine ⟨alone, sim.run, sim.query, sim.history, ?_, ?_, ?_⟩
      · rw [sim.desc, setQuery, (FileDesc.seek_eq sought).1]
        rfl
      · apply saved_update sim.saved
        intro nowPos' same
        cases same
        exact own
      · intro none
        exact absurd (Function.update_self ..) (none t nowPos len)
  | @restore nowPos len pos desc' moved sought =>
      have own : nowPos = alone.desc.file.offset := sim.saved t nowPos (by rw [moved]; rfl)
      refine ⟨alone, sim.run, sim.query, sim.history, ?_, ?_, ?_⟩
      · rw [sim.desc, setQuery, (FileDesc.seek_eq sought).1]
        rfl
      · apply saved_update sim.saved
        intro nowPos' same
        cases same
      · intro _
        rw [setQuery, FileDesc.seek_start sought]
        exact own

/-- Every run without disturbance has a simulating run of the calls alone, by induction on
the run.
-/
theorem Undisturbed.simulated (run : Undisturbed desc s) : ∃ alone, Simulated desc s alone := by
  refine Transition.Reachable.invariant (fun s => ∃ alone, Simulated desc s alone) ?_ ?_ run
  · rintro _ rfl
    refine ⟨start desc, .start rfl, fun _ => rfl, rfl, rfl, ?_, fun _ => rfl⟩
    intro t nowPos found
    cases found
  · rintro s s' ⟨alone, sim⟩ ⟨t, move, step, quiet⟩
    exact step.simulated sim quiet

/-- In every run in which calls and queries do not disturb a query under way, the calls
explain the file and its cursor.
-/
theorem queries_keep_cursor (run : Undisturbed desc s) : s.Explained desc := by
  obtain ⟨alone, sim⟩ := run.simulated
  refine ⟨alone, sim.run, fun t => by rw [sim.history], ?_, ?_⟩
  · rw [sim.desc]
    rfl
  · intro idle
    have present := sim.present fun t nowPos len moved => by
      rw [idle t] at moved
      cases moved
    rw [sim.desc, ← present, FileDesc.setCursor_self]

/-- A readable file of one byte, at its beginning. -/
def oneByte : FileDesc FileNode where
  file := { canRead := true, canWrite := false, isAppend := false, offset := 0 }
  node := { content := [7] }
  readable := true
  writable := false

omit [DecidableEq Task] in
/-- A call disturbs nothing while no query is under way. -/
theorem undisturbing_call (idle : ∀ t, s.query t = .none) (call : Call)
    : s.Undisturbing (.call call) := by
  have outside : ∀ t nowPos, (s.query t).nowPos ≠ some nowPos := by
    intro t nowPos found
    rw [idle t] at found
    cases found
  exact ⟨fun t nowPos inside => absurd inside (outside t nowPos),
    fun _ _ _ t nowPos inside => absurd inside (outside t nowPos)⟩

/-- A run of the calls alone without a call. -/
theorem callsAlone_nil (run : CallsAlone desc s) (none : s.history = []) : s = start desc := by
  obtain ⟨_, rfl, run⟩ := run
  cases run with
  | refl => rfl
  | tail _ step =>
      obtain ⟨t, call, step⟩ := step
      cases step
      simp [record] at none

/-- A read between the moves of a query misses the byte, and no run of the read alone does. -/
theorem query_disturbs
    : ¬ ∀ s : SharedDesc Bool FileNode, Reachable oneByte s → s.Explained oneByte := by
  intro all
  have run : Reachable oneByte (start oneByte : SharedDesc Bool FileNode) := .start rfl
  have saved := run.next ⟨true, .saveCursor, .saveCursor rfl (.inl rfl)
    (FileDesc.seek_of_target 0 rfl (by decide +kernel))⟩
  have moved := saved.next ⟨true, .moveToEnd, .moveToEnd rfl
    (FileDesc.seek_of_target 1 rfl (by decide +kernel))⟩
  have read := moved.next ⟨false, .call (.read 1), .call (.read 1) rfl rfl⟩
  have restored := read.next ⟨true, .restore, .restore rfl
    (FileDesc.seek_of_target 0 rfl (by decide +kernel))⟩
  obtain ⟨alone, ⟨_, rfl, run⟩, calls, -⟩ := all _ restored
  have query : alone.history.filter (·.task = true) = [] := calls true
  have reads : alone.history.filter (·.task = false) = [⟨false, .read 1, 1, .data []⟩] :=
    calls false
  have every : alone.history.filter (·.task = false) = alone.history := by
    rw [List.filter_eq_self]
    intro event member
    simpa using List.filter_eq_nil_iff.mp query event member
  rw [every] at reads
  cases run with
  | refl => cases reads
  | @tail before _ run step =>
      obtain ⟨t, call, step⟩ := step
      cases step with
      | call _ idle ran =>
          have ends : before.history ++ [_] = [] ++ [_] := reads
          obtain ⟨first, event⟩ := List.append_inj' ends rfl
          obtain rfl := callsAlone_nil ⟨_, rfl, run⟩ first
          cases event

/-- A query that a read follows. -/
theorem query_keeps_cursor
    : ∃ s : SharedDesc Bool FileNode, s.history = [⟨false, .read 1, 0, .data [7]⟩]
      ∧ s.Explained oneByte := by
  have run : Undisturbed oneByte (start oneByte : SharedDesc Bool FileNode) := .start rfl
  have saved := run.next ⟨true, .saveCursor, .saveCursor rfl (.inl rfl)
    (FileDesc.seek_of_target 0 rfl (by decide +kernel)), fun _ _ _ h => by cases h⟩
  have moved := saved.next ⟨true, .moveToEnd, .moveToEnd rfl
    (FileDesc.seek_of_target 1 rfl (by decide +kernel)), trivial⟩
  have restored := moved.next ⟨true, .restore, .restore rfl
    (FileDesc.seek_of_target 0 rfl (by decide +kernel)), trivial⟩
  have read := restored.next ⟨false, .call (.read 1), .call (.read 1) rfl rfl,
    undisturbing_call (fun t => by cases t <;> rfl) _⟩
  exact ⟨_, rfl, queries_keep_cursor read⟩

end SharedDesc

end RCoreOS.LinuxSyscallApi
