import RCoreOS.Lib.Ring
import RCoreOS.Lib.Transition
import Mathlib.Logic.Function.Basic
import Mathlib.Data.List.Infix

/-! A pipe is a FIFO channel of bytes. Its ring buffer has one status byte that tells a full
ring from an empty one; a call moves as many bytes as the ring allows each time it gets the
lock of the buffer, and any number of tasks take turns at the lock.
-/

namespace RCoreOS.PosixApi

-----------------------------------------------------------------------------------------
-- The ring buffer
-----------------------------------------------------------------------------------------

inductive RingBufferStatus where
  | Full
  | Empty
  | Normal
deriving DecidableEq, Repr

def RING_BUFFER_SIZE : Nat :=
  256

instance : NeZero RING_BUFFER_SIZE :=
  ⟨by decide⟩

/-- `head` and `tail` are kept below the size by the remainder each update takes. -/
structure PipeRingBuffer where
  arr : Vector UInt8 RING_BUFFER_SIZE
  head : Fin RING_BUFFER_SIZE
  tail : Fin RING_BUFFER_SIZE
  status : RingBufferStatus

namespace PipeRingBuffer

def new : PipeRingBuffer where
  arr := Vector.replicate RING_BUFFER_SIZE 0
  head := 0
  tail := 0
  status := .Empty

def writeByte (ring : PipeRingBuffer) (byte : UInt8) : PipeRingBuffer :=
  let tail := Fin.ofNat RING_BUFFER_SIZE (ring.tail + 1)
  { ring with
    arr := ring.arr.set ring.tail byte
    tail
    status := if tail = ring.head then .Full else .Normal }

def readByte (ring : PipeRingBuffer) : UInt8 × PipeRingBuffer :=
  let head := Fin.ofNat RING_BUFFER_SIZE (ring.head + 1)
  (ring.arr.get ring.head,
    { ring with
      head
      status := if head = ring.tail then .Empty else .Normal })

/-- The number of bytes in the buffer. -/
def availableRead (ring : PipeRingBuffer) : Nat :=
  if ring.status = .Empty then 0
  else if ring.tail.val > ring.head.val then ring.tail.val - ring.head.val
  else ring.tail.val + RING_BUFFER_SIZE - ring.head.val

/-- The number of bytes that still fit. -/
def availableWrite (ring : PipeRingBuffer) : Nat :=
  if ring.status = .Full then 0 else RING_BUFFER_SIZE - ring.availableRead

/-- The buffer holds exactly these bytes, the next one to read first. -/
structure Holds (ring : PipeRingBuffer) (bytes : List UInt8) : Prop where
  bound : bytes.length ≤ RING_BUFFER_SIZE
  content : Ring.content ring.arr ring.head bytes.length = bytes
  tail : ring.tail = Ring.slot ring.head bytes.length
  empty : ring.status = .Empty ↔ bytes = []
  full : ring.status = .Full ↔ bytes.length = RING_BUFFER_SIZE

variable {ring : PipeRingBuffer} {bytes : List UInt8}

theorem new_holds : new.Holds [] where
  bound := Nat.zero_le _
  content := rfl
  tail := rfl
  empty := by simp [new]
  full := by simp [new, RING_BUFFER_SIZE]

/-- The status byte is rewritten to `Normal` unless the two ends meet. -/
theorem status_eq_iff {status : RingBufferStatus} (special : status ≠ .Normal) (p : Prop)
    [Decidable p]
    : (if p then status else .Normal) = status ↔ p := by
  by_cases holds : p
  · simp [holds]
  · simp [holds, special.symm]

/-- A byte written into a buffer with room is its last one. -/
theorem Holds.writeByte (holds : ring.Holds bytes) (room : bytes.length < RING_BUFFER_SIZE)
    (byte : UInt8)
    : (ring.writeByte byte).Holds (bytes ++ [byte]) := by
  have length : (bytes ++ [byte]).length = bytes.length + 1 := List.length_append
  have tail : (ring.writeByte byte).tail = Ring.slot ring.head (bytes.length + 1) := by
    rw [← Ring.slot_slot, ← holds.tail]
    rfl
  have around : (ring.writeByte byte).tail = ring.head
      ↔ bytes.length + 1 = RING_BUFFER_SIZE := by
    rw [tail, Ring.slot_eq_head room]
    simp
  constructor
  case bound => exact length ▸ room
  case content =>
    have pushed := Ring.content_push ring.arr holds.tail room byte
    rw [holds.content] at pushed
    rw [length]
    exact pushed
  case tail =>
    rw [length]
    exact tail
  case empty =>
    simp only [PipeRingBuffer.writeByte]
    split <;> simp
  case full =>
    rw [length, ← around]
    exact status_eq_iff (by decide) _

/-- Reading takes the first byte out. -/
theorem Holds.readByte {byte : UInt8} (holds : ring.Holds (byte :: bytes))
    : ring.readByte.1 = byte ∧ ring.readByte.2.Holds bytes := by
  have bound : bytes.length < RING_BUFFER_SIZE := holds.bound
  have content := holds.content
  rw [List.length_cons, Ring.content_pop, List.cons.injEq] at content
  have tail : ring.tail = Ring.slot (Ring.slot ring.head 1) bytes.length := by
    rw [holds.tail, Ring.slot_slot, Nat.add_comm 1, List.length_cons]
  have met : Ring.slot ring.head 1 = ring.tail ↔ bytes = [] := by
    rw [tail, eq_comm, Ring.slot_eq_head bound.le, List.length_eq_zero_iff]
    exact or_iff_left bound.ne
  refine ⟨content.1, bound.le, content.2, tail, ?_, ?_⟩
  · rw [← met]
    exact status_eq_iff (by decide) _
  · refine iff_of_false ?_ bound.ne
    simp only [PipeRingBuffer.readByte]
    split <;> simp

theorem Holds.availableRead (holds : ring.Holds bytes) : ring.availableRead = bytes.length := by
  unfold PipeRingBuffer.availableRead
  by_cases empty : bytes = []
  · rw [if_pos (holds.empty.mpr empty), empty, List.length_nil]
  · have some : 0 < bytes.length := List.length_pos_of_ne_nil empty
    rw [if_neg (empty ∘ holds.empty.mp)]
    exact Ring.distance holds.tail some holds.bound

theorem Holds.availableWrite (holds : ring.Holds bytes)
    : ring.availableWrite = RING_BUFFER_SIZE - bytes.length := by
  unfold PipeRingBuffer.availableWrite
  rw [holds.availableRead]
  split
  · rename_i full
    rw [holds.full.mp full, Nat.sub_self]
  · rfl

end PipeRingBuffer

-----------------------------------------------------------------------------------------
-- Calls on the two ends
-----------------------------------------------------------------------------------------

/-- The ring buffer with the history of the bytes that went through it. -/
structure Channel where
  ring : PipeRingBuffer
  /-- Bytes put in, in the order they were put in. -/
  bytesIn : List UInt8
  /-- Bytes taken out, in the order they were taken out. -/
  bytesOut : List UInt8

namespace Channel

def writeByte (c : Channel) (byte : UInt8) : Channel :=
  { c with
    ring := c.ring.writeByte byte
    bytesIn := c.bytesIn ++ [byte] }

def readByte (c : Channel) : UInt8 × Channel :=
  let (byte, ring) := c.ring.readByte
  (byte, { c with ring, bytesOut := c.bytesOut ++ [byte] })

/-- The `for` loop of `read` under one lock: the bytes stored in the caller's buffer so far
are `data`; the last component tells whether the call returns.
-/
def readLoop (maxLen : Nat) : Nat → Channel → List UInt8 → Channel × List UInt8 × Bool
  | 0, c, data => (c, data, false)
  | n + 1, c, data =>
      if data.length = maxLen then (c, data, true)
      else
        let (byte, c) := c.readByte
        readLoop maxLen n c (data ++ [byte])

/-- The `for` loop of `write` under one lock, from `writeSize` on. -/
def writeLoop (buf : List UInt8) : Nat → Channel → Nat → Channel × Nat × Bool
  | 0, c, writeSize => (c, writeSize, false)
  | n + 1, c, writeSize =>
      match buf[writeSize]? with
      -- `write_size == max_len`
      | none => (c, writeSize, true)
      | some byte => writeLoop buf n (c.writeByte byte) (writeSize + 1)

end Channel

/-- The two `Pipe` values of one pipe; `readable` is true of the first. -/
inductive End where
  | readEnd
  | writeEnd
deriving DecidableEq, Repr

def End.readable : End → Bool
  | .readEnd => true
  | .writeEnd => false

def End.writable (e : End) : Bool :=
  !e.readable

inductive LinuxError where
  | EPERM
deriving DecidableEq, Repr

/-- What a task does with the pipe between two turns at the lock. -/
inductive Call where
  | idle
  | reading (maxLen : Nat) (data : List UInt8)
  | writing (buf : List UInt8) (writeSize : Nat)
deriving DecidableEq, Repr

namespace Call

/-- The end a call works on; the caller keeps it alive. -/
def pipeEnd : Call → Option End
  | idle => none
  | reading .. => some .readEnd
  | writing .. => some .writeEnd

/-- The bytes an ongoing read has taken out. -/
def taken : Call → List UInt8
  | reading _ data => data
  | _ => []

/-- The bytes an ongoing write has put in. -/
def given : Call → List UInt8
  | writing buf writeSize => buf.take writeSize
  | _ => []

/-- A call keeps its end alive and has not moved more bytes than it was given. -/
def Sound (live : End → Bool) : Call → Prop
  | idle => True
  | reading .. => live .readEnd = true
  | writing buf writeSize => live .writeEnd = true ∧ writeSize ≤ buf.length

/-- An end that no call uses may be dropped. -/
theorem Sound.close {live : End → Bool} {call : Call} {e : End} (sound : call.Sound live)
    (unused : call.pipeEnd ≠ some e)
    : call.Sound (Function.update live e false) := by
  cases call with
  | idle => trivial
  | reading => cases e <;> simp_all [Sound, pipeEnd]
  | writing => cases e <;> simp_all [Sound, pipeEnd]

end Call

/-- One pipe, the calls of all tasks, and the history of completed calls. -/
structure Pipe (Task : Type) where
  channel : Channel
  /-- The ends that are not dropped; each holds one reference to the buffer. -/
  live : End → Bool
  call : Task → Call
  /-- The bytes each completed read returned. -/
  reads : List (List UInt8)
  /-- The bytes of each completed write. -/
  writes : List (List UInt8)

namespace Pipe

variable {Task : Type} [DecidableEq Task]

def new : Pipe Task where
  channel := ⟨.new, [], []⟩
  live := fun _ => true
  call := fun _ => .idle
  reads := []
  writes := []

/-- `Arc::strong_count(&self.buffer)`. -/
def strongCount (s : Pipe Task) : Nat :=
  (s.live .readEnd).toNat + (s.live .writeEnd).toNat

def writeEndClose (s : Pipe Task) : Bool :=
  s.strongCount = 1

def setCall (s : Pipe Task) (t : Task) (call : Call) : Pipe Task :=
  { s with call := Function.update s.call t call }

/-- The start of `read` on an end. -/
def read (s : Pipe Task) (e : End) (t : Task) (maxLen : Nat)
    : Except LinuxError (Pipe Task) :=
  if e.readable then .ok (s.setCall t (.reading maxLen [])) else .error .EPERM

/-- The start of `write` on an end. -/
def write (s : Pipe Task) (e : End) (t : Task) (buf : List UInt8)
    : Except LinuxError (Pipe Task) :=
  if e.writable then .ok (s.setCall t (.writing buf 0)) else .error .EPERM

def readReturns (s : Pipe Task) (t : Task) (data : List UInt8) : Pipe Task :=
  { s.setCall t .idle with reads := s.reads ++ [data] }

def writeReturns (s : Pipe Task) (t : Task) (buf : List UInt8) : Pipe Task :=
  { s.setCall t .idle with writes := s.writes ++ [buf] }

/-- One turn of the outer loop of `read`, under the lock of the buffer. -/
def readTurn (s : Pipe Task) (t : Task) (maxLen : Nat) (data : List UInt8) : Pipe Task :=
  let loopRead := s.channel.ring.availableRead
  if loopRead = 0 then
    if s.writeEndClose then s.readReturns t data else s
  else
    let (channel, data, returns) := s.channel.readLoop maxLen loopRead data
    let s := { s with channel }
    if returns then s.readReturns t data else s.setCall t (.reading maxLen data)

/-- One turn of the outer loop of `write`, under the lock of the buffer. -/
def writeTurn (s : Pipe Task) (t : Task) (buf : List UInt8) (writeSize : Nat) : Pipe Task :=
  let loopWrite := s.channel.ring.availableWrite
  if loopWrite = 0 then s
  else
    let (channel, writeSize, returns) := s.channel.writeLoop buf loopWrite writeSize
    let s := { s with channel }
    if returns then s.writeReturns t buf else s.setCall t (.writing buf writeSize)

/-- One end is dropped with its last reference. -/
def close (s : Pipe Task) (e : End) : Pipe Task :=
  { s with live := Function.update s.live e false }

/-- One step of one task: the start of a call, one turn at the lock, or the drop of an end
that no task uses. The tasks that may start calls are parameters.
-/
inductive Step (mayRead mayWrite : Task → Prop) (s : Pipe Task) : Pipe Task → Prop
  | read (e t maxLen) {s'}
    : mayRead t → s.live e = true → s.call t = .idle → s.read e t maxLen = .ok s'
      → Step mayRead mayWrite s s'
  | write (e t buf) {s'}
    : mayWrite t → s.live e = true → s.call t = .idle → s.write e t buf = .ok s'
      → Step mayRead mayWrite s s'
  | readTurn (t) {maxLen data}
    : s.call t = .reading maxLen data
      → Step mayRead mayWrite s (s.readTurn t maxLen data)
  | writeTurn (t) {buf writeSize}
    : s.call t = .writing buf writeSize
      → Step mayRead mayWrite s (s.writeTurn t buf writeSize)
  | close (e)
    : (∀ t, (s.call t).pipeEnd ≠ some e) → Step mayRead mayWrite s (s.close e)

/-- The states of any run of any number of tasks on one pipe. -/
abbrev Reachable (mayRead mayWrite : Task → Prop) (s : Pipe Task) : Prop :=
  Transition.Reachable (· = new) (Step mayRead mayWrite) s

end Pipe

-----------------------------------------------------------------------------------------
-- The loops under the lock
-----------------------------------------------------------------------------------------

namespace Channel

/-- The buffer holds the bytes that were put in and not yet taken out. -/
structure Fifo (c : Channel) (pending : List UInt8) : Prop where
  holds : c.ring.Holds pending
  order : c.bytesIn = c.bytesOut ++ pending

variable {c : Channel} {pending : List UInt8}

theorem Fifo.writeByte (fifo : c.Fifo pending) (room : pending.length < RING_BUFFER_SIZE)
    (byte : UInt8)
    : (c.writeByte byte).Fifo (pending ++ [byte]) where
  holds := fifo.holds.writeByte room byte
  order := by simp [Channel.writeByte, fifo.order]

theorem Fifo.readByte {byte : UInt8} (fifo : c.Fifo (byte :: pending))
    : c.readByte.1 = byte ∧ c.readByte.2.Fifo pending
      ∧ c.readByte.2.bytesOut = c.bytesOut ++ [byte] := by
  obtain ⟨first, rest⟩ := fifo.holds.readByte
  have out : c.readByte.2.bytesOut = c.bytesOut ++ [byte] :=
    congrArg (c.bytesOut ++ [·]) first
  refine ⟨first, ⟨rest, ?_⟩, out⟩
  rw [out, List.append_assoc]
  exact fifo.order

/-- The loop of `read` moves the first pending bytes to the caller and returns only with as
many as asked for, by induction on the turns.
-/
theorem Fifo.readLoop {n : Nat} (fifo : c.Fifo pending) (enough : n ≤ pending.length)
    (maxLen : Nat) (data : List UInt8)
    : ∃ moved rest, pending = moved ++ rest
      ∧ (c.readLoop maxLen n data).1.Fifo rest
      ∧ (c.readLoop maxLen n data).1.bytesIn = c.bytesIn
      ∧ (c.readLoop maxLen n data).1.bytesOut = c.bytesOut ++ moved
      ∧ (c.readLoop maxLen n data).2.1 = data ++ moved
      ∧ ((c.readLoop maxLen n data).2.2 = true → (data ++ moved).length = maxLen) := by
  induction n generalizing c pending data with
  | zero =>
      refine ⟨[], pending, rfl, fifo, rfl, ?_⟩
      simp [Channel.readLoop]
  | succ n ih =>
      unfold Channel.readLoop
      split
      · next all =>
          refine ⟨[], pending, rfl, fifo, rfl, ?_⟩
          simpa using all
      · obtain _ | ⟨byte, rest⟩ := pending
        · simp at enough
        · obtain ⟨first, next, out⟩ := fifo.readByte
          obtain ⟨moved, left, split, after, bytesIn, bytesOut, read, returned⟩ :=
            ih next (Nat.le_of_succ_le_succ enough) (data ++ [byte])
          have append : data ++ [byte] ++ moved = data ++ byte :: moved := by simp
          rw [append] at read returned
          rw [← first] at after bytesIn bytesOut read returned
          refine ⟨byte :: moved, left, congrArg (byte :: ·) split, after, bytesIn, ?_, ?_, ?_⟩
          · rw [bytesOut, out, List.append_assoc, List.singleton_append]
          · rw [read, first]
          · rw [← first]
            exact returned

/-- The loop of `write` moves the next bytes of the caller behind the pending ones and
returns only with all bytes moved, by induction on the turns.
-/
theorem Fifo.writeLoop {buf : List UInt8} {n writeSize : Nat} (fifo : c.Fifo pending)
    (room : pending.length + n ≤ RING_BUFFER_SIZE) (within : writeSize ≤ buf.length)
    : ∃ moved, (c.writeLoop buf n writeSize).1.Fifo (pending ++ moved)
      ∧ (c.writeLoop buf n writeSize).1.bytesIn = c.bytesIn ++ moved
      ∧ (c.writeLoop buf n writeSize).1.bytesOut = c.bytesOut
      ∧ buf.take (c.writeLoop buf n writeSize).2.1 = buf.take writeSize ++ moved
      ∧ (c.writeLoop buf n writeSize).2.1 ≤ buf.length
      ∧ ((c.writeLoop buf n writeSize).2.2 = true
        → (c.writeLoop buf n writeSize).2.1 = buf.length) := by
  induction n generalizing c pending writeSize with
  | zero =>
      refine ⟨[], ?_⟩
      simpa [Channel.writeLoop] using ⟨fifo, within⟩
  | succ n ih =>
      unfold Channel.writeLoop
      split
      · next none =>
          have all : buf.length ≤ writeSize := List.getElem?_eq_none_iff.mp none
          refine ⟨[], ?_⟩
          simpa using ⟨fifo, within, within.antisymm all⟩
      · next byte found =>
          obtain ⟨inside, value⟩ := List.getElem?_eq_some_iff.mp found
          have next : (c.writeByte byte).Fifo (pending ++ [byte]) :=
            fifo.writeByte (by omega) byte
          have left : (pending ++ [byte]).length + n ≤ RING_BUFFER_SIZE := by
            rw [List.length_append, List.length_singleton]
            omega
          obtain ⟨moved, after, bytesIn, bytesOut, written, bound, returned⟩ := ih next left inside
          refine ⟨byte :: moved, ?_, ?_, bytesOut, ?_, bound, returned⟩
          · simpa using after
          · simpa [Channel.writeByte] using bytesIn
          · rw [written, ← value, List.take_succ_eq_append_getElem inside, List.append_assoc,
              List.singleton_append]

end Channel

-----------------------------------------------------------------------------------------
-- Turns at the lock
-----------------------------------------------------------------------------------------

namespace Pipe

variable {Task : Type} [DecidableEq Task] {s s' : Pipe Task} {t : Task}

/-- A turn of a read takes the next pending bytes out and either goes on or returns all it
has taken out: as many as asked for, or what there was when the write end is closed.
-/
theorem readTurn_moves {pending data : List UInt8} {maxLen : Nat}
    (fifo : s.channel.Fifo pending) (calling : s.call t = .reading maxLen data)
    : ∃ moved rest, (s.readTurn t maxLen data).channel.Fifo rest
      ∧ (s.readTurn t maxLen data).channel.bytesIn = s.channel.bytesIn
      ∧ (s.readTurn t maxLen data).channel.bytesOut = s.channel.bytesOut ++ moved
      ∧ (s.readTurn t maxLen data).writes = s.writes
      ∧ (s.readTurn t maxLen data).live = s.live
      ∧ ((s.readTurn t maxLen data).call
            = Function.update s.call t (.reading maxLen (data ++ moved))
          ∧ (s.readTurn t maxLen data).reads = s.reads
        ∨ (s.readTurn t maxLen data).call = Function.update s.call t .idle
          ∧ (s.readTurn t maxLen data).reads = s.reads ++ [data ++ moved]
          ∧ ((data ++ moved).length = maxLen ∨ s.writeEndClose = true ∧ rest = [])) := by
  have same : s.call = Function.update s.call t (.reading maxLen data) := by
    rw [← calling, Function.update_eq_self]
  unfold Pipe.readTurn
  simp only [fifo.holds.availableRead]
  split
  · next none =>
      refine ⟨[], pending, ?_⟩
      split
      · next closed =>
          have empty := List.eq_nil_of_length_eq_zero none
          simpa [readReturns, setCall, closed] using ⟨fifo, .inr empty⟩
      · simpa [← same] using fifo
  · obtain ⟨moved, rest, -, after, bytesIn, bytesOut, read, returned⟩ :=
      fifo.readLoop le_rfl maxLen data
    refine ⟨moved, rest, ?_⟩
    split
    · next returns =>
        rw [read]
        exact ⟨after, bytesIn, bytesOut, rfl, rfl, .inr ⟨rfl, rfl, .inl (returned returns)⟩⟩
    · simp [setCall, after, bytesIn, bytesOut, read]

/-- A turn of a write puts the next bytes of the caller in and either goes on or returns
with all of them put in.
-/
theorem writeTurn_moves {pending buf : List UInt8} {writeSize : Nat}
    (fifo : s.channel.Fifo pending) (calling : s.call t = .writing buf writeSize)
    (within : writeSize ≤ buf.length)
    : ∃ moved size, (s.writeTurn t buf writeSize).channel.Fifo (pending ++ moved)
      ∧ (s.writeTurn t buf writeSize).channel.bytesIn = s.channel.bytesIn ++ moved
      ∧ (s.writeTurn t buf writeSize).channel.bytesOut = s.channel.bytesOut
      ∧ (s.writeTurn t buf writeSize).reads = s.reads
      ∧ (s.writeTurn t buf writeSize).live = s.live
      ∧ buf.take size = buf.take writeSize ++ moved
      ∧ size ≤ buf.length
      ∧ ((s.writeTurn t buf writeSize).call = Function.update s.call t (.writing buf size)
          ∧ (s.writeTurn t buf writeSize).writes = s.writes
        ∨ (s.writeTurn t buf writeSize).call = Function.update s.call t .idle
          ∧ (s.writeTurn t buf writeSize).writes = s.writes ++ [buf]
          ∧ size = buf.length) := by
  have same : s.call = Function.update s.call t (.writing buf writeSize) := by
    rw [← calling, Function.update_eq_self]
  have bound := fifo.holds.bound
  unfold Pipe.writeTurn
  simp only [fifo.holds.availableWrite]
  split
  · refine ⟨[], writeSize, ?_⟩
    simpa [← same] using ⟨fifo, within⟩
  · have room : pending.length + (RING_BUFFER_SIZE - pending.length) ≤ RING_BUFFER_SIZE := by
      omega
    obtain ⟨moved, after, bytesIn, bytesOut, written, bound, returned⟩ :=
      fifo.writeLoop room within
    split
    · next returns =>
        exact ⟨moved, _, after, bytesIn, bytesOut, rfl, rfl, written, bound,
          .inr ⟨rfl, rfl, returned returns⟩⟩
    · exact ⟨moved, _, after, bytesIn, bytesOut, rfl, rfl, written, bound, .inl ⟨rfl, rfl⟩⟩

-----------------------------------------------------------------------------------------
-- Every run
-----------------------------------------------------------------------------------------

/-- The channel is a queue, and every call is sound. -/
structure Ordered (s : Pipe Task) : Prop where
  fifo : ∃ pending, s.channel.Fifo pending
  calls : ∀ t, (s.call t).Sound s.live

/-- Only `r` reads; what it has read is what was taken out. -/
structure SoleReader (r : Task) (s : Pipe Task) : Prop where
  sole : ∀ t, (s.call t).pipeEnd = some .readEnd → t = r
  taken : s.reads.flatten ++ (s.call r).taken = s.channel.bytesOut

/-- Only `w` writes; what it has written is what was put in. -/
structure SoleWriter (w : Task) (s : Pipe Task) : Prop where
  sole : ∀ t, (s.call t).pipeEnd = some .writeEnd → t = w
  given : s.writes.flatten ++ (s.call w).given = s.channel.bytesIn

variable {mayRead mayWrite : Task → Prop}

omit [DecidableEq Task] in
theorem new_ordered : (new : Pipe Task).Ordered where
  fifo := ⟨[], PipeRingBuffer.new_holds, rfl⟩
  calls := fun _ => trivial

/-- What holds of every call still does when one task changes its call to such a one. -/
theorem calls_update (P : Task → Call → Prop) {call : Call} (all : ∀ u, P u (s.call u))
    (calls : s'.call = Function.update s.call t call) (changed : P t call)
    : ∀ u, P u (s'.call u) := by
  intro u
  rw [calls, Function.update_apply]
  split
  · next same => exact same ▸ changed
  · exact all u

theorem Step.ordered (ordered : s.Ordered) (step : Step mayRead mayWrite s s')
    : s'.Ordered := by
  cases step with
  | @read e t maxLen _ _ live _ started =>
      cases e with
      | readEnd =>
          cases started
          exact ⟨ordered.fifo, calls_update (fun _ => Call.Sound s.live) ordered.calls rfl live⟩
      | writeEnd => cases started
  | @write e t buf _ _ live _ started =>
      cases e with
      | readEnd => cases started
      | writeEnd =>
          cases started
          exact ⟨ordered.fifo,
            calls_update (fun _ => Call.Sound s.live) ordered.calls rfl ⟨live, Nat.zero_le _⟩⟩
  | @readTurn t maxLen data calling =>
      obtain ⟨pending, fifo⟩ := ordered.fifo
      have sound : (Call.reading maxLen data).Sound s.live := calling ▸ ordered.calls t
      obtain ⟨moved, rest, after, -, -, -, live, ⟨calls, -⟩ | ⟨calls, -⟩⟩ :=
        readTurn_moves fifo calling
      · exact ⟨⟨rest, after⟩,
          live ▸ calls_update (fun _ => Call.Sound s.live) ordered.calls calls sound⟩
      · exact ⟨⟨rest, after⟩,
          live ▸ calls_update (fun _ => Call.Sound s.live) ordered.calls calls trivial⟩
  | @writeTurn t buf writeSize calling =>
      obtain ⟨pending, fifo⟩ := ordered.fifo
      have sound : (Call.writing buf writeSize).Sound s.live := calling ▸ ordered.calls t
      obtain ⟨moved, size, after, -, -, -, live, -, bound, ⟨calls, -⟩ | ⟨calls, -⟩⟩ :=
        writeTurn_moves fifo calling sound.2
      · exact ⟨⟨_, after⟩,
          live ▸ calls_update (fun _ => Call.Sound s.live) ordered.calls calls ⟨sound.1, bound⟩⟩
      · exact ⟨⟨_, after⟩,
          live ▸ calls_update (fun _ => Call.Sound s.live) ordered.calls calls trivial⟩
  | @close e unused => exact ⟨ordered.fifo, fun t => (ordered.calls t).close (unused t)⟩

/-- A task whose call changes leaves what is common to its old and its new call. -/
theorem call_same {α : Type} (f : Call → α) {call : Call} (u : Task)
    (calls : s'.call = Function.update s.call t call) (same : f call = f (s.call t))
    : f (s'.call u) = f (s.call u) := by
  rw [calls, Function.update_apply]
  split
  · next here => rw [same, here]
  · rfl

/-- The only reader has read what was taken out. -/
theorem Step.soleReader {r : Task} (only : ∀ t, mayRead t → t = r) (ordered : s.Ordered)
    (reader : s.SoleReader r) (step : Step mayRead mayWrite s s')
    : s'.SoleReader r := by
  let Mine (u : Task) (call : Call) : Prop := call.pipeEnd = some .readEnd → u = r
  cases step with
  | @read e t maxLen _ may _ idle started =>
      cases only t may
      cases e with
      | readEnd =>
          cases started
          refine ⟨calls_update Mine reader.sole rfl fun _ => rfl, ?_⟩
          rw [call_same Call.taken r rfl (by rw [idle]; rfl)]
          exact reader.taken
      | writeEnd => cases started
  | @write e t buf _ _ _ idle started =>
      cases e with
      | readEnd => cases started
      | writeEnd =>
          cases started
          refine ⟨calls_update Mine reader.sole rfl (by simp [Mine, Call.pipeEnd]), ?_⟩
          rw [call_same Call.taken r rfl (by rw [idle]; rfl)]
          exact reader.taken
  | @readTurn t maxLen data calling =>
      obtain ⟨pending, fifo⟩ := ordered.fifo
      obtain rfl : t = r := reader.sole t (by rw [calling]; rfl)
      have before := reader.taken
      rw [calling] at before
      obtain ⟨moved, rest, -, -, out, -, -, ⟨calls, reads⟩ | ⟨calls, reads, -⟩⟩ :=
        readTurn_moves fifo calling
      · refine ⟨calls_update Mine reader.sole calls fun _ => rfl, ?_⟩
        rw [reads, out, ← before, calls, Function.update_self]
        simp [Call.taken]
      · refine ⟨calls_update Mine reader.sole calls fun _ => rfl, ?_⟩
        rw [reads, out, ← before, calls, Function.update_self]
        simp [Call.taken]
  | @writeTurn t buf writeSize calling =>
      obtain ⟨pending, fifo⟩ := ordered.fifo
      have sound : (Call.writing buf writeSize).Sound s.live := calling ▸ ordered.calls t
      obtain ⟨moved, size, -, -, out, reads, -, -, -, ⟨calls, -⟩ | ⟨calls, -⟩⟩ :=
        writeTurn_moves fifo calling sound.2
      · refine ⟨calls_update Mine reader.sole calls (by simp [Mine, Call.pipeEnd]), ?_⟩
        rw [reads, out, call_same Call.taken r calls (by rw [calling]; rfl)]
        exact reader.taken
      · refine ⟨calls_update Mine reader.sole calls (by simp [Mine, Call.pipeEnd]), ?_⟩
        rw [reads, out, call_same Call.taken r calls (by rw [calling]; rfl)]
        exact reader.taken
  | @close e unused => exact ⟨reader.sole, reader.taken⟩

/-- The only writer has written what was put in. -/
theorem Step.soleWriter {w : Task} (only : ∀ t, mayWrite t → t = w) (ordered : s.Ordered)
    (writer : s.SoleWriter w) (step : Step mayRead mayWrite s s')
    : s'.SoleWriter w := by
  let Mine (u : Task) (call : Call) : Prop := call.pipeEnd = some .writeEnd → u = w
  cases step with
  | @read e t maxLen _ _ _ idle started =>
      cases e with
      | readEnd =>
          cases started
          refine ⟨calls_update Mine writer.sole rfl (by simp [Mine, Call.pipeEnd]), ?_⟩
          rw [call_same Call.given w rfl (by rw [idle]; rfl)]
          exact writer.given
      | writeEnd => cases started
  | @write e t buf _ may _ idle started =>
      cases only t may
      cases e with
      | readEnd => cases started
      | writeEnd =>
          cases started
          refine ⟨calls_update Mine writer.sole rfl fun _ => rfl, ?_⟩
          rw [call_same Call.given w rfl (by rw [idle]; simp [Call.given])]
          exact writer.given
  | @readTurn t maxLen data calling =>
      obtain ⟨pending, fifo⟩ := ordered.fifo
      obtain ⟨moved, rest, -, bytesIn, -, writes, -, ⟨calls, -⟩ | ⟨calls, -⟩⟩ :=
        readTurn_moves fifo calling
      · refine ⟨calls_update Mine writer.sole calls (by simp [Mine, Call.pipeEnd]), ?_⟩
        rw [writes, bytesIn, call_same Call.given w calls (by rw [calling]; rfl)]
        exact writer.given
      · refine ⟨calls_update Mine writer.sole calls (by simp [Mine, Call.pipeEnd]), ?_⟩
        rw [writes, bytesIn, call_same Call.given w calls (by rw [calling]; rfl)]
        exact writer.given
  | @writeTurn t buf writeSize calling =>
      obtain ⟨pending, fifo⟩ := ordered.fifo
      have sound : (Call.writing buf writeSize).Sound s.live := calling ▸ ordered.calls t
      obtain rfl : t = w := writer.sole t (by rw [calling]; rfl)
      have before := writer.given
      rw [calling] at before
      obtain ⟨moved, size, -, bytesIn, -, -, -, written, -,
          ⟨calls, writes⟩ | ⟨calls, writes, all⟩⟩ := writeTurn_moves fifo calling sound.2
      · refine ⟨calls_update Mine writer.sole calls fun _ => rfl, ?_⟩
        rw [writes, bytesIn, ← before, calls, Function.update_self]
        simp [Call.given, written]
      · refine ⟨calls_update Mine writer.sole calls fun _ => rfl, ?_⟩
        rw [all, List.take_length] at written
        rw [writes, bytesIn, ← before, calls, Function.update_self]
        simp only [Call.given, List.append_assoc, ← written]
        simp
  | @close e unused => exact ⟨writer.sole, writer.given⟩

theorem Reachable.ordered (reachable : Reachable mayRead mayWrite s) : s.Ordered :=
  reachable.invariant Ordered (fun _ initial => initial ▸ new_ordered)
    fun _ _ ordered step => step.ordered ordered

theorem Reachable.soleReader {r : Task} (only : ∀ t, mayRead t → t = r)
    (reachable : Reachable mayRead mayWrite s)
    : s.SoleReader r := by
  refine (reachable.invariant (fun s => s.Ordered ∧ s.SoleReader r) ?_ ?_).2
  · rintro _ rfl
    refine ⟨new_ordered, ?_, rfl⟩
    simp [new, Call.pipeEnd]
  · intro _ _ ⟨ordered, reader⟩ step
    exact ⟨step.ordered ordered, step.soleReader only ordered reader⟩

theorem Reachable.soleWriter {w : Task} (only : ∀ t, mayWrite t → t = w)
    (reachable : Reachable mayRead mayWrite s)
    : s.SoleWriter w := by
  refine (reachable.invariant (fun s => s.Ordered ∧ s.SoleWriter w) ?_ ?_).2
  · rintro _ rfl
    refine ⟨new_ordered, ?_, rfl⟩
    simp [new, Call.pipeEnd]
  · intro _ _ ⟨ordered, writer⟩ step
    exact ⟨step.ordered ordered, step.soleWriter only ordered writer⟩

/-- The bytes taken out are a prefix of the bytes put in and the ring buffer holds the
difference. With one reader and one writer, each completed read returned the bytes that
follow those of the reads before it.
-/
theorem fifo (reachable : Reachable mayRead mayWrite s)
    : s.channel.bytesOut <+: s.channel.bytesIn
      ∧ s.channel.ring.Holds (s.channel.bytesIn.drop s.channel.bytesOut.length)
      ∧ s.channel.ring.availableRead + s.channel.bytesOut.length = s.channel.bytesIn.length
      ∧ s.channel.ring.availableRead + s.channel.ring.availableWrite = RING_BUFFER_SIZE
      ∧ ∀ r w, (∀ t, mayRead t → t = r) → (∀ t, mayWrite t → t = w) →
          ∀ earlier data later, s.reads = earlier ++ data :: later →
            earlier.flatten ++ data <+: s.writes.flatten ++ (s.call w).given := by
  obtain ⟨pending, holds, order⟩ := reachable.ordered.fifo
  have contents : s.channel.bytesIn.drop s.channel.bytesOut.length = pending := by
    rw [order, List.drop_left]
  have bound := holds.bound
  refine ⟨⟨pending, order.symm⟩, contents ▸ holds, ?_, ?_, ?_⟩
  · rw [holds.availableRead, order, List.length_append, Nat.add_comm]
  · rw [holds.availableRead, holds.availableWrite]
    omega
  · intro r w onlyRead onlyWrite earlier data later reads
    have taken := (reachable.soleReader onlyRead).taken
    rw [reads] at taken
    rw [(reachable.soleWriter onlyWrite).given, order, ← taken]
    refine ⟨later.flatten ++ (s.call r).taken ++ pending, ?_⟩
    simp

/-- One task writes three bytes and reads two of them back. -/
theorem fifo_two_of_three
    : ∃ s : Pipe Unit, Reachable (fun _ => True) (fun _ => True) s ∧ s.reads = [[1, 2]]
      ∧ [1, 2] <+: s.writes.flatten ++ (s.call ()).given := by
  have start : Reachable (fun _ => True) (fun _ => True) (new : Pipe Unit) := .start rfl
  have writing := start.next (.write .writeEnd () [1, 2, 3] trivial rfl rfl rfl)
  have wrote := writing.next (.writeTurn () rfl)
  have reading := wrote.next (.read .readEnd () 2 trivial rfl (by decide +kernel) rfl)
  have read := reading.next (.readTurn () rfl)
  obtain ⟨-, -, -, -, sole⟩ := fifo read
  exact ⟨_, read, by decide +kernel,
    sole () () (fun _ _ => rfl) (fun _ _ => rfl) [] [1, 2] [] (by decide +kernel)⟩

/-- A read that returns fewer bytes than asked for has met the end of the stream: the write
end is closed and all bytes were taken out.
-/
theorem readTurn_short {maxLen : Nat} {data result : List UInt8}
    (reachable : Reachable mayRead mayWrite s) (calling : s.call t = .reading maxLen data)
    (returned : (s.readTurn t maxLen data).reads = s.reads ++ [result])
    (short : result.length ≠ maxLen)
    : s.live .writeEnd = false
      ∧ (s.readTurn t maxLen data).channel.bytesOut
        = (s.readTurn t maxLen data).channel.bytesIn := by
  obtain ⟨pending, fifo⟩ := reachable.ordered.fifo
  have reading : (Call.reading maxLen data).Sound s.live :=
    calling ▸ reachable.ordered.calls t
  obtain ⟨moved, rest, after, -, -, -, -, ⟨-, reads⟩ | ⟨-, reads, ends⟩⟩ :=
    readTurn_moves fifo calling
  · rw [reads] at returned
    simp at returned
  · rw [reads, List.append_cancel_left_eq, List.singleton_inj] at returned
    obtain full | ⟨closed, rfl⟩ := ends
    · exact absurd (returned ▸ full) short
    · rw [after.order, List.append_nil]
      have alone : s.strongCount = 1 := of_decide_eq_true closed
      have live : s.live .readEnd = true := reading
      rw [strongCount, live] at alone
      refine ⟨?_, rfl⟩
      cases ended : s.live .writeEnd with
      | false => rfl
      | true => simp [ended] at alone

end Pipe

end RCoreOS.PosixApi
