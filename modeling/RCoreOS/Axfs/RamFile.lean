import RCoreOS.Axfs.File
import RCoreOS.Lib.FilledArray

/-! The file node of the RAM file system as a byte array: its operations with the machine
arithmetic and the slice bounds of the source, over every sequence of calls.
-/

namespace RCoreOS.Axfs

open FilledArray

-----------------------------------------------------------------------------------------
-- Lengths and slices
-----------------------------------------------------------------------------------------

/-- A slice, which has at most `isize::MAX` bytes. -/
structure Slice where
  bytes : List UInt8
  sized : bytes.length < 2 ^ 63

/-- The memory a file may take, of which a vector uses at most `isize::MAX` bytes. -/
structure Memory where
  bytes : Nat
  sized : bytes < 2 ^ 63

/-- The build profile, which decides what an addition that overflows does. -/
inductive Build where
  | debug
  | release
deriving DecidableEq, Repr

/-- `a + b` of `usize`. -/
def Build.add (build : Build) (a b : Nat) : Option Nat :=
  match build with
  | .debug => if a + b < 2 ^ 64 then some (a + b) else none
  | .release => some ((a + b) % 2 ^ 64)

theorem Build.add_fits (build : Build) {a b : Nat} (fits : a + b < 2 ^ 64)
    : build.add a b = some (a + b) := by
  cases build with
  | debug => exact if_pos fits
  | release => exact congrArg some (Nat.mod_eq_of_lt fits)

/-- `&content[start..stop]`, which panics when the bounds are not in order. -/
def slice (content : List UInt8) (start stop : Nat) : Option (List UInt8) :=
  if start ≤ stop ∧ stop ≤ content.length then some (content.window start (stop - start))
  else none

theorem slice_eq {content : List UInt8} {start stop : Nat} (ordered : start ≤ stop)
    (inside : stop ≤ content.length)
    : slice content start stop = some (content.window start (stop - start)) :=
  if_pos ⟨ordered, inside⟩

theorem slice_front {content : List UInt8} {stop : Nat} (inside : stop ≤ content.length)
    : slice content 0 stop = some (content.take stop) := by
  rw [slice_eq (Nat.zero_le _) inside, List.window, List.drop_zero, Nat.sub_zero]

namespace FileNode

/-- `content.resize(size, 0)` for a size that is not below the length. -/
def grow (mem : Memory) (node : FileNode) (size : Nat) : Option (List UInt8) :=
  if size ≤ mem.bytes then some (node.resize size) else none

def truncate (mem : Memory) (node : FileNode) (size : UInt64) : Option FileNode := do
  let content ←
    if size.toNat < node.content.length then some (node.content.take size.toNat)
    else node.grow mem size.toNat
  return { content }

/-- `read_at`, with the buffer it leaves. -/
def readInto (build : Build) (node : FileNode) (offset : UInt64) (buf : Slice)
    : Option (Nat × List UInt8) := do
  let start := min node.content.length offset.toNat
  let sum ← build.add offset.toNat buf.bytes.length
  let stop := min node.content.length sum
  let src ← slice node.content start stop
  let _ ← slice buf.bytes 0 src.length
  return (src.length, buf.bytes.patch 0 src)

/-- The first part of `write_at`: the content reaches at least to the end of the write. -/
def extend (mem : Memory) (node : FileNode) (sum : Nat) : Option (List UInt8) :=
  if sum > node.content.length then node.grow mem sum else some node.content

/-- `write_at`. The source adds the offset and the length at each of its three uses. -/
def writeFrom (build : Build) (mem : Memory) (node : FileNode) (offset : UInt64) (buf : Slice)
    : Option (Nat × FileNode) := do
  let sum ← build.add offset.toNat buf.bytes.length
  let content ← node.extend mem sum
  let dst ← slice content offset.toNat sum
  let src ← slice buf.bytes 0 dst.length
  return (buf.bytes.length, { content := content.patch offset.toNat src })

end FileNode

-----------------------------------------------------------------------------------------
-- Sequences of calls
-----------------------------------------------------------------------------------------

inductive Call where
  | truncate (size : UInt64)
  | readAt (offset : UInt64) (buf : Slice)
  | writeAt (offset : UInt64) (buf : Slice)

/-- What a call returns, and the buffer after a read. -/
inductive Answer where
  | truncated
  | read (len : Nat) (buf : List UInt8)
  | written (len : Nat)
deriving DecidableEq, Repr

namespace FileNode

def call (build : Build) (mem : Memory) (node : FileNode) : Call → Option (Answer × FileNode)
  | .truncate size => do
      let node ← node.truncate mem size
      return (.truncated, node)
  | .readAt offset buf => do
      let (len, left) ← node.readInto build offset buf
      return (.read len left, node)
  | .writeAt offset buf => do
      let (len, node) ← node.writeFrom build mem offset buf
      return (.written len, node)

/-- The calls one after the other; `none` is a panic. -/
def calls (build : Build) (mem : Memory) : FileNode → List Call → Option (List Answer × FileNode)
  | node, [] => some ([], node)
  | node, call :: rest => do
      let (answer, node) ← node.call build mem call
      let (answers, node) ← node.calls build mem rest
      return (answer :: answers, node)

end FileNode

-----------------------------------------------------------------------------------------
-- The zero-extended byte array
-----------------------------------------------------------------------------------------

/-- A byte array that is filled up with zeros. -/
abbrev ByteFile : Type :=
  FilledArray UInt8 0

namespace ByteFile

/-- The existing bytes go to the front of the buffer, and their number is returned. -/
def call (file : ByteFile) : Call → Answer × ByteFile
  | .truncate size => (.truncated, file.truncate size.toNat)
  | .readAt offset buf =>
      let bytes := file.read offset.toNat buf.bytes.length
      (.read bytes.length (bytes ++ buf.bytes.drop bytes.length), file)
  | .writeAt offset buf => (.written buf.bytes.length, file.write offset.toNat buf.bytes)

def calls : ByteFile → List Call → List Answer × ByteFile
  | file, [] => ([], file)
  | file, call :: rest =>
      let (answer, file) := ByteFile.call file call
      let (answers, file) := ByteFile.calls file rest
      (answer :: answers, file)

end ByteFile

theorem ByteFile.calls_cons (file : ByteFile) (call : Call) (rest : List Call)
    : file.calls (call :: rest)
      = ((file.call call).1 :: ((file.call call).2.calls rest).1,
          ((file.call call).2.calls rest).2) :=
  rfl

/-- Writes and truncations stay within the available memory. -/
def Call.Bounded (mem : Memory) : Call → Prop
  | .truncate size => size.toNat ≤ mem.bytes
  | .readAt _ _ => True
  | .writeAt offset buf => offset.toNat + buf.bytes.length ≤ mem.bytes

/-- The end of a read does not overflow, or wraps to the end of the file or behind it. -/
def Call.ReadFits (build : Build) (size : Nat) : Call → Prop
  | .readAt offset buf =>
      offset.toNat + buf.bytes.length < 2 ^ 64
        ∨ build = .release ∧ size + 2 ^ 64 ≤ offset.toNat + buf.bytes.length
  | _ => True

/-- Every read of the sequence fits the file that it reads. -/
def ReadsFit (build : Build) : ByteFile → List Call → Prop
  | _, [] => True
  | file, call :: rest =>
      call.ReadFits build file.size ∧ ReadsFit build (ByteFile.call file call).2 rest

-----------------------------------------------------------------------------------------
-- One call
-----------------------------------------------------------------------------------------

/-- What the node holds. -/
def FileNode.bytes (node : FileNode) : ByteFile :=
  ofList node.content

namespace FileNode

variable {build : Build} {mem : Memory} {node : FileNode} {offset : UInt64} {buf : Slice}

@[simp]
theorem bytes_size (node : FileNode) : node.bytes.size = node.content.length :=
  rfl

theorem truncate_eq {size : UInt64} (within : size.toNat ≤ mem.bytes)
    : ∃ node', node.truncate mem size = some node'
        ∧ node'.bytes = node.bytes.truncate size.toNat := by
  by_cases shrinks : size.toNat < node.content.length
  · refine ⟨{ content := node.content.take size.toNat }, ?_, ofList_take (by omega)⟩
    simp only [truncate, if_pos shrinks, Option.bind_eq_bind, Option.bind_some, pure]
  · refine ⟨{ content := node.resize size.toNat }, ?_, ofList_fillUp (by omega)⟩
    simp only [truncate, if_neg shrinks, grow, if_pos within, Option.bind_eq_bind,
      Option.bind_some, pure]

/-- A read whose end lies where it should, from the content before the end. -/
theorem readInto_stop {sum : Nat} (added : build.add offset.toNat buf.bytes.length = some sum)
    (ordered : min node.content.length offset.toNat ≤ min node.content.length sum)
    (short : min node.content.length sum - min node.content.length offset.toNat
      ≤ buf.bytes.length)
    : node.readInto build offset buf
      = let src := node.content.window (min node.content.length offset.toNat)
          (min node.content.length sum - min node.content.length offset.toNat)
        some (src.length, src ++ buf.bytes.drop src.length) := by
  have length : (node.content.window (min node.content.length offset.toNat)
      (min node.content.length sum - min node.content.length offset.toNat)).length
      = min node.content.length sum - min node.content.length offset.toNat :=
    List.length_window (by omega)
  simp only [readInto, added, Option.bind_eq_bind, Option.bind_some,
    slice_eq ordered (Nat.min_le_left _ _), slice_front (length.trans_le short), pure,
    List.patch, List.take_zero, List.nil_append, Nat.zero_add]

/-- The bytes before the end of a read are those the array gives. -/
theorem window_eq_read (node : FileNode) (offset len : Nat)
    : node.content.window (min node.content.length offset)
          (min node.content.length (offset + len) - min node.content.length offset)
        = node.bytes.read offset len := by
  rw [bytes, ofList_read]
  by_cases inside : offset ≤ node.content.length
  · rw [Nat.min_eq_right inside]
  · have none_left : min node.content.length (offset + len) - offset = 0 := by omega
    have none_left' : min node.content.length (offset + len)
        - min node.content.length offset = 0 := by omega
    rw [none_left, none_left', List.window_zero, List.window_zero]

theorem readInto_eq (fits : (Call.readAt offset buf).ReadFits build node.content.length)
    : node.readInto build offset buf
      = let bytes := node.bytes.read offset.toNat buf.bytes.length
        some (bytes.length, bytes ++ buf.bytes.drop bytes.length) := by
  rcases fits with fits | ⟨release, behind⟩
  · rw [readInto_stop (build.add_fits fits) (by omega) (by omega), window_eq_read]
  · have below := offset.toNat_lt
    have sized := buf.sized
    have wrapped : build.add offset.toNat buf.bytes.length
        = some (offset.toNat + buf.bytes.length - 2 ^ 64) := by
      rw [release, Build.add, Nat.mod_eq_sub_mod (by omega), Nat.mod_eq_of_lt (by omega)]
    -- both ends lie at the end of the content, so that nothing is read
    have empty : min node.content.length (offset.toNat + buf.bytes.length - 2 ^ 64)
        - min node.content.length offset.toNat = 0 := by omega
    have empty' : node.bytes.read offset.toNat buf.bytes.length = [] := by
      apply List.eq_nil_of_length_eq_zero
      rw [length_read, bytes_size]
      omega
    rw [readInto_stop wrapped (by omega) (by omega), empty, empty', List.window_zero]

/-- A read whose end wraps to a place before the end of the file panics. -/
theorem readInto_panics (within : node.content.length ≤ mem.bytes)
    (unfit : ¬ (Call.readAt offset buf).ReadFits build node.content.length)
    : node.readInto build offset buf = none := by
  have below := offset.toNat_lt
  have sized := buf.sized
  have small := mem.sized
  simp only [Call.ReadFits, not_or, not_and] at unfit
  cases build with
  | debug => simp only [readInto, Build.add, if_neg unfit.1, Option.bind_eq_bind, Option.bind_none]
  | release =>
      have before := unfit.2 rfl
      have wrapped : Build.release.add offset.toNat buf.bytes.length
          = some (offset.toNat + buf.bytes.length - 2 ^ 64) := by
        rw [Build.add, Nat.mod_eq_sub_mod (by omega), Nat.mod_eq_of_lt (by omega)]
      have disordered : slice node.content (min node.content.length offset.toNat)
          (min node.content.length (offset.toNat + buf.bytes.length - 2 ^ 64)) = none :=
        if_neg (by omega)
      simp only [readInto, wrapped, disordered, Option.bind_eq_bind, Option.bind_some,
        Option.bind_none]

theorem extend_eq {sum : Nat} (within : sum ≤ mem.bytes)
    : node.extend mem sum = some (node.resize sum) := by
  unfold extend
  split
  · exact if_pos within
  · rename_i inside
    rw [resize, Nat.sub_eq_zero_of_le (by omega), List.replicate_zero, List.append_nil]

theorem writeFrom_eq (within : offset.toNat + buf.bytes.length ≤ mem.bytes)
    : ∃ node', node.writeFrom build mem offset buf = some (buf.bytes.length, node')
        ∧ node'.bytes = node.bytes.write offset.toNat buf.bytes := by
  have small := mem.sized
  have fits : offset.toNat + buf.bytes.length < 2 ^ 64 := by omega
  have far : offset.toNat + buf.bytes.length
      ≤ (node.resize (offset.toNat + buf.bytes.length)).length := by
    rw [resize, List.length_append, List.length_replicate]
    omega
  have dst : ((node.resize (offset.toNat + buf.bytes.length)).window offset.toNat
      (offset.toNat + buf.bytes.length - offset.toNat)).length = buf.bytes.length := by
    rw [List.length_window (by omega), Nat.add_sub_cancel_left]
  refine ⟨{ content :=
    (node.resize (offset.toNat + buf.bytes.length)).patch offset.toNat buf.bytes },
    ?_, ofList_patch⟩
  simp only [writeFrom, build.add_fits fits, extend_eq within, dst,
    slice_eq (Nat.le_add_right _ _) far, slice_front (Nat.le_refl _), List.take_length,
    Option.bind_eq_bind, Option.bind_some, pure]

/-- A call whose read fits does what it does on the byte array. -/
theorem call_eq {call : Call} (bounded : call.Bounded mem)
    (fits : call.ReadFits build node.content.length)
    : ∃ node', node.call build mem call = some ((ByteFile.call node.bytes call).1, node')
        ∧ node'.bytes = (ByteFile.call node.bytes call).2 := by
  cases call with
  | truncate size =>
      obtain ⟨node', run, same⟩ := @truncate_eq mem node size bounded
      refine ⟨node', ?_, same⟩
      simp only [FileNode.call, run, Option.bind_eq_bind, Option.bind_some, pure, ByteFile.call]
  | readAt offset buf =>
      refine ⟨node, ?_, rfl⟩
      simp only [FileNode.call, readInto_eq fits, Option.bind_eq_bind, Option.bind_some, pure,
        ByteFile.call]
  | writeAt offset buf =>
      obtain ⟨node', run, same⟩ := @writeFrom_eq build mem node offset buf bounded
      refine ⟨node', ?_, same⟩
      simp only [FileNode.call, run, Option.bind_eq_bind, Option.bind_some, pure, ByteFile.call]

theorem call_panics {call : Call} (within : node.content.length ≤ mem.bytes)
    (unfit : ¬ call.ReadFits build node.content.length)
    : node.call build mem call = none := by
  cases call with
  | readAt offset buf =>
      simp only [FileNode.call, readInto_panics within unfit, Option.bind_eq_bind,
        Option.bind_none]
  | _ => exact absurd trivial unfit

end FileNode

/-- The file stays within the available memory. -/
theorem ByteFile.call_within {mem : Memory} {file : ByteFile} {call : Call}
    (within : file.size ≤ mem.bytes) (bounded : call.Bounded mem)
    : (ByteFile.call file call).2.size ≤ mem.bytes := by
  cases call with
  | truncate size => exact bounded
  | readAt offset buf => exact within
  | writeAt offset buf => exact max_le within bounded

-----------------------------------------------------------------------------------------
-- Every sequence
-----------------------------------------------------------------------------------------

/-- The content and the answers are those of the byte array, and no call panics. -/
def ActsAsBytes (build : Build) (mem : Memory) (node : FileNode) (calls : List Call) : Prop :=
  ∃ answers node', node.calls build mem calls = some (answers, node')
    ∧ (answers, node'.bytes) = ByteFile.calls node.bytes calls

namespace FileNode

variable {build : Build} {mem : Memory}

theorem calls_cons (node : FileNode) (call : Call) (rest : List Call) {answer : Answer}
    {node' : FileNode} (run : node.call build mem call = some (answer, node'))
    : node.calls build mem (call :: rest)
      = (node'.calls build mem rest).map fun more => (answer :: more.1, more.2) := by
  simp only [FileNode.calls, run, Option.bind_eq_bind, Option.bind_some, pure]
  exact Option.map_eq_bind.symm

/-- From any file within the memory, by induction on the calls. -/
theorem actsAsBytes_iff {calls : List Call} {node : FileNode}
    (within : node.content.length ≤ mem.bytes) (bounded : ∀ call ∈ calls, call.Bounded mem)
    : ActsAsBytes build mem node calls ↔ ReadsFit build node.bytes calls := by
  induction calls generalizing node with
  | nil => exact iff_of_true ⟨[], node, rfl, rfl⟩ trivial
  | cons call rest ih =>
      have first := bounded call (List.mem_cons_self ..)
      have later : ∀ call ∈ rest, call.Bounded mem :=
        fun call member => bounded call (List.mem_cons_of_mem _ member)
      by_cases fits : call.ReadFits build node.content.length
      · obtain ⟨node', run, same⟩ := call_eq first fits
        have within' : node'.content.length ≤ mem.bytes := by
          rw [← bytes_size, same]
          exact ByteFile.call_within within first
        have rest_iff := ih within' later
        rw [same] at rest_iff
        rw [ReadsFit, bytes_size, and_iff_right fits, ← rest_iff]
        constructor
        · rintro ⟨answers, last, ran, agree⟩
          rw [calls_cons node call rest run] at ran
          obtain ⟨⟨answers', last'⟩, ran', whole⟩ := Option.map_eq_some_iff.mp ran
          cases whole
          rw [ByteFile.calls_cons, Prod.mk.injEq, List.cons.injEq] at agree
          refine ⟨answers', last', ran', ?_⟩
          rw [same]
          exact Prod.ext agree.1.2 agree.2
        · rintro ⟨answers, last, ran, agree⟩
          refine ⟨(ByteFile.call node.bytes call).1 :: answers, last, ?_, ?_⟩
          · rw [calls_cons node call rest run, ran, Option.map_some]
          · rw [same] at agree
            rw [ByteFile.calls_cons, ← agree]
      · refine iff_of_false ?_ (fun readsFit => fits readsFit.1)
        rintro ⟨answers, last, ran, -⟩
        simp only [FileNode.calls, call_panics within fits, Option.bind_eq_bind,
          Option.bind_none, reduceCtorEq] at ran

end FileNode

/-- Over every sequence of calls on a new file whose writes and truncations stay within the
memory, the file acts as a zero-extended byte array and never panics exactly when every read
of it fits the file it reads.
-/
theorem new_actsAsBytes_iff (build : Build) (mem : Memory) (calls : List Call)
    (bounded : ∀ call ∈ calls, call.Bounded mem)
    : ActsAsBytes build mem .new calls ↔ ReadsFit build .empty calls := by
  rw [FileNode.actsAsBytes_iff (Nat.zero_le _) bounded, FileNode.bytes, FileNode.new, ofList_nil]

def smallMemory : Memory where
  bytes := 16
  sized := by decide

def twoBytes : Slice where
  bytes := [1, 2]
  sized := by decide

/-- A write behind the end, a cut inside the hole and a read over the end. -/
def holeCalls : List Call :=
  [.writeAt 3 twoBytes, .truncate 4, .readAt 2 twoBytes, .readAt 4 twoBytes]

theorem new_actsAsBytes_iff_hole : ActsAsBytes .release smallMemory .new holeCalls :=
  (new_actsAsBytes_iff .release smallMemory holeCalls
    (by simp [holeCalls, Call.Bounded, smallMemory, twoBytes])).mpr
    ⟨trivial, trivial, .inl (by decide), .inl (by decide), trivial⟩

example
    : (FileNode.new.calls .release smallMemory holeCalls).map Prod.fst
      = some [.written 2, .truncated, .read 2 [0, 1], .read 0 [1, 2]] := by
  decide

def readCursor : File :=
  { canRead := true, canWrite := false, isAppend := false, offset := 0 }

/-- After a seek to the last position, a read of two bytes of a file of two bytes. -/
def farRead : List Call :=
  [.writeAt 0 twoBytes, .readAt 0xffffffffffffffff twoBytes]

/-- The end of the read is 1 in a release build, before its start; a debug build panics at
the addition.
-/
theorem farRead_panics
    : (∀ call ∈ farRead, call.Bounded smallMemory)
      ∧ readCursor.seek ({ content := [1, 2] } : FileNode) (.Start 0xffffffffffffffff)
          = .ok (0xffffffffffffffff, { readCursor with offset := 0xffffffffffffffff })
      ∧ FileNode.new.calls .release smallMemory farRead = none
      ∧ FileNode.new.calls .debug smallMemory farRead = none
      ∧ ¬ ActsAsBytes .release smallMemory .new farRead := by
  have panics : FileNode.new.calls .release smallMemory farRead = none := by decide +kernel
  refine ⟨by simp [farRead, Call.Bounded, smallMemory, twoBytes], rfl, panics,
    by decide +kernel, ?_⟩
  rintro ⟨answers, node, run, -⟩
  exact absurd (panics.symm.trans run) (by simp)

end RCoreOS.Axfs
