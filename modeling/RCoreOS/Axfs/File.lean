import RCoreOS.Lib.Outcome
import Mathlib.Data.List.TakeDrop
import Mathlib.Algebra.Ring.Int.Defs
import Mathlib.Algebra.Ring.Nat
import Mathlib.Order.Lattice

/-! File nodes and opened files: what the nodes of a file system do, the file node of the RAM
file system, and the cursor that an opened file keeps.
-/

namespace RCoreOS.Axfs

/-- `AxError`, as far as the file operations return it themselves. -/
inductive AxError where
  | AlreadyExists
  | DirectoryNotEmpty
  | InvalidInput
  | Io
  | NotADirectory
  | NotFound
  | PermissionDenied
  | Unsupported
deriving DecidableEq, Repr

/-- The operations on a file node, each of them atomic. `readAt` returns the bytes it stored
in the buffer of the given length, `writeAt` how many bytes it took.
-/
class VfsNodeOps (N : Type) where
  /-- The size of the file, from its attributes. -/
  getAttr : N → Except AxError Nat
  readAt : N → Nat → Nat → Except AxError (List UInt8)
  writeAt : N → Nat → List UInt8 → Except AxError Nat × N

-----------------------------------------------------------------------------------------
-- The file node of the RAM file system
-----------------------------------------------------------------------------------------

structure FileNode where
  content : List UInt8
deriving DecidableEq, Repr

namespace FileNode

def new : FileNode where
  content := []

/-- The content, filled up with zeros to at least `size` bytes. -/
def resize (node : FileNode) (size : Nat) : List UInt8 :=
  node.content ++ List.replicate (size - node.content.length) 0

def readAt (node : FileNode) (offset len : Nat) : List UInt8 :=
  let start := min node.content.length offset
  let stop := min node.content.length (offset + len)
  (node.content.take stop).drop start

def writeAt (node : FileNode) (offset : Nat) (buf : List UInt8) : FileNode :=
  let content := node.resize (offset + buf.length)
  { content := content.take offset ++ buf ++ content.drop (offset + buf.length) }

instance : VfsNodeOps FileNode where
  getAttr node := .ok node.content.length
  readAt node offset len := .ok (node.readAt offset len)
  writeAt node offset buf := (.ok buf.length, node.writeAt offset buf)

/-- A write at the end of the file adds its bytes there. -/
theorem writeAt_end (node : FileNode) (buf : List UInt8)
    : (node.writeAt node.content.length buf).content = node.content ++ buf := by
  simp [writeAt, resize]

/-- A write makes the file reach at least to its own end. -/
theorem writeAt_length (node : FileNode) (offset : Nat) (buf : List UInt8)
    : (node.writeAt offset buf).content.length
      = max node.content.length (offset + buf.length) := by
  simp only [writeAt, resize, List.length_append, List.length_take, List.length_drop,
    List.length_replicate]
  omega

/-- A write of no bytes inside the file changes nothing. -/
theorem writeAt_nil {node : FileNode} {offset : Nat} (inside : offset ≤ node.content.length)
    : node.writeAt offset [] = node := by
  simp [writeAt, resize, Nat.sub_eq_zero_of_le inside]

end FileNode

-----------------------------------------------------------------------------------------
-- Opened files
-----------------------------------------------------------------------------------------

/-- An opened file without its node: the capabilities and the cursor. -/
structure File where
  canRead : Bool
  canWrite : Bool
  isAppend : Bool
  offset : Nat
deriving DecidableEq, Repr

inductive SeekFrom where
  | Start (pos : Nat)
  | Current (off : Int)
  | End (off : Int)
deriving DecidableEq, Repr

/-- `u64::checked_add_signed`. -/
def checkedAddSigned (base : Nat) (off : Int) : Option Nat :=
  let sum := base + off
  if 0 ≤ sum ∧ sum < 2 ^ 64 then some sum.toNat else none

/-- The position that a seek asks for. -/
def SeekFrom.target (offset size : Nat) : SeekFrom → Option Nat
  | .Start pos => some pos
  | .Current off => checkedAddSigned offset off
  | .End off => checkedAddSigned size off

theorem checkedAddSigned_lt {base sum : Nat} {off : Int}
    (added : checkedAddSigned base off = some sum)
    : sum < 2 ^ 64 := by
  simp only [checkedAddSigned] at added
  split at added
  · cases added
    omega
  · cases added

theorem checkedAddSigned_zero {base sum : Nat} (added : checkedAddSigned base 0 = some sum)
    : sum = base := by
  simp only [checkedAddSigned, Int.add_zero, Int.toNat_natCast] at added
  split at added
  · exact (Option.some.inj added).symm
  · cases added

namespace File

variable {N : Type} [VfsNodeOps N]

def read (file : File) (node : N) (len : Nat) : Except AxError (List UInt8 × File) :=
  if !file.canRead then .error .PermissionDenied
  else do
    let data ← VfsNodeOps.readAt node file.offset len
    .ok (data, { file with offset := file.offset + data.length })

/-- The first part of `write`: an appending file moves its cursor to the end. -/
def startWrite (file : File) (node : N) : Except AxError File :=
  if !file.canWrite then .error .PermissionDenied
  else if file.isAppend then do
    let size ← VfsNodeOps.getAttr node
    .ok { file with offset := size }
  else .ok file

/-- The second part of `write`, at the cursor. -/
def finishWrite (file : File) (node : N) (buf : List UInt8) : Except AxError Nat × File × N :=
  match VfsNodeOps.writeAt node file.offset buf with
  | (.ok n, node) => (.ok n, { file with offset := file.offset + n }, node)
  | (.error e, node) => (.error e, file, node)

def write (file : File) (node : N) (buf : List UInt8) : Except AxError Nat × File × N :=
  match file.startWrite node with
  | .error e => (.error e, file, node)
  | .ok file => file.finishWrite node buf

def seek (file : File) (node : N) (pos : SeekFrom) : Except AxError (Nat × File) := do
  let size ← VfsNodeOps.getAttr node
  match pos.target file.offset size with
  | none => .error .InvalidInput
  | some newOffset => .ok (newOffset, { file with offset := newOffset })

/-- A seek that succeeds moves the cursor to the position asked for. -/
theorem seek_eq_ok {file file' : File} {node : N} {pos : SeekFrom} {newOffset : Nat}
    (sought : file.seek node pos = .ok (newOffset, file'))
    : file' = { file with offset := newOffset }
      ∧ ∃ size, pos.target file.offset size = some newOffset := by
  obtain ⟨size, -, moved⟩ := Outcome.bind_eq_ok.mp sought
  split at moved
  · cases moved
  · next found =>
      cases moved
      exact ⟨rfl, size, found⟩

end File

end RCoreOS.Axfs
