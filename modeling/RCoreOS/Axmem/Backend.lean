import RCoreOS.Axmem.PhysPage

/-! The file behind a lazily loaded area: an open file with a cursor of its own. -/

namespace RCoreOS.Axmem

open PageTable Outcome

/-- The file system as open files see it: the size attribute of a node, which may fail, and
the bytes a read at an offset returns, at most as many as it asks for.
-/
structure Vfs where
  getAttr : Nat → Option Nat
  readAt : Nat → Nat → Nat → Option (List UInt8)

/-- What writing bytes to a node at an offset does: the number of bytes that are written, unless
it fails, and the file system afterwards.
-/
abbrev WriteAt :=
  Vfs → Nat → Nat → List UInt8 → Option Nat × Vfs

/-- An open file: its node, the access it was opened with, and its cursor. -/
structure File where
  node : Nat
  readable : Bool
  writable : Bool
  isAppend : Bool
  offset : Nat
deriving DecidableEq, Repr

inductive SeekFrom where
  | start (pos : Nat)
  | current (off : Int)
  | fromEnd (off : Int)
deriving DecidableEq, Repr

/-- `as i64`. -/
def asI64 (n : Nat) : Int :=
  if n < 2 ^ 63 then n else n - 2 ^ 64

/-- `u64::checked_add_signed`. -/
def checkedAddSigned (n : Nat) (off : Int) : Option Nat :=
  if 0 ≤ n + off ∧ n + off < 2 ^ 64 then some (n + off).toNat else none

namespace File

/-- `none` is the error of the attributes or of an offset out of range. -/
def seek (fs : Vfs) (file : File) (pos : SeekFrom) : Option (Nat × File) := do
  let size ← fs.getAttr file.node
  let newOffset ← match pos with
    | .start pos => some pos
    | .current off => checkedAddSigned file.offset off
    | .fromEnd off => checkedAddSigned size off
  return (newOffset, { file with offset := newOffset })

def read (fs : Vfs) (file : File) (len : Nat) : Option (List UInt8 × File) :=
  if file.readable then do
    let chunk ← fs.readAt file.node file.offset len
    let chunk := chunk.take len
    return (chunk, { file with offset := file.offset + chunk.length })
  else none

/-- A file in append mode is written at its end. The cursor moves behind what was written. -/
def write (writeAt : WriteAt) (fs : Vfs) (file : File) (data : List UInt8)
    : Option Nat × File × Vfs :=
  if file.writable then
    match if file.isAppend then fs.getAttr file.node else some file.offset with
    | none => (none, file, fs)
    | some offset =>
        match writeAt fs file.node offset data with
        | (none, fs) => (none, { file with offset }, fs)
        | (some len, fs) => (some len, { file with offset := offset + len }, fs)
  else (none, file, fs)

/-- `read_full`: reads until the buffer is full or nothing is left. -/
def readFull (fs : Vfs) (file : File) (len : Nat) : Option (List UInt8 × File) :=
  if len = 0 then some ([], file)
  else
    match file.read fs len with
    | none => none
    | some ([], file) => some ([], file)
    | some (byte :: chunk, file) =>
        match file.readFull fs (len - (chunk.length + 1)) with
        | none => none
        | some (rest, file) => some (byte :: chunk ++ rest, file)
termination_by len
decreasing_by omega

end File

/-- File backend for a lazily loaded area. -/
structure MemBackend where
  file : File
deriving DecidableEq, Repr

namespace MemBackend

/-- `seek(pos).unwrap()`. -/
def seek (fs : Vfs) (backend : MemBackend) (pos : SeekFrom) : Except Crash MemBackend :=
  match backend.file.seek fs pos with
  | some (_, file) => .ok ⟨file⟩
  | none => .error .panic

/-- Reads from a position without changing the cursor: `none` is a read that fails. The
cursor is put back, and the assertion compares it with the old one.
-/
def readFromSeek (fs : Vfs) (backend : MemBackend) (pos : SeekFrom) (len : Nat)
    : Except Crash (Option (List UInt8) × MemBackend) := do
  let some (oldPos, file) := backend.file.seek fs (.current 0) | .error .panic
  let some (_, file) := file.seek fs pos | .error .panic
  let (data, file) := match file.readFull fs len with
    | some (data, file) => (some data, file)
    | none => (none, file)
  let some (newPos, file) := file.seek fs (.start oldPos) | .error .panic
  if oldPos ≠ newPos then .error .panic
  return (data, ⟨file⟩)

/-- Writes to a position without changing the cursor: `none` is a write that fails. -/
def writeToSeek (writeAt : WriteAt) (fs : Vfs) (backend : MemBackend) (pos : SeekFrom)
    (data : List UInt8) : Except Crash (Option Nat × MemBackend × Vfs) := do
  let some (oldPos, file) := backend.file.seek fs (.current 0) | .error .panic
  let some (_, file) := file.seek fs pos | .error .panic
  let (len, file, fs) := file.write writeAt fs data
  let some (_, file) := file.seek fs (.start oldPos) | .error .panic
  return (len, ⟨file⟩, fs)

end MemBackend

end RCoreOS.Axmem
