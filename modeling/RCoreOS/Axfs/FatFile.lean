import RCoreOS.Axfs.File
import RCoreOS.Lib.Window

/-! File nodes with a content that writes overwrite and extend, and the file nodes of the FAT
file system, which read and write in turns of the files of the library.
-/

namespace RCoreOS.Axfs

/-- File nodes with a content. A write that returns has put the first bytes of its buffer at its
offset; nothing is said about a write that fails or starts behind the end.
-/
class LawfulFile (N : Type) [VfsNodeOps N] where
  content : N → List UInt8
  getAttr_size {node : N} {size : Nat}
    : VfsNodeOps.getAttr node = .ok size → size = (content node).length
  writeAt_content {node node' : N} {offset n : Nat} {buf : List UInt8}
    : offset ≤ (content node).length → VfsNodeOps.writeAt node offset buf = (.ok n, node') →
      n ≤ buf.length ∧ content node' = (content node).patch offset (buf.take n)

instance : LawfulFile FileNode where
  content := FileNode.content
  getAttr_size found := by
    cases found
    rfl
  writeAt_content {node node' offset n buf} inside written := by
    cases written
    refine ⟨Nat.le_refl _, ?_⟩
    have front : (node.resize (offset + buf.length)).take offset = node.content.take offset :=
      List.take_append_of_le_length inside
    have back : (node.resize (offset + buf.length)).drop (offset + buf.length)
        = node.content.drop (offset + buf.length) := by
      simp [FileNode.resize, List.drop_append]
    rw [FileNode.writeAt, front, back, List.take_length]
    rfl

-----------------------------------------------------------------------------------------
-- The nodes of the FAT file system
-----------------------------------------------------------------------------------------

/-- The files of the FAT library, which have a cursor of their own. A read fills and a write takes
a part of its buffer. Errors are those that `as_vfs_err` maps them to.
-/
class FatFile (F : Type) where
  seekStart : F → Nat → Except AxError Unit × F
  /-- `seek(SeekFrom::End(0))`; the next operation of a node seeks again. -/
  seekEnd : F → Except AxError Nat
  read (file : F) (len : Nat) : Except AxError {bytes : List UInt8 // bytes.length ≤ len} × F
  write (file : F) (buf : List UInt8) : Except AxError {n : Nat // n ≤ buf.length} × F

/-- `FileWrapper`. -/
structure FileWrapper (F : Type) where
  file : F

namespace FileWrapper

variable {F : Type} [FatFile F]

/-- The loop of `read_at`, which reads until the buffer is full or nothing is read. -/
def readLoop (file : F) (data : List UInt8) (left : Nat) : Except AxError (List UInt8) :=
  if 0 < left then
    match FatFile.read file left with
    | (.error e, _) => .error e
    | (.ok ⟨bytes, _⟩, file) =>
        if 0 < bytes.length then readLoop file (data ++ bytes) (left - bytes.length)
        else .ok data
  else .ok data
termination_by left
decreasing_by exact Nat.sub_lt ‹0 < left› ‹0 < bytes.length›

/-- The loop of `write_at`, which writes until the buffer is empty or nothing is written. -/
def writeLoop (file : F) (nowOffset : Nat) (probe : List UInt8) : Except AxError Nat × F :=
  if 0 < probe.length then
    match FatFile.write file probe with
    | (.error e, file) => (.error e, file)
    | (.ok ⟨writeLen, _⟩, file) =>
        if 0 < writeLen then writeLoop file (nowOffset + writeLen) (probe.drop writeLen)
        else (.ok nowOffset, file)
  else (.ok nowOffset, file)
termination_by probe.length
decreasing_by
  rw [List.length_drop]
  omega

def readAt (node : FileWrapper F) (offset len : Nat) : Except AxError (List UInt8) :=
  match FatFile.seekStart node.file offset with
  | (.error e, _) => .error e
  | (.ok _, file) => readLoop file [] len

def writeAt (node : FileWrapper F) (offset : Nat) (buf : List UInt8)
    : Except AxError Nat × FileWrapper F :=
  match FatFile.seekStart node.file offset with
  | (.error e, file) => (.error e, ⟨file⟩)
  | (.ok _, file) =>
      let (result, file) := writeLoop file 0 buf
      (result, ⟨file⟩)

instance : VfsNodeOps (FileWrapper F) where
  getAttr node := FatFile.seekEnd node.file
  readAt := readAt
  writeAt := writeAt

end FileWrapper

/-- What the library says about the content of a file and its cursor. -/
class LawfulFatFile (F : Type) [FatFile F] where
  content : F → List UInt8
  position : F → Nat
  seekEnd_size {file : F} {size : Nat}
    : FatFile.seekEnd file = .ok size → size = (content file).length
  seekStart_position {file file' : F} {offset : Nat}
    : offset ≤ (content file).length → FatFile.seekStart file offset = (.ok (), file') →
      content file' = content file ∧ position file' = offset
  write_content {file file' : F} {buf : List UInt8} {n : {n : Nat // n ≤ buf.length}}
    : position file ≤ (content file).length → FatFile.write file buf = (.ok n, file') →
      content file' = (content file).patch (position file) (buf.take n)
        ∧ position file' = position file + n

namespace FileWrapper

variable {F : Type} [FatFile F] [LawfulFatFile F]

open LawfulFatFile (content position)

/-- The turns of a write put one part of the buffer behind the other, by induction on what is left
of it.
-/
theorem writeLoop_content {file file' : F} {nowOffset n : Nat} {probe : List UInt8}
    (inside : position file ≤ (content file).length)
    (written : writeLoop file nowOffset probe = (.ok n, file'))
    : ∃ count ≤ probe.length, n = nowOffset + count
        ∧ content file' = (content file).patch (position file) (probe.take count) := by
  induction left : probe.length using Nat.strongRecOn generalizing file nowOffset probe with
  | _ length ih =>
      rw [writeLoop] at written
      split at written
      · split at written
        · cases written
        · next writeLen fits file₁ taken =>
            obtain ⟨patched, moved⟩ := LawfulFatFile.write_content inside taken
            dsimp only at patched moved
            split at written
            · have long : (probe.take writeLen).length = writeLen := List.length_take_of_le fits
              have inside₁ : position file₁ ≤ (content file₁).length := by
                rw [patched, moved, List.length_patch_eq_max inside, long]
                exact le_max_right ..
              obtain ⟨count, bound, total, rest⟩ :=
                ih _ (by rw [List.length_drop]; omega) inside₁ written rfl
              rw [List.length_drop] at bound
              refine ⟨writeLen + count, by omega, by omega, ?_⟩
              have joined : ((content file).patch (position file) (probe.take writeLen)).patch
                  (position file + (probe.take writeLen).length)
                  ((probe.drop writeLen).take count)
                  = (content file).patch (position file)
                      (probe.take writeLen ++ (probe.drop writeLen).take count) :=
                List.patch_append inside
              rw [long] at joined
              rw [rest, patched, moved, joined, List.take_add]
            · cases written
              have none : writeLen = 0 := by omega
              rw [none] at patched
              exact ⟨0, Nat.zero_le _, rfl, patched⟩
      · cases written
        refine ⟨0, Nat.zero_le _, rfl, ?_⟩
        rw [List.take_zero, List.patch_nil]

instance : LawfulFile (FileWrapper F) where
  content node := content node.file
  getAttr_size := LawfulFatFile.seekEnd_size
  writeAt_content {node node' offset n buf} inside written := by
    dsimp only [VfsNodeOps.writeAt, writeAt] at written
    split at written
    · cases written
    · next file sought =>
        obtain ⟨same, position⟩ := LawfulFatFile.seekStart_position inside sought
        obtain ⟨result, node'⟩ := Prod.mk.inj written
        obtain ⟨count, bound, rfl, patched⟩ :=
          writeLoop_content (by rw [same, position]; exact inside) (Prod.ext result rfl)
        rw [Nat.zero_add]
        refine ⟨bound, ?_⟩
        rw [← node', patched, same, position]

end FileWrapper

end RCoreOS.Axfs
