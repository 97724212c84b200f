import RCoreOS.Axfs.FatFile
import RCoreOS.LinuxSyscallApi.FileDesc

/-! Writes behind the end of a file. The gap is filled by a write of its own, and the bytes come
to lie at the cursor only if this write was complete.
-/

namespace RCoreOS.LinuxSyscallApi.FileDesc

open Axfs
open LawfulFile (content)

variable {N : Type} [VfsNodeOps N] [LawfulFile N]

/-- The bytes lie at the position, behind zeros if it is behind the old end, and the rest is
unchanged.
-/
def Placed (old new : List UInt8) (pos : Nat) (bytes : List UInt8) : Prop :=
  ∀ place, new[place]? =
    if pos ≤ place ∧ place < pos + bytes.length then bytes[place - pos]?
    else if old.length ≤ place ∧ place < pos then some 0
    else old[place]?

/-- A write that returned has placed what it took of the buffer at the position and moved the
cursor behind it; one that failed has left the cursor there.
-/
def AtCursor (old : List UInt8) (pos : Nat) (buf : List UInt8) : Answer × FileDesc N → Prop
  | (.number n, desc) => n ≤ buf.length ∧ Placed old (content desc.node) pos (buf.take n)
      ∧ desc.file.offset = pos + n
  | (.error _, desc) => desc.file.offset = pos
  | (.data _, _) => False

def WritesAtCursor (desc : FileDesc N) (buf : List UInt8) : Prop :=
  ∀ result, desc.write buf = .ok result →
    AtCursor (content desc.node) desc.file.offset buf result

/-- If the cursor is behind the end, a write of zeros there reaches the cursor. -/
def GapFilled (desc : FileDesc N) : Prop :=
  ∀ size, VfsNodeOps.getAttr desc.node = .ok size → size < desc.file.offset →
    desc.file.canWrite = true
      ∧ (VfsNodeOps.writeAt desc.node size (List.replicate (desc.file.offset - size) 0)).1
        = .ok (desc.file.offset - size)

variable {desc desc' : FileDesc N} {buf : List UInt8} {size : Nat}

omit [LawfulFile N] in
/-- Without append, a write is a write of the node at the cursor. -/
theorem fileWrite_cases (noAppend : desc.file.isAppend = false) (buf : List UInt8)
    : (∃ n node, desc.file.canWrite = true
        ∧ VfsNodeOps.writeAt desc.node desc.file.offset buf = (.ok n, node)
        ∧ desc.fileWrite buf = (.ok n, { desc.setCursor (desc.file.offset + n) with node }))
      ∨ ∃ e desc', desc.fileWrite buf = (.error e, desc') ∧ desc'.file = desc.file
        ∧ ∀ n, ¬ (desc.file.canWrite = true
          ∧ (VfsNodeOps.writeAt desc.node desc.file.offset buf).1 = .ok n) := by
  by_cases allowed : desc.file.canWrite = true
  · have written : desc.file.write desc.node buf = desc.file.finishWrite desc.node buf := by
      simp [File.write, File.startWrite, allowed, noAppend]
    rw [fileWrite, written, File.finishWrite]
    cases result : VfsNodeOps.writeAt desc.node desc.file.offset buf with
    | mk answer node =>
        cases answer with
        | ok n => exact .inl ⟨n, node, allowed, rfl, rfl⟩
        | error e => exact .inr ⟨e, _, rfl, rfl, by simp⟩
  · have denied : desc.file.write desc.node buf
        = (.error .PermissionDenied, desc.file, desc.node) := by
      simp [File.write, File.startWrite, allowed]
    rw [fileWrite, denied]
    exact .inr ⟨_, _, rfl, rfl, fun n possible => allowed possible.1⟩

omit [LawfulFile N] in
/-- A write of a file whose size is known. -/
theorem write_eq (cursor : desc.file.offset < 2 ^ 64)
    (attr : VfsNodeOps.getAttr desc.node = .ok size)
    : desc.write buf =
        if desc.file.offset > size then
          match (desc.setCursor size).fileWrite (List.replicate (desc.file.offset - size) 0) with
          | (.error e, desc) => .ok (.error e, desc)
          | (.ok _, desc) => .ok (writeAnswer (desc.fileWrite buf))
        else .ok (writeAnswer (desc.fileWrite buf)) := by
  have stays : desc.seek (.Current 0) = .ok (desc.file.offset, desc) := by
    rw [seek_of_target desc.file.offset attr, setCursor_self]
    rw [SeekFrom.target, checkedAddSigned, Int.add_zero, if_pos (by omega), Int.toNat_natCast]
  rw [write, stays, Outcome.ok_bind]
  dsimp only
  rw [attr, Outcome.ok_bind]
  split
  · have sought : desc.seek (.Start size) = .ok (size, desc.setCursor size) :=
      seek_of_target size attr rfl
    rw [sought]
    rfl
  · rfl

/-- Within or at the end of the file the bytes lie at the cursor. -/
theorem placed_of_writeAt {node node' : N} {offset n : Nat}
    (inside : offset ≤ (content node).length)
    (written : VfsNodeOps.writeAt node offset buf = (.ok n, node'))
    : n ≤ buf.length ∧ Placed (content node) (content node') offset (buf.take n) := by
  obtain ⟨fits, patched⟩ := LawfulFile.writeAt_content inside written
  refine ⟨fits, fun place => ?_⟩
  have noGap : ¬ ((content node).length ≤ place ∧ place < offset) := by omega
  rw [patched, List.getElem?_patch inside, if_neg noGap]

/-- Bytes that are placed behind zeros. -/
theorem Placed.behind_zeros {old new bytes : List UInt8} {gap : Nat}
    (placed : Placed (old ++ List.replicate gap 0) new (old.length + gap) bytes)
    : Placed old new (old.length + gap) bytes := by
  intro place
  have reached : (old ++ List.replicate gap 0).length = old.length + gap := by simp
  have noGap : ¬ (old.length + gap ≤ place ∧ place < old.length + gap) := by omega
  rw [placed place, reached, if_neg noGap]
  congr 1
  by_cases front : place < old.length
  · rw [List.getElem?_append_left front, if_neg (by omega)]
  · rw [List.getElem?_append_right (by omega), List.getElem?_replicate]
    by_cases inGap : place < old.length + gap
    · rw [if_pos (by omega), if_pos (by omega)]
    · rw [if_neg (by omega), if_neg (by omega), List.getElem?_eq_none (by omega)]

theorem AtCursor.behind_zeros {old : List UInt8} {gap : Nat} {result : Answer × FileDesc N}
    (written : AtCursor (old ++ List.replicate gap 0) (old.length + gap) buf result)
    : AtCursor old (old.length + gap) buf result := by
  obtain ⟨answer, desc⟩ := result
  cases answer with
  | number n =>
      obtain ⟨fits, placed, moved⟩ := written
      exact ⟨fits, placed.behind_zeros, moved⟩
  | error e => exact written
  | data bytes => exact written

/-- A write that starts at the cursor and not behind the end is as it should be. -/
theorem writeAnswer_atCursor (noAppend : desc.file.isAppend = false)
    (inside : desc.file.offset ≤ (content desc.node).length)
    : AtCursor (content desc.node) desc.file.offset buf (writeAnswer (desc.fileWrite buf)) := by
  rcases fileWrite_cases noAppend buf with ⟨n, node, -, written, done⟩ | ⟨e, desc', failed, same, -⟩
  · rw [done]
    obtain ⟨fits, placed⟩ := placed_of_writeAt inside written
    exact ⟨fits, placed, rfl⟩
  · rw [failed]
    exact congrArg File.offset same

/-- Once the gap is filled, the bytes lie at the cursor. -/
theorem atCursor_of_gapFilled (cursor : desc.file.offset < 2 ^ 64)
    (noAppend : desc.file.isAppend = false) (filled : desc.GapFilled)
    (attr : VfsNodeOps.getAttr desc.node = .ok size) (behind : desc.file.offset > size)
    {result : Answer × FileDesc N} (done : desc.write buf = .ok result)
    : AtCursor (content desc.node) desc.file.offset buf result := by
  have sized := LawfulFile.getAttr_size attr
  have filling := fileWrite_cases (show (desc.setCursor size).file.isAppend = false from noAppend)
    (List.replicate (desc.file.offset - size) 0)
  obtain ⟨allowed, complete⟩ := filled size attr behind
  rw [write_eq cursor attr, if_pos behind] at done
  rcases filling with ⟨n, node, -, written, filled⟩ | ⟨e, _, -, -, never⟩
  · have whole : n = desc.file.offset - size :=
      Except.ok.inj ((congrArg Prod.fst written).symm.trans complete)
    subst whole
    rw [filled] at done
    obtain ⟨-, patched⟩ := LawfulFile.writeAt_content sized.le written
    rw [List.take_of_length_le (by simp), sized, List.patch_length] at patched
    have reached : size + (desc.file.offset - size) = desc.file.offset := by omega
    have spec : AtCursor (content node) (size + (desc.file.offset - size)) buf result := by
      rw [← Except.ok.inj done]
      refine writeAnswer_atCursor noAppend ?_
      dsimp only [setCursor]
      rw [patched, List.length_append, List.length_replicate, sized]
    rw [patched, sized] at spec
    have placed := spec.behind_zeros
    rwa [← sized, reached] at placed
  · exact absurd ⟨allowed, complete⟩ (never _)

/-- If the gap is not filled, the cursor is not where it should be, whatever the rest does. -/
theorem not_atCursor_of_gap (cursor : desc.file.offset < 2 ^ 64)
    (noAppend : desc.file.isAppend = false) (attr : VfsNodeOps.getAttr desc.node = .ok size)
    (behind : desc.file.offset > size)
    (incomplete : ¬ (desc.file.canWrite = true
      ∧ (VfsNodeOps.writeAt desc.node size (List.replicate (desc.file.offset - size) 0)).1
        = .ok (desc.file.offset - size)))
    (buf : List UInt8)
    : ∃ result, desc.write buf = .ok result
        ∧ ¬ AtCursor (content desc.node) desc.file.offset buf result := by
  have sized := LawfulFile.getAttr_size attr
  have filling := fileWrite_cases (show (desc.setCursor size).file.isAppend = false from noAppend)
    (List.replicate (desc.file.offset - size) 0)
  rw [write_eq cursor attr, if_pos behind]
  rcases filling with ⟨n, node, allowed, written, done⟩ | ⟨e, desc', failed, same, -⟩
  · obtain ⟨fits, -⟩ := placed_of_writeAt sized.le written
    rw [List.length_replicate] at fits
    have short : n ≠ desc.file.offset - size := by
      rintro rfl
      exact incomplete ⟨allowed, congrArg Prod.fst written⟩
    have filled : ({ desc.setCursor (size + n) with node } : FileDesc N).file.isAppend = false :=
      noAppend
    rw [done]
    refine ⟨_, rfl, ?_⟩
    change ¬ AtCursor _ _ _ (writeAnswer (fileWrite { desc.setCursor (size + n) with node } buf))
    rcases fileWrite_cases filled buf with ⟨m, node', -, -, next⟩ | ⟨e, desc', next, same, -⟩
    · rw [next]
      rintro ⟨-, -, moved⟩
      have moved : size + n + m = desc.file.offset + m := moved
      omega
    · rw [next]
      intro kept
      have kept : size + n = desc.file.offset := (congrArg File.offset same).symm.trans kept
      omega
  · rw [failed]
    refine ⟨_, rfl, fun kept => ?_⟩
    have kept : size = desc.file.offset := (congrArg File.offset same).symm.trans kept
    omega

omit [LawfulFile N] in
theorem write_of_error {e : AxError} (attr : VfsNodeOps.getAttr desc.node = .error e)
    : desc.write buf = .error e := by
  rw [write, seek, File.seek, attr]
  rfl

/-- A write to a descriptor without append is as it should be, whatever of it the node takes,
exactly if the cursor is not behind the end or the write that fills the gap is complete.
-/
theorem writesAtCursor_iff (cursor : desc.file.offset < 2 ^ 64)
    (noAppend : desc.file.isAppend = false) (buf : List UInt8)
    : desc.WritesAtCursor buf ↔ desc.GapFilled := by
  constructor
  · intro writes size attr behind
    by_contra incomplete
    obtain ⟨result, done, wrong⟩ :=
      not_atCursor_of_gap cursor noAppend attr behind incomplete buf
    exact wrong (writes result done)
  · intro filled result done
    cases attr : VfsNodeOps.getAttr desc.node with
    | error e => cases (write_of_error attr).symm.trans done
    | ok size =>
        by_cases behind : desc.file.offset > size
        · exact atCursor_of_gapFilled cursor noAppend filled attr behind done
        · have sized := LawfulFile.getAttr_size attr
          rw [write_eq cursor attr, if_neg behind] at done
          rw [← Except.ok.inj done]
          exact writeAnswer_atCursor noAppend (by omega)

/-- In the RAM file system the gap is filled. -/
theorem writesAtCursor_ramFile
    : (⟨⟨true, true, false, 3⟩, ⟨[1]⟩, true, true⟩ : FileDesc FileNode).WritesAtCursor [7] := by
  refine (writesAtCursor_iff (by decide) rfl [7]).mpr ?_
  intro size attr behind
  cases attr
  exact ⟨rfl, rfl⟩

/-- A file of the FAT library on a device that fails behind its first `good` bytes. -/
structure FailingFile where
  bytes : List UInt8
  position : Nat
  good : Nat

instance : FatFile FailingFile where
  seekStart file offset := (.ok (), { file with position := min offset file.bytes.length })
  seekEnd file := .ok file.bytes.length
  read file len :=
    let data := (file.bytes.drop file.position).take len
    (.ok ⟨data, List.length_take_le ..⟩, { file with position := file.position + data.length })
  write file buf :=
    let n := min buf.length (file.good - file.position)
    if 0 < n then
      (.ok ⟨n, Nat.min_le_left ..⟩,
        { file with
          bytes := file.bytes.patch file.position (buf.take n)
          position := file.position + n })
    else (.error .Io, file)

instance : LawfulFatFile FailingFile where
  content := FailingFile.bytes
  position := FailingFile.position
  seekEnd_size found := by
    cases found
    rfl
  seekStart_position inside sought := by
    cases sought
    exact ⟨rfl, Nat.min_eq_left inside⟩
  write_content {file file' buf n} _ written := by
    dsimp only [FatFile.write] at written
    split at written
    · cases written
      exact ⟨rfl, rfl⟩
    · cases written

/-- The cursor is two bytes behind the end, and only the first of them can be written. -/
def onFailingDevice : FileDesc (FileWrapper FailingFile) where
  file := ⟨true, true, false, 3⟩
  node := ⟨⟨[1], 0, 2⟩⟩
  readable := true
  writable := true

/-- The write that fills the gap fails, and leaves the cursor at the old end. -/
theorem gap_moves_cursor
    : ¬ ∀ (desc : FileDesc (FileWrapper FailingFile)) (buf : List UInt8),
        desc.file.offset < 2 ^ 64 → desc.file.isAppend = false → desc.WritesAtCursor buf := by
  intro writes
  have fails : FileWrapper.writeLoop (⟨[1], 1, 2⟩ : FailingFile) 0 [0, 0]
      = (.error .Io, ⟨[1, 0], 2, 2⟩) := by
    rw [FileWrapper.writeLoop]
    dsimp [FatFile.write]
    rw [FileWrapper.writeLoop]
    rfl
  have filling : VfsNodeOps.writeAt (⟨⟨[1], 0, 2⟩⟩ : FileWrapper FailingFile) 1 [0, 0]
      = (.error .Io, ⟨⟨[1, 0], 2, 2⟩⟩) := by
    have sought : FatFile.seekStart (⟨[1], 0, 2⟩ : FailingFile) 1 = (.ok (), ⟨[1], 1, 2⟩) := rfl
    rw [VfsNodeOps.writeAt, FileWrapper.instVfsNodeOps]
    dsimp only [FileWrapper.writeAt]
    rw [sought]
    dsimp only
    rw [fails]
  have attr : VfsNodeOps.getAttr onFailingDevice.node = .ok 1 := rfl
  have done : onFailingDevice.write [7] = .ok
      (.error .Io, { onFailingDevice.setCursor 1 with node := ⟨⟨[1, 0], 2, 2⟩⟩ }) := by
    rw [write_eq (by decide) attr, if_pos (by decide)]
    simp [fileWrite, File.write, File.startWrite, File.finishWrite, setCursor, onFailingDevice,
      filling]
  have kept : 1 = 3 := writes onFailingDevice [7] (by decide) rfl _ done
  exact absurd kept (by decide)

end RCoreOS.LinuxSyscallApi.FileDesc
