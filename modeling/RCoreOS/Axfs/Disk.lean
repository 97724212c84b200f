import RCoreOS.Axfs.File
import RCoreOS.Lib.Window

/-! The block disk under the FAT file system: a cursor of a block and an offset in it over a
device of 512-byte blocks, and the flat byte array that it stands for.
-/

namespace RCoreOS.Axfs

-----------------------------------------------------------------------------------------
-- The block device
-----------------------------------------------------------------------------------------

def BLOCK_SIZE : Nat := 512

/-- One block of the device. -/
structure Block where
  bytes : List UInt8
  sized : bytes.length = BLOCK_SIZE

/-- `DevError`, as far as the block operations return it themselves. -/
inductive DevError where
  | Io
deriving DecidableEq, Repr

/-- A device of blocks whose size in bytes is a `u64`. -/
structure AxBlockDevice where
  blocks : List Block
  small : blocks.length * BLOCK_SIZE < 2 ^ 64

namespace Block

/-- `block[start..start + part.len()].copy_from_slice(part)`. -/
def copyFromSlice (block : Block) (start : Nat) (part : List UInt8)
    (inside : start + part.length ≤ BLOCK_SIZE)
    : Block where
  bytes := block.bytes.patch start part
  sized := by
    rw [List.length_patch (by rw [block.sized]; exact inside), block.sized]

end Block

namespace AxBlockDevice

def numBlocks (dev : AxBlockDevice) : Nat :=
  dev.blocks.length

def readBlock (dev : AxBlockDevice) (blockId : Nat) : Except DevError Block :=
  match dev.blocks[blockId]? with
  | none => .error .Io
  | some block => .ok block

def writeBlock (dev : AxBlockDevice) (blockId : Nat) (block : Block)
    : Except DevError AxBlockDevice :=
  if blockId < dev.blocks.length then
    .ok { blocks := dev.blocks.set blockId block,
          small := by rw [List.length_set]; exact dev.small }
  else .error .Io

/-- The bytes of the device, block after block. -/
def bytes (dev : AxBlockDevice) : List UInt8 :=
  (dev.blocks.map Block.bytes).flatten

theorem blocks_sized (dev : AxBlockDevice)
    : ∀ bytes ∈ dev.blocks.map Block.bytes, bytes.length = BLOCK_SIZE := by
  intro bytes member
  obtain ⟨block, -, rfl⟩ := List.mem_map.mp member
  exact block.sized

theorem length_bytes (dev : AxBlockDevice)
    : dev.bytes.length = dev.numBlocks * BLOCK_SIZE := by
  rw [bytes, List.length_flatten_blocks dev.blocks_sized, List.length_map, numBlocks]

/-- A place of the device that is inside its bytes lies in one of its blocks. -/
theorem block_of_lt {dev : AxBlockDevice} {blockId offset : Nat}
    (inside : blockId * BLOCK_SIZE + offset < dev.bytes.length)
    : ∃ block, dev.blocks[blockId]? = some block := by
  rw [length_bytes, numBlocks] at inside
  have lower : blockId < dev.blocks.length :=
    Nat.lt_of_mul_lt_mul_right (Nat.lt_of_le_of_lt (Nat.le_add_right _ offset) inside)
  exact ⟨_, List.getElem?_eq_getElem lower⟩

/-- What a block holds from a place on is what the device holds there. -/
theorem window_block {dev : AxBlockDevice} {blockId start count : Nat} {block : Block}
    (found : dev.blocks[blockId]? = some block) (inside : start + count ≤ BLOCK_SIZE)
    : block.bytes.window start count = dev.bytes.window (blockId * BLOCK_SIZE + start) count := by
  refine (List.window_flatten dev.blocks_sized ?_ inside).symm
  rw [List.getElem?_map, found, Option.map_some]

/-- Writing back a block with one part changed changes that part of the device alone. -/
theorem writeBlock_patch {dev : AxBlockDevice} {blockId start : Nat} {block written : Block}
    {part : List UInt8} (found : dev.blocks[blockId]? = some block)
    (inside : start + part.length ≤ BLOCK_SIZE)
    (changed : written.bytes = block.bytes.patch start part)
    : ∃ dev', dev.writeBlock blockId written = .ok dev'
        ∧ dev'.bytes = dev.bytes.patch (blockId * BLOCK_SIZE + start) part := by
  have lower := (List.getElem?_eq_some_iff.mp found).1
  refine ⟨_, if_pos lower, ?_⟩
  rw [bytes, List.map_set, changed]
  refine List.patch_flatten dev.blocks_sized ?_ inside
  rw [List.getElem?_map, found, Option.map_some]

end AxBlockDevice

-----------------------------------------------------------------------------------------
-- The disk
-----------------------------------------------------------------------------------------

/-- A disk device with a cursor, whose offset stays inside one block. -/
structure Disk where
  blockId : Nat
  offset : Nat
  dev : AxBlockDevice
  inside : offset < BLOCK_SIZE

namespace Disk

def new (dev : AxBlockDevice) : Disk where
  blockId := 0
  offset := 0
  dev := dev
  inside := by decide

def size (disk : Disk) : Nat :=
  disk.dev.numBlocks * BLOCK_SIZE

/-- The position of the cursor, in `u64`. -/
def position (disk : Disk) : Nat :=
  (disk.blockId * BLOCK_SIZE + disk.offset) % 2 ^ 64

def setPosition (disk : Disk) (pos : Nat) : Disk :=
  { disk with
    blockId := pos / BLOCK_SIZE,
    offset := pos % BLOCK_SIZE,
    inside := Nat.mod_lt _ (by decide) }

/-- The cursor after `count` bytes of a part of its block. -/
def advance (disk : Disk) (count : Nat) (fits : count ≤ BLOCK_SIZE - disk.offset) : Disk :=
  if full : BLOCK_SIZE ≤ disk.offset + count then
    { disk with
      blockId := disk.blockId + 1,
      offset := disk.offset + count - BLOCK_SIZE,
      inside := by have := disk.inside; omega }
  else { disk with offset := disk.offset + count, inside := Nat.lt_of_not_le full }

/-- Read within one block, returns the bytes read. -/
def readOne (disk : Disk) (len : Nat) : Except DevError (List UInt8 × Disk) := do
  if disk.offset = 0 ∧ BLOCK_SIZE ≤ len then
    -- whole block
    let data ← disk.dev.readBlock disk.blockId
    return (data.bytes, { disk with blockId := disk.blockId + 1 })
  else
    -- partial block
    let count := min len (BLOCK_SIZE - disk.offset)
    let data ← disk.dev.readBlock disk.blockId
    return (data.bytes.window disk.offset count, disk.advance count (Nat.min_le_right _ _))

/-- Write within one block, returns the number of bytes written. -/
def writeOne (disk : Disk) (buf : List UInt8) : Except DevError (Nat × Disk) :=
  if whole : disk.offset = 0 ∧ BLOCK_SIZE ≤ buf.length then do
    let data : Block := ⟨buf.take BLOCK_SIZE, List.length_take_of_le whole.2⟩
    let dev ← disk.dev.writeBlock disk.blockId data
    return (BLOCK_SIZE, { disk with blockId := disk.blockId + 1, dev := dev })
  else do
    let count := min buf.length (BLOCK_SIZE - disk.offset)
    let data ← disk.dev.readBlock disk.blockId
    let data := data.copyFromSlice disk.offset (buf.take count) (by
      have := disk.inside
      rw [List.length_take]
      omega)
    let dev ← disk.dev.writeBlock disk.blockId data
    return (count, { disk with dev := dev }.advance count (Nat.min_le_right _ _))

/-- `Read for Disk`, with the bytes that were stored in a buffer of length `len`. -/
def read (disk : Disk) (len : Nat) : Except Unit (List UInt8) × Disk :=
  if len = 0 then (.ok [], disk)
  else
    match disk.readOne len with
    | .error _ => (.error (), disk)
    | .ok (data, disk) =>
        if data.length = 0 then (.ok [], disk)
        else
          let (rest, disk) := disk.read (len - data.length)
          (rest.map (data ++ ·), disk)
termination_by len

/-- `Write for Disk`, returns the number of bytes written. -/
def write (disk : Disk) (buf : List UInt8) : Except Unit Nat × Disk :=
  if buf = [] then (.ok 0, disk)
  else
    match disk.writeOne buf with
    | .error _ => (.error (), disk)
    | .ok (n, disk) =>
        if n = 0 then (.ok 0, disk)
        else
          let (rest, disk) := disk.write (buf.drop n)
          (rest.map (n + ·), disk)
termination_by buf.length
decreasing_by
  rw [List.length_drop]
  have := List.length_pos_iff.mpr ‹buf ≠ []›
  omega

/-- `Seek for Disk`. -/
def seek (disk : Disk) (pos : SeekFrom) : Except Unit Nat × Disk :=
  match pos.target disk.position disk.size with
  | none => (.error (), disk)
  | some newPos => (.ok newPos, disk.setPosition newPos)

end Disk

-----------------------------------------------------------------------------------------
-- The flat byte array
-----------------------------------------------------------------------------------------

inductive DiskCall where
  | seek (pos : SeekFrom)
  | read (len : Nat)
  | write (buf : List UInt8)

inductive DiskAnswer where
  | sought (result : Except Unit Nat)
  | read (result : Except Unit (List UInt8))
  | wrote (result : Except Unit Nat)

/-- An array of bytes with a cursor. -/
structure FlatDisk where
  bytes : List UInt8
  pos : Nat

namespace FlatDisk

/-- A read returns the bytes at the cursor and advances over them, a write replaces exactly
the bytes at the cursor and advances over them.
-/
def perform (flat : FlatDisk) : DiskCall → DiskAnswer × FlatDisk
  | .seek pos =>
      match pos.target flat.pos flat.bytes.length with
      | none => (.sought (.error ()), flat)
      | some newPos => (.sought (.ok newPos), { flat with pos := newPos })
  | .read len =>
      (.read (.ok (flat.bytes.window flat.pos len)), { flat with pos := flat.pos + len })
  | .write buf =>
      (.wrote (.ok buf.length),
        { bytes := flat.bytes.patch flat.pos buf, pos := flat.pos + buf.length })

def run (flat : FlatDisk) : List DiskCall → List DiskAnswer × FlatDisk
  | [] => ([], flat)
  | call :: rest =>
      let (answer, flat) := flat.perform call
      let (answers, flat) := flat.run rest
      (answer :: answers, flat)

/-- Every byte of a range of `len` bytes at the cursor is a byte of the array. -/
def Covers (flat : FlatDisk) (len : Nat) : Prop :=
  len = 0 ∨ flat.pos + len ≤ flat.bytes.length

/-- The call stays within the array; a position asked for is a `u64`. -/
def Within (flat : FlatDisk) : DiskCall → Prop
  | .seek (.Start pos) => pos < 2 ^ 64
  | .seek _ => True
  | .read len => flat.Covers len
  | .write buf => flat.Covers buf.length

/-- Each of the calls stays within the array when it is made. -/
def AllWithin (flat : FlatDisk) : List DiskCall → Prop
  | [] => True
  | call :: rest => flat.Within call ∧ (flat.perform call).2.AllWithin rest

/-- The position that a seek moves to is a `u64`. -/
theorem target_lt {flat : FlatDisk} {pos : SeekFrom} {newPos : Nat}
    (within : flat.Within (.seek pos))
    (target : pos.target flat.pos flat.bytes.length = some newPos)
    : newPos < 2 ^ 64 := by
  cases pos with
  | Start pos =>
      cases target
      exact within
  | Current off => exact checkedAddSigned_lt target
  | End off => exact checkedAddSigned_lt target

/-- A write that stays within the array leaves the bytes outside its range. -/
theorem write_outside {flat : FlatDisk} {buf : List UInt8} {place : Nat}
    (within : flat.Within (.write buf))
    (outside : place < flat.pos ∨ flat.pos + buf.length ≤ place)
    : (flat.perform (.write buf)).2.bytes[place]? = flat.bytes[place]? := by
  rcases within with empty | inside
  · simp [perform, List.length_eq_zero_iff.mp empty]
  · rw [perform, List.getElem?_patch (by omega), if_neg (by omega)]

/-- A write that stays within the array stores its bytes in its range. -/
theorem write_inside {flat : FlatDisk} {buf : List UInt8} {place : Nat}
    (within : flat.Within (.write buf)) (inside : place < buf.length)
    : (flat.perform (.write buf)).2.bytes[flat.pos + place]? = buf[place]? := by
  rcases within with empty | fits
  · omega
  · rw [perform, List.getElem?_patch (by omega), if_pos (by omega), Nat.add_sub_cancel_left]

end FlatDisk

-----------------------------------------------------------------------------------------
-- The disk refines the byte array
-----------------------------------------------------------------------------------------

namespace Disk

def perform (disk : Disk) : DiskCall → DiskAnswer × Disk
  | .seek pos =>
      let (result, disk) := disk.seek pos
      (.sought result, disk)
  | .read len =>
      let (result, disk) := disk.read len
      (.read result, disk)
  | .write buf =>
      let (result, disk) := disk.write buf
      (.wrote result, disk)

def run (disk : Disk) : List DiskCall → List DiskAnswer × Disk
  | [] => ([], disk)
  | call :: rest =>
      let (answer, disk) := disk.perform call
      let (answers, disk) := disk.run rest
      (answer :: answers, disk)

/-- The disk stands for the byte array: its blocks hold the bytes, its cursor is there. -/
structure Represents (disk : Disk) (flat : FlatDisk) : Prop where
  bytes : disk.dev.bytes = flat.bytes
  cursor : disk.blockId * BLOCK_SIZE + disk.offset = flat.pos
  small : flat.pos < 2 ^ 64

namespace Represents

variable {disk : Disk} {flat : FlatDisk}

theorem position (represents : Represents disk flat) : disk.position = flat.pos := by
  rw [Disk.position, represents.cursor, Nat.mod_eq_of_lt represents.small]

theorem size (represents : Represents disk flat) : disk.size = flat.bytes.length := by
  rw [Disk.size, ← AxBlockDevice.length_bytes, represents.bytes]

/-- A position inside the array is a `u64`. -/
theorem small_of_le (represents : Represents disk flat) {pos : Nat}
    (inside : pos ≤ flat.bytes.length)
    : pos < 2 ^ 64 := by
  rw [← represents.bytes, AxBlockDevice.length_bytes] at inside
  exact Nat.lt_of_le_of_lt inside disk.dev.small

/-- The block under a cursor that is inside the array. -/
theorem block (represents : Represents disk flat) (inside : flat.pos < flat.bytes.length)
    : ∃ block, disk.dev.blocks[disk.blockId]? = some block := by
  rw [← represents.bytes, ← represents.cursor] at inside
  exact AxBlockDevice.block_of_lt inside

/-- The disk with its cursor moved inside the block or to the next one. -/
theorem advance (represents : Represents disk flat) {count : Nat}
    (fits : count ≤ BLOCK_SIZE - disk.offset) (inside : flat.pos + count ≤ flat.bytes.length)
    : Represents (disk.advance count fits) { flat with pos := flat.pos + count } := by
  have small := represents.small_of_le inside
  have cursor := represents.cursor
  rw [Disk.advance]
  split
  · refine ⟨represents.bytes, ?_, small⟩
    simp only [Nat.succ_mul]
    omega
  · refine ⟨represents.bytes, ?_, small⟩
    simp only
    omega

/-- The disk with its cursor moved over a whole block. -/
theorem nextBlock (represents : Represents disk flat)
    (inside : flat.pos + BLOCK_SIZE ≤ flat.bytes.length)
    : Represents { disk with blockId := disk.blockId + 1 }
        { flat with pos := flat.pos + BLOCK_SIZE } := by
  have cursor := represents.cursor
  refine ⟨represents.bytes, ?_, represents.small_of_le inside⟩
  simp only [Nat.succ_mul]
  omega

end Represents

/-- A read within one block returns the bytes at the cursor, and at least one of them. -/
theorem readOne_spec {disk : Disk} {flat : FlatDisk} {len : Nat}
    (represents : Represents disk flat) (more : 0 < len)
    (inside : flat.pos + len ≤ flat.bytes.length)
    : ∃ count disk', 0 < count ∧ count ≤ len
        ∧ disk.readOne len = .ok (flat.bytes.window flat.pos count, disk')
        ∧ Represents disk' { flat with pos := flat.pos + count } := by
  obtain ⟨block, found⟩ := represents.block (by omega)
  have loaded : disk.dev.readBlock disk.blockId = .ok block := by
    rw [AxBlockDevice.readBlock, found]
  have bound := disk.inside
  rw [readOne, loaded]
  split
  · next whole =>
      refine ⟨BLOCK_SIZE, _, by decide, whole.2, ?_, represents.nextBlock (by omega)⟩
      have content := AxBlockDevice.window_block found (Nat.zero_add BLOCK_SIZE).le
      rw [← whole.1, represents.cursor, represents.bytes, whole.1] at content
      rw [← content, List.window, List.drop_zero, List.take_of_length_le block.sized.le]
      rfl
  · refine ⟨min len (BLOCK_SIZE - disk.offset), _, by omega, Nat.min_le_left _ _, ?_,
      represents.advance (Nat.min_le_right _ _) (by omega)⟩
    have fits : disk.offset + min len (BLOCK_SIZE - disk.offset) ≤ BLOCK_SIZE := by omega
    have content := AxBlockDevice.window_block found fits
    rw [represents.cursor, represents.bytes] at content
    rw [← content]
    rfl

/-- A read within the array returns the bytes at the cursor, by induction on the length. -/
theorem read_spec {disk : Disk} {flat : FlatDisk} {len : Nat}
    (represents : Represents disk flat) (inside : flat.pos + len ≤ flat.bytes.length)
    : ∃ disk', disk.read len = (.ok (flat.bytes.window flat.pos len), disk')
        ∧ Represents disk' { flat with pos := flat.pos + len } := by
  induction len using Nat.strongRecOn generalizing disk flat with
  | _ len ih =>
      rw [read]
      by_cases done : len = 0
      · subst done
        refine ⟨disk, ?_, represents⟩
        rw [if_pos rfl, List.window_zero]
      · obtain ⟨count, disk', some, fits, stepped, represents'⟩ :=
          readOne_spec represents (Nat.pos_of_ne_zero done) inside
        have length : (flat.bytes.window flat.pos count).length = count :=
          List.length_window (by omega)
        obtain ⟨last, rest, represents''⟩ := ih (len - count) (by omega) represents' (by
          simp only
          omega)
        refine ⟨last, ?_, ?_⟩
        · rw [if_neg done, stepped]
          simp only [length, if_neg (Nat.ne_of_gt some), rest, Except.map]
          rw [← List.window_add, Nat.add_sub_cancel' fits]
        · simp only [Nat.add_assoc, Nat.add_sub_cancel' fits] at represents''
          exact represents''

/-- The device with the bytes at the cursor replaced. -/
theorem Represents.patched {disk : Disk} {flat : FlatDisk} {dev : AxBlockDevice}
    {part : List UInt8} (represents : Represents disk flat)
    (written : dev.bytes = flat.bytes.patch flat.pos part)
    : Represents { disk with dev := dev }
        { flat with bytes := flat.bytes.patch flat.pos part } :=
  ⟨written, represents.cursor, represents.small⟩

/-- A write within one block replaces the bytes at the cursor by the first of the buffer, and
at least one of them.
-/
theorem writeOne_spec {disk : Disk} {flat : FlatDisk} {buf : List UInt8}
    (represents : Represents disk flat) (more : buf ≠ [])
    (inside : flat.pos + buf.length ≤ flat.bytes.length)
    : ∃ count disk', 0 < count ∧ count ≤ buf.length ∧ disk.writeOne buf = .ok (count, disk')
        ∧ Represents disk' { bytes := flat.bytes.patch flat.pos (buf.take count),
                             pos := flat.pos + count } := by
  have some := List.length_pos_iff.mpr more
  obtain ⟨block, found⟩ := represents.block (by omega)
  have loaded : disk.dev.readBlock disk.blockId = .ok block := by
    rw [AxBlockDevice.readBlock, found]
  have bound := disk.inside
  rw [writeOne]
  split
  · next whole =>
      have size : (buf.take BLOCK_SIZE).length = BLOCK_SIZE := List.length_take_of_le whole.2
      have covers : buf.take BLOCK_SIZE = block.bytes.patch 0 (buf.take BLOCK_SIZE) := by
        rw [List.patch, List.take_zero, List.nil_append, size, Nat.zero_add,
          List.drop_of_length_le block.sized.le, List.append_nil]
      let data : Block := ⟨buf.take BLOCK_SIZE, size⟩
      obtain ⟨dev, written, bytes⟩ :
          ∃ dev, disk.dev.writeBlock disk.blockId data = .ok dev ∧ _ :=
        AxBlockDevice.writeBlock_patch found (by omega) covers
      rw [← whole.1, represents.cursor, represents.bytes] at bytes
      have patched := represents.patched bytes
      refine ⟨BLOCK_SIZE, _, by decide, whole.2, ?_, patched.nextBlock ?_⟩
      · exact Outcome.bind_eq_ok.mpr ⟨dev, written, rfl⟩
      · simp only [List.length_patch (show flat.pos + (buf.take BLOCK_SIZE).length
          ≤ flat.bytes.length by omega)]
        omega
  · have size : (buf.take (min buf.length (BLOCK_SIZE - disk.offset))).length
        = min buf.length (BLOCK_SIZE - disk.offset) := List.length_take_of_le (Nat.min_le_left _ _)
    have fits : disk.offset + (buf.take (min buf.length (BLOCK_SIZE - disk.offset))).length
        ≤ BLOCK_SIZE := by omega
    let data := block.copyFromSlice disk.offset _ fits
    obtain ⟨dev, written, bytes⟩ :
        ∃ dev, disk.dev.writeBlock disk.blockId data = .ok dev ∧ _ :=
      AxBlockDevice.writeBlock_patch found fits rfl
    rw [represents.cursor, represents.bytes] at bytes
    have patched := represents.patched bytes
    refine ⟨min buf.length (BLOCK_SIZE - disk.offset), _, by omega, Nat.min_le_left _ _, ?_,
      patched.advance (Nat.min_le_right _ _) ?_⟩
    · refine Outcome.bind_eq_ok.mpr ⟨block, loaded, ?_⟩
      exact Outcome.bind_eq_ok.mpr ⟨dev, written, rfl⟩
    · simp only [List.length_patch (show flat.pos + (buf.take (min buf.length
        (BLOCK_SIZE - disk.offset))).length ≤ flat.bytes.length by omega)]
      omega

/-- A write within the array replaces the bytes at the cursor, by induction on the buffer. -/
theorem write_spec {disk : Disk} {flat : FlatDisk} {buf : List UInt8}
    (represents : Represents disk flat) (inside : flat.pos + buf.length ≤ flat.bytes.length)
    : ∃ disk', disk.write buf = (.ok buf.length, disk')
        ∧ Represents disk' { bytes := flat.bytes.patch flat.pos buf,
                             pos := flat.pos + buf.length } := by
  induction fewer : buf.length using Nat.strongRecOn generalizing buf disk flat with
  | _ len ih =>
      subst fewer
      rw [write]
      by_cases done : buf = []
      · subst done
        refine ⟨disk, if_pos rfl, ?_⟩
        rw [List.patch_nil]
        exact represents
      · obtain ⟨count, disk', some, fits, stepped, represents'⟩ :=
          writeOne_spec represents done inside
        have size : (buf.take count).length = count := List.length_take_of_le fits
        have left : (buf.drop count).length = buf.length - count := List.length_drop
        have whole : buf.take count ++ buf.drop count = buf := List.take_append_drop count buf
        have room : flat.pos + count + (buf.drop count).length
            ≤ (flat.bytes.patch flat.pos (buf.take count)).length := by
          rw [List.length_patch (by omega)]
          omega
        obtain ⟨last, rest, represents''⟩ :=
          ih (buf.drop count).length (by omega) represents' room rfl
        refine ⟨last, ?_, ?_⟩
        · rw [if_neg done, stepped]
          simp only [if_neg (Nat.ne_of_gt some), rest, Except.map, left,
            Nat.add_sub_cancel' fits]
        · have joined : (flat.bytes.patch flat.pos (buf.take count)).patch
              (flat.pos + (buf.take count).length) (buf.drop count)
              = flat.bytes.patch flat.pos (buf.take count ++ buf.drop count) :=
            List.patch_append (by omega)
          rw [size, whole] at joined
          simp only [joined, left, Nat.add_assoc, Nat.add_sub_cancel' fits] at represents''
          exact represents''

/-- A seek sets the cursor to the position asked for, or fails on both sides. -/
theorem seek_spec {disk : Disk} {flat : FlatDisk} {pos : SeekFrom}
    (represents : Represents disk flat) (within : flat.Within (.seek pos))
    : (disk.perform (.seek pos)).1 = (flat.perform (.seek pos)).1
      ∧ Represents (disk.perform (.seek pos)).2 (flat.perform (.seek pos)).2 := by
  rw [perform, seek, FlatDisk.perform, represents.position, represents.size]
  cases target : pos.target flat.pos flat.bytes.length with
  | none => exact ⟨rfl, represents⟩
  | some newPos =>
      refine ⟨rfl, represents.bytes, ?_, ?_⟩
      · simp only [setPosition]
        exact Nat.div_add_mod' newPos BLOCK_SIZE
      · exact FlatDisk.target_lt within target

/-- Every call that stays within the array has the same answer and effect on the disk. -/
theorem perform_spec {disk : Disk} {flat : FlatDisk} {call : DiskCall}
    (represents : Represents disk flat) (within : flat.Within call)
    : (disk.perform call).1 = (flat.perform call).1
      ∧ Represents (disk.perform call).2 (flat.perform call).2 := by
  cases call with
  | seek pos => exact seek_spec represents within
  | read len =>
      rcases within with empty | inside
      · subst empty
        rw [perform, read, if_pos rfl, FlatDisk.perform, List.window_zero]
        exact ⟨rfl, represents⟩
      · obtain ⟨disk', done, represents'⟩ := read_spec represents inside
        rw [perform, done]
        exact ⟨rfl, represents'⟩
  | write buf =>
      rcases within with empty | inside
      · cases List.length_eq_zero_iff.mp empty
        rw [perform, write, if_pos rfl, FlatDisk.perform, List.patch_nil]
        exact ⟨rfl, represents⟩
      · obtain ⟨disk', done, represents'⟩ := write_spec represents inside
        rw [perform, done]
        exact ⟨rfl, represents'⟩

/-- Calls that stay within the array, by induction on the calls. -/
theorem run_spec {disk : Disk} {flat : FlatDisk} {calls : List DiskCall}
    (represents : Represents disk flat) (within : flat.AllWithin calls)
    : (disk.run calls).1 = (flat.run calls).1
      ∧ Represents (disk.run calls).2 (flat.run calls).2 := by
  induction calls generalizing disk flat with
  | nil => exact ⟨rfl, represents⟩
  | cons call rest ih =>
      obtain ⟨answer, represents'⟩ := perform_spec represents within.1
      obtain ⟨answers, represents''⟩ := ih represents' within.2
      exact ⟨congrArg₂ List.cons answer answers, represents''⟩

/-- A disk refines the array of the bytes of its device: calls that stay within the array have
the answers of the array, keep the offset of the cursor inside a block, and leave the cursor
and the bytes as the array has them.
-/
theorem refines_flat (dev : AxBlockDevice) (calls : List DiskCall)
    (within : FlatDisk.AllWithin ⟨dev.bytes, 0⟩ calls)
    : let disk := (Disk.new dev).run calls
      let flat := FlatDisk.run ⟨dev.bytes, 0⟩ calls
      disk.1 = flat.1 ∧ disk.2.offset < BLOCK_SIZE ∧ disk.2.position = flat.2.pos
        ∧ disk.2.dev.bytes = flat.2.bytes := by
  have start : Represents (Disk.new dev) ⟨dev.bytes, 0⟩ :=
    ⟨rfl, by simp [new], Nat.two_pow_pos 64⟩
  obtain ⟨answers, represents⟩ := run_spec start within
  exact ⟨answers, (Disk.run (Disk.new dev) calls).2.inside, represents.position,
    represents.bytes⟩

def zeroBlock : Block where
  bytes := List.replicate BLOCK_SIZE 0
  sized := List.length_replicate

/-- Two blocks of zeros. -/
def twoBlocks : AxBlockDevice where
  blocks := [zeroBlock, zeroBlock]
  small := by decide

/-- A write over the boundary of two blocks and a read of what it wrote. -/
def crossing : List DiskCall :=
  [.seek (.Start 510), .write [1, 2, 3, 4], .seek (.Start 500), .read 500]

theorem refines_flat_crossing
    : let disk := (Disk.new twoBlocks).run crossing
      let flat := FlatDisk.run ⟨twoBlocks.bytes, 0⟩ crossing
      disk.1 = flat.1 ∧ disk.2.offset < BLOCK_SIZE ∧ disk.2.position = flat.2.pos
        ∧ disk.2.dev.bytes = flat.2.bytes := by
  refine refines_flat twoBlocks crossing ?_
  have length : twoBlocks.bytes.length = 1024 := twoBlocks.length_bytes
  have patched : (twoBlocks.bytes.patch 510 [1, 2, 3, 4]).length = 1024 :=
    (List.length_patch (by rw [length]; decide)).trans length
  refine ⟨(by omega : 510 < 2 ^ 64), .inr ?_, (by omega : 500 < 2 ^ 64), .inr ?_, trivial⟩
  · exact (by decide : 510 + 4 ≤ 1024).trans length.ge
  · exact (by decide : 500 + 500 ≤ 1024).trans patched.ge

end Disk

end RCoreOS.Axfs
