import RCoreOS.Axmem.FilePosition

/-! What a page of a file mapping holds after its fault. The file is read up to its end; the rest
of the frame is left as the allocator gave it.
-/

namespace RCoreOS.Axmem

open PageTable Outcome

variable {fs : Vfs} {file : File} {content : List UInt8}

/-- The node holds the content: a read before the end returns the next bytes, at least one of
them, and a read at the end or behind it returns nothing.
-/
structure Vfs.Holds (fs : Vfs) (node : Nat) (content : List UInt8) : Prop where
  size : fs.getAttr node = some content.length
  reads (offset len : Nat) : 0 < len → ∃ chunk, fs.readAt node offset len = some chunk
    ∧ chunk.length ≤ len ∧ chunk <+: content.drop offset
    ∧ (chunk = [] → content.drop offset = [])

/-- A read returns the next bytes. -/
theorem Vfs.Holds.read {len : Nat} (holds : fs.Holds file.node content)
    (readable : file.readable = true) (positive : 0 < len)
    : ∃ chunk, file.read fs len = some (chunk, { file with offset := file.offset + chunk.length })
      ∧ chunk.length ≤ len ∧ chunk = (content.drop file.offset).take chunk.length
      ∧ (chunk = [] → content.drop file.offset = []) := by
  obtain ⟨chunk, run, fits, start, stops⟩ := holds.reads file.offset len positive
  refine ⟨chunk, ?_, fits, List.prefix_iff_eq_take.mp start, stops⟩
  simp [File.read, readable, run, List.take_of_length_le fits, fits]

/-- Reading until the buffer is full returns all bytes from the cursor on that fit in, however
they come in chunks; by induction on the reads.
-/
theorem Vfs.Holds.readFull (len : Nat) (holds : fs.Holds file.node content)
    (readable : file.readable = true)
    : ∃ file', file.readFull fs len = some ((content.drop file.offset).take len, file') := by
  induction file, len using File.readFull.induct fs with
  | case1 file =>
      exact ⟨file, by rw [File.readFull, if_pos rfl, List.take_zero]⟩
  | case2 file len more failed =>
      obtain ⟨chunk, run, -⟩ := holds.read readable (Nat.pos_of_ne_zero more)
      rw [run] at failed
      cases failed
  | case3 file len more file₁ read =>
      obtain ⟨chunk, run, -, -, stops⟩ := holds.read readable (Nat.pos_of_ne_zero more)
      rw [run] at read
      cases read
      refine ⟨{ file with offset := file.offset + 0 }, ?_⟩
      rw [File.readFull, if_neg more, run, stops rfl, List.take_nil]
      rfl
  | case4 file len more byte chunk file₁ read stops ih =>
      obtain ⟨_, run, -⟩ := holds.read readable (Nat.pos_of_ne_zero more)
      rw [run] at read
      cases read
      obtain ⟨file', goesOn⟩ := ih holds readable
      rw [goesOn] at stops
      cases stops
  | case5 file len more byte chunk file₁ read rest file₂ goesOn ih =>
      obtain ⟨_, run, fits, start, -⟩ := holds.read readable (Nat.pos_of_ne_zero more)
      rw [run] at read
      cases read
      obtain ⟨file', goesOn'⟩ := ih holds readable
      rw [goesOn] at goesOn'
      cases goesOn'
      refine ⟨file₂, ?_⟩
      rw [File.readFull, if_neg more, run]
      simp only [goesOn, Option.some.injEq, Prod.mk.injEq, and_true]
      have first : (content.drop file.offset).take (chunk.length + 1) = byte :: chunk := start.symm
      have total : chunk.length + 1 + (len - (chunk.length + 1)) = len := Nat.add_sub_cancel' fits
      rw [List.length_cons, ← first, ← List.drop_drop, ← List.take_add, total]

/-- The byte at an index of a page that is filled from the file: the next byte of the file, or what
the frame has.
-/
theorem Vfs.Holds.loadedByte {backend : MemBackend} (holds : fs.Holds backend.file.node content)
    (readable : backend.file.readable = true) (old : UInt8) {i : Nat} (inside : i < PAGE_SIZE_4K)
    : MapArea.loadedByte fs (some backend) old i
      = (content[backend.file.offset + i]?).getD old := by
  obtain ⟨file', read⟩ := holds.readFull PAGE_SIZE_4K readable
  simp only [MapArea.loadedByte, read, List.getElem?_take_of_lt inside, List.getElem?_drop]

namespace MemorySet

variable {PTE σ : Type} [GenericPTE PTE] [GlobalAllocator σ] {s s' : MemorySet PTE σ}
  {area : MapArea} {key va : Nat} {flags : MappingFlags}

/-- A fault that is handled takes a frame from the allocator, fills it from the position of the page
and puts it into the slot of the page.
-/
theorem handlePageFault_ok (tidy : Tidy s []) (found : s.findArea va = some (key, area))
    (run : s.handlePageFault fs va flags = .ok (.ok (), s'))
    : ∃ page : PhysPage, (PhysPage.alloc s.toMachine).1 = .ok page
      ∧ s'.ownedMem = (s.ownedMem.insert key
          { area with pages := area.pages.set ((va - area.vaddr) / 4096) (some page) }).2
      ∧ ∀ i, i < PAGE_SIZE_4K → s'.bytes (page.paddr + i) = MapArea.loadedByte fs
          (area.position (va - va % 4096)) (s.bytes (page.paddr + i)) i := by
  obtain ⟨pre, post, split, lower, upper⟩ := tidy.findArea found
  have placed : area.Placed := tidy.placed area (List.mem_map_of_mem (f := Prod.snd)
    (split ▸ List.mem_append_right pre (.head post)))
  rw [MemorySet.handlePageFault, found] at run
  obtain ⟨⟨handled, area', m⟩, handle, rest⟩ := bind_eq_ok.mp run
  cases (MapArea.handlePageFault_returns placed lower upper flags).of_ok handle with
  | inl refused =>
      obtain ⟨rfl, rfl⟩ := refused
      simp at rest
  | inr loaded =>
      obtain ⟨rfl, page, alloc, empty, rfl, bytes⟩ := loaded
      cases rest
      exact ⟨page, alloc, rfl, bytes⟩

/-- The bytes of a frame are those of the file from an offset on, with zeros behind its end. -/
def FilePage (content : List UInt8) (offset : Nat) (bytes : Nat → UInt8) (paddr : Nat) : Prop :=
  ∀ i, i < PAGE_SIZE_4K → bytes (paddr + i) = (content[offset + i]?).getD 0

/-- A page of a file mapping shows the file with zeros behind its end exactly if the part of the
frame that lies behind the end was zero before: in particular if the file does not end in the
page.
-/
theorem handlePageFault_zeroes_iff {backend : MemBackend} (tidy : Tidy s [])
    (found : s.findArea va = some (key, area))
    (position : area.position (va - va % 4096) = some backend)
    (holds : fs.Holds backend.file.node content) (readable : backend.file.readable = true)
    (run : s.handlePageFault fs va flags = .ok (.ok (), s'))
    : ∃ page : PhysPage, (PhysPage.alloc s.toMachine).1 = .ok page
      ∧ s'.ownedMem = (s.ownedMem.insert key
          { area with pages := area.pages.set ((va - area.vaddr) / 4096) (some page) }).2
      ∧ (FilePage content backend.file.offset s'.bytes page.paddr
        ↔ ∀ i, i < PAGE_SIZE_4K → content.length ≤ backend.file.offset + i
          → s.bytes (page.paddr + i) = 0) := by
  obtain ⟨page, alloc, slot, bytes⟩ := handlePageFault_ok tidy found run
  refine ⟨page, alloc, slot, ?_⟩
  have shown (i : Nat) (inside : i < PAGE_SIZE_4K) : s'.bytes (page.paddr + i)
      = (content[backend.file.offset + i]?).getD (s.bytes (page.paddr + i)) := by
    rw [bytes i inside, position, holds.loadedByte readable _ inside]
  constructor
  · intro right i inside behind
    have here := right i inside
    rw [shown i inside, List.getElem?_eq_none behind] at here
    exact here
  · intro zero i inside
    rw [shown i inside]
    rcases Nat.lt_or_ge (backend.file.offset + i) content.length with before | behind
    · rw [List.getElem?_eq_getElem before, Option.getD_some, Option.getD_some]
    · rw [List.getElem?_eq_none behind, Option.getD_none, Option.getD_none, zero i inside behind]

/-- A file system of files with one content. -/
def sameFiles (content : List UInt8) : Vfs where
  getAttr _ := some content.length
  readAt _ offset len := some ((content.drop offset).take len)

theorem sameFiles_holds (content : List UInt8) (node : Nat)
    : (sameFiles content).Holds node content where
  size := rfl
  reads offset len positive := by
    refine ⟨_, rfl, List.length_take_le .., List.take_prefix .., fun none => ?_⟩
    exact (List.take_eq_nil_iff.mp none).resolve_left (Nat.ne_of_gt positive)

/-- An open file. -/
def readFile : MemBackend where
  file := { node := 0, readable := true, writable := false, isAppend := false, offset := 0 }

/-- A memory set over memory that is full of sevens maps one page of a file. -/
def tailMapped (content : List UInt8) : Except Crash (MemorySet Rv64PTE PagePool) := do
  let s ← newEmpty blank (fun _ => 7)
  let (_, s) ← s.mmap (sameFiles content) 0x1000 0x1000 { read := true } true (some readFile)
  return s

/-- The page is touched; the fourth byte of the frame that its area then has. -/
def tailTouched (content : List UInt8) : Except Crash (AxResult Unit × Option UInt8) := do
  let s ← tailMapped content
  let (result, s) ← s.handlePageFault (sameFiles content) 0x1000 { read := true }
  let slot := (s.findArea 0x1000).bind fun (_, area) => area.pages[0]?.join
  return (result, slot.map fun page => s.bytes (page.paddr + 3))

/-- Witness: a file that ends behind the page. -/
theorem handlePageFault_zeroes_iff_whole
    : ∃ s s' page, tailMapped (List.replicate 4096 1) = .ok s
      ∧ s.handlePageFault (sameFiles (List.replicate 4096 1)) 0x1000 { read := true }
        = .ok (.ok (), s')
      ∧ (PhysPage.alloc s.toMachine).1 = .ok page
      ∧ FilePage (List.replicate 4096 1) 0 s'.bytes page.paddr := by
  have shape : ((tailMapped (List.replicate 4096 1)).map fun s =>
      (s.findArea 0x1000).map fun (_, area) => area.position 0x1000)
        = .ok (some (some readFile)) := by
    decide +kernel
  have touched : tailTouched (List.replicate 4096 1) = .ok (.ok (), some 1) := by
    decide +kernel
  obtain ⟨s, mapped, more⟩ := bind_eq_ok.mp touched
  obtain ⟨⟨result, s'⟩, fault, rest⟩ := bind_eq_ok.mp more
  obtain ⟨rfl, -⟩ := Prod.mk.inj (Except.ok.inj rest)
  rw [mapped] at shape
  obtain ⟨⟨key, area⟩, found, position⟩ := Option.map_eq_some_iff.mp (Except.ok.inj shape)
  obtain ⟨first, created, build⟩ := bind_eq_ok.mp mapped
  obtain ⟨⟨addr, s⟩, run, same⟩ := bind_eq_ok.mp build
  cases same
  have fresh : first.ownedMem = .empty := newEmpty_areas created
  have keeping := ((Keeping.mmap (.of_empty fresh)
    ⟨by decide, by decide, by decide, by simp⟩).of_ok run).1
  obtain ⟨page, alloc, -, zeroes⟩ := handlePageFault_zeroes_iff keeping.tidy found position
    (sameFiles_holds _ 0) rfl fault
  refine ⟨s, s', page, mapped, fault, alloc, zeroes.mpr fun i inside behind => ?_⟩
  rw [List.length_replicate] at behind
  exact absurd behind (Nat.not_le_of_lt ((Nat.zero_add i).symm ▸ inside))

/-- Behind a file of three bytes the page shows what the frame held before. -/
theorem handlePageFault_leaves_stale_bytes
    : tailTouched [1, 2, 3] = .ok (.ok (), some 7) := by
  decide +kernel

end MemorySet

end RCoreOS.Axmem
