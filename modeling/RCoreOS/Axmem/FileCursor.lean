import RCoreOS.Axmem.MapArea

/-! The cursors of files behind areas. Reads and writes at an offset put the cursor back, and a
new page is filled from its position in the file. Nothing is said about calls that do not
return, except for files that can be accessed.
-/

namespace RCoreOS.Axmem

open PageTable GenericPTE Outcome

variable {fs : Vfs} {file file' : File} {backend : MemBackend} {n : Nat}

theorem asI64_of_lt {n : Nat} (small : n < 2 ^ 63) : asI64 n = n :=
  if_pos small

-----------------------------------------------------------------------------------------
-- Cursors
-----------------------------------------------------------------------------------------

/-- The file with its cursor moved on. -/
def MemBackend.forward (backend : MemBackend) (d : Nat) : MemBackend :=
  ⟨{ backend.file with offset := backend.file.offset + d }⟩

/-- The files are the same up to their cursors. -/
def File.SameFile (file file' : File) : Prop :=
  ∀ offset, { file' with offset } = { file with offset }

theorem File.SameFile.trans {file'' : File} (first : file.SameFile file')
    (second : file'.SameFile file'')
    : file.SameFile file'' :=
  fun offset => (second offset).trans (first offset)

theorem File.seek_start_inv {pos : Nat} (run : file.seek fs (.start pos) = some (n, file'))
    : n = pos ∧ file' = { file with offset := pos } := by
  rcases attr : fs.getAttr file.node with _ | size
  · simp [File.seek, attr] at run
  · simp only [File.seek, attr, Option.bind_eq_bind, Option.bind_some, Option.pure_def,
      Option.some.injEq, Prod.mk.injEq] at run
    exact ⟨run.1.symm, run.2.symm⟩

theorem checkedAddSigned_inv {m : Nat} {off : Int} (run : checkedAddSigned n off = some m)
    : (m : Int) = n + off := by
  unfold checkedAddSigned at run
  rw [Option.ite_none_right_eq_some] at run
  obtain ⟨⟨positive, -⟩, made⟩ := run
  cases made
  exact Int.toNat_of_nonneg positive

theorem File.seek_current_inv {d : Nat} (run : file.seek fs (.current d) = some (n, file'))
    : n = file.offset + d ∧ file' = { file with offset := n } := by
  rcases attr : fs.getAttr file.node with _ | size
  · simp [File.seek, attr] at run
  rcases target : checkedAddSigned file.offset d with _ | m
  · simp [File.seek, attr, target] at run
  simp only [File.seek, attr, target, Option.bind_eq_bind, Option.bind_some, Option.pure_def,
    Option.some.injEq, Prod.mk.injEq] at run
  obtain ⟨rfl, rfl⟩ := run
  exact ⟨Int.natCast_inj.mp (checkedAddSigned_inv target), rfl⟩

theorem File.read_same {len : Nat} {data : List UInt8}
    (run : file.read fs len = some (data, file'))
    : file.SameFile file' := by
  unfold File.read at run
  split at run
  · obtain ⟨chunk, -, made⟩ := Option.bind_eq_some_iff.mp run
    cases made
    exact fun offset => rfl
  · cases run

/-- What holds of no reads, and of a read before others, holds of all reads until there is no more
or enough; by induction on the reads.
-/
theorem File.readFull_rule (inv : File → Nat → List UInt8 → File → Prop) {len : Nat}
    {data : List UInt8} (enough : ∀ file, inv file 0 [] file)
    (atEnd : ∀ {file len file₁}, file.read fs len = some ([], file₁) → inv file len [] file₁)
    (turn
      : ∀ {file len chunk file₁ rest file₂}, file.read fs len = some (chunk, file₁)
        → inv file₁ (len - chunk.length) rest file₂ → inv file len (chunk ++ rest) file₂)
    (run : file.readFull fs len = some (data, file'))
    : inv file len data file' := by
  induction file, len using File.readFull.induct fs generalizing data file' with
  | case1 file =>
      rw [File.readFull, if_pos rfl] at run
      cases run
      exact enough file
  | case2 file len more failed =>
      rw [File.readFull, if_neg more, failed] at run
      cases run
  | case3 file len more file₁ read =>
      rw [File.readFull, if_neg more, read] at run
      cases run
      exact atEnd read
  | case4 file len more byte chunk file₁ read stops ih =>
      rw [File.readFull, if_neg more, read] at run
      simp [stops] at run
  | case5 file len more byte chunk file₁ read rest file₂ goesOn ih =>
      rw [File.readFull, if_neg more, read] at run
      simp only [goesOn, Option.some.injEq, Prod.mk.injEq] at run
      obtain ⟨rfl, rfl⟩ := run
      exact turn read (ih goesOn)

/-- Reading moves nothing but the cursor. -/
theorem File.readFull_same {len : Nat} {data : List UInt8}
    (run : file.readFull fs len = some (data, file'))
    : file.SameFile file' := by
  refine File.readFull_rule (fun file _ _ file' => file.SameFile file') ?_ File.read_same ?_ run
  · exact fun file offset => rfl
  · exact fun read same => (File.read_same read).trans same

theorem MemBackend.forward_same (backend : MemBackend) (d : Nat)
    : backend.file.SameFile (backend.forward d).file :=
  fun _ => rfl

/-- Putting the cursor back leads to the same file. -/
theorem File.SameFile.seek_back {newPos : Nat} {file'' : File} (same : file.SameFile file')
    (run : file'.seek fs (.start file.offset) = some (newPos, file''))
    : newPos = file.offset ∧ file'' = file := by
  obtain ⟨rfl, rfl⟩ := File.seek_start_inv run
  exact ⟨rfl, same file.offset⟩

/-- Reading from an offset leaves the cursor where it was. -/
theorem readFromSeek_returns (d len : Nat)
    : Returns (fun r => r = (((backend.forward d).file.readFull fs len).map Prod.fst, backend))
        (backend.readFromSeek fs (.current d) len) := by
  unfold MemBackend.readFromSeek
  rcases here : backend.file.seek fs (.current 0) with _ | ⟨oldPos, file₁⟩
  · simp only [Ends]
  obtain ⟨rfl, rfl⟩ := File.seek_current_inv (d := 0) here
  rcases there : backend.file.seek fs (.current d) with _ | ⟨pos, file₂⟩
  · simp only [Nat.add_zero, there, Ends]
  obtain ⟨rfl, rfl⟩ := File.seek_current_inv there
  simp only [Nat.add_zero, there]
  rcases read : File.readFull fs (backend.forward d).file len with _ | ⟨data, file₃⟩
  · rcases back : (backend.forward d).file.seek fs (.start backend.file.offset) with
      _ | ⟨newPos, file₄⟩
    · simp only [MemBackend.forward] at read back
      simp only [read, back, Ends]
    · obtain ⟨rfl, rfl⟩ := (backend.forward_same d).seek_back back
      simp only [MemBackend.forward] at read back
      simp [read, back, Ends]
  · rcases back : file₃.seek fs (.start backend.file.offset) with _ | ⟨newPos, file₄⟩
    · simp only [MemBackend.forward] at read
      simp only [read, back, Ends]
    · obtain ⟨rfl, rfl⟩ := ((backend.forward_same d).trans (File.readFull_same read)).seek_back back
      simp only [MemBackend.forward] at read
      simp [read, back, Ends]

/-- Writing moves nothing but the cursor. -/
theorem File.write_same (writeAt : WriteAt) (fs : Vfs) (file : File) (data : List UInt8)
    : file.SameFile (file.write writeAt fs data).2.1 := by
  unfold File.write
  split
  · split
    · exact fun _ => rfl
    · split <;> exact fun _ => rfl
  · exact fun _ => rfl

/-- Writing to an offset leaves the cursor where it was. -/
theorem writeToSeek_returns (writeAt : WriteAt) (pos : Nat) (data : List UInt8)
    : Returns (fun r => r.2.1 = backend) (backend.writeToSeek writeAt fs (.start pos) data) := by
  unfold MemBackend.writeToSeek
  rcases here : backend.file.seek fs (.current 0) with _ | ⟨oldPos, file₁⟩
  · simp only [Ends]
  obtain ⟨rfl, rfl⟩ := File.seek_current_inv (d := 0) here
  rcases there : backend.file.seek fs (.start pos) with _ | ⟨pos, file₂⟩
  · simp only [Nat.add_zero, there, Ends]
  obtain ⟨rfl, rfl⟩ := File.seek_start_inv there
  simp only [Nat.add_zero, there]
  have same : backend.file.SameFile { backend.file with offset := pos } := fun _ => rfl
  have same' := same.trans
    (File.write_same writeAt fs { backend.file with offset := pos } data)
  rcases written : File.write writeAt fs { backend.file with offset := pos } data with
    ⟨len, file₃, fs'⟩
  rw [written] at same'
  dsimp only
  rcases back : file₃.seek fs' (.start backend.file.offset) with _ | ⟨newPos, file₄⟩
  · trivial
  · obtain ⟨rfl, rfl⟩ := same'.seek_back back
    simp [Ends]

/-- Moving the cursor of a file, if there is one. -/
theorem seekBackend_returns {backend : Option MemBackend} {d : Nat} (word : d < 2 ^ 63)
    : Returns (· = backend.map (·.forward d)) (MapArea.seekBackend fs backend d) := by
  cases backend with
  | none => exact rfl
  | some backend =>
      rw [MapArea.seekBackend, MemBackend.seek, asI64_of_lt word]
      rcases run : backend.file.seek fs (.current d) with _ | ⟨pos, file⟩
      · trivial
      · obtain ⟨rfl, rfl⟩ := File.seek_current_inv run
        exact rfl

-----------------------------------------------------------------------------------------
-- Filling a page
-----------------------------------------------------------------------------------------

/-- The byte at an index of a new page: from its position in a file, or zero. -/
def MapArea.loadedByte (fs : Vfs) (position : Option MemBackend) (old : UInt8) (i : Nat)
    : UInt8 :=
  match position with
  | none => 0
  | some backend =>
      match backend.file.readFull fs PAGE_SIZE_4K with
      | some (data, _) => (data[i]?).getD old
      | none => 0

theorem File.read_length {len : Nat} {data : List UInt8}
    (run : file.read fs len = some (data, file'))
    : data.length ≤ len := by
  unfold File.read at run
  split at run
  · obtain ⟨chunk, -, made⟩ := Option.bind_eq_some_iff.mp run
    cases made
    exact List.length_take_le ..
  · cases run

/-- All reads together return at most as many bytes as they are asked for. -/
theorem File.readFull_length {len : Nat} {data : List UInt8}
    (run : file.readFull fs len = some (data, file'))
    : data.length ≤ len := by
  refine File.readFull_rule (fun _ len data _ => data.length ≤ len) ?_ ?_ ?_ run
  · exact fun _ => Nat.le_refl 0
  · exact fun _ => Nat.zero_le _
  · intro file len chunk file₁ rest file₂ read later
    have first := File.read_length read
    rw [List.length_append]
    omega

section Machine

variable {PTE σ : Type} {m : Machine PTE σ}

/-- Page table operations change no bytes. -/
theorem MapArea.unwrap_bytes {α : Type} (call : PagingResult α × Paging PTE σ)
    : Returns (fun m' => m'.bytes = m.bytes) (m.unwrap call) := by
  rcases call with ⟨⟨e⟩ | ⟨a⟩, paging⟩
  · cases e <;> trivial
  · exact rfl

/-- The machine after a page was filled. -/
def Machine.fillFrame (m : Machine PTE σ) (fs : Vfs) (position : Option MemBackend) (paddr : Nat)
    : Machine PTE σ :=
  { m with
    bytes := fun a =>
      if paddr ≤ a ∧ a < paddr + PAGE_SIZE_4K then
        MapArea.loadedByte fs position (m.bytes a) (a - paddr)
      else m.bytes a }

theorem Machine.fillFrame_inside {position : Option MemBackend} {paddr i : Nat}
    (inside : i < PAGE_SIZE_4K)
    : (m.fillFrame fs position paddr).bytes (paddr + i)
      = MapArea.loadedByte fs position (m.bytes (paddr + i)) i := by
  rw [Machine.fillFrame]
  simp [inside]

theorem Machine.fillFrame_outside {position : Option MemBackend} {paddr a : Nat}
    (outside : a < paddr ∨ paddr + PAGE_SIZE_4K ≤ a)
    : (m.fillFrame fs position paddr).bytes a = m.bytes a :=
  if_neg (by omega)

/-- Writing at most a page of bytes. -/
theorem writeBytes_page {paddr : Nat} {data : List UInt8} (fits : data.length ≤ PAGE_SIZE_4K)
    : m.writeBytes paddr data
      = { m with
          bytes := fun a =>
            if paddr ≤ a ∧ a < paddr + PAGE_SIZE_4K then (data[a - paddr]?).getD (m.bytes a)
            else m.bytes a } := by
  rw [Machine.writeBytes]
  congr 1
  funext a
  by_cases lower : paddr ≤ a
  · by_cases upper : a < paddr + PAGE_SIZE_4K
    · rw [if_pos lower, if_pos ⟨lower, upper⟩]
    · rw [if_pos lower, if_neg (by omega), List.getElem?_eq_none (by omega), Option.getD_none]
  · rw [if_neg lower, if_neg (by omega)]

theorem fill_zero (page : PhysPage)
    : page.fill 0 m
      = { m with
          bytes := fun a =>
            if page.paddr ≤ a ∧ a < page.paddr + PAGE_SIZE_4K then 0 else m.bytes a } := by
  have length : (List.replicate PAGE_SIZE_4K (0 : UInt8)).length ≤ PAGE_SIZE_4K := by
    rw [List.length_replicate]
  rw [PhysPage.fill, writeBytes_page length]
  simp only [Machine.mk.injEq, true_and]
  funext a
  refine ite_congr rfl (fun inside => ?_) fun _ => rfl
  rw [List.getElem?_replicate, if_pos (by omega), Option.getD_some]

/-- A page is filled from its position, and the cursor stays. -/
theorem fillPage_returns {backend : Option MemBackend} {pageIndex : Nat} (page : PhysPage)
    (word : pageIndex * PAGE_SIZE_4K < 2 ^ 63)
    : Returns (· = (backend, m.fillFrame fs
          (backend.map (·.forward (pageIndex * PAGE_SIZE_4K))) page.paddr))
        (MapArea.fillPage fs backend pageIndex page m) := by
  cases backend with
  | none =>
      simp only [MapArea.fillPage, fill_zero, Ends, Machine.fillFrame, Option.map_none,
        MapArea.loadedByte]
  | some backend =>
      rw [MapArea.fillPage, asI64_of_lt word]
      refine (readFromSeek_returns ..).bind ?_
      rintro _ rfl
      rw [Option.map_some, Machine.fillFrame]
      rcases read : (backend.forward (pageIndex * PAGE_SIZE_4K)).file.readFull fs PAGE_SIZE_4K
        with _ | ⟨data, file⟩
      · simp only [MapArea.loadedByte, read, fill_zero, Option.map_none, Ends, pure_eq_ok]
      · have fits := File.readFull_length read
        simp only [MapArea.loadedByte, read, Option.map_some, Ends, pure_eq_ok,
          writeBytes_page fits]

end Machine

-----------------------------------------------------------------------------------------
-- Open files
-----------------------------------------------------------------------------------------

/-- Open files have attributes. -/
def Vfs.Open (fs : Vfs) : Prop :=
  ∀ node, (fs.getAttr node).isSome

theorem checkedAddSigned_ofNat {n d : Nat} (fits : n + d < 2 ^ 64)
    : checkedAddSigned n d = some (n + d) := by
  rw [checkedAddSigned, if_pos (by omega)]
  rfl

theorem File.seek_current {d : Nat} (opened : fs.Open) (fits : file.offset + d < 2 ^ 64)
    : file.seek fs (.current d)
      = some (file.offset + d, { file with offset := file.offset + d }) := by
  obtain ⟨size, attr⟩ := Option.isSome_iff_exists.mp (opened file.node)
  simp [File.seek, attr, checkedAddSigned_ofNat fits]

theorem File.seek_start (opened : fs.Open) (pos : Nat)
    : file.seek fs (.start pos) = some (pos, { file with offset := pos }) := by
  obtain ⟨size, attr⟩ := Option.isSome_iff_exists.mp (opened file.node)
  simp [File.seek, attr]

/-- Moving the cursor within reach. -/
theorem seekBackend_opened {backend : Option MemBackend} {d : Nat} (opened : fs.Open)
    (word : d < 2 ^ 63) (fits : ∀ b ∈ backend, b.file.offset + d < 2 ^ 64)
    : MapArea.seekBackend fs backend d = .ok (backend.map (·.forward d)) := by
  cases backend with
  | none => rfl
  | some backend =>
      rw [MapArea.seekBackend, MemBackend.seek, asI64_of_lt word,
        File.seek_current opened (fits backend rfl)]
      rfl

/-- Reading from an offset within reach returns. -/
theorem readFromSeek_opened {d : Nat} (len : Nat) (opened : fs.Open)
    (fits : backend.file.offset + d < 2 ^ 64)
    : ∃ r, backend.readFromSeek fs (.current d) len = .ok r := by
  have here : backend.file.seek fs (.current 0) = some (backend.file.offset, backend.file) :=
    File.seek_current (d := 0) opened (by omega)
  have there := File.seek_current opened fits
  rw [MemBackend.readFromSeek, here]
  simp only [there]
  cases { backend.file with offset := backend.file.offset + d }.readFull fs len with
  | none => simp [File.seek_start opened]
  | some read => simp [File.seek_start opened]

/-- Filling a page within reach returns. -/
theorem fillPage_opened {PTE σ : Type} {m : Machine PTE σ} {backend : Option MemBackend}
    {pageIndex : Nat} (page : PhysPage) (opened : fs.Open)
    (word : pageIndex * PAGE_SIZE_4K < 2 ^ 63)
    (fits : ∀ b ∈ backend, b.file.offset + pageIndex * PAGE_SIZE_4K < 2 ^ 64)
    : ∃ r, MapArea.fillPage fs backend pageIndex page m = .ok r := by
  cases backend with
  | none => exact ⟨_, rfl⟩
  | some backend =>
      obtain ⟨⟨data, backend'⟩, read⟩ :=
        readFromSeek_opened PAGE_SIZE_4K opened (fits backend rfl)
      rw [MapArea.fillPage, asI64_of_lt word, read]
      cases data <;> exact ⟨_, rfl⟩

end RCoreOS.Axmem
