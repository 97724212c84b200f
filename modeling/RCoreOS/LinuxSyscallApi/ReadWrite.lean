import RCoreOS.Axmem.LazyRange

/-! The buffers of `read` and `write`. Both calls load all pages of the buffer before the file gets
it, and a page that cannot be loaded is the only thing that they check.
-/

namespace RCoreOS.LinuxSyscallApi.SyscallFs

open PageTable GenericPTE Outcome Axmem
open Axmem.MemorySet (Furnished Fetched Barred)

inductive SyscallError where
  | EFAULT
  | EBADF
  | EISDIR
  | EAGAIN
  | EINVAL
  | EPERM
  | EPIPE
deriving DecidableEq, Repr

abbrev SyscallResult := Except SyscallError Int

inductive AxError where
  | AddrInUse
  | AlreadyExists
  | BadAddress
  | BadState
  | ConnectionRefused
  | ConnectionReset
  | DirectoryNotEmpty
  | InvalidData
  | InvalidInput
  | Io
  | IsADirectory
  | NoMemory
  | NotADirectory
  | NotConnected
  | NotFound
  | PermissionDenied
  | ResourceBusy
  | StorageFull
  | UnexpectedEof
  | Unsupported
  | WouldBlock
  | WriteZero
  | Interrupted
  | Timeout
deriving DecidableEq, Repr

inductive FileIOType where
  | FileDesc
  | DirDesc
  | Stdin
  | Stdout
  | Stderr
  | Pipe
  | Link
  | Socket
  | Other
deriving DecidableEq, Repr

/-- What a file does with the buffer `[buf, buf + count)` of a memory set. The files have a state
of their own.
-/
abbrev Transfer (PTE σ W : Type) :=
  Nat → Nat → MemorySet PTE σ → W → Except AxError Nat × MemorySet PTE σ × W

/-- The part of `trait FileIO` that the calls use. -/
structure FileIO (PTE σ W : Type) where
  getType : FileIOType
  read : Transfer PTE σ W
  write : Transfer PTE σ W

structure Task (PTE σ W : Type) where
  memorySet : MemorySet PTE σ
  fdTable : List <| Option <| FileIO PTE σ W
  files : W

section Calls

variable {PTE σ W : Type} [GenericPTE PTE] [GlobalAllocator σ]

/-- The file is called with the buffer, and its errors are translated. -/
def transfer (call : Transfer PTE σ W) (errno : AxError → SyscallError) (buf count : Nat)
    (task : Task PTE σ W)
    : SyscallResult × Task PTE σ W :=
  let (result, memorySet, files) := call buf count task.memorySet task.files
  let task := { task with memorySet, files }
  match result with
  | .ok len => (.ok (asI64 len), task)
  | .error e => (.error (errno e), task)

/-- The common body of both calls, with the error for a directory. -/
def transferUser (call : FileIO PTE σ W → Transfer PTE σ W) (dirError : SyscallError)
    (errno : AxError → SyscallError) (fs : Vfs) (fd buf count : Nat) (task : Task PTE σ W)
    : Except Crash (SyscallResult × Task PTE σ W) :=
  if buf = 0 then .ok (.error .EFAULT, task)
  else do
    let (result, memorySet) ←
      task.memorySet.manualAllocRangeForLazy fs buf (wrapSub (wrapAdd buf count) 1)
    let task := { task with memorySet }
    match result with
    | .error _ => return (.error .EFAULT, task)
    | .ok () =>
        match task.fdTable[fd]? with
        | some (some file) =>
            if file.getType = .DirDesc then return (.error dirError, task)
            else return transfer (call file) errno buf count task
        | _ => return (.error .EBADF, task)

def readErrno : AxError → SyscallError
  | .WouldBlock => .EAGAIN
  | .InvalidInput => .EINVAL
  | _ => .EPERM

def writeErrno : AxError → SyscallError
  | .ConnectionReset => .EPIPE
  | .WouldBlock => .EAGAIN
  | .InvalidInput => .EINVAL
  | _ => .EPERM

def syscallRead (fs : Vfs) (fd buf count : Nat) (task : Task PTE σ W)
    : Except Crash (SyscallResult × Task PTE σ W) :=
  transferUser FileIO.read .EISDIR readErrno fs fd buf count task

def syscallWrite (fs : Vfs) (fd buf count : Nat) (task : Task PTE σ W)
    : Except Crash (SyscallResult × Task PTE σ W) :=
  transferUser FileIO.write .EBADF writeErrno fs fd buf count task

end Calls

-----------------------------------------------------------------------------------------
-- Validation
-----------------------------------------------------------------------------------------

section Validation

variable {PTE σ W : Type} {s s' : MemorySet PTE σ} {buf count va : Nat}

/-- An address of the buffer has the property. -/
def InBuffer (buf count : Nat) (p : Nat → Prop) : Prop :=
  ∃ va, buf ≤ va ∧ va < buf + count ∧ p va

/-- No area has the address. -/
def Unowned (s : MemorySet PTE σ) (va : Nat) : Prop :=
  ∀ mapping, ¬ s.Maps va mapping

/-- The area of the address lacks the permission. -/
def Forbidden (permission : MappingFlags → Bool) (s : MemorySet PTE σ) (va : Nat) : Prop :=
  ∃ mapping, s.Maps va mapping ∧ permission mapping.flags = false

/-- The page of the address is loaded with no flags at all, which makes its entry invalid. -/
def Hidden (s : MemorySet PTE σ) (va : Nat) : Prop :=
  ∃ mapping page, s.Maps va mapping ∧ mapping.slot = some page ∧ mapping.flags.isEmpty = true

/-- A call refuses exactly the buffers that the user has no permission for, and every other buffer
is present when the file gets it.
-/
structure Validates [GenericPTE PTE] (permission : MappingFlags → Bool) (call : Transfer PTE σ W)
    (errno : AxError → SyscallError) (buf count : Nat) (task : Task PTE σ W)
    (answer : SyscallResult × Task PTE σ W) : Prop where
  fault
    : answer.1 = .error .EFAULT
      ↔ 0 < count
        ∧ InBuffer buf count
            (fun va => Unowned task.memorySet va ∨ Forbidden permission task.memorySet va)
  present
    : answer.1 ≠ .error .EFAULT
      → ∃ memorySet : MemorySet PTE σ,
        (∀ va, buf ≤ va → va < buf + count → memorySet.Valid va)
        ∧ answer = transfer call errno buf count { task with memorySet }

/-- What decides whether a buffer is validated: it has bytes, and a page of it cannot be loaded or
all of it is permitted.
-/
def Decided (permission : MappingFlags → Bool) (s : MemorySet PTE σ) (buf count : Nat) : Prop :=
  0 < count
  ∧ (InBuffer buf count (fun va => Unowned s va ∨ Hidden s va)
    ∨ ∀ va, buf ≤ va → va < buf + count → ¬ Forbidden permission s va)

end Validation

-----------------------------------------------------------------------------------------
-- The pages of the buffer
-----------------------------------------------------------------------------------------

section Buffer

variable {σ W : Type} [GlobalAllocator σ] [LawfulGlobalAllocator σ]
variable {s s' : MemorySet Rv64PTE σ} {buf count va : Nat}

/-- A page is barred if no area has it, or if it is loaded with no flags. -/
theorem barred_iff (furnished : Furnished s) : s.Barred va ↔ Unowned s va ∨ Hidden s va := by
  constructor
  · intro barred
    by_cases owned : ∃ mapping, s.Maps va mapping
    · obtain ⟨mapping, maps⟩ := owned
      obtain ⟨page, loaded, hidden⟩ := barred mapping maps
      rw [Rv64PTE.newPage_present] at hidden
      exact .inr ⟨mapping, page, maps, loaded, by simpa using hidden⟩
    · exact .inl fun mapping maps => owned ⟨mapping, maps⟩
  · intro refused mapping maps
    rcases refused with unowned | ⟨mapping', page, maps', loaded, empty⟩
    · exact absurd maps (unowned mapping)
    · rw [furnished.tidy.maps_unique maps maps']
      exact ⟨page, loaded, by rw [Rv64PTE.newPage_present, empty]; rfl⟩

/-- A page that is fetched and permitted is valid. -/
theorem fetched_valid {permission : MappingFlags → Bool}
    (visible : ∀ flags, permission flags = true → flags.isEmpty = false)
    (furnished' : Furnished s') (fetched : Fetched s s' va)
    (permitted : ¬ Forbidden permission s va)
    : s'.Valid va := by
  obtain ⟨mapping, mapping', page, maps, maps', loaded, flags⟩ := fetched
  have allowed : permission mapping.flags = true := by
    rw [← Bool.not_eq_false]
    intro refused
    exact permitted ⟨mapping, maps, refused⟩
  refine (furnished'.valid_iff maps').mpr ⟨page, loaded, ?_⟩
  rw [Rv64PTE.newPage_present, flags, visible _ allowed]
  rfl

/-- The last byte of a buffer that is not empty and does not wrap around; of any other buffer the
end comes before the start.
-/
theorem lastByte (nonNull : buf ≠ 0) (bufWord : buf < USIZE_RANGE) (countWord : count < USIZE_RANGE)
    : 0 < count ∧ wrapSub (wrapAdd buf count) 1 = buf + count - 1
      ∨ wrapSub (wrapAdd buf count) 1 < buf ∧ (count = 0 ∨ USIZE_RANGE < buf + count) := by
  unfold wrapSub wrapAdd USIZE_RANGE at *
  omega

/-- No area reaches the end of the address space. -/
theorem unowned_high (furnished : Furnished s) (high : 2 ^ 38 ≤ va) : Unowned s va := by
  rintro mapping ⟨area, member, -, upper, -⟩
  have below := (furnished.shaped area member).below
  omega

variable {permission : MappingFlags → Bool} {errno : AxError → SyscallError}
variable {task : Task Rv64PTE σ W} {call : Transfer Rv64PTE σ W}
variable {answer : SyscallResult × Task Rv64PTE σ W}

omit [GlobalAllocator σ] [LawfulGlobalAllocator σ] in
/-- A buffer that is refused is refused for a reason, unless it is empty. -/
theorem validates_refused (visible : ∀ flags, permission flags = true → flags.isEmpty = false)
    (fault : answer.1 = .error .EFAULT)
    (reason
      : count = 0
        ∨ InBuffer buf count (fun va => Unowned task.memorySet va ∨ Hidden task.memorySet va))
    : Validates permission call errno buf count task answer
      ↔ Decided permission task.memorySet buf count := by
  rcases reason with rfl | refused
  · exact iff_of_false (fun validates => absurd (validates.fault.mp fault).1 (Nat.lt_irrefl 0))
      fun decided => absurd decided.1 (Nat.lt_irrefl 0)
  · have positive : 0 < count := by
      obtain ⟨va, lower, upper, -⟩ := refused
      omega
    refine iff_of_true ⟨?_, fun served => absurd fault served⟩ ⟨positive, .inl refused⟩
    obtain ⟨va, lower, upper, unowned | ⟨mapping, page, maps, -, empty⟩⟩ := refused
    · exact iff_of_true fault ⟨positive, va, lower, upper, .inl unowned⟩
    · have forbidden : permission mapping.flags = false := by
        rw [← Bool.not_eq_true]
        intro allowed
        rw [visible _ allowed] at empty
        cases empty
      exact iff_of_true fault ⟨positive, va, lower, upper, .inr ⟨mapping, maps, forbidden⟩⟩

omit [GlobalAllocator σ] [LawfulGlobalAllocator σ] in
/-- The errors of a file are not taken for a bad buffer. -/
theorem transfer_served (noFault : ∀ e, errno e ≠ .EFAULT)
    : (transfer call errno buf count task).1 ≠ .error .EFAULT := by
  unfold transfer
  split
  split
  · exact nofun
  · exact fun same => noFault _ (Except.error.inj same)

/-- A buffer that the file gets is validated if all of it is permitted. -/
theorem validates_served (noFault : ∀ e, errno e ≠ .EFAULT)
    (visible : ∀ flags, permission flags = true → flags.isEmpty = false)
    (furnished : Furnished task.memorySet) (furnished' : Furnished s') (positive : 0 < count)
    (loaded
      : ∀ va, buf ≤ va → va < buf + count
        → ¬ task.memorySet.Barred va ∧ Fetched task.memorySet s' va)
    : Validates permission call errno buf count task
        (transfer call errno buf count { task with memorySet := s' })
      ↔ Decided permission task.memorySet buf count := by
  have served
      : (transfer call errno buf count { task with memorySet := s' }).1 ≠ .error .EFAULT :=
    transfer_served noFault
  constructor
  · intro validates
    refine ⟨positive, .inr fun va lower upper forbidden => ?_⟩
    exact served (validates.fault.mpr ⟨positive, va, lower, upper, .inr forbidden⟩)
  · rintro ⟨-, ⟨va, lower, upper, refused⟩ | permitted⟩
    · exact absurd ((barred_iff furnished).mpr refused) (loaded va lower upper).1
    · refine ⟨iff_of_false served ?_, fun _ => ⟨s', fun va lower upper => ?_, rfl⟩⟩
      · rintro ⟨-, va, lower, upper, unowned | forbidden⟩
        · obtain ⟨mapping, _, _, maps, -⟩ := (loaded va lower upper).2
          exact unowned mapping maps
        · exact permitted va lower upper forbidden
      · exact fetched_valid visible furnished' (loaded va lower upper).2
          (permitted va lower upper)

variable {fs : Vfs} {fd : Nat} {file : FileIO Rv64PTE σ W} {dirError : SyscallError}

/-- Both calls validate exactly the buffers that are decided, by the cases of the walk. -/
theorem transferUser_validates_iff (via : FileIO Rv64PTE σ W → Transfer Rv64PTE σ W)
    (noFault : ∀ e, errno e ≠ .EFAULT)
    (visible : ∀ flags, permission flags = true → flags.isEmpty = false)
    (furnished : Furnished task.memorySet) (opened : fs.Open) (bounded : task.memorySet.Bounded)
    (nonNull : buf ≠ 0) (bufWord : buf < USIZE_RANGE) (countWord : count < USIZE_RANGE)
    (descriptor : task.fdTable[fd]? = some (some file)) (regular : file.getType = .FileDesc)
    : Ends (· = .outOfMemory)
        (fun answer =>
          Validates permission (via file) errno buf count task answer
          ↔ Decided permission task.memorySet buf count)
        (transferUser via dirError errno fs fd buf count task) := by
  rw [transferUser, if_neg nonNull]
  rcases lastByte nonNull bufWord countWord with ⟨positive, last⟩ | ⟨before, outside⟩
  · rw [last]
    have order : buf ≤ buf + count - 1 := by omega
    refine (furnished.manualAllocRangeForLazy (by rfl) opened bounded order).bind ?_
    rintro ⟨result, s'⟩ (⟨⟨e, rfl⟩, va, lower, upper, barred⟩ | ⟨rfl, loaded, furnished'⟩)
    · refine validates_refused visible rfl (.inr ⟨va, lower, by omega, ?_⟩)
      exact (barred_iff furnished).mp barred
    · dsimp only
      rw [descriptor]
      dsimp only
      rw [if_neg (by rw [regular]; exact nofun)]
      exact validates_served noFault visible furnished furnished' positive
        fun va lower upper => loaded va lower (by omega)
  · rw [MemorySet.manualAllocRangeForLazy, if_pos before]
    refine validates_refused visible rfl (outside.imp id fun wraps => ?_)
    exact ⟨USIZE_RANGE - 1, Nat.le_sub_one_of_lt bufWord, (Nat.sub_le ..).trans_lt wraps,
      .inl (unowned_high furnished (by decide))⟩

/-- Reading and writing check the buffer as they should exactly when it is decided. -/
theorem buffers_validated_iff (furnished : Furnished task.memorySet) (opened : fs.Open)
    (bounded : task.memorySet.Bounded) (nonNull : buf ≠ 0) (bufWord : buf < USIZE_RANGE)
    (countWord : count < USIZE_RANGE) (descriptor : task.fdTable[fd]? = some (some file))
    (regular : file.getType = .FileDesc)
    : Ends (· = .outOfMemory)
        (fun answer =>
          Validates MappingFlags.write file.read readErrno buf count task answer
          ↔ Decided MappingFlags.write task.memorySet buf count)
        (syscallRead fs fd buf count task)
      ∧ Ends (· = .outOfMemory)
          (fun answer =>
            Validates MappingFlags.read file.write writeErrno buf count task answer
            ↔ Decided MappingFlags.read task.memorySet buf count)
          (syscallWrite fs fd buf count task) := by
  constructor
  · refine transferUser_validates_iff FileIO.read (fun e => ?_) (fun flags writable => ?_) furnished
      opened bounded nonNull bufWord countWord descriptor regular
    · cases e <;> exact nofun
    · simp [MappingFlags.isEmpty, writable]
  · refine transferUser_validates_iff FileIO.write (fun e => ?_) (fun flags readable => ?_)
      furnished opened bounded nonNull bufWord countWord descriptor regular
    · cases e <;> exact nofun
    · simp [MappingFlags.isEmpty, readable]

end Buffer

-----------------------------------------------------------------------------------------
-- One task
-----------------------------------------------------------------------------------------

/-- A file that takes and fills whole buffers. -/
def sink : FileIO Rv64PTE PagePool Unit where
  getType := .FileDesc
  read _ count memorySet files := (.ok count, memorySet, files)
  write _ count memorySet files := (.ok count, memorySet, files)

def userTask (memorySet : MemorySet Rv64PTE PagePool) : Task Rv64PTE PagePool Unit where
  memorySet := memorySet
  fdTable := [some sink]
  files := ()

/-- A page that is loaded and can be written, and one that is not loaded and read-only. -/
def pagesRequests : List Axmem.Request :=
  [.mmap 0x1000 0x2000 { user := true, read := true, write := true } true none,
    .handlePageFault 0x1000 { read := true },
    .mprotect 0x2000 0x1000 { user := true, read := true }]

def pagesRun : Except Crash (MemorySet Rv64PTE PagePool) := do
  let s ← MemorySet.newEmpty MemorySet.blank (fun _ => 0)
  pagesRequests.foldlM (MemorySet.serve MemorySet.noFiles) s

/-- The pages can be read, and the second cannot be written. -/
theorem pagesRun_areas {s : MemorySet Rv64PTE PagePool} (run : pagesRun = .ok s)
    : Furnished s
      ∧ s.Bounded
      ∧ (∀ va, ¬ Forbidden MappingFlags.read s va)
      ∧ Forbidden MappingFlags.write s 0x2000 := by
  have shape : (pagesRun.map fun s =>
        s.ownedMem.values.map fun area => (area.vaddr, area.stop, area.flags))
      = .ok [(0x1000, 0x2000, { user := true, read := true, write := true }),
        (0x2000, 0x3000, { user := true, read := true })] := by
    decide +kernel
  obtain ⟨s', run', areas⟩ := map_eq_ok.mp shape
  rw [run] at run'
  cases run'
  obtain ⟨start, created, requests⟩ := bind_eq_ok.mp run
  have allowed : ∀ r ∈ pagesRequests, r.Allowed := by
    simp [pagesRequests, Axmem.Request.Allowed, MemBackend.bounded_none]
  have agrees := MemorySet.agrees_reachable
    (MemorySet.reachable_requests (fun _ => rfl) allowed (.start ⟨_, _, created⟩) requests)
  refine ⟨agrees.furnished, fun area member => (agrees.kinds area member).2, ?_, ?_⟩
  · rintro va ⟨mapping, ⟨area, member, -, -, rfl⟩, unreadable⟩
    have readable := (agrees.kinds area member).1
    rw [show area.flags.read = false from unreadable] at readable
    cases readable
  · have last : (0x2000, 0x3000, ({ user := true, read := true } : MappingFlags))
        ∈ s.ownedMem.values.map fun area => (area.vaddr, area.stop, area.flags) := by
      rw [areas]
      exact List.mem_cons_of_mem _ (List.mem_singleton_self _)
    obtain ⟨area, member, same⟩ := List.mem_map.mp last
    simp only [Prod.mk.injEq] at same
    obtain ⟨lower, upper, flags⟩ := same
    refine ⟨area.mapping 0x2000, ⟨area, member, lower.le, by omega, rfl⟩, ?_⟩
    exact congrArg MappingFlags.write flags

/-- Witness: a buffer of both pages can be written to the file. -/
theorem buffers_validated_pages
    : ∃ s answer,
        pagesRun = .ok s
        ∧ syscallWrite MemorySet.noFiles 0 0x1ff0 0x20 (userTask s) = .ok answer
        ∧ answer.1 = .ok 0x20
        ∧ Validates MappingFlags.read sink.write writeErrno 0x1ff0 0x20 (userTask s) answer := by
  have written : ((pagesRun >>= fun s =>
        syscallWrite MemorySet.noFiles 0 0x1ff0 0x20 (userTask s)).map Prod.fst)
      = .ok (.ok 0x20) := by
    decide +kernel
  obtain ⟨answer, both, result⟩ := map_eq_ok.mp written
  obtain ⟨s, run, call⟩ := bind_eq_ok.mp both
  obtain ⟨furnished, bounded, readable, -⟩ := pagesRun_areas run
  have furnished : Furnished (userTask s).memorySet := furnished
  refine ⟨s, answer, run, call, result, ?_⟩
  refine ((buffers_validated_iff furnished (fun _ => rfl) bounded (by decide) (by decide)
    (by decide) rfl rfl).2.of_ok call).mpr ⟨by decide, .inr ?_⟩
  exact fun va _ _ => readable va

/-- A byte is read into the read-only page, and no byte into an empty buffer of the other. -/
theorem buffers_not_validated
    : ∃ s filled refused,
        pagesRun = .ok s
        ∧ Furnished s
        ∧ syscallRead MemorySet.noFiles 0 0x2000 1 (userTask s) = .ok filled
        ∧ ¬ Validates MappingFlags.write sink.read readErrno 0x2000 1 (userTask s) filled
        ∧ syscallRead MemorySet.noFiles 0 0x1000 0 (userTask s) = .ok refused
        ∧ ¬ Validates MappingFlags.write sink.read readErrno 0x1000 0 (userTask s) refused := by
  have answers : ((pagesRun >>= fun s => do
        let filled ← syscallRead MemorySet.noFiles 0 0x2000 1 (userTask s)
        let refused ← syscallRead MemorySet.noFiles 0 0x1000 0 (userTask s)
        return (filled, refused)).map fun answers => (answers.1.1, answers.2.1))
      = .ok (.ok 1, .error .EFAULT) := by
    decide +kernel
  obtain ⟨both, calls, results⟩ := map_eq_ok.mp answers
  obtain ⟨s, run, calls⟩ := bind_eq_ok.mp calls
  obtain ⟨filled, first, calls⟩ := bind_eq_ok.mp calls
  obtain ⟨refused, second, pair⟩ := bind_eq_ok.mp calls
  cases pair
  obtain ⟨furnished, -, -, forbidden⟩ := pagesRun_areas run
  obtain ⟨ok, fault⟩ := Prod.mk.inj results
  refine ⟨s, filled, refused, run, furnished, first, fun validates => ?_, second,
    fun validates => ?_⟩
  · have bad := validates.fault.mpr ⟨by decide, 0x2000, by decide, by decide, .inr forbidden⟩
    rw [ok] at bad
    cases bad
  · exact absurd (validates.fault.mp fault).1 (Nat.lt_irrefl 0)

end RCoreOS.LinuxSyscallApi.SyscallFs
