import RCoreOS.ElfParser.Segments
import RCoreOS.ElfParser.UserStack
import RCoreOS.Axtask.FilePath
import RCoreOS.Lib.Iteration

/-! Loading an application. A script is loaded as the shell, and a file with an interpreter as its
interpreter, which may have an interpreter itself.
-/

namespace RCoreOS.ElfParser

open Axmem

-----------------------------------------------------------------------------------------
-- The file of an application
-----------------------------------------------------------------------------------------

inductive SegmentData where
  | Undefined (data : List UInt8)
  | Other
deriving DecidableEq, Repr

/-- An ELF file with the data of its first `INTERP` header and the place of its headers. -/
structure AppFile extends LoadFile where
  interp : Option SegmentData
  phOffset : Usize
  phEntrySize : Nat
  phCount : Nat

def AT_PHDR : Fin 256 := 3
def AT_PHENT : Fin 256 := 4
def AT_PHNUM : Fin 256 := 5
def AT_PAGESZ : Fin 256 := 6
def AT_RANDOM : Fin 256 := 25

namespace AppFile

def getElfEntry (elf : AppFile) (elfBaseAddr : Option Usize) : Except SegmentPanic Usize :=
  if elf.magic ≠ [0x7f, 0x45, 0x4c, 0x46] then .error .invalidElf
  else
    match elf.toElfFile.baseAddr elfBaseAddr with
    | .error _ => .error .noBaseAddr
    | .ok baseAddr => .ok (elf.entryPoint + baseAddr)

/-- Where the header is loaded. -/
def elfHeaderVaddr (elf : AppFile) (elfBaseAddr : Option Usize) : Except SegmentPanic Usize :=
  match elf.toElfFile.firstLoad with
  | none => .ok 0
  | some vaddr =>
      if vaddr = 0 then
        match elfBaseAddr with
        | none => .error .noBaseAddr
        | some addr => .ok addr
      else .ok vaddr

def getAuxvVector (elf : AppFile) (elfBaseAddr : Option Usize)
    : Except SegmentPanic (BTreeMap (Fin 256) UInt64) := do
  let elfHeaderVaddr ← elf.elfHeaderVaddr elfBaseAddr
  let map := (BTreeMap.empty.insert AT_PHDR (UInt64.ofBitVec (elfHeaderVaddr + elf.phOffset))).2
  let map := (map.insert AT_PHENT (UInt64.ofNat elf.phEntrySize)).2
  let map := (map.insert AT_PHNUM (UInt64.ofNat elf.phCount)).2
  let map := (map.insert AT_RANDOM 0).2
  return (map.insert AT_PAGESZ (UInt64.ofNat PageTable.PAGE_SIZE_4K)).2

end AppFile

end RCoreOS.ElfParser

namespace RCoreOS.Axtask

open PageTable ElfParser Axmem Iteration

-----------------------------------------------------------------------------------------
-- Loading
-----------------------------------------------------------------------------------------

def USER_HEAP_BASE : Nat := 0x3fa0_0000
def MAX_USER_HEAP_SIZE : Nat := 0x40_0000
def USER_STACK_TOP : Nat := 0x3fe0_0000
def MAX_USER_STACK_SIZE : Nat := 0x20_0000

def ELF_BASE_ADDR : Usize := 0x400_0000

inductive LoadError where
  | notFound
deriving DecidableEq, Repr

/-- Entry, user stack bottom and user heap bottom of an application. -/
structure Loaded where
  entry : Nat
  stackBottom : Nat
  heapStart : Nat
deriving DecidableEq, Repr

/-- What applications are loaded from: the files, of which there are finitely many contents, the
parsed form of a content that is an ELF file, and `LINK_PATH_MAP`.
-/
structure Loader where
  read : List Char → Option (List UInt8)
  contents : List (List UInt8)
  stored : ∀ name data, read name = some data → data ∈ contents
  parse : List UInt8 → Option AppFile
  linkPathMap : BTreeMap (List Char) (List Char)

def fromUtf8 (data : List UInt8) : Option (List Char) :=
  (String.fromUTF8? ⟨data.toArray⟩).map String.toList

def utf8 (text : List Char) : List UInt8 :=
  (String.ofList text).toUTF8.toList

/-- `trim_matches(char::from(0))`. -/
def trimNul (text : List Char) : List Char :=
  ((text.dropWhile (· = '\x00')).reverse.dropWhile (· = '\x00')).reverse

/-- `unwrap`. -/
def orPanic {α : Type} : Option α → Except Crash α
  | some a => .ok a
  | none => .error .panic

section Loading

variable {PTE σ : Type} [GenericPTE PTE] [GlobalAllocator σ]

/-- Writes a byte to memory of the user, which has to be there and writable. -/
def writeByte (s : MemorySet PTE σ) (entry : UInt8 × Nat) : Except Crash (MemorySet PTE σ) :=
  match s.toMachine.access entry.2 { write := true } with
  | some paddr => .ok (s.withMachine (s.toMachine.writeBytes paddr [entry.1]))
  | none => .error .panic

/-- Copies the first bytes of the value of a relocation pair to its place. -/
def relocate (s : MemorySet PTE σ) (pair : RelocatePair) : Except Crash (MemorySet PTE σ) :=
  (((LittleEndian.toBytes 8 pair.src.toNat).take pair.count).zipIdx pair.dst.toNat).foldlM
    writeByte s

/-- Loads an ELF file without interpreter: its segments, the heap and the stack. -/
def loadElf (elf : AppFile) (args envs : List (List Char)) (s : MemorySet PTE σ)
    : Except Crash (Loaded × MemorySet PTE σ) := do
  let elfBaseAddr := some ELF_BASE_ADDR
  let entry ← orPanic (elf.getElfEntry elfBaseAddr).toOption
  let segments ← orPanic (elf.getElfSegments elfBaseAddr).toOption
  let relocatePairs ← orPanic (Riscv.getRelocatePairs elf.toElfFile elfBaseAddr).toOption
  let s ← segments.foldlM newSegment s
  let s ← relocatePairs.foldlM relocate s
  let heapStart := USER_HEAP_BASE
  let heapData := List.replicate MAX_USER_HEAP_SIZE 0
  let s ← s.newRegion heapStart MAX_USER_HEAP_SIZE { read := true, write := true, user := true }
    (some heapData) none
  let auxv ← orPanic (elf.getAuxvVector elfBaseAddr).toOption
  let stackTop := USER_STACK_TOP
  let stackSize := MAX_USER_STACK_SIZE
  let (stackData, stackBottom) ← orPanic
    (getAppStackRegion (args.map utf8) (envs.map utf8) auxv stackTop stackSize)
  let s ← s.newRegion stackTop stackSize { user := true, read := true, write := true }
    (some stackData) none
  return ({ entry := entry.toNat, stackBottom, heapStart }, s)

namespace Loader

/-- `load_app`, with the number of nested calls that there may be at most; `none` says that there
are more.
-/
def loadApp (loader : Loader) (fuel : Nat) (name : List Char) (args envs : List (List Char))
    (s : MemorySet PTE σ)
    : Option (Except Crash (Except LoadError Loaded × MemorySet PTE σ)) :=
  match fuel with
  | 0 => none
  | fuel + 1 =>
      if ".sh".toList.isSuffixOf name then
        loader.loadApp fuel "busybox".toList ("busybox".toList :: "sh".toList :: args) envs s
      else
        match loader.read name with
        | none => some (.ok (.error .notFound, s))
        | some elfData =>
            match loader.parse elfData with
            | none => some (.error .panic)
            | some elf =>
                match elf.interp with
                | some (.Undefined interp) =>
                    match fromUtf8 interp with
                    | none => some (.error .panic)
                    | some interpPath =>
                        let realInterpPath := realPath loader.linkPathMap (trimNul interpPath)
                        loader.loadApp fuel realInterpPath (realInterpPath :: args) envs s
                | some .Other => some (.error .panic)
                | none =>
                    some ((loadElf elf args envs s).map fun (loaded, s) => (.ok loaded, s))

/-- Loading reaches a call that does not recurse, and a name without a file leaves the memory set
as it is.
-/
def Finishes (loader : Loader) (name : List Char) (args envs : List (List Char))
    (s : MemorySet PTE σ)
    : Prop :=
  (∃ fuel result, loader.loadApp fuel name args envs s = some result)
  ∧ ∀ fuel s', loader.loadApp fuel name args envs s = some (.ok (.error .notFound, s')) → s' = s

end Loader

end Loading

-----------------------------------------------------------------------------------------
-- Names that lead to names
-----------------------------------------------------------------------------------------

namespace Loader

variable {loader : Loader} {name next : List Char}

/-- The interpreter that a content names, with links followed. -/
def interpreter (loader : Loader) (elfData : List UInt8) : Option (List Char) :=
  match (loader.parse elfData).bind AppFile.interp with
  | some (.Undefined interp) =>
      (fromUtf8 interp).map fun path => realPath loader.linkPathMap (trimNul path)
  | _ => none

/-- What is loaded instead of a name: the shell for a script, and the interpreter of the file if it
has one.
-/
def nextName (loader : Loader) (name : List Char) : Option (List Char) :=
  if ".sh".toList.isSuffixOf name then some "busybox".toList
  else (loader.read name).bind loader.interpreter

/-- The files name finitely many interpreters. -/
theorem finite_nextName (loader : Loader) : (Set.range loader.nextName).Finite := by
  refine Set.Finite.subset (List.finite_toSet
    (none :: some "busybox".toList :: loader.contents.map loader.interpreter)) ?_
  rintro next ⟨name, rfl⟩
  unfold nextName
  split
  · simp
  · cases content : loader.read name with
    | none => simp
    | some elfData =>
        have stored := List.mem_map_of_mem (f := loader.interpreter)
          (loader.stored name elfData content)
        exact List.mem_cons_of_mem _ (List.mem_cons_of_mem _ stored)

variable {PTE σ : Type} [GenericPTE PTE] [GlobalAllocator σ]

/-- What a call does: it loads the next name with more arguments, or it is the last one, which does
not change the memory set if it finds no file.
-/
theorem loadApp_cases (loader : Loader) (name : List Char) (args envs : List (List Char))
    (s : MemorySet PTE σ)
    : (∃ next args', loader.nextName name = some next
        ∧ ∀ fuel, loader.loadApp (fuel + 1) name args envs s
          = loader.loadApp fuel next args' envs s)
      ∨ loader.nextName name = none
        ∧ ∃ result, (∀ fuel, loader.loadApp (fuel + 1) name args envs s = some result)
          ∧ ∀ s', result = .ok (.error .notFound, s') → s' = s := by
  unfold nextName
  simp only [loadApp]
  split
  · exact .inl ⟨_, _, rfl, fun fuel => rfl⟩
  · cases loader.read name with
    | none =>
        refine .inr ⟨rfl, _, fun fuel => rfl, fun s' same => ?_⟩
        cases same
        rfl
    | some elfData =>
        simp only [Option.bind_some, interpreter]
        cases loader.parse elfData with
        | none => exact .inr ⟨rfl, .error .panic, fun fuel => rfl, nofun⟩
        | some elf =>
            simp only [Option.bind_some]
            match elf.interp with
            | none =>
                refine .inr ⟨rfl, _, fun fuel => rfl, fun s' same => ?_⟩
                obtain ⟨_, -, error⟩ := Outcome.map_eq_ok.mp same
                cases error
            | some .Other => exact .inr ⟨rfl, .error .panic, fun fuel => rfl, nofun⟩
            | some (.Undefined interp) =>
                simp only
                cases fromUtf8 interp with
                | none => exact .inr ⟨rfl, .error .panic, fun fuel => rfl, nofun⟩
                | some path => exact .inl ⟨_, _, rfl, fun fuel => rfl⟩

/-- The calls go on as long as the names do, by induction on the calls. -/
theorem loadApp_eq_none_iff (fuel : Nat) (name : List Char) (args envs : List (List Char))
    (s : MemorySet PTE σ)
    : loader.loadApp fuel name args envs s = none ↔ after loader.nextName fuel name ≠ none := by
  induction fuel generalizing name args with
  | zero => exact iff_of_true rfl (Option.some_ne_none name)
  | succ fuel ih =>
      rw [after_succ]
      rcases loader.loadApp_cases name args envs s with
        ⟨next, args', leads, call⟩ | ⟨last, result, call, -⟩
      · rw [call, leads, Option.bind_some]
        exact ih next args'
      · rw [call, last]
        exact iff_of_false (Option.some_ne_none result) (not_not.mpr rfl)

/-- A name without a file leaves the memory set as it is, by induction on the calls. -/
theorem loadApp_notFound {fuel : Nat} {args envs : List (List Char)} {s s' : MemorySet PTE σ}
    (run : loader.loadApp fuel name args envs s = some (.ok (.error .notFound, s')))
    : s' = s := by
  induction fuel generalizing name args with
  | zero => cases run
  | succ fuel ih =>
      rcases loader.loadApp_cases name args envs s with
        ⟨next, args', leads, call⟩ | ⟨last, result, call, unchanged⟩
      · rw [call] at run
        exact ih run
      · rw [call] at run
        exact unchanged s' (Option.some.inj run)

/-- Loading finishes if no name comes up twice on the way from the given one, and only then. -/
theorem finishes_iff_acyclic (loader : Loader) (name : List Char) (args envs : List (List Char))
    (s : MemorySet PTE σ)
    : loader.Finishes name args envs s ↔ Acyclic loader.nextName name := by
  rw [← stops_iff_acyclic loader.finite_nextName]
  constructor
  · rintro ⟨⟨fuel, result, run⟩, -⟩
    refine ⟨fuel, ?_⟩
    by_contra goesOn
    rw [(loadApp_eq_none_iff fuel name args envs s).mpr goesOn] at run
    cases run
  · rintro ⟨fuel, stopped⟩
    refine ⟨⟨fuel, ?_⟩, fun fuel s' => loadApp_notFound⟩
    refine Option.ne_none_iff_exists'.mp fun endless => ?_
    exact (loadApp_eq_none_iff fuel name args envs s).mp endless stopped

end Loader

/-- An ELF file of one `INTERP` header, which names the interpreter "/a". -/
def interpretedByA : List UInt8 :=
  [0x7f, 0x45, 0x4c, 0x46, 2, 1, 1, 0, 0, 0, 0, 0, 0, 0, 0, 0]
  ++ [2, 0, 0xf3, 0, 1, 0, 0, 0] ++ [0, 0, 0, 0, 0, 0, 0, 0]
  ++ [0x40, 0, 0, 0, 0, 0, 0, 0] ++ [0, 0, 0, 0, 0, 0, 0, 0]
  ++ [0, 0, 0, 0, 0x40, 0, 0x38, 0, 1, 0, 0x40, 0, 0, 0, 0, 0]
  ++ [3, 0, 0, 0, 4, 0, 0, 0, 0x78, 0, 0, 0, 0, 0, 0, 0]
  ++ [0, 0, 0, 0, 0, 0, 0, 0] ++ [0, 0, 0, 0, 0, 0, 0, 0]
  ++ [3, 0, 0, 0, 0, 0, 0, 0] ++ [3, 0, 0, 0, 0, 0, 0, 0] ++ [1, 0, 0, 0, 0, 0, 0, 0]
  ++ [0x2f, 0x61, 0]

/-- What is parsed of the file. -/
def parsedByA : AppFile where
  magic := [0x7f, 0x45, 0x4c, 0x46]
  entryPoint := 0
  programHeaders := [
    { isLoad := false, virtualAddr := 0, offset := 0x78, fileSize := 3, memSize := 3
      isRead := true, isWrite := false, isExecute := false }]
  sections := []
  input := interpretedByA
  bounded := by decide +kernel
  interp := some (.Undefined [0x2f, 0x61, 0])
  phOffset := 0x40
  phEntrySize := 0x38
  phCount := 1

/-- The file is its own interpreter. -/
def selfInterpreter : Loader where
  read name := if name = "/a".toList then some interpretedByA else none
  contents := [interpretedByA]
  stored name data content := by
    split at content
    · exact List.mem_singleton.mpr (Option.some.inj content).symm
    · cases content
  parse data := if data = interpretedByA then some parsedByA else none
  linkPathMap := .empty

theorem selfInterpreter_next : Next selfInterpreter.nextName "/a".toList "/a".toList := by
  rw [Next]
  decide +kernel

/-- The interpreter of the interpreter is loaded forever. -/
theorem self_interpreter_endless
    : ∃ s : MemorySet Rv64PTE PagePool, MemorySet.newEmpty MemorySet.blank (fun _ => 0) = .ok s
      ∧ ¬ selfInterpreter.Finishes "/a".toList ["/a".toList] [] s := by
  obtain ⟨s, created⟩ := MemorySet.newEmpty_blank
  refine ⟨s, created, ?_⟩
  rintro ⟨⟨fuel, result, run⟩, -⟩
  have endless := after_to_cycle .refl (.single selfInterpreter_next) fuel
  rw [(Loader.loadApp_eq_none_iff fuel _ _ _ s).mpr endless] at run
  cases run

end RCoreOS.Axtask
