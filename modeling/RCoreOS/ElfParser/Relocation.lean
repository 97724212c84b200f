import RCoreOS.Lib.Pointwise
import Mathlib.Data.BitVec

/-! The relocation pairs of an ELF file: for each entry of `.rela.dyn` and `.rela.plt` the value
that the loader writes and the place that it writes it to.
-/

namespace RCoreOS.ElfParser

open Outcome

-----------------------------------------------------------------------------------------
-- The parsed file
-----------------------------------------------------------------------------------------

abbrev Usize := BitVec 64

/-- A symbol table entry; an index of 0 says that the file does not define the symbol, and
its name may not be readable.
-/
structure DynSym where
  name : Option String
  shndx : Nat
  value : Usize
deriving DecidableEq, Repr

structure Rela where
  offset : Usize
  symbolTableIndex : Nat
  type : Nat
  addend : Usize
deriving DecidableEq, Repr

inductive SectionData where
  | Rela64 (data : List Rela)
  | DynSymbolTable64 (data : List DynSym)
  | Other
deriving DecidableEq, Repr

structure ProgramHeader where
  isLoad : Bool
  virtualAddr : Usize
deriving DecidableEq, Repr

structure ElfFile where
  magic : List UInt8
  programHeaders : List ProgramHeader
  sections : List (String × SectionData)
deriving DecidableEq, Repr

structure RelocatePair where
  src : Usize
  dst : Usize
  count : Nat
deriving DecidableEq, Repr

inductive RelocatePanic where
  | invalidElf
  | noBaseAddr
  | invalidData (name : String)
  | indexOutOfBounds
  | unreadableName
  | symbolNotFound (name : String)
  | unknownType (type : Nat)
deriving DecidableEq, Repr

namespace ElfFile

def findSectionByName (elf : ElfFile) (name : String) : Option SectionData :=
  (elf.sections.find? fun entry => entry.1 = name).map Prod.snd

/-- The virtual address of the first `LOAD` segment. -/
def firstLoad (elf : ElfFile) : Option Usize :=
  (elf.programHeaders.find? ProgramHeader.isLoad).map ProgramHeader.virtualAddr

/-- Some elf will load the header to address 0. In that case the base is added. -/
def baseAddr (elf : ElfFile) (elfBaseAddr : Option Usize) : Except RelocatePanic Usize :=
  match elf.firstLoad with
  | none => .ok 0
  | some vaddr =>
      if vaddr = 0 then
        match elfBaseAddr with
        | none => .error .noBaseAddr
        | some addr => .ok addr
      else .ok 0

end ElfFile

-----------------------------------------------------------------------------------------
-- The loops over the sections
-----------------------------------------------------------------------------------------

/-- How one entry of a section becomes a pair, given the base and the symbols. -/
abbrev PairOf :=
  Usize → List DynSym → Rela → Except RelocatePanic RelocatePair

/-- `&dyn_sym_table[entry.get_symbol_table_index() as usize]`. -/
def Rela.dynSym (entry : Rela) (dynSymTable : List DynSym) : Except RelocatePanic DynSym :=
  match dynSymTable[entry.symbolTableIndex]? with
  | none => .error .indexOutOfBounds
  | some dynSym => .ok dynSym

def DynSym.checkDefined (dynSym : DynSym) : Except RelocatePanic Unit :=
  if dynSym.shndx = 0 then
    match dynSym.name with
    | none => .error .unreadableName
    | some name => .error (.symbolNotFound name)
  else .ok ()

/-- The pairs of one section; there are none without the section or without symbols. -/
def sectionPairs (pairOf : PairOf) (elf : ElfFile) (name : String) (baseAddr : Usize)
    : Except RelocatePanic (List RelocatePair) :=
  match elf.findSectionByName name with
  | none => .ok []
  | some (.Rela64 data) =>
      match elf.findSectionByName ".dynsym" with
      | none => .ok []
      | some (.DynSymbolTable64 dynSymTable) => data.mapM (pairOf baseAddr dynSymTable)
      | some _ => .error (.invalidData ".dynsym")
  | some _ => .error (.invalidData name)

/-- `get_relocate_pairs`, by what an architecture makes of the entries of the two sections. -/
def relocatePairs (relaDyn relaPlt : PairOf) (elf : ElfFile) (elfBaseAddr : Option Usize)
    : Except RelocatePanic (List RelocatePair) := do
  if elf.magic ≠ [0x7f, 0x45, 0x4c, 0x46] then .error .invalidElf
  else
    let baseAddr ← elf.baseAddr elfBaseAddr
    let dynPairs ← sectionPairs relaDyn elf ".rela.dyn" baseAddr
    let pltPairs ← sectionPairs relaPlt elf ".rela.plt" baseAddr
    return dynPairs ++ pltPairs

-----------------------------------------------------------------------------------------
-- RISC-V
-----------------------------------------------------------------------------------------

namespace Riscv

@[match_pattern] def R_RISCV_32 : Nat := 1
@[match_pattern] def R_RISCV_64 : Nat := 2
@[match_pattern] def R_RISCV_RELATIVE : Nat := 3
@[match_pattern] def R_JUMP_SLOT : Nat := 5
@[match_pattern] def TLS_DTPREL32 : Nat := 8

def TLS_DTV_OFFSET : Usize := 0x800

def relaDyn : PairOf := fun baseAddr dynSymTable entry => do
  let dynSym ← entry.dynSym dynSymTable
  let destination := baseAddr + entry.offset
  match entry.type with
  | R_RISCV_32 =>
      dynSym.checkDefined
      return { src := dynSym.value + entry.addend, dst := destination, count := 4 }
  | R_RISCV_64 =>
      dynSym.checkDefined
      return { src := dynSym.value + entry.addend, dst := destination, count := 8 }
  | R_RISCV_RELATIVE =>
      return { src := baseAddr + entry.addend, dst := destination, count := 8 }
  | R_JUMP_SLOT =>
      dynSym.checkDefined
      return { src := dynSym.value, dst := destination, count := 8 }
  | TLS_DTPREL32 =>
      return { src := dynSym.value + entry.addend - TLS_DTV_OFFSET, dst := destination, count := 4 }
  | other => .error (.unknownType other)

def relaPlt : PairOf := fun baseAddr dynSymTable entry => do
  let dynSym ← entry.dynSym dynSymTable
  let destination := baseAddr + entry.offset
  match entry.type with
  | R_JUMP_SLOT =>
      dynSym.checkDefined
      return { src := dynSym.value + baseAddr, dst := destination, count := 8 }
  | other => .error (.unknownType other)

def getRelocatePairs : ElfFile → Option Usize → Except RelocatePanic (List RelocatePair) :=
  relocatePairs relaDyn relaPlt

end Riscv

-----------------------------------------------------------------------------------------
-- x86-64
-----------------------------------------------------------------------------------------

namespace X86

@[match_pattern] def R_X86_64_64 : Nat := 1
@[match_pattern] def R_X86_64_PC32 : Nat := 2
@[match_pattern] def R_X86_64_GLOB_DAT : Nat := 6
@[match_pattern] def R_X86_64_JUMP_SLOT : Nat := 7
@[match_pattern] def R_X86_64_RELATIVE : Nat := 8
@[match_pattern] def R_X86_64_IRELATIVE : Nat := 37

def relaDyn : PairOf := fun baseAddr dynSymTable entry => do
  let dynSym ← entry.dynSym dynSymTable
  let destination := baseAddr + entry.offset
  match entry.type with
  | R_X86_64_64 =>
      dynSym.checkDefined
      return { src := dynSym.value, dst := destination, count := 8 }
  | R_X86_64_PC32 =>
      dynSym.checkDefined
      return { src := dynSym.value + entry.addend - entry.offset, dst := destination, count := 4 }
  | R_X86_64_GLOB_DAT | R_X86_64_JUMP_SLOT =>
      dynSym.checkDefined
      return { src := dynSym.value, dst := destination, count := 8 }
  | R_X86_64_RELATIVE =>
      return { src := baseAddr + entry.addend, dst := destination, count := 8 }
  | R_X86_64_IRELATIVE => return { src := 0, dst := destination, count := 8 }
  | other => .error (.unknownType other)

def relaPlt : PairOf := fun baseAddr dynSymTable entry =>
  match entry.type with
  | R_X86_64_GLOB_DAT | R_X86_64_JUMP_SLOT => do
      let dynSym ← entry.dynSym dynSymTable
      dynSym.checkDefined
      return { src := dynSym.value, dst := baseAddr + entry.offset, count := 8 }
  | other => .error (.unknownType other)

def getRelocatePairs : ElfFile → Option Usize → Except RelocatePanic (List RelocatePair) :=
  relocatePairs relaDyn relaPlt

end X86

-----------------------------------------------------------------------------------------
-- The values that follow the base
-----------------------------------------------------------------------------------------

/-- What the value of an entry is made of: a symbol and the addend, a symbol alone, or the base
and the addend.
-/
inductive RelocKind where
  | symbol
  | slot
  | relative
  | other
deriving DecidableEq, Repr

def Riscv.kind : Nat → RelocKind
  | R_RISCV_64 => .symbol
  | R_JUMP_SLOT => .slot
  | R_RISCV_RELATIVE => .relative
  | _ => .other

def X86.kind : Nat → RelocKind
  | R_X86_64_64 => .symbol
  | R_X86_64_GLOB_DAT | R_X86_64_JUMP_SLOT => .slot
  | R_X86_64_RELATIVE => .relative
  | _ => .other

/-- Place and value of a pair are the base and what the entry and its symbol say. -/
def Follows (kind : RelocKind) (base : Usize) (dynSymTable : List DynSym) (entry : Rela)
    (pair : RelocatePair)
    : Prop :=
  match kind with
  | .symbol => pair.dst = base + entry.offset
      ∧ ∃ dynSym, dynSymTable[entry.symbolTableIndex]? = some dynSym
        ∧ pair.src = base + dynSym.value + entry.addend
  | .slot => pair.dst = base + entry.offset
      ∧ ∃ dynSym, dynSymTable[entry.symbolTableIndex]? = some dynSym
        ∧ pair.src = base + dynSym.value
  | .relative => pair.dst = base + entry.offset ∧ pair.src = base + entry.addend
  | .other => True

namespace ElfFile

def dynSymTable (elf : ElfFile) : List DynSym :=
  match elf.findSectionByName ".dynsym" with
  | some (.DynSymbolTable64 data) => data
  | _ => []

/-- The entries of a section that pairs are made of. -/
def entries (elf : ElfFile) (name : String) : List Rela :=
  match elf.findSectionByName name, elf.findSectionByName ".dynsym" with
  | some (.Rela64 data), some _ => data
  | _, _ => []

/-- Each pair follows the base, in the order of the entries of the two sections. -/
def FollowsBase (elf : ElfFile) (kind : Nat → RelocKind) (base : Usize)
    (pairs : List RelocatePair)
    : Prop :=
  List.Forall₂ (fun entry => Follows (kind entry.type) base elf.dynSymTable entry)
    (elf.entries ".rela.dyn" ++ elf.entries ".rela.plt") pairs

end ElfFile

/-- The entries of a section and their pairs. -/
theorem sectionPairs_eq_ok {pairOf : PairOf} {elf : ElfFile} {name : String} {base : Usize}
    {pairs : List RelocatePair} (run : sectionPairs pairOf elf name base = .ok pairs)
    : List.Forall₂ (fun entry pair => pairOf base elf.dynSymTable entry = .ok pair)
        (elf.entries name) pairs := by
  unfold sectionPairs at run
  unfold ElfFile.entries ElfFile.dynSymTable
  split at run
  · next missing =>
      cases run
      rw [missing]
      exact .nil
  · next data found =>
      rw [found]
      split at run
      · next missing =>
          cases run
          rw [missing]
          exact .nil
      · next dynSymTable symbols =>
          rw [symbols]
          exact mapM_eq_ok run
      · cases run
  · cases run

/-- The pairs are those of the two sections, at the given base for a file loaded to 0. -/
theorem relocatePairs_eq_ok {relaDyn relaPlt : PairOf} {elf : ElfFile} {base : Usize}
    {pairs : List RelocatePair} (loaded : elf.firstLoad = some 0)
    (run : relocatePairs relaDyn relaPlt elf (some base) = .ok pairs)
    : ∃ dynPairs pltPairs, pairs = dynPairs ++ pltPairs
        ∧ List.Forall₂ (fun entry pair => relaDyn base elf.dynSymTable entry = .ok pair)
            (elf.entries ".rela.dyn") dynPairs
        ∧ List.Forall₂ (fun entry pair => relaPlt base elf.dynSymTable entry = .ok pair)
            (elf.entries ".rela.plt") pltPairs := by
  unfold relocatePairs at run
  split at run
  · cases run
  · obtain ⟨baseAddr, based, run⟩ := bind_eq_ok.mp run
    rw [ElfFile.baseAddr, loaded] at based
    cases based
    obtain ⟨dynPairs, dyn, run⟩ := bind_eq_ok.mp run
    obtain ⟨pltPairs, plt, run⟩ := bind_eq_ok.mp run
    cases run
    exact ⟨dynPairs, pltPairs, rfl, sectionPairs_eq_ok dyn, sectionPairs_eq_ok plt⟩

/-- All pairs follow the base when each entry meets the condition under which its own does. -/
theorem followsBase_iff {relaDyn relaPlt : PairOf} {kind : Nat → RelocKind} {elf : ElfFile}
    {base : Usize} {pairs : List RelocatePair} (dynHolds pltHolds : Rela → Prop)
    (dyn : ∀ table entry pair, relaDyn base table entry = .ok pair →
      (Follows (kind entry.type) base table entry pair ↔ dynHolds entry))
    (plt : ∀ table entry pair, relaPlt base table entry = .ok pair →
      (Follows (kind entry.type) base table entry pair ↔ pltHolds entry))
    (loaded : elf.firstLoad = some 0)
    (run : relocatePairs relaDyn relaPlt elf (some base) = .ok pairs)
    : elf.FollowsBase kind base pairs
      ↔ (∀ entry ∈ elf.entries ".rela.dyn", dynHolds entry)
        ∧ ∀ entry ∈ elf.entries ".rela.plt", pltHolds entry := by
  obtain ⟨dynPairs, pltPairs, rfl, dynRelated, pltRelated⟩ := relocatePairs_eq_ok loaded run
  rw [ElfFile.FollowsBase, List.forall₂_append_iff dynRelated.length_eq,
    dynRelated.iff_forall (dyn elf.dynSymTable), pltRelated.iff_forall (plt elf.dynSymTable)]

/-- A symbol that was looked up, and is defined. -/
theorem dynSym_eq_ok {entry : Rela} {table : List DynSym} {dynSym : DynSym}
    (found : entry.dynSym table = .ok dynSym)
    : table[entry.symbolTableIndex]? = some dynSym := by
  unfold Rela.dynSym at found
  split at found
  · cases found
  · next known =>
      cases found
      exact known

section Arms

variable {base : Usize} {table : List DynSym} {entry : Rela} {dynSym : DynSym} {count : Nat}

theorem follows_symbol (known : table[entry.symbolTableIndex]? = some dynSym) (src : Usize)
    : Follows .symbol base table entry ⟨src, base + entry.offset, count⟩
      ↔ src = base + dynSym.value + entry.addend := by
  simp [Follows, known]

theorem follows_slot (known : table[entry.symbolTableIndex]? = some dynSym) (src : Usize)
    : Follows .slot base table entry ⟨src, base + entry.offset, count⟩
      ↔ src = base + dynSym.value := by
  simp [Follows, known]

end Arms

namespace Riscv

/-- In `.rela.dyn` the values of 64-bit and jump slot entries lack the base. -/
theorem relaDyn_follows {base : Usize} (table : List DynSym) (entry : Rela)
    (pair : RelocatePair) (run : relaDyn base table entry = .ok pair)
    : Follows (kind entry.type) base table entry pair
      ↔ (entry.type = R_RISCV_64 ∨ entry.type = R_JUMP_SLOT → base = 0) := by
  obtain ⟨dynSym, found, run⟩ := bind_eq_ok.mp run
  have known := dynSym_eq_ok found
  split at run
  · next type =>
      obtain ⟨-, -, made⟩ := bind_eq_ok.mp run
      cases made
      simp [type, kind, Follows, R_RISCV_64, R_JUMP_SLOT]
  · next type =>
      obtain ⟨-, -, made⟩ := bind_eq_ok.mp run
      cases made
      rw [type, kind, follows_symbol known, add_left_inj, right_eq_add]
      simp [R_RISCV_64]
  · next type =>
      cases run
      simp [type, kind, Follows, R_RISCV_64, R_JUMP_SLOT]
  · next type =>
      obtain ⟨-, -, made⟩ := bind_eq_ok.mp run
      cases made
      rw [type, kind, follows_slot known, right_eq_add]
      simp [R_JUMP_SLOT]
  · next type =>
      cases run
      simp [type, kind, Follows, R_RISCV_64, R_JUMP_SLOT]
  · cases run

/-- In `.rela.plt` every value has the base. -/
theorem relaPlt_follows {base : Usize} (table : List DynSym) (entry : Rela)
    (pair : RelocatePair) (run : relaPlt base table entry = .ok pair)
    : Follows (kind entry.type) base table entry pair := by
  obtain ⟨dynSym, found, run⟩ := bind_eq_ok.mp run
  have known := dynSym_eq_ok found
  split at run
  · next type =>
      obtain ⟨-, -, made⟩ := bind_eq_ok.mp run
      cases made
      rw [type, kind, follows_slot known]
      exact add_comm _ _
  · cases run

/-- No entry of `.rela.dyn` is symbol-based, or the base is 0. -/
def BaseFree (elf : ElfFile) (base : Usize) : Prop :=
  ∀ entry ∈ elf.entries ".rela.dyn",
    entry.type = R_RISCV_64 ∨ entry.type = R_JUMP_SLOT → base = 0

/-- The pairs follow the base exactly when those of `.rela.dyn` need no base. -/
theorem getRelocatePairs_follows {elf : ElfFile} {base : Usize} {pairs : List RelocatePair}
    (loaded : elf.firstLoad = some 0) (run : getRelocatePairs elf (some base) = .ok pairs)
    : elf.FollowsBase kind base pairs ↔ BaseFree elf base := by
  have plt (table entry pair) (made : relaPlt base table entry = .ok pair) :=
    iff_true_intro (relaPlt_follows table entry pair made)
  rw [followsBase_iff _ _ relaDyn_follows plt loaded run, BaseFree]
  simp

end Riscv

namespace X86

/-- In `.rela.dyn` no value of a symbol-based entry has the base, and none has the addend. -/
theorem relaDyn_follows {base : Usize} (table : List DynSym) (entry : Rela)
    (pair : RelocatePair) (run : relaDyn base table entry = .ok pair)
    : Follows (kind entry.type) base table entry pair
      ↔ (entry.type = R_X86_64_64 → base + entry.addend = 0)
        ∧ (entry.type = R_X86_64_GLOB_DAT ∨ entry.type = R_X86_64_JUMP_SLOT → base = 0) := by
  obtain ⟨dynSym, found, run⟩ := bind_eq_ok.mp run
  have known := dynSym_eq_ok found
  split at run
  · next type =>
      obtain ⟨-, -, made⟩ := bind_eq_ok.mp run
      cases made
      rw [type, kind, follows_symbol known, add_right_comm, right_eq_add]
      simp [R_X86_64_64, R_X86_64_GLOB_DAT, R_X86_64_JUMP_SLOT]
  · next type =>
      obtain ⟨-, -, made⟩ := bind_eq_ok.mp run
      cases made
      simp [type, kind, Follows, R_X86_64_64, R_X86_64_GLOB_DAT, R_X86_64_JUMP_SLOT]
  · next type =>
      obtain ⟨-, -, made⟩ := bind_eq_ok.mp run
      cases made
      rw [type, kind, follows_slot known, right_eq_add]
      simp [R_X86_64_64, R_X86_64_GLOB_DAT]
  · next type =>
      obtain ⟨-, -, made⟩ := bind_eq_ok.mp run
      cases made
      rw [type, kind, follows_slot known, right_eq_add]
      simp [R_X86_64_64, R_X86_64_JUMP_SLOT]
  · next type =>
      cases run
      simp [type, kind, Follows, R_X86_64_64, R_X86_64_GLOB_DAT, R_X86_64_JUMP_SLOT]
  · next type =>
      cases run
      simp [type, kind, Follows, R_X86_64_64, R_X86_64_GLOB_DAT, R_X86_64_JUMP_SLOT]
  · cases run

/-- In `.rela.plt` no value has the base. -/
theorem relaPlt_follows {base : Usize} (table : List DynSym) (entry : Rela)
    (pair : RelocatePair) (run : relaPlt base table entry = .ok pair)
    : Follows (kind entry.type) base table entry pair ↔ base = 0 := by
  unfold relaPlt at run
  split at run
  · next type =>
      obtain ⟨dynSym, found, run⟩ := bind_eq_ok.mp run
      obtain ⟨-, -, made⟩ := bind_eq_ok.mp run
      cases made
      rw [type, kind, follows_slot (dynSym_eq_ok found), right_eq_add]
  · next type =>
      obtain ⟨dynSym, found, run⟩ := bind_eq_ok.mp run
      obtain ⟨-, -, made⟩ := bind_eq_ok.mp run
      cases made
      rw [type, kind, follows_slot (dynSym_eq_ok found), right_eq_add]
  · cases run

/-- The addend of each 64-bit entry of `.rela.dyn` takes the base back, and no other entry
of it or of `.rela.plt` is symbol-based, or the base is 0.
-/
def BaseFree (elf : ElfFile) (base : Usize) : Prop :=
  (∀ entry ∈ elf.entries ".rela.dyn",
    (entry.type = R_X86_64_64 → base + entry.addend = 0)
      ∧ (entry.type = R_X86_64_GLOB_DAT ∨ entry.type = R_X86_64_JUMP_SLOT → base = 0))
    ∧ ∀ entry ∈ elf.entries ".rela.plt", base = 0

/-- The pairs follow the base exactly when none needs a base or an addend. -/
theorem getRelocatePairs_follows {elf : ElfFile} {base : Usize} {pairs : List RelocatePair}
    (loaded : elf.firstLoad = some 0) (run : getRelocatePairs elf (some base) = .ok pairs)
    : elf.FollowsBase kind base pairs ↔ BaseFree elf base :=
  followsBase_iff _ _ relaDyn_follows relaPlt_follows loaded run

end X86

/-- On both architectures the pairs of a file loaded to 0 follow the base exactly when no value
lacks it.
-/
theorem relocation_follows_base {elf : ElfFile} {base : Usize} (loaded : elf.firstLoad = some 0)
    : (∀ pairs, Riscv.getRelocatePairs elf (some base) = .ok pairs →
        (elf.FollowsBase Riscv.kind base pairs ↔ Riscv.BaseFree elf base))
      ∧ ∀ pairs, X86.getRelocatePairs elf (some base) = .ok pairs →
        (elf.FollowsBase X86.kind base pairs ↔ X86.BaseFree elf base) :=
  ⟨fun _ => Riscv.getRelocatePairs_follows loaded, fun _ => X86.getRelocatePairs_follows loaded⟩

/-- A file loaded to 0 with one defined symbol and the given entries. -/
def oneSymbolFile (relaDyn relaPlt : List Rela) : ElfFile where
  magic := [0x7f, 0x45, 0x4c, 0x46]
  programHeaders := [{ isLoad := true, virtualAddr := 0 }]
  sections := [(".dynsym", .DynSymbolTable64 [⟨some "f", 1, 0x100⟩]),
    (".rela.dyn", .Rela64 relaDyn), (".rela.plt", .Rela64 relaPlt)]

/-- On RISC-V a jump slot of `.rela.plt` follows the base and a 64-bit entry of `.rela.dyn` does
not, and on x86-64 one does whose addend takes the base back.
-/
theorem relocation_follows_base_oneSymbol
    : (∃ pairs,
        Riscv.getRelocatePairs (oneSymbolFile [⟨0x2000, 0, 3, 4⟩] [⟨0x2008, 0, 5, 0⟩])
          (some 0x40000000) = .ok pairs
        ∧ (oneSymbolFile [⟨0x2000, 0, 3, 4⟩] [⟨0x2008, 0, 5, 0⟩]).FollowsBase Riscv.kind
          0x40000000 pairs)
      ∧ (∃ pairs,
        Riscv.getRelocatePairs (oneSymbolFile [⟨0x2000, 0, 2, 4⟩] []) (some 0x40000000)
          = .ok pairs
        ∧ ¬ (oneSymbolFile [⟨0x2000, 0, 2, 4⟩] []).FollowsBase Riscv.kind 0x40000000 pairs)
      ∧ ∃ pairs,
        X86.getRelocatePairs (oneSymbolFile [⟨0x2000, 0, 1, -0x40000000⟩] []) (some 0x40000000)
          = .ok pairs
        ∧ (oneSymbolFile [⟨0x2000, 0, 1, -0x40000000⟩] []).FollowsBase X86.kind 0x40000000
          pairs := by
  refine ⟨⟨_, rfl, ?_⟩, ⟨_, rfl, fun follows => ?_⟩, _, rfl, ?_⟩
  · refine ((relocation_follows_base rfl).1 _ rfl).mpr fun entry member => ?_
    cases List.mem_singleton.mp member
    decide
  · have free := ((relocation_follows_base rfl).1 _ rfl).mp follows
    exact absurd (free _ (List.mem_singleton_self _) (.inl rfl)) (by decide)
  · refine ((relocation_follows_base rfl).2 _ rfl).mpr ⟨fun entry member => ?_, nofun⟩
    cases List.mem_singleton.mp member
    decide

/-- Without the base, a jump slot of `.rela.dyn` points below the file on RISC-V, as one of
`.rela.plt` does on x86-64.
-/
theorem jumpSlot_lacks_base
    : Riscv.getRelocatePairs (oneSymbolFile [⟨0x2000, 0, 5, 0⟩] []) (some 0x40000000)
        = .ok [⟨0x100, 0x40002000, 8⟩]
      ∧ ¬ (oneSymbolFile [⟨0x2000, 0, 5, 0⟩] []).FollowsBase Riscv.kind 0x40000000
          [⟨0x100, 0x40002000, 8⟩]
      ∧ X86.getRelocatePairs (oneSymbolFile [] [⟨0x2000, 0, 7, 0⟩]) (some 0x40000000)
        = .ok [⟨0x100, 0x40002000, 8⟩]
      ∧ ¬ (oneSymbolFile [] [⟨0x2000, 0, 7, 0⟩]).FollowsBase X86.kind 0x40000000
          [⟨0x100, 0x40002000, 8⟩] := by
  have riscv : Riscv.getRelocatePairs (oneSymbolFile [⟨0x2000, 0, 5, 0⟩] []) (some 0x40000000)
      = .ok [⟨0x100, 0x40002000, 8⟩] := by rfl
  have x86 : X86.getRelocatePairs (oneSymbolFile [] [⟨0x2000, 0, 7, 0⟩]) (some 0x40000000)
      = .ok [⟨0x100, 0x40002000, 8⟩] := by rfl
  refine ⟨riscv, fun follows => ?_, x86, fun follows => ?_⟩
  · have free := (Riscv.getRelocatePairs_follows rfl riscv).mp follows
    exact absurd (free _ (List.mem_singleton_self _) (.inr rfl)) (by decide)
  · have free := (X86.getRelocatePairs_follows rfl x86).mp follows
    exact absurd (free.2 _ (List.mem_singleton_self _)) (by decide)

end RCoreOS.ElfParser
