import RCoreOS.Lib.Outcome
import RCoreOS.Lib.Quoting
import RCoreOS.Lib.Utf8
import RCoreOS.Lib.Window

/-! Splitting the command line of a test case. The scanner works on the bytes of the line; on those
of a string it returns the fields of its characters, with the quotes in them.
-/

namespace RCoreOS.LinuxSyscallApi

open Quoting (fields wrap)
open Utf8 (bytes)

/-- The panics of `get_args`. -/
inductive SplitPanic where
  | indexOutOfBounds
  | sliceOutOfBounds
  | invalidUtf8
deriving DecidableEq, Repr

/-- The bytes from one position to another one as a string. -/
def sliceToString (commandLine : List UInt8) (start stop : Nat) : Except SplitPanic String :=
  if start ≤ stop ∧ stop ≤ commandLine.length then
    match String.fromUTF8? (commandLine.extract start stop).toByteArray with
    | some arg => .ok arg
    | none => .error .invalidUtf8
  else .error .sliceOutOfBounds

/-- The variables of the loop in `get_args`. -/
structure ArgScan where
  args : List String
  inQuote : Bool
  argStart : Nat
deriving DecidableEq, Repr

namespace ArgScan

def new : ArgScan where
  args := []
  inQuote := false
  argStart := 0

/-- The argument from `arg_start` up to a position, unless there is none. -/
def push (scan : ArgScan) (commandLine : List UInt8) (stop : Nat)
    : Except SplitPanic (List String) :=
  if scan.argStart ≠ stop then do
    let arg ← sliceToString commandLine scan.argStart stop
    .ok (scan.args ++ [arg])
  else .ok scan.args

/-- The body of the loop. -/
def turn (commandLine : List UInt8) (scan : ArgScan) (pos : Nat) : Except SplitPanic ArgScan :=
  match commandLine[pos]? with
  | none => .error .indexOutOfBounds
  | some byte =>
      let inQuote := if byte = '"'.toUInt8 then !scan.inQuote else scan.inQuote
      if byte = ' '.toUInt8 ∧ inQuote = false then do
        let args ← scan.push commandLine pos
        .ok { args, inQuote, argStart := pos + 1 }
      else .ok { scan with inQuote }

end ArgScan

def getArgs (commandLine : List UInt8) : Except SplitPanic (List String) := do
  let scan ← (List.range commandLine.length).foldlM (ArgScan.turn commandLine) .new
  scan.push commandLine commandLine.length

-----------------------------------------------------------------------------------------
-- The scanner
-----------------------------------------------------------------------------------------

/-- The fields of the bytes of a line. -/
abbrev byteFields (inQuote : Bool) (word rest : List UInt8) : List (List UInt8) :=
  fields ' '.toUInt8 '"'.toUInt8 inQuote word rest

/-- The arguments that were found are the first ones of the given ones, and the others are still to
be found.
-/
def ArgScan.Finds (commandLine : List UInt8) (words : List String) (pos : Nat) (scan : ArgScan)
    : Prop :=
  scan.argStart ≤ pos
  ∧ ∃ later, words = scan.args ++ later
    ∧ later.map bytes
      = byteFields scan.inQuote (commandLine.extract scan.argStart pos) (commandLine.drop pos)

theorem sliceToString_bytes {commandLine : List UInt8} {start stop : Nat} {arg : String}
    (ordered : start ≤ stop) (inside : stop ≤ commandLine.length)
    (found : bytes arg = commandLine.extract start stop)
    : sliceToString commandLine start stop = .ok arg := by
  rw [sliceToString, if_pos ⟨ordered, inside⟩, ← found, Utf8.fromUTF8?_bytes]

/-- The next argument is pushed if there is one. -/
theorem ArgScan.push_eq {scan : ArgScan} {commandLine : List UInt8} {stop : Nat}
    {later : List String} {others : List (List UInt8)} (ordered : scan.argStart ≤ stop)
    (inside : stop ≤ commandLine.length)
    (found : later.map bytes
      = Quoting.keep (commandLine.extract scan.argStart stop) ++ others)
    : ∃ args later', later = args ++ later' ∧ scan.push commandLine stop = .ok (scan.args ++ args)
      ∧ later'.map bytes = others := by
  by_cases empty : scan.argStart = stop
  · have none : commandLine.extract scan.argStart stop = [] :=
      (List.extract_eq_nil_iff inside).mpr (Nat.le_of_eq empty.symm)
    refine ⟨[], later, rfl, ?_, ?_⟩
    · rw [push, if_neg (not_not_intro empty), List.append_nil]
    · rw [found, none]
      rfl
  · have some : commandLine.extract scan.argStart stop ≠ [] := fun none =>
      empty (Nat.le_antisymm ordered ((List.extract_eq_nil_iff inside).mp none))
    rw [Quoting.keep_of_ne_nil some, List.singleton_append] at found
    obtain ⟨arg, later', rfl, slice, others⟩ := List.map_eq_cons_iff.mp found
    refine ⟨[arg], later', rfl, ?_, others⟩
    rw [push, if_pos empty, sliceToString_bytes ordered inside slice]
    rfl

/-- One turn of the loop. -/
theorem ArgScan.Finds.turn {commandLine : List UInt8} {words : List String} {pos : Nat}
    {scan : ArgScan} (finds : scan.Finds commandLine words pos) (inside : pos < commandLine.length)
    : Outcome.Ends (fun _ => False) (ArgScan.Finds commandLine words (pos + 1))
        (scan.turn commandLine pos) := by
  obtain ⟨ordered, later, rfl, found⟩ := finds
  rw [List.drop_eq_getElem_cons inside, byteFields, fields] at found
  rw [ArgScan.turn, List.getElem?_eq_getElem inside]
  dsimp only at found ⊢
  generalize (if commandLine[pos] = '"'.toUInt8 then !scan.inQuote else scan.inQuote) = inQuote
    at found ⊢
  split
  · next splits =>
      rw [if_pos splits] at found
      obtain ⟨args, later', rfl, pushed, others⟩ :=
        push_eq ordered (Nat.le_of_lt inside) found
      have none : commandLine.extract (pos + 1) (pos + 1) = [] :=
        (List.extract_eq_nil_iff inside).mpr (Nat.le_refl _)
      rw [pushed]
      refine ⟨Nat.le_refl _, later', (List.append_assoc ..).symm, ?_⟩
      rw [others, none]
  · next within =>
      rw [if_neg within] at found
      refine ⟨Nat.le_succ_of_le ordered, later, rfl, ?_⟩
      rw [found, List.extract_succ ordered inside]

/-- If the fields of a line are strings, they are its arguments. -/
theorem getArgs_of_fields {commandLine : List UInt8} {words : List String}
    (found : words.map bytes = byteFields false [] commandLine)
    : getArgs commandLine = .ok words := by
  have start : ArgScan.Finds commandLine words 0 .new := ⟨Nat.le_refl 0, words, rfl, found⟩
  have loop := Outcome.Ends.foldlM_range (ArgScan.Finds commandLine words)
    (fun pos inside scan finds => finds.turn inside) start
  rw [getArgs]
  cases scanned : (List.range commandLine.length).foldlM (ArgScan.turn commandLine) .new with
  | error panic => exact (loop.of_error scanned).elim
  | ok scan =>
      obtain ⟨ordered, later, rfl, left⟩ := loop.of_ok scanned
      rw [List.drop_length, byteFields, fields, ← List.append_nil (Quoting.keep _)] at left
      obtain ⟨args, later', rfl, pushed, none⟩ := ArgScan.push_eq ordered (Nat.le_refl _) left
      rw [List.map_eq_nil_iff] at none
      rw [Outcome.ok_bind, pushed, none, List.append_nil]

-----------------------------------------------------------------------------------------
-- Lines of characters
-----------------------------------------------------------------------------------------

theorem encodes : Quoting.Encodes String.utf8EncodeChar ' ' '"' ' '.toUInt8 '"'.toUInt8 where
  nonempty _ := String.utf8EncodeChar_ne_nil
  sepAlone := Utf8.encode_ascii (by decide)
  quoteAlone := Utf8.encode_ascii (by decide)
  sepOnly _ := Utf8.eq_of_code_mem (d := ' ') (by decide)
  quoteOnly _ := Utf8.eq_of_code_mem (d := '"') (by decide)

/-- The arguments of a string are the fields of its characters. -/
theorem getArgs_bytes (commandLine : String)
    : getArgs (bytes commandLine)
      = .ok ((fields ' ' '"' false [] commandLine.toList).map String.ofList) := by
  apply getArgs_of_fields
  have spelled : bytes ∘ String.ofList = fun word => word.flatMap String.utf8EncodeChar :=
    funext Utf8.bytes_ofList
  rw [Utf8.bytes_eq, List.map_map, spelled, ← encodes.fields (by decide)]
  rfl

/-- A line with the arguments, those with spaces in quotes, and spaces between them and at both
ends.
-/
def commandLine (leading : Nat) (gap : Nat → Nat) (trailing : Nat) (args : List String) : String :=
  .ofList (Quoting.line ' ' '"' leading gap trailing (args.map String.toList))

/-- An argument as it stands in a line. -/
def quoted (arg : String) : String :=
  .ofList (wrap ' ' '"' arg.toList)

theorem quoted_eq_iff {arg : String} : quoted arg = arg ↔ ' ' ∉ arg.toList := by
  rw [quoted, ← String.toList_inj, String.toList_ofList]
  exact Quoting.wrap_eq_iff

section Line

variable {args : List String} {gap : Nat → Nat} (nonempty : ∀ arg ∈ args, arg ≠ "")
  (unquoted : ∀ arg ∈ args, '"' ∉ arg.toList) (positive : ∀ i, 0 < gap i) (leading trailing : Nat)
include nonempty unquoted positive

/-- The arguments of a line are returned as they stand in it. -/
theorem getArgs_commandLine
    : getArgs (bytes (commandLine leading gap trailing args)) = .ok (args.map quoted) := by
  have filled : ∀ word ∈ args.map String.toList, word ≠ [] := by
    intro word present
    obtain ⟨arg, here, rfl⟩ := List.mem_map.mp present
    exact mt String.toList_eq_nil_iff.mp (nonempty arg here)
  have plain : ∀ word ∈ args.map String.toList, '"' ∉ word := by
    intro word present
    obtain ⟨arg, here, rfl⟩ := List.mem_map.mp present
    exact unquoted arg here
  have different : ' ' ≠ '"' := by decide
  have read := Quoting.fields_line different positive filled plain leading trailing
  rw [getArgs_bytes, commandLine, String.toList_ofList, read, List.map_map, List.map_map]
  rfl

/-- Valid bytes are split without a panic. The arguments of a line come back exactly if none of them
has a space, as the others keep their quotes.
-/
theorem getArgs_inverts_iff
    : (∀ line : List UInt8, line.toByteArray.IsValidUTF8 → ∃ words, getArgs line = .ok words)
      ∧ (getArgs (bytes (commandLine leading gap trailing args)) = .ok args
          ↔ ∀ arg ∈ args, ' ' ∉ arg.toList) := by
  constructor
  · intro line valid
    obtain ⟨text, rfl⟩ := Utf8.exists_bytes valid
    exact ⟨_, getArgs_bytes text⟩
  · have same : args.map quoted = args ↔ ∀ arg ∈ args, quoted arg = arg := by
      simpa using List.map_inj_left (l := args) (f := quoted) (g := id)
    rw [getArgs_commandLine nonempty unquoted positive, Except.ok.injEq, same]
    exact forall₂_congr fun arg _ => quoted_eq_iff

end Line

theorem getArgs_inverts_words
    : getArgs (bytes (commandLine 1 (· + 2) 3 ["ls", "-l", "é"])) = .ok ["ls", "-l", "é"] := by
  refine (getArgs_inverts_iff ?_ ?_ ?_ 1 3).2.mpr ?_
  · decide +kernel
  · decide +kernel
  · exact fun i => Nat.succ_pos (i + 1)
  · decide +kernel

/-- The quotes around an argument with a space stay in it. -/
theorem quotes_stay
    : getArgs (bytes (commandLine 0 (fun _ => 1) 0 ["echo", "a b"])) = .ok ["echo", "\"a b\""]
      ∧ getArgs (bytes (commandLine 0 (fun _ => 1) 0 ["echo", "a b"])) ≠ .ok ["echo", "a b"] := by
  decide +kernel

end RCoreOS.LinuxSyscallApi
