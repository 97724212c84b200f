import RCoreOS.Axfs.Root

/-! Canonical paths as text. `canonicalize` keeps a stack of names in a string: it removes the
last name character by character, and looks at the last byte before it adds the next one.
-/

namespace RCoreOS.Axfs

open Axtask (FilePath absolutePath canonicalize pushPart)

/-- The path that names spell, joined by single slashes. -/
def joinNames (isAbsolute : Bool) (names : List (List Char)) : List Char :=
  (if isAbsolute then ['/'] else []) ++ ['/'].intercalate names

/-- The path that is left when the components of a path go through a stack: empty ones and `.`
are ignored, `..` takes the last one off if there is one, and any other is put on.
-/
def normalForm (path : List Char) : List Char :=
  joinNames (path.head? == some '/') (textNames path)

/-- Nothing in a path can be simplified. -/
structure Normalised (path : List Char) : Prop where
  noDots : ∀ part ∈ path.splitOn '/', part ≠ ['.'] ∧ part ≠ ['.', '.']
  noDouble : ¬ ['/', '/'] <:+: path
  noTrailing : path.getLast? = some '/' → path = ['/']

variable {isAbsolute : Bool} {buf part path : List Char} {names : List (List Char)}

-----------------------------------------------------------------------------------------
-- Joined names
-----------------------------------------------------------------------------------------

theorem intercalate_splitOn_names (proper : ∀ name ∈ names, Proper name) (some : names ≠ [])
    : (['/'].intercalate names).splitOn '/' = names :=
  List.splitOn_intercalate '/' (fun name member => (proper name member).noSlash) some

theorem intercalate_snoc {name : List Char} (proper : ∀ name ∈ names, Proper name)
    (last : Proper name) (some : names ≠ [])
    : ['/'].intercalate (names ++ [name]) = ['/'].intercalate names ++ '/' :: name := by
  have parts : (['/'].intercalate names ++ '/' :: name).splitOn '/' = names ++ [name] := by
    rw [List.splitOn_append_cons_self, intercalate_splitOn_names proper some,
      List.splitOn_eq_singleton last.noSlash]
  rw [← parts, List.intercalate_splitOn]

/-- A buffer with names in it is their spelling, by induction on the buffer. -/
theorem Spells.joined (spells : Spells isAbsolute buf names) (some : names ≠ [])
    : buf = joinNames isAbsolute names := by
  induction spells with
  | empty => exact absurd rfl some
  | root => exact absurd rfl some
  | first => rw [joinNames, List.intercalate_singleton]
  | more spells nonempty proper ih =>
      rw [joinNames, intercalate_snoc spells.names_proper proper nonempty, ← List.append_assoc,
        ← joinNames, ← ih nonempty]

/-- A buffer without names is empty or the root. -/
theorem Spells.nothing (spells : Spells isAbsolute buf names) (none : names = [])
    : buf = [] ∨ isAbsolute = true ∧ buf = ['/'] := by
  cases spells with
  | empty => exact .inl rfl
  | root absolute => exact .inr ⟨absolute, rfl⟩
  | first => cases none
  | more => exact absurd none (by simp)

/-- A canonical form is the normal form. -/
theorem canonicalize_eq {clean : List Char} (canonical : canonicalize path = some clean)
    : clean = normalForm path := by
  have spells := canonicalize_spells canonical
  by_cases none : textNames path = []
  · obtain ⟨buf, pushed, result⟩ := Option.bind_eq_some_iff.mp canonical
    have spelled := Spells.parts (fun part member => noSlash_of_part member) .empty pushed
    rw [normalForm, none, joinNames, List.intercalate_nil, List.append_nil]
    generalize (path.head? == some '/') = isAbsolute at result spelled ⊢
    rcases spelled.nothing none with rfl | ⟨rfl, rfl⟩
    · cases isAbsolute <;> exact (Option.some.inj result).symm
    · exact (Option.some.inj result).symm
  · exact spells.joined none

/-- The parts of joined names are the names, behind an empty part for a leading slash. -/
theorem joinNames_parts (proper : ∀ name ∈ names, Proper name) (some : names ≠ [])
    : (joinNames isAbsolute names).splitOn '/' = (if isAbsolute then [[]] else []) ++ names := by
  cases isAbsolute with
  | true => exact (splitOn_slash _).trans (congrArg _ (intercalate_splitOn_names proper some))
  | false => exact intercalate_splitOn_names proper some

/-- Joined names lead to themselves. -/
theorem textNames_joinNames (proper : ∀ name ∈ names, Proper name)
    : textNames (joinNames isAbsolute names) = names := by
  by_cases some : names = []
  · subst some
    cases isAbsolute <;> rfl
  · rw [textNames, joinNames_parts proper some, List.foldl_append]
    cases isAbsolute <;> exact (foldl_names proper []).trans (List.nil_append names)

theorem followPart_proper (proper : ∀ name ∈ names, Proper name) (noSlash : '/' ∉ part)
    : ∀ name ∈ followPart names part, Proper name := by
  intro name member
  unfold followPart at member
  split at member
  · exact proper name member
  next notSelf =>
    split at member
    · exact proper name (List.mem_of_mem_dropLast member)
    next notParent =>
      rcases List.mem_append.mp member with before | last
      · exact proper name before
      · exact List.mem_singleton.mp last ▸ proper_of_part noSlash notSelf notParent

/-- What is on the stack are names, by induction on the parts. -/
theorem foldl_proper {parts : List (List Char)} (noSlash : ∀ part ∈ parts, '/' ∉ part)
    (proper : ∀ name ∈ names, Proper name)
    : ∀ name ∈ parts.foldl followPart names, Proper name := by
  induction parts generalizing names with
  | nil => exact proper
  | cons part rest ih =>
      exact ih (fun part later => noSlash part (List.mem_cons_of_mem _ later))
        (followPart_proper proper (noSlash part (List.mem_cons_self ..)))

theorem mem_followPart {name : List Char} (member : name ∈ followPart names part)
    : name ∈ names ∨ name = part := by
  unfold followPart at member
  split at member
  · exact .inl member
  · split at member
    · exact .inl (List.mem_of_mem_dropLast member)
    · exact (List.mem_append.mp member).imp_right List.mem_singleton.mp

/-- The names on the stack are parts, by induction on the parts. -/
theorem mem_foldl_followPart {parts : List (List Char)} {name : List Char}
    (member : name ∈ parts.foldl followPart names)
    : name ∈ names ∨ name ∈ parts := by
  induction parts generalizing names with
  | nil => exact .inl member
  | cons part rest ih =>
      rcases ih member with before | later
      · exact (mem_followPart before).imp_right
          fun same : name = part => same ▸ List.mem_cons_self ..
      · exact .inr (List.mem_cons_of_mem _ later)

/-- The names a path leads along are parts of it. -/
theorem textNames_mem {name : List Char} (member : name ∈ textNames path)
    : name ∈ path.splitOn '/' :=
  (mem_foldl_followPart member).resolve_left List.not_mem_nil

theorem textNames_proper (path : List Char) : ∀ name ∈ textNames path, Proper name :=
  foldl_proper (fun _ member => noSlash_of_part member) (List.forall_mem_nil _)

/-- Joined names start with a slash only if they are to. -/
theorem joinNames_head (proper : ∀ name ∈ names, Proper name)
    : ((joinNames isAbsolute names).head? == some '/') = isAbsolute := by
  cases isAbsolute with
  | true => rfl
  | false =>
      rw [beq_eq_false_iff_ne]
      intro slash
      obtain ⟨rest, text⟩ := List.head?_eq_some_iff.mp slash
      have some : names ≠ [] := by
        rintro rfl
        cases text
      have parts : (joinNames false names).splitOn '/' = [] ++ names := joinNames_parts proper some
      rw [text, splitOn_slash, List.nil_append] at parts
      exact (proper [] (parts ▸ List.mem_cons_self ..)).ne_nil rfl

/-- An empty part of joined names comes first, as it does not come from a name. -/
theorem joinNames_empty (proper : ∀ name ∈ names, Proper name) (some : names ≠ [])
    {pre post : List (List Char)}
    (split : (joinNames isAbsolute names).splitOn '/' = pre ++ [] :: post)
    : pre = [] := by
  rw [joinNames_parts proper some] at split
  have notIn : [] ∉ names := fun member => (proper _ member).ne_nil rfl
  cases isAbsolute with
  | true =>
      cases pre with
      | nil => rfl
      | cons first pre =>
          have rest : names = pre ++ [] :: post := (List.cons.inj split).2
          exact absurd (rest ▸ List.mem_append_right pre (List.mem_cons_self ..)) notIn
  | false =>
      have all : names = pre ++ [] :: post := split
      exact absurd (all ▸ List.mem_append_right pre (List.mem_cons_self ..)) notIn

theorem joinNames_normal (proper : ∀ name ∈ names, Proper name)
    : Normalised (joinNames isAbsolute names) := by
  by_cases some : names = []
  · subst some
    cases isAbsolute <;> constructor <;> decide
  · have noSlash : ∀ text : List Char, text.splitOn '/' ≠ [] := fun text =>
      List.splitOn_ne_nil '/' text
    refine ⟨fun part member => ?_, ?_, ?_⟩
    · rw [joinNames_parts proper some] at member
      rcases List.mem_append.mp member with first | name
      · have empty : part = [] := by
          cases isAbsolute with
          | true => exact List.mem_singleton.mp first
          | false => cases first
        subst empty
        exact ⟨by simp, by simp⟩
      · have isName := proper part name
        refine ⟨?_, ?_⟩
        · rintro rfl
          exact absurd isName.notSelf (by decide)
        · rintro rfl
          exact absurd isName.notParent (by decide)
    · rintro ⟨before, after, text⟩
      have first : (joinNames isAbsolute names).splitOn '/'
          = before.splitOn '/' ++ [] :: after.splitOn '/' := by
        rw [← text, List.append_assoc, List.cons_append, List.cons_append, List.nil_append,
          List.splitOn_append_cons_self, splitOn_slash]
      exact noSlash before (joinNames_empty proper some first)
    · intro trailing
      obtain ⟨before, text⟩ := List.getLast?_eq_some_iff.mp trailing
      have last : (joinNames isAbsolute names).splitOn '/' = before.splitOn '/' ++ [[]] := by
        rw [text, List.splitOn_append_cons_self]
        rfl
      exact absurd (joinNames_empty proper some last) (noSlash before)

/-- Joined names have no characters but theirs and slashes, by induction on the names. -/
theorem joinNames_ascii (ascii : ∀ name ∈ names, ∀ c ∈ name, c.toNat < 128)
    : ∀ c ∈ joinNames isAbsolute names, c.toNat < 128 := by
  have joined : ∀ c ∈ ['/'].intercalate names, c.toNat < 128 := by
    induction names with
    | nil => exact List.forall_mem_nil _
    | cons name rest ih =>
        have later := ih fun name member => ascii name (List.mem_cons_of_mem _ member)
        have first := ascii name (List.mem_cons_self ..)
        cases rest with
        | nil => rwa [List.intercalate_singleton]
        | cons next rest =>
            rw [List.intercalate_cons_cons]
            intro c member
            rcases List.mem_append.mp member with before | after
            · rcases List.mem_append.mp before with inside | slash
              · exact first c inside
              · exact List.mem_singleton.mp slash ▸ by decide
            · exact later c after
  intro c member
  rcases List.mem_append.mp member with slash | inside
  · cases isAbsolute with
    | true => exact List.mem_singleton.mp slash ▸ by decide
    | false => cases slash
  · exact joined c inside

/-- The canonical form of an ASCII path is its normal form, in which nothing is left to do. -/
theorem canonicalize_normalises (ascii : ∀ c ∈ path, c.toNat < 128)
    : canonicalize path = some (normalForm path)
      ∧ ((normalForm path).head? = some '/' ↔ path.head? = some '/')
      ∧ canonicalize (normalForm path) = some (normalForm path)
      ∧ Normalised (normalForm path) := by
  have proper := textNames_proper path
  obtain ⟨clean, canonical⟩ := canonicalize_ascii ascii
  have head : ((normalForm path).head? == some '/') = (path.head? == some '/') :=
    joinNames_head proper
  have same : normalForm (normalForm path) = normalForm path := by
    rw [normalForm, head, normalForm, textNames_joinNames proper]
  obtain ⟨again, canonical'⟩ := canonicalize_ascii (joinNames_ascii
    fun name member c inside => ascii c (mem_parts (textNames_mem member) inside).1)
  refine ⟨canonical.trans (congrArg some (canonicalize_eq canonical)), ?_, ?_,
    joinNames_normal proper⟩
  · rw [← beq_iff_eq, head, beq_iff_eq]
  · exact canonical'.trans (congrArg some ((canonicalize_eq canonical').trans same))

/-- Witness: a path with an ignored, a popped and an empty component. -/
theorem canonicalize_normalises_detour
    : canonicalize "/a/./b/..//c/".toList = some "/a/c".toList
      ∧ Normalised (normalForm "/a/./b/..//c/".toList) := by
  have ascii : ∀ c ∈ "/a/./b/..//c/".toList, c.toNat < 128 := by simp
  have normalised := canonicalize_normalises ascii
  refine ⟨normalised.1.trans (congrArg some ?_), normalised.2.2.2⟩
  decide

-----------------------------------------------------------------------------------------
-- Which paths have a canonical form
-----------------------------------------------------------------------------------------

/-- A name can be put behind the names: the last of them ends with a character of one byte. -/
def Joinable (names : List (List Char)) : Prop :=
  ∀ name, names.getLast? = some name → ∀ c, name.getLast? = some c → c.utf8Size = 1

/-- Every component of a path that is a name is put on a stack that is empty, or whose top ends
with a character of one byte.
-/
def OneByteEnds (path : List Char) : Prop :=
  ∀ pre part post, path.splitOn '/' = pre ++ part :: post →
    selfName part = false → parentName part = false → Joinable (pre.foldl followPart [])

/-- A buffer ends as its last name does. -/
theorem Spells.getLast_name (spells : Spells isAbsolute buf names) {name : List Char}
    (last : names.getLast? = some name)
    : buf.getLast? = name.getLast? := by
  cases spells with
  | empty => cases last
  | root => cases last
  | first proper =>
      cases last
      exact List.getLast?_append_of_ne_nil _ proper.ne_nil
  | more _ _ proper =>
      rw [List.getLast?_concat] at last
      cases last
      rw [List.getLast?_append_of_ne_nil _ (List.cons_ne_nil _ _)]
      exact List.getLast?_append_of_ne_nil ['/'] proper.ne_nil

/-- The last byte of a buffer is a character of its own exactly if a name can be put behind its
names.
-/
theorem Spells.joinable_iff (spells : Spells isAbsolute buf names)
    : Joinable names ↔ ∀ c, buf.getLast? = some c → c.utf8Size = 1 := by
  rcases last : names.getLast? with _ | name
  · have none := List.getLast?_eq_none_iff.mp last
    refine iff_of_true (fun name some => by rw [last] at some; cases some) fun c ends => ?_
    rcases spells.nothing none with rfl | ⟨-, rfl⟩
    · cases ends
    · cases ends
      rfl
  · rw [spells.getLast_name last]
    refine ⟨fun joinable => joinable name last, fun ends other same => ?_⟩
    cases last.symm.trans same
    exact ends

/-- A part is added unless it is a name behind a character of several bytes. -/
theorem Spells.push_iff (spells : Spells isAbsolute buf names)
    : (∃ buf', pushPart isAbsolute buf part = some buf')
      ↔ (selfName part = false → parentName part = false → Joinable names) := by
  rw [spells.joinable_iff]
  unfold pushPart
  split
  next self =>
    refine iff_of_true ⟨_, rfl⟩ fun notSelf => ?_
    rw [show selfName part = true by simpa [selfName] using self] at notSelf
    cases notSelf
  next notSelf =>
    split
    next up =>
      refine iff_of_true ⟨_, rfl⟩ fun _ notParent => ?_
      rw [show parentName part = true by simpa [parentName] using up] at notParent
      cases notParent
    next notParent =>
      have name : selfName part = false ∧ parentName part = false :=
        ⟨by simpa [selfName] using notSelf, by simpa [parentName] using notParent⟩
      rw [forall_prop_of_true name.1, forall_prop_of_true name.2]
      split
      next none => exact iff_of_true ⟨_, rfl⟩ fun c ends => by rw [none] at ends; cases ends
      next last found =>
        rw [found]
        split
        next wide =>
          refine iff_of_false ?_ fun ends => wide (ends last rfl)
          rintro ⟨_, pushed⟩
          cases pushed
        next narrow =>
          exact iff_of_true ⟨_, rfl⟩ fun c same => Option.some.inj same ▸ not_not.mp narrow

/-- All parts are added if each name is put on a joinable stack, by induction on the parts. -/
theorem Spells.parts_iff {parts : List (List Char)} (noSlash : ∀ part ∈ parts, '/' ∉ part)
    (spells : Spells isAbsolute buf names)
    : (∃ buf', parts.foldlM (pushPart isAbsolute) buf = some buf')
      ↔ ∀ pre part post, parts = pre ++ part :: post →
        selfName part = false → parentName part = false
        → Joinable (pre.foldl followPart names) := by
  induction parts generalizing buf names with
  | nil => exact iff_of_true ⟨buf, rfl⟩ fun pre part post split => by simp at split
  | cons part rest ih =>
      have here : (∃ buf', pushPart isAbsolute buf part = some buf')
          ↔ (selfName part = false → parentName part = false → Joinable names) := spells.push_iff
      rw [List.foldlM_cons]
      rcases pushed : pushPart isAbsolute buf part with _ | next
      · rw [pushed] at here
        refine iff_of_false (by simp) fun each => ?_
        have added := here.mpr (each [] part rest rfl)
        simp at added
      · have later := ih (fun part later => noSlash part (List.mem_cons_of_mem _ later))
          (spells.push (noSlash part (List.mem_cons_self ..)) pushed)
        refine Iff.trans later
          ⟨fun each pre other post split => ?_, fun each pre other post split => ?_⟩
        · cases pre with
          | nil =>
              cases split
              exact here.mp ⟨next, pushed⟩
          | cons first pre =>
              obtain ⟨rfl, rest⟩ := List.cons.inj split
              exact each pre other post rest
        · exact each (part :: pre) other post (congrArg _ split)

theorem canonicalize_returns_iff (path : List Char)
    : (∃ clean, canonicalize path = some clean) ↔ OneByteEnds path := by
  have noSlash : ∀ part ∈ path.splitOn '/', '/' ∉ part := fun _ member => noSlash_of_part member
  have start : Spells (path.head? == some '/') [] [] := .empty
  rw [OneByteEnds, ← start.parts_iff noSlash]
  constructor
  · rintro ⟨clean, canonical⟩
    obtain ⟨buf, pushed, -⟩ := Option.bind_eq_some_iff.mp canonical
    exact ⟨buf, pushed⟩
  · rintro ⟨buf, pushed⟩
    unfold canonicalize
    dsimp only
    rw [pushed]
    dsimp only [Option.bind_eq_bind, Option.bind_some]
    split
    · exact ⟨_, rfl⟩
    · exact ⟨_, rfl⟩

/-- A path has been handled: the result is its normal form, and the names in it are components
of the path.
-/
def Handled (path : List Char) (result : Option (List Char)) : Prop :=
  result = some (normalForm path) ∧ ∀ name ∈ textNames path, name ∈ path.splitOn '/'

theorem canonicalize_handles_iff (path : List Char)
    : Handled path (canonicalize path) ↔ OneByteEnds path := by
  rw [← canonicalize_returns_iff]
  constructor
  · rintro ⟨handled, -⟩
    exact ⟨_, handled⟩
  · rintro ⟨clean, canonical⟩
    exact ⟨canonical.trans (congrArg some (canonicalize_eq canonical)),
      fun _ member => textNames_mem member⟩

/-- The text that `absolute_path` makes canonical. -/
def absoluteText (currentDir path : List Char) : List Char :=
  if path.head? = some '/' then path else currentDir ++ path

theorem absolutePath_eq (currentDir path : List Char)
    : absolutePath currentDir path = canonicalize (absoluteText currentDir path) := by
  unfold absolutePath absoluteText
  split <;> rfl

/-- Paths are handled without a panic exactly if no component follows one that ends with a
character of several bytes.
-/
theorem paths_handled_iff (currentDir path : List Char) (map : BTreeMap (List Char) (List Char))
    : (Handled path (canonicalize path) ↔ OneByteEnds path)
      ∧ (Handled (absoluteText currentDir path) (absolutePath currentDir path)
        ↔ OneByteEnds (absoluteText currentDir path))
      ∧ ((∃ p, FilePath.new currentDir map path = some p)
        ↔ OneByteEnds (absoluteText currentDir path)) := by
  refine ⟨canonicalize_handles_iff path, ?_, ?_⟩
  · rw [absolutePath_eq]
    exact canonicalize_handles_iff _
  · rw [← canonicalize_returns_iff, ← absolutePath_eq, FilePath.new, FilePath.cleanText]
    rcases absolutePath currentDir path with _ | clean
    · simp
    · refine iff_of_true ?_ ⟨clean, rfl⟩
      dsimp only [Option.bind_eq_bind, Option.bind_some]
      split
      · exact ⟨_, rfl⟩
      · exact ⟨_, rfl⟩

/-- A component behind one that ends with an accented letter. -/
theorem accented_panics : canonicalize "/é/b".toList = none := by
  decide

end RCoreOS.Axfs
