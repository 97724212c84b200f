import RCoreOS.Axfs.NormalForm
import Mathlib.Data.List.DropRight

/-! The paths of system calls: relative ones are put behind the path of the current directory or
of an open directory, and a path that is known to be one of a directory gets a slash at its end.
-/

namespace RCoreOS.Axtask

open Axfs (absoluteText normalForm textNames)

-----------------------------------------------------------------------------------------
-- Open directories
-----------------------------------------------------------------------------------------

/-- `AT_FDCWD`, which is -100 as a `usize`. -/
def AT_FDCWD : UInt64 :=
  0xffffffffffffff9c

def FD_LIMIT_ORIGIN : Nat :=
  1025

/-- The path of a directory that can be a base of others: an absolute one with a slash at its end.
-/
structure DirPath where
  text : List Char
  absolute : text.head? = some '/'
  closed : text.getLast? = some '/'

/-- An open file, with its `get_path`; its `get_type` is `DirDesc` for a directory. -/
inductive FileEntry where
  | dirDesc (dirPath : DirPath)
  | other (path : List Char)

def FileEntry.getPath : FileEntry → List Char
  | dirDesc dirPath => dirPath.text
  | other path => path

/-- What the paths of a task depend on. The targets of links are file paths, which are absolute.
-/
structure PathTask where
  currentDir : DirPath
  linkPathMap : BTreeMap (List Char) (List Char)
  linksAbsolute : ∀ src dest, linkPathMap.get src = some dest → dest.head? = some '/'
  fdTable : List (Option FileEntry)
  limited : fdTable.length ≤ FD_LIMIT_ORIGIN

/-- The address of a path: it is null, not mapped, or that of a text. -/
inductive PathAddr where
  | null
  | invalid
  | text (path : List Char)
deriving DecidableEq, Repr

def FilePath.isDir (p : FilePath) : Bool :=
  p.path.getLast? == some '/'

-----------------------------------------------------------------------------------------
-- deal_with_path
-----------------------------------------------------------------------------------------

/-- The path at the address, which is empty without one. -/
def pathText : Option PathAddr → Option (List Char)
  | none => some []
  | some .null | some .invalid => none
  | some (.text path) => some path

/-- The slashes that tell `FilePath::new` that the path is one of a directory. -/
def markDir (forceDir : Bool) (path : List Char) : List Char :=
  let path := if forceDir ∧ path.getLast? ≠ some '/' then path ++ ['/'] else path
  if path.getLast? = some '.' then path ++ ['/'] else path

namespace PathTask

def fileAt (task : PathTask) (dirFd : UInt64) : Option FileEntry :=
  task.fdTable[dirFd.toNat]?.join

/-- The path with the one of the descriptor. -/
def basedPath (task : PathTask) (dirFd : UInt64) (path : List Char) : Option (List Char) :=
  if path = [] then
    if dirFd = AT_FDCWD ∧ dirFd.toUInt32 = AT_FDCWD.toUInt32 then some ['.']
    else (task.fileAt dirFd).map FileEntry.getPath
  else if path.head? ≠ some '/' ∧ dirFd ≠ AT_FDCWD ∧ dirFd.toUInt32 ≠ AT_FDCWD.toUInt32 then
    match task.fileAt dirFd with
    | some (.dirDesc dirPath) => some (dirPath.text ++ path)
    | _ => none
  else some path

/-- `deal_with_path`. The outer `none` is a panic of `FilePath::new`. -/
def dealWithPath (task : PathTask) (dirFd : UInt64) (pathAddr : Option PathAddr) (forceDir : Bool)
    : Option (Option FilePath) :=
  match (pathText pathAddr).bind (task.basedPath dirFd) with
  | none => some none
  | some path =>
      (FilePath.new task.currentDir.text task.linkPathMap (markDir forceDir path)).map some

end PathTask

-----------------------------------------------------------------------------------------
-- openat
-----------------------------------------------------------------------------------------

/-- Nothing is trimmed in front of a slash. -/
theorem trim_eq {text : List Char} (absolute : text.head? = some '/')
    : trim text = text.rdropWhile isWhitespace := by
  obtain ⟨rest, rfl⟩ := List.head?_eq_some_iff.mp absolute
  have front : ('/' :: rest).dropWhile isWhitespace = '/' :: rest :=
    List.dropWhile_cons_of_neg (by decide)
  rw [trim, front, List.rdropWhile]

theorem trim_of_noBlank {text : List Char} (absolute : text.head? = some '/')
    (noBlank : ∀ c, text.getLast? = some c → isWhitespace c = false)
    : trim text = text := by
  rw [trim_eq absolute, List.rdropWhile_eq_self_iff]
  intro nonempty blank
  have kept := noBlank _ (List.getLast?_eq_some_getLast nonempty)
  rw [kept] at blank
  cases blank

theorem trim_shorter {text : List Char} {c : Char} (absolute : text.head? = some '/')
    (last : text.getLast? = some c) (blank : isWhitespace c = true)
    : (trim text).length < text.length := by
  obtain ⟨front, rfl⟩ := List.getLast?_eq_some_iff.mp last
  rw [trim_eq absolute, List.rdropWhile_concat_pos _ _ _ blank, List.length_append]
  exact Nat.lt_succ_of_le (List.rdropWhile_prefix isWhitespace front).length_le

theorem trim_absolute {text : List Char} (absolute : text.head? = some '/')
    : (trim text).head? = some '/' := by
  obtain ⟨rest, rfl⟩ := List.head?_eq_some_iff.mp absolute
  obtain ⟨dropped, whole⟩ := List.rdropWhile_prefix isWhitespace ('/' :: rest)
  rw [trim_eq absolute]
  cases kept : ('/' :: rest).rdropWhile isWhitespace with
  | nil =>
      have blank := List.rdropWhile_eq_nil_iff.mp kept '/' (List.mem_cons_self ..)
      exact absurd blank (by decide)
  | cons c kept' =>
      rw [kept, List.cons_append] at whole
      rw [List.head?_cons, (List.cons.inj whole).1]

/-- The text of a path, with the trimmed canonical form that it is made of. -/
theorem cleanText_eq {currentDir path newPath : List Char}
    (made : FilePath.cleanText currentDir path = some newPath)
    : ∃ clean, absolutePath currentDir path = some clean
        ∧ newPath = if path.getLast? = some '/' ∧ (trim clean).getLast? ≠ some '/'
            then trim clean ++ ['/'] else trim clean := by
  obtain ⟨clean, canonical, result⟩ := Option.bind_eq_some_iff.mp made
  refine ⟨clean, canonical, ?_⟩
  dsimp only at result
  split at result
  next slash =>
    rw [if_pos slash]
    exact (Option.some.inj result).symm
  next noSlash =>
    rw [if_neg noSlash]
    exact (Option.some.inj result).symm

namespace PathTask

variable {task : PathTask} {dirFd : UInt64} {path base : List Char} {forceDir : Bool}
  {f : FilePath}

/-- A file path is absolute. -/
theorem new_absolute
    (made : FilePath.new task.currentDir.text task.linkPathMap path = some f)
    : f.path.head? = some '/' := by
  obtain ⟨newPath, text, rfl⟩ := Option.map_eq_some_iff.mp made
  obtain ⟨clean, canonical, newPath_eq⟩ := cleanText_eq text
  have head := trim_absolute (Axfs.Vfs.absolutePath_head task.currentDir.absolute canonical)
  have absolute : newPath.head? = some '/' := by
    rw [newPath_eq]
    split
    · obtain ⟨rest, trimmed⟩ := List.head?_eq_some_iff.mp head
      rw [trimmed]
      rfl
    · exact head
  dsimp only
  cases linked : task.linkPathMap.get newPath with
  | some dest =>
      rw [realPath_linked linked]
      exact task.linksAbsolute newPath dest linked
  | none =>
      by_cases plain : Plain newPath
      · rwa [realPath_plain linked plain]
      · obtain ⟨rest, moved⟩ := realPath_moved plain
        rw [moved _ linked]
        rfl

theorem dealWithPath_eq {pathAddr : Option PathAddr}
    (returned : task.dealWithPath dirFd pathAddr forceDir = some (some f))
    : ∃ path, (pathText pathAddr).bind (task.basedPath dirFd) = some path
        ∧ FilePath.new task.currentDir.text task.linkPathMap (markDir forceDir path) = some f := by
  unfold dealWithPath at returned
  split at returned
  · cases returned
  next path based =>
    obtain ⟨f', made, same⟩ := Option.map_eq_some_iff.mp returned
    cases same
    exact ⟨path, based, made⟩

theorem dealWithPath_absolute {pathAddr : Option PathAddr}
    (returned : task.dealWithPath dirFd pathAddr forceDir = some (some f))
    : f.path.head? = some '/' := by
  obtain ⟨path, -, made⟩ := dealWithPath_eq returned
  exact new_absolute made

/-- `alloc_fd`. -/
def allocFd (task : PathTask) : Option (Nat × PathTask) :=
  match task.fdTable.findIdx? Option.isNone with
  | some fd => some (fd, task)
  | none =>
      if room : task.fdTable.length < FD_LIMIT_ORIGIN then
        some (task.fdTable.length,
          { task with
            fdTable := task.fdTable ++ [none]
            limited := by
              rw [List.length_append, List.length_singleton]
              exact room })
      else none

def setFile (task : PathTask) (fd : Nat) (file : FileEntry) : PathTask :=
  { task with
    fdTable := task.fdTable.set fd (some file)
    limited := by
      rw [List.length_set]
      exact task.limited }

inductive SyscallError where
  | EINVAL
  | EMFILE
  | ENOENT
deriving DecidableEq, Repr

/-- `syscall_openat`, given the paths at which `new_dir` and `new_fd` find or make a file. The link
that it makes for a new file is left out.
-/
def openat (task : PathTask) (opens : FilePath → Bool) (dirFd : UInt64) (path : PathAddr)
    (forceDir : Bool)
    : Option (Except SyscallError Nat × PathTask) :=
  match found : task.dealWithPath dirFd (some path) forceDir with
  | none => none
  | some none => some (.error .EINVAL, task)
  | some (some f) =>
      match task.allocFd with
      | none => some (.error .EMFILE, task)
      | some (fd, task') =>
          if opens f then
            if dir : f.isDir then
              let dirPath := ⟨f.path, dealWithPath_absolute found, beq_iff_eq.mp dir⟩
              some (.ok fd, task'.setFile fd (.dirDesc dirPath))
            else some (.ok fd, task'.setFile fd (.other f.path))
          else some (.error .ENOENT, task')

-----------------------------------------------------------------------------------------
-- Where paths lead
-----------------------------------------------------------------------------------------

/-- The directory that relative paths are based on. -/
inductive BaseDir (task : PathTask) : UInt64 → List Char → Prop
  | current : BaseDir task AT_FDCWD task.currentDir.text
  | descriptor {dirFd dirPath}
    : task.fileAt dirFd = some (.dirDesc dirPath) → BaseDir task dirFd dirPath.text

/-- The path that is meant by a path. -/
def target (base path : List Char) : List Char :=
  if path.head? = some '/' then path else base ++ '/' :: path

/-- The last component is `.` or `..`. -/
def EndsInDots (path : List Char) : Prop :=
  (path.splitOn '/').getLast? = some ['.'] ∨ (path.splitOn '/').getLast? = some ['.', '.']

/-- The path is the canonical form of what is meant, up to a slash at the end, and has this slash
exactly if a directory is asked for.
-/
structure Resolved (base path : List Char) (forceDir : Bool) (f : FilePath) : Prop where
  place : f.path = normalForm (target base path)
    ∨ f.path = normalForm (target base path) ++ ['/']
  dir : f.isDir = true
    ↔ forceDir = true ∨ path.getLast? = some '/' ∨ EndsInDots path
      ∨ normalForm (target base path) = ['/']

/-- The canonical form of what is meant does not end with a blank, and the path does not end with
the dot of a name unless a directory is asked for.
-/
structure Resolvable (base path : List Char) (forceDir : Bool) : Prop where
  noBlank : ∀ c, (normalForm (target base path)).getLast? = some c → isWhitespace c = false
  noDot : path.getLast? = some '.' → forceDir = true ∨ EndsInDots path

theorem BaseDir.dirPath (dir : task.BaseDir dirFd base)
    : base.head? = some '/' ∧ base.getLast? = some '/' := by
  cases dir with
  | current => exact ⟨task.currentDir.absolute, task.currentDir.closed⟩
  | @descriptor dirFd dirPath => exact ⟨dirPath.absolute, dirPath.closed⟩

/-- A descriptor is not taken for `AT_FDCWD`. -/
theorem ne_AT_FDCWD {file : FileEntry} (found : task.fileAt dirFd = some file)
    : dirFd ≠ AT_FDCWD ∧ dirFd.toUInt32 ≠ AT_FDCWD.toUInt32 := by
  have small : dirFd.toNat < FD_LIMIT_ORIGIN := by
    obtain ⟨inside, -⟩ := List.getElem?_eq_some_iff.mp (Option.join_eq_some_iff.mp found)
    exact Nat.lt_of_lt_of_le inside task.limited
  have low : dirFd.toUInt32.toNat < FD_LIMIT_ORIGIN :=
    Nat.lt_of_le_of_lt (Nat.mod_le _ _) small
  constructor
  · rintro rfl
    exact absurd small (by decide)
  · intro same
    rw [same] at low
    exact absurd low (by decide)

theorem allocFd_inside {fd : Nat} {task' : PathTask} (allocated : task.allocFd = some (fd, task'))
    : fd < task'.fdTable.length := by
  unfold allocFd at allocated
  split at allocated
  next free =>
    cases allocated
    exact (List.findIdx?_eq_some_iff_getElem.mp free).1
  · split at allocated
    · cases allocated
      simp
    · cases allocated

/-- A directory that was opened is a base for the paths of later calls. -/
theorem openat_baseDir {opens : FilePath → Bool} {pathAddr : PathAddr} {fd : Nat}
    {task' : PathTask}
    (opened : task.openat opens dirFd pathAddr forceDir = some (.ok fd, task'))
    : ∃ f, task.dealWithPath dirFd (some pathAddr) forceDir = some (some f)
        ∧ (f.isDir = true → task'.BaseDir (.ofNat fd) f.path) := by
  unfold openat at opened
  split at opened
  · cases opened
  · cases opened
  next f found =>
    refine ⟨f, found, fun dir => ?_⟩
    split at opened
    · cases opened
    next _ task₁ allocated =>
      split at opened
      · cases opened
        have inside := allocFd_inside allocated
        have index : (UInt64.ofNat fd).toNat = fd := by
          have small := Nat.lt_of_lt_of_le inside task₁.limited
          exact UInt64.toNat_ofNat_of_lt' (Nat.lt_trans small (by decide))
        have closed : f.path.getLast? = some '/' := beq_iff_eq.mp dir
        let dirPath : DirPath := ⟨f.path, dealWithPath_absolute found, closed⟩
        have file : (task₁.setFile fd (.dirDesc dirPath)).fileAt (.ofNat fd)
            = some (.dirDesc dirPath) := by
          rw [fileAt, index, setFile, List.getElem?_set_self inside]
          rfl
        exact .descriptor file
      · cases opened

/-- What a path is made canonical as, before slashes are added at its end. -/
def joined (base path : List Char) : List Char :=
  if path.head? = some '/' then path else base ++ path

theorem absoluteText_of_absolute {currentDir path : List Char} (absolute : path.head? = some '/')
    (suffix : List Char)
    : absoluteText currentDir (path ++ suffix) = path ++ suffix := by
  obtain ⟨rest, rfl⟩ := List.head?_eq_some_iff.mp absolute
  rfl

theorem basedPath_eq (dir : task.BaseDir dirFd base) (nonempty : path ≠ [])
    : ∃ start, task.basedPath dirFd path = some start ∧ start.getLast? = path.getLast?
        ∧ ∀ suffix, absoluteText task.currentDir.text (start ++ suffix)
            = joined base path ++ suffix := by
  unfold basedPath joined
  rw [if_neg nonempty]
  by_cases absolute : path.head? = some '/'
  · rw [if_neg (by simp [absolute]), if_pos absolute]
    exact ⟨path, rfl, rfl, absoluteText_of_absolute absolute⟩
  · rw [if_neg absolute]
    cases dir with
    | current =>
        rw [if_neg (by simp)]
        refine ⟨path, rfl, rfl, fun suffix => ?_⟩
        have relative : (path ++ suffix).head? ≠ some '/' := by
          rwa [List.head?_append_of_ne_nil _ nonempty]
        rw [absoluteText, if_neg relative, List.append_assoc]
    | @descriptor dirFd dirPath found =>
        rw [if_pos ⟨absolute, ne_AT_FDCWD found⟩, found]
        refine ⟨dirPath.text ++ path, rfl, List.getLast?_append_of_ne_nil _ nonempty, ?_⟩
        have head : (dirPath.text ++ path).head? = some '/' := by
          rw [List.head?_append, dirPath.absolute]
          rfl
        exact absoluteText_of_absolute head

theorem markDir_eq (forceDir : Bool) (start : List Char)
    : ∃ suffix, markDir forceDir start = start ++ suffix ∧ (suffix = [] ∨ suffix = ['/'])
        ∧ ((start ++ suffix).getLast? = some '/'
          ↔ forceDir = true ∨ start.getLast? = some '/' ∨ start.getLast? = some '.') := by
  have closed : (start ++ ['/']).getLast? = some '/' := List.getLast?_concat ..
  unfold markDir
  by_cases force : forceDir = true ∧ start.getLast? ≠ some '/'
  · refine ⟨['/'], ?_, .inr rfl, iff_of_true closed (.inl force.1)⟩
    dsimp only
    rw [if_pos force, closed, if_neg (by simp)]
  · dsimp only
    rw [if_neg force]
    by_cases dot : start.getLast? = some '.'
    · rw [if_pos dot]
      exact ⟨['/'], rfl, .inr rfl, iff_of_true closed (.inr (.inr dot))⟩
    · rw [if_neg dot]
      refine ⟨[], (List.append_nil start).symm, .inl rfl, ?_⟩
      rw [List.append_nil]
      constructor
      · exact fun slash => .inr (.inl slash)
      · rintro (forced | slash | found)
        · by_contra unclosed
          exact force ⟨forced, unclosed⟩
        · exact slash
        · exact absurd found dot

theorem target_head (head : base.head? = some '/') : (target base path).head? = some '/' := by
  unfold target
  split
  · assumption
  · rw [List.head?_append, head]
    rfl

theorem normalForm_target (head : base.head? = some '/')
    : (normalForm (target base path)).head? = some '/' := by
  rw [normalForm, target_head head]
  rfl

/-- A slash between the base and the path, or at the end, leads nowhere else. -/
theorem normalForm_joined (head : base.head? = some '/') (closed : base.getLast? = some '/')
    {suffix : List Char} (slash : suffix = [] ∨ suffix = ['/'])
    : normalForm (joined base path ++ suffix) = normalForm (target base path) := by
  have absolute : (joined base path).head? = some '/' := by
    unfold joined
    split
    · assumption
    · rw [List.head?_append, head]
      rfl
  have names : textNames (joined base path) = textNames (target base path) := by
    unfold joined target
    split
    · rfl
    · obtain ⟨rest, rfl⟩ := List.getLast?_eq_some_iff.mp closed
      rw [List.append_assoc, List.singleton_append, Axfs.textNames_append,
        Axfs.textNames_append, Axfs.textNames_trailing]
  have more : (joined base path ++ suffix).head? = some '/' := by
    rw [List.head?_append, absolute]
    rfl
  have same : textNames (joined base path ++ suffix) = textNames (joined base path) := by
    rcases slash with rfl | rfl
    · rw [List.append_nil]
    · exact Axfs.textNames_trailing _
  rw [normalForm, normalForm, more, target_head head, same, names]

/-- The last component of a path is what comes behind its last slash. -/
theorem splitOn_last (path : List Char)
    : ∃ front last parts, path = front ++ last ∧ path.splitOn '/' = parts ++ [last] ∧ '/' ∉ last
        ∧ (front = [] ∨ front.getLast? = some '/') := by
  by_cases slash : '/' ∈ path.reverse
  · obtain ⟨last, front, text, notIn⟩ := List.eq_append_cons_of_mem slash
    have whole : path = front.reverse ++ '/' :: last.reverse := by
      rw [← List.reverse_reverse path, text]
      simp
    have noSlash : '/' ∉ last.reverse := fun member => notIn (List.mem_reverse.mp member)
    refine ⟨front.reverse ++ ['/'], last.reverse, front.reverse.splitOn '/', ?_, ?_, noSlash, ?_⟩
    · rw [whole, List.append_assoc]
      rfl
    · rw [whole, List.splitOn_append_cons_self, List.splitOn_eq_singleton noSlash]
    · exact .inr (List.getLast?_concat ..)
  · have noSlash : '/' ∉ path := fun member => slash (List.mem_reverse.mpr member)
    exact ⟨[], path, [], rfl, List.splitOn_eq_singleton noSlash, noSlash, .inl rfl⟩

/-- A path that ends with a component `.` or `..` ends with a dot. -/
theorem EndsInDots.getLast (dots : EndsInDots path) : path.getLast? = some '.' := by
  obtain ⟨front, last, parts, whole, split, -⟩ := splitOn_last path
  rw [EndsInDots, split, List.getLast?_concat] at dots
  rw [whole]
  rcases dots with same | same
  · cases same
    exact List.getLast?_concat ..
  · cases same
    exact List.getLast?_append_of_ne_nil _ (List.cons_ne_nil _ _)

/-- A path that ends with the dot of a name does not lead to the root. -/
theorem normalForm_ne_root (dot : path.getLast? = some '.') (name : ¬ EndsInDots path)
    : normalForm (target base path) ≠ ['/'] := by
  obtain ⟨front, last, parts, whole, split, -, front_eq⟩ := splitOn_last path
  have ends : last ≠ [] := by
    rintro rfl
    rw [whole, List.append_nil] at dot
    rcases front_eq with rfl | slash
    · cases dot
    · rw [slash] at dot
      cases dot
  rw [EndsInDots, split, List.getLast?_concat] at name
  have followed (names : List (List Char)) : Axfs.followPart names last = names ++ [last] := by
    unfold Axfs.followPart
    have notSelf : Axfs.selfName last = false := by
      simpa [Axfs.selfName, ends] using fun same => name (.inl (congrArg some same))
    have notParent : Axfs.parentName last = false := by
      simpa [Axfs.parentName] using fun same => name (.inr (congrArg some same))
    simp [notSelf, notParent]
  have some : textNames (target base path) ≠ [] := by
    unfold target
    split
    · rw [textNames, split, List.foldl_append, List.foldl_cons, List.foldl_nil, followed]
      exact List.concat_ne_nil _ _
    · rw [Axfs.textNames_append, split, List.foldl_append, List.foldl_cons, List.foldl_nil,
        followed]
      exact List.concat_ne_nil _ _
  intro root
  rw [normalForm] at root
  have names := congrArg textNames root
  rw [Axfs.textNames_joinNames (Axfs.textNames_proper _)] at names
  exact some names

theorem plain_of_prefix {text part : List Char} (plain : Plain text) (pre : part <+: text)
    : Plain part :=
  ⟨fun moved => plain.1 (moved.trans pre), fun moved => plain.2 (moved.trans pre)⟩

/-- The compiler directories do not end with a slash. -/
theorem plain_slash {text : List Char} (plain : Plain text) : Plain (text ++ ['/']) := by
  have differ {dir : List Char} (notPrefix : ¬ dir <+: text) (ends : dir.getLast? ≠ some '/')
      : ¬ dir <+: text ++ ['/'] := by
    intro pre
    rcases List.prefix_concat_iff.mp pre with rfl | inside
    · exact ends (List.getLast?_concat ..)
    · exact notPrefix inside
  exact ⟨differ plain.1 (by decide), differ plain.2 (by decide)⟩

/-- A slash comes to the end of the path. -/
def AsksDir (path : List Char) (forceDir : Bool) : Prop :=
  forceDir = true ∨ path.getLast? = some '/' ∨ path.getLast? = some '.'

variable {clean : List Char}

/-- The returned path is the trimmed canonical form, closed by a slash if a directory is asked for.
-/
theorem dealWithPath_path (dir : task.BaseDir dirFd base) (nonempty : path ≠ [])
    (unlinked : task.linkPathMap = .empty) (form : normalForm (target base path) = clean)
    (plain : Plain clean)
    (returned : task.dealWithPath dirFd (some (.text path)) forceDir = some (some f))
    : (f.path = trim clean ∧ (AsksDir path forceDir → (trim clean).getLast? = some '/'))
      ∨ (f.path = trim clean ++ ['/'] ∧ AsksDir path forceDir) := by
  obtain ⟨head, closed⟩ := dir.dirPath
  obtain ⟨start, based, same, absolute⟩ := basedPath_eq dir nonempty
  obtain ⟨path', based', made⟩ := dealWithPath_eq returned
  cases based.symm.trans based'
  obtain ⟨suffix, marked, slash, ends⟩ := markDir_eq forceDir start
  rw [same] at ends
  obtain ⟨newPath, text, rfl⟩ := Option.map_eq_some_iff.mp made
  obtain ⟨clean', canonical, newPath_eq⟩ := cleanText_eq text
  rw [Axfs.absolutePath_eq, marked, absolute] at canonical
  have normal := Axfs.canonicalize_eq canonical
  rw [normalForm_joined head closed slash, form] at normal
  rw [normal, marked] at newPath_eq
  have trimmed : Plain (trim clean) := by
    refine plain_of_prefix plain ?_
    rw [trim_eq (form ▸ normalForm_target head)]
    exact List.rdropWhile_prefix ..
  have plainPath : Plain newPath := by
    rw [newPath_eq]
    split
    · exact plain_slash trimmed
    · exact trimmed
  dsimp only
  rw [realPath_plain (by rw [unlinked]; rfl) plainPath, newPath_eq]
  split
  next slash => exact .inr ⟨rfl, ends.mp slash.1⟩
  next kept =>
    refine .inl ⟨rfl, fun asks => ?_⟩
    by_contra unclosed
    exact kept ⟨ends.mpr asks, unclosed⟩

theorem isDir_iff
    (closed : (f.path = trim clean ∧ (AsksDir path forceDir → (trim clean).getLast? = some '/'))
      ∨ (f.path = trim clean ++ ['/'] ∧ AsksDir path forceDir))
    : f.isDir = true ↔ AsksDir path forceDir ∨ (trim clean).getLast? = some '/' := by
  rw [FilePath.isDir, beq_iff_eq]
  rcases closed with ⟨same, asked⟩ | ⟨same, asks⟩
  · rw [same, or_iff_right_of_imp asked]
  · rw [same]
    exact iff_of_true (List.getLast?_concat ..) (.inl asks)

/-- A canonical form that ends with a blank is not what is returned. -/
theorem noBlank_of_place (absolute : clean.head? = some '/')
    (closed : f.path = trim clean ∨ f.path = trim clean ++ ['/'])
    (place : f.path = clean ∨ f.path = clean ++ ['/'])
    : ∀ c, clean.getLast? = some c → isWhitespace c = false := by
  intro c last
  by_contra blank
  have shorter := trim_shorter absolute last (by simpa using blank)
  have slash : c ≠ '/' := by
    rintro rfl
    exact blank (by decide)
  rcases closed with trimmed | trimmed <;> rcases place with same | same <;> rw [trimmed] at same
  · rw [same] at shorter
    exact Nat.lt_irrefl _ shorter
  · rw [same, List.length_append] at shorter
    omega
  · rw [← same, List.getLast?_concat] at last
    exact slash (Option.some.inj last).symm
  · rw [List.append_cancel_right same] at shorter
    exact Nat.lt_irrefl _ shorter

theorem normalForm_closed (closed : (normalForm path).getLast? = some '/')
    : normalForm path = ['/'] :=
  (Axfs.joinNames_normal (Axfs.textNames_proper path)).noTrailing closed

/-- A slash comes to the end of the path exactly if it should, if the path does not end with the
dot of a name.
-/
theorem asksDir_iff (noDot : path.getLast? = some '.' → forceDir = true ∨ EndsInDots path)
    : AsksDir path forceDir
      ↔ forceDir = true ∨ path.getLast? = some '/' ∨ EndsInDots path := by
  constructor
  · rintro (forced | slash | dot)
    · exact .inl forced
    · exact .inr (.inl slash)
    · exact (noDot dot).imp_right .inr
  · rintro (forced | slash | dots)
    · exact .inl forced
    · exact .inr (.inl slash)
    · exact .inr (.inr dots.getLast)

/-- A path is resolved as it should be exactly if the canonical form does not end with a blank and
no name at the end of the path has a dot at its end, unless a directory is asked for.
-/
theorem dealWithPath_resolved_iff (dir : task.BaseDir dirFd base) (nonempty : path ≠ [])
    (unlinked : task.linkPathMap = .empty) (plain : Plain (normalForm (target base path)))
    (returned : task.dealWithPath dirFd (some (.text path)) forceDir = some (some f))
    : Resolved base path forceDir f ↔ Resolvable base path forceDir := by
  have found := dealWithPath_path dir nonempty unlinked rfl plain returned
  have isDir := isDir_iff found
  have absolute : (normalForm (target base path)).head? = some '/' :=
    normalForm_target dir.dirPath.1
  constructor
  · rintro ⟨place, directory⟩
    refine ⟨noBlank_of_place absolute (found.imp And.left And.left) place, fun dot => ?_⟩
    by_cases dots : EndsInDots path
    · exact .inr dots
    · rcases directory.mp (isDir.mpr (.inl (.inr (.inr dot)))) with forced | slash | found | root
      · exact .inl forced
      · cases dot.symm.trans slash
      · exact absurd found dots
      · exact absurd root (normalForm_ne_root dot dots)
  · rintro ⟨noBlank, noDot⟩
    rw [trim_of_noBlank absolute noBlank] at found isDir
    have root : (normalForm (target base path)).getLast? = some '/'
        ↔ normalForm (target base path) = ['/'] :=
      ⟨normalForm_closed, fun root => root ▸ rfl⟩
    refine ⟨found.imp And.left And.left, ?_⟩
    rw [isDir, asksDir_iff noDot, root, or_assoc, or_assoc]

/-- A task in the root directory that has opened `/tmp`. -/
def tmpTask : PathTask where
  currentDir := ⟨['/'], rfl, rfl⟩
  linkPathMap := .empty
  linksAbsolute _ _ linked := by cases linked
  fdTable := [some (.dirDesc ⟨"/tmp/".toList, by decide, by decide⟩)]
  limited := by decide

/-- A path up from the open directory. -/
theorem dealWithPath_resolved_sibling
    : tmpTask.dealWithPath 0 (some (.text "../a".toList)) false = some (some ⟨"/a".toList⟩)
      ∧ Resolved "/tmp/".toList "../a".toList false ⟨"/a".toList⟩ := by
  have returned : tmpTask.dealWithPath 0 (some (.text "../a".toList)) false
      = some (some ⟨"/a".toList⟩) := by decide
  refine ⟨returned, (dealWithPath_resolved_iff (.descriptor rfl) (by decide) rfl (by decide)
    returned).mpr ⟨fun c last => ?_, fun dot => absurd dot (by decide)⟩⟩
  have form : (normalForm (target "/tmp/".toList "../a".toList)).getLast? = some 'a' := by decide
  cases form.symm.trans last
  decide

/-- A name that ends in a dot is taken for a directory. -/
theorem dotted_name_directory
    : ¬ ∀ (task : PathTask) dirFd base path forceDir f, task.BaseDir dirFd base → path ≠ [] →
        (∀ c ∈ path, c.toNat < 128 ∧ isWhitespace c = false) → task.linkPathMap = .empty →
        Plain (normalForm (target base path)) →
        task.dealWithPath dirFd (some (.text path)) forceDir = some (some f) →
        Resolved base path forceDir f := by
  intro resolves
  have letters : ∀ c ∈ ['a', '.'], c.toNat < 128 ∧ isWhitespace c = false := by
    intro c member
    rcases List.mem_cons.mp member with rfl | last
    · decide
    · rw [List.mem_singleton.mp last]
      decide
  have resolved := resolves tmpTask AT_FDCWD ['/'] ['a', '.'] false ⟨"/a./".toList⟩ .current
    (by decide) letters rfl (by decide) (by decide)
  rcases resolved.dir.mp rfl with forced | slash | dots | root
  · cases forced
  · exact absurd slash (by decide)
  · exact absurd dots (by rw [EndsInDots]; decide)
  · exact absurd root (by decide)

end PathTask

end RCoreOS.Axtask
