import RCoreOS.Axfs.Lookup

/-! The root directory with its mounts, and the current directory. Relative paths are walked
along the nodes, absolute ones are made canonical and sent to the mount with the longest match.
-/

namespace RCoreOS.Axfs

open Axtask (absolutePath canonicalize)

structure MountPoint where
  path : List Char
  /-- The root directory of the mounted file system. -/
  root : Nat
deriving DecidableEq, Repr

/-- A directory to look up from: `ROOT_DIR`, or a node of one of the file systems. -/
inductive VfsNodeRef where
  | rootDir
  | node (n : Nat)
deriving DecidableEq, Repr

/-- The nodes of all file systems, where the root of the main one has number 0, the mounts, and
the current directory.
-/
structure Vfs (Task : Type) where
  fs : Ramfs Task
  mounts : List MountPoint
  currentDir : VfsNodeRef
  currentDirPath : List Char

-----------------------------------------------------------------------------------------
-- Which file system a path is sent to
-----------------------------------------------------------------------------------------

/-- `trim_matches('/')`. -/
def trimSlashes (path : List Char) : List Char :=
  ((path.dropWhile (· = '/')).reverse.dropWhile (· = '/')).reverse

/-- The two conditions under which a path lies in a mount. -/
def MountPoint.covers (mp : MountPoint) (path : List Char) : Bool :=
  let prev := mp.path.drop 1 ++ ['/']
  (mp.path.drop 1).isPrefixOf path && (path.length = prev.length - 1 || prev.isPrefixOf path)

/-- One turn of the search for the longest match, with `idx` and `max_len`. Lengths are of
prefixes of one path, so that it does not matter whether they count characters or bytes.
-/
def longer (path : List Char) (best : Option MountPoint × Nat) (mp : MountPoint)
    : Option MountPoint × Nat :=
  if mp.covers path && (mp.path.drop 1 ++ ['/']).length > best.2 then
    (some mp, mp.path.length - 1)
  else best

theorem trimSlashes_length (path : List Char) : (trimSlashes path).length ≤ path.length := by
  unfold trimSlashes
  rw [List.length_reverse]
  refine (List.dropWhile_suffix _).length_le.trans ?_
  rw [List.length_reverse]
  exact (List.dropWhile_suffix _).length_le

/-- The search for the longest match in `lookup_mounted_fs`. -/
def longestMatch (mounts : List MountPoint) (path : List Char)
    : Option MountPoint × List Char :=
  let (idx, maxLen) := mounts.foldl (longer path) (none, 0)
  if maxLen = 0 then (none, path) else (idx, path.drop maxLen)

/-- `lookup_mounted_fs`: the mount that a path is sent to, none for the main file system, and
the path that is looked up there.
-/
def lookupMountedFs (mounts : List MountPoint) (path : List Char)
    : Option MountPoint × List Char :=
  match _trimmed : trimSlashes path with
  | '.' :: '/' :: rest => lookupMountedFs mounts rest
  | path => longestMatch mounts path
termination_by path.length
decreasing_by
  have shorter := trimSlashes_length path
  rw [_trimmed, List.length_cons, List.length_cons] at shorter
  omega

/-- The number of the root directory. -/
def rootOf : Option MountPoint → Nat
  | none => 0
  | some mp => mp.root

namespace Vfs

variable {Task : Type}

/-- `RootDirectory::lookup`. -/
def rootLookup (w : Vfs Task) (alive : Nat → Bool) (path : List Char) : Except AxError Nat :=
  let (fs, rest) := lookupMountedFs w.mounts path
  w.fs.lookup alive (rootOf fs) rest

def nodeLookup (w : Vfs Task) (alive : Nat → Bool) (path : List Char)
    : VfsNodeRef → Except AxError Nat
  | .rootDir => w.rootLookup alive path
  | .node n => w.fs.lookup alive n path

def isDir (w : Vfs Task) (node : Nat) : Bool :=
  match w.fs.nodes node with
  | some (.dir ..) => true
  | _ => false

def parentNodeOf (w : Vfs Task) (dir : Option VfsNodeRef) (path : List Char) : VfsNodeRef :=
  if path.head? = some '/' then .rootDir else dir.getD w.currentDir

def lookup (w : Vfs Task) (alive : Nat → Bool) (dir : Option VfsNodeRef) (path : List Char)
    : Except AxError Nat :=
  if path = [] then .error .NotFound
  else do
    let node ← w.nodeLookup alive path (w.parentNodeOf dir path)
    if path.getLast? = some '/' ∧ ¬ w.isDir node then .error .NotADirectory else .ok node

/-- `none` is a crash in `canonicalize`. Every directory may be executed by its owner. -/
def setCurrentDir (w : Vfs Task) (alive : Nat → Bool) (path : List Char)
    : Option (Except AxError (Vfs Task)) :=
  (absolutePath w.currentDirPath path).map fun absPath =>
    let absPath := if absPath.getLast? = some '/' then absPath else absPath ++ ['/']
    if absPath = ['/'] then .ok { w with currentDir := .rootDir, currentDirPath := ['/'] }
    else do
      let node ← w.lookup alive none absPath
      if w.isDir node then .ok { w with currentDir := .node node, currentDirPath := absPath }
      else .error .NotADirectory

/-- `RamFileSystem::mount` of a file system with the given root. -/
def setParent (fs : Ramfs Task) (root : Nat) (parent : Option Nat) : Ramfs Task :=
  match fs.nodes root with
  | some (.dir _ children) =>
      { fs with nodes := Function.update fs.nodes root (some (.dir parent children)) }
  | _ => fs

/-- `RootDirectory::mount`, once the mount point has been created in the main file system. -/
def mount (w : Vfs Task) (alive : Nat → Bool) (path : List Char) (root : Nat)
    : Except AxError (Vfs Task) :=
  if path = ['/'] then .error .InvalidInput
  else if path.head? ≠ some '/' then .error .InvalidInput
  else if w.mounts.any (·.path = path) then .error .InvalidInput
  else do
    let point ← w.fs.lookup alive 0 path
    .ok { w with
      fs := setParent w.fs root (w.fs.parent alive point)
      mounts := w.mounts ++ [⟨path, root⟩] }

/-- Current directories that calls of `set_current_dir` establish, from the one at boot on. -/
abbrev Established (w : Vfs Task) (alive : Nat → Bool) : Prop :=
  Transition.Reachable (fun w => w.currentDir = .rootDir ∧ w.currentDirPath = ['/'])
    (fun w w' => ∃ path, w.setCurrentDir alive path = some (.ok w')) w

end Vfs

-----------------------------------------------------------------------------------------
-- Where a path leads in its text
-----------------------------------------------------------------------------------------

/-- The names that are left when a path is followed in its text. -/
def textNames (path : List Char) : List (List Char) :=
  (path.splitOn '/').foldl followPart []

def mountNames : Option MountPoint → List (List Char)
  | none => []
  | some mp => textNames mp.path

/-- A place in one of the file systems: its mount, and the names from its root on. -/
structure Place where
  mount : Option MountPoint
  names : List (List Char)
deriving DecidableEq

namespace Place

/-- The names from the root directory on. -/
def path (p : Place) : List (List Char) :=
  mountNames p.mount ++ p.names

/-- Walking one part of a path. Only `..` at the root of a mount leaves the file system: for the
main one, at the parent of the mount point.
-/
def next (p : Place) (part : List Char) : Place :=
  if selfName part then p
  else if parentName part then
    match p.mount, p.names with
    | some mp, [] => ⟨none, (textNames mp.path).dropLast⟩
    | mount, names => ⟨mount, names.dropLast⟩
  else ⟨p.mount, p.names ++ [part]⟩

/-- Where a lookup in the root directory ends. -/
def ofRoot (mounts : List MountPoint) (path : List Char) : Place :=
  let (mount, rest) := lookupMountedFs mounts path
  (rest.splitOn '/').foldl next ⟨mount, []⟩

end Place

/-- Where a lookup from the current directory ends. -/
def Vfs.place {Task : Type} (w : Vfs Task) (path : List Char) : Place :=
  match w.currentDir with
  | .rootDir => .ofRoot w.mounts path
  | .node _ => (path.splitOn '/').foldl Place.next (.ofRoot w.mounts w.currentDirPath)

-----------------------------------------------------------------------------------------
-- The text of paths
-----------------------------------------------------------------------------------------

variable {mounts : List MountPoint} {fs : Option MountPoint} {path rest : List Char}
  {names : List (List Char)}

@[simp]
theorem followPart_empty (names : List (List Char)) : followPart names [] = names :=
  rfl

theorem followPart_name {name : List Char} (proper : Proper name) (names : List (List Char))
    : followPart names name = names ++ [name] := by
  rw [followPart, if_neg (by simp [proper.notSelf]), if_neg (by simp [proper.notParent])]

/-- Names are followed to themselves, by induction on them. -/
theorem foldl_names {more : List (List Char)} (proper : ∀ name ∈ more, Proper name)
    (names : List (List Char))
    : more.foldl followPart names = names ++ more := by
  induction more generalizing names with
  | nil => exact (List.append_nil names).symm
  | cons name rest ih =>
      rw [List.foldl_cons, followPart_name (proper name (List.mem_cons_self ..)),
        ih fun name later => proper name (List.mem_cons_of_mem _ later), List.append_assoc]
      rfl

theorem splitOn_slash (path : List Char) : ('/' :: path).splitOn '/' = [] :: path.splitOn '/' :=
  List.splitOn_append_cons_self [] path

theorem textNames_slash (path : List Char) : textNames ('/' :: path) = textNames path := by
  rw [textNames, splitOn_slash]
  rfl

theorem textNames_append (path rest : List Char)
    : textNames (path ++ '/' :: rest) = (rest.splitOn '/').foldl followPart (textNames path) := by
  rw [textNames, List.splitOn_append_cons_self, List.foldl_append, textNames]

theorem textNames_trailing (path : List Char) : textNames (path ++ ['/']) = textNames path :=
  textNames_append path []

/-- Slashes around a path do not matter, by induction on the slashes in front and behind. -/
theorem textNames_trim (path : List Char) : textNames (trimSlashes path) = textNames path := by
  have front (path : List Char) : textNames (path.dropWhile (· = '/')) = textNames path := by
    induction path with
    | nil => rfl
    | cons c path ih =>
        by_cases slash : c = '/'
        · rw [List.dropWhile_cons_of_pos (by simpa using slash), ih, slash, textNames_slash]
        · rw [List.dropWhile_cons_of_neg (by simpa using slash)]
  have back (path : List Char)
      : textNames (path.dropWhile (· = '/')).reverse = textNames path.reverse := by
    induction path with
    | nil => rfl
    | cons c path ih =>
        by_cases slash : c = '/'
        · rw [List.dropWhile_cons_of_pos (by simpa using slash), ih, slash, List.reverse_cons,
            textNames_trailing]
        · rw [List.dropWhile_cons_of_neg (by simpa using slash)]
  rw [trimSlashes, back, List.reverse_reverse, front]

/-- The part of a path that a mount point covers. -/
theorem covers_cases {mp : MountPoint} (covers : mp.covers path = true)
    : path = mp.path.drop 1 ∨ ∃ rest, path = mp.path.drop 1 ++ '/' :: rest := by
  unfold MountPoint.covers at covers
  rw [Bool.and_eq_true, Bool.or_eq_true, decide_eq_true_eq, List.length_append,
    List.length_singleton, List.isPrefixOf_iff_prefix, List.isPrefixOf_iff_prefix] at covers
  obtain ⟨start, same | more⟩ := covers
  · obtain ⟨rest, rfl⟩ := start
    rw [List.length_append] at same
    have none : rest = [] := List.length_eq_zero_iff.mp (by omega)
    left
    rw [none, List.append_nil]
  · obtain ⟨rest, rfl⟩ := more
    exact .inr ⟨rest, by rw [List.append_assoc]; rfl⟩

/-- A path is sent to the main file system, or it starts with the path of the mount that it is
sent to, and the rest is looked up there.
-/
inductive Sent (mounts : List MountPoint) (path : List Char)
    : Option MountPoint → List Char → Prop
  | main : Sent mounts path none path
  | mount {mp} : mp ∈ mounts → path = mp.path.drop 1 → Sent mounts path (some mp) []
  | inside {mp rest}
    : mp ∈ mounts → path = mp.path.drop 1 ++ '/' :: rest → Sent mounts path (some mp) ('/' :: rest)

/-- What the search has found so far is a mount that covers the path, by induction on the
mounts.
-/
theorem longestMatch_sent (mounts : List MountPoint) (path : List Char)
    : Sent mounts path (longestMatch mounts path).1 (longestMatch mounts path).2 := by
  let Found (best : Option MountPoint × Nat) : Prop :=
    best.2 = 0 ∨ ∃ mp ∈ mounts, mp.covers path = true ∧ best = (some mp, mp.path.length - 1)
  have turns (more : List MountPoint) (inside : ∀ mp ∈ more, mp ∈ mounts)
      (best : Option MountPoint × Nat) (found : Found best)
      : Found (more.foldl (longer path) best) := by
    induction more generalizing best with
    | nil => exact found
    | cons mp more ih =>
        refine ih (fun mp later => inside mp (List.mem_cons_of_mem _ later)) _ ?_
        unfold longer
        split
        next better =>
          rw [Bool.and_eq_true] at better
          exact .inr ⟨mp, inside mp (List.mem_cons_self ..), better.1, rfl⟩
        next => exact found
  have found := turns mounts (fun _ => id) (none, 0) (.inl rfl)
  unfold longestMatch
  dsimp only
  split
  next => exact .main
  next some =>
    obtain none | ⟨mp, member, covers, best⟩ := found
    · exact absurd none some
    · rw [best]
      have length : mp.path.length - 1 = (mp.path.drop 1).length := (List.length_drop ..).symm
      rcases covers_cases covers with here | ⟨rest, inside⟩
      · have nothing : path.drop (mp.path.length - 1) = [] := by
          rw [length, here, List.drop_length]
        dsimp only
        rw [nothing]
        exact .mount member here
      · have after : path.drop (mp.path.length - 1) = '/' :: rest := by
          rw [length, inside, List.drop_left]
        dsimp only
        rw [after]
        exact .inside member inside

/-- A path and the part of it that is searched for lead to the same names. -/
theorem lookupMountedFs_sent (mounts : List MountPoint) (path : List Char)
    : ∃ body, textNames body = textNames path
        ∧ Sent mounts body (lookupMountedFs mounts path).1 (lookupMountedFs mounts path).2 := by
  induction length : path.length using Nat.strong_induction_on generalizing path with
  | _ n ih =>
      have same := textNames_trim path
      have shorter := trimSlashes_length path
      unfold lookupMountedFs
      split
      next rest trimmed =>
        rw [trimmed] at same shorter
        rw [List.length_cons, List.length_cons] at shorter
        obtain ⟨body, names, sent⟩ := ih rest.length (by omega) rest rfl
        exact ⟨body, names.trans same, sent⟩
      next => exact ⟨_, same, longestMatch_sent mounts _⟩

/-- Mount paths start with a slash, as `mount` checks. -/
def Absolute (mounts : List MountPoint) : Prop :=
  ∀ mp ∈ mounts, mp.path.head? = some '/'

theorem textNames_drop {mp : MountPoint} (absolute : mp.path.head? = some '/')
    : textNames (mp.path.drop 1) = textNames mp.path := by
  obtain ⟨name, path⟩ := List.head?_eq_some_iff.mp absolute
  rw [path]
  exact (textNames_slash name).symm

/-- The names of the mount and of the rest are those of the path. -/
theorem Sent.leads {body : List Char} (absolute : Absolute mounts)
    (sent : Sent mounts body fs rest)
    : (rest.splitOn '/').foldl followPart (mountNames fs) = textNames body := by
  cases sent with
  | main => rfl
  | mount member here => rw [here, textNames_drop (absolute _ member)]; rfl
  | inside member within =>
      rw [within, textNames_append, textNames_drop (absolute _ member), splitOn_slash]
      rfl

theorem Sent.member {body : List Char} {mp : MountPoint} (sent : Sent mounts body (some mp) rest)
    : mp ∈ mounts := by
  cases sent with
  | mount member _ => exact member
  | inside member _ => exact member

-----------------------------------------------------------------------------------------
-- Places
-----------------------------------------------------------------------------------------

namespace Place

/-- A walk leads to the names that its parts lead to in the text. -/
theorem next_path (p : Place) (part : List Char) : (p.next part).path = followPart p.path part := by
  obtain ⟨mount, names⟩ := p
  unfold next followPart path
  split
  · rfl
  · split
    · dsimp only
      split
      · exact (congrArg List.dropLast (List.append_nil _)).symm
      next other =>
        rcases names with _ | ⟨name, rest⟩
        · cases mount with
          | none => rfl
          | some mp => exact absurd rfl (other mp rfl)
        · exact (List.dropLast_append_of_ne_nil (List.cons_ne_nil name rest)).symm
    · exact (List.append_assoc ..).symm

theorem foldl_next_path (parts : List (List Char)) (p : Place)
    : (parts.foldl next p).path = parts.foldl followPart p.path := by
  induction parts generalizing p with
  | nil => rfl
  | cons part rest ih => rw [List.foldl_cons, List.foldl_cons, ih, next_path]

theorem ofRoot_path (absolute : Absolute mounts) (path : List Char)
    : (ofRoot mounts path).path = textNames path := by
  obtain ⟨body, same, sent⟩ := lookupMountedFs_sent mounts path
  rw [ofRoot, foldl_next_path, Place.path, List.append_nil]
  exact (sent.leads absolute).trans same

/-- The place is in one of the mounts, or in the main file system. -/
def Mounted (mounts : List MountPoint) (p : Place) : Prop :=
  ∀ mp, p.mount = some mp → mp ∈ mounts

theorem Mounted.next {p : Place} (mounted : p.Mounted mounts) (part : List Char)
    : (p.next part).Mounted mounts := by
  unfold Place.next
  split
  · exact mounted
  · split
    · split
      · nofun
      · exact mounted
    · exact mounted

theorem Mounted.foldl {p : Place} (mounted : p.Mounted mounts) (parts : List (List Char))
    : (parts.foldl Place.next p).Mounted mounts := by
  induction parts generalizing p with
  | nil => exact mounted
  | cons part rest ih => exact ih (mounted.next part)

theorem start_mounted (mounts : List MountPoint) (path : List Char)
    : Place.Mounted mounts ⟨(lookupMountedFs mounts path).1, []⟩ := by
  obtain ⟨body, -, sent⟩ := lookupMountedFs_sent mounts path
  intro mp here
  have found : (lookupMountedFs mounts path).1 = some mp := here
  rw [found] at sent
  exact sent.member

theorem ofRoot_mounted (mounts : List MountPoint) (path : List Char)
    : (ofRoot mounts path).Mounted mounts :=
  (start_mounted mounts path).foldl _

end Place

-----------------------------------------------------------------------------------------
-- Canonical paths
-----------------------------------------------------------------------------------------

/-- Between the slashes of a canonical path lie its names. -/
theorem trim_spelled {clean : List Char} (spells : Spells true clean names) (some : names ≠ [])
    : (trimSlashes clean).splitOn '/' = names := by
  obtain ⟨body, absolute, split⟩ := spells.body some
  have front : body.dropWhile (· = '/') = body := by
    rcases body with _ | ⟨c, body⟩
    · rfl
    · refine List.dropWhile_cons_of_neg ?_
      intro slash
      rw [of_decide_eq_true slash, splitOn_slash] at split
      exact (spells.names_proper [] (split ▸ List.mem_cons_self ..)).ne_nil rfl
  obtain ⟨last, found, other⟩ := spells.getLast some
  have back : body.reverse.dropWhile (· = '/') = body.reverse := by
    rcases reversed : body.reverse with _ | ⟨c, rest⟩
    · rfl
    · refine List.dropWhile_cons_of_neg ?_
      intro slash
      have ends : body.getLast? = .some c := by
        rw [List.getLast?_eq_head?_reverse, reversed]
        rfl
      rw [absolute, List.getLast?_cons, ends] at found
      exact other ((Option.some.inj found).symm.trans (of_decide_eq_true slash))
  rw [trimSlashes, absolute, List.dropWhile_cons_of_pos rfl, front, back, List.reverse_reverse,
    split]

theorem trim_spelled_root {clean : List Char} (spells : Spells true clean names)
    (root : names = [])
    : trimSlashes clean = [] := by
  cases spells with
  | empty => rfl
  | root => rfl
  | first => cases root
  | more => exact absurd root (by simp)

/-- An empty path leads to the directory itself. -/
theorem lookup_nil {Task : Type} {s : Ramfs Task} {alive : Nat → Bool} {root : Nat}
    {parent : Option Nat} {children : BTreeMap (List Char) Nat}
    (directory : s.nodes root = some (.dir parent children))
    : s.lookup alive root [] = .ok root := by
  rw [Ramfs.lookup_eq, List.splitOn_nil, List.foldlM_cons, Ramfs.lookupPart_self directory rfl]
  rfl

/-- What names a body is made of, they are those of the mount and those that are looked up
there.
-/
theorem Sent.spelled {body : List Char} (absolute : Absolute mounts)
    (proper : ∀ name ∈ names, Proper name)
    (made : body.splitOn '/' = names ∨ body = [] ∧ names = [])
    (sent : Sent mounts body fs rest)
    : ∃ more, names = mountNames fs ++ more
        ∧ ∀ {Task : Type} (s : Ramfs Task) (alive : Nat → Bool) (root : Nat) parent children,
          s.nodes root = some (.dir parent children) →
            s.lookup alive root rest = more.foldlM (s.lookupPart alive) root := by
  have names_eq : textNames body = names := by
    rcases made with split | ⟨rfl, rfl⟩
    · rw [textNames, split, foldl_names proper, List.nil_append]
    · rfl
  cases sent with
  | main =>
      refine ⟨names, rfl, fun s alive root parent children directory => ?_⟩
      rcases made with split | ⟨rfl, rfl⟩
      · rw [Ramfs.lookup_eq, split]
      · exact lookup_nil directory
  | @mount mp member here =>
      refine ⟨[], ?_, fun s alive root parent children directory => lookup_nil directory⟩
      rw [List.append_nil, mountNames, ← textNames_drop (absolute _ member), ← here, names_eq]
  | @inside mp rest member within =>
      have split : body.splitOn '/' = names := by
        rcases made with split | ⟨empty, -⟩
        · exact split
        · exact absurd (empty.symm.trans within) (by simp)
      rw [within, List.splitOn_append_cons_self] at split
      have first : textNames mp.path = (mp.path.drop 1).splitOn '/' := by
        rw [← textNames_drop (absolute _ member), textNames, foldl_names, List.nil_append]
        exact fun name before => proper name (split ▸ List.mem_append_left _ before)
      refine ⟨rest.splitOn '/', by rw [mountNames, first, split], ?_⟩
      intro Task s alive root parent children directory
      rw [Ramfs.lookup_eq, splitOn_slash, Ramfs.lookupPart_skip _ (List.splitOn_ne_nil '/' rest)]

/-- A canonical path is sent to a mount with its first names, and the others are looked up
there.
-/
theorem lookupMountedFs_spelled {clean : List Char} (absolute : Absolute mounts)
    (spells : Spells true clean names)
    : ∃ more, names = mountNames (lookupMountedFs mounts clean).1 ++ more
        ∧ ∀ {Task : Type} (s : Ramfs Task) (alive : Nat → Bool) (root : Nat) parent children,
          s.nodes root = some (.dir parent children) →
            s.lookup alive root (lookupMountedFs mounts clean).2
              = more.foldlM (s.lookupPart alive) root := by
  have proper := spells.names_proper
  have made : (trimSlashes clean).splitOn '/' = names ∨ trimSlashes clean = [] ∧ names = [] := by
    by_cases root : names = []
    · exact .inr ⟨trim_spelled_root spells root, root⟩
    · exact .inl (trim_spelled spells root)
  unfold lookupMountedFs
  split
  next rest trimmed =>
    rw [trimmed] at made
    rcases made with split | ⟨empty, -⟩
    · have pieces : (['.'] ++ '/' :: rest).splitOn '/' = ['.'] :: rest.splitOn '/' :=
        List.splitOn_append_cons_self_of_not_mem (by decide) rest
      have dot : ['.'] ∈ names := by
        rw [← split]
        exact pieces ▸ List.mem_cons_self ..
      exact absurd (proper _ dot).notSelf (by decide)
    · cases empty
  next => exact (longestMatch_sent mounts _).spelled absolute proper made

namespace Vfs

variable {Task : Type} {w w' : Vfs Task} {alive : Nat → Bool} {node node' : Nat}

/-- A tree for the main file system and one for each mount. The parent of the root of a mount is
the parent of its mount point in the main file system, as `mount` sets it.
-/
structure Forest (w : Vfs Task) : Prop where
  root : ∃ children, w.fs.nodes 0 = some (.dir none children)
  parented : w.fs.Parented
  single : w.fs.Single
  unshown : ∀ dir name, w.fs.child dir name ≠ some 0
  unshownMount : ∀ mp ∈ w.mounts, ∀ dir name, w.fs.child dir name ≠ some mp.root
  notMain : ∀ mp ∈ w.mounts, mp.root ≠ 0
  apart : ∀ mp ∈ w.mounts, ∀ mp' ∈ w.mounts, mp.root = mp'.root → mp = mp'
  absolute : Absolute w.mounts
  attached : ∀ mp ∈ w.mounts, ∃ point parent children children',
    w.fs.follow 0 (textNames mp.path) = some point
    ∧ w.fs.nodes point = some (.dir parent children)
    ∧ w.fs.nodes mp.root = some (.dir parent children')

/-- The node at a place. -/
def At (w : Vfs Task) (p : Place) (node : Nat) : Prop :=
  w.fs.follow (rootOf p.mount) p.names = some node

-----------------------------------------------------------------------------------------
-- Walks
-----------------------------------------------------------------------------------------

/-- The parent of the root of a mount is the directory that shows its mount point. -/
theorem Forest.parent_mount (forest : w.Forest) {mp : MountPoint} (member : mp ∈ w.mounts)
    (parent : w.fs.parent alive mp.root = some node)
    : w.fs.follow 0 (textNames mp.path).dropLast = some node := by
  obtain ⟨point, up, children, children', found, directory, mountRoot⟩ := forest.attached mp member
  rw [Ramfs.parent, Ramfs.weakParent, mountRoot] at parent
  have parent : up = some node := (Option.filter_eq_some_iff.mp parent).1
  rcases Ramfs.follow_cases found with ⟨-, root⟩ | ⟨init, last, dir, names, before, held⟩
  · obtain ⟨mainChildren, main⟩ := forest.root
    rw [root, main] at directory
    cases directory
    cases parent
  · have holder := forest.parented dir last point up children held directory
    rw [parent, Option.some.injEq] at holder
    rw [names, List.dropLast_concat, holder, before]

/-- One part of a path leads to the node at the next place. -/
theorem Forest.next (forest : w.Forest) {p : Place} (mounted : p.Mounted w.mounts)
    (here : w.At p node) {part : List Char} (looked : w.fs.lookupPart alive node part = .ok node')
    : w.At (p.next part) node' := by
  obtain ⟨mount, names⟩ := p
  have leads := forest.parented.lookupPart here looked
  dsimp only at leads
  unfold Place.next
  split at leads
  next climbs =>
    obtain ⟨rfl, up⟩ := climbs
    rw [if_neg fun self => Ramfs.parentName_of_self self up, if_pos up]
    cases mount with
    | none =>
        obtain ⟨children, root⟩ := forest.root
        rw [rootOf, Ramfs.parent, Ramfs.weakParent, root] at leads
        cases leads
    | some mp => exact forest.parent_mount (mounted mp rfl) leads
  next stays =>
    unfold followPart at leads
    split
    next self =>
      rw [if_pos self] at leads
      exact leads
    next notSelf =>
      rw [if_neg notSelf] at leads
      split
      next up =>
        rw [if_pos up] at leads
        rcases names with _ | ⟨name, rest⟩
        · exact absurd ⟨rfl, up⟩ stays
        · cases mount with
          | none => exact leads
          | some mp => exact leads
      next notParent =>
        rw [if_neg notParent] at leads
        exact leads

/-- A walk from a place ends at the place that its parts lead to, by induction on them. -/
theorem Forest.walk (forest : w.Forest) {p : Place} (mounted : p.Mounted w.mounts)
    (here : w.At p node) {parts : List (List Char)}
    (walked : parts.foldlM (w.fs.lookupPart alive) node = .ok node')
    : w.At (parts.foldl Place.next p) node' := by
  induction parts generalizing p node with
  | nil =>
      cases walked
      exact here
  | cons part rest ih =>
      rw [List.foldlM_cons] at walked
      obtain ⟨after, looked, more⟩ := Outcome.bind_eq_ok.mp walked
      exact ih (mounted.next part) (forest.next mounted here looked) more

theorem Forest.rootLookup (forest : w.Forest) {path : List Char}
    (found : w.rootLookup alive path = .ok node)
    : w.At (.ofRoot w.mounts path) node := by
  unfold Vfs.rootLookup at found
  dsimp only at found
  rw [Ramfs.lookup_eq] at found
  exact forest.walk (Place.start_mounted w.mounts path) rfl found

-----------------------------------------------------------------------------------------
-- Mounts
-----------------------------------------------------------------------------------------

theorem follow_congr {fs fs' : Ramfs Task} (same : fs'.child = fs.child) (root : Nat)
    (names : List (List Char))
    : fs'.follow root names = fs.follow root names := by
  rw [Ramfs.follow, same, Ramfs.follow]

/-- A main file system without mounts, as calls on its nodes make it. -/
theorem forest_unmounted [DecidableEq Task] {fs : Ramfs Task} (reachable : fs.Reachable)
    (currentDir : VfsNodeRef) (currentDirPath : List Char)
    : Forest ⟨fs, [], currentDir, currentDirPath⟩ where
  root := reachable.tree.root
  parented := reachable.tree.parented
  single := reachable.tree.single
  unshown dir name held := absurd (reachable.tree.below dir name 0 held).1 (Nat.lt_irrefl 0)
  unshownMount := nofun
  notMain := nofun
  apart := nofun
  absolute := nofun
  attached := nofun

/-- A mount point still has its parent. -/
theorem Forest.parent_point (forest : w.Forest) (counted : ∀ n, w.fs.Within 0 n → alive n = true)
    {names : List (List Char)} {point : Nat} {parent : Option Nat}
    {children : BTreeMap (List Char) Nat} (led : w.fs.follow 0 names = some point)
    (found : w.fs.nodes point = some (.dir parent children))
    : w.fs.parent alive point = parent := by
  rw [Ramfs.parent, Ramfs.weakParent, found]
  rcases Ramfs.follow_cases led with ⟨-, root⟩ | ⟨init, last, dir, -, before, held⟩
  · obtain ⟨mainChildren, main⟩ := forest.root
    rw [root, main] at found
    cases found
    rfl
  · have holder := forest.parented dir last point parent children held found
    rw [holder]
    exact Option.filter_some_pos (counted dir ⟨init, before⟩)

/-- Mounting the tree of a new root at a directory of the main file system. -/
theorem Forest.mount (forest : w.Forest) {path : List Char} {root : Nat}
    {up : Option Nat} {children : BTreeMap (List Char) Nat}
    (new : w.fs.nodes root = some (.dir up children)) (notMain : root ≠ 0)
    (unshown : ∀ dir name, w.fs.child dir name ≠ some root)
    (unused : ∀ mp ∈ w.mounts, mp.root ≠ root)
    (counted : ∀ n, w.fs.Within 0 n → alive n = true)
    (point : ∀ n, w.fs.lookup alive 0 path = .ok n → w.isDir n = true)
    (mounted : w.mount alive path root = .ok w')
    : w'.Forest := by
  unfold Vfs.mount at mounted
  split at mounted
  · cases mounted
  split at mounted
  · cases mounted
  next absolute =>
  split at mounted
  · cases mounted
  obtain ⟨target, looked, result⟩ := Outcome.bind_eq_ok.mp mounted
  cases result
  have directory := point target looked
  unfold isDir at directory
  split at directory
  next parent targetChildren found =>
    obtain ⟨mainChildren, main⟩ := forest.root
    have names : w.fs.follow 0 (textNames path) = some target := by
      rw [Ramfs.lookup_eq] at looked
      exact forest.parented.walk main rfl looked
    have parent_eq := forest.parent_point counted names found
    have set : setParent w.fs root (w.fs.parent alive target)
        = { w.fs with nodes := Function.update w.fs.nodes root (some (.dir parent children)) } := by
      rw [setParent, new, parent_eq]
    generalize after : setParent w.fs root (w.fs.parent alive target) = fs' at set ⊢
    have itself : fs'.nodes root = some (.dir parent children) := by
      rw [set]
      exact Function.update_self ..
    have others (n : Nat) (other : n ≠ root) : fs'.nodes n = w.fs.nodes n := by
      rw [set]
      exact Function.update_of_ne other ..
    have same : fs'.child = w.fs.child := by
      funext dir name
      by_cases here : dir = root
      · subst here
        rw [Ramfs.child_of_dir itself, Ramfs.child_of_dir new]
      · exact Ramfs.child_congr (others dir here) name
    have shown {n : Nat} {names : List (List Char)} (led : w.fs.follow 0 names = some n)
        : n ≠ root := by
      rintro rfl
      rcases Ramfs.follow_cases led with ⟨-, zero⟩ | ⟨_, last, dir, -, -, held⟩
      · exact notMain zero
      · exact unshown dir last held
    have mem {mp : MountPoint} (member : mp ∈ w.mounts ++ [⟨path, root⟩])
        : mp ∈ w.mounts ∨ mp = ⟨path, root⟩ := by
      simpa using member
    exact {
      root := ⟨mainChildren, (others 0 notMain.symm).trans main⟩
      parented := by
        intro dir name node p c held at'
        dsimp only at held at'
        rw [same] at held
        have other : node ≠ root := by
          rintro rfl
          exact unshown dir name held
        exact forest.parented dir name node p c held ((others node other).symm.trans at')
      single := by
        intro dir name dir' name' node held held'
        dsimp only at held held'
        rw [same] at held held'
        exact forest.single dir name dir' name' node held held'
      unshown := by
        intro dir name
        dsimp only
        rw [same]
        exact forest.unshown dir name
      unshownMount := by
        intro mp member dir name
        dsimp only
        rw [same]
        rcases mem member with old | rfl
        · exact forest.unshownMount mp old dir name
        · exact unshown dir name
      notMain := by
        intro mp member
        rcases mem member with old | rfl
        · exact forest.notMain mp old
        · exact notMain
      apart := by
        intro mp member mp' member' roots
        rcases mem member with old | rfl
        · rcases mem member' with old' | rfl
          · exact forest.apart mp old mp' old' roots
          · exact absurd roots (unused mp old)
        · rcases mem member' with old' | rfl
          · exact absurd roots.symm (unused mp' old')
          · rfl
      absolute := by
        intro mp member
        rcases mem member with old | rfl
        · exact forest.absolute mp old
        · exact not_not.mp absolute
      attached := by
        intro mp member
        dsimp only
        rcases mem member with old | rfl
        · obtain ⟨point, up', c, c', led, at', mountRoot⟩ := forest.attached mp old
          refine ⟨point, up', c, c', (follow_congr same ..).trans led, ?_, ?_⟩
          · exact (others point (shown led)).trans at'
          · exact (others mp.root (unused mp old)).trans mountRoot
        · exact ⟨target, parent, targetChildren, children, (follow_congr same ..).trans names,
            (others target (shown names)).trans found, itself⟩ }
  next => cases directory

-----------------------------------------------------------------------------------------
-- One tree for each root
-----------------------------------------------------------------------------------------

theorem Forest.unshown_root (forest : w.Forest) {p : Place} (mounted : p.Mounted w.mounts)
    (dir : Nat) (name : List Char)
    : w.fs.child dir name ≠ some (rootOf p.mount) := by
  obtain ⟨mount, names⟩ := p
  cases mount with
  | none => exact forest.unshown dir name
  | some mp => exact forest.unshownMount mp (mounted mp rfl) dir name

theorem Forest.directory (forest : w.Forest) {p : Place} (mounted : p.Mounted w.mounts)
    : ∃ parent children, w.fs.nodes (rootOf p.mount) = some (.dir parent children) := by
  obtain ⟨mount, names⟩ := p
  cases mount with
  | none =>
      obtain ⟨children, root⟩ := forest.root
      exact ⟨none, children, root⟩
  | some mp =>
      obtain ⟨_, parent, _, children, -, -, mountRoot⟩ := forest.attached mp (mounted mp rfl)
      exact ⟨parent, children, mountRoot⟩

theorem Forest.mount_eq (forest : w.Forest) {p p' : Place} (mounted : p.Mounted w.mounts)
    (mounted' : p'.Mounted w.mounts) (same : rootOf p.mount = rootOf p'.mount)
    : p.mount = p'.mount := by
  obtain ⟨mount, names⟩ := p
  obtain ⟨mount', names'⟩ := p'
  cases mount with
  | none =>
      cases mount' with
      | none => rfl
      | some mp' => exact absurd same.symm (forest.notMain mp' (mounted' mp' rfl))
  | some mp =>
      cases mount' with
      | none => exact absurd same (forest.notMain mp (mounted mp rfl))
      | some mp' =>
          exact congrArg some (forest.apart mp (mounted mp rfl) mp' (mounted' mp' rfl) same)

/-- A node lies in one file system only, by induction on the names that lead to it. -/
theorem Forest.mount_unique (forest : w.Forest) {p p' : Place} (mounted : p.Mounted w.mounts)
    (mounted' : p'.Mounted w.mounts) (here : w.At p node) (here' : w.At p' node)
    : p.mount = p'.mount := by
  obtain ⟨mount, names⟩ := p
  obtain ⟨mount', names'⟩ := p'
  induction names using List.reverseRecOn generalizing node names' with
  | nil =>
      cases here
      rcases Ramfs.follow_cases here' with ⟨-, same⟩ | ⟨_, last, dir, -, -, held⟩
      · exact forest.mount_eq mounted mounted' same
      · exact absurd held (forest.unshown_root mounted dir last)
  | append_singleton init last ih =>
      have found : w.fs.follow (rootOf mount) (init ++ [last]) = some node := here
      rw [Ramfs.follow_snoc] at found
      obtain ⟨dir, before, held⟩ := Option.bind_eq_some_iff.mp found
      rcases Ramfs.follow_cases here' with ⟨-, same⟩ | ⟨init', last', dir', rfl, before', held'⟩
      · rw [same] at held
        exact absurd held (forest.unshown_root mounted' dir last)
      · have same := forest.single dir last dir' last' node held held'
        subst same
        exact ih mounted before init' mounted' before'

-----------------------------------------------------------------------------------------
-- Canonical paths against walks
-----------------------------------------------------------------------------------------

/-- A canonical path that spells the names of a place leads to the node there exactly when it is
sent to the mount of the place.
-/
theorem Forest.rootLookup_iff (forest : w.Forest) {p : Place} (mounted : p.Mounted w.mounts)
    (here : w.At p node) {clean : List Char} (spells : Spells true clean p.path)
    : w.rootLookup alive clean = .ok node ↔ (lookupMountedFs w.mounts clean).1 = p.mount := by
  have start := Place.start_mounted w.mounts clean
  obtain ⟨parent, children, directory⟩ := forest.directory start
  obtain ⟨more, names, leads⟩ := lookupMountedFs_spelled forest.absolute spells
  have proper : ∀ name ∈ more, Proper name := fun name member =>
    spells.names_proper name (names ▸ List.mem_append_right _ member)
  have looked : w.rootLookup alive clean
      = more.foldlM (w.fs.lookupPart alive) (rootOf (lookupMountedFs w.mounts clean).1) :=
    leads w.fs alive _ parent children directory
  rw [looked]
  constructor
  · intro found
    have landed : w.At ⟨(lookupMountedFs w.mounts clean).1, more⟩ node :=
      (Ramfs.lookup_names _ proper).mp found
    exact forest.mount_unique (p := ⟨(lookupMountedFs w.mounts clean).1, more⟩) start mounted
      landed here
  · intro same
    rw [same, Place.path] at names
    rw [← List.append_cancel_left names, same]
    refine (Ramfs.lookup_names _ ?_).mpr here
    exact fun name member => proper name (List.append_cancel_left names ▸ member)

-----------------------------------------------------------------------------------------
-- The current directory
-----------------------------------------------------------------------------------------

/-- The path of the current directory leads to it. -/
def Current (w : Vfs Task) (alive : Nat → Bool) : Prop :=
  w.currentDirPath.head? = some '/'
    ∧ match w.currentDir with
      | .rootDir => w.currentDirPath = ['/']
      | .node n =>
          w.currentDirPath.getLast? = some '/' ∧ w.rootLookup alive w.currentDirPath = .ok n

theorem lookup_absolute {dir : Option VfsNodeRef} {path : List Char}
    (absolute : path.head? = some '/')
    : w.lookup alive dir path = .ok node
      ↔ w.rootLookup alive path = .ok node ∧ (path.getLast? = some '/' → w.isDir node = true) := by
  have some : path ≠ [] := by
    rintro rfl
    cases absolute
  unfold lookup parentNodeOf
  rw [if_neg some, if_pos absolute, Outcome.bind_eq_ok]
  constructor
  · rintro ⟨found, looked, result⟩
    split at result
    next => cases result
    next directory =>
      cases result
      refine ⟨looked, fun slash => ?_⟩
      by_contra file
      exact directory ⟨slash, file⟩
  · rintro ⟨looked, directory⟩
    exact ⟨node, looked, if_neg fun file => file.2 (directory file.1)⟩

theorem absolutePath_head {currentDir path clean : List Char}
    (current : currentDir.head? = some '/') (canonical : absolutePath currentDir path = some clean)
    : clean.head? = some '/' := by
  unfold absolutePath at canonical
  split at canonical
  next absolute => exact Axfs.canonicalize_head absolute canonical
  next =>
    refine Axfs.canonicalize_head ?_ canonical
    obtain ⟨rest, found⟩ := List.head?_eq_some_iff.mp current
    rw [found]
    rfl

/-- A change of the current directory goes to the directory that its new path leads to. -/
theorem Current.set (current : w.Current alive) {path : List Char}
    (done : w.setCurrentDir alive path = some (.ok w'))
    : w'.Current alive ∧ w'.fs = w.fs ∧ w'.mounts = w.mounts := by
  obtain ⟨absPath, canonical, result⟩ := Option.map_eq_some_iff.mp done
  have head := absolutePath_head current.1 canonical
  dsimp only at result
  generalize slashed : (if absPath.getLast? = some '/' then absPath else absPath ++ ['/'])
    = newPath at result
  have absolute : newPath.head? = some '/' := by
    rw [← slashed]
    split
    · exact head
    · obtain ⟨rest, found⟩ := List.head?_eq_some_iff.mp head
      rw [found]
      rfl
  have ends : newPath.getLast? = some '/' := by
    rw [← slashed]
    split
    next already => exact already
    next => exact List.getLast?_concat
  split at result
  · cases result
    exact ⟨⟨rfl, rfl⟩, rfl, rfl⟩
  · obtain ⟨node, looked, set⟩ := Outcome.bind_eq_ok.mp result
    split at set
    · cases set
      exact ⟨⟨absolute, ends, ((lookup_absolute absolute).mp looked).1⟩, rfl, rfl⟩
    · cases set

theorem Established.current (established : w.Established alive) : w.Current alive := by
  refine established.invariant (fun w => w.Current alive) ?_ ?_
  · rintro w ⟨root, path⟩
    refine ⟨by rw [path]; rfl, ?_⟩
    rw [root]
    exact path
  · rintro w w' current ⟨path, done⟩
    exact (current.set done).1

/-- A lookup from the current directory ends at the place that its path leads to. -/
theorem Forest.lookup_place (forest : w.Forest) (current : w.Current alive) {path : List Char}
    (relative : path.head? ≠ some '/') (found : w.lookup alive none path = .ok node)
    : w.At (w.place path) node := by
  unfold lookup parentNodeOf at found
  rw [if_neg relative, Option.getD_none] at found
  split at found
  next => cases found
  next =>
    obtain ⟨node', looked, result⟩ := Outcome.bind_eq_ok.mp found
    have same : node' = node := by
      split at result
      · cases result
      · exact Except.ok.inj result
    subst same
    unfold place
    obtain ⟨-, current⟩ := current
    cases dir : w.currentDir with
    | rootDir =>
        rw [dir] at looked
        exact forest.rootLookup looked
    | node n =>
        rw [dir] at looked current
        have walked : w.fs.lookup alive n path = .ok node' := looked
        rw [Ramfs.lookup_eq] at walked
        exact forest.walk (Place.ofRoot_mounted w.mounts _) (forest.rootLookup current.2) walked

/-- In the text, a relative path leads where it does from the path of the current directory. -/
theorem place_path (absolute : Absolute w.mounts) (current : w.Current alive) (path : List Char)
    : (w.place path).path = textNames (w.currentDirPath ++ path) := by
  obtain ⟨-, current⟩ := current
  unfold place
  cases dir : w.currentDir with
  | rootDir =>
      rw [dir] at current
      dsimp only at current ⊢
      rw [Place.ofRoot_path absolute, current]
      exact (textNames_slash path).symm
  | node n =>
      rw [dir] at current
      obtain ⟨text, ends⟩ := List.getLast?_eq_some_iff.mp current.1
      dsimp only
      rw [Place.foldl_next_path, Place.ofRoot_path absolute, ends, textNames_trailing,
        List.append_assoc]
      exact (textNames_append text path).symm

theorem place_mounted (w : Vfs Task) (path : List Char) : (w.place path).Mounted w.mounts := by
  unfold place
  split
  · exact Place.ofRoot_mounted w.mounts path
  · exact (Place.ofRoot_mounted w.mounts _).foldl _

/-- Over trees with any mounts and from any current directory, a relative path that leads to a
node leads to it as an absolute path, too, exactly when its absolute form can be computed and is
sent to the mount in which the walk along the relative path ends.
-/
theorem relative_absolute_iff (forest : w.Forest) (established : w.Established alive)
    {path : List Char} (relative : path.head? ≠ some '/')
    (found : w.lookup alive none path = .ok node)
    : (∃ clean, absolutePath w.currentDirPath path = some clean
        ∧ w.lookup alive none clean = .ok node)
      ↔ ∃ clean, absolutePath w.currentDirPath path = some clean
        ∧ (lookupMountedFs w.mounts clean).1 = (w.place path).mount := by
  have current := established.current
  have here := forest.lookup_place current relative found
  refine exists_congr fun clean => and_congr_right fun canonical => ?_
  have head := absolutePath_head current.1 canonical
  rw [absolutePath, if_neg relative] at canonical
  have absolute : ((w.currentDirPath ++ path).head? == some '/') = true := by
    obtain ⟨rest, starts⟩ := List.head?_eq_some_iff.mp current.1
    rw [starts]
    rfl
  have spells := Axfs.canonicalize_spells canonical
  rw [absolute] at spells
  have spells : Spells true clean (w.place path).path := by
    rw [place_path forest.absolute current]
    exact spells
  have agree : w.rootLookup alive clean = .ok node
      ↔ (lookupMountedFs w.mounts clean).1 = (w.place path).mount :=
    forest.rootLookup_iff (w.place_mounted path) here spells
  rw [lookup_absolute head, ← agree]
  refine and_iff_left_of_imp fun looked slash => ?_
  -- only the path of a root directory ends with a slash
  have root : (w.place path).path = [] := by
    by_contra some
    obtain ⟨last, ends, other⟩ := spells.getLast some
    rw [slash] at ends
    exact other (Option.some.inj ends).symm
  obtain ⟨parent, children, directory⟩ := forest.directory (w.place_mounted path)
  have itself : node = rootOf (w.place path).mount := by
    rw [At, (List.append_eq_nil_iff.mp root).2] at here
    exact (Option.some.inj here).symm
  rw [isDir, itself, directory]

-----------------------------------------------------------------------------------------
-- A mount at `/tmp`
-----------------------------------------------------------------------------------------

def tmpMount : MountPoint where
  path := "/tmp".toList
  root := 2

/-- The root directory shows the mount point, which has number 1. -/
def tmpNodes : Nat → Option Node
  | 0 => some (.dir none (BTreeMap.empty.insert "tmp".toList 1).2)
  | 1 => some (.dir (some 0) BTreeMap.empty)
  | 2 => some (.dir (some 0) BTreeMap.empty)
  | _ => none

def tmpVfs (currentDir : VfsNodeRef) (currentDirPath : List Char) : Vfs Unit where
  fs := { nodes := tmpNodes, next := 3, call := fun _ => .idle, log := [] }
  mounts := [tmpMount]
  currentDir := currentDir
  currentDirPath := currentDirPath

theorem tmpVfs_child {currentDir : VfsNodeRef} {currentDirPath : List Char} {dir n : Nat}
    {name : List Char} (held : (tmpVfs currentDir currentDirPath).fs.child dir name = some n)
    : dir = 0 ∧ n = 1 := by
  match dir with
  | 0 =>
      have found : (BTreeMap.empty.insert "tmp".toList 1).2.get name = some n := held
      rw [BTreeMap.get_insert] at found
      split at found
      · cases found
        exact ⟨rfl, rfl⟩
      · cases found
  | 1 => cases held
  | 2 => cases held
  | dir + 3 => cases held

theorem tmpVfs_forest (currentDir : VfsNodeRef) (currentDirPath : List Char)
    : (tmpVfs currentDir currentDirPath).Forest where
  root := ⟨_, rfl⟩
  parented := by
    intro dir name n parent children held directory
    obtain ⟨rfl, rfl⟩ := tmpVfs_child held
    cases directory
    rfl
  single dir name dir' name' n held held' :=
    (tmpVfs_child held).1.trans (tmpVfs_child held').1.symm
  unshown dir name held := nomatch (tmpVfs_child held).2
  unshownMount := by
    intro mp member dir name held
    rw [List.mem_singleton.mp member] at held
    cases (tmpVfs_child held).2
  notMain := by
    intro mp member
    rw [List.mem_singleton.mp member]
    decide
  apart mp member mp' member' _ :=
    (List.mem_singleton.mp member).trans (List.mem_singleton.mp member').symm
  absolute := by
    intro mp member
    rw [List.mem_singleton.mp member]
    rfl
  attached := by
    intro mp member
    rw [List.mem_singleton.mp member]
    exact ⟨1, some 0, _, _, rfl, rfl, rfl⟩

/-- The mount point and its name with a slash are sent to the mount. -/
theorem tmp_sent
    : lookupMountedFs [tmpMount] "/tmp".toList = (some tmpMount, [])
      ∧ lookupMountedFs [tmpMount] "/tmp/".toList = (some tmpMount, [])
      ∧ lookupMountedFs [tmpMount] "/".toList = (none, []) := by
  refine ⟨?_, ?_, ?_⟩
  · rw [lookupMountedFs]
    rfl
  · rw [lookupMountedFs]
    rfl
  · rw [lookupMountedFs]
    rfl

theorem rootLookup_sent {path rest : List Char} {fs : Option MountPoint}
    (sent : lookupMountedFs w.mounts path = (fs, rest))
    : w.rootLookup alive path = w.fs.lookup alive (rootOf fs) rest := by
  rw [rootLookup, sent]

def inTmp : Vfs Unit :=
  tmpVfs (.node 2) "/tmp/".toList

theorem inTmp_established (alive : Nat → Bool) : inTmp.Established alive := by
  have boot : (tmpVfs .rootDir ['/']).Established alive := .start ⟨rfl, rfl⟩
  refine boot.next ⟨"/tmp".toList, ?_⟩
  have looked : (tmpVfs .rootDir ['/']).lookup alive none "/tmp/".toList = .ok 2 := by
    refine (lookup_absolute rfl).mpr ⟨?_, fun _ => rfl⟩
    rw [rootLookup_sent tmp_sent.2.1]
    exact lookup_nil rfl
  have clean : absolutePath ['/'] "/tmp".toList = some "/tmp".toList := by decide
  refine Option.map_eq_some_iff.mpr ⟨"/tmp".toList, clean, ?_⟩
  have slashed : (if "/tmp".toList.getLast? = some '/' then "/tmp".toList
      else "/tmp".toList ++ ['/']) = "/tmp/".toList := by
    decide
  dsimp only
  rw [slashed, if_neg (by decide), looked]
  rfl

/-- From a directory of a mount, `..` and then the name of the mount lead to the mount point in
the main file system, while the absolute path leads to the mount.
-/
theorem relative_enters_mountPoint
    : ¬ ∀ (w : Vfs Unit) (alive : Nat → Bool), w.Forest → w.Established alive →
        ∀ path node, path.head? ≠ some '/' → (∀ c ∈ path, c.toNat < 128) →
          w.lookup alive none path = .ok node →
            ∃ clean, absolutePath w.currentDirPath path = some clean
              ∧ w.lookup alive none clean = .ok node := by
  intro agree
  have walked : inTmp.fs.lookup (fun _ => true) 2 "../tmp".toList = .ok 1 := by
    rw [Ramfs.lookup_eq]
    rfl
  have found : inTmp.lookup (fun _ => true) none "../tmp".toList = .ok 1 := by
    rw [lookup, if_neg (by decide)]
    refine Outcome.bind_eq_ok.mpr ⟨1, walked, if_neg ?_⟩
    decide
  obtain ⟨clean, canonical, looked⟩ := agree inTmp _ (tmpVfs_forest ..) (inTmp_established _)
    "../tmp".toList 1 (by decide) (by simp) found
  have absolute : absolutePath inTmp.currentDirPath "../tmp".toList = some "/tmp".toList := by
    decide
  rw [absolute] at canonical
  cases canonical
  have mounted := ((lookup_absolute rfl).mp looked).1
  rw [rootLookup_sent tmp_sent.1, lookup_nil rfl] at mounted
  cases mounted

/-- Witness: `..` leads out of the mount to the root directory, as its absolute path does. -/
theorem relative_absolute_iff_up
    : inTmp.lookup (fun _ => true) none "..".toList = .ok 0
      ∧ ∃ clean, absolutePath inTmp.currentDirPath "..".toList = some clean
        ∧ inTmp.lookup (fun _ => true) none clean = .ok 0 := by
  have walked : inTmp.fs.lookup (fun _ => true) 2 "..".toList = .ok 0 := by
    rw [Ramfs.lookup_eq]
    rfl
  have found : inTmp.lookup (fun _ => true) none "..".toList = .ok 0 := by
    rw [lookup, if_neg (by decide)]
    refine Outcome.bind_eq_ok.mpr ⟨0, walked, if_neg ?_⟩
    decide
  have absolute : absolutePath inTmp.currentDirPath "..".toList = some "/".toList := by
    decide
  refine ⟨found, (relative_absolute_iff (tmpVfs_forest ..) (inTmp_established _) (by decide)
    found).mpr ⟨_, absolute, ?_⟩⟩
  have ends : (inTmp.place "..".toList).mount = none := by
    unfold place Place.ofRoot
    dsimp only [inTmp, tmpVfs]
    rw [tmp_sent.2.1]
    rfl
  exact (congrArg Prod.fst tmp_sent.2.2).trans ends.symm

end Vfs

end RCoreOS.Axfs
