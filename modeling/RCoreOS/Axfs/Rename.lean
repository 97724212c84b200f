import RCoreOS.Axfs.Removal
import RCoreOS.Axfs.Root

/-! Renaming over the mounts: the destination is removed before the file system that holds the
source is asked to rename it, which may then refuse.
-/

namespace RCoreOS.Axfs

/-- `VfsError`, as far as the operations here return it themselves. -/
inductive VfsError where
  | AlreadyExists
  | DirectoryNotEmpty
  | InvalidInput
  | Io
  | IsADirectory
  | NotADirectory
  | NotFound
  | PermissionDenied
  | Unsupported
deriving DecidableEq, Repr

/-- The part of the attributes that `root.rs` looks at. -/
structure VfsNodeAttr where
  isDir : Bool
  ownerWritable : Bool
deriving DecidableEq, Repr

/-- The operations on the nodes of all file systems, and what a file holds. -/
class NodeOps (W : Type) where
  getAttr : W → Nat → Except VfsError VfsNodeAttr
  lookup : W → Nat → List Char → Except VfsError Nat
  remove : W → Nat → List Char → Except VfsError Unit × W
  rename : W → Nat → List Char → List Char → Except VfsError Unit × W
  content : W → Nat → List UInt8

namespace NodeOps

/-- Two states that cannot be told apart by lookups, attributes and contents. -/
structure Same {W : Type} [NodeOps W] (w w' : W) : Prop where
  lookup : ∀ node path, NodeOps.lookup w' node path = NodeOps.lookup w node path
  getAttr : ∀ node, NodeOps.getAttr w' node = NodeOps.getAttr w node
  content : ∀ node, NodeOps.content w' node = NodeOps.content w node

/-- What a file system promises: an operation that fails changes nothing, a removed path does
not resolve any more, and the removal of a file leaves all other nodes where they are.
-/
class Lawful (W : Type) [NodeOps W] : Prop where
  remove_error {w w' : W} {node : Nat} {path : List Char} {e : VfsError}
    : remove w node path = (.error e, w') → Same w w'
  rename_error {w w' : W} {node : Nat} {src dst : List Char} {e : VfsError}
    : rename w node src dst = (.error e, w') → Same w w'
  remove_gone {w w' : W} {node : Nat} {path : List Char}
    : remove w node path = (.ok (), w') → ∃ e, lookup w' node path = .error e
  remove_keeps {w w' : W} {node : Nat} {path : List Char} {file : Nat} {attr : VfsNodeAttr}
    : remove w node path = (.ok (), w') → lookup w node path = .ok file
      → getAttr w file = .ok attr → attr.isDir = false
      → ∀ other, other ≠ file
        → (∀ n p, lookup w n p = .ok other → lookup w' n p = .ok other)
          ∧ getAttr w' other = getAttr w other ∧ content w' other = content w other

end NodeOps

-----------------------------------------------------------------------------------------
-- The root directory and the functions of `root.rs`
-----------------------------------------------------------------------------------------

/-- All file systems with the mounts and the current directory. -/
structure FileTree (W : Type) where
  world : W
  mounts : List MountPoint
  currentDir : VfsNodeRef

namespace FileTree

variable {W : Type} [NodeOps W]

/-- `lookup` of a node of a file system, or `RootDirectory::lookup`. -/
def lookupFrom (t : FileTree W) (path : List Char) : VfsNodeRef → Except VfsError Nat
  | .rootDir =>
      let (fs, rest) := lookupMountedFs t.mounts path
      NodeOps.lookup t.world (rootOf fs) rest
  | .node n => NodeOps.lookup t.world n path

/-- `remove`, where mount points cannot be removed. -/
def removeFrom (t : FileTree W) (path : List Char) : VfsNodeRef → Except VfsError Unit × W
  | .rootDir =>
      let (fs, rest) := lookupMountedFs t.mounts path
      if rest = [] then (.error .PermissionDenied, t.world)
      else NodeOps.remove t.world (rootOf fs) rest
  | .node n => NodeOps.remove t.world n path

/-- `rename`, where the destination is passed on as it is. -/
def renameFrom (t : FileTree W) (srcPath dstPath : List Char)
    : VfsNodeRef → Except VfsError Unit × W
  | .rootDir =>
      let (fs, rest) := lookupMountedFs t.mounts srcPath
      if rest = [] then (.error .PermissionDenied, t.world)
      else NodeOps.rename t.world (rootOf fs) rest dstPath
  | .node n => NodeOps.rename t.world n srcPath dstPath

/-- `parent_node_of` without a directory. -/
def parentNodeOf (t : FileTree W) (path : List Char) : VfsNodeRef :=
  if path.head? = some '/' then .rootDir else t.currentDir

def lookup (t : FileTree W) (path : List Char) : Except VfsError Nat :=
  if path = [] then .error .NotFound
  else do
    let node ← t.lookupFrom path (t.parentNodeOf path)
    if path.getLast? = some '/' then
      let attr ← NodeOps.getAttr t.world node
      if !attr.isDir then .error .NotADirectory else .ok node
    else .ok node

def removeFile (t : FileTree W) (path : List Char) : Except VfsError Unit × FileTree W :=
  match t.lookup path with
  | .error e => (.error e, t)
  | .ok node =>
      match NodeOps.getAttr t.world node with
      | .error e => (.error e, t)
      | .ok attr =>
          if attr.isDir then (.error .IsADirectory, t)
          else if !attr.ownerWritable then (.error .PermissionDenied, t)
          else
            let answer := t.removeFrom path (t.parentNodeOf path)
            (answer.1, { t with world := answer.2 })

/-- The second part of `rename`. -/
def renameSource (t : FileTree W) (old new : List Char) : Except VfsError Unit × FileTree W :=
  let answer := t.renameFrom old new (t.parentNodeOf old)
  (answer.1, { t with world := answer.2 })

def rename (t : FileTree W) (old new : List Char) : Except VfsError Unit × FileTree W :=
  match t.lookupFrom new (t.parentNodeOf new) with
  | .ok _ =>
      match t.removeFile new with
      | (.error e, t) => (.error e, t)
      | (.ok (), t) => t.renameSource old new
  | .error _ => t.renameSource old new

theorem lookupFrom_sent {t : FileTree W} {path rest : List Char} {fs : Option MountPoint}
    (sent : lookupMountedFs t.mounts path = (fs, rest))
    : t.lookupFrom path .rootDir = NodeOps.lookup t.world (rootOf fs) rest := by
  simp only [lookupFrom, sent]

theorem removeFrom_sent {t : FileTree W} {path rest : List Char} {fs : Option MountPoint}
    (sent : lookupMountedFs t.mounts path = (fs, rest)) (some : rest ≠ [])
    : t.removeFrom path .rootDir = NodeOps.remove t.world (rootOf fs) rest := by
  simp only [removeFrom, sent, if_neg some]

-----------------------------------------------------------------------------------------
-- What a failed rename leaves
-----------------------------------------------------------------------------------------

/-- The path names a file that its owner may write and its file system removes. -/
def Removable (t : FileTree W) (path : List Char) : Prop :=
  ∃ node attr w, t.lookup path = .ok node ∧ NodeOps.getAttr t.world node = .ok attr
    ∧ attr.isDir = false ∧ attr.ownerWritable = true
    ∧ t.removeFrom path (t.parentNodeOf path) = (.ok (), w)

/-- Every path resolves as before, and no file has lost its content. -/
structure Unchanged (t t' : FileTree W) : Prop where
  lookup : ∀ path, t'.lookup path = t.lookup path
  content : ∀ node, NodeOps.content t'.world node = NodeOps.content t.world node

/-- The path does not resolve any more, and what resolved to another node than the path does so
still, with its content.
-/
structure Lost (t t' : FileTree W) (path : List Char) : Prop where
  gone : ∃ e, t'.lookup path = .error e
  others : ∀ file, t.lookup path = .ok file → ∀ other node, node ≠ file
    → t.lookup other = .ok node
    → t'.lookup other = .ok node
      ∧ NodeOps.content t'.world node = NodeOps.content t.world node

variable {t : FileTree W} {path old new : List Char}

/-- Same worlds resolve paths alike. -/
theorem lookup_same {w : W} (same : NodeOps.Same t.world w) (path : List Char)
    : FileTree.lookup { t with world := w } path = t.lookup path := by
  have from_same (ref : VfsNodeRef) : FileTree.lookupFrom { t with world := w } path ref
      = t.lookupFrom path ref := by
    cases ref with
    | rootDir => exact same.lookup ..
    | node n => exact same.lookup ..
  unfold lookup
  rw [from_same]
  simp only [same.getAttr]
  rfl

theorem unchanged_of_same {w : W} (same : NodeOps.Same t.world w)
    : t.Unchanged { t with world := w } :=
  ⟨lookup_same same, same.content⟩

/-- What resolves, resolves from the node in which its lookup starts. -/
theorem lookup_from {node : Nat} (found : t.lookup path = .ok node)
    : t.lookupFrom path (t.parentNodeOf path) = .ok node := by
  unfold lookup at found
  split at found
  · cases found
  · obtain ⟨next, looked, checked⟩ := Outcome.bind_eq_ok.mp found
    split at checked
    · obtain ⟨attr, -, kept⟩ := Outcome.bind_eq_ok.mp checked
      split at kept
      · cases kept
      · cases kept
        exact looked
    · cases checked
      exact looked

theorem lookup_error {e : VfsError}
    (missing : t.lookupFrom path (t.parentNodeOf path) = .error e)
    : ∃ e, t.lookup path = .error e := by
  cases found : t.lookup path with
  | error e' => exact ⟨e', rfl⟩
  | ok node =>
      rw [lookup_from found] at missing
      cases missing

/-- A node that is still found and has its attributes resolves as before. -/
theorem lookup_kept {w : W} {node : Nat}
    (resolves : ∀ n p, NodeOps.lookup t.world n p = .ok node → NodeOps.lookup w n p = .ok node)
    (attr_same : NodeOps.getAttr w node = NodeOps.getAttr t.world node)
    (found : t.lookup path = .ok node)
    : FileTree.lookup { t with world := w } path = .ok node := by
  have looked := lookup_from found
  have looked' : FileTree.lookupFrom { t with world := w } path (t.parentNodeOf path)
      = .ok node := by
    cases ref : t.parentNodeOf path with
    | rootDir =>
        rw [ref] at looked
        exact resolves _ _ looked
    | node n =>
        rw [ref] at looked
        exact resolves _ _ looked
  unfold lookup at found ⊢
  rw [looked] at found
  change (if path = [] then _ else (FileTree.lookupFrom { t with world := w } path
    (t.parentNodeOf path) >>= _)) = _
  rw [looked']
  simp only [Outcome.ok_bind, attr_same] at found ⊢
  exact found

variable [NodeOps.Lawful W]

/-- The removal of a file, from where its path is looked up. -/
theorem removeFrom_ok {ref : VfsNodeRef} {w : W} (removed : t.removeFrom path ref = (.ok (), w))
    : (∃ e, FileTree.lookupFrom { t with world := w } path ref = .error e)
      ∧ ∀ file attr, t.lookupFrom path ref = .ok file
        → NodeOps.getAttr t.world file = .ok attr → attr.isDir = false
        → ∀ other, other ≠ file
          → (∀ n p, NodeOps.lookup t.world n p = .ok other → NodeOps.lookup w n p = .ok other)
            ∧ NodeOps.getAttr w other = NodeOps.getAttr t.world other
            ∧ NodeOps.content w other = NodeOps.content t.world other := by
  cases ref with
  | rootDir =>
      simp only [removeFrom] at removed
      split at removed
      · cases removed
      · exact ⟨NodeOps.Lawful.remove_gone removed,
          fun file attr found => NodeOps.Lawful.remove_keeps removed found⟩
  | node n =>
      exact ⟨NodeOps.Lawful.remove_gone removed,
        fun file attr found => NodeOps.Lawful.remove_keeps removed found⟩

theorem removeFrom_error {ref : VfsNodeRef} {w : W} {e : VfsError}
    (failed : t.removeFrom path ref = (.error e, w))
    : NodeOps.Same t.world w := by
  cases ref with
  | rootDir =>
      simp only [removeFrom] at failed
      split at failed
      · cases failed
        exact ⟨fun _ _ => rfl, fun _ => rfl, fun _ => rfl⟩
      · exact NodeOps.Lawful.remove_error failed
  | node n => exact NodeOps.Lawful.remove_error failed

theorem renameFrom_error {ref : VfsNodeRef} {w : W} {e : VfsError}
    (failed : t.renameFrom old new ref = (.error e, w))
    : NodeOps.Same t.world w := by
  cases ref with
  | rootDir =>
      simp only [renameFrom] at failed
      split at failed
      · cases failed
        exact ⟨fun _ _ => rfl, fun _ => rfl, fun _ => rfl⟩
      · exact NodeOps.Lawful.rename_error failed
  | node n => exact NodeOps.Lawful.rename_error failed

/-- A source that is not renamed leaves the files as they were. -/
theorem renameSource_error {t' : FileTree W} {e : VfsError}
    (failed : t.renameSource old new = (.error e, t'))
    : ∃ w, t' = { t with world := w } ∧ NodeOps.Same t.world w := by
  have error : (t.renameSource old new).1 = .error e := congrArg Prod.fst failed
  obtain ⟨w, answer⟩ : ∃ w, t.renameFrom old new (t.parentNodeOf old) = (.error e, w) :=
    ⟨_, Prod.ext error rfl⟩
  rw [renameSource, answer] at failed
  exact ⟨w, (congrArg Prod.snd failed).symm, renameFrom_error answer⟩

omit [NodeOps.Lawful W] in
/-- A file is removed exactly when it is removable. -/
theorem removeFile_cases (t : FileTree W) (path : List Char)
    : (∃ e, t.removeFile path = (.error e, t))
      ∨ ∃ node attr, t.lookup path = .ok node ∧ NodeOps.getAttr t.world node = .ok attr
        ∧ attr.isDir = false ∧ attr.ownerWritable = true
        ∧ t.removeFile path = ((t.removeFrom path (t.parentNodeOf path)).1,
            { t with world := (t.removeFrom path (t.parentNodeOf path)).2 }) := by
  unfold removeFile
  cases found : t.lookup path with
  | error e => exact .inl ⟨e, rfl⟩
  | ok node =>
      cases attrs : NodeOps.getAttr t.world node with
      | error e => exact .inl ⟨e, by simp only [attrs]⟩
      | ok attr =>
          simp only [attrs]
          by_cases dir : attr.isDir = true
          · exact .inl ⟨.IsADirectory, by rw [if_pos dir]⟩
          · by_cases writable : attr.ownerWritable = true
            · refine .inr ⟨node, attr, rfl, attrs, by simpa using dir, writable, ?_⟩
              rw [if_neg dir, if_neg (by simp [writable])]
            · exact .inl ⟨.PermissionDenied, by
                rw [if_neg dir, if_pos (by simpa using writable)]⟩

/-- A destination that is not removable is left alone, and nothing else changes. -/
theorem removeFile_error (kept : ¬ t.Removable path)
    : ∃ e w, t.removeFile path = (.error e, { t with world := w }) ∧ NodeOps.Same t.world w := by
  have same : NodeOps.Same t.world t.world := ⟨fun _ _ => rfl, fun _ => rfl, fun _ => rfl⟩
  rcases removeFile_cases t path with ⟨e, failed⟩ | ⟨node, attr, found, attrs, file, writable, run⟩
  · exact ⟨e, t.world, failed, same⟩
  · cases answer : t.removeFrom path (t.parentNodeOf path) with
    | mk result w =>
        rw [answer] at run
        cases result with
        | ok _ => exact absurd ⟨node, attr, w, found, attrs, file, writable, answer⟩ kept
        | error e => exact ⟨e, w, run, removeFrom_error answer⟩

/-- A removable destination is removed. -/
theorem removeFile_ok (removable : t.Removable path)
    : ∃ w, t.removeFile path = (.ok (), { t with world := w })
      ∧ t.Lost { t with world := w } path := by
  obtain ⟨node, attr, w, found, attrs, file, writable, removed⟩ := removable
  have looked := lookup_from found
  obtain ⟨gone, keeps⟩ := removeFrom_ok removed
  refine ⟨w, ?_, lookup_error gone.choose_spec, fun file' found' other target differs => ?_⟩
  · unfold removeFile
    simp only [found, attrs, file, writable, removed, Bool.false_eq_true, if_false,
      Bool.not_true]
  · cases found.symm.trans found'
    obtain ⟨resolves, attr_same, content⟩ := keeps node attr looked attrs file target differs
    exact fun resolved => ⟨lookup_kept resolves attr_same resolved, content⟩

/-- Before it fails, the rename has removed a removable destination, and nothing else. -/
theorem rename_error {e : VfsError} {t' : FileTree W}
    (failed : t.rename old new = (.error e, t'))
    : (¬ t.Removable new → t.Unchanged t') ∧ (t.Removable new → t.Lost t' new) := by
  unfold rename at failed
  cases looked : t.lookupFrom new (t.parentNodeOf new) with
  | error missing =>
      simp only [looked] at failed
      obtain ⟨w, rfl, same⟩ := renameSource_error failed
      refine ⟨fun _ => unchanged_of_same same, fun removable => ?_⟩
      obtain ⟨node, attr, w', found, -⟩ := removable
      rw [lookup_from found] at looked
      cases looked
  | ok node =>
      simp only [looked] at failed
      by_cases removable : t.Removable new
      · obtain ⟨w, removed, lost⟩ := removeFile_ok removable
        simp only [removed] at failed
        obtain ⟨w', rfl, same⟩ := renameSource_error failed
        have resolves := lookup_same same
        refine ⟨absurd removable, fun _ => ⟨?_, fun file found other target differs held => ?_⟩⟩
        · obtain ⟨missing, gone⟩ := lost.gone
          exact ⟨missing, (resolves new).trans gone⟩
        · obtain ⟨kept, content⟩ := lost.others file found other target differs held
          exact ⟨(resolves other).trans kept, (same.content target).trans content⟩
      · obtain ⟨e', w, kept, same⟩ := removeFile_error removable
        simp only [kept, Prod.mk.injEq] at failed
        obtain ⟨-, rfl⟩ := failed
        exact ⟨fun _ => unchanged_of_same same, fun able => absurd able removable⟩

/-- A file that is not removable stays where it is when it is renamed to itself. -/
theorem rename_self {node : Nat} (found : t.lookup path = .ok node)
    (kept : ¬ t.Removable path)
    : t.Unchanged (t.rename path path).2 := by
  obtain ⟨e, w, removed, same⟩ := removeFile_error kept
  unfold rename
  simp only [lookup_from found, removed]
  exact unchanged_of_same same

end FileTree

-----------------------------------------------------------------------------------------
-- The RAM file system
-----------------------------------------------------------------------------------------

def VfsError.ofAxError : AxError → VfsError
  | .AlreadyExists => .AlreadyExists
  | .DirectoryNotEmpty => .DirectoryNotEmpty
  | .InvalidInput => .InvalidInput
  | .Io => .Io
  | .NotADirectory => .NotADirectory
  | .NotFound => .NotFound
  | .PermissionDenied => .PermissionDenied
  | .Unsupported => .Unsupported

/-- The nodes of the RAM file system, all of which are still referred to. Their owner may write
them all, and `rename` is the one that every node has that does not define its own.
-/
instance : NodeOps (Ramfs Unit) where
  getAttr s n :=
    match s.nodes n with
    | some (.dir ..) => .ok ⟨true, true⟩
    | some _ => .ok ⟨false, true⟩
    | none => .error .Unsupported
  lookup s n path := (s.lookup (fun _ => true) n path).mapError VfsError.ofAxError
  remove s n path :=
    match s.remove () (fun _ => true) n path with
    | .ok s' => (.ok (), s')
    | .error e => (.error (.ofAxError e), s)
  rename s _ _ _ := (.error .Unsupported, s)
  content s n :=
    match s.nodes n with
    | some (.file node) => node.content
    | _ => []

namespace Ramfs

variable {s s' : Ramfs Unit} {n : Nat} {path : List Char}

theorem nodeLookup_ok {node : Nat}
    : NodeOps.lookup s n path = .ok node ↔ s.lookup (fun _ => true) n path = .ok node := by
  change Except.mapError _ _ = _ ↔ _
  cases s.lookup (fun _ => true) n path with
  | error e => exact iff_of_false (by simp [Except.mapError]) (by simp)
  | ok found => simp [Except.mapError]

theorem nodeRemove_ok (removed : NodeOps.remove s n path = (.ok (), s'))
    : s.remove () (fun _ => true) n path = .ok s' := by
  simp only [NodeOps.remove] at removed
  split at removed
  · rename_i done
    cases removed
    exact done
  · cases removed

/-- Attributes and contents are the same, since only the children of a directory change. -/
theorem Removed.data {dir node : Nat} {name : List Char} (removed : s.Removed s' dir name node)
    (n : Nat)
    : NodeOps.getAttr s' n = NodeOps.getAttr s n ∧ NodeOps.content s' n = NodeOps.content s n := by
  simp only [NodeOps.getAttr, NodeOps.content]
  by_cases directory : ∃ parent children, s.nodes n = some (.dir parent children)
  · obtain ⟨parent, children, found⟩ := directory
    obtain ⟨children', found'⟩ := removed.directory n parent children found
    rw [found, found']
    exact ⟨rfl, rfl⟩
  · rw [removed.file n fun parent children found => directory ⟨parent, children, found⟩]
    exact ⟨rfl, rfl⟩

instance : NodeOps.Lawful (Ramfs Unit) where
  remove_error := by
    intro s s' node path e failed
    simp only [NodeOps.remove] at failed
    split at failed
    · cases failed
    · cases failed
      exact ⟨fun _ _ => rfl, fun _ => rfl, fun _ => rfl⟩
  rename_error := by
    intro s s' node src dst e failed
    cases failed
    exact ⟨fun _ _ => rfl, fun _ => rfl, fun _ => rfl⟩
  remove_gone := by
    intro s s' node path removed
    obtain ⟨-, -, -, -, -, e, gone⟩ := remove_removed (nodeRemove_ok removed)
    refine ⟨.ofAxError e, ?_⟩
    change Except.mapError _ _ = _
    rw [gone]
    rfl
  remove_keeps := by
    intro s s' node path file attr removed found attrs isFile other differs
    obtain ⟨dir, name, shown, out, same, -⟩ := remove_removed (nodeRemove_ok removed)
    cases (nodeLookup_ok.mp found).symm.trans same
    have noDir : ∀ parent children, s.nodes file ≠ some (.dir parent children) := by
      intro parent children directory
      simp only [NodeOps.getAttr, directory] at attrs
      cases attrs
      cases isFile
    refine ⟨fun n p held => ?_, out.data other⟩
    exact nodeLookup_ok.mpr (out.lookup_other noDir differs (nodeLookup_ok.mp held))

end Ramfs

namespace FileTree

/-- Nothing is renamed in the RAM file system. -/
theorem rename_unsupported (t : FileTree (Ramfs Unit)) (old new : List Char)
    : ∃ e t', t.rename old new = (.error e, t') := by
  have refused (t : FileTree (Ramfs Unit)) : ∃ e t', t.renameSource old new = (.error e, t') := by
    unfold renameSource renameFrom
    cases t.parentNodeOf old with
    | rootDir =>
        dsimp only
        split
        · exact ⟨_, _, rfl⟩
        · exact ⟨_, _, rfl⟩
    | node n => exact ⟨_, _, rfl⟩
  unfold rename
  split
  · split
    · exact ⟨_, _, rfl⟩
    · exact refused _
  · exact refused t

-----------------------------------------------------------------------------------------
-- Every rename
-----------------------------------------------------------------------------------------

/-- A rename that fails changes nothing, unless the destination is a file that can be removed.
Then this one is removed first, and every other file is where it was. A file that cannot be
removed stays in place when it is renamed to itself.
-/
theorem rename_keeps {W : Type} [NodeOps W] [NodeOps.Lawful W] (t : FileTree W)
    : (∀ old new e t', t.rename old new = (.error e, t')
        → (¬ t.Removable new → t.Unchanged t') ∧ (t.Removable new → t.Lost t' new))
      ∧ ∀ path node, t.lookup path = .ok node → ¬ t.Removable path
        → (t.rename path path).2.lookup path = .ok node
          ∧ NodeOps.content (t.rename path path).2.world node
            = NodeOps.content t.world node := by
  refine ⟨fun old new e t' failed => rename_error failed, fun path node found kept => ?_⟩
  have unchanged := rename_self found kept
  exact ⟨(unchanged.lookup path).trans found, unchanged.content node⟩

/-- A file `/tmp/y` in a RAM file system that is mounted at `/tmp`. -/
def tmpFileNodes : Nat → Option Node
  | 0 => some (.dir none (BTreeMap.empty.insert "tmp".toList 1).2)
  | 1 => some (.dir (some 0) BTreeMap.empty)
  | 2 => some (.dir (some 0) (BTreeMap.empty.insert "y".toList 3).2)
  | 3 => some (.file { content := [7] })
  | _ => none

def tmpFiles : FileTree (Ramfs Unit) where
  world := { nodes := tmpFileNodes, next := 4, call := fun _ => .idle, log := [] }
  mounts := [Vfs.tmpMount]
  currentDir := .rootDir

theorem tmpFiles_sent
    : lookupMountedFs [Vfs.tmpMount] "/tmp/y".toList = (some Vfs.tmpMount, "/y".toList)
      ∧ lookupMountedFs [Vfs.tmpMount] "/tmp/z".toList = (some Vfs.tmpMount, "/z".toList) := by
  refine ⟨?_, ?_⟩
  · rw [lookupMountedFs]
    rfl
  · rw [lookupMountedFs]
    rfl

theorem tmpFiles_lookup
    : tmpFiles.lookup "/tmp/y".toList = .ok 3
      ∧ tmpFiles.lookup "/tmp/z".toList = .error .NotFound := by
  have y : NodeOps.lookup tmpFiles.world 2 "/y".toList = .ok 3 := by
    refine Ramfs.nodeLookup_ok.mpr ?_
    rw [Ramfs.lookup_eq]
    rfl
  have z : NodeOps.lookup tmpFiles.world 2 "/z".toList = .error .NotFound := by
    change Except.mapError _ (Ramfs.lookup ..) = _
    rw [Ramfs.lookup_eq]
    rfl
  constructor
  · rw [lookup, if_neg (by decide)]
    change tmpFiles.lookupFrom _ .rootDir >>= _ = _
    rw [lookupFrom_sent tmpFiles_sent.1]
    exact (congrArg (· >>= _) y).trans rfl
  · rw [lookup, if_neg (by decide)]
    change tmpFiles.lookupFrom _ .rootDir >>= _ = _
    rw [lookupFrom_sent tmpFiles_sent.2]
    exact (congrArg (· >>= _) z).trans rfl

/-- Witness: a destination that does not exist. -/
theorem rename_keeps_missing
    : ∃ e t', tmpFiles.rename "/tmp/y".toList "/tmp/z".toList = (.error e, t')
      ∧ tmpFiles.Unchanged t' := by
  obtain ⟨e, t', failed⟩ := rename_unsupported tmpFiles "/tmp/y".toList "/tmp/z".toList
  refine ⟨e, t', failed, ((rename_keeps tmpFiles).1 _ _ e t' failed).1 ?_⟩
  rintro ⟨node, attr, w, found, -⟩
  rw [tmpFiles_lookup.2] at found
  cases found

theorem tmpFiles_removable : tmpFiles.Removable "/tmp/y".toList := by
  have removed : ∃ w, NodeOps.remove tmpFiles.world 2 "/y".toList = (.ok (), w) := by
    simp only [NodeOps.remove]
    rw [Ramfs.remove]
    exact ⟨_, rfl⟩
  obtain ⟨w, removed⟩ := removed
  refine ⟨3, ⟨false, true⟩, w, tmpFiles_lookup.1, rfl, rfl, rfl, ?_⟩
  exact (removeFrom_sent tmpFiles_sent.1 (by decide)).trans removed

/-- A file is lost when a missing one is to be renamed to it, and when it is renamed to itself,
both in a file system that does not rename at all.
-/
theorem rename_loses_destination
    : tmpFiles.lookup "/tmp/y".toList = .ok 3
      ∧ ∀ old ∈ ["/tmp/x".toList, "/tmp/y".toList],
        ∃ e e' t', tmpFiles.rename old "/tmp/y".toList = (.error e, t')
          ∧ t'.lookup "/tmp/y".toList = .error e' := by
  refine ⟨tmpFiles_lookup.1, fun old _ => ?_⟩
  obtain ⟨e, t', failed⟩ := rename_unsupported tmpFiles old "/tmp/y".toList
  obtain ⟨e', gone⟩ := ((rename_error failed).2 tmpFiles_removable).gone
  exact ⟨e, e', t', failed, gone⟩

end FileTree
end RCoreOS.Axfs
