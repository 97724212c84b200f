import RCoreOS.Axfs.File
import RCoreOS.Lib.BTreeMap
import RCoreOS.Lib.KeyLog
import RCoreOS.Lib.Outcome
import RCoreOS.Lib.Transition
import Mathlib.Data.Char
import Mathlib.Data.List.Lex
import Mathlib.Logic.Function.Basic

/-! Directories of the RAM file system under any number of tasks. A create checks for the
name under one acquisition of the children lock and inserts the node under a later one; a
remove and a lookup hold the lock throughout.
-/

namespace RCoreOS.Axfs

inductive VfsNodeType where
  | Fifo
  | CharDevice
  | Dir
  | BlockDevice
  | File
  | SymLink
  | Socket
deriving DecidableEq, Repr

/-- A node of the RAM file system; nodes refer to each other by their number. -/
inductive Node where
  | file (node : FileNode)
  | interrupts
  | dir (parent : Option Nat) (children : BTreeMap (List Char) Nat)

/-- `split_path`: the first name of a path, and the rest when there is one. -/
def splitPath (path : List Char) : List Char × Option (List Char) :=
  let trimmedPath := path.dropWhile (· = '/')
  match trimmedPath.dropWhile (· ≠ '/') with
  | [] => (trimmedPath, none)
  | _ :: rest => (trimmedPath.takeWhile (· ≠ '/'), some rest)

/-- The names that stand for the directory itself. -/
def selfName (name : List Char) : Bool :=
  name = [] || name = ['.']

def parentName (name : List Char) : Bool :=
  name = ['.', '.']

inductive Operation where
  | create (ty : VfsNodeType)
  | remove
  | lookup
deriving DecidableEq, Repr

/-- Where a task is in a call on some directory. -/
inductive DirCall where
  | idle
  /-- Before the next look at a node, with the path from there on. -/
  | walking (op : Operation) (node : Nat) (path : List Char)
  /-- In `create_node`, after the check for the name and before the insertion. -/
  | building (dir : Nat) (name : List Char) (isDir : Bool)
deriving DecidableEq, Repr

/-- A RAM file system, the calls of all tasks, and the log of the entries of all directories.
Nodes get fresh numbers.
-/
structure Ramfs (Task : Type) where
  nodes : Nat → Option Node
  next : Nat
  call : Task → DirCall
  log : List (KeyLog.Change (Nat × List Char) Nat)

namespace Ramfs

variable {Task : Type} [DecidableEq Task]

/-- `RamFileSystem::new`: the empty root directory. -/
def new : Ramfs Task where
  nodes := fun n => if n = 0 then some (.dir none BTreeMap.empty) else none
  next := 1
  call := fun _ => .idle
  log := []

/-- The node that a directory shows under a name. -/
def child (s : Ramfs Task) (dir : Nat) (name : List Char) : Option Nat :=
  match s.nodes dir with
  | some (.dir _ children) => children.get name
  | _ => none

def exist (s : Ramfs Task) (dir : Nat) (name : List Char) : Bool :=
  (s.child dir name).isSome

def setCall (s : Ramfs Task) (t : Task) (call : DirCall) : Ramfs Task :=
  { s with call := Function.update s.call t call }

/-- The first part of `create_node`, up to the node it builds. -/
def createNode (s : Ramfs Task) (t : Task) (dir : Nat) (name : List Char) (ty : VfsNodeType)
    : Except AxError (Ramfs Task) :=
  if s.exist dir name then .error .AlreadyExists
  else
    match ty with
    | .File => .ok (s.setCall t (.building dir name false))
    | .Dir => .ok (s.setCall t (.building dir name true))
    | _ => .error .Unsupported

/-- The node that `create_node` builds. -/
def buildNode (dir : Nat) (name : List Char) (isDir : Bool) : Node :=
  if isDir then .dir (some dir) BTreeMap.empty
  else if name = "interrupts".toList then .interrupts
  else .file .new

/-- The last part of `create_node`, under the write lock of the children. -/
def insertNode (s : Ramfs Task) (t : Task) (dir : Nat) (name : List Char) (isDir : Bool)
    : Ramfs Task :=
  match s.nodes dir with
  | some (.dir parent children) =>
      let built := Function.update s.nodes s.next (some (buildNode dir name isDir))
      { s.setCall t .idle with
        nodes := Function.update built dir
          (some (.dir parent (children.insert name s.next).2))
        next := s.next + 1
        log := s.log ++ [.added (dir, name) s.next] }
  | _ => s

/-- `remove_node`, under the write lock of the children. -/
def removeNode (s : Ramfs Task) (t : Task) (dir : Nat) (name : List Char)
    : Except AxError (Ramfs Task) :=
  match s.nodes dir with
  | some (.dir parent children) =>
      match children.get name with
      | none => .error .NotFound
      | some node =>
          match s.nodes node with
          | some (.dir _ ⟨_ :: _, _⟩) => .error .DirectoryNotEmpty
          | _ =>
              .ok { s.setCall t .idle with
                nodes := Function.update s.nodes dir (some (.dir parent (children.remove name).2))
                log := s.log ++ [.removed (dir, name)] }
  | _ => .error .NotADirectory

/-- The node that a name of a path leads to. `upgraded` tells whether the parent, to which a
directory has only a weak reference, still exists.
-/
def lookupName (s : Ramfs Task) (upgraded : Bool) (node : Nat) (name : List Char)
    : Except AxError Nat :=
  match s.nodes node with
  | some (.dir parent children) =>
      if selfName name then .ok node
      else if parentName name then
        match parent with
        | some parent => if upgraded then .ok parent else .error .NotFound
        | none => .error .NotFound
      else
        match children.get name with
        | some child => .ok child
        | none => .error .NotFound
  | _ => .error .NotADirectory

/-- What `create`, `remove` and `lookup` do with one name of their path. The call is over
after an error, and after a lookup of the last name.
-/
def walk (s : Ramfs Task) (t : Task) (upgraded : Bool) (op : Operation) (node : Nat)
    (path : List Char)
    : Except AxError (Ramfs Task) :=
  let (name, rest) := splitPath path
  match rest with
  | some rest => do
      let next ← s.lookupName upgraded node name
      .ok (s.setCall t (.walking op next rest))
  | none =>
      match s.nodes node with
      | some (.dir ..) =>
          match op with
          | .create ty =>
              -- already exists
              if selfName name || parentName name then .ok (s.setCall t .idle)
              else s.createNode t node name ty
          | .remove =>
              if selfName name || parentName name then .error .InvalidInput
              else s.removeNode t node name
          | .lookup => do
              let _ ← s.lookupName upgraded node name
              .ok (s.setCall t .idle)
      | _ => .error .NotADirectory

/-- One acquisition of a children lock by a task. -/
inductive Step (s : Ramfs Task) (t : Task) : Ramfs Task → Prop
  | call (op node path)
    : s.call t = .idle → Step s t (s.setCall t (.walking op node path))
  | walk (upgraded) {op node path s'}
    : s.call t = .walking op node path → s.walk t upgraded op node path = .ok s' → Step s t s'
  | failed (upgraded) {op node path e}
    : s.call t = .walking op node path → s.walk t upgraded op node path = .error e →
      Step s t (s.setCall t .idle)
  | insert {dir name isDir}
    : s.call t = .building dir name isDir → Step s t (s.insertNode t dir name isDir)

/-- The states of any run. -/
abbrev Reachable (s : Ramfs Task) : Prop :=
  Transition.Reachable (· = new) (fun s s' => ∃ t, Step s t s') s

/-- If `t` is about to insert a node, then its name is still free. -/
def Free (s : Ramfs Task) (t : Task) : Prop :=
  ∀ dir name isDir, s.call t = .building dir name isDir → s.child dir name = none

/-- One step of a run in which each create still finds its name free when it inserts. -/
def FreeStep (s s' : Ramfs Task) : Prop :=
  ∃ t, Step s t s' ∧ s.Free t

/-- The states of runs in which each create still finds its name free when it inserts. -/
abbrev Undisturbed (s : Ramfs Task) : Prop :=
  Transition.Reachable (· = new) FreeStep s

-----------------------------------------------------------------------------------------
-- What a step does to the entries
-----------------------------------------------------------------------------------------

/-- The entry of `dir` under `name` becomes `entry`, all others stay. -/
def SetsChild (s s' : Ramfs Task) (dir : Nat) (name : List Char) (entry : Option Nat) : Prop :=
  ∀ dir' name',
    s'.child dir' name' = if (dir, name) = (dir', name') then entry else s.child dir' name'

/-- Everything a step can do to the entries: nothing, or a create that is about to insert
adds one, or one goes.
-/
inductive Effect (s : Ramfs Task) (t : Task) (s' : Ramfs Task) : Prop
  | none
    : s'.log = s.log → (∀ dir name, s'.child dir name = s.child dir name) → s.Free t →
      Effect s t s'
  | added (dir name isDir)
    : s'.log = s.log ++ [.added (dir, name) s.next] →
      SetsChild s s' dir name (some s.next) → s.call t = .building dir name isDir →
      Effect s t s'
  | removed (dir name)
    : s'.log = s.log ++ [.removed (dir, name)] → SetsChild s s' dir name .none → s.Free t →
      Effect s t s'

/-- The log tells the entries, and the numbers from `next` on are not in use. -/
structure Logged (s : Ramfs Task) : Prop where
  fresh : ∀ n, s.next ≤ n → s.nodes n = none
  entries : ∀ dir name, KeyLog.current s.log (dir, name) = s.child dir name

variable {s s' : Ramfs Task} {t : Task}

omit [DecidableEq Task] in
theorem new_logged : (new : Ramfs Task).Logged where
  fresh := by
    intro n used
    exact if_neg (Nat.ne_of_gt used)
  entries := by
    intro dir name
    simp only [new, child, KeyLog.current]
    split
    · next found =>
        split at found <;> cases found
        exact (BTreeMap.get_empty name).symm
    · rfl

omit [DecidableEq Task] in
theorem child_of_dir {dir : Nat} {parent : Option Nat} {children : BTreeMap (List Char) Nat}
    (found : s.nodes dir = some (.dir parent children)) (name : List Char)
    : s.child dir name = children.get name := by
  rw [child, found]

omit [DecidableEq Task] in
theorem child_congr {dir : Nat} (same : s'.nodes dir = s.nodes dir) (name : List Char)
    : s'.child dir name = s.child dir name := by
  rw [child, same, child]

omit [DecidableEq Task] in
/-- A new node has no entries. -/
theorem buildNode_child {dir : Nat} {built : List Char} {isDir : Bool} {node : Nat}
    (found : s.nodes node = some (buildNode dir built isDir)) (name : List Char)
    : s.child node name = none := by
  unfold buildNode at found
  cases isDir with
  | true => exact (child_of_dir found name).trans (BTreeMap.get_empty name)
  | false =>
      rw [if_neg Bool.false_ne_true] at found
      unfold child
      split at found <;> rw [found]

omit [DecidableEq Task] in
theorem free_of_call (other : ∀ dir name isDir, s.call t ≠ .building dir name isDir)
    : s.Free t :=
  fun dir name isDir building => absurd building (other dir name isDir)

theorem insertNode_eq {dir : Nat} {parent : Option Nat} {children : BTreeMap (List Char) Nat}
    (found : s.nodes dir = some (.dir parent children)) (name : List Char) (isDir : Bool)
    : s.insertNode t dir name isDir
      = { s.setCall t .idle with
        nodes := Function.update
          (Function.update s.nodes s.next (some (buildNode dir name isDir))) dir
          (some (.dir parent (children.insert name s.next).2))
        next := s.next + 1
        log := s.log ++ [.added (dir, name) s.next] } := by
  rw [insertNode, found]

/-- An insertion adds the entry; the new node has none. -/
theorem insertNode_effect (fresh : s.nodes s.next = none) {dir : Nat} {name : List Char}
    {isDir : Bool} (building : s.call t = .building dir name isDir)
    : Effect s t (s.insertNode t dir name isDir) := by
  by_cases directory : ∃ parent children, s.nodes dir = some (.dir parent children)
  · obtain ⟨parent, children, found⟩ := directory
    rw [insertNode_eq found]
    refine .added dir name isDir rfl ?_ building
    intro dir' name'
    by_cases same : dir' = dir
    · subst same
      rw [child_of_dir (Function.update_self ..), BTreeMap.get_insert, child_of_dir found]
      grind
    · have apart : (dir, name) ≠ (dir', name') :=
        fun pair => same (congrArg Prod.fst pair).symm
      rw [if_neg apart]
      by_cases new : dir' = s.next
      · subst new
        rw [buildNode_child ((Function.update_of_ne same ..).trans (Function.update_self ..)),
          child, fresh]
      · exact child_congr
          ((Function.update_of_ne same ..).trans (Function.update_of_ne new ..)) name'
  · have kept : s.insertNode t dir name isDir = s := by
      unfold insertNode
      split
      · next parent children found => exact absurd ⟨parent, children, found⟩ directory
      · rfl
    rw [kept]
    refine .none rfl (fun _ _ => rfl) ?_
    intro dir' name' isDir' building'
    rw [building] at building'
    cases building'
    unfold child
    split
    · next parent children found => exact absurd ⟨parent, children, found⟩ directory
    · rfl

theorem setCall_effect (free : s.Free t) (call : DirCall) : Effect s t (s.setCall t call) :=
  .none rfl (fun _ name => child_congr rfl name) free

/-- A removal that succeeds takes the entry away from a directory. -/
theorem removeNode_eq {dir : Nat} {name : List Char}
    (removed : s.removeNode t dir name = .ok s')
    : ∃ parent children, s.nodes dir = some (.dir parent children)
      ∧ s' = { s.setCall t .idle with
        nodes := Function.update s.nodes dir (some (.dir parent (children.remove name).2))
        log := s.log ++ [.removed (dir, name)] } := by
  unfold removeNode at removed
  split at removed
  · next parent children found =>
      split at removed
      · cases removed
      · split at removed
        · cases removed
        · cases removed
          exact ⟨parent, children, found, rfl⟩
  · cases removed

theorem removeNode_effect {dir : Nat} {name : List Char} (free : s.Free t)
    (removed : s.removeNode t dir name = .ok s')
    : Effect s t s' := by
  obtain ⟨parent, children, found, rfl⟩ := removeNode_eq removed
  refine .removed dir name rfl ?_ free
  intro dir' name'
  by_cases same : dir' = dir
  · subst same
    rw [child_of_dir (Function.update_self ..), BTreeMap.get_remove, child_of_dir found]
    grind
  · have apart : (dir, name) ≠ (dir', name') :=
      fun pair => same (congrArg Prod.fst pair).symm
    rw [if_neg apart]
    exact child_congr (Function.update_of_ne same ..) name'

/-- The part of a create before the insertion only checks that the name is free. -/
theorem createNode_eq {dir : Nat} {name : List Char} {ty : VfsNodeType}
    (created : s.createNode t dir name ty = .ok s')
    : s.child dir name = none ∧ ∃ isDir, s' = s.setCall t (.building dir name isDir) := by
  unfold createNode at created
  split at created
  · cases created
  · next absent =>
      have free : s.child dir name = none := by
        simpa [exist] using absent
      cases ty <;> cases created
      · exact ⟨free, true, rfl⟩
      · exact ⟨free, false, rfl⟩

/-- Everything one look at a node can do: the call goes on or ends, or a create has found its
name free, or a remove takes an entry away.
-/
theorem walk_cases {upgraded : Bool} {op : Operation} {node : Nat} {path : List Char}
    (walked : s.walk t upgraded op node path = .ok s')
    : (∃ call, (∀ dir name isDir, call ≠ .building dir name isDir) ∧ s' = s.setCall t call)
      ∨ (∃ name isDir, s.child node name = none
        ∧ s' = s.setCall t (.building node name isDir))
      ∨ ∃ name, s.removeNode t node name = .ok s' := by
  unfold walk at walked
  generalize splitPath path = parts at walked
  obtain ⟨name, rest⟩ := parts
  cases rest with
  | some rest =>
      obtain ⟨next, -, ok⟩ := Outcome.bind_eq_ok.mp walked
      cases ok
      exact .inl ⟨.walking op next rest, by simp, rfl⟩
  | none =>
      simp only at walked
      split at walked
      · split at walked
        · split at walked
          · cases walked
            exact .inl ⟨.idle, by simp, rfl⟩
          · obtain ⟨free, isDir, rfl⟩ := createNode_eq walked
            exact .inr (.inl ⟨name, isDir, free, rfl⟩)
        · split at walked
          · cases walked
          · exact .inr (.inr ⟨name, walked⟩)
        · obtain ⟨_, -, ok⟩ := Outcome.bind_eq_ok.mp walked
          cases ok
          exact .inl ⟨.idle, by simp, rfl⟩
      · cases walked

theorem Step.effect (fresh : s.nodes s.next = none) (step : Step s t s') : Effect s t s' := by
  cases step with
  | call op node path idle =>
      exact setCall_effect (free_of_call (by simp [idle])) _
  | walk upgraded walking walked =>
      have free : s.Free t := free_of_call (by simp [walking])
      obtain ⟨call, -, rfl⟩ | ⟨name, isDir, -, rfl⟩ | ⟨name, removed⟩ := walk_cases walked
      · exact setCall_effect free call
      · exact setCall_effect free _
      · exact removeNode_effect free removed
  | failed upgraded walking _ => exact setCall_effect (free_of_call (by simp [walking])) _
  | insert building => exact insertNode_effect fresh building

/-- Numbers that are not in use stay so, but for the one of a new node. -/
theorem Step.fresh (fresh : ∀ n, s.next ≤ n → s.nodes n = none) (step : Step s t s')
    : ∀ n, s'.next ≤ n → s'.nodes n = none := by
  have used : ∀ {dir parent children}, s.nodes dir = some (.dir parent children) →
      ∀ n, s.next ≤ n → n ≠ dir := by
    rintro dir parent children found n free rfl
    rw [fresh n free] at found
    cases found
  cases step with
  | call => exact fresh
  | walk upgraded walking walked =>
      obtain ⟨call, -, rfl⟩ | ⟨name, isDir, -, rfl⟩ | ⟨name, removed⟩ := walk_cases walked
      · exact fresh
      · exact fresh
      · obtain ⟨parent, children, found, rfl⟩ := removeNode_eq removed
        intro n free
        exact (Function.update_of_ne (used found n free) ..).trans (fresh n free)
  | failed => exact fresh
  | @insert dir name isDir building =>
      by_cases directory : ∃ parent children, s.nodes dir = some (.dir parent children)
      · obtain ⟨parent, children, found⟩ := directory
        rw [insertNode_eq found]
        intro n free
        have below : s.next < n := free
        exact (Function.update_of_ne (used found n below.le) ..).trans
          ((Function.update_of_ne below.ne' ..).trans (fresh n below.le))
      · have kept : s.insertNode t dir name isDir = s := by
          unfold insertNode
          split
          · next parent children found => exact absurd ⟨parent, children, found⟩ directory
          · rfl
        rwa [kept]

/-- The log keeps telling the entries. -/
theorem Step.logged (logged : s.Logged) (step : Step s t s') : s'.Logged := by
  refine ⟨step.fresh logged.fresh, ?_⟩
  intro dir name
  cases step.effect (logged.fresh _ le_rfl) with
  | none log child _ => rw [log, child, logged.entries]
  | added dir' name' _ log sets =>
      rw [log, KeyLog.current_snoc, KeyLog.apply_added, sets, logged.entries]
  | removed dir' name' log sets =>
      rw [log, KeyLog.current_snoc, KeyLog.apply_removed, sets, logged.entries]

/-- A step keeps creates exclusive exactly when a create that inserts finds its name free. -/
theorem Step.exclusive_iff (logged : s.Logged) (exclusive : KeyLog.Exclusive s.log)
    (step : Step s t s')
    : KeyLog.Exclusive s'.log ↔ s.Free t := by
  cases step.effect (logged.fresh _ le_rfl) with
  | none log _ free =>
      rw [log]
      exact iff_of_true exclusive free
  | removed dir name log _ free =>
      rw [log]
      exact iff_of_true (exclusive.removed (dir, name)) free
  | added dir name isDir log _ building =>
      rw [log]
      have entry := logged.entries dir name
      cases found : s.child dir name with
      | none =>
          rw [found] at entry
          refine iff_of_true (exclusive.added entry s.next) ?_
          intro dir' name' isDir' building'
          rw [building] at building'
          cases building'
          exact found
      | some node =>
          rw [found] at entry
          refine iff_of_false (KeyLog.not_exclusive entry) ?_
          intro free
          have none := free dir name isDir building
          rw [found] at none
          cases none

-----------------------------------------------------------------------------------------
-- Runs
-----------------------------------------------------------------------------------------

theorem Undisturbed.invariant (run : Undisturbed s) : s.Logged ∧ KeyLog.Exclusive s.log := by
  refine Transition.Reachable.invariant (fun s => s.Logged ∧ KeyLog.Exclusive s.log) ?_ ?_ run
  · rintro _ rfl
    exact ⟨new_logged, KeyLog.exclusive_nil⟩
  · rintro s s' ⟨logged, exclusive⟩ ⟨t, step, free⟩
    exact ⟨step.logged logged, (step.exclusive_iff logged exclusive).mpr free⟩

/-- Runs extend the log. -/
theorem log_prefix (run : Undisturbed s) (later : Relation.ReflTransGen FreeStep s s')
    : s.log <+: s'.log := by
  induction later with
  | refl => exact List.prefix_rfl
  | tail more step ih =>
      obtain ⟨t, step, -⟩ := step
      obtain ⟨first, initial, before⟩ := run
      have logged := (Undisturbed.invariant ⟨first, initial, before.trans more⟩).1
      cases step.effect (logged.fresh _ le_rfl) with
      | none log _ _ => exact log ▸ ih
      | added _ _ _ log _ _ => exact log ▸ ih.trans (List.prefix_append ..)
      | removed _ _ log _ _ => exact log ▸ ih.trans (List.prefix_append ..)

/-- Every run in which each create finds its name free when it inserts has a removal between
two creates of a name, and replaces no node under a name without a removal; the first insertion
that finds its name taken breaks this.
-/
theorem creates_exclusive (run : Undisturbed s)
    (later : Relation.ReflTransGen FreeStep s s')
    : KeyLog.Exclusive s'.log
      ∧ (∀ dir name node node', s.child dir name = some node →
        s'.child dir name = some node' → node' ≠ node →
          .removed (dir, name) ∈ s'.log.drop s.log.length)
      ∧ ∀ t s'', Step s' t s'' → (KeyLog.Exclusive s''.log ↔ s'.Free t) := by
  have logged := run.invariant.1
  obtain ⟨first, initial, before⟩ := run
  obtain ⟨logged', exclusive⟩ := Undisturbed.invariant ⟨first, initial, before.trans later⟩
  refine ⟨exclusive, ?_, fun t s'' step => step.exclusive_iff logged' exclusive⟩
  intro dir name node node' found found' other
  obtain ⟨more, split⟩ := log_prefix ⟨first, initial, before⟩ later
  rw [← logged.entries] at found
  rw [← logged'.entries] at found'
  rw [← split] at exclusive found' ⊢
  rw [List.drop_left]
  by_contra kept
  exact other (exclusive.kept found found' kept)

/-- Two creates of one file that both check before either inserts. -/
theorem create_replaces
    : ¬ ∀ s : Ramfs Bool, Reachable s → KeyLog.Exclusive s.log := by
  intro all
  have run : Reachable (new : Ramfs Bool) := .start rfl
  have call := run.next ⟨true, .call (.create .File) 0 ['f'] rfl⟩
  have check := call.next ⟨true, .walk true rfl rfl⟩
  have call' := check.next ⟨false, .call (.create .File) 0 ['f'] rfl⟩
  have check' := call'.next ⟨false, .walk true rfl rfl⟩
  have inserted := check'.next ⟨true, .insert rfl⟩
  have replaced := inserted.next ⟨false, .insert rfl⟩
  have exclusive := all _ replaced
  have removed := exclusive [] (0, ['f']) 1 [] 2 [] rfl
  cases removed

/-- One create of a file and a second one, which is refused. -/
theorem creates_exclusive_in_turn
    : ∃ s : Ramfs Bool, s.child 0 ['f'] = some 1 ∧ KeyLog.Exclusive s.log := by
  have run : Undisturbed (new : Ramfs Bool) := .start rfl
  have call := run.next
    ⟨true, .call (.create .File) 0 ['f'] rfl, free_of_call fun _ _ _ h => by cases h⟩
  have check := call.next ⟨true, .walk true rfl rfl, free_of_call fun _ _ _ h => by cases h⟩
  have inserted := check.next ⟨true, .insert rfl, fun _ _ _ building => by cases building; rfl⟩
  have call' := inserted.next
    ⟨false, .call (.create .File) 0 ['f'] rfl, free_of_call fun _ _ _ h => by cases h⟩
  have refused := call'.next
    ⟨false, .failed true rfl rfl, free_of_call fun _ _ _ h => by cases h⟩
  exact ⟨_, rfl, (creates_exclusive refused .refl).1⟩

/-- If `t` is about to insert a node, then nobody else builds one of this name. -/
def Alone (s : Ramfs Task) (t : Task) : Prop :=
  ∀ dir name isDir, s.call t = .building dir name isDir →
    ∀ u isDir', s.call u = .building dir name isDir' → u = t

/-- A step changes only its own task's call, and a create that goes on to build has found its
name free.
-/
theorem Step.calls (step : Step s t s')
    : (∀ u, u ≠ t → s'.call u = s.call u)
      ∧ ∀ dir name isDir, s'.call t = .building dir name isDir →
        s'.child dir name = none ∨ s' = s := by
  have setCall : ∀ call u, u ≠ t → (s.setCall t call).call u = s.call u :=
    fun call u other => Function.update_of_ne other ..
  have own : ∀ call, (s.setCall t call).call t = call := fun call => Function.update_self ..
  cases step with
  | call op node path _ =>
      refine ⟨setCall _, ?_⟩
      intro dir name isDir building
      cases (own _).symm.trans building
  | walk upgraded walking walked =>
      obtain ⟨call, other, rfl⟩ | ⟨name, isDir, free, rfl⟩ | ⟨name, removed⟩ :=
        walk_cases walked
      · refine ⟨setCall call, ?_⟩
        intro dir name isDir building
        exact absurd ((own call).symm.trans building) (other dir name isDir)
      · refine ⟨setCall _, ?_⟩
        intro dir name' isDir' building
        cases (own _).symm.trans building
        exact .inl free
      · obtain ⟨parent, children, -, rfl⟩ := removeNode_eq removed
        refine ⟨setCall .idle, ?_⟩
        intro dir name isDir building
        cases (own .idle).symm.trans building
  | failed =>
      refine ⟨setCall _, ?_⟩
      intro dir name isDir building
      cases (own _).symm.trans building
  | insert building =>
      unfold insertNode
      split
      · refine ⟨setCall .idle, ?_⟩
        intro dir name isDir building
        cases (own .idle).symm.trans building
      · exact ⟨fun _ _ => rfl, fun _ _ _ _ => .inr rfl⟩

/-- Where no two creates of a name are between check and insertion at once, each finds its
name free.
-/
theorem free_of_alone
    (run : Transition.Reachable (· = new) (fun s s' => ∃ t, Step s t s' ∧ s.Alone t) s)
    : ∀ t, s.Free t := by
  refine (Transition.Reachable.invariant (fun s => s.Logged ∧ ∀ t, s.Free t) ?_ ?_ run).2
  · rintro _ rfl
    exact ⟨new_logged, fun t => free_of_call (by simp [new])⟩
  · rintro s s' ⟨logged, free⟩ ⟨t, step, alone⟩
    refine ⟨step.logged logged, ?_⟩
    intro u dir name isDir building
    obtain ⟨others, own⟩ := step.calls
    by_cases same : u = t
    · subst same
      obtain absent | rfl := own dir name isDir building
      · exact absent
      · exact free u dir name isDir building
    · rw [others u same] at building
      have absent := free u dir name isDir building
      cases step.effect (logged.fresh _ le_rfl) with
      | none _ child _ => rw [child, absent]
      | removed dir' name' _ sets _ =>
          rw [sets, absent, ite_self]
      | added dir' name' isDir' _ sets building' =>
          have apart : (dir', name') ≠ (dir, name) := by
            intro pair
            cases pair
            exact same (alone dir name isDir' building' u isDir building)
          rw [sets, if_neg apart, absent]

end Ramfs

end RCoreOS.Axfs
