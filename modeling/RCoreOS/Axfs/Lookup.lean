import RCoreOS.Axfs.Canonical
import Mathlib.Data.List.TakeWhile

/-! Lookups in the RAM file system: following the nodes along a path leads to the same place
as following the names of its canonical form.
-/

namespace RCoreOS.Axfs

open Axtask (canonicalize)

namespace Ramfs

variable {Task : Type}

/-- The parent that a directory has a weak reference to. -/
def weakParent (s : Ramfs Task) (node : Nat) : Option Nat :=
  match s.nodes node with
  | some (.dir parent _) => parent
  | _ => none

/-- `VfsNodeOps::parent`, where `alive` tells the nodes that still have a strong reference. -/
def parent (s : Ramfs Task) (alive : Nat → Bool) (node : Nat) : Option Nat :=
  (s.weakParent node).filter alive

def lookupPart (s : Ramfs Task) (alive : Nat → Bool) (node : Nat) (name : List Char)
    : Except AxError Nat :=
  s.lookupName ((s.weakParent node).any alive) node name

/-- The rest of a path is shorter than the path. -/
theorem splitPath_shorter {path name rest : List Char} (split : splitPath path = (name, some rest))
    : rest.length < path.length := by
  unfold splitPath at split
  dsimp only at split
  split at split
  · cases split
  next c tail found =>
    cases split
    have trimmed := (path.dropWhile_suffix (· = '/')).length_le
    have after := ((path.dropWhile (· = '/')).dropWhile_suffix (· ≠ '/')).length_le
    rw [found, List.length_cons] at after
    omega

/-- `VfsNodeOps::lookup`, from a node on. -/
def lookup (s : Ramfs Task) (alive : Nat → Bool) (node : Nat) (path : List Char)
    : Except AxError Nat :=
  match _ : splitPath path with
  | (name, none) => s.lookupPart alive node name
  | (name, some rest) => do
      let next ← s.lookupPart alive node name
      s.lookup alive next rest
termination_by path.length
decreasing_by exact splitPath_shorter ‹_›

/-- The node that entries lead to from a node on. -/
def follow (s : Ramfs Task) (node : Nat) (names : List (List Char)) : Option Nat :=
  names.foldlM s.child node

/-- A node that can be reached through entries. -/
def Within (s : Ramfs Task) (root node : Nat) : Prop :=
  ∃ names, s.follow root names = some node

/-- The directory that shows a directory is its parent. -/
def Parented (s : Ramfs Task) : Prop :=
  ∀ dir name node parent children,
    s.child dir name = some node → s.nodes node = some (.dir parent children) →
      parent = some dir

/-- No node is shown by two directories. -/
def Single (s : Ramfs Task) : Prop :=
  ∀ dir name dir' name' node,
    s.child dir name = some node → s.child dir' name' = some node → dir = dir'

/-- The root has no parent, and entries show directories that know where they are. -/
structure Tree (s : Ramfs Task) : Prop where
  root : ∃ children, s.nodes 0 = some (.dir none children)
  parented : s.Parented
  single : s.Single
  below : ∀ dir name node, s.child dir name = some node → 0 < node ∧ node < s.next
  fresh : ∀ n, s.next ≤ n → s.nodes n = none

variable {s s' : Ramfs Task} {t : Task} {alive : Nat → Bool} {node next : Nat}
  {names : List (List Char)} {part : List Char}

-----------------------------------------------------------------------------------------
-- One part of a path
-----------------------------------------------------------------------------------------

/-- Only a directory is followed on, even to itself. -/
theorem lookupPart_ok (looked : s.lookupPart alive node part = .ok next)
    : (∃ parent children, s.nodes node = some (.dir parent children))
      ∧ (if selfName part then next = node
        else if parentName part then s.parent alive node = some next
        else s.child node part = some next) := by
  unfold lookupPart lookupName at looked
  split at looked
  next parent children found =>
    refine ⟨⟨parent, children, found⟩, ?_⟩
    have weak : s.weakParent node = parent := by rw [weakParent, found]
    split at looked
    next self =>
      cases looked
      rw [if_pos self]
    next notSelf =>
      rw [if_neg notSelf]
      split at looked
      next up =>
        rw [if_pos up]
        split at looked
        · split at looked
          next upgraded =>
            cases looked
            rw [weak] at upgraded
            rw [Ramfs.parent, weak]
            exact Option.filter_some_pos upgraded
          next => cases looked
        · cases looked
      next notParent =>
        rw [if_neg notParent, child_of_dir found]
        split at looked
        next child held =>
          cases looked
          exact held
        next => cases looked
  next => cases looked

theorem lookupPart_self {parent : Option Nat} {children : BTreeMap (List Char) Nat}
    (directory : s.nodes node = some (.dir parent children)) (self : selfName part = true)
    : s.lookupPart alive node part = .ok node := by
  rw [lookupPart, lookupName, directory]
  exact if_pos self

theorem lookupPart_file (file : ∀ parent children, s.nodes node ≠ some (.dir parent children))
    (part : List Char)
    : s.lookupPart alive node part = .error .NotADirectory := by
  unfold lookupPart lookupName
  split
  next parent children found => exact absurd found (file parent children)
  next => rfl

theorem lookupPart_name (proper : Proper part) (held : s.child node part = some next)
    : s.lookupPart alive node part = .ok next := by
  unfold child at held
  split at held
  next parent children found =>
    rw [lookupPart, lookupName, found]
    dsimp only
    rw [if_neg (by simp [proper.notSelf]), if_neg (by simp [proper.notParent]), held]
  next => cases held

/-- An empty part is skipped in front of another one, which needs a directory as well. -/
theorem lookupPart_skip (parts : List (List Char)) (some : parts ≠ [])
    : ([] :: parts).foldlM (s.lookupPart alive) node = parts.foldlM (s.lookupPart alive) node := by
  rw [List.foldlM_cons]
  by_cases directory : ∃ parent children, s.nodes node = .some (.dir parent children)
  · obtain ⟨parent, children, found⟩ := directory
    rw [lookupPart_self found rfl]
    rfl
  · have file : ∀ parent children, s.nodes node ≠ .some (.dir parent children) :=
      fun parent children found => directory ⟨parent, children, found⟩
    obtain ⟨part, more, rfl⟩ := List.exists_cons_of_ne_nil some
    rw [List.foldlM_cons, lookupPart_file file, lookupPart_file file]
    rfl

-----------------------------------------------------------------------------------------
-- Whole paths
-----------------------------------------------------------------------------------------

theorem splitPath_slash (path : List Char) : splitPath ('/' :: path) = splitPath path := by
  unfold splitPath
  rw [List.dropWhile_cons_of_pos rfl]

/-- A path of one name. -/
theorem splitPath_name {name : List Char} (noSlash : '/' ∉ name)
    : splitPath name = (name, none) := by
  have each : ∀ c ∈ name, decide (c ≠ '/') = true :=
    fun c inside => by simpa using fun same : c = '/' => noSlash (same ▸ inside)
  have trimmed : name.dropWhile (· = '/') = name := by
    rw [List.dropWhile_eq_self_iff]
    intro some
    simpa using each _ (List.getElem_mem some)
  unfold splitPath
  dsimp only
  rw [trimmed, List.dropWhile_eq_nil_iff.mpr each]

/-- A path of a name and more. -/
theorem splitPath_names {name : List Char} (noSlash : '/' ∉ name) (some : name ≠ [])
    (rest : List Char)
    : splitPath (name ++ '/' :: rest) = (name, .some rest) := by
  have each : ∀ c ∈ name, decide (c ≠ '/') = true :=
    fun c inside => by simpa using fun same : c = '/' => noSlash (same ▸ inside)
  have trimmed : (name ++ '/' :: rest).dropWhile (· = '/') = name ++ '/' :: rest := by
    rw [List.dropWhile_eq_self_iff]
    intro inside
    rw [List.getElem_append_left (List.length_pos_iff.mpr some)]
    simpa using each _ (List.getElem_mem (List.length_pos_iff.mpr some))
  unfold splitPath
  dsimp only
  rw [trimmed, List.dropWhile_append_of_pos each, List.takeWhile_append_of_pos each,
    List.dropWhile_cons_of_neg (by decide), List.takeWhile_cons_of_neg (by decide),
    List.append_nil]

/-- A lookup follows the parts of its path one after the other, by induction on the length of
the path.
-/
theorem lookup_eq (s : Ramfs Task) (alive : Nat → Bool) (node : Nat) (path : List Char)
    : s.lookup alive node path = (path.splitOn '/').foldlM (s.lookupPart alive) node := by
  induction length : path.length using Nat.strong_induction_on generalizing path node with
  | _ n ih =>
      by_cases slash : '/' ∈ path
      · obtain ⟨name, rest, rfl, noSlash⟩ := List.eq_append_cons_of_mem slash
        rw [List.length_append, List.length_cons] at length
        by_cases some : name = []
        · subst some
          have skipped : ('/' :: rest).splitOn '/' = [] :: rest.splitOn '/' :=
            List.splitOn_append_cons_self [] rest
          rw [List.nil_append, skipped, lookupPart_skip _ (List.splitOn_ne_nil '/' rest),
            ← ih rest.length (by omega) node rest rfl, lookup, lookup, splitPath_slash]
        · rw [lookup, splitPath_names noSlash some,
            List.splitOn_append_cons_self_of_not_mem noSlash, List.foldlM_cons]
          dsimp only
          congr
          funext next
          exact ih rest.length (by omega) next rest rfl
      · rw [lookup, splitPath_name slash, List.splitOn_eq_singleton slash, List.foldlM_cons]
        dsimp only
        cases s.lookupPart alive node path <;> rfl

-----------------------------------------------------------------------------------------
-- Following names
-----------------------------------------------------------------------------------------

theorem follow_snoc (s : Ramfs Task) (root : Nat) (names : List (List Char)) (name : List Char)
    : s.follow root (names ++ [name]) = (s.follow root names).bind (s.child · name) := by
  rw [follow, List.foldlM_append, follow]
  cases names.foldlM s.child root with
  | none => rfl
  | some node => exact bind_pure (s.child node name)

/-- What names that lead somewhere are made of: they are none, or a directory shows the last. -/
theorem follow_cases {root : Nat} (found : s.follow root names = some node)
    : names = [] ∧ node = root
      ∨ ∃ init last dir, names = init ++ [last] ∧ s.follow root init = some dir
        ∧ s.child dir last = some node := by
  rcases List.eq_nil_or_concat names with rfl | ⟨init, last, rfl⟩
  · cases found
    exact .inl ⟨rfl, rfl⟩
  · rw [List.concat_eq_append, follow_snoc] at found
    obtain ⟨dir, before, held⟩ := Option.bind_eq_some_iff.mp found
    exact .inr ⟨init, last, dir, List.concat_eq_append, before, held⟩

theorem parentName_of_self (self : selfName part = true) : ¬ parentName part = true := by
  intro up
  rw [parentName, decide_eq_true_eq] at up
  rw [up] at self
  cases self

/-- Within the tree of a root, one part of a path leads where its name does in the text. Only a
`..` at the root itself may lead out of the tree.
-/
theorem Parented.lookupPart (parented : s.Parented) {root : Nat}
    (found : s.follow root names = some node)
    (looked : s.lookupPart alive node part = .ok next)
    : if names = [] ∧ parentName part = true then s.parent alive root = some next
      else s.follow root (followPart names part) = some next := by
  obtain ⟨⟨parent, children, directory⟩, leads⟩ := lookupPart_ok looked
  unfold followPart
  split at leads
  next self =>
    rw [if_neg fun up => parentName_of_self self up.2, if_pos self, leads, found]
  next notSelf =>
    rw [if_neg notSelf]
    split at leads
    next up =>
      rw [if_pos up]
      rcases follow_cases found with ⟨rfl, rfl⟩ | ⟨init, last, dir, rfl, before, held⟩
      · rw [if_pos ⟨rfl, up⟩, leads]
      · have here : next = dir := by
          have weak := parented dir last node parent children held directory
          rw [Ramfs.parent, weakParent, directory] at leads
          subst weak
          exact (Option.some.inj (Option.filter_eq_some_iff.mp leads).1).symm
        rw [if_neg (by simp), List.dropLast_concat, here, before]
    next notParent =>
      rw [if_neg fun up => notParent up.2, if_neg notParent, follow_snoc, found]
      exact leads

/-- Looking up names is following entries, by induction on the names. -/
theorem lookup_names (root : Nat) (proper : ∀ name ∈ names, Proper name)
    : names.foldlM (s.lookupPart alive) root = .ok node ↔ s.follow root names = some node := by
  induction names generalizing root with
  | nil =>
      rw [follow, List.foldlM_nil, List.foldlM_nil, Option.pure_def, Option.some.injEq,
        Outcome.pure_eq_ok, Except.ok.injEq]
  | cons name rest ih =>
      have first := proper name (List.mem_cons_self ..)
      have ih (next : Nat) := ih next
        fun name later => proper name (List.mem_cons_of_mem _ later)
      rw [follow, List.foldlM_cons, List.foldlM_cons, Outcome.bind_eq_ok]
      refine Iff.trans (exists_congr fun next => ?_) Option.bind_eq_some_iff.symm
      refine and_congr ⟨fun looked => ?_, lookupPart_name first⟩ (ih next)
      have leads := (lookupPart_ok looked).2
      rwa [if_neg (by simp [first.notSelf]), if_neg (by simp [first.notParent])] at leads

/-- A canonical path leads where its names do. -/
theorem lookup_spelled {isAbsolute : Bool} {clean : List Char} {root : Nat}
    (spells : Spells isAbsolute clean names) {parent : Option Nat}
    {children : BTreeMap (List Char) Nat} (directory : s.nodes root = some (.dir parent children))
    (found : s.follow root names = some node)
    : s.lookup alive root clean = .ok node := by
  obtain ⟨n, split⟩ := spells.splitOn
  have skips (n : Nat) : (List.replicate n []).foldlM (s.lookupPart alive) root = .ok root := by
    induction n with
    | zero => rfl
    | succ n ih =>
        rw [List.replicate_succ, List.foldlM_cons, lookupPart_self directory rfl]
        exact ih
  rw [lookup_eq, split, List.foldlM_append, skips]
  exact (lookup_names _ spells.names_proper).mpr found

-----------------------------------------------------------------------------------------
-- Every tree
-----------------------------------------------------------------------------------------

variable [DecidableEq Task]

omit [DecidableEq Task] in
theorem new_tree : (new : Ramfs Task).Tree where
  root := ⟨BTreeMap.empty, rfl⟩
  parented := by
    intro dir name node parent children held
    rw [← new_logged.entries] at held
    cases held
  single := by
    intro dir name dir' name' node held
    rw [← new_logged.entries] at held
    cases held
  below := by
    intro dir name node held
    rw [← new_logged.entries] at held
    cases held
  fresh := new_logged.fresh

/-- A node that a directory may show. -/
structure Shows (s : Ramfs Task) (dir node : Nat) : Prop where
  positive : 0 < node
  below : node < s.next
  parented : ∀ parent children, s.nodes node = some (.dir parent children) → parent = some dir
  single : ∀ dir' name, s.child dir' name = some node → dir' = dir

omit [DecidableEq Task] in
theorem Tree.shows (tree : s.Tree) {dir : Nat} {name : List Char}
    (held : s.child dir name = some node)
    : s.Shows dir node where
  positive := (tree.below dir name node held).1
  below := (tree.below dir name node held).2
  parented parent children := tree.parented dir name node parent children held
  single dir' name' held' := tree.single dir' name' dir name node held' held

omit [DecidableEq Task] in
/-- A change of the entries of one directory keeps a tree, if it may show the nodes that it
then does.
-/
theorem Tree.setChildren (tree : s.Tree) {dir : Nat} {parent : Option Nat}
    {children children' : BTreeMap (List Char) Nat}
    (found : s.nodes dir = some (.dir parent children))
    (nodes : s'.nodes = Function.update s.nodes dir (some (.dir parent children')))
    (next : s'.next = s.next)
    (shows : ∀ name node, children'.get name = some node → s.Shows dir node)
    : s'.Tree := by
  have itself : s'.nodes dir = some (.dir parent children') := by
    rw [nodes]
    exact Function.update_self ..
  have others (n : Nat) (other : n ≠ dir) : s'.nodes n = s.nodes n := by
    rw [nodes]
    exact Function.update_of_ne other ..
  have shows' (d : Nat) (name : List Char) (node : Nat) (held : s'.child d name = some node)
      : s.Shows d node := by
    by_cases here : d = dir
    · subst here
      rw [child_of_dir itself] at held
      exact shows name node held
    · rw [child_congr (others d here)] at held
      exact tree.shows held
  refine ⟨?_, ?_, ?_, ?_, ?_⟩
  · obtain ⟨c, root⟩ := tree.root
    by_cases here : 0 = dir
    · subst here
      rw [root] at found
      cases found
      exact ⟨children', itself⟩
    · exact ⟨c, (others 0 here).trans root⟩
  · intro d name node p c held directory
    by_cases here : node = dir
    · subst here
      rw [itself] at directory
      cases directory
      exact (shows' d name node held).parented _ _ found
    · exact (shows' d name node held).parented p c ((others node here).symm.trans directory)
  · intro d name d' name' node held held'
    by_cases here : d = dir
    · by_cases here' : d' = dir
      · exact here.trans here'.symm
      · rw [child_congr (others d' here')] at held'
        exact ((shows' d name node held).single d' name' held').symm
    · rw [child_congr (others d here)] at held
      exact (shows' d' name' node held').single d name held
  · intro d name node held
    rw [next]
    exact ⟨(shows' d name node held).positive, (shows' d name node held).below⟩
  · intro n free
    rw [next] at free
    have other : n ≠ dir := by
      rintro rfl
      rw [tree.fresh n free] at found
      cases found
    exact (others n other).trans (tree.fresh n free)

omit [DecidableEq Task] in
/-- A node that no directory shows yet can be built. -/
theorem Tree.build (tree : s.Tree) (dir : Nat) (name : List Char) (isDir : Bool)
    (nodes : s'.nodes = Function.update s.nodes s.next (some (buildNode dir name isDir)))
    (next : s'.next = s.next + 1)
    : s'.Tree := by
  have itself : s'.nodes s.next = some (buildNode dir name isDir) := by
    rw [nodes]
    exact Function.update_self ..
  have others (n : Nat) (other : n ≠ s.next) : s'.nodes n = s.nodes n := by
    rw [nodes]
    exact Function.update_of_ne other ..
  have held (d : Nat) (name : List Char) (node : Nat) (after : s'.child d name = some node)
      : s.child d name = some node := by
    by_cases here : d = s.next
    · subst here
      rw [buildNode_child itself] at after
      cases after
    · rwa [child_congr (others d here)] at after
  have used (d : Nat) (name : List Char) (node : Nat) (after : s'.child d name = some node)
      : node ≠ s.next :=
    Nat.ne_of_lt (tree.below d name node (held d name node after)).2
  refine ⟨?_, ?_, ?_, ?_, ?_⟩
  · obtain ⟨c, root⟩ := tree.root
    have old : 0 ≠ s.next := by
      intro new
      rw [tree.fresh 0 new.ge] at root
      cases root
    exact ⟨c, (others 0 old).trans root⟩
  · intro d name node p c after directory
    rw [others node (used d name node after)] at directory
    exact tree.parented d name node p c (held d name node after) directory
  · intro d name d' name' node after after'
    exact tree.single d name d' name' node (held d name node after) (held d' name' node after')
  · intro d name node after
    have before := tree.below d name node (held d name node after)
    rw [next]
    omega
  · intro n free
    rw [next] at free
    exact (others n (by omega)).trans (tree.fresh n (by omega))

theorem removeNode_tree (tree : s.Tree) {dir : Nat} {name : List Char}
    (removed : s.removeNode t dir name = .ok s')
    : s'.Tree := by
  obtain ⟨parent, children, found, rfl⟩ := removeNode_eq removed
  refine tree.setChildren found rfl rfl fun name' node held => ?_
  rw [BTreeMap.get_remove] at held
  split at held
  · cases held
  · rw [← child_of_dir found] at held
    exact tree.shows held

theorem insertNode_tree (tree : s.Tree) (dir : Nat) (name : List Char) (isDir : Bool)
    : (s.insertNode t dir name isDir).Tree := by
  by_cases directory : ∃ parent children, s.nodes dir = some (.dir parent children)
  · obtain ⟨parent, children, found⟩ := directory
    have other : dir ≠ s.next := by
      rintro rfl
      rw [tree.fresh _ le_rfl] at found
      cases found
    let built : Ramfs Task := { s with
      nodes := Function.update s.nodes s.next (some (buildNode dir name isDir))
      next := s.next + 1 }
    have builtTree : built.Tree := tree.build dir name isDir rfl rfl
    have found' : built.nodes dir = some (.dir parent children) :=
      (Function.update_of_ne other ..).trans found
    rw [insertNode_eq found]
    refine builtTree.setChildren found' rfl rfl fun name' node held => ?_
    rw [BTreeMap.get_insert] at held
    split at held
    · cases held
      have positive : 0 < s.next := by
        obtain ⟨c, root⟩ := tree.root
        refine Nat.pos_of_ne_zero fun zero => ?_
        rw [tree.fresh 0 zero.le] at root
        cases root
      have unshown (d : Nat) (name : List Char) : built.child d name ≠ some s.next := by
        intro shown
        by_cases new : d = s.next
        · subst new
          rw [buildNode_child (Function.update_self ..)] at shown
          cases shown
        · have kept : built.nodes d = s.nodes d := Function.update_of_ne new ..
          rw [child_congr kept] at shown
          exact absurd (tree.below d name _ shown).2 (Nat.lt_irrefl _)
      refine ⟨positive, Nat.lt_succ_self _, fun p c directory => ?_,
        fun d name shown => absurd shown (unshown d name)⟩
      have itself : built.nodes s.next = some (buildNode dir name isDir) :=
        Function.update_self ..
      rw [directory] at itself
      unfold buildNode at itself
      split at itself
      · cases itself
        rfl
      · split at itself
        · cases itself
        · cases itself
    · rw [← child_of_dir found'] at held
      exact builtTree.shows held
  · have kept : s.insertNode t dir name isDir = s := by
      unfold insertNode
      split
      next parent children found => exact absurd ⟨parent, children, found⟩ directory
      next => rfl
    rwa [kept]

/-- Calls by any number of tasks keep a tree. -/
theorem Step.tree (tree : s.Tree) (step : Step s t s') : s'.Tree := by
  cases step with
  | call op node path idle => exact ⟨tree.root, tree.parented, tree.single, tree.below, tree.fresh⟩
  | walk upgraded walking walked =>
      obtain ⟨call, -, rfl⟩ | ⟨name, isDir, -, rfl⟩ | ⟨name, removed⟩ := walk_cases walked
      · exact ⟨tree.root, tree.parented, tree.single, tree.below, tree.fresh⟩
      · exact ⟨tree.root, tree.parented, tree.single, tree.below, tree.fresh⟩
      · exact removeNode_tree tree removed
  | failed => exact ⟨tree.root, tree.parented, tree.single, tree.below, tree.fresh⟩
  | insert building => exact insertNode_tree tree _ _ _

theorem Reachable.tree (reachable : s.Reachable) : s.Tree := by
  refine Transition.Reachable.invariant Tree ?_ ?_ reachable
  · rintro _ rfl
    exact new_tree
  · rintro s s' tree ⟨t, step⟩
    exact step.tree tree

-----------------------------------------------------------------------------------------
-- Lookups
-----------------------------------------------------------------------------------------

omit [DecidableEq Task] in
/-- A walk from a root without a parent ends where the names that are left of its parts lead, by
induction on the parts.
-/
theorem Parented.walk (parented : s.Parented) {root : Nat} {children : BTreeMap (List Char) Nat}
    (top : s.nodes root = some (.dir none children)) {parts : List (List Char)}
    (found : s.follow root names = some node)
    (walked : parts.foldlM (s.lookupPart alive) node = .ok next)
    : s.follow root (parts.foldl followPart names) = some next := by
  induction parts generalizing names node with
  | nil =>
      cases walked
      exact found
  | cons part rest ih =>
      rw [List.foldlM_cons] at walked
      obtain ⟨after, looked, more⟩ := Outcome.bind_eq_ok.mp walked
      have leads := parented.lookupPart found looked
      split at leads
      · rw [Ramfs.parent, weakParent, top] at leads
        cases leads
      · exact ih leads more

omit [DecidableEq Task] in
/-- The parent of a directory other than the root is the directory that shows it. -/
theorem Tree.parent_iff (tree : s.Tree) (counted : ∀ n, s.Within 0 n → alive n = true)
    (within : s.Within 0 node) (other : node ≠ 0) {parent : Option Nat}
    {children : BTreeMap (List Char) Nat} (directory : s.nodes node = some (.dir parent children))
    (dir : Nat)
    : s.parent alive node = some dir ↔ ∃ name, s.child dir name = some node := by
  obtain ⟨names, found⟩ := within
  rcases follow_cases found with ⟨-, root⟩ | ⟨init, last, holder, -, before, held⟩
  · exact absurd root other
  · have weak : parent = some holder :=
      tree.parented holder last node parent children held directory
    have parent : s.parent alive node = some holder := by
      rw [Ramfs.parent, weakParent, directory, weak]
      exact Option.filter_some_pos (counted holder ⟨init, before⟩)
    rw [parent, Option.some.injEq]
    constructor
    · rintro rfl
      exact ⟨last, held⟩
    · rintro ⟨name, held'⟩
      have same := tree.parented dir name node _ children held' directory
      rw [weak] at same
      exact Option.some.inj same

/-- In every tree that calls of any number of tasks make, a path that leads from the root to a
node has a canonical form that does so too, and the parent of a directory is the directory that
shows it. What is within the tree has a strong reference.
-/
theorem lookup_canonicalize (reachable : s.Reachable)
    (counted : ∀ n, s.Within 0 n → alive n = true)
    : (∀ path node, (∀ c ∈ path, c.toNat < 128) → s.lookup alive 0 path = .ok node →
        ∃ clean, canonicalize path = some clean ∧ s.lookup alive 0 clean = .ok node)
      ∧ ∀ node parent children, s.Within 0 node → node ≠ 0 →
        s.nodes node = some (.dir parent children) →
          (s.parent alive node).isSome
          ∧ ∀ dir, s.parent alive node = some dir ↔ ∃ name, s.child dir name = some node := by
  have tree := reachable.tree
  constructor
  · intro path node ascii looked
    obtain ⟨clean, canonical⟩ := canonicalize_ascii ascii
    rw [lookup_eq] at looked
    obtain ⟨children, root⟩ := tree.root
    exact ⟨clean, canonical,
      lookup_spelled (canonicalize_spells canonical) root (tree.parented.walk root rfl looked)⟩
  · intro node parent children within other directory
    have parentIff := tree.parent_iff counted within other directory
    obtain ⟨names, found⟩ := within
    refine ⟨?_, parentIff⟩
    rcases follow_cases found with ⟨-, root⟩ | ⟨init, last, holder, -, -, held⟩
    · exact absurd root other
    · rw [(parentIff holder).mpr ⟨last, held⟩]
      rfl

/-- A directory with a file in it. -/
theorem detour_reachable
    : ∃ s : Ramfs Unit, s.Reachable
        ∧ ("d/../d/.//f".toList.splitOn '/').foldlM (s.lookupPart fun _ => true) 0 = .ok 2
        ∧ s.child 0 ['d'] = some 1
        ∧ ∃ children, s.nodes 1 = some (.dir (some 0) children) := by
  have run : Reachable (new : Ramfs Unit) := .start rfl
  have call := run.next ⟨(), .call (.create .Dir) 0 ['d'] rfl⟩
  have check := call.next ⟨(), .walk true rfl rfl⟩
  have directory := check.next ⟨(), .insert rfl⟩
  have call' := directory.next ⟨(), .call (.create .File) 0 "d/f".toList rfl⟩
  have walk' := call'.next ⟨(), .walk true rfl rfl⟩
  have check' := walk'.next ⟨(), .walk true rfl rfl⟩
  exact ⟨_, check'.next ⟨(), .insert rfl⟩, rfl, rfl, _, rfl⟩

/-- Witness: a file in a directory, looked up on a detour. -/
theorem lookup_canonicalize_detour
    : ∃ s : Ramfs Unit,
        s.lookup (fun _ => true) 0 "d/../d/.//f".toList = .ok 2
        ∧ s.lookup (fun _ => true) 0 "d/f".toList = .ok 2
        ∧ s.parent (fun _ => true) 1 = some 0 := by
  obtain ⟨s, reachable, walked, held, children, directory⟩ := detour_reachable
  have counted (n : Nat) (_ : s.Within 0 n) : (fun _ => true : Nat → Bool) n = true := rfl
  obtain ⟨lookups, parents⟩ := lookup_canonicalize reachable counted
  have looked : s.lookup (fun _ => true) 0 "d/../d/.//f".toList = .ok 2 :=
    (lookup_eq ..).trans walked
  obtain ⟨clean, canonical, same⟩ := lookups _ 2 (by simp) looked
  have spelled : canonicalize "d/../d/.//f".toList = some "d/f".toList := by decide
  rw [spelled] at canonical
  cases canonical
  have within : s.Within 0 1 := ⟨[['d']], by rw [follow, List.foldlM_cons, held]; rfl⟩
  exact ⟨s, looked, same,
    ((parents 1 (some 0) children within (by decide) directory).2 0).mpr ⟨['d'], held⟩⟩

end Ramfs

end RCoreOS.Axfs
