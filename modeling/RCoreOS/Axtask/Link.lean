import RCoreOS.Axtask.FilePath
import RCoreOS.Lib.Transition

/-! The table of links: a map from a path of the user to the real file, and a second map that
counts the links of each real file.
-/

namespace RCoreOS.Axtask

/-- Assertions and unwraps of the link table that can fail. -/
inductive LinkPanic where
  /-- `remove_link`: "before removing, the link count should > 0". -/
  | countNotPositive
  /-- `get_link_count`: the target of a link has no count. -/
  | countMissing
deriving DecidableEq, Repr

/-- The two maps and the files that `remove_file` has been called on. -/
structure LinkTable where
  linkPathMap : BTreeMap (List Char) (List Char)
  linkCountMap : BTreeMap (List Char) Nat
  removeFileCalls : List (List Char)

namespace LinkTable

/-- Both maps as the kernel starts with them. -/
def new : LinkTable where
  linkPathMap := .empty
  linkCountMap := .empty
  removeFileCalls := []

/-- The end of `remove_link`: a link to a file is counted off, and the file is removed with
its last link.
-/
def dropLink (t : LinkTable) (srcPath : FilePath) (destPath : List Char) : LinkTable :=
  let count := (t.linkCountMap.get destPath).getD 0 - 1
  { linkPathMap := (t.linkPathMap.remove srcPath.path).2
    linkCountMap := (t.linkCountMap.insert destPath count).2
    removeFileCalls :=
      if count = 0 then t.removeFileCalls ++ [destPath] else t.removeFileCalls }

/-- Takes a link out of the table, and returns the file that it led to. -/
def removeLink (t : LinkTable) (srcPath : FilePath)
    : Except LinkPanic (Option (List Char) × LinkTable) :=
  match (t.linkPathMap.remove srcPath.path).1 with
  | none => .ok (none, t)
  | some destPath =>
      if 0 < (t.linkCountMap.get destPath).getD 0 then
        .ok (some destPath, t.dropLink srcPath destPath)
      else .error .countNotPositive

def getLinkCount (t : LinkTable) (srcPath : List Char) : Except LinkPanic Nat :=
  match t.linkPathMap.get srcPath with
  | none => .ok 0
  | some destPath =>
      match t.linkCountMap.get destPath with
      | some count => .ok count
      | none => .error .countMissing

/-- The end of `create_link`: the link is recorded and counted. -/
def recordLink (t : LinkTable) (srcPath destPath : FilePath) : LinkTable :=
  { t with
    linkPathMap := (t.linkPathMap.insert srcPath.path destPath.path).2
    linkCountMap :=
      (t.linkCountMap.insert destPath.path
        ((t.linkCountMap.get destPath.path).getD 0 + 1)).2 }

/-- Links a path to a file, given which paths exist; an older link of the path is removed
first.
-/
def createLink (pathExists : List Char → Bool) (t : LinkTable) (srcPath destPath : FilePath)
    : Except LinkPanic (Bool × LinkTable) :=
  if !srcPath.isFile || !destPath.isFile then .ok (false, t)
  else if !pathExists destPath.path then .ok (false, t)
  else
    match t.linkPathMap.get srcPath.path with
    | none => .ok (true, t.recordLink srcPath destPath)
    | some oldDestPath =>
        if oldDestPath ≠ destPath.path then
          (t.removeLink srcPath).map fun removed => (true, removed.2.recordLink srcPath destPath)
        else .ok (true, t)

/-- One call that ends without a panic, in any state of the file system. -/
inductive Step (t : LinkTable) : LinkTable → Prop
  | createLink (pathExists : List Char → Bool) (srcPath destPath : FilePath) (done : Bool)
      (t' : LinkTable)
    : t.createLink pathExists srcPath destPath = .ok (done, t') → Step t t'
  | removeLink (srcPath : FilePath) (removed : Option (List Char)) (t' : LinkTable)
    : t.removeLink srcPath = .ok (removed, t') → Step t t'

abbrev Reachable (t : LinkTable) : Prop :=
  Transition.Reachable (· = new) (fun t t' => Step t t') t

-----------------------------------------------------------------------------------------
-- The count of a file is the number of its links

/-- How many sources are mapped to a file. -/
def sources (t : LinkTable) (file : List Char) : Nat :=
  t.linkPathMap.values.count file

/-- The count of a file, absent meaning 0. -/
def linkCount (t : LinkTable) (file : List Char) : Nat :=
  (t.linkCountMap.get file).getD 0

def Counted (t : LinkTable) : Prop :=
  ∀ file, t.linkCount file = t.sources file

/-- The calls of `remove_file` between two tables: one for each file that has lost its last
source.
-/
def RemovesLast (t t' : LinkTable) : Prop :=
  ∀ file, t'.removeFileCalls.count file
    = t.removeFileCalls.count file + if 0 < t.sources file ∧ t'.sources file = 0 then 1 else 0

variable {t t' : LinkTable} {srcPath destPath : FilePath} {file dest : List Char}

/-- A table that stays as it is calls nothing. -/
theorem RemovesLast.refl (t : LinkTable) : RemovesLast t t := by
  intro file
  have never : ¬ (0 < t.sources file ∧ t.sources file = 0) := by omega
  rw [if_neg never]
  rfl

/-- The target of a link has a source. -/
theorem sources_pos {path : List Char} (linked : t.linkPathMap.get path = some dest)
    : 0 < t.sources dest :=
  List.count_pos_iff.mpr
    (List.mem_map.mpr ⟨(path, dest), BTreeMap.get_eq_some.mp linked, rfl⟩)

/-- Taking a link out takes one source from its target and none from other files. -/
theorem sources_drop (linked : t.linkPathMap.get srcPath.path = some dest) (file : List Char)
    : t.sources file
      = (t.dropLink srcPath dest).sources file + if dest = file then 1 else 0 := by
  have perm := (BTreeMap.remove_perm linked).map Prod.snd
  have counted := perm.count_eq file
  rw [List.map_cons, List.count_cons] at counted
  simpa [sources, BTreeMap.values, dropLink] using counted

/-- The count of the target of a link that is taken out falls by one. -/
theorem linkCount_drop (t : LinkTable) (srcPath : FilePath) (dest file : List Char)
    : (t.dropLink srcPath dest).linkCount file
      = t.linkCount file - if dest = file then 1 else 0 := by
  simp only [linkCount, dropLink, BTreeMap.get_insert]
  by_cases same : file = dest
  · simp [same]
  · simp [same, Ne.symm same]

/-- A new link gives one source to its target and none to other files. -/
theorem sources_record (fresh : t.linkPathMap.get srcPath.path = none) (destPath : FilePath)
    (file : List Char)
    : (t.recordLink srcPath destPath).sources file
      = t.sources file + if destPath.path = file then 1 else 0 := by
  have inserted :=
    (BTreeMap.insert_fresh (BTreeMap.get_eq_none.mp fresh) destPath.path).2
  have counted := (inserted.map Prod.snd).count_eq file
  rw [List.map_cons, List.count_cons] at counted
  simpa [sources, BTreeMap.values, recordLink] using counted

/-- The count of the target of a new link grows by one. -/
theorem linkCount_record (t : LinkTable) (srcPath destPath : FilePath) (file : List Char)
    : (t.recordLink srcPath destPath).linkCount file
      = t.linkCount file + if destPath.path = file then 1 else 0 := by
  simp only [linkCount, recordLink, BTreeMap.get_insert]
  by_cases same : file = destPath.path
  · simp [same]
  · simp [same, Ne.symm same]

theorem Counted.recordLink (counted : t.Counted)
    (fresh : t.linkPathMap.get srcPath.path = none)
    : (t.recordLink srcPath destPath).Counted := by
  intro file
  rw [linkCount_record, sources_record fresh destPath, counted file]

theorem Counted.dropLink (counted : t.Counted)
    (linked : t.linkPathMap.get srcPath.path = some dest)
    : (t.dropLink srcPath dest).Counted := by
  intro file
  rw [linkCount_drop, counted file, sources_drop linked file, Nat.add_sub_cancel]

/-- A link that is taken out takes its file with it exactly when it was the last one. -/
theorem Counted.dropLink_calls (counted : t.Counted)
    (linked : t.linkPathMap.get srcPath.path = some dest)
    : RemovesLast t (t.dropLink srcPath dest) := by
  intro file
  have fewer := sources_drop linked file
  have left := linkCount_drop t srcPath dest dest
  have exact := counted.dropLink linked dest
  rw [if_pos rfl] at left
  change List.count file (if t.linkCount dest - 1 = 0 then _ else _) = _
  rw [← left, exact]
  by_cases same : dest = file
  · subst same
    rw [if_pos rfl] at fewer
    by_cases last : (t.dropLink srcPath dest).sources dest = 0
    · rw [if_pos last, if_pos ⟨by omega, last⟩, List.count_append, List.count_singleton_self]
    · rw [if_neg last, if_neg fun both => last both.2, Nat.add_zero]
  · rw [if_neg same, Nat.add_zero] at fewer
    have never : ¬ (0 < t.sources file ∧ (t.dropLink srcPath dest).sources file = 0) := by omega
    rw [if_neg never, Nat.add_zero]
    split
    · rw [List.count_append, List.count_singleton, if_neg (by simpa using same), Nat.add_zero]
    · rfl

/-- The assertion of `remove_link` holds for every link where the counts are right. -/
theorem Counted.removeLink_linked (counted : t.Counted)
    (linked : t.linkPathMap.get srcPath.path = some dest)
    : t.removeLink srcPath = .ok (some dest, t.dropLink srcPath dest) := by
  have positive : 0 < t.linkCount dest := by
    rw [counted dest]
    exact sources_pos linked
  unfold LinkTable.removeLink
  rw [show (t.linkPathMap.remove srcPath.path).1 = some dest from linked]
  exact if_pos positive

/-- `remove_link` never panics where the counts are right, and keeps them right. -/
theorem Counted.removeLink (counted : t.Counted) (srcPath : FilePath)
    : ∃ removed t', t.removeLink srcPath = .ok (removed, t') ∧ t'.Counted ∧ RemovesLast t t' := by
  rcases linked : t.linkPathMap.get srcPath.path with _ | dest
  · refine ⟨none, t, ?_, counted, .refl t⟩
    unfold LinkTable.removeLink
    rw [show (t.linkPathMap.remove srcPath.path).1 = none from linked]
  · exact ⟨_, _, counted.removeLink_linked linked, counted.dropLink linked,
      counted.dropLink_calls linked⟩

/-- A new link takes the last source from no file. -/
theorem RemovesLast.recordLink (calls : RemovesLast t t')
    (fresh : t'.linkPathMap.get srcPath.path = none)
    (kept : t.sources destPath.path = t'.sources destPath.path)
    : RemovesLast t (t'.recordLink srcPath destPath) := by
  intro file
  have before := calls file
  have more := sources_record fresh destPath file
  change t'.removeFileCalls.count file = _
  rw [before, more]
  by_cases same : destPath.path = file
  · subst same
    have before : ¬ (0 < t.sources destPath.path ∧ t'.sources destPath.path = 0) := by omega
    rw [if_pos rfl, if_neg before, if_neg fun both => Nat.succ_ne_zero _ both.2]
  · rw [if_neg same, Nat.add_zero]

/-- `create_link` never panics where the counts are right, and keeps them right; re-pointing
a source removes the old file with its last link.
-/
theorem Counted.createLink (counted : t.Counted) (pathExists : List Char → Bool)
    (srcPath destPath : FilePath)
    : ∃ done t', t.createLink pathExists srcPath destPath = .ok (done, t') ∧ t'.Counted
      ∧ RemovesLast t t' := by
  unfold LinkTable.createLink
  split
  · exact ⟨false, t, rfl, counted, .refl t⟩
  split
  · exact ⟨false, t, rfl, counted, .refl t⟩
  split
  · rename_i fresh
    exact ⟨true, _, rfl, counted.recordLink fresh, (RemovesLast.refl t).recordLink fresh rfl⟩
  · rename_i old linked
    split
    · rename_i other
      have fresh : (t.dropLink srcPath old).linkPathMap.get srcPath.path = none := by
        rw [LinkTable.dropLink, BTreeMap.get_remove, if_pos rfl]
      have kept := sources_drop linked destPath.path
      rw [if_neg other, Nat.add_zero] at kept
      refine ⟨true, (t.dropLink srcPath old).recordLink srcPath destPath, ?_,
        (counted.dropLink linked).recordLink fresh,
        (counted.dropLink_calls linked).recordLink fresh kept⟩
      rw [counted.removeLink_linked linked]
      rfl
    · exact ⟨true, t, rfl, counted, .refl t⟩

/-- Counts are right in every state that calls reach, by the step lemmas of both calls. -/
theorem counted_reachable (reachable : Reachable t) : t.Counted := by
  refine reachable.invariant Counted ?_ ?_
  · rintro t rfl file
    rfl
  · intro t t' counted stepped
    cases stepped with
    | createLink pathExists srcPath destPath done _ run =>
        obtain ⟨done', t'', run', kept, -⟩ := counted.createLink pathExists srcPath destPath
        cases run.symm.trans run'
        exact kept
    | removeLink srcPath removed _ run =>
        obtain ⟨removed', t'', run', kept, -⟩ := counted.removeLink srcPath
        cases run.symm.trans run'
        exact kept

/-- `get_link_count` finds a count for the target of every link. -/
theorem Counted.getLinkCount (counted : t.Counted) (srcPath : List Char)
    : t.getLinkCount srcPath
      = .ok (match t.linkPathMap.get srcPath with
        | some dest => t.sources dest
        | none => 0) := by
  unfold LinkTable.getLinkCount
  rcases linked : t.linkPathMap.get srcPath with _ | dest
  · rfl
  · have positive := sources_pos linked
    have exact := counted dest
    rw [linkCount] at exact
    rcases found : t.linkCountMap.get dest with _ | count
    · rw [found, Option.getD_none] at exact
      omega
    · rw [found, Option.getD_some] at exact
      simp only [found, exact]

/-- After any calls the count of every file is the number of its sources, so the next call
does not panic, and it removes exactly the files that it takes the last source from.
-/
theorem link_counts_exact (reachable : Reachable t)
    : (∀ file, t.linkCount file = t.sources file)
      ∧ (∀ srcPath, ∃ removed t', t.removeLink srcPath = .ok (removed, t') ∧ RemovesLast t t')
      ∧ (∀ pathExists srcPath destPath, ∃ done t',
          t.createLink pathExists srcPath destPath = .ok (done, t') ∧ RemovesLast t t')
      ∧ ∀ srcPath, ∃ count, t.getLinkCount srcPath = .ok count := by
  have counted := counted_reachable reachable
  refine ⟨counted, fun srcPath => ?_, fun pathExists srcPath destPath => ?_, fun srcPath => ?_⟩
  · obtain ⟨removed, t', run, -, calls⟩ := counted.removeLink srcPath
    exact ⟨removed, t', run, calls⟩
  · obtain ⟨done, t', run, -, calls⟩ := counted.createLink pathExists srcPath destPath
    exact ⟨done, t', run, calls⟩
  · exact ⟨_, counted.getLinkCount srcPath⟩

/-- The table after `/a` has been linked to an existing `/b`. -/
def oneLink : LinkTable :=
  new.recordLink ⟨"/a".toList⟩ ⟨"/b".toList⟩

theorem link_counts_exact_oneLink
    : (∀ file, oneLink.linkCount file = oneLink.sources file)
      ∧ (∃ removed t', oneLink.removeLink ⟨"/a".toList⟩ = .ok (removed, t')
        ∧ RemovesLast oneLink t')
      ∧ ∃ count, oneLink.getLinkCount "/a".toList = .ok count := by
  have linked : Reachable oneLink :=
    .next (.start rfl) (.createLink (fun _ => true) ⟨"/a".toList⟩ ⟨"/b".toList⟩ true oneLink rfl)
  obtain ⟨counts, removes, -, found⟩ := link_counts_exact linked
  exact ⟨counts, removes _, found _⟩

end LinkTable

end RCoreOS.Axtask
