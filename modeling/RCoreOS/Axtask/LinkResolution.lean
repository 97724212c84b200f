import RCoreOS.Axtask.Link

/-! Following the links of the table. A path that a link leads to may become a link itself,
since `FilePath::new` follows the table before a new link is recorded.
-/

namespace RCoreOS.Axtask

namespace LinkTable

/-- Following the links of a path twice is following them once. -/
def Idempotent (map : BTreeMap (List Char) (List Char)) : Prop :=
  ∀ path, realPath map (realPath map path) = realPath map path

/-- A path that is no link, or a link to itself. -/
def Settled (map : BTreeMap (List Char) (List Char)) (path : List Char) : Prop :=
  map.get path = none ∨ map.get path = some path

/-- No path of the table lies under a compiler prefix. -/
structure PlainLinks (map : BTreeMap (List Char) (List Char)) : Prop where
  source {path dest} : map.get path = some dest → Plain path
  target {path dest} : map.get path = some dest → Plain dest

variable {map : BTreeMap (List Char) (List Char)} {path dest : List Char}

theorem PlainLinks.realPath_plain (plain : PlainLinks map) (path : List Char)
    : Plain (realPath map path) := by
  rcases realPath_cases map path with linked | unmoved
  · exact plain.target linked
  · exact unmoved

/-- A settled path stands for itself unless a compiler prefix moves it. -/
theorem Settled.realPath_eq (settled : Settled map path) (plain : Plain path)
    : realPath map path = path := by
  rcases settled with unlinked | self
  · exact realPath_plain unlinked plain
  · exact realPath_linked self

/-- Links are followed to the end in one step exactly when every target is settled and no
path of the include directory leads elsewhere.
-/
theorem idempotent_iff (plain : PlainLinks map)
    : Idempotent map
      ↔ ∀ path dest, map.get path = some dest
        → Settled map dest ∧ (gccDirDst <+: path → dest = path) := by
  constructor
  · intro idempotent path dest linked
    have again := idempotent path
    rw [realPath_linked linked] at again
    refine ⟨?_, ?_⟩
    · rcases next : map.get dest with _ | dest'
      · exact .inl next
      · rw [realPath_linked next] at again
        exact .inr (again ▸ next)
    · rintro ⟨rest, rfl⟩
      -- the same file under the compiler's own prefix is moved here
      have moved := idempotent (gccDirSrc ++ rest)
      have unlinked : map.get (gccDirSrc ++ rest) = none := by
        rcases entry : map.get (gccDirSrc ++ rest) with _ | other
        · rfl
        · exact absurd ⟨rest, rfl⟩ (plain.source entry).1
      rw [realPath_gcc unlinked, realPath_linked linked] at moved
      exact moved
  · intro direct path
    rcases linked : map.get path with _ | dest
    · by_cases unmoved : Plain path
      · rw [realPath_plain linked unmoved, realPath_plain linked unmoved]
      · obtain ⟨rest, moved⟩ := realPath_moved unmoved
        rw [moved map linked]
        have settled : Settled map (gccDirDst ++ rest) := by
          rcases next : map.get (gccDirDst ++ rest) with _ | dest
          · exact .inl next
          · exact .inr ((direct _ _ next).2 ⟨rest, rfl⟩ ▸ next)
        exact settled.realPath_eq (plain_includeDir rest)
    · rw [realPath_linked linked]
      exact (direct path dest linked).1.realPath_eq (plain.target linked)

-----------------------------------------------------------------------------------------
-- What the calls do to the map of links

variable {t t' : LinkTable} {srcPath destPath : FilePath} {pathExists : List Char → Bool}

/-- A call of `remove_link` that returns leaves the other links alone. -/
theorem removeLink_get {removed : Option (List Char)}
    (run : t.removeLink srcPath = .ok (removed, t')) (path : List Char)
    : t'.linkPathMap.get path
      = if path = srcPath.path then none else t.linkPathMap.get path := by
  unfold removeLink at run
  split at run
  · rename_i unlinked
    cases run
    split
    · rename_i same
      rw [same]
      exact unlinked
    · rfl
  · split at run
    · cases run
      exact BTreeMap.get_remove t.linkPathMap srcPath.path path
    · cases run

/-- A call of `create_link` that returns true leaves the source linked to the target and the
other links alone.
-/
theorem createLink_get (run : t.createLink pathExists srcPath destPath = .ok (true, t'))
    (path : List Char)
    : t'.linkPathMap.get path
      = if path = srcPath.path then some destPath.path else t.linkPathMap.get path := by
  unfold createLink at run
  split at run
  · cases run
  split at run
  · cases run
  split at run
  · cases run
    exact BTreeMap.get_insert t.linkPathMap srcPath.path path destPath.path
  · rename_i old linked
    split at run
    · rcases removal : t.removeLink srcPath with _ | ⟨removed, dropped⟩
      · rw [removal] at run
        cases run
      · rw [removal] at run
        cases run
        refine (BTreeMap.get_insert dropped.linkPathMap srcPath.path path destPath.path).trans ?_
        rw [removeLink_get removal]
        split <;> rfl
    · rename_i same
      cases run
      rw [← not_not.mp same, ← linked]
      split
      · rename_i here
        rw [here]
      · rfl

/-- A call of `create_link` that returns false changes nothing. -/
theorem createLink_refused (run : t.createLink pathExists srcPath destPath = .ok (false, t'))
    : t' = t := by
  unfold createLink at run
  split at run
  · cases run
    rfl
  split at run
  · cases run
    rfl
  split at run
  · cases run
  · split at run
    · rcases removal : t.removeLink srcPath with _ | removed
      · rw [removal] at run
        cases run
      · rw [removal] at run
        cases run
    · cases run

/-- Links between plain paths are added and removed. -/
theorem PlainLinks.createLink (plain : PlainLinks t.linkPathMap) {done : Bool}
    (source : Plain srcPath.path) (target : Plain destPath.path)
    (run : t.createLink pathExists srcPath destPath = .ok (done, t'))
    : PlainLinks t'.linkPathMap := by
  cases done with
  | false =>
      rw [createLink_refused run]
      exact plain
  | true =>
      constructor
      all_goals
        intro path dest linked
        rw [createLink_get run] at linked
        split at linked
      · rename_i same
        exact same ▸ source
      · exact plain.source linked
      · cases linked
        exact target
      · exact plain.target linked

theorem PlainLinks.removeLink (plain : PlainLinks t.linkPathMap) {removed : Option (List Char)}
    (run : t.removeLink srcPath = .ok (removed, t'))
    : PlainLinks t'.linkPathMap := by
  constructor
  all_goals
    intro path dest linked
    rw [removeLink_get run] at linked
    split at linked
    · cases linked
  · exact plain.source linked
  · exact plain.target linked

-----------------------------------------------------------------------------------------
-- Chains of links

/-- A new link makes no chain: it leads from a path to itself, or its source is the target of
no other link and outside the include directory, and its target is settled.
-/
def Unchained (map : BTreeMap (List Char) (List Char)) (srcPath destPath : FilePath) : Prop :=
  srcPath = destPath
    ∨ ((∀ path, path ≠ srcPath.path → map.get path ≠ some srcPath.path)
      ∧ ¬ gccDirDst <+: srcPath.path)
      ∧ Settled map destPath.path

/-- A successful `create_link` keeps the links followed to the end exactly when it makes no
chain.
-/
theorem idempotent_createLink (plain : PlainLinks t.linkPathMap)
    (idempotent : Idempotent t.linkPathMap) (source : Plain srcPath.path)
    (target : Plain destPath.path)
    (run : t.createLink pathExists srcPath destPath = .ok (true, t'))
    : Idempotent t'.linkPathMap ↔ Unchained t.linkPathMap srcPath destPath := by
  have after := createLink_get run
  have direct := (idempotent_iff plain).mp idempotent
  rw [idempotent_iff (plain.createLink source target run)]
  have here : t'.linkPathMap.get srcPath.path = some destPath.path := by
    rw [after, if_pos rfl]
  constructor
  · intro kept
    by_cases same : srcPath = destPath
    · exact .inl same
    have differ : destPath.path ≠ srcPath.path := by
      intro equal
      exact same (by cases srcPath; cases destPath; exact congrArg _ equal.symm)
    obtain ⟨settled, inside⟩ := kept _ _ here
    refine .inr ⟨⟨fun path other linked => ?_, fun under => differ (inside under)⟩, ?_⟩
    · have still : t'.linkPathMap.get path = some srcPath.path := by
        rw [after, if_neg other, linked]
      rcases (kept _ _ still).1 with gone | self
      · rw [here] at gone
        cases gone
      · rw [here] at self
        exact differ (Option.some.inj self)
    · unfold Settled at settled
      rw [after, if_neg differ] at settled
      exact settled
  · intro unchained path dest linked
    rw [after] at linked
    split at linked
    · rename_i isSource
      cases linked
      rcases unchained with same | ⟨⟨-, outside⟩, settled⟩
      · subst same
        exact ⟨.inr here, fun _ => isSource.symm⟩
      · refine ⟨?_, fun under => absurd (isSource ▸ under) outside⟩
        unfold Settled
        rw [after]
        split
        · rename_i same
          exact .inr rfl
        · exact settled
    · rename_i other
      obtain ⟨settled, inside⟩ := direct path dest linked
      refine ⟨?_, inside⟩
      unfold Settled
      rw [after]
      split
      · rename_i isSource
        subst isSource
        rcases unchained with same | ⟨⟨alone, -⟩, -⟩
        · exact .inr (same ▸ rfl)
        · exact absurd linked (alone path other)
      · exact settled

/-- A removal keeps the links followed to the end. -/
theorem Idempotent.removeLink (idempotent : Idempotent t.linkPathMap)
    (plain : PlainLinks t.linkPathMap) {removed : Option (List Char)}
    (run : t.removeLink srcPath = .ok (removed, t'))
    : Idempotent t'.linkPathMap := by
  rw [idempotent_iff (plain.removeLink run)]
  intro path dest linked
  have after := removeLink_get run
  rw [after] at linked
  split at linked
  · cases linked
  obtain ⟨settled, inside⟩ := (idempotent_iff plain).mp idempotent path dest linked
  refine ⟨?_, inside⟩
  unfold Settled
  rw [after]
  split
  · exact .inl rfl
  · exact settled

/-- After a successful `create_link` on two resolved paths, they resolve to the same file
exactly when the source path was not resolved to another one, or to that file already.
-/
theorem new_createLink_iff {currentDir a c text : List Char}
    (cleaned : FilePath.cleanText currentDir a = some text)
    (source : FilePath.new currentDir t.linkPathMap a = some srcPath)
    (target : FilePath.new currentDir t.linkPathMap c = some destPath)
    (run : t.createLink pathExists srcPath destPath = .ok (true, t'))
    : FilePath.new currentDir t'.linkPathMap a = FilePath.new currentDir t'.linkPathMap c
      ↔ srcPath.path = text ∨ srcPath = destPath := by
  have after := createLink_get run
  -- a path that is not the source resolves as it did before
  have kept (path : List Char) (other : path ≠ srcPath.path) :
      realPath t'.linkPathMap path = realPath t.linkPathMap path := by
    unfold realPath
    rw [after, if_neg other]
  have here : realPath t'.linkPathMap srcPath.path = destPath.path :=
    realPath_linked (by rw [after, if_pos rfl])
  simp only [FilePath.new, cleaned, Option.map_some] at source ⊢
  obtain ⟨text', cleaned', isTarget⟩ := Option.map_eq_some_iff.mp target
  have toTarget : realPath t'.linkPathMap text' = destPath.path := by
    by_cases isSource : text' = srcPath.path
    · rw [isSource, here]
    · rw [kept text' isSource, ← isTarget]
  rw [cleaned', Option.map_some, toTarget]
  have isResolved : realPath t.linkPathMap text = srcPath.path :=
    congrArg FilePath.path (Option.some.inj source)
  by_cases direct : srcPath.path = text
  · rw [← direct, here]
    simp
  · have unmoved : realPath t'.linkPathMap text = srcPath.path := by
      rw [kept text (Ne.symm direct), isResolved]
    rw [unmoved]
    cases srcPath
    cases destPath
    simp [direct]

-----------------------------------------------------------------------------------------
-- Runs on resolved paths

/-- A link table and the file paths that `FilePath::new` has returned so far. -/
structure Session where
  table : LinkTable
  obtained : List FilePath

/-- One call on resolved paths; links that are created satisfy a condition. -/
inductive Session.Step
    (allowed : BTreeMap (List Char) (List Char) → FilePath → FilePath → Prop) (s : Session) :
    Session → Prop
  | newPath (currentDir path : List Char) (p : FilePath)
    : FilePath.new currentDir s.table.linkPathMap path = some p
      → Session.Step allowed s { s with obtained := p :: s.obtained }
  | createLink (pathExists : List Char → Bool) (srcPath destPath : FilePath) (done : Bool)
      (t' : LinkTable)
    : srcPath ∈ s.obtained → destPath ∈ s.obtained
      → s.table.createLink pathExists srcPath destPath = .ok (done, t')
      → (done = true → allowed s.table.linkPathMap srcPath destPath)
      → Session.Step allowed s { s with table := t' }
  | removeLink (srcPath : FilePath) (removed : Option (List Char)) (t' : LinkTable)
    : srcPath ∈ s.obtained → s.table.removeLink srcPath = .ok (removed, t')
      → Session.Step allowed s { s with table := t' }

/-- The sessions that runs reach whose created links satisfy a condition. -/
abbrev Session.Reachable
    (allowed : BTreeMap (List Char) (List Char) → FilePath → FilePath → Prop) (s : Session) :
    Prop :=
  Transition.Reachable (· = ⟨new, []⟩) (Session.Step allowed) s

/-- Paths of a session lie outside of the compiler prefixes. -/
structure Session.Clean (s : Session) : Prop where
  links : PlainLinks s.table.linkPathMap
  obtained : ∀ p ∈ s.obtained, Plain p.path

variable {allowed : BTreeMap (List Char) (List Char) → FilePath → FilePath → Prop}
  {s : Session}

theorem Session.clean_new : Session.Clean ⟨new, []⟩ where
  links := ⟨by simp [new], by simp [new]⟩
  obtained := by simp

theorem Session.Clean.step {s' : Session} (clean : s.Clean) (stepped : Step allowed s s')
    : s'.Clean := by
  cases stepped with
  | newPath currentDir path p resolved =>
      obtain ⟨text, -, rfl⟩ := Option.map_eq_some_iff.mp resolved
      refine ⟨clean.links, fun p member => ?_⟩
      rcases List.mem_cons.mp member with rfl | older
      · exact clean.links.realPath_plain text
      · exact clean.obtained p older
  | createLink pathExists srcPath destPath done t' source target run _ =>
      exact ⟨clean.links.createLink (clean.obtained _ source) (clean.obtained _ target) run,
        clean.obtained⟩
  | removeLink srcPath removed t' source run =>
      exact ⟨clean.links.removeLink run, clean.obtained⟩

/-- In runs without chains, links are followed to the end: what every step keeps. -/
theorem Session.resolved_reachable (reachable : Session.Reachable Unchained s)
    : s.Clean ∧ Idempotent s.table.linkPathMap := by
  refine reachable.invariant (fun s => s.Clean ∧ Idempotent s.table.linkPathMap) ?_ ?_
  · rintro s rfl
    exact ⟨Session.clean_new, (idempotent_iff Session.clean_new.links).mpr (by simp [new])⟩
  · rintro s s' ⟨clean, idempotent⟩ stepped
    refine ⟨clean.step stepped, ?_⟩
    cases stepped with
    | newPath currentDir path p resolved => exact idempotent
    | createLink pathExists srcPath destPath done t' source target run unchained =>
        cases done with
        | false =>
            rw [createLink_refused run]
            exact idempotent
        | true =>
            exact (idempotent_createLink clean.links idempotent (clean.obtained _ source)
              (clean.obtained _ target) run).mpr (unchained rfl)
    | removeLink srcPath removed t' source run => exact idempotent.removeLink clean.links run

/-- In runs that create no chain, following links is idempotent in every state, and the next
`create_link` keeps it so exactly when it makes no chain. The source of a new link then
resolves to its target exactly when `FilePath::new` had not followed an older link of it.
-/
theorem resolution_coherent (reachable : Session.Reachable Unchained s)
    : Idempotent s.table.linkPathMap
      ∧ (∀ pathExists srcPath destPath t', srcPath ∈ s.obtained → destPath ∈ s.obtained
        → s.table.createLink pathExists srcPath destPath = .ok (true, t')
        → (Idempotent t'.linkPathMap ↔ Unchained s.table.linkPathMap srcPath destPath))
      ∧ ∀ currentDir a c text pathExists srcPath destPath t',
        FilePath.cleanText currentDir a = some text
        → FilePath.new currentDir s.table.linkPathMap a = some srcPath
        → FilePath.new currentDir s.table.linkPathMap c = some destPath
        → s.table.createLink pathExists srcPath destPath = .ok (true, t')
        → (FilePath.new currentDir t'.linkPathMap a = FilePath.new currentDir t'.linkPathMap c
          ↔ srcPath.path = text ∨ srcPath = destPath) := by
  obtain ⟨clean, idempotent⟩ := Session.resolved_reachable reachable
  refine ⟨idempotent, fun pathExists srcPath destPath t' source target run => ?_, ?_⟩
  · exact idempotent_createLink clean.links idempotent (clean.obtained _ source)
      (clean.obtained _ target) run
  · intro currentDir a c text pathExists srcPath destPath t' cleaned source target run
    exact new_createLink_iff cleaned source target run

/-- The paths `/a` and `/b` resolved, and `/a` linked to `/b`. -/
def linkedSession : Session where
  table := oneLink
  obtained := [⟨"/b".toList⟩, ⟨"/a".toList⟩]

theorem linkedSession_reachable (allowed : _) (alone : allowed .empty ⟨"/a".toList⟩ ⟨"/b".toList⟩)
    : Session.Reachable allowed linkedSession := by
  have one : Session.Reachable allowed ⟨new, [⟨"/a".toList⟩]⟩ :=
    .next (.start rfl) (.newPath "/".toList "/a".toList ⟨"/a".toList⟩ (by decide))
  have two : Session.Reachable allowed ⟨new, [⟨"/b".toList⟩, ⟨"/a".toList⟩]⟩ :=
    one.next (.newPath "/".toList "/b".toList ⟨"/b".toList⟩ (by decide))
  exact two.next (.createLink (fun _ => true) ⟨"/a".toList⟩ ⟨"/b".toList⟩ true oneLink
    (by decide) (by decide) rfl fun _ => alone)

theorem resolution_coherent_linkedSession
    : Idempotent oneLink.linkPathMap
      ∧ FilePath.new "/".toList
          (oneLink.recordLink ⟨"/c".toList⟩ ⟨"/b".toList⟩).linkPathMap "/c".toList
        = FilePath.new "/".toList
          (oneLink.recordLink ⟨"/c".toList⟩ ⟨"/b".toList⟩).linkPathMap "/a".toList := by
  have alone : Unchained .empty ⟨"/a".toList⟩ ⟨"/b".toList⟩ :=
    .inr ⟨⟨by simp, by decide⟩, .inl rfl⟩
  obtain ⟨idempotent, -, coherent⟩ := resolution_coherent (linkedSession_reachable _ alone)
  exact ⟨idempotent, (coherent "/".toList "/c".toList "/a".toList "/c".toList (fun _ => true)
    ⟨"/c".toList⟩ ⟨"/b".toList⟩ _ (by decide) (by decide) (by decide) rfl).mpr (.inl rfl)⟩

/-- Linking `/a` again, to `/c`, records a link of `/b` instead: `/a` still resolves to `/b`,
and following it twice leads to `/c`.
-/
theorem relinked_path_keeps_target
    : Session.Reachable (fun _ _ _ => True) linkedSession
      ∧ ∃ srcPath destPath t',
        FilePath.new "/".toList oneLink.linkPathMap "/a".toList = some srcPath
        ∧ FilePath.new "/".toList oneLink.linkPathMap "/c".toList = some destPath
        ∧ oneLink.createLink (fun _ => true) srcPath destPath = .ok (true, t')
        ∧ FilePath.new "/".toList t'.linkPathMap "/a".toList
          ≠ FilePath.new "/".toList t'.linkPathMap "/c".toList
        ∧ ¬ Idempotent t'.linkPathMap := by
  refine ⟨linkedSession_reachable _ trivial, ⟨"/b".toList⟩, ⟨"/c".toList⟩, _, by decide,
    by decide, rfl, by decide, fun idempotent => ?_⟩
  have again := idempotent "/a".toList
  revert again
  decide

end LinkTable

end RCoreOS.Axtask
