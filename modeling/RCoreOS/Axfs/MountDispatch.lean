import RCoreOS.Axfs.NormalForm

/-! Which mount a canonical path is sent to. The search compares texts, with the length of the
longest match so far next to the index of its mount; it finds the mount with the most components
in common.
-/

namespace RCoreOS.Axfs

/-- The canonical form of an absolute path. -/
def CanonicalPath (path : List Char) : Prop :=
  ∃ names, (∀ name ∈ names, Proper name) ∧ path = joinNames true names

/-- The first components of `path` are those of `dir`. -/
def Under (dir path : List Char) : Prop :=
  textNames dir <+: textNames path

/-- The mounts that `mount` makes of canonical paths, of which it refuses `/` and those that are
in use.
-/
structure Dispatchable (mounts : List MountPoint) : Prop where
  canonical : ∀ mp ∈ mounts, CanonicalPath mp.path
  notRoot : ∀ mp ∈ mounts, mp.path ≠ ['/']
  distinct : (mounts.map MountPoint.path).Nodup

/-- The mount with the longest path that `path` is under, and the rest of `path` below it; or
the main file system, if there is no such mount, and all of `path` below its root.
-/
inductive Dispatched (mounts : List MountPoint) (path : List Char)
    : Option MountPoint → List Char → Prop
  | mount {mp rest}
    : mp ∈ mounts → Under mp.path path →
      (∀ other ∈ mounts, Under other.path path → other ≠ mp →
        (textNames other.path).length < (textNames mp.path).length) →
      path = mp.path ++ rest → Dispatched mounts path (some mp) rest
  | main {rest}
    : (∀ mp ∈ mounts, ¬ Under mp.path path) → path = '/' :: rest →
      Dispatched mounts path none rest

/-- What holds of some mounts and of one more holds of all of them. -/
theorem forall_mem_snoc {P : MountPoint → Prop} {mounts : List MountPoint} {mp : MountPoint}
    (before : ∀ other ∈ mounts, P other) (last : P mp)
    : ∀ other ∈ mounts ++ [mp], P other :=
  List.forall_mem_append.mpr ⟨before, List.forall_mem_singleton.mpr last⟩

/-- `mount` keeps the mounts dispatchable when it is given a canonical path. -/
theorem Dispatchable.mount {Task : Type} {w w' : Vfs Task} {alive : Nat → Bool}
    {path : List Char} {root : Nat} (dispatchable : Dispatchable w.mounts)
    (canonical : CanonicalPath path) (mounted : w.mount alive path root = .ok w')
    : Dispatchable w'.mounts := by
  unfold Vfs.mount at mounted
  split at mounted
  · cases mounted
  next notRoot =>
    split at mounted
    · cases mounted
    · split at mounted
      · cases mounted
      next unused =>
        obtain ⟨point, -, made⟩ := Outcome.bind_eq_ok.mp mounted
        cases made
        have fresh : path ∉ w.mounts.map MountPoint.path := by
          intro used
          obtain ⟨mp, member, same⟩ := List.mem_map.mp used
          exact unused (List.any_eq_true.mpr ⟨mp, member, decide_eq_true same⟩)
        refine ⟨forall_mem_snoc dispatchable.canonical canonical,
          forall_mem_snoc dispatchable.notRoot notRoot, ?_⟩
        rw [List.map_append, List.map_singleton]
        refine List.nodup_append.mpr ⟨dispatchable.distinct, List.nodup_singleton _, ?_⟩
        intro used member new isNew same
        rw [same, List.mem_singleton.mp isNew] at member
        exact fresh member

variable {mounts : List MountPoint} {mp other : MountPoint} {path body : List Char}
  {names : List (List Char)} {isAbsolute : Bool}

-----------------------------------------------------------------------------------------
-- Canonical paths and their texts
-----------------------------------------------------------------------------------------

/-- Joined names spell the names, by induction from the last one on. -/
theorem joinNames_spells (proper : ∀ name ∈ names, Proper name) (some : names ≠ [])
    : Spells isAbsolute (joinNames isAbsolute names) names := by
  induction names using List.reverseRecOn with
  | nil => exact absurd rfl some
  | append_singleton before name ih =>
      have last : Proper name := proper name (by simp)
      have first : ∀ name ∈ before, Proper name :=
        fun name member => proper name (List.mem_append_left _ member)
      by_cases none : before = []
      · subst none
        rw [List.nil_append, joinNames, List.intercalate_singleton]
        exact .first last
      · rw [joinNames, intercalate_snoc first last none, ← List.append_assoc]
        exact .more (ih first none) none last

/-- What is searched for of a canonical path is its text behind the first slash. -/
theorem trimSlashes_joinNames (proper : ∀ name ∈ names, Proper name)
    : trimSlashes (joinNames true names) = ['/'].intercalate names := by
  by_cases none : names = []
  · subst none
    rfl
  · have spells : Spells true (joinNames true names) names := joinNames_spells proper none
    calc trimSlashes (joinNames true names)
      _ = ['/'].intercalate ((trimSlashes (joinNames true names)).splitOn '/') :=
        (List.intercalate_splitOn '/').symm
      _ = ['/'].intercalate names := by rw [trim_spelled spells none]

/-- Joined names go on behind a slash. -/
theorem intercalate_append {more : List (List Char)} (proper : ∀ name ∈ names, Proper name)
    (later : ∀ name ∈ more, Proper name) (some : names ≠ []) (some' : more ≠ [])
    : ['/'].intercalate (names ++ more)
      = ['/'].intercalate names ++ '/' :: ['/'].intercalate more := by
  have parts : (['/'].intercalate names ++ '/' :: ['/'].intercalate more).splitOn '/'
      = names ++ more := by
    rw [List.splitOn_append_cons_self, intercalate_splitOn_names proper some,
      intercalate_splitOn_names later some']
  rw [← parts, List.intercalate_splitOn]

/-- A mount point covers the paths whose text goes on behind its own. -/
theorem covers_of_append (more : body = mp.path.drop 1
      ∨ ∃ rest, body = mp.path.drop 1 ++ '/' :: rest)
    : mp.covers body = true := by
  unfold MountPoint.covers
  rw [Bool.and_eq_true, Bool.or_eq_true, decide_eq_true_eq, List.length_append,
    List.length_singleton, List.isPrefixOf_iff_prefix, List.isPrefixOf_iff_prefix,
    Nat.add_sub_cancel]
  rcases more with rfl | ⟨rest, rfl⟩
  · exact ⟨List.prefix_rfl, .inl rfl⟩
  · exact ⟨List.prefix_append .., .inr ⟨rest, by rw [List.append_assoc]; rfl⟩⟩

/-- The mount points of canonical paths cover the paths under them. -/
theorem covers_iff {pointNames : List (List Char)} (proper : ∀ name ∈ names, Proper name)
    (pointProper : ∀ name ∈ pointNames, Proper name) (some : pointNames ≠ [])
    (point : mp.path = joinNames true pointNames)
    : mp.covers (['/'].intercalate names) = true ↔ pointNames <+: names := by
  have start : mp.path.drop 1 = ['/'].intercalate pointNames := by
    rw [point]
    rfl
  have parts : (mp.path.drop 1).splitOn '/' = pointNames := by
    rw [start, intercalate_splitOn_names pointProper some]
  constructor
  · intro covers
    have under : pointNames <+: (['/'].intercalate names).splitOn '/' := by
      rcases covers_cases covers with here | ⟨rest, inside⟩
      · rw [here, parts]
      · rw [inside, List.splitOn_append_cons_self, parts]
        exact List.prefix_append ..
    by_cases none : names = []
    · subst none
      obtain ⟨first, more, rfl⟩ := List.exists_cons_of_ne_nil some
      have empty : first = [] := (List.cons_prefix_cons.mp under).1
      exact absurd empty (pointProper first (List.mem_cons_self ..)).ne_nil
    · rwa [intercalate_splitOn_names proper none] at under
  · rintro ⟨more, rfl⟩
    refine covers_of_append ?_
    rw [start]
    by_cases none : more = []
    · subst none
      exact .inl (by rw [List.append_nil])
    · exact .inr ⟨_, intercalate_append pointProper
        (fun name later => proper name (List.mem_append_right _ later)) some none⟩

/-- A path that goes on behind another one is longer. -/
theorem joinNames_length_lt {more : List (List Char)} (proper : ∀ name ∈ names, Proper name)
    (later : ∀ name ∈ more, Proper name) (some : names ≠ []) (some' : more ≠ [])
    : (joinNames isAbsolute names).length < (joinNames isAbsolute (names ++ more)).length := by
  rw [joinNames, joinNames, intercalate_append proper later some some', ← List.append_assoc]
  simp only [List.length_append, List.length_cons]
  omega

-----------------------------------------------------------------------------------------
-- The search
-----------------------------------------------------------------------------------------

/-- What the search has found among the mounts it has seen: nothing that covers the path, or the
longest one that does, with the length of its path behind the first slash.
-/
def Found (seen : List MountPoint) (body : List Char) (best : Option MountPoint × Nat) : Prop :=
  (best = (none, 0) ∧ ∀ mp ∈ seen, mp.covers body = false)
  ∨ ∃ mp ∈ seen, best = (some mp, mp.path.length - 1) ∧ mp.covers body = true
    ∧ ∀ other ∈ seen, other.covers body = true → other.path.length ≤ mp.path.length

/-- One turn of the search. -/
theorem Found.next {seen : List MountPoint} {best : Option MountPoint × Nat}
    (found : Found seen body best) {mp : MountPoint}
    (nonempty : ∀ other ∈ seen ++ [mp], 0 < other.path.length)
    : Found (seen ++ [mp]) body (longer body best mp) := by
  have here := nonempty mp (by simp)
  unfold longer
  rw [List.length_append, List.length_drop, List.length_singleton]
  rcases covers : mp.covers body with _ | _
  · -- the mount is passed over
    rw [Bool.false_and, if_neg Bool.false_ne_true]
    rcases found with ⟨rfl, none⟩ | ⟨longest, member, rfl, covered, above⟩
    · exact .inl ⟨rfl, forall_mem_snoc none covers⟩
    · refine .inr ⟨longest, List.mem_append_left _ member, rfl, covered, forall_mem_snoc above ?_⟩
      intro covers'
      rw [covers] at covers'
      cases covers'
  · rw [Bool.true_and]
    rcases found with ⟨rfl, none⟩ | ⟨longest, member, rfl, covered, above⟩
    · rw [if_pos (decide_eq_true (by omega))]
      refine .inr ⟨mp, by simp, rfl, covers,
        forall_mem_snoc (fun other older covers' => ?_) fun _ => le_rfl⟩
      rw [none other older] at covers'
      cases covers'
    · have positive := nonempty longest (List.mem_append_left _ member)
      by_cases more : longest.path.length ≤ mp.path.length
      · rw [if_pos (decide_eq_true (by dsimp only; omega))]
        exact .inr ⟨mp, by simp, rfl, covers,
          forall_mem_snoc (fun other older covers' => (above other older covers').trans more)
            fun _ => le_rfl⟩
      · rw [if_neg (by dsimp only; simp only [decide_eq_true_eq]; omega)]
        exact .inr ⟨longest, List.mem_append_left _ member, rfl, covered,
          forall_mem_snoc above fun _ => (Nat.lt_of_not_le more).le⟩

/-- The whole search, by induction on the mounts. -/
theorem Found.foldl {seen : List MountPoint} {best : Option MountPoint × Nat}
    (found : Found seen body best) (more : List MountPoint)
    (nonempty : ∀ mp ∈ seen ++ more, 0 < mp.path.length)
    : Found (seen ++ more) body (more.foldl (longer body) best) := by
  induction more generalizing seen best with
  | nil => rwa [List.append_nil]
  | cons mp rest ih =>
      have first : Found (seen ++ [mp]) body (longer body best mp) :=
        found.next (forall_mem_snoc
          (fun other older => nonempty other (List.mem_append_left _ older))
          (nonempty mp (by simp)))
      rw [List.foldl_cons, List.append_cons]
      exact ih first (by rwa [List.append_cons] at nonempty)

theorem Dispatchable.nonempty (dispatchable : Dispatchable mounts)
    : ∀ mp ∈ mounts, 0 < mp.path.length := by
  intro mp member
  obtain ⟨names, -, point⟩ := dispatchable.canonical mp member
  rw [point]
  exact Nat.succ_pos _

/-- Paths that are both above a path are above one another, and the shorter text is the one with
fewer names.
-/
theorem names_lt_of_length_le {names names' all : List (List Char)}
    (proper : ∀ name ∈ names', Proper name) (some : names' ≠ [])
    (properAll : ∀ name ∈ all, Proper name)
    (under : names <+: all) (under' : names' <+: all) (different : names ≠ names')
    (le : (joinNames true names).length ≤ (joinNames true names').length)
    : names.length < names'.length := by
  by_contra ge
  obtain ⟨more, rfl⟩ := List.prefix_of_prefix_length_le under' under (Nat.le_of_not_lt ge)
  have some' : more ≠ [] := by
    rintro rfl
    exact different (List.append_nil _)
  have later : ∀ name ∈ more, Proper name := fun name member =>
    properAll name (under.subset (List.mem_append_right _ member))
  have lt : (joinNames true names').length < (joinNames true (names' ++ more)).length :=
    joinNames_length_lt proper later some some'
  omega

/-- No canonical path starts with `./`. -/
theorem lookupMountedFs_canonical (mounts : List MountPoint)
    (proper : ∀ name ∈ names, Proper name)
    : lookupMountedFs mounts (joinNames true names)
      = longestMatch mounts (['/'].intercalate names) := by
  have trimmed := trimSlashes_joinNames proper
  unfold lookupMountedFs
  split
  next rest dotted =>
    exfalso
    rw [trimmed] at dotted
    have some : names ≠ [] := by
      rintro rfl
      cases dotted
    have parts := intercalate_splitOn_names proper some
    have first : ('.' :: '/' :: rest).splitOn '/' = ['.'] :: rest.splitOn '/' :=
      @List.splitOn_append_cons_self_of_not_mem _ ['.'] _ _ _ (by decide) rest
    rw [dotted, first] at parts
    exact absurd (proper ['.'] (parts ▸ List.mem_cons_self ..)).notSelf (by decide)
  next => rw [trimmed]

/-- A mount point covers the canonical paths that are under it. -/
theorem Dispatchable.covers_iff (dispatchable : Dispatchable mounts)
    (proper : ∀ name ∈ names, Proper name) (member : mp ∈ mounts)
    : mp.covers (['/'].intercalate names) = true ↔ Under mp.path (joinNames true names) := by
  obtain ⟨pointNames, pointProper, point⟩ := dispatchable.canonical mp member
  have some : pointNames ≠ [] := by
    rintro rfl
    exact dispatchable.notRoot mp member point
  rw [Under, point, textNames_joinNames pointProper, textNames_joinNames proper]
  exact Axfs.covers_iff proper pointProper some point

/-- The longest of the mount points that a path is under has the most names. -/
theorem Dispatchable.longest (dispatchable : Dispatchable mounts)
    (proper : ∀ name ∈ names, Proper name) (member : mp ∈ mounts) (member' : other ∈ mounts)
    (under : Under mp.path (joinNames true names))
    (under' : Under other.path (joinNames true names)) (different : other ≠ mp)
    (le : other.path.length ≤ mp.path.length)
    : (textNames other.path).length < (textNames mp.path).length := by
  obtain ⟨pointNames, pointProper, point⟩ := dispatchable.canonical mp member
  obtain ⟨otherNames, otherProper, point'⟩ := dispatchable.canonical other member'
  have some : pointNames ≠ [] := by
    rintro rfl
    exact dispatchable.notRoot mp member point
  rw [Under, textNames_joinNames proper] at under under'
  rw [point, textNames_joinNames pointProper] at under ⊢
  rw [point', textNames_joinNames otherProper] at under' ⊢
  refine names_lt_of_length_le pointProper some proper under' under ?_ (point ▸ point' ▸ le)
  rintro rfl
  exact different (List.inj_on_of_nodup_map dispatchable.distinct member' member
    (point'.trans point.symm))

/-- Canonical paths are sent to the mount with the most components in common. -/
theorem lookupMountedFs_longest (dispatchable : Dispatchable mounts)
    (canonical : CanonicalPath path)
    : Dispatched mounts path (lookupMountedFs mounts path).1 (lookupMountedFs mounts path).2 := by
  obtain ⟨names, proper, rfl⟩ := canonical
  have start : Found [] (['/'].intercalate names) (none, 0) :=
    .inl ⟨rfl, List.forall_mem_nil _⟩
  have found := start.foldl mounts (by rw [List.nil_append]; exact dispatchable.nonempty)
  rw [List.nil_append] at found
  rw [lookupMountedFs_canonical mounts proper, longestMatch]
  rcases found with ⟨best, none⟩ | ⟨mp, member, best, covered, above⟩
  · rw [best]
    refine .main (fun mp member under => ?_) rfl
    have covers := (dispatchable.covers_iff proper member).mpr under
    rw [none mp member] at covers
    cases covers
  · have under := (dispatchable.covers_iff proper member).mp covered
    obtain ⟨pointNames, -, point⟩ := dispatchable.canonical mp member
    have slash : mp.path = '/' :: mp.path.drop 1 := by rw [point]; rfl
    have length : mp.path.length - 1 = (mp.path.drop 1).length := (List.length_drop ..).symm
    have positive : mp.path.length - 1 ≠ 0 := by
      intro zero
      refine dispatchable.notRoot mp member ?_
      rw [length] at zero
      rw [slash, List.length_eq_zero_iff.mp zero]
    rw [best]
    dsimp only
    rw [if_neg positive]
    refine .mount member under (fun other member' under' different => ?_) ?_
    · exact dispatchable.longest proper member member' under under' different
        (above other member' ((dispatchable.covers_iff proper member').mpr under'))
    · have start : mp.path.drop 1 <+: ['/'].intercalate names := by
        rcases covers_cases covered with here | ⟨rest, inside⟩
        · rw [here]
        · rw [inside]
          exact List.prefix_append ..
      calc
        joinNames true names = '/' :: ['/'].intercalate names := rfl
        _ = '/' :: (mp.path.drop 1
              ++ (['/'].intercalate names).drop (mp.path.drop 1).length) :=
          congrArg _ (List.prefix_iff_eq_append.mp start).symm
        _ = mp.path ++ (['/'].intercalate names).drop (mp.path.length - 1) := by
          rw [length, ← List.cons_append, ← slash]

/-- Mounts whose paths start alike. -/
def devMounts : List MountPoint :=
  [⟨"/dev".toList, 1⟩, ⟨"/dev/shm".toList, 2⟩, ⟨"/device".toList, 3⟩]

theorem devMounts_dispatchable : Dispatchable devMounts where
  canonical := by
    have named (name : List Char) (notSelf : selfName name = false)
        (notParent : parentName name = false) (noSlash : '/' ∉ name) : Proper name :=
      ⟨notSelf, notParent, noSlash⟩
    have dev := named "dev".toList (by decide) (by decide) (by decide)
    have shm := named "shm".toList (by decide) (by decide) (by decide)
    have device := named "device".toList (by decide) (by decide) (by decide)
    simp only [devMounts, List.forall_mem_cons]
    exact ⟨⟨["dev".toList], by simpa using dev, by decide⟩,
      ⟨["dev".toList, "shm".toList], by simpa using ⟨dev, shm⟩, by decide⟩,
      ⟨["device".toList], by simpa using device, by decide⟩, List.forall_mem_nil _⟩
  notRoot := by decide
  distinct := by decide

/-- Witness: a path in the inner one of two nested mounts. -/
theorem lookupMountedFs_longest_nested
    : lookupMountedFs devMounts "/dev/shm/x".toList
        = (some ⟨"/dev/shm".toList, 2⟩, "/x".toList)
      ∧ Dispatched devMounts "/dev/shm/x".toList
        (lookupMountedFs devMounts "/dev/shm/x".toList).1
        (lookupMountedFs devMounts "/dev/shm/x".toList).2 := by
  have proper : ∀ name ∈ ["dev".toList, "shm".toList, "x".toList], Proper name := by
    simp only [List.forall_mem_cons]
    exact ⟨⟨by decide, by decide, by decide⟩, ⟨by decide, by decide, by decide⟩,
      ⟨by decide, by decide, by decide⟩, List.forall_mem_nil _⟩
  refine ⟨?_, lookupMountedFs_longest devMounts_dispatchable ⟨_, proper, by decide⟩⟩
  rw [lookupMountedFs]
  rfl

end RCoreOS.Axfs
