import RCoreOS.Axfs.Lookup

/-! The removal of a path in the RAM file system: which entry it takes out, and what the
lookups find afterwards.
-/

namespace RCoreOS.Axfs

namespace Ramfs

variable {Task : Type} [DecidableEq Task]

/-- `VfsNodeOps::remove`, from a node on. -/
def remove (s : Ramfs Task) (t : Task) (alive : Nat → Bool) (node : Nat) (path : List Char)
    : Except AxError (Ramfs Task) :=
  match _ : splitPath path with
  | (name, none) =>
      match s.nodes node with
      | some (.dir ..) =>
          if selfName name || parentName name then .error .InvalidInput
          else s.removeNode t node name
      | _ => .error .NotADirectory
  | (name, some rest) => do
      let next ← s.lookupPart alive node name
      s.remove t alive next rest
termination_by path.length
decreasing_by exact splitPath_shorter ‹_›

/-- The entry of a directory is taken out, and no other node changes. -/
structure Removed (s s' : Ramfs Task) (dir : Nat) (name : List Char) (node : Nat) : Prop where
  named : selfName name = false ∧ parentName name = false
  entry : s.child dir name = some node
  directory : ∀ n parent children, s.nodes n = some (.dir parent children)
    → ∃ children', s'.nodes n = some (.dir parent children')
  file : ∀ n, (∀ parent children, s.nodes n ≠ some (.dir parent children))
    → s'.nodes n = s.nodes n
  child : ∀ n part, s'.child n part = if n = dir ∧ part = name then none else s.child n part

variable {s s' : Ramfs Task} {t : Task} {alive : Nat → Bool} {dir node next : Nat}
  {name part path : List Char}

theorem removeNode_removed (named : selfName name = false ∧ parentName name = false)
    (removed : s.removeNode t dir name = .ok s')
    : ∃ node, s.Removed s' dir name node := by
  unfold removeNode at removed
  split at removed
  · rename_i parent children found
    split at removed
    · cases removed
    · rename_i node held
      split at removed
      · cases removed
      · cases removed
        have here (part : List Char) : s.child dir part = children.get part :=
          child_of_dir found part
        refine ⟨node, named, (here name).trans held, ?_, ?_, ?_⟩
        · intro n parent' children' directory
          by_cases same : n = dir
          · subst same
            cases found.symm.trans directory
            exact ⟨_, Function.update_self ..⟩
          · exact ⟨children', (Function.update_of_ne same ..).trans directory⟩
        · intro n file
          have other : n ≠ dir := fun same => file _ _ (same ▸ found)
          exact Function.update_of_ne other ..
        · intro n part
          by_cases same : n = dir
          · subst same
            have there : Ramfs.child { s.setCall t .idle with
                nodes := Function.update s.nodes n (some (.dir parent (children.remove name).2))
                log := s.log ++ [.removed (n, name)] } n part
                = (children.remove name).2.get part :=
              child_of_dir (Function.update_self n _ s.nodes) part
            rw [there, BTreeMap.get_remove, here]
            simp only [true_and]
          · rw [if_neg (fun both => same both.1)]
            unfold child
            dsimp only
            rw [Function.update_of_ne same]
  · cases removed

namespace Removed

variable (removed : s.Removed s' dir name node)

include removed

omit [DecidableEq Task] in
/-- Every part of a path leads to the same node, but for the name that was taken out. -/
theorem lookupPart (n : Nat) (part : List Char)
    : s'.lookupPart alive n part
      = if n = dir ∧ part = name then .error .NotFound else s.lookupPart alive n part := by
  by_cases directory : ∃ parent children, s.nodes n = some (.dir parent children)
  · obtain ⟨parent, children, found⟩ := directory
    obtain ⟨children', found'⟩ := removed.directory n parent children found
    have weak : s'.weakParent n = s.weakParent n := by
      rw [weakParent, weakParent, found, found']
    have held : children'.get part = if n = dir ∧ part = name then none else children.get part := by
      rw [← child_of_dir found', removed.child, child_of_dir found]
    unfold Ramfs.lookupPart lookupName
    rw [weak, found, found']
    dsimp only
    by_cases here : n = dir ∧ part = name
    · rw [if_pos here, here.2, if_neg (by simp [removed.named.1]),
        if_neg (by simp [removed.named.2]), ← here.2, held, if_pos here]
    · rw [if_neg here, held, if_neg here]
  · have file : ∀ parent children, s.nodes n ≠ some (.dir parent children) :=
      fun parent children found => directory ⟨parent, children, found⟩
    have file' : ∀ parent children, s'.nodes n ≠ some (.dir parent children) := by
      rw [removed.file n file]
      exact file
    have notDir : n ≠ dir := by
      rintro rfl
      have entry := removed.entry
      unfold Ramfs.child at entry
      split at entry
      · exact absurd ‹_› (file _ _)
      · cases entry
    rw [lookupPart_file file', lookupPart_file file, if_neg (fun both => notDir both.1)]

omit [DecidableEq Task] in
/-- What is found at another place is still found, when the entry showed no directory. -/
theorem lookup_other (file : ∀ parent children, s.nodes node ≠ some (.dir parent children))
    {n other : Nat} (differs : other ≠ node) (found : s.lookup alive n path = .ok other)
    : s'.lookup alive n path = .ok other := by
  rw [lookup_eq] at found ⊢
  generalize path.splitOn '/' = parts at found ⊢
  induction parts generalizing n with
  | nil => exact found
  | cons part parts ih =>
      rw [List.foldlM_cons] at found ⊢
      obtain ⟨next, first, more⟩ := Outcome.bind_eq_ok.mp found
      by_cases here : n = dir ∧ part = name
      · -- the entry leads to the file, behind which nothing is found
        exfalso
        obtain ⟨rfl, rfl⟩ := here
        have shown := (lookupPart_ok first).2
        rw [if_neg (by simp [removed.named.1]), if_neg (by simp [removed.named.2]),
          removed.entry] at shown
        cases shown
        cases parts with
        | nil =>
            cases more
            exact differs rfl
        | cons part' parts =>
            rw [List.foldlM_cons, lookupPart_file file] at more
            cases more
      · rw [removed.lookupPart, if_neg here, first, Outcome.ok_bind]
        exact ih more

end Removed

/-- A removal that succeeds takes out the entry that a lookup of the path ends with, and the
path does not resolve any more, by induction on its length.
-/
theorem remove_removed {n : Nat} (removed : s.remove t alive n path = .ok s')
    : ∃ dir name node, s.Removed s' dir name node ∧ s.lookup alive n path = .ok node
      ∧ ∃ e, s'.lookup alive n path = .error e := by
  induction length : path.length using Nat.strong_induction_on generalizing path n with
  | _ size ih =>
      unfold remove at removed
      split at removed
      · rename_i name single
        split at removed
        · rename_i parent children found
          split at removed
          · cases removed
          · rename_i unnamed
            have named : selfName name = false ∧ parentName name = false := by
              simpa using unnamed
            obtain ⟨node, out⟩ := removeNode_removed named removed
            refine ⟨n, name, node, out, ?_, .NotFound, ?_⟩
            · unfold lookup
              split
              · rename_i name' single'
                cases single.symm.trans single'
                rw [Ramfs.lookupPart, lookupName, found]
                have entry := out.entry
                rw [child_of_dir found] at entry
                dsimp only
                rw [if_neg (by simp [named.1]), if_neg (by simp [named.2]), entry]
              · rename_i several
                cases single.symm.trans several
            · unfold lookup
              split
              · rename_i name' single'
                cases single.symm.trans single'
                rw [out.lookupPart, if_pos ⟨rfl, rfl⟩]
              · rename_i several
                cases single.symm.trans several
        · cases removed
      · rename_i name rest several
        obtain ⟨next, first, more⟩ := Outcome.bind_eq_ok.mp removed
        have shorter := splitPath_shorter several
        obtain ⟨dir, last, node, out, found, e, gone⟩ :=
          ih rest.length (by omega) more rfl
        refine ⟨dir, last, node, out, ?_, ?_⟩
        · unfold lookup
          split
          · rename_i single
            cases single.symm.trans several
          · rename_i name' rest' several'
            cases several.symm.trans several'
            rw [first]
            exact found
        · unfold lookup
          split
          · rename_i single
            cases single.symm.trans several
          · rename_i name' rest' several'
            cases several.symm.trans several'
            rw [out.lookupPart]
            split
            · exact ⟨.NotFound, rfl⟩
            · rw [first]
              exact ⟨e, gone⟩

end Ramfs
end RCoreOS.Axfs
