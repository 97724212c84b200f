import RCoreOS.Axfs.Directory
import RCoreOS.Axtask.FilePath

/-! What canonical paths spell: the names that are left of a path when its `.` and `..` are
followed in the text.
-/

namespace RCoreOS.Axfs

open Axtask (canonicalize popPart pushPart)

/-- A name that stands for an entry of a directory. -/
structure Proper (name : List Char) : Prop where
  notSelf : selfName name = false
  notParent : parentName name = false
  noSlash : '/' ∉ name

/-- The names that lead to the place a part of a path leads to. -/
def followPart (names : List (List Char)) (part : List Char) : List (List Char) :=
  if selfName part then names
  else if parentName part then names.dropLast
  else names ++ [part]

/-- A buffer of `canonicalize` and the names it is made of. -/
inductive Spells (isAbsolute : Bool) : List Char → List (List Char) → Prop
  | empty : Spells isAbsolute [] []
  /-- What `..` leaves of the first name of an absolute path. -/
  | root : isAbsolute = true → Spells isAbsolute ['/'] []
  | first {name}
    : Proper name → Spells isAbsolute ((if isAbsolute then ['/'] else []) ++ name) [name]
  | more {buf names name}
    : Spells isAbsolute buf names → names ≠ [] → Proper name →
      Spells isAbsolute (buf ++ '/' :: name) (names ++ [name])

-----------------------------------------------------------------------------------------
-- Names
-----------------------------------------------------------------------------------------

theorem Proper.ne_nil {name : List Char} (proper : Proper name) : name ≠ [] := by
  rintro rfl
  exact absurd proper.notSelf (by decide)

/-- A part that is not followed in the text is a name. -/
theorem proper_of_part {part : List Char} (noSlash : '/' ∉ part)
    (notSelf : ¬ selfName part = true) (notParent : ¬ parentName part = true)
    : Proper part where
  notSelf := Bool.eq_false_iff.mpr notSelf
  notParent := Bool.eq_false_iff.mpr notParent
  noSlash := noSlash

/-- The parts of a path are made of its characters other than `/`, by induction on the path. -/
theorem mem_parts {path part : List Char} (member : part ∈ path.splitOn '/') {c : Char}
    (inside : c ∈ part)
    : c ∈ path ∧ c ≠ '/' := by
  induction path generalizing part with
  | nil =>
      rw [List.splitOn_nil, List.mem_singleton] at member
      rw [member] at inside
      cases inside
  | cons head rest ih =>
      rw [List.splitOn_cons_eq_if_modifyHead] at member
      split at member
      · rcases List.mem_cons.mp member with rfl | later
        · cases inside
        · exact (ih later inside).imp_left (List.mem_cons_of_mem _)
      next other =>
        obtain ⟨first, more, split⟩ := List.exists_cons_of_ne_nil (List.splitOn_ne_nil '/' rest)
        rw [split, List.modifyHead_cons] at member
        rcases List.mem_cons.mp member with rfl | later
        · rcases List.mem_cons.mp inside with rfl | within
          · exact ⟨List.mem_cons_self .., by simpa using other⟩
          · exact (ih (split ▸ List.mem_cons_self ..) within).imp_left (List.mem_cons_of_mem _)
        · exact (ih (split ▸ List.mem_cons_of_mem _ later) inside).imp_left
            (List.mem_cons_of_mem _)

theorem noSlash_of_part {path part : List Char} (member : part ∈ path.splitOn '/')
    : '/' ∉ part :=
  fun inside => (mem_parts member inside).2 rfl

-----------------------------------------------------------------------------------------
-- The buffer
-----------------------------------------------------------------------------------------

variable {isAbsolute : Bool} {buf buf' part : List Char} {names : List (List Char)}

/-- Popping goes through the characters of the last name, by induction on them. -/
theorem popPart_name {name : List Char} (noSlash : '/' ∉ name) (rest : List Char)
    : popPart (name ++ rest) = popPart rest := by
  induction name with
  | nil => rfl
  | cons c name ih =>
      obtain ⟨other, within⟩ := List.ne_and_not_mem_of_not_mem_cons noSlash
      rw [List.cons_append, popPart, if_neg (by simp [Ne.symm other]),
        if_neg (Ne.symm other), ih within]

theorem popPart_slash {rest : List Char} (more : rest ≠ []) : popPart ('/' :: rest) = rest := by
  rw [popPart, if_neg (by simp [more]), if_pos rfl]

theorem Spells.names_proper (spells : Spells isAbsolute buf names)
    : ∀ name ∈ names, Proper name := by
  induction spells with
  | empty => nofun
  | root => nofun
  | first proper => simpa using proper
  | more _ _ proper ih =>
      intro name member
      rcases List.mem_append.mp member with before | last
      · exact ih name before
      · exact List.mem_singleton.mp last ▸ proper

/-- A buffer with a name in it ends with a character of it. -/
theorem Spells.getLast (spells : Spells isAbsolute buf names) (some : names ≠ [])
    : ∃ last, buf.getLast? = .some last ∧ last ≠ '/' := by
  have ends {name : List Char} (proper : Proper name) (before : List Char)
      : ∃ last, (before ++ name).getLast? = .some last ∧ last ≠ '/' := by
    refine ⟨name.getLast proper.ne_nil, ?_, ?_⟩
    · rw [List.getLast?_append_of_ne_nil _ proper.ne_nil, List.getLast?_eq_getLast_of_ne_nil]
    · exact fun same => proper.noSlash (same ▸ List.getLast_mem proper.ne_nil)
  cases spells with
  | empty => exact absurd rfl some
  | root => exact absurd rfl some
  | first proper => exact ends proper _
  | @more buf names name _ _ proper =>
      obtain ⟨last, found, other⟩ := ends proper (buf ++ ['/'])
      exact ⟨last, by rwa [List.append_assoc] at found, other⟩

theorem Spells.ne_nil (spells : Spells isAbsolute buf names) (some : names ≠ []) : buf ≠ [] := by
  rintro rfl
  obtain ⟨last, found, -⟩ := spells.getLast some
  cases found

/-- A `..` takes the last name out of the buffer. -/
theorem Spells.pop (spells : Spells isAbsolute buf names)
    : Spells isAbsolute (popPart buf.reverse).reverse names.dropLast := by
  cases spells with
  | empty => exact .empty
  | root absolute => exact .root absolute
  | @first name proper =>
      have noSlash : '/' ∉ name.reverse := fun member => proper.noSlash (List.mem_reverse.mp member)
      rw [List.reverse_append, popPart_name noSlash]
      cases isAbsolute with
      | true => exact .root rfl
      | false => exact .empty
  | @more buf names name spells some proper =>
      have noSlash : '/' ∉ name.reverse := fun member => proper.noSlash (List.mem_reverse.mp member)
      have kept : buf.reverse ≠ [] := List.reverse_ne_nil_iff.mpr (spells.ne_nil some)
      rw [List.reverse_append, List.reverse_cons, List.append_assoc, popPart_name noSlash,
        List.singleton_append, popPart_slash kept, List.reverse_reverse, List.dropLast_concat]
      exact spells

/-- Every part keeps the buffer the spelling of the names it leads to. -/
theorem Spells.push (spells : Spells isAbsolute buf names) (noSlash : '/' ∉ part)
    (pushed : pushPart isAbsolute buf part = some buf')
    : Spells isAbsolute buf' (followPart names part) := by
  unfold pushPart at pushed
  unfold followPart
  split at pushed
  next self =>
    cases pushed
    rw [if_pos (by simpa [selfName] using self)]
    exact spells
  next notSelf =>
    rw [if_neg (by simpa [selfName] using notSelf)]
    split at pushed
    next up =>
      cases pushed
      rw [if_pos (by simpa [parentName] using up)]
      exact spells.pop
    next notParent =>
      have proper : Proper part := proper_of_part noSlash (by simpa [selfName] using notSelf)
        (by simpa [parentName] using notParent)
      rw [if_neg (by simpa [parentName] using notParent)]
      by_cases some : names = []
      · cases spells with
        | empty =>
            cases pushed
            exact .first proper
        | root absolute =>
            cases pushed
            have first : Spells isAbsolute _ [part] := .first proper
            rwa [if_pos absolute] at first
        | first => cases some
        | more => exact absurd some (by simp)
      · obtain ⟨last, found, other⟩ := spells.getLast some
        rw [found] at pushed
        dsimp only at pushed
        split at pushed
        next => cases pushed
        next =>
          cases pushed
          rw [List.append_assoc]
          exact .more spells some proper

/-- The buffer after all parts, by induction on the parts. -/
theorem Spells.parts {parts : List (List Char)} (noSlash : ∀ part ∈ parts, '/' ∉ part)
    (spells : Spells isAbsolute buf names)
    (pushed : parts.foldlM (pushPart isAbsolute) buf = some buf')
    : Spells isAbsolute buf' (parts.foldl followPart names) := by
  induction parts generalizing buf names with
  | nil =>
      cases pushed
      exact spells
  | cons part rest ih =>
      rw [List.foldlM_cons] at pushed
      obtain ⟨next, first, more⟩ := Option.bind_eq_some_iff.mp pushed
      exact ih (fun part later => noSlash part (List.mem_cons_of_mem _ later))
        (spells.push (noSlash part (List.mem_cons_self ..)) first) more

/-- A canonical path spells the names that its path leads along. -/
theorem canonicalize_spells {path clean : List Char} (canonical : canonicalize path = some clean)
    : Spells (path.head? == some '/') clean ((path.splitOn '/').foldl followPart []) := by
  obtain ⟨buf, pushed, result⟩ := Option.bind_eq_some_iff.mp canonical
  have spells := Spells.parts (fun part member => noSlash_of_part member) .empty pushed
  split at result
  next root =>
    cases result
    rw [Bool.and_eq_true, List.isEmpty_iff] at root
    have nothing : (path.splitOn '/').foldl followPart [] = [] := by
      by_contra some
      exact spells.ne_nil some root.2
    rw [nothing]
    exact .root root.1
  next =>
    cases result
    exact spells

/-- The buffer of an absolute path starts with a slash, by induction on the buffer. -/
theorem Spells.head (spells : Spells true buf names) (some : buf ≠ [])
    : buf.head? = .some '/' := by
  induction spells with
  | empty => exact absurd rfl some
  | root => rfl
  | first => rfl
  | more spells nonempty _ ih =>
      rw [List.head?_append_of_ne_nil _ (spells.ne_nil nonempty)]
      exact ih (spells.ne_nil nonempty)

/-- The canonical form of an absolute path is absolute. -/
theorem canonicalize_head {path clean : List Char} (absolute : path.head? = some '/')
    (canonical : canonicalize path = some clean)
    : clean.head? = some '/' := by
  have isAbsolute : (path.head? == some '/') = true := by rw [absolute]; rfl
  have spells := canonicalize_spells canonical
  obtain ⟨buf, pushed, result⟩ := Option.bind_eq_some_iff.mp canonical
  rw [isAbsolute, Bool.true_and] at result
  rw [isAbsolute] at spells
  split at result
  next => cases result; rfl
  next some =>
    cases result
    exact spells.head fun empty => some (List.isEmpty_iff.mpr empty)

/-- Behind the slash of an absolute path, its parts are its names; by induction on the buffer. -/
theorem Spells.body {clean : List Char} (spells : Spells true clean names) (some : names ≠ [])
    : ∃ body, clean = '/' :: body ∧ body.splitOn '/' = names := by
  induction spells with
  | empty => exact absurd rfl some
  | root => exact absurd rfl some
  | @first name proper => exact ⟨name, rfl, List.splitOn_eq_singleton proper.noSlash⟩
  | @more buf names name spells nonempty proper ih =>
      obtain ⟨body, buffer, split⟩ := ih nonempty
      refine ⟨body ++ '/' :: name, by rw [buffer]; rfl, ?_⟩
      rw [List.splitOn_append_cons_self, split, List.splitOn_eq_singleton proper.noSlash]

/-- The parts of a canonical path are its names, after empty parts; by induction on the
buffer.
-/
theorem Spells.splitOn (spells : Spells isAbsolute buf names)
    : ∃ n, buf.splitOn '/' = List.replicate n [] ++ names := by
  induction spells with
  | empty => exact ⟨1, rfl⟩
  | root => exact ⟨2, rfl⟩
  | @first name proper =>
      cases isAbsolute with
      | true =>
          refine ⟨1, ?_⟩
          exact (List.splitOn_append_cons_self [] name).trans
            (by rw [List.splitOn_eq_singleton proper.noSlash]; rfl)
      | false => exact ⟨0, List.splitOn_eq_singleton proper.noSlash⟩
  | more spells some proper ih =>
      obtain ⟨n, split⟩ := ih
      refine ⟨n, ?_⟩
      rw [List.splitOn_append_cons_self, split, List.splitOn_eq_singleton proper.noSlash,
        List.append_assoc]

-----------------------------------------------------------------------------------------
-- Paths of one-byte characters
-----------------------------------------------------------------------------------------

/-- Popping leaves characters of the buffer, by induction on it. -/
theorem mem_popPart {buf : List Char} {c : Char} (member : c ∈ popPart buf) : c ∈ buf := by
  induction buf with
  | nil => exact member
  | cons head rest ih =>
      unfold popPart at member
      split at member
      next same => exact same ▸ member
      next =>
        split at member
        · exact List.mem_cons_of_mem _ member
        · exact List.mem_cons_of_mem _ (ih member)

theorem pushPart_ascii (buffer : ∀ c ∈ buf, c.toNat < 128) (ascii : ∀ c ∈ part, c.toNat < 128)
    : ∃ buf', pushPart isAbsolute buf part = some buf' ∧ ∀ c ∈ buf', c.toNat < 128 := by
  have joined (before : List Char) (separators : ∀ c ∈ before, c ∈ buf ∨ c = '/')
      : ∀ c ∈ before ++ part, c.toNat < 128 := by
    intro c member
    rcases List.mem_append.mp member with left | right
    · rcases separators c left with old | rfl
      · exact buffer c old
      · decide
    · exact ascii c right
  unfold pushPart
  split
  · exact ⟨buf, rfl, buffer⟩
  · split
    · refine ⟨_, rfl, fun c member => ?_⟩
      exact buffer c (List.mem_reverse.mp (mem_popPart (List.mem_reverse.mp member)))
    · split
      · refine ⟨_, rfl, joined _ fun c member => .inr ?_⟩
        split at member
        · exact List.mem_singleton.mp member
        · cases member
      next last found =>
        have small : last.toNat < 128 := buffer last (List.mem_of_getLast? found)
        have one : last.utf8Size = 1 := by
          unfold Char.utf8Size
          rw [if_pos]
          exact Nat.lt_succ_iff.mp small
        rw [if_neg (not_not.mpr one)]
        refine ⟨_, rfl, joined _ fun c member => ?_⟩
        rcases List.mem_append.mp member with old | separator
        · exact .inl old
        · right
          split at separator
          · cases separator
          · exact List.mem_singleton.mp separator

/-- A path of ASCII characters has a canonical form, by induction on its parts. -/
theorem canonicalize_ascii {path : List Char} (ascii : ∀ c ∈ path, c.toNat < 128)
    : ∃ clean, canonicalize path = some clean := by
  have pushes (parts : List (List Char)) (each : ∀ part ∈ parts, ∀ c ∈ part, c.toNat < 128)
      (buf : List Char) (buffer : ∀ c ∈ buf, c.toNat < 128)
      : ∃ buf', parts.foldlM (pushPart (path.head? == some '/')) buf = some buf' := by
    induction parts generalizing buf with
    | nil => exact ⟨buf, rfl⟩
    | cons part rest ih =>
        obtain ⟨next, first, small⟩ := pushPart_ascii buffer (each part (List.mem_cons_self ..))
        rw [List.foldlM_cons, first]
        exact ih (fun part later => each part (List.mem_cons_of_mem _ later)) next small
  obtain ⟨buf, pushed⟩ := pushes (path.splitOn '/')
    (fun part member c inside => ascii c (mem_parts member inside).1) [] (List.forall_mem_nil _)
  unfold canonicalize
  dsimp only
  rw [pushed]
  dsimp only [Option.bind_eq_bind, Option.bind_some]
  split
  · exact ⟨_, rfl⟩
  · exact ⟨_, rfl⟩

end RCoreOS.Axfs
