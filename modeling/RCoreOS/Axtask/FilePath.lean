import RCoreOS.Lib.BTreeMap
import Mathlib.Data.Char
import Mathlib.Data.List.Lex

/-! File paths as the link table sees them: canonical text of a user's path, looked up in the
map of links, with the include directories of the compilers moved to their real place.
-/

namespace RCoreOS.Axtask

/-- The loop for a `..` part, on the reversed buffer: the last part goes, the root stays. -/
def popPart : List Char → List Char
  | [] => []
  | c :: rest => if c :: rest = ['/'] then ['/'] else if c = '/' then rest else popPart rest

/-- Adds one part of a path to the buffer. `none` is the panic of `buf[buf.len() - 1..]` on a
buffer whose last character takes more than one byte.
-/
def pushPart (isAbsolute : Bool) (buf part : List Char) : Option (List Char) :=
  if part = [] ∨ part = ['.'] then some buf
  else if part = ['.', '.'] then some (popPart buf.reverse).reverse
  else
    match buf.getLast? with
    | none => some ((if isAbsolute then ['/'] else []) ++ part)
    | some last =>
        if last.utf8Size ≠ 1 then none
        else some (buf ++ (if last = '/' then [] else ['/']) ++ part)

/-- `axfs_vfs::path::canonicalize`. -/
def canonicalize (path : List Char) : Option (List Char) := do
  let isAbsolute := path.head? == some '/'
  let buf ← (path.splitOn '/').foldlM (pushPart isAbsolute) []
  if isAbsolute && buf.isEmpty then some ['/'] else some buf

def absolutePath (currentDir path : List Char) : Option (List Char) :=
  if path.head? = some '/' then canonicalize path else canonicalize (currentDir ++ path)

/-- `char::is_whitespace`. -/
def isWhitespace (c : Char) : Bool :=
  (0x9 ≤ c.toNat && c.toNat ≤ 0xd) || c.toNat = 0x20 || c.toNat = 0x85 || c.toNat = 0xa0
    || c.toNat = 0x1680 || (0x2000 ≤ c.toNat && c.toNat ≤ 0x200a) || c.toNat = 0x2028
    || c.toNat = 0x2029 || c.toNat = 0x202f || c.toNat = 0x205f || c.toNat = 0x3000

def trim (text : List Char) : List Char :=
  ((text.dropWhile isWhitespace).reverse.dropWhile isWhitespace).reverse

def gccDirSrc : List Char :=
  "/riscv64-linux-musl-native/lib/gcc/riscv64-linux-musl/11.2.1/include".toList

def gccDirDst : List Char :=
  "/riscv64-linux-musl-native/include".toList

def muslDirSrc : List Char :=
  "/riscv64-linux-musl-native/riscv64-linux-musl/include".toList

def muslDirDst : List Char :=
  "/riscv64-linux-musl-native/include".toList

/-- The file that a path of the user stands for, given `LINK_PATH_MAP`. -/
def realPath (map : BTreeMap (List Char) (List Char)) (src : List Char) : List Char :=
  match map.get src with
  | some dest => dest
  | none =>
      if gccDirSrc.isPrefixOf src then gccDirDst ++ src.drop gccDirSrc.length
      else if muslDirSrc.isPrefixOf src then muslDirDst ++ src.drop muslDirSrc.length
      else src

structure FilePath where
  path : List Char
deriving DecidableEq, Repr

namespace FilePath

/-- The text of a user's path before the links are followed. -/
def cleanText (currentDir path : List Char) : Option (List Char) := do
  let newPath := trim (← absolutePath currentDir path)
  if path.getLast? = some '/' ∧ newPath.getLast? ≠ some '/' then some (newPath ++ ['/'])
  else some newPath

/-- `FilePath::new`, with the working directory and `LINK_PATH_MAP` that it reads. Its error
branch is not reached, as `absolute_path` never fails.
-/
def new (currentDir : List Char) (map : BTreeMap (List Char) (List Char)) (path : List Char)
    : Option FilePath :=
  (cleanText currentDir path).map fun newPath => ⟨realPath map newPath⟩

def isFile (p : FilePath) : Bool :=
  p.path.getLast? != some '/'

example : cleanText "/".toList "a/./b//../c/".toList = some "/a/c/".toList := by decide

end FilePath

-----------------------------------------------------------------------------------------
-- Where a path leads

/-- Paths that the compiler prefixes do not move. -/
def Plain (path : List Char) : Prop :=
  ¬ gccDirSrc <+: path ∧ ¬ muslDirSrc <+: path

instance (path : List Char) : Decidable (Plain path) :=
  inferInstanceAs (Decidable (¬ _ ∧ ¬ _))

/-- The directory that the compiler prefixes are moved to is not moved itself. -/
theorem plain_includeDir (rest : List Char) : Plain (gccDirDst ++ rest) := by
  have differ {dir : List Char} (at28 : dir.take 28 ≠ gccDirDst.take 28)
      (long : 28 ≤ dir.length) : ¬ dir <+: gccDirDst ++ rest := by
    intro pre
    have short : 28 ≤ gccDirDst.length := by decide
    obtain ⟨tail, equal⟩ := pre
    refine at28 ?_
    calc
      dir.take 28 = (dir ++ tail).take 28 := (List.take_append_of_le_length long).symm
      _ = (gccDirDst ++ rest).take 28 := by rw [equal]
      _ = gccDirDst.take 28 := List.take_append_of_le_length short
  exact ⟨differ (by decide) (by decide), differ (by decide) (by decide)⟩

variable {map : BTreeMap (List Char) (List Char)} {path dest : List Char}

/-- A link is followed. -/
theorem realPath_linked (linked : map.get path = some dest) : realPath map path = dest := by
  rw [realPath, linked]

/-- A path that is neither a link nor moved stands for itself. -/
theorem realPath_plain (unlinked : map.get path = none) (plain : Plain path)
    : realPath map path = path := by
  have notGcc : ¬ gccDirSrc.isPrefixOf path = true :=
    fun pre => plain.1 (List.isPrefixOf_iff_prefix.mp pre)
  have notMusl : ¬ muslDirSrc.isPrefixOf path = true :=
    fun pre => plain.2 (List.isPrefixOf_iff_prefix.mp pre)
  simp only [realPath, unlinked]
  rw [if_neg notGcc, if_neg notMusl]

/-- A path of the first compiler directory that is not a link is moved with its rest. -/
theorem realPath_gcc {rest : List Char} (unlinked : map.get (gccDirSrc ++ rest) = none)
    : realPath map (gccDirSrc ++ rest) = gccDirDst ++ rest := by
  have gcc : gccDirSrc.isPrefixOf (gccDirSrc ++ rest) = true :=
    List.isPrefixOf_iff_prefix.mpr ⟨rest, rfl⟩
  simp only [realPath, unlinked]
  rw [if_pos gcc, List.drop_left]

/-- A path under a compiler prefix that is not a link is moved into the include directory,
by the same rewriting in every table.
-/
theorem realPath_moved (moved : ¬ Plain path)
    : ∃ rest, ∀ map : BTreeMap (List Char) (List Char),
        map.get path = none → realPath map path = gccDirDst ++ rest := by
  by_cases gcc : gccDirSrc.isPrefixOf path = true
  · refine ⟨path.drop gccDirSrc.length, fun map unlinked => ?_⟩
    simp only [realPath, unlinked]
    rw [if_pos gcc]
  · have musl : muslDirSrc.isPrefixOf path = true := by
      by_contra other
      exact moved ⟨fun pre => gcc (List.isPrefixOf_iff_prefix.mpr pre),
        fun pre => other (List.isPrefixOf_iff_prefix.mpr pre)⟩
    refine ⟨path.drop muslDirSrc.length, fun map unlinked => ?_⟩
    simp only [realPath, unlinked]
    rw [if_neg gcc, if_pos musl]
    rfl

/-- What a path stands for is the target of a link or a path that is not moved. -/
theorem realPath_cases (map : BTreeMap (List Char) (List Char)) (path : List Char)
    : map.get path = some (realPath map path) ∨ Plain (realPath map path) := by
  rcases linked : map.get path with _ | dest
  · right
    by_cases plain : Plain path
    · rwa [realPath_plain linked plain]
    · obtain ⟨rest, moved⟩ := realPath_moved plain
      rw [moved map linked]
      exact plain_includeDir rest
  · left
    rw [realPath_linked linked]

end RCoreOS.Axtask
