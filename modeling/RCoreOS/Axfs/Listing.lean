import RCoreOS.Axfs.Directory
import RCoreOS.Lib.Window

/-! Listing a directory of the RAM file system: entries of a fixed size that are read in parts
with a cursor, and the iterator over them.
-/

namespace RCoreOS.Axfs

open Outcome

-----------------------------------------------------------------------------------------
-- Directory entries
-----------------------------------------------------------------------------------------

/-- The bytes of a name in UTF-8. -/
def nameBytes (name : List Char) : List UInt8 :=
  name.flatMap String.utf8EncodeChar

/-- Names with the same bytes are the same. -/
theorem nameBytes_inj {name other : List Char} (same : nameBytes name = nameBytes other)
    : name = other := by
  have encoded : name.utf8Encode = other.utf8Encode := congrArg List.toByteArray same
  have decoded := congrArg ByteArray.utf8Decode? encoded
  rw [List.utf8Decode?_utf8Encode, List.utf8Decode?_utf8Encode] at decoded
  exact List.toArray_inj (Option.some.inj decoded)

/-- A slice that ends behind the array it is taken of. -/
inductive SlicePanic where
  | endOutOfRange
deriving DecidableEq, Repr

def NAME_SIZE : Nat := 63

structure VfsDirEntry where
  dType : VfsNodeType
  dName : List UInt8
  sized : dName.length = NAME_SIZE

namespace VfsDirEntry

def default : VfsDirEntry where
  dType := .File
  dName := List.replicate NAME_SIZE 0
  sized := List.length_replicate

/-- A new entry; a name that is too long is only warned about before it is copied. -/
def new (name : List UInt8) (ty : VfsNodeType) : Except SlicePanic VfsDirEntry :=
  if fits : name.length ≤ NAME_SIZE then
    .ok {
      dType := ty
      dName := (List.replicate NAME_SIZE 0).patch 0 name
      sized := by
        rw [List.length_patch (by rw [List.length_replicate]; omega), List.length_replicate] }
  else .error .endOutOfRange

def entryType (entry : VfsDirEntry) : VfsNodeType :=
  entry.dType

/-- The name up to its first zero byte. -/
def nameAsBytes (entry : VfsDirEntry) : List UInt8 :=
  entry.dName.takeWhile (· ≠ 0)

/-- A name can be told from an entry when it is short enough and has no zero byte. -/
def Fits (name : List UInt8) : Prop :=
  name.length ≤ NAME_SIZE ∧ 0 ∉ name

instance (name : List UInt8) : Decidable (Fits name) :=
  inferInstanceAs (Decidable (_ ∧ _))

/-- The name of an entry fits into one. -/
theorem fits_nameAsBytes (entry : VfsDirEntry) : Fits entry.nameAsBytes := by
  constructor
  · rw [← entry.sized]
    exact (List.takeWhile_sublist _).length_le
  · intro member
    have nonzero := List.all_eq_true.mp List.all_takeWhile 0 member
    exact of_decide_eq_true nonzero rfl

/-- An entry of a name that fits has the name. -/
theorem new_of_fits {name : List UInt8} (fits : Fits name) (ty : VfsNodeType)
    : ∃ entry, new name ty = .ok entry ∧ entry.nameAsBytes = name ∧ entry.entryType = ty := by
  refine ⟨_, dif_pos fits.1, ?_, rfl⟩
  have nonzero : ∀ byte ∈ name, decide (byte ≠ 0) = true := by
    intro byte member
    refine decide_eq_true ?_
    rintro rfl
    exact fits.2 member
  show ((List.replicate NAME_SIZE 0).patch 0 name).takeWhile (· ≠ 0) = name
  rw [List.patch, List.take_zero, List.nil_append, List.drop_replicate,
    List.takeWhile_append_of_pos nonzero]
  cases NAME_SIZE - (0 + name.length) <;> simp [List.replicate_succ]

end VfsDirEntry

-----------------------------------------------------------------------------------------
-- Reading a directory
-----------------------------------------------------------------------------------------

/-- `get_attr().file_type()` of a node. -/
def Node.fileType : Node → VfsNodeType
  | .file _ => .File
  | .interrupts => .CharDevice
  | .dir .. => .Dir

/-- The children of a directory, by their names. -/
abbrev Children :=
  BTreeMap (List Char) Node

/-- The loop of `DirNode::read_dir`: the entries for the slots from `idx` on, where `children` are
those that the iterator has left.
-/
def fillDirents (children : List (List Char × Node)) (idx : Nat)
    : Nat → Except SlicePanic (List VfsDirEntry)
  | 0 => .ok []
  | slots + 1 =>
      match idx with
      | 0 => do
          let entry ← VfsDirEntry.new (nameBytes ['.']) .Dir
          let rest ← fillDirents children 1 slots
          return entry :: rest
      | 1 => do
          let entry ← VfsDirEntry.new (nameBytes ['.', '.']) .Dir
          let rest ← fillDirents children 2 slots
          return entry :: rest
      | idx =>
          match children with
          | [] => .ok []
          | (name, node) :: children => do
              let entry ← VfsDirEntry.new (nameBytes name) node.fileType
              let rest ← fillDirents children (idx + 1) slots
              return entry :: rest

/-- `DirNode::read_dir`, with the entries that it stores in a buffer of the given length. -/
def Children.readDir (children : Children) (startIdx len : Nat)
    : Except SlicePanic (List VfsDirEntry) :=
  fillDirents (children.entries.drop (max startIdx 2 - 2)) startIdx len

/-- A directory that is open for reading, with its cursor. -/
structure Directory where
  node : Children
  entryIdx : Nat

namespace Directory

def openDir (node : Children) : Directory where
  node := node
  entryIdx := 0

def readDir (dir : Directory) (len : Nat) : Except SlicePanic (List VfsDirEntry × Directory) := do
  let dirents ← dir.node.readDir dir.entryIdx len
  return (dirents, { dir with entryIdx := dir.entryIdx + dirents.length })

/-- The entries that calls with buffers of the given sizes return until one returns 0; there is
no result when the calls end before that.
-/
def readAll (dir : Directory) : List Nat → Except SlicePanic (Option (List VfsDirEntry))
  | [] => .ok none
  | size :: sizes => do
      let (dirents, dir) ← dir.readDir size
      if dirents = [] then return some []
      else
        let rest ← dir.readAll sizes
        return rest.map (dirents ++ ·)

end Directory

-----------------------------------------------------------------------------------------
-- The iterator
-----------------------------------------------------------------------------------------

/-- An entry that the iterator returns, its name as the bytes of a string. -/
structure DirEntry where
  dirPath : List Char
  entryName : List UInt8
  entryType : VfsNodeType
deriving DecidableEq, Repr

structure ReadDir where
  path : List Char
  inner : Directory
  bufPos : Nat
  bufEnd : Nat
  endOfStream : Bool
  direntBuf : List VfsDirEntry

def BUF_ENTRIES : Nat := 31

/-- How one turn of the loop in `ReadDir::next` ends. -/
inductive Turn where
  | stop
  | item (entry : DirEntry)
  | again

namespace ReadDir

def new (path : List Char) (node : Children) : ReadDir where
  path := path
  inner := .openDir node
  bufPos := 0
  bufEnd := 0
  endOfStream := false
  direntBuf := List.replicate BUF_ENTRIES .default

/-- The second part of a turn: the entry at the position of the buffer. -/
def takeEntry (r : ReadDir) : Except SlicePanic (Turn × ReadDir) :=
  match r.direntBuf[r.bufPos]? with
  | none => .error .endOutOfRange
  | some entry =>
      let r := { r with bufPos := r.bufPos + 1 }
      let name := entry.nameAsBytes
      if name = nameBytes ['.'] ∨ name = nameBytes ['.', '.'] then .ok (.again, r)
      else .ok (.item { dirPath := r.path, entryName := name, entryType := entry.entryType }, r)

/-- One turn of the loop, which reads on when the buffer is used up. -/
def turn (r : ReadDir) : Except SlicePanic (Turn × ReadDir) :=
  if r.bufEnd ≤ r.bufPos then do
    let (dirents, inner) ← r.inner.readDir r.direntBuf.length
    if dirents = [] then return (.stop, { r with inner := inner, endOfStream := true })
    else
      takeEntry { r with
        inner := inner,
        direntBuf := r.direntBuf.patch 0 dirents,
        bufPos := 0,
        bufEnd := dirents.length }
  else r.takeEntry

/-- The loop of `next`; there is no result when the turns are used up. -/
def nextLoop : Nat → ReadDir → Except SlicePanic (Option (Option DirEntry × ReadDir))
  | 0, _ => .ok none
  | turns + 1, r => do
      let (ended, r) ← r.turn
      match ended with
      | .stop => return some (none, r)
      | .item entry => return some (some entry, r)
      | .again => r.nextLoop turns

/-- `ReadDir::next`. -/
def next (turns : Nat) (r : ReadDir) : Except SlicePanic (Option (Option DirEntry × ReadDir)) :=
  if r.endOfStream then .ok (some (none, r)) else r.nextLoop turns

/-- The entries of the iterator up to its end, which at most `calls` calls reach. -/
def collect (turns : Nat) : Nat → ReadDir → Except SlicePanic (Option (List DirEntry))
  | 0, _ => .ok none
  | calls + 1, r => do
      match ← r.next turns with
      | none => return none
      | some (none, _) => return some []
      | some (some entry, r) =>
          let rest ← r.collect turns calls
          return rest.map (entry :: ·)

end ReadDir

-----------------------------------------------------------------------------------------
-- The calls return the whole listing
-----------------------------------------------------------------------------------------

/-- What an entry tells: its name and its type. -/
def VfsDirEntry.shown (entry : VfsDirEntry) : List UInt8 × VfsNodeType :=
  (entry.nameAsBytes, entry.entryType)

def childShown (child : List Char × Node) : List UInt8 × VfsNodeType :=
  (nameBytes child.1, child.2.fileType)

/-- What the entries from a position on are to tell, where `children` are those left. -/
def listingFrom (children : List (List Char × Node)) : Nat → List (List UInt8 × VfsNodeType)
  | 0 => (nameBytes ['.'], .Dir) :: (nameBytes ['.', '.'], .Dir) :: children.map childShown
  | 1 => (nameBytes ['.', '.'], .Dir) :: children.map childShown
  | _ => children.map childShown

/-- `.`, `..` and then each child. -/
def Children.listing (children : Children) : List (List UInt8 × VfsNodeType) :=
  listingFrom children.entries 0

/-- The names of all children fit into entries. -/
def Children.NamesFit (children : Children) : Prop :=
  ∀ child ∈ children.entries, VfsDirEntry.Fits (nameBytes child.1)

theorem Children.length_listing (children : Children)
    : children.listing.length = children.entries.length + 2 := by
  simp [listing, listingFrom]

open VfsDirEntry (Fits) in
/-- The slots are filled with what the listing tells from there on, by induction on them. -/
theorem fillDirents_shown {children : List (List Char × Node)}
    (fit : ∀ child ∈ children, VfsDirEntry.Fits (nameBytes child.1)) (idx slots : Nat)
    : ∃ dirents, fillDirents children idx slots = .ok dirents
        ∧ dirents.map VfsDirEntry.shown = (listingFrom children idx).take slots := by
  induction slots generalizing children idx with
  | zero => exact ⟨[], rfl, rfl⟩
  | succ slots ih =>
      match idx, children with
      | 0, children =>
          obtain ⟨entry, made, named, typed⟩ :=
            VfsDirEntry.new_of_fits (by decide : Fits (nameBytes ['.'])) .Dir
          obtain ⟨rest, filled, shown⟩ := ih fit 1
          refine ⟨entry :: rest, ?_, ?_⟩
          · rw [fillDirents, made, ok_bind, filled]
            rfl
          · rw [List.map_cons, shown, VfsDirEntry.shown, named, typed]
            rfl
      | 1, children =>
          obtain ⟨entry, made, named, typed⟩ :=
            VfsDirEntry.new_of_fits (by decide : Fits (nameBytes ['.', '.'])) .Dir
          obtain ⟨rest, filled, shown⟩ := ih fit 2
          refine ⟨entry :: rest, ?_, ?_⟩
          · rw [fillDirents, made, ok_bind, filled]
            rfl
          · rw [List.map_cons, shown, VfsDirEntry.shown, named, typed]
            rfl
      | idx + 2, [] => exact ⟨[], rfl, rfl⟩
      | idx + 2, (name, node) :: children =>
          obtain ⟨entry, made, named, typed⟩ :=
            VfsDirEntry.new_of_fits (fit _ List.mem_cons_self) node.fileType
          obtain ⟨rest, filled, shown⟩ :=
            ih (fun child member => fit child (List.mem_cons_of_mem _ member)) (idx + 3)
          refine ⟨entry :: rest, ?_, ?_⟩
          · rw [fillDirents, made, ok_bind, filled]
            · rfl
            · simp
            · simp
          · rw [List.map_cons, shown, VfsDirEntry.shown, named, typed]
            rfl

/-- Skipping children gives the listing from a later position on. -/
theorem listingFrom_drop (children : List (List Char × Node)) (startIdx : Nat)
    : listingFrom (children.drop (max startIdx 2 - 2)) startIdx
      = (listingFrom children 0).drop startIdx := by
  match startIdx with
  | 0 => simp [listingFrom]
  | 1 => simp [listingFrom]
  | startIdx + 2 =>
      have skipped : max (startIdx + 2) 2 - 2 = startIdx := by omega
      rw [skipped]
      simp [listingFrom]

/-- A read returns the part of the listing that its buffer has room for. -/
theorem Children.readDir_shown {children : Children} (fit : children.NamesFit)
    (startIdx len : Nat)
    : ∃ dirents, children.readDir startIdx len = .ok dirents
        ∧ dirents.map VfsDirEntry.shown = (children.listing.drop startIdx).take len := by
  obtain ⟨dirents, filled, shown⟩ := fillDirents_shown
    (fun child member => fit child (List.mem_of_mem_drop member)) startIdx len
  exact ⟨dirents, filled, by rw [shown, listingFrom_drop, listing]⟩

namespace Directory

/-- What is left of the listing. -/
def left (dir : Directory) : List (List UInt8 × VfsNodeType) :=
  dir.node.listing.drop dir.entryIdx

/-- A read advances over the entries that it returns. -/
theorem readDir_shown {dir : Directory} (fit : dir.node.NamesFit) (len : Nat)
    : ∃ dirents dir', dir.readDir len = .ok (dirents, dir') ∧ dir'.node = dir.node
        ∧ dir.left = dirents.map VfsDirEntry.shown ++ dir'.left
        ∧ dirents.length = min len dir.left.length := by
  obtain ⟨dirents, read, shown⟩ := Children.readDir_shown fit dir.entryIdx len
  have length : dirents.length = min len dir.left.length := by
    rw [← List.length_map VfsDirEntry.shown, shown, List.length_take, left]
  refine ⟨dirents, _, bind_eq_ok.mpr ⟨dirents, read, rfl⟩, rfl, ?_, length⟩
  have taken : dirents.map VfsDirEntry.shown = dir.left.take dirents.length := by
    rw [shown, length]
    exact List.take_eq_take_min
  have rest : dir.left.drop dirents.length
      = dir.node.listing.drop (dir.entryIdx + dirents.length) := List.drop_drop
  rw [taken]
  exact (List.take_append_drop dirents.length dir.left).symm.trans (congrArg _ rest)

/-- Calls with positive buffer sizes return what is left of the listing when there are more of
them than entries, by induction on the calls.
-/
theorem readAll_shown {dir : Directory} {sizes : List Nat} (fit : dir.node.NamesFit)
    (positive : ∀ size ∈ sizes, 0 < size) (enough : dir.left.length < sizes.length)
    : ∃ dirents, dir.readAll sizes = .ok (some dirents)
        ∧ dirents.map VfsDirEntry.shown = dir.left := by
  induction sizes generalizing dir with
  | nil => exact absurd enough (Nat.not_lt_zero _)
  | cons size sizes ih =>
      have some := positive size List.mem_cons_self
      obtain ⟨dirents, dir', read, same, parts, length⟩ := readDir_shown fit size
      rw [readAll, read, ok_bind]
      by_cases done : dirents = []
      · subst done
        refine ⟨[], if_pos rfl, ?_⟩
        have empty : dir.left.length = 0 := by
          rw [List.length_nil] at length
          omega
        rw [List.length_eq_zero_iff.mp empty]
        rfl
      · have more := List.length_pos_iff.mpr done
        have shorter : dir.left.length = dirents.length + dir'.left.length := by
          rw [parts, List.length_append, List.length_map]
        rw [List.length_cons] at enough
        have fit' : dir'.node.NamesFit := by rw [same]; exact fit
        obtain ⟨rest, others, shown⟩ := ih fit'
          (fun other member => positive other (List.mem_cons_of_mem _ member)) (by omega)
        refine ⟨dirents ++ rest, ?_, ?_⟩
        · simp only [if_neg done, others]
          rfl
        · rw [List.map_append, shown, parts]

end Directory

-----------------------------------------------------------------------------------------
-- The iterator returns the children
-----------------------------------------------------------------------------------------

namespace ReadDir

/-- The entries that the iterator skips. -/
def IsDot (shown : List UInt8 × VfsNodeType) : Prop :=
  shown.1 = nameBytes ['.'] ∨ shown.1 = nameBytes ['.', '.']

instance (shown : List UInt8 × VfsNodeType) : Decidable (IsDot shown) :=
  inferInstanceAs (Decidable (_ ∨ _))

/-- What the iterator has not looked at yet, in its buffer and behind. -/
def remaining (r : ReadDir) : List (List UInt8 × VfsNodeType) :=
  ((r.direntBuf.take r.bufEnd).drop r.bufPos).map VfsDirEntry.shown ++ r.inner.left

/-- An iterator that has not ended; its buffer has room, and is filled up to `bufEnd`. -/
structure Live (r : ReadDir) : Prop where
  fit : r.inner.node.NamesFit
  room : 0 < r.direntBuf.length
  filled : r.bufEnd ≤ r.direntBuf.length
  notEnded : r.endOfStream = false

/-- What the iterator makes of an entry. -/
def itemOf (path : List Char) (shown : List UInt8 × VfsNodeType) : DirEntry where
  dirPath := path
  entryName := shown.1
  entryType := shown.2

/-- How a turn ends with an entry. -/
def turnOf (path : List Char) (shown : List UInt8 × VfsNodeType) : Turn :=
  if IsDot shown then .again else .item (itemOf path shown)

/-- Taking an entry from the buffer takes the first that remains. -/
theorem takeEntry_spec {r : ReadDir} (live : r.Live) (more : r.bufPos < r.bufEnd)
    : ∃ shown r', r.takeEntry = .ok (turnOf r.path shown, r') ∧ r'.Live ∧ r'.path = r.path
        ∧ r.remaining = shown :: r'.remaining := by
  have filled := live.filled
  have inside : r.bufPos < r.direntBuf.length := by omega
  have found : r.direntBuf[r.bufPos]? = some r.direntBuf[r.bufPos] :=
    List.getElem?_eq_getElem inside
  refine ⟨r.direntBuf[r.bufPos].shown, { r with bufPos := r.bufPos + 1 }, ?_,
    ⟨live.fit, live.room, live.filled, live.notEnded⟩, rfl, ?_⟩
  · rw [takeEntry, found]
    by_cases dot : IsDot r.direntBuf[r.bufPos].shown
    · rw [turnOf, if_pos dot]
      exact if_pos dot
    · rw [turnOf, if_neg dot]
      exact if_neg dot
  · have head : (r.direntBuf.take r.bufEnd).drop r.bufPos
        = r.direntBuf[r.bufPos] :: (r.direntBuf.take r.bufEnd).drop (r.bufPos + 1) := by
      rw [List.drop_eq_getElem_cons (by rw [List.length_take]; omega), List.getElem_take]
    rw [remaining, head]
    rfl

/-- A turn takes the first entry that remains, or stops when there is none. -/
theorem turn_spec {r : ReadDir} (live : r.Live)
    : (r.remaining = [] ∧ ∃ r', r.turn = .ok (.stop, r'))
      ∨ ∃ shown r', r.turn = .ok (turnOf r.path shown, r') ∧ r'.Live ∧ r'.path = r.path
          ∧ r.remaining = shown :: r'.remaining := by
  rw [turn]
  by_cases used : r.bufEnd ≤ r.bufPos
  · rw [if_pos used]
    have buffered : (r.direntBuf.take r.bufEnd).drop r.bufPos = [] := by
      refine List.drop_eq_nil_of_le ?_
      rw [List.length_take]
      omega
    have behind : r.remaining = r.inner.left := by
      rw [remaining, buffered]
      rfl
    obtain ⟨dirents, inner, read, same, parts, length⟩ :=
      Directory.readDir_shown live.fit r.direntBuf.length
    have room := live.room
    rw [read, ok_bind]
    by_cases done : dirents = []
    · subst done
      left
      rw [List.length_nil] at length
      have empty : r.inner.left.length = 0 := by omega
      exact ⟨behind.trans (List.length_eq_zero_iff.mp empty), _, if_pos rfl⟩
    · right
      have more := List.length_pos_iff.mpr done
      have fits : 0 + dirents.length ≤ r.direntBuf.length := by omega
      let next := { r with
        inner := inner,
        direntBuf := r.direntBuf.patch 0 dirents,
        bufPos := 0,
        bufEnd := dirents.length }
      have size : next.direntBuf.length = r.direntBuf.length := List.length_patch fits
      have live' : next.Live := by
        refine ⟨by rw [same]; exact live.fit, by rw [size]; exact room, ?_, live.notEnded⟩
        rw [size]
        show dirents.length ≤ _
        omega
      have remains : next.remaining = r.remaining := by
        rw [behind, parts, remaining, List.drop_zero]
        show ((r.direntBuf.patch 0 dirents).take dirents.length).map _ ++ _ = _
        rw [List.patch, List.take_zero, List.nil_append, List.take_left]
      obtain ⟨shown, r', taken, live'', path, first⟩ := takeEntry_spec live' more
      refine ⟨shown, r', ?_, live'', path, remains.symm.trans first⟩
      simp only [if_neg done]
      exact taken
  · rw [if_neg used]
    exact .inr (takeEntry_spec live (by omega))

/-- What the iterator has to return yet. -/
def items (r : ReadDir) : List (List UInt8 × VfsNodeType) :=
  r.remaining.filter (¬ IsDot ·)

/-- Turns skip what is to be skipped up to an entry or the end, by induction on the turns. -/
theorem nextLoop_spec {r : ReadDir} {turns : Nat} (live : r.Live)
    (enough : r.remaining.length < turns)
    : (r.items = [] ∧ ∃ r', r.nextLoop turns = .ok (some (none, r')))
      ∨ ∃ shown r', r.nextLoop turns = .ok (some (some (itemOf r.path shown), r')) ∧ r'.Live
          ∧ r'.path = r.path ∧ r.items = shown :: r'.items
          ∧ r'.remaining.length < r.remaining.length := by
  induction turns generalizing r with
  | zero => exact absurd enough (Nat.not_lt_zero _)
  | succ turns ih =>
      rw [nextLoop]
      rcases turn_spec live with ⟨empty, r', stopped⟩ | ⟨shown, r', took, live', path, first⟩
      · left
        rw [items, empty, stopped]
        exact ⟨rfl, r', rfl⟩
      · have length : r.remaining.length = r'.remaining.length + 1 := by
          rw [first, List.length_cons]
        rw [took, ok_bind, items, first]
        by_cases dot : IsDot shown
        · rw [turnOf, if_pos dot, List.filter_cons_of_neg (by simpa using dot)]
          rcases ih live' (by omega) with ended | ⟨shown', last, returned, others⟩
          · exact .inl ended
          · rw [path] at returned others
            obtain ⟨live'', path', next, shorter⟩ := others
            exact .inr ⟨shown', last, returned, live'', path', next, by simp; omega⟩
        · right
          rw [turnOf, if_neg dot, List.filter_cons_of_pos (by simpa using dot)]
          exact ⟨shown, r', rfl, live', path, rfl, by simp⟩

/-- The iterator returns what it has to, by induction on the calls. -/
theorem collect_spec {r : ReadDir} {turns calls : Nat} (live : r.Live)
    (enough : r.remaining.length < turns) (long : r.items.length < calls)
    : r.collect turns calls = .ok (some (r.items.map (itemOf r.path))) := by
  induction calls generalizing r with
  | zero => exact absurd long (Nat.not_lt_zero _)
  | succ calls ih =>
      rw [collect, next, live.notEnded, if_neg Bool.false_ne_true]
      rcases nextLoop_spec live enough with
        ⟨empty, r', returned⟩ | ⟨shown, r', returned, live', path, items, shorter⟩
      · rw [returned, empty]
        rfl
      · rw [items, List.length_cons] at long
        rw [returned, ok_bind, items, List.map_cons, ← path]
        simp only [ih live' (by omega) (by omega)]
        rfl

end ReadDir

-----------------------------------------------------------------------------------------
-- When a listing is complete
-----------------------------------------------------------------------------------------

/-- The names that `create` accepts. -/
def AcceptedName (name : List Char) : Prop :=
  name ≠ [] ∧ name ≠ ['.'] ∧ name ≠ ['.', '.'] ∧ '/' ∉ name

/-- Calls with any positive buffer sizes return `.`, `..` and each child with its name and type,
and the iterator returns each child, as soon as there are enough calls and turns.
-/
structure Children.Lists (children : Children) (path : List Char) : Prop where
  reads
    : ∀ sizes : List Nat, (∀ size ∈ sizes, 0 < size) → children.entries.length + 2 < sizes.length →
        ∃ dirents, (Directory.openDir children).readAll sizes = .ok (some dirents)
          ∧ dirents.map (fun entry => (entry.nameAsBytes, entry.entryType))
            = (nameBytes ['.'], .Dir) :: (nameBytes ['.', '.'], .Dir)
              :: children.entries.map fun child => (nameBytes child.1, child.2.fileType)
  iterates
    : ∀ turns calls, children.entries.length + 2 < turns → children.entries.length < calls →
        (ReadDir.new path children).collect turns calls
          = .ok (some (children.entries.map fun child =>
              { dirPath := path, entryName := nameBytes child.1,
                entryType := child.2.fileType }))

/-- An iterator that has just been made has to return the children. -/
theorem ReadDir.items_new {children : Children} (path : List Char)
    (accepted : ∀ child ∈ children.entries, AcceptedName child.1)
    : (ReadDir.new path children).items = children.entries.map childShown := by
  have remains : (ReadDir.new path children).remaining = children.listing := by
    simp [remaining, new, Directory.left, Directory.openDir]
  have kept : ∀ shown ∈ children.entries.map childShown, ¬ IsDot shown := by
    intro shown member
    obtain ⟨child, known, rfl⟩ := List.mem_map.mp member
    obtain ⟨-, notSelf, notParent, -⟩ := accepted child known
    rintro (self | parent)
    · exact notSelf (nameBytes_inj self)
    · exact notParent (nameBytes_inj parent)
  rw [items, remains, Children.listing, listingFrom,
    List.filter_cons_of_neg (by simp [IsDot]), List.filter_cons_of_neg (by simp [IsDot]),
    List.filter_eq_self.mpr]
  simpa using kept

/-- The names of a complete listing fit into entries. -/
theorem Children.Lists.namesFit {children : Children} {path : List Char}
    (lists : children.Lists path)
    : children.NamesFit := by
  intro child member
  obtain ⟨dirents, -, shown⟩ :=
    lists.reads (List.replicate (children.entries.length + 3) 1) (by simp) (by simp)
  have known : (nameBytes child.1, child.2.fileType)
      ∈ dirents.map (fun entry => (entry.nameAsBytes, entry.entryType)) := by
    rw [shown]
    refine List.mem_cons_of_mem _ (List.mem_cons_of_mem _ ?_)
    exact List.mem_map.mpr ⟨child, member, rfl⟩
  obtain ⟨entry, -, same⟩ := List.mem_map.mp known
  rw [← (Prod.mk.inj same).1]
  exact entry.fits_nameAsBytes

/-- A listing is complete exactly when every name is at most 63 bytes long and has no zero. -/
theorem Children.lists_iff {children : Children} (path : List Char)
    (accepted : ∀ child ∈ children.entries, AcceptedName child.1)
    : children.Lists path
      ↔ ∀ child ∈ children.entries, (nameBytes child.1).length ≤ 63 ∧ 0 ∉ nameBytes child.1 := by
  refine ⟨Lists.namesFit, fun fit => ⟨?_, ?_⟩⟩
  · intro sizes positive enough
    have whole : (Directory.openDir children).left = children.listing := List.drop_zero
    rw [← children.length_listing, ← whole] at enough
    have fit : (Directory.openDir children).node.NamesFit := fit
    obtain ⟨dirents, read, shown⟩ := Directory.readAll_shown fit positive enough
    exact ⟨dirents, read, shown.trans whole⟩
  · intro turns calls manyTurns manyCalls
    have live : (ReadDir.new path children).Live :=
      ⟨fit, by simp [ReadDir.new, BUF_ENTRIES], Nat.zero_le _, rfl⟩
    have items := ReadDir.items_new path accepted
    have remains : (ReadDir.new path children).remaining.length < turns := by
      simpa [ReadDir.remaining, ReadDir.new, Directory.left, Directory.openDir,
        Children.length_listing] using manyTurns
    rw [ReadDir.collect_spec live remains (by rw [items, List.length_map]; exact manyCalls),
      items, List.map_map]
    rfl

/-- A directory with one empty file. -/
def oneFile (name : List Char) : Children where
  entries := [(name, .file .new)]
  sorted := List.pairwise_singleton _ _

theorem lists_iff_readme : (oneFile "readme".toList).Lists ['/'] := by
  have accepted : ∀ child ∈ (oneFile "readme".toList).entries, AcceptedName child.1 := by
    intro child member
    cases List.mem_singleton.mp member
    unfold AcceptedName
    decide
  refine (Children.lists_iff ['/'] accepted).mpr fun child member => ?_
  cases List.mem_singleton.mp member
  decide

/-- A name of 64 bytes makes the listing panic, and one with a zero byte is cut there. -/
theorem listing_incomplete
    : AcceptedName (List.replicate 64 'a')
      ∧ (Directory.openDir (oneFile (List.replicate 64 'a'))).readAll [8, 8]
        = .error .endOutOfRange
      ∧ ¬ (oneFile (List.replicate 64 'a')).Lists ['/']
      ∧ AcceptedName ['a', '\x00', 'b'] ∧ ¬ (oneFile ['a', '\x00', 'b']).Lists ['/'] := by
  refine ⟨by unfold AcceptedName; decide, rfl, fun lists => ?_, by unfold AcceptedName; decide,
    fun lists => ?_⟩
  · exact absurd (lists.namesFit _ (List.mem_singleton_self _)).1 (by decide)
  · exact absurd (lists.namesFit _ (List.mem_singleton_self _)).2 (by decide)

end RCoreOS.Axfs
