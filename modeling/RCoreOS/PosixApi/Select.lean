import RCoreOS.Lib.Bits
import RCoreOS.Lib.Outcome
import RCoreOS.PosixApi.Epoll

/-! `select`: three sets of descriptors are packed into one array of words, of which only the
first words of each third are written, and the answers come back in the caller's sets.
-/

namespace RCoreOS.PosixApi.IoMpx

def FD_SETSIZE : Nat := 1024
def BITS_PER_USIZE : Nat := 64
def FD_SETSIZE_USIZES : Nat := 16

/-- `div_ceil(BITS_PER_USIZE)`. -/
def usizes (nfds : Nat) : Nat :=
  (nfds + (BITS_PER_USIZE - 1)) / BITS_PER_USIZE

/-- `fds_bits` of an `fd_set`. -/
abbrev FdSet := Fin FD_SETSIZE_USIZES → BitVec 64

/-- Words behind the last one are never asked for. -/
def FdSet.word (set : FdSet) (k : Nat) : BitVec 64 :=
  if inside : k < FD_SETSIZE_USIZES then set ⟨k, inside⟩ else 0

inductive Kind where
  | read
  | write
  | except
deriving DecidableEq, Repr

/-- Where the third of the array starts. -/
def Kind.start : Kind → Nat
  | .read => 0
  | .write => FD_SETSIZE_USIZES
  | .except => FD_SETSIZE_USIZES * 2

/-- What the caller's three pointers point to, if they are not null. -/
structure UserSets where
  readfds : Option FdSet
  writefds : Option FdSet
  exceptfds : Option FdSet

namespace UserSets

def get (sets : UserSets) : Kind → Option FdSet
  | .read => sets.readfds
  | .write => sets.writefds
  | .except => sets.exceptfds

def put (sets : UserSets) (kind : Kind) (fds : Option FdSet) : UserSets :=
  match kind with
  | .read => { sets with readfds := fds }
  | .write => { sets with writefds := fds }
  | .except => { sets with exceptfds := fds }

@[simp]
theorem get_put (sets : UserSets) (kind other : Kind) (fds : Option FdSet)
    : (sets.put kind fds).get other = if other = kind then fds else sets.get other := by
  cases kind <;> cases other <;> rfl

end UserSets

/-- Reading a word that was not written, an index outside of an array, or an error of a call. -/
inductive Fault where
  | uninitialised
  | outOfBounds
  | errno (error : LinuxError)
deriving DecidableEq, Repr

/-- The words that were not written have no value. -/
structure FdSets where
  nfds : Nat
  bits : Fin (FD_SETSIZE_USIZES * 3) → Option (BitVec 64)

def copyFromFdSet (nfdsUsizes start : Nat) (fds : Option FdSet)
    (bits : Fin (FD_SETSIZE_USIZES * 3) → Option (BitVec 64))
    : Fin (FD_SETSIZE_USIZES * 3) → Option (BitVec 64) :=
  fun i =>
    if start ≤ i ∧ i < start + nfdsUsizes then
      match fds with
      | none => some 0
      | some set => some (set.word (i - start))
    else bits i

def FdSets.make (nfds : Nat) (sets : UserSets) : FdSets :=
  let nfds := min nfds FD_SETSIZE
  let bits := copyFromFdSet (usizes nfds) Kind.read.start sets.readfds fun _ => none
  let bits := copyFromFdSet (usizes nfds) Kind.write.start sets.writefds bits
  { nfds, bits := copyFromFdSet (usizes nfds) Kind.except.start sets.exceptfds bits }

@[simp]
theorem FdSets.make_nfds (nfds : Nat) (sets : UserSets)
    : (FdSets.make nfds sets).nfds = min nfds FD_SETSIZE :=
  rfl

def FdSets.readWord (fs : FdSets) (kind : Kind) (k : Nat) : Except Fault (BitVec 64) :=
  if inside : kind.start + k < FD_SETSIZE_USIZES * 3 then
    match fs.bits ⟨kind.start + k, inside⟩ with
    | some word => .ok word
    | none => .error .uninitialised
  else .error .outOfBounds

def setFdSet (fds : Option FdSet) (fd : Nat) : Except Fault (Option FdSet) :=
  match fds with
  | none => .ok none
  | some set =>
      if inside : fd / BITS_PER_USIZE < FD_SETSIZE_USIZES then
        .ok (some (Function.update set ⟨fd / BITS_PER_USIZE, inside⟩
          (set ⟨fd / BITS_PER_USIZE, inside⟩ ||| 1#64 <<< (fd % BITS_PER_USIZE))))
      else .error .outOfBounds

def zeroFdSet (fds : Option FdSet) (nfds : Nat) : Option FdSet :=
  fds.map fun set i => if i < usizes nfds then 0 else set i

/-- What `poll` says about each descriptor in a round; a descriptor that is not open has no
file to be polled.
-/
abbrev Files := Nat → Option (LinuxResult PollState)

/-- The caller's sets and `res_num`. -/
abbrev Answers := UserSets × Nat

/-- One of the three tests of `poll_all`: a bit is set and counted. -/
def report (kind : Kind) (found : Bool) (fd : Nat) (answers : Answers) : Except Fault Answers :=
  if found then do
    let fds ← setFdSet (answers.1.get kind) fd
    .ok (answers.1.put kind fds, answers.2 + 1)
  else .ok answers

/-- A turn of the inner loop of `poll_all`. -/
def pollBit (files : Files) (readBits writeBits exceptBits : BitVec 64) (i : Nat)
    (answers : Answers) (j : Nat)
    : Except Fault Answers :=
  let bit := 1#64 <<< j
  if (readBits ||| writeBits ||| exceptBits) &&& bit = 0#64 then .ok answers
  else
    let fd := i + j
    match files fd with
    | none => .error (.errno .EBADF)
    | some (.ok state) => do
        let answers ← report .read (state.readable && readBits &&& bit != 0#64) fd answers
        report .write (state.writable && writeBits &&& bit != 0#64) fd answers
    | some (.error _) => report .except (exceptBits &&& bit != 0#64) fd answers

/-- A turn of the outer loop of `poll_all`, which has `i = k * BITS_PER_USIZE`. -/
def pollWord (files : Files) (fs : FdSets) (answers : Answers) (k : Nat)
    : Except Fault Answers := do
  let readBits ← fs.readWord .read k
  let writeBits ← fs.readWord .write k
  let exceptBits ← fs.readWord .except k
  if readBits ||| writeBits ||| exceptBits = 0#64 then .ok answers
  else
    let i := k * BITS_PER_USIZE
    (List.range (min BITS_PER_USIZE (fs.nfds - i))).foldlM
      (pollBit files readBits writeBits exceptBits i) answers

/-- The outer loop takes the words that cover `nfds`. -/
def pollAll (files : Files) (fs : FdSets) (sets : UserSets) : Except Fault Answers :=
  (List.range (usizes fs.nfds)).foldlM (pollWord files fs) (sets, 0)

/-- What the loop of `sys_select` meets in a round: the state of the files, and whether the
deadline has passed.
-/
structure Round where
  files : Files
  expired : Bool

/-- The loop of `sys_select`; there is no answer yet if the rounds do not suffice. -/
def selectLoop (fs : FdSets) : List Round → UserSets → Except Fault (Option Answers)
  | [], _ => .ok none
  | round :: later, sets => do
      let (sets, res) ← pollAll round.files fs sets
      if res > 0 then .ok (some (sets, res))
      else if round.expired then .ok (some (sets, 0))
      else selectLoop fs later sets

def sysSelect (nfds : CInt) (sets : UserSets) (rounds : List Round)
    : Except Fault (Option Answers) :=
  if nfds.toInt < 0 then .error (.errno .EINVAL)
  else
    let nfds := min nfds.toInt.toNat FD_SETSIZE
    let fdSets := FdSets.make nfds sets
    let sets := { readfds := zeroFdSet sets.readfds nfds
                  writefds := zeroFdSet sets.writefds nfds
                  exceptfds := zeroFdSet sets.exceptfds nfds }
    selectLoop fdSets rounds sets

-----------------------------------------------------------------------------------------
-- The bits of the sets, and what the readiness of the files makes of them
-----------------------------------------------------------------------------------------

def FdSet.test (set : FdSet) (fd : Nat) : Bool :=
  (set.word (fd / BITS_PER_USIZE)).getLsbD (fd % BITS_PER_USIZE)

/-- A null pointer has no bits. -/
def UserSets.test (sets : UserSets) (kind : Kind) (fd : Nat) : Bool :=
  match sets.get kind with
  | none => false
  | some set => set.test fd

/-- The poll reported the descriptor readable, writable, or an error. -/
def ready (files : Files) (kind : Kind) (fd : Nat) : Bool :=
  match kind, files fd with
  | .read, some (.ok state) => state.readable
  | .write, some (.ok state) => state.writable
  | .except, some (.error _) => true
  | _, _ => false

/-- The descriptor was requested, and is ready. -/
def found (files : Files) (before : UserSets) (kind : Kind) (fd : Nat) : Bool :=
  before.test kind fd && ready files kind fd

/-- How many bits below a bound satisfy a test, in the three sets together. -/
def totalBits (test : Kind → Nat → Bool) (bound : Nat) : Nat :=
  (List.range bound).countP (test .read) + (List.range bound).countP (test .write)
    + (List.range bound).countP (test .except)

/-- The descriptors in the words that cover `nfds`. -/
def covered (nfds : Nat) : Nat :=
  usizes nfds * BITS_PER_USIZE

theorem totalBits_succ (test : Kind → Nat → Bool) (bound : Nat)
    : totalBits test (bound + 1) = totalBits test bound
      + ((test .read bound).toNat + (test .write bound).toNat + (test .except bound).toNat) := by
  have one (kind : Kind) : (if test kind bound = true then 1 else 0) = (test kind bound).toNat := by
    cases test kind bound <;> rfl
  simp only [totalBits, List.range_succ, List.countP_append, List.countP_singleton, one]
  omega

theorem countP_range_cut {test part : Nat → Bool} {bound bound' : Nat} (onward : bound ≤ bound')
    (cut : ∀ fd < bound', test fd = (decide (fd < bound) && part fd))
    : (List.range bound').countP test = (List.range bound).countP part := by
  induction bound', onward using Nat.le_induction with
  | base =>
      refine List.countP_congr fun fd inside => ?_
      have below := List.mem_range.mp inside
      simp [cut fd below, below]
  | succ last later ih =>
      rw [List.range_succ, List.countP_append, ih fun fd below => cut fd (Nat.lt_succ_of_lt below)]
      simp [cut last (Nat.lt_succ_self last), Nat.not_lt_of_le later]

theorem le_covered (nfds : Nat) : nfds ≤ covered nfds := by
  unfold covered usizes BITS_PER_USIZE
  omega

theorem usizes_le {nfds : Nat} (most : nfds ≤ FD_SETSIZE) : usizes nfds ≤ FD_SETSIZE_USIZES := by
  unfold FD_SETSIZE at most
  unfold usizes BITS_PER_USIZE FD_SETSIZE_USIZES
  omega

theorem FdSet.test_update (set : FdSet) {fd : Nat} (inside : fd / BITS_PER_USIZE < FD_SETSIZE_USIZES)
    (bit : Nat)
    : FdSet.test (Function.update set ⟨fd / BITS_PER_USIZE, inside⟩
        (set ⟨fd / BITS_PER_USIZE, inside⟩ ||| 1#64 <<< (fd % BITS_PER_USIZE))) bit
      = (set.test bit || decide (bit = fd)) := by
  unfold FdSet.test FdSet.word
  have small : fd % BITS_PER_USIZE < 64 := Nat.mod_lt fd (by decide)
  by_cases same : bit / BITS_PER_USIZE = fd / BITS_PER_USIZE
  · have place : bit % BITS_PER_USIZE = fd % BITS_PER_USIZE ↔ bit = fd := by
      unfold BITS_PER_USIZE at same ⊢
      omega
    simp only [same, inside, dite_true, Function.update_self, place,
      BitVec.getLsbD_or_one_shiftLeft _ small]
  · have other : bit ≠ fd := fun equal => same (congrArg (· / BITS_PER_USIZE) equal)
    simp [same, other]

/-- Setting a bit in one of the caller's sets that is there. -/
theorem report_eq (kind : Kind) (answer : Bool) {fd : Nat} (inside : fd < FD_SETSIZE)
    (answers : Answers) (there : answer = true → (answers.1.get kind).isSome)
    : ∃ sets, report kind answer fd answers = .ok (sets, answers.2 + answer.toNat)
      ∧ (∀ other, (sets.get other).isSome = (answers.1.get other).isSome)
      ∧ ∀ other bit, sets.test other bit
          = (answers.1.test other bit || (answer && decide (other = kind ∧ bit = fd))) := by
  cases answer with
  | false => exact ⟨answers.1, rfl, fun _ => rfl, by simp⟩
  | true =>
      obtain ⟨set, here⟩ := Option.isSome_iff_exists.mp (there rfl)
      have place : fd / BITS_PER_USIZE < FD_SETSIZE_USIZES := by
        unfold FD_SETSIZE at inside
        unfold BITS_PER_USIZE FD_SETSIZE_USIZES
        omega
      refine ⟨_, by simp [report, here, setFdSet, place]; rfl, ?_, ?_⟩
      · intro other
        rw [UserSets.get_put]
        split
        · rename_i same
          rw [same, here]
          rfl
        · rfl
      · intro other bit
        unfold UserSets.test
        rw [UserSets.get_put]
        by_cases same : other = kind
        · simp only [same, if_true, here, FdSet.test_update, true_and, Bool.true_and]
        · simp [same]

theorem copyFromFdSet_inside {count start : Nat} {fds : Option FdSet}
    {bits : Fin (FD_SETSIZE_USIZES * 3) → Option (BitVec 64)} {i : Fin (FD_SETSIZE_USIZES * 3)}
    {k : Nat} (few : k < count) (place : i = start + k)
    : copyFromFdSet count start fds bits i
      = some (match fds with | none => 0 | some set => set.word k) := by
  unfold copyFromFdSet
  rw [if_pos (by omega), show i.val - start = k by omega]
  cases fds <;> rfl

theorem copyFromFdSet_outside {count start : Nat} {fds : Option FdSet}
    {bits : Fin (FD_SETSIZE_USIZES * 3) → Option (BitVec 64)} {i : Fin (FD_SETSIZE_USIZES * 3)}
    (outside : i < start ∨ start + count ≤ i)
    : copyFromFdSet count start fds bits i = bits i :=
  if_neg (by omega)

/-- The words of the array at an index hold the bits of the caller's sets. -/
def Holds (before : UserSets) (k : Nat) (kind : Kind) (word : BitVec 64) : Prop :=
  ∀ j < BITS_PER_USIZE, word.getLsbD j = before.test kind (k * BITS_PER_USIZE + j)

/-- Only words are read that `FdSets::from` has written. -/
theorem readWord_make {nfds k : Nat} (before : UserSets) (kind : Kind)
    (few : k < usizes (min nfds FD_SETSIZE))
    : ∃ word, (FdSets.make nfds before).readWord kind k = .ok word
      ∧ Holds before k kind word := by
  have most := usizes_le (Nat.min_le_right nfds FD_SETSIZE)
  have bit (fds : Option FdSet) (j : Nat) (small : j < BITS_PER_USIZE)
      : (match fds with | none => 0#64 | some set => set.word k).getLsbD j
        = (match fds with | none => false | some set => set.test (k * BITS_PER_USIZE + j)) := by
    have quotient : (k * BITS_PER_USIZE + j) / BITS_PER_USIZE = k := by
      unfold BITS_PER_USIZE at small ⊢
      omega
    have remainder : (k * BITS_PER_USIZE + j) % BITS_PER_USIZE = j := by
      unfold BITS_PER_USIZE at small ⊢
      omega
    cases fds with
    | none => exact BitVec.getLsbD_zero
    | some set => simp only [FdSet.test, quotient, remainder]
  unfold FD_SETSIZE_USIZES at most
  refine ⟨match before.get kind with | none => 0#64 | some set => set.word k, ?_,
    fun j small => bit (before.get kind) j small⟩
  have inside : kind.start + k < FD_SETSIZE_USIZES * 3 := by
    cases kind <;> simp only [Kind.start, FD_SETSIZE_USIZES] <;> omega
  have written : (FdSets.make nfds before).bits ⟨kind.start + k, inside⟩
      = some (match before.get kind with | none => 0#64 | some set => set.word k) := by
    cases kind with
    | read =>
        have first : Kind.read.start + k < FD_SETSIZE_USIZES := by
          simp only [Kind.start, FD_SETSIZE_USIZES]
          omega
        refine (copyFromFdSet_outside (.inl ?_)).trans
          ((copyFromFdSet_outside (.inl first)).trans (copyFromFdSet_inside few rfl))
        exact Nat.lt_of_lt_of_le first (by decide)
    | write =>
        refine (copyFromFdSet_outside (.inl ?_)).trans (copyFromFdSet_inside few rfl)
        simp only [Kind.start, FD_SETSIZE_USIZES]
        omega
    | except => exact copyFromFdSet_inside few rfl
  unfold FdSets.readWord
  rw [dif_pos inside, written]

-----------------------------------------------------------------------------------------
-- A round of polls
-----------------------------------------------------------------------------------------

theorem isSome_of_test {sets : UserSets} {kind : Kind} {fd : Nat} (set : sets.test kind fd = true)
    : (sets.get kind).isSome := by
  unfold UserSets.test at set
  split at set
  · cases set
  · rename_i here
    rw [here]
    rfl

section Round

variable {files : Files} {before : UserSets} {nfds : Nat}

/-- What the poll of a descriptor adds to the answers. -/
structure Marked (files : Files) (before : UserSets) (fd : Nat) (answers answers' : Answers)
    : Prop where
  pointers : ∀ kind, (answers'.1.get kind).isSome = (answers.1.get kind).isSome
  bits : ∀ kind bit, answers'.1.test kind bit
    = (answers.1.test kind bit || (found files before kind fd && decide (bit = fd)))
  count : answers'.2 = answers.2 + ((found files before .read fd).toNat
    + (found files before .write fd).toNat + (found files before .except fd).toNat)

/-- A requested descriptor is not open. -/
def Closed (files : Files) (before : UserSets) (nfds : Nat) (fault : Fault) : Prop :=
  fault = .errno .EBADF
  ∧ ∃ fd < nfds, files fd = none ∧ ∃ kind, before.test kind fd = true

section Bit

variable {words : Kind → BitVec 64} {k j fd : Nat} {answers : Answers}

/-- A word is tested for the descriptor of its bit. -/
theorem word_test (holds : ∀ kind, Holds before k kind (words kind)) (small : j < BITS_PER_USIZE)
    (kind : Kind)
    : (words kind &&& 1#64 <<< j != 0#64) = before.test kind (k * BITS_PER_USIZE + j) := by
  rw [← holds kind j small, Bool.eq_iff_iff, bne_iff_ne, ne_eq, BitVec.and_one_shiftLeft_eq_zero,
    Bool.not_eq_false]

theorem words_test (holds : ∀ kind, Holds before k kind (words kind)) (small : j < BITS_PER_USIZE)
    : (words .read ||| words .write ||| words .except) &&& 1#64 <<< j = 0#64
      ↔ ∀ kind, before.test kind (k * BITS_PER_USIZE + j) = false := by
  rw [BitVec.and_one_shiftLeft_eq_zero, BitVec.getLsbD_or, BitVec.getLsbD_or,
    holds .read j small, holds .write j small, holds .except j small, Bool.or_eq_false_iff,
    Bool.or_eq_false_iff]
  constructor
  · intro none kind
    cases kind <;> simp only [none]
  · intro none
    simp only [none, and_self]

theorem Marked.unrequested (none : ∀ kind, before.test kind fd = false)
    : Marked files before fd answers answers := by
  have nothing (kind : Kind) : found files before kind fd = false := by
    rw [found, none kind, Bool.false_and]
  exact { pointers := fun _ => rfl, bits := by simp [nothing], count := by simp [nothing] }

/-- A descriptor with a state is reported in the read and write sets that request it. -/
theorem reportState_ends (inside : fd < FD_SETSIZE)
    (pointers : ∀ kind, (answers.1.get kind).isSome = (before.get kind).isSome)
    {state : PollState} (opened : files fd = some (.ok state))
    : Outcome.Ends (Closed files before nfds) (Marked files before fd answers)
        (do
          let answers ← report .read (state.readable && before.test .read fd) fd answers
          report .write (state.writable && before.test .write fd) fd answers) := by
  obtain ⟨sets, reads, same, bits⟩ := report_eq .read
    (state.readable && before.test .read fd) inside answers fun answer =>
      (pointers .read).trans (isSome_of_test (Bool.and_eq_true_iff.mp answer).2)
  obtain ⟨sets', writes, same', bits'⟩ := report_eq .write
    (state.writable && before.test .write fd) inside
    (sets, answers.2 + (state.readable && before.test .read fd).toNat) fun answer =>
      ((same .write).trans (pointers .write)).trans
        (isSome_of_test (Bool.and_eq_true_iff.mp answer).2)
  simp only [reads, Outcome.ok_bind, writes]
  refine Outcome.Ends.pure ⟨?_, ?_, ?_⟩
  · exact fun kind => (same' kind).trans (same kind)
  · intro kind bit
    rw [bits', bits]
    cases kind <;> simp [found, ready, opened, Bool.and_comm]
  · simp [found, ready, opened, Bool.and_comm, Nat.add_assoc]

/-- A descriptor whose poll fails is reported in the set of exceptions if it is requested there. -/
theorem reportError_ends (inside : fd < FD_SETSIZE)
    (pointers : ∀ kind, (answers.1.get kind).isSome = (before.get kind).isSome)
    {e : LinuxError} (opened : files fd = some (.error e))
    : Outcome.Ends (Closed files before nfds) (Marked files before fd answers)
        (report .except (before.test .except fd) fd answers) := by
  obtain ⟨sets, run, same, bits⟩ := report_eq .except (before.test .except fd) inside
    answers fun answer => (pointers .except).trans (isSome_of_test answer)
  refine .of_eq run ⟨same, ?_, ?_⟩
  · intro kind bit
    rw [bits]
    cases kind <;> simp [found, ready, opened]
  · simp [found, ready, opened]

/-- The poll of a descriptor sets its bit in the sets that request what it is ready for. -/
theorem pollBit_ends (holds : ∀ kind, Holds before k kind (words kind))
    (small : j < BITS_PER_USIZE) (below : k * BITS_PER_USIZE + j < nfds) (most : nfds ≤ FD_SETSIZE)
    (pointers : ∀ kind, (answers.1.get kind).isSome = (before.get kind).isSome)
    : Outcome.Ends (Closed files before nfds)
        (Marked files before (k * BITS_PER_USIZE + j) answers)
        (pollBit files (words .read) (words .write) (words .except) (k * BITS_PER_USIZE) answers j)
    := by
  unfold pollBit
  simp only [word_test holds small]
  by_cases none : ∀ kind, before.test kind (k * BITS_PER_USIZE + j) = false
  · rw [if_pos ((words_test holds small).mpr none)]
    exact Outcome.Ends.pure (.unrequested none)
  · rw [if_neg (mt (words_test holds small).mp none)]
    obtain ⟨kind, asked⟩ := not_forall.mp none
    have inside := Nat.lt_of_lt_of_le below most
    cases opened : files (k * BITS_PER_USIZE + j) with
    | none => exact ⟨rfl, _, below, opened, kind, Bool.eq_true_of_not_eq_false asked⟩
    | some polled =>
        cases polled with
        | ok state => exact reportState_ends inside pointers opened
        | error e => exact reportError_ends inside pointers opened

end Bit

/-- The answers once the descriptors below a bound have been polled. -/
structure Polled (files : Files) (before : UserSets) (nfds bound : Nat) (answers : Answers)
    : Prop where
  pointers : ∀ kind, (answers.1.get kind).isSome = (before.get kind).isSome
  bits : ∀ kind fd, answers.1.test kind fd
    = if fd < covered nfds then decide (fd < bound) && found files before kind fd
      else before.test kind fd
  count : answers.2 = totalBits (found files before) bound

theorem Polled.next {bound : Nat} {answers answers' : Answers}
    (polled : Polled files before nfds bound answers) (below : bound < nfds)
    (marked : Marked files before bound answers answers')
    : Polled files before nfds (bound + 1) answers' where
  pointers kind := (marked.pointers kind).trans (polled.pointers kind)
  bits kind fd := by
    rw [marked.bits, polled.bits]
    rcases Nat.lt_trichotomy fd bound with earlier | rfl | later
    · simp [earlier, Nat.lt_succ_of_lt earlier, Nat.ne_of_lt earlier]
    · simp [Nat.lt_of_lt_of_le below (le_covered nfds)]
    · simp [Nat.not_lt_of_lt later, Nat.not_lt_of_le (Nat.succ_le_of_lt later),
        Nat.ne_of_gt later]
  count := by rw [marked.count, polled.count, totalBits_succ]

/-- Descriptors of which nothing is found do not have to be polled. -/
theorem Polled.skip {bound bound' : Nat} {answers : Answers} (onward : bound ≤ bound')
    (polled : Polled files before nfds bound answers) (most : bound' ≤ nfds)
    (nothing : ∀ fd, bound ≤ fd → fd < bound' → ∀ kind, found files before kind fd = false)
    : Polled files before nfds bound' answers := by
  induction bound', onward using Nat.le_induction with
  | base => exact polled
  | succ last later ih =>
      have none := nothing last later (Nat.lt_succ_self last)
      refine (ih (Nat.le_of_succ_le most) fun fd from' to' => ?_).next most ⟨fun _ => rfl, ?_, ?_⟩
      · exact nothing fd from' (Nat.lt_succ_of_lt to')
      · simp [none]
      · simp [none]

theorem pollWord_ends {k : Nat} (few : k < usizes (min nfds FD_SETSIZE)) {answers : Answers}
    (polled : Polled files before (min nfds FD_SETSIZE) (k * BITS_PER_USIZE) answers)
    : Outcome.Ends (Closed files before (min nfds FD_SETSIZE))
        (Polled files before (min nfds FD_SETSIZE)
          (min ((k + 1) * BITS_PER_USIZE) (min nfds FD_SETSIZE)))
        (pollWord files (FdSets.make nfds before) answers k) := by
  have start : k * BITS_PER_USIZE < min nfds FD_SETSIZE := by
    unfold usizes at few
    unfold BITS_PER_USIZE at few ⊢
    omega
  have read (kind : Kind) := readWord_make before kind few
  choose words reads holds using read
  have test {fd : Nat} (from' : k * BITS_PER_USIZE ≤ fd) (to' : fd < (k + 1) * BITS_PER_USIZE)
      (kind : Kind)
      : (words kind).getLsbD (fd - k * BITS_PER_USIZE) = before.test kind fd := by
    have small : fd - k * BITS_PER_USIZE < BITS_PER_USIZE := by
      rw [Nat.succ_mul] at to'
      omega
    rw [holds kind _ small, Nat.add_sub_cancel' from']
  unfold pollWord
  simp only [reads, Outcome.ok_bind, FdSets.make_nfds]
  split
  · rename_i none
    rw [BitVec.or_eq_zero_iff, BitVec.or_eq_zero_iff] at none
    refine polled.skip ?_ (Nat.min_le_right ..) fun fd from' to' kind => ?_
    · exact Nat.le_min.mpr ⟨Nat.mul_le_mul_right _ (Nat.le_succ k), Nat.le_of_lt start⟩
    · have clear : before.test kind fd = false := by
        rw [← test from' (Nat.lt_of_lt_of_le to' (Nat.min_le_left ..)) kind]
        cases kind <;> simp only [none, BitVec.getLsbD_zero]
      rw [found, clear, Bool.false_and]
  · refine (Outcome.Ends.foldlM_range
      (fun j => Polled files before (min nfds FD_SETSIZE) (k * BITS_PER_USIZE + j))
      (fun j few answers polled => ?_) polled).imp fun last polled => ?_
    · have small : j < BITS_PER_USIZE := Nat.lt_of_lt_of_le few (Nat.min_le_left ..)
      have below : k * BITS_PER_USIZE + j < min nfds FD_SETSIZE := by
        have left := Nat.lt_of_lt_of_le few (Nat.min_le_right ..)
        omega
      exact (pollBit_ends holds small below (Nat.min_le_right ..) polled.pointers).imp
        fun _ marked => polled.next below marked
    have stop : k * BITS_PER_USIZE + min BITS_PER_USIZE (min nfds FD_SETSIZE - k * BITS_PER_USIZE)
        = min ((k + 1) * BITS_PER_USIZE) (min nfds FD_SETSIZE) := by
      rw [Nat.succ_mul]
      omega
    rw [← stop]
    exact polled

/-- A round polls every requested descriptor below the bound, by the loop rule over the words. -/
theorem pollAll_ends {sets : UserSets}
    (start : Polled files before (min nfds FD_SETSIZE) 0 (sets, 0))
    : Outcome.Ends (Closed files before (min nfds FD_SETSIZE))
        (Polled files before (min nfds FD_SETSIZE) (min nfds FD_SETSIZE))
        (pollAll files (FdSets.make nfds before) sets) := by
  have before_stop {k : Nat} (few : k < usizes (min nfds FD_SETSIZE))
      : min (k * BITS_PER_USIZE) (min nfds FD_SETSIZE) = k * BITS_PER_USIZE := by
    unfold usizes at few
    unfold BITS_PER_USIZE at few ⊢
    omega
  unfold pollAll
  rw [FdSets.make_nfds]
  refine (Outcome.Ends.foldlM_range
    (fun k => Polled files before (min nfds FD_SETSIZE)
      (min (k * BITS_PER_USIZE) (min nfds FD_SETSIZE)))
    (fun k few answers polled => ?_) ?_).imp fun last polled => ?_
  · exact pollWord_ends few (before_stop few ▸ polled)
  · rwa [Nat.zero_mul, Nat.zero_min]
  · rwa [← covered, Nat.min_eq_right (le_covered _)] at polled

-----------------------------------------------------------------------------------------
-- The rounds of a call
-----------------------------------------------------------------------------------------

/-- Nothing that was requested is ready. -/
def Idle (files : Files) (before : UserSets) (nfds : Nat) : Prop :=
  ∀ kind, ∀ fd < nfds, found files before kind fd = false

/-- The caller's sets without the bits in the words that cover `nfds`. -/
structure Cleared (before : UserSets) (nfds : Nat) (sets : UserSets) : Prop where
  pointers : ∀ kind, (sets.get kind).isSome = (before.get kind).isSome
  bits : ∀ kind fd, sets.test kind fd
    = if fd < covered nfds then false else before.test kind fd

/-- The caller's sets after a call: in the words that cover `nfds` the bits of the requested
descriptors that are ready, the other words as they were.
-/
structure Reported (files : Files) (before : UserSets) (nfds : Nat) (sets : UserSets) : Prop where
  pointers : ∀ kind, (sets.get kind).isSome = (before.get kind).isSome
  bits : ∀ kind, ∀ fd < covered nfds,
    sets.test kind fd = true ↔ fd < nfds ∧ before.test kind fd = true ∧ ready files kind fd = true
  rest : ∀ kind fd, covered nfds ≤ fd → sets.test kind fd = before.test kind fd

theorem Cleared.polled {sets : UserSets} (cleared : Cleared before nfds sets)
    : Polled files before nfds 0 (sets, 0) where
  pointers := cleared.pointers
  bits kind fd := by simpa using cleared.bits kind fd
  count := rfl

/-- The answers of a round are the bits that are set, in the words that cover `nfds`. -/
theorem Polled.reported {answers : Answers} (polled : Polled files before nfds nfds answers)
    : Reported files before nfds answers.1
      ∧ answers.2 = totalBits answers.1.test (covered nfds) := by
  have inside (kind : Kind) (fd : Nat) (below : fd < covered nfds)
      : answers.1.test kind fd = (decide (fd < nfds) && found files before kind fd) := by
    rw [polled.bits, if_pos below]
  refine ⟨⟨polled.pointers, fun kind fd below => ?_, fun kind fd behind => ?_⟩, ?_⟩
  · rw [inside kind fd below, Bool.and_eq_true, decide_eq_true_iff, found, Bool.and_eq_true]
  · rw [polled.bits, if_neg (Nat.not_lt_of_le behind)]
  · rw [polled.count]
    unfold totalBits
    rw [countP_range_cut (le_covered nfds) (inside .read),
      countP_range_cut (le_covered nfds) (inside .write),
      countP_range_cut (le_covered nfds) (inside .except)]

/-- A round without an answer leaves the sets as it found them. -/
theorem Polled.idle {answers : Answers} (polled : Polled files before nfds nfds answers)
    (none : answers.2 = 0)
    : Idle files before nfds ∧ Cleared before nfds answers.1 := by
  have nothing : Idle files before nfds := by
    rw [polled.count] at none
    simp only [totalBits, Nat.add_eq_zero_iff, List.countP_eq_zero, List.mem_range] at none
    intro kind fd below
    cases kind
    · exact Bool.eq_false_of_not_eq_true (none.1.1 fd below)
    · exact Bool.eq_false_of_not_eq_true (none.1.2 fd below)
    · exact Bool.eq_false_of_not_eq_true (none.2 fd below)
  refine ⟨nothing, polled.pointers, fun kind fd => ?_⟩
  rw [polled.bits]
  by_cases below : fd < nfds
  · rw [nothing kind fd below, Bool.and_false]
  · rw [decide_eq_false below, Bool.false_and]

end Round

section Rounds

variable {before : UserSets} {nfds : Nat}

/-- The call ends in a round with answers, and in the rounds before it nothing was ready. -/
def Answered (before : UserSets) (nfds : Nat) (rounds : List Round) (result : Option Answers)
    : Prop :=
  ∀ sets n, result = some (sets, n) → 0 < n →
    ∃ earlier round later, rounds = earlier ++ round :: later
      ∧ (∀ idle ∈ earlier, Idle idle.files before nfds)
      ∧ Reported round.files before nfds sets
      ∧ n = totalBits sets.test (covered nfds)

/-- The loop of a call, by induction on the rounds. -/
theorem selectLoop_ends (rounds : List Round) {sets : UserSets}
    (cleared : Cleared before (min nfds FD_SETSIZE) sets)
    : Outcome.Ends
        (fun fault => ∃ round ∈ rounds, Closed round.files before (min nfds FD_SETSIZE) fault)
        (Answered before (min nfds FD_SETSIZE) rounds)
        (selectLoop (FdSets.make nfds before) rounds sets) := by
  induction rounds generalizing sets with
  | nil => exact fun _ _ none => nomatch none
  | cons round later ih =>
      unfold selectLoop
      have start : Polled round.files before (min nfds FD_SETSIZE) 0 (sets, 0) := cleared.polled
      have turn := pollAll_ends start
      cases polls : pollAll round.files (FdSets.make nfds before) sets with
      | error fault => exact ⟨round, List.mem_cons_self .., turn.of_error polls⟩
      | ok answers =>
          have polled := turn.of_ok polls
          obtain ⟨sets', res⟩ := answers
          simp only [Outcome.ok_bind]
          split
          · rintro _ _ ⟨⟩ _
            exact ⟨[], round, later, rfl, List.forall_mem_nil _, polled.reported⟩
          · rename_i none
            obtain ⟨idle, again⟩ := polled.idle (Nat.eq_zero_of_not_pos none)
            split
            · rintro _ _ ⟨⟩ some
              exact absurd some (Nat.lt_irrefl 0)
            · have rest := ih again
              cases run : selectLoop (FdSets.make nfds before) later sets' with
              | error fault =>
                  obtain ⟨last, there, closed⟩ := rest.of_error run
                  exact ⟨last, List.mem_cons_of_mem round there, closed⟩
              | ok result =>
                  intro sets'' n returned some
                  obtain ⟨earlier, last, others, split, before', reported⟩ :=
                    rest.of_ok run sets'' n returned some
                  exact ⟨round :: earlier, last, others, congrArg (round :: ·) split,
                    List.forall_mem_cons.mpr ⟨idle, before'⟩, reported⟩

theorem zeroFdSet_cleared (before : UserSets) (nfds : Nat)
    : Cleared before nfds {
        readfds := zeroFdSet before.readfds nfds
        writefds := zeroFdSet before.writefds nfds
        exceptfds := zeroFdSet before.exceptfds nfds } := by
  have cleared (set : FdSet) (fd : Nat)
      : FdSet.test (fun i => if i < usizes nfds then 0 else set i) fd
        = if fd < covered nfds then false else set.test fd := by
    have place : fd / BITS_PER_USIZE < usizes nfds ↔ fd < covered nfds :=
      Nat.div_lt_iff_lt_mul (by decide)
    unfold FdSet.test FdSet.word
    simp only [← place]
    by_cases inside : fd / BITS_PER_USIZE < FD_SETSIZE_USIZES
    · simp only [inside, dite_true]
      split <;> simp
    · simp [inside]
  constructor
  · intro kind
    cases kind <;> simp [UserSets.get, zeroFdSet]
  · intro kind fd
    have one (fds : Option FdSet)
        : (match zeroFdSet fds nfds with | none => false | some set => set.test fd)
          = if fd < covered nfds then false
            else match fds with | none => false | some set => set.test fd := by
      cases fds with
      | none => simp [zeroFdSet]
      | some set => exact cleared set fd
    cases kind
    · exact one before.readfds
    · exact one before.writefds
    · exact one before.exceptfds

/-- The descriptors that a call watches. -/
def watched (nfds : CInt) : Nat :=
  min nfds.toInt.toNat FD_SETSIZE

theorem sysSelect_ends {nfds : CInt} (nonneg : 0 ≤ nfds.toInt) (before : UserSets)
    (rounds : List Round)
    : Outcome.Ends (fun fault => ∃ round ∈ rounds, Closed round.files before (watched nfds) fault)
        (Answered before (watched nfds) rounds) (sysSelect nfds before rounds) := by
  have same : FdSets.make (watched nfds) before = FdSets.make nfds.toInt.toNat before := by
    unfold FdSets.make watched
    rw [Nat.min_assoc, Nat.min_self]
  have loop := selectLoop_ends rounds
    (zeroFdSet_cleared before (min nfds.toInt.toNat FD_SETSIZE))
  unfold sysSelect
  rw [if_neg (Int.not_lt.mpr nonneg)]
  dsimp only
  rw [← watched, same]
  exact loop

/-- No call reads a word that was not written or leaves an array, whatever is open. -/
theorem sysSelect_memory_safe (nfds : CInt) (before : UserSets) (rounds : List Round)
    : sysSelect nfds before rounds ≠ .error .uninitialised
      ∧ sysSelect nfds before rounds ≠ .error .outOfBounds := by
  by_cases negative : nfds.toInt < 0
  · simp [sysSelect, negative]
  · have ends := sysSelect_ends (Int.not_lt.mp negative) before rounds
    constructor
    · intro failed
      obtain ⟨_, _, closed, _⟩ := ends.of_error failed
      cases closed
    · intro failed
      obtain ⟨_, _, closed, _⟩ := ends.of_error failed
      cases closed

/-- If the requested descriptors are open, a call reads only words that were written, and when
it returns a positive number, the words that cover `nfds` hold exactly the requested descriptors
that the poll of the last round reported, the number counts their bits, and the words behind
them are as before.
-/
theorem select_reports (nfds : CInt) (nonneg : 0 ≤ nfds.toInt) (before : UserSets)
    (rounds : List Round)
    (opened : ∀ round ∈ rounds, ∀ fd < nfds.toInt.toNat, ∀ kind,
      before.test kind fd = true → round.files fd ≠ none)
    : (∃ result, sysSelect nfds before rounds = .ok result)
      ∧ ∀ sets n, sysSelect nfds before rounds = .ok (some (sets, n)) → 0 < n →
        ∃ earlier round later, rounds = earlier ++ round :: later
          ∧ (∀ idle ∈ earlier, Idle idle.files before (watched nfds))
          ∧ Reported round.files before (watched nfds) sets
          ∧ n = totalBits sets.test (covered (watched nfds)) := by
  have ends := sysSelect_ends nonneg before rounds
  cases run : sysSelect nfds before rounds with
  | error fault =>
      obtain ⟨round, there, _, fd, below, closed, kind, asked⟩ := ends.of_error run
      exact absurd closed
        (opened round there fd (Nat.lt_of_lt_of_le below (Nat.min_le_left ..)) kind asked)
  | ok result =>
      refine ⟨⟨result, rfl⟩, ?_⟩
      rintro sets n ⟨⟩ some
      exact ends.of_ok run sets n rfl some

/-- The read set holds the descriptors 0 and 64. -/
def zeroAnd64 : UserSets where
  readfds := some fun i => if i.val ≤ 1 then 1 else 0
  writefds := none
  exceptfds := none

def allReadable : Round where
  files _ := some (.ok { readable := true, writable := false })
  expired := false

theorem select_reports_zeroAnd64
    : ∃ sets, sysSelect 65 zeroAnd64 [allReadable] = .ok (some (sets, 2))
      ∧ 2 = totalBits sets.test (covered (watched 65)) := by
  have reports := select_reports 65 (by decide) zeroAnd64 [allReadable] (by simp [allReadable])
  refine ⟨_, rfl, ?_⟩
  obtain ⟨_, _, _, _, _, _, count⟩ := reports.2 _ 2 rfl (by decide)
  exact count

/-- A call for the descriptor 0 leaves the bit 64 in the set, which is not counted. -/
theorem select_keeps_far_bit
    : ∃ sets, sysSelect 1 zeroAnd64 [allReadable] = .ok (some (sets, 1))
      ∧ sets.test .read 0 = true ∧ sets.test .read 64 = true :=
  ⟨_, rfl, rfl, rfl⟩

end Rounds

end RCoreOS.PosixApi.IoMpx
