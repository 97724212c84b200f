import RCoreOS.Lib.Bits

/-! The pending signals of a process: which one `find_signal` finds, and in which order repeated
calls of `get_one_signal` deliver them.
-/

namespace RCoreOS.Axsignal

def maxSigNum : Nat :=
  64

namespace SignalNo

def sigkill : Nat :=
  9

def sigstop : Nat :=
  19

end SignalNo

/-- Signal `n` is bit `n - 1` of both words. -/
structure SignalSet where
  mask : BitVec 64
  pending : BitVec 64
deriving DecidableEq, Repr

theorem ctz_eq_maxSigNum {tempPending : BitVec 64}
    : tempPending.ctz.toNat = maxSigNum ↔ tempPending = 0#64 := by
  constructor
  · intro all
    by_contra some
    have below : tempPending.ctz.toNat < 64 := BitVec.lt_def.mp (BitVec.ctz_lt_iff_ne_zero.mpr some)
    exact absurd all (Nat.ne_of_lt below)
  · rintro rfl
    decide +kernel

namespace SignalSet

def new : SignalSet where
  mask := 0
  pending := 0

/-- The loop of `find_signal`. -/
def findFrom (mask tempPending : BitVec 64) : Option Nat :=
  let pos := tempPending.ctz.toNat
  if pos = maxSigNum then none
  else if mask &&& 1#64 <<< pos = 0#64
      ∨ pos = SignalNo.sigkill - 1 ∨ pos = SignalNo.sigstop - 1 then
    some (pos + 1)
  else findFrom mask (tempPending &&& ~~~(1#64 <<< pos))
termination_by tempPending.toNat
decreasing_by exact BitVec.clear_lowest_lt (mt ctz_eq_maxSigNum.mpr ‹¬ pos = maxSigNum›)

def findSignal (s : SignalSet) : Option Nat :=
  findFrom s.mask s.pending

def getOneSignal (s : SignalSet) : Option Nat × SignalSet :=
  match s.findSignal with
  | some pos => (some pos, { s with pending := s.pending &&& ~~~(1#64 <<< (pos - 1)) })
  | none => (none, s)

def tryAddSignal (s : SignalSet) (sigNum : Nat) : SignalSet :=
  { s with pending := s.pending ||| 1#64 <<< (sigNum - 1) }

-----------------------------------------------------------------------------------------
-- Which signals may be delivered
-----------------------------------------------------------------------------------------

def Pending (s : SignalSet) (signal : Nat) : Prop :=
  1 ≤ signal ∧ s.pending.getLsbD (signal - 1) = true

def Masked (s : SignalSet) (signal : Nat) : Prop :=
  1 ≤ signal ∧ s.mask.getLsbD (signal - 1) = true

/-- The signal is pending, and it is not masked or cannot be masked. -/
def Deliverable (s : SignalSet) (signal : Nat) : Prop :=
  s.Pending signal
  ∧ (¬ s.Masked signal ∨ signal = SignalNo.sigkill ∨ signal = SignalNo.sigstop)

instance (s : SignalSet) (signal : Nat) : Decidable (s.Pending signal) :=
  inferInstanceAs (Decidable (_ ∧ _))

instance (s : SignalSet) (signal : Nat) : Decidable (s.Masked signal) :=
  inferInstanceAs (Decidable (_ ∧ _))

instance (s : SignalSet) (signal : Nat) : Decidable (s.Deliverable signal) :=
  inferInstanceAs (Decidable (_ ∧ _))

theorem pending_succ {s : SignalSet} {pos : Nat} : s.Pending (pos + 1) ↔ pos ∈ s.pending.setBits := by
  rw [BitVec.mem_setBits]
  exact ⟨And.right, fun set => ⟨Nat.le_add_left 1 pos, set⟩⟩

theorem masked_succ {s : SignalSet} {pos : Nat}
    : s.Masked (pos + 1) ↔ s.mask.getLsbD pos = true :=
  ⟨And.right, fun set => ⟨Nat.le_add_left 1 pos, set⟩⟩

theorem Pending.le_maxSigNum {s : SignalSet} {signal : Nat} (pending : s.Pending signal)
    : signal ≤ maxSigNum := by
  have inside := BitVec.lt_of_getLsbD pending.2
  unfold maxSigNum
  omega

/-- The loop lets the signal at a position pass. -/
def passes (mask : BitVec 64) (pos : Nat) : Bool :=
  !mask.getLsbD pos || pos + 1 == SignalNo.sigkill || pos + 1 == SignalNo.sigstop

theorem deliverable_succ {s : SignalSet} {pos : Nat}
    : s.Deliverable (pos + 1) ↔ pos ∈ s.pending.setBits ∧ passes s.mask pos = true := by
  simp [Deliverable, pending_succ, masked_succ, passes, or_assoc]

theorem passes_iff {mask : BitVec 64} {pos : Nat}
    : mask &&& 1#64 <<< pos = 0#64 ∨ pos = SignalNo.sigkill - 1 ∨ pos = SignalNo.sigstop - 1
      ↔ passes mask pos = true := by
  simp [BitVec.and_one_shiftLeft_eq_zero, passes, SignalNo.sigkill, SignalNo.sigstop, or_assoc]

/-- The loop finds the first set bit that passes, by induction on the turns. -/
theorem findFrom_eq (mask tempPending : BitVec 64)
    : findFrom mask tempPending
      = (tempPending.setBits.find? (passes mask)).map (· + 1) := by
  fun_induction findFrom mask tempPending with
  | case1 tempPending pos ended =>
      rw [ctz_eq_maxSigNum.mp ended, BitVec.setBits_zero]
      rfl
  | case2 tempPending pos more found =>
      rw [BitVec.setBits_of_ne_zero (mt ctz_eq_maxSigNum.mpr more),
        List.find?_cons_of_pos (passes_iff.mp found)]
      rfl
  | case3 tempPending pos more blocked ih =>
      rw [BitVec.setBits_of_ne_zero (mt ctz_eq_maxSigNum.mpr more),
        List.find?_cons_of_neg (mt passes_iff.mpr blocked)]
      exact ih

theorem findSignal_eq_none {s : SignalSet}
    : s.findSignal = none ↔ ∀ signal, ¬ s.Deliverable signal := by
  rw [findSignal, findFrom_eq, Option.map_eq_none_iff, List.find?_eq_none]
  constructor
  · intro none signal deliverable
    obtain ⟨pos, rfl⟩ := Nat.exists_eq_add_of_le' deliverable.1.1
    obtain ⟨set, passing⟩ := deliverable_succ.mp deliverable
    exact none pos set passing
  · intro none pos set passing
    exact none (pos + 1) (deliverable_succ.mpr ⟨set, passing⟩)

/-- The first set bit that passes is the lowest one, since the bits come up in increasing order.
-/
theorem findSignal_least {s : SignalSet} {signal : Nat} (found : s.findSignal = some signal)
    : s.Deliverable signal ∧ ∀ other, s.Deliverable other → signal ≤ other := by
  rw [findSignal, findFrom_eq, Option.map_eq_some_iff] at found
  obtain ⟨pos, found, rfl⟩ := found
  refine ⟨deliverable_succ.mpr ⟨List.mem_of_find?_eq_some found, List.find?_some found⟩, ?_⟩
  intro other deliverable
  obtain ⟨place, rfl⟩ := Nat.exists_eq_add_of_le' deliverable.1.1
  obtain ⟨set, passing⟩ := deliverable_succ.mp deliverable
  obtain ⟨_, before, after, split, earlier⟩ := List.find?_eq_some_iff_append.mp found
  rw [split, List.mem_append, List.mem_cons] at set
  have sorted := s.pending.setBits_pairwise
  rw [split, List.pairwise_append, List.pairwise_cons] at sorted
  rcases set with first | rfl | later
  · have blocked := earlier place first
    rw [passing] at blocked
    exact Bool.noConfusion blocked
  · exact Nat.le_refl _
  · exact Nat.succ_le_succ (Nat.le_of_lt (sorted.2.1.1 place later))

theorem findSignal_eq_some {s : SignalSet} {signal : Nat}
    : s.findSignal = some signal
      ↔ s.Deliverable signal ∧ ∀ other, s.Deliverable other → signal ≤ other := by
  refine ⟨findSignal_least, fun ⟨deliverable, least⟩ => ?_⟩
  cases found : s.findSignal with
  | none => exact absurd deliverable (findSignal_eq_none.mp found signal)
  | some first =>
      have lowest := findSignal_least found
      exact congrArg some (Nat.le_antisymm (lowest.2 signal deliverable) (least first lowest.1))

-----------------------------------------------------------------------------------------
-- What the operations do to the pending signals
-----------------------------------------------------------------------------------------

@[simp]
theorem getOneSignal_fst (s : SignalSet) : s.getOneSignal.1 = s.findSignal := by
  unfold getOneSignal
  split <;> simp_all

theorem getOneSignal_of_none {s : SignalSet} (none : s.findSignal = none)
    : s.getOneSignal.2 = s := by
  unfold getOneSignal
  rw [none]

@[simp]
theorem getOneSignal_mask (s : SignalSet) : s.getOneSignal.2.mask = s.mask := by
  unfold getOneSignal
  split <;> rfl

/-- The signal that is found is the only one that is no longer pending. -/
theorem getOneSignal_pending (s : SignalSet) (signal : Nat)
    : s.getOneSignal.2.Pending signal ↔ s.Pending signal ∧ s.findSignal ≠ some signal := by
  unfold getOneSignal
  split
  · rename_i found same
    have positive := (findSignal_least same).1.1.1
    rw [same]
    simp only [Pending, BitVec.getLsbD_and_not_one_shiftLeft, Bool.and_eq_true, decide_eq_true_iff,
      ne_eq, Option.some.injEq, and_assoc]
    exact and_congr_right fun one => and_congr_right fun _ => by omega
  · rename_i same
    simp [same]

theorem getOneSignal_deliverable (s : SignalSet) (signal : Nat)
    : s.getOneSignal.2.Deliverable signal ↔ s.Deliverable signal ∧ s.findSignal ≠ some signal := by
  unfold Deliverable Masked
  rw [getOneSignal_pending, getOneSignal_mask]
  exact and_right_comm

theorem tryAddSignal_pending (s : SignalSet) {sigNum : Nat} (one : 1 ≤ sigNum)
    (most : sigNum ≤ maxSigNum) (signal : Nat)
    : (s.tryAddSignal sigNum).Pending signal ↔ s.Pending signal ∨ signal = sigNum := by
  have inside : sigNum - 1 < 64 := by
    unfold maxSigNum at most
    omega
  unfold Pending tryAddSignal
  rw [BitVec.getLsbD_or_one_shiftLeft s.pending inside, Bool.or_eq_true, decide_eq_true_iff]
  constructor
  · rintro ⟨positive, old | same⟩
    · exact .inl ⟨positive, old⟩
    · exact .inr (by omega)
  · rintro (⟨positive, old⟩ | rfl)
    · exact ⟨positive, .inl old⟩
    · exact ⟨one, .inr rfl⟩

-----------------------------------------------------------------------------------------
-- Repeated calls of `get_one_signal`
-----------------------------------------------------------------------------------------

/-- The results of calls in a row, and the state after them. -/
def getMany : Nat → SignalSet → List (Option Nat) × SignalSet
  | 0, s => ([], s)
  | calls + 1, s =>
      let more := getMany calls s.getOneSignal.2
      (s.getOneSignal.1 :: more.1, more.2)

/-- The deliverable signals in increasing order. -/
def deliverables (s : SignalSet) : List Nat :=
  (List.range' 1 maxSigNum).filter (s.Deliverable ·)

theorem mem_deliverables {s : SignalSet} {signal : Nat}
    : signal ∈ s.deliverables ↔ s.Deliverable signal := by
  rw [deliverables, List.mem_filter, List.mem_range'_1, decide_eq_true_iff]
  refine ⟨And.right, fun deliverable => ⟨⟨deliverable.1.1, ?_⟩, deliverable⟩⟩
  exact Nat.lt_one_add_iff.mpr deliverable.1.le_maxSigNum

theorem deliverables_pairwise (s : SignalSet) : s.deliverables.Pairwise (· < ·) :=
  (List.pairwise_lt_range' ..).filter _

theorem deliverables_of_none {s : SignalSet} (none : s.findSignal = none)
    : s.deliverables = [] :=
  List.eq_nil_iff_forall_not_mem.mpr fun signal found =>
    findSignal_eq_none.mp none signal (mem_deliverables.mp found)

/-- One call takes the head of the deliverable signals. -/
theorem deliverables_of_some {s : SignalSet} {signal : Nat} (found : s.findSignal = some signal)
    : s.deliverables = signal :: s.getOneSignal.2.deliverables := by
  obtain ⟨deliverable, least⟩ := findSignal_least found
  have member (other : Nat)
      : other ∈ s.getOneSignal.2.deliverables ↔ s.Deliverable other ∧ signal ≠ other := by
    rw [mem_deliverables, getOneSignal_deliverable, found, ne_eq, Option.some.injEq]
  refine s.deliverables_pairwise.eq_of_mem_iff
    (List.pairwise_cons.mpr ⟨?_, deliverables_pairwise _⟩) ?_
  · intro other later
    obtain ⟨also, different⟩ := (member other).mp later
    exact Nat.lt_of_le_of_ne (least other also) different
  · intro other
    rw [List.mem_cons, member, mem_deliverables]
    by_cases same : other = signal
    · simp [same, deliverable]
    · simp [same, Ne.symm same]

/-- Calls in a row deliver the signals in their order and then nothing, by induction on the
calls.
-/
theorem getMany_results (calls : Nat) (s : SignalSet)
    : (s.getMany calls).1
      = (s.deliverables.take calls).map some
        ++ List.replicate (calls - s.deliverables.length) none := by
  induction calls generalizing s with
  | zero => simp [getMany]
  | succ calls ih =>
      rw [getMany, ih, getOneSignal_fst]
      cases found : s.findSignal with
      | none =>
          rw [getOneSignal_of_none found, deliverables_of_none found]
          simp [List.replicate_succ]
      | some signal =>
          rw [deliverables_of_some found]
          simp

/-- What is pending after calls in a row, by induction on the calls. -/
theorem getMany_pending (calls : Nat) (s : SignalSet) (signal : Nat)
    : (s.getMany calls).2.Pending signal
      ↔ s.Pending signal ∧ signal ∉ s.deliverables.take calls := by
  induction calls generalizing s with
  | zero => simp [getMany]
  | succ calls ih =>
      rw [getMany, ih, getOneSignal_pending]
      cases found : s.findSignal with
      | none =>
          rw [getOneSignal_of_none found, deliverables_of_none found]
          simp
      | some first =>
          rw [deliverables_of_some found, List.take_succ_cons, List.mem_cons, not_or, and_assoc,
            ne_eq, Option.some.injEq, eq_comm (a := first)]

theorem getMany_mask (calls : Nat) (s : SignalSet) : (s.getMany calls).2.mask = s.mask := by
  induction calls generalizing s with
  | zero => rfl
  | succ calls ih => exact (ih _).trans s.getOneSignal_mask

-----------------------------------------------------------------------------------------
-- Histories
-----------------------------------------------------------------------------------------

/-- What happens to the signals of a process. -/
inductive Op where
  | tryAddSignal (sigNum : Nat) (one : 1 ≤ sigNum) (most : sigNum ≤ maxSigNum)
  | setMask (mask : BitVec 64)
  | getOneSignal

def apply (s : SignalSet) : Op → SignalSet
  | .tryAddSignal sigNum _ _ => s.tryAddSignal sigNum
  | .setMask mask => { s with mask }
  | .getOneSignal => s.getOneSignal.2

def after (s : SignalSet) (ops : List Op) : SignalSet :=
  ops.foldl apply s

/-- The signals that wait after an operation, given those that waited before it. -/
def account (s : SignalSet) (waiting : Set Nat) : Op → Set Nat
  | .tryAddSignal sigNum _ _ => insert sigNum waiting
  | .setMask _ => waiting
  | .getOneSignal => {signal ∈ waiting | s.getOneSignal.1 ≠ some signal}

/-- The signals that were added and not delivered since. -/
def undelivered (s : SignalSet) (waiting : Set Nat) : List Op → Set Nat
  | [] => waiting
  | op :: rest => undelivered (s.apply op) (s.account waiting op) rest

theorem apply_pending (s : SignalSet) (op : Op)
    : {signal | (s.apply op).Pending signal} = s.account {signal | s.Pending signal} op := by
  ext signal
  cases op with
  | tryAddSignal sigNum one most =>
      exact (s.tryAddSignal_pending one most signal).trans or_comm
  | setMask mask => rfl
  | getOneSignal =>
      refine (s.getOneSignal_pending signal).trans ?_
      rw [← getOneSignal_fst]
      rfl

/-- No signal is lost and none comes from nowhere, by induction on the history. -/
theorem after_pending (s : SignalSet) (ops : List Op)
    : {signal | (s.after ops).Pending signal} = s.undelivered {signal | s.Pending signal} ops := by
  induction ops generalizing s with
  | nil => rfl
  | cons op rest ih => exact (ih (s.apply op)).trans (by rw [apply_pending]; rfl)

/-- After every history `find_signal` returns the least deliverable signal, `get_one_signal`
takes exactly this one away, and calls in a row deliver every deliverable signal once in
increasing order, leave the others pending, and then return nothing.
-/
theorem delivery_order (start : SignalSet) (ops : List Op)
    : let s := start.after ops
      (∀ signal, s.findSignal = some signal
        ↔ s.Deliverable signal ∧ ∀ other, s.Deliverable other → signal ≤ other)
      ∧ (s.findSignal = none ↔ ∀ signal, ¬ s.Deliverable signal)
      ∧ s.getOneSignal.1 = s.findSignal
      ∧ s.getOneSignal.2.mask = s.mask
      ∧ (∀ signal, s.getOneSignal.2.Pending signal
        ↔ s.Pending signal ∧ s.findSignal ≠ some signal)
      ∧ s.deliverables.Pairwise (· < ·)
      ∧ (∀ signal, signal ∈ s.deliverables ↔ s.Deliverable signal)
      ∧ ∀ calls,
          (s.getMany calls).1
            = (s.deliverables.take calls).map some
              ++ List.replicate (calls - s.deliverables.length) none
          ∧ (s.getMany calls).2.mask = s.mask
          ∧ ∀ signal, (s.getMany calls).2.Pending signal
              ↔ s.Pending signal ∧ signal ∉ s.deliverables.take calls := by
  intro s
  exact ⟨fun _ => findSignal_eq_some, findSignal_eq_none, s.getOneSignal_fst, s.getOneSignal_mask,
    s.getOneSignal_pending, s.deliverables_pairwise, fun _ => mem_deliverables,
    fun calls => ⟨getMany_results calls s, getMany_mask calls s, getMany_pending calls s⟩⟩

end SignalSet

end RCoreOS.Axsignal
