import RCoreOS.PosixApi.Pipe

/-! When a call on a pipe waits. A loop under the lock notices that a call is complete only if
it has a byte, or room for one, to spare; otherwise the next turn decides whether the call waits.
-/

namespace RCoreOS.PosixApi

-----------------------------------------------------------------------------------------
-- How much the loops move
-----------------------------------------------------------------------------------------

namespace Channel

/-- The loop of `read` fills the caller's buffer as far as its turns go, and returns with a turn
to spare.
-/
theorem readLoop_length {maxLen : Nat} (n : Nat) (c : Channel) {data : List UInt8}
    (few : data.length ≤ maxLen)
    : (c.readLoop maxLen n data).2.1.length = min maxLen (data.length + n)
      ∧ ((c.readLoop maxLen n data).2.2 = true ↔ maxLen < data.length + n) := by
  induction n generalizing c data with
  | zero =>
      refine ⟨(Nat.min_eq_right few).symm, iff_of_false Bool.false_ne_true ?_⟩
      exact Nat.not_lt_of_le few
  | succ n ih =>
      unfold readLoop
      split
      · next all =>
          refine ⟨?_, iff_of_true rfl ?_⟩
          · rw [all]
            omega
          · omega
      · have more : (data ++ [c.readByte.1]).length = data.length + 1 := List.length_append
        have fits : (data ++ [c.readByte.1]).length ≤ maxLen := by omega
        obtain ⟨length, returns⟩ := ih c.readByte.2 fits
        rw [more, Nat.add_assoc, Nat.add_comm 1 n] at length returns
        exact ⟨length, returns⟩

/-- The loop of `write`, likewise. -/
theorem writeLoop_length {buf : List UInt8} (n : Nat) (c : Channel) {writeSize : Nat}
    (within : writeSize ≤ buf.length)
    : (c.writeLoop buf n writeSize).2.1 = min buf.length (writeSize + n)
      ∧ ((c.writeLoop buf n writeSize).2.2 = true ↔ buf.length < writeSize + n) := by
  induction n generalizing c writeSize with
  | zero =>
      refine ⟨(Nat.min_eq_right within).symm, iff_of_false Bool.false_ne_true ?_⟩
      exact Nat.not_lt_of_le within
  | succ n ih =>
      unfold writeLoop
      split
      · next none =>
          have all : buf.length ≤ writeSize := List.getElem?_eq_none_iff.mp none
          refine ⟨?_, iff_of_true rfl ?_⟩
          · dsimp only
            omega
          · omega
      · next byte found =>
          obtain ⟨inside, -⟩ := List.getElem?_eq_some_iff.mp found
          obtain ⟨length, returns⟩ := ih (c.writeByte byte) inside
          rw [Nat.succ_add_eq_add_succ] at length returns
          exact ⟨length, returns⟩

end Channel

-----------------------------------------------------------------------------------------
-- Turns, and what the other end does in between
-----------------------------------------------------------------------------------------

def End.other : End → End
  | .readEnd => .writeEnd
  | .writeEnd => .readEnd

/-- A call that has moved nothing yet. -/
def Call.Fresh : Call → Prop
  | .idle => False
  | .reading _ data => data = []
  | .writing _ writeSize => writeSize = 0

namespace Pipe

variable {Task : Type} [DecidableEq Task]

/-- The next turn of a task at the lock. -/
def turn (s : Pipe Task) (t : Task) : Pipe Task :=
  match s.call t with
  | .idle => s
  | .reading maxLen data => s.readTurn t maxLen data
  | .writing buf writeSize => s.writeTurn t buf writeSize

/-- The turn reaches `sys_sched_yield`. -/
def Yields (s : Pipe Task) (t : Task) : Prop :=
  match s.call t with
  | .idle => False
  | .reading .. => s.channel.ring.availableRead = 0 ∧ s.writeEndClose = false
  | .writing .. => s.channel.ring.availableWrite = 0

/-- The turn ends the call with all that it was asked for. -/
def Completes (s : Pipe Task) (t : Task) : Prop :=
  (s.turn t).call t = .idle
  ∧ match s.call t with
    | .idle => False
    | .reading maxLen _ => ∃ bytes, (s.turn t).reads = s.reads ++ [bytes] ∧ bytes.length = maxLen
    | .writing buf _ => (s.turn t).writes = s.writes ++ [buf]

/-- What tasks do with one of the ends. -/
inductive Works (e : End) (s : Pipe Task) : Pipe Task → Prop
  | start (u) {call} : s.live e = true → s.call u = .idle → call.pipeEnd = some e → call.Fresh →
      Works e s (s.setCall u call)
  | turn (u) : (s.call u).pipeEnd = some e → Works e s (s.turn u)
  | close : (∀ u, (s.call u).pipeEnd ≠ some e) → Works e s (s.close e)

/-- The call completes without a turn that yields, whatever the other end does between its
turns.
-/
inductive Prompt (t : Task) : Pipe Task → Prop
  | completes {s} : ¬ s.Yields t → s.Completes t → Prompt t s
  | goesOn {s e} : ¬ s.Yields t → (s.call t).pipeEnd = some e →
      (∀ s', Relation.ReflTransGen (Works e.other) (s.turn t) s' → Prompt t s') → Prompt t s

variable {s s' : Pipe Task} {t : Task}

/-- Work on an end consists of steps of runs. -/
theorem Works.step {e : End} (works : Works e s s')
    : Step (fun _ => True) (fun _ => True) s s' := by
  cases works with
  | @start u call live idle uses fresh =>
      cases call with
      | idle => cases fresh
      | reading maxLen data =>
          cases uses
          cases fresh
          exact .read .readEnd u maxLen trivial live idle rfl
      | writing buf writeSize =>
          cases uses
          cases fresh
          exact .write .writeEnd u buf trivial live idle rfl
  | turn u uses =>
      unfold Pipe.turn
      cases calling : s.call u with
      | idle => cases (calling ▸ uses : Call.idle.pipeEnd = some e)
      | reading maxLen data => exact .readTurn u calling
      | writing buf writeSize => exact .writeTurn u calling
  | close unused => exact .close e unused

theorem Prompt.not_yields (prompt : s.Prompt t) : ¬ s.Yields t := by
  cases prompt with
  | completes awake => exact awake
  | goesOn awake => exact awake

-----------------------------------------------------------------------------------------
-- Reads
-----------------------------------------------------------------------------------------

variable {maxLen writeSize : Nat} {data buf : List UInt8}

theorem turn_reading (calling : s.call t = .reading maxLen data)
    : s.turn t = s.readTurn t maxLen data := by
  rw [turn, calling]

theorem turn_writing (calling : s.call t = .writing buf writeSize)
    : s.turn t = s.writeTurn t buf writeSize := by
  rw [turn, calling]

omit [DecidableEq Task] in
theorem yields_reading (calling : s.call t = .reading maxLen data)
    : s.Yields t ↔ s.channel.ring.availableRead = 0 ∧ s.writeEndClose = false := by
  rw [Yields, calling]

omit [DecidableEq Task] in
theorem yields_writing (calling : s.call t = .writing buf writeSize)
    : s.Yields t ↔ s.channel.ring.availableWrite = 0 := by
  rw [Yields, calling]

omit [DecidableEq Task] in
/-- While an end is in use, the other one is closed exactly if it was dropped. -/
theorem writeEndClose_iff (live : s.live .readEnd = true)
    : s.writeEndClose = true ↔ s.live .writeEnd = false := by
  rw [writeEndClose, decide_eq_true_iff, strongCount, live]
  cases s.live .writeEnd <;> decide

/-- With a byte to spare, the read completes in this turn. -/
theorem readTurn_completes (calling : s.call t = .reading maxLen data)
    (few : data.length ≤ maxLen) (spare : maxLen < data.length + s.channel.ring.availableRead)
    : s.Completes t := by
  obtain ⟨length, returns⟩ := s.channel.readLoop_length s.channel.ring.availableRead few
  have some : s.channel.ring.availableRead ≠ 0 := by omega
  unfold Completes
  rw [turn_reading calling, calling, readTurn]
  simp only [if_neg some, returns.mpr spare, if_true]
  refine ⟨Function.update_self .., _, rfl, ?_⟩
  rw [length]
  omega

/-- A read that takes the last byte goes on, although it is complete. -/
theorem readTurn_fills {pending : List UInt8} (fifo : s.channel.Fifo pending)
    (calling : s.call t = .reading maxLen data)
    (few : data.length ≤ maxLen) (all : maxLen = data.length + s.channel.ring.availableRead)
    (some : s.channel.ring.availableRead ≠ 0)
    : ∃ bytes, (s.turn t).call = Function.update s.call t (.reading maxLen bytes)
      ∧ bytes.length = maxLen
      ∧ (s.turn t).channel.ring.availableRead = 0
      ∧ (s.turn t).live = s.live := by
  obtain ⟨length, returns⟩ := s.channel.readLoop_length s.channel.ring.availableRead few
  have available := fifo.holds.availableRead
  obtain ⟨moved, rest, split, after, -, -, read, -⟩ :=
    fifo.readLoop (Nat.le_of_eq available) maxLen data
  have goesOn : ¬ maxLen < data.length + s.channel.ring.availableRead := by omega
  rw [turn_reading calling, readTurn]
  simp only [if_neg some, if_neg (mt returns.mp goesOn)]
  refine ⟨_, rfl, by rw [length]; omega, ?_, rfl⟩
  have empty : rest.length = 0 := by
    have total := congrArg List.length split
    have filled := congrArg List.length read
    rw [length] at filled
    simp only [List.length_append] at total filled
    omega
  exact after.holds.availableRead.trans empty

/-- Once the write end is closed, a complete read returns from an empty buffer. -/
theorem readTurn_ends (calling : s.call t = .reading maxLen data) (full : data.length = maxLen)
    (none : s.channel.ring.availableRead = 0) (closed : s.writeEndClose = true)
    : s.Completes t := by
  unfold Completes
  rw [turn_reading calling, calling, readTurn]
  simp only [if_pos none, closed, if_true]
  exact ⟨Function.update_self .., data, rfl, full⟩

/-- Nobody works on an end that was closed. -/
theorem works_closed {e : End} (ordered : s.Ordered) (closed : s.live e = false)
    (works : Works e s s')
    : s' = s := by
  cases works with
  | start u live => exact absurd live (by rw [closed]; decide)
  | turn u uses =>
      have sound := ordered.calls u
      cases calling : s.call u with
      | idle => rw [calling] at uses; cases uses
      | reading maxLen data =>
          rw [calling] at uses sound
          cases uses
          exact absurd sound (by rw [Call.Sound, closed]; decide)
      | writing buf writeSize =>
          rw [calling] at uses sound
          cases uses
          exact absurd sound.1 (by rw [closed]; decide)
  | close unused =>
      have same : Function.update s.live e false = s.live := by
        rw [← closed, Function.update_eq_self]
      rw [Pipe.close, same]

theorem works_closed_run {e : End} (ordered : s.Ordered) (closed : s.live e = false)
    (works : Relation.ReflTransGen (Works e) s s')
    : s' = s := by
  induction works with
  | refl => rfl
  | tail _ step ih =>
      subst ih
      exact works_closed ordered closed step

/-- A read of all available bytes waits for more while the write end is open. -/
theorem not_prompt_reading (ordered : s.Ordered) (calling : s.call t = .reading maxLen data)
    (few : data.length ≤ maxLen) (all : maxLen = data.length + s.channel.ring.availableRead)
    (opened : s.live .writeEnd ≠ false)
    : ¬ s.Prompt t := by
  intro prompt
  obtain ⟨pending, fifo⟩ := ordered.fifo
  have sound : (Call.reading maxLen data).Sound s.live := calling ▸ ordered.calls t
  have waits : s.writeEndClose = false :=
    Bool.eq_false_of_not_eq_true (mt (writeEndClose_iff sound).mp opened)
  by_cases none : s.channel.ring.availableRead = 0
  · exact prompt.not_yields ((yields_reading calling).mpr ⟨none, waits⟩)
  · obtain ⟨bytes, call, -, empty, live⟩ := readTurn_fills fifo calling few all none
    have still : (s.turn t).call t = .reading maxLen bytes := by
      rw [call, Function.update_self]
    cases prompt with
    | completes _ done => cases still.symm.trans done.1
    | goesOn _ _ next =>
        refine (next _ .refl).not_yields ((yields_reading still).mpr ⟨empty, ?_⟩)
        rw [← waits, writeEndClose, strongCount, live]
        rfl

/-- A read of all available bytes ends at the closed write end. -/
theorem prompt_reading_closed (ordered : s.Ordered) (calling : s.call t = .reading maxLen data)
    (few : data.length ≤ maxLen) (all : maxLen = data.length + s.channel.ring.availableRead)
    (closed : s.live .writeEnd = false)
    : s.Prompt t := by
  obtain ⟨pending, fifo⟩ := ordered.fifo
  have sound : (Call.reading maxLen data).Sound s.live := calling ▸ ordered.calls t
  have ended := (writeEndClose_iff sound).mpr closed
  by_cases none : s.channel.ring.availableRead = 0
  · refine .completes (fun yields => ?_) (readTurn_ends calling (by omega) none ended)
    exact absurd ((yields_reading calling).mp yields).2 (by rw [ended]; decide)
  · obtain ⟨bytes, call, full, empty, live⟩ := readTurn_fills fifo calling few all none
    have still : (s.turn t).call t = .reading maxLen bytes := by
      rw [call, Function.update_self]
    refine .goesOn (e := .readEnd) (fun yields => none ((yields_reading calling).mp yields).1)
      (by rw [calling]; rfl) fun s' works => ?_
    have stepped : Step (fun _ => True) (fun _ => True) s (s.turn t) :=
      turn_reading calling ▸ .readTurn t calling
    obtain rfl := works_closed_run (stepped.ordered ordered) (live ▸ closed) works
    have ended' : (s.turn t).writeEndClose = true :=
      (writeEndClose_iff (live ▸ sound)).mpr (live ▸ closed)
    refine .completes (fun yields => ?_) (readTurn_ends still full empty ended')
    exact absurd ((yields_reading still).mp yields).2 (by rw [ended']; decide)

/-- A read that is satisfiable does not wait exactly if a byte is left to spare or the write
end is closed.
-/
theorem prompt_reading_iff (ordered : s.Ordered) (calling : s.call t = .reading maxLen data)
    (few : data.length ≤ maxLen) (enough : maxLen ≤ data.length + s.channel.ring.availableRead)
    : s.Prompt t
      ↔ maxLen < data.length + s.channel.ring.availableRead ∨ s.live .writeEnd = false := by
  by_cases spare : maxLen < data.length + s.channel.ring.availableRead
  · refine iff_of_true (.completes (fun yields => ?_) (readTurn_completes calling few spare))
      (.inl spare)
    have none := ((yields_reading calling).mp yields).1
    omega
  · have all : maxLen = data.length + s.channel.ring.availableRead := by omega
    rw [or_iff_right spare]
    by_cases closed : s.live .writeEnd = false
    · exact iff_of_true (prompt_reading_closed ordered calling few all closed) closed
    · exact iff_of_false (not_prompt_reading ordered calling few all closed) closed

-----------------------------------------------------------------------------------------
-- Writes
-----------------------------------------------------------------------------------------

/-- With room to spare, the write completes in this turn. -/
theorem writeTurn_completes (calling : s.call t = .writing buf writeSize)
    (within : writeSize ≤ buf.length)
    (spare : buf.length < writeSize + s.channel.ring.availableWrite)
    : s.Completes t := by
  obtain ⟨-, returns⟩ := s.channel.writeLoop_length s.channel.ring.availableWrite within
  have some : s.channel.ring.availableWrite ≠ 0 := by omega
  unfold Completes
  rw [turn_writing calling, calling, writeTurn]
  simp only [if_neg some, returns.mpr spare, if_true]
  exact ⟨Function.update_self .., rfl⟩

/-- A write that takes the last room goes on, although it is complete. -/
theorem writeTurn_fills {pending : List UInt8} (fifo : s.channel.Fifo pending)
    (calling : s.call t = .writing buf writeSize) (within : writeSize ≤ buf.length)
    (all : buf.length = writeSize + s.channel.ring.availableWrite)
    (some : s.channel.ring.availableWrite ≠ 0)
    : (s.turn t).call = Function.update s.call t (.writing buf buf.length)
      ∧ (s.turn t).channel.ring.availableWrite = 0 := by
  obtain ⟨length, returns⟩ := s.channel.writeLoop_length s.channel.ring.availableWrite within
  rw [← all, Nat.min_self] at length
  have available := fifo.holds.availableWrite
  have bound := fifo.holds.bound
  obtain ⟨moved, after, -, -, written, -⟩ :=
    fifo.writeLoop (n := s.channel.ring.availableWrite) (by omega) within
  have goesOn : ¬ buf.length < writeSize + s.channel.ring.availableWrite := by omega
  rw [turn_writing calling, writeTurn]
  simp only [if_neg some, if_neg (mt returns.mp goesOn), length]
  refine ⟨rfl, after.holds.availableWrite.trans ?_⟩
  have total := congrArg List.length written
  rw [length, List.take_length, List.length_append, List.length_take] at total
  rw [List.length_append]
  omega

/-- A write that is satisfiable does not wait exactly if room is left to spare. -/
theorem prompt_writing_iff (ordered : s.Ordered)
    (calling : s.call t = .writing buf writeSize)
    (enough : buf.length ≤ writeSize + s.channel.ring.availableWrite)
    : s.Prompt t ↔ buf.length < writeSize + s.channel.ring.availableWrite := by
  obtain ⟨pending, fifo⟩ := ordered.fifo
  have sound : (Call.writing buf writeSize).Sound s.live := calling ▸ ordered.calls t
  constructor
  · intro prompt
    by_contra tight
    by_cases none : s.channel.ring.availableWrite = 0
    · exact prompt.not_yields ((yields_writing calling).mpr none)
    · obtain ⟨call, full⟩ := writeTurn_fills fifo calling sound.2 (by omega) none
      have still : (s.turn t).call t = .writing buf buf.length := by
        rw [call, Function.update_self]
      cases prompt with
      | completes _ done => cases still.symm.trans done.1
      | goesOn _ _ next => exact (next _ .refl).not_yields ((yields_writing still).mpr full)
  · intro spare
    have within : writeSize ≤ buf.length := sound.2
    refine .completes (fun yields => ?_) (writeTurn_completes calling within spare)
    have none := (yields_writing calling).mp yields
    omega

-----------------------------------------------------------------------------------------
-- Every run
-----------------------------------------------------------------------------------------

end Pipe

/-- A read has not taken more bytes than it was asked for. -/
def Call.Bounded : Call → Prop
  | .reading maxLen data => data.length ≤ maxLen
  | _ => True

namespace Pipe

variable {Task : Type} [DecidableEq Task] {s s' : Pipe Task} {t : Task}
  {mayRead mayWrite : Task → Prop}

theorem readTurn_bounded {maxLen : Nat} {data : List UInt8}
    (bounded : ∀ t, (s.call t).Bounded) (few : data.length ≤ maxLen) (u : Task)
    : ((s.readTurn t maxLen data).call u).Bounded := by
  obtain ⟨length, -⟩ := s.channel.readLoop_length s.channel.ring.availableRead few
  unfold readTurn
  dsimp only
  split
  · split
    · refine calls_update (fun _ => Call.Bounded) bounded rfl ?_ u
      exact trivial
    · exact bounded u
  · split
    · refine calls_update (fun _ => Call.Bounded) bounded rfl ?_ u
      exact trivial
    · refine calls_update (fun _ => Call.Bounded) bounded rfl ?_ u
      exact Nat.le_trans (Nat.le_of_eq length) (Nat.min_le_left ..)

theorem Reachable.bounded (reachable : Reachable mayRead mayWrite s) (t : Task)
    : (s.call t).Bounded := by
  refine reachable.invariant (fun s => ∀ t, (s.call t).Bounded) ?_ ?_ t
  · rintro _ rfl t
    trivial
  · intro s s' bounded step
    cases step with
    | @read e t maxLen _ _ _ _ started =>
        cases e with
        | readEnd =>
            cases started
            exact calls_update (fun _ => Call.Bounded) bounded rfl (Nat.zero_le maxLen)
        | writeEnd => cases started
    | @write e t buf _ _ _ _ started =>
        cases e with
        | readEnd => cases started
        | writeEnd =>
            cases started
            exact calls_update (fun _ => Call.Bounded) bounded rfl trivial
    | @readTurn t maxLen data calling =>
        have few : (Call.reading maxLen data).Bounded := calling ▸ bounded t
        exact readTurn_bounded bounded few
    | @writeTurn t buf writeSize calling =>
        intro u
        unfold Pipe.writeTurn
        dsimp only
        split
        · exact bounded u
        · split
          · refine calls_update (fun _ => Call.Bounded) bounded rfl ?_ u
            exact trivial
          · refine calls_update (fun _ => Call.Bounded) bounded rfl ?_ u
            exact trivial
    | close e unused => exact bounded

/-- In every run, a read or write whose remaining request is satisfiable completes without
waiting exactly if a byte, or room for one, is left to spare, or, for a read, the write end is
closed.
-/
theorem satisfiable_prompt_iff (reachable : Reachable mayRead mayWrite s) (t : Task)
    : (∀ maxLen data, s.call t = .reading maxLen data →
        maxLen - data.length ≤ s.channel.ring.availableRead →
        (s.Prompt t ↔ maxLen - data.length < s.channel.ring.availableRead
          ∨ s.live .writeEnd = false))
      ∧ ∀ buf writeSize, s.call t = .writing buf writeSize →
        buf.length - writeSize ≤ s.channel.ring.availableWrite →
        (s.Prompt t ↔ buf.length - writeSize < s.channel.ring.availableWrite) := by
  have ordered := reachable.ordered
  constructor
  · intro maxLen data calling enough
    have few : data.length ≤ maxLen := by
      have bounded := reachable.bounded t
      rwa [calling] at bounded
    have spare : maxLen - data.length < s.channel.ring.availableRead
        ↔ maxLen < data.length + s.channel.ring.availableRead := by omega
    rw [spare]
    exact prompt_reading_iff ordered calling few (by omega)
  · intro buf writeSize calling enough
    have within : writeSize ≤ buf.length := by
      have sound := ordered.calls t
      rw [calling] at sound
      exact sound.2
    have spare : buf.length - writeSize < s.channel.ring.availableWrite
        ↔ buf.length < writeSize + s.channel.ring.availableWrite := by omega
    rw [spare]
    exact prompt_writing_iff ordered calling (by omega)

/-- Two of the three bytes that were written are read without waiting. -/
theorem satisfiable_prompt_two_of_three
    : ∃ s : Pipe Bool, Reachable (fun _ => True) (fun _ => True) s
      ∧ s.call true = .reading 2 [] ∧ s.Prompt true := by
  have start : Reachable (fun _ => True) (fun _ => True) (new : Pipe Bool) := .start rfl
  have writing := start.next (.write .writeEnd false [1, 2, 3] trivial rfl rfl rfl)
  have wrote := writing.next (.writeTurn false rfl)
  have reading := wrote.next (.read .readEnd true 2 trivial rfl (by decide +kernel) rfl)
  refine ⟨_, reading, rfl, ?_⟩
  exact ((satisfiable_prompt_iff reading true).1 2 [] rfl (by decide +kernel)).mpr
    (.inl (by decide +kernel))

/-- A read of the only byte there is may wait for another one. -/
theorem last_byte_waits
    : ∃ s : Pipe Bool, Reachable (fun _ => True) (fun _ => True) s
      ∧ s.call true = .reading 1 [] ∧ s.channel.ring.availableRead = 1 ∧ ¬ s.Prompt true := by
  have start : Reachable (fun _ => True) (fun _ => True) (new : Pipe Bool) := .start rfl
  have writing := start.next (.write .writeEnd false [1] trivial rfl rfl rfl)
  have wrote := writing.next (.writeTurn false rfl)
  have reading := wrote.next (.read .readEnd true 1 trivial rfl (by decide +kernel) rfl)
  have one : (((new : Pipe Bool).setCall false (.writing [1] 0)).writeTurn false [1] 0
      |>.setCall true (.reading 1 [])).channel.ring.availableRead = 1 := by decide +kernel
  refine ⟨_, reading, rfl, one, fun prompt => ?_⟩
  rcases (prompt_reading_iff (Reachable.ordered reading) rfl (Nat.zero_le 1) (Nat.le_of_eq one.symm)).mp
    prompt with spare | closed
  · exact absurd spare (by decide +kernel)
  · exact absurd closed (by decide +kernel)

end Pipe

end RCoreOS.PosixApi
