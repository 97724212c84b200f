import RCoreOS.Axio.Read
import RCoreOS.Lib.Window

/-! The buffered reader: its methods by the state of the buffer, and when its calls deliver what
the same calls deliver without a buffer.
-/

namespace RCoreOS.Axio

def DEFAULT_BUF_SIZE : Nat := 1024

structure BufReader (R : Type) where
  inner : R
  pos : Nat
  filled : Nat
  buf : List UInt8

namespace BufReader

variable {R : Type}

def new (inner : R) : BufReader R where
  inner := inner
  pos := 0
  filled := 0
  buf := List.replicate DEFAULT_BUF_SIZE 0

/-- The buffered data. -/
def buffer (br : BufReader R) : List UInt8 :=
  br.buf.window br.pos (br.filled - br.pos)

def capacity (_ : BufReader R) : Nat :=
  DEFAULT_BUF_SIZE

def discardBuffer (br : BufReader R) : BufReader R :=
  { br with pos := 0, filled := 0 }

def isEmpty (br : BufReader R) : Bool :=
  br.filled ≤ br.pos

def consume (br : BufReader R) (amt : Nat) : BufReader R :=
  { br with pos := min (br.pos + amt) br.filled }

variable [Read R]

/-- The buffered data, after a read from the inner reader when there is none. -/
def fillBuf (br : BufReader R) : Answer × BufReader R :=
  if br.isEmpty then
    match Read.read br.inner br.buf.length with
    | (.error e, inner) => (.error e, { br with inner := inner })
    | (.ok bytes, inner) =>
        let br :=
          { br with inner := inner, buf := br.buf.patch 0 bytes, pos := 0, filled := bytes.length }
        (.ok br.buffer, br)
  else (.ok br.buffer, br)

def read (br : BufReader R) (len : Nat) : Answer × BufReader R :=
  -- a massive read bypasses the empty buffer entirely
  if br.isEmpty && br.capacity ≤ len then
    let br := br.discardBuffer
    let (answer, inner) := Read.read br.inner len
    (answer, { br with inner := inner })
  else
    match br.fillBuf with
    | (.error e, br) => (.error e, br)
    | (.ok rem, br) =>
        match (Read.read rem len).1 with
        | .error e => (.error e, br)
        | .ok bytes => (.ok bytes, br.consume bytes.length)

def readExact (br : BufReader R) (len : Nat) : Answer × BufReader R :=
  if len ≤ br.buffer.length then (.ok (br.buffer.take len), { br with pos := br.pos + len })
  else
    let (answer, inner) := Read.readExact br.inner len
    (answer, { br with inner := inner })

/-- Drains the buffer and then delegates to the inner reader. -/
def readToEnd (turns : Nat) (br : BufReader R) : Option (Answer × BufReader R) :=
  let innerBuf := br.buffer
  let br := br.discardBuffer
  (Read.readToEnd turns br.inner).map fun (answer, inner) =>
    (answer.map (innerBuf ++ ·), { br with inner := inner })

/-- The default `read_until`; there is no result when the turns are used up. -/
def readUntil (byte : UInt8) : Nat → BufReader R → Option (Answer × BufReader R)
  | 0, _ => none
  | turns + 1, br =>
      match br.fillBuf with
      | (.error .WouldBlock, br) => readUntil byte turns br
      | (.error e, br) => some (.error e, br)
      | (.ok available, br) =>
          match available.findIdx? (· = byte) with
          | some i => some (.ok (available.take (i + 1)), br.consume (i + 1))
          | none =>
              let br := br.consume available.length
              if available.length = 0 then some (.ok available, br)
              else
                (readUntil byte turns br).map fun (rest, br) => (rest.map (available ++ ·), br)

/-- A `fill_buf` and the `consume` of at most `amt` of the bytes that it returns. -/
def fillConsume (br : BufReader R) (amt : Nat) : Answer × BufReader R :=
  match br.fillBuf with
  | (.error e, br) => (.error e, br)
  | (.ok available, br) => (.ok (available.take amt), br.consume amt)

def perform (turns : Nat) (br : BufReader R) : ReadCall → Option (Answer × BufReader R)
  | .read len => some (br.read len)
  | .readExact len => some (br.readExact len)
  | .readToEnd => br.readToEnd turns
  | .readUntil byte => br.readUntil byte turns
  | .fillConsume amt => some (br.fillConsume amt)

def run (turns : Nat) (br : BufReader R)
    : List ReadCall → Option (List Answer × BufReader R)
  | [] => some ([], br)
  | call :: calls => do
      let (answer, br) ← br.perform turns call
      let (answers, br) ← br.run turns calls
      return (answer :: answers, br)

-----------------------------------------------------------------------------------------
-- What the methods deliver
-----------------------------------------------------------------------------------------

/-- The buffered part is inside the buffer, which has room. -/
structure Valid (br : BufReader R) : Prop where
  ordered : br.pos ≤ br.filled
  inside : br.filled ≤ br.buf.length
  room : 0 < br.buf.length

omit [Read R] in
theorem Valid.new (inner : R) : (new inner).Valid :=
  ⟨Nat.le_refl 0, Nat.zero_le _, Nat.lt_of_lt_of_le (by decide : 0 < DEFAULT_BUF_SIZE)
    (Nat.le_of_eq List.length_replicate.symm)⟩

omit [Read R] in
theorem Valid.length_buffer {br : BufReader R} (valid : br.Valid)
    : br.buffer.length = br.filled - br.pos := by
  have ordered := valid.ordered
  have inside := valid.inside
  exact List.length_window (by omega)

omit [Read R] in
/-- A reader whose data is used up has no buffered data. -/
theorem buffer_of_le {br : BufReader R} (used : br.filled ≤ br.pos) : br.buffer = [] := by
  rw [buffer, Nat.sub_eq_zero_of_le used, List.window_zero]

omit [Read R] in
/-- Moving the position drops what is before it. -/
theorem buffer_move (br : BufReader R) (amt : Nat)
    : BufReader.buffer { br with pos := br.pos + amt } = br.buffer.drop amt := by
  simp only [buffer, List.window]
  rw [List.drop_take, List.drop_drop, Nat.sub_sub]

omit [Read R] in
theorem Valid.move {br : BufReader R} (valid : br.Valid) {amt : Nat}
    (inside : amt ≤ br.filled - br.pos)
    : Valid { br with pos := br.pos + amt } := by
  have ordered := valid.ordered
  exact ⟨by simp only; omega, valid.inside, valid.room⟩

omit [Read R] in
/-- Consuming moves the position, at most to the end of the buffered data. -/
theorem consume_eq {br : BufReader R} (valid : br.Valid) (amt : Nat)
    : br.consume amt = { br with pos := br.pos + min amt (br.filled - br.pos) } := by
  have ordered := valid.ordered
  rw [consume]
  congr 1
  omega

omit [Read R] in
theorem Valid.consume {br : BufReader R} (valid : br.Valid) (amt : Nat)
    : (br.consume amt).Valid ∧ (br.consume amt).buffer = br.buffer.drop amt := by
  have inside : min amt (br.filled - br.pos) ≤ br.filled - br.pos := Nat.min_le_right _ _
  rw [consume_eq valid]
  refine ⟨valid.move inside, (buffer_move br _).trans ?_⟩
  rw [← valid.length_buffer]
  by_cases short : amt ≤ br.buffer.length
  · rw [Nat.min_eq_left short]
  · rw [Nat.min_eq_right (by omega), List.drop_length, List.drop_of_length_le (by omega)]

variable [LawfulRead R]

/-- The bytes that the reader has not returned yet: the buffered ones, then those of the inner
reader.
-/
def stream (br : BufReader R) : List UInt8 :=
  br.buffer ++ LawfulRead.stream br.inner

/-- Without buffered data the stream is that of the inner reader. -/
theorem stream_of_le {br : BufReader R} (used : br.filled ≤ br.pos)
    : br.stream = LawfulRead.stream br.inner := by
  rw [stream, buffer_of_le used]
  rfl

omit [Read R] [LawfulRead R] in
theorem isEmpty_iff {br : BufReader R} : br.isEmpty = true ↔ br.filled ≤ br.pos :=
  decide_eq_true_iff

omit [LawfulRead R] in
/-- Without buffered data `fill_buf` buffers what one read returns. -/
theorem fillBuf_of_le {br : BufReader R} {bytes : List UInt8} {inner : R} (valid : br.Valid)
    (used : br.filled ≤ br.pos) (one : Read.read br.inner br.buf.length = (.ok bytes, inner))
    (short : bytes.length ≤ br.buf.length)
    : ∃ br', br.fillBuf = (.ok br'.buffer, br') ∧ br'.Valid ∧ br'.buffer = bytes
        ∧ br'.inner = inner := by
  have fits : 0 + bytes.length ≤ br.buf.length := by omega
  have size : (br.buf.patch 0 bytes).length = br.buf.length := List.length_patch fits
  let br' : BufReader R :=
    { br with inner := inner, buf := br.buf.patch 0 bytes, pos := 0, filled := bytes.length }
  have buffered : br'.buffer = bytes := by
    show (br.buf.patch 0 bytes).window 0 bytes.length = bytes
    rw [List.window, List.drop_zero, List.patch, List.take_zero, List.nil_append, List.take_left]
  refine ⟨br', ?_, ⟨Nat.zero_le _, by rw [size]; exact short, by rw [size]; exact valid.room⟩,
    buffered, rfl⟩
  rw [fillBuf, if_pos (isEmpty_iff.mpr used), one]

/-- `fill_buf` returns the buffered data, which is empty at the end of the stream alone. -/
theorem fillBuf_spec {br : BufReader R} (valid : br.Valid)
    : ∃ br', br.fillBuf = (.ok br'.buffer, br') ∧ br'.Valid ∧ br'.stream = br.stream
        ∧ (br'.buffer = [] → br.stream = []) := by
  by_cases empty : br.isEmpty = true
  · have used := isEmpty_iff.mp empty
    obtain ⟨bytes, answered, parts, short, progress⟩ :=
      LawfulRead.read br.inner br.buf.length
    rcases one : Read.read br.inner br.buf.length with ⟨answer, inner⟩
    rw [one] at answered parts
    subst answered
    obtain ⟨br', filled, valid', buffered, behind⟩ := fillBuf_of_le valid used one short
    refine ⟨br', filled, valid', ?_, fun none => ?_⟩
    · rw [stream, buffered, behind, stream_of_le used, parts]
    · rw [stream_of_le used]
      exact (progress (buffered.symm.trans none)).resolve_left (Nat.ne_of_gt valid.room)
  · refine ⟨br, ?_, valid, rfl, fun none => ?_⟩
    · rw [fillBuf, if_neg empty]
    · have length := valid.length_buffer
      have some := mt isEmpty_iff.mpr empty
      rw [none, List.length_nil] at length
      omega

/-- Consuming a part of the buffered data takes it from the stream. -/
theorem stream_consume {br : BufReader R} (valid : br.Valid) (amt : Nat)
    : br.stream = br.buffer.take amt ++ (br.consume amt).stream := by
  rw [stream, stream, (valid.consume amt).2, ← List.append_assoc, List.take_append_drop]
  rfl

/-- `fill_buf` and `consume` deliver buffered bytes. -/
theorem fillConsume_delivers {br : BufReader R} (valid : br.Valid) (amt : Nat)
    : (br.fillConsume amt).2.Valid
      ∧ Delivers br.stream (br.fillConsume amt).1 (br.fillConsume amt).2.stream
          (.fillConsume amt) := by
  obtain ⟨br', filled, valid', same, progress⟩ := fillBuf_spec valid
  rw [fillConsume, filled]
  refine ⟨(valid'.consume amt).1, br'.buffer.take amt, rfl, ?_, List.length_take_le _ _, ?_⟩
  · rw [← same]
    exact stream_consume valid' amt
  · intro none
    exact (List.take_eq_nil_iff.mp none).imp_right progress

/-- `read` delivers bytes of the buffer, or of the inner reader past an empty buffer. -/
theorem read_delivers {br : BufReader R} (valid : br.Valid) (len : Nat)
    : (br.read len).2.Valid
      ∧ Delivers br.stream (br.read len).1 (br.read len).2.stream (.read len) := by
  rw [read]
  split
  · next bypass =>
      obtain ⟨empty, -⟩ := Bool.and_eq_true_iff.mp bypass
      refine ⟨⟨Nat.le_refl 0, Nat.zero_le _, valid.room⟩, ?_⟩
      rw [stream_of_le (isEmpty_iff.mp empty), stream_of_le (Nat.le_refl 0)]
      exact LawfulRead.read br.inner len
  · obtain ⟨br', filled, valid', same, progress⟩ := fillBuf_spec valid
    rw [filled]
    show Valid (br'.consume (br'.buffer.take len).length) ∧ Delivers br.stream
      (.ok (br'.buffer.take len)) (br'.consume (br'.buffer.take len).length).stream (.read len)
    refine ⟨(valid'.consume _).1, br'.buffer.take len, rfl, ?_, List.length_take_le _ _, ?_⟩
    · have whole : br'.buffer.take (br'.buffer.take len).length = br'.buffer.take len := by
        rw [List.length_take]
        exact List.take_eq_take_min.symm
      rw [← same, stream_consume valid' (br'.buffer.take len).length, whole]
    · intro none
      exact (List.take_eq_nil_iff.mp none).imp_right progress

/-- `read_exact` delivers the bytes asked for when enough of them are buffered, or none. -/
theorem readExact_delivers {br : BufReader R} {len : Nat} (valid : br.Valid)
    (steady : br.buffer = [] ∨ len ≤ br.buffer.length)
    : (br.readExact len).2.Valid
      ∧ Delivers br.stream (br.readExact len).1 (br.readExact len).2.stream
          (.readExact len) := by
  rw [readExact]
  by_cases buffered : len ≤ br.buffer.length
  · rw [if_pos buffered]
    have inside : len ≤ br.filled - br.pos := valid.length_buffer ▸ buffered
    refine ⟨valid.move inside, ?_⟩
    have long : len ≤ br.stream.length := by
      rw [stream, List.length_append]
      omega
    rw [Delivers, if_pos long]
    constructor
    · rw [stream, List.take_append_of_le_length buffered]
    · rw [stream, stream, List.drop_append_of_le_length buffered, buffer_move]
  · rw [if_neg buffered]
    have empty : br.buffer = [] := steady.resolve_right buffered
    have used : br.filled ≤ br.pos := by
      have length := valid.length_buffer
      rw [empty, List.length_nil] at length
      omega
    refine ⟨⟨valid.ordered, valid.inside, valid.room⟩, ?_⟩
    rw [stream_of_le used]
    let br' : BufReader R := { br with inner := (Read.readExact br.inner len).2 }
    have after : br'.stream = LawfulRead.stream br'.inner := stream_of_le used
    have delivers := LawfulRead.readExact br.inner len
    rw [← after] at delivers
    exact delivers

/-- `read_to_end` delivers the buffered bytes and the rest of the inner reader. -/
theorem readToEnd_delivers {br : BufReader R} {turns : Nat} (valid : br.Valid)
    (enough : br.stream.length < turns)
    : ∃ answer br', br.readToEnd turns = some (answer, br') ∧ br'.Valid
        ∧ Delivers br.stream answer br'.stream .readToEnd := by
  have fewer : (LawfulRead.stream br.discardBuffer.inner).length < turns := by
    rw [stream, List.length_append] at enough
    show (LawfulRead.stream br.inner).length < turns
    omega
  obtain ⟨answer, inner, ended, rfl, left⟩ := LawfulRead.readToEnd _ turns fewer
  refine ⟨_, { br.discardBuffer with inner := inner }, ?_,
    ⟨Nat.le_refl 0, Nat.zero_le _, valid.room⟩, rfl, ?_⟩
  · rw [readToEnd, ended]
    rfl
  · rw [stream_of_le (Nat.le_refl 0), left]

/-- The bytes up to a delimiter that the first part contains are in the first part. -/
theorem upTo_append {byte : UInt8} {front : List UInt8} {i : Nat} (back : List UInt8)
    (found : front.findIdx? (· = byte) = some i)
    : upTo byte (front ++ back) = front.take (i + 1) := by
  induction front generalizing i with
  | nil => cases found
  | cons first rest ih =>
      rw [List.findIdx?_cons] at found
      rw [List.cons_append, upTo]
      by_cases delimiter : first = byte
      · rw [if_pos (decide_eq_true delimiter)] at found
        cases found
        rw [if_pos delimiter]
        rfl
      · rw [if_neg (by simpa using delimiter)] at found
        obtain ⟨j, later, rfl⟩ := Option.map_eq_some_iff.mp found
        rw [if_neg delimiter, ih later]
        rfl

/-- Without a delimiter in the first part the bytes up to it go on behind that part. -/
theorem upTo_append_of_none {byte : UInt8} {front : List UInt8} (back : List UInt8)
    (missing : front.findIdx? (· = byte) = none)
    : upTo byte (front ++ back) = front ++ upTo byte back := by
  induction front with
  | nil => rfl
  | cons first rest ih =>
      rw [List.findIdx?_cons] at missing
      by_cases delimiter : first = byte
      · rw [if_pos (decide_eq_true delimiter)] at missing
        cases missing
      · rw [if_neg (by simpa using delimiter)] at missing
        rw [List.cons_append, upTo, if_neg delimiter, ih (Option.map_eq_none_iff.mp missing)]
        rfl

/-- `read_until` delivers the bytes up to the delimiter when it has more turns than there are
bytes, by induction on the turns.
-/
theorem readUntil_delivers {br : BufReader R} {byte : UInt8} {turns : Nat} (valid : br.Valid)
    (enough : br.stream.length < turns)
    : ∃ answer br', br.readUntil byte turns = some (answer, br') ∧ br'.Valid
        ∧ Delivers br.stream answer br'.stream (.readUntil byte) := by
  induction turns generalizing br with
  | zero => exact absurd enough (Nat.not_lt_zero _)
  | succ turns ih =>
      obtain ⟨br', filled, valid', same, progress⟩ := fillBuf_spec valid
      rw [readUntil, filled]
      rw [← same] at progress ⊢
      rw [← same] at enough
      cases found : br'.buffer.findIdx? (· = byte) with
      | some i =>
          refine ⟨.ok (br'.buffer.take (i + 1)), _, ?_, (valid'.consume (i + 1)).1, ?_, ?_⟩
          · simp only [found]
          · rw [stream, upTo_append _ found]
          · have parts := stream_consume valid' (i + 1)
            rw [← upTo_append (LawfulRead.stream br'.inner) found] at parts
            exact parts
      | none =>
          have parts := stream_consume valid' br'.buffer.length
          rw [List.take_length] at parts
          by_cases ended : br'.buffer.length = 0
          · have empty := List.length_eq_zero_iff.mp ended
            have finished := progress empty
            refine ⟨.ok br'.buffer, _, ?_, (valid'.consume br'.buffer.length).1, ?_, ?_⟩
            · simp only [found, if_pos ended]
            · rw [finished, empty]
              rfl
            · have nothing := List.append_eq_nil_iff.mp (parts.symm.trans finished)
              rw [finished, nothing.2]
              rfl
          · have length := congrArg List.length parts
            rw [List.length_append] at length
            obtain ⟨answer, last, rest, valid'', rfl, left⟩ :=
              ih (valid'.consume br'.buffer.length).1 (by omega)
            have split := upTo_append_of_none (br'.consume br'.buffer.length).stream found
            rw [← parts] at split
            refine ⟨.ok (upTo byte br'.stream), last, ?_, valid'', rfl, ?_⟩
            · simp only [found, if_neg ended, rest, split]
              rfl
            · rw [split, List.append_assoc, ← left]
              exact parts

-----------------------------------------------------------------------------------------
-- Runs
-----------------------------------------------------------------------------------------

/-- A `read_exact` finds no buffered data, or enough of it. -/
def Steady (br : BufReader R) : ReadCall → Prop
  | .readExact len => br.buffer = [] ∨ len ≤ br.buffer.length
  | _ => True

/-- A steady call returns and delivers, and leaves no more of the stream. -/
theorem perform_delivers {br : BufReader R} {call : ReadCall} {turns : Nat} (valid : br.Valid)
    (steady : br.Steady call) (enough : br.stream.length < turns)
    : ∃ answer br', br.perform turns call = some (answer, br') ∧ br'.Valid
        ∧ Delivers br.stream answer br'.stream call := by
  cases call with
  | read len =>
      obtain ⟨valid', delivers⟩ := read_delivers valid len
      exact ⟨_, _, rfl, valid', delivers⟩
  | readExact len =>
      obtain ⟨valid', delivers⟩ := readExact_delivers valid steady
      exact ⟨_, _, rfl, valid', delivers⟩
  | readToEnd => exact readToEnd_delivers valid enough
  | readUntil byte => exact readUntil_delivers valid enough
  | fillConsume amt =>
      obtain ⟨valid', delivers⟩ := fillConsume_delivers valid amt
      exact ⟨_, _, rfl, valid', delivers⟩

/-- The calls are steady, each in the state that those before it leave. -/
def AllSteady (turns : Nat) (br : BufReader R) : List ReadCall → Prop
  | [] => True
  | call :: calls =>
      br.Steady call
        ∧ ∀ answer br', br.perform turns call = some (answer, br') → br'.AllSteady turns calls

/-- In a run whose calls are all steady each call delivers what it would without a buffer, by
induction on the calls.
-/
theorem run_delivers {br : BufReader R} {calls : List ReadCall} {turns : Nat}
    (valid : br.Valid) (steady : br.AllSteady turns calls) (enough : br.stream.length < turns)
    : ∃ answers br', br.run turns calls = some (answers, br')
        ∧ DeliversAll br.stream calls answers br'.stream := by
  induction calls generalizing br with
  | nil => exact ⟨[], br, rfl, .nil⟩
  | cons call calls ih =>
      obtain ⟨answer, br', performed, valid', delivers⟩ :=
        perform_delivers valid steady.1 enough
      have shorter := delivers.length_le
      obtain ⟨answers, last, run, others⟩ :=
        ih valid' (steady.2 answer br' performed) (by omega)
      refine ⟨answer :: answers, last, ?_, .cons delivers others⟩
      rw [BufReader.run, performed]
      simp only [Option.bind_eq_bind, Option.bind_some, run]
      rfl

/-- A buffer in front of a reader is transparent to steady calls: the run returns, each call
delivers what the same call delivers at that position of the stream, and all bytes together
are a prefix of the stream.
-/
theorem transparent (inner : R) (calls : List ReadCall) (turns : Nat)
    (steady : (new inner).AllSteady turns calls)
    (enough : (LawfulRead.stream inner).length < turns)
    : ∃ answers br', (new inner).run turns calls = some (answers, br')
        ∧ DeliversAll (LawfulRead.stream inner) calls answers br'.stream
        ∧ delivered answers <+: LawfulRead.stream inner := by
  have start : (new inner).stream = LawfulRead.stream inner := stream_of_le (Nat.le_refl 0)
  rw [← start] at enough ⊢
  obtain ⟨answers, br', run, all⟩ := run_delivers (Valid.new inner) steady enough
  exact ⟨answers, br', run, all, all.inOrder⟩

/-- Four bytes that are read two at a time. -/
def pairs : ChunkReader where
  data := [1, 2, 3, 4]
  chunk := fun _ => 1
  turn := 0

theorem transparent_pairs
    : ∃ answers br', (new pairs).run 5 [.readExact 1, .read 1, .readUntil 3, .readToEnd]
        = some (answers, br')
      ∧ DeliversAll [1, 2, 3, 4] [.readExact 1, .read 1, .readUntil 3, .readToEnd] answers
          br'.stream
      ∧ delivered answers <+: [1, 2, 3, 4] :=
  transparent pairs [.readExact 1, .read 1, .readUntil 3, .readToEnd] 5
    ⟨.inl rfl, fun _ _ _ => ⟨trivial, fun _ _ _ => ⟨trivial, fun _ _ _ => ⟨trivial,
      fun _ _ _ => trivial⟩⟩⟩⟩ (by decide : 4 < 5)

/-- A `read_exact` of more than is buffered skips what is buffered. -/
theorem readExact_skips
    : ∃ br, (new pairs).run 5 [.read 1, .readExact 2] = some ([.ok [1], .ok [3, 4]], br)
      ∧ ¬ delivered [.ok [1], .ok [3, 4]] <+: [1, 2, 3, 4] := by
  have valid := Valid.new pairs
  have size : (new pairs).buf.length = 1024 := List.length_replicate
  have one : Read.read (new pairs).inner (new pairs).buf.length
      = (.ok [1, 2], { pairs with data := [3, 4], turn := 1 }) := by
    rw [size]
    rfl
  obtain ⟨br, filled, valid', buffered, behind⟩ :=
    fillBuf_of_le valid (Nat.le_refl 0) one (by rw [size]; decide)
  have read : (new pairs).read 1 = (.ok [1], br.consume 1) := by
    rw [BufReader.read, if_neg (by decide), filled, buffered]
    rfl
  have left : (br.consume 1).buffer = [2] := by
    rw [(valid'.consume 1).2, buffered]
    rfl
  have skips : (Read.readExact (br.consume 1).inner 2).1 = .ok [3, 4] := by
    rw [show (br.consume 1).inner = _ from behind]
    exact (defaultReadExact_spec ChunkReader.read_delivers _ 2).1
  refine ⟨((br.consume 1).readExact 2).2, ?_, by decide⟩
  have exact : (br.consume 1).readExact 2 = (.ok [3, 4], ((br.consume 1).readExact 2).2) := by
    refine Prod.ext ?_ rfl
    rw [readExact, left, if_neg (by decide)]
    exact skips
  simp only [run, perform, read, Option.bind_eq_bind, Option.bind_some]
  rw [exact]
  rfl

end BufReader

end RCoreOS.Axio
