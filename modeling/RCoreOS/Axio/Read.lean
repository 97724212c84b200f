import RCoreOS.Lib.Outcome
import Mathlib.Data.List.TakeDrop

/-! Readers: the calls of the `Read` trait with its default methods, what each call delivers of
a byte stream, and the readers that deliver their stream in chunks.
-/

namespace RCoreOS.Axio

/-- The error type, as far as readers look at it or return it themselves. -/
inductive Error where
  | Io
  | UnexpectedEof
  | WouldBlock
deriving DecidableEq, Repr

/-- What a call stores in the buffer of its caller. -/
abbrev Answer :=
  Except Error (List UInt8)

-----------------------------------------------------------------------------------------
-- The trait
-----------------------------------------------------------------------------------------

section Default

variable {R : Type} (read : R → Nat → Answer × R)

/-- The default `read_exact`, which reads until the buffer is full or nothing is left. -/
def defaultReadExact (r : R) (len : Nat) : Answer × R :=
  if len = 0 then (.ok [], r)
  else
    match read r len with
    | (.error e, r) => (.error e, r)
    | (.ok bytes, r) =>
        if bytes.length = 0 then (.error .UnexpectedEof, r)
        else
          let (rest, r) := defaultReadExact r (len - bytes.length)
          (rest.map (bytes ++ ·), r)
termination_by len

/-- The default `read_to_end`, which reads into a probe until nothing is left; there is no
result when the turns are used up.
-/
def defaultReadToEnd : Nat → R → Option (Answer × R)
  | 0, _ => none
  | turns + 1, r =>
      match read r 32 with
      | (.error e, r) => some (.error e, r)
      | (.ok [], r) => some (.ok [], r)
      | (.ok bytes, r) =>
          (defaultReadToEnd turns r).map fun (rest, r) => (rest.map (bytes ++ ·), r)

end Default

class Read (R : Type) where
  read : R → Nat → Answer × R
  readExact : R → Nat → Answer × R := defaultReadExact read
  readToEnd : Nat → R → Option (Answer × R) := defaultReadToEnd read

/-- `Read` for a slice. -/
instance : Read (List UInt8) where
  read slice len := (.ok (slice.take len), slice.drop len)
  readExact slice len :=
    if slice.length < len then (.error .UnexpectedEof, slice)
    else (.ok (slice.take len), slice.drop len)
  readToEnd _ slice := some (.ok slice, [])

-----------------------------------------------------------------------------------------
-- What a call delivers of a stream
-----------------------------------------------------------------------------------------

inductive ReadCall where
  | read (len : Nat)
  | readExact (len : Nat)
  | readToEnd
  | readUntil (byte : UInt8)
  /-- A `fill_buf` and the `consume` of that many of its bytes. -/
  | fillConsume (amt : Nat)
deriving DecidableEq, Repr

/-- The bytes up to the first one that is `byte`, or all of them. -/
def upTo (byte : UInt8) : List UInt8 → List UInt8
  | [] => []
  | first :: rest => if first = byte then [first] else first :: upTo byte rest

/-- What a call on a reader returns when `stream` is left, such that `stream'` is left behind it.
A call that fails returns nothing and leaves the stream, or nothing of it.
-/
def Delivers (stream : List UInt8) (answer : Answer) (stream' : List UInt8) : ReadCall → Prop
  | .read len =>
      ∃ bytes, answer = .ok bytes ∧ stream = bytes ++ stream' ∧ bytes.length ≤ len
        ∧ (bytes = [] → len = 0 ∨ stream = [])
  | .readExact len =>
      if len ≤ stream.length then answer = .ok (stream.take len) ∧ stream' = stream.drop len
      else answer = .error .UnexpectedEof ∧ (stream' = stream ∨ stream' = [])
  | .readToEnd => answer = .ok stream ∧ stream' = []
  | .readUntil byte => answer = .ok (upTo byte stream) ∧ stream = upTo byte stream ++ stream'
  | .fillConsume amt =>
      ∃ bytes, answer = .ok bytes ∧ stream = bytes ++ stream' ∧ bytes.length ≤ amt
        ∧ (bytes = [] → amt = 0 ∨ stream = [])

/-- A call returns bytes of the stream from its position on, and leaves those behind them or
nothing.
-/
theorem Delivers.parts {stream stream' : List UInt8} {answer : Answer} {call : ReadCall}
    (delivers : Delivers stream answer stream' call)
    : (∃ bytes, answer = .ok bytes ∧ stream = bytes ++ stream')
      ∨ ∃ e, answer = .error e ∧ (stream' = stream ∨ stream' = []) := by
  cases call with
  | read len =>
      obtain ⟨bytes, answered, parts, -, -⟩ := delivers
      exact .inl ⟨bytes, answered, parts⟩
  | readExact len =>
      rw [Delivers] at delivers
      split at delivers
      · obtain ⟨answered, rfl⟩ := delivers
        exact .inl ⟨_, answered, (List.take_append_drop len stream).symm⟩
      · exact .inr ⟨_, delivers⟩
  | readToEnd =>
      obtain ⟨answered, rfl⟩ := delivers
      exact .inl ⟨stream, answered, (List.append_nil stream).symm⟩
  | readUntil byte => exact .inl ⟨_, delivers⟩
  | fillConsume amt =>
      obtain ⟨bytes, answered, parts, -, -⟩ := delivers
      exact .inl ⟨bytes, answered, parts⟩

theorem Delivers.length_le {stream stream' : List UInt8} {answer : Answer} {call : ReadCall}
    (delivers : Delivers stream answer stream' call)
    : stream'.length ≤ stream.length := by
  rcases delivers.parts with ⟨bytes, -, rfl⟩ | ⟨e, -, rfl | rfl⟩
  · simp
  · exact Nat.le_refl _
  · exact Nat.zero_le _

/-- Calls one after the other, each at the position where the one before it ends. -/
inductive DeliversAll : List UInt8 → List ReadCall → List Answer → List UInt8 → Prop
  | nil {stream} : DeliversAll stream [] [] stream
  | cons {stream stream' last : List UInt8} {call : ReadCall} {calls : List ReadCall}
    {answer : Answer} {answers : List Answer} (delivers : Delivers stream answer stream' call)
    (others : DeliversAll stream' calls answers last)
    : DeliversAll stream (call :: calls) (answer :: answers) last

/-- The bytes that calls have returned. -/
def delivered (answers : List Answer) : List UInt8 :=
  answers.flatMap fun answer => answer.toOption.getD []

/-- All bytes together are a prefix of the stream, by induction on the calls. -/
theorem DeliversAll.inOrder {stream last : List UInt8} {calls : List ReadCall}
    {answers : List Answer} (all : DeliversAll stream calls answers last)
    : delivered answers <+: stream := by
  induction all with
  | nil => exact List.nil_prefix
  | cons delivers _ ih =>
      rcases delivers.parts with ⟨bytes, rfl, rfl⟩ | ⟨e, rfl, rfl | rfl⟩
      · exact (List.prefix_append_right_inj bytes).mpr ih
      · exact ih
      · exact ih.trans List.nil_prefix

/-- A reader that delivers a stream, in parts of any size. -/
class LawfulRead (R : Type) [Read R] where
  stream : R → List UInt8
  read
    : ∀ (r : R) (len : Nat),
        Delivers (stream r) (Read.read r len).1 (stream (Read.read r len).2) (.read len)
  readExact
    : ∀ (r : R) (len : Nat),
        Delivers (stream r) (Read.readExact r len).1 (stream (Read.readExact r len).2)
          (.readExact len)
  readToEnd
    : ∀ (r : R) (turns : Nat), (stream r).length < turns →
        ∃ answer r', Read.readToEnd turns r = some (answer, r')
          ∧ Delivers (stream r) answer (stream r') .readToEnd

instance : LawfulRead (List UInt8) where
  stream slice := slice
  read slice len := by
    refine ⟨slice.take len, rfl, (List.take_append_drop len slice).symm, List.length_take_le _ _,
      ?_⟩
    intro none
    exact List.take_eq_nil_iff.mp none
  readExact slice len := by
    simp only [Delivers, Read.readExact]
    by_cases long : len ≤ slice.length
    · rw [if_pos long, if_neg (by omega)]
      exact ⟨rfl, rfl⟩
    · rw [if_neg long, if_pos (by omega)]
      exact ⟨rfl, .inl rfl⟩
  readToEnd slice _ _ := ⟨_, _, rfl, rfl, rfl⟩

-----------------------------------------------------------------------------------------
-- The default methods
-----------------------------------------------------------------------------------------

section Default

variable {R : Type} {read : R → Nat → Answer × R} {stream : R → List UInt8}

/-- The default `read_exact` reads the bytes asked for, or all bytes and fails, by induction on
their number.
-/
theorem defaultReadExact_spec
    (lawful : ∀ r len, Delivers (stream r) (read r len).1 (stream (read r len).2) (.read len))
    (r : R) (len : Nat)
    : (defaultReadExact read r len).1
        = (if len ≤ (stream r).length then .ok ((stream r).take len) else .error .UnexpectedEof)
      ∧ stream (defaultReadExact read r len).2 = (stream r).drop len := by
  induction len using Nat.strongRecOn generalizing r with
  | _ len ih =>
      rw [defaultReadExact]
      by_cases none : len = 0
      · subst none
        simp
      · rw [if_neg none]
        obtain ⟨bytes, answered, parts, short, progress⟩ := lawful r len
        rcases one : read r len with ⟨answer, r'⟩
        rw [one] at answered parts
        subst answered
        by_cases ended : bytes = []
        · subst ended
          have empty : stream r = [] := (progress rfl).resolve_left none
          have empty' : stream r' = [] := parts.symm.trans empty
          simp [empty, empty', none]
        · have some := List.length_pos_iff.mpr ended
          obtain ⟨answered', left⟩ := ih (len - bytes.length) (by omega) r'
          have length : (stream r).length = bytes.length + (stream r').length := by
            rw [parts, List.length_append]
          have front : (stream r).take len = bytes ++ (stream r').take (len - bytes.length) := by
            rw [parts, List.take_append, List.take_of_length_le short]
          have back : (stream r).drop len = (stream r').drop (len - bytes.length) := by
            rw [parts, List.drop_append, List.drop_of_length_le short, List.nil_append]
          simp only [if_neg (Nat.ne_of_gt some)]
          refine ⟨?_, left.trans back.symm⟩
          rw [answered', front]
          by_cases enough : len ≤ (stream r).length
          · rw [if_pos enough, if_pos (by omega)]
            rfl
          · rw [if_neg enough, if_neg (by omega)]
            rfl

theorem defaultReadExact_delivers
    (lawful : ∀ r len, Delivers (stream r) (read r len).1 (stream (read r len).2) (.read len))
    (r : R) (len : Nat)
    : Delivers (stream r) (defaultReadExact read r len).1
        (stream (defaultReadExact read r len).2) (.readExact len) := by
  obtain ⟨answered, left⟩ := defaultReadExact_spec lawful r len
  rw [Delivers, answered, left]
  by_cases enough : len ≤ (stream r).length
  · rw [if_pos enough, if_pos enough]
    exact ⟨rfl, rfl⟩
  · rw [if_neg enough, if_neg enough]
    exact ⟨rfl, .inr (List.drop_of_length_le (by omega))⟩

/-- The default `read_to_end` reads the whole stream when it has more turns than there are
bytes, by induction on the turns.
-/
theorem defaultReadToEnd_delivers
    (lawful : ∀ r len, Delivers (stream r) (read r len).1 (stream (read r len).2) (.read len))
    (r : R) (turns : Nat) (enough : (stream r).length < turns)
    : ∃ answer r', defaultReadToEnd read turns r = some (answer, r')
        ∧ Delivers (stream r) answer (stream r') .readToEnd := by
  induction turns generalizing r with
  | zero => exact absurd enough (Nat.not_lt_zero _)
  | succ turns ih =>
      rw [defaultReadToEnd]
      obtain ⟨bytes, answered, parts, -, progress⟩ := lawful r 32
      rcases one : read r 32 with ⟨answer, r'⟩
      rw [one] at answered parts
      subst answered
      cases bytes with
      | nil =>
          have empty : stream r = [] := (progress rfl).resolve_left (by decide)
          exact ⟨_, _, rfl, by rw [empty], parts.symm.trans empty⟩
      | cons first others =>
          have length : (stream r).length = others.length + 1 + (stream r').length := by
            rw [parts, List.length_append, List.length_cons]
          obtain ⟨answer', last, again, rfl, left⟩ := ih r' (by omega)
          refine ⟨.ok (first :: others ++ stream r'), last, ?_, ?_, left⟩
          · simp only [again, Option.map_some]
            rfl
          · rw [parts]

end Default

-----------------------------------------------------------------------------------------
-- Readers with only a `read`
-----------------------------------------------------------------------------------------

/-- A stream whose reads return at most the number of bytes that `chunk` says for their turn,
and at least one.
-/
structure ChunkReader where
  data : List UInt8
  chunk : Nat → Nat
  turn : Nat

def ChunkReader.read (r : ChunkReader) (len : Nat) : Answer × ChunkReader :=
  let count := min len (r.chunk r.turn + 1)
  (.ok (r.data.take count), { r with data := r.data.drop count, turn := r.turn + 1 })

instance : Read ChunkReader where
  read := ChunkReader.read

theorem ChunkReader.read_delivers (r : ChunkReader) (len : Nat)
    : Delivers r.data (r.read len).1 (r.read len).2.data (.read len) := by
  refine ⟨_, rfl, (List.take_append_drop _ r.data).symm, ?_, ?_⟩
  · rw [List.length_take]
    omega
  · intro none
    rcases List.take_eq_nil_iff.mp none with zero | empty
    · exact .inl (by omega)
    · exact .inr empty

instance : LawfulRead ChunkReader where
  stream := ChunkReader.data
  read := ChunkReader.read_delivers
  readExact := defaultReadExact_delivers ChunkReader.read_delivers
  readToEnd := defaultReadToEnd_delivers ChunkReader.read_delivers

end RCoreOS.Axio
