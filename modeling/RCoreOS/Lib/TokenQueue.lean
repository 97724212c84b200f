import Mathlib.Logic.Function.Basic
import Mathlib.Data.List.Perm.Basic
import Mathlib.Data.List.Range

/-! Queues that take buffers and give out tokens for them, as the descriptor rings of devices do.
The user keeps the buffers in a row of slots, one for each token.
-/

structure TokenQueue (Buffer : Type) where
  free : List Nat
  posted : Nat → Option Buffer

namespace TokenQueue

variable {Buffer Slot : Type}

def empty (size : Nat) : TokenQueue Buffer where
  free := List.range size
  posted _ := none

/-- The next token is given out for a buffer. -/
def post (q : TokenQueue Buffer) (buffer : Buffer) : Option (Nat × TokenQueue Buffer) :=
  match q.free with
  | [] => none
  | token :: rest => some (token, ⟨rest, Function.update q.posted token (some buffer)⟩)

/-- The buffer of the token is taken back. -/
def take (q : TokenQueue Buffer) (token : Nat) : TokenQueue Buffer where
  free := token :: q.free
  posted := Function.update q.posted token none

/-- The tokens without a buffer are the free ones. -/
structure Tokens (q : TokenQueue Buffer) (size : Nat) : Prop where
  distinct : q.free.Nodup
  free_iff (token : Nat) : token ∈ q.free ↔ token < size ∧ q.posted token = none
  inside {token : Nat} {buffer : Buffer} : q.posted token = some buffer → token < size

variable {q : TokenQueue Buffer} {size : Nat}

theorem tokens_empty (size : Nat) : (empty size : TokenQueue Buffer).Tokens size where
  distinct := List.nodup_range
  free_iff token := by simp [empty]
  inside posted := nomatch posted

theorem Tokens.post {buffer : Buffer} {token : Nat} {q' : TokenQueue Buffer}
    (tokens : q.Tokens size) (done : q.post buffer = some (token, q'))
    : token < size ∧ q.posted token = none
      ∧ q'.posted = Function.update q.posted token (some buffer) ∧ q'.Tokens size := by
  obtain ⟨free, posted⟩ := q
  cases free with
  | nil => cases done
  | cons first rest =>
      obtain ⟨rfl, rfl⟩ := Prod.mk.inj (Option.some_inj.mp done)
      obtain ⟨inside, unposted⟩ := (tokens.free_iff first).mp (List.mem_cons_self ..)
      obtain ⟨fresh, distinct⟩ := List.nodup_cons.mp tokens.distinct
      refine ⟨inside, unposted, rfl, distinct, fun token => ?_, fun {token buffer} here => ?_⟩
      · by_cases same : token = first
        · subst same
          simp [fresh]
        · have free := tokens.free_iff token
          simp only [List.mem_cons, same, false_or] at free
          simp [same, free]
      · by_cases same : token = first
        · exact same ▸ inside
        · exact tokens.inside ((Function.update_of_ne same ..).symm.trans here)

theorem Tokens.take {buffer : Buffer} {token : Nat} (tokens : q.Tokens size)
    (here : q.posted token = some buffer)
    : (q.take token).Tokens size where
  distinct := by
    refine List.nodup_cons.mpr ⟨fun free => ?_, tokens.distinct⟩
    rw [((tokens.free_iff token).mp free).2] at here
    cases here
  free_iff other := by
    by_cases same : other = token
    · subst same
      simp [TokenQueue.take, tokens.inside here]
    · simp [TokenQueue.take, same, tokens.free_iff other]
  inside {other buffer} posted := by
    by_cases same : other = token
    · exact same ▸ tokens.inside here
    · exact tokens.inside ((Function.update_of_ne same ..).symm.trans posted)

/-- A buffer can be posted unless all tokens are given out. -/
theorem post_isSome {buffer : Buffer} (free : q.free ≠ [])
    : ∃ token q', q.post buffer = some (token, q') := by
  obtain ⟨token, rest, here⟩ := List.exists_cons_of_ne_nil free
  exact ⟨token, ⟨rest, _⟩, by rw [post, here]⟩

-----------------------------------------------------------------------------------------
-- Rows of slots
-----------------------------------------------------------------------------------------

/-- What the slots below a size contain. -/
def row (size : Nat) (slots : Nat → Option Slot) : List Slot :=
  (List.range size).filterMap slots

variable {slots : Nat → Option Slot} {token : Nat} {slot : Slot}

theorem mem_row : slot ∈ row size slots ↔ ∃ token < size, slots token = some slot := by
  simp [row]

theorem row_none (size : Nat) : row size (fun _ => none : Nat → Option Slot) = [] := by
  simp [row]

/-- An empty slot is filled. -/
theorem row_fill (inside : token < size) (vacant : slots token = none)
    : (row size (Function.update slots token (some slot))).Perm (slot :: row size slots) := by
  have first := List.perm_cons_erase (List.mem_range.mpr inside)
  have others : ((List.range size).erase token).filterMap
      (Function.update slots token (some slot))
      = ((List.range size).erase token).filterMap slots := by
    refine List.filterMap_congr fun other member => Function.update_of_ne ?_ ..
    exact (List.nodup_range.mem_erase_iff.mp member).1
  have filled := first.filterMap (Function.update slots token (some slot))
  have before := first.filterMap slots
  rw [List.filterMap_cons_some (Function.update_self ..), others] at filled
  rw [List.filterMap_cons_none vacant] at before
  exact filled.trans (before.symm.cons slot)

/-- A slot is emptied. -/
theorem row_vacate (inside : token < size) (here : slots token = some slot)
    : (row size slots).Perm (slot :: row size (Function.update slots token none)) := by
  have vacant : Function.update slots token none token = none := Function.update_self ..
  have filled : (row size (Function.update (Function.update slots token none) token
      (some slot))).Perm (slot :: row size (Function.update slots token none)) :=
    row_fill inside vacant
  rw [Function.update_idem, ← here, Function.update_eq_self] at filled
  exact filled

/-- The slots hold the buffers that are posted, so that their number is that of the tokens which
are given out.
-/
theorem Tokens.free_length {view : Slot → Buffer} (tokens : q.Tokens size)
    (mirrored : ∀ token, (slots token).map view = q.posted token)
    : q.free.length + (row size slots).length = size := by
  have free : q.free.Perm ((List.range size).filter fun token => (slots token).isNone) := by
    refine (List.perm_ext_iff_of_nodup tokens.distinct (List.nodup_range.filter _)).mpr ?_
    intro token
    rw [tokens.free_iff, ← mirrored token, List.mem_filter, List.mem_range]
    simp
  rw [free.length_eq, row, List.length_filterMap_eq_countP, ← List.countP_eq_length_filter]
  have all := List.length_eq_countP_add_countP (fun token => (slots token).isNone)
    (l := List.range size)
  simp only [List.length_range, Bool.not_eq_true, Option.isNone_eq_false_iff,
    Bool.decide_eq_true] at all
  exact all.symm

end TokenQueue
