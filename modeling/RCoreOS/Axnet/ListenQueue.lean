import RCoreOS.Axnet.Handles

/-! The queue of a listening port: what `accept` meets in it when the peers complete, close and
reset their connections, and in which order it takes them out.
-/

namespace RCoreOS.Axnet

/-- A queue without one of its sockets: the front fills the gap. -/
def gapFilled {α : Type} : List α → List α → List α
  | [], after => after
  | front :: more, after => more ++ front :: after

theorem swapRemoveFront_append {α : Type} (before : List α) (removed : α) (after : List α)
    : swapRemoveFront (before ++ removed :: after) before.length
      = some (removed, gapFilled before after) := by
  cases before with
  | nil => rfl
  | cons front more =>
      simp only [List.cons_append, List.length_cons, swapRemoveFront]
      rw [List.getElem?_append_right (Nat.le_refl _), Nat.sub_self, List.getElem?_cons_zero,
        List.set_append_right _ _ (Nat.le_refl _), Nat.sub_self, List.set_cons_zero]
      rfl

-----------------------------------------------------------------------------------------
-- `accept`, with its panics
-----------------------------------------------------------------------------------------

inductive Accepted where
  | panics
  | wouldBlock
  | accepted (handle : Nat) (endpoints : IpEndpoint × IpEndpoint) (entry : ListenTableEntry)
deriving DecidableEq

namespace ListenTableEntry

/-- `ListenTable::accept` on the entry of a port. -/
def tryAccept (sockets : Nat → Option SmolSocket) (entry : ListenTableEntry) : Accepted :=
  match entry.synQueue.findIdx? (isConnected sockets) with
  | none => .wouldBlock
  | some idx =>
      match swapRemoveFront entry.synQueue idx with
      | none => .panics
      | some (handle, synQueue) =>
          match (sockets handle).bind SmolSocket.tuple with
          -- `unwrap` of an endpoint
          | none => .panics
          | some endpoints => .accepted handle endpoints { entry with synQueue }

theorem accept_eq_some {sockets : Nat → Option SmolSocket} {entry entry' : ListenTableEntry}
    {handle : Nat} {endpoints : IpEndpoint × IpEndpoint}
    : entry.accept sockets = some ((handle, endpoints), entry')
      ↔ entry.tryAccept sockets = .accepted handle endpoints entry' := by
  unfold accept tryAccept
  cases entry.synQueue.findIdx? (isConnected sockets) with
  | none => simp
  | some idx =>
      cases removes : swapRemoveFront entry.synQueue idx with
      | none => simp [removes]
      | some taken =>
          obtain ⟨first, rest⟩ := taken
          cases here : sockets first with
          | none => simp [removes, here]
          | some smol => cases tuple : smol.tuple <;> simp [removes, here, tuple, and_assoc]

end ListenTableEntry

-----------------------------------------------------------------------------------------
-- Runs of a listening port
-----------------------------------------------------------------------------------------

/-- Why the state of a queued socket changes. -/
inductive Cause where
  | handshake
  | close
  | refusal
  | reset
deriving DecidableEq

/-- What smoltcp does with a queued socket when a segment of the peer comes in. -/
inductive Segment : Cause → SmolSocket → SmolSocket → Prop
  | receives (endpoints) : Segment .handshake ⟨.listen, none⟩ ⟨.synReceived, some endpoints⟩
  | completes (endpoints)
    : Segment .handshake ⟨.synReceived, some endpoints⟩ ⟨.established, some endpoints⟩
  | finishes (endpoints)
    : Segment .close ⟨.synReceived, some endpoints⟩ ⟨.closeWait, some endpoints⟩
  | closes (endpoints)
    : Segment .close ⟨.established, some endpoints⟩ ⟨.closeWait, some endpoints⟩
  /-- A handshake that is broken off takes the socket back. -/
  | refuses (endpoints) : Segment .refusal ⟨.synReceived, some endpoints⟩ ⟨.listen, none⟩
  | resets (smol) : Segment .reset smol ⟨.closed, none⟩

/-- A listening port, with the numbers of its connections in the order in which their SYNs
arrived.
-/
structure Listening where
  entry : ListenTableEntry
  sockets : Nat → Option SmolSocket
  /-- How many SYNs have put a socket into the queue. -/
  arrived : Nat
  /-- The connection of a queued socket. -/
  connection : Nat → Nat
  /-- The connections that `accept` has returned. -/
  returned : List Nat

namespace Listening

def tryAccept (s : Listening) : Accepted :=
  s.entry.tryAccept s.sockets

/-- `incoming_tcp_packet`. -/
def incoming (s : Listening) (handle : Nat) : Listening where
  entry := { s.entry with synQueue := s.entry.synQueue ++ [handle] }
  sockets := Function.update s.sockets handle (some ⟨.listen, none⟩)
  arrived := s.arrived + 1
  connection := Function.update s.connection handle s.arrived
  returned := s.returned

def goesTo (s : Listening) (handle : Nat) (smol : SmolSocket) : Listening :=
  { s with sockets := Function.update s.sockets handle (some smol) }

def returns (s : Listening) (handle : Nat) (entry : ListenTableEntry) : Listening :=
  { s with entry, returned := s.returned ++ [s.connection handle] }

/-- The steps of a run. The causes for which queued sockets change and the states in which
connections are accepted are parameters.
-/
inductive Step (may : Cause → Prop) (accepts : Listening → Prop) (s : Listening)
    : Listening → Prop
  | syn (dst handle) : s.entry.canAccept dst → s.entry.synQueue.length < LISTEN_QUEUE_SIZE →
      s.sockets handle = none → Step may accepts s (s.incoming handle)
  | segment (cause handle smol smol') : may cause → handle ∈ s.entry.synQueue →
      s.sockets handle = some smol → Segment cause smol smol' →
      Step may accepts s (s.goesTo handle smol')
  /-- The sockets that are not in the queue change in any way. -/
  | others (sockets) : (∀ handle ∈ s.entry.synQueue, sockets handle = s.sockets handle) →
      Step may accepts s { s with sockets }
  | accept (handle endpoints entry) : accepts s →
      s.tryAccept = .accepted handle endpoints entry → Step may accepts s (s.returns handle entry)

/-- `listen` was called, with any sockets in the socket set. -/
def Started (s : Listening) : Prop :=
  s.entry.synQueue = [] ∧ s.arrived = 0 ∧ s.returned = []

abbrev Reachable (may : Cause → Prop) (accepts : Listening → Prop) (s : Listening) : Prop :=
  Transition.Reachable Started (Step may accepts) s

/-- `accept` does not panic: there is nothing to accept, or a socket with both endpoints. -/
def Tolerates (s : Listening) : Prop :=
  s.tryAccept = .wouldBlock
  ∨ ∃ handle endpoints entry, s.tryAccept = .accepted handle endpoints entry
      ∧ (s.sockets handle).bind SmolSocket.tuple = some endpoints

/-- The first queued socket that `is_connected` lets pass. -/
def first (s : Listening) : Option Nat :=
  s.entry.synQueue.find? (isConnected s.sockets)

/-- Something holds of every queued socket, each of which is in the set. -/
def EachQueued (P : SmolSocket → Prop) (s : Listening) : Prop :=
  ∀ handle ∈ s.entry.synQueue, ∃ smol, s.sockets handle = some smol ∧ P smol

/-- The states of queued sockets, which have endpoints from the SYN on until they are reset. -/
def Waiting (smol : SmolSocket) : Prop :=
  match smol.state with
  | .listen | .closed => smol.tuple = none
  | .synReceived | .established | .closeWait => smol.tuple.isSome
  | _ => False

variable {s s' : Listening} {may : Cause → Prop} {accepts : Listening → Prop}

-----------------------------------------------------------------------------------------
-- What `accept` takes
-----------------------------------------------------------------------------------------

theorem tryAccept_of_none (none : s.first = none) : s.tryAccept = .wouldBlock := by
  have nowhere : s.entry.synQueue.findIdx? (isConnected s.sockets) = .none :=
    List.findIdx?_eq_none_iff.mpr fun handle queued =>
      eq_false_of_ne_true (List.find?_eq_none.mp none handle queued)
  rw [tryAccept, ListenTableEntry.tryAccept, nowhere]

/-- Where the first connected socket is in the queue. -/
theorem first_split {handle : Nat} (first : s.first = some handle)
    : isConnected s.sockets handle = true
      ∧ ∃ before after, s.entry.synQueue = before ++ handle :: after
        ∧ (∀ other ∈ before, isConnected s.sockets other = false)
        ∧ s.tryAccept = match (s.sockets handle).bind SmolSocket.tuple with
          | none => .panics
          | some endpoints =>
              .accepted handle endpoints { s.entry with synQueue := gapFilled before after } := by
  obtain ⟨connected, before, after, split, halfOpen⟩ := List.find?_eq_some_iff_append.mp first
  have unconnected : ∀ other ∈ before, isConnected s.sockets other = false :=
    fun other member => by simpa using halfOpen other member
  have place : s.entry.synQueue.findIdx? (isConnected s.sockets) = some before.length := by
    rw [split, List.findIdx?_append, List.findIdx?_eq_none_iff.mpr unconnected,
      List.findIdx?_cons, connected]
    simp
  refine ⟨connected, before, after, split, unconnected, ?_⟩
  rw [tryAccept, ListenTableEntry.tryAccept, place]
  simp only [split, swapRemoveFront_append]

/-- What is accepted was the first connected socket; it leaves the others in the queue, where
the front fills its gap.
-/
theorem accepted_split {handle : Nat} {endpoints : IpEndpoint × IpEndpoint}
    {entry : ListenTableEntry} (accepted : s.tryAccept = .accepted handle endpoints entry)
    : isConnected s.sockets handle = true
      ∧ ∃ before after, s.entry.synQueue = before ++ handle :: after
        ∧ (∀ other ∈ before, isConnected s.sockets other = false)
        ∧ entry.synQueue = gapFilled before after := by
  cases first : s.first with
  | none =>
      rw [tryAccept_of_none first] at accepted
      cases accepted
  | some taken =>
      obtain ⟨connected, before, after, split, halfOpen, outcome⟩ := first_split first
      rw [outcome] at accepted
      split at accepted
      · cases accepted
      · cases accepted
        exact ⟨connected, before, after, split, halfOpen, rfl⟩

theorem accepted_perm {handle : Nat} {endpoints : IpEndpoint × IpEndpoint}
    {entry : ListenTableEntry} (accepted : s.tryAccept = .accepted handle endpoints entry)
    : s.entry.synQueue.Perm (handle :: entry.synQueue) :=
  ListenTableEntry.accept_perm (ListenTableEntry.accept_eq_some.mpr accepted)

-----------------------------------------------------------------------------------------
-- Every run
-----------------------------------------------------------------------------------------

/-- What holds of a new socket and is kept by the segments that come in holds of all queued
sockets.
-/
theorem Step.eachQueued {P : SmolSocket → Prop} (new : P ⟨.listen, none⟩)
    (segments : ∀ cause smol smol', may cause → Segment cause smol smol' → P smol → P smol')
    (each : s.EachQueued P) (step : Step may accepts s s')
    : s'.EachQueued P := by
  cases step with
  | syn dst handle _ _ free =>
      intro other queued
      by_cases same : other = handle
      · exact ⟨_, (Function.update_apply ..).trans (if_pos same), new⟩
      · rcases List.mem_append.mp queued with old | here
        · obtain ⟨smol, there, holds⟩ := each other old
          exact ⟨smol, (Function.update_of_ne same ..).trans there, holds⟩
        · exact absurd (List.mem_singleton.mp here) same
  | segment cause handle smol smol' allowed queued there segment =>
      intro other member
      by_cases same : other = handle
      · obtain ⟨_, known, holds⟩ := each handle queued
        cases known.symm.trans there
        exact ⟨smol', (Function.update_apply ..).trans (if_pos same),
          segments cause smol smol' allowed segment holds⟩
      · obtain ⟨smol, there, holds⟩ := each other member
        exact ⟨smol, (Function.update_of_ne same ..).trans there, holds⟩
  | others sockets same =>
      intro handle queued
      obtain ⟨smol, there, holds⟩ := each handle queued
      exact ⟨smol, (same handle queued).trans there, holds⟩
  | accept handle endpoints entry _ accepted =>
      have perm := accepted_perm accepted
      exact fun other queued => each other (perm.mem_iff.mpr (List.mem_cons_of_mem handle queued))

theorem Reachable.eachQueued {P : SmolSocket → Prop} (reachable : Reachable may accepts s)
    (new : P ⟨.listen, none⟩)
    (segments : ∀ cause smol smol', may cause → Segment cause smol smol' → P smol → P smol')
    : s.EachQueued P := by
  refine reachable.invariant (EachQueued P) ?_ fun _ _ each step => step.eachQueued new segments each
  rintro first ⟨empty, -, -⟩ handle queued
  rw [empty] at queued
  cases queued

theorem Segment.waiting {cause : Cause} {smol smol' : SmolSocket}
    (segment : Segment cause smol smol')
    : Waiting smol' := by
  cases segment <;> simp [Waiting]

theorem Reachable.waiting (reachable : Reachable may accepts s) : s.EachQueued Waiting := by
  exact reachable.eachQueued rfl fun _ _ _ _ segment _ => Segment.waiting segment

/-- Without resets no queued socket is closed. -/
theorem Reachable.not_closed (reachable : Reachable may accepts s) (spared : ¬ may .reset)
    : s.EachQueued (·.state ≠ .closed) := by
  refine reachable.eachQueued (by decide) fun cause smol smol' allowed segment _ => ?_
  cases segment with
  | resets => exact absurd allowed spared
  | _ => simp

-----------------------------------------------------------------------------------------
-- Panics
-----------------------------------------------------------------------------------------

/-- A connected socket that was not reset has endpoints. -/
theorem Waiting.tuple {smol : SmolSocket} (waiting : Waiting smol)
    (connected : smol.state ≠ .listen ∧ smol.state ≠ .synReceived)
    : smol.tuple.isSome ↔ smol.state ≠ .closed := by
  obtain ⟨state, tuple⟩ := smol
  cases state <;> simp_all [Waiting]

/-- In every run `accept` panics exactly if the first queued socket that is neither listening
nor half-open was reset, and never in the runs without resets of queued sockets.
-/
theorem accept_tolerates_iff (reachable : Reachable may accepts s)
    : (s.Tolerates
        ↔ ∀ handle smol, s.first = some handle → s.sockets handle = some smol →
            smol.state ≠ .closed)
      ∧ (¬ may .reset → s.Tolerates) := by
  have tolerates : s.Tolerates
      ↔ ∀ handle smol, s.first = some handle → s.sockets handle = some smol →
          smol.state ≠ .closed := by
    cases first : s.first with
    | none =>
        refine iff_of_true (.inl (tryAccept_of_none first)) ?_
        rintro _ _ ⟨⟩
    | some handle =>
        obtain ⟨connected, before, after, split, -, outcome⟩ := first_split first
        have queued : handle ∈ s.entry.synQueue := by
          rw [split]
          exact List.mem_append_right before (List.mem_cons_self ..)
        obtain ⟨smol, there, waiting⟩ := reachable.waiting handle queued
        rw [isConnected, there] at connected
        have endpoints := waiting.tuple (by simpa using connected)
        rw [there, Option.bind_some] at outcome
        unfold Tolerates
        rw [outcome]
        cases tuple : smol.tuple with
        | none =>
            rw [tuple] at endpoints
            refine iff_of_false (by simp) fun open' => ?_
            cases endpoints.mpr (open' handle smol rfl there)
        | some both =>
            rw [tuple] at endpoints
            refine iff_of_true (.inr ⟨handle, both, _, rfl, by rw [there]; exact tuple⟩) ?_
            rintro _ _ ⟨⟩ same
            cases same.symm.trans there
            exact endpoints.mp rfl
  refine ⟨tolerates, fun spared => tolerates.mpr fun handle smol first there => ?_⟩
  have queued : handle ∈ s.entry.synQueue := List.mem_of_find?_eq_some first
  obtain ⟨_, known, opened⟩ := reachable.not_closed spared handle queued
  cases known.symm.trans there
  exact opened

/-- A port on which `listen` was called, over an empty socket set. -/
def fresh : Listening where
  entry := .new { addr := none, port := 80 }
  sockets := fun _ => none
  arrived := 0
  connection := fun _ => 0
  returned := []

def client (port : UInt16) : IpEndpoint × IpEndpoint :=
  ({ addr := 1, port := 80 }, { addr := 2, port })

theorem fresh_reachable : Reachable may accepts fresh :=
  .start ⟨rfl, rfl, rfl⟩

/-- A connection that is complete can be accepted. -/
theorem accept_tolerates_complete
    : ((((fresh.incoming 0).goesTo 0 ⟨.synReceived, some (client 5)⟩).goesTo 0
        ⟨.established, some (client 5)⟩)).Tolerates := by
  have start : Reachable (· ≠ .reset) (fun _ => True) fresh := fresh_reachable
  have syn := start.next (.syn 1 0 rfl (by decide) rfl)
  have received := syn.next
    (.segment .handshake 0 _ _ (by decide) (by decide) rfl (.receives (client 5)))
  have complete := received.next
    (.segment .handshake 0 _ _ (by decide) (by decide) rfl (.completes (client 5)))
  exact (accept_tolerates_iff complete).2 (by decide)

/-- A connection that was reset after its handshake makes `accept` panic. -/
theorem reset_panics
    : ¬ ∀ s, Reachable (fun _ => True) (fun _ => True) s → s.Tolerates := by
  intro tolerates
  have start : Reachable (fun _ => True) (fun _ => True) fresh := fresh_reachable
  have syn := start.next (.syn 1 0 rfl (by decide) rfl)
  have received := syn.next
    (.segment .handshake 0 _ _ trivial (by decide) rfl (.receives (client 5)))
  have complete := received.next
    (.segment .handshake 0 _ _ trivial (by decide) rfl (.completes (client 5)))
  have reset := complete.next (.segment .reset 0 _ _ trivial (by decide) rfl (.resets _))
  have panics : ((((fresh.incoming 0).goesTo 0 ⟨.synReceived, some (client 5)⟩).goesTo 0
      ⟨.established, some (client 5)⟩).goesTo 0 ⟨.closed, none⟩).tryAccept = .panics := by
    decide
  rcases tolerates _ reset with blocks | ⟨_, _, _, accepted, _⟩
  · exact absurd (panics.symm.trans blocks) (by decide)
  · exact absurd (panics.symm.trans accepted) (by simp)

-----------------------------------------------------------------------------------------
-- Which connections are returned
-----------------------------------------------------------------------------------------

/-- The connections in the queue, in its order. -/
def queued (s : Listening) : List Nat :=
  s.entry.synQueue.map s.connection

/-- The queue holds different sockets, and every connection is either in the queue or was
returned, once.
-/
structure Counted (s : Listening) : Prop where
  nodup : s.entry.synQueue.Nodup
  all : (s.returned ++ s.queued).Perm (List.range s.arrived)

theorem absent_of_free {handle : Nat} (waiting : s.EachQueued Waiting)
    (free : s.sockets handle = none)
    : handle ∉ s.entry.synQueue := by
  intro member
  obtain ⟨smol, there, -⟩ := waiting handle member
  cases free.symm.trans there

theorem incoming_queued {handle : Nat} (waiting : s.EachQueued Waiting)
    (free : s.sockets handle = none)
    : (s.incoming handle).queued = s.queued ++ [s.arrived] := by
  have absent := absent_of_free waiting free
  have old : s.entry.synQueue.map (Function.update s.connection handle s.arrived) = s.queued :=
    List.map_congr_left fun other member =>
      Function.update_of_ne (fun same : other = handle => absent (same ▸ member)) ..
  have new : (s.incoming handle).queued
      = s.entry.synQueue.map (Function.update s.connection handle s.arrived)
        ++ [Function.update s.connection handle s.arrived handle] :=
    List.map_append
  rw [new, old, Function.update_self]

theorem Step.counted (counted : s.Counted) (waiting : s.EachQueued Waiting)
    (step : Step may accepts s s')
    : s'.Counted := by
  cases step with
  | syn dst handle _ _ free =>
      constructor
      · exact (List.perm_append_singleton handle s.entry.synQueue).nodup_iff.mpr
          (List.nodup_cons.mpr ⟨absent_of_free waiting free, counted.nodup⟩)
      · rw [incoming_queued waiting free, ← List.append_assoc]
        exact (counted.all.append_right [s.arrived]).trans (.of_eq List.range_succ.symm)
  | segment => exact ⟨counted.nodup, counted.all⟩
  | others => exact ⟨counted.nodup, counted.all⟩
  | accept handle endpoints entry _ accepted =>
      have perm := accepted_perm accepted
      refine ⟨(List.nodup_cons.mp (perm.nodup_iff.mp counted.nodup)).2, ?_⟩
      refine List.Perm.trans ?_ counted.all
      have left := (perm.map s.connection).symm.append_left s.returned
      rwa [List.map_cons, List.append_cons] at left

theorem Reachable.counted (reachable : Reachable may accepts s) : s.Counted := by
  refine (reachable.invariant (fun s => s.Counted ∧ s.EachQueued Waiting) ?_ ?_).1
  · rintro first ⟨empty, none, nothing⟩
    refine ⟨⟨?_, ?_⟩, ?_⟩
    · rw [empty]
      exact List.nodup_nil
    · rw [queued, empty, none, nothing]
      exact .refl _
    · rw [EachQueued, empty]
      exact List.forall_mem_nil _
  · rintro s s' ⟨counted, waiting⟩ step
    refine ⟨step.counted counted waiting, step.eachQueued rfl ?_ waiting⟩
    intro cause smol smol' _ segment _
    exact Segment.waiting segment

/-- The connections that can be accepted. -/
def connected (s : Listening) : List Nat :=
  (s.entry.synQueue.filter (isConnected s.sockets)).map s.connection

/-- At most one half-open socket is in front of the first connected one. -/
def Few (s : Listening) : Prop :=
  (s.entry.synQueue.takeWhile fun handle => !isConnected s.sockets handle).length ≤ 1

/-- The front may fill the gap of the first or the second socket without a change of the order.
-/
theorem gapFilled_sublist {α : Type} {before : List α} (few : before.length ≤ 1) (removed : α)
    (after : List α)
    : (gapFilled before after).Sublist (before ++ removed :: after) := by
  match before, few with
  | [], _ => exact List.sublist_cons_self removed after
  | [front], _ => exact (List.sublist_cons_self removed after).cons_cons front

theorem Step.ordered (counted : s.Counted) (waiting : s.EachQueued Waiting)
    (ordered : s.queued.Pairwise (· < ·)) (step : Step may Few s s')
    : s'.queued.Pairwise (· < ·) := by
  cases step with
  | syn dst handle _ _ free =>
      rw [incoming_queued waiting free, List.pairwise_append]
      refine ⟨ordered, List.pairwise_singleton .., fun number member _ last => ?_⟩
      rw [List.mem_singleton.mp last]
      have there := counted.all.mem_iff.mp (List.mem_append_right s.returned member)
      exact List.mem_range.mp there
  | segment => exact ordered
  | others => exact ordered
  | accept handle endpoints entry few accepted =>
      obtain ⟨connected, before, after, split, halfOpen, rest⟩ := accepted_split accepted
      have front : (s.entry.synQueue.takeWhile fun handle => !isConnected s.sockets handle)
          = before := by
        rw [split, List.takeWhile_append_of_pos (by simpa using halfOpen),
          List.takeWhile_cons_of_neg (by simp [connected]), List.append_nil]
      rw [Few, front] at few
      have sub : entry.synQueue.Sublist s.entry.synQueue := by
        rw [rest, split]
        exact gapFilled_sublist few handle after
      exact ordered.sublist (sub.map s.connection)

/-- The runs whose accepts find few half-open sockets keep the connections in order. -/
theorem Reachable.ordered (reachable : Reachable may Few s) : s.queued.Pairwise (· < ·) := by
  refine (reachable.invariant
    (fun s => (s.Counted ∧ s.EachQueued Waiting) ∧ s.queued.Pairwise (· < ·)) ?_ ?_).2
  · intro first started
    have start : Reachable may Few first := .start started
    refine ⟨⟨start.counted, start.waiting⟩, ?_⟩
    rw [queued, started.1]
    exact List.Pairwise.nil
  · rintro s s' ⟨⟨counted, waiting⟩, ordered⟩ step
    refine ⟨⟨step.counted counted waiting, step.eachQueued rfl ?_ waiting⟩,
      step.ordered counted waiting ordered⟩
    intro cause smol smol' _ segment _
    exact Segment.waiting segment

/-- The sockets of three connections, which have different ports. -/
def halfOpen : Listening :=
  (((((fresh.incoming 0).incoming 1).incoming 2).goesTo 0 ⟨.synReceived, some (client 5)⟩).goesTo 1
    ⟨.synReceived, some (client 6)⟩).goesTo 2 ⟨.synReceived, some (client 7)⟩

end Listening

end RCoreOS.Axnet
