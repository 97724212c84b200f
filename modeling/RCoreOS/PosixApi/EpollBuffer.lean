import RCoreOS.PosixApi.Epoll

/-! The buffer of `epoll_wait`. `poll_all` stores up to two events for each registration without
looking at the length of the caller's buffer.
-/

namespace RCoreOS.PosixApi.IoMpx

open FlattenObjects (IdBitmap)

/-- What a turn of the loop in `sys_epoll_wait` meets, and whether the deadline has passed. -/
structure Turn (Bits F : Type) where
  state : Epoll Bits F
  expired : Bool

namespace Epoll

variable {Bits F : Type} (bm : IdBitmap Bits)

/-- The loop of `sys_epoll_wait`; it is still waiting if the turns do not suffice. -/
def waitLoop (len : Nat)
    : List (Turn Bits F) → Option (LinuxResult (Option (List EpollEvent)))
  | [] => some (.ok none)
  | turn :: later =>
      match turn.state.pollAll bm len with
      | none => none
      | some (.error e) => some (.error e)
      | some (.ok events) =>
          if 0 < events.length then some (.ok (some events))
          else if turn.expired then some (.ok (some []))
          else waitLoop len later

/-- The whole call: the instance is looked up once, and its list polled in each turn. -/
def epollWait (s : Epoll Bits F) (epfd maxevents : CInt) (turns : List (Turn Bits F))
    : Option (LinuxResult (Option (List EpollEvent))) :=
  if maxevents.toInt ≤ 0 then some (.error .EINVAL)
  else
    match s.fromFd bm epfd with
    | none => none
    | some (.error e) => some (.error e)
    | some (.ok _) => waitLoop bm (asUsize maxevents) turns

theorem epollWait_one_turn (s : Epoll Bits F) (epfd maxevents : CInt) (expired : Bool)
    : s.epollWait bm epfd maxevents [{ state := s, expired }]
      = s.sysEpollWait bm epfd maxevents expired := by
  unfold epollWait sysEpollWait
  split
  · rfl
  · rcases s.fromFd bm epfd with _ | e | found
    · rfl
    · rfl
    · unfold waitLoop
      rcases s.pollAll bm (asUsize maxevents) with _ | e | events
      · rfl
      · rfl
      · simp only [Option.map_some, Except.map]
        split
        · rfl
        · split <;> rfl

-----------------------------------------------------------------------------------------
-- What a wait should return, and when the buffer suffices
-----------------------------------------------------------------------------------------

/-- The event has one of the three kinds, and the poll reported it. -/
def Reports (polled : LinuxResult PollState) (events : BitVec 32) : Prop :=
  match polled with
  | .ok state => state.readable ∧ events = EPOLLIN ∨ state.writable ∧ events = EPOLLOUT
  | .error _ => events = EPOLLERR

/-- A registration requests the event, its file is ready for it, and the data is its own. -/
def Offers (s : Epoll Bits F) (event : EpollEvent) : Prop :=
  ∃ fd requested f, s.events.get fd = some requested
    ∧ s.fdTable.held fd = some f
    ∧ requested.events &&& event.events ≠ 0
    ∧ Reports (s.poll f) event.events
    ∧ event.data = requested.data

/-- The call stays inside of the buffer, and returns no more than requested events. -/
def RespectsBuffer (s : Epoll Bits F) (epfd maxevents : CInt) (turns : List (Turn Bits F))
    : Prop :=
  s.epollWait bm epfd maxevents turns ≠ none
  ∧ ∀ events, s.epollWait bm epfd maxevents turns = some (.ok (some events)) →
      events.length ≤ asUsize maxevents
      ∧ ∃ turn ∈ turns, ∀ event ∈ events, turn.state.Offers event

/-- The buffer has room for the requested events that are ready, up to the first registration
whose descriptor was closed.
-/
def Fits (s : Epoll Bits F) (len : Nat) : Prop :=
  (s.readyAmong (s.opened s.events.entries)).length ≤ len

/-- Nothing ends the wait in this turn. -/
def Turn.GoesOn (turn : Turn Bits F) : Prop :=
  turn.state.readyAmong turn.state.events.entries = []
  ∧ turn.state.opened turn.state.events.entries = turn.state.events.entries
  ∧ turn.expired = false

instance (s : Epoll Bits F) (len : Nat) : Decidable (s.Fits len) :=
  inferInstanceAs (Decidable (_ ≤ _))

/-- The buffer suffices in every turn of a wait. -/
def FitsAlong (len : Nat) : List (Turn Bits F) → Prop
  | [] => True
  | turn :: later => turn.state.Fits len ∧ (Turn.GoesOn turn → FitsAlong len later)

variable {bm} {s : Epoll Bits F}

-----------------------------------------------------------------------------------------
-- A single poll
-----------------------------------------------------------------------------------------

/-- What `poll_all` stores for a registration is requested and ready. -/
theorem reports_of_ready {polled : LinuxResult PollState} {requested event : EpollEvent}
    (ready : event ∈ readyOf polled requested)
    : requested.events &&& event.events ≠ 0 ∧ Reports polled event.events
      ∧ event.data = requested.data := by
  unfold readyOf at ready
  cases polled with
  | error e =>
      obtain ⟨asked, same⟩ := List.mem_ite_nil_right.mp ready
      cases List.mem_singleton.mp same
      exact ⟨asked, rfl, rfl⟩
  | ok state =>
      rcases List.mem_append.mp ready with reads | writes
      · obtain ⟨⟨readable, asked⟩, same⟩ := List.mem_ite_nil_right.mp reads
        cases List.mem_singleton.mp same
        exact ⟨asked, .inl ⟨readable, rfl⟩, rfl⟩
      · obtain ⟨⟨writable, asked⟩, same⟩ := List.mem_ite_nil_right.mp writes
        cases List.mem_singleton.mp same
        exact ⟨asked, .inr ⟨writable, rfl⟩, rfl⟩

theorem offers_of_ready {event : EpollEvent} (ready : event ∈ s.readyAmong s.events.entries)
    : s.Offers event := by
  obtain ⟨⟨fd, requested⟩, member, stored⟩ := List.mem_flatMap.mp ready
  unfold readyFrom at stored
  split at stored
  · rename_i f holds
    obtain ⟨asked, reports, data⟩ := reports_of_ready stored
    exact ⟨fd, requested, f, BTreeMap.get_eq_some.mpr member, holds, asked, reports, data⟩
  · cases stored

/-- A poll overruns the buffer exactly if it has no room for the events. -/
theorem pollAll_eq (sound : s.Sound bm) (len : Nat)
    : s.pollAll bm len
      = if s.Fits len then
          if s.opened s.events.entries = s.events.entries then
            some (.ok (s.readyAmong s.events.entries))
          else some (.error .EBADF)
        else none := by
  rw [pollAll, pollEntries_eq sound.table len sound.entries_below [] (Nat.zero_le len)]
  rfl

theorem fromFd_eq_ok (exact : s.fdTable.Exact bm) {epfd : CInt}
    : s.fromFd bm epfd = some (.ok ()) ↔ s.fdTable.held (asUsize epfd) = some .epoll := by
  unfold fromFd
  cases holds : s.fdTable.held (asUsize epfd) with
  | none => simp [getFileLike_closed exact holds]
  | some f => cases f <;> simp [getFileLike_open exact holds]

-----------------------------------------------------------------------------------------
-- The turns of a wait
-----------------------------------------------------------------------------------------

/-- The loop leaves the buffer in the first turn in which it does not suffice, by induction on
the turns.
-/
theorem waitLoop_ne_none {len : Nat} {turns : List (Turn Bits F)}
    (sound : ∀ turn ∈ turns, turn.state.Sound bm)
    : waitLoop bm len turns ≠ none ↔ FitsAlong len turns := by
  induction turns with
  | nil => exact iff_of_true (by simp [waitLoop]) trivial
  | cons turn later ih =>
      obtain ⟨here, others⟩ := List.forall_mem_cons.mp sound
      rw [waitLoop, pollAll_eq here, FitsAlong, ← ih others]
      by_cases fits : turn.state.Fits len
      · by_cases all : turn.state.opened turn.state.events.entries = turn.state.events.entries
        · cases ready : turn.state.readyAmong turn.state.events.entries with
          | nil => cases ends : turn.expired <;> simp [fits, all, Turn.GoesOn, ready, ends]
          | cons event more => simp [fits, all, Turn.GoesOn, ready]
        · simp [fits, all, Turn.GoesOn]
      · simp [fits]

/-- What the loop returns was ready in one of its turns and fitted, by induction on the turns. -/
theorem waitLoop_offers {len : Nat} {turns : List (Turn Bits F)}
    (sound : ∀ turn ∈ turns, turn.state.Sound bm) {events : List EpollEvent}
    (returned : waitLoop bm len turns = some (.ok (some events)))
    : events.length ≤ len ∧ ∃ turn ∈ turns, ∀ event ∈ events, turn.state.Offers event := by
  induction turns with
  | nil => cases returned
  | cons turn later ih =>
      obtain ⟨here, others⟩ := List.forall_mem_cons.mp sound
      rw [waitLoop, pollAll_eq here] at returned
      by_cases fits : turn.state.Fits len
      · by_cases all : turn.state.opened turn.state.events.entries = turn.state.events.entries
        · rw [if_pos fits, if_pos all] at returned
          dsimp only at returned
          split at returned
          · cases returned
            refine ⟨?_, turn, List.mem_cons_self .., fun event stored => offers_of_ready stored⟩
            rwa [Fits, all] at fits
          · split at returned
            · cases returned
              exact ⟨Nat.zero_le len, turn, List.mem_cons_self .., List.forall_mem_nil _⟩
            · obtain ⟨few, last, there, offers⟩ := ih others returned
              exact ⟨few, last, List.mem_cons_of_mem turn there, offers⟩
        · rw [if_pos fits, if_neg all] at returned
          cases returned
      · rw [if_neg fits] at returned
        cases returned

theorem epollWait_eq {epfd maxevents : CInt} (positive : 0 < maxevents.toInt)
    (created : s.fromFd bm epfd = some (.ok ())) (turns : List (Turn Bits F))
    : s.epollWait bm epfd maxevents turns = waitLoop bm (asUsize maxevents) turns := by
  unfold epollWait
  rw [if_neg (Int.not_le.mpr positive), created]

/-- A call with another descriptor fails at once. -/
theorem epollWait_other (exact : s.fdTable.Exact bm) {epfd maxevents : CInt}
    (positive : 0 < maxevents.toInt)
    (other : s.fdTable.held (asUsize epfd) ≠ some .epoll) (turns : List (Turn Bits F))
    : ∃ e, s.epollWait bm epfd maxevents turns = some (.error e) := by
  unfold epollWait fromFd
  rw [if_neg (Int.not_le.mpr positive)]
  cases holds : s.fdTable.held (asUsize epfd) with
  | none => exact ⟨.EBADF, by simp [getFileLike_closed exact holds]⟩
  | some f =>
      cases f with
      | epoll => exact absurd holds other
      | file f => exact ⟨.EINVAL, by simp [getFileLike_open exact holds]⟩

/-- In every run, a wait respects its buffer exactly if the buffer has room for the requested
events that are ready in the turn that ends the wait.
-/
theorem respectsBuffer_iff (lawful : bm.Lawful) (reached : s.Reached bm)
    {turns : List (Turn Bits F)} (run : ∀ turn ∈ turns, turn.state.Reached bm)
    (epfd maxevents : CInt) (positive : 0 < maxevents.toInt)
    : s.RespectsBuffer bm epfd maxevents turns
      ↔ (s.fdTable.held (asUsize epfd) = some .epoll → FitsAlong (asUsize maxevents) turns) := by
  have exact := (reached.sound lawful).table
  have sound := fun turn member => (run turn member).sound lawful
  unfold RespectsBuffer
  by_cases created : s.fdTable.held (asUsize epfd) = some .epoll
  · rw [epollWait_eq positive ((fromFd_eq_ok exact).mpr created), waitLoop_ne_none sound]
    exact ⟨fun respects _ => respects.1,
      fun fits => ⟨fits created, fun events returned => waitLoop_offers sound returned⟩⟩
  · obtain ⟨e, failed⟩ := epollWait_other exact positive created turns
    rw [failed]
    exact iff_of_true ⟨nofun, nofun⟩ fun same => absurd same created

/-- With two readable files registered, a buffer for two events suffices. -/
theorem respectsBuffer_iff_two
    : ∃ s : Epoll (List Nat) Nat,
        after registering = some s
        ∧ s.RespectsBuffer SlotTable.listed 3 2 [{ state := s, expired := true }] := by
  have registers : (after registering).isSome := by decide +kernel
  obtain ⟨s, run⟩ := Option.isSome_iff_exists.mp registers
  have seen : (after registering).map (fun s => decide (s.Fits 2)) = some true := by
    decide +kernel
  rw [run, Option.map_some, Option.some.injEq, decide_eq_true_iff] at seen
  have reached : s.Reached SlotTable.listed :=
    Transition.Reachable.actions (fun action _ _ _ done => ⟨action, done⟩)
      (.start unused_started) run
  refine ⟨s, run, (respectsBuffer_iff SlotTable.listed_lawful reached ?_ 3 2 (by decide)).mpr ?_⟩
  · exact List.forall_mem_singleton.mpr reached
  · exact fun _ => ⟨seen, fun _ => trivial⟩

/-- With two readable files registered, a wait for one event leaves the buffer. -/
theorem one_event_overruns
    : ¬ ∀ s : Epoll (List Nat) Nat, s.Reached SlotTable.listed →
        ∀ epfd maxevents, 0 < maxevents.toInt →
          s.RespectsBuffer SlotTable.listed epfd maxevents [{ state := s, expired := true }] := by
  intro respects
  have registers : (after registering).isSome := by decide +kernel
  obtain ⟨s, run⟩ := Option.isSome_iff_exists.mp registers
  have reached : s.Reached SlotTable.listed :=
    Transition.Reachable.actions (fun action _ _ _ done => ⟨action, done⟩)
      (.start unused_started) run
  have seen : (after registering).map (fun s =>
        s.epollWait SlotTable.listed 3 1 [{ state := s, expired := true }])
      = some none := by
    decide +kernel
  rw [run, Option.map_some, Option.some.injEq] at seen
  exact (respects s reached 3 1 (by decide)).1 seen

end Epoll

end RCoreOS.PosixApi.IoMpx
