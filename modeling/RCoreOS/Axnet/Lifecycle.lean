import RCoreOS.Axnet.TcpSocket

/-! The states of the sockets and the listen table. Only one task at a time is between the
compare-exchange and the store of `update_state` on a socket, as long as `poll_connect` stores
only to sockets that are still connecting.
-/

namespace RCoreOS.Axnet

/-- The transitions of the states, each with the call of `update_state` whose `STATE_BUSY` it
enters or leaves.
-/
inductive Transits : SocketState → Option Update → SocketState → Prop where
  | connect : Transits .closed (some .connect) .busy
  | connecting : Transits .busy (some .connect) .connecting
  | connectFails : Transits .busy (some .connect) .closed
  | connected : Transits .connecting none .connected
  | refused : Transits .connecting none .closed
  | shutdownStream : Transits .connected (some .shutdownStream) .busy
  | streamClosed : Transits .busy (some .shutdownStream) .closed
  | listen : Transits .closed (some .listen) .busy
  | listening : Transits .busy (some .listen) .listening
  | listenFails : Transits .busy (some .listen) .closed
  | shutdownListener : Transits .listening (some .shutdownListener) .busy
  | listenerClosed : Transits .busy (some .shutdownListener) .closed
  | bind : Transits .closed (some .bind) .busy
  | bound : Transits .busy (some .bind) .closed

theorem Update.expect_ne_busy (update : Update) : update.expect ≠ .busy := by
  cases update <;> decide

/-- `update_state` does not leave a socket busy. -/
theorem Update.left_ne_busy (update : Update) (ok : Bool)
    : (if ok then update.target else update.expect) ≠ .busy := by
  cases update <;> cases ok <;> decide

/-- What the calls and the socket make of a socket. -/
inductive Phase where
  | absent
  | resting (state : SocketState) (port : UInt16)
  | updating (update : Update) (stage : Stage) (port : UInt16)

namespace Phase

/-- The port of the entry in the listen table that belongs to the socket. -/
def held : Phase → Option UInt16
  | .resting .listening port => some port
  | .updating .listen (.finished true) port => some port
  | .updating .shutdownListener .start port => some port
  | .updating .shutdownListener (.unlistening port) _ => some port
  | _ => none

/-- `shutdown` does not fail, and `listen` enters the port of its socket. -/
def Fits : Phase → Prop
  | .updating .shutdownStream (.finished ok) _ => ok = true
  | .updating .shutdownListener (.finished ok) _ => ok = true
  | .updating .listen (.entering endpoint) port => port = endpoint.port
  | _ => True

def state : Phase → Option SocketState
  | .absent => none
  | .resting state _ => some state
  | .updating _ _ _ => some .busy

theorem updating_held {update : Update} {stage : Stage} {port port' : UInt16}
    (held : (updating update stage port).held = some port')
    : update = .listen ∧ stage = .finished true ∧ port = port'
      ∨ update = .shutdownListener ∧ stage = .start ∧ port = port'
      ∨ update = .shutdownListener ∧ stage = .unlistening port' := by
  unfold Phase.held at held
  split at held <;> simp_all

end Phase

namespace Net

variable {Task : Type} {net net' : Net Task} {s : Nat} {t : Task}

/-- No call of `update_state` on the socket is in progress. -/
def Unattended (net : Net Task) (s : Nat) : Prop :=
  ∀ t update stage, net.calls t ≠ .updating s update stage

inductive At (net : Net Task) (s : Nat) : Phase → Prop where
  | absent (none : net.sockets s = none) (unattended : net.Unattended s) : At net s .absent
  | resting (socket : TcpSocket) (live : net.sockets s = some socket)
      (rests : socket.state ≠ .busy) (unattended : net.Unattended s)
      : At net s (.resting socket.state socket.localAddr.port)
  | updating (socket : TcpSocket) (t : Task) (update : Update) (stage : Stage)
      (live : net.sockets s = some socket) (busy : socket.state = .busy)
      (here : net.calls t = .updating s update stage)
      (alone : ∀ t' update' stage', net.calls t' = .updating s update' stage' → t' = t)
      : At net s (.updating update stage socket.localAddr.port)

/-- A socket is in one phase only. -/
theorem At.unique {phase phase' : Phase} (there : net.At s phase) (there' : net.At s phase')
    : phase = phase' := by
  cases there with
  | absent none unattended =>
      cases there' with
      | absent => rfl
      | resting socket live => simp [none] at live
      | updating socket t update stage live => simp [none] at live
  | resting socket live rests unattended =>
      cases there' with
      | absent none => simp [live] at none
      | resting socket' live' =>
          rw [live] at live'
          cases live'
          rfl
      | updating socket' t update stage _ _ here => exact absurd here (unattended t update stage)
  | updating socket t update stage live busy here alone =>
      cases there' with
      | absent none => simp [live] at none
      | resting _ _ _ unattended => exact absurd here (unattended t update stage)
      | updating socket' t' update' stage' live' _ here' _ =>
          have same := alone t' update' stage' here'
          subst same
          rw [here] at here'
          rw [live] at live'
          cases here'
          cases live'
          rfl

/-- Two states agree on a socket and on the calls of `update_state` on it. -/
structure SameFor (net net' : Net Task) (s : Nat) : Prop where
  socket : net'.sockets s = net.sockets s
  calls
    : ∀ t update stage,
      net'.calls t = .updating s update stage ↔ net.calls t = .updating s update stage

theorem SameFor.refl (net : Net Task) (s : Nat) : net.SameFor net s :=
  ⟨rfl, fun _ _ _ => .rfl⟩

theorem SameFor.symm (same : net.SameFor net' s) : net'.SameFor net s :=
  ⟨same.socket.symm, fun t update stage => (same.calls t update stage).symm⟩

theorem SameFor.at {phase : Phase} (same : net.SameFor net' s) (there : net.At s phase)
    : net'.At s phase := by
  cases there with
  | absent none unattended =>
      exact .absent (same.socket.trans none) fun t update stage here =>
        unattended t update stage ((same.calls t update stage).mp here)
  | resting socket live rests unattended =>
      exact .resting socket (same.socket.trans live) rests fun t update stage here =>
        unattended t update stage ((same.calls t update stage).mp here)
  | updating socket t update stage live busy here alone =>
      exact .updating socket t update stage (same.socket.trans live) busy
        ((same.calls t update stage).mpr here) fun t' update' stage' here' =>
          alone t' update' stage' ((same.calls t' update' stage').mp here')

/-- How a step changes the listen table and one socket. -/
inductive Effect (net net' : Net Task) (phase phase' : Phase) : Prop where
  | keeps (table : ∀ port, (net'.table port).isSome = (net.table port).isSome)
      (held : phase'.held = phase.held)
  | listens (port : UInt16) (free : net.table port = none) (before : phase.held = none)
      (after : phase'.held = some port) (listed : (net'.table port).isSome)
      (others : ∀ port' ≠ port, net'.table port' = net.table port')
  | unlistens (port : UInt16) (before : phase.held = some port) (after : phase'.held = none)
      (unlisted : net'.table port = none)
      (others : ∀ port' ≠ port, net'.table port' = net.table port')

/-- The entry of the port belongs to the socket. -/
def Holds (net : Net Task) (s : Nat) (port : UInt16) : Prop :=
  ∃ phase, net.At s phase ∧ phase.held = some port

theorem At.holds_iff {phase : Phase} (there : net.At s phase) (port : UInt16)
    : net.Holds s port ↔ phase.held = some port := by
  constructor
  · intro holds
    obtain ⟨phase', there', held⟩ := holds
    exact there'.unique there ▸ held
  · exact fun held => ⟨phase, there, held⟩

theorem SameFor.holds_iff (same : net.SameFor net' s) (port : UInt16)
    : net'.Holds s port ↔ net.Holds s port := by
  constructor
  · exact fun ⟨phase, there, held⟩ => ⟨phase, same.symm.at there, held⟩
  · exact fun ⟨phase, there, held⟩ => ⟨phase, same.at there, held⟩

/-- Every entry of the listen table belongs to exactly one socket. -/
structure Listed (net : Net Task) : Prop where
  has : ∀ port, (net.table port).isSome ↔ ∃ s, net.Holds s port
  one : ∀ port s s', net.Holds s port → net.Holds s' port → s = s'

/-- The table stays right when the same sockets hold the same ports. -/
theorem Listed.congr (listed : net.Listed)
    (table : ∀ port, (net'.table port).isSome = (net.table port).isSome)
    (holds : ∀ s port, net'.Holds s port ↔ net.Holds s port)
    : net'.Listed where
  has port := by simp only [table, holds, listed.has]
  one port s s' := by simpa only [holds] using listed.one port s s'

/-- The table stays right when one socket changes, by the cases of the effect. -/
theorem Listed.next {phase phase' : Phase} (listed : net.Listed)
    (others : ∀ s', s' ≠ s → net.SameFor net' s') (there : net.At s phase)
    (there' : net'.At s phase') (effect : Effect net net' phase phase')
    : net'.Listed := by
  cases effect with
  | keeps table held =>
      refine listed.congr table fun s' port => ?_
      by_cases same : s' = s
      · rw [same, there'.holds_iff, there.holds_iff, held]
      · exact (others s' same).holds_iff port
  | listens port free before after entered table =>
      have nobody (s' : Nat) : ¬ net.Holds s' port := by
        intro holds
        have found := (listed.has port).mpr ⟨s', holds⟩
        simp [free] at found
      have holds (s' : Nat) (port' : UInt16)
          : net'.Holds s' port' ↔ if port' = port then s' = s else net.Holds s' port' := by
        by_cases same : s' = s
        · rw [same, there'.holds_iff, there.holds_iff, after, before]
          by_cases here : port' = port
          · simp [here]
          · simp [here, Ne.symm here]
        · rw [(others s' same).holds_iff]
          by_cases here : port' = port
          · simp [here, same, nobody s']
          · simp [here]
      refine ⟨fun port' => ?_, fun port' s₁ s₂ first second => ?_⟩
      · simp only [holds]
        by_cases here : port' = port
        · simp [here, entered]
        · simp [here, table port' here, listed.has]
      · rw [holds] at first second
        by_cases here : port' = port
        · rw [if_pos here] at first second
          rw [first, second]
        · rw [if_neg here] at first second
          exact listed.one port' s₁ s₂ first second
  | unlistens port before after gone table =>
      have holds (s' : Nat) (port' : UInt16)
          : net'.Holds s' port' ↔ port' ≠ port ∧ net.Holds s' port' := by
        by_cases same : s' = s
        · rw [same, there'.holds_iff, there.holds_iff, after, before]
          simp only [Option.some.injEq]
          exact ⟨fun none => (Option.some_ne_none _ none.symm).elim,
            fun both => absurd both.2.symm both.1⟩
        · rw [(others s' same).holds_iff]
          refine ⟨fun holds => ⟨?_, holds⟩, And.right⟩
          rintro rfl
          exact same (listed.one port' s' s holds ((there.holds_iff port').mpr before))
      refine ⟨fun port' => ?_, fun port' s₁ s₂ first second => ?_⟩
      · simp only [holds]
        by_cases here : port' = port
        · simp [here, gone]
        · simp [here, table port' here, listed.has]
      · rw [holds] at first second
        exact listed.one port' s₁ s₂ first.2 second.2

-----------------------------------------------------------------------------------------
-- Steps of one task on one socket
-----------------------------------------------------------------------------------------

/-- Every socket is in a phase, and `poll_connect` stores only its two states. -/
structure Orderly (net : Net Task) : Prop where
  phase : ∀ s, ∃ phase, net.At s phase ∧ phase.Fits
  stores
    : ∀ t s state, net.calls t = .storing s state → state = .connected ∨ state = .closed

/-- The phases of one socket before and after a step. -/
inductive PhaseStep : Phase → Phase → Prop where
  | stays (phase : Phase) : PhaseStep phase phase
  | appears (state : SocketState) (port : UInt16) : PhaseStep .absent (.resting state port)
  | disappears (state : SocketState) (port : UInt16) : PhaseStep (.resting state port) .absent
  | clears (state : SocketState) (port port' : UInt16)
      : PhaseStep (.resting state port) (.resting state port')
  | polled (state : SocketState) (port : UInt16)
      (stores : state = .connected ∨ state = .closed)
      : PhaseStep (.resting .connecting port) (.resting state port)
  | enters (update : Update) (port : UInt16)
      : PhaseStep (.resting update.expect port) (.updating update .start port)
  | works (update : Update) (stage stage' : Stage) (port port' : UInt16)
      : PhaseStep (.updating update stage port) (.updating update stage' port')
  | leaves (update : Update) (ok : Bool) (port : UInt16)
      (fits : (Phase.updating update (.finished ok) port).Fits)
      : PhaseStep (.updating update (.finished ok) port)
          (.resting (if ok then update.target else update.expect) port)

/-- A step of the phase that changes the state follows the diagram. -/
theorem PhaseStep.transits {phase phase' : Phase} {state state' : SocketState}
    (step : PhaseStep phase phase') (before : phase.state = some state)
    (after : phase'.state = some state') (changed : state' ≠ state)
    : ∃ update, Transits state update state'
      ∧ (state = .busy → ∃ u ∈ update, ∃ stage port, phase = .updating u stage port)
      ∧ (state' = .busy → ∃ u ∈ update, ∃ stage port, phase' = .updating u stage port) := by
  cases step with
  | stays => exact absurd (Option.some.inj (after.symm.trans before)) changed
  | appears => cases before
  | disappears => cases after
  | clears => exact absurd (Option.some.inj (after.symm.trans before)) changed
  | polled _ port stores =>
      cases before
      cases after
      rcases stores with rfl | rfl
      · exact ⟨none, .connected, (fun busy => by cases busy), fun busy => by cases busy⟩
      · exact ⟨none, .refused, (fun busy => by cases busy), fun busy => by cases busy⟩
  | enters update port =>
      cases before
      cases after
      refine ⟨some update, by cases update <;> constructor, fun busy => ?_,
        fun _ => ⟨update, rfl, .start, port, rfl⟩⟩
      cases update <;> cases busy
  | works => exact absurd (Option.some.inj (after.symm.trans before)) changed
  | leaves update ok port fits =>
      cases before
      cases after
      refine ⟨some update, ?_, fun _ => ⟨update, rfl, .finished ok, port, rfl⟩,
        fun busy => absurd busy (update.left_ne_busy ok)⟩
      cases update <;> cases ok <;> first | constructor | cases fits

/-- A step that changes the phase of one socket only. -/
def Changes (net net' : Net Task) : Prop :=
  ∃ s phase phase', (∀ s', s' ≠ s → net.SameFor net' s') ∧ net.At s phase ∧ net'.At s phase'
    ∧ phase'.Fits ∧ PhaseStep phase phase' ∧ Effect net net' phase phase'

/-- A call that updates a socket finds it busy, and it is the only one. -/
theorem At.of_updating {phase : Phase} {update : Update} {stage : Stage}
    (there : net.At s phase) (here : net.calls t = .updating s update stage)
    : ∃ socket, net.sockets s = some socket ∧ socket.state = .busy
      ∧ phase = .updating update stage socket.localAddr.port
      ∧ ∀ t' update' stage', net.calls t' = .updating s update' stage' → t' = t := by
  cases there with
  | absent _ unattended => exact absurd here (unattended t update stage)
  | resting _ _ _ unattended => exact absurd here (unattended t update stage)
  | updating socket t' update' stage' live busy here' alone =>
      have same := alone t update stage here
      subst same
      rw [here] at here'
      cases here'
      exact ⟨socket, live, busy, rfl, alone⟩

theorem Orderly.updating (orderly : net.Orderly) {update : Update} {stage : Stage}
    (here : net.calls t = .updating s update stage)
    : ∃ socket, net.sockets s = some socket ∧ socket.state = .busy
      ∧ net.At s (.updating update stage socket.localAddr.port)
      ∧ (Phase.updating update stage socket.localAddr.port).Fits
      ∧ ∀ t' update' stage', net.calls t' = .updating s update' stage' → t' = t := by
  obtain ⟨phase, there, fits⟩ := orderly.phase s
  obtain ⟨socket, live, busy, rfl, alone⟩ := there.of_updating here
  exact ⟨socket, live, busy, there, fits, alone⟩

/-- A socket that is not busy rests. -/
theorem At.resting_of {phase : Phase} {socket : TcpSocket} (there : net.At s phase)
    (live : net.sockets s = some socket) (rests : socket.state ≠ .busy)
    : net.At s (.resting socket.state socket.localAddr.port) ∧ net.Unattended s := by
  cases there with
  | absent none => simp [none] at live
  | resting socket' live' _ unattended =>
      exact ⟨.resting socket live rests unattended, unattended⟩
  | updating socket' _ _ _ live' busy =>
      rw [live] at live'
      cases live'
      exact absurd busy rests

theorem Orderly.resting (orderly : net.Orderly) {socket : TcpSocket}
    (live : net.sockets s = some socket) (rests : socket.state ≠ .busy)
    : net.At s (.resting socket.state socket.localAddr.port) ∧ net.Unattended s := by
  obtain ⟨phase, there, -⟩ := orderly.phase s
  exact there.resting_of live rests

theorem Orderly.absent (orderly : net.Orderly) (none : net.sockets s = none)
    : net.At s .absent ∧ net.Unattended s := by
  obtain ⟨phase, there, -⟩ := orderly.phase s
  cases there with
  | absent _ unattended => exact ⟨.absent none unattended, unattended⟩
  | resting _ live => simp [none] at live
  | updating _ _ _ _ live => simp [none] at live

variable [DecidableEq Task]

/-- Nothing changes for a socket that the task does not update before or after its step. -/
theorem sameFor_goto {mid : Net Task} {next : Call} (calls : mid.calls = net.calls)
    (socket : mid.sockets s = net.sockets s)
    (before : ∀ update stage, net.calls t ≠ .updating s update stage)
    (after : ∀ update stage, next ≠ .updating s update stage)
    : net.SameFor (mid.goto t next) s where
  socket := socket
  calls t' update stage := by
    by_cases same : t' = t
    · subst same
      rw [goto_calls_self]
      exact iff_of_false (after update stage) (before update stage)
    · rw [goto_calls_of_ne _ _ same, calls]

/-- The task that updates the socket is the only one afterwards too. -/
theorem at_goto_updating {mid : Net Task} {socket : TcpSocket} {update : Update} {stage : Stage}
    (calls : mid.calls = net.calls) (live : mid.sockets s = some socket)
    (busy : socket.state = .busy)
    (alone : ∀ t' update' stage', net.calls t' = .updating s update' stage' → t' = t)
    : (mid.goto t (.updating s update stage)).At s
      (.updating update stage socket.localAddr.port) := by
  refine .updating socket t update stage live busy (goto_calls_self ..) ?_
  intro t' update' stage' here
  by_cases same : t' = t
  · exact same
  · rw [goto_calls_of_ne _ _ same, calls] at here
    exact alone t' update' stage' here

/-- The socket rests when the task that may have updated it does not any more. -/
theorem at_goto_resting {mid : Net Task} {socket : TcpSocket} {next : Call}
    (calls : mid.calls = net.calls) (live : mid.sockets s = some socket)
    (rests : socket.state ≠ .busy) (after : ∀ update stage, next ≠ .updating s update stage)
    (alone : ∀ t' update' stage', net.calls t' = .updating s update' stage' → t' = t)
    : (mid.goto t next).At s (.resting socket.state socket.localAddr.port) := by
  refine .resting socket live rests fun t' update stage here => ?_
  by_cases same : t' = t
  · subst same
    rw [goto_calls_self] at here
    exact after update stage here
  · rw [goto_calls_of_ne _ _ same, calls] at here
    exact same (alone t' update stage here)

/-- A task works on its update of a socket. -/
theorem Orderly.works (orderly : net.Orderly) {mid : Net Task} {update : Update}
    {stage stage' : Stage} {socket socket' : TcpSocket}
    (here : net.calls t = .updating s update stage) (calls : mid.calls = net.calls)
    (live : net.sockets s = some socket) (live' : mid.sockets s = some socket')
    (state : socket'.state = socket.state)
    (others : ∀ s', s' ≠ s → mid.sockets s' = net.sockets s')
    (fits
      : (Phase.updating update stage socket.localAddr.port).Fits
        → (Phase.updating update stage' socket'.localAddr.port).Fits)
    (effect
      : Effect net (mid.goto t (.updating s update stage'))
        (.updating update stage socket.localAddr.port)
        (.updating update stage' socket'.localAddr.port))
    : Changes net (mid.goto t (.updating s update stage')) := by
  obtain ⟨socket₀, live₀, busy, there, fitted, alone⟩ := orderly.updating here
  rw [live] at live₀
  cases live₀
  refine ⟨s, _, _, fun s' other => ?_, there,
    at_goto_updating calls live' (state.trans busy) alone, fits fitted, .works .., effect⟩
  refine sameFor_goto calls (others s' other) (fun update' stage'' => ?_)
    fun update' stage'' => ?_
  · rw [here]
    rintro ⟨⟩
    exact other rfl
  · rintro ⟨⟩
    exact other rfl

/-- `poll_connect` stores only to a socket that is still connecting. -/
def Fresh (net : Net Task) : Event Task → Prop
  | .task t _ =>
      ∀ s socket, net.calls t = .clearing s ∨ (∃ state, net.calls t = .storing s state)
        → net.sockets s = some socket → socket.state = .connecting
  | _ => True

omit [DecidableEq Task] in
/-- A step that leaves all sockets alone. -/
theorem Orderly.changes (orderly : net.Orderly) (same : ∀ s, net.SameFor net' s)
    (table : ∀ port, (net'.table port).isSome = (net.table port).isSome)
    : net.Changes net' := by
  obtain ⟨phase, there, fits⟩ := orderly.phase 0
  exact ⟨0, phase, phase, fun s _ => same s, there, (same 0).at there, fits, .stays phase,
    .keeps table rfl⟩

/-- A task outside of `update_state` stores to a socket that rests. -/
theorem Orderly.stored (orderly : net.Orderly) {socket socket' : TcpSocket} {next : Call}
    (live : net.sockets s = some socket) (rests : socket.state ≠ .busy)
    (rests' : socket'.state ≠ .busy)
    (before : ∀ s' update stage, net.calls t ≠ .updating s' update stage)
    (after : ∀ s' update stage, next ≠ .updating s' update stage)
    (step
      : PhaseStep (.resting socket.state socket.localAddr.port)
        (.resting socket'.state socket'.localAddr.port))
    (held
      : (Phase.resting socket'.state socket'.localAddr.port).held
        = (Phase.resting socket.state socket.localAddr.port).held)
    : net.Changes ((net.put s (some socket')).goto t next) := by
  obtain ⟨there, unattended⟩ := orderly.resting live rests
  refine ⟨s, _, _, fun s' other => ?_, there,
    at_goto_resting rfl (put_sockets_self ..) rests' (after s)
      fun t' update stage here => absurd here (unattended t' update stage),
    trivial, step, .keeps (fun _ => rfl) held⟩
  exact sameFor_goto rfl (put_sockets_of_ne _ _ other) (before s') (after s')

omit [DecidableEq Task] in
/-- A socket appears under a new identity. -/
theorem Orderly.appears (orderly : net.Orderly) {socket : TcpSocket}
    (fresh : net.sockets s = none) (rests : socket.state ≠ .busy)
    (unlistened : socket.state ≠ .listening)
    (others : ∀ s', s' ≠ s → net.SameFor net' s') (live : net'.sockets s = some socket)
    (calls
      : ∀ t update stage, net'.calls t = .updating s update stage
        → net.calls t = .updating s update stage)
    (table : ∀ port, (net'.table port).isSome = (net.table port).isSome)
    : net.Changes net' := by
  obtain ⟨there, unattended⟩ := orderly.absent fresh
  refine ⟨s, _, _, others, there, .resting socket live rests fun t update stage here =>
    unattended t update stage (calls t update stage here), trivial, .appears .., .keeps table ?_⟩
  unfold Phase.held
  split <;> simp_all

omit [DecidableEq Task] in
/-- What a call that only reads makes of the phase, by the cases of the move. -/
theorem Moves.kind {call next : Call} (moves : net.Moves call next)
    : (∃ s update stage stage', call = .updating s update stage
        ∧ next = .updating s update stage'
        ∧ ∀ port, (Phase.updating update stage' port).held
            = (Phase.updating update stage port).held
          ∧ (Phase.updating update stage' port).Fits)
      ∨ (∀ s update stage, call ≠ .updating s update stage)
        ∧ (∀ s update stage, next ≠ .updating s update stage)
        ∧ ∀ s state, next = .storing s state → state = .connected ∨ state = .closed := by
  cases moves with
  | connectHandle s => exact .inl ⟨s, _, _, _, rfl, rfl, fun _ => ⟨rfl, trivial⟩⟩
  | connectBound s => exact .inl ⟨s, _, _, _, rfl, rfl, fun _ => ⟨rfl, trivial⟩⟩
  | connectUnbound s => exact .inl ⟨s, _, _, _, rfl, rfl, fun _ => ⟨rfl, trivial⟩⟩
  | connectRefused s => exact .inl ⟨s, _, _, _, rfl, rfl, fun _ => ⟨rfl, trivial⟩⟩
  | bindUnbound s => exact .inl ⟨s, _, _, _, rfl, rfl, fun _ => ⟨rfl, trivial⟩⟩
  | bindRefused s => exact .inl ⟨s, _, _, _, rfl, rfl, fun _ => ⟨rfl, trivial⟩⟩
  | listenUnbound s => exact .inl ⟨s, _, _, _, rfl, rfl, fun _ => ⟨rfl, trivial⟩⟩
  | listenRefused s => exact .inl ⟨s, _, _, _, rfl, rfl, fun _ => ⟨rfl, trivial⟩⟩
  | poll | pollEnds | pollFailed | accept | acceptPort | acceptEnds =>
      exact .inr ⟨by simp, by simp, by simp⟩
  | pollConnected => exact .inr ⟨by simp, by simp, by simp +contextual⟩

/-- Every step changes one socket at most, by the cases of the step. -/
theorem Step.changes {event : Event Task} (orderly : net.Orderly)
    (stepped : net.Step event net') (fresh : net.Fresh event)
    : net.Changes net' := by
  cases stepped with
  | move t next moves =>
      rcases moves.kind with ⟨s, update, stage, stage', here, rfl, kept⟩ | ⟨before, after, -⟩
      · obtain ⟨socket, live, -⟩ := orderly.updating here
        obtain ⟨held, fits⟩ := kept socket.localAddr.port
        exact orderly.works here rfl live live rfl (fun _ _ => rfl)
          (fun _ => fits) (.keeps (fun _ => rfl) held)
      · exact orderly.changes (fun s => sameFor_goto rfl rfl (before s) (after s)) fun _ => rfl
  | enter t s socket update idle live expected =>
      obtain ⟨there, unattended⟩ := orderly.resting live (expected ▸ update.expect_ne_busy)
      rw [expected] at there
      refine ⟨s, _, _, fun s' other => ?_, there,
        at_goto_updating rfl (put_sockets_self ..) rfl
          fun t' update' stage' here => absurd here (unattended t' update' stage'),
        by cases update <;> trivial, .enters .., .keeps (fun _ => rfl) ?_⟩
      · refine sameFor_goto rfl (put_sockets_of_ne _ _ other) (by simp [idle]) fun _ _ => ?_
        rintro ⟨⟩
        exact other rfl
      · cases update <;> rfl
  | leave t s socket update ok next here live leaves =>
      obtain ⟨socket', live', busy, there, fits, alone⟩ := orderly.updating here
      rw [live] at live'
      cases live'
      have away (s' : Nat) (update' : Update) (stage' : Stage)
          : next ≠ .updating s' update' stage' := by
        cases leaves <;> simp
      refine ⟨s, _, _, fun s' other => ?_, there,
        at_goto_resting rfl (put_sockets_self ..) ?_ (away s) alone, trivial,
        .leaves update ok _ fits, .keeps (fun _ => rfl) ?_⟩
      · refine sameFor_goto rfl (put_sockets_of_ne _ _ other) (fun _ _ => ?_) (away s')
        rw [here]
        rintro ⟨⟩
        exact other rfl
      · exact update.left_ne_busy ok
      · cases update <;> cases ok <;> first | rfl | cases fits
  | connectAdd t s socket handle here live =>
      exact orderly.works here rfl live live rfl (fun _ _ => rfl) (fun _ => trivial)
        (.keeps (fun _ => rfl) rfl)
  | connect t s handle endpoint smol localEndpoint remoteEndpoint here inSet port =>
      obtain ⟨socket, live, -⟩ := orderly.updating here
      exact orderly.works here rfl live live rfl (fun _ _ => rfl) (fun _ => trivial)
        (.keeps (fun _ => rfl) rfl)
  | connectStore t s socket handle localEndpoint remoteEndpoint here live =>
      exact orderly.works here rfl live (put_sockets_self ..) rfl
        (fun _ other => put_sockets_of_ne _ _ other) (fun _ => trivial)
        (.keeps (fun _ => rfl) rfl)
  | bind t s socket localAddr here live unbound =>
      exact orderly.works here rfl live (put_sockets_self ..) rfl
        (fun _ other => put_sockets_of_ne _ _ other) (fun _ => trivial)
        (.keeps (fun _ => rfl) rfl)
  | listenBound t s socket ephemeral endpoint here live range bound =>
      exact orderly.works here rfl live (put_sockets_self ..) rfl
        (fun _ other => put_sockets_of_ne _ _ other) (fun _ => rfl)
        (.keeps (fun _ => rfl) rfl)
  | listen t s endpoint here free =>
      obtain ⟨socket, live, -, -, fits, -⟩ := orderly.updating here
      refine orderly.works here rfl live live rfl (fun _ _ => rfl) (fun _ => trivial)
        (.listens endpoint.port free rfl (congrArg some fits) ?_ fun port other => ?_)
      · simp [goto, putEntry]
      · exact Function.update_of_ne other ..
  | shutdownStream t s socket handle smol smol' here live old inSet =>
      exact orderly.works here rfl live (put_sockets_self ..) rfl
        (fun _ other => put_sockets_of_ne _ _ other) (fun _ => rfl)
        (.keeps (fun _ => rfl) rfl)
  | shutdownListener t s socket here live =>
      exact orderly.works here rfl live (put_sockets_self ..) rfl
        (fun _ other => put_sockets_of_ne _ _ other) (fun _ => trivial)
        (.keeps (fun _ => rfl) rfl)
  | unlisten t s port here =>
      obtain ⟨socket, live, -⟩ := orderly.updating here
      exact orderly.works here rfl live live rfl (fun _ _ => rfl) (fun _ => rfl)
        (.unlistens port rfl rfl (Function.update_self ..)
          fun _ other => Function.update_of_ne other ..)
  | pollClear t s socket here live =>
      have connecting := fresh s socket (.inl here) live
      refine orderly.stored live ?_ ?_ (by simp [here]) (by simp) (.clears ..) ?_
      all_goals simp [connecting, Phase.held]
  | pollStore t s socket state here live =>
      have connecting := fresh s socket (.inr ⟨state, here⟩) live
      have stores := orderly.stores t s state here
      refine orderly.stored live ?_ ?_ (by simp [here]) (by simp) ?_ ?_
      · simp [connecting]
      · rcases stores with rfl | rfl <;> exact fun busy => by cases busy
      · rw [connecting]
        exact .polled state _ stores
      · rw [connecting]
        rcases stores with rfl | rfl <;> rfl
  | accept t s s' port entry entry' handle localEndpoint remoteEndpoint here found accepted
      absent =>
      refine orderly.appears absent (fun busy => by cases busy)
        (fun listening => by cases listening) (fun s'' other => ?_)
        (put_sockets_self ..) (fun t' update stage here' => ?_) fun port' => ?_
      · exact sameFor_goto rfl (put_sockets_of_ne _ _ other) (by simp [here]) (by simp)
      · by_cases same : t' = t
        · rw [same, goto_calls_self] at here'
          cases here'
        · rwa [goto_calls_of_ne _ _ same] at here'
      · by_cases same : port' = port
        · simp [goto, put, putEntry, same, found]
        · simp [goto, put, putEntry, same]
  | new s absent =>
      exact orderly.appears absent (by decide) (by decide)
        (fun s' other => ⟨put_sockets_of_ne _ _ other, fun _ _ _ => .rfl⟩)
        (put_sockets_self ..) (fun _ _ _ here => here) fun _ => rfl
  | drop s socket live unused shut =>
      have unattended : net.Unattended s := fun t update stage here =>
        unused t (by rw [here]; rfl)
      have rests : socket.state ≠ .busy := by
        intro busy
        obtain ⟨phase, there, -⟩ := orderly.phase s
        cases there with
        | absent none => simp [none] at live
        | resting socket' live' rests =>
            rw [live] at live'
            cases live'
            exact rests busy
        | updating _ t update stage _ _ here => exact unattended t update stage here
      refine ⟨s, _, .absent, fun s' other => ⟨put_sockets_of_ne _ _ other, fun _ _ _ => .rfl⟩,
        (orderly.resting live rests).1, .absent (put_sockets_self ..) unattended, trivial,
        .disappears .., .keeps (fun _ => rfl) ?_⟩
      obtain ⟨-, unlistened⟩ := shut
      cases state : socket.state with
      | listening => exact absurd state unlistened
      | closed | busy | connecting | connected => rfl
  | packet dst entry handle found accepts room free =>
      refine orderly.changes (fun s => ⟨rfl, fun _ _ _ => .rfl⟩) fun port => ?_
      by_cases same : port = dst.port
      · simp [putEntry, putHandle, same, found]
      · simp [putEntry, putHandle, same]
  | network handle smol smol' inSet =>
      exact orderly.changes (fun s => ⟨rfl, fun _ _ _ => .rfl⟩) fun _ => rfl

/-- `poll_connect` stores only its two states after every step too. -/
theorem Step.stores {event : Event Task} (orderly : net.Orderly)
    (stepped : net.Step event net') (t' : Task) (s' : Nat) (state' : SocketState)
    (here' : net'.calls t' = .storing s' state')
    : state' = .connected ∨ state' = .closed := by
  have goes {mid : Net Task} {t : Task} {next : Call} (calls : mid.calls = net.calls)
      (stores : next = .storing s' state' → state' = .connected ∨ state' = .closed)
      (here' : (mid.goto t next).calls t' = .storing s' state')
      : state' = .connected ∨ state' = .closed := by
    by_cases same : t' = t
    · rw [same, goto_calls_self] at here'
      exact stores here'
    · rw [goto_calls_of_ne _ _ same, calls] at here'
      exact orderly.stores t' s' state' here'
  cases stepped with
  | move t next moves =>
      refine goes rfl (fun storing => ?_) here'
      rcases moves.kind with ⟨s, update, stage, stage', -, same, -⟩ | ⟨-, -, stores⟩
      · rw [same] at storing
        cases storing
      · exact stores s' state' storing
  | leave t s socket update ok next here live leaves =>
      refine goes rfl (fun storing => ?_) here'
      cases leaves <;> cases storing
  | pollClear t s =>
      refine goes rfl (fun storing => ?_) here'
      cases storing
      exact .inr rfl
  | enter | connectAdd | connect | connectStore | bind | listenBound | listen | shutdownStream
  | shutdownListener | unlisten | pollStore | accept =>
      exact goes rfl (fun storing => by cases storing) here'
  | new | drop | packet | network => exact orderly.stores t' s' state' here'

omit [DecidableEq Task] in
theorem init_orderly : (init : Net Task).Orderly where
  phase s := ⟨.absent, .absent rfl (fun _ _ _ here => by cases here), trivial⟩
  stores _ _ _ here := by cases here

omit [DecidableEq Task] in
theorem init_listed : (init : Net Task).Listed := by
  have nobody (s : Nat) (port : UInt16) : ¬ (init : Net Task).Holds s port := by
    intro holds
    obtain ⟨phase, there, held⟩ := holds
    cases there with
    | absent => cases held
    | resting _ live => cases live
    | updating _ _ _ _ live => cases live
  refine ⟨fun port => iff_of_false (by simp [init]) fun ⟨s, holds⟩ => nobody s port holds, ?_⟩
  exact fun port s s' holds => absurd holds (nobody s port)

omit [DecidableEq Task] in
/-- The phases of all sockets are kept when one of them changes. -/
theorem Orderly.next (orderly : net.Orderly) (changes : net.Changes net')
    (stores
      : ∀ t s state, net'.calls t = .storing s state → state = .connected ∨ state = .closed)
    : net'.Orderly where
  phase s' := by
    obtain ⟨s, phase, phase', others, -, there', fits, -⟩ := changes
    by_cases same : s' = s
    · exact ⟨phase', same ▸ there', fits⟩
    · obtain ⟨old, there, fits⟩ := orderly.phase s'
      exact ⟨old, (others s' same).at there, fits⟩
  stores := stores

-----------------------------------------------------------------------------------------
-- Sockets and the listen table
-----------------------------------------------------------------------------------------

/-- The socket is in `STATE_LISTENING` on the port, or in `STATE_BUSY` inside its `listen`,
after the port was entered, or inside its `shutdown`, before it is taken out.
-/
inductive Listens (net : Net Task) (s : Nat) (port : UInt16) : Prop where
  | listening (socket : TcpSocket) (live : net.sockets s = some socket)
      (state : socket.state = .listening) (here : socket.localAddr.port = port)
  | listen (socket : TcpSocket) (t : Task) (live : net.sockets s = some socket)
      (state : socket.state = .busy)
      (call : net.calls t = .updating s .listen (.finished true))
      (here : socket.localAddr.port = port)
  | shutdown (socket : TcpSocket) (t : Task) (live : net.sockets s = some socket)
      (state : socket.state = .busy)
      (call : net.calls t = .updating s .shutdownListener .start)
      (here : socket.localAddr.port = port)
  | unlisten (socket : TcpSocket) (t : Task) (live : net.sockets s = some socket)
      (state : socket.state = .busy)
      (call : net.calls t = .updating s .shutdownListener (.unlistening port))

/-- Every port in the listen table has one socket that listens on it, and no two sockets listen
on the same port.
-/
def TableExact (net : Net Task) : Prop :=
  ∀ port, ((net.table port).isSome ↔ ∃ s, net.Listens s port)
    ∧ ∀ s s', net.Listens s port → net.Listens s' port → s = s'

/-- An update of the socket is in progress. -/
def Runs (net : Net Task) (s : Nat) (update : Update) : Prop :=
  ∃ t stage, net.calls t = .updating s update stage

/-- The states of all sockets change along the diagram, with `STATE_BUSY` in the update that
is in progress.
-/
def FollowsDiagram (net net' : Net Task) : Prop :=
  ∀ s socket socket', net.sockets s = some socket → net'.sockets s = some socket'
    → socket'.state ≠ socket.state
    → ∃ update, Transits socket.state update socket'.state
      ∧ (socket.state = .busy → ∃ u ∈ update, net.Runs s u)
      ∧ (socket'.state = .busy → ∃ u ∈ update, net'.Runs s u)

omit [DecidableEq Task] in
theorem Orderly.listens_iff (orderly : net.Orderly) (s : Nat) (port : UInt16)
    : net.Listens s port ↔ net.Holds s port := by
  constructor
  · intro listens
    cases listens with
    | listening socket live state here =>
        obtain ⟨there, -⟩ := orderly.resting live (by simp [state])
        refine ⟨_, there, ?_⟩
        rw [state, here]
        rfl
    | listen socket t live state call here =>
        obtain ⟨socket', live', -, there, -⟩ := orderly.updating call
        rw [live] at live'
        cases live'
        exact ⟨_, there, congrArg some here⟩
    | shutdown socket t live state call here =>
        obtain ⟨socket', live', -, there, -⟩ := orderly.updating call
        rw [live] at live'
        cases live'
        exact ⟨_, there, congrArg some here⟩
    | unlisten socket t live state call =>
        obtain ⟨socket', -, -, there, -⟩ := orderly.updating call
        exact ⟨_, there, rfl⟩
  · intro holds
    obtain ⟨phase, there, held⟩ := holds
    cases there with
    | absent => cases held
    | resting socket live rests unattended =>
        cases state : socket.state <;> rw [state] at held <;> cases held
        exact .listening socket live state rfl
    | updating socket t update stage live busy call alone =>
        rcases Phase.updating_held held with ⟨rfl, rfl, here⟩ | ⟨rfl, rfl, here⟩ | ⟨rfl, rfl⟩
        · exact .listen socket t live busy call here
        · exact .shutdown socket t live busy call here
        · exact .unlisten socket t live busy call

omit [DecidableEq Task] in
theorem At.state {phase : Phase} (there : net.At s phase)
    : (net.sockets s).map TcpSocket.state = phase.state := by
  cases there with
  | absent none => rw [none]; rfl
  | resting socket live => rw [live]; rfl
  | updating socket t update stage live busy => rw [live]; exact congrArg some busy

omit [DecidableEq Task] in
theorem At.runs {update : Update} {stage : Stage} {port : UInt16}
    (there : net.At s (.updating update stage port))
    : net.Runs s update := by
  cases there with
  | updating socket t update stage live busy here => exact ⟨t, stage, here⟩

omit [DecidableEq Task] in
/-- A socket whose phase takes a step follows the diagram, and the others keep their states. -/
theorem Changes.followsDiagram (changes : net.Changes net') : net.FollowsDiagram net' := by
  obtain ⟨s, phase, phase', others, there, there', -, step, -⟩ := changes
  intro s' socket socket' live live' changed
  by_cases same : s' = s
  · subst same
    have state := there.state
    have state' := there'.state
    rw [live] at state
    rw [live'] at state'
    obtain ⟨update, transits, before, after⟩ := step.transits state.symm state'.symm changed
    refine ⟨update, transits, fun busy => ?_, fun busy => ?_⟩
    · obtain ⟨u, member, stage, port, rfl⟩ := before busy
      exact ⟨u, member, there.runs⟩
    · obtain ⟨u, member, stage, port, rfl⟩ := after busy
      exact ⟨u, member, there'.runs⟩
  · rw [(others s' same).socket, live] at live'
    cases live'
    exact absurd rfl changed

/-- A run in which `poll_connect` stores only to connecting sockets keeps all this. -/
theorem reachable_orderly
    (reachable
      : Transition.Reachable (· = init)
        (fun net net' => ∃ event, Step net event net' ∧ net.Fresh event) net)
    : net.Orderly ∧ net.Listed := by
  refine reachable.invariant (fun net => net.Orderly ∧ net.Listed) ?_ ?_
  · rintro _ rfl
    exact ⟨init_orderly, init_listed⟩
  · intro net net' sound next
    obtain ⟨orderly, listed⟩ := sound
    obtain ⟨event, stepped, fresh⟩ := next
    have changes := stepped.changes orderly fresh
    refine ⟨orderly.next changes (stepped.stores orderly), ?_⟩
    obtain ⟨s, phase, phase', others, there, there', -, -, effect⟩ := changes
    exact listed.next others there there' effect

/-- In runs in which `poll_connect` stores only to sockets that are still connecting, the listen
table is exact and all states follow the diagram.
-/
theorem lifecycle
    (reachable
      : Transition.Reachable (· = init)
        (fun net net' => ∃ event, Step net event net' ∧ net.Fresh event) net)
    : net.TableExact
      ∧ ∀ event net', Step net event net' → net.Fresh event → net.FollowsDiagram net' := by
  obtain ⟨orderly, listed⟩ := reachable_orderly reachable
  refine ⟨fun port => ?_, fun event net' stepped fresh =>
    (stepped.changes orderly fresh).followsDiagram⟩
  simp only [orderly.listens_iff]
  exact ⟨listed.has port, listed.one port⟩

omit [DecidableEq Task] in
/-- A task that is not about to store in `poll_connect` may take any step. -/
theorem fresh_of_other {t : Task} {next : Call} (clear : ∀ s, net.calls t ≠ .clearing s)
    (store : ∀ s state, net.calls t ≠ .storing s state)
    : net.Fresh (.task t next) := by
  rintro s socket (here | ⟨state, here⟩) -
  · exact absurd here (clear s)
  · exact absurd here (store s state)

/-- A connection fails, `poll_connect` stores so to the socket that is still connecting, and the
socket is made a listener on port 0xc001.
-/
theorem lifecycle_listener
    : ∃ net : Net Bool, (net.table 0xc001).isSome ∧ net.TableExact
      ∧ ∀ event net', Step net event net' → net.Fresh event → net.FollowsDiagram net' := by
  have start : Transition.Reachable (· = init)
      (fun net net' => ∃ event, Step net event net' ∧ net.Fresh event) (init : Net Bool) :=
    .start rfl
  have n₁ := start.next ⟨_, .new _ 0 rfl, trivial⟩
  have n₂ := n₁.next ⟨_, .enter _ true 0 _ .connect rfl rfl rfl, fresh_of_other nofun nofun⟩
  have n₃ := n₂.next ⟨_, .connectAdd _ true 0 _ 0 rfl rfl rfl rfl, fresh_of_other nofun nofun⟩
  have n₄ := n₃.next ⟨_, .move _ true _ (.connectBound 0 _ 0 (some 0xc000) ⟨none, 0xc000⟩ rfl
    (by simp [IsEphemeral]) rfl), fresh_of_other nofun nofun⟩
  have n₅ := n₄.next ⟨_, .connect _ true 0 0 ⟨none, 0xc000⟩ _ ⟨1, 0xc000⟩ ⟨2, 80⟩ rfl rfl rfl,
    fresh_of_other nofun nofun⟩
  have n₆ := n₅.next ⟨_, .connectStore _ true 0 _ 0 _ _ rfl rfl, fresh_of_other nofun nofun⟩
  have n₇ := n₆.next ⟨_, .leave _ true 0 _ .connect true _ rfl rfl .blocks,
    fresh_of_other nofun nofun⟩
  have n₈ := n₇.next ⟨_, .network _ 0 _ ⟨.closed, none⟩ rfl, trivial⟩
  have n₉ := n₈.next ⟨_, .move _ true _ (.pollFailed 0 _ 0 _ rfl rfl rfl (by decide)),
    fresh_of_other nofun nofun⟩
  -- the two stores of `poll_connect`
  have n₁₀ := n₉.next ⟨_, .pollClear _ true 0 _ rfl rfl, by
    rintro s socket (here | ⟨state, here⟩) live <;> cases here
    cases live
    rfl⟩
  have n₁₁ := n₁₀.next ⟨_, .pollStore _ true 0 _ _ rfl rfl, by
    rintro s socket (here | ⟨state, here⟩) live <;> cases here
    cases live
    rfl⟩
  have n₁₂ := n₁₁.next ⟨_, .enter _ true 0 _ .listen rfl rfl rfl, fresh_of_other nofun nofun⟩
  have n₁₃ := n₁₂.next
    ⟨_, .listenBound _ true 0 _ (some 0xc001) ⟨none, 0xc001⟩ rfl rfl (by simp [IsEphemeral]) rfl,
      fresh_of_other nofun nofun⟩
  have n₁₄ := n₁₃.next ⟨_, .listen _ true 0 _ rfl rfl, fresh_of_other nofun nofun⟩
  have n₁₅ := n₁₄.next ⟨_, .leave _ true 0 _ .listen true _ rfl rfl (.returns _ _),
    fresh_of_other nofun nofun⟩
  exact ⟨_, rfl, lifecycle n₁₅⟩

/-- A task that saw a socket connecting stores `STATE_CLOSED` after the connection failed and
the socket was made a listener: its port stays in the listen table.
-/
theorem stale_poll_closes_listener
    : ∃ net net' : Net Bool, ∃ event,
      Transition.Reachable (· = init) (fun net net' => ∃ event, Step net event net') net
      ∧ Step net event net' ∧ ¬ net'.TableExact ∧ ¬ net.FollowsDiagram net' := by
  have start : Transition.Reachable (· = init)
      (fun net net' => ∃ event, Step net event net') (init : Net Bool) := .start rfl
  have n₁ := start.next ⟨_, .new _ 0 rfl⟩
  have n₂ := n₁.next ⟨_, .enter _ true 0 _ .connect rfl rfl rfl⟩
  have n₃ := n₂.next ⟨_, .connectAdd _ true 0 _ 0 rfl rfl rfl rfl⟩
  have n₄ := n₃.next ⟨_, .move _ true _ (.connectBound 0 _ 0 (some 0xc000) ⟨none, 0xc000⟩ rfl
    (by simp [IsEphemeral]) rfl)⟩
  have n₅ := n₄.next ⟨_, .connect _ true 0 0 ⟨none, 0xc000⟩ _ ⟨1, 0xc000⟩ ⟨2, 80⟩ rfl rfl rfl⟩
  have n₆ := n₅.next ⟨_, .connectStore _ true 0 _ 0 _ _ rfl rfl⟩
  have n₇ := n₆.next ⟨_, .leave _ true 0 _ .connect true _ rfl rfl .blocks⟩
  -- Another task polls the socket, and then the connection fails.
  have n₈ := n₇.next ⟨_, .move _ false _ (.poll 0 _ rfl rfl)⟩
  have n₉ := n₈.next ⟨_, .network _ 0 _ ⟨.closed, none⟩ rfl⟩
  have n₁₀ := n₉.next ⟨_, .move _ true _ (.pollFailed 0 _ 0 _ rfl rfl rfl (by decide))⟩
  have n₁₁ := n₁₀.next ⟨_, .pollClear _ true 0 _ rfl rfl⟩
  have n₁₂ := n₁₁.next ⟨_, .pollStore _ true 0 _ _ rfl rfl⟩
  have n₁₃ := n₁₂.next ⟨_, .enter _ true 0 _ .listen rfl rfl rfl⟩
  have n₁₄ := n₁₃.next
    ⟨_, .listenBound _ true 0 _ (some 0xc001) ⟨none, 0xc001⟩ rfl rfl (by simp [IsEphemeral]) rfl⟩
  have n₁₅ := n₁₄.next ⟨_, .listen _ true 0 _ rfl rfl⟩
  have n₁₆ := n₁₅.next ⟨_, .leave _ true 0 _ .listen true _ rfl rfl (.returns _ _)⟩
  -- The other task still polls.
  have n₁₇ := n₁₆.next ⟨_, .move _ false _ (.pollFailed 0 _ 0 _ rfl rfl rfl (by decide))⟩
  have n₁₈ := n₁₇.next ⟨_, .pollClear _ false 0 _ rfl rfl⟩
  refine ⟨_, _, _, n₁₈, .pollStore _ false 0 _ _ rfl rfl, fun exact' => ?_, fun follows => ?_⟩
  · obtain ⟨s, listens⟩ := (exact' 0xc001).1.mp rfl
    cases listens with
    | listening socket live state =>
        by_cases same : s = 0
        · subst same
          cases live
          cases state
        · simp [goto, put, putEntry, putHandle, init, same] at live
    | listen _ t _ _ call => cases t <;> cases call
    | shutdown _ t _ _ call => cases t <;> cases call
    | unlisten _ t _ _ call => cases t <;> cases call
  · obtain ⟨update, transits, -⟩ := follows 0 _ _ rfl rfl (by decide)
    have closes : Transits .listening update .closed := transits
    cases closes

end Net

end RCoreOS.Axnet
