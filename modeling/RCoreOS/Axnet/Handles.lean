import RCoreOS.Axnet.Lifecycle
import Mathlib.Data.List.Perm.Basic
import Mathlib.Data.List.Nodup

/-! The owners of the handles in the socket set: sockets, also while their `connect` is on its
way, and the queues of the listen table.
-/

namespace RCoreOS.Axnet

theorem swapRemoveFront_perm {α : Type} {items rest : List α} {idx : Nat} {removed : α}
    (removes : swapRemoveFront items idx = some (removed, rest))
    : items.Perm (removed :: rest) := by
  cases items with
  | nil => cases removes
  | cons front items =>
      cases idx with
      | zero =>
          cases removes
          exact .refl _
      | succ idx =>
          obtain ⟨found, here, same⟩ := Option.map_eq_some_iff.mp removes
          cases same
          obtain ⟨bound, value⟩ := List.getElem?_eq_some_iff.mp here
          have split : items = items.take idx ++ removed :: items.drop (idx + 1) := by
            rw [← value, List.getElem_cons_drop, List.take_append_drop]
          have front' : (front :: items).Perm
              (front :: removed :: (items.take idx ++ items.drop (idx + 1))) :=
            .cons front ((List.Perm.of_eq split).trans List.perm_middle)
          rw [List.set_eq_take_append_cons_drop, if_pos bound]
          exact front'.trans ((List.Perm.swap ..).trans (.cons removed List.perm_middle.symm))

/-- `accept` takes a handle out of the queue. -/
theorem ListenTableEntry.accept_perm {sockets : Nat → Option SmolSocket}
    {entry entry' : ListenTableEntry} {handle : Nat} {tuple : IpEndpoint × IpEndpoint}
    (accepted : entry.accept sockets = some ((handle, tuple), entry'))
    : entry.synQueue.Perm (handle :: entry'.synQueue) := by
  simp only [ListenTableEntry.accept, Option.bind_eq_bind, Option.bind_eq_some_iff] at accepted
  obtain ⟨idx, -, ⟨found, rest⟩, removes, smol, -, endpoints, -, same⟩ := accepted
  cases same
  exact swapRemoveFront_perm removes

/-- The handle that a `connect` has taken and not stored yet. -/
def Stage.taken : Stage → Option Nat
  | .handle taken | .bound taken _ | .connecting taken _ _ => some taken
  | _ => none

/-- The handle that a call has taken for a socket. -/
def Call.takes (s : Nat) : Call → Option Nat
  | .updating s' .connect stage => if s' = s then stage.taken else none
  | _ => none

/-- Calls that rely on the handle of a socket. -/
def Call.NeedsHandle (s : Nat) : Call → Prop
  | .updating s' .connect (.finished ok) => s' = s ∧ ok = true
  | .polling s' | .clearing s' | .storing s' _ => s' = s
  | _ => False

theorem Call.takes_eq_some {call : Call} {s handle : Nat}
    : call.takes s = some handle
      ↔ ∃ stage, call = .updating s .connect stage ∧ stage.taken = some handle := by
  constructor
  · intro takes
    unfold Call.takes at takes
    split at takes
    · next s' stage =>
        split at takes
        · next same => exact ⟨stage, by rw [same], takes⟩
        · cases takes
    · cases takes
  · rintro ⟨stage, rfl, taken⟩
    rwa [Call.takes, if_pos rfl]

theorem Call.takes_socket {call : Call} {s handle : Nat} (takes : call.takes s = some handle)
    : call.socket = some s := by
  obtain ⟨stage, rfl, -⟩ := takes_eq_some.mp takes
  rfl

theorem Call.takes_eq_none {s s' : Nat} {update : Update} {stage : Stage}
    (nothing : stage.taken = none)
    : (Call.updating s update stage).takes s' = none := by
  cases takes : (Call.updating s update stage).takes s' with
  | none => rfl
  | some handle =>
      obtain ⟨stage', same, taken⟩ := takes_eq_some.mp takes
      cases same
      rw [nothing] at taken
      cases taken

theorem Call.not_takes {s s' handle : Nat} {update : Update} {stage : Stage}
    (nothing : stage.taken = none)
    : (Call.updating s update stage).takes s' ≠ some handle := by
  rw [takes_eq_none nothing]
  exact nofun

theorem Call.needsHandle_socket {call : Call} {s : Nat} (needs : call.NeedsHandle s)
    : call.socket = some s := by
  unfold Call.NeedsHandle at needs
  split at needs
  · exact congrArg some needs.1
  · exact congrArg some needs
  · exact congrArg some needs
  · exact congrArg some needs
  · cases needs

inductive Owner where
  | socket (s : Nat)
  | queue (port : UInt16)
deriving DecidableEq, Repr

namespace Net

variable {Task : Type} {net net' : Net Task} {s : Nat} {t : Task}

/-- A handle belongs to a live socket that has stored it or whose `connect` has taken it, or is
in the queue of a port.
-/
def Owns (net : Net Task) : Owner → Nat → Prop
  | .socket s, handle =>
      ∃ socket, net.sockets s = some socket
        ∧ (socket.handle = some handle ∨ ∃ t, (net.calls t).takes s = some handle)
  | .queue port, handle => ∃ entry, net.table port = some entry ∧ handle ∈ entry.synQueue

/-- Every handle in the socket set has exactly one owner, once, and every handle with an owner is
in the socket set.
-/
structure HandlesExact (net : Net Task) : Prop where
  owned : ∀ handle, (net.set handle).isSome → ∃! owner, net.Owns owner handle
  inSet : ∀ owner handle, net.Owns owner handle → (net.set handle).isSome
  once : ∀ port entry, net.table port = some entry → entry.synQueue.Nodup

/-- A `connect` that fails fails on a socket that has stored a handle before. -/
def Kept (net : Net Task) : Event Task → Prop
  | .task _ (.updating s .connect (.finished false)) =>
      ∀ socket, net.sockets s = some socket → socket.handle ≠ none
  | _ => True

-----------------------------------------------------------------------------------------
-- Sockets without a handle
-----------------------------------------------------------------------------------------

/-- A handle that a `connect` has taken is the one of its socket or its first one. A socket
without a handle has not been connecting, so that nothing stores to it but `update_state`.
-/
structure Handled (net : Net Task) (s : Nat) : Prop where
  live : ∀ t, (net.calls t).socket = some s → (net.sockets s).isSome
  taken
    : ∀ t socket handle, net.sockets s = some socket → (net.calls t).takes s = some handle
      → socket.handle = none ∨ socket.handle = some handle
  bare
    : ∀ socket, net.sockets s = some socket → socket.handle = none
      → socket.state ≠ .connecting ∧ (∀ t, ¬ (net.calls t).NeedsHandle s)
        ∧ ∃ phase, net.At s phase

/-- Nothing changes for a socket that a task leaves alone. -/
theorem Handled.frame (handled : net.Handled s) (socket : net'.sockets s = net.sockets s)
    (calls : ∀ t, (net'.calls t).socket = some s ∨ (net.calls t).socket = some s
      → net'.calls t = net.calls t)
    : net'.Handled s := by
  have same : net.SameFor net' s := ⟨socket, fun t update stage => by
    constructor
    · exact fun here => calls t (.inl (by rw [here]; rfl)) ▸ here
    · exact fun here => (calls t (.inr (by rw [here]; rfl))).trans here⟩
  refine ⟨fun t here => ?_, fun t known handle live taken => ?_, fun known live noHandle => ?_⟩
  · rw [socket]
    exact handled.live t (calls t (.inl here) ▸ here)
  · rw [calls t (.inl (Call.takes_socket taken))] at taken
    exact handled.taken t known handle (socket ▸ live) taken
  · obtain ⟨state, needs, phase, there⟩ := handled.bare known (socket ▸ live) noHandle
    refine ⟨state, fun t needed => needs t ?_, phase, same.at there⟩
    rwa [calls t (.inl (Call.needsHandle_socket needed))] at needed

variable [DecidableEq Task]

/-- A task that moves in a call on one socket keeps this for all sockets, when it keeps it for
this one.
-/
theorem handled_goto {mid : Net Task} {next : Call} {socket socket' : TcpSocket}
    (handled : ∀ s, net.Handled s) (calls : mid.calls = net.calls)
    (live : net.sockets s = some socket) (live' : mid.sockets s = some socket')
    (others : ∀ s', s' ≠ s → mid.sockets s' = net.sockets s')
    (about : ∀ s', (net.calls t).socket = some s' → s' = s)
    (about' : ∀ s', next.socket = some s' → s' = s)
    (handle
      : socket'.handle = socket.handle
        ∨ socket.handle = none ∧ ∃ update stage, net.calls t = .updating s update stage)
    (takes
      : ∀ handle, next.takes s = some handle
        → socket'.handle = none ∨ socket'.handle = some handle)
    (bare
      : socket'.handle = none
        → socket'.state ≠ .connecting ∧ ¬ next.NeedsHandle s
          ∧ ∃ phase, (mid.goto t next).At s phase)
    : ∀ s', (mid.goto t next).Handled s' := by
  intro s'
  by_cases same : s' = s
  · subst same
    refine ⟨fun _ _ => ?_, fun t' known taken known' takes' => ?_, fun known known' none => ?_⟩
    · exact (congrArg Option.isSome live').trans rfl
    · cases live'.symm.trans known'
      by_cases here : t' = t
      · rw [here, goto_calls_self] at takes'
        exact takes taken takes'
      · rw [goto_calls_of_ne _ _ here, calls] at takes'
        rcases handle with kept | ⟨noHandle, update, stage, updates⟩
        · rw [kept]
          exact (handled s').taken t' socket taken live takes'
        · -- The other task would be in an update of a socket that `t` updates alone.
          obtain ⟨-, -, phase, there⟩ := (handled s').bare socket live noHandle
          obtain ⟨-, -, -, -, alone⟩ := there.of_updating updates
          obtain ⟨stage', here', -⟩ := Call.takes_eq_some.mp takes'
          exact absurd (alone t' .connect stage' here') here
    · cases live'.symm.trans known'
      have noHandle : socket.handle = Option.none := by
        rcases handle with kept | ⟨noHandle, -⟩
        · exact kept ▸ none
        · exact noHandle
      obtain ⟨-, needs, -⟩ := (handled s').bare socket live noHandle
      obtain ⟨state, needs', there⟩ := bare none
      refine ⟨state, fun t' needed => ?_, there⟩
      by_cases here : t' = t
      · rw [here, goto_calls_self] at needed
        exact needs' needed
      · rw [goto_calls_of_ne _ _ here, calls] at needed
        exact needs t' needed
  · refine (handled s').frame (others s' same) fun t' here => ?_
    by_cases mover : t' = t
    · subst mover
      rw [goto_calls_self] at here
      rcases here with here | here
      · exact absurd (about' s' here) same
      · exact absurd (about s' here) same
    · rw [goto_calls_of_ne _ _ mover, calls]

omit [DecidableEq Task] in
/-- What a call that only reads makes of the handles, by the cases of the move: it stays in the
update of a socket, whose handle a `connect` may take, or it stays outside of all updates.
-/
theorem Moves.handles {call next : Call} (moves : net.Moves call next)
    : (∃ s update stage stage', call = .updating s update stage
        ∧ next = .updating s update stage' ∧ ¬ next.NeedsHandle s
        ∧ ∀ handle, next.takes s = some handle → call.takes s = some handle
          ∨ ∃ socket, net.sockets s = some socket ∧ socket.handle = some handle)
      ∨ ∃ s, (call.socket = some s ∨ call = .idle ∧ (net.sockets s).isSome)
        ∧ (next.socket = some s ∨ next = .idle)
        ∧ (∀ s update stage, call ≠ .updating s update stage)
        ∧ (∀ s update stage, next ≠ .updating s update stage)
        ∧ (next.NeedsHandle s → call.NeedsHandle s
          ∨ ∃ socket, net.sockets s = some socket ∧ socket.state = .connecting) := by
  cases moves with
  | connectHandle s socket h live old =>
      refine .inl ⟨s, _, _, _, rfl, rfl, id, fun handle takes => .inr ⟨socket, live, ?_⟩⟩
      obtain ⟨stage, same, taken⟩ := Call.takes_eq_some.mp takes
      cases same
      exact old.trans taken
  | connectBound s socket h ephemeral endpoint =>
      refine .inl ⟨s, _, _, _, rfl, rfl, id, fun handle takes => .inl ?_⟩
      obtain ⟨stage, same, taken⟩ := Call.takes_eq_some.mp takes
      cases same
      exact Call.takes_eq_some.mpr ⟨_, rfl, taken⟩
  | connectUnbound s | connectRefused s | bindUnbound s | bindRefused s | listenUnbound s
  | listenRefused s =>
      refine .inl ⟨s, _, _, _, rfl, rfl, by simp [Call.NeedsHandle], fun handle takes => ?_⟩
      simp [Call.takes, Stage.taken] at takes
  | poll s socket live connecting =>
      exact .inr ⟨s, .inr ⟨rfl, by rw [live]; rfl⟩, .inl rfl, by simp, by simp,
        fun _ => .inr ⟨socket, live, connecting⟩⟩
  | pollEnds s => exact .inr ⟨s, .inl rfl, .inr rfl, by simp, by simp, fun needs => needs.elim⟩
  | pollConnected s => exact .inr ⟨s, .inl rfl, .inl rfl, by simp, by simp, fun _ => .inl rfl⟩
  | pollFailed s => exact .inr ⟨s, .inl rfl, .inl rfl, by simp, by simp, fun _ => .inl rfl⟩
  | accept s socket live =>
      exact .inr ⟨s, .inr ⟨rfl, by rw [live]; rfl⟩, .inl rfl, by simp, by simp,
        fun needs => needs.elim⟩
  | acceptPort s => exact .inr ⟨s, .inl rfl, .inl rfl, by simp, by simp, fun needs => needs.elim⟩
  | acceptEnds s => exact .inr ⟨s, .inl rfl, .inr rfl, by simp, by simp, fun needs => needs.elim⟩

/-- A task works on its update of a socket. -/
theorem handled_works {mid : Net Task} {update : Update} {stage stage' : Stage}
    {socket socket' : TcpSocket} (handled : ∀ s, net.Handled s)
    (here : net.calls t = .updating s update stage) (calls : mid.calls = net.calls)
    (live : net.sockets s = some socket) (live' : mid.sockets s = some socket')
    (others : ∀ s', s' ≠ s → mid.sockets s' = net.sockets s')
    (state : socket'.state = socket.state)
    (handle : socket'.handle = socket.handle ∨ socket.handle = none)
    (takes
      : ∀ handle, (Call.updating s update stage').takes s = some handle
        → socket'.handle = none ∨ socket'.handle = some handle)
    (needs : socket'.handle = none → ¬ (Call.updating s update stage').NeedsHandle s)
    : ∀ s', (mid.goto t (.updating s update stage')).Handled s' := by
  refine handled_goto handled calls live live' others ?_ ?_ ?_ takes fun none => ?_
  · rw [here]
    rintro _ ⟨⟩
    rfl
  · rintro _ ⟨⟩
    rfl
  · exact handle.imp_right fun none => ⟨none, update, stage, here⟩
  · have noHandle : socket.handle = Option.none := by
      rcases handle with kept | noHandle
      · exact kept ▸ none
      · exact noHandle
    obtain ⟨-, -, phase, there⟩ := (handled s).bare socket live noHandle
    obtain ⟨socket₀, live₀, busy, -, alone⟩ := there.of_updating here
    cases live.symm.trans live₀
    have busy' := state.trans busy
    exact ⟨by simp [busy'], needs none, _, at_goto_updating calls live' busy' alone⟩

omit [DecidableEq Task] in
/-- A socket appears under an identity that no call uses. -/
theorem handled_appears {socket : TcpSocket} (handled : ∀ s, net.Handled s)
    (fresh : net.sockets s = none) (calls : net'.calls = net.calls)
    (live : net'.sockets s = some socket)
    (others : ∀ s', s' ≠ s → net'.sockets s' = net.sockets s')
    (state : socket.state ≠ .busy ∧ socket.state ≠ .connecting)
    : ∀ s', net'.Handled s' := by
  intro s'
  by_cases same : s' = s
  · subst same
    have unused (t : Task) : (net.calls t).socket ≠ some s' := by
      intro here
      simpa [fresh] using (handled s').live t here
    refine ⟨fun t here => ?_, fun t known handle _ takes => ?_, fun known live' _ => ?_⟩
    · exact absurd (calls ▸ here) (unused t)
    · exact absurd (Call.takes_socket (calls ▸ takes)) (unused t)
    · cases live.symm.trans live'
      refine ⟨state.2, fun t needs => unused t (Call.needsHandle_socket (calls ▸ needs)), _,
        .resting socket live state.1 fun t update stage here => unused t ?_⟩
      rw [← calls, here]
      rfl
  · exact (handled s').frame (others s' same) fun t _ => congrFun calls t

omit [DecidableEq Task] in
/-- The sockets that calls are about are there. -/
theorem handled_knows (handled : ∀ s, net.Handled s) (here : (net.calls t).socket = some s)
    : ∃ socket, net.sockets s = some socket :=
  Option.isSome_iff_exists.mp ((handled s).live t here)

/-- A task works on its update of a socket and takes no handle. -/
theorem handled_updates {mid : Net Task} {update : Update} {stage stage' : Stage}
    {socket socket' : TcpSocket} (handled : ∀ s, net.Handled s)
    (here : net.calls t = .updating s update stage) (calls : mid.calls = net.calls)
    (live : net.sockets s = some socket) (live' : mid.sockets s = some socket')
    (others : ∀ s', s' ≠ s → mid.sockets s' = net.sockets s')
    (state : socket'.state = socket.state) (handle : socket'.handle = socket.handle)
    (nothing : stage'.taken = none) (needs : ¬ (Call.updating s update stage').NeedsHandle s)
    : ∀ s', (mid.goto t (.updating s update stage')).Handled s' :=
  handled_works handled here calls live live' others state (.inl handle)
    (fun _ takes => absurd takes (Call.not_takes nothing)) fun _ => needs

/-- A call that only reads. -/
theorem handled_moves {next : Call} (handled : ∀ s, net.Handled s)
    (moves : net.Moves (net.calls t) next)
    : ∀ s, (net.goto t next).Handled s := by
  rcases moves.handles with
    ⟨s, update, stage, stage', here, rfl, needs, takes⟩
    | ⟨s, about, about', before, after, needs⟩
  · obtain ⟨socket, live⟩ := handled_knows handled (t := t) (s := s) (by rw [here]; rfl)
    refine handled_works handled here rfl live live (fun _ _ => rfl) rfl (.inl rfl)
      (fun handle taken => ?_) fun _ => needs
    rcases takes handle taken with old | ⟨known, live', old⟩
    · exact (handled s).taken t socket handle live old
    · cases live.symm.trans live'
      exact .inr old
  · obtain ⟨socket, live⟩ : ∃ socket, net.sockets s = some socket := by
      rcases about with here | ⟨-, found⟩
      · exact handled_knows handled here
      · exact Option.isSome_iff_exists.mp found
    refine handled_goto handled rfl live live (fun _ _ => rfl) (fun s' here => ?_)
      (fun s' here => ?_) (.inl rfl) (fun handle takes => ?_) fun noHandle => ?_
    · rcases about with about | ⟨idle, -⟩
      · exact Option.some.inj (here.symm.trans about)
      · rw [idle] at here
        cases here
    · rcases about' with about' | rfl
      · exact Option.some.inj (here.symm.trans about')
      · cases here
    · obtain ⟨stage, same, -⟩ := Call.takes_eq_some.mp takes
      exact absurd same (after s .connect stage)
    · obtain ⟨state, unneeded, phase, there⟩ := (handled s).bare socket live noHandle
      refine ⟨state, fun needed => ?_, phase,
        (sameFor_goto rfl rfl (before s) (after s)).at there⟩
      rcases needs needed with needed | ⟨known, live', connecting⟩
      · exact unneeded t needed
      · cases live.symm.trans live'
        exact state connecting

/-- A task enters `update_state`. -/
theorem handled_enters {socket : TcpSocket} {update : Update} (handled : ∀ s, net.Handled s)
    (idle : net.calls t = .idle) (live : net.sockets s = some socket)
    (expected : socket.state = update.expect)
    : ∀ s', ((net.put s (some { socket with state := .busy })).goto t
        (.updating s update .start)).Handled s' := by
  refine handled_goto handled rfl live (put_sockets_self ..)
    (fun _ other => put_sockets_of_ne _ _ other) (fun s' here => ?_) (fun s' here => ?_)
    (.inl rfl) (fun _ takes => absurd takes (Call.not_takes rfl)) fun noHandle => ?_
  · rw [idle] at here
    cases here
  · cases here
    rfl
  · obtain ⟨-, -, phase, there⟩ := (handled s).bare socket live noHandle
    obtain ⟨-, unattended⟩ := there.resting_of live (expected ▸ update.expect_ne_busy)
    exact ⟨(fun connecting => by cases connecting), by simp [Call.NeedsHandle], _,
      at_goto_updating rfl (put_sockets_self ..) rfl
        fun t' update' stage' here => absurd here (unattended t' update' stage')⟩

/-- A task leaves `update_state`. -/
theorem handled_leaves {socket : TcpSocket} {update : Update} {ok : Bool} {next : Call}
    (handled : ∀ s, net.Handled s) (here : net.calls t = .updating s update (.finished ok))
    (live : net.sockets s = some socket) (leaves : Leaves s update ok next)
    : ∀ s', ((net.put s (some { socket with
        state := if ok then update.target else update.expect })).goto t next).Handled s' := by
  refine handled_goto handled rfl live (put_sockets_self ..)
    (fun _ other => put_sockets_of_ne _ _ other) (fun s' about => ?_) (fun s' about => ?_)
    (.inl rfl) (fun handle takes => ?_) fun noHandle => ?_
  · rw [here] at about
    cases about
    rfl
  · cases leaves <;> cases about
    rfl
  · cases leaves <;> cases takes
  · obtain ⟨-, needs, phase, there⟩ := (handled s).bare socket live noHandle
    obtain ⟨-, -, -, -, alone⟩ := there.of_updating here
    have fails : ¬ (update = .connect ∧ ok = true) := by
      rintro ⟨rfl, rfl⟩
      exact needs t (by rw [here]; exact ⟨rfl, rfl⟩)
    refine ⟨?_, ?_, _, at_goto_resting rfl (put_sockets_self ..) (update.left_ne_busy ok)
      ?_ alone⟩
    · intro connecting
      cases update <;> cases ok <;>
        first | exact absurd ⟨rfl, rfl⟩ fails | cases connecting
    · cases leaves with
      | returns => exact id
      | blocks => exact absurd ⟨rfl, rfl⟩ fails
    · cases leaves <;> simp

/-- A task stores to a socket whose handle it relies on. -/
theorem handled_stores {socket socket' : TcpSocket} {next : Call} (handled : ∀ s, net.Handled s)
    (needs : (net.calls t).NeedsHandle s) (live : net.sockets s = some socket)
    (handle : socket'.handle = socket.handle)
    (about : ∀ s', next.socket = some s' → s' = s) (nothing : next.takes s = none)
    : ∀ s', ((net.put s (some socket')).goto t next).Handled s' := by
  refine handled_goto handled rfl live (put_sockets_self ..)
    (fun _ other => put_sockets_of_ne _ _ other) (fun s' here => ?_) about (.inl handle)
    (fun handle takes => ?_) fun noHandle => ?_
  · exact Option.some.inj (here.symm.trans (Call.needsHandle_socket needs))
  · rw [nothing] at takes
    cases takes
  · exact absurd needs (((handled s).bare socket live (handle ▸ noHandle)).2.1 t)

/-- `accept` returns a new socket. -/
theorem handled_accepts {s' : Nat} {port : UInt16} {entry' : ListenTableEntry} {handle : Nat}
    {localEndpoint remoteEndpoint : IpEndpoint} (handled : ∀ s, net.Handled s)
    (here : net.calls t = .acceptingOn s port) (fresh : net.sockets s' = none)
    : ∀ s'', (((net.putEntry port (some entry')).put s'
        (some (.newConnected handle localEndpoint remoteEndpoint))).goto t .idle).Handled s'' := by
  obtain ⟨socket, live⟩ := handled_knows handled (t := t) (s := s) (by rw [here]; rfl)
  have other : s ≠ s' := by
    rintro rfl
    simp [fresh] at live
  have appeared : ∀ s, ((net.putEntry port (some entry')).put s'
      (some (.newConnected handle localEndpoint remoteEndpoint))).Handled s :=
    handled_appears handled fresh rfl (put_sockets_self ..)
      (fun _ other => put_sockets_of_ne _ _ other)
      ⟨(fun busy => by cases busy), fun connecting => by cases connecting⟩
  have live' : ((net.putEntry port (some entry')).put s'
      (some (.newConnected handle localEndpoint remoteEndpoint))).sockets s = some socket :=
    (put_sockets_of_ne _ _ other).trans live
  refine handled_goto appeared rfl live' live' (fun _ _ => rfl) (fun s'' about => ?_)
    (fun s'' about => by cases about) (.inl rfl) (fun handle takes => by cases takes)
    fun noHandle => ?_
  · have same : (Call.acceptingOn s port).socket = some s'' := here ▸ about
    cases same
    rfl
  · obtain ⟨state, -, phase, there⟩ := (appeared s).bare socket live' noHandle
    exact ⟨state, id, phase, (sameFor_goto rfl rfl (by
      show ∀ update stage, net.calls t ≠ _
      simp [here]) (by simp)).at there⟩

omit [DecidableEq Task] in
/-- A socket that is dropped. -/
theorem handled_drops {handles : List Nat} (handled : ∀ s, net.Handled s)
    (unused : ∀ t, (net.calls t).socket ≠ some s)
    : ∀ s', ((net.removeAll handles).put s none).Handled s' := by
  intro s'
  by_cases same : s' = s
  · subst same
    refine ⟨fun t here => absurd here (unused t), fun t known handle live' => ?_,
      fun known live' => ?_⟩
    all_goals cases (put_sockets_self ..).symm.trans live'
  · exact (handled s').frame (put_sockets_of_ne _ _ same) fun _ _ => rfl

/-- Every step keeps this for all sockets, by the cases of the step. -/
theorem Step.handled {event : Event Task} (stepped : net.Step event net')
    (handled : ∀ s, net.Handled s)
    : ∀ s, net'.Handled s := by
  cases stepped with
  | move t next moves => exact handled_moves handled moves
  | enter t s socket update idle live expected => exact handled_enters handled idle live expected
  | leave t s socket update ok next here live leaves =>
      exact handled_leaves handled here live leaves
  | connectAdd t s socket handle here live noHandle free =>
      exact handled_works handled here rfl live live (fun _ _ => rfl) rfl (.inl rfl)
        (fun _ _ => .inl noHandle) (fun _ needs => needs)
  | connect t s handle endpoint smol localEndpoint remoteEndpoint here inSet port =>
      obtain ⟨socket, live⟩ := handled_knows handled (t := t) (s := s) (by rw [here]; rfl)
      refine handled_works handled here rfl live live (fun _ _ => rfl) rfl (.inl rfl)
        (fun handle' takes => ?_) (fun _ needs => needs)
      obtain ⟨stage, same, taken⟩ := Call.takes_eq_some.mp takes
      cases same
      exact (handled s).taken t socket handle' live
        (Call.takes_eq_some.mpr ⟨_, here, taken⟩)
  | connectStore t s socket handle localEndpoint remoteEndpoint here live =>
      have taken := (handled s).taken t socket handle live
        (Call.takes_eq_some.mpr ⟨_, here, rfl⟩)
      exact handled_works handled here rfl live (put_sockets_self ..)
        (fun _ other => put_sockets_of_ne _ _ other) rfl (taken.symm.imp_left Eq.symm)
        (fun _ takes => absurd takes (Call.not_takes rfl)) fun none => by cases none
  | bind t s socket localAddr here live unbound =>
      exact handled_updates handled here rfl live (put_sockets_self ..)
        (fun _ other => put_sockets_of_ne _ _ other) rfl rfl rfl id
  | listenBound t s socket ephemeral endpoint here live range bound =>
      exact handled_updates handled here rfl live (put_sockets_self ..)
        (fun _ other => put_sockets_of_ne _ _ other) rfl rfl rfl id
  | listen t s endpoint here free =>
      obtain ⟨socket, live⟩ := handled_knows handled (t := t) (s := s) (by rw [here]; rfl)
      exact handled_updates handled here rfl live live (fun _ _ => rfl) rfl rfl rfl id
  | shutdownStream t s socket handle smol smol' here live old inSet =>
      exact handled_updates handled here rfl live (put_sockets_self ..)
        (fun _ other => put_sockets_of_ne _ _ other) rfl rfl rfl id
  | shutdownListener t s socket here live =>
      exact handled_updates handled here rfl live (put_sockets_self ..)
        (fun _ other => put_sockets_of_ne _ _ other) rfl rfl rfl id
  | unlisten t s port here =>
      obtain ⟨socket, live⟩ := handled_knows handled (t := t) (s := s) (by rw [here]; rfl)
      exact handled_updates handled here rfl live live (fun _ _ => rfl) rfl rfl rfl id
  | pollClear t s socket here live =>
      have needs : (net.calls t).NeedsHandle s := by
        rw [here]
        rfl
      exact handled_stores handled needs live rfl (fun _ about => (Option.some.inj about).symm) rfl
  | pollStore t s socket state here live =>
      have needs : (net.calls t).NeedsHandle s := by
        rw [here]
        rfl
      exact handled_stores handled needs live rfl nofun rfl
  | accept t s s' port entry entry' handle localEndpoint remoteEndpoint here found accepted
      fresh =>
      exact handled_accepts handled here fresh
  | new s fresh =>
      exact handled_appears handled fresh rfl (put_sockets_self ..)
        (fun _ other => put_sockets_of_ne _ _ other) ⟨by decide, by decide⟩
  | drop s socket live unused shut => exact handled_drops handled unused
  | packet dst entry handle found accepts room free =>
      exact fun s => (handled s).frame rfl fun _ _ => rfl
  | network handle smol smol' inSet => exact fun s => (handled s).frame rfl fun _ _ => rfl

-----------------------------------------------------------------------------------------
-- Owners
-----------------------------------------------------------------------------------------

/-- The owner of each handle. -/
structure OwnedBy (net : Net Task) (owner : Nat → Option Owner) : Prop where
  set : ∀ handle, (net.set handle).isSome = (owner handle).isSome
  owns : ∀ o handle, net.Owns o handle ↔ owner handle = some o
  once : ∀ port entry, net.table port = some entry → entry.synQueue.Nodup

variable {owner : Nat → Option Owner}

omit [DecidableEq Task] in
theorem OwnedBy.exact (owned : net.OwnedBy owner) : net.HandlesExact where
  owned handle found := by
    rw [owned.set] at found
    obtain ⟨o, here⟩ := Option.isSome_iff_exists.mp found
    refine ⟨o, (owned.owns o handle).mpr here, fun o' owns => ?_⟩
    exact Option.some.inj (((owned.owns o' handle).mp owns).symm.trans here)
  inSet o handle owns := by
    rw [owned.set, (owned.owns o handle).mp owns]
    rfl
  once := owned.once

omit [DecidableEq Task] in
/-- Nothing changes hands. -/
theorem OwnedBy.same (owned : net.OwnedBy owner)
    (set : ∀ handle, (net'.set handle).isSome = (net.set handle).isSome)
    (owns : ∀ o handle, net'.Owns o handle ↔ net.Owns o handle)
    (once : ∀ port entry, net'.table port = some entry → entry.synQueue.Nodup)
    : net'.OwnedBy owner where
  set handle := (set handle).trans (owned.set handle)
  owns o handle := (owns o handle).trans (owned.owns o handle)
  once := once

omit [DecidableEq Task] in
theorem OwnedBy.congr (owned : net.OwnedBy owner)
    (set : ∀ handle, (net'.set handle).isSome = (net.set handle).isSome)
    (table : net'.table = net.table)
    (owns : ∀ s handle, net'.Owns (.socket s) handle ↔ net.Owns (.socket s) handle)
    : net'.OwnedBy owner := by
  refine owned.same set (fun o handle => ?_) (table ▸ owned.once)
  cases o with
  | socket s => exact owns s handle
  | queue port => simp only [Owns, table]

omit [DecidableEq Task] in
/-- Two owners do not share a handle. -/
theorem OwnedBy.unique (owned : net.OwnedBy owner) {o o' : Owner} {handle : Nat}
    (owns : net.Owns o handle) (owns' : net.Owns o' handle)
    : o = o' :=
  Option.some.inj (((owned.owns o handle).mp owns).symm.trans ((owned.owns o' handle).mp owns'))

/-- What a socket owns after a task has moved: what it has stored, what the task takes for it,
and what other tasks have taken.
-/
theorem owns_goto {mid : Net Task} {next : Call} {socket' : TcpSocket}
    (calls : mid.calls = net.calls) (live' : mid.sockets s = some socket') (handle : Nat)
    : (mid.goto t next).Owns (.socket s) handle
      ↔ socket'.handle = some handle ∨ next.takes s = some handle
        ∨ ∃ t', t' ≠ t ∧ (net.calls t').takes s = some handle := by
  have takes : (∃ t', ((mid.goto t next).calls t').takes s = some handle)
      ↔ next.takes s = some handle
        ∨ ∃ t', t' ≠ t ∧ (net.calls t').takes s = some handle := by
    constructor
    · rintro ⟨t', here⟩
      by_cases same : t' = t
      · rw [same, goto_calls_self] at here
        exact .inl here
      · rw [goto_calls_of_ne _ _ same, calls] at here
        exact .inr ⟨t', same, here⟩
    · rintro (here | ⟨t', other, here⟩)
      · exact ⟨t, by rwa [goto_calls_self]⟩
      · exact ⟨t', by rwa [goto_calls_of_ne _ _ other, calls]⟩
  rw [← takes]
  constructor
  · rintro ⟨socket, live, owns⟩
    cases live.symm.trans live'
    exact owns
  · exact fun owns => ⟨socket', live', owns⟩

omit [DecidableEq Task] in
/-- The same, with what the task itself has taken before. -/
theorem owns_iff {socket : TcpSocket} (live : net.sockets s = some socket) (t : Task)
    (handle : Nat)
    : net.Owns (.socket s) handle
      ↔ socket.handle = some handle ∨ (net.calls t).takes s = some handle
        ∨ ∃ t', t' ≠ t ∧ (net.calls t').takes s = some handle := by
  classical
  constructor
  · rintro ⟨socket', live', owns⟩
    cases live.symm.trans live'
    refine owns.imp_right fun ⟨t', here⟩ => ?_
    by_cases same : t' = t
    · exact .inl (same ▸ here)
    · exact .inr ⟨t', same, here⟩
  · rintro (stored | here | ⟨t', -, here⟩)
    · exact ⟨socket, live, .inl stored⟩
    · exact ⟨socket, live, .inr ⟨t, here⟩⟩
    · exact ⟨socket, live, .inr ⟨t', here⟩⟩

omit [DecidableEq Task] in
theorem not_owns (none : net.sockets s = none) (handle : Nat)
    : ¬ net.Owns (.socket s) handle := by
  rintro ⟨socket, live, -⟩
  simp [none] at live

theorem not_owns_goto {mid : Net Task} {next : Call} (none : mid.sockets s = none)
    (handle : Nat)
    : ¬ (mid.goto t next).Owns (.socket s) handle := by
  rintro ⟨socket, live, -⟩
  cases none.symm.trans live

/-- A step of a task after which all live sockets have stored or taken what they had. -/
theorem OwnedBy.goto {mid : Net Task} {next : Call} (owned : net.OwnedBy owner)
    (calls : mid.calls = net.calls) (table : mid.table = net.table)
    (set : ∀ handle, (mid.set handle).isSome = (net.set handle).isSome)
    (none : ∀ s, net.sockets s = none → mid.sockets s = none)
    (same
      : ∀ s socket, net.sockets s = some socket
        → ∃ socket', mid.sockets s = some socket'
          ∧ ∀ handle, (socket'.handle = some handle ∨ next.takes s = some handle)
            ↔ (socket.handle = some handle ∨ (net.calls t).takes s = some handle))
    : (mid.goto t next).OwnedBy owner := by
  refine owned.congr set table fun s handle => ?_
  cases live : net.sockets s with
  | none => exact iff_of_false (not_owns_goto (none s live) handle) (not_owns live handle)
  | some socket =>
      obtain ⟨socket', live', iff⟩ := same s socket live
      rw [owns_goto calls live', owns_iff live t, ← or_assoc, ← or_assoc, iff handle]

/-- A step of a task that takes no handle before or after, and stores none. -/
theorem OwnedBy.keeps {mid : Net Task} {next : Call} (owned : net.OwnedBy owner)
    (calls : mid.calls = net.calls) (table : mid.table = net.table)
    (set : ∀ handle, (mid.set handle).isSome = (net.set handle).isSome)
    (sockets
      : ∀ s, (mid.sockets s).map TcpSocket.handle = (net.sockets s).map TcpSocket.handle)
    (before : ∀ s, (net.calls t).takes s = none) (after : ∀ s, next.takes s = none)
    : (mid.goto t next).OwnedBy owner := by
  refine owned.goto calls table set (fun s none => ?_) fun s socket live => ?_
  · have stored := sockets s
    rw [none] at stored
    exact Option.map_eq_none_iff.mp stored
  · have stored := sockets s
    rw [live] at stored
    obtain ⟨socket', live', handle⟩ := Option.map_eq_some_iff.mp stored
    exact ⟨socket', live', fun _ => by rw [handle, before, after]⟩

omit [DecidableEq Task] in
/-- Storing to a socket without changing its handle. -/
theorem put_handles {socket socket' : TcpSocket} (live : net.sockets s = some socket)
    (handle : socket'.handle = socket.handle) (s' : Nat)
    : ((net.put s (some socket')).sockets s').map TcpSocket.handle
      = (net.sockets s').map TcpSocket.handle := by
  by_cases same : s' = s
  · rw [same, put_sockets_self, live]
    exact congrArg some handle
  · rw [put_sockets_of_ne _ _ same]

omit [DecidableEq Task] in
/-- A socket of smoltcp that changes stays in the socket set. -/
theorem putHandle_isSome {handle : Nat} {smol smol' : SmolSocket}
    (inSet : net.set handle = some smol) (handle' : Nat)
    : ((net.putHandle handle (some smol')).set handle').isSome = (net.set handle').isSome := by
  by_cases same : handle' = handle
  · simp [putHandle, same, inSet]
  · simp [putHandle, same]

omit [DecidableEq Task] in
/-- What a call that only reads takes, by the cases of the move. -/
theorem Moves.takes {call next : Call} (moves : net.Moves call next) (s handle : Nat)
    (taken : call.takes s = some handle)
    : next.takes s = some handle ∨ next = .updating s .connect (.finished false) := by
  obtain ⟨stage, rfl, here⟩ := Call.takes_eq_some.mp taken
  cases moves with
  | connectHandle => cases here
  | connectBound _ _ h => exact .inl (Call.takes_eq_some.mpr ⟨_, rfl, here⟩)
  | connectUnbound | connectRefused => exact .inr rfl

omit [DecidableEq Task] in
/-- A handle that was free gets an owner. -/
theorem OwnedBy.add {handle : Nat} {smol : SmolSocket} (owned : net.OwnedBy owner)
    (free : net.set handle = none) (o : Owner)
    (set : net'.set = Function.update net.set handle (some smol))
    (owns : ∀ o' handle', net'.Owns o' handle'
      ↔ net.Owns o' handle' ∨ o' = o ∧ handle' = handle)
    (once : ∀ port entry, net'.table port = some entry → entry.synQueue.Nodup)
    : net'.OwnedBy (Function.update owner handle (some o)) where
  set handle' := by
    rw [set]
    by_cases same : handle' = handle
    · simp [same]
    · simpa [Function.update_of_ne same] using owned.set handle'
  owns o' handle' := by
    have nobody : owner handle = none := by
      have found := owned.set handle
      rw [free] at found
      exact Option.isNone_iff_eq_none.mp (by simpa using found.symm)
    rw [owns, owned.owns]
    by_cases same : handle' = handle
    · simp [same, nobody, eq_comm]
    · simp [same]
  once := once

omit [DecidableEq Task] in
/-- Handles that are removed have no owner any more. -/
theorem OwnedBy.remove {handles : List Nat} (owned : net.OwnedBy owner)
    (set : ∀ handle, net'.set handle = if handle ∈ handles then none else net.set handle)
    (owns : ∀ o handle, net'.Owns o handle ↔ net.Owns o handle ∧ handle ∉ handles)
    (once : ∀ port entry, net'.table port = some entry → entry.synQueue.Nodup)
    : net'.OwnedBy fun handle => if handle ∈ handles then none else owner handle where
  set handle := by
    rw [set]
    split
    · rfl
    · exact owned.set handle
  owns o handle := by
    rw [owns, owned.owns]
    by_cases member : handle ∈ handles
    · simp [member]
    · simp [member]
  once := once

omit [DecidableEq Task] in
/-- A handle changes its owner. -/
theorem OwnedBy.move {handle : Nat} {o₀ : Owner} (owned : net.OwnedBy owner)
    (before : net.Owns o₀ handle) (o : Owner) (set : net'.set = net.set)
    (owns : ∀ o' handle', net'.Owns o' handle'
      ↔ if handle' = handle then o' = o else net.Owns o' handle')
    (once : ∀ port entry, net'.table port = some entry → entry.synQueue.Nodup)
    : net'.OwnedBy (Function.update owner handle (some o)) where
  set handle' := by
    rw [set]
    by_cases same : handle' = handle
    · rw [same, Function.update_self, owned.set, (owned.owns o₀ handle).mp before]
      rfl
    · rw [Function.update_of_ne same, owned.set]
  owns o' handle' := by
    rw [owns]
    by_cases same : handle' = handle
    · simp [same, eq_comm]
    · rw [if_neg same, Function.update_of_ne same, owned.owns]
  once := once

/-- Sockets that a task does not take anything for before or after own what they owned. -/
theorem owns_goto_of_ne {mid : Net Task} {next : Call} (calls : mid.calls = net.calls)
    (socket : mid.sockets s = net.sockets s) (before : (net.calls t).takes s = none)
    (after : next.takes s = none) (handle : Nat)
    : (mid.goto t next).Owns (.socket s) handle ↔ net.Owns (.socket s) handle := by
  cases live : net.sockets s with
  | none =>
      exact iff_of_false (not_owns_goto (socket.trans live) handle) (not_owns live handle)
  | some socket' =>
      rw [owns_goto calls (socket.trans live), owns_iff live t, before, after]

/-- A call that only reads. -/
theorem OwnedBy.moves {next : Call} (owned : net.OwnedBy owner) (handled : ∀ s, net.Handled s)
    (moves : net.Moves (net.calls t) next) (kept : net.Kept (.task t next))
    : ∃ owner', (net.goto t next).OwnedBy owner' := by
  refine ⟨owner, owned.goto rfl rfl (fun _ => rfl) (fun _ => id) fun s socket live =>
    ⟨socket, live, fun handle => ?_⟩⟩
  constructor
  · rintro (stored | takes)
    · exact .inl stored
    · obtain ⟨stage, rfl, -⟩ := Call.takes_eq_some.mp takes
      rcases moves.handles with
        ⟨s', update, stage', stage'', -, same, -, takes'⟩ | ⟨-, -, -, -, after, -⟩
      · cases same
        rcases takes' handle takes with old | ⟨known, live', stored⟩
        · exact .inr old
        · cases live.symm.trans live'
          exact .inl stored
      · exact absurd rfl (after s .connect stage)
  · rintro (stored | taken)
    · exact .inl stored
    · rcases moves.takes s handle taken with takes | rfl
      · exact .inr takes
      · refine .inl (((handled s).taken t socket handle live taken).resolve_left ?_)
        exact kept socket live

/-- `connect` adds a socket to the set, which the socket owns. -/
theorem OwnedBy.connectAdd {socket : TcpSocket} {handle : Nat} (owned : net.OwnedBy owner)
    (here : net.calls t = .updating s .connect .start) (live : net.sockets s = some socket)
    (noHandle : socket.handle = none) (free : net.set handle = none)
    : ∃ owner', ((net.putHandle handle (some ⟨.closed, none⟩)).goto t
        (.updating s .connect (.handle handle))).OwnedBy owner' := by
  refine ⟨_, owned.add free (.socket s) rfl (fun o handle' => ?_) owned.once⟩
  have calls : (net.putHandle handle (some ⟨.closed, none⟩)).calls = net.calls := rfl
  have takes (s' : Nat) : (net.calls t).takes s' = none := by
    rw [here]
    exact Call.takes_eq_none rfl
  cases o with
  | queue port => simp [Owns, Net.goto, putHandle]
  | socket s' =>
      by_cases same : s' = s
      · have takes' : (Call.updating s .connect (.handle handle)).takes s = some handle :=
          Call.takes_eq_some.mpr ⟨_, rfl, rfl⟩
        rw [same, owns_goto calls live, owns_iff live t, noHandle, takes, takes']
        simp [or_comm, eq_comm]
      · have takes' : (Call.updating s .connect (.handle handle)).takes s' = none :=
          if_neg (Ne.symm same)
        rw [owns_goto_of_ne calls rfl (takes s') takes']
        simp [same]

/-- `connect` stores the handle that it has taken. -/
theorem OwnedBy.connectStore {socket : TcpSocket} {handle : Nat}
    {localEndpoint remoteEndpoint : IpEndpoint} (owned : net.OwnedBy owner)
    (handled : ∀ s, net.Handled s)
    (here : net.calls t
      = .updating s .connect (.connecting handle localEndpoint remoteEndpoint))
    (live : net.sockets s = some socket)
    : ∃ owner', ((net.put s (some { socket with
        localAddr := localEndpoint
        peerAddr := remoteEndpoint
        handle := some handle })).goto t (.updating s .connect (.finished true))).OwnedBy
          owner' := by
  refine ⟨owner, owned.goto rfl rfl (fun _ => rfl) (fun s' none => ?_)
    fun s' known live' => ?_⟩
  · have other : s' ≠ s := by
      rintro rfl
      simp [none] at live
    exact (put_sockets_of_ne _ _ other).trans none
  · by_cases same : s' = s
    · subst same
      cases live.symm.trans live'
      refine ⟨_, put_sockets_self .., fun handle' => ?_⟩
      have takes : (net.calls t).takes s' = some handle :=
        Call.takes_eq_some.mpr ⟨_, here, rfl⟩
      have takes' : (Call.updating s' .connect (.finished true)).takes s' = none :=
        Call.takes_eq_none rfl
      rw [takes, takes']
      rcases (handled s').taken t socket handle live takes with stored | stored
      · simp [stored]
      · simp [stored]
    · refine ⟨known, (put_sockets_of_ne _ _ same).trans live', fun handle' => ?_⟩
      have takes : (net.calls t).takes s' = none := by
        rw [here]
        exact if_neg (Ne.symm same)
      have takes' : (Call.updating s .connect (.finished true)).takes s' = none :=
        Call.takes_eq_none rfl
      rw [takes, takes']

/-- A new entry of the listen table has an empty queue. -/
theorem OwnedBy.listen {endpoint : IpListenEndpoint} (owned : net.OwnedBy owner)
    (here : net.calls t = .updating s .listen (.entering endpoint))
    (free : net.table endpoint.port = none)
    : ∃ owner', ((net.putEntry endpoint.port (some (.new endpoint))).goto t
        (.updating s .listen (.finished true))).OwnedBy owner' := by
  refine ⟨owner, owned.same (fun _ => rfl) (fun o handle => ?_) fun port entry found => ?_⟩
  · cases o with
    | socket s' =>
        have calls : (net.putEntry endpoint.port (some (.new endpoint))).calls = net.calls :=
          rfl
        exact owns_goto_of_ne calls rfl (by rw [here]; rfl) rfl handle
    | queue port =>
        by_cases same : port = endpoint.port
        · simp [Owns, Net.goto, putEntry, same, free, ListenTableEntry.new]
        · simp [Owns, Net.goto, putEntry, same]
  · by_cases same : port = endpoint.port
    · subst same
      cases (Function.update_self ..).symm.trans found
      exact List.nodup_nil
    · exact owned.once port entry ((Function.update_of_ne same ..).symm.trans found)

/-- An entry that is removed takes the handles of its queue with it. -/
theorem OwnedBy.unlisten {port : UInt16} (owned : net.OwnedBy owner)
    (here : net.calls t = .updating s .shutdownListener (.unlistening port))
    : ∃ owner', (((net.removeAll ((net.table port).map (·.synQueue) |>.getD [])).putEntry port
        none).goto t (.updating s .shutdownListener (.finished true))).OwnedBy owner' := by
  have queued {handle : Nat}
      (member : handle ∈ ((net.table port).map (·.synQueue)).getD [])
      : net.Owns (.queue port) handle := by
    cases found : net.table port with
    | none => simp [found] at member
    | some entry => exact ⟨entry, found, by simpa [found] using member⟩
  have queueOnly {o : Owner} {handle : Nat} (owns : net.Owns o handle)
      (member : handle ∈ ((net.table port).map (·.synQueue)).getD [])
      : o = .queue port :=
    owned.unique owns (queued member)
  refine ⟨_, owned.remove (fun _ => rfl) (fun o handle => ?_) fun port' entry found => ?_⟩
  · cases o with
    | socket s' =>
        have calls : ((net.removeAll (((net.table port).map (·.synQueue)).getD [])).putEntry
            port none).calls = net.calls := rfl
        rw [owns_goto_of_ne calls rfl (by rw [here]; rfl) rfl]
        exact ⟨fun owns => ⟨owns, fun member => by cases queueOnly owns member⟩, And.left⟩
    | queue port' =>
        by_cases same : port' = port
        · subst same
          constructor
          · rintro ⟨entry, found, -⟩
            simp [Net.goto, putEntry] at found
          · rintro ⟨⟨entry, found, member⟩, removed⟩
            exact absurd (by rw [found]; exact member) removed
        · have kept : net.Owns (.queue port') handle
              → handle ∉ ((net.table port).map (·.synQueue)).getD [] := by
            intro owns member
            cases queueOnly owns member
            exact same rfl
          simp only [Owns, Net.goto, putEntry, removeAll, Function.update_of_ne same]
          exact ⟨fun owns => ⟨owns, kept owns⟩, And.left⟩
  · by_cases same : port' = port
    · simp [Net.goto, putEntry, same] at found
    · exact owned.once port' entry ((Function.update_of_ne same ..).symm.trans found)

/-- `accept` gives a handle of a queue to a new socket. -/
theorem OwnedBy.accept {s' : Nat} {port : UInt16} {entry entry' : ListenTableEntry}
    {handle : Nat} {localEndpoint remoteEndpoint : IpEndpoint} (owned : net.OwnedBy owner)
    (handled : ∀ s, net.Handled s) (here : net.calls t = .acceptingOn s port)
    (found : net.table port = some entry)
    (accepted : entry.accept net.set = some ((handle, localEndpoint, remoteEndpoint), entry'))
    (fresh : net.sockets s' = none)
    : ∃ owner', (((net.putEntry port (some entry')).put s'
        (some (.newConnected handle localEndpoint remoteEndpoint))).goto t .idle).OwnedBy
          owner' := by
  have perm := ListenTableEntry.accept_perm accepted
  have nodup := perm.nodup_iff.mp (owned.once port entry found)
  have queued : net.Owns (.queue port) handle :=
    ⟨entry, found, perm.mem_iff.mpr (List.mem_cons_self ..)⟩
  have calls : ((net.putEntry port (some entry')).put s'
      (some (.newConnected handle localEndpoint remoteEndpoint))).calls = net.calls := rfl
  refine ⟨_, owned.move queued (.socket s') rfl (fun o handle' => ?_)
    fun port' known found' => ?_⟩
  · cases o with
    | socket s'' =>
        by_cases same : s'' = s'
        · have unused (t' : Task) : (net.calls t').takes s' ≠ some handle' := by
            intro takes
            have used := (handled s').live t' (Call.takes_socket takes)
            simp [fresh] at used
          rw [same, owns_goto calls (put_sockets_self ..)]
          by_cases moved : handle' = handle
          · simp [moved, TcpSocket.newConnected]
          · have idle : Call.idle.takes s' = none := rfl
            simp [moved, Ne.symm moved, TcpSocket.newConnected, idle, unused, not_owns fresh]
        · rw [owns_goto_of_ne calls (put_sockets_of_ne _ _ same) (by rw [here]; rfl) rfl]
          by_cases moved : handle' = handle
          · rw [if_pos moved]
            refine iff_of_false (fun owns => ?_) (by simp [same])
            cases owned.unique (moved ▸ owns) queued
          · rw [if_neg moved]
    | queue port' =>
        by_cases same : port' = port
        · subst same
          have member : handle' ∈ entry.synQueue
              ↔ handle' = handle ∨ handle' ∈ entry'.synQueue := by
            rw [perm.mem_iff, List.mem_cons]
          by_cases moved : handle' = handle
          · subst moved
            simp [Owns, Net.goto, put, putEntry, (List.nodup_cons.mp nodup).1]
          · simp [Owns, Net.goto, put, putEntry, found, member, moved]
        · have other : net.Owns (.queue port') handle → False := by
            intro owns
            cases owned.unique owns queued
            exact same rfl
          refine Iff.trans (b := net.Owns (.queue port') handle') ?_ ?_
          · simp [Owns, Net.goto, put, putEntry, same]
          · by_cases moved : handle' = handle
            · rw [if_pos moved]
              exact iff_of_false (fun owns => other (moved ▸ owns)) (by simp)
            · rw [if_neg moved]
  · by_cases same : port' = port
    · subst same
      cases (Function.update_self ..).symm.trans found'
      exact (List.nodup_cons.mp nodup).2
    · exact owned.once port' known ((Function.update_of_ne same ..).symm.trans found')

omit [DecidableEq Task] in
/-- A new socket owns nothing. -/
theorem OwnedBy.new (owned : net.OwnedBy owner) (handled : ∀ s, net.Handled s)
    (fresh : net.sockets s = none)
    : ∃ owner', (net.put s (some .new)).OwnedBy owner' := by
  refine ⟨owner, owned.congr (fun _ => rfl) rfl fun s' handle => ?_⟩
  by_cases same : s' = s
  · subst same
    refine iff_of_false ?_ (not_owns fresh handle)
    rintro ⟨socket, live, stored | ⟨t, takes⟩⟩
    · cases (put_sockets_self ..).symm.trans live
      cases stored
    · have used := (handled s').live t (Call.takes_socket takes)
      simp [fresh] at used
  · simp only [Owns, put_sockets_of_ne _ _ same]
    rfl

omit [DecidableEq Task] in
/-- A socket that is dropped takes its handle with it. -/
theorem OwnedBy.drop {socket : TcpSocket} (owned : net.OwnedBy owner)
    (live : net.sockets s = some socket) (unused : ∀ t, (net.calls t).socket ≠ some s)
    : ∃ owner', ((net.removeAll socket.handle.toList).put s none).OwnedBy owner' := by
  have stored {o : Owner} {handle : Nat} (owns : net.Owns o handle)
      (member : handle ∈ socket.handle.toList)
      : o = .socket s :=
    owned.unique owns ⟨socket, live, .inl (Option.mem_toList.mp member)⟩
  refine ⟨_, owned.remove (fun _ => rfl) (fun o handle => ?_) owned.once⟩
  cases o with
  | queue port =>
      show net.Owns (.queue port) handle ↔ _
      exact ⟨fun owns => ⟨owns, fun member => by cases stored owns member⟩, And.left⟩
  | socket s' =>
      by_cases same : s' = s
      · subst same
        refine iff_of_false (not_owns (put_sockets_self ..) handle) ?_
        rintro ⟨⟨known, live', has | ⟨t, takes⟩⟩, removed⟩
        · cases live.symm.trans live'
          exact removed (Option.mem_toList.mpr has)
        · exact unused t (Call.takes_socket takes)
      · have kept : net.Owns (.socket s') handle → handle ∉ socket.handle.toList := by
          intro owns member
          cases stored owns member
          exact same rfl
        have unchanged : (((net.removeAll socket.handle.toList).put s none).Owns
            (.socket s') handle) ↔ net.Owns (.socket s') handle := by
          simp only [Owns, put_sockets_of_ne _ _ same]
          rfl
        rw [unchanged]
        exact ⟨fun owns => ⟨owns, kept owns⟩, And.left⟩

omit [DecidableEq Task] in
/-- A packet that asks for a connection adds a socket to a queue. -/
theorem OwnedBy.packet {dst : IpEndpoint} {entry : ListenTableEntry} {handle : Nat}
    (owned : net.OwnedBy owner) (found : net.table dst.port = some entry)
    (free : net.set handle = none)
    : ∃ owner', ((net.putHandle handle (some ⟨.listen, none⟩)).putEntry dst.port
        (some { entry with synQueue := entry.synQueue ++ [handle] })).OwnedBy owner' := by
  refine ⟨_, owned.add free (.queue dst.port) rfl (fun o handle' => ?_)
    fun port entry' found' => ?_⟩
  · cases o with
    | socket s => simp [Owns, putEntry, putHandle]
    | queue port =>
        by_cases same : port = dst.port
        · simp [Owns, putEntry, same, found]
        · simp [Owns, putEntry, putHandle, same]
  · by_cases same : port = dst.port
    · subst same
      cases (Function.update_self ..).symm.trans found'
      have fresh : handle ∉ entry.synQueue := by
        intro member
        have inSet := owned.exact.inSet (.queue dst.port) handle ⟨entry, found, member⟩
        simp [free] at inSet
      simpa [List.nodup_append] using
        ⟨owned.once dst.port entry found, fun other member same => fresh (same ▸ member)⟩
    · exact owned.once port entry' ((Function.update_of_ne same ..).symm.trans found')

/-- Every step that meets the condition keeps one owner for every handle, by the cases of the
step.
-/
theorem Step.owned {event : Event Task} (stepped : net.Step event net')
    (handled : ∀ s, net.Handled s) (owned : net.OwnedBy owner) (kept : net.Kept event)
    : ∃ owner', net'.OwnedBy owner' := by
  cases stepped with
  | move t next moves => exact owned.moves handled moves kept
  | enter t s socket update idle live expected =>
      exact ⟨owner, owned.keeps rfl rfl (fun _ => rfl) (put_handles live rfl)
        (fun s => by rw [idle]; rfl) fun s => Call.takes_eq_none rfl⟩
  | leave t s socket update ok next here live leaves =>
      exact ⟨owner, owned.keeps rfl rfl (fun _ => rfl) (put_handles live rfl)
        (fun s => by rw [here]; exact Call.takes_eq_none rfl) fun s => by cases leaves <;> rfl⟩
  | connectAdd t s socket handle here live noHandle free =>
      exact owned.connectAdd here live noHandle free
  | connect t s handle endpoint smol localEndpoint remoteEndpoint here inSet port =>
      refine ⟨owner, owned.goto rfl rfl (putHandle_isSome inSet) (fun _ => id)
        fun s' socket live => ⟨socket, live, fun handle' => ?_⟩⟩
      rw [here]
      rfl
  | connectStore t s socket handle localEndpoint remoteEndpoint here live =>
      exact owned.connectStore handled here live
  | listen t s endpoint here free => exact owned.listen here free
  | shutdownStream t s socket handle smol smol' here live old inSet =>
      exact ⟨owner, owned.keeps rfl rfl (putHandle_isSome inSet) (put_handles live rfl)
        (fun s => by rw [here]; rfl) fun s => rfl⟩
  | bind t s socket localAddr here live | listenBound t s socket ephemeral endpoint here live
      | shutdownListener t s socket here live | pollClear t s socket here live
      | pollStore t s socket state here live =>
      exact ⟨owner, owned.keeps rfl rfl (fun _ => rfl) (put_handles live rfl)
        (fun s => by rw [here]; rfl) fun s => rfl⟩
  | unlisten t s port here => exact owned.unlisten here
  | accept t s s' port entry entry' handle localEndpoint remoteEndpoint here found accepted
      fresh =>
      exact owned.accept handled here found accepted fresh
  | new s fresh => exact owned.new handled fresh
  | drop s socket live unused shut => exact owned.drop live unused
  | packet dst entry handle found accepts room free => exact owned.packet found free
  | network handle smol smol' inSet =>
      exact ⟨owner, owned.congr (putHandle_isSome inSet) rfl fun _ _ => .rfl⟩

-----------------------------------------------------------------------------------------
-- Runs
-----------------------------------------------------------------------------------------

omit [DecidableEq Task] in
theorem init_handled (s : Nat) : (init : Net Task).Handled s where
  live _ here := by cases here
  taken _ _ _ live := by cases live
  bare _ live := by cases live

omit [DecidableEq Task] in
theorem init_owned : (init : Net Task).OwnedBy fun _ => none where
  set _ := rfl
  owns o handle := by
    refine iff_of_false (fun owns => ?_) (by simp)
    cases o with
    | socket s => exact not_owns rfl handle owns
    | queue port =>
        obtain ⟨entry, found, -⟩ := owns
        cases found
  once _ _ found := by cases found

/-- In runs in which every `connect` that fails fails on a socket with a handle, every handle has
exactly one owner and every owned handle is in the socket set.
-/
theorem handles_exact
    (reachable
      : Transition.Reachable (· = init)
        (fun net net' => ∃ event, Step net event net' ∧ net.Kept event) net)
    : net.HandlesExact := by
  have sound : (∀ s, net.Handled s) ∧ ∃ owner, net.OwnedBy owner := by
    refine reachable.invariant
      (fun net => (∀ s, net.Handled s) ∧ ∃ owner, net.OwnedBy owner) ?_ ?_
    · rintro _ rfl
      exact ⟨init_handled, _, init_owned⟩
    · intro net net' sound next
      obtain ⟨handled, owner, owned⟩ := sound
      obtain ⟨event, stepped, kept⟩ := next
      exact ⟨stepped.handled handled, stepped.owned handled owned kept⟩
  obtain ⟨-, owner, owned⟩ := sound
  exact owned.exact

/-- A socket that has connected. -/
theorem handles_exact_connected
    : ∃ net : Net Bool, net.Owns (.socket 0) 0 ∧ net.HandlesExact := by
  have start : Transition.Reachable (· = init)
      (fun net net' => ∃ event, Step net event net' ∧ net.Kept event) (init : Net Bool) :=
    .start rfl
  have n₁ := start.next ⟨_, .new _ 0 rfl, trivial⟩
  have n₂ := n₁.next ⟨_, .enter _ true 0 _ .connect rfl rfl rfl, trivial⟩
  have n₃ := n₂.next ⟨_, .connectAdd _ true 0 _ 0 rfl rfl rfl rfl, trivial⟩
  have n₄ := n₃.next
    ⟨_, .move _ true _ (.connectBound 0 _ 0 (some 0xc000) ⟨none, 0xc000⟩ rfl
      (by simp [IsEphemeral]) rfl), trivial⟩
  have n₅ := n₄.next
    ⟨_, .connect _ true 0 0 ⟨none, 0xc000⟩ _ ⟨1, 0xc000⟩ ⟨2, 80⟩ rfl rfl rfl, trivial⟩
  have n₆ := n₅.next ⟨_, .connectStore _ true 0 _ 0 _ _ rfl rfl, trivial⟩
  exact ⟨_, ⟨_, rfl, .inl rfl⟩, handles_exact n₆⟩

/-- A first `connect` that smoltcp refuses leaves its handle in the socket set without an owner.
-/
theorem refused_connect_leaks
    : ∃ net : Net Bool,
      Transition.Reachable (· = init) (fun net net' => ∃ event, Step net event net') net
      ∧ (∀ t, net.calls t = .idle) ∧ (net.set 0).isSome ∧ ¬ net.HandlesExact := by
  have start : Transition.Reachable (· = init)
      (fun net net' => ∃ event, Step net event net') (init : Net Bool) := .start rfl
  have n₁ := start.next ⟨_, .new _ 0 rfl⟩
  have n₂ := n₁.next ⟨_, .enter _ true 0 _ .connect rfl rfl rfl⟩
  have n₃ := n₂.next ⟨_, .connectAdd _ true 0 _ 0 rfl rfl rfl rfl⟩
  have n₄ := n₃.next ⟨_, .move _ true _ (.connectBound 0 _ 0 (some 0xc000) ⟨none, 0xc000⟩ rfl
    (by simp [IsEphemeral]) rfl)⟩
  have n₅ := n₄.next ⟨_, .move _ true _ (.connectRefused 0 0 ⟨none, 0xc000⟩)⟩
  have n₆ := n₅.next ⟨_, .leave _ true 0 _ .connect false _ rfl rfl (.returns _ _)⟩
  refine ⟨_, n₆, (fun t => by cases t <;> rfl), rfl, fun exact' => ?_⟩
  obtain ⟨o, owns, -⟩ := exact'.owned 0 rfl
  cases o with
  | socket s =>
      obtain ⟨socket, live, stored | ⟨t, takes⟩⟩ := owns
      · by_cases same : s = 0
        · subst same
          cases live
          cases stored
        · simp [Net.goto, put, putHandle, init, same] at live
      · cases t <;> cases takes
  | queue port =>
      obtain ⟨entry, found, -⟩ := owns
      cases found

end Net

end RCoreOS.Axnet
