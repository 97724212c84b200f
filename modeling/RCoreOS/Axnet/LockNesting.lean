import RCoreOS.Lib.LockOrder

/-! The mutexes of the network stack and how its operations nest them. `poll_interfaces` takes
the entries of the listen table under the socket set, while `accept`, the poll of a listener and
`unlisten` take the socket set under an entry; `connect` takes the interface under the socket set.
-/

namespace RCoreOS.Axnet.LockNesting

open LockOrder

inductive NetLock where
  /-- `CURR` in `get_ephemeral_port`. -/
  | ephemeralPort
  | device
  | interface
  | socketSet
  /-- An entry of `LISTEN_TABLE`. -/
  | entry (port : UInt16)
deriving DecidableEq, Repr

-----------------------------------------------------------------------------------------
-- What the operations lock
-----------------------------------------------------------------------------------------

/-- `add`, `with_socket`, `with_socket_mut` and `remove` of the socket set. -/
def withSocket : List (Action NetLock) :=
  under .socketSet []

/-- `incoming_tcp_packet` for SYN packets to these ports. -/
def snoopTcpPackets (syns : List UInt16) : List (Action NetLock) :=
  syns.flatMap fun port => under (.entry port) []

/-- `poll_interfaces` without and with the feature `ip`, while SYN packets to these ports are
delivered.
-/
def pollInterfaces (ip : Bool) (syns : List UInt16) : List (Action NetLock) :=
  if ip then under .socketSet (under .interface (under .device (snoopTcpPackets syns)))
  else under .device (under .interface (under .socketSet (snoopTcpPackets syns)))

/-- `get_ephemeral_port`, with the ports it tries. -/
def getEphemeralPort (tried : List UInt16) : List (Action NetLock) :=
  under .ephemeralPort (tried.flatMap fun port => under (.entry port) [])

/-- `bound_endpoint`, with the ports that are tried for a socket without a port. -/
def boundEndpoint (tried : Option (List UInt16)) : List (Action NetLock) :=
  (tried.map getEphemeralPort).getD []

/-- An operation of the listen table that looks at as many sockets under its entry:
`can_accept`, `accept`, and `unlisten`, where the entry is dropped.
-/
def withEntry (port : UInt16) (sockets : Nat) : List (Action NetLock) :=
  under (.entry port) ((List.range sockets).flatMap fun _ => withSocket)

/-- `block_on`: the rounds of an operation that may block, each with the ports of the SYN
packets that are delivered before it.
-/
def blockOn (ip nonblock : Bool) (rounds : List (List UInt16 × List (Action NetLock)))
    : List (Action NetLock) :=
  if nonblock then (rounds.head?.map Prod.snd).getD []
  else rounds.flatMap fun round => pollInterfaces ip round.1 ++ round.2

/-- `shutdown` of a socket that is connected, with the SYN packets delivered then, or listens on
a port, with the length of its queue, or neither.
-/
def shutdown (ip : Bool) (stream : Option (List UInt16))
    (listener : Option (UInt16 × Nat × List UInt16))
    : List (Action NetLock) :=
  (stream.map fun syns => withSocket ++ pollInterfaces ip syns).getD []
    ++ (listener.map fun (port, sockets, syns) =>
      withEntry port sockets ++ pollInterfaces ip syns).getD []

/-- The operations, with what they find when they run: the ports they try, the SYN packets
that are delivered, the sockets they look at, and where they stop.
-/
inductive Operation where
  | pollInterfaces (syns : List UInt16)
  | accept (port : UInt16) (nonblock : Bool) (rounds : List (List UInt16 × Nat))
  /-- `poll` of a socket that is connecting or connected. -/
  | pollStream
  | pollListener (port : UInt16) (sockets : Nat)
  | connect (newHandle : Bool) (tried : Option (List UInt16))
      (rounds : Option (List (List UInt16)))
  | bind (tried : Option (List UInt16))
  | listen (tried : Option (List UInt16)) (port : Option UInt16)
  | shutdown (stream : Option (List UInt16)) (listener : Option (UInt16 × Nat × List UInt16))
  | drop (stream : Option (List UInt16)) (listener : Option (UInt16 × Nat × List UInt16))
      (handle : Bool)

def Operation.actions (ip : Bool) : Operation → List (Action NetLock)
  | .pollInterfaces syns => LockNesting.pollInterfaces ip syns
  | .accept port nonblock rounds =>
      blockOn ip nonblock (rounds.map fun round => (round.1, withEntry port round.2))
  | .pollStream => withSocket
  | .pollListener port sockets => withEntry port sockets
  | .connect newHandle tried rounds =>
      (if newHandle then withSocket else []) ++ boundEndpoint tried
        ++ (rounds.map fun rounds => under .socketSet (under .interface [])
          ++ blockOn ip false (rounds.map fun syns => (syns, withSocket))).getD []
  | .bind tried => boundEndpoint tried
  | .listen tried port =>
      boundEndpoint tried ++ (port.map fun port => under (.entry port) []).getD []
  | .shutdown stream listener => LockNesting.shutdown ip stream listener
  | .drop stream listener handle =>
      LockNesting.shutdown ip stream listener ++ if handle then withSocket else []

/-- The programs of the network stack. -/
def Program (ip : Bool) (program : List (Action NetLock)) : Prop :=
  ∃ operation : Operation, operation.actions ip = program

-----------------------------------------------------------------------------------------
-- The order of the locks
-----------------------------------------------------------------------------------------

/-- The order in which `poll_interfaces` takes the locks. -/
def NetLock.rank (ip : Bool) : NetLock → Nat
  | .ephemeralPort => 0
  | .device => if ip then 3 else 1
  | .interface => 2
  | .socketSet => if ip then 1 else 3
  | .entry _ => 4

/-- The pairs that are taken against this order: the socket set under an entry of the listen
table, and without the feature `ip` the interface under the socket set.
-/
inductive Inverted (ip : Bool) : NetLock → NetLock → Prop where
  | entry (port : UInt16) : Inverted ip (.entry port) .socketSet
  | interface (ethernet : ip = false) : Inverted ip .socketSet .interface

def May (ip : Bool) (held requested : NetLock) : Prop :=
  held.rank ip < requested.rank ip ∨ Inverted ip held requested

variable {ip : Bool}

theorem nested_withSocket {held : List NetLock} (may : ∀ l ∈ held, May ip l .socketSet)
    : Nested (May ip) held withSocket :=
  .under may .nil

theorem nested_entries {held : List NetLock} (ports : List UInt16)
    (may : ∀ port, ∀ l ∈ held, May ip l (.entry port))
    : Nested (May ip) held (ports.flatMap fun port => under (.entry port) []) :=
  .flatMap fun port _ => .under (may port) .nil

theorem nested_pollInterfaces (syns : List UInt16)
    : Nested (May ip) [] (pollInterfaces ip syns) := by
  cases ip with
  | false =>
      refine .under (by simp) (.under ?_ (.under ?_ (nested_entries syns fun port => ?_)))
      all_goals simp [May, NetLock.rank]
  | true =>
      refine .under (by simp) (.under ?_ (.under ?_ (nested_entries syns fun port => ?_)))
      all_goals simp [May, NetLock.rank]

theorem nested_boundEndpoint (tried : Option (List UInt16))
    : Nested (May ip) [] (boundEndpoint tried) := by
  cases tried with
  | none => exact .nil
  | some tried =>
      refine .under (by simp) (nested_entries tried fun port => ?_)
      simp [May, NetLock.rank]

theorem nested_withEntry (port : UInt16) (sockets : Nat)
    : Nested (May ip) [] (withEntry port sockets) := by
  refine .under (by simp) (.flatMap fun _ _ => nested_withSocket ?_)
  exact List.forall_mem_singleton.mpr (.inr (.entry port))

theorem nested_blockOn {nonblock : Bool} {rounds : List (List UInt16 × List (Action NetLock))}
    (each : ∀ round ∈ rounds, Nested (May ip) [] round.2)
    : Nested (May ip) [] (blockOn ip nonblock rounds) := by
  cases nonblock with
  | false => exact .flatMap fun round member =>
      (nested_pollInterfaces round.1).append (each round member)
  | true =>
      cases rounds with
      | nil => exact .nil
      | cons round rounds => exact each round (List.mem_cons_self ..)

theorem nested_shutdown (stream : Option (List UInt16))
    (listener : Option (UInt16 × Nat × List UInt16))
    : Nested (May ip) [] (shutdown ip stream listener) := by
  refine .append ?_ ?_
  · cases stream with
    | none => exact .nil
    | some syns => exact (nested_withSocket (by simp)).append (nested_pollInterfaces syns)
  · cases listener with
    | none => exact .nil
    | some listener => exact (nested_withEntry ..).append (nested_pollInterfaces _)

/-- Every operation nests its locks in the order of `poll_interfaces` or in an inverted pair,
by the cases of the operation.
-/
theorem nested_actions (operation : Operation)
    : Nested (May ip) [] (operation.actions ip) := by
  cases operation with
  | pollInterfaces syns => exact nested_pollInterfaces syns
  | accept port nonblock rounds =>
      refine nested_blockOn fun round member => ?_
      obtain ⟨_, _, rfl⟩ := List.mem_map.mp member
      exact nested_withEntry ..
  | pollStream => exact nested_withSocket (by simp)
  | pollListener port sockets => exact nested_withEntry ..
  | connect newHandle tried rounds =>
      refine .append (.append ?_ (nested_boundEndpoint tried)) ?_
      · cases newHandle with
        | false => exact .nil
        | true => exact nested_withSocket (by simp)
      · cases rounds with
        | none => exact .nil
        | some rounds =>
            refine .append (.under (by simp) (.under ?_ .nil)) (nested_blockOn ?_)
            · cases ip with
              | false => exact List.forall_mem_singleton.mpr (.inr (.interface rfl))
              | true => simp [May, NetLock.rank]
            · intro round member
              obtain ⟨_, _, rfl⟩ := List.mem_map.mp member
              exact nested_withSocket (by simp)
  | bind tried => exact nested_boundEndpoint tried
  | listen tried port =>
      refine .append (nested_boundEndpoint tried) ?_
      cases port with
      | none => exact .nil
      | some port => exact .under (by simp) .nil
  | shutdown stream listener => exact nested_shutdown stream listener
  | drop stream listener handle =>
      refine .append (nested_shutdown stream listener) ?_
      cases handle with
      | false => exact .nil
      | true => exact nested_withSocket (by simp)

-----------------------------------------------------------------------------------------
-- Deadlocks
-----------------------------------------------------------------------------------------

/-- No run reaches a deadlock in which no task begins to wait for the socket set under an entry
of the listen table, or for the interface under the socket set.
-/
theorem network_not_deadlocked {Task : Type} [DecidableEq Task] {s : Locks Task NetLock}
    (reachable
      : Transition.Reachable Locks.Idle
        (fun s s' => ∃ event, Locks.Step (Program ip) s event s'
          ∧ s.Uninverted (Inverted ip) event) s)
    : ¬ s.Deadlocked := by
  refine Locks.not_deadlocked (NetLock.rank ip) (fun program known => ?_) reachable
  obtain ⟨operation, rfl⟩ := known
  exact nested_actions operation

/-- Two tasks poll the interfaces, and the second one waits for the device. -/
theorem network_not_deadlocked_device
    : ∃ s : Locks (Fin 2) NetLock,
      s.held 0 = [.device] ∧ s.waiting 1 = some .device ∧ ¬ s.Deadlocked := by
  have start : Transition.Reachable Locks.Idle
      (fun s s' => ∃ event, Locks.Step (Program false) s event s'
        ∧ s.Uninverted (Inverted false) event)
      (⟨fun _ => [], fun _ => none, fun _ => []⟩ : Locks (Fin 2) NetLock) :=
    .start fun _ => ⟨rfl, rfl, rfl⟩
  have first := start.next ⟨_, .start _ 0 _ rfl ⟨.pollInterfaces [], rfl⟩, trivial⟩
  have device := first.next
    ⟨_, .take _ 0 .device _ rfl (by unfold Locks.Free; decide), trivial⟩
  have second := device.next ⟨_, .start _ 1 _ rfl ⟨.pollInterfaces [], rfl⟩, trivial⟩
  have waits := second.next
    ⟨_, .wait _ 1 .device _ rfl fun free => free 0 (List.mem_cons_self ..),
      fun _ _ _ l held => absurd held (List.not_mem_nil (a := l))⟩
  exact ⟨_, rfl, rfl, network_not_deadlocked waits⟩

/-- A poll of a listener takes the entry of its port while `poll_interfaces` holds the socket
set, and each waits for the other when a SYN packet to the port arrives.
-/
theorem network_deadlocks
    : ∃ s : Locks (Fin 2) NetLock,
      Transition.Reachable Locks.Idle
        (fun s s' => ∃ event, Locks.Step (Program false) s event s') s
      ∧ s.Deadlocked := by
  have start : Transition.Reachable Locks.Idle
      (fun s s' => ∃ event, Locks.Step (Program false) s event s')
      (⟨fun _ => [], fun _ => none, fun _ => []⟩ : Locks (Fin 2) NetLock) :=
    .start fun _ => ⟨rfl, rfl, rfl⟩
  have polls := start.next ⟨_, .start _ 0 _ rfl ⟨.pollInterfaces [80], rfl⟩⟩
  have device := polls.next ⟨_, .take _ 0 .device _ rfl (by unfold Locks.Free; decide)⟩
  have interface := device.next
    ⟨_, .take _ 0 .interface _ rfl (by unfold Locks.Free; decide)⟩
  have socketSet := interface.next
    ⟨_, .take _ 0 .socketSet _ rfl (by unfold Locks.Free; decide)⟩
  have listens := socketSet.next ⟨_, .start _ 1 _ rfl ⟨.pollListener 80 1, rfl⟩⟩
  have entry := listens.next
    ⟨_, .take _ 1 (.entry 80) _ rfl (by unfold Locks.Free; decide)⟩
  have upwards := entry.next
    ⟨_, .wait _ 0 (.entry 80) _ rfl fun free => free 1 (List.mem_cons_self ..)⟩
  have against := upwards.next
    ⟨_, .wait _ 1 .socketSet _ rfl fun free => free 0 (List.mem_cons_self ..)⟩
  exact ⟨_, against, 0,
    .tail (b := 1) (.single ⟨.entry 80, rfl, List.mem_cons_self ..⟩)
      ⟨.socketSet, rfl, List.mem_cons_self ..⟩⟩

end RCoreOS.Axnet.LockNesting
