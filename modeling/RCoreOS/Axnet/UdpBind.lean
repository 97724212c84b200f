import RCoreOS.Axnet.TcpSocket

/-! Binding UDP sockets. The check for conflicts looks through all sockets of the set, and a bind
to port 0 takes its port from a counter that knows nothing about the sockets. The `smoltcp` crate
below is a parameter, and `none` stands for a panic.
-/

namespace RCoreOS.Axnet

-----------------------------------------------------------------------------------------
-- Sockets and their set
-----------------------------------------------------------------------------------------

/-- `AxError`, as far as `bind` returns it. -/
inductive AxError where
  | AddrInUse
  | AlreadyExists
  | InvalidInput
deriving DecidableEq, Repr

inductive BindError where
  | InvalidState
  | Unaddressable
deriving DecidableEq, Repr

/-- `IpListenEndpoint::default()`: no address and no port. -/
def noEndpoint : IpListenEndpoint where
  addr := none
  port := 0

/-- `smoltcp::socket::Socket`: a UDP socket, or one of another protocol. -/
inductive AnySocket (Udp : Type) where
  | udp (socket : Udp)
  | other

/-- What is used of `smoltcp`: `udp::Socket` and `SocketSet`, in which sockets have handles. -/
structure Smoltcp (Udp Handle Sockets : Type) where
  new : Udp
  endpoint : Udp → IpListenEndpoint
  bind : Udp → IpListenEndpoint → Except BindError Udp
  close : Udp → Udp
  empty : Sockets
  add : Sockets → AnySocket Udp → Handle × Sockets
  get : Sockets → Handle → Option (AnySocket Udp)
  /-- What a write through `get_mut` leaves. -/
  put : Sockets → Handle → AnySocket Udp → Sockets
  remove : Sockets → Handle → Sockets
  iter : Sockets → List (Handle × AnySocket Udp)

/-- A change to one handle of a set. -/
structure Smoltcp.Changes {Udp Handle Sockets : Type} (smol : Smoltcp Udp Handle Sockets)
    (set set' : Sockets) (handle : Handle) (item : Option (AnySocket Udp))
    : Prop where
  here : smol.get set' handle = item
  elsewhere : ∀ other, other ≠ handle → smol.get set' other = smol.get set other

/-- What the crate documents: a socket that is not open has no port and can be bound to every
endpoint with a port, and handles stand for the sockets that were added until they are removed.
-/
structure Smoltcp.Lawful {Udp Handle Sockets : Type} (smol : Smoltcp Udp Handle Sockets)
    : Prop where
  endpoint_new : smol.endpoint smol.new = noEndpoint
  endpoint_close (socket : Udp) : smol.endpoint (smol.close socket) = noEndpoint
  bind_some {socket opened : Udp} {endpoint : IpListenEndpoint}
    (done : smol.bind socket endpoint = .ok opened)
    : endpoint.port ≠ 0 ∧ smol.endpoint opened = endpoint
  bind_closed {socket : Udp} {endpoint : IpListenEndpoint}
    (closed : (smol.endpoint socket).port = 0) (chosen : endpoint.port ≠ 0)
    : ∃ opened, smol.bind socket endpoint = .ok opened
  get_empty (handle : Handle) : smol.get smol.empty handle = none
  get_fresh (set : Sockets) (item : AnySocket Udp) : smol.get set (smol.add set item).1 = none
  add (set : Sockets) (item : AnySocket Udp)
    : smol.Changes set (smol.add set item).2 (smol.add set item).1 (some item)
  put {set : Sockets} {handle : Handle} {old : AnySocket Udp}
    (found : smol.get set handle = some old) (item : AnySocket Udp)
    : smol.Changes set (smol.put set handle item) handle (some item)
  remove {set : Sockets} {handle : Handle} {old : AnySocket Udp}
    (found : smol.get set handle = some old)
    : smol.Changes set (smol.remove set handle) handle none
  mem_iter (set : Sockets) (handle : Handle) (item : AnySocket Udp)
    : (handle, item) ∈ smol.iter set ↔ smol.get set handle = some item

structure UdpSocket (Handle : Type) where
  handle : Handle
  localAddr : Option IpEndpoint
  reuseAddr : Bool

def PORT_START : UInt16 := 0xc000
def PORT_END : UInt16 := 0xffff

/-- The socket set, the UDP sockets of all tasks, and `CURR` of `get_ephemeral_port`. -/
structure UdpNet (Handle Sockets : Type) where
  set : Sockets
  sockets : Nat → Option (UdpSocket Handle)
  curr : UInt16

namespace UdpNet

variable {Udp Handle Sockets : Type} (smol : Smoltcp Udp Handle Sockets)

/-- `get_ephemeral_port`. -/
def getEphemeralPort (net : UdpNet Handle Sockets) : UInt16 × UdpNet Handle Sockets :=
  (net.curr, { net with curr := if net.curr = PORT_END then PORT_START else net.curr + 1 })

/-- `bind_check`, which leaves the port aside. -/
def bindCheck (net : UdpNet Handle Sockets) (addr : UInt32) : Except AxError Unit :=
  if (smol.iter net.set).any fun item =>
      match item.2 with
      | .udp socket => (smol.endpoint socket).addr = some addr
      | .other => false
  then .error .AddrInUse
  else .ok ()

/-- The endpoint at which a socket is opened. -/
def listenEndpoint (localEndpoint : IpEndpoint) : IpListenEndpoint where
  addr := if localEndpoint.addr = 0 then none else some localEndpoint.addr
  port := localEndpoint.port

/-- The socket is open, and knows its address. -/
def opened (net : UdpNet Handle Sockets) (s : Nat) (socket : UdpSocket Handle)
    (localEndpoint : IpEndpoint) (bound : Udp)
    : UdpNet Handle Sockets :=
  { net with
    set := smol.put net.set socket.handle (.udp bound)
    sockets := Function.update net.sockets s
      (some { socket with localAddr := some localEndpoint }) }

/-- `bind` once the port is chosen. -/
def bindTo (net : UdpNet Handle Sockets) (s : Nat) (socket : UdpSocket Handle)
    (localEndpoint : IpEndpoint)
    : Option (Except AxError Unit × UdpNet Handle Sockets) :=
  if socket.localAddr.isSome then some (.error .InvalidInput, net)
  else
    match if socket.reuseAddr then .ok () else net.bindCheck smol localEndpoint.addr with
    | .error e => some (.error e, net)
    | .ok _ =>
        match smol.get net.set socket.handle with
        | some (.udp current) =>
            match smol.bind current (listenEndpoint localEndpoint) with
            | .error .InvalidState => some (.error .AlreadyExists, net)
            | .error .Unaddressable => some (.error .InvalidInput, net)
            | .ok bound => some (.ok (), net.opened smol s socket localEndpoint bound)
        | _ => none

/-- `UdpSocket::bind`. -/
def bind (net : UdpNet Handle Sockets) (s : Nat) (socket : UdpSocket Handle)
    (localAddr : IpEndpoint)
    : Option (Except AxError Unit × UdpNet Handle Sockets) :=
  if localAddr.port = 0 then
    let (port, net) := net.getEphemeralPort
    net.bindTo smol s socket { localAddr with port }
  else net.bindTo smol s socket localAddr

/-- `UdpSocket::new`. -/
def new (net : UdpNet Handle Sockets) (s : Nat) : UdpNet Handle Sockets :=
  let (handle, set) := smol.add net.set (.udp smol.new)
  { net with
    set
    sockets := Function.update net.sockets s
      (some { handle, localAddr := none, reuseAddr := false }) }

/-- `set_reuse_addr`. -/
def setReuseAddr (net : UdpNet Handle Sockets) (s : Nat) (socket : UdpSocket Handle)
    (reuseAddr : Bool)
    : UdpNet Handle Sockets :=
  { net with sockets := Function.update net.sockets s (some { socket with reuseAddr }) }

/-- `shutdown`, which closes the socket of `smoltcp`. -/
def shutdown (net : UdpNet Handle Sockets) (socket : UdpSocket Handle)
    : Option (UdpNet Handle Sockets) :=
  match smol.get net.set socket.handle with
  | some (.udp current) =>
      some { net with set := smol.put net.set socket.handle (.udp (smol.close current)) }
  | _ => none

/-- A socket that is dropped is shut down, and its handle is removed. -/
def drop (net : UdpNet Handle Sockets) (s : Nat) (socket : UdpSocket Handle)
    : Option (UdpNet Handle Sockets) := do
  let net ← net.shutdown smol socket
  return { net with
    set := smol.remove net.set socket.handle
    sockets := Function.update net.sockets s none }

/-- What tasks do with UDP sockets, and other protocols with the set. -/
inductive Step (net : UdpNet Handle Sockets) : UdpNet Handle Sockets → Prop
  | new (s) : net.sockets s = none → Step net (net.new smol s)
  | bind (s socket localAddr) {result net'} : net.sockets s = some socket →
      net.bind smol s socket localAddr = some (result, net') → Step net net'
  | setReuseAddr (s socket reuseAddr) : net.sockets s = some socket →
      Step net (net.setReuseAddr s socket reuseAddr)
  | shutdown (s socket) {net'} : net.sockets s = some socket →
      net.shutdown smol socket = some net' → Step net net'
  | drop (s socket) {net'} : net.sockets s = some socket →
      net.drop smol s socket = some net' → Step net net'
  | addOther : Step net { net with set := (smol.add net.set .other).2 }
  | removeOther (handle) : smol.get net.set handle = some .other →
      Step net { net with set := smol.remove net.set handle }

def Started (net : UdpNet Handle Sockets) : Prop :=
  net.set = smol.empty ∧ (∀ s, net.sockets s = none) ∧ net.curr = PORT_START

abbrev Reachable (net : UdpNet Handle Sockets) : Prop :=
  Transition.Reachable (Started smol) (Step smol) net

-----------------------------------------------------------------------------------------
-- Conflicts
-----------------------------------------------------------------------------------------

/-- A UDP socket is open at the endpoint. -/
def Bound (net : UdpNet Handle Sockets) (endpoint : IpListenEndpoint) : Prop :=
  (∃ handle socket, smol.get net.set handle = some (.udp socket)
    ∧ smol.endpoint socket = endpoint)
  ∧ endpoint.port ≠ 0

/-- The endpoint has the port, and the same address, or one of them is unspecified. -/
def Conflicts (addr : UInt32) (port : UInt16) (endpoint : IpListenEndpoint) : Prop :=
  endpoint.port = port ∧ (addr = 0 ∨ endpoint.addr = none ∨ endpoint.addr = some addr)

/-- The port that a bind is about. -/
def chosenPort (net : UdpNet Handle Sockets) (localAddr : IpEndpoint) : UInt16 :=
  if localAddr.port = 0 then net.curr else localAddr.port

def PortUsed (net : UdpNet Handle Sockets) (port : UInt16) : Prop :=
  ∃ endpoint, net.Bound smol endpoint ∧ endpoint.port = port

def AddressUsed (net : UdpNet Handle Sockets) (addr : UInt32) : Prop :=
  ∃ endpoint, net.Bound smol endpoint ∧ endpoint.addr = some addr

def HasFreePort (net : UdpNet Handle Sockets) : Prop :=
  ∃ port, IsEphemeral port ∧ ¬ net.PortUsed smol port

/-- A bind fails with `AddrInUse` exactly if a bound socket conflicts with it, and with port 0 it
takes a port that no bound socket uses if there is one.
-/
structure DetectsConflicts (net : UdpNet Handle Sockets) (s : Nat) (socket : UdpSocket Handle)
    (localAddr : IpEndpoint)
    : Prop where
  refused : (∃ net', net.bind smol s socket localAddr = some (.error .AddrInUse, net'))
    ↔ ∃ endpoint, net.Bound smol endpoint
        ∧ Conflicts localAddr.addr (net.chosenPort localAddr) endpoint
  ephemeral : localAddr.port = 0 → net.HasFreePort smol →
    ∃ net' bound port, net.bind smol s socket localAddr = some (.ok (), net')
      ∧ net'.sockets s = some bound
      ∧ bound.localAddr = some { localAddr with port }
      ∧ ¬ net.PortUsed smol port

/-- When a bind detects what it should, in terms of the sockets that are bound. -/
structure Detectable (net : UdpNet Handle Sockets) (localAddr : IpEndpoint) : Prop where
  unspecified : localAddr.addr = 0 → ¬ net.PortUsed smol (net.chosenPort localAddr)
  shared : localAddr.addr ≠ 0 → net.AddressUsed smol localAddr.addr →
    ∃ endpoint, net.Bound smol endpoint
      ∧ Conflicts localAddr.addr (net.chosenPort localAddr) endpoint
  wildcard : localAddr.addr ≠ 0 → ∀ endpoint, net.Bound smol endpoint →
    endpoint.port = net.chosenPort localAddr → endpoint.addr = none →
    net.AddressUsed smol localAddr.addr
  ephemeral : localAddr.port = 0 → net.HasFreePort smol →
    ¬ net.AddressUsed smol localAddr.addr ∧ ¬ net.PortUsed smol net.curr

/-- An endpoint without a port has no address, and the address is not the unspecified one. -/
def Proper (endpoint : IpListenEndpoint) : Prop :=
  (endpoint.port = 0 → endpoint = noEndpoint) ∧ endpoint.addr ≠ some 0

/-- Every socket has its own handle, unbound ones are not open, and all endpoints are proper. -/
structure Sound (net : UdpNet Handle Sockets) : Prop where
  held : ∀ s socket, net.sockets s = some socket →
    ∃ udp, smol.get net.set socket.handle = some (.udp udp)
      ∧ (socket.localAddr = none → smol.endpoint udp = noEndpoint)
  apart : ∀ s s' socket socket', net.sockets s = some socket → net.sockets s' = some socket' →
    socket.handle = socket'.handle → s = s'
  endpoints : ∀ handle udp, smol.get net.set handle = some (.udp udp) →
    Proper (smol.endpoint udp)
  curr : net.curr ≠ 0

variable {smol} {net net' : UdpNet Handle Sockets} {s : Nat}
  {socket : UdpSocket Handle} {localEndpoint : IpEndpoint}

-----------------------------------------------------------------------------------------
-- Every run
-----------------------------------------------------------------------------------------

theorem proper_noEndpoint : Proper noEndpoint :=
  ⟨fun _ => rfl, by decide⟩

theorem proper_listenEndpoint (chosen : localEndpoint.port ≠ 0)
    : Proper (listenEndpoint localEndpoint) := by
  refine ⟨fun none => absurd none chosen, ?_⟩
  unfold listenEndpoint
  split
  · simp
  · rename_i specific
    exact fun same => specific (Option.some.inj same)

/-- A socket gets an item of the set that no other socket holds. -/
theorem Sound.holds (sound : net.Sound smol) {set : Sockets} {udp : Udp}
    (alone : ∀ other held, net.sockets other = some held → other ≠ s →
      held.handle ≠ socket.handle)
    (proper : Proper (smol.endpoint udp))
    (closed : socket.localAddr = none → smol.endpoint udp = noEndpoint)
    (changes : smol.Changes net.set set socket.handle (some (.udp udp)))
    : Sound smol { net with set, sockets := Function.update net.sockets s (some socket) } := by
  constructor
  · intro other held there
    dsimp only at there ⊢
    rw [Function.update_apply] at there
    split at there
    · cases there
      exact ⟨udp, changes.here, closed⟩
    · rename_i different
      rw [changes.elsewhere held.handle (alone other held there different)]
      exact sound.held other held there
  · intro one two first second here there equal
    dsimp only at here there
    rw [Function.update_apply] at here there
    split at here <;> split at there
    · rename_i isOne isTwo
      exact isOne.trans isTwo.symm
    · rename_i _ notTwo
      cases here
      exact absurd equal.symm (alone two second there notTwo)
    · rename_i notOne _
      cases there
      exact absurd equal (alone one first here notOne)
    · exact sound.apart one two first second here there equal
  · intro handle known there
    dsimp only at there
    by_cases same : handle = socket.handle
    · rw [same, changes.here] at there
      cases there
      exact proper
    · rw [changes.elsewhere handle same] at there
      exact sound.endpoints handle known there
  · exact sound.curr

/-- A socket changes without its handle, and with it its item in the set. -/
theorem Sound.change (sound : net.Sound smol) (live : net.sockets s = some socket)
    {socket' : UdpSocket Handle} (same : socket'.handle = socket.handle) {udp : Udp}
    (proper : Proper (smol.endpoint udp))
    (closed : socket'.localAddr = none → smol.endpoint udp = noEndpoint)
    {set : Sockets} (changes : smol.Changes net.set set socket.handle (some (.udp udp)))
    : Sound smol { net with set, sockets := Function.update net.sockets s (some socket') } := by
  refine sound.holds (fun other held there different => ?_) proper closed (same ▸ changes)
  rw [same]
  exact fun equal => different (sound.apart other s held socket there live equal)

/-- An item of the set that no socket holds is removed, or becomes one of another protocol. -/
theorem Sound.unheld (sound : net.Sound smol) {handle : Handle} {item : Option (AnySocket Udp)}
    (unheld : ∀ s socket, net.sockets s = some socket → socket.handle ≠ handle)
    (noUdp : ∀ udp, item ≠ some (.udp udp)) {set : Sockets}
    (changes : smol.Changes net.set set handle item)
    : Sound smol { net with set } where
  held s socket live := by
    dsimp only
    rw [changes.elsewhere socket.handle (unheld s socket live)]
    exact sound.held s socket live
  apart := sound.apart
  endpoints other udp there := by
    dsimp only at there
    by_cases same : other = handle
    · rw [same, changes.here] at there
      exact absurd there (noUdp udp)
    · rw [changes.elsewhere other same] at there
      exact sound.endpoints other udp there
  curr := sound.curr

/-- A socket is forgotten. -/
theorem Sound.forgets (sound : net.Sound smol) (s : Nat)
    : Sound smol { net with sockets := Function.update net.sockets s none } := by
  have live {other : Nat} {held : UdpSocket Handle}
      (there : Function.update net.sockets s none other = some held)
      : other ≠ s ∧ net.sockets other = some held := by
    rw [Function.update_apply] at there
    split at there
    · cases there
    · rename_i different
      exact ⟨different, there⟩
  exact {
    held := fun other held there => sound.held other held (live there).2
    apart := fun one two first second here there =>
      sound.apart one two first second (live here).2 (live there).2
    endpoints := sound.endpoints
    curr := sound.curr }

/-- What a bind can do: nothing, or open the socket. -/
theorem bindTo_cases (lawful : smol.Lawful) {result : Except AxError Unit}
    (done : net.bindTo smol s socket localEndpoint = some (result, net'))
    : net' = net
      ∨ localEndpoint.port ≠ 0
        ∧ (∃ current, smol.get net.set socket.handle = some (.udp current))
        ∧ ∃ bound, smol.endpoint bound = listenEndpoint localEndpoint
          ∧ net' = net.opened smol s socket localEndpoint bound := by
  unfold bindTo at done
  split at done
  · cases done
    exact .inl rfl
  · split at done
    · cases done
      exact .inl rfl
    · split at done
      · rename_i current found
        split at done
        · cases done
          exact .inl rfl
        · cases done
          exact .inl rfl
        · rename_i bound opened
          cases done
          obtain ⟨chosen, endpoint⟩ := lawful.bind_some opened
          exact .inr ⟨chosen, ⟨current, found⟩, bound, endpoint, rfl⟩
      · cases done

theorem Sound.bindTo (lawful : smol.Lawful) {result : Except AxError Unit}
    (sound : net.Sound smol) (live : net.sockets s = some socket)
    (done : net.bindTo smol s socket localEndpoint = some (result, net'))
    : net'.Sound smol := by
  rcases bindTo_cases lawful done with rfl | ⟨chosen, ⟨current, found⟩, bound, endpoint, rfl⟩
  · exact sound
  · have same : ({ socket with localAddr := some localEndpoint } : UdpSocket Handle).handle
        = socket.handle := rfl
    have proper : Proper (smol.endpoint bound) := endpoint ▸ proper_listenEndpoint chosen
    exact sound.change live same proper (by simp) (lawful.put found _)

theorem Sound.getEphemeralPort (sound : net.Sound smol) : net.getEphemeralPort.2.Sound smol where
  held := sound.held
  apart := sound.apart
  endpoints := sound.endpoints
  curr := by
    unfold UdpNet.getEphemeralPort
    dsimp only
    split
    · decide
    · rename_i more
      have positive := sound.curr
      intro zero
      have wraps := congrArg UInt16.toNat zero
      rw [UInt16.toNat_add, UInt16.toNat_zero, UInt16.toNat_one] at wraps
      have below := net.curr.toNat_lt
      exact more (UInt16.toNat.inj (by rw [PORT_END]; show net.curr.toNat = 65535; omega))

/-- Sockets do not hold what is not in the set. -/
theorem Sound.not_held (sound : net.Sound smol) {handle : Handle}
    (noUdp : ∀ udp, smol.get net.set handle ≠ some (.udp udp))
    (live : net.sockets s = some socket)
    : socket.handle ≠ handle := by
  rintro rfl
  obtain ⟨udp, found, -⟩ := sound.held s socket live
  exact noUdp udp found

theorem Sound.new (lawful : smol.Lawful) (sound : net.Sound smol)
    : (net.new smol s).Sound smol := by
  have absent (udp : Udp)
      : smol.get net.set (smol.add net.set (.udp smol.new)).1 ≠ some (.udp udp) := by
    rw [lawful.get_fresh]
    exact nofun
  have proper : Proper (smol.endpoint smol.new) := lawful.endpoint_new ▸ proper_noEndpoint
  exact sound.holds (fun other held there _ => sound.not_held absent there) proper
    (fun _ => lawful.endpoint_new) (lawful.add net.set _)

theorem Sound.shutdown (lawful : smol.Lawful) (sound : net.Sound smol)
    (live : net.sockets s = some socket) (done : net.shutdown smol socket = some net')
    : net'.Sound smol ∧ net'.sockets = net.sockets := by
  obtain ⟨udp, found, -⟩ := sound.held s socket live
  simp only [UdpNet.shutdown, found] at done
  cases done
  have closes := lawful.endpoint_close udp
  have changed := sound.change live rfl (closes ▸ proper_noEndpoint) (fun _ => closes)
    (lawful.put found (.udp (smol.close udp)))
  rw [← live, Function.update_eq_self] at changed
  exact ⟨changed, rfl⟩

theorem Sound.drop (lawful : smol.Lawful) (sound : net.Sound smol)
    (live : net.sockets s = some socket) (done : net.drop smol s socket = some net')
    : net'.Sound smol := by
  obtain ⟨closed, shutdown, rest⟩ := Option.bind_eq_some_iff.mp done
  cases rest
  obtain ⟨sound, same⟩ := sound.shutdown lawful live shutdown
  rw [← same] at live
  obtain ⟨udp, found, -⟩ := sound.held s socket live
  refine (sound.forgets s).unheld (fun other held there equal => ?_) (by simp)
    (lawful.remove found)
  dsimp only at there
  rw [Function.update_apply] at there
  split at there
  · cases there
  · rename_i different
    exact different (sound.apart other s held socket there live equal)

theorem Sound.step (lawful : smol.Lawful) (sound : net.Sound smol) (step : Step smol net net')
    : net'.Sound smol := by
  cases step with
  | new s => exact sound.new lawful
  | @bind s socket localAddr result _ live done =>
      unfold UdpNet.bind at done
      split at done
      · exact sound.getEphemeralPort.bindTo lawful live done
      · exact sound.bindTo lawful live done
  | setReuseAddr s socket reuseAddr live =>
      obtain ⟨udp, found, closed⟩ := sound.held s socket live
      have same : ({ socket with reuseAddr } : UdpSocket Handle).handle = socket.handle := rfl
      exact sound.change live same (sound.endpoints _ udp found) closed ⟨found, fun _ _ => rfl⟩
  | shutdown s socket live done => exact (sound.shutdown lawful live done).1
  | drop s socket live done => exact sound.drop lawful live done
  | addOther =>
      have absent (udp : Udp)
          : smol.get net.set (smol.add net.set .other).1 ≠ some (.udp udp) := by
        rw [lawful.get_fresh]
        exact nofun
      exact sound.unheld (fun _ _ live => sound.not_held absent live) (by simp)
        (lawful.add net.set _)
  | removeOther handle other =>
      exact sound.unheld (fun _ _ live => sound.not_held (by simp [other]) live) (by simp)
        (lawful.remove other)

theorem Started.sound (lawful : smol.Lawful) (started : net.Started smol)
    : net.Sound smol := by
  obtain ⟨empty, none, curr⟩ := started
  constructor
  · intro s socket live
    rw [none s] at live
    cases live
  · intro s s' socket socket' live
    rw [none s] at live
    cases live
  · intro handle udp found
    rw [empty, lawful.get_empty] at found
    cases found
  · rw [curr]
    decide

theorem Reachable.sound (lawful : smol.Lawful) (reachable : Reachable smol net)
    : net.Sound smol :=
  reachable.invariant (Sound smol) (fun _ => Started.sound lawful) fun _ _ sound step =>
    sound.step lawful step

-----------------------------------------------------------------------------------------
-- A bind of an unbound socket
-----------------------------------------------------------------------------------------

variable {localAddr : IpEndpoint}

/-- The check looks for a bound socket with the address. -/
theorem bindCheck_eq (lawful : smol.Lawful) (sound : net.Sound smol) (addr : UInt32)
    : (net.AddressUsed smol addr → net.bindCheck smol addr = .error .AddrInUse)
      ∧ (¬ net.AddressUsed smol addr → net.bindCheck smol addr = .ok ()) := by
  have used : ((smol.iter net.set).any fun item =>
        match item.2 with
        | .udp socket => (smol.endpoint socket).addr = some addr
        | .other => false) = true
      ↔ net.AddressUsed smol addr := by
    rw [List.any_eq_true]
    constructor
    · rintro ⟨⟨handle, item⟩, member, same⟩
      have found := (lawful.mem_iter net.set handle item).mp member
      match item, same with
      | .udp udp, same =>
          have addr := of_decide_eq_true same
          refine ⟨smol.endpoint udp, ⟨⟨handle, udp, found, rfl⟩, fun none => ?_⟩, addr⟩
          rw [(sound.endpoints handle udp found).1 none] at addr
          cases addr
    · rintro ⟨endpoint, ⟨⟨handle, udp, found, rfl⟩, -⟩, addr⟩
      exact ⟨_, (lawful.mem_iter net.set handle _).mpr found, decide_eq_true addr⟩
  unfold bindCheck
  constructor
  · intro inUse
    rw [if_pos (used.mpr inUse)]
  · intro unused
    rw [if_neg (mt used.mp unused)]

/-- The state in which the port of a bind is chosen. -/
def entered (net : UdpNet Handle Sockets) (localAddr : IpEndpoint) : UdpNet Handle Sockets :=
  if localAddr.port = 0 then net.getEphemeralPort.2 else net

theorem bind_eq (net : UdpNet Handle Sockets) (s : Nat) (socket : UdpSocket Handle)
    (localAddr : IpEndpoint)
    : net.bind smol s socket localAddr
      = (net.entered localAddr).bindTo smol s socket
          { localAddr with port := net.chosenPort localAddr } := by
  unfold bind entered chosenPort
  by_cases any : localAddr.port = 0
  · rw [if_pos any, if_pos any, if_pos any]
    rfl
  · rw [if_neg any, if_neg any, if_neg any]

theorem entered_set (net : UdpNet Handle Sockets) (localAddr : IpEndpoint)
    : (net.entered localAddr).set = net.set := by
  unfold entered
  split <;> rfl

theorem Sound.entered (sound : net.Sound smol) : (net.entered localAddr).Sound smol := by
  unfold UdpNet.entered
  split
  · exact sound.getEphemeralPort
  · exact sound

theorem chosenPort_ne_zero (sound : net.Sound smol) : net.chosenPort localAddr ≠ 0 := by
  unfold chosenPort
  split
  · exact sound.curr
  · assumption

theorem entered_addressUsed {addr : UInt32}
    : (net.entered localAddr).AddressUsed smol addr ↔ net.AddressUsed smol addr := by
  unfold AddressUsed Bound
  rw [entered_set]

/-- Without `reuse_addr`, an unbound socket is refused exactly if its address is in use. -/
theorem bind_unbound (lawful : smol.Lawful) (sound : net.Sound smol)
    (live : net.sockets s = some socket) (unbound : socket.localAddr = none)
    (strict : socket.reuseAddr = false) (localAddr : IpEndpoint)
    : (net.AddressUsed smol localAddr.addr →
        net.bind smol s socket localAddr = some (.error .AddrInUse, net.entered localAddr))
      ∧ (¬ net.AddressUsed smol localAddr.addr →
        ∃ bound, net.bind smol s socket localAddr
          = some (.ok (), (net.entered localAddr).opened smol s socket
              { localAddr with port := net.chosenPort localAddr } bound)) := by
  obtain ⟨udp, found, closed⟩ := sound.held s socket live
  have entered : (net.entered localAddr).Sound smol := sound.entered
  have checks := bindCheck_eq lawful entered localAddr.addr
  rw [entered_addressUsed] at checks
  have noPort : (smol.endpoint udp).port = 0 := congrArg IpListenEndpoint.port (closed unbound)
  have chosen : (listenEndpoint { localAddr with port := net.chosenPort localAddr }).port ≠ 0 :=
    chosenPort_ne_zero sound
  obtain ⟨bound, opens⟩ := lawful.bind_closed noPort chosen
  rw [bind_eq]
  unfold bindTo
  constructor
  · intro used
    simp [unbound, strict, checks.1 used]
  · intro unused
    exact ⟨bound, by simp [unbound, strict, checks.2 unused, entered_set, found, opens]⟩

theorem not_addressUsed_zero (sound : net.Sound smol) : ¬ net.AddressUsed smol 0 := by
  rintro ⟨endpoint, ⟨⟨handle, udp, found, rfl⟩, -⟩, addr⟩
  exact (sound.endpoints handle udp found).2 addr

theorem refused_iff (lawful : smol.Lawful) (sound : net.Sound smol)
    (live : net.sockets s = some socket) (unbound : socket.localAddr = none)
    (strict : socket.reuseAddr = false) (localAddr : IpEndpoint)
    : (∃ net', net.bind smol s socket localAddr = some (.error .AddrInUse, net'))
      ↔ net.AddressUsed smol localAddr.addr := by
  obtain ⟨refuses, opens⟩ := bind_unbound lawful sound live unbound strict localAddr
  constructor
  · rintro ⟨net', done⟩
    by_contra unused
    obtain ⟨bound, opened⟩ := opens unused
    rw [opened] at done
    cases done
  · exact fun used => ⟨_, refuses used⟩

/-- The address of a bind is in use exactly if there is a conflict: which sockets may be bound. -/
theorem addressUsed_iff (sound : net.Sound smol) (localAddr : IpEndpoint)
    : (net.AddressUsed smol localAddr.addr
        ↔ ∃ endpoint, net.Bound smol endpoint
            ∧ Conflicts localAddr.addr (net.chosenPort localAddr) endpoint)
      ↔ (localAddr.addr = 0 → ¬ net.PortUsed smol (net.chosenPort localAddr))
        ∧ (localAddr.addr ≠ 0 → net.AddressUsed smol localAddr.addr →
          ∃ endpoint, net.Bound smol endpoint
            ∧ Conflicts localAddr.addr (net.chosenPort localAddr) endpoint)
        ∧ (localAddr.addr ≠ 0 → ∀ endpoint, net.Bound smol endpoint →
          endpoint.port = net.chosenPort localAddr → endpoint.addr = none →
          net.AddressUsed smol localAddr.addr) := by
  have never (zero : localAddr.addr = 0) : ¬ net.AddressUsed smol localAddr.addr :=
    zero ▸ not_addressUsed_zero sound
  constructor
  · intro same
    refine ⟨?_, fun _ used => same.mp used, ?_⟩
    · rintro zero ⟨endpoint, bound, port⟩
      exact never zero (same.mpr ⟨endpoint, bound, port, .inl zero⟩)
    · intro _ endpoint bound port wildcard
      exact same.mpr ⟨endpoint, bound, port, .inr (.inl wildcard)⟩
  · rintro ⟨unspecified, shared, wildcard⟩
    constructor
    · exact fun used => shared (fun zero => never zero used) used
    · rintro ⟨endpoint, bound, port, conflict⟩
      by_cases zero : localAddr.addr = 0
      · exact absurd ⟨endpoint, bound, port⟩ (unspecified zero)
      · rcases conflict with zero' | anywhere | same
        · exact absurd zero' zero
        · exact wildcard zero endpoint bound port anywhere
        · exact ⟨endpoint, bound, same⟩

/-- A bind takes an unused port exactly if its address and the port are not in use. -/
theorem takesUnused_iff (lawful : smol.Lawful) (sound : net.Sound smol)
    (live : net.sockets s = some socket) (unbound : socket.localAddr = none)
    (strict : socket.reuseAddr = false) (localAddr : IpEndpoint)
    : (∃ net' bound port, net.bind smol s socket localAddr = some (.ok (), net')
        ∧ net'.sockets s = some bound ∧ bound.localAddr = some { localAddr with port }
        ∧ ¬ net.PortUsed smol port)
      ↔ ¬ net.AddressUsed smol localAddr.addr ∧ ¬ net.PortUsed smol (net.chosenPort localAddr) := by
  obtain ⟨refuses, opens⟩ := bind_unbound lawful sound live unbound strict localAddr
  constructor
  · rintro ⟨net', taken, port, done, after, named, unused⟩
    have fresh : ¬ net.AddressUsed smol localAddr.addr := fun used => by
      rw [refuses used] at done
      cases done
    refine ⟨fresh, ?_⟩
    obtain ⟨bound, opens⟩ := opens fresh
    rw [opens] at done
    cases done
    rw [opened] at after
    dsimp only at after
    rw [Function.update_self] at after
    cases after
    cases named
    exact unused
  · rintro ⟨fresh, unused⟩
    obtain ⟨bound, opens⟩ := opens fresh
    exact ⟨_, _, _, opens, Function.update_self .., rfl, unused⟩

/-- In every run, a bind without `reuse_addr` of an unbound socket detects conflicts exactly if,
for the unspecified address, no socket has the port; for another address, one of the sockets with
this address, if any, or of the wildcard sockets has the port, and a wildcard socket has it only if
there is one with the address; and, for port 0, neither the address nor the port of the counter is
in use.
-/
theorem detectsConflicts_iff (lawful : smol.Lawful) (reachable : Reachable smol net)
    (live : net.sockets s = some socket) (unbound : socket.localAddr = none)
    (strict : socket.reuseAddr = false) (localAddr : IpEndpoint)
    : net.DetectsConflicts smol s socket localAddr ↔ net.Detectable smol localAddr := by
  have sound := reachable.sound lawful
  have refused := refused_iff lawful sound live unbound strict localAddr
  have conflicts := addressUsed_iff sound localAddr
  have takes := takesUnused_iff lawful sound live unbound strict localAddr
  constructor
  · intro detects
    obtain ⟨unspecified, shared, wildcard⟩ := conflicts.mp (refused.symm.trans detects.refused)
    refine ⟨unspecified, shared, wildcard, fun any free => ?_⟩
    have fresh := takes.mp (detects.ephemeral any free)
    rwa [chosenPort, if_pos any] at fresh
  · intro detectable
    refine ⟨refused.trans (conflicts.mpr
      ⟨detectable.unspecified, detectable.shared, detectable.wildcard⟩), fun any free => ?_⟩
    refine takes.mpr ?_
    rw [chosenPort, if_pos any]
    exact detectable.ephemeral any free

end UdpNet

-----------------------------------------------------------------------------------------
-- Sockets that satisfy the laws
-----------------------------------------------------------------------------------------

/-- UDP sockets that are their endpoints, in a set whose handles are the slots of a list. -/
def slotSet : Smoltcp IpListenEndpoint Nat (List (Option (AnySocket IpListenEndpoint))) where
  new := noEndpoint
  endpoint := id
  bind current endpoint :=
    if endpoint.port = 0 then .error .Unaddressable
    else if current.port ≠ 0 then .error .InvalidState
    else .ok endpoint
  close _ := noEndpoint
  empty := []
  add set item :=
    match set.findIdx? Option.isNone with
    | some handle => (handle, set.set handle (some item))
    | none => (set.length, set ++ [some item])
  get set handle := set[handle]?.join
  put set handle item := set.set handle (some item)
  remove set handle := set.set handle none
  iter set := set.zipIdx.filterMap fun slot => slot.1.map fun item => (slot.2, item)

namespace SlotSet

variable {set : List (Option (AnySocket IpListenEndpoint))} {handle : Nat}
  {old : AnySocket IpListenEndpoint}

/-- A write to a slot of a socket. -/
theorem changes_set (found : slotSet.get set handle = some old)
    (item : Option (AnySocket IpListenEndpoint))
    : slotSet.Changes set (set.set handle item) handle item := by
  have inside : handle < set.length := by
    by_contra outside
    simp [slotSet, List.getElem?_eq_none (Nat.le_of_not_lt outside)] at found
  constructor
  · simp [slotSet, List.getElem?_set_self inside]
  · intro other different
    simp [slotSet, List.getElem?_set_ne different.symm]

/-- A socket is added at a slot that is not in use. -/
theorem changes_add (set : List (Option (AnySocket IpListenEndpoint)))
    (item : AnySocket IpListenEndpoint)
    : slotSet.get set (slotSet.add set item).1 = none
      ∧ slotSet.Changes set (slotSet.add set item).2 (slotSet.add set item).1 (some item) := by
  cases free : set.findIdx? Option.isNone with
  | some handle =>
      obtain ⟨inside, empty, -⟩ := List.findIdx?_eq_some_iff_getElem.mp free
      have added : slotSet.add set item = (handle, set.set handle (some item)) := by
        simp [slotSet, free]
      have slot : set[handle]? = some none := by
        rw [List.getElem?_eq_getElem inside]
        exact congrArg some (Option.isNone_iff_eq_none.mp empty)
      rw [added]
      refine ⟨by simp [slotSet, slot], by simp [slotSet, List.getElem?_set_self inside], ?_⟩
      intro other different
      simp [slotSet, List.getElem?_set_ne different.symm]
  | none =>
      have added : slotSet.add set item = (set.length, set ++ [some item]) := by
        simp [slotSet, free]
      rw [added]
      refine ⟨by simp [slotSet], by simp [slotSet], fun other different => ?_⟩
      rcases Nat.lt_or_gt_of_ne different with inside | outside
      · simp [slotSet, List.getElem?_append_left inside]
      · have none : (set ++ [some item])[other]? = none :=
          List.getElem?_eq_none (by rw [List.length_append, List.length_singleton]; omega)
        simp [slotSet, none, List.getElem?_eq_none (Nat.le_of_lt outside)]

end SlotSet

theorem slotSet_lawful : slotSet.Lawful where
  endpoint_new := rfl
  endpoint_close _ := rfl
  bind_some := by
    intro current opened endpoint done
    simp only [slotSet] at done
    split at done
    · cases done
    · rename_i chosen
      split at done
      · cases done
      · cases done
        exact ⟨chosen, rfl⟩
  bind_closed := by
    intro current endpoint closed chosen
    have closed : current.port = 0 := closed
    exact ⟨endpoint, by simp [slotSet, closed, chosen]⟩
  get_empty _ := rfl
  get_fresh set item := (SlotSet.changes_add set item).1
  add set item := (SlotSet.changes_add set item).2
  put found item := SlotSet.changes_set found (some item)
  remove found := SlotSet.changes_set found none
  mem_iter set handle item := by
    simp only [slotSet, List.mem_filterMap, Option.map_eq_some_iff]
    constructor
    · rintro ⟨⟨slot, place⟩, member, found, rfl, same⟩
      cases same
      rw [List.mk_mem_zipIdx_iff_getElem?.mp member]
      rfl
    · intro found
      refine ⟨(some item, handle), ?_, item, rfl, rfl⟩
      exact List.mk_mem_zipIdx_iff_getElem?.mpr (Option.join_eq_some_iff.mp found)

namespace UdpNet

/-- A socket that is bound to 10.0.0.1:5000, and a new one. -/
def twoSockets : UdpNet Nat (List (Option (AnySocket IpListenEndpoint))) :=
  let start : UdpNet Nat (List (Option (AnySocket IpListenEndpoint))) :=
    ⟨[], fun _ => none, PORT_START⟩
  ((start.new slotSet 0).opened slotSet 0 ⟨0, none, false⟩ ⟨0x0a000001, 5000⟩
    ⟨some 0x0a000001, 5000⟩).new slotSet 1

theorem twoSockets_reachable : Reachable slotSet twoSockets := by
  have start : Reachable slotSet ⟨[], fun _ => none, PORT_START⟩ :=
    Transition.Reachable.start ⟨rfl, fun _ => rfl, rfl⟩
  have first := start.next (.new 0 rfl)
  have bound := first.next (.bind 0 ⟨0, none, false⟩ ⟨0x0a000001, 5000⟩ rfl rfl)
  exact bound.next (.new 1 rfl)

theorem twoSockets_bound {endpoint : IpListenEndpoint}
    : twoSockets.Bound slotSet endpoint ↔ endpoint = ⟨some 0x0a000001, 5000⟩ := by
  constructor
  · rintro ⟨⟨handle, udp, found, rfl⟩, opened⟩
    match handle, found with
    | 0, found =>
        cases found
        rfl
    | 1, found =>
        cases found
        exact absurd rfl opened
  · rintro rfl
    exact ⟨⟨0, _, rfl, rfl⟩, by decide⟩

/-- A bind to the endpoint of another socket is refused. -/
theorem detectsConflicts_same_endpoint
    : twoSockets.DetectsConflicts slotSet 1 ⟨1, none, false⟩ ⟨0x0a000001, 5000⟩ := by
  have used : twoSockets.AddressUsed slotSet 0x0a000001 := ⟨_, twoSockets_bound.mpr rfl, rfl⟩
  refine (detectsConflicts_iff slotSet_lawful twoSockets_reachable rfl rfl rfl _).mpr
    ⟨?_, ?_, ?_, ?_⟩
  · exact fun zero => absurd zero (by decide)
  · exact fun _ _ => ⟨_, twoSockets_bound.mpr rfl, rfl, .inr (.inr rfl)⟩
  · exact fun _ _ _ _ _ => used
  · exact fun any => absurd any (by decide)

/-- A bind to another port of the address is refused, too. -/
theorem other_port_refused
    : ¬ ∀ net s socket localAddr, Reachable slotSet net → net.sockets s = some socket →
        socket.localAddr = none → socket.reuseAddr = false →
        net.DetectsConflicts slotSet s socket localAddr := by
  intro detects
  have detected := detects twoSockets 1 ⟨1, none, false⟩ ⟨0x0a000001, 6000⟩ twoSockets_reachable
    rfl rfl rfl
  obtain ⟨endpoint, bound, conflict⟩ := detected.refused.mp ⟨_, rfl⟩
  cases twoSockets_bound.mp bound
  exact absurd conflict.1 (by decide)

end UdpNet

end RCoreOS.Axnet
