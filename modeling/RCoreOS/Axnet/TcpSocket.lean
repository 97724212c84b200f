import RCoreOS.Lib.Transition
import Mathlib.Data.List.Basic
import Mathlib.Logic.Function.Basic

/-! TCP sockets, the listen table and the socket set of the network stack, with the calls on them
as steps. Calls of different tasks are interleaved, and the states of the sockets of smoltcp change
at any time.
-/

namespace RCoreOS.Axnet

-----------------------------------------------------------------------------------------
-- Data
-----------------------------------------------------------------------------------------

structure IpEndpoint where
  addr : UInt32
  port : UInt16
deriving DecidableEq, Repr

structure IpListenEndpoint where
  addr : Option UInt32
  port : UInt16
deriving DecidableEq, Repr

def UNSPECIFIED_ENDPOINT : IpEndpoint :=
  ⟨0, 0⟩

/-- `State` of the TCP sockets of smoltcp. -/
inductive TcpState where
  | closed | listen | synSent | synReceived | established | finWait1 | finWait2 | closeWait
  | closing | lastAck | timeWait
deriving DecidableEq, Repr

/-- A TCP socket of smoltcp, with its local and remote endpoint. -/
structure SmolSocket where
  state : TcpState
  tuple : Option (IpEndpoint × IpEndpoint)
deriving DecidableEq, Repr

/-- The `STATE_` constants. -/
inductive SocketState where
  | closed | busy | connecting | connected | listening
deriving DecidableEq, Repr

/-- A socket, with its handle as an index into the socket set. -/
structure TcpSocket where
  state : SocketState
  handle : Option Nat
  localAddr : IpEndpoint
  peerAddr : IpEndpoint
deriving DecidableEq, Repr

def TcpSocket.new : TcpSocket where
  state := .closed
  handle := none
  localAddr := UNSPECIFIED_ENDPOINT
  peerAddr := UNSPECIFIED_ENDPOINT

def TcpSocket.newConnected (handle : Nat) (localAddr peerAddr : IpEndpoint) : TcpSocket where
  state := .connected
  handle := some handle
  localAddr
  peerAddr

structure ListenTableEntry where
  listenEndpoint : IpListenEndpoint
  synQueue : List Nat
deriving DecidableEq, Repr

def LISTEN_QUEUE_SIZE : Nat :=
  512

namespace ListenTableEntry

def new (listenEndpoint : IpListenEndpoint) : ListenTableEntry where
  listenEndpoint
  synQueue := []

def canAccept (entry : ListenTableEntry) (dst : UInt32) : Bool :=
  match entry.listenEndpoint.addr with
  | some addr => addr = dst
  | none => true

end ListenTableEntry

/-- `VecDeque::swap_remove_front`: the front fills the gap. -/
def swapRemoveFront {α : Type} : List α → Nat → Option (α × List α)
  | [], _ => none
  | front :: rest, 0 => some (front, rest)
  | front :: rest, idx + 1 => rest[idx]?.map fun removed => (removed, rest.set idx front)

def isConnected (sockets : Nat → Option SmolSocket) (handle : Nat) : Bool :=
  (sockets handle).any fun socket => socket.state ≠ .listen && socket.state ≠ .synReceived

/-- `ListenTable::accept` on the entry of a port: takes the first connected socket out of the
queue, with its endpoints.
-/
def ListenTableEntry.accept (sockets : Nat → Option SmolSocket) (entry : ListenTableEntry)
    : Option ((Nat × IpEndpoint × IpEndpoint) × ListenTableEntry) := do
  let idx ← entry.synQueue.findIdx? (isConnected sockets)
  let (handle, synQueue) ← swapRemoveFront entry.synQueue idx
  let tuple ← (← sockets handle).tuple
  some ((handle, tuple), { entry with synQueue })

/-- `bound_endpoint`, with the port that `get_ephemeral_port` finds. -/
def boundEndpoint (localAddr : IpEndpoint) (ephemeral : Option UInt16)
    : Option IpListenEndpoint := do
  let port ← if localAddr.port ≠ 0 then some localAddr.port else ephemeral
  some { addr := if localAddr.addr ≠ 0 then some localAddr.addr else none, port }

/-- The ports that `get_ephemeral_port` tries. -/
def IsEphemeral (port : UInt16) : Prop :=
  0xc000 ≤ port

-----------------------------------------------------------------------------------------
-- Calls
-----------------------------------------------------------------------------------------

/-- The calls of `update_state`. -/
inductive Update where
  | connect | bind | listen | shutdownStream | shutdownListener
deriving DecidableEq, Repr

namespace Update

def expect : Update → SocketState
  | .connect | .bind | .listen => .closed
  | .shutdownStream => .connected
  | .shutdownListener => .listening

def target : Update → SocketState
  | .connect => .connecting
  | .bind => .closed
  | .listen => .listening
  | .shutdownStream | .shutdownListener => .closed

end Update

/-- How far the function that is passed to `update_state` is. -/
inductive Stage where
  | start
  /-- `connect` has a handle. -/
  | handle (handle : Nat)
  /-- `connect` has a handle and an endpoint. -/
  | bound (handle : Nat) (endpoint : IpListenEndpoint)
  /-- The socket of smoltcp connects. -/
  | connecting (handle : Nat) (localEndpoint remoteEndpoint : IpEndpoint)
  /-- `listen` has written its port. -/
  | entering (endpoint : IpListenEndpoint)
  /-- `shutdown` has cleared the address of a listener. -/
  | unlistening (port : UInt16)
  | finished (ok : Bool)
deriving DecidableEq, Repr

/-- Where a task is in its calls. Calls that only read are left out. -/
inductive Call where
  | idle
  | updating (s : Nat) (update : Update) (stage : Stage)
  /-- About to call `poll_connect`. -/
  | polling (s : Nat)
  /-- In `poll_connect`, about to clear the addresses and to store `STATE_CLOSED`. -/
  | clearing (s : Nat)
  /-- In `poll_connect`, about to store a state. -/
  | storing (s : Nat) (state : SocketState)
  /-- In `accept`, about to read the port. -/
  | accepting (s : Nat)
  | acceptingOn (s : Nat) (port : UInt16)
deriving DecidableEq, Repr

/-- The socket a call borrows. -/
def Call.socket : Call → Option Nat
  | .idle => none
  | .updating s _ _ | .polling s | .clearing s | .storing s _ | .accepting s
  | .acceptingOn s _ => some s

/-- The sockets by their identity, the table by ports, the TCP sockets of the socket set by
their handles, and the calls in progress.
-/
structure Net (Task : Type) where
  sockets : Nat → Option TcpSocket
  table : UInt16 → Option ListenTableEntry
  set : Nat → Option SmolSocket
  calls : Task → Call

inductive Event (Task : Type) where
  /-- A task moves on in its call, to this point. -/
  | task (t : Task) (next : Call)
  | new (s : Nat)
  | drop (s : Nat)
  | packet (port : UInt16)
  | network (handle : Nat)

namespace Net

variable {Task : Type} [DecidableEq Task]

def init : Net Task where
  sockets _ := none
  table _ := none
  set _ := none
  calls _ := .idle

def goto (net : Net Task) (t : Task) (next : Call) : Net Task :=
  { net with calls := Function.update net.calls t next }

def put (net : Net Task) (s : Nat) (socket : Option TcpSocket) : Net Task :=
  { net with sockets := Function.update net.sockets s socket }

def putEntry (net : Net Task) (port : UInt16) (entry : Option ListenTableEntry) : Net Task :=
  { net with table := Function.update net.table port entry }

def putHandle (net : Net Task) (handle : Nat) (socket : Option SmolSocket) : Net Task :=
  { net with set := Function.update net.set handle socket }

/-- Removes the handles of a dropped entry. -/
def removeAll (net : Net Task) (handles : List Nat) : Net Task :=
  { net with set := fun handle => if handle ∈ handles then none else net.set handle }

theorem goto_calls_self (net : Net Task) (t : Task) (next : Call)
    : (net.goto t next).calls t = next :=
  Function.update_self ..

theorem goto_calls_of_ne (net : Net Task) {t t' : Task} (next : Call) (other : t' ≠ t)
    : (net.goto t next).calls t' = net.calls t' :=
  Function.update_of_ne other ..

omit [DecidableEq Task] in
theorem put_sockets_self (net : Net Task) (s : Nat) (socket : Option TcpSocket)
    : (net.put s socket).sockets s = socket :=
  Function.update_self ..

omit [DecidableEq Task] in
theorem put_sockets_of_ne (net : Net Task) {s s' : Nat} (socket : Option TcpSocket)
    (other : s' ≠ s)
    : (net.put s socket).sockets s' = net.sockets s' :=
  Function.update_of_ne other ..

/-- The parts of calls that only read what other tasks see. -/
inductive Moves (net : Net Task) : Call → Call → Prop where
  | connectHandle (s : Nat) (socket : TcpSocket) (handle : Nat)
      (live : net.sockets s = some socket) (old : socket.handle = some handle)
      : Moves net (.updating s .connect .start) (.updating s .connect (.handle handle))
  | connectBound (s : Nat) (socket : TcpSocket) (handle : Nat) (ephemeral : Option UInt16)
      (endpoint : IpListenEndpoint) (live : net.sockets s = some socket)
      (range : ∀ port ∈ ephemeral, IsEphemeral port)
      (bound : boundEndpoint socket.localAddr ephemeral = some endpoint)
      : Moves net (.updating s .connect (.handle handle))
          (.updating s .connect (.bound handle endpoint))
  | connectUnbound (s : Nat) (socket : TcpSocket) (handle : Nat)
      (live : net.sockets s = some socket)
      (unbound : boundEndpoint socket.localAddr none = none)
      : Moves net (.updating s .connect (.handle handle))
          (.updating s .connect (.finished false))
  /-- The socket of smoltcp refuses to connect. -/
  | connectRefused (s : Nat) (handle : Nat) (endpoint : IpListenEndpoint)
      : Moves net (.updating s .connect (.bound handle endpoint))
          (.updating s .connect (.finished false))
  | bindUnbound (s : Nat)
      : Moves net (.updating s .bind .start) (.updating s .bind (.finished false))
  | bindRefused (s : Nat) (socket : TcpSocket) (live : net.sockets s = some socket)
      (bound : socket.localAddr ≠ UNSPECIFIED_ENDPOINT)
      : Moves net (.updating s .bind .start) (.updating s .bind (.finished false))
  | listenUnbound (s : Nat) (socket : TcpSocket) (live : net.sockets s = some socket)
      (unbound : boundEndpoint socket.localAddr none = none)
      : Moves net (.updating s .listen .start) (.updating s .listen (.finished false))
  | listenRefused (s : Nat) (endpoint : IpListenEndpoint) (entry : ListenTableEntry)
      (taken : net.table endpoint.port = some entry)
      : Moves net (.updating s .listen (.entering endpoint))
          (.updating s .listen (.finished false))
  | poll (s : Nat) (socket : TcpSocket) (live : net.sockets s = some socket)
      (connecting : socket.state = .connecting)
      : Moves net .idle (.polling s)
  /-- The socket of smoltcp is in `SynSent`, or the poll is given up. -/
  | pollEnds (s : Nat) : Moves net (.polling s) .idle
  | pollConnected (s : Nat) (socket : TcpSocket) (handle : Nat) (smol : SmolSocket)
      (live : net.sockets s = some socket) (old : socket.handle = some handle)
      (inSet : net.set handle = some smol) (established : smol.state = .established)
      : Moves net (.polling s) (.storing s .connected)
  | pollFailed (s : Nat) (socket : TcpSocket) (handle : Nat) (smol : SmolSocket)
      (live : net.sockets s = some socket) (old : socket.handle = some handle)
      (inSet : net.set handle = some smol)
      (failed : smol.state ≠ .synSent ∧ smol.state ≠ .established)
      : Moves net (.polling s) (.clearing s)
  | accept (s : Nat) (socket : TcpSocket) (live : net.sockets s = some socket)
      (listening : socket.state = .listening)
      : Moves net .idle (.accepting s)
  | acceptPort (s : Nat) (socket : TcpSocket) (live : net.sockets s = some socket)
      : Moves net (.accepting s) (.acceptingOn s socket.localAddr.port)
  | acceptEnds (s : Nat) (port : UInt16) : Moves net (.acceptingOn s port) .idle

/-- Where a task is when it leaves `update_state`: `connect` goes on with `poll_connect`. -/
inductive Leaves (s : Nat) : Update → Bool → Call → Prop where
  | returns (update : Update) (ok : Bool) : Leaves s update ok .idle
  | blocks : Leaves s .connect true (.polling s)

inductive Step : Net Task → Event Task → Net Task → Prop where
  | move (net : Net Task) (t : Task) (next : Call) (moves : net.Moves (net.calls t) next)
      : Step net (.task t next) (net.goto t next)
  /-- `update_state` finds the state it expects. -/
  | enter (net : Net Task) (t : Task) (s : Nat) (socket : TcpSocket) (update : Update)
      (idle : net.calls t = .idle) (live : net.sockets s = some socket)
      (expected : socket.state = update.expect)
      : Step net (.task t (.updating s update .start))
          ((net.put s (some { socket with state := .busy })).goto t (.updating s update .start))
  | leave (net : Net Task) (t : Task) (s : Nat) (socket : TcpSocket) (update : Update)
      (ok : Bool) (next : Call) (here : net.calls t = .updating s update (.finished ok))
      (live : net.sockets s = some socket) (leaves : Leaves s update ok next)
      : Step net (.task t next)
          ((net.put s (some { socket with
            state := if ok then update.target else update.expect })).goto t next)
  | connectAdd (net : Net Task) (t : Task) (s : Nat) (socket : TcpSocket) (handle : Nat)
      (here : net.calls t = .updating s .connect .start)
      (live : net.sockets s = some socket) (noHandle : socket.handle = none)
      (free : net.set handle = none)
      : Step net (.task t (.updating s .connect (.handle handle)))
          ((net.putHandle handle (some ⟨.closed, none⟩)).goto t
            (.updating s .connect (.handle handle)))
  /-- The socket of smoltcp begins to connect. -/
  | connect (net : Net Task) (t : Task) (s : Nat) (handle : Nat)
      (endpoint : IpListenEndpoint) (smol : SmolSocket)
      (localEndpoint remoteEndpoint : IpEndpoint)
      (here : net.calls t = .updating s .connect (.bound handle endpoint))
      (inSet : net.set handle = some smol) (port : localEndpoint.port = endpoint.port)
      : Step net
          (.task t (.updating s .connect (.connecting handle localEndpoint remoteEndpoint)))
          ((net.putHandle handle (some ⟨.synSent, some (localEndpoint, remoteEndpoint)⟩)).goto t
            (.updating s .connect (.connecting handle localEndpoint remoteEndpoint)))
  | connectStore (net : Net Task) (t : Task) (s : Nat) (socket : TcpSocket) (handle : Nat)
      (localEndpoint remoteEndpoint : IpEndpoint)
      (here : net.calls t
        = .updating s .connect (.connecting handle localEndpoint remoteEndpoint))
      (live : net.sockets s = some socket)
      : Step net (.task t (.updating s .connect (.finished true)))
          ((net.put s (some { socket with
            localAddr := localEndpoint
            peerAddr := remoteEndpoint
            handle := some handle })).goto t (.updating s .connect (.finished true)))
  | bind (net : Net Task) (t : Task) (s : Nat) (socket : TcpSocket) (localAddr : IpEndpoint)
      (here : net.calls t = .updating s .bind .start) (live : net.sockets s = some socket)
      (unbound : socket.localAddr = UNSPECIFIED_ENDPOINT)
      : Step net (.task t (.updating s .bind (.finished true)))
          ((net.put s (some { socket with localAddr })).goto t
            (.updating s .bind (.finished true)))
  | listenBound (net : Net Task) (t : Task) (s : Nat) (socket : TcpSocket)
      (ephemeral : Option UInt16) (endpoint : IpListenEndpoint)
      (here : net.calls t = .updating s .listen .start) (live : net.sockets s = some socket)
      (range : ∀ port ∈ ephemeral, IsEphemeral port)
      (bound : boundEndpoint socket.localAddr ephemeral = some endpoint)
      : Step net (.task t (.updating s .listen (.entering endpoint)))
          ((net.put s (some { socket with
            localAddr := { socket.localAddr with port := endpoint.port } })).goto t
            (.updating s .listen (.entering endpoint)))
  | listen (net : Net Task) (t : Task) (s : Nat) (endpoint : IpListenEndpoint)
      (here : net.calls t = .updating s .listen (.entering endpoint))
      (free : net.table endpoint.port = none)
      : Step net (.task t (.updating s .listen (.finished true)))
          ((net.putEntry endpoint.port (some (.new endpoint))).goto t
            (.updating s .listen (.finished true)))
  /-- The socket of smoltcp is closed, and the address is cleared. -/
  | shutdownStream (net : Net Task) (t : Task) (s : Nat) (socket : TcpSocket) (handle : Nat)
      (smol smol' : SmolSocket) (here : net.calls t = .updating s .shutdownStream .start)
      (live : net.sockets s = some socket) (old : socket.handle = some handle)
      (inSet : net.set handle = some smol)
      : Step net (.task t (.updating s .shutdownStream (.finished true)))
          (((net.putHandle handle (some smol')).put s (some { socket with
            localAddr := UNSPECIFIED_ENDPOINT })).goto t
            (.updating s .shutdownStream (.finished true)))
  | shutdownListener (net : Net Task) (t : Task) (s : Nat) (socket : TcpSocket)
      (here : net.calls t = .updating s .shutdownListener .start)
      (live : net.sockets s = some socket)
      : Step net (.task t (.updating s .shutdownListener (.unlistening socket.localAddr.port)))
          ((net.put s (some { socket with localAddr := UNSPECIFIED_ENDPOINT })).goto t
            (.updating s .shutdownListener (.unlistening socket.localAddr.port)))
  | unlisten (net : Net Task) (t : Task) (s : Nat) (port : UInt16)
      (here : net.calls t = .updating s .shutdownListener (.unlistening port))
      : Step net (.task t (.updating s .shutdownListener (.finished true)))
          (((net.removeAll ((net.table port).map (·.synQueue) |>.getD [])).putEntry port
            none).goto t (.updating s .shutdownListener (.finished true)))
  | pollClear (net : Net Task) (t : Task) (s : Nat) (socket : TcpSocket)
      (here : net.calls t = .clearing s) (live : net.sockets s = some socket)
      : Step net (.task t (.storing s .closed))
          ((net.put s (some { socket with
            localAddr := UNSPECIFIED_ENDPOINT
            peerAddr := UNSPECIFIED_ENDPOINT })).goto t (.storing s .closed))
  | pollStore (net : Net Task) (t : Task) (s : Nat) (socket : TcpSocket) (state : SocketState)
      (here : net.calls t = .storing s state) (live : net.sockets s = some socket)
      : Step net (.task t .idle) ((net.put s (some { socket with state })).goto t .idle)
  | accept (net : Net Task) (t : Task) (s s' : Nat) (port : UInt16)
      (entry entry' : ListenTableEntry) (handle : Nat)
      (localEndpoint remoteEndpoint : IpEndpoint)
      (here : net.calls t = .acceptingOn s port) (found : net.table port = some entry)
      (accepted
        : entry.accept net.set = some ((handle, localEndpoint, remoteEndpoint), entry'))
      (fresh : net.sockets s' = none)
      : Step net (.task t .idle)
          (((net.putEntry port (some entry')).put s'
            (some (.newConnected handle localEndpoint remoteEndpoint))).goto t .idle)
  | new (net : Net Task) (s : Nat) (fresh : net.sockets s = none)
      : Step net (.new s) (net.put s (some .new))
  /-- After its `shutdown`, the drop of a socket that nobody else uses. -/
  | drop (net : Net Task) (s : Nat) (socket : TcpSocket)
      (live : net.sockets s = some socket) (unused : ∀ t, (net.calls t).socket ≠ some s)
      (shut : socket.state ≠ .connected ∧ socket.state ≠ .listening)
      : Step net (.drop s) ((net.removeAll socket.handle.toList).put s none)
  /-- `incoming_tcp_packet`. -/
  | packet (net : Net Task) (dst : IpEndpoint) (entry : ListenTableEntry) (handle : Nat)
      (found : net.table dst.port = some entry) (accepts : entry.canAccept dst.addr)
      (room : entry.synQueue.length < LISTEN_QUEUE_SIZE) (free : net.set handle = none)
      : Step net (.packet dst.port)
          ((net.putHandle handle (some ⟨.listen, none⟩)).putEntry dst.port
            (some { entry with synQueue := entry.synQueue ++ [handle] }))
  /-- A socket of smoltcp changes while the interfaces are polled. -/
  | network (net : Net Task) (handle : Nat) (smol smol' : SmolSocket)
      (inSet : net.set handle = some smol)
      : Step net (.network handle) (net.putHandle handle (some smol'))

end Net

end RCoreOS.Axnet
