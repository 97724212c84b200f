import RCoreOS.DriverNet.NetBuf
import RCoreOS.Lib.TokenQueue

/-! The network driver of the `driver_virtio` crate. The `virtio_drivers` crate below it is a
parameter, and `none` stands for a panic.
-/

namespace RCoreOS.DriverVirtio

open DriverNet

/-- `virtio_drivers::Error`, with one value for those that are not named by the driver. -/
inductive Error where
  | queueFull
  | notReady
  | wrongToken
  | alreadyUsed
  | invalidParam
  | dmaError
  | ioError
  | unsupported
  | configSpaceTooSmall
  | configSpaceMissing
  | other
deriving DecidableEq, Repr

def asDevErr : Error → DevError
  | .queueFull => .badState
  | .notReady => .again
  | .wrongToken => .badState
  | .alreadyUsed => .alreadyExists
  | .invalidParam => .invalidParam
  | .dmaError => .noMemory
  | .ioError => .io
  | .unsupported => .unsupported
  | .configSpaceTooSmall => .badState
  | .configSpaceMissing => .badState
  | .other => .badState

def NET_BUF_LEN : Nat := 1526

/-- `virtio_drivers::device::net::VirtIONetRaw`. Buffers are given by their place, and the header
that is filled in by its bytes.
-/
structure VirtIONetRaw (D : Type) where
  canSend : D → Bool
  pollReceive : D → Option Nat × D
  pollTransmit : D → Option Nat × D
  receiveBegin : D → Extent → Except Error Nat × D
  receiveComplete : D → Nat → Extent → Except Error (Nat × Nat) × D
  transmitBegin : D → Extent → Except Error Nat × D
  transmitComplete : D → Nat → Extent → Except Error Nat × D
  fillBufferHeader : Nat → Except Error (List UInt8)

structure VirtIoNetDev (D : Type) (QS : Nat) where
  rxBuffers : Nat → Option NetBuf
  txBuffers : Nat → Option NetBuf
  freeTxBufs : List NetBuf
  bufPool : NetBufPool
  inner : D

namespace VirtIoNetDev

variable {D : Type} {QS : Nat} (raw : VirtIONetRaw D)

/-- The first step of `try_new`: all receive buffers are posted. -/
def fillRxBuffers (dev : VirtIoNetDev D QS) : List Nat → Option (DevResult (VirtIoNetDev D QS))
  | [] => some (.ok dev)
  | i :: rest =>
      match dev.bufPool.alloc with
      | none => some (.error .noMemory)
      | some (rxBuf, bufPool) =>
          match raw.receiveBegin dev.inner rxBuf.rawBuf with
          | (.error e, _) => some (.error (asDevErr e))
          | (.ok token, inner) =>
              if token = i % 2 ^ 16 then
                fillRxBuffers
                  { dev with bufPool, inner,
                             rxBuffers := Function.update dev.rxBuffers i (some rxBuf) }
                  rest
              else none

/-- The second step of `try_new`: the transmit buffers are allocated and get their headers. -/
def allocTxBuffers (dev : VirtIoNetDev D QS) : Nat → Option (DevResult (VirtIoNetDev D QS))
  | 0 => some (.ok dev)
  | count + 1 =>
      match dev.bufPool.alloc with
      | none => some (.error .noMemory)
      | some (txBuf, bufPool) =>
          match raw.fillBufferHeader txBuf.capacity with
          | .error _ => some (.error .invalidParam)
          | .ok header =>
              (txBuf.setHeaderLen header.length).bind fun filled =>
                allocTxBuffers
                  { dev with
                    bufPool := { bufPool with pool := bufPool.pool.write txBuf.poolOffset header },
                    freeTxBufs := dev.freeTxBufs ++ [filled] }
                  count

def tryNew (inner : D) : Option (DevResult (VirtIoNetDev D QS)) :=
  (NetBufPool.new (2 * QS) NET_BUF_LEN).bind fun
    | .error e => some (.error e)
    | .ok bufPool =>
        (fillRxBuffers raw ⟨fun _ => none, fun _ => none, [], bufPool, inner⟩
          (List.range QS)).bind fun
            | .error e => some (.error e)
            | .ok dev => allocTxBuffers raw dev QS

/-- The drop of a buffer gives it back to the pool. -/
def dropBuf (dev : VirtIoNetDev D QS) (buf : NetBuf) : Option (VirtIoNetDev D QS) :=
  (dev.bufPool.dealloc buf.poolOffset).map fun bufPool => { dev with bufPool }

def canTransmit (dev : VirtIoNetDev D QS) : Bool :=
  !dev.freeTxBufs.isEmpty && raw.canSend dev.inner

def recycleRxBuffer (dev : VirtIoNetDev D QS) (ptr : NetBufPtr)
    : Option (DevResult Unit × VirtIoNetDev D QS) :=
  let rxBuf := NetBuf.fromBufPtr ptr
  match raw.receiveBegin dev.inner rxBuf.rawBuf with
  | (.error e, inner) => (dropBuf { dev with inner } rxBuf).map (.error (asDevErr e), ·)
  | (.ok newToken, inner) =>
      if newToken < QS then
        if (dev.rxBuffers newToken).isSome then
          (dropBuf { dev with inner } rxBuf).map (.error .badState, ·)
        else
          let rxBuffers := Function.update dev.rxBuffers newToken (some rxBuf)
          some (.ok (), { dev with inner, rxBuffers })
      else none

/-- The loop has the given number of turns at most. -/
def recycleTxBuffers
    : Nat → VirtIoNetDev D QS → Option (DevResult Unit × VirtIoNetDev D QS)
  | 0, _ => none
  | turns + 1, dev =>
      match raw.pollTransmit dev.inner with
      | (none, inner) => some (.ok (), { dev with inner })
      | (some token, inner) =>
          if token < QS then
            match dev.txBuffers token with
            | none => some (.error .badState, { dev with inner })
            | some txBuf =>
                let taken := Function.update dev.txBuffers token none
                match raw.transmitComplete inner token txBuf.packetWithHeader with
                | (.error e, inner) =>
                    (dropBuf { dev with inner, txBuffers := taken } txBuf).map
                      (.error (asDevErr e), ·)
                | (.ok _, inner) =>
                    recycleTxBuffers turns
                      { dev with inner, txBuffers := taken,
                                 freeTxBufs := dev.freeTxBufs ++ [txBuf] }
          else none

/-- A buffer that was at the place of the new one is dropped. -/
def transmit (dev : VirtIoNetDev D QS) (ptr : NetBufPtr)
    : Option (DevResult Unit × VirtIoNetDev D QS) :=
  let txBuf := NetBuf.fromBufPtr ptr
  match raw.transmitBegin dev.inner txBuf.packetWithHeader with
  | (.error e, inner) => (dropBuf { dev with inner } txBuf).map (.error (asDevErr e), ·)
  | (.ok token, inner) =>
      if token < QS then
        let placed : VirtIoNetDev D QS :=
          { dev with inner, txBuffers := Function.update dev.txBuffers token (some txBuf) }
        match dev.txBuffers token with
        | none => some (.ok (), placed)
        | some old => (dropBuf placed old).map (.ok (), ·)
      else none

def receive (dev : VirtIoNetDev D QS) : Option (DevResult NetBufPtr × VirtIoNetDev D QS) :=
  match raw.pollReceive dev.inner with
  | (none, inner) => some (.error .again, { dev with inner })
  | (some token, inner) =>
      if token < QS then
        match dev.rxBuffers token with
        | none => some (.error .badState, { dev with inner })
        | some rxBuf =>
            let taken := Function.update dev.rxBuffers token none
            match raw.receiveComplete inner token rxBuf.rawBuf with
            | (.error e, inner) =>
                (dropBuf { dev with inner, rxBuffers := taken } rxBuf).map (.error (asDevErr e), ·)
            | (.ok (hdrLen, pktLen), inner) =>
                ((rxBuf.setHeaderLen hdrLen).bind (·.setPacketLen pktLen)).map fun rxBuf =>
                  (.ok rxBuf.intoBufPtr, { dev with inner, rxBuffers := taken })
      else none

/-- The sum of the lengths must not overflow. -/
def allocTxBuffer (dev : VirtIoNetDev D QS) (size : Nat)
    : Option (DevResult NetBufPtr × VirtIoNetDev D QS) :=
  match dev.freeTxBufs.getLast? with
  | none => some (.error .noMemory, dev)
  | some netBuf =>
      let popped : VirtIoNetDev D QS := { dev with freeTxBufs := dev.freeTxBufs.dropLast }
      if 2 ^ 64 ≤ netBuf.headerLen + size then none
      else if netBuf.capacity < netBuf.headerLen + size then
        (dropBuf popped netBuf).map (.error .invalidParam, ·)
      else
        (netBuf.setPacketLen size).map fun netBuf => (.ok netBuf.intoBufPtr, popped)

end VirtIoNetDev

-----------------------------------------------------------------------------------------
-- What the device below promises
-----------------------------------------------------------------------------------------

/-- The device has a queue for each direction. As long as descriptors are free, a buffer is posted
in their order. What is polled is posted and can be completed, where a received
buffer is refused if the device has written less than a header.
-/
structure VirtIONetRaw.Lawful {D : Type} (raw : VirtIONetRaw D) where
  rx : D → TokenQueue Extent
  tx : D → TokenQueue Extent
  header : List UInt8
  header_short : header.length ≤ 12
  fill {len : Nat} : NET_BUF_LEN ≤ len → raw.fillBufferHeader len = .ok header
  pollReceive (d : D)
    : rx (raw.pollReceive d).2 = rx d ∧ tx (raw.pollReceive d).2 = tx d
      ∧ ∀ token, (raw.pollReceive d).1 = some token → ((rx d).posted token).isSome
  pollTransmit (d : D)
    : rx (raw.pollTransmit d).2 = rx d ∧ tx (raw.pollTransmit d).2 = tx d
      ∧ ∀ token, (raw.pollTransmit d).1 = some token → ((tx d).posted token).isSome
  receiveBegin_ok {d : D} {buf : Extent} {token : Nat} {q : TokenQueue Extent}
    : NET_BUF_LEN ≤ buf.size → (rx d).post buf = some (token, q)
      → ∃ d', raw.receiveBegin d buf = (.ok token, d') ∧ rx d' = q ∧ tx d' = tx d
  receiveComplete {d : D} {token : Nat} {buf : Extent}
    : (raw.pollReceive d).1 = some token → (rx d).posted token = some buf
      → ∃ result d', raw.receiveComplete (raw.pollReceive d).2 token buf = (result, d')
        ∧ rx d' = (rx d).take token ∧ tx d' = tx d
        ∧ (result = .error .ioError
          ∨ ∃ len, result = .ok (header.length, len) ∧ header.length + len ≤ buf.size)
  transmitBegin_ok {d : D} {buf : Extent} {token : Nat} {q : TokenQueue Extent}
    : header.length ≤ buf.size → (tx d).post buf = some (token, q)
      → ∃ d', raw.transmitBegin d buf = (.ok token, d') ∧ tx d' = q ∧ rx d' = rx d
  transmitComplete {d : D} {token : Nat} {buf : Extent}
    : (raw.pollTransmit d).1 = some token → (tx d).posted token = some buf
      → ∃ len d', raw.transmitComplete (raw.pollTransmit d).2 token buf = (.ok len, d')
        ∧ tx d' = (tx d).take token ∧ rx d' = rx d

end RCoreOS.DriverVirtio
