import RCoreOS.DriverVirtio.Slots
import RCoreOS.Lib.Transition

/-! Who has the buffers of the network driver in the course of a run: the pool, the slots of the two
directions, the free transmit buffers or the network stack.
-/

namespace RCoreOS.DriverVirtio

open DriverNet
open TokenQueue (row)

variable {D : Type} {QS : Nat} {raw : VirtIONetRaw D} {lawful : raw.Lawful}

/-- The driver with the buffers that the network stack has, which are received ones and prepared
ones to transmit, and the packets as they were delivered and edited, by the places of their
buffers. The counters are those of the frames without a whole header and of the allocations of more
than a buffer.
-/
structure World (D : Type) (QS : Nat) where
  dev : VirtIoNetDev D QS
  received : List NetBufPtr
  prepared : List NetBufPtr
  contents : Nat → List UInt8
  short : Nat
  oversized : Nat

namespace World

def memory (w : World D QS) : ByteMemory :=
  w.dev.bufPool.pool

/-- The world with the bytes written to the pool. -/
def write (w : World D QS) (start : Nat) (bytes : List UInt8) : World D QS :=
  { w with dev := { w.dev with
      bufPool := { w.dev.bufPool with pool := w.memory.write start bytes } } }

/-- The buffers for transmitting, which have a header. -/
def txBufs (w : World D QS) : List NetBuf :=
  row QS w.dev.txBuffers ++ (w.dev.freeTxBufs ++ w.prepared.map NetBufPtr.rawPtr)

/-- The buffers that the device does not write to. -/
def guarded (w : World D QS) : List NetBuf :=
  w.received.map NetBufPtr.rawPtr ++ w.txBufs

/-- All buffers that are not in the pool. -/
def buffers (w : World D QS) : List NetBuf :=
  row QS w.dev.rxBuffers ++ w.guarded

/-- The places of the buffers in the pool and of those that are not. -/
def places (w : World D QS) : List Nat :=
  w.dev.bufPool.freeList ++ w.buffers.map NetBuf.poolOffset

/-- What the driver, the network stack and the device do. The stack gives back what it has
received, transmits what it has prepared, and writes to the packets that it has. The device writes
to the receive buffers that it has, and may complete any buffer.
-/
inductive Step (lawful : raw.Lawful) : World D QS → World D QS → Prop where
  | received {w : World D QS} {ptr : NetBufPtr} {dev : VirtIoNetDev D QS}
    : w.dev.receive raw = some (.ok ptr, dev)
      → Step lawful w { w with
        dev, received := ptr :: w.received,
        contents := Function.update w.contents ptr.rawPtr.poolOffset
          (dev.bufPool.pool.read ptr.packet) }
  | notReceived {w : World D QS} {e : DevError} {dev : VirtIoNetDev D QS}
    : w.dev.receive raw = some (.error e, dev)
      → Step lawful w { w with dev, short := if e = .again then w.short else w.short + 1 }
  | recycleRx {w : World D QS} {ptr : NetBufPtr} {rest : List NetBufPtr} {result : DevResult Unit}
      {dev : VirtIoNetDev D QS}
    : w.received.Perm (ptr :: rest) → w.dev.recycleRxBuffer raw ptr = some (result, dev)
      → Step lawful w { w with dev, received := rest }
  | recycleTx {w : World D QS} {result : DevResult Unit} {dev : VirtIoNetDev D QS}
    : w.dev.recycleTxBuffers raw (QS + 1) = some (result, dev) → Step lawful w { w with dev }
  | transmit {w : World D QS} {ptr : NetBufPtr} {rest : List NetBufPtr} {result : DevResult Unit}
      {dev : VirtIoNetDev D QS}
    : w.prepared.Perm (ptr :: rest) → w.dev.transmit raw ptr = some (result, dev)
      → Step lawful w { w with dev, prepared := rest }
  | allocated {w : World D QS} {size : Nat} {ptr : NetBufPtr} {dev : VirtIoNetDev D QS}
    : w.dev.allocTxBuffer size = some (.ok ptr, dev)
      → Step lawful w { w with
        dev, prepared := ptr :: w.prepared,
        contents := Function.update w.contents ptr.rawPtr.poolOffset
          (dev.bufPool.pool.read ptr.packet) }
  | notAllocated {w : World D QS} {size : Nat} {e : DevError} {dev : VirtIoNetDev D QS}
    : w.dev.allocTxBuffer size = some (.error e, dev)
      → Step lawful w { w with
        dev, oversized := if e = .noMemory then w.oversized else w.oversized + 1 }
  | edit {w : World D QS} {ptr : NetBufPtr} {pos : Nat} {bytes : List UInt8}
    : ptr ∈ w.received ++ w.prepared → pos + bytes.length ≤ ptr.len
      → Step lawful w { w.write (ptr.bufPtr + pos) bytes with
        contents := Function.update w.contents ptr.rawPtr.poolOffset
          ((w.contents ptr.rawPtr.poolOffset).patch pos bytes) }
  | deviceWrites {w : World D QS} {token pos : Nat} {extent : Extent} {bytes : List UInt8}
    : (lawful.rx w.dev.inner).posted token = some extent → pos + bytes.length ≤ extent.size
      → Step lawful w (w.write (extent.start + pos) bytes)
  | deviceMoves {w : World D QS} {inner : D}
    : lawful.rx inner = lawful.rx w.dev.inner → lawful.tx inner = lawful.tx w.dev.inner
      → Step lawful w { w with dev := { w.dev with inner } }

/-- The driver was just created over a device with empty queues. -/
structure Started (lawful : raw.Lawful) (w : World D QS) : Prop where
  created : ∃ inner, VirtIoNetDev.tryNew raw inner = some (.ok w.dev)
    ∧ lawful.rx inner = .empty QS ∧ lawful.tx inner = .empty QS
  received : w.received = []
  prepared : w.prepared = []
  short : w.short = 0
  oversized : w.oversized = 0
  contents : ∀ buf ∈ w.dev.freeTxBufs, w.contents buf.poolOffset = []

def Reachable (lawful : raw.Lawful) (w : World D QS) : Prop :=
  Transition.Reachable (Started lawful) (Step lawful) w

-----------------------------------------------------------------------------------------
-- The invariant
-----------------------------------------------------------------------------------------

/-- Every buffer of the pool is at one place, the packets are what the stack was given and has
written, and no buffer gets lost but by the errors that are counted.
-/
structure Sound (lawful : raw.Lawful) (w : World D QS) : Prop where
  mirrors : VirtIoNetDev.Mirrors lawful QS w.dev.inner w.dev.rxBuffers w.dev.txBuffers
  bufLen : w.dev.bufPool.bufLen = NET_BUF_LEN
  owned : w.places.Perm (NetBufPool.offsets (2 * QS) NET_BUF_LEN)
  capacity : ∀ buf ∈ w.buffers, buf.capacity = NET_BUF_LEN
  short : ∀ buf ∈ w.buffers, lawful.header.length + buf.packetLen ≤ NET_BUF_LEN
  headed : ∀ buf ∈ w.guarded, buf.headerLen = lawful.header.length
  handed : ∀ ptr ∈ w.received ++ w.prepared, ptr = ptr.rawPtr.intoBufPtr
  headers : ∀ buf ∈ w.txBufs, w.memory.read buf.header = lawful.header
  packets : ∀ buf ∈ w.guarded, w.memory.read buf.packet = w.contents buf.poolOffset
  rxCount : (row QS w.dev.rxBuffers).length + w.received.length + w.short = QS
  txCount : (row QS w.dev.txBuffers).length + w.dev.freeTxBufs.length + w.prepared.length
    + w.oversized = QS

variable {w : World D QS}

theorem guarded_of_tx {buf : NetBuf} (member : buf ∈ w.txBufs) : buf ∈ w.guarded :=
  List.mem_append_right _ member

theorem mem_buffers {buf : NetBuf} (member : buf ∈ w.guarded) : buf ∈ w.buffers :=
  List.mem_append_right _ member

theorem guarded_of_handed {ptr : NetBufPtr} (member : ptr ∈ w.received ++ w.prepared)
    : ptr.rawPtr ∈ w.guarded := by
  rcases List.mem_append.mp member with received | prepared
  · exact List.mem_append_left _ (List.mem_map_of_mem received)
  · exact guarded_of_tx (List.mem_append_right _
      (List.mem_append_right _ (List.mem_map_of_mem prepared)))

theorem Sound.fits {buf : NetBuf} (sound : w.Sound lawful) (member : buf ∈ w.guarded)
    : buf.Fits := by
  have short := sound.short buf (mem_buffers member)
  rwa [← sound.capacity buf (mem_buffers member), ← sound.headed buf member] at short

/-- The buffers of the driver and of the network stack do not overlap. -/
theorem Sound.tiled (sound : w.Sound lawful)
    : (w.buffers.map NetBuf.rawBuf).Pairwise Extent.Apart
      ∧ ∀ buf ∈ w.buffers, buf.rawBuf.Within ⟨0, 2 * QS * NET_BUF_LEN⟩ :=
  NetBufPool.offsets_apart sound.capacity ⟨_, sound.owned⟩

theorem Sound.distinct (sound : w.Sound lawful) : w.buffers.Nodup := by
  refine (List.pairwise_map.mp sound.tiled.1).imp_of_mem fun {a b} left right apart => ?_
  rintro rfl
  have size : a.rawBuf.size = NET_BUF_LEN := sound.capacity a left
  rw [Extent.Apart, Extent.stop, size, NET_BUF_LEN] at apart
  omega

theorem Sound.apart {a b : NetBuf} (sound : w.Sound lawful) (left : a ∈ w.buffers)
    (right : b ∈ w.buffers) (different : a ≠ b)
    : Extent.Apart a.rawBuf b.rawBuf := by
  have : Std.Symm fun a b : NetBuf => Extent.Apart a.rawBuf b.rawBuf :=
    ⟨fun _ _ => Extent.Apart.symm⟩
  exact (List.pairwise_map.mp sound.tiled.1).forall left right different

theorem Sound.place_ne {a b : NetBuf} (sound : w.Sound lawful) (left : a ∈ w.buffers)
    (right : b ∈ w.buffers) (different : a ≠ b)
    : a.poolOffset ≠ b.poolOffset := by
  have apart := sound.apart left right different
  have positive : 0 < NET_BUF_LEN := by decide
  exact apart.start_ne (positive.trans_eq (sound.capacity a left).symm)
    (positive.trans_eq (sound.capacity b right).symm)

/-- The device does not write to the buffers that it does not receive to. -/
theorem Sound.rx_ne {a b : NetBuf} (sound : w.Sound lawful) (left : a ∈ row QS w.dev.rxBuffers)
    (right : b ∈ w.guarded)
    : b ≠ a :=
  fun same => (List.nodup_append.mp sound.distinct).2.2 a left b right same.symm

-----------------------------------------------------------------------------------------
-- Steps that move buffers
-----------------------------------------------------------------------------------------

/-- Buffers that change hands stay as they are. -/
theorem Sound.moved {w' : World D QS} (sound : w.Sound lawful)
    (mirrors : VirtIoNetDev.Mirrors lawful QS w'.dev.inner w'.dev.rxBuffers w'.dev.txBuffers)
    (memory : w'.memory = w.memory) (bufLen : w'.dev.bufPool.bufLen = w.dev.bufPool.bufLen)
    (contents : w'.contents = w.contents) (owned : w'.places.Perm w.places)
    (receiving : ∀ buf ∈ row QS w'.dev.rxBuffers, buf ∈ w.buffers)
    (received : ∀ ptr ∈ w'.received, ptr ∈ w.received)
    (prepared : ∀ ptr ∈ w'.prepared, ptr ∈ w.prepared)
    (tx : ∀ buf ∈ w'.txBufs, buf ∈ w.txBufs)
    (rxCount : (row QS w'.dev.rxBuffers).length + w'.received.length + w'.short
      = (row QS w.dev.rxBuffers).length + w.received.length + w.short)
    (txCount : (row QS w'.dev.txBuffers).length + w'.dev.freeTxBufs.length + w'.prepared.length
        + w'.oversized
      = (row QS w.dev.txBuffers).length + w.dev.freeTxBufs.length + w.prepared.length
        + w.oversized)
    : w'.Sound lawful := by
  have guarded : ∀ buf ∈ w'.guarded, buf ∈ w.guarded := by
    intro buf member
    rcases List.mem_append.mp member with isReceived | other
    · obtain ⟨ptr, listed, rfl⟩ := List.mem_map.mp isReceived
      exact List.mem_append_left _ (List.mem_map_of_mem (received ptr listed))
    · exact guarded_of_tx (tx buf other)
  have all : ∀ buf ∈ w'.buffers, buf ∈ w.buffers := by
    intro buf member
    rcases List.mem_append.mp member with isReceiving | other
    · exact receiving buf isReceiving
    · exact mem_buffers (guarded buf other)
  constructor
  case mirrors => exact mirrors
  case bufLen => exact bufLen.trans sound.bufLen
  case owned => exact owned.trans sound.owned
  case capacity => exact fun buf member => sound.capacity buf (all buf member)
  case short => exact fun buf member => sound.short buf (all buf member)
  case headed => exact fun buf member => sound.headed buf (guarded buf member)
  case handed =>
    intro ptr member
    refine sound.handed ptr (List.mem_append.mpr ?_)
    exact (List.mem_append.mp member).imp (received ptr) (prepared ptr)
  case headers => exact fun buf member => memory ▸ sound.headers buf (tx buf member)
  case packets =>
    intro buf member
    rw [memory, contents]
    exact sound.packets buf (guarded buf member)
  case rxCount => exact rxCount.trans sound.rxCount
  case txCount => exact txCount.trans sound.txCount

/-- A buffer that the stack gives back is posted again. -/
theorem Sound.recycleRx {ptr : NetBufPtr} {rest : List NetBufPtr} (sound : w.Sound lawful)
    (parted : w.received.Perm (ptr :: rest))
    : ∃ dev, w.dev.recycleRxBuffer raw ptr = some (.ok (), dev)
      ∧ dev.txBuffers = w.dev.txBuffers ∧ Sound lawful { w with dev, received := rest } := by
  have here : ptr ∈ w.received := parted.mem_iff.mpr (List.mem_cons_self ..)
  have own : ptr.rawPtr ∈ w.guarded := guarded_of_handed (List.mem_append_left _ here)
  have lengths := parted.length_eq
  rw [List.length_cons] at lengths
  have total := sound.rxCount
  obtain ⟨token, inner, done, inside, vacant, mirrors⟩ :=
    sound.mirrors.recycleRxBuffer (sound.capacity _ (mem_buffers own)) (by omega)
  have filled : (row QS (Function.update w.dev.rxBuffers token (some ptr.rawPtr))).Perm
      (ptr.rawPtr :: row QS w.dev.rxBuffers) :=
    TokenQueue.row_fill inside vacant
  have later : ∀ other ∈ rest, other ∈ w.received :=
    fun other member => parted.mem_iff.mpr (List.mem_cons_of_mem _ member)
  refine ⟨_, done, rfl, sound.moved mirrors rfl rfl rfl ?_ ?_ later (fun _ member => member)
    (fun _ member => member) ?_ rfl⟩
  · refine List.perm_iff_count.mpr fun place => ?_
    have rows := (filled.map NetBuf.poolOffset).count_eq place
    have lists := ((parted.map NetBufPtr.rawPtr).map NetBuf.poolOffset).count_eq place
    simp only [places, buffers, guarded, txBufs, List.map_append, List.count_append, List.map_cons,
      List.count_cons] at rows lists ⊢
    omega
  · intro buf member
    rcases List.mem_cons.mp (filled.mem_iff.mp member) with rfl | before
    · exact mem_buffers own
    · exact List.mem_append_left _ before
  · have rows := filled.length_eq
    rw [List.length_cons] at rows
    simp only
    omega

/-- A prepared buffer is posted. -/
theorem Sound.transmit {ptr : NetBufPtr} {rest : List NetBufPtr} (sound : w.Sound lawful)
    (parted : w.prepared.Perm (ptr :: rest))
    : ∃ dev, w.dev.transmit raw ptr = some (.ok (), dev)
      ∧ (∀ buf ∈ row QS dev.txBuffers, buf = ptr.rawPtr ∨ buf ∈ row QS w.dev.txBuffers)
      ∧ Sound lawful { w with dev, prepared := rest } := by
  have here : ptr ∈ w.prepared := parted.mem_iff.mpr (List.mem_cons_self ..)
  have own : ptr.rawPtr ∈ w.guarded := guarded_of_handed (List.mem_append_right _ here)
  have lengths := parted.length_eq
  rw [List.length_cons] at lengths
  have total := sound.txCount
  obtain ⟨token, inner, done, inside, vacant, mirrors⟩ :=
    sound.mirrors.transmit (sound.headed _ own) (by omega)
  have filled : (row QS (Function.update w.dev.txBuffers token (some ptr.rawPtr))).Perm
      (ptr.rawPtr :: row QS w.dev.txBuffers) :=
    TokenQueue.row_fill inside vacant
  have later : ∀ other ∈ rest, other ∈ w.prepared :=
    fun other member => parted.mem_iff.mpr (List.mem_cons_of_mem _ member)
  refine ⟨_, done, fun buf member => List.mem_cons.mp (filled.mem_iff.mp member),
    sound.moved mirrors rfl rfl rfl ?_ (fun _ member => List.mem_append_left _ member)
      (fun _ member => member) later ?_ rfl ?_⟩
  · refine List.perm_iff_count.mpr fun place => ?_
    have rows := (filled.map NetBuf.poolOffset).count_eq place
    have lists := ((parted.map NetBufPtr.rawPtr).map NetBuf.poolOffset).count_eq place
    simp only [places, buffers, guarded, txBufs, List.map_append, List.count_append, List.map_cons,
      List.count_cons] at rows lists ⊢
    omega
  · intro buf member
    rcases List.mem_append.mp member with posted | other
    · rcases List.mem_cons.mp (filled.mem_iff.mp posted) with rfl | before
      · exact List.mem_append_right _ (List.mem_append_right _ (List.mem_map_of_mem here))
      · exact List.mem_append_left _ before
    · rcases List.mem_append.mp other with free | prepared
      · exact List.mem_append_right _ (List.mem_append_left _ free)
      · obtain ⟨next, isRest, rfl⟩ := List.mem_map.mp prepared
        exact List.mem_append_right _ (List.mem_append_right _
          (List.mem_map_of_mem (later next isRest)))
  · have rows := filled.length_eq
    rw [List.length_cons] at rows
    simp only
    omega

/-- Completed buffers become free. -/
theorem Sound.recycleTx (sound : w.Sound lawful)
    : ∃ dev, w.dev.recycleTxBuffers raw (QS + 1) = some (.ok (), dev)
      ∧ (∀ buf ∈ row QS dev.txBuffers, buf ∈ row QS w.dev.txBuffers)
      ∧ Sound lawful { w with dev } := by
  have total := sound.txCount
  obtain ⟨inner, txBuffers, freeTxBufs, done, mirrors, moved, kept⟩ :=
    sound.mirrors.recycleTxBuffers (show (row QS w.dev.txBuffers).length < QS + 1 by omega)
  refine ⟨_, done, fun buf member => ?_, sound.moved mirrors rfl rfl rfl ?_
    (fun _ member => List.mem_append_left _ member) (fun _ member => member)
    (fun _ member => member) ?_ rfl ?_⟩
  · obtain ⟨token, inside, here⟩ := TokenQueue.mem_row.mp member
    exact TokenQueue.mem_row.mpr ⟨token, inside, kept token buf here⟩
  · refine List.perm_iff_count.mpr fun place => ?_
    have lists := (moved.map NetBuf.poolOffset).count_eq place
    simp only [places, buffers, guarded, txBufs, List.map_append, List.count_append] at lists ⊢
    omega
  · intro buf member
    have same := (moved.append_right (w.prepared.map NetBufPtr.rawPtr)).mem_iff (a := buf)
    rw [List.append_assoc, List.append_assoc] at same
    exact same.mp member
  · have lengths := moved.length_eq
    rw [List.length_append, List.length_append] at lengths
    simp only
    omega

/-- A buffer that is dropped goes to the pool. -/
theorem Sound.dealloc {buf : NetBuf} (sound : w.Sound lawful) (member : buf ∈ w.buffers)
    : w.dev.bufPool.dealloc buf.poolOffset
      = some { w.dev.bufPool with freeList := w.dev.bufPool.freeList ++ [buf.poolOffset] } := by
  have place : buf.poolOffset ∈ NetBufPool.offsets (2 * QS) NET_BUF_LEN :=
    sound.owned.mem_iff.mp (List.mem_append_right _ (List.mem_map_of_mem member))
  obtain ⟨i, -, isPlace⟩ := List.mem_map.mp place
  have aligned : buf.poolOffset % w.dev.bufPool.bufLen = 0 := by
    rw [sound.bufLen, ← isPlace, Nat.mul_mod_left]
  rw [NetBufPool.dealloc, if_pos aligned]

/-- A buffer that goes to the stack gets new lengths, and its packet is what it has been. -/
theorem Sound.taken {w' : World D QS} {buf : NetBuf} (buf' : NetBuf) (sound : w.Sound lawful)
    (member : buf ∈ w.buffers) (place : buf'.poolOffset = buf.poolOffset)
    (capacity : buf'.capacity = buf.capacity) (headed : buf'.headerLen = lawful.header.length)
    (short : lawful.header.length + buf'.packetLen ≤ NET_BUF_LEN)
    (mirrors : VirtIoNetDev.Mirrors lawful QS w'.dev.inner w'.dev.rxBuffers w'.dev.txBuffers)
    (memory : w'.memory = w.memory) (bufLen : w'.dev.bufPool.bufLen = w.dev.bufPool.bufLen)
    (contents : w'.contents
      = Function.update w.contents buf'.poolOffset (w.memory.read buf'.packet))
    (owned : w'.places.Perm w.places)
    (receiving : ∀ other ∈ row QS w'.dev.rxBuffers, other ∈ row QS w.dev.rxBuffers)
    (guarded : ∀ other ∈ w'.guarded, other = buf' ∨ other ∈ w.guarded ∧ other ≠ buf)
    (tx : ∀ other ∈ w'.txBufs, other ∈ w.txBufs ∨ other = buf' ∧ buf ∈ w.txBufs)
    (handed : ∀ ptr ∈ w'.received ++ w'.prepared,
      ptr = buf'.intoBufPtr ∨ ptr ∈ w.received ++ w.prepared)
    (rxCount : (row QS w'.dev.rxBuffers).length + w'.received.length + w'.short
      = (row QS w.dev.rxBuffers).length + w.received.length + w.short)
    (txCount : (row QS w'.dev.txBuffers).length + w'.dev.freeTxBufs.length + w'.prepared.length
        + w'.oversized
      = (row QS w.dev.txBuffers).length + w.dev.freeTxBufs.length + w.prepared.length
        + w.oversized)
    : w'.Sound lawful := by
  have all : ∀ other ∈ w'.buffers, other = buf' ∨ other ∈ w.buffers := by
    intro other isOther
    rcases List.mem_append.mp isOther with isReceiving | isGuarded
    · exact .inr (List.mem_append_left _ (receiving other isReceiving))
    · exact (guarded other isGuarded).imp id fun before => mem_buffers before.1
  constructor
  case mirrors => exact mirrors
  case bufLen => exact bufLen.trans sound.bufLen
  case owned => exact owned.trans sound.owned
  case capacity =>
    intro other isOther
    rcases all other isOther with rfl | before
    · exact capacity.trans (sound.capacity buf member)
    · exact sound.capacity other before
  case short =>
    intro other isOther
    rcases all other isOther with rfl | before
    · exact short
    · exact sound.short other before
  case headed =>
    intro other isOther
    rcases guarded other isOther with rfl | ⟨before, -⟩
    · exact headed
    · exact sound.headed other before
  case handed =>
    intro ptr isPtr
    rcases handed ptr isPtr with rfl | before
    · rfl
    · exact sound.handed ptr before
  case headers =>
    intro other isOther
    rw [memory]
    rcases tx other isOther with before | ⟨rfl, before⟩
    · exact sound.headers other before
    · have header := sound.headers buf before
      rwa [NetBuf.header, sound.headed buf (guarded_of_tx before), ← headed, ← place] at header
  case packets =>
    intro other isOther
    rw [memory, contents]
    rcases guarded other isOther with rfl | ⟨before, different⟩
    · rw [Function.update_self]
    · have elsewhere := sound.place_ne (mem_buffers before) member different
      rw [← place] at elsewhere
      rw [Function.update_of_ne elsewhere]
      exact sound.packets other before
  case rxCount => exact rxCount.trans sound.rxCount
  case txCount => exact txCount.trans sound.txCount

/-- Nothing has come in, or the device has written less than a header and the buffer is dropped, or
the buffer goes to the stack.
-/
theorem Sound.receive (sound : w.Sound lawful)
    : (∃ dev, w.dev.receive raw = some (.error .again, dev)
        ∧ dev.txBuffers = w.dev.txBuffers ∧ Sound lawful { w with dev })
      ∨ (∃ dev, w.dev.receive raw = some (.error .io, dev)
        ∧ dev.txBuffers = w.dev.txBuffers ∧ Sound lawful { w with dev, short := w.short + 1 })
      ∨ ∃ ptr dev, w.dev.receive raw = some (.ok ptr, dev)
        ∧ dev.txBuffers = w.dev.txBuffers ∧ dev.freeTxBufs = w.dev.freeTxBufs
        ∧ Sound lawful { w with
            dev, received := ptr :: w.received,
            contents := Function.update w.contents ptr.rawPtr.poolOffset
              (dev.bufPool.pool.read ptr.packet) } := by
  rcases sound.mirrors.receive with ⟨inner, done, mirrors⟩ |
    ⟨token, buf, inner, inside, here, mirrors, outcome⟩
  · exact .inl ⟨_, done, rfl, sound.moved mirrors rfl rfl rfl .rfl
      (fun _ member => List.mem_append_left _ member) (fun _ member => member)
      (fun _ member => member) (fun _ member => member) rfl rfl⟩
  have emptied := TokenQueue.row_vacate inside here
  have slot : buf ∈ row QS w.dev.rxBuffers := emptied.mem_iff.mpr (List.mem_cons_self ..)
  have member : buf ∈ w.buffers := List.mem_append_left _ slot
  have still : ∀ other ∈ row QS (Function.update w.dev.rxBuffers token none),
      other ∈ row QS w.dev.rxBuffers :=
    fun other later => emptied.mem_iff.mpr (List.mem_cons_of_mem _ later)
  have rows := emptied.length_eq
  rw [List.length_cons] at rows
  have total := sound.rxCount
  rcases outcome with dropped | ⟨len, fits, done⟩
  · rw [VirtIoNetDev.dropBuf, sound.dealloc member] at dropped
    refine .inr (.inl ⟨_, dropped, rfl, sound.moved mirrors rfl rfl rfl ?_
      (fun other later => List.mem_append_left _ (still other later)) (fun _ member => member)
      (fun _ member => member) (fun _ member => member) ?_ rfl⟩)
    · refine List.perm_iff_count.mpr fun place => ?_
      have counts := (emptied.map NetBuf.poolOffset).count_eq place
      simp only [places, buffers, guarded, txBufs, List.map_append, List.count_append,
        List.map_cons, List.count_cons, List.count_nil] at counts ⊢
      omega
    · simp only
      omega
  · have capacity := sound.capacity buf member
    have short := sound.short buf member
    rw [capacity] at fits
    rw [NetBuf.setHeaderLen, if_pos (by omega), Option.bind_some, NetBuf.setPacketLen,
      if_pos (by simp only; omega), Option.map_some] at done
    refine .inr (.inr ⟨_, _, done, rfl, rfl, sound.taken
      ⟨lawful.header.length, len, buf.capacity, buf.poolOffset⟩ member rfl rfl rfl fits mirrors rfl
      rfl rfl ?_ still ?_ (fun _ tx => .inl tx) (fun _ handed => List.mem_cons.mp handed) ?_ rfl⟩)
    · refine List.perm_iff_count.mpr fun place => ?_
      have counts := (emptied.map NetBuf.poolOffset).count_eq place
      simp only [places, buffers, guarded, txBufs, List.map_append, List.count_append,
        List.map_cons, List.count_cons, NetBuf.intoBufPtr] at counts ⊢
      omega
    · intro other isOther
      exact (List.mem_cons.mp isOther).imp id fun before => ⟨before, sound.rx_ne slot before⟩
    · simp only [List.length_cons]
      omega

/-- No buffer is free, or the sum of the lengths overflows, or the packet is too large and the
buffer is dropped, or the buffer goes to the stack.
-/
theorem Sound.allocTx (size : Nat) (sound : w.Sound lawful)
    : (w.dev.freeTxBufs = [] ∧ w.dev.allocTxBuffer size = some (.error .noMemory, w.dev))
      ∨ (2 ^ 64 ≤ lawful.header.length + size ∧ w.dev.allocTxBuffer size = none)
      ∨ (w.dev.freeTxBufs ≠ [] ∧ NET_BUF_LEN < lawful.header.length + size
        ∧ ∃ dev, w.dev.allocTxBuffer size = some (.error .invalidParam, dev)
          ∧ Sound lawful { w with dev, oversized := w.oversized + 1 })
      ∨ (w.dev.freeTxBufs ≠ [] ∧ lawful.header.length + size ≤ NET_BUF_LEN
        ∧ ∃ ptr dev, w.dev.allocTxBuffer size = some (.ok ptr, dev) ∧ ptr.len = size
          ∧ dev.txBuffers = w.dev.txBuffers ∧ Sound lawful { w with
              dev, prepared := ptr :: w.prepared,
              contents := Function.update w.contents ptr.rawPtr.poolOffset
                (dev.bufPool.pool.read ptr.packet) }) := by
  rcases List.eq_nil_or_concat' w.dev.freeTxBufs with none | ⟨free, buf, isFree⟩
  · refine .inl ⟨none, ?_⟩
    rw [VirtIoNetDev.allocTxBuffer, none]
    rfl
  have freed : w.dev.freeTxBufs.Perm (buf :: free) := isFree ▸ List.perm_append_singleton buf free
  have tx : buf ∈ w.txBufs :=
    List.mem_append_right _ (List.mem_append_left _ (freed.mem_iff.mpr (List.mem_cons_self ..)))
  have still : ∀ other ∈ free, other ∈ w.dev.freeTxBufs :=
    fun other member => freed.mem_iff.mpr (List.mem_cons_of_mem _ member)
  have member := mem_buffers (guarded_of_tx tx)
  have headed := sound.headed buf (guarded_of_tx tx)
  have capacity := sound.capacity buf member
  have nonempty : w.dev.freeTxBufs ≠ [] := by simp [isFree]
  have lengths := freed.length_eq
  rw [List.length_cons] at lengths
  have total := sound.txCount
  rcases Nat.lt_or_ge (lawful.header.length + size) (2 ^ 64) with small | overflow
  swap
  · refine .inr (.inl ⟨overflow, ?_⟩)
    rw [VirtIoNetDev.allocTxBuffer, isFree, List.getLast?_concat]
    exact if_pos (headed ▸ overflow)
  have done := VirtIoNetDev.allocTxBuffer_snoc isFree (headed ▸ small)
  rw [headed, capacity] at done
  rcases Nat.lt_or_ge NET_BUF_LEN (lawful.header.length + size) with large | fits
  · rw [if_pos large, VirtIoNetDev.dropBuf, sound.dealloc member] at done
    refine .inr (.inr (.inl ⟨nonempty, large, _, done, sound.moved sound.mirrors rfl rfl rfl ?_
      (fun _ member => List.mem_append_left _ member) (fun _ member => member)
      (fun _ member => member) ?_ rfl ?_⟩))
    · refine List.perm_iff_count.mpr fun place => ?_
      have counts := (freed.map NetBuf.poolOffset).count_eq place
      simp only [places, buffers, guarded, txBufs, List.map_append, List.count_append,
        List.map_cons, List.count_cons, List.count_nil] at counts ⊢
      omega
    · intro other isOther
      rcases List.mem_append.mp isOther with posted | others
      · exact List.mem_append_left _ posted
      · exact List.mem_append_right _ (List.mem_append.mpr
          ((List.mem_append.mp others).imp (still other) id))
    · simp only
      omega
  · rw [if_neg (Nat.not_lt_of_le fits)] at done
    have whole : w.guarded.Perm (buf :: (w.received.map NetBufPtr.rawPtr
        ++ (row QS w.dev.txBuffers ++ (free ++ w.prepared.map NetBufPtr.rawPtr)))) := by
      refine List.perm_iff_count.mpr fun other => ?_
      have counts := freed.count_eq other
      simp only [guarded, txBufs, List.count_append, List.count_cons] at counts ⊢
      omega
    have fresh := (List.nodup_cons.mp
      (whole.nodup_iff.mp (List.nodup_append.mp sound.distinct).2.1)).1
    refine .inr (.inr (.inr ⟨nonempty, fits, _, _, done, rfl, rfl, sound.taken
      ⟨lawful.header.length, size, NET_BUF_LEN, buf.poolOffset⟩ member rfl capacity.symm rfl fits
      sound.mirrors rfl rfl rfl ?_ (fun _ member => member) ?_ ?_ ?_ rfl ?_⟩))
    · refine List.perm_iff_count.mpr fun place => ?_
      have counts := (freed.map NetBuf.poolOffset).count_eq place
      simp only [places, buffers, guarded, txBufs, List.map_append, List.count_append,
        List.map_cons, List.count_cons, NetBuf.intoBufPtr] at counts ⊢
      omega
    · intro other isOther
      have cases : other = ⟨lawful.header.length, size, NET_BUF_LEN, buf.poolOffset⟩
          ∨ other ∈ w.received.map NetBufPtr.rawPtr
            ++ (row QS w.dev.txBuffers ++ (free ++ w.prepared.map NetBufPtr.rawPtr)) := by
        simp only [guarded, txBufs, List.map_cons, List.mem_append, List.mem_cons,
          NetBuf.intoBufPtr] at isOther ⊢
        tauto
      refine cases.imp id fun before => ⟨whole.mem_iff.mpr (List.mem_cons_of_mem _ before), ?_⟩
      rintro rfl
      exact fresh before
    · intro other isOther
      rcases List.mem_append.mp isOther with posted | others
      · exact .inl (List.mem_append_left _ posted)
      · rcases List.mem_append.mp others with isFree | prepared
        · exact .inl (List.mem_append_right _ (List.mem_append_left _ (still other isFree)))
        · rcases List.mem_cons.mp prepared with rfl | before
          · exact .inr ⟨rfl, tx⟩
          · exact .inl (List.mem_append_right _ (List.mem_append_right _ before))
    · intro ptr isPtr
      rcases List.mem_append.mp isPtr with received | prepared
      · exact .inr (List.mem_append_left _ received)
      · exact (List.mem_cons.mp prepared).imp id fun before => List.mem_append_right _ before
    · simp only [List.length_cons]
      omega

-----------------------------------------------------------------------------------------
-- Steps that write
-----------------------------------------------------------------------------------------

/-- What is written to a buffer does not change the others. -/
theorem Sound.read_write {buf other : NetBuf} {start : Nat} {bytes : List UInt8} {e : Extent}
    (sound : w.Sound lawful) (member : buf ∈ w.buffers) (isOther : other ∈ w.buffers)
    (different : other ≠ buf) (inside : Extent.Within ⟨start, bytes.length⟩ buf.rawBuf)
    (part : e.Within other.rawBuf)
    : (w.memory.write start bytes).read e = w.memory.read e :=
  ByteMemory.read_write_apart ((sound.apart isOther member different).mono part inside)

theorem Sound.edit {ptr : NetBufPtr} {pos : Nat} {bytes : List UInt8} (sound : w.Sound lawful)
    (handed : ptr ∈ w.received ++ w.prepared) (fits : pos + bytes.length ≤ ptr.len)
    : Sound lawful { w.write (ptr.bufPtr + pos) bytes with
        contents := Function.update w.contents ptr.rawPtr.poolOffset
          ((w.contents ptr.rawPtr.poolOffset).patch pos bytes) } := by
  have own := guarded_of_handed handed
  have isPtr := sound.handed ptr handed
  have start : ptr.bufPtr = ptr.rawPtr.packet.start := by rw [isPtr]; rfl
  have len : ptr.len = ptr.rawPtr.packetLen := by rw [isPtr]; rfl
  rw [start]
  rw [len] at fits
  have written : Extent.Within ⟨ptr.rawPtr.packet.start + pos, bytes.length⟩ ptr.rawPtr.packet :=
    ⟨Nat.le_add_right .., by simp only [Extent.stop, NetBuf.packet]; omega⟩
  have inside := written.trans (sound.fits own).packet_within
  exact {
    mirrors := sound.mirrors
    bufLen := sound.bufLen
    owned := sound.owned
    capacity := sound.capacity
    short := sound.short
    headed := sound.headed
    handed := sound.handed
    headers := by
      intro buf isTx
      have isGuarded := guarded_of_tx isTx
      refine .trans ?_ (sound.headers buf isTx)
      by_cases same : buf = ptr.rawPtr
      · subst same
        exact ByteMemory.read_write_apart ((NetBuf.header_apart _).mono (.refl _) written)
      · exact sound.read_write (mem_buffers own) (mem_buffers isGuarded) same inside
          (sound.fits isGuarded).header_within
    packets := by
      intro buf isGuarded
      by_cases same : buf = ptr.rawPtr
      · subst same
        simp only [Function.update_self]
        rw [← sound.packets _ own]
        exact ByteMemory.read_write_inside fits
      · have elsewhere := sound.place_ne (mem_buffers isGuarded) (mem_buffers own) same
        simp only [Function.update_of_ne elsewhere]
        rw [← sound.packets buf isGuarded]
        exact sound.read_write (mem_buffers own) (mem_buffers isGuarded) same inside
          (sound.fits isGuarded).packet_within
    rxCount := sound.rxCount
    txCount := sound.txCount
  }

theorem Sound.deviceWrites {token pos : Nat} {extent : Extent} {bytes : List UInt8}
    (sound : w.Sound lawful) (posted : (lawful.rx w.dev.inner).posted token = some extent)
    (fits : pos + bytes.length ≤ extent.size)
    : Sound lawful (w.write (extent.start + pos) bytes) := by
  obtain ⟨buf, here, rfl⟩ :=
    Option.map_eq_some_iff.mp ((sound.mirrors.rxSlots token).trans posted)
  have slot : buf ∈ row QS w.dev.rxBuffers :=
    TokenQueue.mem_row.mpr ⟨token, sound.mirrors.rxTokens.inside posted, here⟩
  have member : buf ∈ w.buffers := List.mem_append_left _ slot
  have inside : Extent.Within ⟨buf.rawBuf.start + pos, bytes.length⟩ buf.rawBuf :=
    ⟨Nat.le_add_right .., by simp only [Extent.stop]; omega⟩
  exact {
    mirrors := sound.mirrors
    bufLen := sound.bufLen
    owned := sound.owned
    capacity := sound.capacity
    short := sound.short
    headed := sound.headed
    handed := sound.handed
    headers := by
      intro other isTx
      have isGuarded := guarded_of_tx isTx
      exact (sound.read_write member (mem_buffers isGuarded) (sound.rx_ne slot isGuarded) inside
        (sound.fits isGuarded).header_within).trans (sound.headers other isTx)
    packets := by
      intro other isGuarded
      exact (sound.read_write member (mem_buffers isGuarded) (sound.rx_ne slot isGuarded) inside
        (sound.fits isGuarded).packet_within).trans (sound.packets other isGuarded)
    rxCount := sound.rxCount
    txCount := sound.txCount
  }

theorem Sound.step {w' : World D QS} (sound : w.Sound lawful) (stepped : Step lawful w w')
    : w'.Sound lawful := by
  cases stepped with
  | received done =>
      rcases sound.receive with ⟨dev, other, -⟩ | ⟨dev, other, -⟩ | ⟨ptr, dev, same, -, -, kept⟩
      · cases done.symm.trans other
      · cases done.symm.trans other
      · cases done.symm.trans same
        exact kept
  | notReceived done =>
      rcases sound.receive with ⟨dev, same, -, kept⟩ | ⟨dev, same, -, kept⟩ | ⟨ptr, dev, other, -⟩
      · cases done.symm.trans same
        exact kept
      · cases done.symm.trans same
        exact kept
      · cases done.symm.trans other
  | recycleRx parted done =>
      obtain ⟨dev, same, -, kept⟩ := sound.recycleRx parted
      cases done.symm.trans same
      exact kept
  | recycleTx done =>
      obtain ⟨dev, same, -, kept⟩ := sound.recycleTx
      cases done.symm.trans same
      exact kept
  | transmit parted done =>
      obtain ⟨dev, same, -, kept⟩ := sound.transmit parted
      cases done.symm.trans same
      exact kept
  | @allocated size ptr dev done =>
      rcases sound.allocTx size with
        ⟨-, other⟩ | ⟨-, other⟩ | ⟨-, -, dev, other, -⟩ | ⟨-, -, ptr, dev, same, -, -, kept⟩
      · cases done.symm.trans other
      · cases done.symm.trans other
      · cases done.symm.trans other
      · cases done.symm.trans same
        exact kept
  | @notAllocated size e dev done =>
      rcases sound.allocTx size with
        ⟨-, same⟩ | ⟨-, other⟩ | ⟨-, -, dev, same, kept⟩ | ⟨-, -, ptr, dev, other, -⟩
      · cases done.symm.trans same
        exact sound
      · cases done.symm.trans other
      · cases done.symm.trans same
        exact kept
      · cases done.symm.trans other
  | edit handed fits => exact sound.edit handed fits
  | deviceWrites posted fits => exact sound.deviceWrites posted fits
  | deviceMoves rx tx =>
      refine sound.moved ⟨?_, ?_, ?_, ?_⟩ rfl rfl rfl .rfl
        (fun _ member => List.mem_append_left _ member) (fun _ member => member)
        (fun _ member => member) (fun _ member => member) rfl rfl
      · exact rx ▸ sound.mirrors.rxTokens
      · exact tx ▸ sound.mirrors.txTokens
      · exact rx ▸ sound.mirrors.rxSlots
      · exact tx ▸ sound.mirrors.txSlots

end World

end RCoreOS.DriverVirtio
