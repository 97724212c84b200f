import RCoreOS.Lib.ByteMemory

/-! The network buffers of the `driver_net` crate and the pool that they come from. The bytes of a
pool are at the offsets from its start, and `none` stands for a panic.
-/

namespace RCoreOS.DriverNet

/-- `driver_common::DevError`. -/
inductive DevError where
  | alreadyExists
  | again
  | badState
  | invalidParam
  | io
  | noMemory
  | resourceBusy
  | unsupported
deriving DecidableEq, Repr

abbrev DevResult (α : Type) : Type :=
  Except DevError α

def MIN_BUFFER_LEN : Nat := 1526

def MAX_BUFFER_LEN : Nat := 65535

/-- The buffer starts at its offset in the pool. -/
structure NetBuf where
  headerLen : Nat
  packetLen : Nat
  capacity : Nat
  poolOffset : Nat
deriving DecidableEq, Repr

/-- A buffer that is handed over, with the address and the length of its packet. -/
structure NetBufPtr where
  rawPtr : NetBuf
  bufPtr : Nat
  len : Nat
deriving DecidableEq, Repr

def NetBufPtr.packet (ptr : NetBufPtr) : Extent :=
  ⟨ptr.bufPtr, ptr.len⟩

namespace NetBuf

def header (buf : NetBuf) : Extent :=
  ⟨buf.poolOffset, buf.headerLen⟩

def packet (buf : NetBuf) : Extent :=
  ⟨buf.poolOffset + buf.headerLen, buf.packetLen⟩

def packetWithHeader (buf : NetBuf) : Extent :=
  ⟨buf.poolOffset, buf.headerLen + buf.packetLen⟩

def rawBuf (buf : NetBuf) : Extent :=
  ⟨buf.poolOffset, buf.capacity⟩

def setHeaderLen (buf : NetBuf) (headerLen : Nat) : Option NetBuf :=
  if headerLen + buf.packetLen ≤ buf.capacity then some { buf with headerLen } else none

def setPacketLen (buf : NetBuf) (packetLen : Nat) : Option NetBuf :=
  if buf.headerLen + packetLen ≤ buf.capacity then some { buf with packetLen } else none

def intoBufPtr (buf : NetBuf) : NetBufPtr :=
  ⟨buf, buf.packet.start, buf.packetLen⟩

def fromBufPtr (ptr : NetBufPtr) : NetBuf :=
  ptr.rawPtr

/-- The parts of the buffer fit into it. -/
def Fits (buf : NetBuf) : Prop :=
  buf.headerLen + buf.packetLen ≤ buf.capacity

variable {buf : NetBuf}

theorem Fits.packet_within (fits : buf.Fits) : buf.packet.Within buf.rawBuf := by
  refine ⟨Nat.le_add_right .., ?_⟩
  simp only [Extent.stop, packet, rawBuf]
  unfold Fits at fits
  omega

theorem Fits.header_within (fits : buf.Fits) : buf.header.Within buf.rawBuf :=
  .of_le ((Nat.le_add_right ..).trans fits)

/-- The header ends where the packet begins. -/
theorem header_apart (buf : NetBuf) : Extent.Apart buf.header buf.packet :=
  .inl (Nat.le_refl _)

/-- What goes over the wire is the header and the packet. -/
theorem read_packetWithHeader (m : ByteMemory) (buf : NetBuf)
    : m.read buf.packetWithHeader = m.read buf.header ++ m.read buf.packet := by
  simp only [ByteMemory.read, packetWithHeader, header, packet]
  rw [List.range_add, List.map_append, List.map_map]
  simp [Function.comp_def, Nat.add_assoc]

end NetBuf

structure NetBufPool where
  capacity : Nat
  bufLen : Nat
  pool : ByteMemory
  freeList : List Nat

namespace NetBufPool

/-- The places of all buffers of a pool. -/
def offsets (capacity bufLen : Nat) : List Nat :=
  (List.range capacity).map (· * bufLen)

/-- A vector has at most `isize::MAX` bytes. -/
def new (capacity bufLen : Nat) : Option (DevResult NetBufPool) :=
  if capacity = 0 then some (.error .invalidParam)
  else if ¬(MIN_BUFFER_LEN ≤ bufLen ∧ bufLen ≤ MAX_BUFFER_LEN) then some (.error .invalidParam)
  else if capacity * bufLen < 2 ^ 63 then
    some (.ok ⟨capacity, bufLen, fun _ => 0, offsets capacity bufLen⟩)
  else none

def alloc (pool : NetBufPool) : Option (NetBuf × NetBufPool) :=
  pool.freeList.getLast?.map fun poolOffset =>
    (⟨0, 0, pool.bufLen, poolOffset⟩, { pool with freeList := pool.freeList.dropLast })

def dealloc (pool : NetBufPool) (poolOffset : Nat) : Option NetBufPool :=
  if poolOffset % pool.bufLen = 0 then
    some { pool with freeList := pool.freeList ++ [poolOffset] }
  else none

theorem alloc_snoc {pool : NetBufPool} {rest : List Nat} {place : Nat}
    (free : pool.freeList = rest ++ [place])
    : pool.alloc = some (⟨0, 0, pool.bufLen, place⟩, { pool with freeList := rest }) := by
  rw [alloc, free, List.getLast?_concat, List.dropLast_concat]
  rfl

theorem offsets_tiled (capacity bufLen : Nat)
    : (offsets capacity bufLen).map (fun place => (⟨place, bufLen⟩ : Extent))
      = Extent.tiles 0 bufLen capacity := by
  simp [offsets, Extent.tiles, Function.comp_def, Nat.mul_comm]

/-- Whoever holds them, the buffers of a pool do not overlap. -/
theorem offsets_apart {capacity bufLen : Nat} {bufs : List NetBuf}
    (sized : ∀ buf ∈ bufs, buf.capacity = bufLen)
    (places : ∃ rest, (rest ++ bufs.map NetBuf.poolOffset).Perm (offsets capacity bufLen))
    : (bufs.map NetBuf.rawBuf).Pairwise Extent.Apart
      ∧ ∀ buf ∈ bufs, buf.rawBuf.Within ⟨0, capacity * bufLen⟩ := by
  obtain ⟨rest, perm⟩ := places
  have tiled : (((rest ++ bufs.map NetBuf.poolOffset).map fun offset =>
      (⟨offset, bufLen⟩ : Extent))).Perm (Extent.tiles 0 bufLen capacity) := by
    rw [← offsets_tiled]
    exact perm.map _
  have own : (bufs.map NetBuf.poolOffset).map (fun offset => (⟨offset, bufLen⟩ : Extent))
      = bufs.map NetBuf.rawBuf := by
    rw [List.map_map]
    refine List.map_congr_left fun buf member => ?_
    simp [NetBuf.rawBuf, sized buf member]
  rw [List.map_append, own] at tiled
  refine ⟨?_, fun buf member => ?_⟩
  · exact (List.pairwise_append.mp ((Extent.apart_perm tiled).mpr Extent.tiles_apart)).2.1
  · rw [Nat.mul_comm]
    refine Extent.tiles_within _ (tiled.mem_iff.mp ?_)
    exact List.mem_append_right _ (List.mem_map_of_mem member)

end NetBufPool

end RCoreOS.DriverNet
