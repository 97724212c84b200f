import RCoreOS.DriverVirtio.Buffers

/-! The device as the network stack sees it: `DeviceWrapper` with its receive and transmit tokens,
which unwrap whatever the driver returns.
-/

namespace RCoreOS.Axnet

open DriverNet DriverVirtio
open TokenQueue (row)

namespace DeviceWrapper

variable {D : Type} {QS : Nat} (raw : VirtIONetRaw D)

/-- `capabilities().max_transmission_unit`. -/
def MAX_TRANSMISSION_UNIT : Nat := 1514

/-- `Device::receive`, which hands out a receive token with the buffer. -/
def receive (dev : VirtIoNetDev D QS) : Option (Option NetBufPtr × VirtIoNetDev D QS) :=
  match dev.recycleTxBuffers raw (QS + 1) with
  | none => none
  | some (.error _, dev) => some (none, dev)
  | some (.ok (), dev) =>
      if dev.canTransmit raw then
        match dev.receive raw with
        | none => none
        | some (.error _, dev) => some (none, dev)
        | some (.ok rxBuf, dev) => some (some rxBuf, dev)
      else some (none, dev)

/-- `Device::transmit`, which hands out a transmit token or not. -/
def transmit (dev : VirtIoNetDev D QS) : Option (Bool × VirtIoNetDev D QS) :=
  match dev.recycleTxBuffers raw (QS + 1) with
  | none => none
  | some (.error _, dev) => some (false, dev)
  | some (.ok (), dev) => some (dev.canTransmit raw, dev)

def writePool (dev : VirtIoNetDev D QS) (start : Nat) (bytes : List UInt8) : VirtIoNetDev D QS :=
  { dev with bufPool := { dev.bufPool with pool := dev.bufPool.pool.write start bytes } }

/-- `TxToken::consume`. The stack fills the whole packet with the data. -/
def consumeTx (dev : VirtIoNetDev D QS) (data : List UInt8) : Option (VirtIoNetDev D QS) :=
  match dev.allocTxBuffer data.length with
  | some (.ok txBuf, dev) =>
      match (writePool dev txBuf.bufPtr data).transmit raw txBuf with
      | some (.ok (), dev) => some dev
      | _ => none
  | _ => none

/-- What the stack does with a packet: it may change it and may send a reply. -/
structure Handling where
  packet : List UInt8
  reply : Option (List UInt8)

/-- `RxToken::consume`. The reply is sent with the transmit token that came with the packet, and it
is returned with the device.
-/
def consumeRx (dev : VirtIoNetDev D QS) (rxBuf : NetBufPtr) (f : List UInt8 → Handling)
    : Option (Option (List UInt8) × VirtIoNetDev D QS) :=
  let handling := f (dev.bufPool.pool.read rxBuf.packet)
  let replied :=
    match handling.reply with
    | none => some dev
    | some data => consumeTx raw dev data
  replied.bind fun dev =>
    let changed := writePool dev rxBuf.bufPtr (handling.packet.take rxBuf.len)
    match changed.recycleRxBuffer raw rxBuf with
    | some (.ok (), dev) => some (handling.reply, dev)
    | _ => none

/-- The turn of the stack for a received packet, with what it has sent. -/
def ingress (dev : VirtIoNetDev D QS) (f : List UInt8 → Handling)
    : Option (Option (List UInt8) × VirtIoNetDev D QS) :=
  match receive raw dev with
  | none => none
  | some (none, dev) => some (none, dev)
  | some (some rxBuf, dev) => consumeRx raw dev rxBuf f

/-- The turn of the stack for a packet to send, with what it has sent. -/
def egress (dev : VirtIoNetDev D QS) (data : List UInt8)
    : Option (Option (List UInt8) × VirtIoNetDev D QS) :=
  match transmit raw dev with
  | none => none
  | some (false, dev) => some (none, dev)
  | some (true, dev) => (consumeTx raw dev data).map (some data, ·)

end DeviceWrapper

open DeviceWrapper

/-- The device, and all data that the stack has sent. -/
structure Traffic (D : Type) (QS : Nat) where
  dev : VirtIoNetDev D QS
  sent : List (List UInt8)

namespace Traffic

variable {D : Type} {QS : Nat} {raw : VirtIONetRaw D} {lawful : raw.Lawful}

/-- The stack replies with no more than the device announces. -/
def Modest (f : List UInt8 → Handling) : Prop :=
  ∀ packet, ∀ data ∈ (f packet).reply, data.length ≤ MAX_TRANSMISSION_UNIT

/-- The stack takes its turns. Meanwhile the device writes to its receive buffers and completes
buffers.
-/
inductive Step (lawful : raw.Lawful) : Traffic D QS → Traffic D QS → Prop where
  | ingress {s : Traffic D QS} {f : List UInt8 → Handling} {reply : Option (List UInt8)}
      {dev : VirtIoNetDev D QS}
    : Modest f → ingress raw s.dev f = some (reply, dev)
      → Step lawful s ⟨dev, reply.toList ++ s.sent⟩
  | egress {s : Traffic D QS} {data : List UInt8} {gone : Option (List UInt8)}
      {dev : VirtIoNetDev D QS}
    : data.length ≤ MAX_TRANSMISSION_UNIT → egress raw s.dev data = some (gone, dev)
      → Step lawful s ⟨dev, gone.toList ++ s.sent⟩
  | deviceWrites {s : Traffic D QS} {token pos : Nat} {extent : Extent} {bytes : List UInt8}
    : (lawful.rx s.dev.inner).posted token = some extent → pos + bytes.length ≤ extent.size
      → Step lawful s { s with dev := writePool s.dev (extent.start + pos) bytes }
  | deviceMoves {s : Traffic D QS} {inner : D}
    : lawful.rx inner = lawful.rx s.dev.inner → lawful.tx inner = lawful.tx s.dev.inner
      → Step lawful s { s with dev := { s.dev with inner } }

structure Started (lawful : raw.Lawful) (s : Traffic D QS) : Prop where
  created : ∃ inner, VirtIoNetDev.tryNew raw inner = some (.ok s.dev)
    ∧ lawful.rx inner = .empty QS ∧ lawful.tx inner = .empty QS
  sent : s.sent = []

def Reachable (lawful : raw.Lawful) (s : Traffic D QS) : Prop :=
  Transition.Reachable (Started lawful) (Step lawful) s

-----------------------------------------------------------------------------------------
-- The invariant
-----------------------------------------------------------------------------------------

/-- The packets in the slots are among the data, each once. -/
def Logged (sent : List (List UInt8)) (w : World D QS) : Prop :=
  ((row QS w.dev.txBuffers).map fun buf => w.contents buf.poolOffset).Subperm sent

/-- Between the turns, the stack has no buffers. -/
structure Quiet (lawful : raw.Lawful) (sent : List (List UInt8)) (w : World D QS) : Prop where
  sound : w.Sound lawful
  received : w.received = []
  prepared : w.prepared = []
  oversized : w.oversized = 0
  logged : Logged sent w

variable {w w' : World D QS} {sent : List (List UInt8)}

theorem slots_distinct (sound : w.Sound lawful) : (row QS w.dev.txBuffers).Nodup := by
  have guarded := (List.nodup_append.mp sound.distinct).2.1
  exact (List.nodup_append.mp (List.nodup_append.mp guarded).2.1).1

theorem subperm_map {α β : Type} {f : α → β} {xs ys : List α} (subperm : xs.Subperm ys)
    : (xs.map f).Subperm (ys.map f) := by
  obtain ⟨part, perm, sublist⟩ := subperm
  exact ⟨part.map f, perm.map f, sublist.map f⟩

/-- Slots that are emptied. -/
theorem Logged.fewer (logged : Logged sent w) (sound : w'.Sound lawful)
    (contents : w'.contents = w.contents)
    (slots : ∀ buf ∈ row QS w'.dev.txBuffers, buf ∈ row QS w.dev.txBuffers)
    : Logged sent w' := by
  rw [Logged, contents]
  exact (subperm_map (List.subperm_of_subset (slots_distinct sound) slots)).trans logged

/-- New contents of a buffer that the stack has. -/
theorem Logged.update {ptr : NetBufPtr} {packet : List UInt8} (logged : Logged sent w)
    (sound : w'.Sound lawful) (handed : ptr ∈ w'.received ++ w'.prepared)
    (slots : w'.dev.txBuffers = w.dev.txBuffers)
    (contents : w'.contents = Function.update w.contents ptr.rawPtr.poolOffset packet)
    : Logged sent w' := by
  have guarded := (List.nodup_append.mp sound.distinct).2.1
  have same : ((row QS w'.dev.txBuffers).map fun buf => w'.contents buf.poolOffset)
      = (row QS w.dev.txBuffers).map fun buf => w.contents buf.poolOffset := by
    rw [slots]
    refine List.map_congr_left fun buf isSlot => ?_
    rw [← slots] at isSlot
    have tx : buf ∈ w'.buffers :=
      World.mem_buffers (World.guarded_of_tx (List.mem_append_left _ isSlot))
    have different : buf ≠ ptr.rawPtr := by
      rintro rfl
      rcases List.mem_append.mp handed with received | prepared
      · exact (List.nodup_append.mp guarded).2.2 _ (List.mem_map_of_mem received) _
          (List.mem_append_left _ isSlot) rfl
      · exact (List.nodup_append.mp (List.nodup_append.mp guarded).2.1).2.2 _ isSlot _
          (List.mem_append_right _ (List.mem_map_of_mem prepared)) rfl
    rw [contents, Function.update_of_ne (sound.place_ne tx
      (World.mem_buffers (World.guarded_of_handed handed)) different)]
  rwa [Logged, same]

/-- The stack has sent a prepared buffer. -/
theorem Logged.more {ptr : NetBufPtr} {data : List UInt8} (logged : Logged sent w)
    (sound : w'.Sound lawful) (contents : w'.contents = w.contents)
    (slots : ∀ buf ∈ row QS w'.dev.txBuffers, buf = ptr.rawPtr ∨ buf ∈ row QS w.dev.txBuffers)
    (isData : w.contents ptr.rawPtr.poolOffset = data)
    : Logged (data :: sent) w' := by
  have subset : row QS w'.dev.txBuffers ⊆ ptr.rawPtr :: row QS w.dev.txBuffers :=
    fun buf member => List.mem_cons.mpr (slots buf member)
  rw [Logged, contents]
  refine (subperm_map (List.subperm_of_subset (slots_distinct sound) subset)).trans ?_
  rw [List.map_cons, isData]
  exact (List.subperm_cons _).mpr logged

-----------------------------------------------------------------------------------------
-- Turns
-----------------------------------------------------------------------------------------

/-- The unwraps of a transmit token succeed as long as a transmit buffer is free. -/
theorem consumeTx_ok {data : List UInt8} (sound : w.Sound lawful) (prepared : w.prepared = [])
    (logged : Logged sent w) (free : w.dev.freeTxBufs ≠ [])
    (short : data.length ≤ MAX_TRANSMISSION_UNIT)
    : ∃ w' : World D QS, consumeTx raw w.dev data = some w'.dev ∧ w'.Sound lawful
      ∧ w'.received = w.received ∧ w'.prepared = [] ∧ w'.oversized = w.oversized
      ∧ Logged (data :: sent) w' := by
  have header := lawful.header_short
  rw [MAX_TRANSMISSION_UNIT] at short
  rcases sound.allocTx data.length with ⟨none, -⟩ | ⟨overflow, -⟩ | ⟨-, large, -⟩ |
    ⟨-, -, ptr, dev, allocated, len, slots, prepares⟩
  · exact absurd none free
  · omega
  · rw [NET_BUF_LEN] at large
    omega
  have handed : ptr ∈ w.received ++ ptr :: w.prepared :=
    List.mem_append_right _ (List.mem_cons_self ..)
  have fits : 0 + data.length ≤ ptr.len := by omega
  have edited := prepares.edit handed fits
  obtain ⟨final, posted, slots', kept⟩ := edited.transmit (.refl _)
  have whole : (Function.update (Function.update w.contents ptr.rawPtr.poolOffset
      (dev.bufPool.pool.read ptr.packet)) ptr.rawPtr.poolOffset
        ((Function.update w.contents ptr.rawPtr.poolOffset (dev.bufPool.pool.read ptr.packet)
          ptr.rawPtr.poolOffset).patch 0 data)) ptr.rawPtr.poolOffset = data := by
    have length : (dev.bufPool.pool.read ptr.packet).length = data.length :=
      (ByteMemory.length_read ..).trans len
    rw [Function.update_self, Function.update_self, List.patch, List.take_zero, List.nil_append,
      List.drop_of_length_le (by omega), List.append_nil]
  refine ⟨_, ?_, kept, rfl, prepared, rfl, ?_⟩
  · have sends : (writePool dev ptr.bufPtr data).transmit raw ptr = some (.ok (), final) := posted
    rw [consumeTx, allocated]
    simp only [sends]
  · have first := logged.update prepares handed slots rfl
    have second := first.update edited handed rfl rfl
    exact second.more kept rfl slots' whole

/-- The unwraps of a receive token succeed, with and without a reply. -/
theorem consumeRx_ok {ptr : NetBufPtr} {f : List UInt8 → Handling} (sound : w.Sound lawful)
    (received : w.received = [ptr]) (prepared : w.prepared = []) (oversized : w.oversized = 0)
    (logged : Logged sent w) (free : w.dev.freeTxBufs ≠ []) (modest : Modest f)
    : ∃ reply, ∃ w' : World D QS, consumeRx raw w.dev ptr f = some (reply, w'.dev)
      ∧ Quiet lawful (reply.toList ++ sent) w' := by
  have replied : ∃ w₁ : World D QS,
      (match (f (w.dev.bufPool.pool.read ptr.packet)).reply with
        | none => some w.dev
        | some data => consumeTx raw w.dev data) = some w₁.dev
      ∧ w₁.Sound lawful ∧ w₁.received = [ptr] ∧ w₁.prepared = [] ∧ w₁.oversized = 0
      ∧ Logged ((f (w.dev.bufPool.pool.read ptr.packet)).reply.toList ++ sent) w₁ := by
    cases isReply : (f (w.dev.bufPool.pool.read ptr.packet)).reply with
    | none => exact ⟨w, rfl, sound, received, prepared, oversized, logged⟩
    | some data =>
        obtain ⟨w₁, done, sound₁, received₁, prepared₁, oversized₁, logged₁⟩ :=
          consumeTx_ok sound prepared logged free (modest _ data isReply)
        exact ⟨w₁, done, sound₁, received₁.trans received, prepared₁, oversized₁.trans oversized,
          logged₁⟩
  obtain ⟨w₁, done, sound₁, received₁, prepared₁, oversized₁, logged₁⟩ := replied
  -- the packet is changed, and its buffer is given back
  have handed : ptr ∈ w₁.received ++ w₁.prepared := by simp [received₁]
  have fits : 0 + ((f (w.dev.bufPool.pool.read ptr.packet)).packet.take ptr.len).length
      ≤ ptr.len := by
    rw [Nat.zero_add]
    exact List.length_take_le _ _
  have edited := sound₁.edit handed fits
  obtain ⟨final, posted, slots, kept⟩ := edited.recycleRx (.of_eq received₁)
  refine ⟨(f (w.dev.bufPool.pool.read ptr.packet)).reply, _, ?_, kept, rfl, prepared₁, oversized₁,
    ?_⟩
  · have recycles : (writePool w₁.dev ptr.bufPtr
        ((f (w.dev.bufPool.pool.read ptr.packet)).packet.take ptr.len)).recycleRxBuffer raw ptr
        = some (.ok (), final) := posted
    rw [consumeRx]
    simp only [done, Option.bind_some, recycles]
  · have first := logged₁.update edited handed rfl rfl
    exact first.fewer kept rfl fun buf member => slots ▸ member

/-- The device is asked for completed buffers first. -/
theorem Quiet.recycleTx (quiet : Quiet lawful sent w)
    : ∃ w' : World D QS, w.dev.recycleTxBuffers raw (QS + 1) = some (.ok (), w'.dev)
      ∧ Quiet lawful sent w' := by
  obtain ⟨dev, done, slots, kept⟩ := quiet.sound.recycleTx
  exact ⟨_, done, kept, quiet.received, quiet.prepared, quiet.oversized,
    quiet.logged.fewer kept rfl slots⟩

theorem free_of_canTransmit {dev : VirtIoNetDev D QS} (can : dev.canTransmit raw = true)
    : dev.freeTxBufs ≠ [] := by
  rintro none
  simp [VirtIoNetDev.canTransmit, none] at can

theorem Quiet.ingress {f : List UInt8 → Handling} (quiet : Quiet lawful sent w) (modest : Modest f)
    : ∃ reply, ∃ w' : World D QS, DeviceWrapper.ingress raw w.dev f = some (reply, w'.dev)
      ∧ Quiet lawful (reply.toList ++ sent) w' := by
  obtain ⟨w₁, recycled, quiet₁⟩ := quiet.recycleTx
  rw [DeviceWrapper.ingress, DeviceWrapper.receive, recycled]
  by_cases can : w₁.dev.canTransmit raw = true
  · simp only [can, if_true]
    rcases quiet₁.sound.receive with ⟨dev, done, slots, kept⟩ | ⟨dev, done, slots, kept⟩ |
      ⟨ptr, dev, done, slots, free, kept⟩
    · refine ⟨none, _, by rw [done], kept, quiet₁.received, quiet₁.prepared, quiet₁.oversized, ?_⟩
      exact quiet₁.logged.fewer kept rfl fun buf member => slots ▸ member
    · refine ⟨none, _, by rw [done], kept, quiet₁.received, quiet₁.prepared, quiet₁.oversized, ?_⟩
      exact quiet₁.logged.fewer kept rfl fun buf member => slots ▸ member
    · have handed : ptr ∈ (ptr :: w₁.received) ++ w₁.prepared := by simp
      have logged := quiet₁.logged.update kept handed slots rfl
      simp only [done]
      exact consumeRx_ok kept (by simp [quiet₁.received]) quiet₁.prepared quiet₁.oversized logged
        (free.trans_ne (free_of_canTransmit can)) modest
  · simp only [can]
    exact ⟨none, w₁, rfl, quiet₁⟩

theorem Quiet.egress {data : List UInt8} (quiet : Quiet lawful sent w)
    (short : data.length ≤ MAX_TRANSMISSION_UNIT)
    : ∃ gone, ∃ w' : World D QS, DeviceWrapper.egress raw w.dev data = some (gone, w'.dev)
      ∧ Quiet lawful (gone.toList ++ sent) w' := by
  obtain ⟨w₁, recycled, quiet₁⟩ := quiet.recycleTx
  rw [DeviceWrapper.egress, DeviceWrapper.transmit, recycled]
  cases can : w₁.dev.canTransmit raw with
  | false => exact ⟨none, w₁, by simp [can], quiet₁⟩
  | true =>
      obtain ⟨w₂, done, sound, received, prepared, oversized, logged⟩ :=
        consumeTx_ok quiet₁.sound quiet₁.prepared quiet₁.logged (free_of_canTransmit can) short
      exact ⟨some data, w₂, by simp [can, done], sound, received.trans quiet₁.received, prepared,
        oversized.trans quiet₁.oversized, logged⟩

-----------------------------------------------------------------------------------------
-- Whole runs
-----------------------------------------------------------------------------------------

variable {s s' : Traffic D QS}

theorem quiet_step (quiet : Quiet lawful s.sent w) (isDev : w.dev = s.dev)
    (stepped : Step lawful s s')
    : ∃ w' : World D QS, w'.dev = s'.dev ∧ Quiet lawful s'.sent w' := by
  obtain ⟨dev, sent⟩ := s
  obtain rfl : w.dev = dev := isDev
  cases stepped with
  | ingress modest done =>
      obtain ⟨reply, w', same, kept⟩ := quiet.ingress modest
      cases done.symm.trans same
      exact ⟨w', rfl, kept⟩
  | egress short done =>
      obtain ⟨gone, w', same, kept⟩ := quiet.egress short
      cases done.symm.trans same
      exact ⟨w', rfl, kept⟩
  | deviceWrites posted fits =>
      have kept := quiet.sound.deviceWrites posted fits
      exact ⟨_, rfl, kept, quiet.received, quiet.prepared, quiet.oversized,
        quiet.logged.fewer kept rfl fun _ member => member⟩
  | deviceMoves rx tx =>
      have kept := quiet.sound.step (.deviceMoves rx tx)
      exact ⟨_, rfl, kept, quiet.received, quiet.prepared, quiet.oversized,
        quiet.logged.fewer kept rfl fun _ member => member⟩

theorem quiet_reachable (positive : 0 < QS) (small : QS ≤ 2 ^ 16) (reachable : s.Reachable lawful)
    : ∃ w : World D QS, w.dev = s.dev ∧ Quiet lawful s.sent w := by
  refine Transition.Reachable.invariant
    (fun s : Traffic D QS => ∃ w : World D QS, w.dev = s.dev ∧ Quiet lawful s.sent w)
    (fun s started => ?_) (fun s s' held stepped => ?_) reachable
  · obtain ⟨⟨inner, created, rx, tx⟩, nothing⟩ := started
    obtain ⟨dev, same, free, sound⟩ := World.tryNew_sound positive small rx tx
    cases created.symm.trans same
    have start := sound (fun _ => []) fun _ _ => rfl
    have total := start.txCount
    refine ⟨_, rfl, start, rfl, rfl, rfl, ?_⟩
    have vacant : row QS s.dev.txBuffers = [] := by
      refine List.length_eq_zero_iff.mp ?_
      simp only [free] at total
      omega
    rw [Logged, vacant]
    exact List.nil_subperm
  · obtain ⟨w, isDev, quiet⟩ := held
    exact quiet_step quiet isDev stepped

/-- The stack never panics on the device. The frames that the device has are among those that were
sent, each once and with its header. No transmit buffer gets lost, and the receive buffers that do
are in the pool.
-/
theorem turns_never_panic (positive : 0 < QS) (small : QS ≤ 2 ^ 16)
    (reachable : s.Reachable lawful)
    : (∀ f, Modest f → ∃ reply dev, ingress raw s.dev f = some (reply, dev))
      ∧ (∀ data, data.length ≤ MAX_TRANSMISSION_UNIT
        → ∃ gone dev, egress raw s.dev data = some (gone, dev))
      ∧ ((row QS s.dev.txBuffers).map fun buf =>
          s.dev.bufPool.pool.read buf.packetWithHeader).Subperm (s.sent.map (lawful.header ++ ·))
      ∧ (row QS s.dev.txBuffers).length + s.dev.freeTxBufs.length = QS
      ∧ (row QS s.dev.rxBuffers).length + s.dev.bufPool.freeList.length = QS := by
  obtain ⟨dev, sent⟩ := s
  obtain ⟨w, rfl, quiet⟩ := quiet_reachable positive small reachable
  have sound := quiet.sound
  refine ⟨fun f modest => ?_, fun data short => ?_, ?_, ?_, ?_⟩
  · obtain ⟨reply, w', done, -⟩ := quiet.ingress modest
    exact ⟨reply, w'.dev, done⟩
  · obtain ⟨gone, w', done, -⟩ := quiet.egress short
    exact ⟨gone, w'.dev, done⟩
  · have frames : ((row QS w.dev.txBuffers).map fun buf =>
        w.dev.bufPool.pool.read buf.packetWithHeader)
        = ((row QS w.dev.txBuffers).map fun buf => w.contents buf.poolOffset).map
          (lawful.header ++ ·) := by
      rw [List.map_map]
      refine List.map_congr_left fun buf isSlot => ?_
      have tx : buf ∈ w.txBufs := List.mem_append_left _ isSlot
      rw [NetBuf.read_packetWithHeader]
      exact congrArg₂ (· ++ ·) (sound.headers buf tx) (sound.packets buf (World.guarded_of_tx tx))
    rw [frames]
    exact subperm_map quiet.logged
  · have total := sound.txCount
    rw [quiet.prepared, quiet.oversized] at total
    simpa using total
  · have lengths := sound.owned.length_eq
    have total := sound.txCount
    simp only [World.places, World.buffers, World.guarded, World.txBufs, quiet.received,
      quiet.prepared, quiet.oversized, NetBufPool.offsets, List.length_append, List.length_map,
      List.length_range, List.length_nil, List.map_nil] at lengths total
    simp only
    omega

/-- A device with two buffers for each direction. -/
def idleNet : PlainNet :=
  ⟨.empty 2, .empty 2, none, none⟩

def idleDev : VirtIoNetDev PlainNet 2 :=
  match VirtIoNetDev.tryNew PlainNet.plainRaw idleNet with
  | some (.ok dev) => dev
  | _ => ⟨fun _ => none, fun _ => none, [], ⟨0, 0, fun _ => 0, []⟩, idleNet⟩

theorem turns_never_panic_oneSent
    : ∃ dev, egress PlainNet.plainRaw idleDev [1, 2, 3] = some (some [1, 2, 3], dev)
      ∧ (∀ f, Modest f → ∃ reply dev', ingress PlainNet.plainRaw dev f = some (reply, dev'))
      ∧ ((row 2 dev.txBuffers).map fun buf => dev.bufPool.pool.read buf.packetWithHeader).Subperm
        [List.replicate 12 0 ++ [1, 2, 3]] := by
  have sends : (egress PlainNet.plainRaw idleDev [1, 2, 3]).map Prod.fst = some (some [1, 2, 3]) :=
    rfl
  obtain ⟨⟨gone, dev⟩, done, rfl⟩ := Option.map_eq_some_iff.mp sends
  have started : Started PlainNet.plainLawful ⟨idleDev, []⟩ := ⟨⟨idleNet, rfl, rfl, rfl⟩, rfl⟩
  have short : [(1 : UInt8), 2, 3].length ≤ MAX_TRANSMISSION_UNIT := by decide
  have stepped : Step PlainNet.plainLawful ⟨idleDev, []⟩ ⟨dev, (some [1, 2, 3]).toList ++ []⟩ :=
    .egress short done
  have reachable : Reachable PlainNet.plainLawful ⟨dev, [[1, 2, 3]]⟩ :=
    Transition.Reachable.next (.start started) stepped
  obtain ⟨ingresses, -, frames, -⟩ := turns_never_panic (by decide) (by decide) reachable
  exact ⟨dev, done, ingresses, frames⟩

end Traffic

end RCoreOS.Axnet
