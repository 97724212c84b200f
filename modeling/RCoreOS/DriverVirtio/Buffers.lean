import RCoreOS.DriverVirtio.Ownership

/-! The buffers of the network driver over whole runs: none gets lost or is used twice, and no
operation of the driver panics.
-/

namespace RCoreOS.DriverVirtio

open DriverNet
open TokenQueue (row)

variable {D : Type} {QS : Nat} {raw : VirtIONetRaw D} {lawful : raw.Lawful}

namespace World

variable {w : World D QS}

-----------------------------------------------------------------------------------------
-- Whole runs
-----------------------------------------------------------------------------------------

/-- The driver is created over a device with empty queues, and then every buffer is posted or
free.
-/
theorem tryNew_sound {inner : D} (positive : 0 < QS) (small : QS ≤ 2 ^ 16)
    (rx : lawful.rx inner = .empty QS) (tx : lawful.tx inner = .empty QS)
    : ∃ dev : VirtIoNetDev D QS, VirtIoNetDev.tryNew raw inner = some (.ok dev)
      ∧ dev.freeTxBufs.length = QS ∧ ∀ contents : Nat → List UInt8,
        (∀ buf ∈ dev.freeTxBufs, contents buf.poolOffset = [])
          → Sound lawful ⟨dev, [], [], contents, 0, 0⟩ := by
  have created : NetBufPool.new (2 * QS) NET_BUF_LEN
      = some (.ok ⟨2 * QS, NET_BUF_LEN, fun _ => 0, NetBufPool.offsets (2 * QS) NET_BUF_LEN⟩) := by
    rw [NetBufPool.new, if_neg (by omega), if_neg (by decide),
      if_pos (by simp only [NET_BUF_LEN]; omega)]
  have length : (NetBufPool.offsets (2 * QS) NET_BUF_LEN).length = 2 * QS := by
    simp [NetBufPool.offsets]
  have mirrors : VirtIoNetDev.Mirrors lawful QS inner (fun _ => none) fun _ => none :=
    ⟨rx ▸ TokenQueue.tokens_empty QS, tx ▸ TokenQueue.tokens_empty QS, fun _ => rx ▸ rfl,
      fun _ => tx ▸ rfl⟩
  obtain ⟨inner', rxBuffers, freeList, filled, mirrors', perm, left, fresh⟩ :=
    @VirtIoNetDev.fillRxBuffers_ok _ QS raw lawful
      ⟨_, _, [], ⟨2 * QS, NET_BUF_LEN, fun _ => 0, NetBufPool.offsets (2 * QS) NET_BUF_LEN⟩, inner⟩
      0 QS mirrors rfl (by omega) (by rw [rx]; exact List.range_eq_range') (by simp only; omega)
  rw [TokenQueue.row_none, List.map_nil, List.append_nil] at perm
  simp only [length] at left
  have tiles : ((freeList ++ (row QS rxBuffers).map NetBuf.poolOffset).map
      fun place => (⟨place, NET_BUF_LEN⟩ : Extent)).Pairwise Extent.Apart := by
    refine (Extent.apart_perm (perm.map _)).mpr ?_
    rw [NetBufPool.offsets_tiled]
    exact Extent.tiles_apart
  rw [List.map_append] at tiles
  obtain ⟨pool, freeTxBufs, freeList', allocated, perm', count, headers, freshTx⟩ :=
    @VirtIoNetDev.allocTxBuffers_ok _ QS raw
      ⟨rxBuffers, fun _ => none, [], ⟨2 * QS, NET_BUF_LEN, fun _ => 0, freeList⟩, inner'⟩
      QS lawful rfl (by simp only; omega)
      (by simpa using (List.pairwise_append.mp tiles).1) (by simp)
  refine ⟨⟨rxBuffers, fun _ => none, freeTxBufs, ⟨2 * QS, NET_BUF_LEN, pool, freeList'⟩, inner'⟩,
    ?_, ?_, fun contents empty => ?_⟩
  · rw [VirtIoNetDev.tryNew, created, Option.bind_some]
    simp only [List.range_eq_range', filled, Option.bind_some]
    exact allocated
  · simpa using count
  have short := lawful.header_short
  have total := perm.length_eq
  rw [List.length_append, List.length_map, length] at total
  have noneSent : row QS (fun _ => none : Nat → Option NetBuf) = [] := TokenQueue.row_none QS
  have isTx (buf : NetBuf) (member : buf ∈ row QS (fun _ => none : Nat → Option NetBuf)
      ++ (freeTxBufs ++ [])) : buf ∈ freeTxBufs := by
    simpa [noneSent] using member
  have capacity (buf : NetBuf) (member : buf ∈ row QS rxBuffers ++ ([] ++
      (row QS (fun _ => none : Nat → Option NetBuf) ++ (freeTxBufs ++ []))))
      : buf.capacity = NET_BUF_LEN ∧ buf.packetLen = 0 := by
    rcases List.mem_append.mp member with receiving | other
    · exact (fresh buf receiving).resolve_left (by simp [noneSent])
    · exact (freshTx buf (isTx buf other)).resolve_left (by simp)
  exact {
    mirrors := mirrors'
    bufLen := rfl
    owned := by
      refine List.perm_iff_count.mpr fun place => ?_
      have first := perm.count_eq place
      have second := perm'.count_eq place
      simp only [places, buffers, guarded, txBufs, noneSent, List.map_append, List.count_append,
        List.map_nil, List.count_nil] at first second ⊢
      omega
    capacity := fun buf member => (capacity buf member).1
    short := by
      intro buf member
      rw [(capacity buf member).2]
      exact short.trans (by decide)
    headed := fun buf member => (headers buf (isTx buf member)).1
    handed := by simp
    headers := fun buf member => (headers buf (isTx buf member)).2
    packets := by
      intro buf member
      refine .trans ?_ (empty buf (isTx buf member)).symm
      rw [NetBuf.packet, (capacity buf (List.mem_append_right _ member)).2]
      rfl
    rxCount := by
      simp only [List.length_nil]
      omega
    txCount := by
      simpa [noneSent] using count
  }

theorem sound_reachable (positive : 0 < QS) (small : QS ≤ 2 ^ 16) (reachable : w.Reachable lawful)
    : w.Sound lawful := by
  refine Transition.Reachable.invariant (Sound lawful) (fun w started => ?_)
    (fun _ _ sound stepped => sound.step stepped) reachable
  obtain ⟨inner, created, rx, tx⟩ := started.created
  obtain ⟨dev, same, -, sound⟩ := tryNew_sound positive small rx tx
  cases created.symm.trans same
  obtain ⟨dev, received, prepared, contents, short, oversized⟩ := w
  obtain ⟨-, rfl, rfl, rfl, rfl, empty⟩ := started
  exact sound contents empty


/-- Every buffer is at one place, packets stay as their owners have left them, and what the device
sends is the header with the packet that the stack has handed over. Receive buffers get lost only by
short frames, and transmit buffers only by allocations of more than a buffer.
-/
structure Accounted (lawful : raw.Lawful) (w : World D QS) : Prop where
  owned : w.places.Perm (NetBufPool.offsets (2 * QS) NET_BUF_LEN)
  apart : (w.buffers.map NetBuf.rawBuf).Pairwise Extent.Apart
  inside : ∀ buf ∈ w.buffers, buf.rawBuf.Within ⟨0, 2 * QS * NET_BUF_LEN⟩
  packets : ∀ ptr ∈ w.received ++ w.prepared,
    w.memory.read ptr.packet = w.contents ptr.rawPtr.poolOffset
  frames : ∀ token extent, (lawful.tx w.dev.inner).posted token = some extent
    → w.memory.read extent = lawful.header ++ w.contents extent.start
  rxCount : (row QS w.dev.rxBuffers).length + w.received.length + w.short = QS
  txCount : (row QS w.dev.txBuffers).length + w.dev.freeTxBufs.length + w.prepared.length
    + w.oversized = QS

/-- No operation panics or finds the driver in a bad state. -/
structure Works (lawful : raw.Lawful) (w : World D QS) : Prop where
  receive : ∃ result dev, w.dev.receive raw = some (result, dev)
    ∧ ∀ e, result = .error e → e = .again ∨ e = .io
  recycleRx : ∀ ptr ∈ w.received, ∃ dev, w.dev.recycleRxBuffer raw ptr = some (.ok (), dev)
  recycleTx : ∃ dev, w.dev.recycleTxBuffers raw (QS + 1) = some (.ok (), dev)
  transmit : ∀ ptr ∈ w.prepared, ∃ dev, w.dev.transmit raw ptr = some (.ok (), dev)
  allocTx : ∀ size, lawful.header.length + size < 2 ^ 64
    → ∃ result dev, w.dev.allocTxBuffer size = some (result, dev)
      ∧ ((∃ ptr, result = .ok ptr)
        ↔ w.dev.freeTxBufs ≠ [] ∧ lawful.header.length + size ≤ NET_BUF_LEN)

theorem Sound.accounted (sound : w.Sound lawful) : w.Accounted lawful where
  owned := sound.owned
  apart := sound.tiled.1
  inside := sound.tiled.2
  packets ptr handed := by
    have own := sound.packets ptr.rawPtr (guarded_of_handed handed)
    rw [sound.handed ptr handed]
    exact own
  frames token extent posted := by
    obtain ⟨buf, here, rfl⟩ :=
      Option.map_eq_some_iff.mp ((sound.mirrors.txSlots token).trans posted)
    have slot : buf ∈ row QS w.dev.txBuffers :=
      TokenQueue.mem_row.mpr ⟨token, sound.mirrors.txTokens.inside posted, here⟩
    have tx : buf ∈ w.txBufs := List.mem_append_left _ slot
    rw [NetBuf.read_packetWithHeader, sound.headers buf tx, sound.packets buf (guarded_of_tx tx)]
    rfl
  rxCount := sound.rxCount
  txCount := sound.txCount

theorem Sound.works (sound : w.Sound lawful) : w.Works lawful where
  receive := by
    rcases sound.receive with ⟨dev, done, -⟩ | ⟨dev, done, -⟩ | ⟨ptr, dev, done, -⟩
    · exact ⟨_, dev, done, fun e isError => .inl (by cases isError; rfl)⟩
    · exact ⟨_, dev, done, fun e isError => .inr (by cases isError; rfl)⟩
    · exact ⟨_, dev, done, fun e isError => nomatch isError⟩
  recycleRx ptr handed := by
    obtain ⟨dev, done, -⟩ := sound.recycleRx (List.perm_cons_erase handed)
    exact ⟨dev, done⟩
  recycleTx := by
    obtain ⟨dev, done, -⟩ := sound.recycleTx
    exact ⟨dev, done⟩
  transmit ptr handed := by
    obtain ⟨dev, done, -⟩ := sound.transmit (List.perm_cons_erase handed)
    exact ⟨dev, done⟩
  allocTx size small := by
    rcases sound.allocTx size with ⟨none, done⟩ | ⟨overflow, -⟩ |
      ⟨-, large, dev, done, -⟩ | ⟨some, fits, ptr, dev, done, -⟩
    · exact ⟨_, _, done, by simp [none]⟩
    · omega
    · exact ⟨_, dev, done, by simp [Nat.not_le_of_lt large]⟩
    · exact ⟨_, dev, done, by simp [some, fits]⟩

/-- Whatever the stack and the device do, no buffer is used by two of them, and the driver works. -/
theorem buffers_accounted (positive : 0 < QS) (small : QS ≤ 2 ^ 16)
    (reachable : w.Reachable lawful)
    : w.Accounted lawful ∧ w.Works lawful := by
  have sound := sound_reachable positive small reachable
  exact ⟨sound.accounted, sound.works⟩

end World

-----------------------------------------------------------------------------------------
-- A device
-----------------------------------------------------------------------------------------

/-- Two queues, and the tokens that the device completes next. -/
structure PlainNet where
  rx : TokenQueue Extent
  tx : TokenQueue Extent
  rxNext : Option Nat
  txNext : Option Nat

namespace PlainNet

/-- A header of twelve zeros, and received packets of sixty bytes. -/
def plainRaw : VirtIONetRaw PlainNet where
  canSend d := !d.tx.free.isEmpty
  pollReceive d := (d.rxNext.filter fun token => (d.rx.posted token).isSome, d)
  pollTransmit d := (d.txNext.filter fun token => (d.tx.posted token).isSome, d)
  receiveBegin d buf :=
    if buf.size < NET_BUF_LEN then (.error .invalidParam, d)
    else
      match d.rx.post buf with
      | none => (.error .queueFull, d)
      | some (token, rx) => (.ok token, { d with rx })
  receiveComplete d token buf :=
    (if buf.size < 72 then .error .ioError else .ok (12, 60), { d with rx := d.rx.take token })
  transmitBegin d buf :=
    if buf.size < 12 then (.error .invalidParam, d)
    else
      match d.tx.post buf with
      | none => (.error .queueFull, d)
      | some (token, tx) => (.ok token, { d with tx })
  transmitComplete d token _ := (.ok 0, { d with tx := d.tx.take token })
  fillBufferHeader len := if len < 12 then .error .invalidParam else .ok (List.replicate 12 0)

def plainLawful : plainRaw.Lawful where
  rx d := d.rx
  tx d := d.tx
  header := List.replicate 12 0
  header_short := by simp
  fill {len} long := by
    have enough : 12 ≤ NET_BUF_LEN := by decide
    simp [plainRaw, Nat.not_lt_of_le (enough.trans long)]
  pollReceive d := by simp [plainRaw, Option.filter_eq_some_iff]
  pollTransmit d := by simp [plainRaw, Option.filter_eq_some_iff]
  receiveBegin_ok {d buf token q} long posted := by
    simp [plainRaw, Nat.not_lt_of_le long, posted]
  receiveComplete {d token buf} polled posted := by
    refine ⟨_, _, rfl, rfl, rfl, ?_⟩
    by_cases short : buf.size < 72
    · simp [short]
    · exact .inr ⟨60, by simp [short], by simpa using short⟩
  transmitBegin_ok {d buf token q} long posted := by
    rw [List.length_replicate] at long
    simp [plainRaw, Nat.not_lt_of_le long, posted]
  transmitComplete {d token buf} polled posted := ⟨_, _, rfl, rfl, rfl⟩

end PlainNet

namespace World

/-- Two buffers for each direction, and a packet of four bytes is prepared. -/
theorem buffers_accounted_prepared
    : ∃ w : World PlainNet 2, w.prepared.map NetBufPtr.len = [4]
      ∧ w.Accounted PlainNet.plainLawful ∧ w.Works PlainNet.plainLawful := by
  obtain ⟨dev, created, free, start⟩ := @tryNew_sound _ 2 _ PlainNet.plainLawful
    ⟨.empty 2, .empty 2, none, none⟩ (by decide) (by decide) rfl rfl
  have sound := start (fun _ => []) fun _ _ => rfl
  have started : Started PlainNet.plainLawful ⟨dev, [], [], fun _ => [], 0, 0⟩ :=
    ⟨⟨_, created, rfl, rfl⟩, rfl, rfl, rfl, rfl, fun _ _ => rfl⟩
  have nonempty : dev.freeTxBufs ≠ [] := by
    rintro none
    simp [none] at free
  have fits : PlainNet.plainLawful.header.length + 4 ≤ NET_BUF_LEN := by decide
  obtain ⟨none, -⟩ | ⟨overflow, -⟩ | ⟨-, large, -⟩ | ⟨-, -, ptr, dev', done, len, -⟩ :=
    sound.allocTx 4
  · exact absurd none nonempty
  · exact absurd (overflow.trans fits) (by decide)
  · exact absurd fits (Nat.not_le_of_lt large)
  · have reachable : Reachable PlainNet.plainLawful _ :=
      Transition.Reachable.next (.start started) (.allocated done)
    refine ⟨_, ?_, buffers_accounted (by decide) (by decide) reachable⟩
    rw [List.map_cons, len]
    rfl

end World

end RCoreOS.DriverVirtio
