import RCoreOS.DriverVirtio.Net

/-! What the operations of the network driver do as long as its slots hold exactly the buffers that
are posted to the device.
-/

namespace RCoreOS.DriverVirtio

open DriverNet
open TokenQueue (row)

variable {D : Type} {QS : Nat} {raw : VirtIONetRaw D} {lawful : raw.Lawful}

namespace VirtIoNetDev

/-- The slots of both directions hold what is posted to the device. -/
structure Mirrors (lawful : raw.Lawful) (QS : Nat) (inner : D)
    (rxBuffers txBuffers : Nat → Option NetBuf)
    : Prop where
  rxTokens : (lawful.rx inner).Tokens QS
  txTokens : (lawful.tx inner).Tokens QS
  rxSlots (token : Nat) : (rxBuffers token).map NetBuf.rawBuf = (lawful.rx inner).posted token
  txSlots (token : Nat)
    : (txBuffers token).map NetBuf.packetWithHeader = (lawful.tx inner).posted token

variable {dev : VirtIoNetDev D QS}

/-- The mirrored slots after one of them was filled. -/
theorem slots_post {slots : Nat → Option NetBuf} {view : NetBuf → Extent} {q q' : TokenQueue Extent}
    {token : Nat} (buf : NetBuf) (tokens : q.Tokens QS)
    (mirrored : ∀ token, (slots token).map view = q.posted token)
    (done : q.post (view buf) = some (token, q'))
    : token < QS ∧ slots token = none ∧ q'.Tokens QS
      ∧ ∀ other, (Function.update slots token (some buf) other).map view = q'.posted other := by
  obtain ⟨inside, unposted, posted, tokens'⟩ := tokens.post done
  refine ⟨inside, ?_, tokens', fun other => ?_⟩
  · rw [← mirrored, Option.map_eq_none_iff] at unposted
    exact unposted
  · rw [posted]
    by_cases same : other = token
    · subst same
      simp
    · simpa [same] using mirrored other

/-- The mirrored slots after one of them was emptied. -/
theorem slots_take {slots : Nat → Option NetBuf} {view : NetBuf → Extent} {q : TokenQueue Extent}
    {buf : NetBuf} {token : Nat} (tokens : q.Tokens QS)
    (mirrored : ∀ token, (slots token).map view = q.posted token) (here : slots token = some buf)
    : token < QS ∧ (q.take token).Tokens QS
      ∧ ∀ other, (Function.update slots token none other).map view
        = (q.take token).posted other := by
  have posted : q.posted token = some (view buf) := by
    rw [← mirrored, here]
    rfl
  refine ⟨tokens.inside posted, tokens.take posted, fun other => ?_⟩
  by_cases same : other = token
  · subst same
    simp [TokenQueue.take]
  · simpa [TokenQueue.take, same] using mirrored other

/-- A buffer can be posted while the slots hold fewer buffers than there are tokens. -/
theorem post_ok {slots : Nat → Option NetBuf} {view : NetBuf → Extent} {q : TokenQueue Extent}
    (tokens : q.Tokens QS) (mirrored : ∀ token, (slots token).map view = q.posted token)
    (room : (row QS slots).length < QS) (buf : NetBuf)
    : ∃ token q', q.post (view buf) = some (token, q') := by
  refine TokenQueue.post_isSome fun full => ?_
  have all := tokens.free_length mirrored
  rw [full, List.length_nil] at all
  omega

theorem Mirrors.recycleRxBuffer {ptr : NetBufPtr}
    (mirrors : Mirrors lawful QS dev.inner dev.rxBuffers dev.txBuffers)
    (sized : ptr.rawPtr.capacity = NET_BUF_LEN) (room : (row QS dev.rxBuffers).length < QS)
    : ∃ token inner, dev.recycleRxBuffer raw ptr
        = some (.ok (), { dev with
            inner, rxBuffers := Function.update dev.rxBuffers token (some ptr.rawPtr) })
      ∧ token < QS ∧ dev.rxBuffers token = none
      ∧ Mirrors lawful QS inner (Function.update dev.rxBuffers token (some ptr.rawPtr))
        dev.txBuffers := by
  obtain ⟨token, q, posted⟩ := post_ok mirrors.rxTokens mirrors.rxSlots room ptr.rawPtr
  obtain ⟨inner, begun, rx, tx⟩ := lawful.receiveBegin_ok (Nat.le_of_eq sized.symm) posted
  obtain ⟨inside, vacant, tokens, slots⟩ := slots_post _ mirrors.rxTokens mirrors.rxSlots posted
  refine ⟨token, inner, ?_, inside, vacant, ⟨rx ▸ tokens, tx ▸ mirrors.txTokens, rx ▸ slots,
    fun token => tx ▸ mirrors.txSlots token⟩⟩
  simp [VirtIoNetDev.recycleRxBuffer, NetBuf.fromBufPtr, begun, inside, vacant]

theorem Mirrors.transmit {ptr : NetBufPtr}
    (mirrors : Mirrors lawful QS dev.inner dev.rxBuffers dev.txBuffers)
    (hasHeader : ptr.rawPtr.headerLen = lawful.header.length)
    (room : (row QS dev.txBuffers).length < QS)
    : ∃ token inner, dev.transmit raw ptr
        = some (.ok (), { dev with
            inner, txBuffers := Function.update dev.txBuffers token (some ptr.rawPtr) })
      ∧ token < QS ∧ dev.txBuffers token = none
      ∧ Mirrors lawful QS inner dev.rxBuffers
        (Function.update dev.txBuffers token (some ptr.rawPtr)) := by
  obtain ⟨token, q, posted⟩ := post_ok mirrors.txTokens mirrors.txSlots room ptr.rawPtr
  have long : lawful.header.length ≤ ptr.rawPtr.packetWithHeader.size :=
    hasHeader ▸ Nat.le_add_right ..
  obtain ⟨inner, begun, tx, rx⟩ := lawful.transmitBegin_ok long posted
  obtain ⟨inside, vacant, tokens, slots⟩ := slots_post _ mirrors.txTokens mirrors.txSlots posted
  refine ⟨token, inner, ?_, inside, vacant, ⟨rx ▸ mirrors.rxTokens, tx ▸ tokens,
    fun token => rx ▸ mirrors.rxSlots token, tx ▸ slots⟩⟩
  simp [VirtIoNetDev.transmit, NetBuf.fromBufPtr, begun, inside, vacant]

/-- Nothing has come in, or a buffer is taken from its slot: it is dropped if the device has
written less than a header, and handed over otherwise.
-/
theorem Mirrors.receive (mirrors : Mirrors lawful QS dev.inner dev.rxBuffers dev.txBuffers)
    : (∃ inner, dev.receive raw = some (.error .again, { dev with inner })
        ∧ Mirrors lawful QS inner dev.rxBuffers dev.txBuffers)
      ∨ ∃ token buf inner, token < QS ∧ dev.rxBuffers token = some buf
        ∧ Mirrors lawful QS inner (Function.update dev.rxBuffers token none) dev.txBuffers
        ∧ (dev.receive raw
            = (dropBuf { dev with
                inner, rxBuffers := Function.update dev.rxBuffers token none } buf).map
                  (.error .io, ·)
          ∨ ∃ len, lawful.header.length + len ≤ buf.capacity
            ∧ dev.receive raw
              = ((buf.setHeaderLen lawful.header.length).bind (·.setPacketLen len)).map
                fun buf => (.ok buf.intoBufPtr, { dev with
                  inner, rxBuffers := Function.update dev.rxBuffers token none })) := by
  obtain ⟨rx, tx, polled⟩ := lawful.pollReceive dev.inner
  cases found : (raw.pollReceive dev.inner).1 with
  | none =>
      refine .inl ⟨(raw.pollReceive dev.inner).2, ?_, ⟨rx ▸ mirrors.rxTokens,
        tx ▸ mirrors.txTokens, fun token => rx ▸ mirrors.rxSlots token,
        fun token => tx ▸ mirrors.txSlots token⟩⟩
      rw [VirtIoNetDev.receive, show raw.pollReceive dev.inner = (none, _) from
        Prod.ext found rfl]
  | some token =>
      obtain ⟨extent, posted⟩ := Option.isSome_iff_exists.mp (polled token found)
      obtain ⟨buf, here, rfl⟩ := Option.map_eq_some_iff.mp ((mirrors.rxSlots token).trans posted)
      obtain ⟨result, inner, completed, rx', tx', outcome⟩ := lawful.receiveComplete found posted
      obtain ⟨inside, tokens, slots⟩ := slots_take mirrors.rxTokens mirrors.rxSlots here
      refine .inr ⟨token, buf, inner, inside, here, ⟨rx' ▸ tokens, tx' ▸ mirrors.txTokens,
        rx' ▸ slots, fun token => tx' ▸ mirrors.txSlots token⟩, ?_⟩
      rw [VirtIoNetDev.receive, show raw.pollReceive dev.inner = (some token, _) from
        Prod.ext found rfl]
      simp only [inside, if_true, here, completed]
      rcases outcome with rfl | ⟨len, rfl, fits⟩
      · exact .inl rfl
      · exact .inr ⟨len, fits, rfl⟩

/-- All completed buffers are taken from their slots and become free. By induction on the turns, of
which each empties a slot.
-/
theorem Mirrors.recycleTxBuffers {turns : Nat}
    (mirrors : Mirrors lawful QS dev.inner dev.rxBuffers dev.txBuffers)
    (enough : (row QS dev.txBuffers).length < turns)
    : ∃ inner txBuffers freeTxBufs, VirtIoNetDev.recycleTxBuffers raw turns dev
        = some (.ok (), { dev with inner, txBuffers, freeTxBufs })
      ∧ Mirrors lawful QS inner dev.rxBuffers txBuffers
      ∧ (row QS txBuffers ++ freeTxBufs).Perm (row QS dev.txBuffers ++ dev.freeTxBufs)
      ∧ ∀ token buf, txBuffers token = some buf → dev.txBuffers token = some buf := by
  induction turns generalizing dev with
  | zero => omega
  | succ turns ih =>
      obtain ⟨rx, tx, polled⟩ := lawful.pollTransmit dev.inner
      cases found : (raw.pollTransmit dev.inner).1 with
      | none =>
          refine ⟨(raw.pollTransmit dev.inner).2, dev.txBuffers, dev.freeTxBufs, ?_,
            ⟨rx ▸ mirrors.rxTokens, tx ▸ mirrors.txTokens,
              fun token => rx ▸ mirrors.rxSlots token, fun token => tx ▸ mirrors.txSlots token⟩,
            .rfl, fun _ _ here => here⟩
          rw [VirtIoNetDev.recycleTxBuffers, show raw.pollTransmit dev.inner = (none, _) from
            Prod.ext found rfl]
      | some token =>
          obtain ⟨extent, posted⟩ := Option.isSome_iff_exists.mp (polled token found)
          obtain ⟨buf, here, rfl⟩ :=
            Option.map_eq_some_iff.mp ((mirrors.txSlots token).trans posted)
          obtain ⟨len, inner, completed, tx', rx'⟩ := lawful.transmitComplete found posted
          obtain ⟨inside, tokens, slots⟩ := slots_take mirrors.txTokens mirrors.txSlots here
          have emptied := TokenQueue.row_vacate inside here
          have next : Mirrors lawful QS inner dev.rxBuffers
              (Function.update dev.txBuffers token none) :=
            ⟨rx' ▸ mirrors.rxTokens, tx' ▸ tokens, fun token => rx' ▸ mirrors.rxSlots token,
              tx' ▸ slots⟩
          have fewer : (row QS (Function.update dev.txBuffers token none)).length < turns := by
            have lengths := emptied.length_eq
            rw [List.length_cons] at lengths
            omega
          obtain ⟨inner', txBuffers, freeTxBufs, done, mirrors', moved, kept⟩ :=
            @ih ⟨dev.rxBuffers, Function.update dev.txBuffers token none,
              dev.freeTxBufs ++ [buf], dev.bufPool, inner⟩ next fewer
          refine ⟨inner', txBuffers, freeTxBufs, ?_, mirrors', moved.trans ?_, ?_⟩
          · rw [VirtIoNetDev.recycleTxBuffers,
              show raw.pollTransmit dev.inner = (some token, _) from Prod.ext found rfl]
            simp only [inside, if_true, here, completed]
            exact done
          · have shifted := (emptied.append_right dev.freeTxBufs).symm
            refine .trans ?_ shifted
            rw [← List.append_assoc]
            exact List.perm_append_comm
          · intro other buf' there
            have before : Function.update dev.txBuffers token none other = some buf' :=
              kept other buf' there
            by_cases same : other = token
            · rw [same, Function.update_self] at before
              cases before
            · rwa [Function.update_of_ne same] at before

/-- The last free buffer is taken, and it is dropped if it is too small. -/
theorem allocTxBuffer_snoc {free : List NetBuf} {buf : NetBuf} {size : Nat}
    (isFree : dev.freeTxBufs = free ++ [buf]) (small : buf.headerLen + size < 2 ^ 64)
    : dev.allocTxBuffer size
      = if buf.capacity < buf.headerLen + size then
          (dropBuf { dev with freeTxBufs := free } buf).map (.error .invalidParam, ·)
        else
          some (.ok { buf with packetLen := size }.intoBufPtr,
            { dev with freeTxBufs := free }) := by
  rw [allocTxBuffer, isFree, List.getLast?_concat, List.dropLast_concat]
  simp only [if_neg (Nat.not_le_of_lt small)]
  by_cases large : buf.capacity < buf.headerLen + size
  · rw [if_pos large, if_pos large]
  · rw [if_neg large, if_neg large, NetBuf.setPacketLen, if_pos (Nat.le_of_not_lt large)]
    rfl

-----------------------------------------------------------------------------------------
-- The creation of the driver
-----------------------------------------------------------------------------------------

/-- The tokens of the receive buffers are given out in order. By induction on the number of the
buffers that are left.
-/
theorem fillRxBuffers_ok {first count : Nat}
    (mirrors : Mirrors lawful QS dev.inner dev.rxBuffers dev.txBuffers)
    (bufLen : dev.bufPool.bufLen = NET_BUF_LEN) (small : first + count ≤ 2 ^ 16)
    (tokens : (lawful.rx dev.inner).free = List.range' first count)
    (enough : count ≤ dev.bufPool.freeList.length)
    : ∃ inner rxBuffers freeList,
      fillRxBuffers raw dev (List.range' first count)
        = some (.ok { dev with inner, rxBuffers, bufPool := { dev.bufPool with freeList } })
      ∧ Mirrors lawful QS inner rxBuffers dev.txBuffers
      ∧ (freeList ++ (row QS rxBuffers).map NetBuf.poolOffset).Perm
        (dev.bufPool.freeList ++ (row QS dev.rxBuffers).map NetBuf.poolOffset)
      ∧ freeList.length + count = dev.bufPool.freeList.length
      ∧ ∀ buf ∈ row QS rxBuffers, buf ∈ row QS dev.rxBuffers
        ∨ buf.capacity = NET_BUF_LEN ∧ buf.packetLen = 0 := by
  induction count generalizing first dev with
  | zero =>
      exact ⟨dev.inner, dev.rxBuffers, dev.bufPool.freeList, rfl, mirrors, .rfl, rfl,
        fun _ member => .inl member⟩
  | succ count ih =>
      obtain none | ⟨rest, place, free⟩ := List.eq_nil_or_concat' dev.bufPool.freeList
      · simp [none] at enough
      rw [List.range'_succ] at tokens ⊢
      have posted : (lawful.rx dev.inner).post ⟨place, dev.bufPool.bufLen⟩ = some (first,
          ⟨List.range' (first + 1) count,
            Function.update (lawful.rx dev.inner).posted first
              (some ⟨place, dev.bufPool.bufLen⟩)⟩) := by
        rw [TokenQueue.post, tokens]
      obtain ⟨inner, begun, rx, tx⟩ :=
        lawful.receiveBegin_ok (Nat.le_of_eq bufLen.symm) posted
      obtain ⟨inside, vacant, next, slots⟩ :=
        slots_post ⟨0, 0, dev.bufPool.bufLen, place⟩ mirrors.rxTokens mirrors.rxSlots posted
      have filled : (row QS (Function.update dev.rxBuffers first
            (some ⟨0, 0, dev.bufPool.bufLen, place⟩))).Perm
          (⟨0, 0, dev.bufPool.bufLen, place⟩ :: row QS dev.rxBuffers) :=
        TokenQueue.row_fill inside vacant
      have lengths := congrArg List.length free
      rw [List.length_append, List.length_singleton] at lengths
      obtain ⟨inner', rxBuffers, freeList, done, mirrors', perm, left, fresh⟩ :=
        @ih ⟨Function.update dev.rxBuffers first (some ⟨0, 0, dev.bufPool.bufLen, place⟩),
          dev.txBuffers, dev.freeTxBufs, { dev.bufPool with freeList := rest }, inner⟩ (first + 1)
          ⟨rx ▸ next, tx ▸ mirrors.txTokens, rx ▸ slots, tx ▸ mirrors.txSlots⟩ bufLen
          (by omega) (by rw [rx]) (by simp only; omega)
      refine ⟨inner', rxBuffers, freeList, ?_, mirrors', perm.trans ?_, ?_, fun buf member => ?_⟩
      · rw [fillRxBuffers, NetBufPool.alloc_snoc free]
        simp only [NetBuf.rawBuf, begun]
        rw [if_pos (Nat.mod_eq_of_lt (by omega)).symm]
        exact done
      · rw [free, List.append_assoc]
        exact (filled.map NetBuf.poolOffset).append_left rest
      · simp only at left
        omega
      · rcases fresh buf member with before | new
        · rcases List.mem_cons.mp (filled.mem_iff.mp before) with rfl | older
          · exact .inr ⟨bufLen, rfl⟩
          · exact .inl older
        · exact .inr new

/-- The transmit buffers get their headers, which the later ones do not overwrite. By induction on
the number of the buffers that are left.
-/
theorem allocTxBuffers_ok {count : Nat} (lawful : raw.Lawful)
    (bufLen : dev.bufPool.bufLen = NET_BUF_LEN) (enough : count ≤ dev.bufPool.freeList.length)
    (apart : ((dev.bufPool.freeList ++ dev.freeTxBufs.map NetBuf.poolOffset).map
      fun place => (⟨place, NET_BUF_LEN⟩ : Extent)).Pairwise Extent.Apart)
    (headed : ∀ buf ∈ dev.freeTxBufs, buf.headerLen = lawful.header.length
      ∧ dev.bufPool.pool.read buf.header = lawful.header)
    : ∃ pool freeTxBufs freeList,
      allocTxBuffers raw dev count
        = some (.ok { dev with freeTxBufs, bufPool := { dev.bufPool with pool, freeList } })
      ∧ (freeList ++ freeTxBufs.map NetBuf.poolOffset).Perm
        (dev.bufPool.freeList ++ dev.freeTxBufs.map NetBuf.poolOffset)
      ∧ freeTxBufs.length = dev.freeTxBufs.length + count
      ∧ (∀ buf ∈ freeTxBufs, buf.headerLen = lawful.header.length
        ∧ pool.read buf.header = lawful.header)
      ∧ ∀ buf ∈ freeTxBufs, buf ∈ dev.freeTxBufs
        ∨ buf.capacity = NET_BUF_LEN ∧ buf.packetLen = 0 := by
  induction count generalizing dev with
  | zero =>
      exact ⟨dev.bufPool.pool, dev.freeTxBufs, dev.bufPool.freeList, rfl, .rfl, rfl, headed,
        fun _ member => .inl member⟩
  | succ count ih =>
      obtain none | ⟨rest, place, free⟩ := List.eq_nil_or_concat' dev.bufPool.freeList
      · simp [none] at enough
      have short := lawful.header_short
      have lengths := congrArg List.length free
      rw [List.length_append, List.length_singleton] at lengths
      have moved : (rest ++ (dev.freeTxBufs
            ++ [(⟨lawful.header.length, 0, NET_BUF_LEN, place⟩ : NetBuf)]).map
          NetBuf.poolOffset).Perm
          (dev.bufPool.freeList ++ dev.freeTxBufs.map NetBuf.poolOffset) := by
        rw [free, List.append_assoc, List.map_append]
        exact List.perm_append_comm.append_left rest
      have apart' := (Extent.apart_perm
        (moved.map fun place => (⟨place, NET_BUF_LEN⟩ : Extent))).mpr apart
      have within (start : Nat)
          : Extent.Within ⟨start, lawful.header.length⟩ ⟨start, NET_BUF_LEN⟩ :=
        .of_le (short.trans (by decide))
      have headed' : ∀ buf ∈ dev.freeTxBufs ++ [⟨lawful.header.length, 0, NET_BUF_LEN, place⟩],
          buf.headerLen = lawful.header.length
            ∧ (dev.bufPool.pool.write place lawful.header).read buf.header = lawful.header := by
        intro buf member
        rcases List.mem_append.mp member with before | new
        · obtain ⟨len, header⟩ := headed buf before
          refine ⟨len, .trans (ByteMemory.read_write_apart ?_) header⟩
          rw [List.map_append, List.map_append, List.map_append] at apart'
          have tiles := (List.pairwise_append.mp (List.pairwise_append.mp apart').2.1).2.2
            ⟨buf.poolOffset, NET_BUF_LEN⟩
            (List.mem_map_of_mem (List.mem_map_of_mem before))
            ⟨place, NET_BUF_LEN⟩ (List.mem_singleton_self _)
          have part : Extent.Within buf.header ⟨buf.poolOffset, NET_BUF_LEN⟩ := by
            rw [NetBuf.header, len]
            exact within buf.poolOffset
          exact tiles.mono part (within place)
        · obtain rfl := List.mem_singleton.mp new
          exact ⟨rfl, ByteMemory.read_write_self⟩
      obtain ⟨pool, freeTxBufs, freeList, done, perm, length, headers, fresh⟩ :=
        @ih ⟨dev.rxBuffers, dev.txBuffers,
          dev.freeTxBufs ++ [⟨lawful.header.length, 0, NET_BUF_LEN, place⟩],
          { dev.bufPool with
            freeList := rest, pool := dev.bufPool.pool.write place lawful.header },
          dev.inner⟩ bufLen (by simp only; omega) apart' headed'
      refine ⟨pool, freeTxBufs, freeList, ?_, perm.trans moved, ?_, headers, fun buf member => ?_⟩
      · rw [allocTxBuffers, NetBufPool.alloc_snoc free]
        simp only [bufLen, lawful.fill (Nat.le_refl _)]
        rw [NetBuf.setHeaderLen, if_pos (by simp only [NET_BUF_LEN]; omega), Option.bind_some]
        simpa only [bufLen] using done
      · rw [length, List.length_append, List.length_singleton]
        omega
      · rcases fresh buf member with before | new
        · rcases List.mem_append.mp before with older | isNew
          · exact .inl older
          · exact .inr (List.mem_singleton.mp isNew ▸ ⟨rfl, rfl⟩)
        · exact .inr new

end VirtIoNetDev

end RCoreOS.DriverVirtio
