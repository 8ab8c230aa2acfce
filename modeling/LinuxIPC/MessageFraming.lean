import LinuxIPC.LittleEndian
import LinuxIPC.System

/-!
# Messages on the stream (`rtm.c`, `rtm_client.c`)

The server writes each message as the bytes of a `sync_msg_t`: the operation code, the record as it
is laid out in memory, and two bytes of padding. The client zeroes a message before each `read`, does
not look at how many bytes arrive, and takes them for a message. So it is handed as many messages as
there are reads, and those sent only if each read delivers one.
-/

namespace LinuxIPC

open CString Runs

/-- `sizeof(sync_msg_t)` -/
abbrev syncMsgSize : ℕ := 72

/-- A message as it is read: any number may stand for the operation. -/
structure RawSyncMsg where
  opCode : BitVec 32
  msgBody : MsgBody
  deriving DecidableEq

def OpCode.toBits : OpCode → BitVec 32
  | .create => 0
  | .update => 1
  | .delete => 2

def SyncMsg.raw (m : SyncMsg) : RawSyncMsg := ⟨m.opCode.toBits, m.msgBody⟩

def SyncMsg.toBytes (m : SyncMsg) (padding : CharArray 2) : CharArray syncMsgSize where
  bytes := LittleEndian.encode 4 m.opCode.toBits.toNat ++
    (m.msgBody.fromDestination ++ padding.bytes)
  size_eq := by
    simp only [MsgBody.fromDestination, maskBytes, List.length_append, LittleEndian.length_encode,
      CharArray.size_eq, List.length_cons, List.length_nil]
    rfl

def field {n : ℕ} (a : CharArray n) (offset size : ℕ) (h : offset + size ≤ n) : CharArray size where
  bytes := (a.bytes.drop offset).take size
  size_eq := by
    have hsize := a.size_eq
    rw [List.length_take, List.length_drop]
    omega

def RawSyncMsg.ofBytes (a : CharArray syncMsgSize) : RawSyncMsg where
  opCode := BitVec.ofNat 32 (LittleEndian.value (field a 0 4 (by decide)).bytes)
  msgBody :=
    { destination := field a 4 ipAddrLen (by decide)
      mask := UInt16.ofNat (LittleEndian.value (field a (4 + ipAddrLen) 2 (by decide)).bytes)
      gatewayIp := field a (4 + ipAddrLen + 2) ipAddrLen (by decide)
      oif := field a (4 + ipAddrLen + 2 + ipAddrLen) oifLen (by decide) }

structure SyncChunk where
  bytes : List UInt8
  length_le : bytes.length ≤ syncMsgSize

def SyncChunk.received (chunk : SyncChunk) : CharArray syncMsgSize where
  bytes := chunk.bytes ++ List.replicate (syncMsgSize - chunk.bytes.length) 0
  size_eq := by
    have hle := chunk.length_le
    rw [List.length_append, List.length_replicate]
    omega

/-- The messages that the loop of `main` hands to `synchronize_with_server`. -/
def handedMessages : List SyncChunk → List RawSyncMsg
  | [] => []
  | chunk :: chunks =>
    if chunk.bytes.length = 0 then [] else .ofBytes chunk.received :: handedMessages chunks

/-- `synchronize_with_server`: no case of the `switch` is for another number. -/
def synchronizeRaw (amb : Ambient) (rtm : RoutingTable) (m : RawSyncMsg) : RoutingTable :=
  if m.opCode = 0 then synchronizeWithServer amb rtm ⟨.create, m.msgBody⟩
  else if m.opCode = 1 then synchronizeWithServer amb rtm ⟨.update, m.msgBody⟩
  else if m.opCode = 2 then synchronizeWithServer amb rtm ⟨.delete, m.msgBody⟩
  else rtm

def synchronizeHanded (amb : ℕ → Ambient) : RoutingTable → List RawSyncMsg → RoutingTable
  | rtm, [] => rtm
  | rtm, m :: rest => synchronizeHanded (fun k => amb (k + 1)) (synchronizeRaw (amb 0) rtm m) rest

structure Written where
  syncMsg : SyncMsg
  padding : CharArray 2

def Written.bytes (w : Written) : CharArray syncMsgSize := w.syncMsg.toBytes w.padding

def writtenBytes (ws : List Written) : List UInt8 := (ws.map fun w => w.bytes.bytes).flatten

abbrev SyncReadSize := {size : ℕ // 0 < size ∧ size ≤ syncMsgSize}

structure SyncCut (n : ℕ) where
  sizes : List SyncReadSize
  sum_eq : (sizes.map Subtype.val).sum = n * syncMsgSize

def deliverSync : List SyncReadSize → List UInt8 → List SyncChunk
  | [], _ => [⟨[], Nat.zero_le _⟩]
  | size :: sizes, bytes =>
    ⟨bytes.take size.1, (List.length_take_le _ _).trans size.2.2⟩ ::
      deliverSync sizes (bytes.drop size.1)

/-- A client whose reads deliver whole messages has, after the bytes of all messages written to it, the
table that it has with what the channel still holds; while it is monitored, this is the server's. -/
def ReadsAsChannel (s : System) : Prop :=
  ∀ client ∈ s.clients, ∀ ws : List Written,
    ws.map Written.syncMsg = deliveredTo s.server.writes client.dataSocket →
    ∀ cut : SyncCut ws.length, (∀ size ∈ cut.sizes, size.1 = syncMsgSize) → ∀ amb amb',
      synchronizeHanded amb [] (handedMessages (deliverSync cut.sizes (writtenBytes ws))) =
          synchronizeAll amb' client.replica.state client.replica.queue ∧
        (client.dataSocket ∈ s.server.monitored.slots →
          synchronizeHanded amb [] (handedMessages (deliverSync cut.sizes (writtenBytes ws))) =
            s.server.admin.rtm)

def HandsOver (ws : List Written) (cut : SyncCut ws.length) : Prop :=
  handedMessages (deliverSync cut.sizes (writtenBytes ws)) = ws.map fun w => w.syncMsg.raw

theorem field_eq {n offset size : ℕ} {a : CharArray n} (front m back : List UInt8)
    (ha : a.bytes = front ++ (m ++ back)) (hfront : front.length = offset) (hm : m.length = size)
    (h : offset + size ≤ n) : (field a offset size h).bytes = m := by
  have hbytes : (field a offset size h).bytes = (a.bytes.drop offset).take size := rfl
  rw [hbytes, ha, List.drop_left' hfront, List.take_left' hm]

theorem value_maskBytes (mask : UInt16) : LittleEndian.value (maskBytes mask) = mask.toNat := by
  have hlt := mask.toNat_lt
  simp only [maskBytes, LittleEndian.value, UInt8.toNat_ofNat']
  omega

/-- A message is read from its bytes as it was written, whatever its padding. -/
theorem RawSyncMsg.ofBytes_toBytes (m : SyncMsg) (padding : CharArray 2) :
    RawSyncMsg.ofBytes (m.toBytes padding) = m.raw := by
  obtain ⟨opCode, destination, mask, gatewayIp, oif⟩ := m
  let op := LittleEndian.encode 4 opCode.toBits.toNat
  have hop : op.length = 4 := LittleEndian.length_encode 4 _
  have hmask : (maskBytes mask).length = 2 := rfl
  have hd := destination.size_eq
  have hg := gatewayIp.size_eq
  have ho := oif.size_eq
  let a := (SyncMsg.mk opCode ⟨destination, mask, gatewayIp, oif⟩).toBytes padding
  have ha : a.bytes = op ++ (destination.bytes ++ (maskBytes mask ++
      (gatewayIp.bytes ++ (oif.bytes ++ padding.bytes)))) := by
    simp [a, op, SyncMsg.toBytes, MsgBody.fromDestination]
  have hfields : field a 4 ipAddrLen (by decide) = destination ∧
      (field a (4 + ipAddrLen) 2 (by decide)).bytes = maskBytes mask ∧
      field a (4 + ipAddrLen + 2) ipAddrLen (by decide) = gatewayIp ∧
      field a (4 + ipAddrLen + 2 + ipAddrLen) oifLen (by decide) = oif := by
    refine ⟨CharArray.ext_bytes ?_, ?_, CharArray.ext_bytes ?_, CharArray.ext_bytes ?_⟩
    · exact field_eq op _ _ ha hop hd _
    · refine field_eq (op ++ destination.bytes) _ (gatewayIp.bytes ++ (oif.bytes ++ padding.bytes))
        ?_ ?_ hmask _
      · rw [ha, List.append_assoc]
      · rw [List.length_append, hop, hd]
    · refine field_eq (op ++ destination.bytes ++ maskBytes mask) _ (oif.bytes ++ padding.bytes)
        ?_ ?_ hg _
      · rw [ha, List.append_assoc, List.append_assoc]
      · rw [List.length_append, List.length_append, hop, hd, hmask]
    · refine field_eq (op ++ destination.bytes ++ maskBytes mask ++ gatewayIp.bytes) _ padding.bytes
        ?_ ?_ ho _
      · rw [ha, List.append_assoc, List.append_assoc, List.append_assoc]
      · rw [List.length_append, List.length_append, List.length_append, hop, hd, hmask, hg]
  have hopCode : (field a 0 4 (by decide)).bytes = op :=
    field_eq [] op _ (ha.trans (List.nil_append _).symm) rfl hop _
  obtain ⟨hdestination, hmaskBytes, hgateway, hoif⟩ := hfields
  have hvalue : BitVec.ofNat 32 (LittleEndian.value op) = opCode.toBits := by
    have hlt : opCode.toBits.toNat % 256 ^ 4 = opCode.toBits.toNat :=
      Nat.mod_eq_of_lt opCode.toBits.isLt
    rw [LittleEndian.value_encode, hlt, BitVec.ofNat_toNat, BitVec.setWidth_eq]
  change RawSyncMsg.ofBytes a = _
  unfold RawSyncMsg.ofBytes SyncMsg.raw
  rw [hopCode, hvalue, hdestination, hmaskBytes, hgateway, hoif, value_maskBytes, UInt16.ofNat_toNat]

theorem length_handedMessages (sizes : List SyncReadSize) {bytes : List UInt8}
    (h : (sizes.map Subtype.val).sum ≤ bytes.length) :
    (handedMessages (deliverSync sizes bytes)).length = sizes.length := by
  induction sizes generalizing bytes with
  | nil => rfl
  | cons size sizes ih =>
      have hpos := size.2.1
      rw [List.map_cons, List.sum_cons] at h
      have hlength : (bytes.take size.1).length ≠ 0 := by
        rw [List.length_take]
        omega
      have hrest : (sizes.map Subtype.val).sum ≤ (bytes.drop size.1).length := by
        rw [List.length_drop]
        omega
      rw [deliverSync, handedMessages, if_neg hlength, List.length_cons, List.length_cons, ih hrest]

theorem handedMessages_of_whole (ws : List Written) {sizes : List SyncReadSize}
    (hlength : sizes.length = ws.length) (h : ∀ size ∈ sizes, size.1 = syncMsgSize) :
    handedMessages (deliverSync sizes (writtenBytes ws)) = ws.map fun w => w.syncMsg.raw := by
  induction ws generalizing sizes with
  | nil =>
      rw [List.length_eq_zero_iff.mp hlength]
      rfl
  | cons w ws ih =>
      obtain ⟨size, sizes, rfl⟩ := List.exists_cons_of_length_eq_add_one hlength
      have hsize : w.bytes.bytes.length = size.1 := by
        rw [w.bytes.size_eq, h size List.mem_cons_self]
      have hstream : writtenBytes (w :: ws) = w.bytes.bytes ++ writtenBytes ws := by
        simp [writtenBytes]
      have hchunk : (deliverSync (size :: sizes) (writtenBytes (w :: ws))) =
          ⟨w.bytes.bytes, w.bytes.size_eq.le⟩ :: deliverSync sizes (writtenBytes ws) := by
        simp only [deliverSync, hstream, List.take_left' hsize, List.drop_left' hsize]
      have hreceived : SyncChunk.received ⟨w.bytes.bytes, w.bytes.size_eq.le⟩ = w.bytes := by
        apply CharArray.ext_bytes
        simp [SyncChunk.received, w.bytes.size_eq]
      have hne : w.bytes.bytes.length ≠ 0 := by
        rw [w.bytes.size_eq]
        decide
      have hrest := ih (Nat.succ.inj hlength) fun size' hmem => h size' (List.mem_cons_of_mem _ hmem)
      rw [hchunk, handedMessages, if_neg hne, hreceived, hrest, List.map_cons, Written.bytes,
        RawSyncMsg.ofBytes_toBytes]

theorem whole_of_sum {sizes : List SyncReadSize}
    (h : (sizes.map Subtype.val).sum = sizes.length * syncMsgSize) :
    ∀ size ∈ sizes, size.1 = syncMsgSize := by
  induction sizes with
  | nil => simp
  | cons size sizes ih =>
      have hle : (sizes.map Subtype.val).sum ≤ sizes.length * syncMsgSize := by
        have hall : ∀ n ∈ sizes.map Subtype.val, n ≤ syncMsgSize := by
          simp only [List.mem_map]
          rintro n ⟨size', -, rfl⟩
          exact size'.2.2
        simpa using List.sum_le_card_nsmul _ _ hall
      have hsize := size.2.2
      rw [List.map_cons, List.sum_cons, List.length_cons, Nat.add_one_mul] at h
      intro size' hmem
      rcases List.mem_cons.mp hmem with rfl | hmem
      · omega
      · exact ih (by omega) size' hmem

theorem length_writtenBytes (ws : List Written) :
    (writtenBytes ws).length = ws.length * syncMsgSize := by
  induction ws with
  | nil => rfl
  | cons w ws ih =>
      have hsize := w.bytes.size_eq
      rw [writtenBytes] at ih
      rw [writtenBytes, List.map_cons, List.flatten_cons, List.length_append, hsize, ih,
        List.length_cons, Nat.add_one_mul, Nat.add_comm]

theorem SyncCut.length_of_whole {n : ℕ} (cut : SyncCut n)
    (h : ∀ size ∈ cut.sizes, size.1 = syncMsgSize) : cut.sizes.length = n := by
  have hmap : cut.sizes.map Subtype.val = List.replicate cut.sizes.length syncMsgSize := by
    rw [List.eq_replicate_iff]
    refine ⟨List.length_map _, fun k hk => ?_⟩
    obtain ⟨size, hmem, rfl⟩ := List.mem_map.mp hk
    exact h size hmem
  have hsum := cut.sum_eq
  rw [hmap, List.sum_replicate, smul_eq_mul] at hsum
  exact Nat.eq_of_mul_eq_mul_right (by decide) hsum

/-- The client is handed the messages that were written exactly if each read delivers a whole one. -/
theorem messages_handed_over (ws : List Written) (cut : SyncCut ws.length) :
    HandsOver ws cut ↔ ∀ size ∈ cut.sizes, size.1 = syncMsgSize := by
  have hsum := cut.sum_eq
  constructor
  · intro h
    have hlength : cut.sizes.length = ws.length := by
      have hcount := congrArg List.length h
      rwa [length_handedMessages _ (hsum.trans (length_writtenBytes ws).symm).le,
        List.length_map] at hcount
    exact whole_of_sum (hsum.trans (by rw [hlength]))
  · intro h
    exact handedMessages_of_whole ws (cut.length_of_whole h) h

/-- The two halves of a message are two messages. -/
theorem messages_handed_over_halves :
    ¬ ∀ (ws : List Written) (cut : SyncCut ws.length), HandsOver ws cut := by
  intro h
  let w : Written := ⟨⟨.update, Ambient.zero.heap⟩, strncpy 2 []⟩
  have hands := h [w] ⟨[⟨36, by decide⟩, ⟨36, by decide⟩], by decide⟩
  exact absurd (congrArg List.length hands) (by decide +kernel)

theorem synchronizeRaw_raw (amb : Ambient) (rtm : RoutingTable) (m : SyncMsg) :
    synchronizeRaw amb rtm m.raw = synchronizeWithServer amb rtm m := by
  obtain ⟨opCode, msgBody⟩ := m
  cases opCode <;> rfl

theorem synchronizeHanded_raw (amb : ℕ → Ambient) (rtm : RoutingTable) (ms : List SyncMsg) :
    synchronizeHanded amb rtm (ms.map SyncMsg.raw) = synchronizeAll amb rtm ms := by
  induction ms generalizing amb rtm with
  | nil => rfl
  | cons m ms ih =>
      rw [List.map_cons, synchronizeHanded, synchronizeRaw_raw, ih, synchronizeAll]

/-- Reads of whole messages do to the table what a channel that delivers messages does. -/
theorem synchronizeHanded_of_whole (amb : ℕ → Ambient) (rtm : RoutingTable) (ws : List Written)
    (cut : SyncCut ws.length) (h : ∀ size ∈ cut.sizes, size.1 = syncMsgSize) :
    synchronizeHanded amb rtm (handedMessages (deliverSync cut.sizes (writtenBytes ws))) =
      synchronizeAll amb rtm (ws.map Written.syncMsg) := by
  rw [handedMessages_of_whole ws (cut.length_of_whole h) h, ← synchronizeHanded_raw, List.map_map]
  rfl

theorem SystemOk.readsAsChannel {s : System} (h : SystemOk s) : ReadsAsChannel s := by
  intro client hclient ws hws cut hwhole amb amb'
  have htable : synchronizeHanded amb [] (handedMessages (deliverSync cut.sizes (writtenBytes ws))) =
      client.replica.settled applyMessage := by
    rw [synchronizeHanded_of_whole amb [] ws cut hwhole, synchronizeAll_eq, hws]
    exact (h.settled client hclient).symm
  rw [htable, synchronizeAll_eq]
  exact ⟨rfl, h.settled_eq hclient⟩

/-- In every run of the server and its clients, reads of whole messages give a client the table that
the channel of messages gives it. -/
theorem whole_reads_follow_channel (start : Startup) (es : List SystemEvent) :
    Throughout systemStep ReadsAsChannel (System.init start) es :=
  throughout_of_invariant (fun _ _ _ h hstep => h.step hstep) (fun _ h => h.readsAsChannel)
    (SystemOk.init start) es

end LinuxIPC
