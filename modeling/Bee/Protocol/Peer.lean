import Bee.Protocol.Packets
import Bee.Lib.Word

namespace Bee

/-!
# bee-protocol — the peer worker

A node writes each packet for a peer as `tlv_to_bytes(packet)` on the peer's channel
(`sender.rs`).  On the other side the `PeerWorker` reads frames off the channel with its
`PacketHandler` and hands each to `process_packet` (`peer/mod.rs`), which dispatches on the
header's type: a request or a block goes on to the worker that serves it, and a heartbeat
sets the peer's fields.  A packet that fails `tlv_from_bytes`, or has a type of no packet,
counts as invalid.

The heartbeat arm then evaluates `!tangle.is_synced() && !peer.has_data(solid + 1)` for a log
line; `has_data` adds one to the peer's solid milestone index, a `u32` addition that panics
on overflow in a debug build.

* `processPacket_eq_none_iff` — `process_packet` panics only there: on a heartbeat whose
  solid milestone index is `u32::MAX`, received while the node is not synced and above the
  peer's pruned index;
* `processPacket_error_iff` — it rejects exactly the frames that are not the TLV encoding of
  a packet with a size in range;
* `PeerWorker.run_toBytes` — packets sent on a channel, chunked into events any way, reach
  the peer worker's loop and are delivered in order, none of them invalid.
-/

open Codec

/-- `SYNCED_THRESHOLD` of the tangle. -/
def SYNCED_THRESHOLD : UInt32 := 2

/-- `Tangle::is_synced_threshold`, over the tangle's solid and latest milestone indexes. -/
def isSyncedThreshold (solidMilestoneIndex latestMilestoneIndex threshold : UInt32) : Bool :=
  decide (latestMilestoneIndex.saturatingSub threshold ≤ solidMilestoneIndex)

/-- A node that is not synced has a solid milestone index below its latest one. -/
theorem lt_of_isSyncedThreshold_eq_false {smi lmi threshold : UInt32}
    (h : isSyncedThreshold smi lmi threshold = false) : smi.toNat < lmi.toNat := by
  simp only [isSyncedThreshold, decide_eq_false_iff_not, UInt32.le_iff_toNat_le,
    UInt32.toNat_saturatingSub] at h
  omega

/-! ### Peers -/

namespace ProtocolTypes

/-- The fields of `bee_protocol_types::Peer` that a heartbeat sets. -/
structure Peer where
  solidMilestoneIndex : UInt32
  prunedIndex : UInt32
  latestMilestoneIndex : UInt32
  connectedPeers : UInt8
  syncedPeers : UInt8
  deriving DecidableEq, Repr

namespace Peer

/-- `Peer::new`: every field at `0`. -/
def new : Peer := ⟨0, 0, 0, 0, 0⟩

/-- `Peer::has_data`: `index > pruned_index && index <= solid_milestone_index + 1`; the
addition, reached only past the first test, panics on overflow. -/
def hasData (peer : Peer) (index : UInt32) : Option Bool :=
  if index > peer.prunedIndex then
    (peer.solidMilestoneIndex.checkedAdd 1).map fun bound => decide (index ≤ bound)
  else some false

/-- The `set_*` calls of the heartbeat arm of `process_packet`. -/
def setHeartbeat (_peer : Peer) (packet : HeartbeatPacket) : Peer where
  solidMilestoneIndex := packet.solidMilestoneIndex
  prunedIndex := packet.prunedIndex
  latestMilestoneIndex := packet.latestMilestoneIndex
  connectedPeers := packet.connectedPeers
  syncedPeers := packet.syncedPeers

end Peer

end ProtocolTypes

/-! ### `process_packet` -/

/-- `peer::Error`. -/
inductive PeerError
  | unsupportedPacketType (packetType : UInt8)
  | tlvError (error : TlvError)
  deriving DecidableEq, Repr

/-- What `process_packet` sends on: a milestone request to the milestone responder, a block
to the hasher, a block request to the block responder. -/
inductive WorkerEvent
  | milestoneResponder (request : MilestoneRequestPacket)
  | hasher (blockPacket : BlockPacket)
  | blockResponder (request : BlockRequestPacket)
  deriving DecidableEq

/-- `tlv_from_bytes::<P>(header, bytes)?`, where `?` turns the error into the peer's. -/
def readPacket (P : Type) [Packet P] (header : HeaderPacket) (bytes : List UInt8) :
    Option (Except PeerError P) :=
  (tlvFromBytes P header bytes).map (Except.mapError .tlvError)

/-- An arm of `process_packet` that sends the packet on to a worker: `tlv_from_bytes::<P>`,
then the worker's event. -/
def forwardPacket (P : Type) [Packet P] (event : P → WorkerEvent) (peer : ProtocolTypes.Peer)
    (header : HeaderPacket) (bytes : List UInt8) :
    Option (Except PeerError (ProtocolTypes.Peer × List WorkerEvent)) :=
  (readPacket P header bytes).map (Except.map fun packet => (peer, [event packet]))

/-- The heartbeat arm past `tlv_from_bytes`: the peer's fields are set from the packet, then
`!tangle.is_synced() && !peer.has_data(solid_milestone_index + 1)` is evaluated for a log
line. -/
def receiveHeartbeat (solidMilestoneIndex latestMilestoneIndex : UInt32)
    (peer : ProtocolTypes.Peer) (packet : HeartbeatPacket) : Option ProtocolTypes.Peer := do
  let peer := peer.setHeartbeat packet
  if isSyncedThreshold solidMilestoneIndex latestMilestoneIndex SYNCED_THRESHOLD then pure peer
  else
    let index ← solidMilestoneIndex.checkedAdd 1
    let _ ← peer.hasData index
    pure peer

/-- `PeerWorker::process_packet` against a tangle with the given solid and latest milestone
indexes: the peer afterwards and what it sent on, or the error; `none` where it panics. -/
def processPacket (solidMilestoneIndex latestMilestoneIndex : UInt32)
    (peer : ProtocolTypes.Peer) (header : HeaderPacket) (bytes : List UInt8) :
    Option (Except PeerError (ProtocolTypes.Peer × List WorkerEvent)) :=
  if header.packetType = Packet.ID (P := MilestoneRequestPacket) then
    forwardPacket MilestoneRequestPacket .milestoneResponder peer header bytes
  else if header.packetType = Packet.ID (P := BlockPacket) then
    forwardPacket BlockPacket .hasher peer header bytes
  else if header.packetType = Packet.ID (P := BlockRequestPacket) then
    forwardPacket BlockRequestPacket .blockResponder peer header bytes
  else if header.packetType = Packet.ID (P := HeartbeatPacket) then
    match readPacket HeartbeatPacket header bytes with
    | some (.ok packet) =>
      (receiveHeartbeat solidMilestoneIndex latestMilestoneIndex peer packet).map
        fun peer => .ok (peer, [])
    | some (.error e) => some (.error e)
    | none => none
  else some (.error (.unsupportedPacketType header.packetType))

/-! ### The packets on the wire -/

/-- A packet a node sends to a peer. -/
inductive ProtocolPacket
  | milestoneRequest (packet : MilestoneRequestPacket)
  | block (packet : BlockPacket)
  | blockRequest (packet : BlockRequestPacket)
  | heartbeat (packet : HeartbeatPacket)

namespace ProtocolPacket

/-- `Sender::<P>::send` puts `tlv_to_bytes(packet)` on the peer's channel. -/
def toBytes : ProtocolPacket → List UInt8
  | .milestoneRequest packet => tlvToBytes packet
  | .block packet => tlvToBytes packet
  | .blockRequest packet => tlvToBytes packet
  | .heartbeat packet => tlvToBytes packet

/-- The packet's size is in its type's size range. -/
def inSizeRange : ProtocolPacket → Bool
  | .milestoneRequest packet => Packet.inSizeRange MilestoneRequestPacket (Packet.size packet)
  | .block packet => Packet.inSizeRange BlockPacket (Packet.size packet)
  | .blockRequest packet => Packet.inSizeRange BlockRequestPacket (Packet.size packet)
  | .heartbeat packet => Packet.inSizeRange HeartbeatPacket (Packet.size packet)

/-- The frame a packet of a size in range is written as. -/
def frame : (q : ProtocolPacket) → q.inSizeRange = true → Frame
  | .milestoneRequest packet, h => Packet.frame packet h
  | .block packet, h => Packet.frame packet h
  | .blockRequest packet, h => Packet.frame packet h
  | .heartbeat packet, h => Packet.frame packet h

/-- The header and the payload the peer reads for the packet. -/
def packet : ProtocolPacket → HeaderPacket × List UInt8
  | .milestoneRequest packet => (Packet.header packet, Packet.toBytes packet)
  | .block packet => (Packet.header packet, Packet.toBytes packet)
  | .blockRequest packet => (Packet.header packet, Packet.toBytes packet)
  | .heartbeat packet => (Packet.header packet, Packet.toBytes packet)

theorem toBytes_eq_frame (q : ProtocolPacket) (h : q.inSizeRange = true) :
    q.toBytes = (q.frame h).toBytes := by
  cases q <;> rfl

/-- The events a packet is meant to reach a worker as; a heartbeat reaches none. -/
def events : ProtocolPacket → List WorkerEvent
  | .milestoneRequest packet => [.milestoneResponder packet]
  | .block packet => [.hasher packet]
  | .blockRequest packet => [.blockResponder packet]
  | .heartbeat _ => []

/-- The peer's fields once the packet is received: a heartbeat sets them. -/
def setPeer (peer : ProtocolTypes.Peer) : ProtocolPacket → ProtocolTypes.Peer
  | .heartbeat packet => peer.setHeartbeat packet
  | _ => peer

theorem toBytes_eq_packet (q : ProtocolPacket) : q.toBytes = q.packet.1.toBytes ++ q.packet.2 := by
  cases q <;> rfl

@[simp] theorem frame_packet (q : ProtocolPacket) (h : q.inSizeRange = true) :
    (q.frame h).packet = q.packet := by
  cases q <;> rfl

/-- The bytes a packet is sent as are its header and payload and nothing else. -/
theorem packet_eq_of_toBytes {q : ProtocolPacket} {header : HeaderPacket} {bytes : List UInt8}
    (h : q.toBytes = header.toBytes ++ bytes) : q.packet = (header, bytes) := by
  rw [toBytes_eq_packet] at h
  obtain ⟨hh, hb⟩ := HeaderPacket.toBytes_append_inj h
  exact Prod.ext hh hb

/-- A packet of a size in range is one frame on the stream. -/
theorem decodeFrame_toBytes (q : ProtocolPacket) (h : q.inSizeRange = true) (rest : List UInt8) :
    PacketHandler.decodeFrame (q.toBytes ++ rest) = some (q.packet, rest) := by
  rw [toBytes_eq_frame q h, ← frame_packet q h]
  exact Frame.decodeFrame_append _ rest

end ProtocolPacket

/-! ### What `process_packet` does -/

section Process

variable {smi lmi : UInt32} {peer : ProtocolTypes.Peer} {header : HeaderPacket} {bytes : List UInt8}

theorem forwardPacket_of_ok {P : Type} [Packet P] {event : P → WorkerEvent} {p : P}
    (h : tlvFromBytes P header bytes = some (.ok p)) :
    forwardPacket P event peer header bytes = some (.ok (peer, [event p])) := by
  simp [forwardPacket, readPacket, h, Except.mapError, Except.map]

theorem forwardPacket_of_error {P : Type} [Packet P] {event : P → WorkerEvent} {e : TlvError}
    (h : tlvFromBytes P header bytes = some (.error e)) :
    forwardPacket P event peer header bytes = some (.error (.tlvError e)) := by
  simp [forwardPacket, readPacket, h, Except.mapError, Except.map]

/-! The dispatch on the header's type. -/

theorem processPacket_milestoneRequest (h : header.packetType = 1) :
    processPacket smi lmi peer header bytes =
      forwardPacket MilestoneRequestPacket .milestoneResponder peer header bytes := by
  rw [processPacket,
    if_pos (show header.packetType = Packet.ID (P := MilestoneRequestPacket) from h)]

theorem processPacket_block (h : header.packetType = 2) :
    processPacket smi lmi peer header bytes =
      forwardPacket BlockPacket .hasher peer header bytes := by
  rw [processPacket, if_neg (show header.packetType ≠ Packet.ID (P := MilestoneRequestPacket) by
    rw [h]; decide), if_pos (show header.packetType = Packet.ID (P := BlockPacket) from h)]

theorem processPacket_blockRequest (h : header.packetType = 3) :
    processPacket smi lmi peer header bytes =
      forwardPacket BlockRequestPacket .blockResponder peer header bytes := by
  rw [processPacket, if_neg (show header.packetType ≠ Packet.ID (P := MilestoneRequestPacket) by
    rw [h]; decide),
    if_neg (show header.packetType ≠ Packet.ID (P := BlockPacket) by rw [h]; decide),
    if_pos (show header.packetType = Packet.ID (P := BlockRequestPacket) from h)]

theorem processPacket_heartbeat (h : header.packetType = 4) :
    processPacket smi lmi peer header bytes =
      match readPacket HeartbeatPacket header bytes with
      | some (.ok packet) => (receiveHeartbeat smi lmi peer packet).map fun peer => .ok (peer, [])
      | some (.error e) => some (.error e)
      | none => none := by
  rw [processPacket, if_neg (show header.packetType ≠ Packet.ID (P := MilestoneRequestPacket) by
    rw [h]; decide),
    if_neg (show header.packetType ≠ Packet.ID (P := BlockPacket) by rw [h]; decide),
    if_neg (show header.packetType ≠ Packet.ID (P := BlockRequestPacket) by rw [h]; decide),
    if_pos (show header.packetType = Packet.ID (P := HeartbeatPacket) from h)]

theorem processPacket_heartbeat_ok {packet : HeartbeatPacket}
    (h : tlvFromBytes HeartbeatPacket header bytes = some (.ok packet)) :
    processPacket smi lmi peer header bytes =
      (receiveHeartbeat smi lmi peer packet).map fun peer => .ok (peer, []) := by
  rw [processPacket_heartbeat (tlvFromBytes_eq_ok_iff.mp h).1]
  simp [readPacket, h, Except.mapError]

theorem processPacket_heartbeat_error {e : TlvError} (ht : header.packetType = 4)
    (h : tlvFromBytes HeartbeatPacket header bytes = some (.error e)) :
    processPacket smi lmi peer header bytes = some (.error (.tlvError e)) := by
  rw [processPacket_heartbeat ht]
  simp [readPacket, h, Except.mapError]

theorem processPacket_unsupported (h₁ : header.packetType ≠ 1) (h₂ : header.packetType ≠ 2)
    (h₃ : header.packetType ≠ 3) (h₄ : header.packetType ≠ 4) :
    processPacket smi lmi peer header bytes =
      some (.error (.unsupportedPacketType header.packetType)) := by
  rw [processPacket,
    if_neg (show header.packetType ≠ Packet.ID (P := MilestoneRequestPacket) from h₁),
    if_neg (show header.packetType ≠ Packet.ID (P := BlockPacket) from h₂),
    if_neg (show header.packetType ≠ Packet.ID (P := BlockRequestPacket) from h₃),
    if_neg (show header.packetType ≠ Packet.ID (P := HeartbeatPacket) from h₄)]

/-! The heartbeat arm. -/

theorem receiveHeartbeat_eq_some {packet : HeartbeatPacket} {peer' : ProtocolTypes.Peer}
    (h : receiveHeartbeat smi lmi peer packet = some peer') : peer' = peer.setHeartbeat packet := by
  unfold receiveHeartbeat at h
  split at h
  · exact (Option.some.inj h).symm
  · simp only [Option.bind_eq_bind, Option.bind_eq_some_iff, Option.pure_def,
      Option.some.injEq] at h
    obtain ⟨_, -, _, -, rfl⟩ := h
    rfl

/-- The log test of the heartbeat arm panics exactly when the node is not synced, the index
after its solid milestone is above the peer's pruned index, and the peer's solid milestone
index is `u32::MAX`. -/
theorem receiveHeartbeat_eq_none_iff {packet : HeartbeatPacket} :
    receiveHeartbeat smi lmi peer packet = none ↔
      isSyncedThreshold smi lmi SYNCED_THRESHOLD = false ∧ packet.prunedIndex ≤ smi ∧
        packet.solidMilestoneIndex = 4294967295 := by
  unfold receiveHeartbeat
  cases hs : isSyncedThreshold smi lmi SYNCED_THRESHOLD with
  | true => simp
  | false =>
    -- not synced, the node is below its latest index, so `smi + 1` does not overflow
    have hlt := lt_of_isSyncedThreshold_eq_false hs
    have hlmi := lmi.toNat_lt
    have hadd : smi.checkedAdd 1 = some (smi + 1) :=
      UInt32.checkedAdd_eq_some_iff.mpr ⟨by simp; omega, by simp [UInt32.toNat_add]; omega⟩
    have hidx : (smi + 1).toNat = smi.toNat + 1 := by simp [UInt32.toNat_add]; omega
    have hpruned : packet.prunedIndex < smi + 1 ↔ packet.prunedIndex ≤ smi := by
      rw [UInt32.lt_iff_toNat_lt, UInt32.le_iff_toNat_le, hidx]
      omega
    have hmax : packet.solidMilestoneIndex.checkedAdd 1 = none ↔
        packet.solidMilestoneIndex = 4294967295 := by
      rw [UInt32.checkedAdd_eq_none_iff, ← UInt32.toNat_inj]
      have := packet.solidMilestoneIndex.toNat_lt
      simp only [UInt32.toNat_one, UInt32.reduceToNat]
      omega
    simp only [hadd, ProtocolTypes.Peer.hasData, ProtocolTypes.Peer.setHeartbeat,
      Option.bind_eq_bind, Option.bind_some, Option.pure_def, Bool.false_eq_true, ite_false,
      true_and, gt_iff_lt]
    split_ifs with hp
    · rw [← hmax]
      cases packet.solidMilestoneIndex.checkedAdd 1 <;> simp [hpruned.mp hp]
    · simp [hpruned.not.mp hp]

/-- The frame of a packet of a size in range is accepted: the packet reaches its worker, or,
for a heartbeat, sets the peer's fields unless the log test panics. -/
theorem processPacket_packet (smi lmi : UInt32) (peer : ProtocolTypes.Peer) (q : ProtocolPacket)
    (h : q.inSizeRange = true) :
    processPacket smi lmi peer q.packet.1 q.packet.2 = some (.ok (q.setPeer peer, q.events)) ∨
      ∃ packet, q = .heartbeat packet ∧ receiveHeartbeat smi lmi peer packet = none ∧
        processPacket smi lmi peer q.packet.1 q.packet.2 = none := by
  cases q with
  | milestoneRequest p =>
    exact .inl ((processPacket_milestoneRequest rfl).trans
      (forwardPacket_of_ok (tlvFromBytes_frame p h)))
  | block p =>
    exact .inl ((processPacket_block rfl).trans (forwardPacket_of_ok (tlvFromBytes_frame p h)))
  | blockRequest p =>
    exact .inl ((processPacket_blockRequest rfl).trans
      (forwardPacket_of_ok (tlvFromBytes_frame p h)))
  | heartbeat p =>
    have hread : processPacket smi lmi peer (Packet.header p) (Packet.toBytes p) =
        (receiveHeartbeat smi lmi peer p).map fun peer => .ok (peer, []) :=
      processPacket_heartbeat_ok (tlvFromBytes_frame p h)
    cases hr : receiveHeartbeat smi lmi peer p with
    | none =>
      rw [hr] at hread
      exact .inr ⟨p, rfl, hr, hread⟩
    | some peer' =>
      rw [hr, receiveHeartbeat_eq_some hr] at hread
      exact .inl hread

/-- Every frame is rejected, or is the frame of a packet of a size in range. -/
theorem processPacket_error_or_packet (smi lmi : UInt32) (peer : ProtocolTypes.Peer)
    (header : HeaderPacket) (bytes : List UInt8) :
    (∃ e, processPacket smi lmi peer header bytes = some (.error e)) ∨
      ∃ q : ProtocolPacket, q.inSizeRange = true ∧ q.packet = (header, bytes) := by
  -- a packet read by `tlv_from_bytes` is the one whose encoding the frame is
  have hpacket : ∀ {P : Type} [Packet P] [LawfulPacket P] (mk : P → ProtocolPacket) {p : P},
      (∀ p, (mk p).inSizeRange = Packet.inSizeRange P (Packet.size p) ∧
        (mk p).toBytes = tlvToBytes p) →
      tlvFromBytes P header bytes = some (.ok p) →
      ∃ q : ProtocolPacket, q.inSizeRange = true ∧ q.packet = (header, bytes) := by
    intro P _ _ mk p hmk hp
    obtain ⟨hrange, hbytes⟩ := tlvToBytes_of_tlvFromBytes hp
    exact ⟨mk p, (hmk p).1.trans hrange,
      ProtocolPacket.packet_eq_of_toBytes ((hmk p).2.trans hbytes)⟩
  by_cases h₁ : header.packetType = 1
  · rw [processPacket_milestoneRequest h₁]
    rcases tlvFromBytes_ok_or_error (P := MilestoneRequestPacket) header bytes with
      ⟨p, hp⟩ | ⟨e, he⟩
    · exact .inr (hpacket .milestoneRequest (fun _ => ⟨rfl, rfl⟩) hp)
    · exact .inl ⟨_, forwardPacket_of_error he⟩
  by_cases h₂ : header.packetType = 2
  · rw [processPacket_block h₂]
    rcases tlvFromBytes_ok_or_error (P := BlockPacket) header bytes with
      ⟨p, hp⟩ | ⟨e, he⟩
    · exact .inr (hpacket .block (fun _ => ⟨rfl, rfl⟩) hp)
    · exact .inl ⟨_, forwardPacket_of_error he⟩
  by_cases h₃ : header.packetType = 3
  · rw [processPacket_blockRequest h₃]
    rcases tlvFromBytes_ok_or_error (P := BlockRequestPacket) header bytes with
      ⟨p, hp⟩ | ⟨e, he⟩
    · exact .inr (hpacket .blockRequest (fun _ => ⟨rfl, rfl⟩) hp)
    · exact .inl ⟨_, forwardPacket_of_error he⟩
  by_cases h₄ : header.packetType = 4
  · rcases tlvFromBytes_ok_or_error (P := HeartbeatPacket) header bytes with
      ⟨p, hp⟩ | ⟨e, he⟩
    · exact .inr (hpacket .heartbeat (fun _ => ⟨rfl, rfl⟩) hp)
    · exact .inl ⟨_, processPacket_heartbeat_error h₄ he⟩
  exact .inl ⟨_, processPacket_unsupported h₁ h₂ h₃ h₄⟩

/-- **No panic but the heartbeat's.**  `process_packet` panics exactly on a well-formed
heartbeat whose solid milestone index is `u32::MAX`, received while the node is not synced
and with the index after the node's solid milestone above the heartbeat's pruned index. -/
theorem processPacket_eq_none_iff :
    processPacket smi lmi peer header bytes = none ↔
      ∃ packet : HeartbeatPacket,
        tlvFromBytes HeartbeatPacket header bytes = some (.ok packet) ∧
        isSyncedThreshold smi lmi SYNCED_THRESHOLD = false ∧ packet.prunedIndex ≤ smi ∧
          packet.solidMilestoneIndex = 4294967295 := by
  constructor
  · intro hnone
    rcases processPacket_error_or_packet smi lmi peer header bytes with
      ⟨e, he⟩ | ⟨q, hq, hpacket⟩
    · rw [hnone] at he
      cases he
    -- the frame is a packet's, and only a heartbeat's can panic
    rcases processPacket_packet smi lmi peer q hq with hok | ⟨p, rfl, hr, -⟩
    · rw [hpacket] at hok
      rw [hok] at hnone
      cases hnone
    · have hread : tlvFromBytes HeartbeatPacket header bytes = some (.ok p) := by
        have := tlvFromBytes_frame p hq
        simp only [ProtocolPacket.packet, Prod.mk.injEq] at hpacket
        rwa [← hpacket.1, ← hpacket.2]
      exact ⟨p, hread, receiveHeartbeat_eq_none_iff.mp hr⟩
  · rintro ⟨packet, hread, hpanic⟩
    rw [processPacket_heartbeat_ok hread, receiveHeartbeat_eq_none_iff.mpr hpanic]
    rfl

-- a heartbeat claiming `u32::MAX` as its solid milestone index, to a node that is not synced
example :
    processPacket 0 10 ProtocolTypes.Peer.new ⟨4, 14⟩
      (HeartbeatPacket.toBytes ⟨4294967295, 0, 0, 0, 0⟩) = none := by
  decide

/-- **Accepted frames are encodings.**  `process_packet` rejects a frame exactly when it is
not the TLV encoding of a packet of a size in range. -/
theorem processPacket_error_iff :
    (∃ e, processPacket smi lmi peer header bytes = some (.error e)) ↔
      ¬ ∃ q : ProtocolPacket, q.inSizeRange = true ∧ q.toBytes = header.toBytes ++ bytes := by
  constructor
  · rintro ⟨e, he⟩ ⟨q, hq, hbytes⟩
    have hpacket := ProtocolPacket.packet_eq_of_toBytes hbytes
    rcases processPacket_packet smi lmi peer q hq with hok | ⟨p, -, -, hnone⟩
    · rw [hpacket, he] at hok
      cases hok
    · rw [hpacket, he] at hnone
      cases hnone
  · intro hnot
    rcases processPacket_error_or_packet smi lmi peer header bytes with he | ⟨q, hq, hpacket⟩
    · exact he
    · refine absurd ⟨q, hq, ?_⟩ hnot
      rw [ProtocolPacket.toBytes_eq_packet, hpacket]

end Process

/-! ### The peer worker -/

/-- The peer worker along its loop: the peer's fields, the events it sent on, and its
`invalid_packets` count. -/
structure PeerWorker where
  peer : ProtocolTypes.Peer
  sent : List WorkerEvent
  invalidPackets : Nat

namespace PeerWorker

/-- The worker before its loop. -/
def new : PeerWorker := ⟨ProtocolTypes.Peer.new, [], 0⟩

/-- The body of the loop: `process_packet`, and `invalid_packets_inc` when it fails. -/
def handlePacket (solidMilestoneIndex latestMilestoneIndex : UInt32) (w : PeerWorker)
    (header : HeaderPacket) (bytes : List UInt8) : Option PeerWorker :=
  (processPacket solidMilestoneIndex latestMilestoneIndex w.peer header bytes).map fun
    | .ok (peer, events) => { w with peer, sent := w.sent ++ events }
    | .error _ => { w with invalidPackets := w.invalidPackets + 1 }

/-- `while let Some((header, bytes)) = packet_handler.fetch_packet().await`, for at most `n`
packets. -/
def loop (fuel : Nat) (solidMilestoneIndex latestMilestoneIndex : UInt32) :
    Nat → PacketHandler → PeerWorker → Option (PacketHandler × PeerWorker)
  | 0, p, w => some (p, w)
  | n + 1, p, w => do
    let (packet, p) ← PacketHandler.fetchPacket fuel p
    match packet with
    | none => pure (p, w)
    | some (header, bytes) =>
      let w ← w.handlePacket solidMilestoneIndex latestMilestoneIndex header bytes
      loop fuel solidMilestoneIndex latestMilestoneIndex n p w

/-- `PeerWorker::run` on the events of the peer's channel, for at most `n` packets. -/
def run (fuel n : Nat) (solidMilestoneIndex latestMilestoneIndex : UInt32)
    (receiver : List (List UInt8)) : Option PeerWorker :=
  (loop fuel solidMilestoneIndex latestMilestoneIndex n (PacketHandler.new receiver) new).map
    Prod.snd

/-- What receiving a packet is for: a request or a block goes on to the worker that serves
it, a heartbeat sets the peer's fields. -/
def deliver (w : PeerWorker) (q : ProtocolPacket) : PeerWorker :=
  { w with peer := q.setPeer w.peer, sent := w.sent ++ q.events }

section Run

variable {smi lmi : UInt32}

/-- The loop body does not touch the packet handler, so the loop reads its packets, then
handles them in turn. -/
theorem loop_eq (fuel n : Nat) (p : PacketHandler) (w : PeerWorker) :
    loop fuel smi lmi n p w = (PacketHandler.fetchPackets fuel n p).bind fun r =>
      (r.1.foldlM (fun (w : PeerWorker) (f : HeaderPacket × List UInt8) =>
        w.handlePacket smi lmi f.1 f.2) w).map fun w => (r.2, w) := by
  induction n generalizing p w with
  | zero => rfl
  | succ n ih =>
    simp only [loop, PacketHandler.fetchPackets, Option.bind_eq_bind]
    cases PacketHandler.fetchPacket fuel p with
    | none => rfl
    | some r =>
      obtain ⟨packet, p'⟩ := r
      cases packet with
      | none => rfl
      | some f =>
        obtain ⟨header, bytes⟩ := f
        cases hw : w.handlePacket smi lmi header bytes with
        | none =>
          -- a panic stops the loop, and the packets read after it are never handled
          cases hfetch : PacketHandler.fetchPackets fuel n p' <;>
            simp [hfetch, hw, List.foldlM_cons]
        | some w' =>
          simp only [Option.bind_some, hw, ih]
          cases PacketHandler.fetchPackets fuel n p' <;> simp [hw, List.foldlM_cons]

/-- The frame of a packet of a size in range is delivered, unless it is a heartbeat whose
solid milestone index is `u32::MAX`. -/
theorem handlePacket_packet (w : PeerWorker) (q : ProtocolPacket) (h : q.inSizeRange = true)
    (hq : ∀ packet, q = .heartbeat packet → packet.solidMilestoneIndex ≠ 4294967295) :
    w.handlePacket smi lmi q.packet.1 q.packet.2 = some (w.deliver q) := by
  rcases processPacket_packet smi lmi w.peer q h with hok | ⟨p, rfl, hr, -⟩
  · rw [handlePacket, hok]
    rfl
  · exact absurd (receiveHeartbeat_eq_none_iff.mp hr).2.2 (hq p rfl)

theorem foldlM_handlePacket (ps : List ProtocolPacket) (hsize : ∀ q ∈ ps, q.inSizeRange = true)
    (hheartbeat : ∀ packet, .heartbeat packet ∈ ps →
      packet.solidMilestoneIndex ≠ 4294967295)
    (w : PeerWorker) :
    (ps.map ProtocolPacket.packet).foldlM (fun (w : PeerWorker) (f : HeaderPacket × List UInt8) =>
      w.handlePacket smi lmi f.1 f.2) w =
      some (ps.foldl deliver w) := by
  induction ps generalizing w with
  | nil => rfl
  | cons q ps ih =>
    have hq : w.handlePacket smi lmi q.packet.1 q.packet.2 = some (w.deliver q) :=
      handlePacket_packet w q (hsize q List.mem_cons_self) fun packet hp =>
        hheartbeat packet (hp ▸ List.mem_cons_self)
    have hrest := ih (fun q' hq' => hsize q' (List.mem_cons_of_mem q hq'))
      (fun packet hp => hheartbeat packet (List.mem_cons_of_mem q hp)) (w.deliver q)
    simp only [List.map_cons, List.foldlM_cons, hq, Option.bind_eq_bind, Option.bind_some, hrest,
      List.foldl_cons]

/-- **End to end.**  Packets of sizes in range that a node sends on a peer's channel, chunked
into events any way, are read by the peer worker's loop and delivered in the order they were
sent, none of them invalid, when no heartbeat among them has a solid milestone index of
`u32::MAX`. -/
theorem run_toBytes {fuel : Nat} (smi lmi : UInt32) (ps : List ProtocolPacket)
    (hsize : ∀ q ∈ ps, q.inSizeRange = true)
    (hheartbeat : ∀ packet, .heartbeat packet ∈ ps →
      packet.solidMilestoneIndex ≠ 4294967295)
    (events : List (List UInt8)) (he : events.flatten = (ps.map ProtocolPacket.toBytes).flatten)
    (hf : events.length < fuel) :
    run fuel ps.length smi lmi events = some (ps.foldl deliver new) := by
  -- the stream is the packets' frames, one after another
  have hd :
      Decoder.many PacketHandler.decodeFrame ps.length (PacketHandler.new events).events.pending =
        some (⟨ps.map ProtocolPacket.packet, List.length_map _⟩, []) := by
    have hmany := Decoder.many_map_append_of PacketHandler.decodeFrame ProtocolPacket.toBytes
      ProtocolPacket.packet (fun q => q.inSizeRange = true)
      (fun q hq rest => q.decodeFrame_toBytes hq rest) ps hsize []
    rwa [List.append_nil, ← he] at hmany
  obtain ⟨p', hfetch, -, -⟩ :=
    PacketHandler.fetchPackets_refines (PacketHandler.reading_new events) hf hd
  rw [run, loop_eq, hfetch, Option.bind_some, foldlM_handlePacket ps hsize hheartbeat]
  rfl

/-- A milestone request, then a heartbeat, with the channel cutting the request's frame after
its header and the heartbeat's inside its header. -/
theorem run_request_then_heartbeat :
    run 4 2 0 10 [[1, 4, 0], [7, 0, 0, 0, 4, 14], [0, 3, 0, 0, 0, 1, 0, 0, 0, 5, 0, 0, 0, 2, 1]] =
      some ([ProtocolPacket.milestoneRequest ⟨7⟩, .heartbeat ⟨3, 1, 5, 2, 1⟩].foldl
        deliver new) :=
  run_toBytes 0 10 [.milestoneRequest ⟨7⟩, .heartbeat ⟨3, 1, 5, 2, 1⟩] (by decide) (by simp) _
    (by decide) (by decide)

end Run

end PeerWorker

end Bee
