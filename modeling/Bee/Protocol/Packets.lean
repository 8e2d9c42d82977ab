import Bee.Protocol.PacketHandler
import Bee.Block.Unpack

namespace Bee

open Codec

/-!
# bee-protocol — packets and their type-length-value encoding

The gossip protocol sends four kinds of packet (`packets/*.rs`).  Each is a `Packet`: an id,
the range of sizes its bytes may have, `from_bytes` and `to_bytes`.  `tlv_to_bytes` puts a
header with the id and the size in front of the packet's bytes; `tlv_from_bytes` checks the
header's type and length and the size range before it calls `from_bytes`, whose slicing
panics on a buffer of the wrong size.

* `LawfulPacket` — what the TLV layer relies on of a packet type: sizes that fit the header's
  `u16` length, a `to_bytes` that fills its buffer, and a `from_bytes` that within the size
  range never panics and is inverse to `to_bytes`.  Each of the four packets has an instance.
* `tlvFromBytes_isSome` — so `tlv_from_bytes` never panics; `tlvFromBytes_eq_error` — a
  rejected frame is rejected by the first check it fails, with that check's fields.
* `tlvFromBytes_frame` — a packet's TLV bytes are one frame, read back as the packet;
  `tlvToBytes_of_tlvFromBytes` — what `tlv_from_bytes` accepts is the TLV encoding of the
  packet it returns, so no packet has two encodings.
-/

/-! ### Slices -/

/-- `<[u8]>::split_at`, which panics when `mid` is past the end. -/
def splitAt (bytes : List UInt8) (mid : Nat) : Option (List UInt8 × List UInt8) :=
  if mid ≤ bytes.length then some (bytes.take mid, bytes.drop mid) else none

/-- `&bytes[0..mid]`, which panics when `mid` is past the end. -/
def sliceTo (bytes : List UInt8) (mid : Nat) : Option (List UInt8) :=
  (splitAt bytes mid).map Prod.fst

/-- `u32::from_le_bytes`. -/
def u32FromLeBytes (bytes : Vector UInt8 4) : UInt32 := (Word.leNat bytes.toList).toUInt32

/-- `u8::from_le_bytes`. -/
def u8FromLeBytes (bytes : Vector UInt8 1) : UInt8 := bytes[0]

/-- A `u32` split off the front of a slice: `split_at(4)`, then `try_into` and
`u32::from_le_bytes`. -/
def splitU32 (bytes : List UInt8) : Option (UInt32 × List UInt8) := do
  let (b, next) ← splitAt bytes 4
  let v ← tryInto 4 b
  pure (u32FromLeBytes v, next)

/-- A `u8` split off the front of a slice: `split_at(1)`, then `try_into` and
`u8::from_le_bytes`. -/
def splitU8 (bytes : List UInt8) : Option (UInt8 × List UInt8) := do
  let (b, next) ← splitAt bytes 1
  let v ← tryInto 1 b
  pure (u8FromLeBytes v, next)

theorem tryInto_take {n : Nat} {s : List UInt8} (h : n ≤ s.length) :
    ∃ v, tryInto n (s.take n) = some v ∧ v.toList = s.take n :=
  ⟨_, dif_pos (List.length_take_of_le h), by simp⟩

/-- Splitting a `u32` off a slice reads it as the codec does. -/
theorem splitU32_eq (s : List UInt8) : splitU32 s = Decoder.u32 s := by
  by_cases h : 4 ≤ s.length
  · obtain ⟨v, hv, hl⟩ := tryInto_take h
    simp [splitU32, splitAt, h, hv, u32FromLeBytes, hl, Decoder.u32, Decoder.leNat, Decoder.bytes]
  · simp [splitU32, splitAt, h, Decoder.u32, Decoder.leNat, Decoder.bytes]

/-- Splitting a `u8` off a slice reads it as the codec does. -/
theorem splitU8_eq (s : List UInt8) : splitU8 s = Decoder.u8 s := by
  cases s with
  | nil => rfl
  | cons b rest => simp [splitU8, splitAt, tryInto, u8FromLeBytes]

/-! ### Packets -/

/-- `Packet`: a packet of the protocol, with the id that announces it and the sizes its
bytes may have. -/
class Packet (P : Type) where
  /-- `Packet::ID`. -/
  ID : UInt8
  /-- `Packet::size_range`, the half-open range `start..end`. -/
  sizeRange : Nat × Nat
  /-- `Packet::from_bytes`; `none` where it panics. -/
  fromBytes : List UInt8 → Option P
  /-- `Packet::size`. -/
  size : P → Nat
  /-- `Packet::to_bytes`: the bytes it writes into a buffer of `size` bytes. -/
  toBytes : P → List UInt8

/-- `P::size_range().contains(&len)`. -/
def Packet.inSizeRange (P : Type) [Packet P] (len : Nat) : Bool :=
  decide ((Packet.sizeRange (P := P)).1 ≤ len) && decide (len < (Packet.sizeRange (P := P)).2)

/-- What the TLV layer relies on of a packet type. -/
class LawfulPacket (P : Type) [Packet P] : Prop where
  /-- Every size in range fits the `u16` length of a header. -/
  end_le : (Packet.sizeRange (P := P)).2 ≤ 2 ^ 16
  /-- `to_bytes` fills its buffer of `size` bytes. -/
  length_toBytes : ∀ p : P, (Packet.toBytes p).length = Packet.size p
  /-- `from_bytes` reads back what `to_bytes` wrote. -/
  fromBytes_toBytes : ∀ p : P, Packet.inSizeRange P (Packet.size p) = true →
    Packet.fromBytes (Packet.toBytes p) = some p
  /-- Within the size range `from_bytes` never panics, and reads a packet that writes the
  same bytes. -/
  toBytes_fromBytes : ∀ bytes : List UInt8, Packet.inSizeRange P bytes.length = true →
    ∃ p : P, Packet.fromBytes bytes = some p ∧ Packet.toBytes p = bytes

/-! ### Type-length-value -/

/-- `tlv::Error`. -/
inductive TlvError
  | invalidAdvertisedType (found advertised : UInt8)
  | invalidAdvertisedLength (typeId : UInt8) (advertised found : Nat)
  | invalidLength (typeId : UInt8) (len : Nat)
  deriving DecidableEq, Repr

/-- `tlv_from_bytes::<P>`: the header's type, then its length, then the size range are
checked before `P::from_bytes`; `none` where `from_bytes` panics. -/
def tlvFromBytes (P : Type) [Packet P] (header : HeaderPacket) (bytes : List UInt8) :
    Option (Except TlvError P) :=
  if header.packetType ≠ Packet.ID (P := P) then
    some (.error (.invalidAdvertisedType (Packet.ID (P := P)) header.packetType))
  else if header.packetLength.toNat ≠ bytes.length then
    some (.error (.invalidAdvertisedLength header.packetType header.packetLength.toNat bytes.length))
  else if !Packet.inSizeRange P bytes.length then
    some (.error (.invalidLength header.packetType bytes.length))
  else (Packet.fromBytes bytes).map .ok

/-- The header `tlv_to_bytes` writes: the packet's id, and its size as a `u16`. -/
def Packet.header {P : Type} [Packet P] (packet : P) : HeaderPacket :=
  { packetType := Packet.ID (P := P), packetLength := (Packet.size packet).toUInt16 }

@[simp] theorem Packet.packetType_header {P : Type} [Packet P] (packet : P) :
    (Packet.header packet).packetType = Packet.ID (P := P) := rfl

@[simp] theorem Packet.packetLength_header {P : Type} [Packet P] (packet : P) :
    (Packet.header packet).packetLength = (Packet.size packet).toUInt16 := rfl

/-- `tlv_to_bytes`: the header, then the packet's bytes. -/
def tlvToBytes {P : Type} [Packet P] (packet : P) : List UInt8 :=
  (Packet.header packet).toBytes ++ Packet.toBytes packet

/-- A header and the bytes after it are read back from the stream they make. -/
theorem HeaderPacket.toBytes_append_inj {h₁ h₂ : HeaderPacket} {b₁ b₂ : List UInt8}
    (h : h₁.toBytes ++ b₁ = h₂.toBytes ++ b₂) : h₁ = h₂ ∧ b₁ = b₂ := by
  have hd := HeaderPacket.decode_append h₁ b₁
  rw [h, HeaderPacket.decode_append] at hd
  simpa [eq_comm] using hd

section Tlv

variable {P : Type} [Packet P]

theorem inSizeRange_iff {len : Nat} :
    Packet.inSizeRange P len = true ↔
      (Packet.sizeRange (P := P)).1 ≤ len ∧ len < (Packet.sizeRange (P := P)).2 := by
  simp [Packet.inSizeRange]

theorem tlvFromBytes_eq_ok_iff {header : HeaderPacket} {bytes : List UInt8} {p : P} :
    tlvFromBytes P header bytes = some (.ok p) ↔
      header.packetType = Packet.ID (P := P) ∧ header.packetLength.toNat = bytes.length ∧
        Packet.inSizeRange P bytes.length = true ∧ Packet.fromBytes bytes = some p := by
  unfold tlvFromBytes
  split_ifs with h₁ h₂ h₃ <;> simp_all

/-- A rejected frame is rejected by the first check it fails, and the error carries that
check's fields. -/
theorem tlvFromBytes_eq_error {header : HeaderPacket} {bytes : List UInt8} {e : TlvError}
    (h : tlvFromBytes P header bytes = some (.error e)) :
    (header.packetType ≠ Packet.ID (P := P) ∧
        e = .invalidAdvertisedType (Packet.ID (P := P)) header.packetType) ∨
      (header.packetType = Packet.ID (P := P) ∧ header.packetLength.toNat ≠ bytes.length ∧
        e = .invalidAdvertisedLength header.packetType header.packetLength.toNat bytes.length) ∨
      (header.packetType = Packet.ID (P := P) ∧ header.packetLength.toNat = bytes.length ∧
        Packet.inSizeRange P bytes.length = false ∧ e = .invalidLength header.packetType bytes.length) := by
  unfold tlvFromBytes at h
  split_ifs at h with h₁ h₂ h₃
  · exact .inl ⟨h₁, (Except.error.inj (Option.some.inj h)).symm⟩
  · exact .inr (.inl ⟨not_not.mp h₁, h₂, (Except.error.inj (Option.some.inj h)).symm⟩)
  · exact .inr (.inr ⟨not_not.mp h₁, not_not.mp h₂, by simpa using h₃,
      (Except.error.inj (Option.some.inj h)).symm⟩)
  · simp at h

section Lawful

variable [LawfulPacket P]

theorem size_lt_of_inSizeRange {p : P} (h : Packet.inSizeRange P (Packet.size p) = true) :
    Packet.size p < 2 ^ 16 :=
  lt_of_lt_of_le (inSizeRange_iff.mp h).2 LawfulPacket.end_le

theorem toNat_toUInt16_size {p : P} (h : Packet.inSizeRange P (Packet.size p) = true) :
    (Packet.size p).toUInt16.toNat = Packet.size p := by
  rw [Nat.toUInt16, UInt16.toNat_ofNat']
  exact Nat.mod_eq_of_lt (size_lt_of_inSizeRange h)

/-- The frame `tlv_to_bytes` writes for a packet of a size in range. -/
def Packet.frame (p : P) (h : Packet.inSizeRange P (Packet.size p) = true) : Frame where
  header := Packet.header p
  payload := Packet.toBytes p
  length_payload := by
    rw [LawfulPacket.length_toBytes, Packet.packetLength_header, toNat_toUInt16_size h]

/-- `tlv_from_bytes` never panics: within the size range `from_bytes` does not. -/
theorem tlvFromBytes_isSome (header : HeaderPacket) (bytes : List UInt8) :
    (tlvFromBytes P header bytes).isSome := by
  unfold tlvFromBytes
  split_ifs with h₁ h₂ h₃
  · rfl
  · rfl
  · rfl
  · obtain ⟨p, hp, -⟩ := LawfulPacket.toBytes_fromBytes bytes (by simpa using h₃)
    simp [hp]

/-- `tlv_from_bytes` returns a packet or an error. -/
theorem tlvFromBytes_ok_or_error (header : HeaderPacket) (bytes : List UInt8) :
    (∃ p, tlvFromBytes P header bytes = some (.ok p)) ∨
      ∃ e, tlvFromBytes P header bytes = some (.error e) := by
  obtain ⟨r, hr⟩ := Option.isSome_iff_exists.mp (tlvFromBytes_isSome (P := P) header bytes)
  cases r with
  | ok p => exact .inl ⟨p, hr⟩
  | error e => exact .inr ⟨e, hr⟩

/-- **Round trip.**  The frame of a packet is read back as the packet. -/
theorem tlvFromBytes_frame (p : P) (h : Packet.inSizeRange P (Packet.size p) = true) :
    tlvFromBytes P (Packet.frame p h).header (Packet.frame p h).payload = some (.ok p) := by
  have hlen : (Packet.toBytes p).length = Packet.size p := LawfulPacket.length_toBytes p
  have hrange : Packet.inSizeRange P (Packet.toBytes p).length = true := by rwa [hlen]
  refine tlvFromBytes_eq_ok_iff.mpr ⟨rfl, ?_, hrange, LawfulPacket.fromBytes_toBytes p h⟩
  show (Packet.size p).toUInt16.toNat = (Packet.toBytes p).length
  rw [hlen, toNat_toUInt16_size h]

/-- **Canonical encoding.**  What `tlv_from_bytes` accepts is the TLV encoding of the packet
it returns. -/
theorem tlvToBytes_of_tlvFromBytes {header : HeaderPacket} {bytes : List UInt8} {p : P}
    (h : tlvFromBytes P header bytes = some (.ok p)) :
    Packet.inSizeRange P (Packet.size p) = true ∧ tlvToBytes p = header.toBytes ++ bytes := by
  obtain ⟨htype, hlen, hrange, hp⟩ := tlvFromBytes_eq_ok_iff.mp h
  obtain ⟨p', hp', hbytes⟩ := LawfulPacket.toBytes_fromBytes bytes hrange
  obtain rfl : p = p' := Option.some.inj (hp.symm.trans hp')
  have hsize : Packet.size p = bytes.length := by rw [← LawfulPacket.length_toBytes p, hbytes]
  have hheader : header = Packet.header p := by
    obtain ⟨t, l⟩ := header
    simp only at htype hlen
    subst htype
    unfold Packet.header
    congr
    apply UInt16.toNat_inj.mp
    rw [toNat_toUInt16_size (hsize ▸ hrange), hlen, hsize]
  refine ⟨hsize ▸ hrange, ?_⟩
  rw [tlvToBytes, hbytes, hheader]

end Lawful

end Tlv

/-! ### `MilestoneRequestPacket` -/

/-- `MilestoneRequestPacket`: a request for the milestone of an index. -/
structure MilestoneRequestPacket where
  index : UInt32
  deriving DecidableEq, Repr

namespace MilestoneRequestPacket

/-- `INDEX_SIZE`. -/
abbrev INDEX_SIZE : Nat := 4

/-- `CONSTANT_SIZE`. -/
abbrev CONSTANT_SIZE : Nat := INDEX_SIZE

/-- `MilestoneRequestPacket::from_bytes`: the index read from `bytes[0..INDEX_SIZE]`. -/
def fromBytes (bytes : List UInt8) : Option MilestoneRequestPacket := do
  let v ← tryInto 4 (← sliceTo bytes INDEX_SIZE)
  pure ⟨u32FromLeBytes v⟩

/-- `MilestoneRequestPacket::to_bytes`: the index's little-endian bytes. -/
def toBytes (p : MilestoneRequestPacket) : List UInt8 := Encoder.u32 p.index

instance : Packet MilestoneRequestPacket where
  ID := 0x01
  sizeRange := (CONSTANT_SIZE, CONSTANT_SIZE + 1)
  fromBytes := fromBytes
  size _ := CONSTANT_SIZE
  toBytes := toBytes

/-- The index is read off the front of the buffer as the codec reads a `u32`. -/
theorem fromBytes_eq (s : List UInt8) : fromBytes s = (Decoder.u32 s).map fun r => ⟨r.1⟩ := by
  rw [← splitU32_eq]
  by_cases h : 4 ≤ s.length
  · obtain ⟨v, hv, -⟩ := tryInto_take h
    simp [fromBytes, sliceTo, splitU32, splitAt, h, hv]
  · simp [fromBytes, sliceTo, splitU32, splitAt, h]

instance : LawfulPacket MilestoneRequestPacket where
  end_le := by decide
  length_toBytes _ := Encoder.length_u32 _
  fromBytes_toBytes p _ := by
    show fromBytes (Encoder.u32 p.index) = some p
    have hread := Decoder.u32_append p.index []
    rw [List.append_nil] at hread
    rw [fromBytes_eq, hread]
    rfl
  toBytes_fromBytes bytes h := by
    have hlen : 4 ≤ bytes.length ∧ bytes.length < 5 := inSizeRange_iff.mp h
    obtain ⟨x, rest, rfl⟩ := Decoder.exists_u32_append hlen.1
    obtain rfl : rest = [] := List.eq_nil_of_length_eq_zero (by simp at hlen; omega)
    refine ⟨⟨x⟩, ?_, rfl⟩
    show fromBytes (Encoder.u32 x ++ []) = some ⟨x⟩
    rw [fromBytes_eq, Decoder.u32_append]
    rfl

end MilestoneRequestPacket

/-! ### `BlockPacket` -/

/-- `Block::LENGTH_MIN`. -/
def Block.LENGTH_MIN : Nat := 46

/-- `BlockPacket`: the bytes of a block. -/
structure BlockPacket where
  bytes : List UInt8
  deriving DecidableEq, Repr

namespace BlockPacket

/-- `BlockPacket::from_bytes`: `bytes.to_vec()`. -/
def fromBytes (bytes : List UInt8) : Option BlockPacket := some ⟨bytes⟩

/-- `BlockPacket::to_bytes`: `copy_from_slice(&self.bytes)` into a buffer of `size` bytes. -/
def toBytes (p : BlockPacket) : List UInt8 := p.bytes

instance : Packet BlockPacket where
  ID := 0x02
  sizeRange := (Block.LENGTH_MIN, Block.LENGTH_MAX + 1)
  fromBytes := fromBytes
  size p := p.bytes.length
  toBytes := toBytes

instance : LawfulPacket BlockPacket where
  end_le := by decide
  length_toBytes _ := rfl
  fromBytes_toBytes _ _ := rfl
  toBytes_fromBytes bytes _ := ⟨⟨bytes⟩, rfl, rfl⟩

end BlockPacket

/-! ### `BlockRequestPacket` -/

/-- `BlockRequestPacket`: a request for a block by its id. -/
structure BlockRequestPacket where
  blockId : BlockId
  deriving DecidableEq

namespace BlockRequestPacket

/-- `BLOCK_ID_SIZE`. -/
abbrev BLOCK_ID_SIZE : Nat := 32

/-- `CONSTANT_SIZE`. -/
abbrev CONSTANT_SIZE : Nat := BLOCK_ID_SIZE

/-- `BlockRequestPacket::from_bytes`: `copy_from_slice(&bytes[0..BLOCK_ID_SIZE])` into a
`[u8; BLOCK_ID_SIZE]`, which panics unless the lengths agree. -/
def fromBytes (bytes : List UInt8) : Option BlockRequestPacket := do
  let blockId ← tryInto BLOCK_ID_SIZE (← sliceTo bytes BLOCK_ID_SIZE)
  pure ⟨⟨blockId.toList, by simp⟩⟩

/-- `BlockRequestPacket::to_bytes`: the id's bytes. -/
def toBytes (p : BlockRequestPacket) : List UInt8 := p.blockId.toList

instance : Packet BlockRequestPacket where
  ID := 0x03
  sizeRange := (CONSTANT_SIZE, CONSTANT_SIZE + 1)
  fromBytes := fromBytes
  size _ := CONSTANT_SIZE
  toBytes := toBytes

theorem fromBytes_eq_some {s : List UInt8} (h : s.length = BLOCK_ID_SIZE) :
    fromBytes s = some ⟨⟨s, h⟩⟩ := by
  simp [fromBytes, sliceTo, splitAt, h, tryInto]

instance : LawfulPacket BlockRequestPacket where
  end_le := by decide
  length_toBytes p := p.blockId.length_eq
  fromBytes_toBytes p _ := fromBytes_eq_some p.blockId.length_eq
  toBytes_fromBytes bytes h := by
    have hlen : 32 ≤ bytes.length ∧ bytes.length < 33 := inSizeRange_iff.mp h
    exact ⟨_, fromBytes_eq_some (show bytes.length = 32 by omega), rfl⟩

end BlockRequestPacket

/-! ### `HeartbeatPacket` -/

/-- `HeartbeatPacket`: the part of the tangle a node stores, and how many peers it has. -/
structure HeartbeatPacket where
  solidMilestoneIndex : UInt32
  prunedIndex : UInt32
  latestMilestoneIndex : UInt32
  connectedPeers : UInt8
  syncedPeers : UInt8
  deriving DecidableEq, Repr

namespace HeartbeatPacket

/-- `SOLID_MILESTONE_INDEX_SIZE`. -/
abbrev SOLID_MILESTONE_INDEX_SIZE : Nat := 4

/-- `PRUNED_INDEX_SIZE`. -/
abbrev PRUNED_INDEX_SIZE : Nat := 4

/-- `LATEST_MILESTONE_INDEX_SIZE`. -/
abbrev LATEST_MILESTONE_INDEX_SIZE : Nat := 4

/-- `CONNECTED_PEERS_SIZE`. -/
abbrev CONNECTED_PEERS_SIZE : Nat := 1

/-- `SYNCED_PEERS_SIZE`. -/
abbrev SYNCED_PEERS_SIZE : Nat := 1

/-- `CONSTANT_SIZE`. -/
abbrev CONSTANT_SIZE : Nat := SOLID_MILESTONE_INDEX_SIZE + PRUNED_INDEX_SIZE +
  LATEST_MILESTONE_INDEX_SIZE + CONNECTED_PEERS_SIZE + SYNCED_PEERS_SIZE

/-- `HeartbeatPacket::from_bytes`: each field split off the front in turn; the bytes after
the last are ignored. -/
def fromBytes (bytes : List UInt8) : Option HeartbeatPacket := do
  let (solidMilestoneIndex, next) ← splitU32 bytes
  let (prunedIndex, next) ← splitU32 next
  let (latestMilestoneIndex, next) ← splitU32 next
  let (connectedPeers, next) ← splitU8 next
  let (syncedPeers, _) ← splitU8 next
  pure { solidMilestoneIndex, prunedIndex, latestMilestoneIndex, connectedPeers, syncedPeers }

/-- `HeartbeatPacket::to_bytes`: the fields' little-endian bytes in turn. -/
def toBytes (p : HeartbeatPacket) : List UInt8 :=
  Encoder.u32 p.solidMilestoneIndex ++ Encoder.u32 p.prunedIndex ++
    Encoder.u32 p.latestMilestoneIndex ++ Encoder.u8 p.connectedPeers ++ Encoder.u8 p.syncedPeers

instance : Packet HeartbeatPacket where
  ID := 0x04
  sizeRange := (CONSTANT_SIZE, CONSTANT_SIZE + 1)
  fromBytes := fromBytes
  size _ := CONSTANT_SIZE
  toBytes := toBytes

theorem fromBytes_toBytes_append (p : HeartbeatPacket) (rest : List UInt8) :
    fromBytes (toBytes p ++ rest) = some p := by
  simp only [fromBytes, toBytes, splitU32_eq, splitU8_eq, List.append_assoc, Decoder.u32_append,
    Decoder.u8_append, Option.bind_eq_bind, Option.bind_some, Option.pure_def]

instance : LawfulPacket HeartbeatPacket where
  end_le := by decide
  length_toBytes p := by
    show (toBytes p).length = 14
    simp [toBytes, Encoder.u8]
  fromBytes_toBytes p _ := by
    show fromBytes (toBytes p) = some p
    simpa using fromBytes_toBytes_append p []
  toBytes_fromBytes bytes h := by
    have hlen : 14 ≤ bytes.length ∧ bytes.length < 15 := inSizeRange_iff.mp h
    -- the three indexes, then the two counts, and nothing after them
    obtain ⟨a, r₁, rfl⟩ := Decoder.exists_u32_append (s := bytes) (by omega)
    obtain ⟨b, r₂, rfl⟩ := Decoder.exists_u32_append (s := r₁) (by simp at hlen; omega)
    obtain ⟨c, r₃, rfl⟩ := Decoder.exists_u32_append (s := r₂) (by simp at hlen; omega)
    obtain _ | ⟨d, _ | ⟨e, r₅⟩⟩ := r₃
    · simp at hlen
    · simp at hlen
    · obtain rfl : r₅ = [] := List.eq_nil_of_length_eq_zero (by simp at hlen; omega)
      have hread := fromBytes_toBytes_append ⟨a, b, c, d, e⟩ []
      simp only [toBytes, Encoder.u8, List.append_assoc, List.cons_append, List.nil_append,
        List.append_nil] at hread
      refine ⟨⟨a, b, c, d, e⟩, hread, ?_⟩
      show toBytes _ = _
      simp [toBytes, Encoder.u8]

end HeartbeatPacket

end Bee
