import Bee.Lib.Codec
import Mathlib

namespace Bee

/-!
# bee-protocol — TLV framing over a chunked event stream

A peer's bytes reach the protocol as a stream of events, `Vec<u8>` chunks of
any size.  The `EventHandler` appends them to a buffer read from an offset, and
the `PacketHandler` alternates between reading a 3-byte header and reading the
payload the header announces (`peer/packet_handler.rs`, `packets/header.rs`).

The async loops are modelled twice.  With fuel, `none` is a call that does not
return within the fuel, or a panic.  Poll by poll, each `next()` spends a unit of
the task's cooperative budget (tokio's `coop`), and a poll that has spent it
yields `Pending`; `select!` draws the order of its branches on every poll.  The
receiver is the list of events still to come; after them the stream is closed
and `next()` yields `None`.  The shutdown oneshot is a flag: set when the signal
is ready and not yet taken.

* `EventHandler.Inv`, `EventHandler.pending` — `offset ≤ buffer.len()`, and the
  bytes not yet read, buffered or still to be received;
* `fetchBytes_fetched` — a `fetch_bytes` that returns has read the next `len`
  pending bytes; `fetchBytes_spec` — with enough pending bytes and fuel beyond
  the events it returns;
* `PacketHandler.decodeFrame` — the abstract reader of one TLV frame off a
  byte stream; `fetchPackets_refines` — over every chunking into events, the
  handler reads what `Decoder.many decodeFrame` reads off the concatenated
  stream;
* `Frame` — a header and a payload of the length it gives;
  `fetchPackets_frames` — a stream of frames is read back frame by frame;
* `pollFetchBytes_short` — short of `len` bytes, every poll of `fetch_bytes`
  yields and loses no byte; `pollFetchPacket_stalled` — a handler stalled short of
  a frame stays so, and each poll of `fetch_packet` yields without a shutdown
  signal and returns `None` with one, in either order of the `select!`.
-/

open Codec

/-! ### Header -/

/-- `HEADER_TYPE_SIZE`. -/
abbrev HEADER_TYPE_SIZE : Nat := 1

/-- `HEADER_LENGTH_SIZE`. -/
abbrev HEADER_LENGTH_SIZE : Nat := 2

/-- `HEADER_SIZE`. -/
abbrev HEADER_SIZE : Nat := HEADER_TYPE_SIZE + HEADER_LENGTH_SIZE

/-- `HeaderPacket`: the type and length of a type-length-value frame. -/
structure HeaderPacket where
  packetType : UInt8
  packetLength : UInt16
  deriving DecidableEq, Repr

namespace HeaderPacket

/-- `HeaderPacket::from_bytes`: the type byte, then the length as a little-endian
`u16`. -/
def fromBytes (bytes : Vector UInt8 HEADER_SIZE) : HeaderPacket :=
  { packetType := bytes[0]
    packetLength := (Word.leNat [bytes[1], bytes[2]]).toUInt16 }

/-- `HeaderPacket::to_bytes` into a slice of `HEADER_SIZE` bytes. -/
def toBytes (h : HeaderPacket) : List UInt8 :=
  Encoder.u8 h.packetType ++ Encoder.u16 h.packetLength

@[simp] theorem length_toBytes (h : HeaderPacket) : h.toBytes.length = HEADER_SIZE := by
  simp [toBytes, Encoder.u8, HEADER_SIZE, HEADER_TYPE_SIZE, HEADER_LENGTH_SIZE]

/-- The header at the front of a byte stream, as the TLV format lays it out. -/
def decode : Decoder HeaderPacket := fun s => do
  let (packetType, s) ← Decoder.u8 s
  let (packetLength, s) ← Decoder.u16 s
  pure (⟨packetType, packetLength⟩, s)

theorem decode_append (h : HeaderPacket) (rest : List UInt8) :
    decode (h.toBytes ++ rest) = some (h, rest) := by
  simp only [decode, toBytes, List.append_assoc, Decoder.u8_append, Decoder.u16_append,
    Option.bind_eq_bind, Option.bind_some, Option.pure_def]

end HeaderPacket

/-- `bytes.try_into()` from a slice to an array of `n` bytes; `none` (the
`unwrap` panics) unless the slice has exactly `n` bytes. -/
def tryInto (n : Nat) (bytes : List UInt8) : Option (Vector UInt8 n) :=
  if h : bytes.length = n then some ⟨bytes.toArray, List.size_toArray.trans h⟩ else none

/-- A header read off a stream is three bytes: the type, then the length as a
little-endian `u16`. -/
theorem HeaderPacket.decode_eq_some {s rest : List UInt8} {h : HeaderPacket} :
    HeaderPacket.decode s = some (h, rest) ↔
      ∃ t b₁ b₂, s = t :: b₁ :: b₂ :: rest ∧ h = ⟨t, (Word.leNat [b₁, b₂]).toUInt16⟩ := by
  rcases s with _ | ⟨t, _ | ⟨b₁, _ | ⟨b₂, r⟩⟩⟩ <;>
    simp [HeaderPacket.decode, Decoder.u8, Decoder.u16, Decoder.leNat, Decoder.bytes, eq_comm, and_comm]

/-- The three bytes the handler fetches for a header convert to an array and
read as `HeaderPacket.decode` reads them. -/
theorem fromBytes_of_decode {s rest : List UInt8} {h : HeaderPacket}
    (hd : HeaderPacket.decode s = some (h, rest)) :
    (tryInto HEADER_SIZE (s.take HEADER_SIZE)).map HeaderPacket.fromBytes = some h ∧
      rest = s.drop HEADER_SIZE := by
  obtain ⟨t, b₁, b₂, rfl, rfl⟩ := HeaderPacket.decode_eq_some.mp hd
  exact ⟨rfl, rfl⟩

/-! ### Event handler -/

/-- `EventHandler`: the events still to be received, the buffer they are
appended to, and the offset of the first byte not yet read. -/
structure EventHandler where
  receiver : List (List UInt8)
  buffer : List UInt8
  offset : Nat
  deriving DecidableEq, Repr

namespace EventHandler

/-- `EventHandler::new`. -/
def new (receiver : List (List UInt8)) : EventHandler := ⟨receiver, [], 0⟩

/-- `receiver.next()`: the next event, or `None` once the stream is closed. -/
def next (h : EventHandler) : Option (List UInt8) × EventHandler :=
  match h.receiver with
  | [] => (none, h)
  | event :: rest => (some event, { h with receiver := rest })

/-- `EventHandler::push_event`: drop the bytes already read (`split_off`, which
panics past the end of the buffer), reset the offset and append the event. -/
def pushEvent (h : EventHandler) (bytes : List UInt8) : Option EventHandler :=
  if h.offset ≤ h.buffer.length then
    some { h with buffer := h.buffer.drop h.offset ++ bytes, offset := 0 }
  else none

/-- `EventHandler::fetch_bytes`: receive events until the buffer holds `len`
bytes past the offset, then return them.  An event that is `None` is ignored
and the loop goes round again. -/
def fetchBytes : Nat → EventHandler → Nat → Option (List UInt8 × EventHandler)
  | 0, _, _ => none
  | fuel + 1, h, len =>
    if h.offset + len > h.buffer.length then
      match h.next with
      | (some event, h) => (h.pushEvent event).bind fun h => fetchBytes fuel h len
      | (none, h) => fetchBytes fuel h len
    else
      some ((h.buffer.drop h.offset).take len, { h with offset := h.offset + len })

/-- `EventHandler::fetch_bytes_or_shutdown`: the shutdown signal is polled
first; taking it returns `None` and spends the fused receiver.  The result
carries the handler and whether a signal is still ready. -/
def fetchBytesOrShutdown (fuel : Nat) (h : EventHandler) (shutdown : Bool) (len : Nat) :
    Option (Option (List UInt8) × EventHandler × Bool) :=
  if shutdown then some (none, h, false)
  else (fetchBytes fuel h len).map fun (bytes, h) => (some bytes, h, shutdown)

/-- `offset ≤ buffer.len()`. -/
def Inv (h : EventHandler) : Prop := h.offset ≤ h.buffer.length

/-- The bytes not yet read: those of the buffer past the offset, then those of
the events still to come. -/
def pending (h : EventHandler) : List UInt8 := h.buffer.drop h.offset ++ h.receiver.flatten

theorem inv_new (receiver : List (List UInt8)) : (new receiver).Inv := Nat.le_refl 0

@[simp] theorem pending_new (receiver : List (List UInt8)) :
    (new receiver).pending = receiver.flatten := rfl

/-- Receiving an event and pushing it never panics and loses no byte. -/
theorem pushEvent_next {h : EventHandler} {event : List UInt8} {rest : List (List UInt8)}
    (hi : h.Inv) (hr : h.receiver = event :: rest) :
    ∃ h', (h.next.2.pushEvent event) = some h' ∧ h'.Inv ∧ h'.pending = h.pending ∧
      h'.receiver = rest := by
  refine ⟨_, if_pos (by simp only [next, hr]; exact hi), Nat.zero_le _, ?_, by simp [next, hr]⟩
  simp [pending, next, hr]

/-- What a `fetch_bytes` that returns has done: it read the next `len` pending
bytes, kept the buffer consistent and received each event at most once. -/
structure Fetched (h : EventHandler) (len : Nat) (bytes : List UInt8) (h' : EventHandler) :
    Prop where
  inv : h'.Inv
  enough : len ≤ h.pending.length
  bytes_eq : bytes = h.pending.take len
  pending_eq : h'.pending = h.pending.drop len
  receiver_le : h'.receiver.length ≤ h.receiver.length

/-- Reading from the buffer once it holds `len` bytes past the offset. -/
theorem fetched_of_buffer {h : EventHandler} {len : Nat} (hle : h.offset + len ≤ h.buffer.length) :
    Fetched h len ((h.buffer.drop h.offset).take len) { h with offset := h.offset + len } := by
  have hbuf : len ≤ (h.buffer.drop h.offset).length := by simp only [List.length_drop]; omega
  refine ⟨hle, ?_, ?_, ?_, le_rfl⟩
  · exact hbuf.trans (by simp [pending])
  · rw [pending, List.take_append_of_le_length hbuf]
  · rw [pending, pending, List.drop_append_of_le_length hbuf, List.drop_drop]

/-- A fetch from a handler with the same pending bytes and no more events is a
fetch from this one. -/
theorem Fetched.of_pending {h h₁ h' : EventHandler} {len : Nat} {bytes : List UInt8}
    (hf : Fetched h₁ len bytes h') (hp : h₁.pending = h.pending)
    (hr : h₁.receiver.length ≤ h.receiver.length) : Fetched h len bytes h' :=
  ⟨hf.inv, hp ▸ hf.enough, hp ▸ hf.bytes_eq, hp ▸ hf.pending_eq, hf.receiver_le.trans hr⟩

/-- Whenever `fetch_bytes` returns, it has returned the next `len` pending bytes. -/
theorem fetchBytes_fetched {fuel len : Nat} {h h' : EventHandler} {bytes : List UInt8}
    (hi : h.Inv) (hf : fetchBytes fuel h len = some (bytes, h')) : Fetched h len bytes h' := by
  induction fuel generalizing h with
  | zero => cases hf
  | succ fuel ih =>
    rw [fetchBytes] at hf
    by_cases hlt : h.offset + len > h.buffer.length
    · rw [if_pos hlt] at hf
      cases hr : h.receiver with
      | nil =>
        -- the closed stream: `next()` is `None` and the loop goes round unchanged
        simp only [next, hr] at hf
        exact ih hi hf
      | cons event rest =>
        obtain ⟨h₁, hpush, hi₁, hp₁, hr₁⟩ := pushEvent_next hi hr
        simp only [next, hr] at hpush hf
        rw [hpush, Option.bind_some] at hf
        exact (ih hi₁ hf).of_pending hp₁ (by simp [hr₁, hr])
    · rw [if_neg hlt] at hf
      obtain ⟨rfl, rfl⟩ := Prod.mk.inj (Option.some.inj hf)
      exact fetched_of_buffer (by omega)

/-- With `len` bytes pending and fuel beyond the events to come, `fetch_bytes`
returns: each round of its loop either reads or receives one more event. -/
theorem fetchBytes_isSome {fuel len : Nat} {h : EventHandler} (hi : h.Inv)
    (hf : h.receiver.length < fuel) (hlen : len ≤ h.pending.length) :
    (fetchBytes fuel h len).isSome := by
  induction fuel generalizing h with
  | zero => exact absurd hf (Nat.not_lt_zero _)
  | succ fuel ih =>
    rw [fetchBytes]
    by_cases hlt : h.offset + len > h.buffer.length
    · rw [if_pos hlt]
      cases hr : h.receiver with
      | nil =>
        -- a closed stream leaves only the buffer, and it is short
        have : h.pending.length = h.buffer.length - h.offset := by simp [pending, hr]
        have hi : h.offset ≤ h.buffer.length := hi
        omega
      | cons event rest =>
        obtain ⟨h₁, hpush, hi₁, hp₁, hr₁⟩ := pushEvent_next hi hr
        simp only [next, hr] at hpush ⊢
        rw [hpush, Option.bind_some]
        refine ih hi₁ ?_ (hp₁ ▸ hlen)
        rw [hr₁]
        rw [hr, List.length_cons] at hf
        omega
    · rw [if_neg hlt]
      rfl

/-- With `len` bytes pending and fuel beyond the events to come, `fetch_bytes`
returns the next `len` pending bytes. -/
theorem fetchBytes_spec {fuel len : Nat} {h : EventHandler} (hi : h.Inv)
    (hf : h.receiver.length < fuel) (hlen : len ≤ h.pending.length) :
    ∃ bytes h', fetchBytes fuel h len = some (bytes, h') ∧ Fetched h len bytes h' := by
  obtain ⟨⟨bytes, h'⟩, hr⟩ := Option.isSome_iff_exists.mp (fetchBytes_isSome hi hf hlen)
  exact ⟨bytes, h', hr, fetchBytes_fetched hi hr⟩

/-- `fetch_bytes_or_shutdown` keeps the buffer consistent. -/
theorem fetchBytesOrShutdown_inv {fuel len : Nat} {h h' : EventHandler} {s s' : Bool}
    {bytes : Option (List UInt8)} (hi : h.Inv)
    (hf : fetchBytesOrShutdown fuel h s len = some (bytes, h', s')) : h'.Inv := by
  unfold fetchBytesOrShutdown at hf
  cases s with
  | true =>
    simp only [if_true, Option.some.injEq, Prod.mk.injEq] at hf
    exact hf.2.1 ▸ hi
  | false =>
    obtain ⟨⟨b, h₁⟩, hf₁, he⟩ := Option.map_eq_some_iff.mp hf
    cases he
    exact (fetchBytes_fetched hi hf₁).inv

end EventHandler

/-! ### Packet handler -/

/-- `ReadState`: what the handler reads next. -/
inductive ReadState
  | header
  | payload (header : HeaderPacket)
  deriving DecidableEq, Repr

/-- `PacketHandler`, without the peer's address, which only logging reads. -/
structure PacketHandler where
  events : EventHandler
  shutdown : Bool
  state : ReadState
  deriving DecidableEq, Repr

namespace PacketHandler

/-- `PacketHandler::new`: no shutdown signal yet, and a header is read first. -/
def new (receiver : List (List UInt8)) : PacketHandler := ⟨EventHandler.new receiver, false, .header⟩

/-- The `Payload` arm of the loop in `fetch_packet`: read the bytes the header
announces and return them with it. -/
def fetchPayload (fuel : Nat) (p : PacketHandler) (header : HeaderPacket) :
    Option (Option (HeaderPacket × List UInt8) × PacketHandler) := do
  let (bytes, events, shutdown) ←
    p.events.fetchBytesOrShutdown fuel p.shutdown header.packetLength.toNat
  match bytes with
  | none => pure (none, { p with events, shutdown })
  | some bytes => pure (some (header, bytes), { events, shutdown, state := .header })

/-- `PacketHandler::fetch_packet`: the `Header` arm reads a header and goes on
to the `Payload` arm; a shutdown returns `None` and leaves the state as it was. -/
def fetchPacket (fuel : Nat) (p : PacketHandler) :
    Option (Option (HeaderPacket × List UInt8) × PacketHandler) :=
  match p.state with
  | .header => do
    let (bytes, events, shutdown) ← p.events.fetchBytesOrShutdown fuel p.shutdown HEADER_SIZE
    match bytes with
    | none => pure (none, { p with events, shutdown })
    | some bytes =>
      let header := HeaderPacket.fromBytes (← tryInto HEADER_SIZE bytes)
      fetchPayload fuel { events, shutdown, state := .payload header } header
  | .payload header => fetchPayload fuel p header

/-- The peer's loop `while let Some((header, bytes)) = packet_handler.fetch_packet().await`,
for at most `n` packets. -/
def fetchPackets (fuel : Nat) :
    Nat → PacketHandler → Option (List (HeaderPacket × List UInt8) × PacketHandler)
  | 0, p => some ([], p)
  | n + 1, p => do
    let (packet, p) ← fetchPacket fuel p
    match packet with
    | none => pure ([], p)
    | some packet => do
      let (packets, p) ← fetchPackets fuel n p
      pure (packet :: packets, p)

/-- Without a shutdown signal, the `Payload` arm is one `fetch_bytes`. -/
theorem fetchPayload_eq {fuel : Nat} {p : PacketHandler} (header : HeaderPacket)
    (hn : p.shutdown = false) :
    fetchPayload fuel p header = (p.events.fetchBytes fuel header.packetLength.toNat).map
      fun r => (some (header, r.1), ⟨r.2, false, .header⟩) := by
  cases h : p.events.fetchBytes fuel header.packetLength.toNat <;>
    simp [fetchPayload, EventHandler.fetchBytesOrShutdown, hn, h]

/-- Without a shutdown signal, the `Header` arm is a `fetch_bytes` of the header,
its conversion to an array, and the `Payload` arm. -/
theorem fetchPacket_eq {fuel : Nat} {p : PacketHandler} (hs : p.state = .header)
    (hn : p.shutdown = false) :
    fetchPacket fuel p = (p.events.fetchBytes fuel HEADER_SIZE).bind fun r =>
      (tryInto HEADER_SIZE r.1).bind fun v =>
        fetchPayload fuel ⟨r.2, false, .payload (HeaderPacket.fromBytes v)⟩
          (HeaderPacket.fromBytes v) := by
  cases h : p.events.fetchBytes fuel HEADER_SIZE <;>
    simp [fetchPacket, EventHandler.fetchBytesOrShutdown, hs, hn, h]

/-! ### The handler reads the frames of the stream -/

/-- One TLV frame read off the front of a byte stream: a header, then a payload
of the length it gives. -/
def decodeFrame : Decoder (HeaderPacket × List UInt8) := fun s => do
  let (header, s) ← HeaderPacket.decode s
  let (payload, s) ← Decoder.bytes header.packetLength.toNat s
  pure ((header, payload), s)

theorem decodeFrame_eq_some {s rest : List UInt8} {packet : HeaderPacket × List UInt8} :
    decodeFrame s = some (packet, rest) ↔ ∃ s₁, HeaderPacket.decode s = some (packet.1, s₁) ∧
      Decoder.bytes packet.1.packetLength.toNat s₁ = some (packet.2, rest) := by
  simp only [decodeFrame, Option.bind_eq_bind, Option.pure_def, Option.bind_eq_some_iff,
    Option.some.injEq]
  constructor
  · rintro ⟨⟨header, s₁⟩, hh, ⟨payload, s₂⟩, hp, he⟩
    obtain ⟨rfl, rfl⟩ := Prod.mk.inj he
    exact ⟨s₁, hh, hp⟩
  · rintro ⟨s₁, hh, hp⟩
    exact ⟨(packet.1, s₁), hh, (packet.2, rest), hp, rfl⟩

/-- A frame read off a stream is read the same way off any extension of it. -/
theorem decodeFrame_append_right {s rest : List UInt8} {packet : HeaderPacket × List UInt8}
    (hd : decodeFrame s = some (packet, rest)) (t : List UInt8) :
    decodeFrame (s ++ t) = some (packet, rest ++ t) := by
  obtain ⟨s₁, hh, hb⟩ := decodeFrame_eq_some.mp hd
  obtain ⟨a, b₁, b₂, rfl, he⟩ := HeaderPacket.decode_eq_some.mp hh
  refine decodeFrame_eq_some.mpr ⟨s₁ ++ t, HeaderPacket.decode_eq_some.mpr ⟨a, b₁, b₂, rfl, he⟩, ?_⟩
  exact Decoder.bytes_append_right hb t

/-- The three bytes fetched for a header, once they convert to an array, are
the header `HeaderPacket.decode` reads. -/
theorem HeaderPacket.decode_of_tryInto {s : List UInt8} {v : Vector UInt8 HEADER_SIZE}
    (hlen : HEADER_SIZE ≤ s.length) (hv : tryInto HEADER_SIZE (s.take HEADER_SIZE) = some v) :
    HeaderPacket.decode s = some (HeaderPacket.fromBytes v, s.drop HEADER_SIZE) := by
  rcases s with _ | ⟨t, _ | ⟨b₁, _ | ⟨b₂, r⟩⟩⟩
  all_goals try (simp at hlen)
  -- three bytes convert, and read as the decoder reads them
  have hthree : (tryInto HEADER_SIZE ((t :: b₁ :: b₂ :: r).take HEADER_SIZE)).map
      HeaderPacket.fromBytes = some ⟨t, (Word.leNat [b₁, b₂]).toUInt16⟩ := rfl
  rw [hv, Option.map_some, Option.some.injEq] at hthree
  rw [hthree]
  rfl

/-- A handler about to read a header: a consistent buffer, the `Header` state
and no shutdown signal. -/
structure Reading (p : PacketHandler) : Prop where
  inv : p.events.Inv
  header : p.state = .header
  noShutdown : p.shutdown = false

theorem reading_new (receiver : List (List UInt8)) : (new receiver).Reading :=
  ⟨EventHandler.inv_new receiver, rfl, rfl⟩

/-- Whenever `fetch_packet` returns from a reading handler, it has returned the
frame at the front of the pending bytes and is reading again. -/
theorem fetchPacket_sound {fuel : Nat} {p p' : PacketHandler}
    {r : Option (HeaderPacket × List UInt8)} (hp : p.Reading)
    (hf : fetchPacket fuel p = some (r, p')) :
    ∃ packet, r = some packet ∧ decodeFrame p.events.pending = some (packet, p'.events.pending) ∧
      p'.Reading ∧ p'.events.receiver.length ≤ p.events.receiver.length := by
  rw [fetchPacket_eq hp.header hp.noShutdown] at hf
  obtain ⟨⟨bytes, h₁⟩, hf₁, hf⟩ := Option.bind_eq_some_iff.mp hf
  obtain ⟨v, hv, hf⟩ := Option.bind_eq_some_iff.mp hf
  rw [fetchPayload_eq _ rfl] at hf
  obtain ⟨⟨payload, h₂⟩, hf₂, he⟩ := Option.map_eq_some_iff.mp hf
  obtain ⟨rfl, rfl⟩ := Prod.mk.inj he
  have F₁ := EventHandler.fetchBytes_fetched hp.inv hf₁
  have F₂ := EventHandler.fetchBytes_fetched F₁.inv hf₂
  refine ⟨_, rfl, ?_, ⟨F₂.inv, rfl, rfl⟩, F₂.receiver_le.trans F₁.receiver_le⟩
  rw [F₁.bytes_eq] at hv
  -- the header is what the fetched bytes decode to, the payload the bytes after it
  refine decodeFrame_eq_some.mpr ⟨_, HeaderPacket.decode_of_tryInto F₁.enough hv, ?_⟩
  rw [← F₁.pending_eq]
  exact Decoder.bytes_eq_some.mpr ⟨F₂.enough, F₂.bytes_eq, F₂.pending_eq⟩

/-- With a frame pending and fuel beyond the events to come, `fetch_packet`
returns. -/
theorem fetchPacket_isSome {fuel : Nat} {p : PacketHandler}
    {packet : HeaderPacket × List UInt8} {rest : List UInt8} (hp : p.Reading)
    (hf : p.events.receiver.length < fuel) (hd : decodeFrame p.events.pending = some (packet, rest)) :
    (fetchPacket fuel p).isSome := by
  obtain ⟨s₁, hh, hb⟩ := decodeFrame_eq_some.mp hd
  obtain ⟨t, b₁, b₂, hs, -⟩ := HeaderPacket.decode_eq_some.mp hh
  have hlen : HEADER_SIZE ≤ p.events.pending.length := by
    simp [hs, HEADER_SIZE, HEADER_TYPE_SIZE, HEADER_LENGTH_SIZE]
  obtain ⟨hv, rfl⟩ := fromBytes_of_decode hh
  obtain ⟨v, hv, hvh⟩ := Option.map_eq_some_iff.mp hv
  obtain ⟨bytes, h₁, hf₁, F₁⟩ := EventHandler.fetchBytes_spec hp.inv hf hlen
  -- the payload is pending once the header is read
  have hlen₂ : packet.1.packetLength.toNat ≤ h₁.pending.length := by
    rw [F₁.pending_eq]
    exact (Decoder.bytes_eq_some.mp hb).1
  obtain ⟨payload, h₂, hf₂, -⟩ :=
    EventHandler.fetchBytes_spec F₁.inv (lt_of_le_of_lt F₁.receiver_le hf) hlen₂
  have hv₁ : tryInto HEADER_SIZE bytes = some v := F₁.bytes_eq ▸ hv
  rw [fetchPacket_eq hp.header hp.noShutdown, hf₁, Option.bind_some, hv₁, Option.bind_some,
    fetchPayload_eq _ rfl, hvh, hf₂]
  rfl

/-- With a frame pending and fuel beyond the events to come, `fetch_packet`
returns that frame and leaves the bytes after it pending. -/
theorem fetchPacket_spec {fuel : Nat} {p : PacketHandler}
    {packet : HeaderPacket × List UInt8} {rest : List UInt8} (hp : p.Reading)
    (hf : p.events.receiver.length < fuel) (hd : decodeFrame p.events.pending = some (packet, rest)) :
    ∃ p', fetchPacket fuel p = some (some packet, p') ∧ p'.Reading ∧ p'.events.pending = rest ∧
      p'.events.receiver.length ≤ p.events.receiver.length := by
  obtain ⟨⟨r, p'⟩, hr⟩ := Option.isSome_iff_exists.mp (fetchPacket_isSome hp hf hd)
  obtain ⟨packet', rfl, hd', hp', hle⟩ := fetchPacket_sound hp hr
  obtain ⟨rfl, hrest⟩ := Prod.mk.inj (Option.some.inj (hd.symm.trans hd'))
  exact ⟨p', hr, hp', hrest.symm, hle⟩

/-- Over every chunking of the bytes into events, the handler reads the
packets `Decoder.many decodeFrame` reads off the concatenated stream, one call
of `fetch_packet` for each, and leaves the bytes after them pending. -/
theorem fetchPackets_refines {fuel n : Nat} {p : PacketHandler} {rest : List UInt8}
    {packets : {l : List (HeaderPacket × List UInt8) // l.length = n}} (hp : p.Reading)
    (hf : p.events.receiver.length < fuel)
    (hd : Decoder.many decodeFrame n p.events.pending = some (packets, rest)) :
    ∃ p', fetchPackets fuel n p = some (packets.1, p') ∧ p'.Reading ∧ p'.events.pending = rest := by
  -- induction on the number of packets, the fuel bound carried by `receiver_le`
  induction n generalizing p with
  | zero =>
    simp only [Decoder.many, Option.some.injEq, Prod.mk.injEq] at hd
    obtain ⟨rfl, rfl⟩ := hd
    exact ⟨p, rfl, hp, rfl⟩
  | succ n ih =>
    obtain ⟨packet, s₁, packets', hd₁, hm, hl⟩ := Decoder.many_succ_eq_some hd
    obtain ⟨p₁, hf₁, hp₁, hpend₁, hle₁⟩ := fetchPacket_spec hp hf hd₁
    obtain ⟨p₂, hf₂, hp₂, hpend₂⟩ := ih hp₁ (lt_of_le_of_lt hle₁ hf) (hpend₁ ▸ hm)
    refine ⟨p₂, ?_, hp₂, hpend₂⟩
    simp only [hl, fetchPackets, hf₁, hf₂, Option.bind_eq_bind, Option.bind_some, Option.pure_def]

/-- Every return of `fetch_packet`, a shutdown included, keeps
`offset ≤ buffer.len()`. -/
theorem fetchPayload_inv {fuel : Nat} {p p' : PacketHandler} {header : HeaderPacket}
    {r : Option (HeaderPacket × List UInt8)} (hi : p.events.Inv)
    (hf : fetchPayload fuel p header = some (r, p')) : p'.events.Inv := by
  unfold fetchPayload at hf
  obtain ⟨⟨bytes, events, shutdown⟩, hf₁, hf⟩ := Option.bind_eq_some_iff.mp hf
  have hi₁ := EventHandler.fetchBytesOrShutdown_inv hi hf₁
  cases bytes with
  | none => cases hf; exact hi₁
  | some bytes => cases hf; exact hi₁

theorem fetchPacket_inv {fuel : Nat} {p p' : PacketHandler}
    {r : Option (HeaderPacket × List UInt8)} (hi : p.events.Inv)
    (hf : fetchPacket fuel p = some (r, p')) : p'.events.Inv := by
  unfold fetchPacket at hf
  split at hf
  · obtain ⟨⟨bytes, events, shutdown⟩, hf₁, hf⟩ := Option.bind_eq_some_iff.mp hf
    have hi₁ := EventHandler.fetchBytesOrShutdown_inv hi hf₁
    cases bytes with
    | none => cases hf; exact hi₁
    | some bytes =>
      obtain ⟨v, -, hf⟩ := Option.bind_eq_some_iff.mp hf
      exact fetchPayload_inv hi₁ hf
  · exact fetchPayload_inv hi hf

/-- `offset ≤ buffer.len()` holds after every run of the peer's loop. -/
theorem fetchPackets_inv {fuel n : Nat} {p p' : PacketHandler}
    {packets : List (HeaderPacket × List UInt8)} (hi : p.events.Inv)
    (hf : fetchPackets fuel n p = some (packets, p')) : p'.events.Inv := by
  induction n generalizing p packets with
  | zero => cases hf; exact hi
  | succ n ih =>
    obtain ⟨⟨packet, p₁⟩, hf₁, hf⟩ := Option.bind_eq_some_iff.mp hf
    have hi₁ := fetchPacket_inv hi hf₁
    cases packet with
    | none => cases hf; exact hi₁
    | some packet =>
      obtain ⟨⟨packets', p₂⟩, hf₂, hf⟩ := Option.bind_eq_some_iff.mp hf
      cases hf
      exact ih hi₁ hf₂

end PacketHandler

/-! ### Streams of frames -/

/-- A TLV frame: a header and a payload of the length the header gives. -/
structure Frame where
  header : HeaderPacket
  payload : List UInt8
  length_payload : payload.length = header.packetLength.toNat

namespace Frame

/-- The frame's bytes on the wire: the header's three bytes, then the payload. -/
def toBytes (f : Frame) : List UInt8 := f.header.toBytes ++ f.payload

/-- The header and payload `fetch_packet` returns for the frame. -/
def packet (f : Frame) : HeaderPacket × List UInt8 := (f.header, f.payload)

theorem decodeFrame_append (f : Frame) (rest : List UInt8) :
    PacketHandler.decodeFrame (f.toBytes ++ rest) = some (f.packet, rest) := by
  refine PacketHandler.decodeFrame_eq_some.mpr ⟨f.payload ++ rest, ?_, ?_⟩
  · rw [toBytes, List.append_assoc]
    exact HeaderPacket.decode_append f.header _
  · rw [packet, ← f.length_payload]
    exact Decoder.bytes_append f.payload rest

/-- No frame can be read off a proper prefix of a frame's bytes. -/
theorem decodeFrame_take (f : Frame) {k : Nat} (hk : k < f.toBytes.length) :
    PacketHandler.decodeFrame (f.toBytes.take k) = none := by
  cases hd : PacketHandler.decodeFrame (f.toBytes.take k) with
  | none => rfl
  | some r =>
    -- reading on into the rest of the frame would end past the frame's last byte
    have hall := PacketHandler.decodeFrame_append_right hd (f.toBytes.drop k)
    have hfull := decodeFrame_append f []
    rw [List.append_nil] at hfull
    rw [List.take_append_drop, hfull] at hall
    obtain ⟨-, hrest⟩ := Prod.mk.inj (Option.some.inj hall)
    have hnil := (List.append_eq_nil_iff.mp hrest.symm).2
    rw [List.drop_eq_nil_iff] at hnil
    omega

end Frame

/-- A stream of whole frames followed by `rest`, chunked into events any way,
is read frame by frame with `rest` left pending. -/
theorem fetchPackets_frames {fuel : Nat} (frames : List Frame) {rest : List UInt8}
    {events : List (List UInt8)}
    (he : events.flatten = (frames.map Frame.toBytes).flatten ++ rest) (hf : events.length < fuel) :
    ∃ p, PacketHandler.fetchPackets fuel frames.length (PacketHandler.new events) =
        some (frames.map Frame.packet, p) ∧ p.Reading ∧ p.events.pending = rest := by
  have hd := Decoder.many_map_append PacketHandler.decodeFrame Frame.toBytes Frame.packet
    Frame.decodeFrame_append frames rest
  rw [← he, ← EventHandler.pending_new] at hd
  exact PacketHandler.fetchPackets_refines (PacketHandler.reading_new events) hf hd

/-! ### Polling: the task yields on a closed stream -/

/-- What one poll of a future gives: its output, or `Pending`, the task yielding until it is
woken. -/
inductive Poll (α : Type) where
  | ready (a : α)
  | pending
  deriving DecidableEq, Repr

namespace EventHandler

/-- One poll of `fetch_bytes`' future with `budget` units left of the task's cooperative budget
(tokio's `coop`): each `receiver.next()` spends one, also on the closed stream, and with none
left it is `Pending` and the task yields, to be polled again with a fresh budget.  The result
carries the handler and the budget left; `none` is a panic of `push_event`. -/
def pollFetchBytes (budget : Nat) (h : EventHandler) (len : Nat) :
    Option (Poll (List UInt8) × EventHandler × Nat) :=
  if h.offset + len > h.buffer.length then
    match budget with
    | 0 => some (.pending, h, 0)
    | budget + 1 =>
      match h.next with
      | (some event, h) => (h.pushEvent event).bind fun h => pollFetchBytes budget h len
      | (none, h) => pollFetchBytes budget h len
  else
    some (.ready ((h.buffer.drop h.offset).take len), { h with offset := h.offset + len }, budget)

/-- One poll of `fetch_bytes_or_shutdown`'s `select!`, which polls its two branches in an order
drawn at random on every poll (`shutdownFirst`); the first branch ready ends it.  The shutdown
oneshot is ready when `shutdown` is set, and taking it clears the flag. -/
def pollFetchBytesOrShutdown (budget : Nat) (shutdownFirst : Bool) (h : EventHandler)
    (shutdown : Bool) (len : Nat) :
    Option (Poll (Option (List UInt8)) × EventHandler × Bool × Nat) :=
  if shutdownFirst && shutdown then some (.ready none, h, false, budget)
  else do
    let (r, h, budget) ← h.pollFetchBytes budget len
    match r with
    | .ready bytes => pure (.ready (some bytes), h, shutdown, budget)
    | .pending =>
      -- the shutdown branch, polled after `fetch_bytes` or found pending before it
      pure (if shutdown then (.ready none, h, false, budget) else (.pending, h, shutdown, budget))

theorem pollFetchBytes_of_le {budget len : Nat} {h : EventHandler}
    (hle : h.offset + len ≤ h.buffer.length) :
    h.pollFetchBytes budget len =
      some (.ready ((h.buffer.drop h.offset).take len), { h with offset := h.offset + len }, budget) := by
  rw [pollFetchBytes.eq_def, if_neg (by omega)]

/-- With the bytes in the buffer, a poll reads them as `fetch_bytes` does, whatever the budget. -/
theorem pollFetchBytes_spec_of_le (budget : Nat) {h : EventHandler} {len : Nat}
    (hle : h.offset + len ≤ h.buffer.length) :
    ∃ r h' b, h.pollFetchBytes budget len = some (r, h', b) ∧ h'.Inv ∧
      (∀ bytes, r = .ready bytes → Fetched h len bytes h') ∧
      (r = .pending → h'.pending = h.pending) := by
  have F := fetched_of_buffer hle
  exact ⟨_, _, _, pollFetchBytes_of_le hle, F.inv,
    (fun bytes hb => by cases hb; exact F), fun hb => by cases hb⟩

/-- Every poll of `fetch_bytes` comes back without a panic: with the bytes there it reads them
as `fetch_bytes` does, and otherwise it yields with the same bytes pending. -/
theorem pollFetchBytes_spec (budget : Nat) {h : EventHandler} (hi : h.Inv) (len : Nat) :
    ∃ r h' b, h.pollFetchBytes budget len = some (r, h', b) ∧ h'.Inv ∧
      (∀ bytes, r = .ready bytes → Fetched h len bytes h') ∧
      (r = .pending → h'.pending = h.pending) := by
  by_cases hlt : h.offset + len > h.buffer.length
  · -- the loop receives until the budget is spent, one unit for each `next()`
    induction budget generalizing h with
    | zero =>
      rw [pollFetchBytes.eq_def, if_pos hlt]
      exact ⟨_, _, _, rfl, hi, (fun _ hb => by cases hb), fun _ => rfl⟩
    | succ budget ih =>
      rw [pollFetchBytes.eq_def, if_pos hlt]
      cases hr : h.receiver with
      | nil =>
        have hn : h.next = (none, h) := by simp [next, hr]
        simp only [hn]
        by_cases hlt' : h.offset + len > h.buffer.length
        · exact ih hi hlt'
        · exact absurd hlt hlt'
      | cons event rest =>
        obtain ⟨h₁, hpush, hi₁, hp₁, hr₁⟩ := pushEvent_next hi hr
        simp only [next, hr] at hpush ⊢
        rw [hpush, Option.bind_some]
        obtain ⟨r, h', b, hpoll, hi', hready, hpend⟩ : ∃ r h' b,
            h₁.pollFetchBytes budget len = some (r, h', b) ∧ h'.Inv ∧
            (∀ bytes, r = .ready bytes → Fetched h₁ len bytes h') ∧
            (r = .pending → h'.pending = h₁.pending) := by
          by_cases hlt₁ : h₁.offset + len > h₁.buffer.length
          · exact ih hi₁ hlt₁
          · exact pollFetchBytes_spec_of_le budget (Nat.le_of_not_lt hlt₁)
        exact ⟨r, h', b, hpoll, hi',
          fun bytes hb => (hready bytes hb).of_pending hp₁ (by simp [hr₁, hr]),
          fun hb => (hpend hb).trans hp₁⟩
  · exact pollFetchBytes_spec_of_le budget (Nat.le_of_not_lt hlt)

/-- Every poll of `fetch_bytes_or_shutdown`, in either order: it takes a ready shutdown signal
and returns `None`, yields without one, or returns the bytes. -/
theorem pollFetchBytesOrShutdown_spec (budget : Nat) (shutdownFirst : Bool) {h : EventHandler}
    (hi : h.Inv) (shutdown : Bool) (len : Nat) :
    ∃ r h' s' b, h.pollFetchBytesOrShutdown budget shutdownFirst shutdown len = some (r, h', s', b) ∧
      h'.Inv ∧
      ((r = .ready none ∧ shutdown = true ∧ s' = false ∧ h'.pending = h.pending) ∨
        (r = .pending ∧ shutdown = false ∧ s' = false ∧ h'.pending = h.pending) ∨
        (∃ bytes, r = .ready (some bytes) ∧ s' = shutdown ∧ Fetched h len bytes h')) := by
  unfold pollFetchBytesOrShutdown
  by_cases hfirst : (shutdownFirst && shutdown) = true
  · have hs : shutdown = true := (Bool.and_eq_true _ _).mp hfirst |>.2
    rw [if_pos hfirst]
    exact ⟨_, _, _, _, rfl, hi, .inl ⟨rfl, hs, rfl, rfl⟩⟩
  · rw [if_neg hfirst]
    obtain ⟨r, h', b, hpoll, hi', hready, hpend⟩ := pollFetchBytes_spec budget hi len
    rw [hpoll]
    cases r with
    | ready bytes => exact ⟨_, _, _, _, rfl, hi', .inr (.inr ⟨bytes, rfl, rfl, hready bytes rfl⟩)⟩
    | pending =>
      cases shutdown with
      | true => exact ⟨_, _, _, _, rfl, hi', .inl ⟨rfl, rfl, rfl, hpend rfl⟩⟩
      | false => exact ⟨_, _, _, _, rfl, hi', .inr (.inl ⟨rfl, rfl, rfl, hpend rfl⟩)⟩

/-- With fewer than `len` bytes pending, a poll of `fetch_bytes_or_shutdown` yields without a
shutdown signal and returns `None` with one, whichever branch `select!` polls first. -/
theorem pollFetchBytesOrShutdown_short (budget : Nat) (shutdownFirst : Bool) {h : EventHandler}
    (hi : h.Inv) (shutdown : Bool) {len : Nat} (hs : h.pending.length < len) :
    ∃ h' b, h.pollFetchBytesOrShutdown budget shutdownFirst shutdown len =
        some (if shutdown then .ready none else .pending, h', false, b) ∧
      h'.Inv ∧ h'.pending = h.pending := by
  obtain ⟨r, h', s', b, hpoll, hi', hcases⟩ :=
    pollFetchBytesOrShutdown_spec budget shutdownFirst hi shutdown len
  rcases hcases with ⟨rfl, rfl, rfl, hp⟩ | ⟨rfl, rfl, rfl, hp⟩ | ⟨bytes, -, -, hf⟩
  · exact ⟨h', b, hpoll, hi', hp⟩
  · exact ⟨h', b, hpoll, hi', hp⟩
  · exact absurd hf.enough (Nat.not_le.mpr hs)

end EventHandler

namespace PacketHandler

/-- One poll of the `Payload` arm of `fetch_packet`. -/
def pollPayload (budget : Nat) (shutdownFirst : Bool) (p : PacketHandler) (header : HeaderPacket) :
    Option (Poll (Option (HeaderPacket × List UInt8)) × PacketHandler) := do
  let (r, events, shutdown, _) ←
    p.events.pollFetchBytesOrShutdown budget shutdownFirst p.shutdown header.packetLength.toNat
  match r with
  | .pending => pure (.pending, { p with events, shutdown })
  | .ready none => pure (.ready none, { p with events, shutdown })
  | .ready (some bytes) =>
    pure (.ready (some (header, bytes)), { events, shutdown, state := .header })

/-- One poll of `fetch_packet`'s future: the `Header` arm and then, within the same poll and
budget, the `Payload` arm, each `select!` with its own draw; an arm that yields leaves the state
as it is, to go on at the next poll. -/
def pollFetchPacket (budget : Nat) (draws : Bool × Bool) (p : PacketHandler) :
    Option (Poll (Option (HeaderPacket × List UInt8)) × PacketHandler) :=
  match p.state with
  | .header => do
    let (r, events, shutdown, budget) ←
      p.events.pollFetchBytesOrShutdown budget draws.1 p.shutdown HEADER_SIZE
    match r with
    | .pending => pure (.pending, { p with events, shutdown })
    | .ready none => pure (.ready none, { p with events, shutdown })
    | .ready (some bytes) =>
      let header := HeaderPacket.fromBytes (← tryInto HEADER_SIZE bytes)
      pollPayload budget draws.2 { events, shutdown, state := .payload header } header
  | .payload header => pollPayload budget draws.1 p header

/-- The bytes `fetch_packet` has yet to return: the header already read, if any, then the
bytes pending. -/
def unread (p : PacketHandler) : List UInt8 :=
  match p.state with
  | .header => p.events.pending
  | .payload header => header.toBytes ++ p.events.pending

/-- A handler stalled short of a frame: a consistent buffer, and no whole frame among the bytes
it has yet to return. -/
structure Stalled (p : PacketHandler) : Prop where
  inv : p.events.Inv
  short : decodeFrame p.unread = none

/-- After a header, no whole frame is there exactly when fewer bytes than it announces are. -/
theorem decodeFrame_toBytes_append_eq_none (header : HeaderPacket) (s : List UInt8) :
    decodeFrame (header.toBytes ++ s) = none ↔ s.length < header.packetLength.toNat := by
  simp only [decodeFrame, HeaderPacket.decode_append, Option.bind_eq_bind, Option.bind_some,
    Decoder.bytes]
  split_ifs with h
  · simp only [Option.bind_some, Option.pure_def, reduceCtorEq, false_iff, not_lt]
    exact h
  · simp only [Option.bind_none, true_iff]
    omega

/-- Three bytes are a header; if no whole frame follows, fewer bytes than it announces do. -/
theorem header_of_short {s : List UInt8} (hlen : HEADER_SIZE ≤ s.length)
    (hd : decodeFrame s = none) :
    ∃ header, HeaderPacket.decode s = some (header, s.drop HEADER_SIZE) ∧
      (s.drop HEADER_SIZE).length < header.packetLength.toNat := by
  obtain ⟨t, b₁, b₂, rest, rfl⟩ : ∃ t b₁ b₂ rest, s = t :: b₁ :: b₂ :: rest := by
    rcases s with _ | ⟨t, _ | ⟨b₁, _ | ⟨b₂, rest⟩⟩⟩
    all_goals try (simp [HEADER_SIZE, HEADER_TYPE_SIZE, HEADER_LENGTH_SIZE] at hlen)
    exact ⟨t, b₁, b₂, rest, rfl⟩
  have hdec : HeaderPacket.decode (t :: b₁ :: b₂ :: rest) =
      some (⟨t, (Word.leNat [b₁, b₂]).toUInt16⟩, rest) :=
    HeaderPacket.decode_eq_some.mpr ⟨t, b₁, b₂, rfl, rfl⟩
  refine ⟨_, hdec, ?_⟩
  -- no payload of the announced length follows the header
  cases hb : Decoder.bytes (Word.leNat [b₁, b₂]).toUInt16.toNat rest with
  | none =>
    simp only [Decoder.bytes] at hb
    split_ifs at hb with hle
    show rest.length < (Word.leNat [b₁, b₂]).toUInt16.toNat
    exact Nat.lt_of_not_le hle
  | some r =>
    obtain ⟨payload, rest'⟩ := r
    have hframe : decodeFrame (t :: b₁ :: b₂ :: rest) =
        some ((⟨t, (Word.leNat [b₁, b₂]).toUInt16⟩, payload), rest') :=
      decodeFrame_eq_some.mpr ⟨rest, hdec, hb⟩
    rw [hd] at hframe
    cases hframe

/-- A poll of the `Payload` arm with fewer bytes pending than the header announces yields without
a shutdown signal and returns `None` with one; the state stays. -/
theorem pollPayload_short (budget : Nat) (shutdownFirst : Bool) {p : PacketHandler}
    {header : HeaderPacket} (hi : p.events.Inv)
    (hs : p.events.pending.length < header.packetLength.toNat) :
    ∃ events, p.pollPayload budget shutdownFirst header =
        some (if p.shutdown then .ready none else .pending, { p with events, shutdown := false }) ∧
      events.Inv ∧ events.pending = p.events.pending := by
  obtain ⟨h', b, hpoll, hi', hp⟩ :=
    EventHandler.pollFetchBytesOrShutdown_short budget shutdownFirst hi p.shutdown hs
  refine ⟨h', ?_, hi', hp⟩
  unfold pollPayload
  rw [hpoll]
  cases p.shutdown <;> rfl

/-- A stalled handler stays stalled: every poll of `fetch_packet`, whatever its budget and the
order its `select!`s draw, yields without a shutdown signal and returns `None` with one. -/
theorem pollFetchPacket_stalled (budget : Nat) (draws : Bool × Bool) {p : PacketHandler}
    (hp : p.Stalled) :
    ∃ p', p.pollFetchPacket budget draws = some (if p.shutdown then .ready none else .pending, p') ∧
      p'.Stalled ∧ p'.shutdown = false := by
  have hshort := hp.short
  unfold pollFetchPacket
  cases hstate : p.state with
  | payload header =>
    -- the header is read already: fewer bytes are pending than it announces
    simp only [unread, hstate, decodeFrame_toBytes_append_eq_none] at hshort
    obtain ⟨events, hpoll, hi, hpend⟩ := pollPayload_short budget draws.1 hp.inv hshort
    refine ⟨_, hpoll, ⟨hi, ?_⟩, rfl⟩
    simp only [unread, hstate, hpend, decodeFrame_toBytes_append_eq_none]
    exact hshort
  | header =>
    simp only [unread, hstate] at hshort
    by_cases hlen : p.events.pending.length < HEADER_SIZE
    · -- not even a header: the `Header` arm yields, or takes the signal
      obtain ⟨h', b, hpoll, hi', hp'⟩ :=
        EventHandler.pollFetchBytesOrShutdown_short budget draws.1 hp.inv p.shutdown hlen
      refine ⟨⟨h', false, .header⟩, ?_, ⟨hi', ?_⟩, rfl⟩
      · rw [hpoll]
        cases p.shutdown <;> rfl
      · simp only [unread, hp']
        exact hshort
    · -- a header, and fewer bytes after it than it announces
      obtain ⟨header, hdec, hshort'⟩ := header_of_short (Nat.le_of_not_lt hlen) hshort
      obtain ⟨r, h₁, s₁, b₁, hpoll, hi₁, hcases⟩ :=
        EventHandler.pollFetchBytesOrShutdown_spec budget draws.1 hp.inv p.shutdown HEADER_SIZE
      rw [hpoll]
      rcases hcases with ⟨rfl, hs, rfl, hp₁⟩ | ⟨rfl, hs, rfl, hp₁⟩ | ⟨bytes, rfl, rfl, F⟩
      · refine ⟨⟨h₁, false, .header⟩, by rw [hs]; rfl, ⟨hi₁, ?_⟩, rfl⟩
        simp only [unread, hp₁]
        exact hshort
      · refine ⟨⟨h₁, false, .header⟩, by rw [hs]; rfl, ⟨hi₁, ?_⟩, rfl⟩
        simp only [unread, hp₁]
        exact hshort
      · -- the header is fetched, and the `Payload` arm yields or takes the signal
        have hconv := (fromBytes_of_decode hdec).1
        rw [← F.bytes_eq] at hconv
        obtain ⟨v, hv, hvh⟩ := Option.map_eq_some_iff.mp hconv
        have hs₁ : h₁.pending.length < header.packetLength.toNat := by
          rw [F.pending_eq]
          exact hshort'
        have hpay := @pollPayload_short b₁ draws.2 ⟨h₁, p.shutdown, .payload header⟩ header F.inv hs₁
        obtain ⟨events, hpoll₂, hi₂, hp₂⟩ := hpay
        refine ⟨⟨events, false, .payload header⟩, ?_, ⟨hi₂, ?_⟩, rfl⟩
        · simp only [Option.bind_eq_bind, Option.bind_some, hv, hvh]
          exact hpoll₂
        · simp only [unread, hp₂, decodeFrame_toBytes_append_eq_none]
          exact hs₁

end PacketHandler

/-- Framing does not depend on the chunking, and the buffer stays consistent; once the stream
closes short of a whole frame the handler is stalled, and from then on every poll of
`fetch_packet` yields, or returns `None` once a shutdown signal is ready. -/
theorem fetch_packet_tlv_framing :
    (∀ (frames : List Frame) (events : List (List UInt8)) (fuel : Nat),
      events.flatten = (frames.map Frame.toBytes).flatten → events.length < fuel →
      ∃ p, PacketHandler.fetchPackets fuel frames.length (PacketHandler.new events) =
          some (frames.map Frame.packet, p) ∧ p.Reading ∧ p.events.pending = []) ∧
    (∀ (fuel n : Nat) (p p' : PacketHandler) (packets : List (HeaderPacket × List UInt8)),
      p.events.Inv → PacketHandler.fetchPackets fuel n p = some (packets, p') → p'.events.Inv) ∧
    (∀ (frames : List Frame) (f : Frame) (k : Nat) (events : List (List UInt8)) (fuel : Nat),
      events.flatten = (frames.map Frame.toBytes).flatten ++ f.toBytes.take k →
      k < f.toBytes.length → events.length < fuel →
      ∃ p, PacketHandler.fetchPackets fuel frames.length (PacketHandler.new events) =
          some (frames.map Frame.packet, p) ∧ p.Stalled) ∧
    (∀ (budget : Nat) (draws : Bool × Bool) (p : PacketHandler), p.Stalled →
      ∃ p', p.pollFetchPacket budget draws = some (if p.shutdown then .ready none else .pending, p') ∧
        p'.Stalled ∧ p'.shutdown = false) := by
  refine ⟨fun frames events fuel he hf => ?_, fun fuel n p p' packets hi hf =>
    PacketHandler.fetchPackets_inv hi hf, fun frames f k events fuel he hk hf => ?_,
    fun budget draws p hp => PacketHandler.pollFetchPacket_stalled budget draws hp⟩
  · exact fetchPackets_frames frames (he.trans (List.append_nil _).symm) hf
  · -- the frames are read, and the part of the last frame left is no frame
    obtain ⟨p, hrun, hp, hpend⟩ := fetchPackets_frames frames he hf
    refine ⟨p, hrun, hp.inv, ?_⟩
    rw [PacketHandler.unread, hp.header, hpend]
    exact f.decodeFrame_take hk

end Bee
