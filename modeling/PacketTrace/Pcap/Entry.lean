import PacketTrace.Bytes.Decoder
import PacketTrace.Packet

/-!
# Packet file entries

After its header, a packet file holds one entry per packet: 16 bytes with the
timestamp and two lengths, then the captured bytes (`Pcap.Entry`). The seconds
of the timestamp have 32 bits, so not every packet has an entry
(`Pcap.Entry.ofPacket`), while every entry has a packet
(`Pcap.Entry.toPacket`), also where its nanoseconds exceed a second.
-/

namespace PacketTrace

namespace Pcap

/-- An entry of a packet file. -/
structure Entry where
  seconds : UInt32
  nanos : UInt32
  /-- The number of bytes that were captured. -/
  captured : UInt32
  /-- The length of the packet on the wire. -/
  wireLength : UInt32
  /-- The bytes that were captured. -/
  data : Bytes
  deriving DecidableEq

namespace Entry

/-- The number of bytes ahead of the data. -/
def headSize : Nat := 16

/-- The number of bytes that an entry takes up. -/
def size (e : Entry) : Nat := headSize + e.data.length

/-- The entry of a packet, if the seconds of its timestamp have 32 bits. -/
def ofPacket (p : Packet) : Except Failure Entry :=
  let (seconds, nanos) := splitNanos p.timestamp
  if seconds < 2 ^ 32 then
    .ok { seconds := UInt32.ofNat seconds, nanos, captured := p.capturedLength,
          wireLength := p.wireLength, data := p.data }
  else .error (.timestampTooLate p.timestamp)

/-- The time of the entry, in nanoseconds. -/
def timestamp (e : Entry) : Nat := joinNanos e.seconds e.nanos

/-- The packet of an entry. -/
def toPacket (e : Entry) : Packet where
  timestamp := e.timestamp
  wireLength := e.wireLength
  data := e.data

/-- Reads an entry. Its first 16 bytes are asked for at once. -/
def decoder : Decoder Entry := do
  Decoder.demand headSize
  let seconds ← Decoder.uint32
  let nanos ← Decoder.uint32
  let captured ← Decoder.uint32
  let wireLength ← Decoder.uint32
  let data ← Decoder.take captured.toNat
  return { seconds, nanos, captured, wireLength, data }

/-- The fields of an entry, as they are written. -/
def fields (e : Entry) : List Bytes :=
  [Bytes.ofUInt32 e.seconds, Bytes.ofUInt32 e.nanos, Bytes.ofUInt32 e.captured,
   Bytes.ofUInt32 e.wireLength, e.data]

theorem length_flatten_fields (e : Entry) : e.fields.flatten.length = e.size := by
  simp [fields, size, headSize]
  omega

/-- An entry is read as it is written, if it tells its length. -/
theorem decoder_fields {e : Entry} (hlength : e.data.length = e.captured.toNat) (rest : Bytes) :
    decoder (e.fields.flatten ++ rest) = .value e rest := by
  have hhead : headSize ≤ (e.fields.flatten ++ rest).length := by
    rw [List.length_append, length_flatten_fields, size]
    omega
  rw [decoder, Decoder.bind_of_eq_value (Decoder.demand_of_le hhead)]
  simp only [fields, List.flatten_cons, List.flatten_nil, List.append_nil, List.append_assoc]
  rw [Decoder.bind_of_eq_value (Decoder.uint32_ofUInt32 ..),
    Decoder.bind_of_eq_value (Decoder.uint32_ofUInt32 ..),
    Decoder.bind_of_eq_value (Decoder.uint32_ofUInt32 ..),
    Decoder.bind_of_eq_value (Decoder.uint32_ofUInt32 ..),
    Decoder.bind_of_eq_value (Decoder.take_append hlength _)]
  rfl

theorem toPacket_of_ofPacket {p : Packet} {e : Entry} (h : ofPacket p = .ok e) :
    e.toPacket = p := by
  simp only [ofPacket] at h
  split at h
  next hs =>
    cases h
    simp [toPacket, timestamp, joinNanos_splitNanos hs]
  · contradiction

end Entry

end Pcap

end PacketTrace
