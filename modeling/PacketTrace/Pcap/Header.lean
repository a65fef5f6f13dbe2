import PacketTrace.Bytes.Decoder

/-!
# Packet file headers

A packet file in the pcap format starts with 24 bytes about the whole file
(`Pcap.Header`). Only the little-endian form with nanosecond timestamps is
read; it is told by its magic number, which is looked at before anything else
is asked for (`Pcap.Header.decoder`). Any header can be written
(`Pcap.Header.fields`).
-/

namespace PacketTrace

namespace Pcap

/-- The kind of link that the packets of a file were captured on. -/
structure LinkType where
  code : Int32
  deriving DecidableEq

/-- The name of a kind of link, or its number where it has no name. -/
def LinkType.name (t : LinkType) : String :=
  match t.code.toInt with
  | 0 => "NULL"
  | 1 => "ETHERNET"
  | 101 => "RAW"
  | 228 => "IPV4"
  | 229 => "IPV6"
  | code => s!"Linktype({code} / 0x{String.ofList (Nat.toDigits 16 t.code.toUInt32.toNat)})"

/-- The longest packet that a file says it holds, unless told otherwise. -/
def defaultSnapLength : UInt32 := 65535

/-- The header of a packet file. -/
structure Header where
  /-- Tells the byte order and the unit of the timestamps. -/
  magic : UInt32 := nanosecondMagic
  versionMajor : UInt16 := 2
  versionMinor : UInt16 := 4
  /-- The seconds from the local time of the timestamps to universal time. -/
  zoneOffset : Int32 := 0
  /-- The accuracy of the timestamps, which nobody sets. -/
  accuracy : UInt32 := 0
  /-- The longest packet in the file. -/
  snapLength : UInt32 := defaultSnapLength
  linkType : LinkType := ⟨1⟩
  deriving DecidableEq

namespace Header

/-- The number of bytes in a header. -/
def size : Nat := 24

/-- The timestamps of the file have nanoseconds. -/
def isNanosecond (h : Header) : Bool := h.magic == nanosecondMagic

/-- Reads a header, field by field. -/
def decoder : Decoder Header := do
  let magic ← Decoder.uint32
  if magic ≠ nanosecondMagic then Decoder.refuse (.unsupportedMagic magic)
  else
    let versionMajor ← Decoder.uint16
    let versionMinor ← Decoder.uint16
    let zoneOffset ← Decoder.int32
    let accuracy ← Decoder.uint32
    let snapLength ← Decoder.uint32
    let linkType ← Decoder.int32
    return { magic, versionMajor, versionMinor, zoneOffset, accuracy, snapLength,
             linkType := ⟨linkType⟩ }

/-- The fields of a header, as they are written. -/
def fields (h : Header) : List Bytes :=
  [Bytes.ofUInt32 h.magic, Bytes.ofUInt16 h.versionMajor, Bytes.ofUInt16 h.versionMinor,
   Bytes.ofInt32 h.zoneOffset, Bytes.ofUInt32 h.accuracy, Bytes.ofUInt32 h.snapLength,
   Bytes.ofInt32 h.linkType.code]

theorem length_flatten_fields (h : Header) : h.fields.flatten.length = size := by
  simp [fields, size]

/-- A header is read as it is written, if its timestamps have nanoseconds. -/
theorem decoder_fields {h : Header} (hmagic : h.magic = nanosecondMagic) (rest : Bytes) :
    decoder (h.fields.flatten ++ rest) = .value h rest := by
  simp only [fields, List.flatten_cons, List.flatten_nil, List.append_nil, List.append_assoc]
  rw [decoder, Decoder.bind_of_eq_value (Decoder.uint32_ofUInt32 ..),
    if_neg (not_not_intro hmagic), Decoder.bind_of_eq_value (Decoder.uint16_ofUInt16 ..),
    Decoder.bind_of_eq_value (Decoder.uint16_ofUInt16 ..),
    Decoder.bind_of_eq_value (Decoder.int32_ofInt32 ..),
    Decoder.bind_of_eq_value (Decoder.uint32_ofUInt32 ..),
    Decoder.bind_of_eq_value (Decoder.uint32_ofUInt32 ..),
    Decoder.bind_of_eq_value (Decoder.int32_ofInt32 ..)]
  rfl

end Header

end Pcap

end PacketTrace
