import PacketTrace.Bytes.Alignment
import PacketTrace.Bytes.Decoder

/-!
# Trace records

The traces that the hardware writes and those that it reads share one layout:
a record is a 64-bit *tag*, the bytes of a packet, and padding up to a
multiple of 8 bytes. The number of bytes follows from the tag, in a way that
differs between the two kinds of trace; a tag of all ones ends the trace.

* `Trace.Record.decoder`: reads a record, or the end of the trace;
* `Trace.Record.fields`: the byte strings that a record is written as.
-/

namespace PacketTrace

namespace Trace

/-- The tag that ends a trace. -/
def endTag : UInt64 := 0xffffffffffffffff

/-- A record of a trace. -/
structure Record where
  /-- What the hardware notes about the packet. -/
  tag : UInt64
  /-- The bytes of the packet. -/
  data : Bytes
  deriving DecidableEq, Inhabited

namespace Record

/-- The number of bytes that a record takes up, padding included. -/
def size (r : Record) : Nat := 8 + r.data.length + padding r.data.length recordBoundary

/-- Reads a record of as many bytes as `stored` tells from its tag, or `none`
    at the end of the trace. The bytes of the padding may be any. -/
def decoder (stored : UInt64 → Nat) : Decoder (Option Record) := do
  let tag ← Decoder.uint64
  if tag = endTag then return none
  let data ← Decoder.take (stored tag)
  let _ ← Decoder.take (padding (stored tag) recordBoundary)
  return some { tag, data }

/-- The fields of a record, padded with zeros. -/
def fields (r : Record) : List Bytes :=
  [Bytes.ofUInt64 r.tag, r.data, List.replicate (padding r.data.length recordBoundary) 0]

theorem length_flatten_fields (r : Record) : r.fields.flatten.length = r.size := by
  simp [fields, size, Nat.add_assoc]

/-- A record is read as it is written, if its tag tells its length and does not
    end the trace. -/
theorem decoder_fields {stored : UInt64 → Nat} {r : Record} (htag : r.tag ≠ endTag)
    (hlength : r.data.length = stored r.tag) (rest : Bytes) :
    decoder stored (r.fields.flatten ++ rest) = .value (some r) rest := by
  simp only [fields, List.flatten_cons, List.flatten_nil, List.append_nil, List.append_assoc]
  rw [decoder, Decoder.bind_of_eq_value (Decoder.uint64_ofUInt64 ..), if_neg htag,
    Decoder.bind_of_eq_value (Decoder.take_append hlength _),
    Decoder.bind_of_eq_value (Decoder.take_append (by simp [hlength]) _)]
  rfl

/-- A record that is read takes at least its tag off the input. -/
theorem decoder_rest_lt {stored : UInt64 → Nat} {input rest : Bytes} {entry : Option Record}
    (h : decoder stored input = .value entry rest) : rest.length < input.length := by
  obtain ⟨tag, afterTag, htag, hbody⟩ := Decoder.bind_eq_value.1 h
  obtain ⟨bytes, hbytes, rfl, -⟩ := Decoder.uint64_eq_value htag
  suffices rest.length ≤ afterTag.length by simp; omega
  split at hbody
  · cases hbody
    exact Nat.le_refl _
  · obtain ⟨data, afterData, hdata, hpadded⟩ := Decoder.bind_eq_value.1 hbody
    obtain ⟨pad, afterPad, hpad, hpure⟩ := Decoder.bind_eq_value.1 hpadded
    cases hpure
    obtain ⟨-, rfl⟩ := Decoder.take_eq_value hdata
    obtain ⟨-, rfl⟩ := Decoder.take_eq_value hpad
    simp
    omega

end Record

end Trace

end PacketTrace
