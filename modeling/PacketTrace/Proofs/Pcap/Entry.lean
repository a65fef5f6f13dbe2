import Mathlib.Data.Nat.Notation
import PacketTrace.Pcap.Entry
import PacketTrace.Pcap.Header
import PacketTrace.Proofs.Bytes.Decoder

/-!
# What headers and entries are read from

A header takes up 24 bytes, and nothing beyond them is asked for
(`Pcap.Header.spans_decoder`). The head of an entry, its first 16 bytes, tells
how many bytes the entry takes up (`Pcap.Entry.span`); with fewer bytes than
these the decoder asks for what is missing to the head, or to the entry.

* `Pcap.Entry.decoder_cases`: what is read from any bytes.
-/

namespace PacketTrace

namespace Pcap

theorem Header.spans_decoder : Header.decoder.Spans Header.size := by
  refine Decoder.spans_uint32.bind (n := 20) fun magic => ?_
  split
  · exact Decoder.spans_refuse _ _
  · exact Decoder.spans_uint16.bind fun _ => Decoder.spans_uint16.bind fun _ =>
      Decoder.spans_int32.bind fun _ => Decoder.spans_uint32.bind fun _ =>
        Decoder.spans_uint32.bind fun _ => Decoder.spans_int32.bind fun _ =>
          Decoder.spans_pure _

/-- A header is refused for its magic number. -/
theorem Header.decoder_eq_refused {input : Bytes} {failure : Failure}
    (h : Header.decoder input = .refused failure) : ∃ magic, failure = .unsupportedMagic magic := by
  obtain hmagic | ⟨magic, mid, -, hrest⟩ := Decoder.bind_eq_refused.1 h
  · exact absurd hmagic (Decoder.uint32_ne_refused _ _)
  · split at hrest
    · cases hrest
      exact ⟨magic, rfl⟩
    · simp [Decoder.bind_eq_refused] at hrest

namespace Entry

variable {input rest : Bytes}

/-- The number of captured bytes that the head of an entry tells. -/
def announced (input : Bytes) : UInt32 := UInt32.ofNat (Bytes.toNat ((input.drop 8).take 4))

/-- The number of bytes that an entry with this head takes up. -/
def span (input : Bytes) : ℕ := headSize + (announced input).toNat

theorem decoder_of_lt (h : input.length < headSize) :
    decoder input = .short (headSize - input.length) := by
  rw [decoder, Decoder.bind_apply, Decoder.demand_of_lt h]

/-- With its head there, an entry is read up to its data, which are as many bytes
    as the head tells. -/
theorem decoder_of_le (h : headSize ≤ input.length) :
    ∃ seconds nanos wireLength, decoder input =
      (do
        let data ← Decoder.take (announced input).toNat
        return { seconds, nanos, captured := announced input, wireLength, data } : Decoder Entry)
        (input.drop headSize) := by
  have hlength : 16 ≤ input.length := h
  have hdrop (n : ℕ) (hn : n ≤ 12) : 4 ≤ (input.drop n).length := by
    rw [List.length_drop]
    omega
  rw [decoder, Decoder.bind_of_eq_value (Decoder.demand_of_le h),
    Decoder.bind_of_eq_value (Decoder.uint32_of_le (by omega)),
    Decoder.bind_of_eq_value (Decoder.uint32_of_le (hdrop 4 (by omega))), List.drop_drop,
    Decoder.bind_of_eq_value (Decoder.uint32_of_le (hdrop 8 (by omega))), List.drop_drop,
    Decoder.bind_of_eq_value (Decoder.uint32_of_le (hdrop 12 (by omega))), List.drop_drop]
  exact ⟨_, _, _, rfl⟩

/-- Too few bytes for a head, too few for the entry, or all of it. -/
theorem decoder_cases (input : Bytes) :
    input.length < headSize ∧ decoder input = .short (headSize - input.length) ∨
      (headSize ≤ input.length ∧ input.length < span input ∧
        decoder input = .short (span input - input.length)) ∨
      (span input ≤ input.length ∧
        ∃ e, e.size = span input ∧ decoder input = .value e (input.drop (span input))) := by
  rcases Nat.lt_or_ge input.length headSize with hshort | hlong
  · exact .inl ⟨hshort, decoder_of_lt hshort⟩
  · obtain ⟨seconds, nanos, wireLength, hhead⟩ := decoder_of_le hlong
    have hdrop : (input.drop headSize).length = input.length - headSize := List.length_drop
    rw [hhead, Decoder.bind_apply, span]
    rcases Decoder.take_cases (announced input).toNat (input.drop headSize) with
      ⟨hcut, htake⟩ | ⟨hwhole, htake⟩ <;> rw [htake]
    · refine .inr (.inl ⟨hlong, by omega, ?_⟩)
      rw [hdrop]
      exact congrArg Decoded.short (by omega)
    · refine .inr (.inr ⟨by omega, _, ?_, by rw [← List.drop_drop]; rfl⟩)
      rw [size, List.length_take, Nat.min_eq_left hwhole]

/-- No bytes are refused. -/
theorem decoder_ne_refused (input : Bytes) (failure : Failure) :
    decoder input ≠ .refused failure := by
  rcases decoder_cases input with ⟨-, heq⟩ | ⟨-, -, heq⟩ | ⟨-, e, -, heq⟩ <;> rw [heq] <;> nofun

/-- What is read of an entry takes its span off the input. -/
theorem eq_drop_of_value {e : Entry} (h : decoder input = .value e rest) :
    span input ≤ input.length ∧ e.size = span input ∧ rest = input.drop (span input) := by
  rcases decoder_cases input with ⟨-, heq⟩ | ⟨-, -, heq⟩ | ⟨hwhole, e, hsize, heq⟩ <;>
    rw [heq] at h <;> cases h
  exact ⟨hwhole, hsize, rfl⟩

theorem decoder_rest_lt {e : Entry} (h : decoder input = .value e rest) :
    rest.length < input.length := by
  obtain ⟨hwhole, -, rfl⟩ := eq_drop_of_value h
  rw [List.length_drop]
  rw [span, headSize] at *
  omega

theorem span_append (h : headSize ≤ input.length) (more : Bytes) :
    span (input ++ more) = span input := by
  have hlength : 16 ≤ input.length := h
  have hdrop : 4 ≤ (input.drop 8).length := by
    rw [List.length_drop]
    omega
  rw [span, span, announced, announced, List.drop_append_of_le_length (by omega),
    List.take_append_of_le_length hdrop]

end Entry

end Pcap

end PacketTrace
