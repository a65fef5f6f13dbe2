import Mathlib.Data.Nat.Notation
import PacketTrace.Proofs.Bytes.Decoder
import PacketTrace.Trace.Record

/-!
# What a record is read from

The first eight bytes of a record are its tag (`Trace.Record.headTag`), which
says how many bytes the record takes up (`Trace.Record.span`). With fewer bytes
than these the decoder asks for more, and never for more than are missing to
the whole record.

* `decoder_cases`: what is read from any bytes;
* `length_add_le_of_short`: what is asked for is within the span.
-/

namespace PacketTrace

namespace Trace

namespace Record

variable {stored : UInt64 → ℕ} {input rest more : Bytes}

theorem insists_decoder (stored : UInt64 → ℕ) : (decoder stored).Insists := by
  refine Decoder.insists_uint64.bind fun tag => ?_
  split
  · exact Decoder.insists_pure _
  · exact (Decoder.insists_take _).bind fun data =>
      (Decoder.insists_take _).bind fun _ => Decoder.insists_pure _

theorem stable_decoder (stored : UInt64 → ℕ) : (decoder stored).Stable :=
  (insists_decoder stored).toStable

/-- The tag that the first bytes hold. -/
def headTag (input : Bytes) : UInt64 := UInt64.ofNat (Bytes.toNat (input.take 8))

/-- The number of bytes that a record with this tag takes up. -/
def span (stored : UInt64 → ℕ) (tag : UInt64) : ℕ :=
  8 + stored tag + padding (stored tag) recordBoundary

theorem headTag_append (h : 8 ≤ input.length) (more : Bytes) :
    headTag (input ++ more) = headTag input := by
  rw [headTag, headTag, List.take_append_of_le_length h]

theorem uint64_of_le (h : 8 ≤ input.length) :
    Decoder.uint64 input = .value (headTag input) (input.drop 8) := by
  rw [Decoder.uint64, Decoder.bind_apply, Decoder.word, Decoder.bind_apply, Decoder.take_of_le h]
  rfl

theorem decoder_of_lt (h : input.length < 8) :
    decoder stored input = .short (8 - input.length) := by
  rw [decoder, Decoder.bind_apply, Decoder.uint64, Decoder.bind_apply, Decoder.word,
    Decoder.bind_apply, Decoder.take_of_lt h]

theorem decoder_of_eq_endTag (h : 8 ≤ input.length) (htag : headTag input = endTag) :
    decoder stored input = .value none (input.drop 8) := by
  rw [decoder, Decoder.bind_of_eq_value (uint64_of_le h), if_pos htag]
  rfl

theorem decoder_of_le (h : 8 ≤ input.length) (htag : headTag input ≠ endTag)
    (hspan : span stored (headTag input) ≤ input.length) :
    decoder stored input = .value
      (some { tag := headTag input, data := (input.drop 8).take (stored (headTag input)) })
      (input.drop (span stored (headTag input))) := by
  rw [span] at hspan
  rw [decoder, Decoder.bind_of_eq_value (uint64_of_le h), if_neg htag,
    Decoder.bind_of_eq_value (Decoder.take_of_le (by rw [List.length_drop]; omega)),
    Decoder.bind_of_eq_value
      (Decoder.take_of_le (by rw [List.length_drop, List.length_drop]; omega)),
    List.drop_drop, List.drop_drop, Decoder.pure_apply, span, Nat.add_assoc]

theorem decoder_of_span_gt (h : 8 ≤ input.length) (htag : headTag input ≠ endTag)
    (hspan : input.length < span stored (headTag input)) :
    ∃ missing, input.length + missing ≤ span stored (headTag input) ∧
      decoder stored input = .short missing := by
  rw [span] at hspan ⊢
  rw [decoder, Decoder.bind_of_eq_value (uint64_of_le h), if_neg htag, Decoder.bind_apply]
  rcases Decoder.take_cases (stored (headTag input)) (input.drop 8) with
    ⟨hn, htake⟩ | ⟨hn, htake⟩ <;> rw [htake] <;> rw [List.length_drop] at *
  · exact ⟨_, by omega, rfl⟩
  · simp only
    rw [Decoder.bind_apply, Decoder.take_of_lt (by rw [List.length_drop, List.length_drop]; omega)]
    exact ⟨_, by rw [List.length_drop, List.length_drop]; omega, rfl⟩

/-- Too few bytes for a tag, the tag that ends the trace, too few bytes for the
    record, or all of it. -/
theorem decoder_cases (stored : UInt64 → ℕ) (input : Bytes) :
    input.length < 8 ∧ decoder stored input = .short (8 - input.length) ∨
      headTag input = endTag ∧ decoder stored input = .value none (input.drop 8) ∨
      (8 ≤ input.length ∧ headTag input ≠ endTag ∧
        ∃ missing, input.length + missing ≤ span stored (headTag input) ∧
          decoder stored input = .short missing) ∨
      8 ≤ input.length ∧ headTag input ≠ endTag ∧ span stored (headTag input) ≤ input.length ∧
        decoder stored input = .value
          (some { tag := headTag input, data := (input.drop 8).take (stored (headTag input)) })
          (input.drop (span stored (headTag input))) := by
  rcases Nat.lt_or_ge input.length 8 with hshort | hlong
  · exact .inl ⟨hshort, decoder_of_lt hshort⟩
  · by_cases htag : headTag input = endTag
    · exact .inr (.inl ⟨htag, decoder_of_eq_endTag hlong htag⟩)
    · rcases Nat.lt_or_ge input.length (span stored (headTag input)) with hspan | hspan
      · exact .inr (.inr (.inl ⟨hlong, htag, decoder_of_span_gt hlong htag hspan⟩))
      · exact .inr (.inr (.inr ⟨hlong, htag, hspan, decoder_of_le hlong htag hspan⟩))

/-- No bytes are refused. -/
theorem decoder_ne_refused (stored : UInt64 → ℕ) (input : Bytes) (failure : Failure) :
    decoder stored input ≠ .refused failure := by
  rcases decoder_cases stored input with
    ⟨-, heq⟩ | ⟨-, heq⟩ | ⟨-, -, missing, -, heq⟩ | ⟨-, -, -, heq⟩ <;> rw [heq] <;> nofun

/-- What is asked for is missing to the tag, or to the record. -/
theorem length_add_le_of_short {missing : ℕ} (h : decoder stored input = .short missing) :
    input.length + missing ≤ 8 ∨ 8 ≤ input.length ∧ headTag input ≠ endTag ∧
      input.length + missing ≤ span stored (headTag input) := by
  rcases decoder_cases stored input with
    ⟨hshort, heq⟩ | ⟨-, heq⟩ | ⟨hlong, htag, missing', hle, heq⟩ | ⟨-, -, -, heq⟩ <;>
    rw [heq] at h <;> cases h
  · exact .inl (by omega)
  · exact .inr ⟨hlong, htag, hle⟩

/-- A record that is read has as many bytes as its tag tells. -/
theorem length_data_of_value {r : Record} (h : decoder stored input = .value (some r) rest) :
    r.data.length = stored r.tag := by
  rcases decoder_cases stored input with
    ⟨-, heq⟩ | ⟨-, heq⟩ | ⟨-, -, missing, -, heq⟩ | ⟨-, -, hspan, heq⟩ <;>
    rw [heq] at h <;> cases h
  rw [span] at hspan
  simp only [List.length_take, List.length_drop]
  omega

/-- A record that is read takes its size off the input. -/
theorem length_eq_add_of_value {r : Record} (h : decoder stored input = .value (some r) rest) :
    input.length = r.size + rest.length := by
  have hdata := length_data_of_value h
  rcases decoder_cases stored input with
    ⟨-, heq⟩ | ⟨-, heq⟩ | ⟨-, -, missing, -, heq⟩ | ⟨-, -, hspan, heq⟩ <;>
    rw [heq] at h <;> cases h
  rw [size, hdata, List.length_drop]
  exact (Nat.add_sub_of_le hspan).symm

end Record

end Trace

end PacketTrace
