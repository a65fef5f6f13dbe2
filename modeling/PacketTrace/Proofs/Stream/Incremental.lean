import Mathlib.Data.Nat.Notation
import PacketTrace.Proofs.Capture.Streaming
import PacketTrace.Proofs.Pcap.File
import PacketTrace.Proofs.Pcap.Opening
import PacketTrace.Replay.Tag

/-!
# Decoders of a stream

Whoever decodes a stream holds only a part of it. That is enough if the decoder
is incremental (`Decoder.IsIncremental`): what it says of the part it says of the
whole, and the bytes that it still asks for are not more than the record has.

A decoder that insists is incremental once it is known how many bytes its values
take up, and that it refuses nothing before what it asked for is there
(`Decoder.Insists.isIncremental`). Records and entries are never refused, and a
header is refused for its first word only.

* `Pcap.Entry.insists_decoder`: an entry insists, though its head is asked for as
  a whole;
* `isIncremental_decoders`: the decoders of both traces and of packet files.
-/

namespace PacketTrace

namespace Decoder

variable {α : Type} {d : Decoder α} {size : α → ℕ} {largest : ℕ}

/-- A decoder of values that take up as many bytes as `size` tells, which can be
    given its input in parts. What it takes up is at the front of its input, and
    more input does not change it, nor what is refused. While it is given less
    than it asks for it asks for what is left, and it asks for no more bytes than
    the value has that is read in the end, or than the largest value has. -/
structure IsIncremental (d : Decoder α) (size : α → ℕ) (largest : ℕ) : Prop where
  front : ∀ {input a rest}, d input = .value a rest →
    ∃ front, front ≠ [] ∧ front.length = size a ∧ input = front ++ rest
  value : ∀ {input a rest}, d input = .value a rest →
    ∀ more, d (input ++ more) = .value a (rest ++ more)
  refused : ∀ {input failure}, d input = .refused failure →
    ∀ more, d (input ++ more) = .refused failure
  short_pos : ∀ {input missing}, d input = .short missing → 0 < missing
  short_append : ∀ {input missing}, d input = .short missing → ∀ more, more.length < missing →
    ∃ missing', missing ≤ more.length + missing' ∧ d (input ++ more) = .short missing'
  short_le_size : ∀ {input missing}, d input = .short missing →
    ∀ {more a rest}, d (input ++ more) = .value a rest → input.length + missing ≤ size a
  short_le_largest : ∀ {input missing}, d input = .short missing → input.length + missing ≤ largest

/-- A decoder that insists is incremental, if it refuses nothing while it is given
    less than it asked for. -/
theorem Insists.isIncremental (hd : d.Insists) (hpos : ∀ a, 0 < size a)
    (hsize : ∀ {input a rest}, d input = .value a rest → input.length = size a + rest.length)
    (hrefused : ∀ {input more missing failure}, d input = .short missing →
      d (input ++ more) = .refused failure → missing ≤ more.length)
    (hlargest : ∀ {input missing}, d input = .short missing → input.length + missing ≤ largest) :
    d.IsIncremental size largest where
  front := by
    intro input a rest h
    obtain ⟨front, rfl⟩ := hd.suffix h
    have hlength : front.length = size a := by
      have htotal := hsize h
      rw [List.length_append] at htotal
      exact Nat.add_right_cancel htotal
    exact ⟨front, List.ne_nil_of_length_pos (hlength ▸ hpos a), hlength, rfl⟩
  value := hd.value
  refused := hd.refused
  short_pos := hd.short_pos
  short_append := by
    intro input missing h more hmore
    cases hanswer : d (input ++ more) with
    | value a rest =>
      have hle := hd.value_of_short h hanswer
      rw [List.length_append] at hle
      omega
    | short missing' =>
      have hle := hd.short_of_short h hanswer
      rw [List.length_append, Nat.add_assoc] at hle
      exact ⟨missing', Nat.le_of_add_le_add_left hle, rfl⟩
    | refused failure => exact absurd (hrefused h hanswer) (Nat.not_le.2 hmore)
  short_le_size := by
    intro input missing h more a rest hanswer
    have hle := hd.value_of_short h hanswer
    rw [hsize hanswer] at hle
    exact Nat.le_of_add_le_add_right hle
  short_le_largest := hlargest

end Decoder

namespace Trace.Record

variable {stored : UInt64 → ℕ}

/-- The number of bytes that a record takes up, or the tag that ends the trace. -/
def entrySize : Option Record → ℕ
  | none => 8
  | some r => r.size

theorem entrySize_pos (entry : Option Record) : 0 < entrySize entry := by
  cases entry with
  | none => exact Nat.zero_lt_succ 7
  | some r =>
    rw [entrySize, size]
    omega

theorem length_eq_entrySize_add {input rest : Bytes} {entry : Option Record}
    (h : decoder stored input = .value entry rest) :
    input.length = entrySize entry + rest.length := by
  cases entry with
  | some r => exact length_eq_add_of_value h
  | none =>
    have h8 : 8 ≤ input.length := by
      by_contra hlt
      cases (decoder_of_lt (Nat.not_le.1 hlt)).symm.trans h
    rcases decoder_cases stored input with
      ⟨-, heq⟩ | ⟨-, heq⟩ | ⟨-, -, missing, -, heq⟩ | ⟨-, -, -, heq⟩ <;> rw [heq] at h <;> cases h
    rw [entrySize, List.length_drop]
    exact (Nat.add_sub_of_le h8).symm

/-- Records are read in parts, if there is a largest one. -/
theorem isIncremental_decoder {largest : ℕ} (h8 : 8 ≤ largest)
    (hspan : ∀ tag, span stored tag ≤ largest) :
    (decoder stored).IsIncremental entrySize largest := by
  refine (insists_decoder stored).isIncremental entrySize_pos length_eq_entrySize_add
    (fun _ hrefused => (decoder_ne_refused _ _ _ hrefused).elim) fun hshort => ?_
  rcases length_add_le_of_short hshort with htag | ⟨-, -, hle⟩
  · exact Nat.le_trans htag h8
  · exact Nat.le_trans hle (hspan _)

end Trace.Record

/-- The longest record of a replay trace has as many bytes as sixteen bits can
    tell, and a byte of padding. -/
theorem Replay.span_stored_le (tag : UInt64) : Trace.Record.span stored tag ≤ 65544 := by
  have hstored := stored_lt tag
  rw [Trace.Record.span, padding_eq_mod isPowerOfTwo_recordBoundary, recordBoundary]
  omega

namespace Pcap

theorem Header.isIncremental_decoder :
    Header.decoder.IsIncremental (fun _ => Header.size) Header.size := by
  refine insists_decoder.isIncremental (fun _ => Nat.zero_lt_succ 23) spans_decoder.value ?_
    spans_decoder.short
  intro input more missing failure hshort hrefused
  have hle := length_add_le_of_refused hshort hrefused
  -- What is refused has its magic number.
  have hmagic : 4 ≤ (input ++ more).length := by
    rcases Decoder.bind_eq_refused.1 hrefused with hword | ⟨magic, mid, hword, -⟩
    · exact absurd hword (Decoder.uint32_ne_refused _ _)
    · rw [Decoder.spans_uint32.value hword]
      exact Nat.le_add_right _ _
  rw [List.length_append] at hmagic
  omega

namespace Entry

/-- What is asked for is missing to the head, or to the entry that the head
    announces. -/
theorem length_add_of_short {input : Bytes} {missing : ℕ} (h : decoder input = .short missing) :
    input.length < headSize ∧ input.length + missing = headSize ∨
      headSize ≤ input.length ∧ input.length + missing = span input := by
  rcases decoder_cases input with ⟨hhead, heq⟩ | ⟨hhead, hcut, heq⟩ | ⟨-, e, -, heq⟩ <;>
    rw [heq] at h <;> cases h
  · exact .inl ⟨hhead, Nat.add_sub_of_le (Nat.le_of_lt hhead)⟩
  · exact .inr ⟨hhead, Nat.add_sub_of_le (Nat.le_of_lt hcut)⟩

theorem headSize_le_span (input : Bytes) : headSize ≤ span input := Nat.le_add_right _ _

theorem length_eq_size_add {input rest : Bytes} {e : Entry} (h : decoder input = .value e rest) :
    input.length = e.size + rest.length := by
  obtain ⟨hwhole, hsize, rfl⟩ := eq_drop_of_value h
  rw [hsize, List.length_drop]
  exact (Nat.add_sub_of_le hwhole).symm

/-- The head is asked for before anything of it is read, and is part of any
    entry. -/
theorem insists_decoder : decoder.Insists where
  toStable := stable_decoder
  value_of_short := by
    intro input more e rest missing h hmore
    obtain ⟨-, hsize, -⟩ := eq_drop_of_value hmore
    rw [length_eq_size_add hmore, hsize]
    refine Nat.add_le_add_right ?_ _
    rcases length_add_of_short h with ⟨-, htotal⟩ | ⟨hhead, htotal⟩
    · exact htotal ▸ headSize_le_span _
    · rw [htotal, span_append hhead]
  short_of_short := by
    intro input more missing missing' h hmore
    rcases length_add_of_short h with ⟨-, htotal⟩ | ⟨hhead, htotal⟩ <;>
      rcases length_add_of_short hmore with ⟨hcut, htotal'⟩ | ⟨-, htotal'⟩ <;>
      rw [htotal, htotal']
    · exact headSize_le_span _
    · rw [List.length_append] at hcut
      omega
    · rw [span_append hhead]

theorem isIncremental_decoder : decoder.IsIncremental size (headSize + (2 ^ 32 - 1)) := by
  refine insists_decoder.isIncremental (fun e => Nat.lt_of_lt_of_le (Nat.zero_lt_succ 15)
    (Nat.le_add_right headSize _)) length_eq_size_add
    (fun _ hrefused => (decoder_ne_refused _ _ hrefused).elim) ?_
  intro input missing hshort
  have hannounced := (announced input).toNat_lt
  rcases length_add_of_short hshort with ⟨-, htotal⟩ | ⟨-, htotal⟩ <;> rw [htotal]
  · exact Nat.le_add_right _ _
  · rw [span]
    omega

end Entry

end Pcap

/-- The records of both traces, under any limit, and the header and the entries of
    a packet file are read in parts as they are read at once. -/
theorem isIncremental_decoders :
    (∀ limit : UInt16, (Trace.Record.decoder (Capture.stored limit)).IsIncremental
      Trace.Record.entrySize 2056) ∧
    (Trace.Record.decoder Replay.stored).IsIncremental Trace.Record.entrySize 65544 ∧
    Pcap.Header.decoder.IsIncremental (fun _ => Pcap.Header.size) Pcap.Header.size ∧
    Pcap.Entry.decoder.IsIncremental Pcap.Entry.size (Pcap.Entry.headSize + (2 ^ 32 - 1)) :=
  ⟨fun limit => Trace.Record.isIncremental_decoder (by decide) (Capture.span_stored_le limit),
    Trace.Record.isIncremental_decoder (by decide) Replay.span_stored_le,
    Pcap.Header.isIncremental_decoder, Pcap.Entry.isIncremental_decoder⟩

end PacketTrace
