import PacketTrace.Proofs.Replay.RoundTrip
import PacketTrace.Proofs.Trace.Record

/-!
# What replay traces there are

Bytes whose number is a multiple of eight are records, one after the other and
each with its padding, up to where they end, to a word of all ones, or to a
record that is cut off (`Trace.exists_spelled`). A walk can tell these three
apart, because every record ends at a multiple of eight bytes. Only what the
padding holds is not known from the records (`Trace.spelled_zeros`).

* `Trace.Walk.answer_spelled`: what a walk answers, which is the records and
  then what cuts them off, if anything does;
* `Replay.walk_spells`: hence what is read of any trace of whole blocks, and that
  any records can be.
-/

namespace PacketTrace

namespace Trace

variable {stored : UInt64 → ℕ} {input rest tail : Bytes}

/-! ## One record -/

namespace Record

variable {r : Record} {pad : Bytes}

/-- The bytes of a record that is padded with these. -/
def spelled (r : Record) (pad : Bytes) : Bytes := Bytes.ofUInt64 r.tag ++ r.data ++ pad

/-- As many bytes as pad a record to a multiple of eight. -/
def IsPadding (r : Record) (pad : Bytes) : Prop :=
  pad.length = (8 - r.data.length % 8) % 8

theorem isPadding_iff : r.IsPadding pad ↔ pad.length = padding r.data.length recordBoundary := by
  rw [padding_eq_mod isPowerOfTwo_recordBoundary]
  rfl

theorem flatten_fields_eq_spelled (r : Record) : r.fields.flatten =
    r.spelled (List.replicate (padding r.data.length recordBoundary) 0) := by
  simp [fields, spelled]

/-- The bytes of the padding are not looked at. -/
theorem decoder_spelled (h : r.IsPlain stored) (hpad : r.IsPadding pad) (rest : Bytes) :
    decoder stored (r.spelled pad ++ rest) = .value (some r) rest := by
  have hlength : pad.length = padding (stored r.tag) recordBoundary := by
    rw [← h.length_data, ← isPadding_iff]
    exact hpad
  rw [spelled, List.append_assoc, List.append_assoc, decoder,
    Decoder.bind_of_eq_value (Decoder.uint64_ofUInt64 ..), if_neg h.tag_ne,
    Decoder.bind_of_eq_value (Decoder.take_append h.length_data _),
    Decoder.bind_of_eq_value (Decoder.take_append hlength _)]
  rfl

theorem eq_spelled_of_decoder (h : decoder stored input = .value (some r) rest) :
    r.IsPlain stored ∧ ∃ pad, r.IsPadding pad ∧ input = r.spelled pad ++ rest := by
  obtain ⟨tag, _, htag, hvalue⟩ := Decoder.bind_eq_value.1 h
  split at hvalue
  · cases hvalue
  next hne =>
    obtain ⟨data, _, hdata, hvalue⟩ := Decoder.bind_eq_value.1 hvalue
    obtain ⟨pad, _, hpad, hvalue⟩ := Decoder.bind_eq_value.1 hvalue
    cases hvalue
    obtain ⟨hlength, rfl⟩ := Decoder.take_eq_value hdata
    obtain ⟨hlength', rfl⟩ := Decoder.take_eq_value hpad
    refine ⟨⟨hne, hlength⟩, pad, isPadding_iff.2 (by rw [hlength', hlength]), ?_⟩
    rw [Decoder.eq_append_of_uint64 htag, spelled, List.append_assoc, List.append_assoc]

theorem eq_append_of_decoder (h : decoder stored input = .value none rest) :
    input = Bytes.ofUInt64 endTag ++ rest := by
  obtain ⟨tag, _, htag, hvalue⟩ := Decoder.bind_eq_value.1 h
  split at hvalue
  next hend =>
    cases hvalue
    rw [Decoder.eq_append_of_uint64 htag, hend]
  · obtain ⟨data, _, -, hvalue⟩ := Decoder.bind_eq_value.1 hvalue
    obtain ⟨pad, _, -, hvalue⟩ := Decoder.bind_eq_value.1 hvalue
    cases hvalue

theorem eq_append_headTag (h : 8 ≤ input.length) :
    input = Bytes.ofUInt64 (headTag input) ++ input.drop 8 :=
  Decoder.eq_append_of_uint64 (uint64_of_le h)

theorem headTag_ofUInt64 (tag : UInt64) (rest : Bytes) :
    headTag (Bytes.ofUInt64 tag ++ rest) = tag := by
  have hread := Decoder.uint64_ofUInt64 tag rest
  rw [uint64_of_le (by rw [List.length_append, Bytes.length_ofUInt64]; omega)] at hread
  exact (Decoded.value.inj hread).1

end Record

/-! ## Many records -/

/-- The bytes of records one after the other, each padded with its own. -/
def spelled (records : List Record) (pads : List Bytes) : Bytes :=
  (List.zipWith Record.spelled records pads).flatten

theorem spelled_cons (r : Record) (records : List Record) (pad : Bytes) (pads : List Bytes) :
    spelled (r :: records) (pad :: pads) = r.spelled pad ++ spelled records pads := rfl

/-- Records are written with zeros for their padding. -/
theorem spelled_zeros {records : List Record} {pads : List Bytes}
    (h : List.Forall₂ Record.IsPadding records pads) :
    (records.flatMap fun r => r.fields.flatten) =
      spelled records (pads.map fun pad => List.replicate pad.length 0) := by
  induction h with
  | nil => rfl
  | cons hpad _ ih =>
    rw [List.flatMap_cons, ih, List.map_cons, spelled_cons, Record.flatten_fields_eq_spelled,
      Record.isPadding_iff.1 hpad]

/-- What may come after the last record, and the failure that it is reported
    as. -/
inductive Ends (stored : UInt64 → ℕ) : Bytes → Option Failure → Prop where
  | nothing : Ends stored [] none
  | ones {rest : Bytes} : Ends stored (Bytes.ofUInt64 endTag ++ rest) none
  /-- The tag of a record of which not all bytes are there. -/
  | cut {tag : UInt64} {rest : Bytes} : tag ≠ endTag →
      rest.length < stored tag + padding (stored tag) recordBoundary →
      Ends stored (Bytes.ofUInt64 tag ++ rest) (some .truncatedInput)

/-- There is nothing but records up to one of these ends. -/
theorem exists_spelled (stored : UInt64 → ℕ) {bytes : Bytes} (h : 8 ∣ bytes.length) :
    ∃ records pads tail failure, bytes = spelled records pads ++ tail ∧
      List.Forall₂ Record.IsPadding records pads ∧ (∀ r ∈ records, r.IsPlain stored) ∧
      Ends stored tail failure := by
  induction hn : bytes.length using Nat.strong_induction_on generalizing bytes with
  | h n ih =>
    subst hn
    rcases Record.decoder_cases stored bytes with
      ⟨hshort, -⟩ | ⟨htag, hdecoder⟩ | ⟨hlong, htag, missing, hspan, hdecoder⟩ |
        ⟨-, -, -, hdecoder⟩
    · -- What is left ends at a multiple of eight bytes, so it is nothing.
      obtain rfl : bytes = [] := List.eq_nil_of_length_eq_zero (by omega)
      exact ⟨[], [], [], none, rfl, .nil, nofun, .nothing⟩
    · have hbytes := Record.eq_append_of_decoder hdecoder
      exact ⟨[], [], bytes, none, rfl, .nil, nofun, by rw [hbytes]; exact .ones⟩
    · have hpos := (Record.stable_decoder stored).short_pos hdecoder
      have hcut : Ends stored bytes (some .truncatedInput) := by
        rw [Record.eq_append_headTag hlong]
        refine .cut htag ?_
        rw [Record.span] at hspan
        rw [List.length_drop]
        omega
      exact ⟨[], [], bytes, _, rfl, .nil, nofun, hcut⟩
    · obtain ⟨r, rest, hdecoder⟩ :
          ∃ r rest, Record.decoder stored bytes = .value (some r) rest := ⟨_, _, hdecoder⟩
      obtain ⟨hplain, pad, hpad, hbytes⟩ := Record.eq_spelled_of_decoder hdecoder
      rw [Record.length_eq_add_of_value hdecoder] at h
      have hrest : 8 ∣ rest.length := (Nat.dvd_add_right (Record.eight_dvd_size _)).1 h
      obtain ⟨records, pads, tail, failure, rfl, hpads, hplains, hends⟩ :=
        ih _ (Record.decoder_rest_lt hdecoder) hrest rfl
      refine ⟨_ :: records, pad :: pads, tail, failure, ?_, .cons hpad hpads,
        List.forall_mem_cons.2 ⟨hplain, hplains⟩, hends⟩
      rw [hbytes, spelled_cons, List.append_assoc]

/-! ## Walking them -/

namespace Walk

/-- A walk answers with what the end is reported as, once. -/
theorem answer_of_ends {failure : Option Failure} (h : Ends stored tail failure) (n : ℕ) :
    answer (next stored) { rest := tail } n = (failure.toList.map .error)[n]? := by
  cases h with
  | nothing => exact answer_next_of_isOver (.inr (.inl rfl)) n
  | @ones rest =>
    have hdecoder := Record.decoder_endTag stored rest
    generalize Bytes.ofUInt64 endTag ++ rest = tail at hdecoder
    exact answer_next_of_isOver (.inr (.inr ⟨rest, hdecoder⟩)) n
  | @cut tag rest htag hlength =>
    have hlong : 8 ≤ (Bytes.ofUInt64 tag ++ rest).length := by
      rw [List.length_append, Bytes.length_ofUInt64]
      omega
    have hspan : (Bytes.ofUInt64 tag ++ rest).length <
        Record.span stored (Record.headTag (Bytes.ofUInt64 tag ++ rest)) := by
      rw [Record.headTag_ofUInt64, List.length_append, Bytes.length_ofUInt64, Record.span]
      omega
    obtain ⟨missing, -, hdecoder⟩ :=
      Record.decoder_of_span_gt hlong (by rwa [Record.headTag_ofUInt64]) hspan
    have hne : Bytes.ofUInt64 tag ++ rest ≠ [] := List.ne_nil_of_length_pos (by omega)
    have hnext : next stored { rest := Bytes.ofUInt64 tag ++ rest } =
        (some (.error .truncatedInput), { rest := Bytes.ofUInt64 tag ++ rest, done := true }) := by
      simp [next, hne, hdecoder]
    cases n with
    | zero => rw [answer_zero, hnext]; rfl
    | succ n =>
      rw [answer_succ, hnext]
      exact answer_next_of_isOver (.inl rfl) n

/-- Before it, a walk answers with the records in turn. -/
theorem answer_spelled {records : List Record} {pads : List Bytes} {failure : Option Failure}
    (hpads : List.Forall₂ Record.IsPadding records pads) (hplain : ∀ r ∈ records, r.IsPlain stored)
    (h : Ends stored tail failure) (n : ℕ) :
    answer (next stored) { rest := spelled records pads ++ tail } n =
      (records.map .ok ++ failure.toList.map .error)[n]? := by
  induction hpads generalizing n with
  | nil => exact answer_of_ends h n
  | @cons r pad records pads hpad _ ih =>
    rw [List.forall_mem_cons] at hplain
    have hnext := next_of_record
      (Record.decoder_spelled hplain.1 hpad (spelled records pads ++ tail))
    rw [spelled_cons, List.append_assoc]
    cases n with
    | zero => rw [answer_zero, hnext]; rfl
    | succ n =>
      rw [answer_succ, hnext]
      exact ih hplain.2 n

end Walk

end Trace

namespace Replay

/-- Records as they are written, one after the other. -/
def encoded (records : List Trace.Record) : Bytes := records.flatMap fun r => r.fields.flatten

theorem encoded_eq_layout (records : List Trace.Record) :
    encoded records = Trace.layout records := by
  simp only [encoded, Trace.Record.flatten_fields, Trace.layout]

/-- Any bytes that fill whole blocks are walked as records with as many bytes as
    their tags tell, which are there from the start, one after the other, and
    would be written so but for what is in their padding. Then the bytes end, or
    a word of all ones follows, or the tag of a record that is longer than what
    is left, which alone is reported. And any records with as many bytes as their
    tags tell are what is walked of the bytes that they are written as, filled up
    with ones. -/
theorem walk_spells :
    (∀ {bytes : Bytes}, 64 ∣ bytes.length → ∃ w records pads tail failure,
      Trace.Walk.ofTrace bytes = .ok w ∧
      (∀ n, answer (Trace.Walk.next stored) w n =
        (records.map .ok ++ failure.toList.map .error)[n]?) ∧
      bytes = Trace.spelled records pads ++ tail ∧
      encoded records =
        Trace.spelled records (pads.map fun pad => List.replicate pad.length 0) ∧
      List.Forall₂ (fun r pad => pad.length = (8 - r.data.length % 8) % 8) records pads ∧
      (∀ r ∈ records, r.tag ≠ Trace.endTag ∧
        r.data.length = (Tag.ofWord r.tag).wireLength.toNat) ∧
      (tail = [] ∧ failure = none ∨
        (∃ rest, tail = List.replicate 8 0xff ++ rest ∧ failure = none) ∨
        ∃ tag rest, tail = Bytes.ofUInt64 tag ++ rest ∧ tag ≠ Trace.endTag ∧
          rest.length < 8 * (((Tag.ofWord tag).wireLength.toNat + 7) / 8) ∧
          failure = some .truncatedInput)) ∧
    ∀ {records : List Trace.Record}, (∀ r ∈ records, r.tag ≠ Trace.endTag ∧
        r.data.length = (Tag.ofWord r.tag).wireLength.toNat) →
      ∃ w, Trace.Walk.ofTrace (encoded records ++
          List.replicate ((64 - (encoded records).length % 64) % 64) 0xff) = .ok w ∧
        ∀ n, answer (Trace.Walk.next stored) w n = (records.map .ok)[n]? := by
  constructor
  · intro bytes haligned
    obtain ⟨records, pads, tail, failure, rfl, hpads, hplain, hends⟩ :=
      Trace.exists_spelled stored (Nat.dvd_trans (by decide) haligned)
    refine ⟨_, records, pads, tail, failure, Trace.Walk.ofTrace_of_dvd haligned,
      Trace.Walk.answer_spelled hpads hplain hends, rfl, Trace.spelled_zeros hpads, hpads,
      fun r hr => ⟨(hplain r hr).tag_ne, (hplain r hr).length_data⟩, ?_⟩
    cases hends with
    | nothing => exact .inl ⟨rfl, rfl⟩
    | @ones rest => exact .inr (.inl ⟨rest, by rw [Trace.ofUInt64_endTag], rfl⟩)
    | @cut tag rest htag hlength =>
      refine .inr (.inr ⟨tag, rest, rfl, htag, ?_, rfl⟩)
      rw [padding_eq_mod isPowerOfTwo_recordBoundary, recordBoundary, stored] at hlength
      omega
  · intro records hrecords
    have hplain : ∀ r ∈ records, r.IsPlain stored := fun r hr =>
      ⟨(hrecords r hr).1, (hrecords r hr).2⟩
    have haligned : 64 ∣ (encoded records ++
        List.replicate ((64 - (encoded records).length % 64) % 64) 0xff).length := by
      rw [List.length_append, List.length_replicate]
      omega
    refine ⟨_, Trace.Walk.ofTrace_of_dvd haligned, fun n => ?_⟩
    rw [encoded_eq_layout, List.getElem?_map]
    exact Trace.Walk.answer_next_layout hplain
      (isOver_filler (Trace.eight_dvd_length_layout records)) n

/-- A record of two bytes, and the tag of one with far more than there are. -/
def cutSecond : Bytes :=
  [1, 0, 0, 0, 9, 0, 2, 0, 7, 8, 1, 2, 3, 4, 5, 6] ++ [0, 0, 0, 0, 0, 0, 255, 255] ++
    List.replicate 40 0

theorem walk_spells_of_cutSecond :
    answers (Trace.Walk.next stored) { rest := cutSecond } 3 =
        [some (.ok ⟨0x0002000900000001, [7, 8]⟩), some (.error .truncatedInput), none] ∧
      (∃ pads tail, cutSecond = Trace.spelled [⟨0x0002000900000001, [7, 8]⟩] pads ++ tail ∧
        encoded [⟨0x0002000900000001, [7, 8]⟩] =
          Trace.spelled [⟨0x0002000900000001, [7, 8]⟩]
            (pads.map fun pad => List.replicate pad.length 0)) ∧
      ∃ w, Trace.Walk.ofTrace (encoded [⟨0x0002000900000001, [7, 8]⟩, ⟨0, []⟩] ++
          List.replicate 40 0xff) = .ok w ∧
        ∀ n, answer (Trace.Walk.next stored) w n =
          ([⟨0x0002000900000001, [7, 8]⟩, ⟨0, []⟩].map .ok)[n]? := by
  obtain ⟨hspelled, hwalked⟩ := walk_spells
  refine ⟨by decide +kernel, ?_, hwalked (by decide +kernel)⟩
  obtain ⟨w, records, pads, tail, failure, hw, hanswer, hbytes, hencoded, -⟩ :=
    hspelled (show 64 ∣ cutSecond.length by decide +kernel)
  cases hw.symm.trans (show Trace.Walk.ofTrace cutSecond = .ok { rest := cutSecond } from rfl)
  have hfirst : answer (Trace.Walk.next stored) { rest := cutSecond } 0 =
      some (.ok ⟨0x0002000900000001, [7, 8]⟩) := by decide +kernel
  have hsecond : answer (Trace.Walk.next stored) { rest := cutSecond } 1 =
      some (.error .truncatedInput) := by decide +kernel
  rw [hanswer] at hfirst hsecond
  rcases records with _ | ⟨r, _ | ⟨r', records⟩⟩
  · cases failure <;> cases hfirst
  · cases hfirst
    exact ⟨pads, tail, hbytes, hencoded⟩
  · cases hsecond

end Replay

end PacketTrace
