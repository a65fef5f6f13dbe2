import PacketTrace.Proofs.Capture.Arrivals
import PacketTrace.Proofs.Capture.Streaming
import PacketTrace.Proofs.Conversion.Transfer
import PacketTrace.Proofs.Pcap.RoundTrip

/-!
# What comes of exporting a capture trace

A capture trace is exported packet by packet, up to its end, to a record that is
cut off, or to the first packet that is too late for a packet file. All packets
up to there are in the file, whatever comes then, and are read from it as they
were captured.

* `Pcap.writeAll_outcome`: what comes of writing packets, on any sink that never
  fails (`Pcap.IsOutcome`);
* `writePcap_outcome`: hence what comes of the packets of a trace;
* `captureToPcap_outcome`: hence what comes of any bytes, and what is then read of
  the file (`Pcap.ReadsBack`).
-/

namespace PacketTrace

namespace Pcap

/-- What comes of writing these packets, when a failure cuts them off or none
    does: there is an entry for each packet before the first that is too late,
    if there is one. -/
structure IsOutcome (packets : List Packet) (failure : Option Failure)
    (result : Except Failure Tally) (output : Bytes) : Prop where
  output_eq : output =
    ({} : Header).fields.flatten ++ layout ((timely packets).map entry)
  result_eq : result =
    match tooLate packets, failure with
    | some refusal, _ => .error refusal
    | none, some failure => .error failure
    | none, none => .ok ⟨packets.length, output.length⟩

/-- Success is that no packet is too late and no failure cuts them off. -/
theorem IsOutcome.of_ok {packets : List Packet} {failure : Option Failure} {tally : Tally}
    {output : Bytes} (h : IsOutcome packets failure (.ok tally) output) :
    tooLate packets = none ∧ failure = none ∧ tally = ⟨packets.length, output.length⟩ ∧
      output = ({} : Header).fields.flatten ++ layout (packets.map entry) := by
  obtain ⟨houtput, hresult⟩ := h
  cases hlate : tooLate packets with
  | some refusal =>
    rw [hlate] at hresult
    cases hresult
  | none =>
    rw [hlate] at hresult
    rw [timely_eq_of_tooLate hlate] at houtput
    cases failure with
    | some failure => cases hresult
    | none => exact ⟨rfl, rfl, Except.ok.inj hresult, houtput⟩

/-- Each packet that is counted has an entry among the bytes that are counted. -/
theorem IsOutcome.packets_le {packets : List Packet} {failure : Option Failure} {tally : Tally}
    {output : Bytes} (h : IsOutcome packets failure (.ok tally) output) :
    tally.bytes = output.length ∧ tally.packets ≤ output.length := by
  obtain ⟨-, -, rfl, houtput⟩ := h.of_ok
  have hle := length_le_length_layout (packets.map entry)
  rw [List.length_map] at hle
  refine ⟨rfl, ?_⟩
  rw [houtput, List.length_append]
  exact Nat.le_trans hle (Nat.le_add_left _ _)

/-! ## On any sink that never fails -/

section Intake

variable {τ : Type} [ByteSink τ] {R : Bytes → τ → Prop} {t : τ}

/-- A file is begun with the bytes of its header, and then has an entry for each
    packet before the first that is too late. -/
theorem Encoder.putAll_write_of_new (hR : IsIntake R) (ht : R [] t) (packets : List Packet) :
    ∃ t₁ t₂, Encoder.start {} t = (.ok { bytes := Header.size }, t₁) ∧
      putAll Encoder.write packets { bytes := Header.size } t₁ =
        ((tooLate packets).elim (.ok ()) .error,
          { bytes := Header.size + (layout ((timely packets).map entry)).length
            packets := (timely packets).length }, t₂) ∧
      Mirrors R (({} : Spool).append
        (({} : Header).fields.flatten ++ layout ((timely packets).map entry))) t₂ := by
  obtain ⟨t₁, hheader, hmirrors⟩ := (mirrors_new ht).writeFields hR ({} : Header).fields
  obtain ⟨t₂, hagree, hmirrors'⟩ := hmirrors.putAll (fun e p h => write_agrees hR h e p) packets
    { bytes := Header.size }
  rw [putAll_write hmirrors.limit] at hagree hmirrors'
  refine ⟨t₁, t₂, ?_, ?_, ?_⟩
  · rw [start, hheader, Header.length_flatten_fields]
  · rw [hagree, Nat.zero_add]
  · rwa [Spool.append_append] at hmirrors'

/-- Writes these packets as a file, up to the failure that cuts them off, if there is
    one. -/
def writeAll (failure : Option Failure) (packets : List Packet) (t : τ) :
    Except Failure Tally × τ :=
  match Encoder.start {} t with
  | (.error failure, t) => (.error failure, t)
  | (.ok encoder, t) =>
    match cutOff failure (putAll Encoder.write packets encoder t) with
    | (.error failure, t) => (.error failure, t)
    | (.ok encoder, t) => finishPcap encoder t

theorem writeAll_outcome (hR : IsIntake R) (ht : R [] t) (failure : Option Failure)
    (packets : List Packet) :
    ∃ result t' output, writeAll failure packets t = (result, t') ∧ R output t' ∧
      IsOutcome packets failure result output := by
  obtain ⟨t₁, t₂, hstart, hputAll, hmirrors⟩ := Encoder.putAll_write_of_new hR ht packets
  obtain ⟨t₃, hflush, hmirrors'⟩ := hmirrors.flushSink hR
  obtain ⟨output, houtput⟩ : ∃ output : Bytes, output =
    ({} : Header).fields.flatten ++ layout ((timely packets).map entry) := ⟨_, rfl⟩
  rw [← houtput] at hmirrors hmirrors'
  simp only [writeAll, hstart, hputAll]
  cases hlate : tooLate packets with
  | some refusal =>
    exact ⟨.error refusal, t₂, output, rfl, hmirrors.of_append, houtput, by rw [hlate]⟩
  | none =>
    cases failure with
    | some failure =>
      exact ⟨.error failure, t₂, output, rfl, hmirrors.of_append, houtput, by rw [hlate]⟩
    | none =>
      have hbytes : output.length =
          Header.size + (layout ((timely packets).map entry)).length := by
        rw [houtput, List.length_append, Header.length_flatten_fields]
      refine ⟨.ok ⟨packets.length, output.length⟩, t₃, output, ?_, hmirrors'.of_append, houtput,
        by rw [hlate]⟩
      simp only [cutOff, Option.elim, finishPcap, hflush]
      rw [hbytes, timely_eq_of_tooLate hlate]

end Intake

end Pcap

section Conversion

variable {σ τ : Type} [ByteSink τ] {R : Bytes → τ → Prop} {s : σ} {t : τ} {packets : List Packet}
  {failure : Option Failure}

/-- The packets of a stream are written as if they were known. -/
theorem exists_writePcapUpTo_eq [ByteSource σ] {r : Capture.Stream}
    (h : Produces Capture.Stream.next packets failure r s) {n : ℕ} (hbound : packets.length < n)
    (t : τ) :
    ∃ s', writePcapUpTo n r (s, t) =
      ((Pcap.writeAll failure packets t).1, s', (Pcap.writeAll failure packets t).2) := by
  rw [writePcapUpTo, Pcap.Encoder.start_pair, Pcap.writeAll]
  rcases Pcap.Encoder.start {} t with ⟨_ | encoder, t₁⟩
  · exact ⟨s, rfl⟩
  · obtain ⟨s', htransfer⟩ := h.transfer Capture.Stream.next_pair Pcap.Encoder.write_pair hbound t₁
    refine ⟨s', ?_⟩
    simp only
    rw [htransfer]
    rcases cutOff failure (putAll Pcap.Encoder.write packets encoder t₁) with ⟨_ | encoder', t₂⟩
    · rfl
    · simp only [finishPcap, flushSink_pair]
      rcases flushSink t₂ with ⟨_ | _, t₃⟩ <;> rfl

theorem writePcapUpTo_outcome [ByteSource σ] (hR : IsIntake R) (ht : R [] t) {r : Capture.Stream}
    (h : Produces Capture.Stream.next packets failure r s) {n : ℕ} (hbound : packets.length < n) :
    ∃ result s' t' output, writePcapUpTo n r (s, t) = (result, s', t') ∧ R output t' ∧
      Pcap.IsOutcome packets failure result output := by
  obtain ⟨result, t', output, hwrite, htaken, houtcome⟩ :=
    Pcap.writeAll_outcome hR ht failure packets
  obtain ⟨s', heq⟩ := exists_writePcapUpTo_eq h hbound t
  rw [hwrite] at heq
  exact ⟨result, s', t', output, heq, htaken, houtcome⟩

theorem writePcap_outcome [ByteSource σ] (hR : IsIntake R) (ht : R [] t) {r : Capture.Stream}
    (h : Produces Capture.Stream.next packets failure r s)
    (hbound : packets.length < packetBound r.window s) :
    ∃ result s' t' output, writePcap r (s, t) = (result, s', t') ∧ R output t' ∧
      Pcap.IsOutcome packets failure result output := by
  rw [writePcap_eq_upTo, Pcap.Encoder.start_pair]
  exact writePcapUpTo_outcome hR ht h hbound

/-! ## Any bytes -/

/-- What is known of the packets that a walk over a whole trace meets. -/
theorem Capture.drain_trace (trace : Bytes) (limit : UInt16) :
    ∃ records failure, Trace.Walk.drain (stored limit) { rest := trace } = (records, failure) ∧
      (failure = none ∨ failure = some .truncatedInput) ∧
      Walk.drain { trace, limit, place := { rest := trace } } = (arrivals {} records, failure) ∧
      AreArrivalsOf limit records (arrivals {} records) ∧ records.length ≤ trace.length ∧
      ∀ p ∈ arrivals {} records, p.data.length < 2 ^ 16 :=
  ⟨_, _, rfl, Trace.Walk.drain_failure _ _, Walk.drain_eq _,
    areArrivalsOf_arrivals (Trace.Walk.length_data_of_mem_drain _ _),
    Trace.Walk.length_drain_le _ _, fun _ hp => length_data_lt_of_mem_arrivals hp⟩

/-- The first packet that is too late for a packet file is not so late that its
    arrival time would not fit in 64 bits, however many packets there are. -/
theorem Capture.lt_of_tooLate {clock : ArrivalClock} {records : List Trace.Record} {nanos : ℕ}
    (hclock : clock.now < 2 ^ 32 * nanosPerSecond)
    (h : Pcap.tooLate (arrivals clock records) = some (.timestampTooLate nanos)) :
    nanos < 2 ^ 64 := by
  induction records generalizing clock with
  | nil => cases h
  | cons r records ih =>
    rw [Pcap.tooLate, arrivals] at h
    cases htimely : Pcap.isTimely (packet (arrive clock r) r) with
    | true =>
      rw [List.find?_cons_of_neg (by simp [htimely])] at h
      exact ih (of_decide_eq_true htimely) h
    | false =>
      rw [List.find?_cons_of_pos (by simp [htimely])] at h
      cases h
      have hnow := now_arrive_le clock r
      change (arrive clock r).now < 2 ^ 64
      rw [nanosPerSecond] at hclock
      omega

/-- A capture trace that does not fill whole blocks is refused, and nothing is
    written. One that does is exported to a sink that never fails, through a
    window with room for any record, as the packets that a walk over it answers
    with, up to the failure to answer with one or to write it. What has been
    written is read as these packets. -/
theorem captureToPcap_outcome [SeekableSource σ] (hR : IsIntake R) (ht : R [] t) {trace : Bytes}
    {capacity : ℕ} (hs : Holds trace s) (hcapacity : 2056 ≤ capacity) (limit : UInt16) :
    ∃ result s' t' output,
      captureToPcap capacity limit (s, t) = (result, s', t') ∧ R output t' ∧
        if 64 ∣ trace.length then
          ∃ w records packets failure, Capture.Walk.ofTrace trace limit = .ok w ∧
            w.drain = (packets, failure) ∧
            (∀ n, Capture.streamed (answer Capture.Walk.next w n) = answerOf packets failure n) ∧
            (failure = none ∨ failure = some .truncatedInput) ∧
            Trace.Walk.drain (Capture.stored limit) { rest := trace } = (records, failure) ∧
            Capture.AreArrivalsOf limit records packets ∧
            Pcap.IsOutcome packets failure result output ∧
            Pcap.ReadsBack output {} (Pcap.timely packets)
        else result = .error (.unalignedTrace trace.length 64) ∧ output = [] := by
  rw [captureToPcap, Capture.Stream.start_pair]
  by_cases haligned : 64 ∣ trace.length
  · obtain ⟨s₁, hwalk, hstart, hdelivers⟩ := Capture.start_of_dvd hs haligned capacity limit
    obtain ⟨records, failure, hrecords, hfailure, hdrain, harrivals, hcount, hdata⟩ :=
      Capture.drain_trace trace limit
    have hproduces := (Capture.follows_start hdelivers capacity limit).produces hcapacity
    have hanswer := Capture.Walk.streamed_answer { trace, limit, place := { rest := trace } }
    rw [hdrain] at hproduces hanswer
    have hbound : (Capture.arrivals {} records).length < packetBound { capacity } s₁ := by
      rw [Capture.length_arrivals]
      exact Nat.lt_succ_of_le (hcount.trans (hdelivers.length_le.trans (Nat.le_add_left _ _)))
    obtain ⟨result, s', t', output, hwrite, htaken, houtcome⟩ :=
      writePcap_outcome hR ht hproduces hbound
    simp only [hstart, if_pos haligned]
    refine ⟨result, s', t', output, hwrite, htaken, _, records, _, failure, hwalk, hdrain, hanswer,
      hfailure, hrecords, harrivals, houtcome, ?_⟩
    rw [houtcome.output_eq]
    refine Pcap.readsBack_layout_map rfl (fun p hp => List.mem_takeWhile_imp hp) fun p hp => ?_
    have hmem := (List.takeWhile_prefix _).subset hp
    exact Nat.lt_trans (hdata p hmem) (by decide)
  · obtain ⟨s₁, hstart⟩ := Capture.start_of_not_dvd hs haligned capacity limit
    simp only [hstart, if_neg haligned]
    exact ⟨_, s₁, t, [], rfl, ht, rfl, rfl⟩

end Conversion

/-- A capture trace of two packets, seven cycles apart, and of a third that is
    cut off. -/
def cutThird : Bytes :=
  [0, 0, 0, 0, 0, 0, 64, 0, 7, 8, 0, 0, 0, 0, 0, 0,
    0, 0, 0, 14, 0, 0, 64, 0, 9, 10, 0, 0, 0, 0, 0, 0,
    0, 0, 0, 0, 0, 0, 128, 12] ++ List.replicate 24 11

theorem captureToPcap_outcome_of_cutThird :
    ∃ s' t', captureToPcap 2056 1500
        (({ content := cutThird, reads := [.upTo 5, .upTo 30] } : Tape), ({} : Spool)) =
          (.error .truncatedInput, s', t') ∧
      t'.toBytes = ({} : Pcap.Header).fields.flatten ++
        Pcap.layout [⟨0, 0, 2, 2, [7, 8]⟩, ⟨0, 44, 2, 2, [9, 10]⟩] := by
  have hsteady : Tape.IsSteady { content := cutThird, reads := [.upTo 5, .upTo 30] } := by
    simp [Tape.IsSteady]
  have hdrain : Capture.Walk.drain
      { trace := cutThird, limit := 1500, place := { rest := cutThird } } =
        ([⟨0, 2, [7, 8]⟩, ⟨44, 2, [9, 10]⟩], some .truncatedInput) := by decide +kernel
  have hlate : Pcap.tooLate [⟨0, 2, [7, 8]⟩, ⟨44, 2, [9, 10]⟩] = none := by decide
  have hnew : ({} : Spool).toBytes = [] ∧ ({} : Spool).limit = none ∧
      ({} : Spool).failsFlush = false := ⟨rfl, rfl, rfl⟩
  obtain ⟨result, s', t', output, hconvert, ⟨htaken, -, -⟩, houtcome⟩ :=
    captureToPcap_outcome Spool.isIntake hnew (Tape.holds hsteady rfl)
      (show 2056 ≤ 2056 by decide) 1500
  rw [if_pos (by decide)] at houtcome
  obtain ⟨w, -, packets, failure, hwalk, hdrain', -, -, -, -, houtcome, -⟩ := houtcome
  cases hwalk
  cases hdrain'.symm.trans hdrain
  have hresult := houtcome.result_eq
  rw [hlate] at hresult
  have houtput := houtcome.output_eq
  rw [Pcap.timely_eq_of_tooLate hlate] at houtput
  rw [hresult] at hconvert
  exact ⟨s', t', hconvert, htaken.trans houtput⟩

end PacketTrace
