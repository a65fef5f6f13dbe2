import PacketTrace.Proofs.Conversion.Transfer
import PacketTrace.Proofs.Pcap.Streaming
import PacketTrace.Proofs.Replay.Encoder
import PacketTrace.Proofs.Replay.Rejection
import PacketTrace.Proofs.Stream.Intake

/-!
# What comes of importing a packet file

A packet file is imported packet by packet, up to its end, to the first entry
that cannot be read or to the first packet that the encoder refuses. Only if it
comes to its end is the last packet written and the trace finished. Otherwise
the failure is reported, and what has been written are the frames of the
packets that were accepted, but for the last of them (`Replay.IsUnfinished`).

* `Replay.exists_refused`: what has been written when a packet is refused;
* `Replay.Encoder.push_agrees`, `Replay.Encoder.finish_agrees`: an encoder does
  the same on any sink that never fails;
* `writeReplay_outcome`: what comes of the packets of a file, on such a sink
  (`Replay.IsOutcome`);
* `pcapToReplay_outcome`: hence what comes of any bytes.
-/

namespace PacketTrace

namespace Replay

/-! ## Packets that are accepted -/

/-- Whether a new encoder accepts these packets, one after the other. -/
def accept (packets : List Packet) : Except Failure Unit :=
  (putAll Encoder.push packets {} ({} : Spool)).1

/-- What has been written of a trace when these packets have been accepted: the
    frames of all but the last, so none if there are no more than one. -/
structure IsUnfinished (accepted : List Packet) (output : Bytes) : Prop where
  output_eq : output = Trace.layout (frames accepted)
  output_nil : accepted.length ≤ 1 → output = []

variable {packets : List Packet} {output : Bytes} {e : Encoder} {t : Spool} {failure : Failure}

theorem isUnfinished_frames (accepted : List Packet) :
    IsUnfinished accepted (Trace.layout (frames accepted)) where
  output_eq := rfl
  output_nil h := by
    have hwaits : waits accepted = [] :=
      List.length_eq_zero_iff.1 (by rw [length_waits]; omega)
    rw [frames, hwaits, List.zipWith_nil_right]
    rfl

theorem isUnfinished_of_putAll (h : putAll Encoder.push packets {} ({} : Spool) = (.ok (), e, t)) :
    ∃ output, t = ({} : Spool).append output ∧ IsUnfinished packets output := by
  obtain ⟨output, rfl, haccepted⟩ := Encoder.accepted_of_putAll h
  rw [haccepted.output_eq]
  exact ⟨_, rfl, isUnfinished_frames packets⟩

/-- The first packet that is refused adds nothing to what has been written of
    those before it. -/
theorem exists_refused
    (h : putAll Encoder.push packets {} ({} : Spool) = (.error failure, e, t)) :
    ∃ m < packets.length, accept (packets.take m) = .ok () ∧
      accept (packets.take (m + 1)) = .error failure ∧
      ∃ output, t = ({} : Spool).append output ∧ IsUnfinished (packets.take m) output := by
  obtain ⟨before, p, after, e₁, s₁, rfl, hbefore, hpush⟩ := putAll_eq_error h
  obtain ⟨output, rfl, hunfinished⟩ := isUnfinished_of_putAll hbefore
  have hlast : before ++ p :: after = (before ++ [p]) ++ after := by simp
  have hrefused : putAll Encoder.push (before ++ [p]) {} ({} : Spool) = (.error failure, e, t) := by
    rw [putAll_append hbefore, putAll, hpush]
  refine ⟨before.length, by simp, ?_, ?_, output, ?_, ?_⟩
  · rw [List.take_left, accept, hbefore]
  · rw [hlast, List.take_left' (by simp), accept, hrefused]
  · rcases Encoder.push_eq_error hpush with ⟨rfl, -⟩ | ⟨fields, hwrite⟩
    · rfl
    · -- The spool has no limit.
      rw [Spool.writeFields_of_limit_eq_none rfl] at hwrite
      cases hwrite
  · rwa [List.take_left]

/-- What comes of writing these packets, when a failure cuts them off or none
    does: they may all be accepted, and the trace is finished or stays as it is;
    or one is refused before it comes to that. -/
def IsOutcome (packets : List Packet) (failure : Option Failure) (result : Except Failure Tally)
    (output : Bytes) : Prop :=
  match accept packets, failure with
  | .ok (), none => result = .ok ⟨packets.length, output.length⟩ ∧ output = trace packets
  | .ok (), some failure => result = .error failure ∧ IsUnfinished packets output
  | .error refusal, _ => result = .error refusal ∧ ∃ m < packets.length,
      accept (packets.take m) = .ok () ∧ accept (packets.take (m + 1)) = .error refusal ∧
        IsUnfinished (packets.take m) output

/-- Each packet that is counted has a frame among the bytes that are counted. -/
theorem IsOutcome.packets_le {packets : List Packet} {failure : Option Failure} {tally : Tally}
    {output : Bytes} (h : IsOutcome packets failure (.ok tally) output) :
    tally.bytes = output.length ∧ tally.packets ≤ output.length := by
  rw [IsOutcome.eq_def] at h
  cases haccept : accept packets with
  | error refusal =>
    rw [haccept] at h
    cases h.1
  | ok accepted =>
    rw [haccept] at h
    cases failure with
    | some failure => cases h.1
    | none =>
      obtain ⟨hresult, houtput⟩ := h
      obtain rfl := Except.ok.inj hresult
      have hle := Trace.length_le_length_layout (allFrames packets)
      rw [length_allFrames] at hle
      refine ⟨rfl, ?_⟩
      rw [houtput, trace, List.length_append]
      exact Nat.le_trans hle (Nat.le_add_right _ _)

/-! ## On any sink that never fails -/

namespace Encoder

variable {τ : Type} [ByteSink τ] {R : Bytes → τ → Prop} {spool : Spool} {t : τ}

theorem push_agrees (hR : IsIntake R) (h : Mirrors R spool t) (e : Encoder) (p : Packet) :
    Agrees R (e.push p spool) (e.push p t) :=
  push_alike (isWriteSimulation_mirrors hR) h e p

theorem finish_agrees (hR : IsIntake R) (h : Mirrors R spool t) (e : Encoder) :
    Agrees R (e.finish spool) (e.finish t) :=
  finish_alike (isWriteSimulation_mirrors hR) h e

end Encoder

end Replay

section Conversion

variable {σ τ : Type} [ByteSource σ] [ByteSink τ] {R : Bytes → τ → Prop} {s : σ} {t : τ}
  {packets : List Packet} {failure : Option Failure}

theorem writeReplayUpTo_outcome (hR : IsIntake R) (ht : R [] t) {r : Pcap.Stream}
    (h : Produces Pcap.Stream.next packets failure r s) {n : ℕ} (hbound : packets.length < n) :
    ∃ result s' t' output, writeReplayUpTo n r (s, t) = (result, s', t') ∧ R output t' ∧
      Replay.IsOutcome packets failure result output := by
  obtain ⟨s', htransfer⟩ := h.transfer Pcap.Stream.next_pair Replay.Encoder.push_pair hbound t
  obtain ⟨t₁, hagree, hmirrors⟩ := (mirrors_new ht).putAll
    (fun e p h => Replay.Encoder.push_agrees hR h e p) packets {}
  have haccept : Replay.accept packets =
      (putAll Replay.Encoder.push packets {} ({} : Spool)).1 := rfl
  rw [writeReplayUpTo, htransfer, hagree]
  rcases hput : putAll Replay.Encoder.push packets {} ({} : Spool) with ⟨refusal | _, e, spool⟩ <;>
    rw [hput] at haccept hmirrors
  · obtain ⟨m, hm, hbefore, hrefuse, output, rfl, hunfinished⟩ := Replay.exists_refused hput
    refine ⟨.error refusal, s', t₁, output, rfl, hmirrors.of_append, ?_⟩
    rw [Replay.IsOutcome.eq_def, haccept]
    exact ⟨rfl, m, hm, hbefore, hrefuse, hunfinished⟩
  · cases failure with
    | some failure =>
      obtain ⟨output, rfl, hunfinished⟩ := Replay.isUnfinished_of_putAll hput
      refine ⟨.error failure, s', t₁, output, rfl, hmirrors.of_append, ?_⟩
      rw [Replay.IsOutcome.eq_def, haccept]
      exact ⟨rfl, hunfinished⟩
    | none =>
      obtain ⟨written, rfl, haccepted⟩ := Replay.Encoder.accepted_of_putAll hput
      obtain ⟨e', spool', hfinish⟩ := e.exists_finish hmirrors.limit hmirrors.failsFlush
      obtain ⟨tail, rfl, htrace, hpackets, hbytes⟩ := haccepted.finish hfinish
      obtain ⟨t₂, hagree', hmirrors'⟩ := Replay.Encoder.finish_agrees hR hmirrors e
      rw [hfinish] at hagree' hmirrors'
      rw [Spool.append_append, htrace] at hmirrors'
      refine ⟨.ok ⟨packets.length, (Replay.trace packets).length⟩, s', t₂, Replay.trace packets, ?_,
        hmirrors'.of_append, ?_⟩
      · simp only [cutOff, Option.elim, Replay.Encoder.finish_pair, withFirst, hagree', hpackets,
          hbytes]
      · rw [Replay.IsOutcome.eq_def, haccept]
        exact ⟨rfl, rfl⟩

theorem writeReplay_outcome (hR : IsIntake R) (ht : R [] t) {r : Pcap.Stream}
    (h : Produces Pcap.Stream.next packets failure r s)
    (hbound : packets.length < packetBound r.window s) :
    ∃ result s' t' output, writeReplay r (s, t) = (result, s', t') ∧ R output t' ∧
      Replay.IsOutcome packets failure result output :=
  writeReplayUpTo_outcome hR ht h hbound

/-- Bytes that are imported to a sink that never fails, through any window that
    has room for a header, are refused if they do not start with a header, and
    nothing is written then. If they do, the packets that the stream produces
    after it are written. -/
theorem pcapToReplay_outcome (hR : IsIntake R) (ht : R [] t) {capacity : ℕ} {input : Bytes}
    (hs : Delivers input s) (hcapacity : 24 ≤ capacity) :
    ∃ result s' t' output, pcapToReplay capacity (s, t) = (result, s', t') ∧ R output t' ∧
      match Pcap.Header.decoder input with
      | .value _ rest => ∃ r s₁ packets failure, Pcap.Stream.start capacity s = (.ok r, s₁) ∧
          Produces Pcap.Stream.next packets failure r s₁ ∧
          packets = (Pcap.scan capacity rest).1.map Pcap.Entry.toPacket ∧
          failure = (Pcap.scan capacity rest).2 ∧
          Replay.IsOutcome packets failure result output
      | .refused failure => result = .error failure ∧ output = []
      | .short _ => result = .error .truncatedInput ∧ output = [] := by
  have hopen := Pcap.Stream.ofWindow_cases hcapacity
    (show ([] : Bytes).length ≤ capacity from Nat.zero_le capacity) hs
  rw [List.nil_append] at hopen
  rw [pcapToReplay, Pcap.Stream.start_pair, Pcap.Stream.start]
  cases hdecoder : Pcap.Header.decoder input with
  | value header rest =>
    rw [hdecoder] at hopen
    obtain ⟨r, s₁, hstart, -, -, hstands⟩ := hopen
    have hproduces := hstands.produces (Nat.le_trans (by decide) hcapacity)
    obtain ⟨result, s', t', output, hwrite, htaken, houtcome⟩ := writeReplay_outcome hR ht hproduces
      (by rw [List.length_map]; exact Nat.lt_succ_of_le hstands.length_scan_le)
    rw [hstart]
    exact ⟨result, s', t', output, hwrite, htaken, r, s₁, _, _, rfl, hproduces, rfl, rfl, houtcome⟩
  | refused failure =>
    rw [hdecoder] at hopen
    obtain ⟨s', hstart⟩ := hopen
    rw [hstart]
    exact ⟨.error failure, s', t, [], rfl, ht, rfl, rfl⟩
  | short missing =>
    rw [hdecoder] at hopen
    obtain ⟨s', hstart⟩ := hopen
    rw [hstart]
    exact ⟨.error .truncatedInput, s', t, [], rfl, ht, rfl, rfl⟩

end Conversion

/-- A packet file whose third entry is earlier than the second. -/
def reversedThird : Bytes :=
  ({} : Pcap.Header).fields.flatten ++ Pcap.layout
    [⟨0, 0, 1, 1, [0xaa]⟩, ⟨0, 1000, 1, 1, [0xbb]⟩, ⟨0, 500, 1, 1, [0xcc]⟩]

theorem pcapToReplay_outcome_of_reversedThird :
    ∃ s' t', pcapToReplay 24
        (({ content := reversedThird, reads := [.upTo 3, .upTo 20, .upTo 1] } : Tape),
          ({} : Spool)) = (.error (.timeReversal 1000 500), s', t') ∧
      t'.toBytes = [157, 0, 0, 0, 1, 0, 1, 0, 0xaa, 0, 0, 0, 0, 0, 0, 0] := by
  have hsteady : Tape.IsSteady
      { content := reversedThird, reads := [.upTo 3, .upTo 20, .upTo 1] } := by
    simp [Tape.IsSteady]
  have hdecoder : Pcap.Header.decoder reversedThird = .value {} (reversedThird.drop 24) := by
    decide +kernel
  have hscan : (Pcap.scan 24 (reversedThird.drop 24)).1.map Pcap.Entry.toPacket =
      [⟨0, 1, [0xaa]⟩, ⟨1000, 1, [0xbb]⟩, ⟨500, 1, [0xcc]⟩] := by decide +kernel
  have haccept : Replay.accept [⟨0, 1, [0xaa]⟩, ⟨1000, 1, [0xbb]⟩, ⟨500, 1, [0xcc]⟩] =
      .error (.timeReversal 1000 500) := by decide +kernel
  have hnew : ({} : Spool).toBytes = [] ∧ ({} : Spool).limit = none ∧
      ({} : Spool).failsFlush = false := ⟨rfl, rfl, rfl⟩
  obtain ⟨result, s', t', output, hconvert, ⟨htaken, -, -⟩, houtcome⟩ :=
    pcapToReplay_outcome Spool.isIntake hnew (Tape.delivers hsteady) (show 24 ≤ 24 by decide)
  rw [hdecoder] at houtcome
  obtain ⟨-, -, packets, failure, -, -, hpackets, -, houtcome⟩ := houtcome
  obtain rfl := hpackets.trans hscan
  rw [Replay.IsOutcome.eq_def, haccept] at houtcome
  obtain ⟨rfl, m, hm, -, hrefused, hunfinished⟩ := houtcome
  have hoccurs : m = 0 ∨ m = 1 ∨ m = 2 := by
    have hlt : m < 3 := hm
    omega
  rcases hoccurs with rfl | rfl | rfl
  · exact absurd hrefused (by decide +kernel)
  · exact absurd hrefused (by decide +kernel)
  · have hframes : Trace.layout (Replay.frames [⟨0, 1, [0xaa]⟩, ⟨1000, 1, [0xbb]⟩]) =
        [157, 0, 0, 0, 1, 0, 1, 0, 0xaa, 0, 0, 0, 0, 0, 0, 0] := by decide +kernel
    exact ⟨s', t', hconvert, htaken.trans (hunfinished.output_eq.trans hframes)⟩

end PacketTrace
