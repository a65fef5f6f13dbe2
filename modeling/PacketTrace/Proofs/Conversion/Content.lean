import PacketTrace.Proofs.Capture.Capacity
import PacketTrace.Proofs.Conversion.Export
import PacketTrace.Proofs.Conversion.Import
import PacketTrace.Proofs.Pcap.Opening

/-!
# What a conversion makes of its input

What comes of a conversion depends on the bytes of the input, and not on how the
source delivers them or what kind of sink takes the output, as long as neither of
them fails. `ExportsTo` and `ImportsTo` say what that is for some bytes, through
windows of any capacity.

* `exportsTo_of_isOutcome`, `importsTo_of_isOutcome`: it is known from the packets
  that come of the bytes;
* `exportsTo_of_not_dvd`, `importsTo_of_opening`: bytes that are refused;
* `exportsTo_nothing_iff`: bytes of which no packets come.
-/

namespace PacketTrace

/-! ## Outcomes -/

theorem Pcap.IsOutcome.unique {packets : List Packet} {failure : Option Failure}
    {result result' : Except Failure Tally} {output output' : Bytes}
    (h : IsOutcome packets failure result output) (h' : IsOutcome packets failure result' output') :
    result' = result ∧ output' = output := by
  have houtput : output' = output := h'.output_eq.trans h.output_eq.symm
  subst houtput
  exact ⟨h'.result_eq.trans h.result_eq.symm, rfl⟩

namespace Replay

theorem accept_of_isPrefix {before packets : List Packet} (hpart : before <+: packets)
    (h : accept packets = .ok ()) : accept before = .ok () := by
  obtain ⟨after, rfl⟩ := hpart
  rw [accept] at h ⊢
  rcases hput : putAll Encoder.push before {} ({} : Spool) with ⟨failure | _, e, t⟩
  · rw [putAll_append_of_error hput] at h
    cases h
  · rfl

/-- The packet that is refused is the only one after the accepted ones. -/
theorem le_of_refused {packets : List Packet} {m m' : ℕ} {refusal : Failure}
    (hrefused : accept (packets.take (m + 1)) = .error refusal)
    (haccepted : accept (packets.take m') = .ok ()) : m' ≤ m := by
  by_contra hlt
  have hpart : packets.take (m + 1) <+: packets.take m' :=
    List.take_prefix_take_left (by omega)
  rw [accept_of_isPrefix hpart haccepted] at hrefused
  cases hrefused

theorem IsUnfinished.unique {accepted : List Packet} {output output' : Bytes}
    (h : IsUnfinished accepted output) (h' : IsUnfinished accepted output') : output' = output :=
  h'.output_eq.trans h.output_eq.symm

theorem IsOutcome.unique {packets : List Packet} {failure : Option Failure}
    {result result' : Except Failure Tally} {output output' : Bytes}
    (h : IsOutcome packets failure result output) (h' : IsOutcome packets failure result' output') :
    result' = result ∧ output' = output := by
  rw [IsOutcome.eq_def] at h h'
  cases haccept : accept packets with
  | ok _ =>
    rw [haccept] at h h'
    cases failure with
    | none =>
      obtain ⟨hresult, houtput⟩ := h
      obtain ⟨rfl, rfl⟩ := h'
      exact ⟨by rw [hresult, houtput], houtput.symm⟩
    | some failure =>
      exact ⟨h'.1.trans h.1.symm, h.2.unique h'.2⟩
  | error refusal =>
    rw [haccept] at h h'
    obtain ⟨hresult, m, -, haccepted, hrefused, hunfinished⟩ := h
    obtain ⟨hresult', m', -, haccepted', hrefused', hunfinished'⟩ := h'
    obtain rfl : m' = m := Nat.le_antisymm (le_of_refused hrefused haccepted')
      (le_of_refused hrefused' haccepted)
    exact ⟨hresult'.trans hresult.symm, hunfinished.unique hunfinished'⟩

end Replay

/-! ## Exports -/

/-- From any source that holds these bytes, and to any sink that never fails, an export
    comes to this result and this output. -/
structure ExportsTo (capacity : ℕ) (limit : UInt16) (trace : Bytes) (result : Except Failure Tally)
    (output : Bytes) : Prop where
  convert : ∀ {σ τ : Type} [SeekableSource σ] [ByteSink τ] {R : Bytes → τ → Prop} {s : σ} {t : τ},
    Holds trace s → IsIntake R → R [] t → ∃ s' t',
      captureToPcap capacity limit (s, t) = (result, s', t') ∧ R output t'

variable {capacity : ℕ} {limit : UInt16} {result : Except Failure Tally} {output : Bytes}

theorem exportsTo_of_not_dvd {trace : Bytes} (hunaligned : ¬ 64 ∣ trace.length) (capacity : ℕ)
    (limit : UInt16) :
    ExportsTo capacity limit trace (.error (.unalignedTrace trace.length 64)) [] := by
  refine ⟨fun {σ τ} _ _ {R s t} hs hR ht => ?_⟩
  obtain ⟨s₁, hstart⟩ := Capture.start_of_not_dvd hs hunaligned capacity limit
  refine ⟨s₁, t, ?_, ht⟩
  rw [captureToPcap, Capture.Stream.start_pair, hstart]

/-- A stream that has just been opened stands at the first record. -/
theorem Capture.standsAt_start {σ : Type} [ByteSource σ] {s : σ} {trace : Bytes}
    (h : Delivers trace s) (capacity : ℕ) (limit : UInt16) :
    Stream.StandsAt capacity trace { size := trace.length, limit, window := { capacity } } s :=
  ⟨rfl, rfl, rfl, Window.ahead_of_delivers h capacity⟩

theorem exportsTo_of_isOutcome {trace : Bytes} {packets : List Packet} {failure : Option Failure}
    (haligned : 64 ∣ trace.length) (hlength : packets.length ≤ trace.length)
    (hall : Capture.Stream.AllProduce capacity limit {} trace packets failure)
    (houtcome : Pcap.IsOutcome packets failure result output) :
    ExportsTo capacity limit trace result output := by
  refine ⟨fun {σ τ} _ _ {R s t} hs hR ht => ?_⟩
  obtain ⟨s₁, -, hstart, hdelivers⟩ := Capture.start_of_dvd hs haligned capacity limit
  have hproduces := hall (Capture.standsAt_start hdelivers capacity limit) rfl rfl
  have hbound : packets.length < packetBound { capacity } s₁ :=
    Nat.lt_succ_of_le (hlength.trans (hdelivers.length_le.trans (Nat.le_add_left _ _)))
  obtain ⟨result', s', t', output', hwrite, htaken, houtcome'⟩ :=
    writePcap_outcome hR ht hproduces hbound
  obtain ⟨rfl, rfl⟩ := houtcome.unique houtcome'
  refine ⟨s', t', ?_, htaken⟩
  rw [captureToPcap, Capture.Stream.start_pair, hstart]
  exact hwrite

/-- No more than one thing comes of an export. -/
theorem ExportsTo.unique {trace : Bytes} {result' : Except Failure Tally} {output' : Bytes}
    (h : ExportsTo capacity limit trace result output)
    (h' : ExportsTo capacity limit trace result' output') :
    result' = result ∧ output' = output := by
  have hsteady : Tape.IsSteady { content := trace } := fun _ hstep => absurd hstep List.not_mem_nil
  have hnew : ({} : Spool).toBytes = [] ∧ ({} : Spool).limit = none ∧
      ({} : Spool).failsFlush = false := ⟨rfl, rfl, rfl⟩
  obtain ⟨s, t, hconvert, htaken, -⟩ := h.convert (Tape.holds hsteady rfl) Spool.isIntake hnew
  obtain ⟨s', t', hconvert', htaken', -⟩ := h'.convert (Tape.holds hsteady rfl) Spool.isIntake hnew
  cases hconvert.symm.trans hconvert'
  exact ⟨rfl, htaken'.symm.trans htaken⟩

/-- No packets are written for a trace that has none, and only then. -/
theorem exportsTo_nothing_iff {trace : Bytes} (haligned : 64 ∣ trace.length)
    (hcapacity : 8 ≤ capacity) (limit : UInt16) :
    ExportsTo capacity limit trace (.ok ⟨0, Pcap.Header.size⟩) ({} : Pcap.Header).fields.flatten ↔
      trace = [] ∨ Trace.Record.headTag trace = Trace.endTag := by
  have hlength : trace = [] ∨ 8 ≤ trace.length := by
    rcases Nat.eq_zero_or_pos trace.length with hzero | hpos
    · exact .inl (List.eq_nil_of_length_eq_zero hzero)
    · exact .inr (Nat.le_trans (by decide) (Nat.le_of_dvd hpos haligned))
  rw [← Capture.outcome_last_iff (Capture.stored limit) hcapacity hlength]
  constructor
  · intro h
    obtain ⟨packets, failure, hcount, hall⟩ :=
      Capture.Stream.exists_allProduce capacity limit {} trace
    obtain ⟨hresult, -⟩ :=
      (exportsTo_of_isOutcome haligned hcount hall ⟨rfl, rfl⟩).unique h
    rcases hlate : Pcap.tooLate packets with _ | refusal <;> rw [hlate] at hresult
    · rcases failure with _ | failure
      · obtain rfl : packets = [] := by
          injection hresult with htally
          injection htally with hpackets
          exact List.eq_nil_of_length_eq_zero hpackets.symm
        exact Capture.Stream.outcome_of_allProduce_nil hall
      · cases hresult
    · cases hresult
  · intro h
    have hall : Capture.Stream.AllProduce capacity limit {} trace [] none :=
      Capture.Stream.allProduce_nil rfl (.inl ⟨rfl, h⟩) {}
    have houtcome : Pcap.IsOutcome [] none (.ok ⟨0, Pcap.Header.size⟩)
        ({} : Pcap.Header).fields.flatten := ⟨rfl, rfl⟩
    exact exportsTo_of_isOutcome haligned (Nat.zero_le _) hall houtcome

/-! ## Imports -/

/-- From any source that delivers these bytes, and to any sink that never fails, an import
    comes to this result and this output. -/
structure ImportsTo (capacity : ℕ) (input : Bytes) (result : Except Failure Tally)
    (output : Bytes) : Prop where
  convert : ∀ {σ τ : Type} [ByteSource σ] [ByteSink τ] {R : Bytes → τ → Prop} {s : σ} {t : τ},
    Delivers input s → IsIntake R → R [] t → ∃ s' t',
      pcapToReplay capacity (s, t) = (result, s', t') ∧ R output t'

theorem importsTo_of_opening {input : Bytes} {failure : Failure}
    (h : Pcap.opening capacity input = .error failure) :
    ImportsTo capacity input (.error failure) [] := by
  refine ⟨fun {σ τ} _ _ {R s t} hs hR ht => ?_⟩
  have hstart := Pcap.Stream.start_eq_opening hs capacity
  rw [h] at hstart
  obtain ⟨s', hstart⟩ := hstart
  refine ⟨s', t, ?_, ht⟩
  rw [pcapToReplay, Pcap.Stream.start_pair, hstart]

theorem importsTo_of_isOutcome {input rest : Bytes} {header : Pcap.Header}
    (hopening : Pcap.opening capacity input = .ok header)
    (hdecoder : Pcap.Header.decoder input = .value header rest)
    (houtcome : Replay.IsOutcome ((Pcap.scan capacity rest).1.map Pcap.Entry.toPacket)
      (Pcap.scan capacity rest).2 result output) :
    ImportsTo capacity input result output := by
  refine ⟨fun {σ τ} _ _ {R s t} hs hR ht => ?_⟩
  have hstart := Pcap.Stream.start_eq_opening hs capacity
  rw [hopening] at hstart
  obtain ⟨r, s₁, rest', hstart, -, hdecoder', hstands⟩ := hstart
  cases hdecoder.symm.trans hdecoder'
  have hproduces := hstands.produces (Nat.le_trans (by decide) (Pcap.size_le_of_opening hopening))
  obtain ⟨result', s', t', output', hwrite, htaken, houtcome'⟩ :=
    writeReplay_outcome hR ht hproduces
      (by rw [List.length_map]; exact Nat.lt_succ_of_le hstands.length_scan_le)
  obtain ⟨rfl, rfl⟩ := houtcome.unique houtcome'
  refine ⟨s', t', ?_, htaken⟩
  rw [pcapToReplay, Pcap.Stream.start_pair, hstart]
  exact hwrite

end PacketTrace
