import PacketTrace.Proofs.Conversion.Import
import PacketTrace.Proofs.Conversion.Pipeline
import PacketTrace.Proofs.Pcap.RoundTrip
import PacketTrace.Proofs.Replay.Acceptance

/-!
# Exported traces can be imported

The packets of a capture trace come in order, and what is between them has been
counted by the capture hardware in cycles that a tag can hold. So an encoder has
nothing against them but that they may be too long for the replay hardware, and
neither has a stream that reads them from a packet file, if its window is large
enough.

* `Replay.waits_arrivals_lt`: the waits between captured packets;
* `Replay.IsOutcome.of_sorted`: what comes of writing packets that may only be too
  long;
* `pcapToReplay_arrivals`: hence what comes of importing an exported trace.
-/

namespace PacketTrace

namespace Replay

/-- The waits between the packets of a capture trace are no longer than the gaps
    that were captured. -/
theorem waits_arrivals_lt (records : List Trace.Record) :
    ∀ n ∈ waits (Capture.arrivals {} records), n < 2 ^ 32 := by
  cases records with
  | nil =>
    intro n hn
    cases hn
  | cons r records =>
    intro n hn
    rw [waits, spacings_arrivals] at hn
    have hlt := Quantizer.run_map_cyclesToNanos_lt Quantizer.keeps_zero
      Capture.cyclesBefore_lt n hn
    exact Nat.lt_trans hlt (by decide)

/-- Packets that may only be too long are all written, or those before the first
    that is. -/
theorem IsOutcome.of_sorted {packets : List Packet} {result : Except Failure Tally}
    {output : Bytes} (h : IsOutcome packets none result output)
    (hsorted : packets.IsChain (·.timestamp ≤ ·.timestamp))
    (hwaits : ∀ n ∈ waits packets, n < 2 ^ 32) :
    ((∀ p ∈ packets, Fits p) ∧ result = .ok ⟨packets.length, output.length⟩) ∨
      ∃ before p after, packets = before ++ p :: after ∧ (∀ q ∈ before, Fits q) ∧ ¬ Fits p ∧
        result = .error (refusal p) ∧ IsUnfinished before output := by
  have haccept (m : ℕ) :
      accept (packets.take m) = (tooLong (packets.take m)).elim (.ok ()) .error := by
    refine putAll_push (hsorted.take m) fun n hn => hwaits n ?_
    have hprefix := waits_prefix_append (packets.take m) (packets.drop m)
    rw [List.take_append_drop] at hprefix
    exact hprefix.subset hn
  have hall := haccept packets.length
  rw [List.take_length] at hall
  rw [IsOutcome.eq_def, hall] at h
  cases htooLong : tooLong packets with
  | none =>
    rw [htooLong] at h
    exact .inl ⟨tooLong_eq_none_iff.1 htooLong, h.1⟩
  | some failure =>
    rw [htooLong] at h
    obtain ⟨rfl, m, hm, hbefore, hrefused, hunfinished⟩ := h
    rw [haccept] at hbefore hrefused
    have hnone : tooLong (packets.take m) = none := by
      cases hbefore' : tooLong (packets.take m) with
      | none => rfl
      | some _ =>
        rw [hbefore'] at hbefore
        cases hbefore
    rw [List.take_succ_eq_append_getElem hm, tooLong_snoc hnone] at hrefused
    -- The packet that is refused next is the first that does not fit.
    by_cases hfits : Fits packets[m]
    · rw [if_pos hfits] at hrefused
      cases hrefused
    · rw [if_neg hfits] at hrefused
      cases hrefused
      refine .inr ⟨packets.take m, packets[m], packets.drop (m + 1), ?_,
        tooLong_eq_none_iff.1 hnone, hfits, rfl, hunfinished⟩
      rw [← List.drop_eq_getElem_cons hm, List.take_append_drop]

end Replay

/-! ## Captured packets -/

section Packets

variable {limit : UInt16} {r : Trace.Record} {p : Packet}

theorem Capture.IsPacketOf.toNat_capturedLength (h : Capture.IsPacketOf limit r p) :
    p.capturedLength.toNat = r.data.length := by
  have hlimit := limit.toNat_lt
  have hlength : p.data.length ≤ limit.toNat := by
    rw [h.captured]
    exact Nat.min_le_right _ _
  rw [Packet.capturedLength, UInt32.toNat_ofNat', h.data] at *
  exact Nat.mod_eq_of_lt (by omega)

/-- No more of a packet is captured than there is on the wire, so it fits the
    hardware if that does. -/
theorem Capture.IsPacketOf.fits_iff (h : Capture.IsPacketOf limit r p) :
    Replay.Fits p ↔ (Capture.Tag.mk r.tag).wireLength.toNat ≤ 1518 := by
  have hle : r.data.length ≤ p.wireLength.toNat := by
    rw [← h.data, h.captured]
    exact Nat.min_le_left _ _
  rw [← h.wireLength]
  constructor
  · intro hfits
    exact hfits.wireLength
  · intro hwire
    refine ⟨?_, hwire⟩
    rw [h.toNat_capturedLength]
    exact hle.trans hwire

theorem Capture.IsPacketOf.refusal_eq (h : Capture.IsPacketOf limit r p) :
    ∃ length : UInt32, Replay.refusal p = .packetTooLong length 1518 ∧
      length.toNat = if 1518 < r.data.length then r.data.length
        else (Capture.Tag.mk r.tag).wireLength.toNat := by
  refine ⟨_, rfl, ?_⟩
  rw [← h.toNat_capturedLength, ← h.wireLength, apply_ite UInt32.toNat]
  rfl

theorem Capture.forall_fits_iff {records : List Trace.Record} {packets : List Packet}
    (h : List.Forall₂ (Capture.IsPacketOf limit) records packets) :
    (∀ p ∈ packets, Replay.Fits p) ↔
      ∀ r ∈ records, (Capture.Tag.mk r.tag).wireLength.toNat ≤ 1518 := by
  induction h with
  | nil => simp
  | cons hpacket _ ih => rw [List.forall_mem_cons, List.forall_mem_cons, hpacket.fits_iff, ih]

end Packets

/-- What comes of writing the packets of a capture trace: each of them, if none
    is too long for the hardware on the wire, or else those before the first
    that is, but for the last of them. -/
theorem Replay.IsOutcome.of_arrivals {limit : UInt16} {records : List Trace.Record}
    {result : Except Failure Tally} {output : Bytes}
    (h : Replay.IsOutcome (Capture.arrivals {} records) none result output)
    (hdata : ∀ r ∈ records, r.data.length = Capture.stored limit r.tag) :
    ((∀ r ∈ records, (Capture.Tag.mk r.tag).wireLength.toNat ≤ 1518) ∧
        result = .ok ⟨records.length, output.length⟩) ∨
      ∃ before r after length, records = before ++ r :: after ∧
        (∀ r ∈ before, (Capture.Tag.mk r.tag).wireLength.toNat ≤ 1518) ∧
        1518 < (Capture.Tag.mk r.tag).wireLength.toNat ∧
        result = .error (.packetTooLong length 1518) ∧
        length.toNat = (if 1518 < r.data.length then r.data.length
          else (Capture.Tag.mk r.tag).wireLength.toNat) ∧
        Replay.IsUnfinished (Capture.arrivals {} before) output := by
  have heach := (Capture.areArrivalsOf_arrivals hdata).each
  rcases h.of_sorted (Capture.isChain_arrivals {} records) (Replay.waits_arrivals_lt records) with
    ⟨hfits, hresult⟩ | ⟨before, p, after, hpackets, hfits, hlong, hresult, hunfinished⟩
  · rw [Capture.length_arrivals] at hresult
    exact .inl ⟨(Capture.forall_fits_iff heach).1 hfits, hresult⟩
  · have hbefore : Capture.arrivals {} (records.take before.length) = before := by
      rw [← Capture.take_arrivals, hpackets, List.take_left]
    rw [hpackets] at heach
    have htake := List.forall₂_take_append _ _ _ heach
    obtain ⟨r, rest, hpacket, -, hdrop⟩ :=
      List.forall₂_cons_right_iff.1 (List.forall₂_drop_append _ _ _ heach)
    obtain ⟨length, hrefusal, hlength⟩ := hpacket.refusal_eq
    rw [hpacket.fits_iff, Nat.not_le] at hlong
    rw [hrefusal] at hresult
    refine .inr ⟨records.take before.length, r, rest, length, ?_,
      (Capture.forall_fits_iff htake).1 hfits, hlong, hresult, hlength, ?_⟩
    · rw [← hdrop, List.take_append_drop]
    · rwa [hbefore]

section Conversion

variable {σ τ υ : Type}

/-- The packet file of a capture trace that is exported whole is imported from
    any source, to any sink that never fails, through a window with room for a
    header and for any of the entries. It is imported whole if no record is longer
    on the wire than the replay hardware can store. If one is, the first such
    record is what the import fails for, and it never fails for anything else. -/
theorem pcapToReplay_arrivals [SeekableSource σ] [ByteSource τ] [ByteSink υ]
    {R : Bytes → υ → Prop} {s s' : σ} {t : τ} {u : υ} {trace : Bytes} {capacity capacity' : ℕ}
    {limit : UInt16} {tally : Tally} {file : Spool} (hs : Holds trace s)
    (hexport : captureToPcap capacity limit (s, ({} : Spool)) = (.ok tally, s', file))
    (ht : Delivers file.toBytes t) (hR : IsIntake R) (hu : R [] u) (hcapacity : 24 ≤ capacity')
    (hroom : ∀ r ∈ (Trace.Walk.drain (Capture.stored limit) { rest := trace }).1,
      16 + r.data.length ≤ capacity') :
    ∃ records result t' u' output,
      Trace.Walk.drain (Capture.stored limit) { rest := trace } = (records, none) ∧
      pcapToReplay capacity' (t, u) = (result, t', u') ∧ R output u' ∧
      ((∃ tally, result = .ok tally) ↔
        ∀ r ∈ records, (Capture.Tag.mk r.tag).wireLength.toNat ≤ 1518) ∧
      ∀ failure, result = .error failure → ∃ before r after length,
        records = before ++ r :: after ∧
        (∀ r ∈ before, (Capture.Tag.mk r.tag).wireLength.toNat ≤ 1518) ∧
        1518 < (Capture.Tag.mk r.tag).wireLength.toNat ∧
        failure = .packetTooLong length 1518 ∧
        length.toNat = (if 1518 < r.data.length then r.data.length
          else (Capture.Tag.mk r.tag).wireLength.toNat) ∧
        Replay.IsUnfinished (Capture.arrivals {} before) output := by
  obtain ⟨records, entries, -, hdrain, hentries, hplain, hfile⟩ := captureToPcap_eq_ok hs hexport
  have hdata := Trace.Walk.length_data_of_mem_drain (Capture.stored limit) { rest := trace }
  rw [hdrain] at hdata hroom
  rw [hfile] at ht
  have hmagic : ({} : Pcap.Header).magic = nanosecondMagic := rfl
  have hsize : ∀ p ∈ entries.map Pcap.Entry.toPacket, 16 + p.data.length ≤ capacity' := by
    intro p hp
    rw [hentries] at hp
    obtain ⟨r, hr, hpacket⟩ := Capture.exists_of_mem_arrivals hp
    rw [hpacket]
    exact hroom r hr
  obtain ⟨r, t₁, hstart, -, hproduces, -⟩ := Pcap.readsBack_layout hmagic hplain ht hcapacity hsize
  have hbound := (Pcap.Stream.ahead_of_start hmagic hplain ht hstart).length_le
  rw [hentries] at hproduces hbound
  obtain ⟨result, t', u', output, hwrite, htaken, houtcome⟩ :=
    writeReplay_outcome hR hu hproduces (Nat.lt_succ_of_le hbound)
  refine ⟨records, result, t', u', output, hdrain, ?_, htaken, ?_⟩
  · rw [pcapToReplay, Pcap.Stream.start_pair, hstart]
    exact hwrite
  · rcases houtcome.of_arrivals hdata with ⟨hfits, rfl⟩ |
      ⟨before, r, after, length, rfl, hfits, hlong, rfl, hlength, hunfinished⟩
    · refine ⟨⟨fun _ => hfits, fun _ => ⟨_, rfl⟩⟩, ?_⟩
      rintro _ ⟨⟩
    · refine ⟨⟨?_, ?_⟩, ?_⟩
      · rintro ⟨_, ⟨⟩⟩
      · intro hall
        have hle := hall r (List.mem_append_right _ List.mem_cons_self)
        exact absurd hlong (Nat.not_lt.2 hle)
      · rintro _ ⟨⟩
        exact ⟨before, r, after, length, rfl, hfits, hlong, rfl, hlength, hunfinished⟩

end Conversion

/-- A capture trace of two packets, the second of which is longer on the wire
    than the replay hardware can store. -/
def longOnWire : Bytes :=
  [0, 0, 0, 0, 0, 0, 64, 0, 7, 8, 0, 0, 0, 0, 0, 0,
    0, 0, 0, 14, 0, 0, 224, 189, 9, 10, 0, 0, 0, 0, 0, 0] ++ List.replicate 32 255

theorem pcapToReplay_arrivals_of_longOnWire :
    ∃ s' file t' u',
      captureToPcap 24 2 (({ content := longOnWire } : Tape), ({} : Spool)) =
        (.ok ⟨2, 60⟩, s', file) ∧
      pcapToReplay 24
          (({ content := file.toBytes, reads := [.upTo 7, .upTo 30] } : Tape), ({} : Spool)) =
        (.error (.packetTooLong 1519 1518), t', u') ∧
      u'.toBytes = [] := by
  obtain ⟨s', file, hexport⟩ := exists_eq_ok (show
    (captureToPcap 24 2 (({ content := longOnWire } : Tape), ({} : Spool))).1 = .ok ⟨2, 60⟩ by
      decide +kernel)
  have hsteady : Tape.IsSteady { content := longOnWire } := by
    simp [Tape.IsSteady]
  have hsteady' : Tape.IsSteady { content := file.toBytes, reads := [.upTo 7, .upTo 30] } := by
    simp [Tape.IsSteady]
  have hwalk : Trace.Walk.drain (Capture.stored 2) { rest := longOnWire } =
      ([⟨0x40000000000000, [7, 8]⟩, ⟨0xbde000000e000000, [9, 10]⟩], none) := by decide +kernel
  have hroom : ∀ r ∈ (Trace.Walk.drain (Capture.stored 2) { rest := longOnWire }).1,
      16 + r.data.length ≤ 24 := by
    rw [hwalk]
    decide
  have hnew : ({} : Spool).toBytes = [] ∧ ({} : Spool).limit = none ∧
      ({} : Spool).failsFlush = false := ⟨rfl, rfl, rfl⟩
  obtain ⟨records, result, t', u', output, hdrain, himport, ⟨htaken, -, -⟩, hiff, hfailure⟩ :=
    pcapToReplay_arrivals (Tape.holds hsteady rfl) hexport (Tape.delivers hsteady') Spool.isIntake
      hnew (show 24 ≤ 24 by decide) hroom
  cases hwalk.symm.trans hdrain
  cases result with
  | ok tally => exact absurd (hiff.1 ⟨tally, rfl⟩) (by decide)
  | error failure =>
    obtain ⟨before, r, after, length, hsplit, -, hlong, rfl, hlength, hunfinished⟩ :=
      hfailure failure rfl
    match before, hsplit with
    | [], hsplit =>
      cases hsplit
      exact absurd hlong (by decide)
    | [_], hsplit =>
      cases hsplit
      have hwire : length = 1519 := UInt32.toNat_inj.1 (hlength.trans (by decide))
      rw [hwire] at himport
      exact ⟨s', file, t', u', hexport, himport, htaken.trans (hunfinished.output_nil (by decide))⟩
    | _ :: _ :: before, hsplit =>
      have hcount := congrArg List.length hsplit
      simp at hcount

end PacketTrace
