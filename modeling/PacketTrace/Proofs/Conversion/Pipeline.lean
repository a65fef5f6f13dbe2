import PacketTrace.Proofs.Capture.Arrivals
import PacketTrace.Proofs.Capture.Streaming
import PacketTrace.Proofs.Clock.RoundTrip
import PacketTrace.Proofs.Conversion.Transfer
import PacketTrace.Proofs.Pcap.File
import PacketTrace.Proofs.Replay.RoundTrip

/-!
# From a capture trace to a replay trace

A capture trace is converted to a packet file, and that to a replay trace. If
both conversions go through, whatever the windows they use, the frames of the
replay trace are the captured packets, filled up with zeros to their length on
the wire, and their waits are the captured gaps, or one cycle less.

* `captureToPcap_eq_ok`: the packet file has an entry for every record;
* `pcapToReplay_eq_ok`: the replay trace is that of the packets of the entries;
* `replay_of_capture`: hence what becomes of every record, and of the time
  between them.
-/

namespace PacketTrace

variable {σ : Type} {capacity : ℕ} {limit : UInt16} {tally : Tally} {output : Spool}

/-! ## The packet file -/

namespace Capture

/-- A stream has the packets to come that the walk it follows has, if they are
    cut off by the same failure. -/
theorem yields [ByteSource σ] : Yields Stream.next
    fun packets failure r (s : σ) => ∃ capacity w, Follows capacity w r s ∧
      w.drain = (packets, failure) where
  packet := by
    rintro packets failure r s p ⟨capacity, w, hfollows, hdrain⟩ hanswer
    rcases hfollows.next with ⟨hnext, hfollows', -⟩ | ⟨herror, -, -⟩
    · rw [hanswer] at hnext
      rw [Walk.drain_of_packet (streamed_eq_some.1 hnext.symm)] at hdrain
      cases hdrain
      exact ⟨_, rfl, capacity, _, hfollows', rfl⟩
    · rw [herror] at hanswer
      cases hanswer
  ended := by
    rintro packets failure r s ⟨capacity, w, hfollows, hdrain⟩ hanswer
    rcases hfollows.next with ⟨hnext, -, -⟩ | ⟨herror, -, -⟩
    · rw [hanswer] at hnext
      rw [Walk.drain_of_none (streamed_eq_none.1 hnext.symm)] at hdrain
      cases hdrain
      exact ⟨rfl, rfl⟩
    · rw [herror] at hanswer
      cases hanswer

end Capture

theorem finishPcap_eq_ok {e : Pcap.Encoder} {s s' : σ} {t : Spool}
    (h : finishPcap e (s, t) = (.ok tally, s', output)) : output = t := by
  have hsnd := Spool.flushSink_snd t
  rw [finishPcap, flushSink_pair] at h
  rcases hflush : flushSink t with ⟨_ | _, t'⟩ <;> rw [hflush] at h hsnd
  · cases h
  · cases h
    exact hsnd

/-- A packet file that is written whole has an entry for each packet that was
    to come, and no failure cut them off. -/
theorem writePcap_eq_ok [ByteSource σ] {r : Capture.Stream} {s s' : σ} {w : Capture.Walk}
    {packets : List Packet} {failure : Option Failure} (hfollows : Capture.Follows capacity w r s)
    (hdrain : w.drain = (packets, failure))
    (hbound : packets.length ≤ r.window.unread.length + ByteSource.bound s)
    (hlength : ∀ p ∈ packets, p.data.length < 2 ^ 32)
    (h : writePcap r (s, ({} : Spool)) = (.ok tally, s', output)) :
    failure = none ∧ ∃ entries, entries.map Pcap.Entry.toPacket = packets ∧
      (∀ entry ∈ entries, entry.IsPlain) ∧
      output.toBytes = ({} : Pcap.Header).fields.flatten ++ Pcap.layout entries := by
  rw [writePcap, Pcap.Encoder.start_pair] at h
  rcases hstart : Pcap.Encoder.start {} ({} : Spool) with ⟨_ | e, t⟩ <;> simp only [hstart] at h
  · cases h
  · rcases htransfer : transfer Capture.Stream.next Pcap.Encoder.write (packetBound r.window (s, t))
        r e (s, t) with ⟨_ | e', s₁, t'⟩ <;> rw [htransfer] at h
    · cases h
    · obtain rfl := finishPcap_eq_ok h
      obtain ⟨hfailure, hputAll⟩ := Capture.yields.transfer Capture.Stream.next_pair
        Pcap.Encoder.write_pair ⟨capacity, w, hfollows, hdrain⟩ (Nat.lt_succ_of_le hbound) htransfer
      obtain ⟨entries, hentries, hplain, rfl⟩ := Pcap.Encoder.putAll_write_eq_ok hlength hputAll
      obtain rfl := Pcap.Encoder.start_eq_ok hstart
      refine ⟨hfailure, entries, hentries, hplain, ?_⟩
      rw [Spool.toBytes_append, Spool.toBytes_append]
      rfl

/-- A capture trace that is converted whole fills whole blocks, and has an
    entry for each of its records. -/
theorem captureToPcap_eq_ok [SeekableSource σ] {s s' : σ} {trace : Bytes} (hs : Holds trace s)
    (h : captureToPcap capacity limit (s, ({} : Spool)) = (.ok tally, s', output)) :
    ∃ records entries, Trace.Walk.ofTrace trace = .ok { rest := trace } ∧
      Trace.Walk.drain (Capture.stored limit) { rest := trace } = (records, none) ∧
      entries.map Pcap.Entry.toPacket = Capture.arrivals {} records ∧
      (∀ entry ∈ entries, entry.IsPlain) ∧
      output.toBytes = ({} : Pcap.Header).fields.flatten ++ Pcap.layout entries := by
  rw [captureToPcap, Capture.Stream.start_pair] at h
  by_cases haligned : 64 ∣ trace.length
  · obtain ⟨s₁, -, hstart, hdelivers⟩ := Capture.start_of_dvd hs haligned capacity limit
    simp only [hstart] at h
    have hdrain := Capture.Walk.drain_eq { trace, limit, place := { rest := trace } }
    have hbound : (Capture.arrivals {}
        (Trace.Walk.drain (Capture.stored limit) { rest := trace }).1).length ≤
          ByteSource.bound s₁ := by
      rw [Capture.length_arrivals]
      exact (Trace.Walk.length_drain_le _ _).trans hdelivers.length_le
    obtain ⟨hcut, entries, hentries, hplain, houtput⟩ :=
      writePcap_eq_ok (Capture.follows_start hdelivers capacity limit) hdrain
        (hbound.trans (Nat.le_add_left _ _))
        (fun p hp => (Capture.length_data_lt_of_mem_arrivals hp).trans (by norm_num)) h
    exact ⟨_, entries, Trace.Walk.ofTrace_of_dvd haligned, Prod.ext rfl hcut, hentries, hplain,
      houtput⟩
  · obtain ⟨s₁, hstart⟩ := Capture.start_of_not_dvd hs haligned capacity limit
    simp only [hstart] at h
    cases h

/-! ## The replay trace -/

/-- A stream has the packets of the entries ahead of it to come, and then no
    failure. -/
theorem Pcap.yields [ByteSource σ] : Yields Pcap.Stream.next
    fun packets failure r (s : σ) => failure = none ∧ r.Ahead s packets where
  packet := by
    rintro packets failure r s p ⟨hfailure, hahead⟩ hanswer
    obtain ⟨rest, hpackets, hrest⟩ := hahead.packet hanswer
    exact ⟨rest, hpackets, hfailure, hrest⟩
  ended := by
    rintro packets failure r s ⟨hfailure, hahead⟩ hanswer
    exact ⟨hahead.ended hanswer, hfailure⟩

/-- A replay trace that is written whole is that of the packets that were to
    come, and its encoder has accepted them. -/
theorem writeReplay_eq_ok [ByteSource σ] {r : Pcap.Stream} {s s' : σ} {packets : List Packet}
    (hahead : r.Ahead s packets) (h : writeReplay r (s, ({} : Spool)) = (.ok tally, s', output)) :
    ∃ e written, Replay.Encoder.Accepted e packets written ∧
      output.toBytes = Replay.trace packets := by
  rw [writeReplay] at h
  rcases htransfer : transfer Pcap.Stream.next Replay.Encoder.push
      (packetBound r.window (s, ({} : Spool))) r {} (s, ({} : Spool)) with ⟨_ | e, s₁, t⟩ <;>
    simp only [htransfer] at h
  · cases h
  · obtain ⟨-, hputAll⟩ := Pcap.yields.transfer Pcap.Stream.next_pair Replay.Encoder.push_pair
      ⟨rfl, hahead⟩ (Nat.lt_succ_of_le hahead.length_le) htransfer
    obtain ⟨written, rfl, haccepted⟩ := Replay.Encoder.accepted_of_putAll hputAll
    rw [Replay.Encoder.finish_pair] at h
    rcases hfinish : e.finish (({} : Spool).append written) with ⟨_ | _, e', t'⟩ <;>
      rw [hfinish] at h
    · cases h
    · cases h
      obtain ⟨tail, rfl, htrace, -, -⟩ := haccepted.finish hfinish
      refine ⟨e, written, haccepted, ?_⟩
      rw [← htrace, Spool.append_append, Spool.toBytes_append]
      rfl

/-- A packet file that is converted whole becomes the trace of its packets. -/
theorem pcapToReplay_eq_ok [ByteSource σ] {s s' : σ} {entries : List Pcap.Entry}
    (hplain : ∀ entry ∈ entries, entry.IsPlain)
    (hs : Delivers (({} : Pcap.Header).fields.flatten ++ Pcap.layout entries) s)
    (h : pcapToReplay capacity (s, ({} : Spool)) = (.ok tally, s', output)) :
    ∃ e written, Replay.Encoder.Accepted e (entries.map Pcap.Entry.toPacket) written ∧
      output.toBytes = Replay.trace (entries.map Pcap.Entry.toPacket) := by
  rw [pcapToReplay, Pcap.Stream.start_pair] at h
  rcases hstart : Pcap.Stream.start capacity s with ⟨_ | r, s₁⟩ <;> simp only [hstart] at h
  · cases h
  · exact writeReplay_eq_ok (Pcap.Stream.ahead_of_start rfl hplain hs hstart) h

/-! ## From records to frames -/

/-- The cycles from the packet of a frame to the next. -/
def Replay.cyclesAfter (f : Trace.Record) : ℕ := (Replay.Tag.ofWord f.tag).gap.toNat

/-- A frame of a replay trace has the lengths of a captured record, of which at
    most `limit` bytes were captured, and its data with zeros after it. -/
structure IsReplayOf (limit : UInt16) (r f : Trace.Record) : Prop where
  wireLength : (Replay.Tag.ofWord f.tag).wireLength = (Capture.Tag.mk r.tag).wireLength
  captured : (Replay.Tag.ofWord f.tag).captured.toNat =
    min (Capture.Tag.mk r.tag).wireLength.toNat limit.toNat
  data : f.data = r.data ++
    List.replicate ((Capture.Tag.mk r.tag).wireLength.toNat - r.data.length) 0

theorem isReplayOf_frame {r : Trace.Record} {clock : ArrivalClock} {wait : ℕ}
    (hdata : r.data.length = Capture.stored limit r.tag)
    (hfits : Replay.Fits (Capture.packet clock r)) (hwait : wait < 2 ^ 32) :
    IsReplayOf limit r (Replay.frame (Capture.packet clock r) wait) := by
  have hstored := Capture.stored_lt limit r.tag
  constructor
  · rw [Replay.ofWord_tag_frame hfits hwait]
    simp [Capture.packet]
  · rw [Replay.ofWord_tag_frame hfits hwait]
    change (UInt32.toUInt16 (UInt32.ofNat r.data.length)).toNat = Capture.stored limit r.tag
    rw [UInt32.toNat_toUInt16, UInt32.toNat_ofNat', hdata]
    omega
  · have hle : r.data.length ≤ (Capture.Tag.mk r.tag).wireLength.toNat := by
      rw [hdata]
      exact Nat.min_le_left _ _
    simp only [Replay.frame, Capture.packet, UInt16.toNat_toUInt32]
    rw [List.take_of_length_le hle]

theorem forall₂_isReplayOf {records : List Trace.Record} {cycles : List ℕ} {clock : ArrivalClock}
    (hdata : ∀ r ∈ records, r.data.length = Capture.stored limit r.tag)
    (hfits : ∀ p ∈ Capture.arrivals clock records, Replay.Fits p)
    (hcycles : ∀ n ∈ cycles, n < 2 ^ 32) (hlength : records.length ≤ cycles.length) :
    List.Forall₂ (IsReplayOf limit) records
      ((Capture.arrivals clock records).zipWith Replay.frame cycles) := by
  induction records generalizing cycles clock with
  | nil => exact .nil
  | cons r records ih =>
    cases cycles with
    | nil => exact absurd hlength (Nat.not_succ_le_zero _)
    | cons wait cycles =>
      rw [Capture.arrivals, List.forall_mem_cons] at hfits
      rw [List.forall_mem_cons] at hdata hcycles
      exact .cons (isReplayOf_frame hdata.1 hfits.1 hcycles.1)
        (ih hdata.2 hfits.2 hcycles.2 (Nat.le_of_succ_le_succ hlength))

/-- The frames of packets that are all accepted are those of the records that the
    packets were captured as. -/
theorem Replay.Encoder.Accepted.forall₂_isReplayOf {e : Replay.Encoder}
    {records : List Trace.Record} {written : Bytes}
    (h : e.Accepted (Capture.arrivals {} records) written)
    (hdata : ∀ r ∈ records, r.data.length = Capture.stored limit r.tag) :
    List.Forall₂ (IsReplayOf limit) records
      (Replay.allFrames (Capture.arrivals {} records)) := by
  refine PacketTrace.forall₂_isReplayOf hdata h.fits h.allWaits_lt ?_
  rw [List.length_append, Replay.length_waits, Capture.length_arrivals, List.length_singleton]
  omega

theorem Replay.cyclesAfter_frame {p : Packet} {wait : ℕ} (hfits : Replay.Fits p)
    (hwait : wait < 2 ^ 32) : Replay.cyclesAfter (Replay.frame p wait) = wait := by
  rw [cyclesAfter, ofWord_tag_frame hfits hwait]
  exact Nat.mod_eq_of_lt hwait

theorem Replay.map_cyclesAfter_zipWith {packets : List Packet} {cycles : List ℕ}
    (hfits : ∀ p ∈ packets, Replay.Fits p) (hcycles : ∀ n ∈ cycles, n < 2 ^ 32)
    (hlength : cycles.length ≤ packets.length) :
    (packets.zipWith Replay.frame cycles).map Replay.cyclesAfter = cycles := by
  induction packets generalizing cycles with
  | nil => rw [List.eq_nil_of_length_eq_zero (Nat.le_zero.1 hlength)]; rfl
  | cons p packets ih =>
    cases cycles with
    | nil => rfl
    | cons wait cycles =>
      rw [List.forall_mem_cons] at hfits hcycles
      rw [List.zipWith_cons_cons, List.map_cons, cyclesAfter_frame hfits.1 hcycles.1,
        ih hfits.2 hcycles.2 (Nat.le_of_succ_le_succ hlength)]

theorem spacings_arrivals (clock : ArrivalClock) (r : Trace.Record)
    (records : List Trace.Record) :
    Replay.spacings (Capture.arrivals clock (r :: records)) =
      (records.map Capture.cyclesBefore).map cyclesToNanos := by
  induction records generalizing clock r with
  | nil => rfl
  | cons r' records ih =>
    have hspacing : (Capture.arrive (Capture.arrive clock r) r').now -
        (Capture.arrive clock r).now = cyclesToNanos (Capture.cyclesBefore r') := by
      exact Nat.add_sub_cancel_left ..
    rw [List.map_cons, List.map_cons, ← hspacing, ← ih (Capture.arrive clock r) r']
    rfl

/-- The gaps of a capture trace and the waits of its replay: the last frame
    waits for nothing, every other as long as the gap before the next packet,
    or a cycle less. -/
structure KeepsTime (records frames : List Trace.Record) : Prop where
  last : ∀ f, frames.getLast? = some f → Replay.cyclesAfter f = 0
  each : List.Forall₂ (fun d n => n = d ∨ n + 1 = d) (records.tail.map Capture.cyclesBefore)
    (frames.dropLast.map Replay.cyclesAfter)
  sums : ∀ k < frames.length,
    8 * ((records.tail.map Capture.cyclesBefore).take k).sum ≤
        8 * ((frames.map Replay.cyclesAfter).take k).sum + k ∧
      ((frames.map Replay.cyclesAfter).take k).sum ≤
        ((records.tail.map Capture.cyclesBefore).take k).sum

/-- The frames of packets that are all accepted wait as long as they are to. -/
theorem Replay.Encoder.Accepted.map_cyclesAfter_allFrames {e : Replay.Encoder}
    {packets : List Packet} {written : Bytes} (h : e.Accepted packets written)
    (hpackets : packets ≠ []) :
    (Replay.allFrames packets).map Replay.cyclesAfter = Replay.waits packets ++ [0] := by
  have hpos := List.length_pos_of_ne_nil hpackets
  refine Replay.map_cyclesAfter_zipWith h.fits h.allWaits_lt ?_
  rw [List.length_append, Replay.length_waits, List.length_singleton]
  omega

theorem keepsTime_allFrames {e : Replay.Encoder} {records : List Trace.Record} {written : Bytes}
    (h : e.Accepted (Capture.arrivals {} records) written) :
    KeepsTime records (Replay.allFrames (Capture.arrivals {} records)) := by
  cases records with
  | nil => exact ⟨by rintro f ⟨⟩, .nil, by rintro k ⟨⟩⟩
  | cons r records =>
    have hmap := h.map_cyclesAfter_allFrames (List.cons_ne_nil _ _)
    have hwaits := h.waits_lt
    have hlength := Replay.length_waits (Capture.arrivals {} (r :: records))
    rw [Replay.waits, spacings_arrivals] at hmap hwaits hlength
    rw [Capture.length_arrivals, List.length_cons, Nat.add_sub_cancel] at hlength
    obtain ⟨heach, hsums⟩ := Quantizer.run_map_cyclesToNanos Capture.cyclesBefore_lt hwaits
    refine ⟨fun f hf => ?_, ?_, fun k hk => ?_⟩
    · have hlast := congrArg List.getLast? hmap
      rw [List.getLast?_map, hf, List.getLast?_concat] at hlast
      exact Option.some.inj hlast
    · rw [List.map_dropLast, hmap, List.dropLast_concat]
      exact heach
    · rw [Replay.length_allFrames, Capture.length_arrivals, List.length_cons] at hk
      rw [hmap, List.take_append_of_le_length (by omega)]
      exact hsums k

/-- If a capture trace is converted to a packet file, and that to a replay
    trace, through windows of any size and however the sources are cut into
    reads, then the replay trace has a frame for each record of the capture
    trace, in the same order and with the same bytes, and no others. Its waits
    add up to no more than the captured gaps, and to no less by more than an
    eighth of a cycle for each. -/
theorem replay_of_capture {τ : Type} [SeekableSource σ] [ByteSource τ] {s s' : σ} {t t' : τ}
    {trace : Bytes} {capacity' : ℕ} {tally' : Tally} {replay : Spool} (hs : Holds trace s)
    (hexport : captureToPcap capacity limit (s, ({} : Spool)) = (.ok tally, s', output))
    (ht : Delivers output.toBytes t)
    (himport : pcapToReplay capacity' (t, ({} : Spool)) = (.ok tally', t', replay)) :
    ∃ records frames, Trace.Walk.ofTrace trace = .ok { rest := trace } ∧
      Trace.Walk.drain (Capture.stored limit) { rest := trace } = (records, none) ∧
      Trace.Walk.ofTrace replay.toBytes = .ok { rest := replay.toBytes } ∧
      (∀ n, answer (Trace.Walk.next Replay.stored) { rest := replay.toBytes } n =
        (frames[n]?).map .ok) ∧
      List.Forall₂ (IsReplayOf limit) records frames ∧ KeepsTime records frames := by
  obtain ⟨records, entries, hwalk, hdrain, hentries, hplain, houtput⟩ :=
    captureToPcap_eq_ok hs hexport
  rw [houtput] at ht
  obtain ⟨e, written, haccepted, hreplay⟩ := pcapToReplay_eq_ok hplain ht himport
  rw [hentries] at haccepted hreplay
  have hdata := Trace.Walk.length_data_of_mem_drain (Capture.stored limit) { rest := trace }
  rw [hdrain] at hdata
  rw [hreplay]
  exact ⟨records, Replay.allFrames (Capture.arrivals {} records), hwalk, hdrain,
    Replay.ofTrace_trace _, haccepted.answer_next_trace, haccepted.forall₂_isReplayOf hdata,
    keepsTime_allFrames haccepted⟩

/-- A capture trace of two packets, with two bytes and, seven cycles later, one. -/
def twoRecords : Bytes :=
  [0, 0, 0, 0, 0, 0, 64, 0, 7, 8, 0, 0, 0, 0, 0, 0,
    0, 0, 0, 14, 0, 0, 32, 0, 9, 0, 0, 0, 0, 0, 0, 0] ++ List.replicate 32 255

theorem replay_of_twoRecords :
    ∃ s' output t' replay records frames,
      captureToPcap 64 1500 (({ content := twoRecords } : Tape), ({} : Spool)) =
        (.ok ⟨2, 59⟩, s', output) ∧
      pcapToReplay 64 (({ content := output.toBytes } : Tape), ({} : Spool)) =
        (.ok ⟨2, 64⟩, t', replay) ∧
      Trace.Walk.drain (Capture.stored 1500) { rest := twoRecords } = (records, none) ∧
      List.Forall₂ (IsReplayOf 1500) records frames ∧ KeepsTime records frames := by
  obtain ⟨s', output, hexport⟩ := exists_eq_ok (show
    (captureToPcap 64 1500 (({ content := twoRecords } : Tape), ({} : Spool))).1 = .ok ⟨2, 59⟩ by
      decide +kernel)
  have houtput : output =
      (captureToPcap 64 1500 (({ content := twoRecords } : Tape), ({} : Spool))).2.2 := by
    rw [hexport]
  obtain ⟨t', replay, himport⟩ := exists_eq_ok (show
    (pcapToReplay 64 (({ content := output.toBytes } : Tape), ({} : Spool))).1 = .ok ⟨2, 64⟩ by
      rw [houtput]
      decide +kernel)
  have hsteady (content : Bytes) : Tape.IsSteady { content } := by
    simp [Tape.IsSteady]
  obtain ⟨records, frames, -, hdrain, -, -, hforall, hkeeps⟩ :=
    replay_of_capture (Tape.holds (hsteady twoRecords) rfl) hexport
      (Tape.delivers (hsteady output.toBytes)) himport
  exact ⟨s', output, t', replay, records, frames, hexport, himport, hdrain, hforall, hkeeps⟩

end PacketTrace
