import Mathlib.Data.List.Forall2
import PacketTrace.Proofs.Conversion.Pipeline
import PacketTrace.Totals

/-!
# The totals of a trace are those of its records

The totals of a trace are added up record by record, with a loop of their own.
They are nevertheless the sums over what a walk over the trace yields, and they fail
where the walk does, with the same failure (`Totals.sum_eq`). Each kind of trace has
its gaps in other records: in a capture trace the first record tells a gap that is
not between packets, and in a replay trace the last one tells that nothing follows.

* `Totals.ofTrace_capture`, `Totals.ofTrace_replay`: the totals in terms of the
  records;
* `Totals.isBounded_ofTrace`, `Totals.IsBounded.lt`: how large they get, and when
  they fit in 64 bits;
* `totals_agree`: the totals of both kinds against the packets and the frames that a
  walk yields, and against each other where one trace was made from the other.
-/

namespace PacketTrace

/-- All that a walk yields, unless something cuts it off. -/
def uncut {α : Type} (drained : List α × Option Failure) : Except Failure (List α) :=
  match drained.2 with
  | none => .ok drained.1
  | some failure => .error failure

/-- The records of a whole trace. -/
def Trace.Walk.records (stored : UInt64 → ℕ) (trace : Bytes) : Except Failure (List Record) := do
  uncut ((← ofTrace trace).drain stored)

theorem Trace.Walk.length_data_of_records (stored : UInt64 → ℕ) (trace : Bytes)
    {all : List Record} (h : records stored trace = .ok all) :
    ∀ r ∈ all, r.data.length = stored r.tag := by
  have hdata := length_data_of_mem_drain stored { rest := trace }
  rw [records, ofTrace] at h
  cases hcheck : checkAligned trace.length with
  | error failure => rw [hcheck] at h; cases h
  | ok aligned =>
    rw [hcheck] at h
    change uncut (drain stored { rest := trace }) = .ok all at h
    rcases hdrain : drain stored { rest := trace } with ⟨drained, _ | failure⟩ <;>
      rw [hdrain] at h hdata <;> cases h
    exact hdata

/-- The packets of a whole capture trace. -/
def Capture.Walk.packets (limit : UInt16) (trace : Bytes) : Except Failure (List Packet) := do
  uncut (← ofTrace trace limit).drain

/-- The packets of a capture trace are those of its records. -/
theorem Capture.Walk.packets_eq (limit : UInt16) (trace : Bytes) :
    packets limit trace = (Trace.Walk.records (stored limit) trace).map (arrivals {}) := by
  rw [packets, Trace.Walk.records, ofTrace, Trace.Walk.ofTrace]
  cases Trace.checkAligned trace.length with
  | error failure => rfl
  | ok aligned =>
    change uncut (drain { trace, limit, place := { rest := trace } }) =
      (uncut (Trace.Walk.drain (stored limit) { rest := trace })).map (arrivals {})
    rw [drain_eq]
    rcases Trace.Walk.drain (stored limit) { rest := trace } with ⟨records, _ | failure⟩ <;> rfl

namespace Totals

/-! ## Sums over records -/

/-- What is added up is what a walk yields, and what cuts the sum off is what cuts
    off the walk. -/
theorem sum_eq (stored : UInt64 → ℕ) (add : Totals → Trace.Record → Totals) (t : Totals)
    (bytes : Bytes) :
    sum stored add t bytes =
      (uncut (Trace.Walk.drain stored { rest := bytes })).map (·.foldl add t) := by
  fun_induction sum stored add t bytes with
  | case1 t bytes hempty =>
    have hnext : Trace.Walk.next stored { rest := bytes } = (none, { rest := bytes }) := by
      simp [Trace.Walk.next, hempty]
    rw [Trace.Walk.drain_of_none hnext]
    rfl
  | case2 t bytes hmore record rest hdecoder ih =>
    rw [Trace.Walk.drain_of_record (Trace.Walk.next_of_record hdecoder), ih]
    rcases Trace.Walk.drain stored { rest } with ⟨records, _ | failure⟩ <;> rfl
  | case3 t bytes hmore rest hdecoder =>
    have hnext : Trace.Walk.next stored { rest := bytes } =
        (none, { rest := bytes, done := true }) := by
      simp [Trace.Walk.next, hmore, hdecoder]
    rw [Trace.Walk.drain_of_none hnext]
    rfl
  | case4 t bytes hmore missing hdecoder =>
    have hnext : Trace.Walk.next stored { rest := bytes } =
        (some (.error .truncatedInput), { rest := bytes, done := true }) := by
      simp [Trace.Walk.next, hmore, hdecoder]
    rw [Trace.Walk.drain_of_failure hnext]
    rfl
  | case5 t bytes hmore failure hdecoder =>
    exact absurd hdecoder (Trace.Record.decoder_ne_refused _ _ _)

/-- The length on the wire that the tag of a captured record tells. -/
def capturedWire (r : Trace.Record) : ℕ := (Capture.Tag.mk r.tag).wireLength.toNat

/-- The length on the wire that the tag of a frame tells. -/
def replayedWire (f : Trace.Record) : ℕ := (Replay.Tag.ofWord f.tag).wireLength.toNat

/-- The bytes of a packet that were captured, as the tag of its frame tells, and no
    more than it had on the wire. -/
def replayedBytes (f : Trace.Record) : ℕ :=
  min (Replay.Tag.ofWord f.tag).captured.toNat (replayedWire f)

/-- After the first record, every gap counts. -/
theorem foldl_addCaptured_of_pos (records : List Trace.Record) {t : Totals} (h : 0 < t.packets) :
    records.foldl addCaptured t = {
      size := t.size
      packets := t.packets + records.length
      wireBytes := t.wireBytes + (records.map capturedWire).sum
      capturedBytes := t.capturedBytes + (records.map (·.data.length)).sum
      gapCycles := t.gapCycles + (records.map Capture.cyclesBefore).sum } := by
  induction records generalizing t with
  | nil => rfl
  | cons r records ih =>
    rw [List.foldl_cons, ih (Nat.succ_pos _)]
    simp only [addCaptured, if_neg (Nat.ne_of_gt h), List.map_cons, List.sum_cons, capturedWire,
      Capture.cyclesBefore, List.length_cons, mk.injEq, true_and]
    omega

theorem foldl_addCaptured (size : ℕ) (records : List Trace.Record) :
    records.foldl addCaptured { size } = {
      size
      packets := records.length
      wireBytes := (records.map capturedWire).sum
      capturedBytes := (records.map (·.data.length)).sum
      gapCycles := (records.tail.map Capture.cyclesBefore).sum } := by
  cases records with
  | nil => rfl
  | cons r records =>
    rw [List.foldl_cons, foldl_addCaptured_of_pos records (Nat.succ_pos _)]
    simp [addCaptured, capturedWire, Nat.add_comm]

theorem foldl_addReplayed {frames : List Trace.Record}
    (hdata : ∀ f ∈ frames, f.data.length = Replay.stored f.tag) (t : Totals) :
    frames.foldl addReplayed t = {
      size := t.size
      packets := t.packets + frames.length
      wireBytes := t.wireBytes + (frames.map replayedWire).sum
      capturedBytes := t.capturedBytes + (frames.map replayedBytes).sum
      gapCycles := t.gapCycles + (frames.map Replay.cyclesAfter).sum } := by
  induction frames generalizing t with
  | nil => rfl
  | cons f frames ih =>
    rw [List.forall_mem_cons] at hdata
    have hwire : f.data.length = replayedWire f := hdata.1
    rw [List.foldl_cons, ih hdata.2]
    simp only [addReplayed, hwire, List.map_cons, List.sum_cons, replayedBytes, List.length_cons,
      mk.injEq, true_and]
    rw [replayedWire, Replay.cyclesAfter]
    omega

/-- The totals of a capture trace, from its records. -/
theorem ofTrace_capture (limit : UInt16) (trace : Bytes) :
    ofTrace (.capture limit) trace =
      (Trace.Walk.records (Capture.stored limit) trace).map fun records => {
        size := trace.length
        packets := records.length
        wireBytes := (records.map capturedWire).sum
        capturedBytes := (records.map (·.data.length)).sum
        gapCycles := (records.tail.map Capture.cyclesBefore).sum } := by
  rw [ofTrace, Trace.Walk.records, Trace.Walk.ofTrace]
  cases Trace.checkAligned trace.length with
  | error failure => rfl
  | ok aligned =>
    refine (sum_eq _ _ _ _).trans ?_
    simp only [foldl_addCaptured]
    rfl

/-- The totals of a replay trace, from its frames. -/
theorem ofTrace_replay (trace : Bytes) :
    ofTrace .replay trace = (Trace.Walk.records Replay.stored trace).map fun frames => {
      size := trace.length
      packets := frames.length
      wireBytes := (frames.map replayedWire).sum
      capturedBytes := (frames.map replayedBytes).sum
      gapCycles := (frames.map Replay.cyclesAfter).sum } := by
  have hdata := Trace.Walk.length_data_of_mem_drain Replay.stored { rest := trace }
  rw [ofTrace, Trace.Walk.records, Trace.Walk.ofTrace]
  cases Trace.checkAligned trace.length with
  | error failure => rfl
  | ok aligned =>
    refine (sum_eq _ _ _ _).trans ?_
    change _ = (uncut (Trace.Walk.drain Replay.stored { rest := trace })).map _
    rcases hdrain : Trace.Walk.drain Replay.stored { rest := trace } with ⟨frames, _ | failure⟩
    · rw [hdrain] at hdata
      refine congrArg Except.ok ((foldl_addReplayed hdata _).trans ?_)
      simp only [Nat.zero_add]
    · rfl

/-! ## How large they get -/

/-- To each total a packet has added no more than its tag can tell. -/
structure IsBounded (t : Totals) : Prop where
  wireBytes : t.wireBytes ≤ t.packets * 2 ^ 16
  capturedBytes : t.capturedBytes ≤ t.packets * 2 ^ 16
  gapCycles : t.gapCycles ≤ t.packets * 2 ^ 32

/-- The totals of fewer than `2 ^ 32` packets fit in 64 bits. -/
theorem IsBounded.lt {t : Totals} (h : t.IsBounded) (hpackets : t.packets < 2 ^ 32) :
    t.wireBytes < 2 ^ 64 ∧ t.capturedBytes < 2 ^ 64 ∧ t.gapCycles < 2 ^ 64 := by
  have hwire := h.wireBytes
  have hcaptured := h.capturedBytes
  have hgap := h.gapCycles
  omega

theorem IsBounded.addCaptured {t : Totals} {r : Trace.Record} (h : t.IsBounded)
    (hdata : r.data.length < 2 ^ 16) : (t.addCaptured r).IsBounded := by
  have hgap := Nat.le_of_lt (Capture.Tag.mk r.tag).gap.toNat_lt
  constructor <;> rw [Totals.addCaptured, Nat.succ_mul]
  · exact Nat.add_le_add h.wireBytes (Nat.le_of_lt (Capture.Tag.mk r.tag).wireLength.toNat_lt)
  · exact Nat.add_le_add h.capturedBytes (Nat.le_of_lt hdata)
  · -- The gap before the first record does not count.
    split
    · exact Nat.le_add_right_of_le h.gapCycles
    · exact Nat.add_le_add h.gapCycles hgap

theorem IsBounded.addReplayed {t : Totals} {r : Trace.Record} (h : t.IsBounded)
    (hdata : r.data.length < 2 ^ 16) : (t.addReplayed r).IsBounded := by
  have hcaptured := Nat.min_le_right (Replay.Tag.ofWord r.tag).captured.toNat r.data.length
  constructor <;> rw [Totals.addReplayed, Nat.succ_mul]
  · exact Nat.add_le_add h.wireBytes (Nat.le_of_lt (Replay.Tag.ofWord r.tag).wireLength.toNat_lt)
  · exact Nat.add_le_add h.capturedBytes (Nat.le_of_lt (Nat.lt_of_le_of_lt hcaptured hdata))
  · exact Nat.add_le_add h.gapCycles (Nat.le_of_lt (Replay.Tag.ofWord r.tag).gap.toNat_lt)

/-- What every record keeps is kept by all of them. -/
theorem IsBounded.sum {stored : UInt64 → ℕ} {add : Totals → Trace.Record → Totals} {t t' : Totals}
    {bytes : Bytes} (hstored : ∀ tag, stored tag < 2 ^ 16)
    (hadd : ∀ {t : Totals} {r : Trace.Record}, t.IsBounded → r.data.length < 2 ^ 16 →
      (add t r).IsBounded)
    (h : t.IsBounded) (hsum : Totals.sum stored add t bytes = .ok t') : t'.IsBounded := by
  fun_induction Totals.sum stored add t bytes with
  | case1 t bytes hempty =>
    cases hsum
    exact h
  | case2 t bytes hmore record rest hdecoder ih =>
    have hdata := Trace.Record.length_data_of_value hdecoder
    exact ih (hadd h (hdata ▸ hstored _)) hsum
  | case3 t bytes hmore rest hdecoder =>
    cases hsum
    exact h
  | case4 => cases hsum
  | case5 => cases hsum

/-- The totals of a trace grow with its packets only. -/
theorem isBounded_ofTrace {kind : TraceKind} {trace : Bytes} {t : Totals}
    (h : ofTrace kind trace = .ok t) : t.IsBounded := by
  have hnew : ({ size := trace.length } : Totals).IsBounded := ⟨Nat.zero_le _, Nat.zero_le _,
    Nat.zero_le _⟩
  simp only [ofTrace.eq_def] at h
  cases hcheck : Trace.checkAligned trace.length with
  | error failure =>
    rw [hcheck] at h
    cases h
  | ok aligned =>
    rw [hcheck] at h
    cases kind with
    | capture limit => exact hnew.sum (Capture.stored_lt limit) IsBounded.addCaptured h
    | replay => exact hnew.sum Replay.stored_lt IsBounded.addReplayed h

end Totals

/-! ## From one trace to the other -/

theorem map_eq_map_of_forall₂ {α β γ : Type} {R : α → β → Prop} {f : α → γ} {g : β → γ}
    {as : List α} {bs : List β} (h : List.Forall₂ R as bs) (hfg : ∀ a b, R a b → f a = g b) :
    as.map f = bs.map g := by
  rw [← List.forall₂_eq_eq_eq, List.forall₂_map_left_iff, List.forall₂_map_right_iff]
  exact h.imp hfg

/-- Records laid out one after the other are drained, if no record follows. -/
theorem Trace.Walk.drain_layout {stored : UInt64 → ℕ} {records : List Record}
    (h : ∀ r ∈ records, r.IsPlain stored) {tail : Bytes}
    (htail : ({ rest := tail } : Walk).IsOver stored) :
    drain stored { rest := layout records ++ tail } = (records, none) := by
  induction records with
  | nil => exact drain_of_none (Prod.ext (next_of_isOver htail).1 rfl)
  | cons r records ih =>
    rw [List.forall_mem_cons] at h
    rw [layout_cons, List.append_assoc, drain_of_record (next_layout_append h.1 _), ih h.2]

/-- The frames of a finished replay trace are its records. -/
theorem Replay.Encoder.Accepted.records_trace {e : Encoder} {packets : List Packet}
    {output : Bytes} (h : e.Accepted packets output) :
    Trace.Walk.records stored (trace packets) = .ok (allFrames packets) := by
  have hover := isOver_filler (eight_dvd_length_records packets)
  have hdrain := Trace.Walk.drain_layout h.isPlain hover
  rw [Trace.Walk.records, ofTrace_trace]
  exact congrArg uncut hdrain

namespace IsReplayOf

variable {limit : UInt16} {r f : Trace.Record}

theorem replayedWire_eq (h : IsReplayOf limit r f) :
    Totals.capturedWire r = Totals.replayedWire f :=
  congrArg UInt16.toNat h.wireLength.symm

/-- The zeros that a frame is filled up with do not count as captured. -/
theorem replayedBytes_eq (h : IsReplayOf limit r f) :
    Capture.stored limit r.tag = Totals.replayedBytes f := by
  rw [Totals.replayedBytes, h.captured, ← h.replayedWire_eq]
  exact (Nat.min_eq_left (Nat.min_le_left _ _)).symm

end IsReplayOf

/-- All the waits of a replay trace against all the gaps of the capture trace. -/
theorem KeepsTime.sum {records frames : List Trace.Record} (h : KeepsTime records frames)
    (hlength : records.length = frames.length) :
    8 * (records.tail.map Capture.cyclesBefore).sum ≤
        8 * (frames.map Replay.cyclesAfter).sum + (records.length - 1) ∧
      (frames.map Replay.cyclesAfter).sum ≤ (records.tail.map Capture.cyclesBefore).sum := by
  rcases List.eq_nil_or_concat frames with rfl | ⟨init, last, rfl⟩
  · rw [List.eq_nil_of_length_eq_zero hlength]
    exact ⟨Nat.le_refl 0, Nat.le_refl 0⟩
  · rw [List.concat_eq_append] at h hlength ⊢
    have hlast := h.last last List.getLast?_concat
    rw [List.length_append, List.length_singleton] at hlength
    have hsums := h.sums init.length (by rw [List.length_append]; exact Nat.lt_succ_self _)
    rw [List.take_of_length_le (by rw [List.length_map, List.length_tail, hlength]; rfl),
      List.map_append, List.take_left' (List.length_map _)] at hsums
    rw [List.map_append, List.sum_append, List.map_singleton, List.sum_singleton, hlast, hlength]
    exact hsums

/-- The totals of a replay trace against those of the capture trace that it was
    made from. -/
structure Totals.Replays (replayed captured : Totals) : Prop where
  packets : replayed.packets = captured.packets
  wireBytes : replayed.wireBytes = captured.wireBytes
  capturedBytes : replayed.capturedBytes = captured.capturedBytes
  gapCycles_le : replayed.gapCycles ≤ captured.gapCycles
  le_gapCycles : 8 * captured.gapCycles ≤ 8 * replayed.gapCycles + (captured.packets - 1)

/-- Totals add up in the same way on both sides, because the records and the frames
    go together one by one. -/
theorem Replay.Encoder.Accepted.totals {e : Encoder} {limit : UInt16}
    {records : List Trace.Record} {written trace : Bytes}
    (h : e.Accepted (Capture.arrivals {} records) written)
    (hrecords : Trace.Walk.records (Capture.stored limit) trace = .ok records)
    (hdata : ∀ r ∈ records, r.data.length = Capture.stored limit r.tag) :
    ∃ captured replayed, Totals.ofTrace (.capture limit) trace = .ok captured ∧
      Totals.ofTrace .replay (Replay.trace (Capture.arrivals {} records)) = .ok replayed ∧
      replayed.Replays captured := by
  have hframes := h.forall₂_isReplayOf hdata
  obtain ⟨hlower, hupper⟩ := (keepsTime_allFrames h).sum hframes.length_eq
  rw [Totals.ofTrace_capture, hrecords, Totals.ofTrace_replay, h.records_trace]
  refine ⟨_, _, rfl, rfl, hframes.length_eq.symm, ?_, ?_, hupper, hlower⟩
  · exact congrArg List.sum
      (map_eq_map_of_forall₂ hframes fun _ _ => IsReplayOf.replayedWire_eq).symm
  · refine congrArg List.sum (Eq.trans ?_ (List.map_congr_left hdata).symm)
    exact (map_eq_map_of_forall₂ hframes fun _ _ => IsReplayOf.replayedBytes_eq).symm

/-- The totals of a capture trace are the sums over the packets of a walk and over
    the gaps of all records but the first, and those of a replay trace the sums over
    its frames; a failure is that of the walk. If a capture trace is converted to a
    packet file, and that to a replay trace, through windows of any size, then their
    totals are those of the same packets, and the waits add up to no more than the
    captured gaps, and to no less by more than an eighth of a cycle for each. -/
theorem totals_agree :
    (∀ limit trace,
      (∃ failure, Capture.Walk.packets limit trace = .error failure ∧
        Totals.ofTrace (.capture limit) trace = .error failure) ∨
      ∃ records packets, Trace.Walk.records (Capture.stored limit) trace = .ok records ∧
        Capture.Walk.packets limit trace = .ok packets ∧
        Capture.AreArrivalsOf limit records packets ∧
        Totals.ofTrace (.capture limit) trace = .ok {
          size := trace.length
          packets := packets.length
          wireBytes := (packets.map (·.wireLength.toNat)).sum
          capturedBytes := (packets.map (·.data.length)).sum
          gapCycles := (records.tail.map Capture.cyclesBefore).sum }) ∧
    (∀ trace, Totals.ofTrace .replay trace =
      (Trace.Walk.records Replay.stored trace).map fun frames => {
        size := trace.length
        packets := frames.length
        wireBytes := (frames.map Totals.replayedWire).sum
        capturedBytes := (frames.map Totals.replayedBytes).sum
        gapCycles := (frames.map Replay.cyclesAfter).sum }) ∧
    ∀ (σ τ : Type) [SeekableSource σ] [ByteSource τ] (s s' : σ) (t t' : τ) (trace : Bytes)
      (capacity capacity' : ℕ) (limit : UInt16) (tally tally' : Tally) (output replay : Spool),
      Holds trace s → captureToPcap capacity limit (s, ({} : Spool)) = (.ok tally, s', output) →
      Delivers output.toBytes t →
      pcapToReplay capacity' (t, ({} : Spool)) = (.ok tally', t', replay) →
      ∃ captured replayed, Totals.ofTrace (.capture limit) trace = .ok captured ∧
        Totals.ofTrace .replay replay.toBytes = .ok replayed ∧ replayed.Replays captured := by
  refine ⟨fun limit trace => ?_, Totals.ofTrace_replay, ?_⟩
  · rw [Totals.ofTrace_capture, Capture.Walk.packets_eq]
    cases hrecords : Trace.Walk.records (Capture.stored limit) trace with
    | error failure => exact .inl ⟨failure, rfl, rfl⟩
    | ok records =>
      have harrivals :=
        Capture.areArrivalsOf_arrivals (Trace.Walk.length_data_of_records _ _ hrecords)
      have hwire : records.map Totals.capturedWire =
          (Capture.arrivals {} records).map (·.wireLength.toNat) :=
        map_eq_map_of_forall₂ harrivals.each fun _ _ h => h.wireLength.symm
      have hbytes : records.map (·.data.length) =
          (Capture.arrivals {} records).map (·.data.length) :=
        map_eq_map_of_forall₂ harrivals.each fun _ _ h => congrArg List.length h.data.symm
      refine .inr ⟨records, _, rfl, rfl, harrivals, ?_⟩
      rw [Capture.length_arrivals, ← hwire, ← hbytes]
      rfl
  · intro σ τ _ _ s s' t t' trace capacity capacity' limit tally tally' output replay hs hexport ht
      himport
    obtain ⟨records, entries, hwalk, hdrain, hentries, hplain, houtput⟩ :=
      captureToPcap_eq_ok hs hexport
    rw [houtput] at ht
    obtain ⟨e, written, haccepted, hreplay⟩ := pcapToReplay_eq_ok hplain ht himport
    rw [hentries] at haccepted hreplay
    have hrecords : Trace.Walk.records (Capture.stored limit) trace = .ok records := by
      rw [Trace.Walk.records, hwalk]
      exact congrArg uncut hdrain
    rw [hreplay]
    exact haccepted.totals hrecords (Trace.Walk.length_data_of_records _ _ hrecords)

theorem totals_agree_of_twoRecords :
    ∃ s' output t' replay replayed,
      captureToPcap 64 1500 (({ content := twoRecords } : Tape), ({} : Spool)) =
        (.ok ⟨2, 59⟩, s', output) ∧
      pcapToReplay 64 (({ content := output.toBytes } : Tape), ({} : Spool)) =
        (.ok ⟨2, 64⟩, t', replay) ∧
      Totals.ofTrace (.capture 1500) twoRecords = .ok ⟨64, 2, 3, 3, 7⟩ ∧
      Totals.ofTrace .replay replay.toBytes = .ok replayed ∧ replayed.Replays ⟨64, 2, 3, 3, 7⟩ := by
  obtain ⟨s', output, hexport⟩ := exists_eq_ok (show
    (captureToPcap 64 1500 (({ content := twoRecords } : Tape), ({} : Spool))).1 = .ok ⟨2, 59⟩ by
      decide +kernel)
  have houtput : output =
      (captureToPcap 64 1500 (({ content := twoRecords } : Tape), ({} : Spool))).2.2 := by
    rw [hexport]
  obtain ⟨t', replay, himport⟩ := exists_eq_ok (show
    (pcapToReplay 64 (({ content := output.toBytes } : Tape), ({} : Spool))).1 = .ok ⟨2, 64⟩ by
      rw [houtput]
      decide +kernel)
  have hsteady (content : Bytes) : Tape.IsSteady { content } := by
    simp [Tape.IsSteady]
  have htotals : Totals.ofTrace (.capture 1500) twoRecords = .ok ⟨64, 2, 3, 3, 7⟩ := by
    decide +kernel
  obtain ⟨captured, replayed, hcaptured, hreplayed, hreplays⟩ := totals_agree.2.2 _ _ _ _ _ _ _ _ _
    _ _ _ _ _ (Tape.holds (hsteady twoRecords) rfl) hexport (Tape.delivers (hsteady output.toBytes))
    himport
  cases hcaptured.symm.trans htotals
  exact ⟨s', output, t', replay, replayed, hexport, himport, htotals, hreplayed, hreplays⟩

end PacketTrace
