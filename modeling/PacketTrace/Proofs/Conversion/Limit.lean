import PacketTrace.Proofs.Capture.Arrivals
import PacketTrace.Proofs.Conversion.Transfer
import PacketTrace.Proofs.Pcap.File
import PacketTrace.Proofs.Replay.Encoder
import PacketTrace.Proofs.Stream.Limit
import PacketTrace.Proofs.Stream.Window

/-!
# Outputs that are cut short

Which packets a conversion takes from its source does not depend on the sink,
and nor does what it makes of them: it writes the same fields to every sink, in
the same order, until one of them is not taken whole. So what is left on a sink
that runs out of room is a prefix of what the conversion writes if there is
room for everything.

* `exists_transfer_eq`: a transfer is a matter of its packets only;
* `WritesItems.putAll`: what one packet makes an encoder write, then any number
  of them;
* `exists_captureToPcap_eq`, `exists_pcapToReplay_eq`: the fields that a
  conversion writes (`Pcap.AreFields`, `Replay.AreFields`);
* `leavesPrefix`: hence what is left of them (`LeavesPrefix`).
-/

namespace PacketTrace

variable {σ τ ι ο α : Type}

/-- What an operation on a source and a sink comes to, but for the source. -/
def withoutSource (x : α × σ × τ) : α × τ := (x.1, x.2.2)

/-! ## The packets of a transfer -/

/-- A transfer from the first of two states to the second puts some packets of
    the stream, and a failure of the stream may cut them off. They are the same
    whatever they are put into. -/
theorem exists_transfer_eq {next : ι → σ → Except Failure (Option Packet) × ι × σ}
    {next' : ι → σ × τ → Except Failure (Option Packet) × ι × σ × τ}
    (hnext : ∀ stream s t, next' stream (s, t) = withSecond t (next stream s))
    {put : ο → Packet → τ → Except Failure Unit × ο × τ}
    {put' : ο → Packet → σ × τ → Except Failure Unit × ο × σ × τ}
    (hput : ∀ encoder p s t, put' encoder p (s, t) = withFirst s (put encoder p t))
    (n : ℕ) (stream : ι) (s : σ) :
    ∃ packets failure, (∀ p ∈ packets, ∃ stream s, (next stream s).1 = .ok (some p)) ∧
      ∀ encoder t, withoutSource (transfer next' put' n stream encoder (s, t)) =
        cutOff failure (putAll put packets encoder t) := by
  induction n generalizing stream s with
  | zero => exact ⟨[], none, by simp, fun _ _ => rfl⟩
  | succ n ih =>
    rcases hcall : next stream s with ⟨_ | _ | p, stream₁, s₁⟩
    case error failure =>
      refine ⟨[], some failure, by simp, fun encoder t => ?_⟩
      rw [transfer, hnext, hcall]
      rfl
    case ok.none =>
      refine ⟨[], none, by simp, fun encoder t => ?_⟩
      rw [transfer, hnext, hcall]
      rfl
    case ok.some =>
      -- What the stream answers next does not depend on how the encoder fares,
      -- only whether it is still asked does.
      obtain ⟨packets, failure, hpackets, htransfer⟩ := ih stream₁ s₁
      refine ⟨p :: packets, failure, List.forall_mem_cons.2 ⟨⟨stream, s, ?_⟩, hpackets⟩, ?_⟩
      · rw [hcall]
      · intro encoder t
        rw [transfer, hnext, hcall, putAll]
        simp only [withSecond, hput]
        rcases put encoder p t with ⟨_ | _, encoder₁, t₁⟩
        · rfl
        · exact htransfer encoder₁ t₁

/-! ## The fields of an encoder -/

theorem cutOff_putAll_cons {put : ο → Packet → τ → Except Failure Unit × ο × τ}
    (failure : Option Failure) (p : Packet) (packets : List Packet) (encoder : ο) :
    (fun t => cutOff failure (putAll put (p :: packets) encoder t)) =
      andThen (fun t => cutOff none (put encoder p t)) fun encoder t =>
        cutOff failure (putAll put packets encoder t) := by
  funext t
  rw [putAll, andThen]
  rcases put encoder p t with ⟨_ | _, encoder₁, t₁⟩ <;> rfl

/-- A packet makes the encoder write some items, each in its fields, and what is
    known of the encoder and of the items before is kept by that. -/
def WritesItems (put : ο → Packet → Spool → Except Failure Unit × ο × Spool)
    (fields : ι → List Bytes) (Q : ι → Prop) (A : Packet → Prop) (Inv : List ι → ο → Prop) : Prop :=
  ∀ before encoder p, Inv before encoder → A p → ∃ items result,
    Issues (fun t => cutOff none (put encoder p t)) (items.flatMap fields) result ∧
      (∀ i ∈ items, Q i) ∧ ∀ encoder', result = .ok encoder' → Inv (before ++ items) encoder'

/-- So does any number of packets, whether a failure cuts them off or not. -/
theorem WritesItems.putAll {put : ο → Packet → Spool → Except Failure Unit × ο × Spool}
    {fields : ι → List Bytes} {Q : ι → Prop} {A : Packet → Prop} {Inv : List ι → ο → Prop}
    (h : WritesItems put fields Q A Inv) (failure : Option Failure) {packets : List Packet}
    (hpackets : ∀ p ∈ packets, A p) (before : List ι) (encoder : ο) (hinv : Inv before encoder) :
    ∃ items result,
      Issues (fun t => cutOff failure (PacketTrace.putAll put packets encoder t))
          (items.flatMap fields) result ∧
        (∀ i ∈ items, Q i) ∧
          ∀ encoder', result = .ok encoder' → Inv (before ++ items) encoder' := by
  induction packets generalizing before encoder with
  | nil =>
    refine ⟨[], failure.elim (.ok encoder) .error, rfl, by simp, fun encoder' hok => ?_⟩
    cases failure with
    | none =>
      cases hok
      rwa [List.append_nil]
    | some failure => cases hok
  | cons p packets ih =>
    rw [List.forall_mem_cons] at hpackets
    obtain ⟨items, result, hissues, hitems, hresult⟩ := h before encoder p hinv hpackets.1
    rw [cutOff_putAll_cons]
    cases result with
    | error refusal =>
      exact ⟨items, .error refusal, hissues.andThen_error _, hitems, by rintro _ ⟨⟩⟩
    | ok encoder₁ =>
      obtain ⟨more, result, hmore, hitems', hresult'⟩ := ih hpackets.2 _ _ (hresult encoder₁ rfl)
      refine ⟨items ++ more, result, ?_, List.forall_mem_append.2 ⟨hitems, hitems'⟩, ?_⟩
      · rw [Issues, hissues.andThen_ok, List.flatMap_append, writeThen_append, ← hmore]
      · rwa [List.append_assoc] at hresult'

/-! ## Packet files -/

/-- A packet of a capture trace has no more bytes than a tag can tell. -/
theorem Capture.Stream.length_data_lt_of_next [ByteSource σ] {r : Stream} {s : σ} {p : Packet}
    (h : (r.next s).1 = .ok (some p)) : p.data.length < 2 ^ 16 := by
  rw [next] at h
  split at h
  · cases h
  · rcases hfetch : r.window.fetch (Trace.Record.decoder (stored r.limit)) s with
      ⟨(_ | record) | _ | _ | _, window, s'⟩ <;> rw [hfetch] at h <;> cases h
    obtain ⟨unread, rest, hvalue⟩ := Window.exists_of_fetch_eq_value (congrArg Prod.fst hfetch)
    rw [show (packet _ record).data = record.data from rfl,
      Trace.Record.length_data_of_value hvalue]
    exact stored_lt r.limit record.tag

namespace Pcap

/-- The fields of a packet file, up to the end of some entry, or none at all
    after a failure. -/
def AreFields (fields : List Bytes) (result : Except Failure Tally) : Prop :=
  (fields = [] ∧ ∃ failure, result = .error failure) ∨
    ∃ entries : List Entry, (∀ e ∈ entries, e.IsPlain) ∧
      fields = ({} : Header).fields ++ entries.flatMap Entry.fields

namespace Encoder

theorem issues_start (header : Header) :
    Issues (start header) header.fields (.ok { bytes := Header.size }) := by
  have hstart : start header = andThen (writeFields header.fields) fun bytes (t : Spool) =>
      (.ok { bytes }, t) := by
    funext t
    rw [start, andThen]
    rcases writeFields header.fields t with ⟨_ | _, t'⟩ <;> rfl
  rw [hstart, Issues, (Issues.writeFields header.fields).andThen_ok, Header.length_flatten_fields]

/-- A packet is written as its entry, unless it is too late for one. -/
theorem writesItems_write : WritesItems (write (σ := Spool)) Entry.fields Entry.IsPlain
    (fun p => p.data.length < 2 ^ 32) fun _ _ => True := by
  intro _ e p _ hlength
  cases hentry : Entry.ofPacket p with
  | error failure =>
    refine ⟨[], .error failure, ?_, by simp, by rintro _ ⟨⟩⟩
    funext t
    rw [write, hentry]
    rfl
  | ok entry =>
    refine ⟨[entry], .ok ⟨e.bytes + entry.fields.flatten.length, e.packets + 1⟩, ?_,
      List.forall_mem_singleton.2 (Entry.isPlain_of_ofPacket hentry hlength), fun _ _ => trivial⟩
    have hwrite : (fun t => cutOff none (e.write p t)) =
        andThen (writeFields entry.fields) fun written (t : Spool) =>
          (.ok ⟨e.bytes + written, e.packets + 1⟩, t) := by
      funext t
      rw [write, hentry, andThen]
      simp only
      rcases writeFields entry.fields t with ⟨_ | _, t'⟩ <;> rfl
    rw [hwrite, List.flatMap_singleton]
    exact (Issues.writeFields entry.fields).andThen_ok _

end Encoder

end Pcap

theorem withoutSource_writePcap [ByteSource σ] [ByteSink τ] {r : Capture.Stream} {s : σ}
    {packets : List Packet} {failure : Option Failure}
    (h : ∀ encoder (t : τ), withoutSource (transfer Capture.Stream.next Pcap.Encoder.write
      (packetBound r.window s) r encoder (s, t)) =
        cutOff failure (putAll Pcap.Encoder.write packets encoder t)) (t : τ) :
    withoutSource (writePcap r (s, t)) =
      andThen (Pcap.Encoder.start {}) (fun e => andThen
        (fun t => cutOff failure (putAll Pcap.Encoder.write packets e t))
        fun e => conclude (.ok ⟨e.packets, e.bytes⟩)) t := by
  rw [writePcap, Pcap.Encoder.start_pair, andThen]
  rcases Pcap.Encoder.start {} t with ⟨_ | e, t₁⟩
  · rfl
  · simp only [packetBound_pair, andThen, ← h]
    rcases transfer Capture.Stream.next Pcap.Encoder.write (packetBound r.window s) r e (s, t₁) with
      ⟨_ | e', s', t'⟩
    · rfl
    · simp only [withoutSource, finishPcap, flushSink_pair, conclude]
      rcases flushSink t' with ⟨_ | _, t''⟩ <;> rfl

/-- A conversion to a packet file writes the same fields to every spool. -/
theorem exists_captureToPcap_eq [SeekableSource σ] (capacity : ℕ) (limit : UInt16) (s : σ) :
    ∃ fields result, Pcap.AreFields fields result ∧ ∀ t : Spool,
      withoutSource (captureToPcap capacity limit (s, t)) =
        writeThen fields (conclude result) t := by
  rcases hstart : Capture.Stream.start capacity limit s with ⟨failure | r, s₁⟩
  case error =>
    -- The trace is refused before anything is written.
    refine ⟨[], .error failure, .inl ⟨rfl, failure, rfl⟩, fun t => ?_⟩
    rw [captureToPcap, Capture.Stream.start_pair, hstart]
    rfl
  case ok =>
    obtain ⟨packets, failure, hpackets, htransfer⟩ :=
      exists_transfer_eq Capture.Stream.next_pair
        (fun e p s (t : Spool) => Pcap.Encoder.write_pair e p s t) (packetBound r.window s₁) r s₁
    have hlength : ∀ p ∈ packets, p.data.length < 2 ^ 32 := by
      intro p hp
      obtain ⟨r, s, hnext⟩ := hpackets p hp
      exact Nat.lt_trans (Capture.Stream.length_data_lt_of_next hnext) (by decide)
    obtain ⟨entries, written, hissues, hplain, -⟩ :=
      Pcap.Encoder.writesItems_write.putAll failure hlength [] { bytes := Pcap.Header.size } trivial
    have hwrites (t : Spool) : captureToPcap capacity limit (s, t) = writePcap r (s₁, t) := by
      rw [captureToPcap, Capture.Stream.start_pair, hstart]
    refine ⟨({} : Pcap.Header).fields ++ entries.flatMap Pcap.Entry.fields,
      written.map fun e => ⟨e.packets, e.bytes⟩, .inr ⟨entries, hplain, rfl⟩, fun t => ?_⟩
    rw [hwrites, withoutSource_writePcap htransfer, (Pcap.Encoder.issues_start {}).andThen_ok,
      writeThen_append]
    cases written with
    | error refusal => rw [hissues.andThen_error]; rfl
    | ok e => rw [hissues.andThen_ok]; rfl

/-! ## Replay traces -/

namespace Replay

/-- The fields of a replay trace, up to the end of some record, and the padding
    that ends it if all goes well. -/
def AreFields (fields : List Bytes) (result : Except Failure Tally) : Prop :=
  ∃ records : List Trace.Record, (∀ r ∈ records, r.IsPlain stored) ∧
    fields = records.flatMap Trace.Record.fields ++
      match result with
      | .ok _ => [filler (Trace.layout records).length]
      | .error _ => []

theorem isPlain_record {p : Packet} (h : Fits p) (gap : UInt32) :
    ((Pending.ofPacket p).record gap).IsPlain stored := by
  have hlt : gap.toNat < 2 ^ 32 := gap.toNat_lt
  have hframe := record_ofPacket h hlt
  rw [UInt32.ofNat_toNat] at hframe
  rw [hframe]
  exact isPlain_frame h hlt

namespace Encoder

/-- The encoder counts the bytes of these records, and holds back a packet that
    fits the hardware, if any. -/
structure HasWritten (records : List Trace.Record) (e : Encoder) : Prop where
  finished : e.finished = false
  bytes_eq : e.bytes = (Trace.layout records).length
  pending : ∀ pending, e.pending = some pending → ∃ p, Fits p ∧ pending = Pending.ofPacket p

theorem hasWritten_new : HasWritten [] {} := ⟨rfl, rfl, by rintro _ ⟨⟩⟩

theorem issues_writeRecord (e : Encoder) (p : Pending) (gap : UInt32) :
    Issues (fun t => cutOff none (e.writeRecord p gap t)) (p.record gap).fields
      (.ok { e with
        bytes := e.bytes + (p.record gap).layout.length
        packets := e.packets + 1 }) := by
  have hwrite : (fun t => cutOff none (e.writeRecord p gap t)) =
      andThen (writeFields (p.record gap).fields) fun written (t : Spool) =>
        (.ok { e with bytes := e.bytes + written, packets := e.packets + 1 }, t) := by
    funext t
    rw [writeRecord, andThen]
    rcases writeFields (p.record gap).fields t with ⟨_ | _, t'⟩ <;> rfl
  rw [hwrite, Issues, (Issues.writeFields _).andThen_ok, Trace.Record.flatten_fields]

/-- The record of a packet that is held back is one more. -/
theorem HasWritten.writeRecord {before : List Trace.Record} {e : Encoder}
    (h : HasWritten before e) (p : Pending) (gap : UInt32) :
    HasWritten (before ++ [p.record gap]) { e with
      bytes := e.bytes + (p.record gap).layout.length
      packets := e.packets + 1 } where
  finished := h.finished
  bytes_eq := by
    rw [Trace.layout_append, Trace.layout_cons, Trace.layout_nil, List.append_nil,
      List.length_append, ← h.bytes_eq]
  pending := h.pending

/-- Releasing the packet held back, if there is one, writes its record, unless
    its gap is refused. -/
theorem HasWritten.exists_issues_release {before : List Trace.Record} {e : Encoder}
    (h : HasWritten before e) (timestamp : ℕ) : ∃ records result,
      Issues (fun t => cutOff none (e.release timestamp t)) (records.flatMap Trace.Record.fields)
        result ∧
      (∀ r ∈ records, r.IsPlain stored) ∧
        ∀ e', result = .ok e' → HasWritten (before ++ records) e' := by
  cases hpending : e.pending with
  | none =>
    refine ⟨[], .ok e, ?_, by simp, ?_⟩
    · funext t
      rw [release_of_none hpending]
      rfl
    · rintro _ ⟨⟩
      rwa [List.append_nil]
  | some previous =>
    obtain ⟨p, hfits, rfl⟩ := h.pending previous hpending
    obtain ⟨cycles, q, hquantize⟩ : ∃ cycles q,
      e.quantizer.quantize (timestamp - (Pending.ofPacket p).timestamp) = (cycles, q) :=
      ⟨_, _, rfl⟩
    by_cases hearly : timestamp < (Pending.ofPacket p).timestamp
    · refine ⟨[], .error (.timeReversal p.timestamp timestamp), ?_, by simp, by rintro _ ⟨⟩⟩
      funext t
      rw [release_of_lt hpending hearly]
      rfl
    · cases hgap : gap cycles with
      | error failure =>
        simp only [release_of_gap_error hpending hearly hquantize hgap]
        exact ⟨[], .error failure, rfl, by simp, by rintro _ ⟨⟩⟩
      | ok wait =>
        -- The gap has passed through the quantizer, and nothing has been written.
        have hquantized : HasWritten before { e with quantizer := q } :=
          ⟨h.finished, h.bytes_eq, h.pending⟩
        have hissues := issues_writeRecord { e with quantizer := q } (Pending.ofPacket p) wait
        rw [← List.flatMap_singleton Trace.Record.fields] at hissues
        simp only [release_of_gap_ok hpending hearly hquantize hgap]
        refine ⟨_, _, hissues, List.forall_mem_singleton.2 (isPlain_record hfits wait), ?_⟩
        rintro _ ⟨⟩
        exact hquantized.writeRecord _ wait

/-- Adding a packet writes what releasing the one before it does. -/
theorem writesItems_push : WritesItems (push (σ := Spool)) Trace.Record.fields
    (Trace.Record.IsPlain stored) (fun _ => True) HasWritten := by
  intro before e p h _
  cases hcheck : e.check p with
  | error failure =>
    refine ⟨[], .error failure, ?_, by simp, by rintro _ ⟨⟩⟩
    funext t
    rw [push, hcheck]
    rfl
  | ok =>
    obtain ⟨records, result, hissues, hplain, hresult⟩ := h.exists_issues_release p.timestamp
    have hpush : (fun t : Spool => cutOff none (e.push p t)) =
        andThen (fun t => cutOff none (e.release p.timestamp t)) fun e t =>
          (.ok { e with pending := some (Pending.ofPacket p) }, t) := by
      funext t
      rw [push, hcheck, andThen]
      simp only
      rcases e.release p.timestamp t with ⟨_ | _, e₁, t₁⟩ <;> rfl
    cases result with
    | error failure =>
      rw [hpush]
      exact ⟨records, .error failure, hissues.andThen_error _, hplain, by rintro _ ⟨⟩⟩
    | ok e₁ =>
      obtain ⟨hfinished, hbytes, -⟩ := hresult e₁ rfl
      refine ⟨records, .ok { e₁ with pending := some (Pending.ofPacket p) }, ?_, hplain, ?_⟩
      · rw [hpush, Issues, hissues.andThen_ok]
      · rintro _ ⟨⟩
        refine ⟨hfinished, hbytes, ?_⟩
        rintro _ ⟨⟩
        exact ⟨p, (fits_of_check hcheck).2, rfl⟩

theorem fill_eq (e : Encoder) : (fun t : Spool => cutOff none (e.fill t)) =
    writeThen [filler e.bytes]
      (conclude (.ok { e with bytes := e.bytes + (filler e.bytes).length })) := by
  have hfill : (fun t : Spool => cutOff none (e.fill t)) =
      andThen (writeFields [filler e.bytes]) fun written =>
        conclude (.ok { e with bytes := e.bytes + written }) := by
    funext t
    rw [fill, andThen]
    rcases writeFields [filler e.bytes] t with ⟨_ | written, t₁⟩
    · rfl
    · simp only [conclude]
      rcases flushSink t₁ with ⟨_ | _, t₂⟩ <;> rfl
  rw [hfill, (Issues.writeFields _).andThen_ok, List.flatten_cons, List.flatten_nil,
    List.append_nil]

/-- The packet held back, if there is one, is written as one more record. -/
theorem HasWritten.exists_issues_releaseLast {before : List Trace.Record} {e : Encoder}
    (h : HasWritten before e) : ∃ records e', (∀ r ∈ records, r.IsPlain stored) ∧
      Issues (fun t => cutOff none ({ e with finished := true }.releaseLast t))
        (records.flatMap Trace.Record.fields) (.ok e') ∧
      e'.bytes = (Trace.layout (before ++ records)).length := by
  cases hpending : e.pending with
  | none =>
    refine ⟨[], { e with finished := true }, by simp, ?_, ?_⟩
    · funext t
      rw [releaseLast, hpending]
      rfl
    · rw [List.append_nil]
      exact h.bytes_eq
  | some last =>
    obtain ⟨p, hfits, rfl⟩ := h.pending last hpending
    have hissues := issues_writeRecord { e with finished := true, pending := none }
      (Pending.ofPacket p) 0
    rw [← List.flatMap_singleton Trace.Record.fields] at hissues
    simp only [releaseLast]
    exact ⟨_, _, List.forall_mem_singleton.2 (isPlain_record hfits 0), hissues,
      (h.writeRecord (Pending.ofPacket p) 0).bytes_eq⟩

/-- Finishing the trace writes the record of the packet held back, if there is
    one, and the padding. -/
theorem HasWritten.exists_finish_eq {before : List Trace.Record} {e : Encoder}
    (h : HasWritten before e) : ∃ records e', (∀ r ∈ records, r.IsPlain stored) ∧
      (fun t : Spool => cutOff none (e.finish t)) =
        writeThen (records.flatMap Trace.Record.fields ++
          [filler (Trace.layout (before ++ records)).length]) (conclude (.ok e')) := by
  obtain ⟨records, e₁, hplain, hissues, hbytes⟩ := h.exists_issues_releaseLast
  have hfinish : (fun t : Spool => cutOff none (e.finish t)) =
      andThen (fun t => cutOff none ({ e with finished := true }.releaseLast t)) fun e t =>
        cutOff none (e.fill t) := by
    funext t
    rw [finish, h.finished, andThen]
    simp only [Bool.false_eq_true, if_false]
    rcases releaseLast { e with finished := true } t with ⟨_ | _, e₁, t₁⟩ <;> rfl
  rw [hfinish, hissues.andThen_ok, fill_eq, ← writeThen_append, hbytes]
  exact ⟨records, _, hplain, rfl⟩

end Encoder

end Replay

theorem withoutSource_writeReplay [ByteSource σ] [ByteSink τ] {r : Pcap.Stream} {s : σ}
    {packets : List Packet} {failure : Option Failure}
    (h : ∀ encoder (t : τ), withoutSource (transfer Pcap.Stream.next Replay.Encoder.push
      (packetBound r.window s) r encoder (s, t)) =
        cutOff failure (putAll Replay.Encoder.push packets encoder t)) (t : τ) :
    withoutSource (writeReplay r (s, t)) =
      andThen (fun t => cutOff failure (putAll Replay.Encoder.push packets {} t))
        (fun e => andThen (fun t => cutOff none (e.finish t))
          fun e t => (.ok ⟨e.packets, e.bytes⟩, t)) t := by
  rw [writeReplay, andThen, ← h]
  simp only [packetBound_pair]
  rcases transfer Pcap.Stream.next Replay.Encoder.push (packetBound r.window s) r {} (s, t) with
    ⟨_ | e, s', t'⟩
  · rfl
  · simp only [withoutSource, Replay.Encoder.finish_pair, andThen]
    rcases e.finish t' with ⟨_ | _, e', t''⟩ <;> rfl

/-- A conversion to a replay trace writes the same fields to every spool. -/
theorem exists_pcapToReplay_eq [ByteSource σ] (capacity : ℕ) (s : σ) :
    ∃ fields result, Replay.AreFields fields result ∧ ∀ t : Spool,
      withoutSource (pcapToReplay capacity (s, t)) = writeThen fields (conclude result) t := by
  rcases hstart : Pcap.Stream.start capacity s with ⟨failure | r, s₁⟩
  case error =>
    refine ⟨[], .error failure, ⟨[], by simp, rfl⟩, fun t => ?_⟩
    rw [pcapToReplay, Pcap.Stream.start_pair, hstart]
    rfl
  case ok =>
    obtain ⟨packets, failure, -, htransfer⟩ :=
      exists_transfer_eq Pcap.Stream.next_pair
        (fun e p s (t : Spool) => Replay.Encoder.push_pair e p s t) (packetBound r.window s₁) r s₁
    obtain ⟨records, written, hissues, hplain, hwritten⟩ :=
      Replay.Encoder.writesItems_push.putAll failure (fun _ _ => trivial) [] {}
        Replay.Encoder.hasWritten_new
    have hwrites (t : Spool) : pcapToReplay capacity (s, t) = writeReplay r (s₁, t) := by
      rw [pcapToReplay, Pcap.Stream.start_pair, hstart]
    cases written with
    | error refusal =>
      -- The trace is not finished, so there is no padding.
      refine ⟨records.flatMap Trace.Record.fields, .error refusal, ⟨records, hplain, ?_⟩,
        fun t => ?_⟩
      · exact (List.append_nil _).symm
      · rw [hwrites, withoutSource_writeReplay htransfer, hissues.andThen_error]
        rfl
    | ok e =>
      obtain ⟨last, e', hlast, hfinish⟩ := (hwritten e rfl).exists_finish_eq
      refine ⟨(records ++ last).flatMap Trace.Record.fields ++
        [Replay.filler (Trace.layout (records ++ last)).length], .ok ⟨e'.packets, e'.bytes⟩,
        ⟨records ++ last, List.forall_mem_append.2 ⟨hplain, hlast⟩, rfl⟩, fun t => ?_⟩
      rw [hwrites, withoutSource_writeReplay htransfer, hissues.andThen_ok, hfinish,
        andThen_writeThen, andThen_conclude, ← writeThen_append, ← List.append_assoc,
        ← List.flatMap_append, List.nil_append]

/-! ## What is left -/

/-- What an operation on a source and a spool comes to, and what is then on the
    spool. -/
def outcome (x : α × σ × Spool) : α × Bytes := (x.1, x.2.2.toBytes)

/-- If there is room for everything, an operation writes these fields and comes
    to this result, unless that is a success and the flush fails. If there is
    not, it fails at the first field that does not fit. What is left is as much
    as there is room for, where a write may be short, and the fields before this
    one, where a write is refused that cannot be taken whole. -/
structure LeavesPrefix (operation : Spool → Except Failure α × Bytes) (fields : List Bytes)
    (result : Except Failure α) : Prop where
  unlimited : operation {} = (result, fields.flatten)
  enough : ∀ limit refuses failsFlush, (∀ n ∈ limit, fields.flatten.length ≤ n) →
    operation { limit, refuses, failsFlush } =
      (if failsFlush then Spool.unflushed result else result, fields.flatten)
  cut : ∀ n refuses failsFlush, n < fields.flatten.length →
    ∃ before cut after, fields = before ++ cut :: after ∧ before.flatten.length ≤ n ∧
      n < before.flatten.length + cut.length ∧
      operation { limit := some n, refuses, failsFlush } =
        if refuses then (.error (.device Spool.writeFailure), before.flatten)
        else
          (.error (.encoding (.short (before.flatten.length + cut.length - n))),
            fields.flatten.take n)

theorem leavesPrefix_of_eq {operation : Spool → Except Failure α × σ × Spool}
    {fields : List Bytes} {result : Except Failure α}
    (h : ∀ t, withoutSource (operation t) = writeThen fields (conclude result) t) :
    LeavesPrefix (fun t => outcome (operation t)) fields result := by
  have hempty (limit : Option ℕ) (refuses failsFlush : Bool) :
      ({ limit, refuses, failsFlush } : Spool).toBytes = [] := rfl
  have houtcome (t : Spool) : outcome (operation t) =
      ((writeThen fields (conclude result) t).1,
        (writeThen fields (conclude result) t).2.toBytes) := by
    rw [← h]
    rfl
  have henough (limit : Option ℕ) (refuses failsFlush : Bool)
      (hroom : ∀ n ∈ limit, fields.flatten.length ≤ n) :
      outcome (operation { limit, refuses, failsFlush }) =
        (if failsFlush then Spool.unflushed result else result, fields.flatten) := by
    rw [houtcome, Spool.writeThen_of_le (by simpa using hroom), Spool.conclude_eq]
    simp only [Spool.toBytes_append, hempty, List.nil_append]
    rfl
  constructor
  · exact henough none false false (by rintro _ ⟨⟩)
  · exact henough
  · intro n refuses failsFlush hcut
    obtain ⟨before, cut, after, rfl, hbefore, hroom⟩ := exists_cut hcut
    have hsize : ({ limit := some n, refuses, failsFlush } : Spool).content.size = 0 := rfl
    have htake : (before ++ cut :: after).flatten.take n = (before.flatten ++ cut).take n := by
      rw [List.flatten_append, List.flatten_cons, ← List.append_assoc,
        List.take_append_of_le_length]
      rw [List.length_append]
      exact Nat.le_of_lt hroom
    have hwrite : writeThen (before ++ cut :: after) (conclude result)
        ({ limit := some n, refuses, failsFlush } : Spool) = _ :=
      Spool.writeThen_of_cut rfl (by rwa [hsize, Nat.zero_add]) (by rwa [hsize, Nat.zero_add]) _
    refine ⟨before, cut, after, rfl, hbefore, hroom, ?_⟩
    rw [houtcome, hwrite, htake]
    cases refuses <;> simp [hsize, hempty]

/-- The output of a conversion is a prefix of what it writes to a sink that takes
    everything. This holds of every source, also of one that fails. -/
theorem leavesPrefix :
    (∀ {σ : Type} [SeekableSource σ] (capacity : ℕ) (limit : UInt16) (s : σ),
      ∃ fields result, Pcap.AreFields fields result ∧
        LeavesPrefix (fun t => outcome (captureToPcap capacity limit (s, t))) fields result) ∧
    ∀ {σ : Type} [ByteSource σ] (capacity : ℕ) (s : σ),
      ∃ fields result, Replay.AreFields fields result ∧
        LeavesPrefix (fun t => outcome (pcapToReplay capacity (s, t))) fields result := by
  constructor
  · intro σ _ capacity limit s
    obtain ⟨fields, result, hfields, heq⟩ := exists_captureToPcap_eq capacity limit s
    exact ⟨fields, result, hfields, leavesPrefix_of_eq heq⟩
  · intro σ _ capacity s
    obtain ⟨fields, result, hfields, heq⟩ := exists_pcapToReplay_eq capacity s
    exact ⟨fields, result, hfields, leavesPrefix_of_eq heq⟩

/-- A packet file is cut in the second field of its first entry. -/
example :
    outcome (captureToPcap 16 1500
      (({ content := [0, 0, 0, 0, 0, 0, 64, 0, 7, 8, 0, 0, 0, 0, 0, 0] ++ List.replicate 48 255 } :
        Tape), ({ limit := some 30 } : Spool))) =
      (.error (.encoding (.short 2)), ({} : Pcap.Header).fields.flatten ++ List.replicate 6 0) := by
  decide +kernel

end PacketTrace
