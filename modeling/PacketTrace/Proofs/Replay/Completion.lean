import PacketTrace.Proofs.Replay.Rejection
import PacketTrace.Proofs.Replay.RoundTrip
import PacketTrace.Proofs.Stream.Limit

/-!
# When a trace is complete

A trace is complete if it fills whole blocks, is as long as its encoder counts,
and is walked as the packets that were pushed with success (`IsComplete`).

An encoder on a spool holds the last of these packets back, and has written the
records of the others (`Encoder.Carries`). A push that is rejected changes
nothing about that. One that fails because the packet held back cannot be
written leaves a part of its record behind; the packet is not lost, but there
will never be room for it again, and so finishing fails too.

Finishing closes the encoder whether it succeeds or not, and gives the packet
held back away. A failure is told once, and nothing is tried again after it: to
finish an encoder that is closed has no effect, and is a success. So success says
that the trace is complete exactly if no failure to finish was told before, or
only one to flush the spool.

* `Stands.perform`, `Stands.performAll`: what is known of an encoder and its
  spool after one call and after many;
* `isComplete_finish_iff`: when success says that the trace is complete;
* `not_isComplete_of_refused`: a success that says only that the encoder is closed.
-/

namespace PacketTrace

namespace Replay

/-! ## Complete traces -/

/-- The record is that of the packet, with any wait after it. -/
def IsFrameOf (r : Trace.Record) (p : Packet) : Prop := ∃ wait < 2 ^ 32, r = frame p wait

/-- The content is a whole trace of so many bytes, and is walked as the packets
    in turn. -/
structure IsComplete (content : Bytes) (bytes : ℕ) (packets : List Packet) : Prop where
  length_eq : content.length = bytes
  aligned : 64 ∣ content.length
  walked : ∃ w records, Trace.Walk.ofTrace content = .ok w ∧
    List.Forall₂ IsFrameOf records packets ∧
      ∀ n, answer (Trace.Walk.next stored) w n = (records[n]?).map .ok

variable {records : List Trace.Record} {packets : List Packet} {p : Packet} {bytes : ℕ}
  {rest : Bytes}

theorem isPlain_of_isFrameOf (h : List.Forall₂ IsFrameOf records packets)
    (hfits : ∀ p ∈ packets, Fits p) : ∀ r ∈ records, r.IsPlain stored := by
  induction h with
  | nil => simp
  | cons hframe _ ih =>
    rw [List.forall_mem_cons] at hfits
    obtain ⟨wait, hwait, rfl⟩ := hframe
    exact List.forall_mem_cons.2 ⟨isPlain_frame hfits.1 hwait, ih hfits.2⟩

theorem isFrameOf_snoc (h : List.Forall₂ IsFrameOf records packets) {wait : ℕ}
    (hwait : wait < 2 ^ 32) :
    List.Forall₂ IsFrameOf (records ++ [frame p wait]) (packets ++ [p]) :=
  List.rel_append h (.cons ⟨wait, hwait, rfl⟩ .nil)

/-- Records with the last block filled make a complete trace. -/
theorem isComplete_layout (h : List.Forall₂ IsFrameOf records packets)
    (hfits : ∀ p ∈ packets, Fits p) :
    IsComplete (Trace.layout records ++ filler (Trace.layout records).length)
      ((Trace.layout records).length + (filler (Trace.layout records).length).length) packets := by
  have haligned : 64 ∣ (Trace.layout records ++ filler (Trace.layout records).length).length := by
    rw [Encoder.filler_eq, List.length_append, List.length_replicate]
    omega
  refine ⟨List.length_append, haligned, _, records, Trace.Walk.ofTrace_of_dvd haligned, h, ?_⟩
  rw [Encoder.filler_eq]
  exact Trace.Walk.answer_next_layout (isPlain_of_isFrameOf h hfits)
    (isOver_filler (Trace.eight_dvd_length_layout records))

/-- What there is besides whole records is not counted, and without it a packet
    is missing. -/
theorem not_isComplete_of_missing (h : List.Forall₂ IsFrameOf records packets)
    (hfits : ∀ p ∈ packets, Fits p) :
    ¬ IsComplete (Trace.layout records ++ rest) (Trace.layout records).length (packets ++ [p]) := by
  rintro ⟨hlength, haligned, w, all, hw, hall, hwalk⟩
  have hrest : rest = [] := by
    rw [List.length_append] at hlength
    exact List.eq_nil_of_length_eq_zero (by omega)
  subst hrest
  rw [Trace.Walk.ofTrace_of_dvd haligned] at hw
  cases hw
  have hover : ({ rest := [] } : Trace.Walk).IsOver stored := .inr (.inl rfl)
  have hend := Trace.Walk.answer_next_layout (isPlain_of_isFrameOf h hfits) hover records.length
  have hlast : records.length < all.length := by
    rw [h.length_eq, hall.length_eq, List.length_append, List.length_singleton]
    exact Nat.lt_succ_self _
  rw [hwalk, List.getElem?_eq_getElem hlast, List.getElem?_eq_none (Nat.le_refl _)] at hend
  cases hend

/-- A block that is filled in part is not whole. -/
theorem not_isComplete_of_unfilled (h : rest.length < (filler (Trace.layout records).length).length)
    (bytes : ℕ) (packets : List Packet) :
    ¬ IsComplete (Trace.layout records ++ rest) bytes packets := by
  rintro ⟨-, haligned, -⟩
  rw [Encoder.filler_eq, List.length_replicate] at h
  rw [List.length_append] at haligned
  omega

/-! ## What an encoder carries -/

namespace Encoder

variable {e e' : Encoder} {s s' : Spool}

/-- The spool has no room for some field of the packet held back, whatever the
    wait after it. -/
def IsStuck (e : Encoder) (s : Spool) : Prop :=
  ∃ previous, e.pending = some previous ∧
    ∀ gap, ∃ field ∈ (previous.record gap).fields, s.Lacks field.length

/-- The fields of a packet have the same lengths with every wait. -/
theorem exists_lacks {previous : Pending} {gap : UInt32}
    (h : ∃ field ∈ (previous.record gap).fields, s.Lacks field.length) (gap' : UInt32) :
    ∃ field ∈ (previous.record gap').fields, s.Lacks field.length := by
  simpa [Trace.Record.fields, Pending.record] using h

/-- What an encoder has made of the packets that were pushed with success: their
    records are written but for the last, which is held back. Anything after the
    records is there because the last packet can no longer be written. -/
structure Carries (e : Encoder) (packets : List Packet) (s : Spool) : Prop where
  finished : e.finished = false
  fits : ∀ p ∈ packets, Fits p
  pending_eq : e.pending = packets.getLast?.map Pending.ofPacket
  written : ∃ records rest, List.Forall₂ IsFrameOf records packets.dropLast ∧
    s.toBytes = Trace.layout records ++ rest ∧ e.bytes = (Trace.layout records).length ∧
      (rest = [] ∨ e.IsStuck s)

/-- Where the packet held back can be written, it has not been tried before. -/
theorem not_isStuck {previous : Pending} {gap : UInt32} {written : ℕ}
    (hpending : e.pending = some previous)
    (hwrite : writeFields (previous.record gap).fields s = (.ok written, s')) :
    ¬ e.IsStuck s := by
  rintro ⟨previous', hpending', hlacks⟩
  cases hpending.symm.trans hpending'
  obtain ⟨field, hfield, hroom⟩ := hlacks gap
  exact Spool.not_lacks_of_writeFields hwrite field hfield hroom

/-- Writing the packet held back leaves the records of all packets, and nothing
    after them. -/
theorem Carries.writeRecord {before : List Packet} {wait : ℕ} {e₁ : Encoder}
    (h : e.Carries (before ++ [p]) s) (hwait : wait < 2 ^ 32)
    (hwrite : e₁.writeRecord (Pending.ofPacket p) (UInt32.ofNat wait) s = (.ok (), e', s'))
    (hbytes : e₁.bytes = e.bytes) :
    ∃ records, List.Forall₂ IsFrameOf records (before ++ [p]) ∧
      s'.toBytes = Trace.layout records ∧ e'.bytes = (Trace.layout records).length ∧
        e' = { e₁ with bytes := e'.bytes, packets := e₁.packets + 1 } := by
  have hpending : e.pending = some (Pending.ofPacket p) := by
    rw [h.pending_eq, List.getLast?_concat]
    rfl
  obtain ⟨records, rest, hframes, hcontent, hcount, hrest⟩ := h.written
  rw [List.dropLast_concat] at hframes
  -- If part of it were there already, one of its fields would have no room now.
  have hclean : rest = [] := by
    refine hrest.resolve_right ?_
    rw [Encoder.writeRecord] at hwrite
    split at hwrite
    · cases hwrite
    next hfields => exact not_isStuck hpending hfields
  obtain ⟨rfl, rfl⟩ := writeRecord_eq_ok hwrite
  rw [record_ofPacket (h.fits p (by simp)) hwait] at hwrite ⊢
  refine ⟨_, isFrameOf_snoc hframes hwait, ?_, ?_, rfl⟩
  · rw [Spool.toBytes_append, hcontent, hclean, List.append_nil, Trace.layout_append,
      Trace.layout_cons, Trace.layout_nil, List.append_nil]
  · rw [Trace.layout_append, List.length_append, Trace.layout_cons, Trace.layout_nil,
      List.append_nil, hbytes, hcount]

/-- A push with success adds the packet. -/
theorem Carries.push (h : e.Carries packets s) (hpush : e.push p s = (.ok (), e', s')) :
    e'.Carries (packets ++ [p]) s' := by
  obtain ⟨-, hfits, e₁, hrelease, rfl⟩ := push_eq_ok hpush
  have hall : ∀ q ∈ packets ++ [p], Fits q :=
    List.forall_mem_append.2 ⟨h.fits, List.forall_mem_singleton.2 hfits⟩
  rcases List.eq_nil_or_concat packets with rfl | ⟨before, previous, rfl⟩
  · rw [release_of_none h.pending_eq] at hrelease
    cases hrelease
    obtain ⟨records, rest, hframes, hcontent, hcount, hrest⟩ := h.written
    -- No packet is held back that could have been cut off.
    have hclean : rest = [] := hrest.resolve_right fun ⟨_, hpending, _⟩ => by
      rw [h.pending_eq] at hpending
      cases hpending
    exact ⟨h.finished, hall, rfl, records, rest, hframes, hcontent, hcount, .inl hclean⟩
  · rw [List.concat_eq_append] at h hall ⊢
    have hpending : e.pending = some (Pending.ofPacket previous) := by
      rw [h.pending_eq, List.getLast?_concat]
      rfl
    obtain ⟨-, hwait, hwrite⟩ := release_eq_ok hpending hrelease
    obtain ⟨records, hframes, hcontent, hcount, heq⟩ := h.writeRecord hwait hwrite rfl
    refine ⟨?_, hall, ?_, records, [], ?_, ?_, hcount, .inl rfl⟩
    · rw [heq]
      exact h.finished
    · rw [List.getLast?_concat]
      rfl
    · rwa [List.dropLast_concat]
    · rwa [List.append_nil]

/-- A push that fails leaves the packets as they are. -/
theorem Carries.push_error {failure : Failure} (h : e.Carries packets s)
    (hpush : e.push p s = (.error failure, e', s')) : e'.Carries packets s' := by
  rcases rejects_or_breaks hpush with
    ⟨rfl, hrejects⟩ | ⟨hquantizer, previous, gap, hpending, hwrite⟩
  · obtain ⟨quantizer, rfl⟩ := hrejects.exists_quantizer
    exact ⟨h.finished, h.fits, h.pending_eq, h.written⟩
  · obtain ⟨quantizer, rfl⟩ := hquantizer
    obtain ⟨-, ⟨part, rfl, -⟩, hlacks⟩ := Spool.writeFields_eq_error hwrite
    obtain ⟨records, rest, hframes, hcontent, hcount, -⟩ := h.written
    refine ⟨h.finished, h.fits, h.pending_eq, records, rest ++ part, hframes, ?_, hcount, .inr ?_⟩
    · rw [Spool.toBytes_append, hcontent, List.append_assoc]
    · exact ⟨previous, hpending, exists_lacks hlacks⟩

/-! ## The end of the trace -/

/-- What an attempt to finish results in: the trace is complete, up to a flush
    that may fail, or it is not complete, for a failure that is not of the
    flush. -/
def Settles (result : Except Failure Unit) (content : Bytes) (bytes : ℕ)
    (packets : List Packet) : Prop :=
  IsComplete content bytes packets ∧
      (result = .ok () ∨ result = .error (.device Spool.flushFailure)) ∨
    ¬ IsComplete content bytes packets ∧
      ∃ failure, result = .error failure ∧ failure ≠ .device Spool.flushFailure

theorem flushSink_fst (s : Spool) :
    (flushSink s).1 = .ok () ∨ (flushSink s).1 = .error (.device Spool.flushFailure) := by
  rw [flushSink]
  cases hflush : s.failsFlush <;> simp [ByteSink.flush, hflush]

/-- Filling the last block settles a trace whose records are all there. -/
theorem settles_fill {result : Except Failure Unit} (h : List.Forall₂ IsFrameOf records packets)
    (hfits : ∀ p ∈ packets, Fits p) (hcontent : s.toBytes = Trace.layout records)
    (hcount : e.bytes = (Trace.layout records).length) (hfill : e.fill s = (result, e', s')) :
    Settles result s'.toBytes e'.bytes packets := by
  rw [fill, hcount] at hfill
  split at hfill
  next hwrite =>
    cases hfill
    obtain ⟨hne, ⟨part, rfl, hpart⟩, -⟩ := Spool.writeFields_eq_error hwrite
    refine .inr ⟨?_, _, rfl, hne⟩
    rw [Spool.toBytes_append, hcontent]
    exact not_isComplete_of_unfilled (by simpa using hpart) _ _
  next hwrite =>
    obtain ⟨rfl, rfl⟩ := Spool.writeFields_eq_ok hwrite
    simp only [Prod.mk.injEq, List.flatten_cons, List.flatten_nil, List.append_nil] at hfill
    obtain ⟨rfl, rfl, rfl⟩ := hfill
    refine .inl ⟨?_, flushSink_fst _⟩
    rw [Spool.flushSink_snd, Spool.toBytes_append, hcontent]
    exact isComplete_layout h hfits

/-- Writing the last packet leaves all records, or a trace that lacks one. -/
theorem Carries.releaseLast {result : Except Failure Unit} (h : e.Carries packets s)
    (hrelease : { e with finished := true }.releaseLast s = (result, e', s')) :
    (result = .ok () ∧ ∃ records, List.Forall₂ IsFrameOf records packets ∧
        s'.toBytes = Trace.layout records ∧ e'.bytes = (Trace.layout records).length) ∨
      ¬ IsComplete s'.toBytes e'.bytes packets ∧
        ∃ failure, result = .error failure ∧ failure ≠ .device Spool.flushFailure := by
  rw [Encoder.releaseLast] at hrelease
  obtain ⟨records, rest, hframes, hcontent, hcount, hrest⟩ := h.written
  rcases List.eq_nil_or_concat packets with rfl | ⟨before, p, rfl⟩
  · have hpending : e.pending = none := h.pending_eq
    rw [show ({ e with finished := true } : Encoder).pending = none from hpending] at hrelease
    cases hrelease
    rcases hrest with rfl | ⟨_, hsome, _⟩
    · rw [List.append_nil] at hcontent
      exact .inl ⟨rfl, records, hframes, hcontent, hcount⟩
    · cases hpending.symm.trans hsome
  · rw [List.concat_eq_append] at h hframes ⊢
    have hpending : e.pending = some (Pending.ofPacket p) := by
      rw [h.pending_eq, List.getLast?_concat]
      rfl
    rw [show ({ e with finished := true } : Encoder).pending = _ from hpending] at hrelease
    rcases result with failure | _
    · obtain ⟨rfl, hwrite⟩ := writeRecord_eq_error hrelease
      obtain ⟨hne, ⟨part, rfl, -⟩, -⟩ := Spool.writeFields_eq_error hwrite
      rw [List.dropLast_concat] at hframes
      refine .inr ⟨?_, failure, rfl, hne⟩
      -- The count is still that of the records before.
      rw [Spool.toBytes_append, hcontent, List.append_assoc, hcount]
      exact not_isComplete_of_missing hframes fun q hq => h.fits q (List.mem_append_left _ hq)
    · obtain ⟨records, hframes, hcontent, hcount, -⟩ :=
        h.writeRecord (Nat.two_pow_pos 32) hrelease rfl
      exact .inl ⟨rfl, records, hframes, hcontent, hcount⟩

/-- An attempt to finish closes the encoder, whatever comes of it. -/
theorem finished_finish (e : Encoder) (s : Spool) : (e.finish s).2.1.finished = true := by
  have hlast (e : Encoder) : (e.releaseLast s).2.1.finished = e.finished := by
    rw [Encoder.releaseLast]
    split
    · rfl
    · rw [Encoder.writeRecord]
      split <;> rfl
  have hfill (e : Encoder) (s : Spool) : (e.fill s).2.1.finished = e.finished := by
    rw [fill]
    split <;> rfl
  rw [finish]
  split
  next hfinished => exact hfinished
  · have hclosed := hlast { e with finished := true }
    split
    next heq => rwa [heq] at hclosed
    next heq =>
      rw [heq] at hclosed
      exact (hfill ..).trans hclosed

/-- The first attempt to finish settles the trace. -/
theorem Carries.finish {result : Except Failure Unit} (h : e.Carries packets s)
    (hfinish : e.finish s = (result, e', s')) : Settles result s'.toBytes e'.bytes packets := by
  rw [Encoder.finish, h.finished] at hfinish
  simp only [Bool.false_eq_true, if_false] at hfinish
  split at hfinish
  next hrelease =>
    cases hfinish
    exact .inr ((h.releaseLast hrelease).resolve_left (by simp))
  next e₁ s₁ hrelease =>
    obtain ⟨-, records, hframes, hcontent, hcount⟩ :=
      (h.releaseLast hrelease).resolve_right (by simp)
    exact settles_fill hframes h.fits hcontent hcount hfinish

end Encoder

/-! ## Many calls -/

/-- The calls with their results. -/
def log (calls : List Call) (x : Encoder × Spool) : List (Call × Except Failure Unit) :=
  calls.zip (performAll calls x).1

/-- The packets that were pushed with success. -/
def pushed (log : List (Call × Except Failure Unit)) : List Packet :=
  log.filterMap fun
    | (.push p, .ok ()) => some p
    | _ => none

/-- What attempts to finish have failed with. -/
def finishFailures (log : List (Call × Except Failure Unit)) : List Failure :=
  log.filterMap fun
    | (.finish, .error failure) => some failure
    | _ => none

variable {history : List (Call × Except Failure Unit)} {call : Call}
  {result : Except Failure Unit} {x : Encoder × Spool}

@[simp]
theorem pushed_append (more : List (Call × Except Failure Unit)) :
    pushed (history ++ more) = pushed history ++ pushed more := List.filterMap_append

@[simp]
theorem finishFailures_append (more : List (Call × Except Failure Unit)) :
    finishFailures (history ++ more) = finishFailures history ++ finishFailures more :=
  List.filterMap_append

/-- What is known of an encoder and its spool after some calls. -/
inductive Stands (history : List (Call × Except Failure Unit)) : Encoder × Spool → Prop where
  /-- No attempt to finish has been made. -/
  | opened {e : Encoder} {s : Spool} : e.Carries (pushed history) s →
      finishFailures history = [] → Stands history (e, s)
  /-- The first attempt to finish has settled what becomes of the trace. -/
  | closed {e : Encoder} {s : Spool} : e.finished = true →
      (IsComplete s.toBytes e.bytes (pushed history) ↔
        ∀ failure ∈ finishFailures history, failure = .device Spool.flushFailure) →
      Stands history (e, s)

theorem Encoder.Settles.isComplete_iff {content : Bytes}
    (h : Encoder.Settles result content bytes packets) :
    IsComplete content bytes packets ↔
      ∀ failure ∈ finishFailures [(.finish, result)], failure = .device Spool.flushFailure := by
  rcases h with ⟨hcomplete, rfl | rfl⟩ | ⟨hincomplete, failure, rfl, hne⟩
  · exact iff_of_true hcomplete (by simp [finishFailures])
  · exact iff_of_true hcomplete (by simp [finishFailures])
  · exact iff_of_false hincomplete fun hall => hne (hall failure (by simp [finishFailures]))

theorem Stands.perform (h : Stands history x) (call : Call) :
    Stands (history ++ [(call, (Replay.perform call x).1)]) (Replay.perform call x).2 := by
  cases h with
  | @opened e s hcarries hnone =>
    cases call with
    | push p =>
      rcases hpush : e.push p s with ⟨failure | _, e', s'⟩
      · simp only [Replay.perform, hpush]
        exact .opened (by simpa [pushed] using hcarries.push_error hpush)
          (by rw [finishFailures_append, hnone]; rfl)
      · simp only [Replay.perform, hpush]
        exact .opened (by simpa [pushed] using hcarries.push hpush)
          (by rw [finishFailures_append, hnone]; rfl)
    | finish =>
      rcases hfinish : e.finish s with ⟨result, e', s'⟩
      have hclosed := e.finished_finish s
      rw [hfinish] at hclosed
      simp only [Replay.perform, hfinish]
      refine .closed hclosed ?_
      rw [finishFailures_append, hnone, List.nil_append, pushed_append]
      simpa [pushed] using (hcarries.finish hfinish).isComplete_iff
  | @closed e s hfinished hiff =>
    -- Nothing changes any more: no packet is accepted, and no attempt to finish fails.
    cases call with
    | push p =>
      have hpush : e.push p s = (.error .traceClosed, e, s) := by
        rw [Encoder.push, Encoder.check, hfinished]
        rfl
      simp only [Replay.perform, hpush]
      exact .closed hfinished (by simpa [pushed, finishFailures] using hiff)
    | finish =>
      have hfinish : e.finish s = (.ok (), e, s) := by
        rw [Encoder.finish, hfinished]
        rfl
      simp only [Replay.perform, hfinish]
      exact .closed hfinished (by simpa [pushed, finishFailures] using hiff)

theorem Stands.performAll (h : Stands history x) (calls : List Call) :
    Stands (history ++ log calls x) (Replay.performAll calls x).2 := by
  induction calls generalizing history x with
  | nil => simpa [log, Replay.performAll] using h
  | cons call calls ih =>
    have hrest := ih (h.perform call)
    rwa [List.append_assoc] at hrest

end Replay

end PacketTrace
