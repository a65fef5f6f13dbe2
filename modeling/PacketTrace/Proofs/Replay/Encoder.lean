import Mathlib.Data.List.Chain
import PacketTrace.Proofs.Clock.Quantizer
import PacketTrace.Proofs.Stream.Spool
import PacketTrace.Proofs.Trace.Layout
import PacketTrace.Replay.Encoder

/-!
# What an encoder has written

An encoder that has accepted some packets has written the frames of all but the
last of them, each with the wait until the packet after it, and holds the last
one back (`Encoder.Accepted`). The waits are what a new quantizer makes of the
times between the packets (`waits`).

* `frame`: the record of a packet, as the format has it;
* `Encoder.Accepted.push`: what accepting one more packet does;
* `Encoder.accepted_of_putAll`: hence what accepting any number of them does,
  on a spool of any size;
* `Encoder.Accepted.finish`: what finishing the trace adds (`trace`).
-/

namespace PacketTrace

namespace Replay

/-! ## Frames -/

/-- The record of a packet that is followed by another after `wait` cycles: in
    its tag the wait in the low 32 bits, then 16 bits of the captured length
    and 16 of the length on the wire; in its data as many bytes as were on the
    wire, zeros for those that were not captured. The captured length is the
    number of bytes only if there are fewer than `2 ^ 32`, since it is a word of
    32 bits; what is data and what is zeros goes by the number itself. -/
def frame (p : Packet) (wait : ℕ) : Trace.Record where
  tag := UInt64.ofNat (wait + p.capturedLength.toNat * 2 ^ 32 + p.wireLength.toNat * 2 ^ 48)
  data := p.data.take p.wireLength.toNat ++
    List.replicate (p.wireLength.toNat - p.data.length) 0

/-- The hardware can store the packet. -/
structure Fits (p : Packet) : Prop where
  captured : p.capturedLength.toNat ≤ packetLimit
  wireLength : p.wireLength.toNat ≤ packetLimit

variable {p : Packet} {wait : ℕ}

theorem length_data_frame (p : Packet) (wait : ℕ) :
    (frame p wait).data.length = p.wireLength.toNat := by
  simp only [frame, List.length_append, List.length_take, List.length_replicate]
  omega

theorem toNat_tag_frame (h : Fits p) (hwait : wait < 2 ^ 32) :
    (frame p wait).tag.toNat =
      wait + p.capturedLength.toNat * 2 ^ 32 + p.wireLength.toNat * 2 ^ 48 := by
  have hcaptured := h.captured
  have hwire := h.wireLength
  rw [packetLimit] at hcaptured hwire
  rw [frame, UInt64.toNat_ofNat', Nat.mod_eq_of_lt (by omega)]

theorem ofWord_tag_frame (h : Fits p) (hwait : wait < 2 ^ 32) :
    Tag.ofWord (frame p wait).tag =
      { gap := UInt32.ofNat wait
        captured := p.capturedLength.toUInt16
        wireLength := p.wireLength.toUInt16 } := by
  have hcaptured := h.captured
  have hwire := h.wireLength
  rw [packetLimit] at hcaptured hwire
  rw [Tag.ofWord, toNat_tag_frame h hwait, Tag.mk.injEq]
  refine ⟨UInt32.toNat_inj.1 ?_, UInt16.toNat_inj.1 ?_, UInt16.toNat_inj.1 ?_⟩
  · rw [UInt32.toNat_ofNat', UInt32.toNat_ofNat']
    omega
  · rw [UInt16.toNat_ofNat', UInt32.toNat_toUInt16]
    omega
  · rw [UInt16.toNat_ofNat', UInt32.toNat_toUInt16]
    omega

/-- A packet is written as its frame. -/
theorem record_ofPacket (h : Fits p) (hwait : wait < 2 ^ 32) :
    (Pending.ofPacket p).record (UInt32.ofNat wait) = frame p wait := by
  have htag : (Pending.ofPacket p).record (UInt32.ofNat wait) =
      { tag := (Tag.ofWord (frame p wait).tag).toWord, data := (Pending.ofPacket p).payload } := by
    rw [ofWord_tag_frame h hwait]
    rfl
  have hdata : (Pending.ofPacket p).payload = (frame p wait).data := by
    have hzeros : p.wireLength.toNat - min p.wireLength.toNat p.data.length =
        p.wireLength.toNat - p.data.length := by omega
    simp only [Pending.ofPacket, frame, List.length_take, hzeros]
  rw [htag, hdata, Tag.toWord_ofWord]

/-- The tag of a frame is no word of the padding, and tells its length. -/
theorem isPlain_frame (h : Fits p) (hwait : wait < 2 ^ 32) :
    (frame p wait).IsPlain stored := by
  have hcaptured := h.captured
  have hwire := h.wireLength
  rw [packetLimit] at hcaptured hwire
  constructor
  · intro htag
    have hword := toNat_tag_frame h hwait
    have hend : Trace.endTag.toNat = 2 ^ 64 - 1 := rfl
    rw [htag, hend] at hword
    omega
  · rw [length_data_frame, stored, ofWord_tag_frame h hwait]
    simp only [UInt32.toNat_toUInt16]
    omega

/-! ## Waits -/

/-- The nanoseconds from each packet to the next. -/
def spacings : List Packet → List ℕ
  | p :: q :: packets => (q.timestamp - p.timestamp) :: spacings (q :: packets)
  | _ => []

/-- The cycles from each packet to the next. -/
def waits (packets : List Packet) : List ℕ := ({} : Quantizer).run (spacings packets)

/-- The frames of all packets but the last. -/
def frames (packets : List Packet) : List Trace.Record := packets.zipWith frame (waits packets)

/-- The frames of all packets: no wait follows the last one. -/
def allFrames (packets : List Packet) : List Trace.Record :=
  packets.zipWith frame (waits packets ++ [0])

theorem length_spacings (packets : List Packet) :
    (spacings packets).length = packets.length - 1 := by
  induction packets with
  | nil => rfl
  | cons p packets ih =>
    cases packets with
    | nil => rfl
    | cons q packets =>
      rw [spacings, List.length_cons, ih]
      simp

theorem length_waits (packets : List Packet) : (waits packets).length = packets.length - 1 := by
  rw [waits, Quantizer.length_run, length_spacings]

@[simp]
theorem length_allFrames (packets : List Packet) :
    (allFrames packets).length = packets.length := by
  rw [allFrames, List.length_zipWith, List.length_append, length_waits, List.length_singleton]
  omega

theorem spacings_snoc (packets : List Packet) (p q : Packet) :
    spacings (packets ++ [p, q]) = spacings (packets ++ [p]) ++ [q.timestamp - p.timestamp] := by
  induction packets with
  | nil => rfl
  | cons r packets ih =>
    cases packets with
    | nil => rfl
    | cons t packets => simpa [spacings] using ih

theorem waits_snoc (packets : List Packet) (p q : Packet) :
    waits (packets ++ [p, q]) = waits (packets ++ [p]) ++
      [((({} : Quantizer).after (spacings (packets ++ [p]))).quantize
        (q.timestamp - p.timestamp)).1] := by
  rw [waits, spacings_snoc, Quantizer.run_append]
  rfl

theorem zipWith_frame_snoc {packets : List Packet} {cycles : List ℕ} (p : Packet) (wait : ℕ)
    (more : List Packet) (h : cycles.length = packets.length) :
    (packets ++ p :: more).zipWith frame (cycles ++ [wait]) =
      (packets ++ [p]).zipWith frame cycles ++ [frame p wait] := by
  have hcycles : cycles = cycles ++ [] := (List.append_nil cycles).symm
  rw [List.zipWith_append h.symm]
  conv_rhs => rw [hcycles, List.zipWith_append h.symm]
  simp

theorem length_waits_snoc (packets : List Packet) (p : Packet) :
    (waits (packets ++ [p])).length = packets.length := by
  rw [length_waits, List.length_append, List.length_singleton, Nat.add_sub_cancel]

theorem frames_snoc (packets : List Packet) (p q : Packet) :
    frames (packets ++ [p, q]) = frames (packets ++ [p]) ++
      [frame p ((({} : Quantizer).after (spacings (packets ++ [p]))).quantize
        (q.timestamp - p.timestamp)).1] := by
  rw [frames, waits_snoc, zipWith_frame_snoc p _ [q] (length_waits_snoc packets p)]
  rfl

theorem allFrames_snoc (packets : List Packet) (p : Packet) :
    allFrames (packets ++ [p]) = frames (packets ++ [p]) ++ [frame p 0] :=
  zipWith_frame_snoc p 0 [] (length_waits_snoc packets p)

/-! ## One packet more -/

namespace Encoder

section Steps

variable {σ : Type} [ByteSink σ] {e e' : Encoder} {s s' : σ}

theorem fits_of_check (h : e.check p = .ok ()) : e.finished = false ∧ Fits p := by
  rw [check] at h
  cases hfinished : e.finished with
  | true =>
    rw [hfinished] at h
    cases h
  | false =>
    rw [hfinished, checkLength, checkLength] at h
    by_cases hcaptured : packetLimit < p.capturedLength.toNat
    · rw [if_pos hcaptured] at h
      cases h
    · by_cases hwire : packetLimit < p.wireLength.toNat
      · rw [if_neg hcaptured, if_pos hwire] at h
        cases h
      · exact ⟨rfl, Nat.le_of_not_lt hcaptured, Nat.le_of_not_lt hwire⟩

/-- A packet that is accepted fits the hardware, and is held back once the one
    before it is released. -/
theorem push_eq_ok (h : e.push p s = (.ok (), e', s')) :
    e.finished = false ∧ Fits p ∧ ∃ e₁, e.release p.timestamp s = (.ok (), e₁, s') ∧
      e' = { e₁ with pending := some (Pending.ofPacket p) } := by
  rw [push] at h
  split at h
  · cases h
  next hcheck =>
    obtain ⟨hfinished, hfits⟩ := fits_of_check hcheck
    split at h
    · cases h
    next e₁ s₁ hrelease =>
      cases h
      exact ⟨hfinished, hfits, e₁, hrelease, rfl⟩

theorem release_of_none (h : e.pending = none) (timestamp : ℕ) (s : σ) :
    e.release timestamp s = (.ok (), e, s) := by
  rw [release, h]

section Held

variable {previous : Pending} {timestamp : ℕ} {cycles : ℕ} {q : Quantizer}

theorem release_of_lt (hpending : e.pending = some previous) (h : timestamp < previous.timestamp)
    (s : σ) : e.release timestamp s =
      (.error (.timeReversal previous.timestamp timestamp), e, s) := by
  rw [release, hpending]
  exact if_pos h

/-- A gap that is refused has passed through the quantizer. -/
theorem release_of_gap_error {failure : Failure} (hpending : e.pending = some previous)
    (hordered : ¬ timestamp < previous.timestamp)
    (hquantize : e.quantizer.quantize (timestamp - previous.timestamp) = (cycles, q))
    (hgap : gap cycles = .error failure) (s : σ) :
    e.release timestamp s = (.error failure, { e with quantizer := q }, s) := by
  rw [release, hpending]
  refine (if_neg hordered).trans ?_
  simp only [hquantize, hgap]

/-- Otherwise the packet that was held back is written with it. -/
theorem release_of_gap_ok {wait : UInt32} (hpending : e.pending = some previous)
    (hordered : ¬ timestamp < previous.timestamp)
    (hquantize : e.quantizer.quantize (timestamp - previous.timestamp) = (cycles, q))
    (hgap : gap cycles = .ok wait) (s : σ) :
    e.release timestamp s = { e with quantizer := q }.writeRecord previous wait s := by
  rw [release, hpending]
  refine (if_neg hordered).trans ?_
  simp only [hquantize, hgap]

end Held

/-- A packet is released by one that is not earlier, after as many cycles as
    the quantizer makes of the time between them. -/
theorem release_eq_ok {previous : Pending} {timestamp : ℕ} (hpending : e.pending = some previous)
    (h : e.release timestamp s = (.ok (), e', s')) :
    previous.timestamp ≤ timestamp ∧
      (e.quantizer.quantize (timestamp - previous.timestamp)).1 < 2 ^ 32 ∧
      writeRecord
        { e with quantizer := (e.quantizer.quantize (timestamp - previous.timestamp)).2 } previous
        (UInt32.ofNat (e.quantizer.quantize (timestamp - previous.timestamp)).1) s =
          (.ok (), e', s') := by
  rw [release, hpending] at h
  simp only [gap] at h
  split at h
  · cases h
  next hordered =>
    split at h
    · cases h
    next cycles hcycles =>
      split at hcycles
      next hlt =>
        cases hcycles
        rw [hpending]
        exact ⟨Nat.le_of_not_lt hordered, hlt, h⟩
      · cases hcycles

end Steps

variable {e e' : Encoder} {packets : List Packet} {output : Bytes} {s s' : Spool}

theorem writeRecord_eq_ok {pending : Pending} {cycles : UInt32}
    (h : e.writeRecord pending cycles s = (.ok (), e', s')) :
    s' = s.append (pending.record cycles).layout ∧
      e' = { e with
        bytes := e.bytes + (pending.record cycles).layout.length
        packets := e.packets + 1 } := by
  rw [writeRecord] at h
  split at h
  · cases h
  next written s₁ hwrite =>
    cases h
    obtain ⟨rfl, rfl⟩ := Spool.writeFields_eq_ok hwrite
    rw [Trace.Record.flatten_fields]
    exact ⟨rfl, rfl⟩

/-- What an encoder holds and has written of the packets it has accepted. -/
structure Accepted (e : Encoder) (packets : List Packet) (output : Bytes) : Prop where
  finished : e.finished = false
  fits : ∀ p ∈ packets, Fits p
  sorted : packets.IsChain (·.timestamp ≤ ·.timestamp)
  waits_lt : ∀ n ∈ waits packets, n < 2 ^ 32
  output_eq : output = Trace.layout (frames packets)
  pending_eq : e.pending = packets.getLast?.map Pending.ofPacket
  quantizer_eq : e.quantizer = ({} : Quantizer).after (spacings packets)
  packets_eq : e.packets = packets.length - 1
  bytes_eq : e.bytes = output.length

/-- A new encoder has accepted nothing. -/
theorem accepted_nil : ({} : Encoder).Accepted [] [] where
  finished := rfl
  fits := by simp
  sorted := List.isChain_nil
  waits_lt := by simp [waits, spacings, Quantizer.run]
  output_eq := rfl
  pending_eq := rfl
  quantizer_eq := rfl
  packets_eq := rfl
  bytes_eq := rfl

/-- A packet follows one that is not later, when that one is written with a wait
    that a tag can hold. -/
theorem Accepted.snoc {before : List Packet} {previous : Packet} {q : Quantizer}
    (h : e.Accepted (before ++ [previous]) output) (hfits : Fits p)
    (hordered : previous.timestamp ≤ p.timestamp)
    (hquantize : e.quantizer.quantize (p.timestamp - previous.timestamp) = (wait, q))
    (hwait : wait < 2 ^ 32) :
    { e with
      quantizer := q
      bytes := e.bytes + (frame previous wait).layout.length
      packets := e.packets + 1
      pending := some (Pending.ofPacket p) : Encoder }.Accepted (before ++ [previous, p])
        (output ++ (frame previous wait).layout) := by
  rw [h.quantizer_eq] at hquantize
  have hsplit : before ++ [previous, p] = before ++ [previous] ++ [p] := by
    rw [List.append_assoc, List.singleton_append]
  refine
    { finished := h.finished
      fits := ?_
      sorted := List.isChain_append_cons_cons.2 ⟨h.sorted, hordered, List.isChain_singleton p⟩
      waits_lt := ?_
      output_eq := ?_
      pending_eq := by rw [List.getLast?_append]; rfl
      quantizer_eq := ?_
      packets_eq := ?_
      bytes_eq := ?_ }
  · rw [hsplit]
    exact List.forall_mem_append.2 ⟨h.fits, List.forall_mem_singleton.2 hfits⟩
  · rw [waits_snoc, hquantize]
    exact List.forall_mem_append.2 ⟨h.waits_lt, List.forall_mem_singleton.2 hwait⟩
  · rw [frames_snoc, hquantize, Trace.layout_append, h.output_eq, Trace.layout_cons,
      Trace.layout_nil, List.append_nil]
  · rw [spacings_snoc, Quantizer.after_append]
    exact (congrArg Prod.snd hquantize).symm
  · change e.packets + 1 = _
    rw [h.packets_eq]
    simp
  · change e.bytes + _ = _
    rw [h.bytes_eq, List.length_append]

/-- Accepting a packet writes the one before it, if there is one. -/
theorem Accepted.push (h : e.Accepted packets output) (hpush : e.push p s = (.ok (), e', s')) :
    ∃ more, s' = s.append more ∧ e'.Accepted (packets ++ [p]) (output ++ more) := by
  obtain ⟨hfinished, hfits, e₁, hrelease, rfl⟩ := push_eq_ok hpush
  rcases List.eq_nil_or_concat packets with rfl | ⟨before, previous, rfl⟩
  · -- The first packet: there is none to release.
    have hnone : e.pending = none := h.pending_eq
    rw [release_of_none hnone] at hrelease
    cases hrelease
    refine ⟨[], (Spool.append_nil s).symm, ?_⟩
    rw [List.append_nil]
    exact
      { finished := hfinished
        fits := List.forall_mem_singleton.2 hfits
        sorted := List.isChain_singleton p
        waits_lt := h.waits_lt
        output_eq := h.output_eq
        pending_eq := rfl
        quantizer_eq := h.quantizer_eq
        packets_eq := h.packets_eq
        bytes_eq := h.bytes_eq }
  · rw [List.concat_eq_append] at h ⊢
    have hpending : e.pending = some (Pending.ofPacket previous) := by
      rw [h.pending_eq, List.getLast?_concat]
      rfl
    obtain ⟨hordered, hlt, hwrite⟩ := release_eq_ok hpending hrelease
    obtain ⟨rfl, rfl⟩ := writeRecord_eq_ok hwrite
    rw [record_ofPacket (h.fits previous (by simp)) hlt, List.append_assoc, List.singleton_append]
    exact ⟨_, rfl, h.snoc hfits hordered rfl hlt⟩

/-! ## Any number of packets -/

theorem Accepted.putAll {before : List Packet} (h : e.Accepted before output)
    (hput : PacketTrace.putAll Encoder.push packets e s = (.ok (), e', s')) :
    ∃ more, s' = s.append more ∧ e'.Accepted (before ++ packets) (output ++ more) := by
  induction packets generalizing e s before output with
  | nil =>
    cases hput
    exact ⟨[], (Spool.append_nil _).symm, by simpa using h⟩
  | cons p packets ih =>
    obtain ⟨e₁, s₁, hpush, hrest⟩ := putAll_cons_eq_ok hput
    obtain ⟨first, rfl, hfirst⟩ := h.push hpush
    obtain ⟨more, rfl, hmore⟩ := ih hfirst hrest
    exact ⟨first ++ more, Spool.append_append .., by simpa using hmore⟩

/-- A new encoder that accepts packets has written the frames of all but the
    last of them. -/
theorem accepted_of_putAll (hput : putAll push packets {} s = (.ok (), e, s')) :
    ∃ output, s' = s.append output ∧ e.Accepted packets output :=
  accepted_nil.putAll hput

/-! ## The end of the trace -/

theorem Accepted.releaseLast (h : e.Accepted packets output)
    (hrelease : { e with finished := true }.releaseLast s = (.ok (), e', s')) :
    ∃ last, s' = s.append last ∧ output ++ last = Trace.layout (allFrames packets) ∧
      e'.packets = packets.length ∧ e'.bytes = (output ++ last).length := by
  rw [Encoder.releaseLast] at hrelease
  rcases List.eq_nil_or_concat packets with rfl | ⟨init, p, rfl⟩
  · rw [show e.pending = none from h.pending_eq] at hrelease
    cases hrelease
    refine ⟨[], (Spool.append_nil s).symm, ?_, h.packets_eq, ?_⟩
    · rw [h.output_eq]
      rfl
    · rw [List.append_nil, h.bytes_eq]
  · rw [List.concat_eq_append] at h ⊢
    have hpending : e.pending = some (Pending.ofPacket p) := by
      rw [h.pending_eq, List.getLast?_concat]
      rfl
    rw [hpending] at hrelease
    obtain ⟨rfl, rfl⟩ := writeRecord_eq_ok hrelease
    have hrecord : (Pending.ofPacket p).record 0 = frame p 0 :=
      record_ofPacket (h.fits p (by simp)) (Nat.two_pow_pos 32)
    refine ⟨_, rfl, ?_, ?_, ?_⟩
    · rw [allFrames_snoc, Trace.layout_append, h.output_eq, hrecord, Trace.layout_cons,
        Trace.layout_nil, List.append_nil]
    · change e.packets + 1 = _
      rw [h.packets_eq]
      simp
    · change e.bytes + _ = _
      rw [h.bytes_eq, List.length_append]

theorem filler_eq (n : ℕ) : filler n = List.replicate ((64 - n % 64) % 64) 0xff := by
  rw [filler, padding_eq_mod isPowerOfTwo_traceBoundary, traceBoundary]

end Encoder

/-- The bytes of a finished trace. -/
def trace (packets : List Packet) : Bytes :=
  let records := Trace.layout (allFrames packets)
  records ++ List.replicate ((64 - records.length % 64) % 64) 0xff

namespace Encoder

/-- On a spool without a limit, finishing goes through. -/
theorem exists_finish (e : Encoder) {s : Spool} (hlimit : s.limit = none)
    (hflush : s.failsFlush = false) : ∃ e' s', e.finish s = (.ok (), e', s') := by
  have hfill (e : Encoder) {s : Spool} (hlimit : s.limit = none) (hflush : s.failsFlush = false) :
      ∃ e' s', e.fill s = (.ok (), e', s') := by
    simp only [fill, Spool.writeFields_of_limit_eq_none hlimit]
    rw [Spool.flushSink_of_failsFlush_eq_false (by exact hflush)]
    exact ⟨_, _, rfl⟩
  rw [Encoder.finish]
  cases e.finished with
  | true => exact ⟨e, s, rfl⟩
  | false =>
    simp only [Bool.false_eq_true, if_false, Encoder.releaseLast]
    cases e.pending with
    | none => exact hfill _ hlimit hflush
    | some last =>
      simp only [writeRecord, Spool.writeFields_of_limit_eq_none hlimit]
      exact hfill _ hlimit hflush

/-- Finishing writes the last packet and fills the last block. -/
theorem Accepted.finish {e e' : Encoder} {packets : List Packet} {output : Bytes} {s s' : Spool}
    (h : e.Accepted packets output) (hfinish : e.finish s = (.ok (), e', s')) :
    ∃ tail, s' = s.append tail ∧ output ++ tail = trace packets ∧
      e'.packets = packets.length ∧ e'.bytes = (trace packets).length := by
  rw [Encoder.finish, h.finished] at hfinish
  simp only [Bool.false_eq_true, if_false] at hfinish
  split at hfinish
  · cases hfinish
  next e₁ s₁ hrelease =>
    obtain ⟨last, rfl, hlast, hpackets, hbytes⟩ := h.releaseLast hrelease
    rw [fill] at hfinish
    split at hfinish
    · cases hfinish
    next written s₂ hwrite =>
      obtain ⟨rfl, rfl⟩ := Spool.writeFields_eq_ok hwrite
      simp only [Prod.mk.injEq, Spool.flushSink_snd, List.flatten_cons, List.flatten_nil,
        List.append_nil] at hfinish
      obtain ⟨-, rfl, rfl⟩ := hfinish
      have htrace : output ++ (last ++ filler e₁.bytes) = trace packets := by
        rw [← List.append_assoc, filler_eq, hbytes, hlast]
        rfl
      refine ⟨_, Spool.append_append .., htrace, hpackets, ?_⟩
      change e₁.bytes + _ = _
      rw [← htrace, ← List.append_assoc, List.length_append, ← hbytes]

end Encoder

end Replay

end PacketTrace
