import PacketTrace.Conversion
import PacketTrace.Proofs.Stream.Simulation

/-!
# Conversions of related states

Streams only read, and encoders only write. So they do the same on states that
reads and writes do not tell apart, and so do transfers and conversions. Only
the most packets that a transfer is allowed come from the state it starts from;
with the same number (`writePcapUpTo`, `writeReplayUpTo`), conversions of related
states come to the same.
-/

namespace PacketTrace

variable {σ τ ι ο : Type} {S : σ → τ → Prop} {s : σ} {t : τ}

/-! ## Streams -/

section Streams

variable [ByteSource σ] [ByteSource τ]

/-- What a stream does follows from what it fetches. -/
theorem Capture.Stream.next_alike_of_fetch {r : Stream} (h : S s t)
    (hfetch : AlikeWith S (r.window.fetch (Trace.Record.decoder (stored r.limit)) s)
      (r.window.fetch (Trace.Record.decoder (stored r.limit)) t)) :
    AlikeWith S (r.next s) (r.next t) := by
  obtain ⟨t₁, hfetch, h₁⟩ := hfetch
  rw [next, next, hfetch]
  by_cases hfinished : r.finished = true
  · rw [if_pos hfinished, if_pos hfinished]
    exact alikeWith_mk h _ r
  · rw [if_neg hfinished, if_neg hfinished]
    rcases hresult : r.window.fetch (Trace.Record.decoder (stored r.limit)) s with
      ⟨fetched, window, s₁⟩
    rw [hresult] at h₁
    rcases fetched with (_ | record) | _ | _ | _ <;> exact alikeWith_mk h₁ _ _

theorem Capture.Stream.next_alike (hS : IsReadSimulation S) (h : S s t) (r : Stream) :
    AlikeWith S (r.next s) (r.next t) :=
  next_alike_of_fetch h (Window.fetch_alike hS h _ _)

namespace Pcap.Stream

/-- What a stream does follows from what it fetches. -/
theorem next_alike_of_fetch {r : Stream} (h : S s t)
    (hfetch : AlikeWith S (r.window.fetch Entry.decoder s) (r.window.fetch Entry.decoder t)) :
    AlikeWith S (r.next s) (r.next t) := by
  obtain ⟨t₁, hfetch, h₁⟩ := hfetch
  rw [next, next, hfetch]
  by_cases hfinished : r.finished = true
  · rw [if_pos hfinished, if_pos hfinished]
    exact alikeWith_mk h _ r
  · rw [if_neg hfinished, if_neg hfinished]
    rcases hresult : r.window.fetch Entry.decoder s with ⟨fetched, window, s₁⟩
    rw [hresult] at h₁
    rcases fetched with _ | _ | _ | _ <;> exact alikeWith_mk h₁ _ _

theorem next_alike (hS : IsReadSimulation S) (h : S s t) (r : Stream) :
    AlikeWith S (r.next s) (r.next t) :=
  next_alike_of_fetch h (Window.fetch_alike hS h _ _)

theorem ofWindow_alike_of_fetch {w : Window}
    (hfetch : AlikeWith S (w.fetch Header.decoder s) (w.fetch Header.decoder t)) :
    Alike S (ofWindow w s) (ofWindow w t) := by
  obtain ⟨t₁, hfetch, h₁⟩ := hfetch
  rw [ofWindow, ofWindow, hfetch]
  rcases hresult : w.fetch Header.decoder s with ⟨fetched, window, s₁⟩
  rw [hresult] at h₁
  rcases fetched with _ | _ | _ | _ <;> exact alike_mk h₁ _

theorem ofWindow_alike (hS : IsReadSimulation S) (h : S s t) (w : Window) :
    Alike S (ofWindow w s) (ofWindow w t) :=
  ofWindow_alike_of_fetch (Window.fetch_alike hS h _ _)

end Pcap.Stream

end Streams

/-! ## Encoders -/

section Encoders

variable [ByteSink σ] [ByteSink τ] (hS : IsWriteSimulation S)

include hS

namespace Pcap.Encoder

theorem start_alike (h : S s t) (header : Header) : Alike S (start header s) (start header t) := by
  obtain ⟨t₁, hwrite, h₁⟩ := writeFields_alike hS h header.fields
  rw [start, start, hwrite]
  rcases hresult : writeFields header.fields s with ⟨_ | _, s₁⟩ <;> rw [hresult] at h₁ <;>
    exact alike_mk h₁ _

theorem write_alike (h : S s t) (e : Encoder) (p : Packet) :
    AlikeWith S (e.write p s) (e.write p t) := by
  rw [write, write]
  rcases Entry.ofPacket p with _ | entry
  · exact alikeWith_mk h _ e
  · obtain ⟨t₁, hwrite, h₁⟩ := writeFields_alike hS h entry.fields
    simp only [hwrite]
    rcases hresult : writeFields entry.fields s with ⟨_ | _, s₁⟩ <;> rw [hresult] at h₁ <;>
      exact alikeWith_mk h₁ _ _

end Pcap.Encoder

namespace Replay.Encoder

theorem writeRecord_alike (h : S s t) (e : Encoder) (p : Pending) (gap : UInt32) :
    AlikeWith S (e.writeRecord p gap s) (e.writeRecord p gap t) := by
  obtain ⟨t₁, hwrite, h₁⟩ := writeFields_alike hS h (p.record gap).fields
  rw [writeRecord, writeRecord, hwrite]
  rcases hresult : writeFields (p.record gap).fields s with ⟨_ | _, s₁⟩ <;> rw [hresult] at h₁ <;>
    exact alikeWith_mk h₁ _ _

theorem release_alike (h : S s t) (e : Encoder) (timestamp : Nat) :
    AlikeWith S (e.release timestamp s) (e.release timestamp t) := by
  rw [release, release]
  rcases e.pending with _ | previous
  · exact alikeWith_mk h _ e
  · by_cases hearly : timestamp < previous.timestamp
    · simp only [if_pos hearly]
      exact alikeWith_mk h _ e
    · simp only [if_neg hearly]
      rcases gap (e.quantizer.quantize (timestamp - previous.timestamp)).1 with _ | cycles
      · exact alikeWith_mk h _ _
      · exact writeRecord_alike hS h _ previous cycles

theorem push_alike (h : S s t) (e : Encoder) (p : Packet) :
    AlikeWith S (e.push p s) (e.push p t) := by
  obtain ⟨t₁, hrelease, h₁⟩ := release_alike hS h e p.timestamp
  rw [push, push, hrelease]
  rcases e.check p with _ | _
  · exact alikeWith_mk h _ e
  · rcases hresult : e.release p.timestamp s with ⟨_ | _, e₁, s₁⟩ <;> rw [hresult] at h₁ <;>
      exact alikeWith_mk h₁ _ _

theorem fill_alike (h : S s t) (e : Encoder) : AlikeWith S (e.fill s) (e.fill t) := by
  obtain ⟨t₁, hwrite, h₁⟩ := writeFields_alike hS h [filler e.bytes]
  rw [fill, fill, hwrite]
  rcases hresult : writeFields [filler e.bytes] s with ⟨_ | written, s₁⟩ <;> rw [hresult] at h₁
  · exact alikeWith_mk h₁ _ e
  · obtain ⟨t₂, hflush, h₂⟩ := flushSink_alike hS h₁
    simp only [hflush]
    exact alikeWith_mk h₂ _ _

theorem finish_alike (h : S s t) (e : Encoder) : AlikeWith S (e.finish s) (e.finish t) := by
  have hlast (e : Encoder) : AlikeWith S (e.releaseLast s) (e.releaseLast t) := by
    rw [releaseLast, releaseLast]
    rcases e.pending with _ | last
    · exact alikeWith_mk h _ e
    · exact writeRecord_alike hS h _ last 0
  obtain ⟨t₁, hrelease, h₁⟩ := hlast { e with finished := true }
  rw [finish, finish, hrelease]
  by_cases hfinished : e.finished = true
  · rw [if_pos hfinished, if_pos hfinished]
    exact alikeWith_mk h _ e
  · rw [if_neg hfinished, if_neg hfinished]
    rcases hresult : releaseLast { e with finished := true } s with ⟨_ | _, e₁, s₁⟩ <;>
      rw [hresult] at h₁
    · exact alikeWith_mk h₁ _ e₁
    · exact fill_alike hS h₁ e₁

end Replay.Encoder

theorem finishPcap_alike (h : S s t) (e : Pcap.Encoder) :
    Alike S (finishPcap e s) (finishPcap e t) := by
  obtain ⟨t₁, hflush, h₁⟩ := flushSink_alike hS h
  rw [finishPcap, finishPcap, hflush]
  rcases hresult : flushSink s with ⟨_ | _, s₁⟩ <;> rw [hresult] at h₁ <;> exact alike_mk h₁ _

end Encoders

/-! ## Conversions -/

/-- Transfers that take the same packets and make the same of them. -/
theorem transfer_alike {next : ι → σ → Except Failure (Option Packet) × ι × σ}
    {next' : ι → τ → Except Failure (Option Packet) × ι × τ}
    {put : ο → Packet → σ → Except Failure Unit × ο × σ}
    {put' : ο → Packet → τ → Except Failure Unit × ο × τ}
    (hnext : ∀ {s t}, S s t → ∀ stream, AlikeWith S (next stream s) (next' stream t))
    (hput : ∀ {s t}, S s t → ∀ encoder p, AlikeWith S (put encoder p s) (put' encoder p t))
    (h : S s t) (n : Nat) (stream : ι) (encoder : ο) :
    Alike S (transfer next put n stream encoder s) (transfer next' put' n stream encoder t) := by
  induction n generalizing stream encoder s t with
  | zero => exact alike_mk h _
  | succ n ih =>
    obtain ⟨t₁, heq, h₁⟩ := hnext h stream
    rw [transfer, transfer, heq]
    rcases hcall : next stream s with ⟨_ | _ | p, stream₁, s₁⟩ <;> rw [hcall] at h₁
    · exact alike_mk h₁ _
    · exact alike_mk h₁ _
    · obtain ⟨t₂, heq', h₂⟩ := hput h₁ encoder p
      simp only [heq']
      rcases hresult : put encoder p s₁ with ⟨_ | _, encoder₁, s₂⟩ <;> rw [hresult] at h₂
      · exact alike_mk h₂ _
      · exact ih h₂ stream₁ encoder₁

section UpTo

variable [ByteSource σ] [ByteSink σ]

/-- Writes at most so many packets of a capture trace as a packet file. -/
def writePcapUpTo (n : Nat) (stream : Capture.Stream) (s : σ) : Except Failure Tally × σ :=
  match Pcap.Encoder.start {} s with
  | (.error failure, s) => (.error failure, s)
  | (.ok encoder, s) =>
    match transfer Capture.Stream.next Pcap.Encoder.write n stream encoder s with
    | (.error failure, s) => (.error failure, s)
    | (.ok encoder, s) => finishPcap encoder s

theorem writePcap_eq_upTo (stream : Capture.Stream) (s : σ) :
    writePcap stream s =
      writePcapUpTo (packetBound stream.window (Pcap.Encoder.start {} s).2) stream s := by
  rw [writePcap, writePcapUpTo]
  rcases Pcap.Encoder.start {} s with ⟨_ | _, s₁⟩ <;> rfl

/-- Writes at most so many packets of a packet file as a replay trace. -/
def writeReplayUpTo (n : Nat) (stream : Pcap.Stream) (s : σ) : Except Failure Tally × σ :=
  match transfer Pcap.Stream.next Replay.Encoder.push n stream {} s with
  | (.error failure, s) => (.error failure, s)
  | (.ok encoder, s) =>
    match encoder.finish s with
    | (.error failure, _, s) => (.error failure, s)
    | (.ok (), encoder, s) => (.ok { packets := encoder.packets, bytes := encoder.bytes }, s)

theorem writeReplay_eq_upTo (stream : Pcap.Stream) (s : σ) :
    writeReplay stream s = writeReplayUpTo (packetBound stream.window s) stream s := rfl

variable [ByteSource τ] [ByteSink τ] (hread : IsReadSimulation S) (hwrite : IsWriteSimulation S)

include hread hwrite

theorem writePcapUpTo_alike (h : S s t) (n : Nat) (stream : Capture.Stream) :
    Alike S (writePcapUpTo n stream s) (writePcapUpTo n stream t) := by
  obtain ⟨t₁, hstart, h₁⟩ := Pcap.Encoder.start_alike hwrite h {}
  rw [writePcapUpTo, writePcapUpTo, hstart]
  rcases hresult : Pcap.Encoder.start {} s with ⟨_ | encoder, s₁⟩ <;> rw [hresult] at h₁
  · exact alike_mk h₁ _
  · obtain ⟨t₂, htransfer, h₂⟩ := transfer_alike (Capture.Stream.next_alike hread)
      (Pcap.Encoder.write_alike hwrite) h₁ n stream encoder
    simp only [htransfer]
    rcases hresult' : transfer Capture.Stream.next Pcap.Encoder.write n stream encoder s₁ with
      ⟨_ | encoder₁, s₂⟩ <;> rw [hresult'] at h₂
    · exact alike_mk h₂ _
    · exact finishPcap_alike hwrite h₂ encoder₁

theorem writeReplayUpTo_alike (h : S s t) (n : Nat) (stream : Pcap.Stream) :
    Alike S (writeReplayUpTo n stream s) (writeReplayUpTo n stream t) := by
  obtain ⟨t₁, htransfer, h₁⟩ := transfer_alike (Pcap.Stream.next_alike hread)
    (Replay.Encoder.push_alike hwrite) h n stream {}
  rw [writeReplayUpTo, writeReplayUpTo, htransfer]
  rcases hresult : transfer Pcap.Stream.next Replay.Encoder.push n stream {} s with
    ⟨_ | encoder, s₁⟩ <;> rw [hresult] at h₁
  · exact alike_mk h₁ _
  · obtain ⟨t₂, hfinish, h₂⟩ := Replay.Encoder.finish_alike hwrite h₁ encoder
    simp only [hfinish]
    rcases hresult' : encoder.finish s₁ with ⟨_ | _, encoder₁, s₂⟩ <;> rw [hresult'] at h₂ <;>
      exact alike_mk h₂ _

end UpTo

end PacketTrace
