import PacketTrace.Proofs.Conversion.Simulation
import PacketTrace.Proofs.Stream.Calls
import PacketTrace.Proofs.Stream.Pair

/-!
# Passing packets on

A conversion works on a source and a sink at once. It takes packets from the
one and puts them into the other, and neither operation touches the other's
state (`Capture.Stream.next_pair`, `Replay.Encoder.push_pair` and the others).

* `Yields`: a relation between streams and the packets that are to come, with
  the failure that cuts them off, if any;
* `Yields.transfer`: a transfer that goes through has put all of these packets
  into the encoder, and no failure cuts them off;
* `Produces.transfer`: what comes of a transfer, whether it goes through or not,
  if the answers of the stream are known.
-/

namespace PacketTrace

variable {σ τ : Type}

/-! ## Operations on one of two states -/

namespace Capture.Stream

theorem next_pair [ByteSource σ] (r : Stream) (s : σ) (t : τ) :
    r.next (s, t) = withSecond t (r.next s) :=
  withSecond_of_alikeWith (next_alike (isReadSimulation_pair t) rfl r)

theorem start_pair [SeekableSource σ] (capacity : Nat) (limit : UInt16) (s : σ) (t : τ) :
    start capacity limit (s, t) =
      ((start capacity limit s).1, (start capacity limit s).2, t) := by
  simp only [start, SeekableSource.seekEnd, SeekableSource.rewind, onFirst]
  rcases SeekableSource.seekEnd s with ⟨_ | size, s₁⟩
  · rfl
  · rcases hcheck : Trace.checkAligned size with _ | _
    · simp only [hcheck]
    · simp only [hcheck]
      rcases SeekableSource.rewind s₁ with ⟨_ | _, s₂⟩ <;> rfl

end Capture.Stream

namespace Pcap.Stream

theorem next_pair [ByteSource σ] (r : Stream) (s : σ) (t : τ) :
    r.next (s, t) = withSecond t (r.next s) :=
  withSecond_of_alikeWith (next_alike (isReadSimulation_pair t) rfl r)

theorem start_pair [ByteSource σ] (capacity : Nat) (s : σ) (t : τ) :
    start capacity (s, t) = ((start capacity s).1, (start capacity s).2, t) := by
  obtain ⟨_, heq, rfl⟩ := ofWindow_alike (isReadSimulation_pair t) (t := (s, t)) rfl { capacity }
  exact heq

end Pcap.Stream

namespace Pcap.Encoder

variable [ByteSink τ]

theorem start_pair (header : Header) (s : σ) (t : τ) :
    start header (s, t) = ((start header t).1, s, (start header t).2) := by
  obtain ⟨_, heq, rfl⟩ := start_alike (isWriteSimulation_pair s) (t := (s, t)) rfl header
  exact heq

theorem write_pair (e : Encoder) (p : Packet) (s : σ) (t : τ) :
    e.write p (s, t) = withFirst s (e.write p t) :=
  withFirst_of_alikeWith (write_alike (isWriteSimulation_pair s) rfl e p)

end Pcap.Encoder

namespace Replay.Encoder

variable [ByteSink τ]

theorem push_pair (e : Encoder) (p : Packet) (s : σ) (t : τ) :
    e.push p (s, t) = withFirst s (e.push p t) :=
  withFirst_of_alikeWith (push_alike (isWriteSimulation_pair s) rfl e p)

theorem finish_pair (e : Encoder) (s : σ) (t : τ) :
    e.finish (s, t) = withFirst s (e.finish t) :=
  withFirst_of_alikeWith (finish_alike (isWriteSimulation_pair s) rfl e)

end Replay.Encoder

/-! ## Transfers -/

variable {ι ο : Type}

theorem packetBound_pair [ByteSource σ] (window : Window) (s : σ) (t : τ) :
    packetBound window (s, t) = packetBound window s := rfl

/-- A relation between streams and the packets that are to come, with the
    failure that cuts them off, is kept by the calls that bring a packet, and
    there is nothing to come at the end. -/
structure Yields (next : ι → σ → Except Failure (Option Packet) × ι × σ)
    (R : List Packet → Option Failure → ι → σ → Prop) : Prop where
  packet : ∀ {packets failure stream s p}, R packets failure stream s →
    (next stream s).1 = .ok (some p) →
      ∃ rest, packets = p :: rest ∧ R rest failure (next stream s).2.1 (next stream s).2.2
  ended : ∀ {packets failure stream s}, R packets failure stream s →
    (next stream s).1 = .ok none → packets = [] ∧ failure = none

/-- A transfer from the first of two states to the second that goes through,
    and was allowed enough packets, puts all that are to come. -/
theorem Yields.transfer {next : ι → σ → Except Failure (Option Packet) × ι × σ}
    {R : List Packet → Option Failure → ι → σ → Prop} (hR : Yields next R)
    {next' : ι → σ × τ → Except Failure (Option Packet) × ι × σ × τ}
    (hnext : ∀ stream s t, next' stream (s, t) = withSecond t (next stream s))
    {put : ο → Packet → τ → Except Failure Unit × ο × τ}
    {put' : ο → Packet → σ × τ → Except Failure Unit × ο × σ × τ}
    (hput : ∀ encoder p s t, put' encoder p (s, t) = withFirst s (put encoder p t))
    {packets : List Packet} {failure : Option Failure} {n : ℕ} {stream : ι}
    {encoder encoder' : ο} {s s' : σ} {t t' : τ} (h : R packets failure stream s)
    (hn : packets.length < n)
    (htransfer : transfer next' put' n stream encoder (s, t) = (.ok encoder', s', t')) :
    failure = none ∧ putAll put packets encoder t = (.ok (), encoder', t') := by
  induction n generalizing packets stream encoder s t with
  | zero => exact absurd hn (Nat.not_lt_zero _)
  | succ n ih =>
    rw [PacketTrace.transfer, hnext] at htransfer
    have hpacket := @hR.packet packets failure stream s
    have hended := @hR.ended packets failure stream s h
    rcases hanswer : next stream s with ⟨_ | _ | p, stream₁, s₁⟩ <;>
      rw [hanswer] at htransfer hpacket hended
    · cases htransfer
    · cases htransfer
      obtain ⟨rfl, hfailure⟩ := hended rfl
      exact ⟨hfailure, rfl⟩
    · obtain ⟨rest, rfl, hrest⟩ := hpacket h rfl
      simp only [withSecond, hput] at htransfer
      rcases hresult : put encoder p t with ⟨_ | _, encoder₁, t₁⟩ <;>
        rw [hresult] at htransfer
      · cases htransfer
      · obtain ⟨hfailure, hputAll⟩ := ih hrest (Nat.lt_of_succ_lt_succ hn) htransfer
        refine ⟨hfailure, ?_⟩
        rw [putAll, hresult]
        exact hputAll

/-- What becomes of an encoder and its sink that items have been put into, when
    a failure cuts the items off. -/
def cutOff {ε : Type} (failure : Option ε) : Except ε Unit × ο × τ → Except ε ο × τ
  | (.error refusal, _, t) => (.error refusal, t)
  | (.ok (), encoder, t) => (failure.elim (.ok encoder) .error, t)

/-- A transfer from the first of two states to the second that is allowed enough
    packets puts those that the stream produces, and fails as the encoder does
    or else as the stream does. -/
theorem Produces.transfer {next : ι → σ → Except Failure (Option Packet) × ι × σ}
    {next' : ι → σ × τ → Except Failure (Option Packet) × ι × σ × τ}
    (hnext : ∀ stream s t, next' stream (s, t) = withSecond t (next stream s))
    {put : ο → Packet → τ → Except Failure Unit × ο × τ}
    {put' : ο → Packet → σ × τ → Except Failure Unit × ο × σ × τ}
    (hput : ∀ encoder p s t, put' encoder p (s, t) = withFirst s (put encoder p t))
    {packets : List Packet} {failure : Option Failure} {n : ℕ} {stream : ι} {encoder : ο}
    {s : σ} (h : Produces next packets failure stream s) (hn : packets.length < n) (t : τ) :
    ∃ s', PacketTrace.transfer next' put' n stream encoder (s, t) =
      ((cutOff failure (putAll put packets encoder t)).1, s',
        (cutOff failure (putAll put packets encoder t)).2) := by
  induction packets generalizing n stream encoder s t with
  | nil =>
    obtain ⟨n, rfl⟩ := Nat.exists_eq_succ_of_ne_zero (Nat.ne_of_gt hn)
    have hanswer := h.head
    rcases hcall : next stream s with ⟨result, stream₁, s₁⟩
    rw [hcall] at hanswer
    refine ⟨s₁, ?_⟩
    rw [PacketTrace.transfer, hnext, hcall, show result = _ from hanswer]
    cases failure <;> rfl
  | cons p packets ih =>
    obtain ⟨n, rfl⟩ := Nat.exists_eq_succ_of_ne_zero (Nat.ne_of_gt (Nat.zero_lt_of_lt hn))
    have hanswer := h.head
    have hrest := h.tail
    rcases hcall : next stream s with ⟨result, stream₁, s₁⟩
    rw [hcall] at hanswer hrest
    rw [PacketTrace.transfer, hnext, hcall, show result = .ok (some p) from hanswer, putAll]
    simp only [withSecond, hput]
    rcases put encoder p t with ⟨_ | _, encoder₁, t₁⟩
    · exact ⟨s₁, rfl⟩
    · exact ih hrest (Nat.lt_of_succ_lt_succ hn) t₁

end PacketTrace
