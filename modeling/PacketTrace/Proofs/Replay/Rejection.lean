import PacketTrace.Proofs.Clock.Quantizer
import PacketTrace.Replay.Encoder
import PacketTrace.Stream.Spool

/-!
# Packets that an encoder rejects

An encoder rejects a packet because of its length, its time or its gap, or
because the trace has been finished. Nothing is written then, and the packet
held back stays. But a gap that is too long has passed through the quantizer by
the time it is rejected, and may have moved its error.

* `Encoder.rejects_or_breaks`: what a push leaves behind that is rejected
  (`Encoder.Rejects`), or that fails otherwise (`Encoder.Breaks`);
* `observe`: what can be seen of an encoder and its sink from some calls on;
* `observe_push_iff`: a rejected push is never seen again, unless its gap is too
  long and the computed cycles of the gap are not whole. Then it is seen in the
  error, and it may be seen in the trace (`observe_ne_of_gapTooLong`).
-/

namespace PacketTrace

namespace Failure

/-- A packet was rejected, before anything was written for it. -/
def isRejection : Failure → Bool
  | packetTooLong .. | timeReversal .. | gapTooLong _ | traceClosed => true
  | _ => false

end Failure

variable {σ : Type} [ByteSink σ]

/-- A record that cannot be written is not rejected. -/
theorem isRejection_of_writeFields {fields : List Bytes} {s s' : σ} {failure : Failure}
    (h : writeFields fields s = (.error failure, s')) : failure.isRejection = false := by
  induction fields generalizing s with
  | nil => cases h
  | cons field fields ih =>
    rw [writeFields] at h
    split at h
    · cases h
      rfl
    · split at h
      · cases h
        rfl
      · split at h
        · cases h
        next hfields =>
          cases h
          exact ih hfields

namespace Replay

/-! ## One call -/

namespace Encoder

variable {e e' : Encoder} {p : Packet} {previous : Pending} {s s' : σ} {failure : Failure}

theorem check_ne_gapTooLong (e : Encoder) (p : Packet) (cycles : ℕ) :
    e.check p ≠ .error (.gapTooLong cycles) := by
  intro h
  rw [check, checkLength, checkLength] at h
  repeat' split at h
  all_goals cases h

/-- What may become of an encoder that rejects a packet for some failure: if the
    gap is too long, it has passed through the quantizer. -/
inductive Rejects (e : Encoder) (timestamp : ℕ) : Failure → Encoder → Prop where
  | unseen {failure : Failure} : (∀ cycles, failure ≠ .gapTooLong cycles) →
      Rejects e timestamp failure e
  | gap {previous : Pending} : e.pending = some previous → Rejects e timestamp
      (.gapTooLong (e.quantizer.quantize (timestamp - previous.timestamp)).1)
      { e with quantizer := (e.quantizer.quantize (timestamp - previous.timestamp)).2 }

theorem Rejects.exists_quantizer {timestamp : ℕ} (h : e.Rejects timestamp failure e') :
    ∃ quantizer, e' = { e with quantizer } := by
  cases h with
  | unseen => exact ⟨e.quantizer, rfl⟩
  | gap => exact ⟨_, rfl⟩

/-- The record of the packet held back could not be written. The packet stays,
    and only its gap may have passed through the quantizer. -/
structure Breaks (e : Encoder) (s : σ) (failure : Failure) (e' : Encoder) (s' : σ) : Prop where
  quantizer : ∃ quantizer, e' = { e with quantizer }
  fields : ∃ previous gap, e.pending = some previous ∧
    writeFields (previous.record gap).fields s = (.error failure, s')

theorem writeRecord_eq_error {gap : UInt32}
    (h : e.writeRecord previous gap s = (.error failure, e', s')) :
    e' = e ∧ writeFields (previous.record gap).fields s = (.error failure, s') := by
  rw [writeRecord] at h
  split at h
  next hwrite =>
    cases h
    exact ⟨rfl, hwrite⟩
  · cases h

/-- Releasing a packet is rejected for the order of the times or for the gap
    between them, or it fails because the packet cannot be written. -/
theorem release_eq_error {timestamp : ℕ} (h : e.release timestamp s = (.error failure, e', s')) :
    (s' = s ∧ e.Rejects timestamp failure e') ∨ e.Breaks s failure e' s' := by
  rw [release] at h
  split at h
  · cases h
  next previous hpending =>
    split at h
    · cases h
      exact .inl ⟨rfl, .unseen nofun⟩
    · simp only [gap] at h
      split at h
      next hgap =>
        cases h
        split at hgap <;> cases hgap
        exact .inl ⟨rfl, .gap hpending⟩
      · obtain ⟨rfl, hwrite⟩ := writeRecord_eq_error h
        exact .inr ⟨⟨_, rfl⟩, previous, _, hpending, hwrite⟩

/-- A packet that is not accepted is rejected, or the one before it cannot be
    written. -/
theorem rejects_or_breaks (h : e.push p s = (.error failure, e', s')) :
    (s' = s ∧ e.Rejects p.timestamp failure e') ∨ e.Breaks s failure e' s' := by
  rw [push] at h
  split at h
  next hcheck =>
    cases h
    exact .inl ⟨rfl, .unseen fun cycles hgap => check_ne_gapTooLong e p cycles (hgap ▸ hcheck)⟩
  · split at h
    next hrelease =>
      cases h
      exact release_eq_error hrelease
    · cases h

theorem push_eq_error (h : e.push p s = (.error failure, e', s')) :
    (s' = s ∧ e.Rejects p.timestamp failure e') ∨
      ∃ fields, writeFields fields s = (.error failure, s') :=
  (rejects_or_breaks h).imp_right fun hbreaks =>
    have ⟨_, _, _, hwrite⟩ := hbreaks.fields
    ⟨_, hwrite⟩

/-! ### The error in a call -/

@[simp]
theorem quantizer_writeRecord (e : Encoder) (previous : Pending) (gap : UInt32) (s : σ) :
    (e.writeRecord previous gap s).2.1.quantizer = e.quantizer := by
  rw [writeRecord]
  split <;> rfl

/-- A release passes no gap through the quantizer, or one that is no longer than
    the time of the packet that comes. -/
theorem quantizer_release (e : Encoder) (timestamp : ℕ) (s : σ) :
    (e.release timestamp s).2.1.quantizer = e.quantizer ∨ ∃ nanos ≤ timestamp,
      (e.release timestamp s).2.1.quantizer = (e.quantizer.quantize nanos).2 := by
  rw [release]
  split
  · exact .inl rfl
  next previous _ =>
    split
    · exact .inl rfl
    · refine .inr ⟨timestamp - previous.timestamp, Nat.sub_le .., ?_⟩
      simp only
      split
      · rfl
      · exact quantizer_writeRecord ..

theorem quantizer_push (e : Encoder) (p : Packet) (s : σ) :
    (e.push p s).2.1.quantizer = e.quantizer ∨ ∃ nanos ≤ p.timestamp,
      (e.push p s).2.1.quantizer = (e.quantizer.quantize nanos).2 := by
  have hrelease := quantizer_release e p.timestamp s
  rw [push]
  split
  · exact .inl rfl
  · split <;> next heq => rwa [heq] at hrelease

theorem quantizer_finish (e : Encoder) (s : σ) :
    (e.finish s).2.1.quantizer = e.quantizer := by
  have hlast (e : Encoder) : (e.releaseLast s).2.1.quantizer = e.quantizer := by
    rw [releaseLast]
    split
    · rfl
    · exact quantizer_writeRecord ..
  have hfill (e : Encoder) (s : σ) : (e.fill s).2.1.quantizer = e.quantizer := by
    rw [fill]
    split <;> rfl
  rw [finish]
  split
  · rfl
  · have hfinished := hlast { e with finished := true }
    split
    next heq => rwa [heq] at hfinished
    next heq =>
      rw [heq] at hfinished
      exact (hfill ..).trans hfinished

end Encoder

/-! ## Many calls -/

/-- What a caller may ask of an encoder. -/
inductive Call where
  | push (p : Packet)
  | finish
  deriving DecidableEq

/-- The time of the packet has 64 bits. -/
def Call.IsTimed : Call → Prop
  | push p => p.timestamp < 2 ^ 64
  | finish => True

/-- Makes a call. -/
def perform : Call → Encoder × σ → Except Failure Unit × Encoder × σ
  | .push p, (e, s) => e.push p s
  | .finish, (e, s) => e.finish s

/-- Makes calls in turn, and keeps what each of them results in. -/
def performAll : List Call → Encoder × σ → List (Except Failure Unit) × Encoder × σ
  | [], x => ([], x)
  | call :: calls, x =>
    let (result, x) := perform call x
    let (results, x) := performAll calls x
    (result :: results, x)

/-- What can be seen of an encoder and its sink. -/
structure Observation (σ : Type) where
  /-- The results of the calls. -/
  results : List (Except Failure Unit)
  packets : ℕ
  bytes : ℕ
  roundingError : Binary64
  sink : σ

/-- What is seen of some calls, and after them. -/
def observe (calls : List Call) (x : Encoder × σ) : Observation σ :=
  let (results, e, sink) := performAll calls x
  { results, packets := e.packets, bytes := e.bytes, roundingError := e.roundingError, sink }

theorem isExact_perform {call : Call} {x : Encoder × σ} (h : x.1.quantizer.IsExact)
    (htimed : call.IsTimed) : (perform call x).2.1.quantizer.IsExact := by
  cases call with
  | push p =>
    rcases x.1.quantizer_push p x.2 with heq | ⟨nanos, hnanos, heq⟩
    · exact heq ▸ h
    · exact heq ▸ h.quantize (Nat.lt_of_le_of_lt hnanos htimed)
  | finish => exact (x.1.quantizer_finish x.2) ▸ h

/-- The error is exact at any time. -/
theorem isExact_performAll {calls : List Call} {x : Encoder × σ} (h : x.1.quantizer.IsExact)
    (htimed : ∀ call ∈ calls, call.IsTimed) :
    (performAll calls x).2.1.quantizer.IsExact := by
  induction calls generalizing x with
  | nil => exact h
  | cons call calls ih =>
    rw [List.forall_mem_cons] at htimed
    exact ih (isExact_perform h htimed.1) htimed.2

/-- A packet that is rejected, at any time, is never seen again: whatever calls
    follow, they show what they show if the packet has been left out. The one
    exception is a gap that is too long and whose computed cycles are not
    whole. -/
theorem observe_push_iff {before : List Call} (hbefore : ∀ call ∈ before, call.IsTimed) (s : σ)
    {p : Packet} (hp : p.timestamp < 2 ^ 64) {failure : Failure} {x y : Encoder × σ}
    (hx : (performAll before ({}, s)).2 = x) (hy : perform (.push p) x = (.error failure, y))
    (hrejection : failure.isRejection = true) :
    (∀ later, observe later y = observe later x) ↔
      ∀ n previous, failure = .gapTooLong n → x.1.pending = some previous →
        (n : ℚ) = cycles (p.timestamp - previous.timestamp) := by
  have hexact : x.1.quantizer.IsExact := hx ▸ isExact_performAll Quantizer.isExact_new hbefore
  obtain ⟨e, s₁⟩ := x
  obtain ⟨e', s₂⟩ := y
  rcases Encoder.push_eq_error hy with ⟨rfl, hrejects⟩ | ⟨fields, hwrite⟩
  · cases hrejects with
    | unseen hgap => exact ⟨fun _ n _ hn => absurd hn (hgap n), fun _ _ => rfl⟩
    | @gap previous hpending =>
      have hiff := hexact.quantize_snd_eq_iff
        (Nat.lt_of_le_of_lt (Nat.sub_le p.timestamp previous.timestamp) hp)
      constructor
      · intro hsame n previous' hn hprevious
        cases hn
        cases hpending.symm.trans hprevious
        -- The error can be seen at once.
        have herror : (e.quantizer.quantize (p.timestamp - previous.timestamp)).2.error =
            e.quantizer.error := congrArg Observation.roundingError (hsame [])
        exact hiff.1 (congrArg Quantizer.mk herror)
      · intro hwhole later
        rw [hiff.2 (hwhole _ previous rfl hpending)]
  · rw [isRejection_of_writeFields hwrite] at hrejection
    cases hrejection

/-- What there is after one packet. -/
def afterFirst : Encoder × Spool := (performAll [.push ⟨1000, 1, [0xaa]⟩] ({}, {})).2

/-- A packet that is earlier than the first. -/
theorem observe_push_of_earlier :
    (perform (.push ⟨999, 1, [0xbb]⟩) afterFirst).1 = .error (.timeReversal 1000 999) ∧
      observe [.push ⟨2000, 1, [0xcc]⟩, .finish] (perform (.push ⟨999, 1, [0xbb]⟩) afterFirst).2 =
        observe [.push ⟨2000, 1, [0xcc]⟩, .finish] afterFirst := by
  have hresult : (perform (.push ⟨999, 1, [0xbb]⟩) afterFirst).1 =
      .error (.timeReversal 1000 999) := by decide +kernel
  have htimed : ∀ call ∈ [Call.push ⟨1000, 1, [0xaa]⟩], call.IsTimed := by simp [Call.IsTimed]
  have hrejected : perform (.push ⟨999, 1, [0xbb]⟩) afterFirst =
      (.error (.timeReversal 1000 999), (perform (.push ⟨999, 1, [0xbb]⟩) afterFirst).2) :=
    Prod.ext hresult rfl
  have hiff := observe_push_iff htimed ({} : Spool) (by decide) rfl hrejected rfl
  exact ⟨hresult, hiff.2 (fun _ _ hgap => by cases hgap) _⟩

/-- A gap of a quarter of a cycle more than `2 ^ 32`: to have rounded it up has
    moved the error by three quarters, so the next gap is rounded down, not
    up. -/
theorem observe_ne_of_gapTooLong :
    (perform (.push ⟨27487791696, 1, [0xbb]⟩) afterFirst).1 = .error (.gapTooLong 4294967297) ∧
      (observe [.push ⟨2000, 1, [0xcc]⟩]
        (perform (.push ⟨27487791696, 1, [0xbb]⟩) afterFirst).2).sink.toBytes.take 4 =
          Bytes.ofUInt32 156 ∧
      (observe [.push ⟨2000, 1, [0xcc]⟩] afterFirst).sink.toBytes.take 4 =
        Bytes.ofUInt32 157 := by
  decide +kernel

end Replay

end PacketTrace
