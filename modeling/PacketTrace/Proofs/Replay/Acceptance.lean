import PacketTrace.Proofs.Replay.Encoder

/-!
# Packets that are all accepted, but for their length

Where packets come in order, and the waits between them are such that a tag can
hold them, an encoder has nothing against any of them but that it may be too
long. It then accepts all packets before the first that is too long, and none
if there is no such packet.

* `Encoder.push_of_not_fits`, `Encoder.Accepted.push_cases`: what becomes of one
  more packet;
* `Encoder.Accepted.putAll_push`: hence what becomes of any number of them.
-/

namespace PacketTrace

namespace Replay

instance (p : Packet) : Decidable (Fits p) :=
  decidable_of_iff (p.capturedLength.toNat ≤ packetLimit ∧ p.wireLength.toNat ≤ packetLimit)
    ⟨fun h => ⟨h.1, h.2⟩, fun h => ⟨h.captured, h.wireLength⟩⟩

/-- The failure of a packet that does not fit the hardware. The number of bytes
    that were captured is looked at before the length on the wire. -/
def refusal (p : Packet) : Failure :=
  .packetTooLong (if packetLimit < p.capturedLength.toNat then p.capturedLength else p.wireLength)
    (UInt32.ofNat packetLimit)

/-- The failure of the first packet that does not fit, if there is one. -/
def tooLong (packets : List Packet) : Option Failure :=
  (packets.find? fun p => !decide (Fits p)).map refusal

theorem tooLong_eq_none_iff {packets : List Packet} :
    tooLong packets = none ↔ ∀ p ∈ packets, Fits p := by
  simp [tooLong]

theorem tooLong_snoc {packets : List Packet} (h : tooLong packets = none) (p : Packet) :
    tooLong (packets ++ [p]) = if Fits p then none else some (refusal p) := by
  rw [tooLong, Option.map_eq_none_iff] at h
  rw [tooLong, List.find?_append, h, Option.none_or]
  by_cases hfits : Fits p <;> simp [hfits]

/-! ## The waits of some of the packets -/

theorem waits_prefix_append (packets more : List Packet) :
    waits packets <+: waits (packets ++ more) := by
  induction more generalizing packets with
  | nil => rw [List.append_nil]
  | cons p more ih =>
    have hlast : waits packets <+: waits (packets ++ [p]) := by
      rcases List.eq_nil_or_concat packets with rfl | ⟨before, q, rfl⟩
      · exact List.nil_prefix
      · rw [List.concat_eq_append, List.append_assoc, List.singleton_append, waits_snoc]
        exact List.prefix_append _ _
    rw [← List.singleton_append, ← List.append_assoc]
    exact hlast.trans (ih (packets ++ [p]))

namespace Encoder

variable {e : Encoder} {p : Packet} {packets : List Packet} {output : Bytes}

theorem check_of_fits (hfinished : e.finished = false) (h : Fits p) : e.check p = .ok () := by
  rw [check, hfinished, checkLength, checkLength, if_neg (Nat.not_lt.2 h.captured),
    if_neg (Nat.not_lt.2 h.wireLength)]
  rfl

theorem check_of_not_fits (hfinished : e.finished = false) (h : ¬ Fits p) :
    e.check p = .error (refusal p) := by
  rw [check, hfinished, checkLength, checkLength, refusal]
  by_cases hcaptured : packetLimit < p.capturedLength.toNat
  · rw [if_pos hcaptured, if_pos hcaptured]
    rfl
  · have hwire : packetLimit < p.wireLength.toNat := by
      rw [← Nat.not_le]
      exact fun hle => h ⟨Nat.le_of_not_lt hcaptured, hle⟩
    rw [if_neg hcaptured, if_neg hcaptured, if_pos hwire]
    rfl

theorem push_of_not_fits {τ : Type} [ByteSink τ] (hfinished : e.finished = false) (h : ¬ Fits p)
    (t : τ) : e.push p t = (.error (refusal p), e, t) := by
  rw [push, check_of_not_fits hfinished h]

/-- A packet that fits and is not too early is accepted, unless no tag can hold the
    wait for it. -/
theorem Accepted.push_cases {s : Spool} (h : e.Accepted packets output) (hlimit : s.limit = none)
    (hfits : Fits p) (hsorted : (packets ++ [p]).IsChain (·.timestamp ≤ ·.timestamp)) :
    (∃ e' s', e.push p s = (.ok (), e', s')) ∨ ∃ cycles ∈ waits (packets ++ [p]),
      2 ^ 32 ≤ cycles ∧ ∃ e', e.push p s = (.error (.gapTooLong cycles), e', s) := by
  rw [Encoder.push, check_of_fits h.finished hfits]
  rcases List.eq_nil_or_concat packets with rfl | ⟨before, previous, rfl⟩
  · rw [release_of_none h.pending_eq]
    exact .inl ⟨_, s, rfl⟩
  · rw [List.concat_eq_append] at h hsorted ⊢
    rw [List.append_assoc, List.singleton_append] at hsorted
    have hpending : e.pending = some (Pending.ofPacket previous) := by
      rw [h.pending_eq, List.getLast?_concat]
      rfl
    have hordered : ¬ p.timestamp < (Pending.ofPacket previous).timestamp :=
      Nat.not_lt.2 (List.isChain_append_cons_cons.1 hsorted).2.1
    obtain ⟨cycles, q, hquantize⟩ : ∃ cycles q, e.quantizer.quantize
        (p.timestamp - (Pending.ofPacket previous).timestamp) = (cycles, q) := ⟨_, _, rfl⟩
    by_cases hcycles : cycles < 2 ^ 32
    · have hgap : gap cycles = .ok (UInt32.ofNat cycles) := if_pos hcycles
      rw [release_of_gap_ok hpending hordered hquantize hgap, writeRecord,
        Spool.writeFields_of_limit_eq_none hlimit]
      exact .inl ⟨_, _, rfl⟩
    · have hgap : gap cycles = .error (.gapTooLong cycles) := if_neg hcycles
      rw [release_of_gap_error hpending hordered hquantize hgap]
      refine .inr ⟨cycles, ?_, Nat.le_of_not_lt hcycles, _, rfl⟩
      rw [List.append_assoc, List.singleton_append, waits_snoc, ← h.quantizer_eq]
      refine List.mem_append_right _ (List.mem_singleton.2 ?_)
      exact (congrArg Prod.fst hquantize).symm

/-- A packet that fits is accepted after those before it. -/
theorem Accepted.exists_push {s : Spool} (h : e.Accepted packets output) (hlimit : s.limit = none)
    (hfits : Fits p) (hsorted : (packets ++ [p]).IsChain (·.timestamp ≤ ·.timestamp))
    (hwaits : ∀ n ∈ waits (packets ++ [p]), n < 2 ^ 32) :
    ∃ e' s', e.push p s = (.ok (), e', s') := by
  rcases h.push_cases hlimit hfits hsorted with haccepted | ⟨cycles, hwait, hlong, -⟩
  · exact haccepted
  · exact absurd (hwaits cycles hwait) (Nat.not_lt.2 hlong)

/-- Packets are accepted up to the first one that does not fit. -/
theorem Accepted.putAll_push {before : List Packet} {s : Spool} (h : e.Accepted before output)
    (hlimit : s.limit = none) (hsorted : (before ++ packets).IsChain (·.timestamp ≤ ·.timestamp))
    (hwaits : ∀ n ∈ waits (before ++ packets), n < 2 ^ 32) :
    (PacketTrace.putAll Encoder.push packets e s).1 = (tooLong packets).elim (.ok ()) .error := by
  induction packets generalizing e before output s with
  | nil => rfl
  | cons p packets ih =>
    have happend : before ++ p :: packets = (before ++ [p]) ++ packets := by
      rw [List.append_assoc, List.singleton_append]
    rw [happend] at hsorted hwaits
    by_cases hfits : Fits p
    · obtain ⟨e', s', hpush⟩ := h.exists_push hlimit hfits hsorted.left_of_append
        fun n hn => hwaits n ((waits_prefix_append _ packets).subset hn)
      obtain ⟨more, rfl, haccepted⟩ := h.push hpush
      rw [PacketTrace.putAll, hpush, tooLong, List.find?_cons_of_neg (by simpa using hfits)]
      exact ih haccepted hlimit hsorted hwaits
    · rw [PacketTrace.putAll, push_of_not_fits h.finished hfits, tooLong,
        List.find?_cons_of_pos (by simpa using hfits)]
      rfl

end Encoder

/-- Packets that a new encoder is given in order, with waits between them that a
    tag can hold. -/
theorem putAll_push {packets : List Packet}
    (hsorted : packets.IsChain (·.timestamp ≤ ·.timestamp))
    (hwaits : ∀ n ∈ waits packets, n < 2 ^ 32) :
    (putAll Encoder.push packets {} ({} : Spool)).1 = (tooLong packets).elim (.ok ()) .error :=
  Encoder.accepted_nil.putAll_push rfl hsorted hwaits

end Replay

end PacketTrace
