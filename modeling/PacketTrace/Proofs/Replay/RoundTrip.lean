import PacketTrace.Proofs.Replay.Encoder

/-!
# Replay traces are read as they were written

The frames of a finished trace are records that tell their length and do not
end the trace, and what fills its last block is words of all ones, if anything
at all. So a walk over it yields the frames in turn and then nothing more
(`Encoder.Accepted.answer_next_trace`).

* `walk_finish`: what an encoder writes up to its end, and what is read back.
-/

namespace PacketTrace

namespace Replay

variable {e : Encoder} {packets : List Packet} {output : Bytes}

theorem eight_dvd_length_records (packets : List Packet) :
    8 ∣ (Trace.layout (allFrames packets)).length := Trace.eight_dvd_length_layout _

/-- A finished trace fills whole blocks. -/
theorem dvd_length_trace (packets : List Packet) : 64 ∣ (trace packets).length := by
  rw [trace, List.length_append, List.length_replicate]
  omega

/-- What fills the last block has no record in it. -/
theorem isOver_filler {n : ℕ} (h : 8 ∣ n) :
    ({ rest := List.replicate ((64 - n % 64) % 64) 0xff } : Trace.Walk).IsOver stored := by
  rcases Nat.eq_zero_or_pos ((64 - n % 64) % 64) with hzero | hpos
  · exact .inr (.inl (by rw [hzero, List.replicate_zero]))
  · exact .inr (.inr ⟨_, Trace.decoder_ones stored (by omega)⟩)

/-- The waits of all frames fit in their tags. -/
theorem Encoder.Accepted.allWaits_lt (h : e.Accepted packets output) :
    ∀ n ∈ waits packets ++ [0], n < 2 ^ 32 := by
  intro n hn
  rcases List.mem_append.1 hn with hn | hn
  · exact h.waits_lt n hn
  · rw [List.mem_singleton.1 hn]
    exact Nat.two_pow_pos 32

theorem Encoder.Accepted.isPlain (h : e.Accepted packets output) :
    ∀ r ∈ allFrames packets, r.IsPlain stored := by
  intro r hr
  obtain ⟨i, hi, rfl⟩ := List.mem_iff_getElem.1 hr
  rw [length_allFrames] at hi
  simp only [allFrames, List.getElem_zipWith]
  exact isPlain_frame (h.fits _ (List.getElem_mem hi)) (h.allWaits_lt _ (List.getElem_mem _))

/-- A finished trace is walked frame by frame. -/
theorem Encoder.Accepted.answer_next_trace (h : e.Accepted packets output) (n : ℕ) :
    answer (Trace.Walk.next stored) { rest := trace packets } n =
      ((allFrames packets)[n]?).map .ok :=
  Trace.Walk.answer_next_layout h.isPlain (isOver_filler (eight_dvd_length_records packets)) n

theorem ofTrace_trace (packets : List Packet) :
    Trace.Walk.ofTrace (trace packets) = .ok { rest := trace packets } :=
  Trace.Walk.ofTrace_of_dvd (dvd_length_trace packets)

/-- Of packets that are all accepted, on a spool that takes every write, all
    but the last are written at once, and the last when the trace is finished,
    with no wait after it. The finished trace has fewer than 64 bytes after
    the frames, all ones, and is read back frame by frame. The numbers of
    every frame fit in the bits they have in its tag. A packet of `2 ^ 32` bytes
    or more is accepted by what is left of their number in 32 bits, which is what
    its tag tells; its frame has the first of them. -/
theorem walk_finish {s : Spool} (h : putAll Encoder.push packets {} ({} : Spool) = (.ok (), e, s)) :
    (∀ p ∈ packets, p.capturedLength.toNat < 2 ^ 16 ∧ p.wireLength.toNat < 2 ^ 16) ∧
      (∀ n ∈ waits packets, n < 2 ^ 32) ∧
      s.toBytes = Trace.layout (frames packets) ∧
      ∃ e' s', e.finish s = (.ok (), e', s') ∧
        (∃ m < 64, 64 ∣ s'.toBytes.length ∧
          s'.toBytes = Trace.layout (allFrames packets) ++ List.replicate m 0xff) ∧
        e'.packets = packets.length ∧ e'.bytes = s'.toBytes.length ∧
        ∃ w, Trace.Walk.ofTrace s'.toBytes = .ok w ∧
          ∀ n, answer (Trace.Walk.next stored) w n = ((allFrames packets)[n]?).map .ok := by
  obtain ⟨output, rfl, haccepted⟩ := Encoder.accepted_of_putAll h
  have hbytes (output : Bytes) : (({} : Spool).append output).toBytes = output := by
    rw [Spool.toBytes_append]
    rfl
  obtain ⟨e', s', hfinish⟩ := e.exists_finish (s := ({} : Spool).append output) rfl rfl
  obtain ⟨tail, rfl, htrace, hpackets, hcount⟩ := haccepted.finish hfinish
  rw [Spool.append_append, htrace] at hfinish
  refine ⟨fun p hp => ?_, haccepted.waits_lt, ?_, e', _, hfinish, ?_, hpackets, ?_, ?_⟩
  · have hcaptured := (haccepted.fits p hp).captured
    have hwire := (haccepted.fits p hp).wireLength
    rw [packetLimit] at hcaptured hwire
    omega
  · rw [hbytes, haccepted.output_eq]
  · rw [hbytes]
    exact ⟨_, Nat.mod_lt _ (by omega), dvd_length_trace packets, rfl⟩
  · rw [hbytes, hcount]
  · rw [hbytes]
    exact ⟨_, ofTrace_trace packets, haccepted.answer_next_trace⟩

/-- Two packets, 64 nanoseconds apart, the second of which was cut off. -/
theorem walk_finish_pair :
    ∃ e s, putAll Encoder.push [⟨0, 3, [1, 2, 3]⟩, ⟨64, 2, [4]⟩] {} ({} : Spool) = (.ok (), e, s) ∧
      s.toBytes = [10, 0, 0, 0, 3, 0, 3, 0, 1, 2, 3, 0, 0, 0, 0, 0] := by
  obtain ⟨e, s, hput⟩ := exists_eq_ok (show
    (putAll Encoder.push [⟨0, 3, [1, 2, 3]⟩, ⟨64, 2, [4]⟩] {} ({} : Spool)).1 = .ok () by
      decide +kernel)
  refine ⟨e, s, hput, ?_⟩
  rw [(walk_finish hput).2.2.1]
  decide +kernel

end Replay

end PacketTrace
