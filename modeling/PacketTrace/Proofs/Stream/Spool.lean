import PacketTrace.Stream.Spool

/-!
# Records on a spool

A spool may have a limit, but a record that it reports as written is there
whole: what it takes in part, it does not report as written
(`Spool.writeFields_eq_ok`).
-/

namespace PacketTrace

namespace Spool

theorem write_eq_ok {s s' : Spool} {bytes : Bytes} {taken : Nat}
    (h : ByteSink.write bytes s = (.ok taken, s')) (hwhole : bytes.length ≤ taken) :
    taken = bytes.length ∧ s' = s.append bytes := by
  change s.write bytes = _ at h
  rw [write] at h
  split at h
  · cases h
    exact ⟨rfl, rfl⟩
  · simp only at h
    split at h
    · cases h
      exact ⟨rfl, rfl⟩
    · split at h
      · cases h
      · cases h
        contradiction

theorem writeFields_eq_ok {s s' : Spool} {fields : List Bytes} {written : Nat}
    (h : writeFields fields s = (.ok written, s')) :
    written = fields.flatten.length ∧ s' = s.append fields.flatten := by
  induction fields generalizing s written with
  | nil =>
    rw [writeFields] at h
    cases h
    exact ⟨rfl, (append_nil _).symm⟩
  | cons field fields ih =>
    rw [writeFields] at h
    split at h
    · cases h
    next taken s₁ hfield =>
      split at h
      · cases h
      next hwhole =>
        split at h
        next more s₂ hfields =>
          cases h
          obtain ⟨rfl, rfl⟩ := write_eq_ok hfield (Nat.le_of_not_lt hwhole)
          obtain ⟨rfl, rfl⟩ := ih hfields
          simp
        · cases h

/-- Flushing does not touch what is there. -/
theorem flushSink_snd (s : Spool) : (flushSink s).2 = s := by
  rw [flushSink]
  cases hflush : s.failsFlush <;> simp [ByteSink.flush, hflush]

theorem flushSink_of_failsFlush_eq_false {s : Spool} (h : s.failsFlush = false) :
    flushSink s = (.ok (), s) := by
  simp [flushSink, ByteSink.flush, h]

end Spool

end PacketTrace
