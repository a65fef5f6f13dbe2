import PacketTrace.Proofs.Replay.Encoder

/-!
# The timing of a replay trace

A packet is replayed after all the waits before it. Against the exact cycles
since the first packet, the sum of these waits is off for two reasons: it is
rounded up to a whole number, once for all gaps together, and the cycles of
each gap have been computed with a deviation, which the quantizer does not see
(`drift`).

* `sum_take_waits`: the sum of the waits is the exact cycles and the drift,
  rounded up;
* `isOnTime_iff`: so a packet is late by less than a cycle, and not early, just
  if the drift is within what rounding up adds (`slack`), which is so if no gap
  is longer than `exactGap`.
-/

namespace PacketTrace

namespace Replay

variable {e : Encoder} {packets : List Packet} {output : Bytes} {p q : Packet}

/-! ## Elapsed time -/

/-- The time from the first packet to another is the sum of the gaps. -/
theorem add_sum_take_spacings (h : packets.IsChain (·.timestamp ≤ ·.timestamp)) {k : ℕ}
    (hp : packets[0]? = some p) (hq : packets[k]? = some q) :
    p.timestamp + ((spacings packets).take k).sum = q.timestamp := by
  induction packets generalizing p k with
  | nil => cases hp
  | cons r packets ih =>
    cases hp
    cases k with
    | zero =>
      cases hq
      simp
    | succ k =>
      cases packets with
      | nil => cases hq
      | cons t packets =>
        rw [List.isChain_cons_cons] at h
        have hrest := ih h.2 rfl hq
        rw [spacings, List.take_succ_cons, List.sum_cons]
        omega

/-- The cycles by which the computed gaps before a packet exceed the exact
    ones. -/
def drift (packets : List Packet) (k : ℕ) : ℚ :=
  (((spacings packets).take k).map deviation).sum

theorem drift_of_le {k : ℕ} (h : ∀ n ∈ (spacings packets).take k, n ≤ exactGap) :
    drift packets k = 0 := sum_map_deviation_of_le h

/-! ## The sum of the waits -/

theorem sum_take_waits (h : e.Accepted packets output) (k : ℕ) :
    (((waits packets).take k).sum : ℤ) =
      ⌈exactCycles ((spacings packets).take k).sum + drift packets k⌉ := by
  rw [drift, ← sum_map_cycles]
  exact Quantizer.sum_take_run h.waits_lt k

/-- The first `k` waits make up for `elapsed` nanoseconds, and for less than a
    cycle more. -/
def IsOnTime (packets : List Packet) (k elapsed : ℕ) : Prop :=
  0 ≤ 32 * (((waits packets).take k).sum : ℤ) - 5 * elapsed ∧
    32 * (((waits packets).take k).sum : ℤ) - 5 * elapsed < 32

instance (packets : List Packet) (k elapsed : ℕ) : Decidable (IsOnTime packets k elapsed) :=
  inferInstanceAs (Decidable (_ ∧ _))

/-- What rounding up adds to the exact cycles of so many nanoseconds, in parts
    of 32. -/
def slack (nanos : ℕ) : ℤ := -(5 * nanos) % 32

theorem slack_bounds (nanos : ℕ) : 0 ≤ slack nanos ∧ slack nanos < 32 := by
  rw [slack]
  omega

theorem ceil_add_iff (nanos : ℕ) (d : ℚ) :
    (0 ≤ 32 * ⌈exactCycles nanos + d⌉ - 5 * nanos ∧ 32 * ⌈exactCycles nanos + d⌉ - 5 * nanos < 32) ↔
      (slack nanos - 32 : ℚ) < 32 * d ∧ 32 * d ≤ slack nanos := by
  -- The exact cycles, rounded up.
  obtain ⟨m, hm⟩ : ∃ m : ℤ, 5 * (nanos : ℤ) + slack nanos = 32 * m :=
    ⟨(5 * nanos + slack nanos) / 32, by rw [slack]; omega⟩
  have hslack := slack_bounds nanos
  have hcast : 5 * (nanos : ℚ) + slack nanos = 32 * m := by exact_mod_cast hm
  calc (0 ≤ 32 * ⌈exactCycles nanos + d⌉ - 5 * nanos ∧
        32 * ⌈exactCycles nanos + d⌉ - 5 * nanos < 32)
      ↔ ⌈exactCycles nanos + d⌉ = m := by omega
    _ ↔ (m : ℚ) - 1 < exactCycles nanos + d ∧ exactCycles nanos + d ≤ m := Int.ceil_eq_iff
    _ ↔ (slack nanos - 32 : ℚ) < 32 * d ∧ 32 * d ≤ slack nanos := by
      rw [exactCycles]
      constructor <;> rintro ⟨h₁, h₂⟩ <;> constructor <;> linarith

/-- Of packets that are all accepted, the waits before the one with number `k`
    sum up to the exact cycles since the first packet and the drift, rounded
    up. It is on time just if the drift is within the slack, and so it is if
    no gap is longer than `exactGap`. -/
theorem isOnTime_iff {s s' : Spool} (h : putAll Encoder.push packets {} s = (.ok (), e, s'))
    {k : ℕ} (hp : packets[0]? = some p) (hq : packets[k]? = some q) :
    s' = s.append (Trace.layout (frames packets)) ∧
      (((waits packets).take k).sum : ℤ) =
        ⌈exactCycles (q.timestamp - p.timestamp) + drift packets k⌉ ∧
      (IsOnTime packets k (q.timestamp - p.timestamp) ↔
        (slack (q.timestamp - p.timestamp) - 32 : ℚ) < 32 * drift packets k ∧
          32 * drift packets k ≤ slack (q.timestamp - p.timestamp)) ∧
      ((∀ n ∈ (spacings packets).take k, n ≤ exactGap) →
        IsOnTime packets k (q.timestamp - p.timestamp)) := by
  obtain ⟨output, rfl, haccepted⟩ := Encoder.accepted_of_putAll h
  have helapsed : ((spacings packets).take k).sum = q.timestamp - p.timestamp := by
    have hsum := add_sum_take_spacings haccepted.sorted hp hq
    omega
  have hsum := sum_take_waits haccepted k
  rw [helapsed] at hsum
  have hiff : IsOnTime packets k (q.timestamp - p.timestamp) ↔
      (slack (q.timestamp - p.timestamp) - 32 : ℚ) < 32 * drift packets k ∧
        32 * drift packets k ≤ slack (q.timestamp - p.timestamp) := by
    rw [IsOnTime, hsum]
    exact ceil_add_iff _ _
  refine ⟨by rw [haccepted.output_eq], hsum, hiff, fun hshort => hiff.2 ?_⟩
  obtain ⟨hlow, hhigh⟩ := slack_bounds (q.timestamp - p.timestamp)
  rw [drift_of_le hshort, mul_zero]
  constructor
  · rw [sub_neg]
    exact_mod_cast hhigh
  · exact_mod_cast hlow

/-- Three packets at intervals of a microsecond. -/
theorem isOnTime_of_microseconds :
    IsOnTime [⟨0, 64, []⟩, ⟨1000, 64, []⟩, ⟨2000, 64, []⟩] 2 2000 := by
  obtain ⟨e, s, hput⟩ := exists_eq_ok (show
    (putAll Encoder.push [⟨0, 64, []⟩, ⟨1000, 64, []⟩, ⟨2000, 64, []⟩] {} ({} : Spool)).1 =
      .ok () by decide +kernel)
  exact (isOnTime_iff hput (k := 2) rfl rfl).2.2.2 (by decide)

/-- A gap whose cycles are computed with a deviation, followed by a short one:
    the third packet is late by a whole cycle. -/
theorem not_isOnTime_of_deviation :
    ∃ e s, putAll Encoder.push [⟨0, 64, []⟩, ⟨922337207, 64, []⟩, ⟨922337216, 64, []⟩] {}
        ({} : Spool) = (.ok (), e, s) ∧
      ¬ IsOnTime [⟨0, 64, []⟩, ⟨922337207, 64, []⟩, ⟨922337216, 64, []⟩] 2 922337216 := by
  obtain ⟨e, s, hput⟩ := exists_eq_ok (show
    (putAll Encoder.push [⟨0, 64, []⟩, ⟨922337207, 64, []⟩, ⟨922337216, 64, []⟩] {}
      ({} : Spool)).1 = .ok () by decide +kernel)
  exact ⟨e, s, hput, by decide +kernel⟩

end Replay

end PacketTrace
