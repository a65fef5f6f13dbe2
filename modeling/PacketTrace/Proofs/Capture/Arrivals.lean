import Mathlib.Algebra.GroupWithZero.Nat
import Mathlib.Data.List.Chain
import PacketTrace.Capture.Walk
import PacketTrace.Proofs.Trace.Record

/-!
# The packets of a capture trace

The packets that a walk over a capture trace meets are those of its records,
each with the time at which the clock stands when it arrives
(`Capture.arrivals`, `Capture.Walk.drain_eq`). The clock starts with the first
packet, and after that it adds up the gaps, each cut off to whole nanoseconds.

* `Capture.AreArrivalsOf`: what is known of the packets of some records;
* `Capture.timestamp_lt_of_mem_arrivals`: how many arrival times fit in 64 bits;
* `Trace.Walk.drain_failure`: a walk that does not come to the end of its trace
  has met a record that is cut off.
-/

namespace PacketTrace

namespace Trace

namespace Walk

variable {stored : UInt64 → ℕ} {w : Walk}

theorem decoder_of_next {record : Record} {w' : Walk}
    (h : w.next stored = (some (.ok record), w')) :
    Record.decoder stored w.rest = .value (some record) w'.rest := by
  rw [next] at h
  split at h
  · cases h
  · split at h
    next hdecoder =>
      cases h
      exact hdecoder
    all_goals cases h

/-- The records of a trace have as many bytes as their tags tell. -/
theorem length_data_of_mem_drain (stored : UInt64 → ℕ) (w : Walk) :
    ∀ r ∈ (w.drain stored).1, r.data.length = stored r.tag := by
  fun_induction drain stored w with
  | case1 w record w' hnext records failure hdrain ih =>
    rw [hdrain] at ih
    intro r hr
    rcases List.mem_cons.1 hr with rfl | hr
    · exact Record.length_data_of_value (decoder_of_next hnext)
    · exact ih r hr
  | case2 => simp
  | case3 => simp

theorem length_drain_le (stored : UInt64 → ℕ) (w : Walk) :
    (w.drain stored).1.length ≤ w.rest.length := by
  fun_induction drain stored w with
  | case1 w record w' hnext records failure hdrain ih =>
    rw [hdrain] at ih
    exact Nat.lt_of_le_of_lt ih (next_rest_lt hnext)
  | case2 => exact Nat.zero_le _
  | case3 => exact Nat.zero_le _

/-- Nothing cuts off the records of a trace but the end of its bytes. -/
theorem drain_failure (stored : UInt64 → ℕ) (w : Walk) :
    (w.drain stored).2 = none ∨ (w.drain stored).2 = some .truncatedInput := by
  fun_induction drain stored w with
  | case1 w record w' hnext records failure hdrain ih => rwa [hdrain] at ih
  | case2 w failure w' hnext =>
    right
    rw [next] at hnext
    split at hnext
    · cases hnext
    · split at hnext
      next => cases hnext
      next => cases hnext
      next =>
        cases hnext
        rfl
      next hrefused => exact absurd hrefused (Record.decoder_ne_refused _ _ _)
  | case3 => exact .inl rfl

theorem drain_of_record {record : Record} {w' : Walk}
    (h : w.next stored = (some (.ok record), w')) :
    w.drain stored = (record :: (w'.drain stored).1, (w'.drain stored).2) := by
  rw [drain]
  split
  next hnext =>
    rw [h] at hnext
    cases hnext
    rfl
  next hnext => rw [h] at hnext; cases hnext
  next hnext => rw [h] at hnext; cases hnext

theorem drain_of_failure {failure : Failure} {w' : Walk}
    (h : w.next stored = (some (.error failure), w')) : w.drain stored = ([], some failure) := by
  rw [drain]
  split
  next hnext => rw [h] at hnext; cases hnext
  next hnext => rw [h] at hnext; cases hnext; rfl
  next hnext => rw [h] at hnext; cases hnext

theorem drain_of_none {w' : Walk} (h : w.next stored = (none, w')) :
    w.drain stored = ([], none) := by
  rw [drain]
  split
  next hnext => rw [h] at hnext; cases hnext
  next hnext => rw [h] at hnext; cases hnext
  next => rfl

end Walk

end Trace

namespace Capture

theorem stored_lt (limit : UInt16) (tag : UInt64) : stored limit tag < 2 ^ 16 :=
  Nat.lt_of_le_of_lt (Nat.min_le_right _ _) limit.toNat_lt

/-- The packets of records that follow one another. -/
def arrivals (clock : ArrivalClock) : List Trace.Record → List Packet
  | [] => []
  | r :: records => packet (arrive clock r) r :: arrivals (arrive clock r) records

@[simp]
theorem length_arrivals (clock : ArrivalClock) (records : List Trace.Record) :
    (arrivals clock records).length = records.length := by
  induction records generalizing clock with
  | nil => rfl
  | cons r records ih => rw [arrivals, List.length_cons, ih, List.length_cons]

theorem take_arrivals (n : ℕ) (clock : ArrivalClock) (records : List Trace.Record) :
    (arrivals clock records).take n = arrivals clock (records.take n) := by
  induction records generalizing n clock with
  | nil => rw [arrivals, List.take_nil, List.take_nil, arrivals]
  | cons r records ih =>
    cases n with
    | zero => rfl
    | succ n => rw [arrivals, List.take_succ_cons, ih, List.take_succ_cons, arrivals]

theorem exists_of_mem_arrivals {clock : ArrivalClock} {records : List Trace.Record} {p : Packet}
    (h : p ∈ arrivals clock records) : ∃ r ∈ records, p.data = r.data := by
  induction records generalizing clock with
  | nil => cases h
  | cons r records ih =>
    rcases List.mem_cons.1 h with rfl | h
    · exact ⟨r, List.mem_cons_self, rfl⟩
    · obtain ⟨r', hr', hdata⟩ := ih h
      exact ⟨r', List.mem_cons_of_mem _ hr', hdata⟩

/-- A packet of a capture trace has no more bytes than its tag can tell. -/
theorem length_data_lt_of_mem_arrivals {clock : ArrivalClock} {limit : UInt16}
    {w : Trace.Walk} {p : Packet} (h : p ∈ arrivals clock (w.drain (stored limit)).1) :
    p.data.length < 2 ^ 16 := by
  obtain ⟨r, hr, hdata⟩ := exists_of_mem_arrivals h
  rw [hdata, Trace.Walk.length_data_of_mem_drain (stored limit) w r hr]
  exact stored_lt limit r.tag

/-! ## Times of arrival -/

/-- The cycles from the packet before to that of a captured record. -/
def cyclesBefore (r : Trace.Record) : ℕ := (Tag.mk r.tag).gap.toNat

/-- The whole nanoseconds in these cycles. -/
def nanosBefore (r : Trace.Record) : ℕ := 32 * cyclesBefore r / 5

/-- The cycles of captured gaps are those that a tag can hold. -/
theorem cyclesBefore_lt {records : List Trace.Record} :
    ∀ d ∈ records.map cyclesBefore, d < 2 ^ 28 := by
  intro d hd
  obtain ⟨r, -, rfl⟩ := List.mem_map.1 hd
  exact Tag.gap_lt _

/-- The first packet leaves the clock as it is, every other adds its gap. -/
theorem now_arrive (clock : ArrivalClock) (r : Trace.Record) :
    (arrive clock r).now = clock.now + if clock.started then nanosBefore r else 0 := by
  have hlt : cyclesBefore r < 2 ^ 28 := Tag.gap_lt _
  have hnanos : cyclesToNanos (cyclesBefore r) = nanosBefore r :=
    cyclesToNanos_eq (Nat.lt_trans hlt (by decide))
  rw [← hnanos]
  cases hstarted : clock.started <;> simp [arrive, ArrivalClock.advance, hstarted, cyclesBefore]

/-- No packet is more than `2 ^ 31` nanoseconds after the one before. -/
theorem now_arrive_le (clock : ArrivalClock) (r : Trace.Record) :
    (arrive clock r).now ≤ clock.now + 2 ^ 31 := by
  have hlt : cyclesBefore r < 2 ^ 28 := Tag.gap_lt _
  rw [now_arrive, nanosBefore]
  split <;> omega

theorem timestamp_le_of_mem_arrivals {clock : ArrivalClock} {records : List Trace.Record}
    {p : Packet} (h : p ∈ arrivals clock records) :
    p.timestamp ≤ clock.now + records.length * 2 ^ 31 := by
  induction records generalizing clock with
  | nil => cases h
  | cons r records ih =>
    have hnow := now_arrive_le clock r
    rw [List.length_cons]
    rcases List.mem_cons.1 h with rfl | h
    · change (arrive clock r).now ≤ _
      omega
    · have hle := ih h
      omega

/-- The arrival times of `2 ^ 32` packets fit in 64 bits. -/
theorem timestamp_lt_of_mem_arrivals {records : List Trace.Record}
    (hlength : records.length ≤ 2 ^ 32) {p : Packet} (h : p ∈ arrivals {} records) :
    p.timestamp < 2 ^ 64 := by
  have hle := timestamp_le_of_mem_arrivals h
  have hnew : ({} : ArrivalClock).now = 0 := rfl
  omega

/-- The packets of records that follow one another arrive when the gaps before
    them have passed. -/
theorem timestamp_of_started {clock : ArrivalClock} (h : clock.started = true)
    {records : List Trace.Record} {i : ℕ} {p : Packet}
    (hp : (arrivals clock records)[i]? = some p) :
    p.timestamp = clock.now + ((records.take (i + 1)).map nanosBefore).sum := by
  induction records generalizing clock i with
  | nil => cases hp
  | cons r records ih =>
    have hnow := now_arrive clock r
    rw [if_pos h] at hnow
    rw [List.take_succ_cons, List.map_cons, List.sum_cons, ← Nat.add_assoc, ← hnow]
    cases i with
    | zero =>
      cases hp
      rfl
    | succ i => exact ih rfl hp

/-- Packets arrive one after the other. -/
theorem isChain_arrivals (clock : ArrivalClock) (records : List Trace.Record) :
    (arrivals clock records).IsChain (·.timestamp ≤ ·.timestamp) := by
  induction records generalizing clock with
  | nil => exact List.isChain_nil
  | cons r records ih =>
    cases records with
    | nil => exact List.isChain_singleton _
    | cons r' records =>
      refine List.isChain_cons_cons.2 ⟨?_, ih (arrive clock r)⟩
      change (arrive clock r).now ≤ (arrive (arrive clock r) r').now
      rw [now_arrive (arrive clock r)]
      exact Nat.le_add_right _ _

/-- The packet has the length on the wire that is told by the tag of the record,
    and its data, of which at most `limit` bytes have been captured. -/
structure IsPacketOf (limit : UInt16) (r : Trace.Record) (p : Packet) : Prop where
  wireLength : p.wireLength.toNat = (Tag.mk r.tag).wireLength.toNat
  data : p.data = r.data
  captured : p.data.length = min p.wireLength.toNat limit.toNat

/-- The packets are those of the records, and arrive when all the gaps between
    the first of them and their own have passed. -/
structure AreArrivalsOf (limit : UInt16) (records : List Trace.Record) (packets : List Packet) :
    Prop where
  each : List.Forall₂ (IsPacketOf limit) records packets
  timestamp : ∀ i p, packets[i]? = some p →
    p.timestamp = ((records.tail.take i).map nanosBefore).sum
  sorted : packets.IsChain (·.timestamp ≤ ·.timestamp)

theorem isPacketOf_packet {limit : UInt16} {r : Trace.Record} {clock : ArrivalClock}
    (hdata : r.data.length = stored limit r.tag) : IsPacketOf limit r (packet clock r) := by
  have hwire : (packet clock r).wireLength.toNat = (Tag.mk r.tag).wireLength.toNat :=
    UInt16.toNat_toUInt32 _
  exact ⟨hwire, rfl, by rw [hwire]; exact hdata⟩

theorem areArrivalsOf_arrivals {limit : UInt16} {records : List Trace.Record}
    (hdata : ∀ r ∈ records, r.data.length = stored limit r.tag) :
    AreArrivalsOf limit records (arrivals {} records) where
  each := by
    generalize ({} : ArrivalClock) = clock
    induction records generalizing clock with
    | nil => exact .nil
    | cons r records ih =>
      rw [List.forall_mem_cons] at hdata
      exact .cons (isPacketOf_packet hdata.1) (ih hdata.2 _)
  timestamp := by
    intro i p hp
    cases records with
    | nil => cases hp
    | cons r records =>
      cases i with
      | zero =>
        cases hp
        rfl
      | succ i =>
        have hstarted : (arrive {} r).started = true := rfl
        exact (timestamp_of_started hstarted hp).trans (Nat.zero_add _)
  sorted := isChain_arrivals {} records

namespace Walk

variable {w : Walk}

theorem drain_of_packet {p : Packet} (h : w.next.1 = some (.ok p)) :
    w.drain = (p :: w.next.2.drain.1, w.next.2.drain.2) := by
  rw [drain]
  split
  next hnext =>
    rw [hnext] at h ⊢
    cases h
    rfl
  next hnext => rw [hnext] at h; cases h
  next hnext => rw [hnext] at h; cases h

theorem drain_of_none (h : w.next.1 = none) : w.drain = ([], none) := by
  rw [drain]
  split
  next hnext => rw [hnext] at h; cases h
  next hnext => rw [hnext] at h; cases h
  next => rfl

/-- The packets of a trace are those of its records. -/
theorem drain_eq (w : Walk) :
    w.drain = (arrivals w.clock (w.place.drain (stored w.limit)).1,
      (w.place.drain (stored w.limit)).2) := by
  fun_induction drain w with
  | case1 w p w' hnext packets failure hdrain ih =>
    rw [next] at hnext
    split at hnext
    next record place hplace =>
      cases hnext
      rw [hdrain] at ih
      cases ih
      rw [Trace.Walk.drain_of_record hplace]
      rfl
    all_goals cases hnext
  | case2 w failure w' hnext =>
    rw [next] at hnext
    split at hnext
    next => cases hnext
    next place hplace =>
      cases hnext
      rw [Trace.Walk.drain_of_failure hplace]
      rfl
    next => cases hnext
  | case3 w w' hnext =>
    rw [next] at hnext
    split at hnext
    next => cases hnext
    next => cases hnext
    next place hplace =>
      rw [Trace.Walk.drain_of_none hplace]
      rfl

end Walk

end Capture

end PacketTrace
