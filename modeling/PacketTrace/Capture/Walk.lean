import PacketTrace.Capture.Tag
import PacketTrace.Clock.Arrival
import PacketTrace.Trace.Walk

/-!
# Captured packets

The packets of a capture trace that is in memory, with their times of arrival
(`Capture.Walk`). The walk can be started again from the first record, which
takes the clock back too.
-/

namespace PacketTrace

namespace Capture

/-- The packet of a record, which arrives when the clock says. -/
def packet (clock : ArrivalClock) (record : Trace.Record) : Packet where
  timestamp := clock.now
  wireLength := (Tag.mk record.tag).wireLength.toUInt32
  data := record.data

/-- The clock at the arrival of a record. -/
def arrive (clock : ArrivalClock) (record : Trace.Record) : ArrivalClock :=
  clock.advance (Tag.mk record.tag).gap.toNat

/-- A place in a capture trace. -/
structure Walk where
  /-- The whole trace. -/
  trace : Bytes
  /-- The most bytes captured of a packet. -/
  limit : UInt16
  /-- The place in the trace. -/
  place : Trace.Walk
  clock : ArrivalClock := {}
  deriving DecidableEq

namespace Walk

/-- The start of a trace. -/
def ofTrace (trace : Bytes) (limit : UInt16) : Except Failure Walk := do
  let place ← Trace.Walk.ofTrace trace
  return { trace, limit, place }

/-- The next packet. -/
def next (w : Walk) : Option (Except Failure Packet) × Walk :=
  match w.place.next (stored w.limit) with
  | (some (.ok record), place) =>
    let clock := arrive w.clock record
    (some (.ok (packet clock record)), { w with place, clock })
  | (some (.error failure), place) => (some (.error failure), { w with place })
  | (none, place) => (none, { w with place })

/-- Starts again from the first record. -/
def restart (w : Walk) : Walk := { w with place := { rest := w.trace }, clock := {} }

theorem next_rest_lt {w w' : Walk} {p : Packet} (h : w.next = (some (.ok p), w')) :
    w'.place.rest.length < w.place.rest.length := by
  unfold next at h
  split at h
  next hn =>
    simp only [Prod.mk.injEq] at h
    rw [← h.2]
    exact Trace.Walk.next_rest_lt hn
  all_goals simp at h

/-- All packets that are left, and the failure that cuts them off, if any. -/
def drain (w : Walk) : List Packet × Option Failure :=
  match _h : w.next with
  | (some (.ok p), w') =>
    let (packets, failure) := drain w'
    (p :: packets, failure)
  | (some (.error failure), _) => ([], some failure)
  | (none, _) => ([], none)
termination_by w.place.rest.length
decreasing_by exact next_rest_lt _h

end Walk

end Capture

end PacketTrace
