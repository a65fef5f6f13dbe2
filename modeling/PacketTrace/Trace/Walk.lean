import PacketTrace.Trace.Record

/-!
# Walking a trace

A trace that is wholly in memory is walked record by record (`Trace.Walk`).
The walk ends at the tag that ends the trace, or where the bytes end; a record
that runs past the end of the bytes is reported once, and ends it too.

* `Trace.Walk.next`: the next record;
* `Trace.Walk.drain`: all records that are left, and what cut them off.
-/

namespace PacketTrace

namespace Trace

/-- Refuses traces that do not fill whole blocks. -/
def checkAligned (size : Nat) : Except Failure Unit :=
  if isAligned size traceBoundary then .ok () else .error (.unalignedTrace size traceBoundary)

/-- A place in a trace. -/
structure Walk where
  /-- The bytes that are yet to be read. -/
  rest : Bytes
  /-- The end of the trace, or a fault in it, has been met. -/
  done : Bool := false
  deriving DecidableEq

namespace Walk

/-- The start of a trace. -/
def ofTrace (trace : Bytes) : Except Failure Walk := do
  checkAligned trace.length
  return { rest := trace }

/-- The next record, where `stored` tells its length from its tag. -/
def next (stored : UInt64 → Nat) (w : Walk) : Option (Except Failure Record) × Walk :=
  if w.done || w.rest.isEmpty then (none, w)
  else match Record.decoder stored w.rest with
    | .value (some record) rest => (some (.ok record), { w with rest })
    -- What comes after the end of the trace is not looked at.
    | .value none _ => (none, { w with done := true })
    | .short _ => (some (.error .truncatedInput), { w with done := true })
    | .refused failure => (some (.error failure), { w with done := true })

theorem next_rest_lt {stored : UInt64 → Nat} {w w' : Walk} {record : Record}
    (h : w.next stored = (some (.ok record), w')) : w'.rest.length < w.rest.length := by
  unfold next at h
  split at h
  · simp at h
  · split at h
    next hd =>
      simp only [Prod.mk.injEq] at h
      rw [← h.2]
      exact Record.decoder_rest_lt hd
    all_goals simp at h

/-- All records that are left, and the failure that cuts them off, if any. -/
def drain (stored : UInt64 → Nat) (w : Walk) : List Record × Option Failure :=
  match _h : w.next stored with
  | (some (.ok record), w') =>
    let (records, failure) := drain stored w'
    (record :: records, failure)
  | (some (.error failure), _) => ([], some failure)
  | (none, _) => ([], none)
termination_by w.rest.length
decreasing_by exact next_rest_lt _h

end Walk

end Trace

end PacketTrace
