import PacketTrace.Binary64.Arithmetic
import PacketTrace.Clock.Arrival

/-!
# Departure gaps

The replay hardware waits a whole number of clock cycles from one packet to
the next. A `Quantizer` turns gaps in nanoseconds into cycles, and keeps the
error it has accumulated: the cycles it has emitted beyond the exact ones. It
rounds each gap up, unless that would bring the error to a whole cycle, in
which case it rounds down. The exact cycles of a gap (`nanosToCycles`) and the
error are floating-point numbers.
-/

namespace PacketTrace

/-- The cycles in `nanos`, with their fraction. -/
def nanosToCycles (nanos : Nat) : Binary64 :=
  (nanos : Binary64) * (clockFrequency : Nat) / (nanosPerSecond : Nat)

/-- Turns gaps into whole cycles, keeping track of what rounding adds. -/
structure Quantizer where
  /-- The cycles emitted beyond the exact ones. -/
  error : Binary64 := Binary64.zero false
  deriving DecidableEq

/-- The cycles for a gap of `nanos`, and the quantizer after it. -/
def Quantizer.quantize (q : Quantizer) (nanos : Nat) : Nat × Quantizer :=
  let one : Binary64 := Binary64.ofNat 1
  let cycles := nanosToCycles nanos
  let up := cycles.ceil
  let error := q.error + (up - cycles)
  -- An error that is no number is not below one, and rounds down too.
  if error.lt one then (up.toCount, { error })
  else ((up - one).toCount, { error := error - one })

end PacketTrace
