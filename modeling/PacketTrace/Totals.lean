import PacketTrace.Capture.Tag
import PacketTrace.Replay.Tag
import PacketTrace.Trace.Walk

/-!
# Totals

Sums over the records of a trace (`Totals`), of either kind: the packets,
their lengths on the wire, the bytes captured of them, and the gaps between
them in clock cycles. In a capture trace the first gap is not one between
packets, and is left out.
-/

namespace PacketTrace

/-- The kinds of trace. -/
inductive TraceKind where
  /-- Written by the capture hardware, set to capture at most `limit` bytes of
      a packet. -/
  | capture (limit : UInt16)
  /-- Read by the replay hardware. -/
  | replay
  deriving DecidableEq

/-- Sums over the records of a trace, as numbers without a bound. Words of 64 bits
    hold all of them if there are fewer than `2 ^ 32` records
    (`Totals.IsBounded.lt`). -/
structure Totals where
  /-- The size of the trace, in bytes. -/
  size : Nat := 0
  packets : Nat := 0
  /-- The lengths of the packets on the wire. -/
  wireBytes : Nat := 0
  /-- The bytes captured of the packets. -/
  capturedBytes : Nat := 0
  /-- The clock cycles between the packets. -/
  gapCycles : Nat := 0
  deriving DecidableEq

namespace Totals

/-- Adds a record of a capture trace. -/
def addCaptured (t : Totals) (r : Trace.Record) : Totals :=
  let tag := Capture.Tag.mk r.tag
  { t with
    packets := t.packets + 1
    wireBytes := t.wireBytes + tag.wireLength.toNat
    capturedBytes := t.capturedBytes + r.data.length
    gapCycles := if t.packets = 0 then t.gapCycles else t.gapCycles + tag.gap.toNat }

/-- Adds a record of a replay trace. -/
def addReplayed (t : Totals) (r : Trace.Record) : Totals :=
  let tag := Replay.Tag.ofWord r.tag
  { t with
    packets := t.packets + 1
    wireBytes := t.wireBytes + tag.wireLength.toNat
    capturedBytes := t.capturedBytes + min tag.captured.toNat r.data.length
    gapCycles := t.gapCycles + tag.gap.toNat }

/-- Adds up the records of a byte string, to the end of the trace or of the
    bytes. -/
def sum (stored : UInt64 → Nat) (add : Totals → Trace.Record → Totals) (t : Totals)
    (bytes : Bytes) : Except Failure Totals :=
  if bytes.isEmpty then .ok t
  else match _h : Trace.Record.decoder stored bytes with
    | .value (some record) rest => sum stored add (add t record) rest
    | .value none _ => .ok t
    | .short _ => .error .truncatedInput
    | .refused failure => .error failure
termination_by bytes.length
decreasing_by exact Trace.Record.decoder_rest_lt _h

/-- The totals of a trace. -/
def ofTrace (kind : TraceKind) (trace : Bytes) : Except Failure Totals := do
  let size := trace.length
  Trace.checkAligned size
  match kind with
  | .capture limit => sum (Capture.stored limit) addCaptured { size } trace
  | .replay => sum Replay.stored addReplayed { size } trace

/-- The totals as five lines of text. -/
def render (t : Totals) : String :=
  s!"file size:        {t.size} bytes\n" ++
  s!"packets:          {t.packets}\n" ++
  s!"wire bytes:       {t.wireBytes}\n" ++
  s!"captured bytes:   {t.capturedBytes}\n" ++
  s!"total gap cycles: {t.gapCycles}"

end Totals

end PacketTrace
