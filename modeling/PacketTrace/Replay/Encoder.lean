import PacketTrace.Clock.Departure
import PacketTrace.Packet
import PacketTrace.Replay.Tag
import PacketTrace.Stream.Sink

/-!
# Writing replay traces

The tag of a replay record tells how long to wait before the *next* packet, so
a packet is written only once the one after it is known: the encoder holds one
packet back (`Replay.Encoder.pending`). Finishing the trace writes the last
packet, with no wait after it, and fills the last block of the trace with
bytes of all ones, which read as the end of the trace.

* `Replay.Encoder.push`: adds a packet, unless it is too long for the hardware
  or its time does not follow the time of the packet before. The packet held
  back is not written then, but its gap may have passed through the quantizer
  already;
* `Replay.Encoder.finish`: ends the trace, for good: also if it fails.

As many bytes are written of a packet as it had on the wire. Those that were
not captured are zeros.
-/

namespace PacketTrace

namespace Replay

/-- The longest packet that the hardware can store. -/
def packetLimit : Nat := 1518

/-- A packet that waits for the time of the next one. -/
structure Pending where
  timestamp : Nat
  /-- The number of bytes that were captured. -/
  captured : UInt16
  /-- The length of the packet on the wire. -/
  wireLength : UInt16
  /-- As many bytes as the packet had on the wire. -/
  payload : Bytes
  deriving DecidableEq

namespace Pending

/-- Cuts the data of a packet to the length on the wire, or fills it up with
    zeros. -/
def ofPacket (p : Packet) : Pending :=
  let wireLength := p.wireLength.toNat
  let data := p.data.take wireLength
  { timestamp := p.timestamp
    captured := p.capturedLength.toUInt16
    wireLength := p.wireLength.toUInt16
    payload := data ++ List.replicate (wireLength - data.length) 0 }

/-- The record of a packet that is followed by another after `gap` cycles. -/
def record (p : Pending) (gap : UInt32) : Trace.Record where
  tag := Tag.toWord { gap, captured := p.captured, wireLength := p.wireLength }
  data := p.payload

@[simp]
theorem length_payload_ofPacket (p : Packet) :
    (ofPacket p).payload.length = p.wireLength.toNat := by
  simp only [ofPacket, List.length_append, List.length_take, List.length_replicate]
  omega

end Pending

/-- What has been written of a replay trace, and what waits to be. -/
structure Encoder where
  quantizer : Quantizer := {}
  /-- The packet held back. -/
  pending : Option Pending := none
  /-- The number of bytes written. Like that of the packets it has no bound of its
      own: it is no more than the sink was given. -/
  bytes : Nat := 0
  /-- The number of packets written. -/
  packets : Nat := 0
  /-- The trace takes no more packets. -/
  finished : Bool := false
  deriving DecidableEq

/-- The cycles of a gap as they are stored in a record. -/
def gap (cycles : Nat) : Except Failure UInt32 :=
  if cycles < 2 ^ 32 then .ok (UInt32.ofNat cycles) else .error (.gapTooLong cycles)

/-- Packets beyond the limit of the hardware are refused. -/
def checkLength (length : UInt32) : Except Failure Unit :=
  if packetLimit < length.toNat then .error (.packetTooLong length (UInt32.ofNat packetLimit))
  else .ok ()

/-- The bytes that fill the last block of a trace of so many bytes. -/
def filler (bytes : Nat) : Bytes := List.replicate (padding bytes traceBoundary) 0xff

namespace Encoder

variable {σ : Type} [ByteSink σ]

/-- The error accumulated by rounding gaps, in cycles. -/
def roundingError (e : Encoder) : Binary64 := e.quantizer.error

/-- Writes the record of a packet. It counts once it is written whole. -/
def writeRecord (e : Encoder) (p : Pending) (gap : UInt32) (s : σ) :
    Except Failure Unit × Encoder × σ :=
  match writeFields (p.record gap).fields s with
  | (.error failure, s) => (.error failure, e, s)
  | (.ok written, s) =>
    (.ok (), { e with bytes := e.bytes + written, packets := e.packets + 1 }, s)

/-- Writes the packet held back, now that the time of the next is known. -/
def release (e : Encoder) (timestamp : Nat) (s : σ) : Except Failure Unit × Encoder × σ :=
  match e.pending with
  | none => (.ok (), e, s)
  | some previous =>
    if timestamp < previous.timestamp then
      (.error (.timeReversal previous.timestamp timestamp), e, s)
    else
      let (cycles, quantizer) := e.quantizer.quantize (timestamp - previous.timestamp)
      -- From here on the gap has passed through the quantizer, whatever
      -- becomes of the packet.
      let e := { e with quantizer }
      match gap cycles with
      | .error failure => (.error failure, e, s)
      | .ok gap => e.writeRecord previous gap s

/-- Whether a packet may be added, as far as it does not depend on the packet
    before. -/
def check (e : Encoder) (p : Packet) : Except Failure Unit := do
  if e.finished then throw .traceClosed
  checkLength p.capturedLength
  checkLength p.wireLength

/-- Adds a packet to the trace. -/
def push (e : Encoder) (p : Packet) (s : σ) : Except Failure Unit × Encoder × σ :=
  match e.check p with
  | .error failure => (.error failure, e, s)
  | .ok () =>
    match e.release p.timestamp s with
    | (.error failure, e, s) => (.error failure, e, s)
    | (.ok (), e, s) => (.ok (), { e with pending := some (Pending.ofPacket p) }, s)

/-- Writes the packet held back as the last one. -/
def releaseLast (e : Encoder) (s : σ) : Except Failure Unit × Encoder × σ :=
  match e.pending with
  | none => (.ok (), e, s)
  | some last => { e with pending := none }.writeRecord last 0 s

/-- Fills the last block of the trace, and flushes the sink. -/
def fill (e : Encoder) (s : σ) : Except Failure Unit × Encoder × σ :=
  match writeFields [filler e.bytes] s with
  | (.error failure, s) => (.error failure, e, s)
  | (.ok written, s) =>
    let (result, s) := flushSink s
    (result, { e with bytes := e.bytes + written }, s)

/-- Ends the trace. Once it has been ended, this does nothing. -/
def finish (e : Encoder) (s : σ) : Except Failure Unit × Encoder × σ :=
  if e.finished then (.ok (), e, s)
  else
    match { e with finished := true }.releaseLast s with
    | (.error failure, e, s) => (.error failure, e, s)
    | (.ok (), e, s) => e.fill s

end Encoder

end Replay

end PacketTrace
