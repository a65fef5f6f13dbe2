import PacketTrace.Conversion

/-!
# Traffic at a constant rate

The same Ethernet frame over and over, spaced such that it takes up a given
data rate on the line, for a given time (`ConstantRate`). The spacing counts
what a frame costs on the line beyond its bytes (`lineOverhead`). What comes of
it is a number of packets at regular times (`ConstantRate.schedule`).

Rate and time are floating-point numbers, and may be any: an interval or a
time that is not above zero makes no packets.
-/

namespace PacketTrace

/-- The bytes that a frame costs on the line beyond its own: preamble and
    delimiter, check sequence, and the gap between frames. -/
def lineOverhead : Nat := 24

/-- Copies of a frame, at regular times. -/
structure Schedule where
  /-- The number of packets. -/
  count : Nat
  frame : Bytes
  /-- The nanoseconds from one packet to the next. -/
  spacing : Binary64

namespace Schedule

/-- The time of a packet, by its number: the nearest nanosecond. -/
def timestamp (t : Schedule) (i : Nat) : Nat := (Binary64.ofNat i * t.spacing).round.toCount

/-- A packet, by its number. -/
def packet (t : Schedule) (i : Nat) : Packet where
  timestamp := t.timestamp i
  wireLength := UInt32.ofNat t.frame.length
  data := t.frame

/-- The packet that comes next, where the state of the stream is its number. -/
def next {σ : Type} (t : Schedule) (i : Nat) (s : σ) :
    Except Failure (Option Packet) × Nat × σ :=
  if i < t.count then (.ok (some (t.packet i)), i + 1, s) else (.ok none, i, s)

/-- Writes the packets as a packet file. -/
def writePcap {σ : Type} [ByteSink σ] (t : Schedule) (s : σ) : Except Failure Tally × σ :=
  match Pcap.Encoder.start {} s with
  | (.error failure, s) => (.error failure, s)
  | (.ok encoder, s) =>
    match transfer t.next Pcap.Encoder.write (t.count + 1) 0 encoder s with
    | (.error failure, s) => (.error failure, s)
    | (.ok encoder, s) => finishPcap encoder s

end Schedule

/-- Traffic at a constant rate. -/
structure ConstantRate where
  /-- The length of the frame, from the addresses to the end of the payload. -/
  frameLength : Nat := 60
  /-- Bits per second, on the line. -/
  rate : Binary64 := Binary64.ofNat 10000000000
  /-- Seconds. -/
  duration : Binary64 := Binary64.ofRatio false 1 10
  deriving DecidableEq

namespace ConstantRate

/-- The seconds from one packet to the next. -/
def interval (c : ConstantRate) : Binary64 :=
  Binary64.ofNat 8 * Binary64.ofNat (c.frameLength + lineOverhead) / c.rate

/-- The number of packets. -/
def count (c : ConstantRate) : Nat :=
  let zero := Binary64.zero false
  if zero.lt c.interval && zero.lt c.duration then (c.duration / c.interval).floor.toCount
  else 0

/-- The destination and the source of the frame, and the type of its payload,
    which says that it goes back to where it came from. -/
def frameHead : Bytes :=
  [0x53, 0, 0, 0, 0, 2, 0x53, 0, 0, 0, 0, 1, 0x90, 0]

/-- The frame: its head, cut off or filled up with zeros. -/
def frame (c : ConstantRate) : Bytes :=
  let head := frameHead.take c.frameLength
  head ++ List.replicate (c.frameLength - head.length) 0

/-- The packets of the traffic. -/
def schedule (c : ConstantRate) : Schedule where
  count := c.count
  frame := c.frame
  spacing := c.interval * Binary64.ofNat nanosPerSecond

/-- Writes the traffic as a packet file. -/
def writePcap {σ : Type} [ByteSink σ] (c : ConstantRate) (s : σ) : Except Failure Tally × σ :=
  if Replay.packetLimit < c.frameLength then
    (.error (.packetTooLong (UInt32.ofNat c.frameLength) (UInt32.ofNat Replay.packetLimit)), s)
  else
    c.schedule.writePcap s

end ConstantRate

end PacketTrace
