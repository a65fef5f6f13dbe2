import PacketTrace.Capture.Stream
import PacketTrace.Pcap.Encoder
import PacketTrace.Pcap.Stream
import PacketTrace.Replay.Encoder

/-!
# Conversions

A capture trace is converted to a packet file (`captureToPcap`), and a packet
file to a replay trace (`pcapToReplay`), packet by packet and in one pass. The
first failure ends a conversion; what was written before it stays.

Both ends of a conversion belong to one state, which is a source and a sink.
The input is opened, and its size or its header checked, before anything is
written; `writePcap` and `writeReplay` are what follows.
-/

namespace PacketTrace

/-- The outcome of a conversion, in numbers without a bound. Words of 64 bits hold
    both if they hold the length of the output (`Pcap.IsOutcome.packets_le`,
    `Replay.IsOutcome.packets_le`). -/
structure Tally where
  /-- The number of packets written. -/
  packets : Nat
  /-- The number of bytes written. -/
  bytes : Nat
  deriving DecidableEq

variable {σ ι ο : Type}

/-- Passes packets on from a stream to an encoder, up to the end of the stream
    or the first failure, and at most `n` packets. -/
def transfer (next : ι → σ → Except Failure (Option Packet) × ι × σ)
    (put : ο → Packet → σ → Except Failure Unit × ο × σ) :
    (n : Nat) → ι → ο → σ → Except Failure ο × σ
  | 0, _, encoder, s => (.ok encoder, s)
  | n + 1, stream, encoder, s =>
    match next stream s with
    | (.error failure, _, s) => (.error failure, s)
    | (.ok none, _, s) => (.ok encoder, s)
    | (.ok (some p), stream, s) =>
      match put encoder p s with
      | (.error failure, _, s) => (.error failure, s)
      | (.ok (), encoder, s) => transfer next put n stream encoder s

/-- More packets than can come out of a window and its source: each takes up
    at least a byte. -/
def packetBound [ByteSource σ] (window : Window) (s : σ) : Nat :=
  window.unread.length + ByteSource.bound s + 1

/-- Ends a packet file. -/
def finishPcap [ByteSink σ] (encoder : Pcap.Encoder) (s : σ) : Except Failure Tally × σ :=
  match flushSink s with
  | (.error failure, s) => (.error failure, s)
  | (.ok (), s) => (.ok { packets := encoder.packets, bytes := encoder.bytes }, s)

/-- Writes the packets of a capture trace as a packet file. -/
def writePcap [ByteSource σ] [ByteSink σ] (stream : Capture.Stream) (s : σ) :
    Except Failure Tally × σ :=
  match Pcap.Encoder.start {} s with
  | (.error failure, s) => (.error failure, s)
  | (.ok encoder, s) =>
    let n := packetBound stream.window s
    match transfer Capture.Stream.next Pcap.Encoder.write n stream encoder s with
    | (.error failure, s) => (.error failure, s)
    | (.ok encoder, s) => finishPcap encoder s

/-- Writes the packets of a packet file as a replay trace. -/
def writeReplay [ByteSource σ] [ByteSink σ] (stream : Pcap.Stream) (s : σ) :
    Except Failure Tally × σ :=
  let n := packetBound stream.window s
  match transfer Pcap.Stream.next Replay.Encoder.push n stream {} s with
  | (.error failure, s) => (.error failure, s)
  | (.ok encoder, s) =>
    match encoder.finish s with
    | (.error failure, _, s) => (.error failure, s)
    | (.ok (), encoder, s) => (.ok { packets := encoder.packets, bytes := encoder.bytes }, s)

/-- Converts a capture trace, with at most `limit` bytes of each packet in it,
    to a packet file. -/
def captureToPcap [SeekableSource σ] [ByteSink σ] (capacity : Nat) (limit : UInt16) (s : σ) :
    Except Failure Tally × σ :=
  match Capture.Stream.start capacity limit s with
  | (.error failure, s) => (.error failure, s)
  | (.ok stream, s) => writePcap stream s

/-- Converts a packet file to a replay trace. -/
def pcapToReplay [ByteSource σ] [ByteSink σ] (capacity : Nat) (s : σ) :
    Except Failure Tally × σ :=
  match Pcap.Stream.start capacity s with
  | (.error failure, s) => (.error failure, s)
  | (.ok stream, s) => writeReplay stream s

/-- The capacity of a window, unless told otherwise. -/
def defaultCapacity : Nat := 65536

end PacketTrace
