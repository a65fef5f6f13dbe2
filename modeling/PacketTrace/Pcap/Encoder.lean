import PacketTrace.Pcap.Entry
import PacketTrace.Pcap.Header
import PacketTrace.Stream.Sink

/-!
# Writing packet files

A packet file is written to a sink entry by entry (`Pcap.Encoder`), after its
header (`Pcap.Encoder.start`). An entry counts once it is written whole.
-/

namespace PacketTrace

namespace Pcap

/-- What has been written of a packet file. -/
structure Encoder where
  /-- The number of bytes written. Like that of the packets it has no bound of its
      own: it is no more than the sink was given. -/
  bytes : Nat
  /-- The number of packets written. -/
  packets : Nat := 0
  deriving DecidableEq

namespace Encoder

variable {σ : Type} [ByteSink σ]

/-- Begins a file by writing its header. -/
def start (header : Header) (s : σ) : Except Failure Encoder × σ :=
  match writeFields header.fields s with
  | (.ok bytes, s) => (.ok { bytes }, s)
  | (.error failure, s) => (.error failure, s)

/-- Writes the entry of a packet. -/
def write (e : Encoder) (p : Packet) (s : σ) : Except Failure Unit × Encoder × σ :=
  match Entry.ofPacket p with
  | .error failure => (.error failure, e, s)
  | .ok entry =>
    match writeFields entry.fields s with
    | (.error failure, s) => (.error failure, e, s)
    | (.ok written, s) => (.ok (), { bytes := e.bytes + written, packets := e.packets + 1 }, s)

end Encoder

end Pcap

end PacketTrace
