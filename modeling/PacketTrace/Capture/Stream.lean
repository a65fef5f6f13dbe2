import PacketTrace.Capture.Walk
import PacketTrace.Stream.Window

/-!
# Streaming captured packets

The packets of a capture trace that is read from a source through a window
(`Capture.Stream`), so that a trace may be larger than memory. The size of the
trace is checked when the stream is opened (`Capture.Stream.start`).

A failure of the source leaves the stream as it was, to be tried again; every
other failure, and the end of the trace, finish it. It can be started again
from the first record (`Capture.Stream.restart`), which needs the source to be
rewound first: if that fails, the stream stays as it is.
-/

namespace PacketTrace

namespace Capture

/-- A place in a capture trace that is read from a source. -/
structure Stream where
  /-- The size of the trace. -/
  size : Nat
  /-- The most bytes captured of a packet. -/
  limit : UInt16
  window : Window
  clock : ArrivalClock := {}
  /-- The number of bytes in the records so far. It has no bound of its own: it is no
      more than the source has given. -/
  consumed : Nat := 0
  /-- There are no more packets. -/
  finished : Bool := false
  deriving DecidableEq

namespace Stream

variable {σ : Type} [SeekableSource σ]

/-- Opens the trace in a source, to be read through a window of the given
    capacity. -/
def start (capacity : Nat) (limit : UInt16) (s : σ) : Except Failure Stream × σ :=
  match SeekableSource.seekEnd s with
  | (.error cause, s) => (.error (.device cause), s)
  | (.ok size, s) =>
    match Trace.checkAligned size with
    | .error failure => (.error failure, s)
    | .ok () =>
      match SeekableSource.rewind s with
      | (.error cause, s) => (.error (.device cause), s)
      | (.ok (), s) => (.ok { size, limit, window := { capacity } }, s)

/-- The next packet, or `none` at the end of the trace. -/
def next {σ : Type} [ByteSource σ] (r : Stream) (s : σ) :
    Except Failure (Option Packet) × Stream × σ :=
  if r.finished then (.ok none, r, s)
  else match r.window.fetch (Trace.Record.decoder (stored r.limit)) s with
    | (.value (some record), window, s) =>
      let clock := arrive r.clock record
      (.ok (some (packet clock record)),
        { r with window, clock, consumed := r.consumed + record.size }, s)
    | (.value none, window, s) => (.ok none, { r with window, finished := true }, s)
    | (.ended, window, s) => (.ok none, { r with window, finished := true }, s)
    | (.failed failure, window, s) => (.error failure, { r with window, finished := true }, s)
    | (.interrupted cause, window, s) => (.error (.device cause), { r with window }, s)

/-- Starts again from the first record. -/
def restart (r : Stream) (s : σ) : Except Failure Unit × Stream × σ :=
  match SeekableSource.rewind s with
  | (.error cause, s) => (.error (.device cause), r, s)
  | (.ok (), s) =>
    (.ok (), { size := r.size, limit := r.limit, window := { capacity := r.window.capacity } }, s)

end Stream

end Capture

end PacketTrace
