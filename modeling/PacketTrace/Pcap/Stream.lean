import PacketTrace.Pcap.Entry
import PacketTrace.Pcap.Header
import PacketTrace.Stream.Window

/-!
# Streaming packet files

The packets of a packet file that is read from a source through a window
(`Pcap.Stream`). The header is read when the stream is opened
(`Pcap.Stream.start`), which may find the first bytes of the file in the
window already (`Pcap.Stream.ofWindow`).

A failure of the source leaves the stream as it was, to be tried again; every
other failure, and the end of the file, finish it.
-/

namespace PacketTrace

namespace Pcap

/-- A place in a packet file that is read from a source. -/
structure Stream where
  header : Header
  window : Window
  /-- The number of bytes in the header and the entries so far. It has no bound of its
      own: it is no more than the window and the source have given. -/
  consumed : Nat := Header.size
  /-- There are no more packets. -/
  finished : Bool := false
  deriving DecidableEq

namespace Stream

variable {σ : Type} [ByteSource σ]

/-- Opens the file whose first bytes are in a window and the others in a
    source. -/
def ofWindow (window : Window) (s : σ) : Except Failure Stream × σ :=
  match window.fetch Header.decoder s with
  | (.value header, window, s) => (.ok { header, window }, s)
  | (.ended, _, s) => (.error .truncatedInput, s)
  | (.failed failure, _, s) => (.error failure, s)
  | (.interrupted cause, _, s) => (.error (.device cause), s)

/-- Opens the file in a source, to be read through a window of the given
    capacity. -/
def start (capacity : Nat) (s : σ) : Except Failure Stream × σ := ofWindow { capacity } s

/-- The next packet, or `none` at the end of the file. -/
def next (r : Stream) (s : σ) : Except Failure (Option Packet) × Stream × σ :=
  if r.finished then (.ok none, r, s)
  else match r.window.fetch Entry.decoder s with
    | (.value entry, window, s) =>
      (.ok (some entry.toPacket), { r with window, consumed := r.consumed + entry.size }, s)
    | (.ended, window, s) => (.ok none, { r with window, finished := true }, s)
    | (.failed failure, window, s) => (.error failure, { r with window, finished := true }, s)
    | (.interrupted cause, window, s) => (.error (.device cause), { r with window }, s)

end Stream

end Pcap

end PacketTrace
