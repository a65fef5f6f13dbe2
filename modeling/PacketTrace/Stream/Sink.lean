import PacketTrace.Bytes.LittleEndian
import PacketTrace.Failure

/-!
# Sinks

Where bytes go. A *sink* (`ByteSink`) takes the bytes it is given, or only the
first of them, or fails. A record is written as its fields, one write for
each, also for an empty one (`writeFields`); a field that is not taken whole
is a fault, but what was taken stays.

A pair of anything and a sink is a sink.
-/

namespace PacketTrace

/-- Bytes can be written to the states of type `σ`. -/
class ByteSink (σ : Type) where
  /-- Writes bytes, and tells how many of them were taken. -/
  write : Bytes → σ → Except DeviceFailure Nat × σ
  /-- Brings what was taken to where it belongs. -/
  flush : σ → Except DeviceFailure Unit × σ

variable {σ τ : Type}

/-- Applies an operation on the second of two states. -/
def onSecond {α : Type} (operation : τ → α × τ) (s : σ × τ) : α × (σ × τ) :=
  let (result, second) := operation s.2
  (result, (s.1, second))

instance [ByteSink τ] : ByteSink (σ × τ) where
  write bytes := onSecond (ByteSink.write bytes)
  flush := onSecond ByteSink.flush

/-- Writes the fields of a record in turn, and tells how many bytes they
    have. -/
def writeFields [ByteSink σ] : List Bytes → σ → Except Failure Nat × σ
  | [], s => (.ok 0, s)
  | field :: fields, s =>
    match ByteSink.write field s with
    | (.error cause, s) => (.error (.device cause), s)
    | (.ok taken, s) =>
      if taken < field.length then (.error (.encoding (.short (field.length - taken))), s)
      else
        match writeFields fields s with
        | (.ok written, s) => (.ok (taken + written), s)
        | (.error failure, s) => (.error failure, s)

/-- Flushes a sink. -/
def flushSink [ByteSink σ] (s : σ) : Except Failure Unit × σ :=
  match ByteSink.flush s with
  | (.ok (), s) => (.ok (), s)
  | (.error cause, s) => (.error (.device cause), s)

end PacketTrace
