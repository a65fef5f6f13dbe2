import PacketTrace.Bytes.LittleEndian
import PacketTrace.Failure

/-!
# Sources

Where bytes come from. A *source* (`ByteSource`) is a state that delivers
bytes when it is read, at most as many as it is asked for; none at all means
that its end is reached, for the time being. A source that can be read again
from its start (`SeekableSource`) also knows its size.

A pair of a source and something else is a source, so that the state of a
conversion can hold both ends of it.
-/

namespace PacketTrace

/-- Bytes can be read from the states of type `σ`. -/
class ByteSource (σ : Type) where
  /-- Reads at most so many bytes. -/
  read : Nat → σ → Except DeviceFailure Bytes × σ
  /-- No more than this many bytes are still to come. -/
  bound : σ → Nat
  /-- No more bytes are read than were asked for. -/
  length_read_le : ∀ {n s bytes s'}, read n s = (.ok bytes, s') → bytes.length ≤ n

/-- The source can be measured, and read again from its start. -/
class SeekableSource (σ : Type) extends ByteSource σ where
  /-- Moves to the end, which tells the size. -/
  seekEnd : σ → Except DeviceFailure Nat × σ
  /-- Moves to the start. -/
  rewind : σ → Except DeviceFailure Unit × σ

variable {σ τ : Type}

/-- Applies an operation on the first of two states. -/
def onFirst {α : Type} (operation : σ → α × σ) (s : σ × τ) : α × (σ × τ) :=
  let (result, first) := operation s.1
  (result, (first, s.2))

instance [ByteSource σ] : ByteSource (σ × τ) where
  read n := onFirst (ByteSource.read n)
  bound s := ByteSource.bound s.1
  length_read_le := by
    intro n s bytes s' h
    simp only [onFirst, Prod.mk.injEq] at h
    exact ByteSource.length_read_le (Prod.ext h.1 rfl)

instance [SeekableSource σ] : SeekableSource (σ × τ) where
  seekEnd := onFirst SeekableSource.seekEnd
  rewind := onFirst SeekableSource.rewind

end PacketTrace
