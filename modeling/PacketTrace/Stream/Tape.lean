import PacketTrace.Stream.Source

/-!
# Tapes

A source with its content laid out in advance (`Tape`), and with it how it
behaves when it is read: how many bytes it delivers at most in each of the
first reads, and which of them fail. After those it delivers all it is asked
for. It may also fail to seek, once.
-/

namespace PacketTrace

/-- How a tape takes a read. -/
inductive ReadStep where
  /-- Delivers at most `limit` bytes. -/
  | upTo (limit : Nat)
  /-- Fails. -/
  | fail
  deriving DecidableEq

/-- A source with its content laid out in advance. -/
structure Tape where
  /-- The content, from its start. -/
  content : Bytes
  /-- The content from the place where it is read. -/
  rest : Bytes := content
  /-- How the next reads are taken; moving the tape leaves them as they are. -/
  reads : List ReadStep := []
  /-- The number of seeks that succeed before one fails. -/
  seekFault : Option Nat := none
  deriving DecidableEq

namespace Tape

/-- What a read fails with. -/
def readFailure : DeviceFailure := ⟨"injected read failure"⟩

/-- What a seek fails with. -/
def seekFailure : DeviceFailure := ⟨"injected seek failure"⟩

/-- Delivers the next `n` bytes, or as many as there are. -/
def deliver (n : Nat) (t : Tape) : Except DeviceFailure Bytes × Tape :=
  (.ok (t.rest.take n), { t with rest := t.rest.drop n })

/-- Reads at most `n` bytes. -/
def read (n : Nat) (t : Tape) : Except DeviceFailure Bytes × Tape :=
  match t.reads with
  | [] => t.deliver n
  | .upTo limit :: reads => { t with reads }.deliver (min limit n)
  | .fail :: reads => (.error readFailure, { t with reads })

theorem length_read_le {n : Nat} {t t' : Tape} {bytes : Bytes}
    (h : t.read n = (.ok bytes, t')) : bytes.length ≤ n := by
  unfold read deliver at h
  split at h <;> simp only [Prod.mk.injEq, Except.ok.injEq, reduceCtorEq, false_and] at h
  · rw [← h.1, List.length_take]
    omega
  · rw [← h.1, List.length_take]
    omega

/-- Moves the tape, unless this is the seek that fails. -/
def seek {α : Type} (result : α) (rest : Bytes) (t : Tape) : Except DeviceFailure α × Tape :=
  match t.seekFault with
  | some 0 => (.error seekFailure, { t with seekFault := none })
  | some (n + 1) => (.ok result, { t with rest, seekFault := some n })
  | none => (.ok result, { t with rest })

instance : SeekableSource Tape where
  read := read
  bound t := t.rest.length
  length_read_le := length_read_le
  seekEnd t := t.seek t.content.length []
  rewind t := t.seek () t.content

end Tape

end PacketTrace
