import PacketTrace.Stream.Sink

/-!
# Spools

A sink that keeps what it is given (`Spool`), up to a limit if it has one. A
write beyond the limit is taken in part, or refused whole; the spool may also
fail to flush.
-/

namespace PacketTrace

/-- A sink that keeps what it is given. -/
structure Spool where
  /-- The bytes it was given. -/
  content : ByteArray := .empty
  /-- The most bytes it holds. -/
  limit : Option Nat := none
  /-- A write beyond the limit is refused whole. -/
  refuses : Bool := false
  /-- A flush fails. -/
  failsFlush : Bool := false
  deriving DecidableEq

namespace Spool

/-- What a refused write fails with. -/
def writeFailure : DeviceFailure := ⟨"injected write failure"⟩

/-- What a flush fails with. -/
def flushFailure : DeviceFailure := ⟨"injected flush failure"⟩

/-- The bytes it was given, in order. -/
def toBytes (s : Spool) : Bytes := s.content.data.toList

/-- Adds bytes at the end. -/
def append (s : Spool) (bytes : Bytes) : Spool :=
  { s with content := s.content ++ bytes.toByteArray }

@[simp]
theorem toBytes_append (s : Spool) (bytes : Bytes) :
    (s.append bytes).toBytes = s.toBytes ++ bytes := by
  simp [toBytes, append]

/-- Takes bytes as far as there is room for them. -/
def write (bytes : Bytes) (s : Spool) : Except DeviceFailure Nat × Spool :=
  match s.limit with
  | none => (.ok bytes.length, s.append bytes)
  | some limit =>
    let room := limit - s.content.size
    if bytes.length ≤ room then (.ok bytes.length, s.append bytes)
    else if s.refuses then (.error writeFailure, s)
    else (.ok room, s.append (bytes.take room))

instance : ByteSink Spool where
  write := write
  flush s := (if s.failsFlush then .error flushFailure else .ok (), s)

/-! ### Without a limit -/

@[simp]
theorem append_nil (s : Spool) : s.append [] = s := by
  simp [append]

@[simp]
theorem append_append (s : Spool) (bytes more : Bytes) :
    (s.append bytes).append more = s.append (bytes ++ more) := by
  simp [append, ByteArray.append_assoc]

/-- A spool without a limit takes every write whole. -/
theorem write_of_limit_eq_none {s : Spool} (h : s.limit = none) (bytes : Bytes) :
    ByteSink.write bytes s = (.ok bytes.length, s.append bytes) := by
  simp [ByteSink.write, write, h]

/-- A spool without a limit takes a record as the bytes of its fields in
    turn. -/
theorem writeFields_of_limit_eq_none {s : Spool} (h : s.limit = none) (fields : List Bytes) :
    writeFields fields s = (.ok fields.flatten.length, s.append fields.flatten) := by
  induction fields generalizing s with
  | nil => simp [writeFields]
  | cons field fields ih =>
    have hlimit : (s.append field).limit = none := h
    simp [writeFields, write_of_limit_eq_none h, ih hlimit]

end Spool

end PacketTrace
