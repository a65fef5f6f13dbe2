import PacketTrace.Trace.Record

/-!
# Capture tags

The tag of a record in a capture trace, from the highest bit down:

* bits 53 to 63: the length of the packet on the wire;
* bits 25 to 52: the clock cycles since the arrival of the packet before;
* bits 0 to 24: reserved.

The hardware is set to capture at most a certain number of bytes of each
packet. The tag does not hold that limit, so whoever reads a trace has to know
it (`Capture.Tag.captured`).
-/

namespace PacketTrace

namespace Capture

/-- The tag of a record in a capture trace. -/
structure Tag where
  word : UInt64
  deriving DecidableEq

namespace Tag

/-- The tag with these fields, of which the bits beyond their widths are
    dropped. -/
def pack (wireLength : UInt16) (gap : UInt32) : Tag :=
  ⟨UInt64.ofNat (wireLength.toNat % 2 ^ 11 * 2 ^ 53 + gap.toNat % 2 ^ 28 * 2 ^ 25)⟩

/-- The length of the packet on the wire. -/
def wireLength (t : Tag) : UInt16 := UInt16.ofNat (t.word.toNat / 2 ^ 53)

/-- The clock cycles since the arrival of the packet before. -/
def gap (t : Tag) : UInt32 := UInt32.ofNat (t.word.toNat / 2 ^ 25 % 2 ^ 28)

/-- The trace ends here. -/
def isEnd (t : Tag) : Bool := t.word == Trace.endTag

/-- The number of bytes captured under a limit. -/
def captured (t : Tag) (limit : UInt16) : Nat := min t.wireLength.toNat limit.toNat

theorem toNat_wireLength (t : Tag) : t.wireLength.toNat = t.word.toNat / 2 ^ 53 := by
  have h := t.word.toNat_lt
  rw [wireLength, UInt16.toNat_ofNat', Nat.mod_eq_of_lt (by omega)]

theorem wireLength_lt (t : Tag) : t.wireLength.toNat < 2 ^ 11 := by
  have h := t.word.toNat_lt
  rw [toNat_wireLength]
  omega

theorem toNat_gap (t : Tag) : t.gap.toNat = t.word.toNat / 2 ^ 25 % 2 ^ 28 := by
  rw [gap, UInt32.toNat_ofNat', Nat.mod_eq_of_lt (by omega)]

theorem gap_lt (t : Tag) : t.gap.toNat < 2 ^ 28 := by
  rw [toNat_gap]
  omega

theorem toNat_wireLength_pack (wireLength : UInt16) (gap : UInt32) :
    (pack wireLength gap).wireLength.toNat = wireLength.toNat % 2 ^ 11 := by
  rw [toNat_wireLength, pack, UInt64.toNat_ofNat']
  omega

theorem toNat_gap_pack (wireLength : UInt16) (gap : UInt32) :
    (pack wireLength gap).gap.toNat = gap.toNat % 2 ^ 28 := by
  rw [toNat_gap, pack, UInt64.toNat_ofNat']
  omega

end Tag

/-- The number of bytes in a record with this tag, captured under a limit. -/
def stored (limit : UInt16) (tag : UInt64) : Nat := (Tag.mk tag).captured limit

end Capture

end PacketTrace
