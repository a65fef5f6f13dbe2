import PacketTrace.Trace.Record

/-!
# Replay tags

The tag of a record in a replay trace, from the highest bit down:

* bits 48 to 63: the length of the packet on the wire, which is also the
  number of bytes in the record;
* bits 32 to 47: the number of bytes that were captured of the packet;
* bits 0 to 31: the clock cycles to wait before the next packet is sent.

Every 64-bit word is the tag of these three fields, and the trace ends with
the one whose bits are all ones.
-/

namespace PacketTrace

namespace Replay

/-- The tag of a record in a replay trace. -/
structure Tag where
  /-- The clock cycles to wait before the next packet is sent. -/
  gap : UInt32
  /-- The number of bytes that were captured of the packet. -/
  captured : UInt16
  /-- The length of the packet on the wire. -/
  wireLength : UInt16
  deriving DecidableEq

namespace Tag

/-- The tag that a word holds. -/
def ofWord (word : UInt64) : Tag where
  gap := UInt32.ofNat word.toNat
  captured := UInt16.ofNat (word.toNat / 2 ^ 32)
  wireLength := UInt16.ofNat (word.toNat / 2 ^ 48)

/-- The word of a tag. -/
def toWord (t : Tag) : UInt64 :=
  UInt64.ofNat (t.gap.toNat + t.captured.toNat * 2 ^ 32 + t.wireLength.toNat * 2 ^ 48)

/-- The trace ends here. -/
def isEnd (t : Tag) : Bool := t.toWord == Trace.endTag

theorem toNat_toWord (t : Tag) :
    t.toWord.toNat = t.gap.toNat + t.captured.toNat * 2 ^ 32 + t.wireLength.toNat * 2 ^ 48 := by
  have hg := t.gap.toNat_lt
  have hc := t.captured.toNat_lt
  have hw := t.wireLength.toNat_lt
  rw [toWord, UInt64.toNat_ofNat', Nat.mod_eq_of_lt (by omega)]

@[simp]
theorem ofWord_toWord (t : Tag) : ofWord t.toWord = t := by
  have hg := t.gap.toNat_lt
  have hc := t.captured.toNat_lt
  have hw := t.wireLength.toNat_lt
  obtain ⟨gap, captured, wireLength⟩ := t
  simp only [ofWord, toNat_toWord, mk.injEq] at *
  refine ⟨UInt32.toNat_inj.1 ?_, UInt16.toNat_inj.1 ?_, UInt16.toNat_inj.1 ?_⟩
  · rw [UInt32.toNat_ofNat']
    omega
  · rw [UInt16.toNat_ofNat']
    omega
  · rw [UInt16.toNat_ofNat']
    omega

@[simp]
theorem toWord_ofWord (word : UInt64) : (ofWord word).toWord = word := by
  have h := word.toNat_lt
  apply UInt64.toNat_inj.1
  rw [toNat_toWord]
  simp only [ofWord, UInt32.toNat_ofNat', UInt16.toNat_ofNat']
  omega

end Tag

/-- The number of bytes in a record with this tag. -/
def stored (tag : UInt64) : Nat := (Tag.ofWord tag).wireLength.toNat

theorem stored_lt (tag : UInt64) : stored tag < 2 ^ 16 := (Tag.ofWord tag).wireLength.toNat_lt

end Replay

end PacketTrace
