import PacketTrace.Bytes.LittleEndian

/-!
# Packets

A packet with an absolute timestamp in nanoseconds (`Packet`), which all trace
and file formats have in common, and the split of a timestamp into seconds and
nanoseconds (`splitNanos`, `joinNanos`).
-/

namespace PacketTrace

/-- The number of nanoseconds in a second. -/
def nanosPerSecond : Nat := 1000000000

/-- The whole seconds in `nanos`, and the nanoseconds beyond them. -/
def splitNanos (nanos : Nat) : Nat × UInt32 :=
  (nanos / nanosPerSecond, UInt32.ofNat (nanos % nanosPerSecond))

/-- The nanoseconds in `seconds` and `nanos` together. -/
def joinNanos (seconds nanos : UInt32) : Nat :=
  seconds.toNat * nanosPerSecond + nanos.toNat

theorem toNat_splitNanos_snd (nanos : Nat) :
    (splitNanos nanos).2.toNat = nanos % nanosPerSecond := by
  have h := Nat.mod_lt nanos (by decide : 0 < nanosPerSecond)
  have hlt : nanos % nanosPerSecond < 2 ^ 32 := Nat.lt_trans h (by decide)
  rw [splitNanos, UInt32.toNat_ofNat', Nat.mod_eq_of_lt hlt]

/-- Joining undoes splitting, where the seconds fit in 32 bits. -/
theorem joinNanos_splitNanos {nanos : Nat} (h : (splitNanos nanos).1 < 2 ^ 32) :
    joinNanos (UInt32.ofNat (splitNanos nanos).1) (splitNanos nanos).2 = nanos := by
  rw [joinNanos, toNat_splitNanos_snd, UInt32.toNat_ofNat', Nat.mod_eq_of_lt h]
  simpa [splitNanos, Nat.mul_comm] using Nat.div_add_mod nanos nanosPerSecond

/-- A joined timestamp fits in 64 bits. -/
theorem joinNanos_lt (seconds nanos : UInt32) : joinNanos seconds nanos < 2 ^ 64 := by
  have hs := seconds.toNat_lt
  have hn := nanos.toNat_lt
  simp only [joinNanos, nanosPerSecond]
  omega

/-- A packet: the bytes captured of it may be fewer than were on the wire. -/
structure Packet where
  /-- Nanoseconds since the epoch of the trace. -/
  timestamp : Nat
  /-- The length of the packet on the wire. -/
  wireLength : UInt32
  /-- The bytes that were captured. -/
  data : Bytes
  deriving DecidableEq, Inhabited

/-- The number of bytes that were captured, as a 32-bit word. -/
def Packet.capturedLength (p : Packet) : UInt32 := UInt32.ofNat p.data.length

end PacketTrace
