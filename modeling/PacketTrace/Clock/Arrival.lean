import PacketTrace.Packet

/-!
# Arrival times

The capture hardware counts the clock cycles from one packet to the next.
Each gap is cut off to whole nanoseconds (`cyclesToNanos`), and the arrival
times are the sums of the gaps so cut off (`ArrivalClock`): what is cut off is
lost for good. The first packet arrives at time zero, whatever its gap.
-/

namespace PacketTrace

/-- The frequency of the hardware clock, in cycles per second. -/
def clockFrequency : Nat := 156250000

/-- The whole nanoseconds in `cycles`, modulo `2 ^ 64`. -/
def cyclesToNanos (cycles : Nat) : Nat := cycles * nanosPerSecond / clockFrequency % 2 ^ 64

/-- Five cycles take 32 nanoseconds. -/
theorem cyclesToNanos_eq {cycles : Nat} (h : cycles < 2 ^ 61) :
    cyclesToNanos cycles = 32 * cycles / 5 := by
  have hratio : cycles * nanosPerSecond / clockFrequency = 32 * cycles / 5 := by
    simp only [nanosPerSecond, clockFrequency]
    omega
  rw [cyclesToNanos, hratio, Nat.mod_eq_of_lt (by omega)]

/-- The time of arrival of the last packet. -/
structure ArrivalClock where
  /-- Nanoseconds since the first packet, as a number without a bound. A word of 64
      bits holds it for `2 ^ 32` packets, and for any number of them up to the first
      one that is too late for a packet file (`Capture.timestamp_lt_of_mem_arrivals`,
      `Capture.lt_of_tooLate`). -/
  now : Nat := 0
  /-- The first packet has arrived. -/
  started : Bool := false
  deriving DecidableEq

/-- Advances by the gap before a packet, to the time of its arrival. -/
def ArrivalClock.advance (clock : ArrivalClock) (cycles : Nat) : ArrivalClock where
  now := if clock.started then clock.now + cyclesToNanos cycles else clock.now
  started := true

end PacketTrace
