import PacketTrace.Bytes.Instances

/-!
# Alignment

Records start at multiples of 8 bytes and traces fill whole blocks of 64
bytes, the unit in which the hardware transfers them. Both boundaries are
powers of two, so that a length is rounded up in its binary digits.

* `alignUp`: rounds a length up, by adding the largest remainder and clearing
  the digits of a remainder;
* `padding`: the number of bytes that this adds;
* `padding_lt`: it is less than the boundary, which may be any;
* `dvd_add_padding` and `padding_eq_mod`: for a power of two, it reaches the
  next multiple, and is what is missing to it. For another boundary, the
  digits that are cleared are not those of a remainder.
-/

namespace PacketTrace

/-- Records start at multiples of this many bytes. -/
def recordBoundary : Nat := 8

/-- The length of a trace is a multiple of this many bytes. -/
def traceBoundary : Nat := 64

/-- `n` without the binary digits that it shares with `mask`. -/
def clearDigits (n mask : Nat) : Nat := n - (n &&& mask)

/-- `length` rounded up to a multiple of `boundary`, a power of two. -/
def alignUp (length boundary : Nat) : Nat := clearDigits (length + (boundary - 1)) (boundary - 1)

/-- The number of bytes to append to `length` to reach a multiple of
    `boundary`, a power of two. -/
def padding (length boundary : Nat) : Nat := alignUp length boundary - length

/-- `length` is a multiple of `boundary`. -/
def isAligned (length boundary : Nat) : Bool := length % boundary == 0

theorem le_alignUp (length boundary : Nat) : length ≤ alignUp length boundary := by
  have hmask : (length + (boundary - 1)) &&& (boundary - 1) ≤ boundary - 1 := Nat.and_le_right
  rw [alignUp, clearDigits]
  omega

theorem add_padding (length boundary : Nat) :
    length + padding length boundary = alignUp length boundary :=
  Nat.add_sub_cancel' (le_alignUp length boundary)

theorem padding_lt (length : Nat) {boundary : Nat} (h : 0 < boundary) :
    padding length boundary < boundary := by
  rw [padding, alignUp, clearDigits]
  omega

/-! ### Powers of two -/

theorem isPowerOfTwo_recordBoundary : recordBoundary.isPowerOfTwo := ⟨3, rfl⟩

theorem isPowerOfTwo_traceBoundary : traceBoundary.isPowerOfTwo := ⟨6, rfl⟩

/-- The digits below a power of two are those of the remainder. -/
theorem alignUp_eq {boundary : Nat} (h : boundary.isPowerOfTwo) (length : Nat) :
    alignUp length boundary = boundary * ((length + (boundary - 1)) / boundary) := by
  obtain ⟨k, rfl⟩ := h
  have hd := Nat.div_add_mod (length + (2 ^ k - 1)) (2 ^ k)
  rw [alignUp, clearDigits, Nat.and_two_pow_sub_one_eq_mod]
  omega

theorem dvd_add_padding {boundary : Nat} (h : boundary.isPowerOfTwo) (length : Nat) :
    boundary ∣ length + padding length boundary := by
  rw [add_padding, alignUp_eq h]
  exact Nat.dvd_mul_right ..

/-- The padding is what is missing to the next multiple. -/
theorem padding_eq_mod {boundary : Nat} (h : boundary.isPowerOfTwo) (length : Nat) :
    padding length boundary = (boundary - length % boundary) % boundary := by
  have hpos : 0 < boundary := by
    obtain ⟨k, rfl⟩ := h
    exact Nat.two_pow_pos k
  have hlt := padding_lt length hpos
  have hr := Nat.mod_lt length hpos
  -- The remainder and the padding are below the boundary, and together they
  -- make a multiple of it: nothing at all, or the boundary itself.
  obtain ⟨c, hc⟩ := dvd_add_padding h length
  have hsum : (length % boundary + padding length boundary) % boundary = 0 := by
    rw [Nat.mod_add_mod, hc, Nat.mul_mod_right]
  rcases Nat.lt_or_ge (length % boundary + padding length boundary) boundary with hs | hs
  · rw [Nat.mod_eq_of_lt hs] at hsum
    rw [show length % boundary = 0 by omega, Nat.sub_zero, Nat.mod_self]
    omega
  · rw [Nat.mod_eq_sub_mod hs, Nat.mod_eq_of_lt (by omega)] at hsum
    rw [Nat.mod_eq_of_lt (by omega)]
    omega

@[simp]
theorem isAligned_iff {length boundary : Nat} :
    isAligned length boundary = true ↔ boundary ∣ length := by
  simp [isAligned, Nat.dvd_iff_mod_eq_zero]

end PacketTrace
