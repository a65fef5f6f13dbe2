import PacketTrace.Bytes.Instances

/-!
# Little-endian words

A byte string is a list of bytes. A word of `n` bytes is stored lowest byte
first, so that a word is a number written in base 256 with its digits in
reverse.

* `Bytes.littleEndian`: the `n` low bytes of a number, lowest first;
* `Bytes.toNat`: the number that a byte string denotes;
* `Bytes.toNat_littleEndian` and `Bytes.littleEndian_toNat`: the two are
  inverse to each other, on numbers that fit in `n` bytes and on byte strings
  of length `n`.
-/

namespace PacketTrace

/-- A byte string. -/
abbrev Bytes := List UInt8

namespace Bytes

/-- The `n` low bytes of a number, lowest first. -/
def littleEndian : Nat → Nat → Bytes
  | 0, _ => []
  | n + 1, v => UInt8.ofNat v :: littleEndian n (v / 256)

/-- The number whose base-256 digits are the bytes, lowest first. -/
def toNat : Bytes → Nat
  | [] => 0
  | b :: bs => b.toNat + 256 * toNat bs

@[simp]
theorem length_littleEndian (n v : Nat) : (littleEndian n v).length = n := by
  induction n generalizing v with
  | zero => rfl
  | succ n ih => simp [littleEndian, ih]

theorem toNat_lt (bs : Bytes) : toNat bs < 256 ^ bs.length := by
  induction bs with
  | nil => simp [toNat]
  | cons b bs ih =>
    have hb := b.toNat_lt
    simp only [toNat, List.length_cons, Nat.pow_succ]
    omega

theorem toNat_littleEndian_mod (n v : Nat) : toNat (littleEndian n v) = v % 256 ^ n := by
  induction n generalizing v with
  | zero => simp [toNat, littleEndian, Nat.mod_one]
  | succ n ih =>
    rw [littleEndian, toNat, ih, Nat.pow_succ, Nat.mul_comm (256 ^ n) 256, Nat.mod_mul]
    simp

/-- A number that fits in `n` bytes is read back from them. -/
theorem toNat_littleEndian {n v : Nat} (h : v < 256 ^ n) : toNat (littleEndian n v) = v := by
  rw [toNat_littleEndian_mod, Nat.mod_eq_of_lt h]

/-- A byte string is the word of its length that it denotes. -/
theorem littleEndian_toNat (bs : Bytes) : littleEndian bs.length (toNat bs) = bs := by
  induction bs with
  | nil => rfl
  | cons b bs ih =>
    -- The lowest digit is the remainder modulo 256, the others the quotient.
    have hb := b.toNat_lt
    have hdiv : (b.toNat + 256 * toNat bs) / 256 = toNat bs := by omega
    have hlow : UInt8.ofNat (b.toNat + 256 * toNat bs) = b := by
      apply UInt8.toNat_inj.1
      simp
    rw [List.length_cons, toNat, littleEndian, hdiv, ih, hlow]

/-- The bytes of a 16-bit word. -/
def ofUInt16 (w : UInt16) : Bytes := littleEndian 2 w.toNat

/-- The bytes of a 32-bit word. -/
def ofUInt32 (w : UInt32) : Bytes := littleEndian 4 w.toNat

/-- The bytes of a 64-bit word. -/
def ofUInt64 (w : UInt64) : Bytes := littleEndian 8 w.toNat

/-- The bytes of a signed 32-bit word, in two's complement. -/
def ofInt32 (w : Int32) : Bytes := ofUInt32 w.toUInt32

@[simp]
theorem length_ofUInt16 (w : UInt16) : (ofUInt16 w).length = 2 := length_littleEndian ..

@[simp]
theorem length_ofUInt32 (w : UInt32) : (ofUInt32 w).length = 4 := length_littleEndian ..

@[simp]
theorem length_ofUInt64 (w : UInt64) : (ofUInt64 w).length = 8 := length_littleEndian ..

@[simp]
theorem length_ofInt32 (w : Int32) : (ofInt32 w).length = 4 := length_ofUInt32 _

end Bytes

end PacketTrace
