import PacketTrace.Bytes.Instances

/-!
# Binary floating-point numbers

The numbers of the 64-bit binary floating-point format (IEEE 754 binary64),
on exact integers. Every finite number of the format is a whole number of
*quanta* of `2 ^ -1074`, the smallest of them, and the numbers of one sign are
ordered like the natural numbers that their bits below the sign form, their
*ordinals*. A number is therefore a sign and an ordinal (`Binary64`), and
stands for the quanta its ordinal denotes (`Binary64.quanta`).

* `Binary64.toRat`: the rational that a finite number stands for;
* `Binary64.ofBits` and `Binary64.toBits`: the storage format;
* `Binary64.nearest`: the number nearest to a ratio of quanta, ties going to
  the even neighbour. A significand rounded up to the next power of two
  carries into the exponent just as the ordinals do, and an ordinal past the
  finite ones is infinity;
* `Binary64.ofNat`: the number nearest to a natural number.
-/

namespace PacketTrace

/-- A number in the 64-bit binary floating-point format. -/
structure Binary64 where
  /-- The sign bit. -/
  negative : Bool
  /-- The bits below the sign: 11 of the exponent, 52 of the fraction. -/
  ordinal : Nat
  ordinal_lt : ordinal < 2 ^ 63 := by decide
  deriving DecidableEq

namespace Binary64

/-! ## The format -/

/-- The ordinal of infinity: the exponent is all ones, the fraction zero. -/
def infinityOrdinal : Nat := 0x7ff * 2 ^ 52

/-- The number of quanta in one. -/
def quantaPerOne : Nat := 2 ^ 1074

/-- Zero, with a sign. -/
def zero (negative : Bool) : Binary64 := { negative, ordinal := 0 }

/-- Infinity, with a sign. -/
def infinity (negative : Bool) : Binary64 := { negative, ordinal := infinityOrdinal }

/-- The result of an operation without a value. -/
def nan : Binary64 := { negative := false, ordinal := infinityOrdinal + 2 ^ 51 }

instance : Inhabited Binary64 := ⟨zero false⟩

/-- The number with these bits. -/
def ofBits (bits : UInt64) : Binary64 where
  negative := 2 ^ 63 ≤ bits.toNat
  ordinal := bits.toNat % 2 ^ 63
  ordinal_lt := Nat.mod_lt _ (by decide)

/-- The bits of a number. -/
def toBits (x : Binary64) : UInt64 :=
  UInt64.ofNat ((if x.negative then 2 ^ 63 else 0) + x.ordinal)

/-- `x` is no number. -/
def isNaN (x : Binary64) : Bool := infinityOrdinal < x.ordinal

/-- `x` is one of the two infinities. -/
def isInfinite (x : Binary64) : Bool := x.ordinal == infinityOrdinal

/-- `x` is neither infinite nor no number. -/
def isFinite (x : Binary64) : Bool := x.ordinal < infinityOrdinal

/-- `x` is one of the two zeros. -/
def isZero (x : Binary64) : Bool := x.ordinal == 0

/-- The quanta that an ordinal denotes: the significand (with the leading bit
    that normal numbers leave out) shifted by the exponent. -/
def quantaOf (ordinal : Nat) : Nat :=
  if ordinal < 2 ^ 52 then ordinal
  else (2 ^ 52 + ordinal % 2 ^ 52) * 2 ^ (ordinal / 2 ^ 52 - 1)

/-- The magnitude of a finite number, in quanta. -/
def quanta (x : Binary64) : Nat := quantaOf x.ordinal

/-- A finite number with its sign, in quanta. -/
def signedQuanta (x : Binary64) : Int := if x.negative then -x.quanta else x.quanta

/-- The rational that a finite number stands for. -/
def toRat (x : Binary64) : Rat := (x.signedQuanta : Rat) / (quantaPerOne : Nat)

/-! ## Rounding -/

/-- The natural number nearest to `num / den`, the even one of two. -/
def roundHalfEven (num den : Nat) : Nat :=
  let floor := num / den
  let twice := 2 * (num % den)
  if twice < den then floor
  else if den < twice then floor + 1
  else floor + floor % 2

/-- The ordinal nearest to `num / den` quanta, which may be one past the
    finite ordinals. The exponent is the one that leaves 53 bits before the
    point, or the least one. -/
def nearestOrdinal (num den : Nat) : Nat :=
  let exponent := (num / den).log2 - 52
  -- The leading bit of the rounded significand adds one to the exponent of a
  -- normal number, and is missing from the others, which have exponent zero.
  exponent * 2 ^ 52 + roundHalfEven num (den * 2 ^ exponent)

/-- The number of the given sign nearest to `num / den` quanta. -/
def nearest (negative : Bool) (num den : Nat) : Binary64 where
  negative
  ordinal := min (nearestOrdinal num den) infinityOrdinal
  ordinal_lt := Nat.lt_of_le_of_lt (Nat.min_le_right ..) (by decide)

/-- The number nearest to a fraction. -/
def ofRatio (negative : Bool) (num den : Nat) : Binary64 :=
  nearest negative (num * quantaPerOne) den

/-- The number nearest to a natural number. -/
def ofNat (n : Nat) : Binary64 := ofRatio false n 1

instance : NatCast Binary64 := ⟨ofNat⟩

/-! ## Reading the bits back -/

@[simp]
theorem ofBits_toBits (x : Binary64) : ofBits x.toBits = x := by
  -- The sign bit is the highest of the 64, and the ordinal is what is below it.
  obtain ⟨negative, ordinal, h⟩ := x
  cases negative
  · have h1 : ordinal % 2 ^ 64 = ordinal := Nat.mod_eq_of_lt (by omega)
    simp only [toBits, ofBits, Bool.false_eq_true, if_false, Nat.zero_add,
      UInt64.toNat_ofNat', h1, mk.injEq, decide_eq_false_iff_not]
    exact ⟨by omega, Nat.mod_eq_of_lt h⟩
  · have h1 : (2 ^ 63 + ordinal) % 2 ^ 64 = 2 ^ 63 + ordinal := Nat.mod_eq_of_lt (by omega)
    simp only [toBits, ofBits, if_true, UInt64.toNat_ofNat', h1, mk.injEq, decide_eq_true_eq]
    exact ⟨by omega, by omega⟩

end Binary64

end PacketTrace
