import PacketTrace.Binary64.Basic

/-!
# Floating-point arithmetic

The four operations on `Binary64` (`+`, `-`, `*`, `/`), each the number nearest
to the exact result, with the rules of the format for zeros, infinities and
results without a value; its order (`Binary64.lt`); the three ways to a whole
number (`Binary64.ceil`, `Binary64.floor`, `Binary64.round`); and the count of
whole ones (`Binary64.toCount`), kept within 64 bits.
-/

namespace PacketTrace

namespace Binary64

/-! ## Operations -/

/-- The number of the opposite sign. -/
protected def neg (x : Binary64) : Binary64 := { x with negative := !x.negative }

/-- The sum. An exact zero is positive, unless both numbers are negative. -/
protected def add (x y : Binary64) : Binary64 :=
  if x.isNaN || y.isNaN then nan
  else if x.isInfinite then
    if y.isInfinite && x.negative != y.negative then nan else x
  else if y.isInfinite then y
  else
    let sum := x.signedQuanta + y.signedQuanta
    if sum = 0 then zero (x.negative && y.negative)
    else nearest (sum < 0) sum.natAbs 1

/-- The difference. -/
protected def sub (x y : Binary64) : Binary64 := x.add y.neg

/-- The product. -/
protected def mul (x y : Binary64) : Binary64 :=
  let negative := x.negative != y.negative
  if x.isNaN || y.isNaN then nan
  else if x.isInfinite || y.isInfinite then
    if x.isZero || y.isZero then nan else infinity negative
  else nearest negative (x.quanta * y.quanta) quantaPerOne

/-- The quotient. -/
protected def div (x y : Binary64) : Binary64 :=
  let negative := x.negative != y.negative
  if x.isNaN || y.isNaN then nan
  else if x.isInfinite then
    if y.isInfinite then nan else infinity negative
  else if y.isInfinite then zero negative
  else if y.isZero then
    if x.isZero then nan else infinity negative
  else nearest negative (x.quanta * quantaPerOne) y.quanta

instance : Neg Binary64 := ⟨Binary64.neg⟩

instance : Add Binary64 := ⟨Binary64.add⟩

instance : Sub Binary64 := ⟨Binary64.sub⟩

instance : Mul Binary64 := ⟨Binary64.mul⟩

instance : Div Binary64 := ⟨Binary64.div⟩

/-! ## Order -/

/-- The place of a number in the order of the format; the zeros share one. -/
def place (x : Binary64) : Int := if x.negative then -x.ordinal else x.ordinal

/-- `x` is below `y`, both being numbers. -/
def lt (x y : Binary64) : Bool := !x.isNaN && !y.isNaN && x.place < y.place

/-! ## Whole numbers -/

/-- The whole number of the given sign and magnitude. -/
def whole (negative : Bool) (n : Nat) : Binary64 := ofRatio negative n 1

/-- The least whole number that is not below `x`. -/
def ceil (x : Binary64) : Binary64 :=
  if !x.isFinite then x
  else if x.negative then whole true (x.quanta / quantaPerOne)
  else whole false ((x.quanta + (quantaPerOne - 1)) / quantaPerOne)

/-- The greatest whole number that is not above `x`. -/
def floor (x : Binary64) : Binary64 := -(-x).ceil

/-- The whole number nearest to `x`, the one farther from zero of two. -/
def round (x : Binary64) : Binary64 :=
  if !x.isFinite then x
  else whole x.negative ((2 * x.quanta + quantaPerOne) / (2 * quantaPerOne))

/-- The number of whole ones in `x`: none if `x` is negative or no number, and
    at most as many as fit in 64 bits. -/
def toCount (x : Binary64) : Nat :=
  if x.isNaN || x.negative then 0
  else if x.isInfinite then 2 ^ 64 - 1
  else min (x.quanta / quantaPerOne) (2 ^ 64 - 1)

end Binary64

end PacketTrace
