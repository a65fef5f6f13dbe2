import PacketTrace.Binary64.Basic

/-!
# Decimal notation

Reads a floating-point number off its decimal notation
(`Binary64.ofDecimal?`): an optional sign, then `inf`, `infinity` or `nan` in
letters of either case, or digits, with an optional point among them and an
optional exponent after `e` or `E`. There is at least one digit, and at least
one in an exponent. The number read is the one nearest to the exact decimal
(`Binary64.ofScientific`).
-/

namespace PacketTrace

namespace Binary64

/-- The number nearest to `mantissa * 10 ^ exponent`. The bounds cut off what
    is beyond every finite number, and what is below half of the smallest. -/
def ofScientific (negative : Bool) (mantissa : Nat) (exponent : Int) : Binary64 :=
  let magnitude := exponent + (Nat.toDigits 10 mantissa).length
  if mantissa = 0 ∨ magnitude < -400 then zero negative
  else if 400 < magnitude then infinity negative
  else if 0 ≤ exponent then ofRatio negative (mantissa * 10 ^ exponent.toNat) 1
  else ofRatio negative mantissa (10 ^ (-exponent).toNat)

/-- The number denoted by decimal digits. -/
def ofDigits (digits : List Char) : Nat :=
  digits.foldl (fun n c => 10 * n + (c.toNat - '0'.toNat)) 0

/-- An optional sign, and what follows it. -/
def splitSign : List Char → Bool × List Char
  | '-' :: cs => (true, cs)
  | '+' :: cs => (false, cs)
  | cs => (false, cs)

/-- The exponent that a decimal ends with: none at all counts as zero. -/
def exponent? : List Char → Option Int
  | [] => some 0
  | c :: cs =>
    if c = 'e' ∨ c = 'E' then
      let (negative, digits) := splitSign cs
      if digits.isEmpty || !digits.all Char.isDigit then none
      else some (if negative then -ofDigits digits else ofDigits digits)
    else none

/-- A decimal without its sign. -/
def unsignedDecimal? (negative : Bool) (cs : List Char) : Option Binary64 :=
  let before := cs.takeWhile Char.isDigit
  let rest := cs.dropWhile Char.isDigit
  let (after, rest) :=
    match rest with
    | '.' :: cs => (cs.takeWhile Char.isDigit, cs.dropWhile Char.isDigit)
    | _ => ([], rest)
  if before.isEmpty && after.isEmpty then none
  else (exponent? rest).map fun exponent =>
    ofScientific negative (ofDigits (before ++ after)) (exponent - after.length)

/-- The number that a text denotes in decimal notation. -/
def ofDecimal? (text : String) : Option Binary64 :=
  let (negative, cs) := splitSign text.toList
  let name := String.ofList (cs.map Char.toLower)
  if name = "inf" ∨ name = "infinity" then some (infinity negative)
  else if name = "nan" then some nan
  else unsignedDecimal? negative cs

end Binary64

end PacketTrace
