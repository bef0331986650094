import BindingPower.Number.Binary64

/-! Powers of floating numbers, with the special cases settled before the general power. -/
namespace BindingPower.Number

/-- What raising a floating number to another gives. -/
inductive Power where
  | real (x : Float)
  /-- A fractional power of a negative number, which is complex. -/
  | complex
  | zeroToNegative
  | overflow

/-- The power of a positive finite base to a finite exponent. -/
def positivePower (negate : Bool) (x y : Float) : Power :=
  if x == 1 then .real (if negate then -1 else 1) else
    let z := x.pow y
    if z.isInf then .overflow else .real (if negate then -z else z)

def power (x y : Float) : Power :=
  if y == 0 then .real 1
  else if x.isNaN then .real x
  else if y.isNaN then .real (if x == 1 then 1 else y)
  else if y.isInf then
    if x.abs == 1 then .real 1
    else .real (if decide (0 < y) == decide (1 < x.abs) then y.abs else 0)
  else if x.isInf then
    if 0 < y then .real (if isOddInteger y then x else x.abs)
    else .real (ofMagnitude (isOddInteger y && isNegative x) 0)
  else if x == 0 then
    if y < 0 then .zeroToNegative else .real (if isOddInteger y then x else 0)
  else if x < 0 then
    if isInteger y then positivePower (isOddInteger y) (-x) y else .complex
  else positivePower false x y

end BindingPower.Number
