/-! Binary floating numbers of 64 bits as integers times powers of two, and the nearest such number
to a quotient of naturals. -/
namespace BindingPower.Number

/-- The powers of two and of ten. -/
def twoTo (k : Nat) : Nat := Nat.pow 2 k

def tenTo (k : Nat) : Nat := Nat.pow 10 k

/-- What the bits of a floating number say. A finite number is `m * 2 ^ q` with a sign. -/
inductive Binary64 where
  | nan
  | infinite (negative : Bool)
  | finite (negative : Bool) (m : Nat) (q : Int)
deriving Repr, DecidableEq

def decode (x : Float) : Binary64 :=
  let bits := x.toBits.toNat
  let negative := decide (twoTo 63 ≤ bits)
  let field := bits / twoTo 52 % twoTo 11
  let m := bits % twoTo 52
  if field = 2047 then if m = 0 then .infinite negative else .nan
  else if field = 0 then .finite negative m (-1074)
  else .finite negative (m + twoTo 52) (Int.ofNat field - 1075)

/-- The number with this sign whose other 63 bits are `magnitude`. -/
def ofMagnitude (negative : Bool) (magnitude : Nat) : Float :=
  .ofBits (.ofNat (if negative then magnitude + twoTo 63 else magnitude))

def infinity (negative : Bool) : Float := ofMagnitude negative (2047 * twoTo 52)

/-- The outcome of operations that have none. It is not equal to itself. -/
def notNumber : Float := 0 / 0

/-- The quotient `n / d` rounded to a natural, a half to the even neighbour. -/
def roundHalfEven (n d : Nat) : Nat :=
  if 2 * (n % d) < d || (2 * (n % d) = d && n / d % 2 = 0) then n / d else n / d + 1

/-- Whether `2 ^ e ≤ n / d`. -/
def powerLe (e : Int) (n d : Nat) : Bool := d * twoTo e.toNat ≤ n * twoTo (-e).toNat

/-- The `e` with `2 ^ e ≤ n / d < 2 ^ (e + 1)`, for positive `n` and `d`. -/
def floorLog2 (n d : Nat) : Int :=
  let e := Int.ofNat n.log2 - Int.ofNat d.log2
  if powerLe e n d then e else e - 1

/-- The lower 63 bits of the floating number nearest to `n / d`, ties to even. The exponent field
is carried into when rounding fills the last place, so no case is needed for it; past the largest
finite number the result is at least that of infinity. -/
def nearestMagnitude (n d : Nat) : Nat :=
  if n = 0 then 0 else
    let q := max (floorLog2 n d - 52) (-1074)
    (q + 1074).toNat * twoTo 52 + roundHalfEven (n * twoTo (-q).toNat) (d * twoTo q.toNat)

/-- The nearest floating number to `n / d` with a sign, unless it is too large for one. -/
def nearest? (negative : Bool) (n d : Nat) : Option Float :=
  let magnitude := nearestMagnitude n d
  if magnitude < 2047 * twoTo 52 then some (ofMagnitude negative magnitude) else none

/-- The nearest floating number to an integer. -/
def ofInt? (i : Int) : Option Float := nearest? (i < 0) i.natAbs 1

/-- The sign bit. -/
def isNegative (x : Float) : Bool := twoTo 63 ≤ x.toBits.toNat

/-- Whether a number is an odd integer. -/
def isOddInteger (x : Float) : Bool :=
  match decode x with
  | .finite _ m q => if 0 ≤ q then q = 0 && m % 2 = 1 else
      m % twoTo (-q).toNat = 0 && m / twoTo (-q).toNat % 2 = 1
  | _ => false

/-- Whether a number is finite and without a fraction. -/
def isInteger (x : Float) : Bool :=
  match decode x with
  | .finite _ m q => m % twoTo (-q).toNat = 0
  | _ => false

/-- The order of an integer and a floating number, none beside a number that is not one. -/
def compareIntFloat (i : Int) (x : Float) : Option Ordering :=
  match decode x with
  | .nan => none
  | .infinite negative => some (if negative then .gt else .lt)
  | .finite negative m q =>
    let signed : Int := if negative then -(Int.ofNat m) else Int.ofNat m
    some (compare (i * twoTo (-q).toNat) (signed * twoTo q.toNat))

/-- The order of two floating numbers, none beside a number that is not one. -/
def compareFloats (x y : Float) : Option Ordering :=
  if x < y then some .lt else if y < x then some .gt else if x == y then some .eq else none

end BindingPower.Number
