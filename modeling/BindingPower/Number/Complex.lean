import BindingPower.Number.Shortest

/-! Complex numbers of two floating parts: products by the definition, quotients scaled by the
larger part of the divisor, powers by squaring or through the polar form. -/
namespace BindingPower.Number

structure ComplexFloat where
  re : Float
  im : Float

/-- The root of a sum of squares of comparable size, the larger first: the plain formula, corrected
by the error that the rounded root has. -/
def rootOfSquares (x y : Float) : Float :=
  let h := Float.sqrt (x * x + y * y)
  let error :=
    if h <= 2 * y then
      let d := h - y
      x * (2 * d - x) + (d - 2 * (x - y)) * d
    else
      let d := h - x
      2 * d * (x - 2 * y) + ((4 * d - y) * y + d * d)
  h - error / (2 * h)

/-- The length of the hypotenuse over two sides. Sides whose squares would leave the range are
scaled first, and one too small to matter is added as it is. -/
def hypot (x y : Float) : Float :=
  if x.isInf || y.isInf then infinity false
  else if x.isNaN || y.isNaN then x + y
  else
    let x := x.abs
    let y := y.abs
    let (x, y) := if x < y then (y, x) else (x, y)
    if y.scaleB 54 <= x then x + y
    else if Float.scaleB 1 511 < x then
      (rootOfSquares (x.scaleB (-600)) (y.scaleB (-600))).scaleB 600
    else if y < Float.scaleB 1 (-459) then
      (rootOfSquares (x.scaleB 600) (y.scaleB 600)).scaleB (-600)
    else rootOfSquares x y

namespace ComplexFloat

def ofReal (x : Float) : ComplexFloat := ⟨x, 0⟩

def one : ComplexFloat := ⟨1, 0⟩

def isZero (z : ComplexFloat) : Bool := z.re == 0 && z.im == 0

def neg (z : ComplexFloat) : ComplexFloat := ⟨-z.re, -z.im⟩

def add (z w : ComplexFloat) : ComplexFloat := ⟨z.re + w.re, z.im + w.im⟩

def sub (z w : ComplexFloat) : ComplexFloat := ⟨z.re - w.re, z.im - w.im⟩

def mul (z w : ComplexFloat) : ComplexFloat :=
  ⟨z.re * w.re - z.im * w.im, z.re * w.im + z.im * w.re⟩

/-- The quotient, unless the divisor is zero. -/
def div? (z w : ComplexFloat) : Option ComplexFloat :=
  if w.re.abs >= w.im.abs then
    if w.re == 0 then none else
      let ratio := w.im / w.re
      let scale := w.re + w.im * ratio
      some ⟨(z.re + z.im * ratio) / scale, (z.im - z.re * ratio) / scale⟩
  else if w.im.abs >= w.re.abs then
    let ratio := w.re / w.im
    let scale := w.re * ratio + w.im
    some ⟨(z.re * ratio + z.im) / scale, (z.im * ratio - z.re) / scale⟩
  else some ⟨notNumber, notNumber⟩

/-- Repeated squaring over the seven binary places of an exponent up to a hundred. -/
def powNat (z : ComplexFloat) (n : Nat) : ComplexFloat :=
  ((List.range 7).foldl (fun (state : ComplexFloat × ComplexFloat) bit =>
    if n < twoTo bit then state else
      (if n.testBit bit then state.1.mul state.2 else state.1, state.2.mul state.2)) (one, z)).1

/-- An exponent without an imaginary part that is an integer of at most a hundred either way. -/
def smallExponent? (w : ComplexFloat) : Option Int :=
  if w.im == 0 && isInteger w.re && w.re.abs <= 100 then
    match decode w.re with
    | .finite negative m q =>
      let n := Int.ofNat (m * twoTo q.toNat / twoTo (-q).toNat)
      some (if negative then -n else n)
    | _ => none
  else none

/-- The power through the polar form. None where the cosine of an infinite phase is asked for. -/
def polarPow? (z w : ComplexFloat) : Option ComplexFloat :=
  let length := hypot z.re z.im
  let angle := Float.atan2 z.im z.re
  let scale := Float.pow length w.re
  let turned := angle * w.re
  let (scale, phase) := if w.im == 0 then (scale, turned) else
    (scale / Float.exp (angle * w.im), turned + w.im * Float.log length)
  if phase.isInf then none else some ⟨scale * phase.cos, scale * phase.sin⟩

/-- A power, none where zero is raised to a negative or complex exponent. -/
def pow? (z w : ComplexFloat) : Option ComplexFloat :=
  match smallExponent? w with
  | some n => if 0 < n then some (z.powNat n.toNat) else one.div? (z.powNat n.natAbs)
  | none =>
    if z.isZero then if w.im == 0 && !(w.re < 0) then some ⟨0, 0⟩ else none
    else polarPow? z w

/-- Whether a part has grown past all bounds. -/
def isInfinite (z : ComplexFloat) : Bool := z.re.isInf || z.im.isInf

/-- The sum in brackets, or the imaginary part alone beside a positive zero. -/
def text (z : ComplexFloat) : String :=
  let im := bareText z.im
  let signed := if im.head? = some '-' then im else '+' :: im
  .ofList <| if z.re == 0 && !isNegative z.re then im ++ ['j'] else
    '(' :: (bareText z.re ++ signed ++ ['j', ')'])

end ComplexFloat

end BindingPower.Number
