import BindingPower.Number.Power
import BindingPower.Value.Comparison
import BindingPower.Value.Printing

/-! Arithmetic on values. Integers are exact, quotients and negative powers are floating, and a
floating or complex operand takes the other along. Texts and lists are joined and repeated. -/
namespace BindingPower.Value
open Number

namespace Scalar

/-- The floating number nearest to an integer, or the real part of a complex number. -/
def real : Scalar → Except Fault Float
  | int i =>
    match ofInt? i with
    | some x => .ok x
    | none => .error .conversionOverflow
  | float x => .ok x
  | complex z => .ok z.re

def toComplex : Scalar → Except Fault ComplexFloat
  | complex z => .ok z
  | x => x.real.map .ofReal

/-- An operation by the kind the operands share: integers, floating numbers or complex numbers. -/
def combine (ints : Int → Int → Except Fault Value) (reals : Float → Float → Except Fault Value)
    (complexes : ComplexFloat → ComplexFloat → Except Fault Value) :
    Scalar → Scalar → Except Fault Value
  | int i, int j => ints i j
  | x@(complex _), y | x, y@(complex _) => do complexes (← x.toComplex) (← y.toComplex)
  | x, y => do reals (← x.real) (← y.real)

/-- The quotient of two integers, correctly rounded. A zero has the sign of the operands. -/
def divideInts (i j : Int) : Except Fault Value :=
  if j = 0 then .error (.divisionByZero .integer) else
    match nearest? (decide (i < 0) != decide (j < 0)) i.natAbs j.natAbs with
    | some x => .ok (.float x)
    | none => .error .quotientOverflow

def powComplex (z w : ComplexFloat) : Except Fault Value :=
  match z.pow? w with
  | none => .error .zeroToComplex
  | some v => if v.isInfinite then .error .complexPowerOverflow else .ok (.complex v)

def powReals (x y : Float) : Except Fault Value :=
  match power x y with
  | .real z => .ok (.float z)
  | .complex => powComplex (.ofReal x) (.ofReal y)
  | .zeroToNegative => .error .zeroToNegative
  | .overflow => .error .powerOverflow

/-- An integer to a natural exponent. Bases of size at most one do not grow, whatever the
exponent. -/
def powNat (i : Int) (n : Nat) : Int :=
  if n = 0 then 1
  else if i = 0 || i = 1 then i
  else if i = -1 then if n % 2 = 0 then 1 else -1
  else Int.pow i n

def powInts (i j : Int) : Except Fault Value :=
  if 0 ≤ j then .ok (.int (powNat i j.toNat)) else do
    powReals (← (int i).real) (← (int j).real)

def add : Scalar → Scalar → Except Fault Value :=
  combine (fun i j => .ok (.int (i + j))) (fun x y => .ok (.float (x + y)))
    fun z w => .ok (.complex (z.add w))

def sub : Scalar → Scalar → Except Fault Value :=
  combine (fun i j => .ok (.int (i - j))) (fun x y => .ok (.float (x - y)))
    fun z w => .ok (.complex (z.sub w))

def mul : Scalar → Scalar → Except Fault Value :=
  combine (fun i j => .ok (.int (i * j))) (fun x y => .ok (.float (x * y)))
    fun z w => .ok (.complex (z.mul w))

def div : Scalar → Scalar → Except Fault Value :=
  combine divideInts
    (fun x y => if y == 0 then .error (.divisionByZero .real) else .ok (.float (x / y)))
    fun z w =>
      match z.div? w with
      | none => .error (.divisionByZero .complex)
      | some v => .ok (.complex v)

def pow : Scalar → Scalar → Except Fault Value := combine powInts powReals powComplex

end Scalar

/-- The bound of the counts by which texts and lists can be repeated. -/
def maxCount : Int := twoTo 63

/-- The bound of the lengths that are within reach of memory. -/
def maxLength : Int := twoTo 40

/-- As many copies of the items as `count` says, none for a negative count. What has more items than
can be counted is refused as `long`. -/
def repeated {α : Type} (items : List α) (count : Int) (long : Fault) : Except Fault (List α) :=
  if count < -maxCount || maxCount ≤ count then .error .hugeRepetition
  else if items.isEmpty then .ok []
  else if maxCount ≤ items.length * count then .error long
  else if maxLength ≤ items.length * count then .error .outOfMemory
  else .ok (List.replicate count.toNat items).flatten

/-- A text or list taken a number of times. -/
def repeatBy (sequence count : Value) : Except Fault Value :=
  match count.scalar?, sequence with
  | some (.int n), text s => (repeated s.toList n .longText).map fun cs => .text (.ofList cs)
  | some (.int n), list items => (repeated items n .outOfMemory).map .list
  | _, _ => .error (.notRepeatable count.kindName)

def add (v w : Value) : Except Fault Value :=
  match v.scalar?, w.scalar? with
  | some x, some y => x.add y
  | _, _ =>
    match v, w with
    | text s, text t => .ok (.text (s ++ t))
    | list xs, list ys => .ok (.list (xs ++ ys))
    | text _, _ | list _, _ => .error (.notConcatenable v.kindName w.kindName)
    | _, _ => .error (.unsupported "+" v.kindName w.kindName)

def sub (v w : Value) : Except Fault Value :=
  match v.scalar?, w.scalar? with
  | some x, some y => x.sub y
  | _, _ => .error (.unsupported "-" v.kindName w.kindName)

def mul (v w : Value) : Except Fault Value :=
  match v.scalar?, w.scalar? with
  | some x, some y => x.mul y
  | _, _ =>
    match v, w with
    | text _, _ | list _, _ => repeatBy v w
    | _, text _ | _, list _ => repeatBy w v
    | _, _ => .error (.unsupported "*" v.kindName w.kindName)

def div (v w : Value) : Except Fault Value :=
  match v.scalar?, w.scalar? with
  | some x, some y => x.div y
  | _, _ => .error (.unsupported "/" v.kindName w.kindName)

def pow (v w : Value) : Except Fault Value :=
  match v.scalar?, w.scalar? with
  | some x, some y => x.pow y
  | _, _ => .error (.unsupported "** or pow()" v.kindName w.kindName)

def neg (v : Value) : Except Fault Value :=
  match v.scalar? with
  | some (.int i) => .ok (.int (-i))
  | some (.float x) => .ok (.float (-x))
  | some (.complex z) => .ok (.complex z.neg)
  | none => .error (.badOperand "-" v.kindName)

/-- A number as it is, and a truth value as an integer. -/
def pos (v : Value) : Except Fault Value :=
  match v.scalar? with
  | some (.int i) => .ok (.int i)
  | some _ => .ok v
  | none => .error (.badOperand "+" v.kindName)

/-- A number with one more digit. -/
def appendDigit (v : Value) (d : Int) : Except Fault Value := do
  (← v.mul (.int 10)).add (.int d)

end BindingPower.Value
