import BindingPower.Number.Binary64

/-! The text of a floating number: the fewest digits that read back as the number, positional
between 0.0001 and 10 ^ 16 and with an exponent outside. -/
namespace BindingPower.Number

/-- The multiple `d * 10 ^ k` nearest to `m * 2 ^ q` among those that round to it, if there is one.
What rounds to it lies between the midpoints to its neighbours, the ends included for an even `m`;
the lower neighbour of a power of two is half as far. The three are counted in quarters of the last
place, and only the two multiples around the number can be nearest. -/
def onGrid (m : Nat) (q k : Int) : Option Nat :=
  let a := twoTo (q - 2).toNat * tenTo (-k).toNat
  let b := twoTo (2 - q).toNat * tenTo k.toNat
  let low := (4 * m - if m = twoTo 52 && q > -1074 then 1 else 2) * a
  let high := (4 * m + 2) * a
  let value := 4 * m * a
  let inside (d : Nat) : Bool :=
    if m % 2 = 0 then low ≤ d * b && d * b ≤ high else low < d * b && d * b < high
  let d := value / b
  if inside d then
    if inside (d + 1) then
      let below := value - d * b
      let above := (d + 1) * b - value
      some (if below < above || (below = above && d % 2 = 0) then d else d + 1)
    else some d
  else if inside (d + 1) then some (d + 1)
  else none

/-- The shortest decimal `d * 10 ^ k` that reads back as `m * 2 ^ q`: the grid is refined until a
point of it rounds to the number. Seventeen digits always suffice. -/
def shortest (m : Nat) (q : Int) : Nat × Int :=
  let top := Int.fdiv ((Int.ofNat m.log2 + q) * 30103) 100000 + 2
  ((List.range 22).findSome? fun (i : Nat) => (onGrid m q (top - i)).map (·, top - i)).getD (m, q)

/-- The digits of a natural number. -/
def digits (n : Nat) : List Char := Nat.toDigits 10 n

/-- An exponent has a sign and at least two digits. -/
def exponentText (e : Int) : List Char :=
  let ds := digits e.natAbs
  (if e < 0 then '-' else '+') :: (if ds.length < 2 then '0' :: ds else ds)

/-- The text of `d * 10 ^ k`. -/
def decimalText (d : Nat) (k : Int) : List Char :=
  let ds := digits d
  let e := k + Int.ofNat ds.length - 1
  if e < -4 || 16 ≤ e then
    (match ds with
      | [] => []
      | [c] => [c]
      | c :: rest => c :: '.' :: rest) ++ 'e' :: exponentText e
  else if 0 ≤ k then ds ++ List.replicate k.toNat '0'
  else if 0 ≤ e then ds.take (e + 1).toNat ++ '.' :: ds.drop (e + 1).toNat
  else '0' :: '.' :: (List.replicate (-e - 1).toNat '0' ++ ds)

/-- The text of a floating number, a whole one written as an integer. -/
def bareText (x : Float) : List Char :=
  match decode x with
  | .nan => ['n', 'a', 'n']
  | .infinite negative => (if negative then ['-'] else []) ++ ['i', 'n', 'f']
  | .finite negative m q =>
    (if negative then ['-'] else []) ++
      if m = 0 then ['0'] else let (d, k) := shortest m q; decimalText d k

/-- The text of a floating number, which a point, an exponent or a word tells from an integer. -/
def floatText (x : Float) : String :=
  let text := bareText x
  .ofList (if text.all fun c => c.isDigit || c == '-' then text ++ ['.', '0'] else text)

end BindingPower.Number
