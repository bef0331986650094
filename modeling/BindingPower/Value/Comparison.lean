import BindingPower.Fault
import BindingPower.Value.Basic

/-! Equality of any two values, and the order of numbers, of texts and of lists. The parts of lists
and trees are compared as what they are before they are compared by value. -/
namespace BindingPower.Value
open Number

/-- Equality of numbers of any kinds, by value. -/
def Scalar.equal : Scalar → Scalar → Bool
  | int i, int j => i = j
  | float x, float y => x == y
  | complex z, complex w => z.re == w.re && z.im == w.im
  | int i, float x | float x, int i => compareIntFloat i x = some .eq
  | int i, complex z | complex z, int i => z.im == 0 && compareIntFloat i z.re = some .eq
  | float x, complex z | complex z, float x => z.im == 0 && z.re == x

/-- Whether both are one and the same given number that is none. What is computed is never on both
sides of a comparison, and all else that is given is equal to itself. -/
def identical : Value → Value → Bool
  | nan m, nan n => m = n
  | _, _ => false

mutual

/-- Numbers are equal by value, all else by kind and parts. -/
def equal : Value → Value → Bool
  | absent, absent => true
  | text s, text t => s = t
  | list xs, list ys => equalItems xs ys
  | token t, token u => t.same u
  | number v, number w | name v, name w => identical v w || equal v w
  | unary v₁ v₂, unary w₁ w₂ =>
      (identical v₁ w₁ || equal v₁ w₁) && (identical v₂ w₂ || equal v₂ w₂)
  | binary v₁ v₂ v₃, binary w₁ w₂ w₃ | choice v₁ v₂ v₃, choice w₁ w₂ w₃ =>
      (identical v₁ w₁ || equal v₁ w₁) && (identical v₂ w₂ || equal v₂ w₂) &&
        (identical v₃ w₃ || equal v₃ w₃)
  | v, w =>
    match v.scalar?, w.scalar? with
    | some x, some y => x.equal y
    | _, _ => false

def equalItems : List Value → List Value → Bool
  | [], [] => true
  | v :: vs, w :: ws => (identical v w || equal v w) && equalItems vs ws
  | _, _ => false

end

/-- The four order relations. -/
inductive Relation where
  | lt
  | le
  | gt
  | ge
deriving Repr, DecidableEq

namespace Relation

def symbol : Relation → String
  | lt => "<"
  | le => "<="
  | gt => ">"
  | ge => ">="

/-- Whether the relation holds of two things in this order. -/
def holds : Relation → Ordering → Bool
  | lt, o => o = .lt
  | le, o => o ≠ .gt
  | gt, o => o = .gt
  | ge, o => o ≠ .lt

end Relation

/-- The order of two numbers, none beside a number that is not one. Complex numbers have no
order. -/
def Scalar.order : Scalar → Scalar → Option (Option Ordering)
  | int i, int j => some (some (compare i j))
  | float x, float y => some (compareFloats x y)
  | int i, float x => some (compareIntFloat i x)
  | float x, int i => some ((compareIntFloat i x).map (·.swap))
  | _, _ => none

mutual

/-- Whether a relation holds of two numbers, two texts or two lists. -/
def related (r : Relation) : Value → Value → Except Fault Bool
  | text s, text t => .ok (r.holds (compare s t))
  | list xs, list ys => relatedItems r xs ys
  | v, w =>
    match v.scalar?, w.scalar? with
    | some x, some y =>
      match x.order y with
      | some o => .ok (o.any r.holds)
      | none => .error (.unordered r.symbol v.kindName w.kindName)
    | _, _ => .error (.unordered r.symbol v.kindName w.kindName)

/-- The first two items that differ decide, or else the lengths. -/
def relatedItems (r : Relation) : List Value → List Value → Except Fault Bool
  | v :: vs, w :: ws =>
      if identical v w || equal v w then relatedItems r vs ws else related r v w
  | vs, ws => .ok (r.holds (compare vs.length ws.length))

end

end BindingPower.Value
