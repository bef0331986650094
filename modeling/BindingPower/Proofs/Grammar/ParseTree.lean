import BindingPower.Proofs.Grammar.Shape

/-! Parse trees over labels that have the shapes of tokens, and when one groups its operators as
their binding powers say. -/
namespace BindingPower

inductive ParseTree (S : Type) where
  | leaf (s : S)
  | prefixed (s : S) (x : ParseTree S)
  | postfixed (s : S) (x : ParseTree S)
  | infixed (s : S) (x y : ParseTree S)
  | grouped (s : S) (x : ParseTree S) (close : S)
  | ternary (s : S) (cond yes : ParseTree S) (separator : S) (no : ParseTree S)
  | conditional (s : S) (cond : ParseTree S) (thenMark : S) (yes : ParseTree S) (endMark : S)
  | alternative (s : S) (cond : ParseTree S) (thenMark : S) (yes : ParseTree S) (elseMark : S)
      (no : ParseTree S) (endMark : S)
deriving Repr, DecidableEq

namespace ParseTree
variable {S V : Type}

/-- The labels from left to right, delimiters included. -/
def yield : ParseTree S → List S
  | leaf s => [s]
  | prefixed s x => s :: x.yield
  | postfixed s x => x.yield ++ [s]
  | infixed s x y => x.yield ++ s :: y.yield
  | grouped s x d => s :: (x.yield ++ [d])
  | ternary s c x d y => c.yield ++ s :: (x.yield ++ d :: y.yield)
  | conditional s c d x e => s :: (c.yield ++ d :: (x.yield ++ [e]))
  | alternative s c d x m y e => s :: (c.yield ++ d :: (x.yield ++ m :: (y.yield ++ [e])))

section
variable (shape : S → Shape)

/-- Each label fits its node: operators stand where their kind puts them, and delimiters bear the
names that are demanded of them. -/
def WellFormed : ParseTree S → Prop
  | leaf s => (shape s).isOperand = true
  | prefixed s x => (shape s).isPrefix = true ∧ x.WellFormed
  | postfixed s x => (shape s).isSuffix = true ∧ x.WellFormed
  | infixed s x y => (shape s).assoc.isSome = true ∧ x.WellFormed ∧ y.WellFormed
  | grouped s x d =>
      (∃ m, (shape s).form = .group m ∧ (shape d).Delimits m) ∧ x.WellFormed
  | ternary s c x d y =>
      (∃ m, (shape s).form = .ternary m ∧ (shape d).Delimits m) ∧
        c.WellFormed ∧ x.WellFormed ∧ y.WellFormed
  | conditional s c d x e =>
      (∃ m n o, (shape s).form = .conditional m n o ∧ (shape d).Delimits m ∧
        (shape e).Delimits o) ∧ c.WellFormed ∧ x.WellFormed
  | alternative s c d x m y e =>
      (∃ m' n o, (shape s).form = .conditional m' n o ∧ (shape d).Delimits m' ∧
        (shape m).Delimits n ∧ (shape e).Delimits o) ∧
        c.WellFormed ∧ x.WellFormed ∧ y.WellFormed

/-- The binding powers of the operators met on the way down the left operands, from the top. -/
@[simp] def leftSpine : ParseTree S → List Int
  | postfixed s x => (shape s).lbp :: x.leftSpine
  | infixed s x _ => (shape s).lbp :: x.leftSpine
  | ternary s c _ _ _ => (shape s).lbp :: c.leftSpine
  | _ => []

/-- The powers down to which the last operands reach on the way down them, from the top. -/
@[simp] def rightSpine : ParseTree S → List Int
  | prefixed s x => (shape s).prefixPower :: x.rightSpine
  | infixed s _ y => (shape s).operandPower :: y.rightSpine
  | ternary s _ _ _ y => (shape s).operandPower :: y.rightSpine
  | _ => []

/-- Whether the tree is an application of a non-associative operator of this power. -/
@[simp] def Chains (lbp : Int) : ParseTree S → Prop
  | infixed s _ _ => (shape s).lbp = lbp ∧ (shape s).assoc = some .none
  | _ => False

/-- Whether a tree may be a last operand that reaches down to this power. -/
def Above (x : ParseTree S) (power : Int) : Prop := ∀ l ∈ x.leftSpine shape, power < l

/-- Whether none of the last operands of a tree would have taken in an operator of this power. -/
def Ends (x : ParseTree S) (power : Int) : Prop := ∀ r ∈ x.rightSpine shape, power ≤ r

/-- Whether a tree may be the left operand of an operator: the operator is not taken in by what is
before it, and the two are not a chain of non-associative operators. -/
def Precedes (x : ParseTree S) (o : Shape) : Prop :=
  x.Ends shape o.lbp ∧ (o.assoc = some .none → ¬ x.Chains shape o.lbp)

/-- At every node the operands are grouped as the binding powers say. -/
def PrecedenceCorrect : ParseTree S → Prop
  | leaf _ => True
  | prefixed s x => x.PrecedenceCorrect ∧ x.Above shape (shape s).prefixPower
  | postfixed s x => x.PrecedenceCorrect ∧ x.Precedes shape (shape s)
  | infixed s x y =>
      x.PrecedenceCorrect ∧ y.PrecedenceCorrect ∧ x.Precedes shape (shape s) ∧
        y.Above shape (shape s).operandPower
  | grouped _ x _ => x.PrecedenceCorrect
  | ternary s c x _ y =>
      c.PrecedenceCorrect ∧ x.PrecedenceCorrect ∧ y.PrecedenceCorrect ∧
        c.Precedes shape (shape s) ∧ y.Above shape (shape s).operandPower
  | conditional _ c _ x _ => c.PrecedenceCorrect ∧ x.PrecedenceCorrect
  | alternative _ c _ x _ y _ =>
      c.PrecedenceCorrect ∧ x.PrecedenceCorrect ∧ y.PrecedenceCorrect

end

theorem length_yield_pos (x : ParseTree S) : 0 < x.yield.length := by
  cases x <;> simp only [yield, List.length_cons, List.length_append] <;> omega

/-- What the functions of the tokens make of a tree, if none of them fails or refuses. -/
def value? (token : S → Token V) : ParseTree S → Option V
  | leaf s => (token s).kind.startValue?
  | prefixed s x => x.value? token >>= (token s).kind.prefixValue?
  | postfixed s x => x.value? token >>= (token s).kind.suffixValue?
  | infixed s x y => do (token s).kind.infixValue? (← x.value? token) (← y.value? token)
  | grouped s x _ => x.value? token >>= (token s).kind.groupValue?
  | ternary s c x _ y => do
      (token s).kind.ternaryValue? (← c.value? token) (← x.value? token) (← y.value? token)
  | conditional s c _ x _ => do
      (token s).kind.conditionalValue? (← c.value? token) (← x.value? token) none
  | alternative s c _ x _ y _ => do
      (token s).kind.conditionalValue? (← c.value? token) (← x.value? token)
        (some (← y.value? token))

end ParseTree

end BindingPower
