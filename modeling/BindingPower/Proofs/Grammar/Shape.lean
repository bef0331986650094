import BindingPower.Token.Basic

/-! What a token is to a grammar: its kind with powers and marks, apart from what it computes. -/
namespace BindingPower
variable {V : Type}

/-- The kinds of tokens whose matchers are names, without their functions. -/
inductive Form where
  | literal
  | digit
  | infixOp (assoc : Assoc)
  | prefixOp (rbp : Int)
  | bifix (assoc : Assoc) (prefixRbp : Int)
  | postfixOp
  | group (close : String)
  | keyword
  | ternary (separator : String)
  | conditional (thenMark elseMark endMark : String)
  /-- Everything else, of which a grammar says nothing. -/
  | other
deriving Repr, DecidableEq

structure Shape where
  name : Option String
  lbp : Int
  form : Form
deriving Repr, DecidableEq

namespace Shape

/-- Stands where an operand may, on its own. -/
def isOperand (s : Shape) : Bool :=
  match s.form with
  | .literal | .digit => true
  | _ => false

def isPrefix (s : Shape) : Bool :=
  match s.form with
  | .prefixOp _ | .bifix .. => true
  | _ => false

/-- Follows its only operand. -/
def isSuffix (s : Shape) : Bool :=
  match s.form with
  | .postfixOp | .digit => true
  | _ => false

def assoc (s : Shape) : Option Assoc :=
  match s.form with
  | .infixOp assoc | .bifix assoc _ => some assoc
  | _ => none

/-- The power down to which the operand after a prefix reaches. -/
def prefixPower (s : Shape) : Int :=
  match s.form with
  | .prefixOp rbp | .bifix _ rbp => rbp
  | _ => 0

/-- The power down to which the last operand of an infix operator or a ternary reaches. -/
def operandPower (s : Shape) : Int :=
  match s.form with
  | .infixOp assoc | .bifix assoc _ => rightPower s.lbp assoc
  | .ternary _ => s.lbp - 1
  | _ => 0

/-- The names by which a token demands its delimiters. -/
def marks (s : Shape) : List String :=
  match s.form with
  | .group close => [close]
  | .ternary separator => [separator]
  | .conditional thenMark elseMark endMark => [thenMark, elseMark, endMark]
  | _ => []

/-- A delimiter of this name. -/
def Delimits (s : Shape) (mark : String) : Prop := s.name = some mark ∧ s.form = .keyword

/-- Operators that follow an operand bind something, all others nothing. No operand reaches below
the power of the end of input. -/
def Regular (s : Shape) : Prop :=
  match s.form with
  | .literal | .keyword | .group _ => s.lbp = 0
  | .digit | .infixOp _ | .postfixOp | .ternary _ => 1 ≤ s.lbp
  | .prefixOp rbp => s.lbp = 0 ∧ 0 ≤ rbp
  | .bifix _ rbp => 1 ≤ s.lbp ∧ 0 ≤ rbp
  | .conditional _ elseMark endMark => s.lbp = 0 ∧ elseMark ≠ endMark
  | .other => False

instance : DecidablePred Regular := fun s => by
  unfold Regular
  split <;> infer_instance

theorem Regular.lbp_nonneg {s : Shape} (h : s.Regular) : 0 ≤ s.lbp := by
  unfold Regular at h
  split at h <;> first | omega | exact h.elim

theorem Regular.prefixPower_nonneg {s : Shape} (h : s.Regular) : 0 ≤ s.prefixPower := by
  unfold Regular at h
  unfold prefixPower
  split at h <;> simp_all

theorem Regular.operandPower_nonneg {s : Shape} (h : s.Regular) : 0 ≤ s.operandPower := by
  unfold Regular at h
  unfold operandPower
  split at h <;> simp_all [rightPower]
  all_goals split <;> omega

theorem Regular.lbp_of_delimits {s : Shape} (h : s.Regular) {mark : String}
    (hd : s.Delimits mark) : s.lbp = 0 := by
  simpa only [Regular, hd.2] using h

theorem Regular.lbp_pos_of_assoc {s : Shape} (h : s.Regular) {a : Assoc}
    (ha : s.assoc = some a) : 1 ≤ s.lbp := by
  unfold Regular at h
  unfold assoc at ha
  split at h <;> simp_all

theorem Regular.lbp_pos_of_isSuffix {s : Shape} (h : s.Regular) (hs : s.isSuffix = true) :
    1 ≤ s.lbp := by
  unfold Regular at h
  unfold isSuffix at hs
  split at h <;> simp_all

theorem Regular.lbp_pos_of_ternary {s : Shape} (h : s.Regular) {m : String}
    (hs : s.form = .ternary m) : 1 ≤ s.lbp := by
  simpa only [Regular, hs] using h

theorem operandPower_of_assoc {s : Shape} {a : Assoc} (h : s.assoc = some a) :
    s.operandPower = rightPower s.lbp a := by
  unfold assoc at h
  unfold operandPower
  split at h <;> simp_all

end Shape

namespace Kind

def form : Kind V → Form
  | literal _ => .literal
  | digit .. => .digit
  | infixOp assoc _ => .infixOp assoc
  | prefixOp rbp _ => .prefixOp rbp
  | bifix assoc _ rbp _ => .bifix assoc rbp
  | postfixOp _ => .postfixOp
  | group (.named close) _ => .group close
  | keyword => .keyword
  | ternary (.named separator) _ => .ternary separator
  | conditional (.named thenMark) (.named elseMark) (.named endMark) _ =>
      .conditional thenMark elseMark endMark
  | _ => .other

/-- The kinds that have a form. -/
inductive HasForm : Kind V → Form → Prop where
  | literal (v) : HasForm (.literal v) .literal
  | digit (d make extend joins) : HasForm (.digit d make extend joins) .digit
  | infixOp (a fn) : HasForm (.infixOp a fn) (.infixOp a)
  | prefixOp (r fn) : HasForm (.prefixOp r fn) (.prefixOp r)
  | bifix (a fn r prefixFn) : HasForm (.bifix a fn r prefixFn) (.bifix a r)
  | postfixOp (fn) : HasForm (.postfixOp fn) .postfixOp
  | group (c wrap) : HasForm (.group (.named c) wrap) (.group c)
  | keyword : HasForm .keyword .keyword
  | ternary (m fn) : HasForm (.ternary (.named m) fn) (.ternary m)
  | conditional (a b c fn) :
      HasForm (.conditional (.named a) (.named b) (.named c) fn) (.conditional a b c)

theorem hasForm {k : Kind V} {f : Form} (h : k.form = f) (hf : f ≠ .other) : HasForm k f := by
  subst h
  unfold form at hf ⊢
  split at hf <;> first | constructor | exact absurd rfl hf

/-- The value of an operand on its own. -/
def startValue? : Kind V → Option V
  | literal v => some v
  | digit d make _ _ => (make d).toOption
  | _ => none

def prefixValue? : Kind V → V → Option V
  | prefixOp _ fn, v | bifix _ _ _ fn, v => (fn v).toOption
  | _, _ => none

/-- The value after a postfix operator, or with one more digit if the digit joins. -/
def suffixValue? : Kind V → V → Option V
  | postfixOp fn, v => (fn v).toOption
  | digit d _ extend joins, v =>
    match joins v with
    | .ok true => (extend v d).toOption
    | _ => none
  | _, _ => none

def infixValue? : Kind V → V → V → Option V
  | infixOp _ fn, v, w | bifix _ fn _ _, v, w => (fn v w).toOption
  | _, _, _ => none

def groupValue? : Kind V → V → Option V
  | group _ none, v => some v
  | group _ (some wrap), v => (wrap v).toOption
  | _, _ => none

def ternaryValue? : Kind V → V → V → V → Option V
  | ternary _ fn, c, v, w => (fn c v w).toOption
  | _, _, _, _ => none

def conditionalValue? : Kind V → V → V → Option V → Option V
  | conditional _ _ _ fn, c, v, w => (fn c v w).toOption
  | _, _, _, _ => none

end Kind

namespace Token

def shape (t : Token V) : Shape := ⟨t.name, t.lbp, t.kind.form⟩

@[simp] theorem lbp_shape (t : Token V) : t.shape.lbp = t.lbp := rfl

/-- The name of the mark that ends the input. -/
def endName : String := "(end)"

/-- A library token with regular powers that is not the end mark and does not wait for it. -/
structure Regular (t : Token V) : Prop where
  identity : t.identity ≠ .sentinel
  shape : t.shape.Regular
  marks : endName ∉ t.shape.marks

theorem Regular.hasForm {t : Token V} (h : t.Regular) : t.kind.HasForm t.shape.form := by
  refine Kind.hasForm rfl fun ho => ?_
  have hs := h.shape
  simp only [Shape.Regular, ho] at hs

theorem Regular.isEnd {t : Token V} (h : t.Regular) : t.isEnd = false := by
  have hk := h.hasForm
  unfold Token.isEnd
  generalize t.shape.form = f at hk
  generalize t.kind = k at hk ⊢
  cases hk <;> rfl

theorem Regular.assoc {t : Token V} (h : t.Regular) : t.assoc = t.shape.assoc := by
  have hk := h.hasForm
  unfold Token.assoc Shape.assoc
  generalize t.shape.form = f at hk ⊢
  generalize t.kind = k at hk ⊢
  cases hk <;> rfl

/-- What the handler of a token does at the start of an expression, by its shape. -/
inductive Starts (t : Token V) : Option (Action V V) → Prop where
  | operand (e : Except Fault V) (h : t.shape.isOperand = true)
      (he : t.kind.startValue? = e.toOption) : Starts t (some (.finish e))
  | prefixOp (fn : V → Except Fault V) (h : t.shape.isPrefix = true)
      (he : ∀ x, t.kind.prefixValue? x = (fn x).toOption) :
      Starts t (some (.expression t.shape.prefixPower fun x => .finish (fn x)))
  | group (c : String) (fn : V → Except Fault V) (h : t.shape.form = .group c)
      (he : ∀ x, t.kind.groupValue? x = (fn x).toOption) :
      Starts t (some (.expression 0 fun x => .expect (.named c) fun _ => .finish (fn x)))
  | conditional (a b c : String) (fn : V → V → Option V → Except Fault V)
      (h : t.shape.form = .conditional a b c)
      (he : ∀ x y z, t.kind.conditionalValue? x y z = (fn x y z).toOption) :
      Starts t (some (.expression 0 fun x => .expect (.named a) fun _ => .expression 0 fun y =>
        .attempt (.named b) fun
          | true => .expression 0 fun z => .expect (.named c) fun _ => .finish (fn x y (some z))
          | false => .expect (.named c) fun _ => .finish (fn x y none)))
  | none (ho : t.shape.isOperand = false) (hp : t.shape.isPrefix = false)
      (hg : ∀ c, t.shape.form ≠ .group c) (hc : ∀ a b c, t.shape.form ≠ .conditional a b c) :
      Starts t none

/-- A digit that does not join the operand before it. -/
def refusal (t : Token V) : Action V V :=
  .look fun _ pos => .fail (.parse (.unexpected (pos - 1) (some t.profile) "an operator"))

/-- What the handler of a token does after an operand, by its shape. -/
inductive Follows (t : Token V) : Option (V → Action V V) → Prop where
  | suffix (f : V → Action V V) (h : t.shape.isSuffix = true)
      (he : ∀ x, (∃ e, f x = .finish e ∧ t.kind.suffixValue? x = e.toOption) ∨
        (f x = t.refusal ∧ t.kind.suffixValue? x = none)) : Follows t (some f)
  | infixOp (a : Assoc) (fn : V → V → Except Fault V) (h : t.shape.assoc = some a)
      (he : ∀ x y, t.kind.infixValue? x y = (fn x y).toOption) :
      Follows t (some fun x => .expression t.shape.operandPower fun y =>
        Kind.combine t.lbp t.name a fn x y)
  | ternary (m : String) (fn : V → V → V → Except Fault V) (h : t.shape.form = .ternary m)
      (he : ∀ x y z, t.kind.ternaryValue? x y z = (fn x y z).toOption) :
      Follows t (some fun x => .expression 0 fun y => .expect (.named m) fun _ =>
        .expression t.shape.operandPower fun z => .finish (fn x y z))
  | none (h : t.lbp = 0) : Follows t none

theorem Regular.starts {t : Token V} (h : t.Regular) : t.Starts t.nud := by
  obtain ⟨identity, lbp, name, k⟩ := t
  have hk : k.HasForm k.form := h.hasForm
  clear h
  generalize k.form = f at hk
  cases hk with
  | literal v => exact .operand (.ok v) rfl rfl
  | digit d make extend joins => exact .operand (make d) rfl rfl
  | prefixOp r fn => exact .prefixOp fn rfl fun _ => rfl
  | bifix a fn r prefixFn => exact .prefixOp prefixFn rfl fun _ => rfl
  | group c wrap =>
    cases wrap with
    | none => exact .group c .ok rfl fun _ => rfl
    | some fn => exact .group c fn rfl fun _ => rfl
  | conditional a b c fn => exact .conditional a b c fn rfl fun _ _ _ => rfl
  | _ => exact .none rfl rfl (fun _ h => by cases h) fun _ _ _ h => by cases h

theorem Regular.follows {t : Token V} (h : t.Regular) : t.Follows t.led := by
  have hs := h.shape
  obtain ⟨identity, lbp, name, k⟩ := t
  have hk : k.HasForm k.form := h.hasForm
  clear h
  generalize hf : k.form = f at hk
  simp only [Shape.Regular] at hs
  cases hk with
  | digit d make extend joins =>
    refine .suffix _ rfl fun x => ?_
    simp only [Kind.suffixValue?]
    cases joins x with
    | error e => exact .inl ⟨.error e, rfl, rfl⟩
    | ok b =>
      cases b with
      | false => exact .inr ⟨rfl, rfl⟩
      | true => exact .inl ⟨extend x d, rfl, rfl⟩
  | postfixOp fn => exact .suffix _ rfl fun x => .inl ⟨fn x, rfl, rfl⟩
  | infixOp a fn => exact .infixOp a fn rfl fun _ _ => rfl
  | bifix a fn r prefixFn => exact .infixOp a fn rfl fun _ _ => rfl
  | ternary m fn => exact .ternary m fn rfl fun _ _ _ => rfl
  | literal v => exact .none hs
  | prefixOp r fn => exact .none hs.1
  | group c wrap => exact .none hs
  | keyword => exact .none hs
  | conditional a b c fn => exact .none hs.1

section
variable {t : Token V} {start : Option (Action V V)} {follow : Option (V → Action V V)}

theorem Starts.of_isOperand (h : t.Starts start) (hs : t.shape.isOperand = true) :
    ∃ e, start = some (.finish e) ∧ t.kind.startValue? = e.toOption := by
  cases h with
  | operand e _ he => exact ⟨e, rfl, he⟩
  | prefixOp fn hf => exact absurd hs (by grind [Shape.isOperand, Shape.isPrefix])
  | group c fn hf => exact absurd hs (by simp [Shape.isOperand, hf])
  | conditional a b c fn hf => exact absurd hs (by simp [Shape.isOperand, hf])
  | none ho => exact absurd hs (by simp [ho])

theorem Starts.of_isPrefix (h : t.Starts start) (hs : t.shape.isPrefix = true) :
    ∃ fn : V → Except Fault V,
      start = some (.expression t.shape.prefixPower fun x => .finish (fn x)) ∧
        ∀ x, t.kind.prefixValue? x = (fn x).toOption := by
  cases h with
  | prefixOp fn _ he => exact ⟨fn, rfl, he⟩
  | operand e hf => exact absurd hf (by grind [Shape.isOperand, Shape.isPrefix])
  | group c fn hf => exact absurd hs (by simp [Shape.isPrefix, hf])
  | conditional a b c fn hf => exact absurd hs (by simp [Shape.isPrefix, hf])
  | none _ hp => exact absurd hs (by simp [hp])

theorem Starts.of_group (h : t.Starts start) {c : String} (hs : t.shape.form = .group c) :
    ∃ fn : V → Except Fault V,
      start = some (.expression 0 fun x => .expect (.named c) fun _ => .finish (fn x)) ∧
        ∀ x, t.kind.groupValue? x = (fn x).toOption := by
  cases h with
  | group c' fn hf he =>
    obtain rfl := Form.group.inj (hf.symm.trans hs)
    exact ⟨fn, rfl, he⟩
  | operand e hf => exact absurd hf (by simp [Shape.isOperand, hs])
  | prefixOp fn hf => exact absurd hf (by simp [Shape.isPrefix, hs])
  | conditional a b c fn hf => cases hf.symm.trans hs
  | none _ _ hg => exact absurd hs (hg c)

theorem Starts.of_conditional (h : t.Starts start) {a b c : String}
    (hs : t.shape.form = .conditional a b c) :
    ∃ fn : V → V → Option V → Except Fault V,
      start = some (.expression 0 fun x => .expect (.named a) fun _ => .expression 0 fun y =>
        .attempt (.named b) fun
          | true => .expression 0 fun z => .expect (.named c) fun _ => .finish (fn x y (some z))
          | false => .expect (.named c) fun _ => .finish (fn x y .none)) ∧
        ∀ x y z, t.kind.conditionalValue? x y z = (fn x y z).toOption := by
  cases h with
  | conditional a' b' c' fn hf he =>
    obtain ⟨rfl, rfl, rfl⟩ := Form.conditional.inj (hf.symm.trans hs)
    exact ⟨fn, rfl, he⟩
  | operand e hf => exact absurd hf (by simp [Shape.isOperand, hs])
  | prefixOp fn hf => exact absurd hf (by simp [Shape.isPrefix, hs])
  | group c fn hf => cases hf.symm.trans hs
  | none _ _ _ hc => exact absurd hs (hc a b c)

theorem Follows.of_isSuffix (h : t.Follows follow) (hr : t.Regular)
    (hs : t.shape.isSuffix = true) :
    ∃ f, follow = some f ∧ ∀ x, (∃ e, f x = .finish e ∧ t.kind.suffixValue? x = e.toOption) ∨
      (f x = t.refusal ∧ t.kind.suffixValue? x = .none) := by
  cases h with
  | suffix f _ he => exact ⟨f, rfl, he⟩
  | infixOp a fn ha => exact absurd hs (by grind [Shape.isSuffix, Shape.assoc])
  | ternary m fn hf => exact absurd hs (by simp [Shape.isSuffix, hf])
  | none hl =>
    have := hr.shape.lbp_pos_of_isSuffix hs
    simp_all

theorem Follows.of_assoc (h : t.Follows follow) (hr : t.Regular) {a : Assoc}
    (hs : t.shape.assoc = some a) :
    ∃ fn : V → V → Except Fault V,
      follow = some (fun x => .expression t.shape.operandPower fun y =>
        Kind.combine t.lbp t.name a fn x y) ∧
        ∀ x y, t.kind.infixValue? x y = (fn x y).toOption := by
  cases h with
  | infixOp a' fn ha he =>
    obtain rfl := Option.some.inj (ha.symm.trans hs)
    exact ⟨fn, rfl, he⟩
  | suffix f hf => exact absurd hf (by grind [Shape.isSuffix, Shape.assoc])
  | ternary m fn hf => exact absurd hs (by simp [Shape.assoc, hf])
  | none hl =>
    have := hr.shape.lbp_pos_of_assoc hs
    simp_all

theorem Follows.of_ternary (h : t.Follows follow) (hr : t.Regular) {m : String}
    (hs : t.shape.form = .ternary m) :
    ∃ fn : V → V → V → Except Fault V,
      follow = some (fun x => .expression 0 fun y => .expect (.named m) fun _ =>
        .expression t.shape.operandPower fun z => .finish (fn x y z)) ∧
        ∀ x y z, t.kind.ternaryValue? x y z = (fn x y z).toOption := by
  cases h with
  | ternary m' fn hf he =>
    obtain rfl := Form.ternary.inj (hf.symm.trans hs)
    exact ⟨fn, rfl, he⟩
  | suffix f hf => exact absurd hf (by simp [Shape.isSuffix, hs])
  | infixOp a fn ha => exact absurd ha (by simp [Shape.assoc, hs])
  | none hl =>
    have := hr.shape.lbp_pos_of_ternary hs
    simp_all

end

end Token

end BindingPower
