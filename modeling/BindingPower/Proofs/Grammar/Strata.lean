import BindingPower.Proofs.Grammar.Completeness

/-! Trees whose spines keep within bounds, and what the bounds say of the operator on top: the ways
between parse trees and grammars with a nonterminal for each level of binding powers. -/
namespace BindingPower
variable {S V : Type} {token : S → Token V}

/-- A correct tree over some labels with a value. On its left spine all powers are above `low`, and no
operand on its right spine would take in an operator of power `high`. -/
structure Spells (token : S → Token V) (low high : Int) (ss : List S) (v : V) (x : ParseTree S) :
    Prop where
  yield : x.yield = ss
  wellFormed : x.WellFormed (shapes token)
  correct : x.PrecedenceCorrect (shapes token)
  value : x.value? token = some v
  above : x.Above (shapes token) low
  ends : x.Ends (shapes token) high

def Spelled (token : S → Token V) (low high : Int) (ss : List S) (v : V) : Prop :=
  ∃ x, Spells token low high ss v x

namespace ParseTree
variable {shape : S → Shape} {x : ParseTree S} {p q : Int}

theorem Above.mono (h : x.Above shape p) (hq : q ≤ p) : x.Above shape q :=
  fun l hl => Int.lt_of_le_of_lt hq (h l hl)

theorem Ends.mono (h : x.Ends shape p) (hq : q ≤ p) : x.Ends shape q :=
  fun r hr => Int.le_trans hq (h r hr)

/-- A tree before an operator: what the operator would chain with is not on top. -/
theorem Ends.precedes (h : x.Ends shape p) (ha : x.Above shape q) {o : Shape} (ho : o.lbp ≤ p)
    (hc : o.assoc = some .none → o.lbp ≤ q) : x.Precedes shape o := by
  refine ⟨h.mono ho, fun hn => ?_⟩
  exact ((ha.mono (hc hn)).precedes (Int.le_refl _) (h.mono ho)).2 hn

/-- Whether the operator on top binds at least this tight. -/
def Tight (shape : S → Shape) (p : Int) : ParseTree S → Prop
  | infixed s _ _ | postfixed s _ | ternary s _ _ _ _ => p ≤ (shape s).lbp
  | prefixed s _ => p ≤ (shape s).prefixPower
  | _ => True

end ParseTree

namespace Shape

def isTernary (s : Shape) : Bool :=
  match s.form with
  | .ternary _ => true
  | _ => false

/-- Whether an operator binds at least as tight as `q` if its last operand would not take in `o` and
the two do not chain. -/
def Lifts (s o : Shape) (q : Int) : Prop :=
  ((s.assoc.isSome || s.isTernary) = true → o.lbp ≤ s.operandPower →
    ¬ (o.assoc = some .none ∧ s.lbp = o.lbp ∧ s.assoc = some .none) → q ≤ s.lbp) ∧
    (s.isPrefix = true → o.lbp ≤ s.prefixPower → q ≤ s.prefixPower) ∧ (s.isSuffix = true → q ≤ s.lbp)

instance (s o : Shape) (q : Int) : Decidable (s.Lifts o q) :=
  inferInstanceAs (Decidable (_ ∧ _ ∧ _))

/-- Whether an operator may stand between operands so that all of it has its spines within `l` and
`h`. Those of the first operand are within `l₁` and `h₁`, those of the last within `l₂` and `h₂`. -/
def Joins (s : Shape) (l h l₁ h₁ l₂ h₂ : Int) : Prop :=
  (s.lbp ≤ h₁ ∧ (s.assoc = some .none → s.lbp ≤ l₁) ∧ s.operandPower ≤ l₂) ∧
    (l < s.lbp ∧ l ≤ l₁) ∧ h ≤ s.operandPower ∧ h ≤ h₂

instance (s : Shape) (l h l₁ h₁ l₂ h₂ : Int) : Decidable (s.Joins l h l₁ h₁ l₂ h₂) :=
  inferInstanceAs (Decidable (_ ∧ _))

private theorem isTernary_of_form {s : Shape} {m : String} (h : s.form = .ternary m) :
    s.isTernary = true := by
  simp only [isTernary, h]

end Shape

namespace ParseTree
variable {shape : S → Shape} {x : ParseTree S} {p q : Int}

/-- The operator on top of a last operand. -/
theorem Above.tight (h : x.Above shape p) (hwf : x.WellFormed shape) (hq : q ≤ p + 1)
    (hp : ∀ s ∈ x.yield, (shape s).isPrefix = true → q ≤ (shape s).prefixPower) :
    x.Tight shape q := by
  cases x with
  | prefixed s x => exact hp s List.mem_cons_self hwf.1
  | postfixed s x =>
    have := h _ List.mem_cons_self
    simp only [Tight]
    omega
  | infixed s x y =>
    have := h _ List.mem_cons_self
    simp only [Tight]
    omega
  | ternary s c y d z =>
    have := h _ List.mem_cons_self
    simp only [Tight]
    omega
  | leaf | grouped | conditional | alternative => trivial

/-- The operator on top of an operand before `o`. -/
theorem Precedes.tight {o : Shape} (h : x.Precedes shape o) (hwf : x.WellFormed shape)
    (hl : ∀ s ∈ x.yield, (shape s).Lifts o q) : x.Tight shape q := by
  obtain ⟨he, hc⟩ := h
  cases x with
  | prefixed s x => exact (hl s List.mem_cons_self).2.1 hwf.1 (he _ List.mem_cons_self)
  | postfixed s x => exact (hl s (List.mem_append_right _ List.mem_cons_self)).2.2 hwf.1
  | infixed s x y =>
    refine (hl s (List.mem_append_right _ List.mem_cons_self)).1 ?_ (he _ List.mem_cons_self)
      fun hn => hc hn.1 hn.2
    rw [hwf.1, Bool.true_or]
  | ternary s c y d z =>
    obtain ⟨⟨m, hm, -⟩, -⟩ := hwf
    refine (hl s (List.mem_append_right _ List.mem_cons_self)).1 ?_ (he _ List.mem_cons_self)
      fun hn => ?_
    · rw [Shape.isTernary_of_form hm, Bool.or_true]
    · have hassoc := hn.2.2
      simp only [Shape.assoc, hm] at hassoc
      cases hassoc
  | leaf | grouped | conditional | alternative => trivial

theorem tight_zero (hr : ∀ s ∈ x.yield, (shape s).Regular) : x.Tight shape 0 := by
  cases x with
  | prefixed s x => exact (hr s List.mem_cons_self).prefixPower_nonneg
  | postfixed s x => exact (hr s (List.mem_append_right _ List.mem_cons_self)).lbp_nonneg
  | infixed s x y => exact (hr s (List.mem_append_right _ List.mem_cons_self)).lbp_nonneg
  | ternary s c y d z => exact (hr s (List.mem_append_right _ List.mem_cons_self)).lbp_nonneg
  | leaf | grouped | conditional | alternative => trivial

end ParseTree

namespace Spelled
variable {l h l₁ h₁ l₂ h₂ l₃ h₃ : Int} {s d e m : S} {ss us ws : List S} {u v w z : V}

theorem mono (hx : Spelled token l₁ h₁ ss v) (hl : l ≤ l₁) (hh : h ≤ h₁) :
    Spelled token l h ss v := by
  obtain ⟨x, hx⟩ := hx
  exact ⟨x, { hx with above := hx.above.mono hl, ends := hx.ends.mono hh }⟩

theorem leaf (hs : (shapes token s).isOperand = true) (hv : (token s).kind.startValue? = some v) :
    Spelled token l h [s] v :=
  ⟨.leaf s, rfl, hs, trivial, hv, List.forall_mem_nil _, List.forall_mem_nil _⟩

theorem prefixed (hx : Spelled token l₁ h₁ ss v) (hs : (shapes token s).isPrefix = true)
    (hp : (shapes token s).prefixPower ≤ l₁) (hh : h ≤ (shapes token s).prefixPower) (hh₁ : h ≤ h₁)
    (hv : (token s).kind.prefixValue? v = some w) : Spelled token l h (s :: ss) w := by
  obtain ⟨x, rfl, hwf, hpc, hx, ha, he⟩ := hx
  exact ⟨.prefixed s x, rfl, ⟨hs, hwf⟩, ⟨hpc, ha.mono hp⟩,
    Option.bind_eq_some_iff.2 ⟨v, hx, hv⟩, List.forall_mem_nil _,
    List.forall_mem_cons.2 ⟨hh, he.mono hh₁⟩⟩

theorem postfixed (hx : Spelled token l₁ h₁ ss v) (hs : (shapes token s).isSuffix = true)
    (hp : (shapes token s).lbp ≤ h₁) (hl : l < (shapes token s).lbp) (hl₁ : l ≤ l₁)
    (hv : (token s).kind.suffixValue? v = some w) : Spelled token l h (ss ++ [s]) w := by
  obtain ⟨x, rfl, hwf, hpc, hx, ha, he⟩ := hx
  have hassoc : (shapes token s).assoc ≠ some .none := by grind [Shape.isSuffix, Shape.assoc]
  exact ⟨.postfixed s x, rfl, ⟨hs, hwf⟩,
    ⟨hpc, he.precedes ha hp fun hn => absurd hn hassoc⟩, Option.bind_eq_some_iff.2 ⟨v, hx, hv⟩,
    List.forall_mem_cons.2 ⟨hl, ha.mono hl₁⟩, List.forall_mem_nil _⟩

theorem infixed (hx : Spelled token l₁ h₁ ss v) (hy : Spelled token l₂ h₂ us w)
    (hs : (shapes token s).assoc.isSome = true) (hj : (shapes token s).Joins l h l₁ h₁ l₂ h₂)
    (hv : (token s).kind.infixValue? v w = some z) : Spelled token l h (ss ++ s :: us) z := by
  obtain ⟨x, rfl, hwf, hpc, hx, ha, he⟩ := hx
  obtain ⟨y, rfl, hwf', hpc', hy, ha', he'⟩ := hy
  obtain ⟨⟨hp, hc, hq⟩, ⟨hl, hl₁⟩, hh, hh₂⟩ := hj
  refine ⟨.infixed s x y, rfl, ⟨hs, hwf, hwf'⟩,
    ⟨hpc, hpc', he.precedes ha hp hc, ha'.mono hq⟩, ?_,
    List.forall_mem_cons.2 ⟨hl, ha.mono hl₁⟩, List.forall_mem_cons.2 ⟨hh, he'.mono hh₂⟩⟩
  rw [ParseTree.value?, hx, hy]
  exact hv

theorem ternary {n : String} (hc : Spelled token l₁ h₁ ss u) (hx : Spelled token l₂ h₂ us v)
    (hy : Spelled token l₃ h₃ ws w) (hs : (shapes token s).form = .ternary n)
    (hd : (shapes token d).Delimits n) (hj : (shapes token s).Joins l h l₁ h₁ l₃ h₃)
    (hv : (token s).kind.ternaryValue? u v w = some z) :
    Spelled token l h (ss ++ s :: (us ++ d :: ws)) z := by
  obtain ⟨c, rfl, hwf, hpc, hc, ha, he⟩ := hc
  obtain ⟨x, rfl, hwf', hpc', hx, -, -⟩ := hx
  obtain ⟨y, rfl, hwf'', hpc'', hy, ha'', he''⟩ := hy
  obtain ⟨⟨hp, hc', hq⟩, ⟨hl, hl₁⟩, hh, hh₃⟩ := hj
  refine ⟨.ternary s c x d y, rfl, ⟨⟨n, hs, hd⟩, hwf, hwf', hwf''⟩,
    ⟨hpc, hpc', hpc'', he.precedes ha hp hc', ha''.mono hq⟩, ?_,
    List.forall_mem_cons.2 ⟨hl, ha.mono hl₁⟩, List.forall_mem_cons.2 ⟨hh, he''.mono hh₃⟩⟩
  rw [ParseTree.value?, hc, hx, hy]
  exact hv

theorem grouped {n : String} (hx : Spelled token l₁ h₁ ss v) (hs : (shapes token s).form = .group n)
    (hd : (shapes token d).Delimits n) (hv : (token s).kind.groupValue? v = some w) :
    Spelled token l h (s :: (ss ++ [d])) w := by
  obtain ⟨x, rfl, hwf, hpc, hx, -, -⟩ := hx
  exact ⟨.grouped s x d, rfl, ⟨⟨n, hs, hd⟩, hwf⟩, hpc, Option.bind_eq_some_iff.2 ⟨v, hx, hv⟩,
    List.forall_mem_nil _, List.forall_mem_nil _⟩

section
variable {a b c : String}

theorem conditional (hu : Spelled token l₁ h₁ ss u) (hx : Spelled token l₂ h₂ us v)
    (hs : (shapes token s).form = .conditional a b c) (hd : (shapes token d).Delimits a)
    (he : (shapes token e).Delimits c)
    (hv : (token s).kind.conditionalValue? u v none = some z) :
    Spelled token l h (s :: (ss ++ d :: (us ++ [e]))) z := by
  obtain ⟨x, rfl, hwf, hpc, hu, -, -⟩ := hu
  obtain ⟨y, rfl, hwf', hpc', hx, -, -⟩ := hx
  refine ⟨.conditional s x d y e, rfl, ⟨⟨a, b, c, hs, hd, he⟩, hwf, hwf'⟩, ⟨hpc, hpc'⟩, ?_,
    List.forall_mem_nil _, List.forall_mem_nil _⟩
  rw [ParseTree.value?, hu, hx]
  exact hv

theorem alternative (hu : Spelled token l₁ h₁ ss u) (hx : Spelled token l₂ h₂ us v)
    (hy : Spelled token l₃ h₃ ws w) (hs : (shapes token s).form = .conditional a b c)
    (hd : (shapes token d).Delimits a) (hm : (shapes token m).Delimits b)
    (he : (shapes token e).Delimits c)
    (hv : (token s).kind.conditionalValue? u v (some w) = some z) :
    Spelled token l h (s :: (ss ++ d :: (us ++ m :: (ws ++ [e])))) z := by
  obtain ⟨x, rfl, hwf, hpc, hu, -, -⟩ := hu
  obtain ⟨y, rfl, hwf', hpc', hx, -, -⟩ := hx
  obtain ⟨z', rfl, hwf'', hpc'', hy, -, -⟩ := hy
  refine ⟨.alternative s x d y m z' e, rfl, ⟨⟨a, b, c, hs, hd, hm, he⟩, hwf, hwf', hwf''⟩,
    ⟨hpc, hpc', hpc''⟩, ?_, List.forall_mem_nil _, List.forall_mem_nil _⟩
  rw [ParseTree.value?, hu, hx, hy]
  exact hv

end

end Spelled

end BindingPower
