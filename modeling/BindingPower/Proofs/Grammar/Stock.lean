import BindingPower.Token.Basic

/-! Stock tokens: those of the ready-made kinds, as their constructors let them through, with matchers
of a sort. Scripts and traces are not among them. -/
namespace BindingPower
variable {V : Type} {P Q : Matcher → Prop}

namespace Matcher

def IsNamed (m : Matcher) : Prop := ∃ name, m = .named name

/-- Looks at the name of a token, or at its name and power, and at nothing else. -/
def BySight : Matcher → Prop
  | named _ => True
  | test _ accepts => ∀ p q : Profile, p.name = q.name → p.lbp = q.lbp →
      accepts (some p) = accepts (some q)
  | _ => False

end Matcher

namespace Kind

/-- A ready-made kind whose matchers satisfy `P`. -/
def Stock (P : Matcher → Prop) : Kind V → Prop
  | group close _ => P close
  | ternary separator _ => P separator
  | conditional thenMark elseMark endMark _ => P thenMark ∧ P elseMark ∧ P endMark
  | scripted .. | duck .. | traced .. => False
  | _ => True

theorem Stock.mono (h : ∀ m, P m → Q m) {k : Kind V} (hk : k.Stock P) : k.Stock Q := by
  cases k with
  | group | ternary => exact h _ hk
  | conditional => exact ⟨h _ hk.1, h _ hk.2.1, h _ hk.2.2⟩
  | scripted | duck | traced => exact hk.elim
  | endToken | literal | digit | infixOp | prefixOp | bifix | postfixOp | keyword => trivial

/-- The powers that the constructor of a ready-made kind lets through. -/
def Admits (lbp : Int) : Kind V → Prop
  | endToken | conditional .. => lbp = 0
  | infixOp .. | bifix .. | postfixOp .. | ternary .. => 1 ≤ lbp
  | _ => 0 ≤ lbp

theorem Admits.nonneg {lbp : Int} {k : Kind V} (h : k.Admits lbp) : 0 ≤ lbp := by
  cases k <;> simp only [Admits] at h <;> omega

end Kind

/-- A token of a ready-made kind. Only one that ends the input may be called the end mark. -/
structure Token.Stock (P : Matcher → Prop) (t : Token V) : Prop where
  kind : t.kind.Stock P
  power : t.kind.Admits t.lbp
  proper : t.identity = .sentinel → t.isEnd = true

/-! Constructors -/

namespace Token
variable {t u : Token V}

private theorem checked_ok (h : u.checked = .ok t) : t = u ∧ 0 ≤ u.lbp := by
  unfold checked at h
  split at h <;> cases h
  exact ⟨rfl, Int.not_lt.1 ‹_›⟩

private theorem checkedOperator_ok {name : Option String} (h : u.checkedOperator name = .ok t) :
    t = u ∧ 1 ≤ u.lbp := by
  unfold checkedOperator at h
  split at h <;> cases h
  exact ⟨rfl, Int.not_lt.1 ‹_›⟩

/-- What a constructor of a ready-made kind lets through, given matchers of the sort. -/
inductive Made (P : Matcher → Prop) (t : Token V) : Prop
  | endToken (h : Token.endToken = t)
  | literal {name : String} {lbp : Int} {value : V} (h : Token.literal name lbp value = .ok t)
  | digit {lbp value : Int} {make : Int → Except Fault V} {extend : V → Int → Except Fault V}
      {joins : V → Except Fault Bool} (h : Token.digit lbp value make extend joins = .ok t)
  | infixOp {name : Option String} {lbp : Int} {assoc : Assoc} {fn : V → V → Except Fault V}
      (h : Token.infixOp name lbp assoc fn = .ok t)
  | prefixOp {name : Option String} {lbp rbp : Int} {fn : V → Except Fault V}
      (h : Token.prefixOp name lbp rbp fn = .ok t)
  | bifix {name : Option String} {lbp : Int} {assoc : Assoc} {infixFn : V → V → Except Fault V}
      {prefixRbp : Int} {prefixFn : V → Except Fault V}
      (h : Token.bifix name lbp assoc infixFn prefixRbp prefixFn = .ok t)
  | postfixOp {name : Option String} {lbp : Int} {fn : V → Except Fault V}
      (h : Token.postfixOp name lbp fn = .ok t)
  | group {name : Option String} {lbp : Int} {close : Matcher}
      {wrap : Option (V → Except Fault V)} (hclose : P close)
      (h : Token.group name lbp close wrap = .ok t)
  | keyword {name : Option String} {lbp : Int} (h : Token.keyword name lbp = .ok t)
  | ternary {name : Option String} {lbp : Int} {separator : Matcher}
      {fn : V → V → V → Except Fault V} (hseparator : P separator)
      (h : Token.ternary name lbp separator fn = .ok t)
  | conditional {name : Option String} {thenMark elseMark endMark : Matcher}
      {fn : V → V → Option V → Except Fault V} (hthen : P thenMark) (helse : P elseMark)
      (hend : P endMark) (h : Token.conditional name thenMark elseMark endMark fn = t)

private theorem stock_of_checked (h : u.checked = .ok t) (hk : u.kind.Stock P)
    (hadmits : 0 ≤ u.lbp → u.kind.Admits u.lbp) (hi : u.identity ≠ .sentinel) : t.Stock P := by
  obtain ⟨rfl, hl⟩ := checked_ok h
  exact ⟨hk, hadmits hl, fun hs => absurd hs hi⟩

private theorem stock_of_checkedOperator {name : Option String} (h : u.checkedOperator name = .ok t)
    (hk : u.kind.Stock P) (hadmits : 1 ≤ u.lbp → u.kind.Admits u.lbp)
    (hi : u.identity ≠ .sentinel) : t.Stock P := by
  obtain ⟨rfl, hl⟩ := checkedOperator_ok h
  exact ⟨hk, hadmits hl, fun hs => absurd hs hi⟩

/-- Whatever the constructors let through is stock. -/
theorem Made.stock (h : t.Made P) : t.Stock P := by
  cases h with
  | endToken h =>
    subst h
    exact ⟨trivial, rfl, fun _ => rfl⟩
  | literal h | prefixOp h | keyword h => exact stock_of_checked h trivial id nofun
  | @digit lbp value make extend joins h =>
    unfold Token.digit at h
    cases hname : Number.writeInteger value with
    | error f =>
      rw [hname] at h
      cases h
    | ok name =>
      rw [hname] at h
      exact stock_of_checked h trivial id nofun
  | infixOp h | bifix h | postfixOp h => exact stock_of_checkedOperator h trivial id nofun
  | group hclose h => exact stock_of_checked h hclose id nofun
  | ternary hseparator h => exact stock_of_checkedOperator h hseparator id nofun
  | conditional hthen helse hend h =>
    subst h
    exact ⟨⟨hthen, helse, hend⟩, rfl, nofun⟩

end Token

end BindingPower
