import BindingPower.Proofs.Grammar.Stock
import BindingPower.Proofs.Parser.Failures

/-! Operators that associate to the left where they did not associate at all. No other token changes, and
nothing but what such an operator does once it has its right operand. Elsewhere handlers look at the
lookahead only where it binds nothing, and there it is no operator. -/
namespace BindingPower
variable {V : Type}

/-! Operators that associate to the left instead -/

def Assoc.loosened : Assoc → Assoc
  | .none => .left
  | assoc => assoc

/-- The kind with the association to the left in the place of none. -/
def Kind.loosened : Kind V → Kind V
  | infixOp assoc fn => infixOp assoc.loosened fn
  | bifix assoc fn rbp prefixFn => bifix assoc.loosened fn rbp prefixFn
  | k => k

def Token.loosened (t : Token V) : Token V := { t with kind := t.kind.loosened }

def Source.loosened (s : Source V) : Source V := { s with rest := s.rest.map Token.loosened }

def Stream.loosened (s : Stream V) : Stream V := { s with tokens := s.tokens.map Token.loosened }

theorem Kind.loosened_of_assoc {k : Kind V} (h : k.assoc ≠ some .none) : k.loosened = k := by
  cases k with
  | infixOp assoc fn => cases assoc <;> first | rfl | exact absurd rfl h
  | bifix assoc fn rbp prefixFn => cases assoc <;> first | rfl | exact absurd rfl h
  | _ => rfl

namespace Token
variable {t : Token V} {P : Matcher → Prop}

theorem loosened_of_assoc (h : t.assoc ≠ some .none) : t.loosened = t := by
  rw [loosened, Kind.loosened_of_assoc h]

@[simp]
private theorem isEnd_loosened (t : Token V) : t.loosened.isEnd = t.isEnd := by
  obtain ⟨identity, lbp, name, k⟩ := t
  cases k <;> rfl

theorem nud_loosened (t : Token V) : t.loosened.nud = t.nud := by
  obtain ⟨identity, lbp, name, k⟩ := t
  cases k <;> rfl

theorem mention_loosened (t : Token V) :
    Profile.mention (some t.loosened.profile) = Profile.mention (some t.profile) := by
  obtain ⟨identity, lbp, name, k⟩ := t
  cases k <;> rfl

/-- What does not bind is no operator after an operand. -/
theorem Stock.assoc_of_nonpos (h : t.Stock P) (hlbp : t.lbp ≤ 0) : t.assoc ≠ some .none := by
  obtain ⟨identity, lbp, name, k⟩ := t
  intro hassoc
  have hpower := h.power
  cases k with
  | infixOp | bifix =>
    have hpos : 1 ≤ lbp := hpower
    dsimp only at hlbp
    omega
  | traced => exact h.kind.elim
  | _ => cases hassoc

/-- An operator that does not associate and its counterpart ask for the same right operand, and differ
in what comes after it. -/
theorem Stock.led_of_none (h : t.Stock P) (hassoc : t.assoc = some .none) :
    ∃ fn, t.led = some (fun v => .expression t.lbp (Kind.combine t.lbp t.name .none fn v)) ∧
      t.loosened.led = some (fun v => .expression t.lbp (Kind.combine t.lbp t.name .left fn v)) := by
  obtain ⟨identity, lbp, name, k⟩ := t
  cases k with
  | infixOp assoc fn =>
    cases hassoc
    exact ⟨fn, rfl, rfl⟩
  | bifix assoc fn rbp prefixFn =>
    cases hassoc
    exact ⟨fn, rfl, rfl⟩
  | traced => exact h.kind.elim
  | _ => cases hassoc

end Token

namespace Source

private theorem next_loosened (s : Source V) :
    s.loosened.next = (s.next.1.map Token.loosened, s.next.2.loosened) := by
  obtain ⟨rest, failure, pos, exhausted⟩ := s
  cases exhausted with
  | true => rfl
  | false =>
    cases rest with
    | nil => cases failure <;> rfl
    | cons t rest =>
      simp only [loosened, next, List.map_cons, Token.isEnd_loosened, Bool.false_eq_true, if_false]
      cases t.isEnd <;> rfl

end Source

/-- A parser of a stream, and one at the same place of the loosened stream. -/
structure Parser.Loosens (p q : Parser V) : Prop where
  source : q.source = p.source.loosened
  token : q.token = p.token.map Token.loosened
  pos : q.pos = p.pos

namespace Parser.Loosens
variable {p q : Parser V}

theorem advance (h : Loosens p q) :
    (∀ e, p.advance.result = .error e ↔ q.advance.result = .error e) ∧
      Loosens p.advance.parser q.advance.parser := by
  have hnext : q.source.next = (p.source.next.1.map Token.loosened, p.source.next.2.loosened) := by
    rw [h.source, Source.next_loosened]
  have hanswer := congrArg Prod.fst hnext
  have hleft := congrArg Prod.snd hnext
  cases hp : p.source.next.1 with
  | error e =>
    rw [hp] at hanswer
    rw [advance_of_error hp, advance_of_error hanswer]
    exact ⟨fun _ => Iff.rfl, hleft, h.token, h.pos⟩
  | ok t =>
    rw [hp] at hanswer
    rw [advance_of_ok hp, advance_of_ok hanswer]
    exact ⟨fun _ => ⟨nofun, nofun⟩, hleft, rfl, congrArg (·.pos + 1) h.source⟩

theorem announced (h : Loosens p q) (d d' : Option (Dispatch V)) (pos pos' : Int) :
    Loosens (p.announce d pos) (q.announce d' pos') := by
  obtain ⟨log, hlog⟩ := p.announce_eq d pos
  obtain ⟨log', hlog'⟩ := q.announce_eq d' pos'
  rw [hlog, hlog']
  exact ⟨h.source, h.token, h.pos⟩

end Parser.Loosens

/-! Handlers -/

/-- A handler that looks at the lookahead only where it binds nothing, as it does after an expression
down to zero, or to fail whatever it sees. -/
def Action.Guarded : (settled : Prop) → Action V V → Prop
  | _, .done _ | _, .fail _ => True
  | _, .expression r next => ∀ v, Guarded (r ≤ 0) (next v)
  | settled, .expect _ next => settled ∧ ∀ t, Guarded False (next t)
  | settled, .attempt _ next => settled ∧ Guarded False (next true) ∧ Guarded settled (next false)
  | _, .advance _ | _, .emit .. => False
  | settled, .look next => (settled ∧ ∀ t pos, Guarded settled (next t pos)) ∨
      ∃ e : Int → Failure, ∀ t pos, next t pos = .fail (e pos)

namespace Action.Guarded
variable {S S' : Prop}

theorem mono (h : S → S') {a : Action V V} (ha : a.Guarded S) : a.Guarded S' := by
  induction a with
  | done | fail => trivial
  | expression => exact ha
  | expect => exact ⟨h ha.1, ha.2⟩
  | attempt m next ih => exact ⟨h ha.1, ha.2.1, ih false ha.2.2⟩
  | advance | emit => exact ha.elim
  | look next ih => exact ha.imp_left fun hlook => ⟨h hlook.1, fun t pos => ih t pos (hlook.2 t pos)⟩

theorem finish (r : Except Fault V) : (Action.finish r : Action V V).Guarded S := by
  cases r <;> trivial

end Action.Guarded

namespace Kind
variable {k : Kind V} {P : Matcher → Prop}

theorem guarded_nud (hk : k.Stock P) : ∀ a ∈ k.nud, a.Guarded False := by
  cases k with
  | literal value =>
    rintro a ⟨⟩
    trivial
  | digit value make extend joins =>
    rintro a ⟨⟩
    exact .finish _
  | prefixOp rbp fn | bifix assoc infixFn rbp fn =>
    rintro a ⟨⟩
    exact fun v => .finish _
  | group close wrap =>
    rintro a ⟨⟩
    refine fun v => ⟨le_refl _, fun _ => ?_⟩
    cases wrap with
    | none => trivial
    | some wrap => exact .finish _
  | conditional thenMark elseMark endMark fn =>
    rintro a ⟨⟩
    refine fun c => ⟨le_refl _, fun _ v => ⟨le_refl _, fun w => ?_, ?_⟩⟩
    · exact ⟨le_refl _, fun _ => .finish _⟩
    · exact ⟨le_refl _, fun _ => .finish _⟩
  | endToken | infixOp | postfixOp | keyword | ternary => exact fun a ha => nomatch ha
  | scripted | duck | traced => exact hk.elim

/-- An operator that associates combines its operands, whatever comes after them. -/
theorem combine_of_ne {lbp : Int} {name : Option String} {assoc : Assoc} (h : assoc ≠ .none)
    (fn : V → V → Except Fault V) (v w : V) : combine lbp name assoc fn v w = .finish (fn v w) :=
  if_neg h

theorem guarded_led {identity : Identity} {lbp : Int} {name : Option String} (hk : k.Stock P)
    (hassoc : k.assoc ≠ some .none) :
    ∀ led ∈ k.led identity lbp name, ∀ v, (led v).Guarded False := by
  have hcombine {assoc : Assoc} (hne : assoc ≠ .none) (fn : V → V → Except Fault V) (v w : V)
      {S : Prop} : (combine lbp name assoc fn v w).Guarded S := by
    rw [combine_of_ne hne]
    exact .finish _
  cases k with
  | digit value make extend joins =>
    rintro a ⟨⟩ v
    dsimp only
    split
    · trivial
    · exact .finish _
    · exact .inr ⟨_, fun _ _ => rfl⟩
  | infixOp assoc fn =>
    rintro a ⟨⟩ v w
    exact hcombine (fun h => hassoc (congrArg some h)) fn v w
  | bifix assoc fn rbp prefixFn =>
    rintro a ⟨⟩ v w
    exact hcombine (fun h => hassoc (congrArg some h)) fn v w
  | postfixOp fn =>
    rintro a ⟨⟩ v
    exact .finish _
  | ternary separator fn =>
    rintro a ⟨⟩ v y
    exact ⟨le_refl _, fun _ n => .finish _⟩
  | endToken | literal | prefixOp | group | keyword | conditional => exact fun a ha => nomatch ha
  | scripted | duck | traced => exact hk.elim

end Kind

end BindingPower
