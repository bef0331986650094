import BindingPower.Proofs.Grammar.Completeness
import Mathlib.Data.Fintype.Basic

/-! Tokens whose functions do nothing but build trees: the parser makes the one tree over its input
that groups the operators as their binding powers say. -/
namespace BindingPower
variable {L : Type}

/-- What stands in an input: a token that is called as one likes, or a keyword, known by its name. -/
inductive Word (L : Type) where
  | op (label : L)
  | mark (name : Option String)
deriving Repr, DecidableEq

/-- Tokens of regular shapes. Their delimiters have names that keywords alone bear: no other token
does, nor the end mark. -/
structure Lexicon (L : Type) where
  shape : L → Shape
  identity : Word L → Identity
  identity_ne : ∀ w, identity w ≠ .sentinel
  regular : ∀ l, (shape l).Regular
  not_keyword : ∀ l, (shape l).form ≠ .keyword
  marks : ∀ l, ∀ m ∈ (shape l).marks, m ≠ Token.endName ∧ ∀ l', (shape l').name ≠ some m

/-- A token of some form that builds the nodes labelled with `w`. A digit joins whatever it
follows. -/
def Form.builder (w : Word L) : Form → Kind (ParseTree (Word L))
  | .literal => .literal (.leaf w)
  | .digit => .digit 0 (fun _ => .ok (.leaf w)) (fun x _ => .ok (.postfixed w x)) fun _ => .ok true
  | .infixOp assoc => .infixOp assoc fun x y => .ok (.infixed w x y)
  | .prefixOp rbp => .prefixOp rbp fun x => .ok (.prefixed w x)
  | .bifix assoc rbp =>
      .bifix assoc (fun x y => .ok (.infixed w x y)) rbp fun x => .ok (.prefixed w x)
  | .postfixOp => .postfixOp fun x => .ok (.postfixed w x)
  | .group close => .group (.named close) (some fun x => .ok (.grouped w x (.mark close)))
  | .ternary separator =>
      .ternary (.named separator) fun c x y => .ok (.ternary w c x (.mark separator) y)
  | .conditional thenMark elseMark endMark =>
      .conditional (.named thenMark) (.named elseMark) (.named endMark) fun c x y => .ok <|
        match y with
        | none => .conditional w c (.mark thenMark) x (.mark endMark)
        | some y => .alternative w c (.mark thenMark) x (.mark elseMark) y (.mark endMark)
  | .keyword | .other => .keyword

namespace Lexicon

def wordShape (X : Lexicon L) : Word L → Shape
  | .op l => X.shape l
  | .mark name => ⟨name, 0, .keyword⟩

def token (X : Lexicon L) (w : Word L) : Token (ParseTree (Word L)) :=
  ⟨X.identity w, (X.wordShape w).lbp, (X.wordShape w).name, (X.wordShape w).form.builder w⟩

variable {X : Lexicon L}

private theorem wordShape_regular (w : Word L) : (X.wordShape w).Regular := by
  cases w with
  | op l => exact X.regular l
  | mark name => exact rfl

private theorem form_builder (w : Word L) {f : Form} (h : f ≠ .other) : (f.builder w).form = f := by
  cases f <;> first | rfl | exact absurd rfl h

private theorem shape_token (w : Word L) : (X.token w).shape = X.wordShape w := by
  have h := X.wordShape_regular w
  have hf : (X.wordShape w).form ≠ .other := by
    intro ho
    rw [Shape.Regular, ho] at h
    exact h
  rw [Token.shape, token, form_builder w hf]

private theorem shapes_token : shapes X.token = X.wordShape := funext shape_token

/-- A label that delimits is the keyword of that name. -/
theorem eq_mark_of_delimits {w : Word L} {m : String} (h : (X.wordShape w).Delimits m) :
    w = .mark (some m) := by
  cases w with
  | op l => exact absurd h.2 (X.not_keyword l)
  | mark name => exact congrArg Word.mark h.1

theorem vocabulary : Vocabulary X.token fun _ => True where
  regular w _ := by
    refine ⟨X.identity_ne w, X.shape_token w ▸ X.wordShape_regular w, ?_⟩
    rw [shape_token]
    cases w with
    | op l => exact fun h => (X.marks l _ h).1 rfl
    | mark name => exact List.not_mem_nil
  marks w _ m hm d _ hd := by
    rw [shape_token] at hm ⊢
    cases d with
    | mark name => rfl
    | op l' =>
      cases w with
      | op l => exact absurd hd ((X.marks l m hm).2 l')
      | mark name => exact absurd hm List.not_mem_nil

private theorem startValue?_token {w : Word L} (h : (X.wordShape w).isOperand = true) :
    (X.token w).kind.startValue? = some (.leaf w) := by
  unfold Shape.isOperand at h
  unfold token
  split at h <;> simp_all [Form.builder, Kind.startValue?, Except.toOption]

private theorem prefixValue?_token {w : Word L} (h : (X.wordShape w).isPrefix = true)
    (x : ParseTree (Word L)) : (X.token w).kind.prefixValue? x = some (.prefixed w x) := by
  unfold Shape.isPrefix at h
  unfold token
  split at h <;> simp_all [Form.builder, Kind.prefixValue?, Except.toOption]

private theorem suffixValue?_token {w : Word L} (h : (X.wordShape w).isSuffix = true)
    (x : ParseTree (Word L)) : (X.token w).kind.suffixValue? x = some (.postfixed w x) := by
  unfold Shape.isSuffix at h
  unfold token
  split at h <;> simp_all [Form.builder, Kind.suffixValue?, Except.toOption]

private theorem infixValue?_token {w : Word L} (h : (X.wordShape w).assoc.isSome = true)
    (x y : ParseTree (Word L)) : (X.token w).kind.infixValue? x y = some (.infixed w x y) := by
  unfold Shape.assoc at h
  unfold token
  split at h <;> simp_all [Form.builder, Kind.infixValue?, Except.toOption]

/-- The functions rebuild every tree that fits its labels. -/
theorem value?_token {x : ParseTree (Word L)} (h : x.WellFormed X.wordShape) :
    x.value? X.token = some x := by
  induction x with
  | leaf w => exact startValue?_token h
  | prefixed w x ih =>
    rw [ParseTree.value?, ih h.2]
    exact prefixValue?_token h.1 x
  | postfixed w x ih =>
    rw [ParseTree.value?, ih h.2]
    exact suffixValue?_token h.1 x
  | infixed w x y ihx ihy =>
    rw [ParseTree.value?, ihx h.2.1, ihy h.2.2]
    exact infixValue?_token h.1 x y
  | grouped w x d ih =>
    obtain ⟨⟨m, hm, hd⟩, hx⟩ := h
    obtain rfl := eq_mark_of_delimits hd
    rw [ParseTree.value?, ih hx, token, hm]
    rfl
  | ternary w c x d y ihc ihx ihy =>
    obtain ⟨⟨m, hm, hd⟩, hc, hx, hy⟩ := h
    obtain rfl := eq_mark_of_delimits hd
    rw [ParseTree.value?, ihc hc, ihx hx, ihy hy, token, hm]
    rfl
  | conditional w c d x e ihc ihx =>
    obtain ⟨⟨m, n, o, hm, hd, he⟩, hc, hx⟩ := h
    obtain rfl := eq_mark_of_delimits hd
    obtain rfl := eq_mark_of_delimits he
    rw [ParseTree.value?, ihc hc, ihx hx, token, hm]
    rfl
  | alternative w c d x n y e ihc ihx ihy =>
    obtain ⟨⟨m, n', o, hm, hd, hn, he⟩, hc, hx, hy⟩ := h
    obtain rfl := eq_mark_of_delimits hd
    obtain rfl := eq_mark_of_delimits hn
    obtain rfl := eq_mark_of_delimits he
    rw [ParseTree.value?, ihc hc, ihx hx, ihy hy, token, hm]
    rfl

/-- A tree over these words that groups its operators as their binding powers say. -/
structure Correct (X : Lexicon L) (ws : List (Word L)) (x : ParseTree (Word L)) : Prop where
  yield : x.yield = ws
  wellFormed : x.WellFormed X.wordShape
  precedence : x.PrecedenceCorrect X.wordShape

/-- A strict run on tokens that build trees makes the correct tree over all of them, if there is
one. There is never a second. -/
theorem parse_correct_tree (X : Lexicon L) (ws : List (Word L)) :
    (∀ x, ((Stream.ofTokens (ws.map X.token)).parse false true).result = .ok x ↔
      X.Correct ws x) ∧
    ∀ x y, X.Correct ws x → X.Correct ws y → x = y := by
  have h (x : ParseTree (Word L)) :
      ((Stream.ofTokens (ws.map X.token)).parse false true).result = .ok x ↔ X.Correct ws x := by
    rw [X.vocabulary.parse_eq_ok_iff fun _ _ => trivial, shapes_token]
    constructor
    · rintro ⟨y, hy, hwf, hpc, hv⟩
      obtain rfl := Option.some.inj ((value?_token hwf).symm.trans hv)
      exact ⟨hy, hwf, hpc⟩
    · exact fun hx => ⟨x, hx.yield, hx.wellFormed, hx.precedence, value?_token hx.wellFormed⟩
  exact ⟨h, fun x y hx hy => Except.ok.inj (((h x).2 hx).symm.trans ((h y).2 hy))⟩

end Lexicon

/-- Labels for a name, a sign, a bracket, a question and a condition. -/
inductive Phrase where
  | name
  | minus
  | bracket
  | question
  | condition
deriving DecidableEq

instance : Fintype Phrase where
  elems := {.name, .minus, .bracket, .question, .condition}
  complete l := by cases l <;> decide

namespace Lexicon

/-- The words of conditions in brackets, with a sign that has the power of the operator of its name. -/
def phrases : Lexicon Phrase where
  shape
    | .name => ⟨some "x", 0, .literal⟩
    | .minus => ⟨some "-", 20, .bifix .left 20⟩
    | .bracket => ⟨some "(", 0, .group ")"⟩
    | .question => ⟨some "?", 5, .ternary ":"⟩
    | .condition => ⟨some "if", 0, .conditional "then" "else" "end"⟩
  identity _ := .anonymous
  identity_ne _ := by decide
  regular := by decide
  not_keyword := by decide
  marks := by decide

/-- `- x - x`, where the sign does not take the operator in. -/
def signed : ParseTree (Word Phrase) :=
  .infixed (.op .minus) (.prefixed (.op .minus) (.leaf (.op .name))) (.leaf (.op .name))

/-- `if ( - x - x ) then x ? x : - x - x end`. -/
def conditioned : ParseTree (Word Phrase) :=
  .conditional (.op .condition) (.grouped (.op .bracket) signed (.mark ")")) (.mark "then")
    (.ternary (.op .question) (.leaf (.op .name)) (.leaf (.op .name)) (.mark ":") signed)
    (.mark "end")

/-- Brackets, a question and a condition in one another. -/
theorem parse_correct_tree_conditioned :
    ((Stream.ofTokens (conditioned.yield.map phrases.token)).parse false true).result =
        .ok conditioned ∧
      phrases.Correct conditioned.yield conditioned ∧
      ∀ x, phrases.Correct conditioned.yield x → x = conditioned := by
  have hresult : ((Stream.ofTokens (conditioned.yield.map phrases.token)).parse false
      true).result = .ok conditioned := by
    rfl
  obtain ⟨hparse, hunique⟩ := parse_correct_tree phrases conditioned.yield
  have hcorrect := (hparse conditioned).1 hresult
  exact ⟨hresult, hcorrect, fun x hx => hunique x conditioned hx hcorrect⟩

end Lexicon

end BindingPower
