import BindingPower.Proofs.Standard.Conversion
import BindingPower.Proofs.Value.Legible

/-! The trees that runs come to, where no numeral has a fraction or an exponent: what the tables make of
numbers, words and operators keeps them legible, so that no two are printed alike. -/
namespace BindingPower

open Value

/-- The token is no numeral with a fraction or an exponent. -/
def Token.Whole (t : Token Value) : Prop :=
  ∀ text v, t = literalOf text (.number v) → isFractional text = false

private theorem Token.Whole.of_identity {t : Token Value} (h : t.identity ≠ .anonymous) : t.Whole :=
  fun _ _ ht => absurd (congrArg Token.identity ht) h

/-- A tree that a run returns on tokens of a table that builds trees, without such numerals. -/
def Produced (v : Value) : Prop :=
  ∃ (s : Standard) (stream : Stream Value) (trace strict : Bool), s.BuildsTrees ∧
    stream.Supplied (fun t => s.Draws t ∧ t.Whole) (fun _ => True) ∧
      (stream.parse trace strict).result = .ok v

namespace Standard
variable {s : Standard} {t : Token Value} {v w : Value}

/-! Texts -/

private theorem whole_entries (s : Standard) : ∀ e ∈ s.entries, e.2.Whole := by
  have hidentity : ∀ e ∈ s.entries, e.2.identity ≠ .anonymous := by
    cases s <;> decide
  exact fun e he => .of_identity (hidentity e he)

/-- Whatever is read of a text with the table for digits, there is no numeral in it. -/
theorem produced_of_readChars {skip text : String} {trace strict : Bool}
    (h : ((tree.table.readChars skip text).parse trace strict).result = .ok v) : Produced v := by
  have hsupplies : tree.table.Supplies fun t => tree.Draws t ∧ t.Whole :=
    ⟨fun e he => ⟨.entry he, whole_entries tree e he⟩, nofun, nofun⟩
  exact ⟨tree, _, trace, strict, .inl rfl,
    (hsupplies.readChars skip text).mono fun _ _ => trivial, h⟩

private theorem produced_of_scan {text : String} {trace strict : Bool}
    (hwhole : ∀ t ∈ (conditionalTree.table.scan text).tokens, t.Whole)
    (h : ((conditionalTree.table.scan text).parse trace strict).result = .ok v) : Produced v := by
  have hfailure := (conditionalTree.supplies_numbers.scan text).mono fun _ _ => trivial
  have hsupplied : (conditionalTree.table.scan text).Supplied
      (fun t => conditionalTree.Draws t ∧ t.Whole) fun _ => True :=
    ⟨fun t ht => ⟨draws_of_scan t ht, hwhole t ht⟩, hfailure.failure⟩
  exact ⟨conditionalTree, _, trace, strict, .inr rfl, hsupplied, h⟩

/-! Legible trees -/

private theorem operator_of_mem {op : String} (h : op ∈ "=" :: ["+", "-", "*", "/", "^"] ++ relations) :
    Operator op := by
  have hall : ∀ op ∈ "=" :: ["+", "-", "*", "/", "^"] ++ relations,
      op ≠ "if" ∧ op.toList.any isDelimiter = false := by
    decide
  exact ⟨(hall op h).1, (hall op h).2⟩

private theorem closedUnderNodes_legible : ClosedUnderNodes Legible where
  unary op hop _ hv := by
    have hsigns : ["+", "-"] ⊆ "=" :: ["+", "-", "*", "/", "^"] ++ relations := by decide
    exact .unary (operator_of_mem (hsigns hop)) hv
  binary _ hop _ _ hv hw := .binary (operator_of_mem hop) hv hw
  choice _ _ _ := .choice
  short _ _ := .short

private theorem legible_natural (n : Nat) : Legible (.number (.int n)) := .leaf (.natural n)

private theorem keeps_legible_entries (hs : s.BuildsTrees) :
    ∀ e ∈ s.entries, e.2.Keeps (s.contract Legible fun _ => True) := by
  rcases hs with rfl | rfl
  · refine keeps_tree closedUnderNodes_legible legible_natural fun v hv => ?_
    cases hv with
    | leaf h =>
      cases h with
      | natural n => exact ⟨n, rfl, fun d => legible_natural (n * 10 + d)⟩
  · exact keeps_conditionalTree closedUnderNodes_legible

/-- A numeral without a fraction or an exponent is a natural, and a word is cut of the text as one. -/
theorem Draws.keeps_legible (hs : s.BuildsTrees) (h : s.Draws t) (hwhole : t.Whole) :
    t.Keeps (s.contract Legible fun _ => True) := by
  cases h with
  | entry h => exact keeps_legible_entries hs _ h
  | @number make cs t hm hcs ht =>
    rcases hs with rfl | rfl
    · cases hm
    cases hm
    have hmem : Lexer.numberPart cs ∈ Lexer.numbers := Table.Supplies.numberPart_mem hcs
    rw [numberNode] at ht
    cases hv : numeralValue (.ofList (Lexer.numberPart cs)) with
    | error f =>
      rw [hv] at ht
      cases ht
    | ok v =>
      rw [hv] at ht
      obtain rfl := (Except.ok.inj ht).symm
      obtain ⟨hne, hdigits⟩ := digits_of_not_isFractional hmem (hwhole _ v rfl)
      rw [numeralValue_digits hne hdigits] at hv
      split at hv
      · cases hv
      · obtain rfl := Except.ok.inj hv
        exact keeps_literalOf (legible_natural _)
  | @name make cs t hm hcs hl ht =>
    rcases hs with rfl | rfl
    · cases hm
    cases hm
    obtain rfl := (Except.ok.inj ht).symm
    exact keeps_literalOf (.leaf (.word ((Lexer.finds_words cs).1 hcs).mem))

end Standard

namespace Produced
variable {v w : Value}

private theorem legible (h : Produced v) : v.Legible := by
  obtain ⟨s, stream, trace, strict, hs, hsupplied, hresult⟩ := h
  have hkeeps : stream.Supplied (·.Keeps (s.contract Legible fun _ => True)) fun _ => True :=
    ⟨fun t ht => (hsupplied.tokens t ht).1.keeps_legible hs (hsupplied.tokens t ht).2,
      hsupplied.failure⟩
  have hlegible := hkeeps.parse trace strict
  rw [hresult] at hlegible
  exact hlegible

theorem eq_of_plain (hv : Produced v) (hw : Produced w) (h : v.plain = w.plain) : v = w :=
  hv.legible.eq_of_plain hw.legible h

/-- Trees that runs come to have texts of their own, where no numeral has a fraction or an exponent: no
two are alike, and a tree is printed as its text unless it holds an integer that is too long. So an
operator before its operand is told from one between two, and a choice without an else branch from one
that has it. -/
theorem printed_apart :
    (∀ v, Produced v → v.printed = .ok v.plain ∧ ¬ v.HoldsLong ∨
      v.printed = .error .longInteger ∧ v.HoldsLong) ∧
    (∀ v w, Produced v → Produced w → v.plain = w.plain → v = w) ∧
    (∀ op op' x y z, Produced (.unary op x) → Produced (.binary op' y z) →
      (Value.unary op x).plain ≠ (Value.binary op' y z).plain) ∧
    ∀ c x c' x' y, Produced (.choice c x .absent) → Produced (.choice c' x' y) → y ≠ .absent →
      (Value.choice c x .absent).plain ≠ (Value.choice c' x' y).plain := by
  refine ⟨fun v hv => ?_, fun v w => eq_of_plain, fun op op' x y z hunary hbinary h => ?_,
    fun c x c' x' y hshort hchoice hy h => ?_⟩
  · exact hv.legible.tree.printed_or_long.imp_left fun h => ⟨h.1.printed, h.2⟩
  · cases hunary.eq_of_plain hbinary h
  · obtain ⟨-, -, habsent⟩ := Value.choice.inj (hshort.eq_of_plain hchoice h)
    exact hy habsent.symm

open Standard

/-- What `-1` is parsed as. -/
def negation : Value := .unary (.text "-") (.number (.int 1))

/-- What `1 - 1` is parsed as. -/
def difference : Value := .binary (.text "-") (.number (.int 1)) (.number (.int 1))

/-- What `if x then 1 end` is parsed as. -/
def shortened : Value := .choice (.name (.text "x")) (.number (.int 1)) .absent

/-- What `x ? 1 : 1` is parsed as. -/
def completed : Value := .choice (.name (.text "x")) (.number (.int 1)) (.number (.int 1))

private theorem of_negation : Produced negation := by
  have htokens : tree.table.readChars " " "-1" = .ofTokens [tree.token "-", tree.token "1"] := by
    rfl
  have hresult : ((tree.table.readChars " " "-1").parse false true).result = .ok negation := by
    rw [htokens]
    rfl
  exact produced_of_readChars hresult

private theorem of_difference : Produced difference := by
  have htokens : tree.table.readChars " " "1 - 1" =
      .ofTokens [tree.token "1", tree.token "-", tree.token "1"] := by
    rfl
  have hresult : ((tree.table.readChars " " "1 - 1").parse false true).result = .ok difference := by
    rw [htokens]
    rfl
  exact produced_of_readChars hresult

private theorem whole_word (word : String) : (literalOf word (.name (.text word))).Whole := by
  intro text v ht
  cases ht

private theorem whole_one : (literalOf "1" (.number (.int 1))).Whole := by
  intro text v ht
  cases ht
  rfl

private theorem of_shortened : Produced shortened := by
  have hscan : conditionalTree.table.scan "if x then 1 end" =
      .ofTokens [conditionalTree.token "if", literalOf "x" (.name (.text "x")),
        conditionalTree.token "then", literalOf "1" (.number (.int 1)),
        conditionalTree.token "end"] := by
    rfl
  have hwhole : ∀ t ∈ (conditionalTree.table.scan "if x then 1 end").tokens, t.Whole := by
    rw [hscan]
    simp only [Stream.ofTokens, List.forall_mem_cons]
    exact ⟨.of_identity (by decide), whole_word "x", .of_identity (by decide), whole_one,
      .of_identity (by decide), List.forall_mem_nil _⟩
  have hresult : ((conditionalTree.table.scan "if x then 1 end").parse false true).result =
      .ok shortened := by
    rw [hscan]
    rfl
  exact produced_of_scan hwhole hresult

private theorem of_completed : Produced completed := by
  have hscan : conditionalTree.table.scan "x ? 1 : 1" =
      .ofTokens [literalOf "x" (.name (.text "x")), conditionalTree.token "?",
        literalOf "1" (.number (.int 1)), conditionalTree.token ":",
        literalOf "1" (.number (.int 1))] := by
    rfl
  have hwhole : ∀ t ∈ (conditionalTree.table.scan "x ? 1 : 1").tokens, t.Whole := by
    rw [hscan]
    simp only [Stream.ofTokens, List.forall_mem_cons]
    exact ⟨whole_word "x", .of_identity (by decide), whole_one, .of_identity (by decide), whole_one,
      List.forall_mem_nil _⟩
  have hresult : ((conditionalTree.table.scan "x ? 1 : 1").parse false true).result =
      .ok completed := by
    rw [hscan]
    rfl
  exact produced_of_scan hwhole hresult

/-- A sign before an operand and between two, and a choice without its last branch and with it. -/
theorem printed_apart_pairs :
    Produced negation ∧ negation.printed = .ok negation.plain ∧ Produced difference ∧
      (negation.plain = difference.plain → negation = difference) ∧
      negation.plain ≠ difference.plain ∧ Produced shortened ∧ Produced completed ∧
      Value.number (.int 1) ≠ .absent ∧ shortened.plain ≠ completed.plain := by
  obtain ⟨hprinted, hsame, hsigns, hchoices⟩ := printed_apart
  have hline : negation.printed = .ok negation.plain :=
    (hprinted _ of_negation).elim And.left fun h => nomatch h.1
  have hlast : Value.number (.int 1) ≠ .absent := nofun
  exact ⟨of_negation, hline, of_difference, hsame _ _ of_negation of_difference,
    hsigns _ _ _ _ _ of_negation of_difference, of_shortened, of_completed, hlast,
    hchoices _ _ _ _ _ of_shortened of_completed hlast⟩

end Produced

end BindingPower
