import BindingPower.Proofs.Parser.Counterparts
import BindingPower.Proofs.Parser.Making
import BindingPower.Proofs.Standard.Operators
import BindingPower.Proofs.Value.Evaluation

/-! The tables that compute do what the trees of the tables that build them stand for: the operators
of both are met in the same order, and what one of them raises is what the tree first runs into. -/
namespace BindingPower

open Value

namespace Standard

/-- A tree of arithmetic and what it computes. Its leaves are natural numbers. -/
structure StandsFor (v : Value) (r : Except Fault Value) : Prop where
  evaluate : v.evaluate digitLeaf = r
  natural : ∀ u, v = .number u → ∃ n : Nat, u = .int n
  numeric : Numeric r

/-- The digits of the trees. -/
def treeDigits : Entries Value := digitEntries tree.label .node .node .toNumbers

/-- A digit refused after something that is no number. -/
def Refuses (e : ParseError) : Prop :=
  ∃ pos, ∃ entry ∈ treeDigits, e = .unexpected pos (some entry.2.profile) "an operator"

/-- Arithmetic as trees and computed. A digit the trees refuse may well be computed with. -/
def arithmeticPair : Lockstep Value Value :=
  .ofValues StandsFor fun e => ∃ refused, Refuses refused ∧ e = .parse refused

/-- Expressions with words as trees and computed. -/
def conditionalPair : Lockstep Value Value :=
  .ofValues (fun v r => v.evaluate wordLeaf = r) fun _ => False

/-- A run on the characters of a text. -/
abbrev parseChars (s : Standard) (trace strict : Bool) (text : String) : Outcome Value Value :=
  (s.table.readChars Table.standardSkip text).parse trace strict

private theorem arithmeticPair_unary (op : String) :
    arithmeticPair.Unary (unaryNode op) (signMeaning op) := by
  intro v r hv
  refine ⟨_, rfl, ?_, fun u hu => (nomatch hu), ?_⟩
  · rw [Value.evaluate, hv.evaluate]
  · exact Numeric.andThen hv.numeric fun w hw => numeric_signMeaning op hw

private theorem arithmeticPair_binary {op : String} (hop : op ∈ ["+", "-", "*", "/", "^", "="]) :
    arithmeticPair.Binary (binaryNode op) (infixMeaning op) where
  apply hv hv' := by
    refine ⟨_, rfl, ?_, fun u hu => (nomatch hu), ?_⟩
    · rw [Value.evaluate, hv.evaluate, hv'.evaluate]
      rfl
    · exact Numeric.andThen hv'.numeric fun w' hw' => numeric_infixMeaning hop hv.numeric hw'
  left hv v' := by
    refine ⟨_, rfl, ?_, fun u hu => (nomatch hu), hv.numeric⟩
    rw [Value.evaluate, hv.evaluate]
    rfl

private theorem conditionalPair_computes {x : Value} {r : Except Fault Value}
    (h : x.evaluate wordLeaf = r) : conditionalPair.Computes (.ok x) r :=
  ⟨x, rfl, h⟩

theorem conditionalPair_unary (op : String) :
    conditionalPair.Unary (unaryNode op) (signMeaning op) := by
  intro v r hv
  refine conditionalPair_computes ?_
  rw [Value.evaluate, hv]

theorem conditionalPair_binary (op : String) :
    conditionalPair.Binary (binaryNode op) (infixMeaning op) where
  apply hv hv' := by
    refine conditionalPair_computes ?_
    rw [Value.evaluate, hv, hv']
    rfl
  left hv v' := by
    refine conditionalPair_computes ?_
    rw [Value.evaluate, hv]
    rfl

private theorem conditionalPair_choice : conditionalPair.Choice choiceNode choose where
  apply hc hv hv' := by
    refine conditionalPair_computes ?_
    rw [Option.getD_some, Value.evaluate, hc, hv, hv']
    rfl
  short hc hv := by
    refine conditionalPair_computes ?_
    rw [Option.getD_none, Value.evaluate, hc, hv]
    rfl
  branch hc hv v' := by
    refine conditionalPair_computes ?_
    rw [Value.evaluate, hc, hv]
    rfl
  cond hc v v' := by
    refine conditionalPair_computes ?_
    rw [Value.evaluate, hc]
    rfl

/-! Digits -/

private theorem standsFor_digit {d : Nat} (h : d < 10) :
    StandsFor (.number (.int d)) (Making.float.apply d) where
  evaluate := accumulate_of_lt h
  natural _ hu := ⟨d, (Value.number.inj hu).symm⟩
  numeric := by
    have hnumeric := numeric_accumulate d
    rwa [accumulate_of_lt h] at hnumeric

/-- One more digit in the leaf is one more decimal place of what it stands for. -/
theorem standsFor_snoc {n d : Nat} (h : d < 10) {r : Except Fault Value}
    (hr : StandsFor (.number (.int n)) r) :
    StandsFor (.number (.int (n * 10 + d : Nat))) (r >>= fun v => v.appendDigit d) where
  evaluate := by
    rw [← hr.evaluate]
    exact accumulate_snoc n h
  natural _ hu := ⟨_, (Value.number.inj hu).symm⟩
  numeric := Numeric.andThen hr.numeric fun v hv => numeric_appendDigit hv d

theorem entry_ne (table lexeme : String) : Identity.entry table lexeme ≠ .sentinel := nofun

/-- A digit that extends leaves is paired with one that computes. What it refuses is waived. -/
theorem pairs_digit {lexeme : String} {d : Nat} (hd : d < 10) {t u : Token Value}
    (ht : t = ⟨.entry tree.label lexeme, Token.digitPower, some lexeme,
      .digit d Making.node.apply Extension.node.apply Joining.toNumbers.apply⟩)
    (hu : u = ⟨.entry arithmetic.label lexeme, Token.digitPower, some lexeme,
      .digit d Making.float.apply Extension.decimal.apply Joining.always.apply⟩)
    (hmem : (lexeme, t) ∈ treeDigits) : arithmeticPair.Pairs t u := by
  subst ht hu
  refine ⟨Lockstep.like_profile (entry_ne _ _) (entry_ne _ _) rfl rfl rfl, fun hr => hr ▸ Iff.rfl,
    .some (.finish (standsFor_digit hd)), .some fun v w hv => ?_, fun led hled v f hv => ?_⟩
  · cases v with
    | number u =>
      obtain ⟨n, rfl⟩ := hv.natural u rfl
      exact .finish (standsFor_snoc hd hv)
    | _ => exact .glance fun _ pos => .waive ⟨_, ⟨pos - 1, _, hmem, rfl⟩, rfl⟩
  · cases hled
    cases v with
    | number u =>
      obtain ⟨n, rfl⟩ := hv.natural u rfl
      exact standsFor_snoc hd hv
    | _ => exact fun _ _ => trivial

private theorem digits_paired :
    List.Forall₂ arithmeticPair.PairedEntries treeDigits
      (digitEntries arithmetic.label .float .decimal .always) := by
  refine List.forall₂_map_left_iff.2 (List.forall₂_map_right_iff.2 (List.forall₂_same.2 ?_))
  have hlt : ∀ e ∈ ["0", "1", "2", "3", "4", "5", "6", "7", "8", "9"].zipIdx, e.2 < 10 := by decide
  exact fun e he => ⟨rfl, pairs_digit (hlt e he) rfl rfl (List.mem_map_of_mem he)⟩

/-! Tables -/

section
variable {value : Value → Except Fault Value → Prop} {waived : Failure → Prop} (s s' : Standard)

theorem brackets_paired :
    List.Forall₂ (Lockstep.ofValues value waived).PairedEntries s.brackets s'.brackets :=
  .cons ⟨rfl, Lockstep.pairs_group (entry_ne _ _) (entry_ne _ _) ")"⟩ <|
    .cons ⟨rfl, Lockstep.pairs_keyword (entry_ne _ _) (entry_ne _ _)⟩ .nil

variable (hsign : ∀ op, (Lockstep.ofValues value waived).Unary (unaryNode op) (signMeaning op))
include hsign

theorem computing_paired
    (hbinary : ∀ op ∈ ["+", "-", "*", "/", "^"],
      (Lockstep.ofValues value waived).Binary (binaryNode op) (infixMeaning op)) :
    List.Forall₂ (Lockstep.ofValues value waived).PairedEntries s.building s'.computing := by
  simp only [List.forall_mem_cons] at hbinary
  obtain ⟨hadd, hsub, hmul, hdiv, hpow, -⟩ := hbinary
  exact .cons ⟨rfl, Lockstep.pairs_bifix (entry_ne _ _) (entry_ne _ _) hadd (hsign "+")⟩ <|
    .cons ⟨rfl, Lockstep.pairs_bifix (entry_ne _ _) (entry_ne _ _) hsub (hsign "-")⟩ <|
    .cons ⟨rfl, Lockstep.pairs_infixOp (entry_ne _ _) (entry_ne _ _) hmul⟩ <|
    .cons ⟨rfl, Lockstep.pairs_infixOp (entry_ne _ _) (entry_ne _ _) hdiv⟩ <|
    .cons ⟨rfl, Lockstep.pairs_infixOp (entry_ne _ _) (entry_ne _ _) hpow⟩ .nil

end

private theorem arithmeticPair_entries :
    List.Forall₂ arithmeticPair.PairedEntries tree.entries arithmetic.entries := by
  have hequal : List.Forall₂ arithmeticPair.PairedEntries
      [tree.infixEntry "=" 10 .left (binaryNode "=")]
      [arithmetic.infixEntry "=" 10 .left Value.eq] :=
    .cons ⟨rfl, Lockstep.pairs_infixOp (entry_ne _ _) (entry_ne _ _)
      (arithmeticPair_binary (by decide))⟩ .nil
  have hcomputing : List.Forall₂ arithmeticPair.PairedEntries tree.building arithmetic.computing :=
    computing_paired tree arithmetic arithmeticPair_unary fun op hop =>
      arithmeticPair_binary (List.mem_append_left ["="] hop)
  exact List.rel_append (List.rel_append (brackets_paired tree arithmetic)
    (List.rel_append hequal hcomputing)) digits_paired

/-- The words of conditions and truth values. -/
def words : List String := ["if", "then", "else", "end", "true", "false"]

theorem condition_paired (s s' : Standard) :
    List.Forall₂ conditionalPair.PairedEntries (s.condition choiceNode) (s'.condition choose) :=
  .cons ⟨rfl, Lockstep.pairs_conditional (entry_ne _ _) (entry_ne _ _) conditionalPair_choice
      _ _ _⟩ <|
    .cons ⟨rfl, Lockstep.pairs_keyword (entry_ne _ _) (entry_ne _ _)⟩ <|
    .cons ⟨rfl, Lockstep.pairs_keyword (entry_ne _ _) (entry_ne _ _)⟩ <|
    .cons ⟨rfl, Lockstep.pairs_keyword (entry_ne _ _) (entry_ne _ _)⟩ .nil

theorem ternary_paired (s s' : Standard) :
    List.Forall₂ conditionalPair.PairedEntries (s.ternary choiceNode) (s'.ternary choose) :=
  .cons ⟨rfl, Lockstep.pairs_ternary (entry_ne _ _) (entry_ne _ _) conditionalPair_choice _⟩ <|
    .cons ⟨rfl, Lockstep.pairs_keyword (entry_ne _ _) (entry_ne _ _)⟩ .nil

theorem comparing_paired (s s' : Standard) :
    List.Forall₂ conditionalPair.PairedEntries (s.comparing binaryNode)
      (s'.comparing comparison) := by
  have hmeaning : ∀ op ∈ ["==", "!=", "<", "<=", ">", ">="], infixMeaning op = comparison op := by
    simp only [List.forall_mem_cons]
    exact ⟨rfl, rfl, rfl, rfl, rfl, rfl, List.forall_mem_nil _⟩
  refine List.forall₂_map_left_iff.2 (List.forall₂_map_right_iff.2 (List.forall₂_same.2 ?_))
  intro op hop
  exact ⟨rfl, Lockstep.pairs_infixOp (entry_ne _ _) (entry_ne _ _)
    (hmeaning op hop ▸ conditionalPair_binary op)⟩

/-- A leaf of a tree and a literal of what it stands for. -/
theorem conditionalPair_literal {i : Identity} (hi : i ≠ .sentinel) {text : String} {v w : Value}
    (h : v.evaluate wordLeaf = .ok w) :
    conditionalPair.Pairs (literalOf text v) ⟨i, 0, some text, .literal w⟩ := by
  have hanonymous : Identity.anonymous ≠ .sentinel := nofun
  refine Lockstep.pairs_literal hanonymous hi ?_
  exact h

theorem number_paired (text : String) :
    conditionalPair.PairedPieces (((numberNode text).map some).mapError .fault)
      (((numberLiteral text).map some).mapError .fault) := by
  unfold numberNode numberLiteral
  cases numeralValue text with
  | error f => exact .error _
  | ok v =>
    have hanonymous : Identity.anonymous ≠ .sentinel := nofun
    exact .ok (.some (conditionalPair_literal hanonymous rfl))

/-- Arithmetic as trees and computed, on one text. -/
theorem arithmetic_agrees (text : String) (trace strict : Bool) :
    arithmeticPair.Agrees arithmeticPair.value (tree.parseChars trace strict text)
      (arithmetic.parseChars trace strict text) :=
  have hlookup (lexeme : String) : Option.Rel arithmeticPair.Pairs (tree.table.lookup lexeme)
      (arithmetic.table.lookup lexeme) :=
    Lockstep.lookup_paired arithmeticPair_entries lexeme
  Lockstep.parse_agrees (Lockstep.charsFrom_paired hlookup _ _ _) _ _ _

/-- A text that gives no tree of arithmetic gives no value either, unless arithmetic has failed before
or all that is wrong is a digit after something that is no number: that digit is computed with. -/
theorem rejected_as_tree (text : String) (trace strict : Bool) {e : ParseError}
    (h : (tree.parseChars trace strict text).result = .error (.parse e)) :
    (∃ e', (arithmetic.parseChars trace strict text).result = .error (.parse e') ∧ e.Alike e') ∨
      (∃ f, (arithmetic.parseChars trace strict text).result = .error (.fault f) ∧
        f.isArithmetic = true ∧
        (arithmetic.parseChars trace strict text).parser.pos ≤
          (tree.parseChars trace strict text).parser.pos) ∨
      Refuses e := by
  rcases (arithmetic_agrees text trace strict).of_error h with
    herror | ⟨f, hf, ⟨v, hv⟩, hpos⟩ | ⟨refused, hrefused, he⟩
  · exact .inl herror
  · exact .inr (.inl ⟨f, hf, hv.numeric, hpos⟩)
  · cases he
    exact .inr (.inr hrefused)

/-- An expression that is not finished is an error to both tables. -/
theorem rejected_as_tree_unfinished :
    (tree.parseChars false true "1+").result =
        .error (.parse (.missingPrefix 2 (some (Token.sentinel : Token Value).profile))) ∧
      ∃ e', (arithmetic.parseChars false true "1+").result = .error (.parse e') := by
  have htree : (tree.parseChars false true "1+").result =
      .error (.parse (.missingPrefix 2 (some (Token.sentinel : Token Value).profile))) := by
    rfl
  have harithmetic : (arithmetic.parseChars false true "1+").result =
      .error (.parse (.missingPrefix 2 (some (Token.sentinel : Token Value).profile))) := by
    rfl
  refine ⟨htree, ?_⟩
  rcases rejected_as_tree "1+" false true htree with ⟨e', he', -⟩ | ⟨f, hf, -⟩ | ⟨pos, entry, -, he⟩
  · exact ⟨e', he'⟩
  · cases harithmetic.symm.trans hf
  · cases he

/-- A digit after a bracket that holds a sum is no tree, and is computed with all the same. -/
theorem digit_after_sum :
    (tree.parseChars false false "(1+2)3").result =
        .error (.parse (.unexpected 5 (some (tree.token "3").profile) "an operator")) ∧
      ∃ v, (arithmetic.parseChars false false "(1+2)3").result = .ok v :=
  ⟨rfl, _, rfl⟩

end Standard

end BindingPower
