import BindingPower.Program
import BindingPower.Proofs.Parser.Making
import BindingPower.Proofs.Standard.Conversion
import BindingPower.Proofs.Standard.Evaluation
import BindingPower.Proofs.Value.Misuse

/-! The programs that evaluate: arithmetic on digits fails but with a message only where its value is too
long to be written, and expressions with words otherwise only where an operator is misapplied. -/
namespace BindingPower

open Value

namespace Ending

/-- Parse errors and failures of arithmetic are messages. -/
theorem exit_ofRuntime {fault : Fault → Prop} {e : Failure} (h : Refusal fault e) :
    (ofRuntime e).exit = .ok 1 ∨
      ∃ f, e = .fault f ∧ fault f ∧ f.isArithmetic = false ∧ (ofRuntime e).exit = .error (.fault f) := by
  obtain ⟨error, rfl, -⟩ | ⟨f, rfl, hf⟩ := h
  · exact .inl rfl
  · cases ha : f.isArithmetic with
    | true => exact .inl (by rw [ofRuntime, if_pos ha])
    | false => exact .inr ⟨f, rfl, hf, ha, by rw [ofRuntime, if_neg (by simp [ha])]; rfl⟩

/-- The value of the parse is an integer that is too long to be written, and nothing handles that. -/
def Overflows (e : Ending) (result : Except Failure Value) : Prop :=
  ∃ i, result = .ok (.int i) ∧ Number.isLong i = true ∧ e.exit = .error (.fault .longInteger)

private theorem overflows_print {i : Int} (h : Number.isLong i = true) :
    (print (.int i)).Overflows (.ok (.int i)) := by
  have hfault : (Value.int i).textFault? = some .longInteger := if_pos h
  have hprinted : (Value.int i).printed = .error .longInteger := by rw [Value.printed, hfault]
  exact ⟨i, rfl, h, by simp only [print, hprinted, ofFailure]⟩

private theorem exit_print {v : Value} (h : v.Operand) :
    (print v).exit = .ok 0 ∨ (print v).Overflows (.ok v) := by
  apply h.cases
  case hint =>
    intro i
    cases hi : Number.isLong i with
    | true => exact .inr (overflows_print hi)
    | false =>
      have hprinted : (Value.int i).printed = .ok (Value.int i).plain :=
        printed_of_textFault? (if_neg (by simp [hi]))
      exact .inl (by simp only [print, hprinted, success])
  all_goals intros; exact .inl rfl

end Ending

namespace Standard

/-! Arithmetic -/

/-- Numbers and truth values, and failures of arithmetic. -/
abbrev numberContract : Contract Value :=
  arithmetic.contract (fun v => v.scalar?.isSome = true) fun f => f.isArithmetic = true

private theorem computes_of_numeric {r : Except Fault Value} (h : Numeric r) : numberContract.Computes r := by
  cases r with
  | ok v => exact h
  | error f => exact .inr ⟨f, rfl, h⟩

private theorem supplies_arithmetic : arithmetic.table.Supplies (·.Keeps numberContract) where
  entry := by
    have hequal : arithmetic.Combines (fun v => v.scalar?.isSome = true)
        (fun f => f.isArithmetic = true) Value.eq := fun _ _ _ _ => rfl
    have hcomputing : ∀ e ∈ arithmetic.computing, e.2.Keeps numberContract := by
      rw [computing_eq]
      exact keeps_operations (fun op hop v w hv hw => computes_of_numeric
        (numeric_infixMeaning (List.mem_append_left ["="] hop) hv hw))
        (fun op _ v hv => computes_of_numeric (numeric_signMeaning op hv)) _
    have hdigits : ∀ e ∈ digitEntries arithmetic.label .float .decimal .always,
        e.2.Keeps numberContract := by
      refine keeps_digits (fun d => computes_of_numeric ?_) fun v hv =>
        ⟨⟨true, rfl⟩, fun _ d => computes_of_numeric (numeric_appendDigit hv d)⟩
      cases hr : (Scalar.int d).real with
      | error f =>
        rw [Making.apply, hr]
        exact Scalar.isArithmetic_of_real hr
      | ok x =>
        rw [Making.apply, hr]
        rfl
    simp only [table, entries, List.forall_mem_append, List.forall_mem_cons]
    exact ⟨⟨keeps_brackets _, keeps_infix (by decide) hequal _, hcomputing⟩, hdigits⟩
  number := nofun
  name := nofun

private theorem exit_evaluator (text : String) :
    (evaluator [text]).exit = .ok 0 ∨ (evaluator [text]).exit = .ok 1 ∨
      (evaluator [text]).Overflows
        (valueOf (arithmetic.table.readChars Table.standardSkip text)) := by
  have hsupplied : (arithmetic.table.readChars Table.standardSkip text).Supplied
      (·.Keeps numberContract) fun f => f.isArithmetic = true :=
    (supplies_arithmetic.readChars Table.standardSkip text).mono fun _ => False.elim
  have hresult := hsupplied.parse false false
  rw [evaluator, valueOf]
  generalize Outcome.result _ = result at hresult
  cases result with
  | ok v => exact (Ending.exit_print (.inr hresult)).imp_right .inr
  | error e =>
    rcases Ending.exit_ofRuntime hresult with hexit | ⟨f, -, hf, harith, -⟩
    · exact .inr (.inl hexit)
    · cases hf.symm.trans harith

/-! Expressions with words -/

/-- Operands of operators, whatever may fail. -/
abbrev operandContract : Contract Value := conditional.contract Operand fun _ => True

private theorem combines_infixMeaning (op : String) :
    conditional.Combines Operand (fun _ => True) (infixMeaning op) := by
  intro v w hv hw
  cases h : infixMeaning op v w with
  | ok x => exact .inr (infixMeaning_ok hv hw h)
  | error f => exact .inr ⟨f, rfl, trivial⟩

private theorem converts_signMeaning (op : String) :
    conditional.Converts Operand (fun _ => True) (signMeaning op) := by
  intro v hv
  rcases signMeaning_operand op hv with ⟨-, symbol, h⟩ | ⟨x, h, hx, -⟩
  · rw [h]
    exact .inr ⟨_, rfl, trivial⟩
  · rw [h]
    exact .inr hx

private theorem chooses_choose : conditional.Chooses Operand (fun _ => True) choose := by
  have hchosen {c v w : Value} (hv : v.Operand) (hw : w.Operand) :
      (if c.truth then v else w).Operand := by
    split
    · exact hv
    · exact hw
  exact fun c v _ hv => ⟨hchosen hv (.inl rfl), fun w hw => hchosen hv hw⟩

private theorem infixMeaning_relations : ∀ op ∈ relations, infixMeaning op = comparison op := by
  simp only [relations, List.forall_mem_cons]
  exact ⟨rfl, rfl, rfl, rfl, rfl, rfl, List.forall_mem_nil _⟩

private theorem supplies_conditional : conditional.table.Supplies (·.Keeps operandContract) where
  entry := by
    have htruth (lexeme : String) (b : Bool) :
        (conditional.entry lexeme 0 (.literal (.bool b))).2.Keeps operandContract :=
      keeps_of_kind (.inr rfl) fun _ => le_refl 0
    have hcomputing : ∀ e ∈ conditional.computing, e.2.Keeps operandContract := by
      rw [computing_eq]
      exact keeps_operations (fun op _ => combines_infixMeaning op)
        (fun op _ => converts_signMeaning op) _
    simp only [table, entries, List.forall_mem_append, List.forall_mem_cons]
    exact ⟨⟨⟨⟨keeps_condition chooses_choose _ (by decide), htruth _ _, htruth _ _,
      keeps_ternary chooses_choose _ (by decide)⟩, keeps_brackets _⟩,
      keeps_comparing (fun op hop => infixMeaning_relations op hop ▸ combines_infixMeaning op) _⟩,
      hcomputing⟩
  number := by
    rintro make ⟨⟩ cs hcs
    exact (reading_of_mem_numbers hcs).supplies (fun i _ => keeps_literalOf (.inr rfl))
      fun x => keeps_literalOf (.inr rfl)
  name := nofun

/-- The table that builds the trees of what the table for expressions with words evaluates: the words
for truth values are leaves, and it has no other names. -/
def spoken : Table Value where
  entries := conditionalTree.condition choiceNode ++ ("true", literalOf "true" (.name (.text "true"))) ::
    ("false", literalOf "false" (.name (.text "false"))) :: conditionalTree.ternary choiceNode ++
      conditionalTree.brackets ++ conditionalTree.comparing binaryNode ++ conditionalTree.building
  number := some numberNode
  name := none
  nodup := by decide
  nonempty := by decide

private theorem operators_spoken : spoken.operators = conditional.table.operators := by
  decide

private theorem spoken_entries :
    List.Forall₂ conditionalPair.PairedEntries spoken.entries conditional.table.entries := by
  have htruth {lexeme : String} {b : Bool} (h : (Value.name (.text lexeme)).evaluate wordLeaf = .ok (.bool b)) :
      conditionalPair.PairedEntries (lexeme, literalOf lexeme (.name (.text lexeme)))
        (conditional.entry lexeme 0 (.literal (.bool b))) :=
    ⟨rfl, conditionalPair_literal (entry_ne _ _) h⟩
  exact List.rel_append (List.rel_append (List.rel_append (List.rel_append (condition_paired _ _)
    (.cons (htruth rfl) (.cons (htruth rfl) (ternary_paired _ _)))) (brackets_paired _ _))
    (comparing_paired _ _))
    (computing_paired _ _ conditionalPair_unary fun op _ => conditionalPair_binary op)

/-- The two tables cut a text into the same lexemes, and what they make of each corresponds. -/
theorem spoken_scan (text : String) :
    conditionalPair.PairedStreams (spoken.scan text) (conditional.table.scan text) := by
  have hlookup (lexeme : String) : Option.Rel conditionalPair.Pairs (spoken.lookup lexeme)
      (conditional.table.lookup lexeme) := Lockstep.lookup_paired spoken_entries lexeme
  unfold Table.scan
  rw [operators_spoken]
  refine Lockstep.tokensFrom_paired (fun piece _ pos => ?_) 0
  unfold Table.tokenOf
  cases piece.kind with
  | blank => exact .ok .none
  | stray => exact .error _
  | number => exact number_paired _
  | word | operator =>
    have hpair := hlookup (String.ofList piece.text)
    simp only
    generalize spoken.lookup _ = a at hpair ⊢
    generalize conditional.table.lookup _ = b at hpair ⊢
    cases hpair with
    | none => exact .error _
    | some htu => exact .ok (.some htu)

private theorem overruns_spoken {text : String} {f : Fault} (h : spoken.Overruns text f) :
    conditional.table.Overruns text f := by
  rwa [Table.Overruns, operators_spoken] at h

private theorem supplies_spoken {fault : Fault → Prop} :
    spoken.Supplies (·.Keeps (conditionalTree.contract (Tree WordLeaf) fault)) where
  entry := by
    simp only [spoken, List.forall_mem_append, List.forall_mem_cons]
    exact ⟨⟨⟨⟨keeps_condition closedUnderNodes_tree.chooses _ (by decide),
      keeps_literalOf (.leaf (.inr (.inr (.inl rfl)))),
      keeps_literalOf (.leaf (.inr (.inr (.inr rfl)))),
      keeps_ternary closedUnderNodes_tree.chooses _ (by decide)⟩, keeps_brackets _⟩,
      keeps_relating closedUnderNodes_tree _⟩, keeps_building closedUnderNodes_tree _⟩
  number := by
    rintro make ⟨⟩ cs hcs
    exact (reading_of_mem_numbers hcs).supplies (fun i _ => keeps_literalOf (.leaf (.inl ⟨i, rfl⟩)))
      fun x => keeps_literalOf (.leaf (.inr (.inl ⟨x, rfl⟩)))
  name := nofun

/-- What is raised besides failures of arithmetic is raised for a number that is too long, or by an
operator that is misapplied, in an expression that the parse has come to. -/
theorem misapplied_of_raised {text : String} {f : Fault}
    (h : valueOf (conditional.table.scan text) = .error (.fault f)) (hf : f.isArithmetic = false) :
    conditional.table.Overruns text f ∨ f.isMismatch = true ∧
      ∃ t u : Value, (spoken.scan text).Makes false false t ∧ u.Part t ∧ u.Misapplied f := by
  have hsupplied : (spoken.scan text).Supplied
      (·.Keeps (conditionalTree.contract (Tree WordLeaf) (spoken.Overruns text)))
      (spoken.Overruns text) := supplies_spoken.scan text
  rcases Lockstep.makes_of_raised (fun _ hwaived => hwaived) (spoken_scan text) h with
    ⟨t, ht, hmakes⟩ | hraised
  · have htree : t.Tree WordLeaf :=
      hmakes.keeps keeps_sentinel hsupplied.tokens hsupplied.refused
    have haccounts := htree.accounts
    rw [show t.evaluate wordLeaf = .error f from ht] at haccounts
    obtain harith | ⟨hmismatch, u, hu, hmisapplied⟩ := haccounts
    · cases hf.symm.trans harith
    · exact .inr ⟨hmismatch, t, u, hmakes, hu, hmisapplied⟩
  · have hresult := hsupplied.parse false false
    rw [hraised] at hresult
    obtain ⟨error, herror, -⟩ | ⟨g, hg, hover⟩ := hresult
    · cases herror
    · cases hg
      exact .inl (overruns_spoken hover)

private theorem conditionals_eq {text : String} (h : text ≠ "--tree") :
    conditionals [text] =
      match valueOf (conditional.table.scan text) with
      | .ok v => .print v
      | .error e => .ofRuntime e := by
  have hplain : [text].contains "--tree" = false := by simp [Ne.symm h]
  have hkept : [text].filter (· ≠ "--tree") = [text] := by simp [h]
  cases hv : valueOf (conditional.table.scan text) with
  | ok v | error e =>
    simp only [conditionals, hplain, hkept, hv, Bool.false_eq_true, if_false]

/-- Whatever the argument, arithmetic ends with exit code zero or one, unless its value is an integer
that is too long to be written. So do expressions with words, unless a number in them is too long to be
read, or an operator is applied to nothing, the value of a conditional whose else branch is left out, or
orders a complex number that comes from a power: then it is the fault of that operator that escapes. -/
theorem evaluators_end (text : String) :
    ((evaluator [text]).exit = .ok 0 ∨ (evaluator [text]).exit = .ok 1 ∨
      (evaluator [text]).Overflows (valueOf (arithmetic.table.readChars Table.standardSkip text))) ∧
      (text ≠ "--tree" → (conditionals [text]).exit = .ok 0 ∨ (conditionals [text]).exit = .ok 1 ∨
        (conditionals [text]).Overflows (valueOf (conditional.table.scan text)) ∨
        ∃ f : Fault, (conditionals [text]).exit = .error (.fault f) ∧
          (conditional.table.Overruns text f ∨ f.isMismatch = true ∧
            ∃ t u : Value, (spoken.scan text).Makes false false t ∧ u.Part t ∧ u.Misapplied f)) := by
  refine ⟨exit_evaluator text, fun htext => ?_⟩
  have hsupplied : (conditional.table.scan text).Supplied (·.Keeps operandContract) fun _ => True :=
    (supplies_conditional.scan text).mono fun _ _ => trivial
  have hresult := hsupplied.parse false false
  rw [conditionals_eq htext]
  cases hvalue : valueOf (conditional.table.scan text) with
  | ok v =>
    rw [show Outcome.result _ = _ from hvalue] at hresult
    exact (Ending.exit_print hresult).imp_right fun hlong => .inr (.inl hlong)
  | error e =>
    rw [show Outcome.result _ = _ from hvalue] at hresult
    rcases Ending.exit_ofRuntime hresult with hexit | ⟨f, rfl, -, hf, hexit⟩
    · exact .inr (.inl hexit)
    · exact .inr (.inr (.inr ⟨f, hexit, misapplied_of_raised hvalue hf⟩))

/-- A number is added to what a conditional without an else branch leaves. -/
theorem evaluators_end_nothing :
    "if false then 1 end + 1" ≠ "--tree" ∧
      ∃ t u : Value, (spoken.scan "if false then 1 end + 1").Makes false false t ∧ u.Part t ∧
        u.Misapplied (.unsupported "+" "NoneType" "int") := by
  have htext : "if false then 1 end + 1" ≠ "--tree" := by decide
  have htokens : conditional.table.scan "if false then 1 end + 1" =
      .ofTokens [conditional.token "if", conditional.token "false", conditional.token "then",
        literalOf "1" (.int 1), conditional.token "end", conditional.token "+",
        literalOf "1" (.int 1)] := by
    rfl
  have hvalue : valueOf (conditional.table.scan "if false then 1 end + 1") =
      .error (.fault (.unsupported "+" "NoneType" "int")) := by
    rw [htokens]
    rfl
  have hexit : (conditionals ["if false then 1 end + 1"]).exit =
      .error (.fault (.unsupported "+" "NoneType" "int")) := by
    rw [conditionals_eq htext, hvalue]
    rfl
  have hwhole : ¬ conditional.table.Overruns "if false then 1 end + 1"
      (.unsupported "+" "NoneType" "int") := by
    rintro ⟨piece, -, -, -, ⟨⟩⟩
  refine ⟨htext, ?_⟩
  rcases (evaluators_end _).2 htext with h | h | ⟨i, -, -, h⟩ | ⟨f, h, ht⟩
  · cases hexit.symm.trans h
  · cases hexit.symm.trans h
  · cases hexit.symm.trans h
  · cases hexit.symm.trans h
    exact (ht.resolve_left hwhole).2

/-- A power of ten with more places than are written, and a row of more digits than are read. -/
theorem long_power_not_printed :
    "10^5000" ≠ "--tree" ∧
      valueOf (conditional.table.scan "10^5000") = .ok (.int (Scalar.powNat 10 5000)) ∧
      (conditionals ["10^5000"]).exit = .error (.fault .longInteger) ∧
      String.ofList Number.longRow ≠ "--tree" ∧
      (conditionals [.ofList Number.longRow]).exit =
        .error (.fault (.longNumeral (digitLimit + 1))) := by
  have htext : "10^5000" ≠ "--tree" := by decide
  have hrow : String.ofList Number.longRow ≠ "--tree" :=
    Number.longRow_ne (by decide : '-' ∈ "--tree".toList) (by decide)
  have htokens : conditional.table.scan "10^5000" =
      .ofTokens [literalOf "10" (.int 10), conditional.token "^", literalOf "5000" (.int 5000)] := by
    rfl
  have hvalue : valueOf (conditional.table.scan "10^5000") =
      .ok (.int (Scalar.powNat 10 5000)) := by
    rw [htokens]
    rfl
  have hnumber : conditional.table.number = some numberLiteral := rfl
  obtain ⟨i, -, -, hexit⟩ := Ending.overflows_print (Scalar.isLong_powNat (by decide : digitLimit ≤ 5000))
  refine ⟨htext, hvalue, by rw [conditionals_eq htext, hvalue, hexit], hrow, ?_⟩
  rw [conditionals_eq hrow, conditional.table.scan_longRow hnumber numberLiteral_longRow]
  rfl

end Standard

end BindingPower
