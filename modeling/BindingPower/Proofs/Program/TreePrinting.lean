import BindingPower.Program
import BindingPower.Proofs.Standard.DigitRuns

/-! The programs that print trees: whatever their argument, they print the tree that it is parsed as or
the error that the parse ends in. Only what is too long to be read or to be written escapes them. -/
namespace BindingPower

open Value

/-- How a program ends that prints the tree of this parse, or else its error. An integer in the tree
that is too long keeps it from printing anything, and some faults of the parse escape. -/
structure Ending.PrintsTree (e : Ending) (result : Except Failure Value) (fault : Fault → Prop) :
    Prop where
  exit : e.exit = .ok 0 ∨ e.exit = .ok 1 ∨
    ∃ f, e.exit = .error (.fault f) ∧ (f = .longInteger ∨ fault f)
  exit_zero_iff : e.exit = .ok 0 ↔ ∃ v, result = .ok v ∧ ¬ v.HoldsLong
  tree : ∀ v, result = .ok v → v.Tree AnyLeaf ∧ e.stderr = "" ∧
    (¬ v.HoldsLong → ∃ line lines, v.printed = .ok line ∧ v.layout "" = .ok lines ∧
      e.stdout = line ++ "\n" ++ lines ++ "\n") ∧
    (v.HoldsLong → e.exit = .error (.fault .longInteger) ∧ e.stdout = "")
  refusal : ∀ failure, result = .error failure → e.stdout = "" ∧
    ((∃ error, failure = .parse error ∧ (∀ pos t, error ≠ .missingInfix pos t) ∧ e.exit = .ok 1 ∧
        e.stderr = error.message ++ "\n") ∨
      ∃ f, failure = .fault f ∧ fault f ∧ e.exit = .error (.fault f) ∧ e.stderr = "")

namespace Ending
variable {v : Value}

private theorem printTree_printable (h : v.Printable) :
    ∃ lines, v.layout "" = .ok lines ∧
      printTree v = success (v.plain ++ "\n" ++ lines ++ "\n") := by
  obtain ⟨lines, hlines⟩ := h.layout ""
  exact ⟨lines, hlines, by simp only [printTree, h.printed, hlines]⟩

private theorem printTree_failed {f : Fault} (h : v.printed = .error f) :
    printTree v = ⟨.error (.fault f), "", ""⟩ := by
  simp only [printTree, h, ofFailure]

private theorem printsTree_ok (h : v.Tree AnyLeaf) (fault : Fault → Prop) :
    (printTree v).PrintsTree (.ok v) fault := by
  rcases h.printed_or_long with ⟨hprintable, hshort⟩ | ⟨hprinted, hlong⟩
  · obtain ⟨lines, hlines, hprint⟩ := printTree_printable hprintable
    rw [hprint]
    refine ⟨.inl rfl, iff_of_true rfl ⟨v, rfl, hshort⟩, fun w hw => ?_, fun _ hf => nomatch hf⟩
    obtain rfl := Except.ok.inj hw
    exact ⟨h, rfl, fun _ => ⟨_, _, hprintable.printed, hlines, rfl⟩, fun hlong => absurd hlong hshort⟩
  · rw [printTree_failed hprinted]
    refine ⟨.inr (.inr ⟨_, rfl, .inl rfl⟩), iff_of_false nofun ?_, fun w hw => ?_,
      fun _ hf => nomatch hf⟩
    · rintro ⟨w, ⟨⟩, hshort⟩
      exact hshort hlong
    · obtain rfl := Except.ok.inj hw
      exact ⟨h, rfl, fun hshort => absurd hlong hshort, fun _ => ⟨rfl, rfl⟩⟩

private theorem printsTree_error {fault : Fault → Prop} {e : Failure} (h : Refusal fault e) :
    (ofFailure e).PrintsTree (.error e) fault := by
  have hnone : ¬ ∃ v, (Except.error e : Except Failure Value) = .ok v ∧ ¬ v.HoldsLong := by
    rintro ⟨v, ⟨⟩, -⟩
  obtain ⟨error, rfl, herror⟩ | ⟨f, rfl, hf⟩ := h
  · refine ⟨.inr (.inl rfl), iff_of_false nofun hnone, fun _ hv => (nomatch hv), fun e he => ?_⟩
    exact ⟨rfl, .inl ⟨error, (Except.error.inj he).symm, herror, rfl, rfl⟩⟩
  · refine ⟨.inr (.inr ⟨f, rfl, .inr hf⟩), iff_of_false nofun hnone, fun _ hv => (nomatch hv),
      fun e he => ?_⟩
    exact ⟨rfl, .inr ⟨f, (Except.error.inj he).symm, hf, rfl, rfl⟩⟩

/-- The end of a program that prints what a parse comes to that builds trees. -/
theorem printsTree_of_result {s : Standard} {leaf : Value → Prop} {fault : Fault → Prop}
    {result : Except Failure Value} {e : Ending} (h : (s.contract (Value.Tree leaf) fault).Result result)
    (hleaf : ∀ v, leaf v → v.AnyLeaf) (htree : ∀ v, result = .ok v → e = printTree v)
    (hrefusal : ∀ failure, result = .error failure → Refusal fault failure → e = ofFailure failure) :
    e.PrintsTree result fault := by
  cases result with
  | ok v =>
    rw [htree v rfl]
    exact printsTree_ok (h.mono hleaf) fault
  | error failure =>
    rw [hrefusal failure rfl h]
    exact printsTree_error h

end Ending

namespace Standard

/-- Numerals and words that are printed. -/
def PrintedLeaf (v : Value) : Prop := v.AnyLeaf ∧ v.textFault? = none

private theorem supplies_conditionalTree {fault : Fault → Prop} :
    conditionalTree.table.Supplies (·.Keeps (conditionalTree.contract (Tree PrintedLeaf) fault)) where
  entry := keeps_conditionalTree closedUnderNodes_tree
  number := by
    rintro make ⟨⟩ cs hcs
    refine (reading_of_mem_numbers hcs).supplies (fun i hi => keeps_literalOf (.leaf ?_))
      fun x => keeps_literalOf (.leaf ?_)
    · exact ⟨.inl ⟨i, rfl⟩, if_neg (by simp [hi])⟩
    · exact ⟨.inr (.inl ⟨x, rfl⟩), rfl⟩
  name := by
    rintro make ⟨⟩ word
    exact ⟨_, rfl, keeps_literalOf (.leaf ⟨.inr (.inr ⟨word, rfl⟩), rfl⟩)⟩

private theorem treeBuilder_prints (text : String) :
    (treeBuilder [text]).PrintsTree (valueOf (tree.table.readChars Table.standardSkip text))
      fun _ => False := by
  have hresult := (supplies_tree.readChars Table.standardSkip text).parse false false
  refine Ending.printsTree_of_result hresult (fun _ => IntegerLeaf.anyLeaf) (fun v hv => ?_)
    fun failure he _ => ?_
  · simp only [treeBuilder, hv]
  · simp only [treeBuilder, he]

private theorem conditionals_prints {text : String} (htext : text ≠ "--tree") :
    (conditionals ["--tree", text]).PrintsTree (valueOf (conditionalTree.table.scan text))
      (conditionalTree.table.Overruns text) := by
  have harguments : ["--tree", text].filter (· ≠ "--tree") = [text] := by
    simp [htext]
  have hresult := (supplies_conditionalTree.scan text).parse false false
  refine Ending.printsTree_of_result hresult (fun _ hv => hv.1) (fun v hv => ?_)
    fun failure he hrefusal => ?_
  · simp only [conditionals, harguments]
    simp [hv]
  · have hruntime : Ending.ofRuntime failure = .ofFailure failure := by
      obtain ⟨error, rfl, -⟩ | ⟨f, rfl, piece, -, -, -, rfl⟩ := hrefusal <;> rfl
    simp only [conditionals, harguments]
    simp [he, hruntime]

/-- What is scanned is short enough to be printed. -/
theorem not_holdsLong_of_scan {text : String} {v : Value}
    (h : valueOf (conditionalTree.table.scan text) = .ok v) : ¬ v.HoldsLong := by
  have hresult := (supplies_conditionalTree.scan text).parse false false
  rw [show Outcome.result _ = _ from h] at hresult
  have htree : v.Tree PrintedLeaf := hresult
  exact (htree.mono fun _ hv => hv.1).not_holdsLong (htree.textFault? fun _ hv => hv.2)

/-- The programs that print trees end with exit code zero or one: zero if the parse returns, which is a
tree that is then printed, and one with the message of the parse error if not. A token that cannot
follow an expression is never what is wrong. What escapes them is that the tree of digits holds an
integer that is too long to be written, of which nothing is printed then, and of texts that are scanned
that an integer in them is too long to be read. -/
theorem tree_programs_print (text : String) :
    (treeBuilder [text]).PrintsTree (valueOf (tree.table.readChars Table.standardSkip text))
        (fun _ => False) ∧
      (text ≠ "--tree" → (conditionals ["--tree", text]).PrintsTree
          (valueOf (conditionalTree.table.scan text)) (conditionalTree.table.Overruns text) ∧
        ∀ v, valueOf (conditionalTree.table.scan text) = .ok v → ¬ v.HoldsLong) :=
  ⟨treeBuilder_prints text, fun htext => ⟨conditionals_prints htext, fun _ => not_holdsLong_of_scan⟩⟩

/-- A condition without an else branch. -/
theorem tree_programs_print_short :
    "if x > 0 then x end" ≠ "--tree" ∧
      (conditionals ["--tree", "if x > 0 then x end"]).PrintsTree
        (valueOf (conditionalTree.table.scan "if x > 0 then x end"))
        (conditionalTree.table.Overruns "if x > 0 then x end") :=
  have h : "if x > 0 then x end" ≠ "--tree" := by decide
  ⟨h, ((tree_programs_print "if x > 0 then x end").2 h).1⟩

/-- The tree of a row of digits that makes an integer that is too long is not printed. -/
theorem treeBuilder_row {cs : List Char} (hne : cs ≠ [])
    (h : ∀ c ∈ cs, c ∈ TreeGrammar.digits.map (·.1))
    (hlong : Number.isLong (Number.digitsValue cs) = true) :
    (∃ v, valueOf (tree.table.readChars Table.standardSkip (.ofList cs)) = .ok v) ∧
      (treeBuilder [.ofList cs]).exit = .error (.fault .longInteger) ∧
      (treeBuilder [.ofList cs]).stdout = "" := by
  have hvalue : valueOf (tree.table.readChars Table.standardSkip (.ofList cs)) =
      .ok (.number (.int (Number.digitsValue cs))) := TreeGrammar.parse_row hne h false
  exact ⟨⟨_, hvalue⟩, ((treeBuilder_prints _).tree _ hvalue).2.2.2 ⟨_, .self, hlong⟩⟩

/-- A row with a digit more than are written, and than are read. -/
theorem long_row_not_printed :
    (∃ v, valueOf (tree.table.readChars Table.standardSkip (.ofList Number.longRow)) = .ok v) ∧
      (treeBuilder [.ofList Number.longRow]).exit = .error (.fault .longInteger) ∧
      (treeBuilder [.ofList Number.longRow]).stdout = "" ∧
      String.ofList Number.longRow ≠ "--tree" ∧
      (conditionals ["--tree", .ofList Number.longRow]).exit =
        .error (.fault (.longNumeral (digitLimit + 1))) := by
  obtain ⟨hvalue, hexit, hstdout⟩ :=
    treeBuilder_row Number.longRow_ne_nil TreeGrammar.longRow_digits Number.isLong_longRow
  have htext : String.ofList Number.longRow ≠ "--tree" :=
    Number.longRow_ne (by decide : '-' ∈ "--tree".toList) (by decide)
  have hnumber : conditionalTree.table.number = some numberNode := rfl
  have hfault : numberNode (.ofList Number.longRow) = .error (.longNumeral (digitLimit + 1)) := by
    rw [numberNode, numeralValue_longRow]
    rfl
  have hscanned : valueOf (conditionalTree.table.scan (.ofList Number.longRow)) =
      .error (.fault (.longNumeral (digitLimit + 1))) := by
    rw [conditionalTree.table.scan_longRow hnumber hfault]
    rfl
  refine ⟨hvalue, hexit, hstdout, htext, ?_⟩
  obtain ⟨-, ⟨error, hparse, -⟩ | ⟨f, hf, -, hraised, -⟩⟩ :=
    (conditionals_prints htext).refusal _ hscanned
  · cases hparse
  · cases hf
    exact hraised

end Standard

end BindingPower
