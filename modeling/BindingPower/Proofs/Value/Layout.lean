import BindingPower.Proofs.Value.Trees
import Mathlib.Data.List.Forall2

/-! Trees laid out: one line for each node, from the top down, that begins with the indentation of its
depth. Without the indentations and with spaces between them, the lines are the tree on one line. -/
namespace BindingPower.Value

/-- A node of a tree: how deep it stands, and what it says itself. -/
structure Node where
  depth : Nat
  text : String

/-- The nodes of a tree that stands at some depth, each before its children. -/
def nodes (depth : Nat) : Value → List Node
  | number value => [⟨depth, value.plain⟩]
  | name word => [⟨depth, word.plain⟩]
  | unary operator operand => ⟨depth, "(" ++ operator.plain⟩ :: nodes (depth + 1) operand
  | binary operator left right =>
      ⟨depth, "(" ++ operator.plain⟩ :: (nodes (depth + 1) left ++ nodes (depth + 1) right)
  | choice cond yes otherwise => ⟨depth, "(if"⟩ :: (nodes (depth + 1) cond ++
      (nodes (depth + 1) yes ++ nodes (depth + 1) otherwise))
  | _ => []

/-- Two spaces for each level below the first. -/
def indentation (indent : String) (depth : Nat) : List Char :=
  indent.toList ++ List.replicate (2 * depth) ' '

/-- The lines of nodes without their indentations, with spaces between them. -/
def onOneLine (indent : String) (lines : List (List Char)) (nodes : List Node) : List Char :=
  [' '].intercalate
    (lines.zipWith (fun line node => line.drop (indentation indent node.depth).length) nodes)

/-- A leaf whose text can be written. -/
def WrittenLeaf (v : Value) : Prop :=
  (∃ w, v = .number w ∧ w.textFault? = none) ∨ ∃ word, v = .name (.text word)

/-! Rows -/

/-- A node and the brackets that close after it. -/
structure Row where
  node : Node
  closing : Nat

namespace Row

/-- What a row says. -/
def text (r : Row) : List Char := r.node.text.toList ++ List.replicate r.closing ')'

def line (indent : String) (r : Row) : List Char := indentation indent r.node.depth ++ r.text

end Row

/-- The nodes of a tree and what closes after each, where something more closes after the tree. -/
def rows (depth closing : Nat) : Value → List Row
  | number value => [⟨⟨depth, value.plain⟩, closing⟩]
  | name word => [⟨⟨depth, word.plain⟩, closing⟩]
  | unary operator operand =>
      ⟨⟨depth, "(" ++ operator.plain⟩, 0⟩ :: rows (depth + 1) (closing + 1) operand
  | binary operator left right => ⟨⟨depth, "(" ++ operator.plain⟩, 0⟩ ::
      (rows (depth + 1) 0 left ++ rows (depth + 1) (closing + 1) right)
  | choice cond yes otherwise => ⟨⟨depth, "(if"⟩, 0⟩ :: (rows (depth + 1) 0 cond ++
      if otherwise.isAbsent then rows (depth + 1) (closing + 1) yes else
        rows (depth + 1) 0 yes ++ rows (depth + 1) (closing + 1) otherwise)
  | _ => []

variable {v w c : Value} {indent : String} {depth closing : Nat}

private theorem rows_choice (hw : w.isAbsent = false) : (choice c v w).rows depth closing =
    ⟨⟨depth, "(if"⟩, 0⟩ :: (rows (depth + 1) 0 c ++ (rows (depth + 1) 0 v ++
      rows (depth + 1) (closing + 1) w)) := by
  rw [rows, hw, if_neg Bool.false_ne_true]

private theorem rows_short : (choice c v absent).rows depth closing =
    ⟨⟨depth, "(if"⟩, 0⟩ :: (rows (depth + 1) 0 c ++ rows (depth + 1) (closing + 1) v) :=
  rfl

private theorem nodes_absent : absent.nodes depth = [] := rfl

theorem WrittenLeaf.isTree (h : v.WrittenLeaf) : v.isTree = true := by
  obtain ⟨w, rfl, -⟩ | ⟨word, rfl⟩ := h <;> rfl

theorem WrittenLeaf.textFault? (h : v.WrittenLeaf) : v.textFault? = none := by
  obtain ⟨w, rfl, hw⟩ | ⟨word, rfl⟩ := h
  · exact hw
  · rfl

private theorem rows_ne_nil (h : v.Tree WrittenLeaf) (depth closing : Nat) : v.rows depth closing ≠ [] := by
  have hnode : v.isTree = true := h.isTree fun _ => WrittenLeaf.isTree
  cases v with
  | number | name | unary | binary | choice => exact List.cons_ne_nil _ _
  | _ => cases hnode

private theorem node_rows (h : v.Tree WrittenLeaf) (depth closing : Nat) :
    (v.rows depth closing).map (·.node) = v.nodes depth := by
  induction h generalizing depth closing with
  | leaf h => obtain ⟨w, rfl, -⟩ | ⟨word, rfl⟩ := h <;> rfl
  | unary _ ih => rw [rows, nodes, List.map_cons, ih]
  | binary _ _ ihv ihw => rw [rows, nodes, List.map_cons, List.map_append, ihv, ihw]
  | choice _ _ hw ihc ihv ihw =>
    rw [rows_choice (hw.isAbsent fun _ => WrittenLeaf.isTree), nodes, List.map_cons, List.map_append,
      List.map_append, ihc, ihv, ihw]
  | short _ _ ihc ihv =>
    rw [rows_short, nodes, List.map_cons, List.map_append, ihc, ihv, nodes_absent, List.append_nil]

/-! Joining -/

section
variable {sep : List Char} {f : Row → List Char} {r : Row} {rs ss : List Row}

/-- The texts of some rows with a separator between them. -/
def joined (sep : List Char) (f : Row → List Char) (rs : List Row) : List Char :=
  sep.intercalate (rs.map f)

private theorem joined_cons (h : rs ≠ []) : joined sep f (r :: rs) = f r ++ sep ++ joined sep f rs := by
  rw [joined, List.map_cons, List.intercalate_cons_of_ne_nil (by simpa using h)]
  rfl

private theorem joined_append (hr : rs ≠ []) (hs : ss ≠ []) :
    joined sep f (rs ++ ss) = joined sep f rs ++ sep ++ joined sep f ss := by
  induction rs with
  | nil => exact absurd rfl hr
  | cons r rs ih =>
    rw [List.cons_append, joined_cons (List.append_ne_nil_of_right_ne_nil rs hs)]
    by_cases hnil : rs = []
    · subst hnil
      simp [joined]
    · rw [ih hnil, joined_cons hnil]
      simp only [List.append_assoc]

private theorem joined_unary (hv : v.Tree WrittenLeaf) (operator : Value) :
    joined sep f ((unary operator v).rows depth closing) =
      f ⟨⟨depth, "(" ++ operator.plain⟩, 0⟩ ++ sep ++
        joined sep f (v.rows (depth + 1) (closing + 1)) :=
  joined_cons (rows_ne_nil hv _ _)

private theorem joined_binary (hv : v.Tree WrittenLeaf) (hw : w.Tree WrittenLeaf) (operator : Value) :
    joined sep f ((binary operator v w).rows depth closing) =
      f ⟨⟨depth, "(" ++ operator.plain⟩, 0⟩ ++ sep ++
        (joined sep f (v.rows (depth + 1) 0) ++ sep ++
          joined sep f (w.rows (depth + 1) (closing + 1))) := by
  have hv := rows_ne_nil hv (depth + 1) 0
  rw [rows, joined_cons (List.append_ne_nil_of_left_ne_nil hv _), joined_append hv (rows_ne_nil hw _ _)]

private theorem joined_choice (hc : c.Tree WrittenLeaf) (hv : v.Tree WrittenLeaf) (hw : w.Tree WrittenLeaf) :
    joined sep f ((choice c v w).rows depth closing) =
      f ⟨⟨depth, "(if"⟩, 0⟩ ++ sep ++ (joined sep f (c.rows (depth + 1) 0) ++ sep ++
        (joined sep f (v.rows (depth + 1) 0) ++ sep ++
          joined sep f (w.rows (depth + 1) (closing + 1)))) := by
  have hc := rows_ne_nil hc (depth + 1) 0
  have hv := rows_ne_nil hv (depth + 1) 0
  rw [rows_choice (hw.isAbsent fun _ => WrittenLeaf.isTree),
    joined_cons (List.append_ne_nil_of_left_ne_nil hc _),
    joined_append hc (List.append_ne_nil_of_left_ne_nil hv _), joined_append hv (rows_ne_nil hw _ _)]

private theorem joined_short (hc : c.Tree WrittenLeaf) (hv : v.Tree WrittenLeaf) :
    joined sep f ((choice c v absent).rows depth closing) =
      f ⟨⟨depth, "(if"⟩, 0⟩ ++ sep ++ (joined sep f (c.rows (depth + 1) 0) ++ sep ++
        joined sep f (v.rows (depth + 1) (closing + 1))) := by
  have hc := rows_ne_nil hc (depth + 1) 0
  rw [rows_short, joined_cons (List.append_ne_nil_of_left_ne_nil hc _),
    joined_append hc (rows_ne_nil hv _ _)]

end

/-- A tree on one line is what its rows say, with spaces between. -/
theorem plain_rows (h : v.Tree WrittenLeaf) (depth closing : Nat) :
    v.plain.toList ++ List.replicate closing ')' = joined [' '] Row.text (v.rows depth closing) := by
  induction h generalizing depth closing with
  | leaf h =>
    obtain ⟨w, rfl, -⟩ | ⟨word, rfl⟩ := h <;> simp [joined, rows, Row.text, plain]
  | unary h ih =>
    rw [joined_unary h, ← ih]
    simp [plain, Row.text, List.replicate_succ]
  | binary hl hr ihl ihr =>
    rw [joined_binary hl hr, ← ihl, ← ihr]
    simp [plain, Row.text, List.replicate_succ]
  | choice hc hv hw ihc ihv ihw =>
    have habsent := hw.isAbsent fun _ => WrittenLeaf.isTree
    rw [joined_choice hc hv hw, ← ihc, ← ihv, ← ihw]
    simp [plain, Row.text, List.replicate_succ, habsent]
  | short hc hv ihc ihv =>
    rw [joined_short hc hv, ← ihc, ← ihv]
    simp [plain, Row.text, List.replicate_succ, isAbsent]

private theorem indentation_succ {lead : String} (h : lead.toList = indentation indent depth) :
    (lead ++ "  ").toList = indentation indent (depth + 1) := by
  rw [String.toList_append, h]
  simp [indentation, Nat.mul_succ, List.replicate_add]

/-- A tree laid out is what the lines of its rows are. -/
theorem layout_rows (h : v.Tree WrittenLeaf) {depth : Nat} (closing : Nat) {lead : String}
    (hlead : lead.toList = indentation indent depth) :
    ∃ text, v.layout lead = .ok text ∧ text.toList ++ List.replicate closing ')' =
      joined ['\n'] (Row.line indent) (v.rows depth closing) := by
  induction h generalizing depth closing lead with
  | leaf h =>
    obtain ⟨w, rfl, hw⟩ | ⟨word, rfl⟩ := h
    · simp only [layout, printed_of_textFault? hw]
      exact ⟨_, rfl, by simp [joined, rows, Row.line, Row.text, hlead]⟩
    · simp only [layout, printed_text]
      exact ⟨_, rfl, by simp [joined, rows, Row.line, Row.text, hlead, plain]⟩
  | unary h ih =>
    obtain ⟨operand, hoperand, hrows⟩ := ih (closing + 1) (indentation_succ hlead)
    simp only [layout, printed_text, hoperand]
    refine ⟨_, rfl, ?_⟩
    rw [joined_unary h, ← hrows]
    simp [Row.line, Row.text, hlead, plain, List.replicate_succ]
  | binary hl hr ihl ihr =>
    obtain ⟨left, hleft, hleftRows⟩ := ihl 0 (indentation_succ hlead)
    obtain ⟨right, hright, hrightRows⟩ := ihr (closing + 1) (indentation_succ hlead)
    simp only [layout, printed_text, hleft, hright]
    refine ⟨_, rfl, ?_⟩
    rw [joined_binary hl hr, ← hleftRows, ← hrightRows]
    simp [Row.line, Row.text, hlead, plain, List.replicate_succ]
  | choice hc hv hw ihc ihv ihw =>
    have habsent := hw.isAbsent fun _ => WrittenLeaf.isTree
    obtain ⟨cond, hcond, hcondRows⟩ := ihc 0 (indentation_succ hlead)
    obtain ⟨yes, hyes, hyesRows⟩ := ihv 0 (indentation_succ hlead)
    obtain ⟨otherwise, hotherwise, hotherwiseRows⟩ := ihw (closing + 1) (indentation_succ hlead)
    simp only [layout, hcond, hyes, hotherwise, habsent]
    refine ⟨_, rfl, ?_⟩
    rw [joined_choice hc hv hw, ← hcondRows, ← hyesRows, ← hotherwiseRows]
    simp [Row.line, Row.text, hlead, List.replicate_succ]
  | short hc hv ihc ihv =>
    obtain ⟨cond, hcond, hcondRows⟩ := ihc 0 (indentation_succ hlead)
    obtain ⟨yes, hyes, hyesRows⟩ := ihv (closing + 1) (indentation_succ hlead)
    simp only [layout, hcond, hyes]
    refine ⟨_, rfl, ?_⟩
    rw [joined_short hc hv, ← hcondRows, ← hyesRows]
    simp [Row.line, Row.text, hlead, List.replicate_succ]

/-! Lines -/

/-- How the line of a node reads: its indentation, its text, and what closes after it. -/
def IsLine (indent : String) (line : List Char) (node : Node) : Prop :=
  ∃ closing, line = indentation indent node.depth ++ node.text.toList ++ List.replicate closing ')'

private theorem isLine_row (indent : String) (r : Row) : IsLine indent (r.line indent) r.node :=
  ⟨r.closing, (List.append_assoc ..).symm⟩

private theorem onOneLine_rows (indent : String) (rs : List Row) :
    onOneLine indent (rs.map (Row.line indent)) (rs.map (·.node)) = joined [' '] Row.text rs := by
  have hdrop (r : Row) : (r.line indent).drop (indentation indent r.node.depth).length = r.text :=
    List.drop_left
  rw [onOneLine, List.zipWith_map, List.zipWith_self, joined]
  simp only [hdrop]

/-- No line of a tree goes on over its end. -/
theorem newline_notMem_line {r : Row} (hindent : '\n' ∉ indent.toList)
    (hnode : '\n' ∉ r.node.text.toList) : '\n' ∉ r.line indent := by
  simp [Row.line, Row.text, indentation, hindent, hnode]

/-- A tree laid out has one line for each node, each before its children, that begins with the
indentation of its depth and the text of the node. Without the indentations and with spaces for line
ends it is the tree on one line. -/
theorem layout_is_plain (hv : v.Tree WrittenLeaf) (hindent : '\n' ∉ indent.toList)
    (hnodes : ∀ node ∈ v.nodes 0, '\n' ∉ node.text.toList) :
    ∃ text line, v.layout indent = .ok text ∧ v.printed = .ok line ∧
      List.Forall₂ (IsLine indent) (text.toList.splitOn '\n') (v.nodes 0) ∧
      line.toList = onOneLine indent (text.toList.splitOn '\n') (v.nodes 0) := by
  have hlead : indent.toList = indentation indent 0 := by simp [indentation]
  obtain ⟨text, htext, hlayout⟩ := layout_rows hv 0 hlead
  have hplain := plain_rows hv 0 0
  have hrows := node_rows hv 0 0
  have hne : v.rows 0 0 ≠ [] := rows_ne_nil hv 0 0
  rw [List.replicate_zero, List.append_nil] at hlayout hplain
  have hlines : text.toList.splitOn '\n' = (v.rows 0 0).map (Row.line indent) := by
    rw [hlayout, joined, List.splitOn_intercalate]
    · refine List.forall_mem_map.2 fun r hr => newline_notMem_line hindent (hnodes _ ?_)
      exact hrows ▸ List.mem_map_of_mem hr
    · simpa using hne
  refine ⟨text, v.plain, htext,
    printed_of_textFault? (hv.textFault? fun _ => WrittenLeaf.textFault?), ?_, ?_⟩
  · rw [hlines, ← hrows, List.forall₂_map_left_iff, List.forall₂_map_right_iff, List.forall₂_same]
    exact fun r _ => isLine_row indent r
  · rw [hlines, ← hrows, onOneLine_rows, hplain]

/-- A condition without an else branch. -/
def shortChoice : Value :=
  .choice (.binary (.text ">") (.name (.text "x")) (.number (.int 0)))
    (.unary (.text "-") (.name (.text "x"))) .absent

/-- Six lines, each with a mark before its indentation. -/
theorem layout_is_plain_short :
    shortChoice.Tree WrittenLeaf ∧ '\n' ∉ "# ".toList ∧
      (∀ node ∈ shortChoice.nodes 0, '\n' ∉ node.text.toList) ∧
      shortChoice.layout "# " =
        .ok "# (if\n#   (>\n#     x\n#     0)\n#   (-\n#     x))" ∧
      shortChoice.printed = .ok "(if (> x 0) (- x))" ∧
      ∃ text line, shortChoice.layout "# " = .ok text ∧ shortChoice.printed = .ok line ∧
        List.Forall₂ (IsLine "# ") (text.toList.splitOn '\n') (shortChoice.nodes 0) ∧
        line.toList = onOneLine "# " (text.toList.splitOn '\n') (shortChoice.nodes 0) := by
  have hx : (name (.text "x")).Tree WrittenLeaf := .leaf (.inr ⟨"x", rfl⟩)
  have hzero : (number (.int 0)).Tree WrittenLeaf := .leaf (.inl ⟨.int 0, rfl, rfl⟩)
  have hv : shortChoice.Tree WrittenLeaf := .short (.binary hx hzero) (.unary hx)
  have hnodes : ∀ node ∈ shortChoice.nodes 0, '\n' ∉ node.text.toList := by
    decide
  exact ⟨hv, by decide, hnodes, rfl, rfl, layout_is_plain hv (by decide) hnodes⟩

end BindingPower.Value
