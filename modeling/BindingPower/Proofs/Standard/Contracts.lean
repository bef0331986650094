import BindingPower.Proofs.Lexer.Numerals
import BindingPower.Proofs.Parser.Contract
import BindingPower.Proofs.Standard.Drawing
import BindingPower.Proofs.Value.Evaluation
import BindingPower.Proofs.Value.Trees

/-! What the tables keep to: they ask with powers of their own and for delimiters by name, and each of
their tokens that binds has a handler for it. What is left to show of a table is what its functions
compute. -/
namespace BindingPower

/-- Errors of a parse other than that a token cannot follow an expression, and some faults. -/
def Refusal (fault : Fault → Prop) (e : Failure) : Prop :=
  (∃ error, e = .parse error ∧ ∀ pos t, error ≠ .missingInfix pos t) ∨ ∃ f, e = .fault f ∧ fault f

namespace Standard
open Value

/-- The contract of tables for some values and faults. -/
def contract (s : Standard) (value : Value → Prop) (fault : Fault → Prop) : Contract Value where
  value := value
  failure := Refusal fault
  power r := 0 ≤ r ∧ r < Token.digitPower
  matcher m := ∃ name ∈ s.marks, m = .named name
  power_zero := by decide
  missingPrefix _ _ := .inl ⟨_, rfl, fun _ _ h => nomatch h⟩
  unexpected _ _ _ := .inl ⟨_, rfl, fun _ _ h => nomatch h⟩
  unmatched := by
    rintro _ t f ⟨name, -, rfl⟩ h
    cases h

variable {s : Standard} {value : Value → Prop} {fault : Fault → Prop}

theorem keeps_sentinel : (Token.sentinel : Token Value).Keeps (s.contract value fault) :=
  Token.keeps_sentinel fun _ hr => hr.1

/-- A token with the powers, delimiters and handlers of a table. -/
theorem keeps_of_kind {t : Token Value} (hk : t.kind.Keeps (s.contract value fault) t.lbp)
    (hled : t.led.isNone → t.lbp ≤ 0) : t.Keeps (s.contract value fault) :=
  Token.keeps_of_kind hk (fun h => hled (Option.isNone_iff_eq_none.2 h)) fun _ hr => hr.1

theorem keeps_literalOf {text : String} {v : Value} (hv : value v) :
    (literalOf text v).Keeps (s.contract value fault) :=
  keeps_of_kind hv fun _ => le_refl 0

private theorem keeps_keyword (s' : Standard) (lexeme : String) :
    (s'.entry lexeme 0 .keyword).2.Keeps (s.contract value fault) :=
  keeps_of_kind trivial fun _ => le_refl 0

private theorem close_mem_marks (s : Standard) : ")" ∈ s.marks := by
  cases s <;> decide

theorem keeps_brackets (s' : Standard) :
    ∀ e ∈ s'.brackets, e.2.Keeps (s.contract value fault) := by
  rw [brackets]
  refine List.forall_mem_cons.2 ⟨?_, List.forall_mem_cons.2 ⟨keeps_keyword s' _, List.forall_mem_nil _⟩⟩
  have hunwrapped : ∀ wrap ∈ (none : Option (Value → Except Fault Value)), ∀ v, value v →
      (s.contract value fault).Computes (wrap v) := by
    rintro wrap ⟨⟩
  exact keeps_of_kind ⟨⟨_, s.close_mem_marks, rfl⟩, hunwrapped⟩ fun _ => le_refl 0

/-- What a function of two operands makes of such values. -/
def Combines (s : Standard) (value : Value → Prop) (fault : Fault → Prop)
    (f : Value → Value → Except Fault Value) : Prop :=
  ∀ v w, value v → value w → (s.contract value fault).Computes (f v w)

/-- What a function of one operand makes of such a value. -/
def Converts (s : Standard) (value : Value → Prop) (fault : Fault → Prop)
    (f : Value → Except Fault Value) : Prop :=
  ∀ v, value v → (s.contract value fault).Computes (f v)

/-- What a function of a condition and its branches makes of such values. -/
def Chooses (s : Standard) (value : Value → Prop) (fault : Fault → Prop)
    (f : Value → Value → Option Value → Except Fault Value) : Prop :=
  ∀ c v, value c → value v → (s.contract value fault).Computes (f c v none) ∧
    ∀ w, value w → (s.contract value fault).Computes (f c v (some w))

theorem keeps_infix {lexeme : String} {lbp : Int} {assoc : Assoc}
    {f : Value → Value → Except Fault Value}
    (hr : 0 ≤ rightPower lbp assoc ∧ rightPower lbp assoc < Token.digitPower)
    (hf : s.Combines value fault f) (s' : Standard) :
    (s'.infixEntry lexeme lbp assoc f).2.Keeps (s.contract value fault) :=
  keeps_of_kind ⟨hr, hf⟩ nofun

private theorem keeps_sign {lexeme : String} {f : Value → Value → Except Fault Value}
    {g : Value → Except Fault Value} (hf : s.Combines value fault f)
    (hg : s.Converts value fault g) (s' : Standard) :
    (s'.signEntry lexeme f g).2.Keeps (s.contract value fault) := by
  have hafter : (0 : Int) ≤ 20 ∧ (20 : Int) < Token.digitPower := by decide
  have hbefore : 0 ≤ Token.prefixPower ∧ Token.prefixPower < Token.digitPower := by decide
  exact keeps_of_kind ⟨⟨hafter, hf⟩, hbefore, hg⟩ nofun

/-- The operators of arithmetic with functions of their own. -/
def operations (s : Standard) (infixFn : String → Value → Value → Except Fault Value)
    (prefixFn : String → Value → Except Fault Value) : Entries Value :=
  [s.signEntry "+" (infixFn "+") (prefixFn "+"), s.signEntry "-" (infixFn "-") (prefixFn "-"),
    s.infixEntry "*" 30 .left (infixFn "*"), s.infixEntry "/" 30 .left (infixFn "/"),
    s.infixEntry "^" 40 .right (infixFn "^")]

private theorem building_eq (s : Standard) : s.building = s.operations binaryNode unaryNode := rfl

theorem computing_eq (s : Standard) : s.computing = s.operations infixMeaning signMeaning := rfl

theorem keeps_operations {infixFn : String → Value → Value → Except Fault Value}
    {prefixFn : String → Value → Except Fault Value}
    (hf : ∀ op ∈ ["+", "-", "*", "/", "^"], s.Combines value fault (infixFn op))
    (hg : ∀ op ∈ ["+", "-"], s.Converts value fault (prefixFn op)) (s' : Standard) :
    ∀ e ∈ s'.operations infixFn prefixFn, e.2.Keeps (s.contract value fault) := by
  simp only [List.forall_mem_cons] at hf hg
  obtain ⟨hadd, hsub, hmul, hdiv, hpow, -⟩ := hf
  obtain ⟨hpos, hneg, -⟩ := hg
  simp only [operations, List.forall_mem_cons]
  exact ⟨keeps_sign hadd hpos s', keeps_sign hsub hneg s',
    keeps_infix ⟨by decide, by decide⟩ hmul s', keeps_infix ⟨by decide, by decide⟩ hdiv s',
    keeps_infix ⟨by decide, by decide⟩ hpow s', List.forall_mem_nil _⟩

/-- The comparisons. -/
def relations : List String := ["==", "!=", "<", "<=", ">", ">="]

theorem keeps_comparing {f : String → Value → Value → Except Fault Value}
    (hf : ∀ op ∈ relations, s.Combines value fault (f op)) (s' : Standard) :
    ∀ e ∈ s'.comparing f, e.2.Keeps (s.contract value fault) :=
  List.forall_mem_map.2 fun op hop => keeps_infix ⟨by decide, by decide⟩ (hf op hop) s'

section
variable {f : Value → Value → Option Value → Except Fault Value}
  (hf : s.Chooses value fault f) (s' : Standard)
include hf

theorem keeps_condition (hmarks : ∀ m ∈ ["then", "else", "end"], m ∈ s.marks) :
    ∀ e ∈ s'.condition f, e.2.Keeps (s.contract value fault) := by
  simp only [List.forall_mem_cons] at hmarks
  obtain ⟨hthen, helse, hend, -⟩ := hmarks
  simp only [condition, List.forall_mem_cons]
  refine ⟨keeps_of_kind ⟨⟨⟨_, hthen, rfl⟩, ⟨_, helse, rfl⟩, ⟨_, hend, rfl⟩⟩, hf⟩ fun _ => le_refl 0,
    keeps_keyword s' _, keeps_keyword s' _, keeps_keyword s' _, List.forall_mem_nil _⟩

theorem keeps_ternary (hmark : ":" ∈ s.marks) :
    ∀ e ∈ s'.ternary f, e.2.Keeps (s.contract value fault) := by
  have hpower : (0 : Int) ≤ 5 - 1 ∧ (5 : Int) - 1 < Token.digitPower := by decide
  simp only [ternary, List.forall_mem_cons]
  refine ⟨keeps_of_kind ⟨⟨_, hmark, rfl⟩, hpower, fun c v w hc hv hw => (hf c v hc hv).2 w hw⟩ ?_,
    keeps_keyword s' _, List.forall_mem_nil _⟩
  rintro ⟨⟩

end

/-- Digits that make such values, and extend those that they join to. -/
theorem keeps_digits {label : String} {make : Making} {extend : Extension} {joins : Joining}
    (hmake : ∀ d : Nat, (s.contract value fault).Computes (make.apply d))
    (hextend : ∀ v, value v → (∃ b, joins.apply v = .ok b) ∧
      (joins.apply v = .ok true → ∀ d : Nat, (s.contract value fault).Computes (extend.apply v d))) :
    ∀ e ∈ digitEntries label make extend joins, e.2.Keeps (s.contract value fault) := by
  refine List.forall_mem_map.2 fun (lexeme, d) _ => keeps_of_kind ⟨hmake d, fun v hv => ?_⟩ nofun
  obtain ⟨⟨b, hb⟩, hjoined⟩ := hextend v hv
  refine ⟨fun f hf => ?_, fun hjoins => hjoined hjoins d⟩
  cases hb.symm.trans hf

/-! Tables that build trees -/

/-- Values that the nodes over them are among, for the operators that nodes are built for. -/
structure ClosedUnderNodes (value : Value → Prop) : Prop where
  unary : ∀ op ∈ ["+", "-"], ∀ v, value v → value (.unary (.text op) v)
  binary : ∀ op ∈ "=" :: ["+", "-", "*", "/", "^"] ++ relations,
    ∀ v w, value v → value w → value (.binary (.text op) v w)
  choice : ∀ c v w, value c → value v → value w → value (.choice c v w)
  short : ∀ c v, value c → value v → value (.choice c v .absent)

theorem closedUnderNodes_tree {leaf : Value → Prop} : ClosedUnderNodes (Tree leaf) where
  unary _ _ _ := Tree.unary
  binary _ _ _ _ := Tree.binary
  choice _ _ _ := Tree.choice
  short _ _ := Tree.short

section
variable (h : ClosedUnderNodes value)
include h

private theorem ClosedUnderNodes.converts {op : String} (hop : op ∈ ["+", "-"]) :
    s.Converts value fault (unaryNode op) :=
  h.unary op hop

private theorem ClosedUnderNodes.combines {op : String}
    (hop : op ∈ "=" :: ["+", "-", "*", "/", "^"] ++ relations) :
    s.Combines value fault (binaryNode op) :=
  h.binary op hop

theorem ClosedUnderNodes.chooses : s.Chooses value fault choiceNode :=
  fun c v hc hv => ⟨h.short c v hc hv, fun w hw => h.choice c v w hc hv hw⟩

private theorem keeps_equation : (s.infixEntry "=" 10 .left (binaryNode "=")).2.Keeps (s.contract value fault) :=
  keeps_infix (by decide) (h.combines List.mem_cons_self) s

theorem keeps_building (s' : Standard) : ∀ e ∈ s'.building, e.2.Keeps (s.contract value fault) := by
  rw [building_eq]
  exact keeps_operations
    (fun _ hop => h.combines (List.mem_append_left relations (List.mem_cons_of_mem "=" hop)))
    (fun _ hop => h.converts hop) s'

theorem keeps_relating (s' : Standard) :
    ∀ e ∈ s'.comparing binaryNode, e.2.Keeps (s.contract value fault) :=
  keeps_comparing (fun _ hop => h.combines (List.mem_append_right _ hop)) s'

/-- A digit makes a leaf that holds an integer, and of what it may follow it extends no other. -/
theorem keeps_tree (hdigit : ∀ d : Nat, value (.number (.int d)))
    (hnumber : ∀ v, value (.number v) →
      ∃ i, v = .int i ∧ ∀ d : Nat, value (.number (.int (i * 10 + d)))) :
    ∀ e ∈ tree.entries, e.2.Keeps (tree.contract value fault) := by
  have hdigits : ∀ e ∈ digitEntries tree.label .node .node .toNumbers,
      e.2.Keeps (tree.contract value fault) := by
    refine keeps_digits hdigit fun v hv => ?_
    cases v with
    | number v =>
      obtain ⟨i, rfl, hextended⟩ := hnumber v hv
      exact ⟨⟨true, rfl⟩, fun _ => hextended⟩
    | _ => exact ⟨⟨false, rfl⟩, nofun⟩
  simp only [entries, List.forall_mem_append, List.forall_mem_cons]
  exact ⟨⟨keeps_brackets _, keeps_equation h, keeps_building h _⟩, hdigits⟩

theorem keeps_conditionalTree :
    ∀ e ∈ conditionalTree.entries, e.2.Keeps (conditionalTree.contract value fault) := by
  simp only [entries, List.forall_mem_append]
  exact ⟨⟨⟨⟨keeps_condition h.chooses _ (by decide), keeps_ternary h.chooses _ (by decide)⟩,
    keeps_brackets _⟩, keeps_relating h _⟩, keeps_building h _⟩

end

end Standard

/-! Streams -/

/-- What a table makes of lexemes has a property, and it makes something of every name and of every
number that is not too long. -/
structure Table.Supplies {V : Type} (t : Table V) (P : Token V → Prop) : Prop where
  entry : ∀ e ∈ t.entries, P e.2
  number : ∀ make ∈ t.number, ∀ cs ∈ Lexer.numbers, (∃ u, make (.ofList cs) = .ok u ∧ P u) ∨
    Overlong cs ∧ make (.ofList cs) = .error (.longNumeral cs.length)
  name : ∀ make ∈ t.name, ∀ word, ∃ u, make word = .ok u ∧ P u

/-- What a numeral comes to makes such a token, or the numeral is too long. -/
theorem Reading.supplies {cs : List Char} {r : Except Fault Value} {f : Value → Token Value}
    {P : Token Value → Prop} (h : Reading cs r)
    (hinteger : ∀ i, Number.isLong i = false → P (f (.int i))) (hdecimal : ∀ x, P (f (.float x))) :
    (∃ u, r.map f = .ok u ∧ P u) ∨
      Overlong cs ∧ r.map f = .error (.longNumeral cs.length) := by
  cases h with
  | overlong hlong => exact .inr ⟨hlong, rfl⟩
  | integer hi => exact .inl ⟨_, rfl, hinteger _ hi⟩
  | decimal x => exact .inl ⟨_, rfl, hdecimal x⟩

/-- The fault of a number in the text that is too long. -/
def Table.Overruns {V : Type} (t : Table V) (text : String) (f : Fault) : Prop :=
  ∃ piece ∈ Lexer.pieces (t.operators.map (·.toList)) text.toList, piece.kind = .number ∧
    Overlong piece.text ∧ f = .longNumeral piece.text.length

/-- A stream of such tokens that fails, if it does, at a text that is no token or with such a fault. -/
structure Stream.Supplied {V : Type} (P : Token V → Prop) (fault : Fault → Prop) (s : Stream V) :
    Prop where
  tokens : ∀ u ∈ s.tokens, P u
  failure : ∀ e ∈ s.failure,
    (∃ pos lexeme, e = .parse (.lexical pos lexeme)) ∨ ∃ f, e = .fault f ∧ fault f

namespace Stream.Supplied
variable {V : Type} {P : Token V → Prop} {fault fault' : Fault → Prop} {s : Stream V} {u : Token V}

theorem nil : (Stream.nil : Stream V).Supplied P fault :=
  ⟨List.forall_mem_nil _, fun _ he => nomatch he⟩

theorem failed (pos : Int) (lexeme : String) :
    (Stream.failed (.parse (.lexical pos lexeme)) : Stream V).Supplied P fault :=
  ⟨List.forall_mem_nil _, fun _ he => .inl ⟨pos, lexeme, (Option.some.inj he).symm⟩⟩

theorem raised {f : Fault} (hf : fault f) : (Stream.failed (.fault f) : Stream V).Supplied P fault :=
  ⟨List.forall_mem_nil _, fun _ he => .inr ⟨f, (Option.some.inj he).symm, hf⟩⟩

theorem cons (hu : P u) (h : s.Supplied P fault) : (Stream.cons u s).Supplied P fault :=
  ⟨List.forall_mem_cons.2 ⟨hu, h.tokens⟩, h.failure⟩

theorem mono (h : s.Supplied P fault) (hfault : ∀ f, fault f → fault' f) : s.Supplied P fault' :=
  ⟨h.tokens, fun e he => (h.failure e he).imp_right fun ⟨f, hf, hfaulty⟩ => ⟨f, hf, hfault f hfaulty⟩⟩

end Stream.Supplied

namespace Table.Supplies
variable {V : Type} {t : Table V} {P : Token V → Prop} {lexeme : String} {u : Token V}

theorem lookup (h : t.Supplies P) (hu : t.lookup lexeme = some u) : P u := by
  obtain ⟨l₁, l₂, hl, -⟩ := List.lookup_eq_some_iff.1 hu
  have hmem : (lexeme, u) ∈ t.entries := hl ▸ List.mem_append_right l₁ List.mem_cons_self
  exact h.entry _ hmem

theorem readChars (h : t.Supplies P) (skip text : String) :
    (t.readChars skip text).Supplied P fun _ => False := by
  have hfrom (cs : List Char) (pos : Nat) :
      (t.charsFrom skip.toList pos cs).Supplied P fun _ => False := by
    induction cs generalizing pos with
    | nil => exact .nil
    | cons c cs ih =>
      rw [Table.charsFrom]
      split
      · exact ih _
      · split
        · exact .failed _ _
        · exact .cons (h.lookup ‹_›) (ih _)
  exact hfrom _ 0

theorem numberPart_mem {cs : List Char} (h : Lexer.numberPart cs ≠ []) :
    Lexer.numberPart cs ∈ Lexer.numbers :=
  ((Lexer.finds_numbers cs).1 h).mem

/-- What a piece gives at its place. -/
inductive Gives (P : Token V → Prop) (pos : Nat) (piece : Lexer.Piece) :
    Except Failure (Option (Token V)) → Prop
  | nothing : Gives P pos piece (.ok none)
  | token {u : Token V} (hu : P u) : Gives P pos piece (.ok (some u))
  | refusal (lexeme : String) : Gives P pos piece (.error (.parse (.lexical pos lexeme)))
  | overlong (hk : piece.kind = .number) (hlong : Overlong piece.text) :
      Gives P pos piece (.error (.fault (.longNumeral piece.text.length)))

/-- A piece gives no token, such a token or an error that points at it, unless it is too long a
number. -/
theorem tokenOf (h : t.Supplies P) (operators : List (List Char)) (cs : List Char) (pos : Nat) :
    Gives P pos (Lexer.Piece.first operators cs)
      (t.tokenOf pos (Lexer.Piece.first operators cs)) := by
  generalize hpiece : Lexer.Piece.first operators cs = piece
  rw [Table.tokenOf]
  cases hk : piece.kind with
  | blank => exact .nothing
  | stray => exact .refusal _
  | number =>
    have hmem : piece.text ∈ Lexer.numbers := by
      subst hpiece
      obtain ⟨htext, hne⟩ := Standard.text_first_number hk
      exact htext ▸ numberPart_mem hne
    cases hm : t.number with
    | none => exact .refusal _
    | some make =>
      rcases h.number make hm _ hmem with ⟨u, hu, hP⟩ | ⟨hlong, herror⟩
      · simp only [hu]
        exact .token hP
      · simp only [herror]
        exact .overlong hk hlong
  | word =>
    cases hl : t.lookup (String.ofList piece.text) with
    | some u => exact .token (h.lookup hl)
    | none =>
      cases hm : t.name with
      | none => exact .refusal _
      | some make =>
        obtain ⟨u, hu, hP⟩ := h.name make hm (String.ofList piece.text)
        simp only [hu]
        exact .token hP
  | operator =>
    cases hl : t.lookup (String.ofList piece.text) with
    | some u => exact .token (h.lookup hl)
    | none => exact .refusal _

theorem tokensFrom (h : t.Supplies P) {operators : List (List Char)} {pieces : List Lexer.Piece}
    {fault : Fault → Prop} (hpieces : ∀ piece ∈ pieces, ∃ cs, piece = Lexer.Piece.first operators cs)
    (hfault : ∀ piece ∈ pieces, piece.kind = .number → Overlong piece.text →
      fault (.longNumeral piece.text.length)) (pos : Nat) :
    (t.tokensFrom pos pieces).Supplied P fault := by
  induction pieces generalizing pos with
  | nil => exact .nil
  | cons piece pieces ih =>
    obtain ⟨⟨cs, rfl⟩, hrest⟩ := List.forall_mem_cons.1 hpieces
    obtain ⟨hfirst, hlater⟩ := List.forall_mem_cons.1 hfault
    have hgives := h.tokenOf operators cs pos
    rw [Table.tokensFrom]
    generalize t.tokenOf pos (Lexer.Piece.first operators cs) = r at hgives
    cases hgives with
    | nothing => exact ih hrest hlater _
    | token hu => exact .cons hu (ih hrest hlater _)
    | refusal lexeme => exact .failed _ _
    | overlong hk hlong => exact .raised (hfirst hk hlong)

theorem scan (h : t.Supplies P) (text : String) : (t.scan text).Supplied P (t.Overruns text) :=
  h.tokensFrom (fun _ hpiece => Table.mem_piecesFrom hpiece)
    (fun piece hpiece hk hlong => ⟨piece, hpiece, hk, hlong, rfl⟩) 0

end Table.Supplies

/-- A text that is no token is refused. -/
theorem Stream.Supplied.refused {V : Type} {P : Token V → Prop} {fault : Fault → Prop}
    {stream : Stream V} (h : stream.Supplied P fault) : ∀ e ∈ stream.failure, Refusal fault e := by
  intro e he
  obtain ⟨pos, lexeme, rfl⟩ | hfault := h.failure e he
  · exact .inl ⟨_, rfl, fun _ _ h => nomatch h⟩
  · exact .inr hfault

/-- A run on tokens of a table that keep its contract has a result within it. -/
theorem Stream.Supplied.parse {s : Standard} {value : Value → Prop} {fault : Fault → Prop}
    {stream : Stream Value} (h : stream.Supplied (·.Keeps (s.contract value fault)) fault)
    (trace strict : Bool) :
    (s.contract value fault).Result (stream.parse trace strict).result :=
  Stream.parse_keeps Standard.keeps_sentinel h.tokens h.refused trace strict

namespace Standard

theorem supplies_tree {fault : Fault → Prop} :
    tree.table.Supplies (·.Keeps (tree.contract (Value.Tree Value.IntegerLeaf) fault)) where
  entry := by
    refine keeps_tree closedUnderNodes_tree (fun d => .leaf ⟨d, rfl⟩) fun v hv => ?_
    cases hv with
    | leaf h =>
      obtain ⟨i, hi⟩ := h
      cases hi
      exact ⟨i, rfl, fun d => .leaf ⟨i * 10 + d, rfl⟩⟩
  number := nofun
  name := nofun

end Standard

end BindingPower
