import BindingPower.Proofs.Grammar.Completeness
import BindingPower.Proofs.Grammar.Totality
import BindingPower.Proofs.Lexer.Partition
import BindingPower.Standard.Tables

/-! The tokens that texts are read as by the tables that build trees. -/
namespace BindingPower

namespace Standard

/-- The tokens of a table: its entries, and what it makes of numbers and of words that are no
entries. -/
inductive Draws (s : Standard) : Token Value → Prop where
  | entry {lexeme : String} {t : Token Value} (h : (lexeme, t) ∈ s.entries) : Draws s t
  | number {make : Factory Value} {cs : List Char} {t : Token Value} (hm : s.number = some make)
      (hcs : Lexer.numberPart cs ≠ []) (ht : make (String.ofList (Lexer.numberPart cs)) = .ok t) :
      Draws s t
  | name {make : Factory Value} {cs : List Char} {t : Token Value} (hm : s.name = some make)
      (hcs : Lexer.wordPart cs ≠ [])
      (hl : s.table.lookup (String.ofList (Lexer.wordPart cs)) = none)
      (ht : make (String.ofList (Lexer.wordPart cs)) = .ok t) : Draws s t

theorem draws_of_lookup {s : Standard} {lexeme : String} {t : Token Value}
    (h : s.table.lookup lexeme = some t) : s.Draws t := by
  obtain ⟨l₁, l₂, hl, -⟩ := List.lookup_eq_some_iff.1 h
  have hmem : (lexeme, t) ∈ s.table.entries := hl ▸ List.mem_append_right l₁ List.mem_cons_self
  exact .entry hmem

/-- The token of a lexeme in the table. -/
def token (s : Standard) (lexeme : String) : Token Value := (s.table.lookup lexeme).getD .sentinel

theorem draws_token {s : Standard} {lexeme : String} (h : (s.table.lookup lexeme).isSome = true) :
    s.Draws (s.token lexeme) := by
  obtain ⟨t, ht⟩ := Option.isSome_iff_exists.1 h
  have htoken : s.token lexeme = t := by rw [token, ht, Option.getD_some]
  exact htoken ▸ draws_of_lookup ht

theorem text_first_number {operators : List (List Char)} {cs : List Char}
    (h : (Lexer.Piece.first operators cs).kind = .number) :
    (Lexer.Piece.first operators cs).text = Lexer.numberPart cs ∧ Lexer.numberPart cs ≠ [] := by
  unfold Lexer.Piece.first at h ⊢
  dsimp only at h ⊢
  split_ifs at h ⊢ with _ hnumber
  exact ⟨rfl, by simpa using hnumber⟩

private theorem text_first_word {operators : List (List Char)} {cs : List Char}
    (h : (Lexer.Piece.first operators cs).kind = .word) :
    (Lexer.Piece.first operators cs).text = Lexer.wordPart cs ∧ Lexer.wordPart cs ≠ [] := by
  unfold Lexer.Piece.first at h ⊢
  dsimp only at h ⊢
  split_ifs at h ⊢ with _ _ hword
  exact ⟨rfl, by simpa using hword⟩

private theorem eq_ok_of_map_some {e : Except Fault (Token Value)} {t : Token Value}
    (h : (e.map some).mapError Failure.fault = .ok (some t)) : e = .ok t := by
  cases e with
  | error f => cases h
  | ok u =>
    cases h
    rfl

private theorem draws_of_tokenOf {s : Standard} {operators : List (List Char)} {cs : List Char} {pos : Nat}
    {t : Token Value} (h : s.table.tokenOf pos (Lexer.Piece.first operators cs) = .ok (some t)) :
    s.Draws t := by
  cases hk : (Lexer.Piece.first operators cs).kind with
  | blank | stray =>
    simp only [Table.tokenOf, hk] at h
    cases h
  | number =>
    obtain ⟨htext, hne⟩ := text_first_number hk
    simp only [Table.tokenOf, hk, htext] at h
    cases hm : s.number with
    | none =>
      have hnumber : s.table.number = none := hm
      rw [hnumber] at h
      cases h
    | some make =>
      have hnumber : s.table.number = some make := hm
      rw [hnumber] at h
      exact .number hm hne (eq_ok_of_map_some h)
  | word =>
    obtain ⟨htext, hne⟩ := text_first_word hk
    simp only [Table.tokenOf, hk, htext] at h
    cases hl : s.table.lookup (String.ofList (Lexer.wordPart cs)) with
    | some u =>
      rw [hl] at h
      cases h
      exact draws_of_lookup hl
    | none =>
      rw [hl] at h
      cases hm : s.name with
      | none =>
        have hname : s.table.name = none := hm
        rw [hname] at h
        cases h
      | some make =>
        have hname : s.table.name = some make := hm
        rw [hname] at h
        exact .name hm hne hl (eq_ok_of_map_some h)
  | operator =>
    simp only [Table.tokenOf, hk] at h
    cases hl : s.table.lookup (String.ofList (Lexer.Piece.first operators cs).text) with
    | some u =>
      rw [hl] at h
      cases h
      exact draws_of_lookup hl
    | none =>
      rw [hl] at h
      cases h

/-- The tokens of a scanned text are tokens of the table. -/
theorem draws_of_scan {s : Standard} {text : String} :
    ∀ t ∈ (s.table.scan text).tokens, s.Draws t := by
  unfold Table.scan
  generalize hops : s.table.operators.map (·.toList) = operators
  have hpieces (piece : Lexer.Piece) (h : piece ∈ Lexer.pieces operators text.toList) :
      ∃ cs, piece = Lexer.Piece.first operators cs := Table.mem_piecesFrom h
  generalize Lexer.pieces operators text.toList = pieces at hpieces
  generalize 0 = pos
  induction pieces generalizing pos with
  | nil => exact List.forall_mem_nil _
  | cons piece pieces ih =>
    obtain ⟨⟨cs, rfl⟩, hrest⟩ := List.forall_mem_cons.1 hpieces
    rw [Table.tokensFrom]
    split
    · exact List.forall_mem_nil _
    · exact ih hrest _
    · rename_i t ht
      exact List.forall_mem_cons.2 ⟨draws_of_tokenOf ht, ih hrest _⟩

/-- The tables that build trees. -/
def BuildsTrees (s : Standard) : Prop := s = tree ∨ s = conditionalTree

/-- The names of the delimiters that the tokens of a table demand. -/
def marks (s : Standard) : List String := s.entries.flatMap fun e => e.2.shape.marks

private theorem lookup_marks (s : Standard) : ∀ m ∈ s.marks, (s.table.lookup m).isSome = true := by
  cases s <;> decide

private theorem head_marks (s : Standard) :
    ∀ m ∈ s.marks, m.toList.head?.any (fun c => Text.isDigit c || c == '.') = false := by
  cases s <;> decide

private theorem endName_not_mem_marks (s : Standard) : Token.endName ∉ s.marks := by
  cases s <;> decide

private theorem regular_entries (s : Standard) : ∀ e ∈ s.entries, e.2.shape.Regular := by
  cases s <;> decide

private theorem identity_entries (s : Standard) : ∀ e ∈ s.entries, e.2.identity ≠ .sentinel := by
  cases s <;> decide

/-- Only keywords bear the names of delimiters. -/
theorem keyword_of_mem_marks (s : Standard) :
    ∀ m ∈ s.marks, ∀ e ∈ s.entries, e.2.name = some m → e.2.shape.form = .keyword := by
  cases s <;> decide

/-- Each delimiter is in the table. -/
theorem closes_marks (s : Standard) : ∀ m ∈ s.marks, Closes s.Draws m := by
  have h : ∀ m ∈ s.marks, ∃ e ∈ s.entries, e.2.name = some m ∧ e.2.lbp = 0 := by
    cases s <;> decide
  intro m hm
  obtain ⟨e, he, hn, hl⟩ := h m hm
  exact ⟨fun h => s.endName_not_mem_marks (h ▸ hm), e.2, .entry he, hn, hl⟩

private theorem head_fractionPart {cs : List Char} (h : Lexer.fractionPart cs ≠ []) :
    (Lexer.fractionPart cs).head? = some '.' := by
  unfold Lexer.fractionPart at h ⊢
  split
  · rfl
  · rename_i hdot
    split at h
    · exact absurd rfl (hdot _)
    · exact absurd rfl h

/-- A number begins with a digit or a point. -/
theorem head_numberPart {cs : List Char} {c : Char}
    (h : (Lexer.numberPart cs).head? = some c) : Text.isDigit c = true ∨ c = '.' := by
  unfold Lexer.numberPart at h
  dsimp only at h
  split at h
  · cases h
  rename_i hne
  cases hw : cs.takeWhile Text.isDigit with
  | cons d ds =>
    rw [hw] at h
    obtain rfl : d = c := Option.some.inj h
    have hall := List.all_takeWhile (p := Text.isDigit) (l := cs)
    rw [hw, List.all_cons, Bool.and_eq_true] at hall
    exact .inl hall.1
  | nil =>
    rw [hw] at h hne
    have hfraction : Lexer.fractionPart (cs.drop 0) ≠ [] := by
      rw [List.drop_zero]
      intro hnil
      simp [hnil] at hne
    have hhead := head_fractionPart hfraction
    rw [List.nil_append, List.head?_append] at h
    rw [List.length_nil, hhead] at h
    exact .inr (Option.some.inj h).symm

private theorem numberPart_not_mem_marks (s : Standard) {cs : List Char} (h : Lexer.numberPart cs ≠ []) :
    String.ofList (Lexer.numberPart cs) ∉ s.marks := by
  intro hmem
  cases hc : Lexer.numberPart cs with
  | nil => exact h hc
  | cons c rest =>
    have hhead := s.head_marks _ hmem
    rw [String.toList_ofList, hc, List.head?_cons, Option.any_some, Bool.or_eq_false_iff] at hhead
    have hfirst : (Lexer.numberPart cs).head? = some c := by
      rw [hc]
      rfl
    rcases head_numberPart hfirst with hdigit | hpoint
    · cases hdigit.symm.trans hhead.1
    · exact beq_eq_false_iff_ne.1 hhead.2 hpoint

/-- A token of a table that builds trees is an entry, or a leaf whose text no token demands. -/
theorem Draws.entry_or_literal {s : Standard} (hs : s.BuildsTrees) {t : Token Value}
    (h : s.Draws t) :
    (∃ lexeme, (lexeme, t) ∈ s.entries) ∨
      s = conditionalTree ∧ ∃ text v, t = literalOf text v ∧ text ∉ s.marks ∧
        ((∃ n, numeralValue text = .ok n ∧ v = .number n) ∨ v = .name (.text text)) := by
  cases h with
  | entry h => exact .inl ⟨_, h⟩
  | @number make cs t hm hcs ht =>
    rcases hs with rfl | rfl
    · cases hm
    cases hm
    unfold numberNode at ht
    cases hv : numeralValue (String.ofList (Lexer.numberPart cs)) with
    | error f =>
      rw [hv] at ht
      cases ht
    | ok v =>
      rw [hv] at ht
      exact .inr ⟨rfl, _, .number v, (Except.ok.inj ht).symm, numberPart_not_mem_marks _ hcs,
        .inl ⟨v, hv, rfl⟩⟩
  | @name make cs t hm hcs hl ht =>
    rcases hs with rfl | rfl
    · cases hm
    cases hm
    cases ht
    refine .inr ⟨rfl, _, _, rfl, fun hmem => ?_, .inr rfl⟩
    have hsome := lookup_marks _ _ hmem
    rw [hl] at hsome
    cases hsome

theorem Draws.regular {s : Standard} (hs : s.BuildsTrees) {t : Token Value} (h : s.Draws t) :
    t.Regular := by
  rcases h.entry_or_literal hs with ⟨lexeme, h⟩ | ⟨-, text, v, rfl, -, -⟩
  · refine ⟨s.identity_entries _ h, s.regular_entries _ h, fun hm => ?_⟩
    exact s.endName_not_mem_marks (List.mem_flatMap.2 ⟨_, h, hm⟩)
  · exact ⟨Identity.noConfusion, rfl, List.not_mem_nil⟩

theorem Draws.marks {s : Standard} (hs : s.BuildsTrees) {t : Token Value} (h : s.Draws t) :
    ∀ m ∈ t.shape.marks, m ∈ s.marks := by
  rcases h.entry_or_literal hs with ⟨lexeme, h⟩ | ⟨-, text, v, rfl, -, -⟩
  · exact fun m hm => List.mem_flatMap.2 ⟨_, h, hm⟩
  · exact fun m hm => absurd hm List.not_mem_nil

theorem vocabulary {s : Standard} (hs : s.BuildsTrees) : Vocabulary id s.Draws where
  regular _ ht := ht.regular hs
  marks t ht m hm d hd hn := by
    have hmem := ht.marks hs m hm
    rcases hd.entry_or_literal hs with ⟨lexeme, hd⟩ | ⟨-, text, v, rfl, htext, -⟩
    · exact s.keyword_of_mem_marks m hmem _ hd hn
    · exact absurd ((Option.some.inj hn) ▸ hmem) htext

/-- The numbers in a tree made of digits are integers. -/
def Good : Standard → Value → Prop
  | tree, .number w => ∃ n, w = .int n
  | _, _ => True

private theorem good_of_ne {s : Standard} {v : Value} (h : ∀ w, v ≠ .number w) : s.Good v := by
  cases s <;> cases v <;> first | trivial | exact absurd rfl (h _)

private theorem total_infix (s : Standard) (a : Assoc) (op : String) :
    (Kind.infixOp a (Value.binaryNode op)).Total s.Good :=
  fun _ _ _ _ => ⟨_, rfl, good_of_ne (by simp)⟩

private theorem total_sign (s : Standard) (a : Assoc) (r : Int) (op : String) :
    (Kind.bifix a (Value.binaryNode op) r (Value.unaryNode op)).Total s.Good :=
  ⟨fun _ _ _ _ => ⟨_, rfl, good_of_ne (by simp)⟩, fun _ _ => ⟨_, rfl, good_of_ne (by simp)⟩⟩

private theorem total_brackets (s : Standard) : ∀ e ∈ s.brackets, e.2.kind.Total s.Good := by
  simp [brackets, entry, Kind.Total]

private theorem total_building (s : Standard) : ∀ e ∈ s.building, e.2.kind.Total s.Good := by
  simp only [building, List.forall_mem_cons]
  exact ⟨s.total_sign .left _ "+", s.total_sign .left _ "-", s.total_infix .left "*",
    s.total_infix .left "/", s.total_infix .right "^", List.forall_mem_nil _⟩

private theorem total_comparing (s : Standard) :
    ∀ e ∈ s.comparing Value.binaryNode, e.2.kind.Total s.Good :=
  List.forall_mem_map.2 fun op _ => s.total_infix .none op

private theorem total_condition (s : Standard) :
    ∀ e ∈ s.condition Value.choiceNode, e.2.kind.Total s.Good := by
  simp only [condition, List.forall_mem_cons]
  exact ⟨fun _ _ _ _ => ⟨⟨_, rfl, good_of_ne (by simp)⟩, fun _ _ => ⟨_, rfl, good_of_ne (by simp)⟩⟩,
    trivial, trivial, trivial, List.forall_mem_nil _⟩

private theorem total_ternary (s : Standard) :
    ∀ e ∈ s.ternary Value.choiceNode, e.2.kind.Total s.Good := by
  simp only [ternary, List.forall_mem_cons]
  exact ⟨fun _ _ _ _ _ _ => ⟨_, rfl, good_of_ne (by simp)⟩, trivial, List.forall_mem_nil _⟩

/-- Digits make integers and extend them to integers, and they refuse all else. -/
theorem total_digits :
    ∀ e ∈ digitEntries tree.label .node .node .toNumbers, e.2.kind.Total tree.Good := by
  refine List.forall_mem_map.2 fun (lexeme, d) _ => ⟨⟨_, rfl, d, rfl⟩, fun v hv => ?_⟩
  cases v with
  | number w =>
    obtain ⟨n, rfl⟩ := hv
    exact .inr ⟨rfl, _, rfl, _, rfl⟩
  | _ => exact .inl rfl

private theorem total_entries {s : Standard} (hs : s.BuildsTrees) :
    ∀ e ∈ s.entries, e.2.kind.Total s.Good := by
  rcases hs with rfl | rfl
  · simp only [entries, List.forall_mem_append, List.forall_mem_cons]
    exact ⟨⟨total_brackets _, total_infix _ .left "=", total_building _⟩, total_digits⟩
  · simp only [entries, List.forall_mem_append]
    exact ⟨⟨⟨⟨total_condition _, total_ternary _⟩, total_brackets _⟩, total_comparing _⟩,
      total_building _⟩

theorem productive {s : Standard} (hs : s.BuildsTrees) : Productive s.Draws s.Good := by
  refine .of_total (fun t ht => ht.regular hs) (fun t ht => ?_)
    (fun t ht m hm => s.closes_marks m (ht.marks hs m hm)) ?_
  · rcases ht.entry_or_literal hs with ⟨lexeme, h⟩ | ⟨rfl, text, v, rfl, -, -⟩
    · exact total_entries hs _ h
    · trivial
  · rcases hs with rfl | rfl
    · exact ⟨tree.token "0", _, draws_token (by decide), rfl, 0, rfl⟩
    · have hx : Lexer.wordPart ['x'] ≠ [] := by decide
      exact ⟨_, _, .name rfl hx (by decide) rfl, rfl, trivial⟩

/-- Whether a strict run on these tokens returns. -/
def Accepted (ts : List (Token Value)) : Prop :=
  ∃ v, ((Stream.ofTokens ts).parse false true).result = .ok v

theorem accepted_iff {s : Standard} (hs : s.BuildsTrees) {ts : List (Token Value)}
    (hts : ∀ t ∈ ts, s.Draws t) : Accepted ts ↔ Config.start.Accepts 0 ts := by
  rw [Accepted, Stream.ofTokens, Stream.parse_eq_strict ((productive hs).isEnd hts) (.inl rfl)]
  rfl

/-- No run on tokens of a table that builds trees ends otherwise than in a tree or a parse error. -/
theorem accepted_or_error {s : Standard} (hs : s.BuildsTrees) {ts : List (Token Value)}
    (hts : ∀ t ∈ ts, s.Draws t) :
    Accepted ts ∨ ∃ e, ((Stream.ofTokens ts).parse false true).result = .error (.parse e) := by
  have hW := productive hs
  rcases Config.live_start.fate hW hts 0 with hacc | ⟨e, before, rest, h⟩
  · exact .inl ((accepted_iff hs hts).2 hacc)
  · right
    rw [Stream.ofTokens, Stream.parse_eq_strict (hW.isEnd hts) (.inl rfl)]
    exact ⟨e, h.fails⟩

/-- Nor on tokens after which the text goes on with no token. -/
theorem error_of_failure {s : Standard} (hs : s.BuildsTrees) {ts : List (Token Value)}
    (hts : ∀ t ∈ ts, s.Draws t) (e : ParseError) :
    ∃ err, ((Stream.mk ts (some (.parse e))).parse false true).result = .error (.parse err) := by
  by_cases hne : ts = []
  · subst hne
    exact ⟨e, rfl⟩
  · have hW := productive hs
    rw [Stream.parse_eq_strict (hW.isEnd hts) (.inr hne)]
    exact Config.live_start.fails_of_failure hW hts hne 0 e

end Standard

end BindingPower
