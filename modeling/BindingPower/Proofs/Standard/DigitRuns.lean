import BindingPower.Proofs.Lexer.Partition
import BindingPower.Proofs.Parser.Lookahead
import BindingPower.Proofs.Parser.Spelling
import BindingPower.Proofs.Standard.Conversion
import BindingPower.Proofs.Standard.TreeGrammar
import Mathlib.Data.List.DropRight

/-! Digits that extend each other and numbers that are scanned whole make the same trees, as long as a
text has no blanks within a number and no number right after a bracket. -/
namespace BindingPower.TreeGrammar

open Lexer Text

attribute [local instance] decidableForallMem

/-- The leaf of a scanned number, named as it is printed. -/
def numberLeaf : Factory Value := fun text => do
  let leaf := Value.number (← numeralValue text)
  return literalOf (← leaf.printed) leaf

/-- The table of trees for a scanner, which cuts the numbers out whole. -/
def numbered : Table Value := { Standard.tree.table with number := some numberLeaf }

private theorem extend_tree :
    Standard.tree.table.extend [] (some (some numberLeaf)) none = .ok numbered := by
  have hempty : ¬ "" ∈ (Standard.tree.table.entries.putAll []).keys :=
    Standard.tree.nonempty_entries
  rw [Table.extend, Table.ofEntries, dif_neg hempty]
  rfl

/-- No two digits have only blanks between them, and no digit comes next after a closing bracket. -/
def Apart : List Char → Prop
  | [] => True
  | c :: rest =>
    (∀ d ∈ (rest.dropWhile isBlank).head?, isDigit d = true →
      c ≠ ')' ∧ (isDigit c = true → rest.head? = some d)) ∧ Apart rest

private theorem apart_of_digits {cs : List Char} (h : ∀ c ∈ cs, isDigit c = true) : Apart cs := by
  induction cs with
  | nil => trivial
  | cons c cs ih =>
    obtain ⟨hc, hcs⟩ := List.forall_mem_cons.1 h
    refine ⟨fun d hd _ => ⟨?_, fun _ => ?_⟩, ih hcs⟩
    · rintro rfl
      exact absurd hc (by decide)
    · cases cs with
      | nil => cases hd
      | cons e cs =>
        rwa [List.dropWhile_cons_of_neg (by simp [isBlank_of_isDigit (hcs e List.mem_cons_self)])] at hd

instance decidableApart : (cs : List Char) → Decidable (Apart cs)
  | [] => inferInstanceAs (Decidable True)
  | c :: rest =>
    have := decidableApart rest
    -- Decided on the next character, not on every character there is.
    have : Decidable (∀ d ∈ (rest.dropWhile isBlank).head?, isDigit d = true →
        c ≠ ')' ∧ (isDigit c = true → rest.head? = some d)) :=
      Option.decidableForallMem _
    inferInstanceAs (Decidable (_ ∧ Apart rest))

/-- The characters of the table that are no digits. -/
def marks : List Char := ['(', ')', '=', '^'] ++ signs ++ factors

/-! Tokens -/

/-- The table demands its closing bracket and nothing else. -/
def IsClosing (m : Matcher) : Prop := m = .named ")"

private theorem steady_marks : ∀ c ∈ marks, (token c).Steady Token.digitPower IsClosing := by
  have hbound : (0 : Int) < Token.digitPower := by decide
  simp only [marks, signs, factors, List.cons_append, List.nil_append, List.forall_mem_cons]
  exact ⟨Token.steady_of_kind ⟨hbound, rfl⟩, Token.steady_of_kind trivial,
    Token.steady_of_kind ⟨by decide, by decide⟩, Token.steady_of_kind ⟨by decide, by decide⟩,
    Token.steady_of_kind ⟨⟨by decide, by decide⟩, by decide⟩,
    Token.steady_of_kind ⟨⟨by decide, by decide⟩, by decide⟩,
    Token.steady_of_kind ⟨by decide, by decide⟩, Token.steady_of_kind ⟨by decide, by decide⟩,
    List.forall_mem_nil _⟩

private theorem isEnd_marks : ∀ c ∈ marks, (token c).isEnd = false := by
  decide

/-- After all of them but the closing bracket an expression has to begin. -/
theorem opens_marks : ∀ c ∈ marks, c ≠ ')' → (token c).Opens IsClosing := by
  have hname : ∀ c ∈ marks, c ≠ ')' → (token c).name ≠ some ")" := by decide
  have hkind : ∀ c ∈ marks, c ≠ ')' → (token c).kind.Opens := by
    simp only [marks, signs, factors, List.cons_append, List.nil_append, List.forall_mem_cons]
    exact ⟨fun _ => trivial, fun h => absurd rfl h, fun _ => trivial, fun _ => trivial,
      fun _ => trivial, fun _ => trivial, fun _ => trivial, fun _ => trivial,
      List.forall_mem_nil _⟩
  intro c hc hne
  refine Token.opens_of_kind (hkind c hc hne) ?_
  rintro _ rfl haccepts
  exact hname c hc hne (of_decide_eq_true (Except.ok.inj haccepts))

/-- The tokens of digits are read as the number that the digits make. -/
theorem reads_digits {cs : List Char} (hne : cs ≠ []) (h : ∀ c ∈ cs, c ∈ digits.map (·.1)) :
    Reads Token.digitPower (cs.map token) (.number (.int (Number.digitsValue cs))) := by
  have hvalue : ∀ e ∈ digits, digitValue? e.1 = some e.2 := by decide
  have hend : ∀ e ∈ digits, (token e.1).isEnd = false := by decide
  induction cs using List.reverseRecOn with
  | nil => exact absurd rfl hne
  | append_singleton cs c ih =>
    obtain ⟨hcs, hc⟩ := List.forall_mem_append.1 h
    obtain ⟨⟨c, d⟩, hd, rfl⟩ := List.mem_map.1 (hc c List.mem_cons_self)
    have hkind := kind_digits _ hd
    rw [List.map_append, Number.digitsValue_concat (hvalue _ hd)]
    by_cases hnil : cs = []
    · subst hnil
      have hnud : (token c).nud = some (.done (.number (.int d))) := by
        rw [Token.nud, hkind]
        rfl
      have hzero : ((10 * Number.digitsValue [] + d : Nat) : Int) = d := by
        rw [Number.digitsValue, List.foldl_nil]
        omega
      rw [hzero]
      exact .first (hend _ hd) hnud
    · have hled : ∃ led, (token c).led = some led ∧
          ∀ n : Int, led (.number (.int n)) = .done (.number (.int (n * 10 + d))) := by
        rw [Token.led, hkind]
        exact ⟨_, rfl, fun n => rfl⟩
      obtain ⟨led, hled, happend⟩ := hled
      have hvalue : ((10 * Number.digitsValue cs + d : Nat) : Int) =
          (Number.digitsValue cs : Int) * 10 + d := by omega
      rw [hvalue]
      exact .extend (ih hnil hcs) (hend _ hd) (shape_digits _ hd).2.2.ge hled (happend _)

/-! Cutting -/

section
variable {V : Type} {t : Table V} {c : Char} {cs : List Char} {pos : Nat}

private theorem takeWhile_ne_nil {p : Char → Bool} (h : p c = true) : (c :: cs).takeWhile p ≠ [] := by
  rw [List.takeWhile_cons_of_pos h]
  exact List.cons_ne_nil _ _

/-- A row of digits that no point and no exponent follows. -/
theorem numberPart_digits (h : isDigit c = true)
    (hrest : ∀ d ∈ ((c :: cs).dropWhile isDigit).head?, d ≠ '.' ∧ d ≠ 'e' ∧ d ≠ 'E') :
    numberPart (c :: cs) = (c :: cs).takeWhile isDigit := by
  have hwhole : ((c :: cs).takeWhile isDigit).isEmpty = false :=
    List.isEmpty_eq_false_iff.2 (takeWhile_ne_nil h)
  have hnone : fractionPart ((c :: cs).dropWhile isDigit) = [] ∧
      exponentPart ((c :: cs).dropWhile isDigit) = [] := by
    cases hd : (c :: cs).dropWhile isDigit with
    | nil => exact ⟨rfl, rfl⟩
    | cons d ds =>
      obtain ⟨hpoint, he, hE⟩ := hrest d (by rw [hd, List.head?_cons]; rfl)
      exact ⟨fractionPart_of_ne hpoint, by simp [exponentPart, he, hE]⟩
  unfold numberPart
  simp only [drop_takeWhile, hnone, List.append_nil, hwhole, Bool.false_and, Bool.false_eq_true,
    if_false]

/-- A row of digits is cut as one number. -/
theorem scanFrom_digits {make : Factory V} (hmake : t.number = some make) (h : isDigit c = true)
    (hrest : ∀ d ∈ ((c :: cs).dropWhile isDigit).head?, d ≠ '.' ∧ d ≠ 'e' ∧ d ≠ 'E') :
    t.scanFrom pos (c :: cs) =
      match make (.ofList ((c :: cs).takeWhile isDigit)) with
      | .error f => .failed (.fault f)
      | .ok u => .cons u (t.scanFrom (pos + ((c :: cs).takeWhile isDigit).length)
          ((c :: cs).dropWhile isDigit)) := by
  have hnumber := (finds_numbers (c :: cs)).1
  rw [numberPart_digits h hrest] at hnumber
  have hcut : t.Cut (c :: cs) ⟨.number, (c :: cs).takeWhile isDigit⟩ :=
    .number (absent_blanks_iff.2 (isBlank_of_isDigit h)) (hnumber (takeWhile_ne_nil h))
  rw [Table.scanFrom_cut hcut, drop_takeWhile]
  simp only [Table.tokenOf, hmake]
  cases make (.ofList ((c :: cs).takeWhile isDigit)) <;> rfl

end

/-- Every other character of the table is a lexeme of its own. -/
theorem scanFrom_mark {c : Char} (hc : c ∈ marks) (cs : List Char) (pos : Nat) :
    numbered.scanFrom pos (c :: cs) = .cons (token c) (numbered.scanFrom (pos + 1) cs) := by
  have hfirst : ∀ c ∈ marks, numbered.firstPiece (c :: cs) = ⟨.operator, [c]⟩ := by
    simp only [marks, signs, factors, List.cons_append, List.nil_append, List.forall_mem_cons]
    exact ⟨rfl, rfl, rfl, rfl, rfl, rfl, rfl, rfl, List.forall_mem_nil _⟩
  have hlookup : ∀ c ∈ marks, numbered.lookup (.ofList [c]) = some (token c) := by
    simp only [marks, signs, factors, List.cons_append, List.nil_append, List.forall_mem_cons]
    exact ⟨rfl, rfl, rfl, rfl, rfl, rfl, rfl, rfl, List.forall_mem_nil _⟩
  have hcut : numbered.Cut (c :: cs) ⟨.operator, [c]⟩ := by
    rcases numbered.firstPiece_cases (c :: cs) with hcut | hstray
    · rwa [hfirst c hc] at hcut
    · cases (hfirst c hc).symm.trans hstray
  have htoken : numbered.tokenOf pos ⟨.operator, [c]⟩ = .ok (some (token c)) := by
    simp only [Table.tokenOf, hlookup c hc]
  rw [Table.scanFrom_cut hcut, htoken]
  rfl

/-! Texts -/

namespace Apart
variable {c : Char} {cs ds rest : List Char}

theorem drop (h : Apart cs) (n : Nat) : Apart (cs.drop n) := by
  induction cs generalizing n with
  | nil => rwa [List.drop_nil]
  | cons c cs ih =>
    cases n with
    | zero => exact h
    | succ n => exact ih h.2 n

private theorem after_closing (h : Apart (')' :: rest)) :
    ∀ d ∈ (rest.dropWhile isBlank).head?, isDigit d = false := by
  intro d hd
  by_contra hdigit
  exact (h.1 d hd (Bool.not_eq_false _ ▸ hdigit)).1 rfl

/-- After all the digits of a row the next character is none, even past blanks. -/
theorem after_digits (h : Apart (ds ++ rest)) (hne : ds ≠ []) (hds : ∀ c ∈ ds, isDigit c = true)
    (hrest : ∀ d ∈ rest.head?, isDigit d = false) :
    ∀ d ∈ (rest.dropWhile isBlank).head?, isDigit d = false := by
  obtain ⟨init, c, rfl⟩ := (List.eq_nil_or_concat' ds).resolve_left hne
  rw [List.append_assoc] at h
  have hlast : Apart (c :: rest) := by
    have hdrop := h.drop init.length
    rwa [List.drop_left] at hdrop
  have hc : isDigit c = true := hds c (List.mem_append_right _ List.mem_cons_self)
  intro d hd
  by_contra hdigit
  have hhead := (hlast.1 d hd (Bool.not_eq_false _ ▸ hdigit)).2 hc
  exact hdigit (hrest d hhead)

end Apart

private theorem filter_dropWhile (p : Char → Bool) (cs : List Char) :
    (cs.dropWhile p).filter (fun c => !p c) = cs.filter fun c => !p c := by
  induction cs with
  | nil => rfl
  | cons c cs ih =>
    cases hc : p c with
    | true => rw [List.dropWhile_cons_of_pos hc, ih, List.filter_cons_of_neg (by simp [hc])]
    | false => rw [List.dropWhile_cons_of_neg (by simp [hc])]

/-- The token of a row of digits, however long it is. -/
def rowToken (cs : List Char) : Token Value :=
  literalOf (Value.number (.int (Number.digitsValue cs))).plain
    (.number (.int (Number.digitsValue cs)))

/-- A row of digits makes its token, unless it is too long. -/
theorem numberLeaf_digits {cs : List Char} (hne : cs ≠ []) (h : ∀ c ∈ cs, isDigit c = true) :
    numberLeaf (.ofList cs) = .ok (rowToken cs) ∨
      digitLimit < cs.length ∧ numberLeaf (.ofList cs) = .error (.longNumeral cs.length) := by
  rw [numberLeaf, numeralValue_digits hne h]
  split
  · exact .inr ⟨‹_›, rfl⟩
  · have hlong : Number.isLong (Number.digitsValue cs) = false :=
      Number.isLong_digitsValue (Nat.le_of_not_lt ‹_›)
    have hprinted : (Value.number (.int (Number.digitsValue cs))).printed =
        .ok (Value.number (.int (Number.digitsValue cs))).plain :=
      Value.printed_of_textFault? (if_neg (by simp [hlong]))
    refine .inl ?_
    simp only [Except.bind, bind, hprinted]
    rfl

/-- The fault of a row of digits in the text that is too long. -/
def LongRow (cs : List Char) (f : Fault) : Prop :=
  ∃ row, row <:+: cs ∧ (∀ c ∈ row, isDigit c = true) ∧ digitLimit < row.length ∧
    f = .longNumeral row.length

private theorem LongRow.of_suffix {cs rest : List Char} {f : Fault} (h : LongRow rest f)
    (hrest : rest <:+ cs) : LongRow cs f := by
  obtain ⟨row, hrow, hdigits⟩ := h
  exact ⟨row, hrow.trans hrest.isInfix, hdigits⟩

/-- The stream is that of the tokens, or it fails with such a fault where they go on. -/
def Curtails (fault : Fault → Prop) (s : Stream Value) (us : List (Token Value)) : Prop :=
  s = .ofTokens us ∨
    ∃ front back f, us = front ++ back ∧ s = ⟨front, some (.fault f)⟩ ∧ fault f

namespace Curtails
variable {fault fault' : Fault → Prop} {s : Stream Value} {us : List (Token Value)}

theorem cons (u : Token Value) (h : Curtails fault s us) : Curtails fault (.cons u s) (u :: us) := by
  obtain rfl | ⟨front, back, f, rfl, rfl, hf⟩ := h
  · exact .inl rfl
  · exact .inr ⟨u :: front, back, f, rfl, rfl, hf⟩

theorem failed {f : Fault} (hf : fault f) (us : List (Token Value)) :
    Curtails fault (.failed (.fault f)) us :=
  .inr ⟨[], us, f, rfl, rfl, hf⟩

theorem mono (h : Curtails fault s us) (hfault : ∀ f, fault f → fault' f) :
    Curtails fault' s us :=
  h.imp_right fun ⟨front, back, f, hus, hs, hf⟩ => ⟨front, back, f, hus, hs, hfault f hf⟩

/-- A parse of the stream ends like one of the tokens, unless it meets the fault. -/
theorem parse (h : Curtails fault s us) (hus : ∀ u ∈ us, u.isEnd = false) (trace strict : Bool) :
    (s.parse trace strict).result = ((Stream.ofTokens us).parse trace strict).result ∨
      ∃ f, (s.parse trace strict).result = .error (.fault f) ∧ fault f := by
  obtain rfl | ⟨front, back, f, rfl, rfl, hf⟩ := h
  · exact .inl rfl
  · rcases Stream.parse_curtailed (List.forall_mem_append.1 hus).1 back none (.fault f) trace strict
      with hmet | hsame
    · exact .inr ⟨f, hmet, hf⟩
    · exact .inl hsame

end Curtails

/-- The characters of a text, blanks apart, are those of the table. -/
def Written (cs : List Char) : Prop := ∀ c ∈ cs, isBlank c = false → c ∈ alphabet

namespace Written
variable {c : Char} {cs rest : List Char}

theorem suffix (h : Written cs) (hrest : rest <:+ cs) : Written rest :=
  fun c hc => h c (hrest.subset hc)

theorem mem_digits (h : Written cs) (hc : c ∈ cs) (hdigit : isDigit c = true) :
    c ∈ digits.map (·.1) := by
  have hdigits : ∀ c ∈ alphabet, isDigit c = true → c ∈ digits.map (·.1) := by decide
  exact hdigits c (h c hc (isBlank_of_isDigit hdigit)) hdigit

private theorem mem_marks (h : Written cs) (hc : c ∈ cs) (hblank : isBlank c = false)
    (hdigit : isDigit c = false) : c ∈ marks := by
  have hmarks : ∀ c ∈ alphabet, isDigit c = false → c ∈ marks := by decide
  exact hmarks c (h c hc hblank) hdigit

/-- There are neither points nor exponents. -/
theorem ne_point (h : Written cs) (hc : c ∈ cs) : c ≠ '.' ∧ c ≠ 'e' ∧ c ≠ 'E' := by
  have hother : ∀ d ∈ ['.', 'e', 'E'], isBlank d = false ∧ d ∉ alphabet := by decide
  have hne (d : Char) (hd : d ∈ ['.', 'e', 'E']) : c ≠ d := by
    rintro rfl
    obtain ⟨hblank, halphabet⟩ := hother c hd
    exact halphabet (h c hc hblank)
  exact ⟨hne _ (by decide), hne _ (by decide), hne _ (by decide)⟩

/-- A row of digits is spelled by its own tokens. -/
theorem reads_row (h : Written (c :: cs)) (hdigit : isDigit c = true) :
    Reads Token.digitPower (((c :: cs).takeWhile isDigit).map token)
      (.number (.int (Number.digitsValue ((c :: cs).takeWhile isDigit)))) :=
  reads_digits (takeWhile_ne_nil hdigit) fun _ hd =>
    h.mem_digits ((List.takeWhile_prefix _).subset hd) (List.mem_takeWhile_imp hd)

/-- A row of digits is scanned as its token, unless it is too long. -/
theorem curtails_row (h : Written (c :: cs)) (hdigit : isDigit c = true) (pos : Nat)
    {us : List (Token Value)}
    (hus : Curtails (LongRow ((c :: cs).dropWhile isDigit)) (numbered.scanFrom
      (pos + ((c :: cs).takeWhile isDigit).length) ((c :: cs).dropWhile isDigit)) us) :
    Curtails (LongRow (c :: cs)) (numbered.scanFrom pos (c :: cs))
      (rowToken ((c :: cs).takeWhile isDigit) :: us) := by
  have hds : ∀ d ∈ (c :: cs).takeWhile isDigit, isDigit d = true :=
    fun d hd => List.mem_takeWhile_imp hd
  have hstop : ∀ d ∈ ((c :: cs).dropWhile isDigit).head?, d ≠ '.' ∧ d ≠ 'e' ∧ d ≠ 'E' :=
    fun d hd => h.ne_point ((List.dropWhile_suffix _).subset (List.mem_of_mem_head? hd))
  rw [scanFrom_digits rfl hdigit hstop]
  rcases numberLeaf_digits (takeWhile_ne_nil hdigit) hds with htoken | ⟨hlong, hfault⟩
  · rw [htoken]
    exact (hus.mono fun f hf => hf.of_suffix (List.dropWhile_suffix _)).cons _
  · rw [hfault]
    exact .failed ⟨_, (List.takeWhile_prefix _).isInfix, hds, hlong, rfl⟩ _

end Written

/-- The characters of a row of digits all count, and after it there is no digit, even past blanks. -/
theorem Apart.row {c : Char} {cs : List Char} (h : Apart (c :: cs)) (hdigit : isDigit c = true) :
    (c :: cs).filter (fun c => !isBlank c) = (c :: cs).takeWhile isDigit ++
        ((c :: cs).dropWhile isDigit).filter (fun c => !isBlank c) ∧
      ∀ d ∈ (((c :: cs).dropWhile isDigit).dropWhile isBlank).head?, isDigit d = false := by
  have hne : (c :: cs).takeWhile isDigit ≠ [] := takeWhile_ne_nil hdigit
  have hds : ∀ d ∈ (c :: cs).takeWhile isDigit, isDigit d = true :=
    fun d hd => List.mem_takeWhile_imp hd
  have hnext : ∀ d ∈ ((c :: cs).dropWhile isDigit).head?, isDigit d = false := by
    intro d hd
    have hnot := List.head?_dropWhile_not isDigit (c :: cs)
    rw [hd] at hnot
    exact hnot
  have hsplit : c :: cs = (c :: cs).takeWhile isDigit ++ (c :: cs).dropWhile isDigit :=
    List.takeWhile_append_dropWhile.symm
  constructor
  · conv => lhs; rw [hsplit]
    rw [List.filter_append]
    congr 1
    exact List.filter_eq_self.2 fun d hd => by simp [isBlank_of_isDigit (hds d hd)]
  · rw [hsplit] at h
    exact h.after_digits hne hds hnext

/-- What is left of a text after its first characters of a class, of which it has one. -/
theorem length_dropWhile_lt {p : Char → Bool} {c : Char} (h : p c = true) (cs : List Char) :
    ((c :: cs).dropWhile p).length < (c :: cs).length := by
  rw [List.dropWhile_cons_of_pos h, List.length_cons]
  exact Nat.lt_succ_of_le (List.dropWhile_suffix _).length_le

theorem Apart.dropWhile {cs : List Char} (h : Apart cs) (p : Char → Bool) : Apart (cs.dropWhile p) :=
  drop_takeWhile p cs ▸ h.drop _

/-- The scanned tokens of a text, up to a row of digits that is too long, have the tokens of its
characters for a spelling. A number may come first if an expression may begin there. -/
theorem Written.respells {cs : List Char} {opened : Bool} (hcs : Written cs) (hapart : Apart cs)
    (hopened : opened = false → ∀ d ∈ (cs.dropWhile isBlank).head?, isDigit d = false) (pos : Nat) :
    ∃ us, Curtails (LongRow cs) (numbered.scanFrom pos cs) us ∧
      Respells Token.digitPower IsClosing opened us
        ((cs.filter fun c => !isBlank c).map token) := by
  induction hn : cs.length using Nat.strongRecOn generalizing cs opened pos with
  | ind n ih =>
    subst hn
    cases cs with
    | nil => exact ⟨[], .inl rfl, .nil⟩
    | cons c cs =>
      cases hblank : isBlank c with
      | true =>
        rw [Table.scanFrom_dropWhile, ← filter_dropWhile]
        obtain ⟨us, hus, hrespells⟩ := ih _ (length_dropWhile_lt hblank cs)
          (hcs.suffix (List.dropWhile_suffix _)) (hapart.dropWhile isBlank)
          (by rwa [List.dropWhile_idempotent]) _ rfl
        exact ⟨us, hus.mono fun f hf => hf.of_suffix (List.dropWhile_suffix _), hrespells⟩
      | false =>
        cases hdigit : isDigit c with
        | true =>
          have hopen : opened = true := by
            by_contra hclosed
            have hfirst := hopened (Bool.not_eq_true _ ▸ hclosed) c
            rw [List.dropWhile_cons_of_neg (by simp [hblank])] at hfirst
            cases hdigit.symm.trans (hfirst rfl)
          subst hopen
          obtain ⟨hfilter, hnext⟩ := hapart.row hdigit
          obtain ⟨us, hus, hrespells⟩ := ih _ (length_dropWhile_lt hdigit cs)
            (hcs.suffix (List.dropWhile_suffix _)) (hapart.dropWhile isDigit) (fun _ => hnext) _ rfl
          refine ⟨_, hcs.curtails_row hdigit pos hus, ?_⟩
          rw [hfilter, List.map_append]
          exact .operand rfl rfl (hcs.reads_row hdigit) hrespells
        | false =>
          have hmark : c ∈ marks := hcs.mem_marks List.mem_cons_self hblank hdigit
          have hnext : decide (c ≠ ')') = false →
              ∀ d ∈ (cs.dropWhile isBlank).head?, isDigit d = false := by
            intro hclosing
            obtain rfl := of_not_not (of_decide_eq_false hclosing)
            exact hapart.after_closing
          obtain ⟨us, hus, hrespells⟩ := ih _ (Nat.lt_succ_self cs.length)
            (hcs.suffix (List.suffix_cons c cs)) hapart.2 hnext (pos + 1) rfl
          refine ⟨token c :: us, ?_, ?_⟩
          · rw [scanFrom_mark hmark]
            exact (hus.mono fun f hf => hf.of_suffix (List.suffix_cons c cs)).cons _
          · rw [List.filter_cons_of_pos (by simp [hblank]), List.map_cons]
            exact .cons (steady_marks c hmark) (isEnd_marks c hmark)
              (fun h => opens_marks c hmark (of_decide_eq_true h)) hrespells

/-- The characters that are not skipped are those that are no blanks. -/
theorem withoutBlanks_eq_filter {cs : List Char} (h : ∀ c ∈ withoutBlanks cs, c ∈ alphabet) :
    withoutBlanks cs = cs.filter fun c => !isBlank c := by
  have hskip : ∀ c ∈ Table.standardSkip.toList, isBlank c = true := by decide
  have halphabet : ∀ c ∈ alphabet, isBlank c = false := by decide
  refine List.filter_congr fun c hc => ?_
  by_cases hmem : c ∈ Table.standardSkip.toList
  · rw [List.contains_iff_mem.2 hmem, hskip c hmem]
  · have hkept : c ∈ withoutBlanks cs := List.mem_filter.2 ⟨hc, by simpa using hmem⟩
    have hcontains : Table.standardSkip.toList.contains c = false := by simpa using hmem
    rw [hcontains, halphabet c (h c hkept)]

/-- On a text of characters of the table, in which no blanks part two digits and no digit comes next
after a closing bracket, the parse of its characters, digit by digit, and the parse of the lexemes that
are scanned of it return the same tree, or they fail with the same error at different places, and it
says the same but for the place. Otherwise the scan has come to a row of digits that is too long. -/
theorem digit_runs_as_numbers :
    ∃ scanned, Standard.tree.table.extend [] (some (some numberLeaf)) none = .ok scanned ∧
      ∀ (text : String) (strict : Bool), (∀ c ∈ withoutBlanks text.toList, c ∈ alphabet) →
        Apart text.toList →
          (∃ v, Value.Tree Value.IntegerLeaf v ∧
            ((scanned.scan text).parse false strict).result = .ok v ∧
            ((Standard.tree.table.readChars Table.standardSkip text).parse false strict).result =
              .ok v) ∨
          (∃ (e : ParseError) (pos : Int),
            ((scanned.scan text).parse false strict).result = .error (.parse e) ∧
            ((Standard.tree.table.readChars Table.standardSkip text).parse false strict).result =
              .error (.parse (e.moved pos)) ∧
            ∃ before after, e.message = before ++ (toString e.pos ++ after) ∧
              (e.moved pos).message = before ++ (toString pos ++ after)) ∨
          ∃ f, ((scanned.scan text).parse false strict).result = .error (.fault f) ∧
            LongRow text.toList f := by
  refine ⟨numbered, extend_tree, fun text strict htext hapart => ?_⟩
  have hchars := (Standard.supplies_tree.readChars Table.standardSkip text).parse false strict
  have hwritten : Written text.toList := by
    intro c hc hblank
    refine htext c ?_
    rw [withoutBlanks_eq_filter htext]
    exact List.mem_filter.2 ⟨hc, by simp [hblank]⟩
  have hopened : true = false →
      ∀ d ∈ (text.toList.dropWhile isBlank).head?, isDigit d = false := nofun
  obtain ⟨us, hscan, hrespells⟩ := hwritten.respells hapart hopened 0
  have hscan : Curtails (LongRow text.toList) (numbered.scan text) us := hscan
  rcases hscan.parse hrespells.isEnd.1 false strict with hsame | hlong
  · rw [← withoutBlanks_eq_filter htext] at hrespells
    have hanswer := Stream.parse_spelled hrespells (by decide) strict
    rw [Table.readChars, charsFrom_eq htext] at hchars ⊢
    rw [hsame]
    generalize ((Stream.ofTokens us).parse false strict).result = r at hanswer ⊢
    generalize ((Stream.ofTokens _).parse false strict).result = r' at hanswer hchars ⊢
    cases hanswer with
    | ok v => exact .inl ⟨v, hchars, rfl, rfl⟩
    | error e pos =>
      cases e with
      | parse e =>
        obtain ⟨before, after, hmessage⟩ := e.message_moved
        have hplace : e.moved e.pos = e := by cases e <;> rfl
        have hhere := hmessage e.pos
        rw [hplace] at hhere
        exact .inr (.inl ⟨e, pos, rfl, rfl, before, after, hhere, hmessage pos⟩)
      | fault f =>
        obtain ⟨error, he, -⟩ | ⟨f', -, hf⟩ := hchars
        · cases he
        · exact hf.elim
      | spent =>
        obtain ⟨error, he, -⟩ | ⟨f', he, -⟩ := hchars <;> cases he
  · exact .inr (.inr hlong)

/-- Numbers of several digits on both sides of an operator and within brackets. -/
theorem digit_runs_as_numbers_sum :
    (∀ c ∈ withoutBlanks "007 + 12*(45)".toList, c ∈ alphabet) ∧ Apart "007 + 12*(45)".toList ∧
      ((Standard.tree.table.readChars Table.standardSkip "007 + 12*(45)").parse false true).result =
        .ok (.binary (.text "+") (.number (.int 7))
          (.binary (.text "*") (.number (.int 12)) (.number (.int 45)))) ∧
      ((numbered.scan "007 + 12*(45)").parse false true).result =
        .ok (.binary (.text "+") (.number (.int 7))
          (.binary (.text "*") (.number (.int 12)) (.number (.int 45)))) := by
  have htext : ∀ c ∈ withoutBlanks "007 + 12*(45)".toList, c ∈ alphabet := by decide
  have hapart : Apart "007 + 12*(45)".toList := by decide
  have hchars : ((Standard.tree.table.readChars Table.standardSkip "007 + 12*(45)").parse false
      true).result = .ok (.binary (.text "+") (.number (.int 7))
        (.binary (.text "*") (.number (.int 12)) (.number (.int 45)))) := by rfl
  refine ⟨htext, hapart, hchars, ?_⟩
  obtain ⟨scanned, hextend, h⟩ := digit_runs_as_numbers
  cases extend_tree.symm.trans hextend
  rcases h "007 + 12*(45)" true htext hapart with
    ⟨v, -, hscan, hread⟩ | ⟨e, pos, -, hread, -⟩ | ⟨f, -, row, hrow, -, hlong, -⟩
  · cases hread.symm.trans hchars
    exact hscan
  · cases hread.symm.trans hchars
  · have hlength : row.length ≤ 13 := hrow.length_le
    exact absurd (hlong.trans_le hlength) (by decide)

/-- A row of digits is parsed digit by digit as the number that they make, however long it is. -/
theorem parse_row {cs : List Char} (hne : cs ≠ []) (h : ∀ c ∈ cs, c ∈ digits.map (·.1))
    (strict : Bool) :
    ((Standard.tree.table.readChars Table.standardSkip (.ofList cs)).parse false strict).result =
      .ok (.number (.int (Number.digitsValue cs))) := by
  have hdigits : ∀ c ∈ digits.map (·.1), c ∈ alphabet ∧ c ∉ Table.standardSkip.toList := by decide
  have hkept : withoutBlanks cs = cs :=
    List.filter_eq_self.2 fun c hc => by simpa using (hdigits c (h c hc)).2
  have htext : ∀ c ∈ withoutBlanks (String.ofList cs).toList, c ∈ alphabet := by
    rw [String.toList_ofList, hkept]
    exact fun c hc => (hdigits c (h c hc)).1
  have hspelled : Respells Token.digitPower IsClosing true [rowToken cs] (cs.map token ++ []) :=
    .operand rfl rfl (reads_digits hne h) .nil
  have hanswer := Stream.parse_spelled hspelled (by decide) strict
  have hrow : ((Stream.ofTokens [rowToken cs]).parse false strict).result =
      .ok (.number (.int (Number.digitsValue cs))) := by
    cases strict <;> rfl
  rw [Table.readChars, charsFrom_eq htext, String.toList_ofList, hkept, ← List.append_nil (cs.map token)]
  rw [hrow] at hanswer
  generalize ((Stream.ofTokens (cs.map token ++ [])).parse false strict).result = r at hanswer ⊢
  cases hanswer
  rfl

theorem longRow_digits : ∀ c ∈ Number.longRow, c ∈ digits.map (·.1) := by
  have hone : '1' ∈ digits.map (·.1) := by decide
  exact fun c hc => Number.eq_of_mem_longRow hc ▸ hone

/-- A row that is too long to be scanned is parsed digit by digit all the same. -/
theorem long_row_not_scanned :
    (∀ c ∈ withoutBlanks (String.ofList Number.longRow).toList, c ∈ alphabet) ∧
      Apart (String.ofList Number.longRow).toList ∧
      ((numbered.scan (.ofList Number.longRow)).parse false false).result =
        .error (.fault (.longNumeral (digitLimit + 1))) ∧
      ((Standard.tree.table.readChars Table.standardSkip (.ofList Number.longRow)).parse false
        false).result = .ok (.number (.int (Number.digitsValue Number.longRow))) := by
  have htext : ∀ c ∈ withoutBlanks (String.ofList Number.longRow).toList, c ∈ alphabet := by
    have hone : '1' ∈ alphabet := by decide
    intro c hc
    rw [String.toList_ofList] at hc
    exact Number.eq_of_mem_longRow (List.mem_filter.1 hc).1 ▸ hone
  have hfault : numberLeaf (.ofList Number.longRow) = .error (.longNumeral (digitLimit + 1)) := by
    rw [numberLeaf, numeralValue_longRow]
    rfl
  have hnumber : numbered.number = some numberLeaf := rfl
  refine ⟨htext, ?_, by rw [numbered.scan_longRow hnumber hfault]; rfl, parse_row Number.longRow_ne_nil longRow_digits false⟩
  rw [String.toList_ofList]
  exact apart_of_digits Number.isDigit_longRow

end BindingPower.TreeGrammar
