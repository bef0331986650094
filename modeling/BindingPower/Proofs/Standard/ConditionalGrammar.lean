import BindingPower.Proofs.Standard.Operators
import Mathlib.Logic.Function.Iterate

/-! The grammar of conditional expressions, level by level, and that a strict run with the table that
builds their trees derives exactly what the grammar does. -/
namespace BindingPower.ConditionalGrammar
open Standard (signs factors)

/-- The levels of the grammar, loosest first. -/
inductive Rank where
  | expression
  | comparison
  | sum
  | product
  | power
  | unary
  | atom
deriving DecidableEq

/-- The token of a lexeme. -/
abbrev token (lexeme : String) : Token Value := Standard.conditionalTree.token lexeme

def relations : List String := ["==", "!=", "<", "<=", ">", ">="]

/-- Which tokens derive which tree at a level. Comparisons do not chain, powers and choices group to
the right, and an `else` may be left out. -/
inductive Derives : Rank → List (Token Value) → Value → Prop where
  | ofComparison {ts v} (h : Derives .comparison ts v) : Derives .expression ts v
  | choice {cs ys ns c y n} (hc : Derives .comparison cs c) (hy : Derives .expression ys y)
      (hn : Derives .expression ns n) :
      Derives .expression (cs ++ token "?" :: (ys ++ token ":" :: ns)) (.choice c y n)
  | ofSum {ts v} (h : Derives .sum ts v) : Derives .comparison ts v
  | compare {op xs ys x y} (ho : op ∈ relations) (hx : Derives .sum xs x) (hy : Derives .sum ys y) :
      Derives .comparison (xs ++ token op :: ys) (.binary (.text op) x y)
  | ofProduct {ts v} (h : Derives .product ts v) : Derives .sum ts v
  | add {op xs ys x y} (ho : op ∈ signs) (hx : Derives .sum xs x) (hy : Derives .product ys y) :
      Derives .sum (xs ++ token op :: ys) (.binary (.text op) x y)
  | ofPower {ts v} (h : Derives .power ts v) : Derives .product ts v
  | multiply {op xs ys x y} (ho : op ∈ factors) (hx : Derives .product xs x)
      (hy : Derives .power ys y) :
      Derives .product (xs ++ token op :: ys) (.binary (.text op) x y)
  | ofUnary {ts v} (h : Derives .unary ts v) : Derives .power ts v
  | raise {xs ys x y} (hx : Derives .unary xs x) (hy : Derives .power ys y) :
      Derives .power (xs ++ token "^" :: ys) (.binary (.text "^") x y)
  | ofAtom {ts v} (h : Derives .atom ts v) : Derives .unary ts v
  | sign {op xs x} (ho : op ∈ signs) (hx : Derives .unary xs x) :
      Derives .unary (token op :: xs) (.unary (.text op) x)
  | number {text n} (h : numeralValue text = .ok n) :
      Derives .atom [literalOf text (.number n)] (.number n)
  | name (word) : Derives .atom [literalOf word (.name (.text word))] (.name (.text word))
  | group {xs x} (hx : Derives .expression xs x) :
      Derives .atom (token "(" :: (xs ++ [token ")"])) x
  | conditional {cs ys c y} (hc : Derives .expression cs c) (hy : Derives .expression ys y) :
      Derives .atom (token "if" :: (cs ++ token "then" :: (ys ++ [token "end"])))
        (.choice c y .absent)
  | alternative {cs ys ns c y n} (hc : Derives .expression cs c) (hy : Derives .expression ys y)
      (hn : Derives .expression ns n) :
      Derives .atom
        (token "if" :: (cs ++ token "then" :: (ys ++ token "else" :: (ns ++ [token "end"]))))
        (.choice c y n)

namespace Rank

/-- No operator on the left spine of a tree of this level binds as little. -/
def low : Rank → Int
  | expression => 4
  | comparison => 9
  | sum => 19
  | product => 29
  | power => 39
  | unary | atom => 1000

/-- No operand on the right spine of a tree of this level reaches further. -/
def high : Rank → Int
  | expression => 4
  | comparison => 10
  | sum => 20
  | product => 30
  | power => 39
  | unary | atom => 1000

/-- The least power of the operator on top of a tree of this level. -/
def bound : Rank → Int
  | expression => 0
  | comparison => 6
  | sum => 11
  | product => 21
  | power => 31
  | unary => 41
  | atom => 1001

/-- The next looser level. -/
def looser : Rank → Rank
  | expression | comparison => expression
  | sum => comparison
  | product => sum
  | power => product
  | unary => power
  | atom => unary

end Rank

theorem buildsTrees : Standard.conditionalTree.BuildsTrees := .inr rfl

private theorem binds_relations : ∀ op ∈ relations, (token op).Binds op 10 .none := by
  simp only [relations, List.forall_mem_cons]
  exact ⟨⟨rfl, rfl, fun _ _ => rfl⟩, ⟨rfl, rfl, fun _ _ => rfl⟩, ⟨rfl, rfl, fun _ _ => rfl⟩,
    ⟨rfl, rfl, fun _ _ => rfl⟩, ⟨rfl, rfl, fun _ _ => rfl⟩, ⟨rfl, rfl, fun _ _ => rfl⟩,
    List.forall_mem_nil _⟩

/-- Every derivation is that of a tree with its spines within the bounds of the level. -/
theorem Derives.spelled {r : Rank} {ts : List (Token Value)} {v : Value} (h : Derives r ts v) :
    Spelled id r.low r.high ts v := by
  induction h with
  | ofComparison _ ih | ofSum _ ih | ofProduct _ ih | ofPower _ ih | ofUnary _ ih | ofAtom _ ih =>
    exact ih.mono (by decide) (by decide)
  | choice _ _ _ ihc ihy ihn =>
    exact ihc.ternary (n := ":") ihy ihn rfl ⟨rfl, rfl⟩ (by decide) rfl
  | compare ho _ _ ihx ihy => exact ihx.binary ihy (binds_relations _ ho) (by decide)
  | add ho _ _ ihx ihy => exact ihx.binary ihy (Standard.binds_signs buildsTrees _ ho) (by decide)
  | multiply ho _ _ ihx ihy =>
    exact ihx.binary ihy (Standard.binds_factors buildsTrees _ ho) (by decide)
  | raise _ _ ihx ihy => exact ihx.binary ihy (Standard.binds_power buildsTrees) (by decide)
  | sign ho _ ih =>
    exact ih.sign (Standard.signs_signs buildsTrees _ ho) (by decide) (by decide) (by decide)
  | number h => exact .leaf rfl rfl
  | name word => exact .leaf rfl rfl
  | group _ ih => exact ih.grouped (n := ")") rfl ⟨rfl, rfl⟩ rfl
  | conditional _ _ ihc ihy =>
    exact ihc.conditional (a := "then") (b := "else") (c := "end") ihy rfl ⟨rfl, rfl⟩ ⟨rfl, rfl⟩ rfl
  | alternative _ _ _ ihc ihy ihn =>
    exact ihc.alternative (a := "then") (b := "else") (c := "end") ihy ihn rfl ⟨rfl, rfl⟩ ⟨rfl, rfl⟩
      ⟨rfl, rfl⟩ rfl

/-- What an entry of the table is, by its shape. -/
theorem infix_entries : ∀ e ∈ Standard.conditionalTree.entries, e.2.shape.assoc.isSome = true →
    e.1 ∈ relations ∨ e.1 ∈ signs ∨ e.1 ∈ factors ∨ e.1 = "^" := by
  decide

private theorem prefix_entries : ∀ e ∈ Standard.conditionalTree.entries, e.2.shape.isPrefix = true →
    e.1 ∈ signs := by
  decide

private theorem marked_entries : ∀ e ∈ Standard.conditionalTree.entries, e.2.shape.marks = [] ∨
    e.1 = "(" ∧ e.2.shape.form = .group ")" ∨ e.1 = "?" ∧ e.2.shape.form = .ternary ":" ∨
    e.1 = "if" ∧ e.2.shape.form = .conditional "then" "else" "end" := by
  decide

private theorem plain_entries : ∀ e ∈ Standard.conditionalTree.entries,
    e.2.shape.isOperand = false ∧ e.2.shape.isSuffix = false := by
  decide

theorem Derives.toLooser {r : Rank} {ts : List (Token Value)} {v : Value} (h : Derives r ts v) :
    Derives r.looser ts v := by
  cases r with
  | expression => exact h
  | comparison => exact h.ofComparison
  | sum => exact h.ofSum
  | product => exact h.ofProduct
  | power => exact h.ofPower
  | unary => exact h.ofUnary
  | atom => exact h.ofAtom

/-- What is derived at a level is derived at every looser one. -/
theorem Derives.lift {r q : Rank} {ts : List (Token Value)} {v : Value} (h : Derives r ts v)
    (hq : q.bound ≤ r.bound) : Derives q ts v := by
  have hn : Rank.looser^[r.ctorIdx - q.ctorIdx] r = q := by
    revert hq
    cases r <;> cases q <;> decide
  rw [← hn]
  exact Function.Iterate.rec (Derives · ts v) h (fun _ h => h.toLooser) _

private theorem lifts_relations : ∀ op ∈ relations, ∀ e ∈ Standard.conditionalTree.entries,
    e.2.shape.Lifts (token op).shape Rank.sum.bound := by
  decide

theorem lifts_signs : ∀ op ∈ signs, ∀ e ∈ Standard.conditionalTree.entries,
    e.2.shape.Lifts (token op).shape Rank.sum.bound := by
  decide

theorem lifts_factors : ∀ op ∈ factors, ∀ e ∈ Standard.conditionalTree.entries,
    e.2.shape.Lifts (token op).shape Rank.product.bound := by
  decide

theorem lifts_power : ∀ e ∈ Standard.conditionalTree.entries,
    e.2.shape.Lifts (token "^").shape Rank.unary.bound := by
  decide

private theorem lifts_choice : ∀ e ∈ Standard.conditionalTree.entries,
    e.2.shape.Lifts (token "?").shape Rank.comparison.bound := by
  decide

variable {x : ParseTree (Token Value)} {v : Value}

/-- A token that demands delimiters is the table's only one of its form. -/
private theorem marked_cases {t : Token Value} (ht : Standard.conditionalTree.Draws t)
    (hm : t.shape.marks ≠ []) :
    t = token "(" ∧ t.shape.form = .group ")" ∨ t = token "?" ∧ t.shape.form = .ternary ":" ∨
      t = token "if" ∧ t.shape.form = .conditional "then" "else" "end" := by
  have hf : t.shape.form ≠ .literal := fun h => hm (by simp [Shape.marks, h])
  obtain ⟨lexeme, he, rfl⟩ := ht.eq_token buildsTrees hf
  rcases marked_entries _ he with h | ⟨rfl, h⟩ | ⟨rfl, h⟩ | ⟨rfl, h⟩
  · exact absurd h hm
  · exact .inl ⟨rfl, h⟩
  · exact .inr (.inl ⟨rfl, h⟩)
  · exact .inr (.inr ⟨rfl, h⟩)

private theorem eq_group {t : Token Value} (ht : Standard.conditionalTree.Draws t) {m : String}
    (h : t.shape.form = .group m) : t = token "(" ∧ m = ")" := by
  rcases marked_cases ht (by simp [Shape.marks, h]) with ⟨ht, h'⟩ | ⟨-, h'⟩ | ⟨-, h'⟩
  · exact ⟨ht, Form.group.inj (h.symm.trans h')⟩
  · cases h.symm.trans h'
  · cases h.symm.trans h'

private theorem eq_ternary {t : Token Value} (ht : Standard.conditionalTree.Draws t) {m : String}
    (h : t.shape.form = .ternary m) : t = token "?" ∧ m = ":" := by
  rcases marked_cases ht (by simp [Shape.marks, h]) with ⟨-, h'⟩ | ⟨ht, h'⟩ | ⟨-, h'⟩
  · cases h.symm.trans h'
  · exact ⟨ht, Form.ternary.inj (h.symm.trans h')⟩
  · cases h.symm.trans h'

private theorem eq_conditional {t : Token Value} (ht : Standard.conditionalTree.Draws t) {a b c : String}
    (h : t.shape.form = .conditional a b c) :
    t = token "if" ∧ a = "then" ∧ b = "else" ∧ c = "end" := by
  rcases marked_cases ht (by simp [Shape.marks, h]) with ⟨-, h'⟩ | ⟨-, h'⟩ | ⟨ht, h'⟩
  · cases h.symm.trans h'
  · cases h.symm.trans h'
  · exact ⟨ht, Form.conditional.inj (h.symm.trans h')⟩

/-- The correct trees over tokens of the table are derived at every level that the operator on top is
tight enough for. -/
def Derivable (x : ParseTree (Token Value)) : Prop :=
  ∀ v r, (∀ t ∈ x.yield, Standard.conditionalTree.Draws t) → x.WellFormed (shapes id) →
    x.PrecedenceCorrect (shapes id) → x.value? id = some v →
    x.Tight (shapes id) (Rank.bound r) → Derives r x.yield v

theorem derivable_leaf (t : Token Value) : Derivable (.leaf t) := by
  intro v r hmem hwf _ hv _
  have ht := hmem t List.mem_cons_self
  rcases ht.entry_or_literal buildsTrees with ⟨lexeme, h⟩ | ⟨-, text, w, rfl, -, hw⟩
  · cases (plain_entries _ h).1.symm.trans hwf
  · obtain rfl : w = v := Option.some.inj hv
    have hatom : Derives .atom [literalOf text w] w := by
      rcases hw with ⟨n, hn, rfl⟩ | rfl
      · exact .number hn
      · exact .name text
    exact hatom.lift (by cases r <;> decide)

theorem derivable_prefixed (t : Token Value) (hx : Derivable x) : Derivable (.prefixed t x) := by
  intro v r hmem hwf hpc hv hr
  obtain ⟨ht, hmemx⟩ := List.forall_mem_cons.1 hmem
  have hprefix : t.shape.isPrefix = true := hwf.1
  have hf : t.shape.form ≠ .literal := fun h => absurd hprefix (by simp [Shape.isPrefix, h])
  obtain ⟨op, he, rfl⟩ := ht.eq_token buildsTrees hf
  have hop := prefix_entries _ he hprefix
  have hsign : (token op).Signs op := Standard.signs_signs buildsTrees op hop
  obtain ⟨htight, w, hw, rfl⟩ := Standard.prefixed_operand (q := Rank.unary.bound) buildsTrees hmem
    hwf hpc hv hsign (by decide)
  have hr : r.bound ≤ (shapes id (token op)).prefixPower := hr
  have hpower : (shapes id (token op)).prefixPower = Token.prefixPower := hsign.power
  rw [hpower] at hr
  exact (Derives.sign hop (hx w .unary hmemx hwf.2 hpc.1 hw htight)).lift
    (by revert hr; cases r <;> decide)

/-- No token of the table follows its only operand. -/
theorem derivable_postfixed (t : Token Value) : Derivable (.postfixed t x) := by
  intro v r hmem hwf _ _ _
  have ht := hmem t (List.mem_append_right _ List.mem_cons_self)
  have hsuffix : t.shape.isSuffix = false :=
    ht.shape_induction buildsTrees (P := fun s => s.isSuffix = false)
      (fun e he => (plain_entries e he).2) fun _ => rfl
  cases hsuffix.symm.trans hwf.1

variable {y z : ParseTree (Token Value)}

theorem derivable_infixed (t : Token Value) (hx : Derivable x) (hy : Derivable y) :
    Derivable (.infixed t x y) := by
  intro v r hmem hwf hpc hv hr
  obtain ⟨hmemx, hmem'⟩ := List.forall_mem_append.1 hmem
  obtain ⟨ht, hmemy⟩ := List.forall_mem_cons.1 hmem'
  have hassoc : t.shape.assoc.isSome = true := hwf.1
  have hf : t.shape.form ≠ .literal := fun h => absurd hassoc (by simp [Shape.assoc, h])
  obtain ⟨op, he, rfl⟩ := ht.eq_token buildsTrees hf
  -- Each operator takes operands of two levels and makes an expression of a third.
  have node {q₁ q₂ q : Rank} {p : Int} {a : Assoc} (hb : (token op).Binds op p a)
      (hl : ∀ e ∈ Standard.conditionalTree.entries, e.2.shape.Lifts (token op).shape q₁.bound)
      (hq₂ : q₂.bound ≤ rightPower p a + 1 ∧ q₂.bound ≤ Token.prefixPower)
      (hq : r.bound ≤ p → r.bound ≤ q.bound)
      (h : ∀ {u w}, Derives q₁ x.yield u → Derives q₂ y.yield w →
        Derives q (x.yield ++ token op :: y.yield) (.binary (.text op) u w)) :
      Derives r (x.yield ++ token op :: y.yield) v := by
    obtain ⟨htx, hty, u, w, hu, hw, rfl⟩ :=
      Standard.infixed_operands buildsTrees hmem hwf hpc hv hb hl hq₂.1 hq₂.2
    have hr : r.bound ≤ (token op).lbp := hr
    rw [hb.lbp] at hr
    exact (h (hx u q₁ hmemx hwf.2.1 hpc.1 hu htx) (hy w q₂ hmemy hwf.2.2 hpc.2.1 hw hty)).lift
      (hq hr)
  rcases infix_entries _ he hassoc with hop | hop | hop | rfl
  · exact node (binds_relations op hop) (lifts_relations op hop) (by decide)
      (by cases r <;> decide) (.compare hop)
  · exact node (Standard.binds_signs buildsTrees op hop) (lifts_signs op hop) (by decide)
      (by cases r <;> decide) (.add hop)
  · exact node (Standard.binds_factors buildsTrees op hop) (lifts_factors op hop) (by decide)
      (by cases r <;> decide) (.multiply hop)
  · exact node (Standard.binds_power buildsTrees) lifts_power (by decide) (by cases r <;> decide)
      .raise

theorem derivable_grouped (t d : Token Value) (hx : Derivable x) : Derivable (.grouped t x d) := by
  intro v r hmem hwf hpc hv _
  obtain ⟨ht, hmem⟩ := List.forall_mem_cons.1 hmem
  obtain ⟨hmemx, hclose⟩ := List.forall_mem_append.1 hmem
  obtain ⟨⟨m, hm, hd⟩, hwfx⟩ := hwf
  obtain ⟨w, hw, hfn⟩ := Option.bind_eq_some_iff.1 hv
  obtain ⟨rfl, rfl⟩ := eq_group ht hm
  obtain rfl := (hclose d List.mem_cons_self).eq_delimiter buildsTrees hd
  obtain rfl : w = v := Option.some.inj hfn
  have hatom := Derives.group (hx w _ hmemx hwfx hpc hw (Standard.tight_zero buildsTrees hmemx))
  exact hatom.lift (by cases r <;> decide)

private theorem derivable_ternary (t d : Token Value) (hx : Derivable x) (hy : Derivable y)
    (hz : Derivable z) : Derivable (.ternary t x y d z) := by
  intro v r hmem hwf hpc hv hr
  obtain ⟨hmemx, hmem⟩ := List.forall_mem_append.1 hmem
  obtain ⟨ht, hmem⟩ := List.forall_mem_cons.1 hmem
  obtain ⟨hmemy, hmem⟩ := List.forall_mem_append.1 hmem
  obtain ⟨hcolon, hmemz⟩ := List.forall_mem_cons.1 hmem
  obtain ⟨⟨m, hm, hd⟩, hwfx, hwfy, hwfz⟩ := hwf
  obtain ⟨hpcx, hpcy, hpcz, hprec, -⟩ := hpc
  obtain ⟨a, ha, hv⟩ := Option.bind_eq_some_iff.1 hv
  obtain ⟨b, hb, hv⟩ := Option.bind_eq_some_iff.1 hv
  obtain ⟨c, hc, hfn⟩ := Option.bind_eq_some_iff.1 hv
  obtain ⟨rfl, rfl⟩ := eq_ternary ht hm
  obtain rfl := hcolon.eq_delimiter buildsTrees hd
  obtain rfl : .choice a b c = v := Option.some.inj hfn
  have hr : r.bound ≤ 5 := hr
  have hchoice := Derives.choice
    (hx a .comparison hmemx hwfx hpcx ha
      (Standard.tight_of_precedes buildsTrees hmemx hwfx lifts_choice hprec))
    (hy b _ hmemy hwfy hpcy hb (Standard.tight_zero buildsTrees hmemy))
    (hz c _ hmemz hwfz hpcz hc (Standard.tight_zero buildsTrees hmemz))
  exact hchoice.lift (by revert hr; cases r <;> decide)

private theorem derivable_conditional (t d e : Token Value) (hx : Derivable x) (hy : Derivable y) :
    Derivable (.conditional t x d y e) := by
  intro v r hmem hwf hpc hv _
  obtain ⟨ht, hmem⟩ := List.forall_mem_cons.1 hmem
  obtain ⟨hmemx, hmem⟩ := List.forall_mem_append.1 hmem
  obtain ⟨hthen, hmem⟩ := List.forall_mem_cons.1 hmem
  obtain ⟨hmemy, hend⟩ := List.forall_mem_append.1 hmem
  obtain ⟨⟨m, n, o, hm, hd, he⟩, hwfx, hwfy⟩ := hwf
  obtain ⟨a, ha, hv⟩ := Option.bind_eq_some_iff.1 hv
  obtain ⟨b, hb, hfn⟩ := Option.bind_eq_some_iff.1 hv
  obtain ⟨rfl, rfl, rfl, rfl⟩ := eq_conditional ht hm
  obtain rfl := hthen.eq_delimiter buildsTrees hd
  obtain rfl := (hend e List.mem_cons_self).eq_delimiter buildsTrees he
  obtain rfl : .choice a b .absent = v := Option.some.inj hfn
  have hatom := Derives.conditional (hx a _ hmemx hwfx hpc.1 ha (Standard.tight_zero buildsTrees hmemx))
    (hy b _ hmemy hwfy hpc.2 hb (Standard.tight_zero buildsTrees hmemy))
  exact hatom.lift (by cases r <;> decide)

private theorem derivable_alternative (t d m e : Token Value) (hx : Derivable x) (hy : Derivable y)
    (hz : Derivable z) : Derivable (.alternative t x d y m z e) := by
  intro v r hmem hwf hpc hv _
  obtain ⟨ht, hmem⟩ := List.forall_mem_cons.1 hmem
  obtain ⟨hmemx, hmem⟩ := List.forall_mem_append.1 hmem
  obtain ⟨hthen, hmem⟩ := List.forall_mem_cons.1 hmem
  obtain ⟨hmemy, hmem⟩ := List.forall_mem_append.1 hmem
  obtain ⟨helse, hmem⟩ := List.forall_mem_cons.1 hmem
  obtain ⟨hmemz, hend⟩ := List.forall_mem_append.1 hmem
  obtain ⟨⟨n, o, p, hn, hd, hm, he⟩, hwfx, hwfy, hwfz⟩ := hwf
  obtain ⟨a, ha, hv⟩ := Option.bind_eq_some_iff.1 hv
  obtain ⟨b, hb, hv⟩ := Option.bind_eq_some_iff.1 hv
  obtain ⟨c, hc, hfn⟩ := Option.bind_eq_some_iff.1 hv
  obtain ⟨rfl, rfl, rfl, rfl⟩ := eq_conditional ht hn
  obtain rfl := hthen.eq_delimiter buildsTrees hd
  obtain rfl := helse.eq_delimiter buildsTrees hm
  obtain rfl := (hend e List.mem_cons_self).eq_delimiter buildsTrees he
  obtain rfl : .choice a b c = v := Option.some.inj hfn
  have hatom := Derives.alternative (hx a _ hmemx hwfx hpc.1 ha (Standard.tight_zero buildsTrees hmemx))
    (hy b _ hmemy hwfy hpc.2.1 hb (Standard.tight_zero buildsTrees hmemy))
    (hz c _ hmemz hwfz hpc.2.2 hc (Standard.tight_zero buildsTrees hmemz))
  exact hatom.lift (by cases r <;> decide)

theorem derivable (x : ParseTree (Token Value)) : Derivable x := by
  induction x with
  | leaf t => exact derivable_leaf t
  | prefixed t x ih => exact derivable_prefixed t ih
  | postfixed t x => exact derivable_postfixed t
  | infixed t x y ihx ihy => exact derivable_infixed t ihx ihy
  | grouped t x d ih => exact derivable_grouped t d ih
  | ternary t x y d z ihx ihy ihz => exact derivable_ternary t d ihx ihy ihz
  | conditional t x d y e ihx ihy => exact derivable_conditional t d e ihx ihy
  | alternative t x d y m z e ihx ihy ihz => exact derivable_alternative t d m e ihx ihy ihz

/-- On tokens that the table makes of texts, a strict run returns the tree that the grammar derives,
and fails with a parse error if there is none. There is never a second tree. -/
theorem parse_iff_derives {ts : List (Token Value)}
    (hts : ∀ t ∈ ts, Standard.conditionalTree.Draws t) :
    (∀ v, ((Stream.ofTokens ts).parse false true).result = .ok v ↔ Derives .expression ts v) ∧
      ((∀ v, ¬ Derives .expression ts v) →
        ∃ e, ((Stream.ofTokens ts).parse false true).result = .error (.parse e)) ∧
      ∀ v w, Derives .expression ts v → Derives .expression ts w → v = w := by
  have h (v : Value) :
      ((Stream.ofTokens ts).parse false true).result = .ok v ↔ Derives .expression ts v := by
    have hiff := (Standard.vocabulary buildsTrees).parse_eq_ok_iff hts (v := v)
    rw [List.map_id] at hiff
    rw [hiff]
    constructor
    · rintro ⟨x, rfl, hwf, hpc, hv⟩
      exact derivable x v .expression hts hwf hpc hv (Standard.tight_zero buildsTrees hts)
    · intro h
      obtain ⟨x, hx⟩ := h.spelled
      exact ⟨x, hx.yield, hx.wellFormed, hx.correct, hx.value⟩
  refine ⟨h, fun hno => ?_, fun v w hv hw => ?_⟩
  · rcases Standard.accepted_or_error buildsTrees hts with ⟨v, hv⟩ | herror
    · exact absurd ((h v).1 hv) (hno v)
    · exact herror
  · exact Except.ok.inj (((h v).2 hv).symm.trans ((h w).2 hw))

/-- An omitted `else` leaves the choice without an otherwise. -/
theorem parse_without_else :
    ((Stream.ofTokens [token "if", literalOf "x" (.name (.text "x")), token "then",
      literalOf "y" (.name (.text "y")), token "end"]).parse false true).result =
      .ok (.choice (.name (.text "x")) (.name (.text "y")) .absent) := by
  have hx : Standard.conditionalTree.Draws (literalOf "x" (.name (.text "x"))) := by
    have hword : Lexer.wordPart ['x'] ≠ [] := by decide
    exact .name rfl hword (by decide) rfl
  have hy : Standard.conditionalTree.Draws (literalOf "y" (.name (.text "y"))) := by
    have hword : Lexer.wordPart ['y'] ≠ [] := by decide
    exact .name rfl hword (by decide) rfl
  refine ((parse_iff_derives ?_).1 _).2 ?_
  · simp only [List.forall_mem_cons]
    exact ⟨Standard.draws_token (by decide), hx, Standard.draws_token (by decide), hy,
      Standard.draws_token (by decide), List.forall_mem_nil _⟩
  · have hatom := Derives.conditional ((Derives.name "x").lift (by decide))
      ((Derives.name "y").lift (by decide))
    exact hatom.lift (by decide)

end BindingPower.ConditionalGrammar
