import BindingPower.Proofs.Standard.Operators
import Mathlib.Logic.Function.Iterate

/-! The grammar of arithmetic on digits, level by level, and that a strict run on the characters of a
text, with the table that builds trees of them, derives exactly what the grammar does. -/
namespace BindingPower.TreeGrammar

/-- The levels of the grammar, loosest first. -/
inductive Rank where
  | equation
  | sum
  | product
  | power
  | unary
  | numeral
  | atom
deriving DecidableEq

def signs : List Char := ['+', '-']

def factors : List Char := ['*', '/']

def digits : List (Char × Nat) := ['0', '1', '2', '3', '4', '5', '6', '7', '8', '9'].zipIdx

/-- Which characters derive which tree at a level. A digit after a number is one more place of it,
also where the number is in brackets. -/
inductive Derives : Rank → List Char → Value → Prop where
  | ofSum {cs v} (h : Derives .sum cs v) : Derives .equation cs v
  | equate {xs ys x y} (hx : Derives .equation xs x) (hy : Derives .sum ys y) :
      Derives .equation (xs ++ '=' :: ys) (.binary (.text "=") x y)
  | ofProduct {cs v} (h : Derives .product cs v) : Derives .sum cs v
  | add {c xs ys x y} (hc : c ∈ signs) (hx : Derives .sum xs x) (hy : Derives .product ys y) :
      Derives .sum (xs ++ c :: ys) (.binary (.text (.singleton c)) x y)
  | ofPower {cs v} (h : Derives .power cs v) : Derives .product cs v
  | multiply {c xs ys x y} (hc : c ∈ factors) (hx : Derives .product xs x)
      (hy : Derives .power ys y) :
      Derives .product (xs ++ c :: ys) (.binary (.text (.singleton c)) x y)
  | ofUnary {cs v} (h : Derives .unary cs v) : Derives .power cs v
  | raise {xs ys x y} (hx : Derives .unary xs x) (hy : Derives .power ys y) :
      Derives .power (xs ++ '^' :: ys) (.binary (.text "^") x y)
  | ofNumeral {cs v} (h : Derives .numeral cs v) : Derives .unary cs v
  | sign {c xs x} (hc : c ∈ signs) (hx : Derives .unary xs x) :
      Derives .unary (c :: xs) (.unary (.text (.singleton c)) x)
  | ofAtom {cs v} (h : Derives .atom cs v) : Derives .numeral cs v
  | extend {c d cs n} (hd : (c, d) ∈ digits) (h : Derives .numeral cs (.number (.int n))) :
      Derives .numeral (cs ++ [c]) (.number (.int (n * 10 + d)))
  | digit {c d} (hd : (c, d) ∈ digits) : Derives .atom [c] (.number (.int d))
  | group {xs x} (hx : Derives .equation xs x) : Derives .atom ('(' :: (xs ++ [')'])) x

namespace Rank

/-- No operator on the left spine of a tree of this level binds as little. -/
def low : Rank → Int
  | equation => 9
  | sum => 19
  | product => 29
  | power => 39
  | unary => 1000
  | numeral | atom => 999999

/-- No operand on the right spine of a tree of this level reaches further. -/
def high : Rank → Int
  | equation => 10
  | sum => 20
  | product => 30
  | power => 39
  | unary => 1000
  | numeral | atom => 1000000

/-- The least power of the operator on top of a tree of this level. -/
def bound : Rank → Int
  | equation => 0
  | sum => 11
  | product => 21
  | power => 31
  | unary => 41
  | numeral => 1001
  | atom => 1000001

/-- The next looser level. -/
def looser : Rank → Rank
  | equation | sum => equation
  | product => sum
  | power => product
  | unary => power
  | numeral => unary
  | atom => numeral

end Rank

theorem buildsTrees : Standard.tree.BuildsTrees := .inl rfl

/-- The characters of the table. -/
def alphabet : List Char := ['(', ')', '=', '^'] ++ signs ++ factors ++ digits.map (·.1)

/-- What holds of the characters of a list is decided on the list, not on every character. -/
local instance (priority := 2000) decidableForallMem (p : Char → Prop) [DecidablePred p]
    (cs : List Char) : Decidable (∀ c ∈ cs, p c) := List.decidableBAll p cs

/-- The token of a character. -/
abbrev token (c : Char) : Token Value := Standard.tree.token (.singleton c)

private theorem lookup_alphabet {c : Char} (h : c ∈ alphabet) :
    (Standard.tree.table.lookup (.singleton c)).isSome = true := by
  revert c
  decide

theorem draws_alphabet {c : Char} (h : c ∈ alphabet) : Standard.tree.Draws (token c) :=
  Standard.draws_token (lookup_alphabet h)

theorem mem_alphabet {c : Char} {t : Token Value}
    (h : Standard.tree.table.lookup (.singleton c) = some t) : c ∈ alphabet := by
  have hkeys : ∀ e ∈ Standard.tree.entries, e.1 ∈ alphabet.map String.singleton := by decide
  obtain ⟨l₁, l₂, hl, -⟩ := List.lookup_eq_some_iff.1 h
  have hmem : (String.singleton c, t) ∈ Standard.tree.table.entries :=
    hl ▸ List.mem_append_right l₁ List.mem_cons_self
  obtain ⟨d, hd, he⟩ := List.mem_map.1 (hkeys _ hmem)
  have hlist : [d] = [c] := by simpa only [String.toList_singleton] using congrArg String.toList he
  obtain rfl : d = c := List.singleton_inj.1 hlist
  exact hd

theorem vocabulary : Vocabulary token (· ∈ alphabet) :=
  (Standard.vocabulary buildsTrees).comp fun _ hc => draws_alphabet hc

private theorem binds_equal : (token '=').Binds "=" 10 .left := ⟨rfl, rfl, fun _ _ => rfl⟩

theorem binds_signs {c : Char} (h : c ∈ signs) : (token c).Binds (.singleton c) 20 .left :=
  have hsigns : ∀ c ∈ signs, String.singleton c ∈ Standard.signs := by decide
  Standard.binds_signs buildsTrees _ (hsigns c h)

theorem signs_signs {c : Char} (h : c ∈ signs) : (token c).Signs (.singleton c) :=
  have hsigns : ∀ c ∈ signs, String.singleton c ∈ Standard.signs := by decide
  Standard.signs_signs buildsTrees _ (hsigns c h)

theorem binds_factors {c : Char} (h : c ∈ factors) : (token c).Binds (.singleton c) 30 .left :=
  have hfactors : ∀ c ∈ factors, String.singleton c ∈ Standard.factors := by decide
  Standard.binds_factors buildsTrees _ (hfactors c h)

theorem binds_power : (token '^').Binds "^" 40 .right := Standard.binds_power buildsTrees

theorem kind_digits : ∀ e ∈ digits, (token e.1).kind =
    .digit e.2 Making.node.apply Extension.node.apply Joining.toNumbers.apply := by
  simp only [digits, List.zipIdx_cons, List.zipIdx_nil, List.forall_mem_cons]
  exact ⟨rfl, rfl, rfl, rfl, rfl, rfl, rfl, rfl, rfl, rfl, List.forall_mem_nil _⟩

theorem shape_digits : ∀ e ∈ digits, (token e.1).shape.isOperand = true ∧
    (token e.1).shape.isSuffix = true ∧ (token e.1).lbp = 1000000 := by
  decide

private theorem startValue?_digit {c : Char} {d : Nat} (h : (c, d) ∈ digits) :
    (token c).kind.startValue? = some (.number (.int d)) := by
  rw [kind_digits _ h]
  rfl

/-- A digit joins numbers and nothing else. -/
theorem suffixValue?_digit {c : Char} {d : Nat} (h : (c, d) ∈ digits) (n : Int) :
    (token c).kind.suffixValue? (.number (.int n)) = some (.number (.int (n * 10 + d))) := by
  rw [kind_digits _ h]
  rfl

private theorem number_of_suffixValue? {c : Char} {d : Nat} (h : (c, d) ∈ digits) {v w : Value}
    (hv : (token c).kind.suffixValue? v = some w) : ∃ u, v = .number u := by
  rw [kind_digits _ h] at hv
  cases v with
  | number u => exact ⟨u, rfl⟩
  | _ => cases hv

/-- Every derivation is that of a tree with its spines within the bounds of the level. -/
theorem Derives.spelled {r : Rank} {cs : List Char} {v : Value} (h : Derives r cs v) :
    Spelled token r.low r.high cs v := by
  induction h with
  | ofSum _ ih | ofProduct _ ih | ofPower _ ih | ofUnary _ ih | ofNumeral _ ih | ofAtom _ ih =>
    exact ih.mono (by decide) (by decide)
  | equate _ _ ihx ihy => exact ihx.binary ihy binds_equal (by decide)
  | add hc _ _ ihx ihy => exact ihx.binary ihy (binds_signs hc) (by decide)
  | multiply hc _ _ ihx ihy => exact ihx.binary ihy (binds_factors hc) (by decide)
  | raise _ _ ihx ihy => exact ihx.binary ihy binds_power (by decide)
  | sign hc _ ih => exact ih.sign (signs_signs hc) (by decide) (by decide) (by decide)
  | @extend c d cs n hd _ ih =>
    obtain ⟨-, hsuffix, hlbp⟩ := shape_digits _ hd
    have hlbp : (shapes token c).lbp = 1000000 := hlbp
    refine ih.postfixed hsuffix ?_ ?_ (by decide) (suffixValue?_digit hd n)
    · rw [hlbp]
      decide
    · rw [hlbp]
      decide
  | digit hd => exact .leaf (shape_digits _ hd).1 (startValue?_digit hd)
  | group _ ih => exact ih.grouped (n := ")") rfl ⟨rfl, rfl⟩ rfl

theorem Derives.toLooser {r : Rank} {cs : List Char} {v : Value} (h : Derives r cs v) :
    Derives r.looser cs v := by
  cases r with
  | equation => exact h
  | sum => exact h.ofSum
  | product => exact h.ofProduct
  | power => exact h.ofPower
  | unary => exact h.ofUnary
  | numeral => exact h.ofNumeral
  | atom => exact h.ofAtom

/-- What is derived at a level is derived at every looser one. -/
theorem Derives.lift {r q : Rank} {cs : List Char} {v : Value} (h : Derives r cs v)
    (hq : q.bound ≤ r.bound) : Derives q cs v := by
  have hn : Rank.looser^[r.ctorIdx - q.ctorIdx] r = q := by
    revert hq
    cases r <;> cases q <;> decide
  rw [← hn]
  exact Function.Iterate.rec (Derives · cs v) h (fun _ h => h.toLooser) _

/-- The numbers in a derived tree are integers. -/
theorem Derives.int {r : Rank} {cs : List Char} {u : Value} (h : Derives r cs (.number u)) :
    ∃ n, u = .int n := by
  generalize hv : Value.number u = v at h
  induction h with
  | ofSum _ ih | ofProduct _ ih | ofPower _ ih | ofUnary _ ih | ofNumeral _ ih | ofAtom _ ih
  | group _ ih => exact ih hv
  | extend => exact ⟨_, Value.number.inj hv⟩
  | digit => exact ⟨_, Value.number.inj hv⟩
  | equate | add | multiply | raise | sign => cases hv

/-- What a character of the table is, by its shape. -/
theorem infix_alphabet : ∀ c ∈ alphabet, (token c).shape.assoc.isSome = true →
    c = '=' ∨ c ∈ signs ∨ c ∈ factors ∨ c = '^' := by
  decide

private theorem prefix_alphabet : ∀ c ∈ alphabet, (token c).shape.isPrefix = true → c ∈ signs := by
  decide

private theorem digit_alphabet : ∀ c ∈ alphabet,
    ((token c).shape.isOperand || (token c).shape.isSuffix) = true → ∃ e ∈ digits, e.1 = c := by
  decide

private theorem group_alphabet : ∀ c ∈ alphabet, (token c).shape.marks ≠ [] →
    c = '(' ∧ (token c).shape.form = .group ")" := by
  decide

private theorem keyword_alphabet : ∀ c ∈ alphabet, (token c).shape.form = .keyword → c = ')' := by
  decide

private theorem lifts_equal :
    ∀ e ∈ Standard.tree.entries, e.2.shape.Lifts (token '=').shape Rank.equation.bound := by
  decide

theorem lifts_signs : ∀ c ∈ signs, ∀ e ∈ Standard.tree.entries,
    e.2.shape.Lifts (token c).shape Rank.sum.bound := by
  decide

theorem lifts_factors : ∀ c ∈ factors, ∀ e ∈ Standard.tree.entries,
    e.2.shape.Lifts (token c).shape Rank.product.bound := by
  decide

theorem lifts_power :
    ∀ e ∈ Standard.tree.entries, e.2.shape.Lifts (token '^').shape Rank.unary.bound := by
  decide

private theorem lifts_digits : ∀ d ∈ digits, ∀ e ∈ Standard.tree.entries,
    e.2.shape.Lifts (token d.1).shape Rank.numeral.bound := by
  decide

/-- The correct trees over characters of the table are derived at every level that the operator on
top is tight enough for. -/
def Derivable (x : ParseTree Char) : Prop :=
  ∀ v r, (∀ c ∈ x.yield, c ∈ alphabet) → x.WellFormed (shapes token) →
    x.PrecedenceCorrect (shapes token) → x.value? token = some v →
    x.Tight (shapes token) (Rank.bound r) → Derives r x.yield v

variable {x y : ParseTree Char}

theorem derivable_leaf (c : Char) : Derivable (.leaf c) := by
  intro v r hmem hwf _ hv _
  have hoperand : (token c).shape.isOperand = true := hwf
  obtain ⟨⟨_, d⟩, hd, rfl⟩ :=
    digit_alphabet c (hmem c List.mem_cons_self) (by rw [hoperand, Bool.true_or])
  obtain rfl := Option.some.inj ((startValue?_digit hd).symm.trans hv)
  exact (Derives.digit hd).lift (by cases r <;> decide)

theorem derivable_prefixed (c : Char) (hx : Derivable x) : Derivable (.prefixed c x) := by
  intro v r hmem hwf hpc hv hr
  obtain ⟨hc, hmemx⟩ := List.forall_mem_cons.1 hmem
  have hsign := prefix_alphabet c hc hwf.1
  obtain ⟨htight, w, hw, rfl⟩ := Standard.prefixed_operand (q := Rank.unary.bound) buildsTrees
    (fun u hu => draws_alphabet (hmem u hu)) hwf hpc hv (signs_signs hsign) (by decide)
  have hr : r.bound ≤ (shapes token c).prefixPower := hr
  have hpower : (shapes token c).prefixPower = Token.prefixPower := (signs_signs hsign).power
  rw [hpower] at hr
  exact (Derives.sign hsign (hx w .unary hmemx hwf.2 hpc.1 hw htight)).lift
    (by revert hr; cases r <;> decide)

theorem derivable_postfixed (c : Char) (hx : Derivable x) : Derivable (.postfixed c x) := by
  intro v r hmem hwf hpc hv hr
  obtain ⟨hmemx, hc⟩ := List.forall_mem_append.1 hmem
  have hsuffix : (token c).shape.isSuffix = true := hwf.1
  obtain ⟨⟨_, d⟩, hd, rfl⟩ :=
    digit_alphabet c (hc c List.mem_cons_self) (by rw [hsuffix, Bool.or_true])
  obtain ⟨w, hw, hfn⟩ := Option.bind_eq_some_iff.1 hv
  have htight := Standard.tight_of_precedes buildsTrees (fun u hu => draws_alphabet (hmemx u hu))
    hwf.2 (lifts_digits _ hd) hpc.2
  have hnumeral := hx w .numeral hmemx hwf.2 hpc.1 hw htight
  obtain ⟨u, rfl⟩ := number_of_suffixValue? hd hfn
  obtain ⟨n, rfl⟩ := hnumeral.int
  obtain rfl := Option.some.inj ((suffixValue?_digit hd n).symm.trans hfn)
  have hr : r.bound ≤ (token _).lbp := hr
  rw [(shape_digits _ hd).2.2] at hr
  exact (Derives.extend hd hnumeral).lift (by revert hr; cases r <;> decide)

theorem derivable_infixed (c : Char) (hx : Derivable x) (hy : Derivable y) :
    Derivable (.infixed c x y) := by
  intro v r hmem hwf hpc hv hr
  obtain ⟨hmemx, hmem'⟩ := List.forall_mem_append.1 hmem
  obtain ⟨hc, hmemy⟩ := List.forall_mem_cons.1 hmem'
  -- Each operator takes operands of two levels and makes an expression of a third.
  have node {q₁ q₂ q : Rank} {op : String} {p : Int} {a : Assoc} (hb : (token c).Binds op p a)
      (hl : ∀ e ∈ Standard.tree.entries, e.2.shape.Lifts (token c).shape q₁.bound)
      (hq₂ : q₂.bound ≤ rightPower p a + 1 ∧ q₂.bound ≤ Token.prefixPower)
      (hq : r.bound ≤ p → r.bound ≤ q.bound)
      (h : ∀ {u w}, Derives q₁ x.yield u → Derives q₂ y.yield w →
        Derives q (x.yield ++ c :: y.yield) (.binary (.text op) u w)) :
      Derives r (x.yield ++ c :: y.yield) v := by
    obtain ⟨htx, hty, u, w, hu, hw, rfl⟩ := Standard.infixed_operands buildsTrees
      (fun u hu => draws_alphabet (hmem u hu)) hwf hpc hv hb hl hq₂.1 hq₂.2
    have hr : r.bound ≤ (token c).lbp := hr
    rw [hb.lbp] at hr
    exact (h (hx u q₁ hmemx hwf.2.1 hpc.1 hu htx) (hy w q₂ hmemy hwf.2.2 hpc.2.1 hw hty)).lift
      (hq hr)
  rcases infix_alphabet c hc hwf.1 with rfl | hop | hop | rfl
  · exact node binds_equal lifts_equal (by decide) (by cases r <;> decide) .equate
  · exact node (binds_signs hop) (lifts_signs c hop) (by decide) (by cases r <;> decide) (.add hop)
  · exact node (binds_factors hop) (lifts_factors c hop) (by decide) (by cases r <;> decide)
      (.multiply hop)
  · exact node binds_power lifts_power (by decide) (by cases r <;> decide) .raise

theorem derivable_grouped (c d : Char) (hx : Derivable x) : Derivable (.grouped c x d) := by
  intro v r hmem hwf hpc hv _
  obtain ⟨hc, hmem⟩ := List.forall_mem_cons.1 hmem
  obtain ⟨hmemx, hclose⟩ := List.forall_mem_append.1 hmem
  obtain ⟨⟨m, hm, hd⟩, hwfx⟩ := hwf
  obtain ⟨w, hw, hfn⟩ := Option.bind_eq_some_iff.1 hv
  obtain ⟨rfl, -⟩ := group_alphabet c hc (by simp [Shape.marks, hm])
  obtain rfl := keyword_alphabet d (hclose d List.mem_cons_self) hd.2
  obtain rfl : w = v := Option.some.inj hfn
  have htight := Standard.tight_zero buildsTrees fun u hu => draws_alphabet (hmemx u hu)
  exact (Derives.group (hx w .equation hmemx hwfx hpc hw htight)).lift (by cases r <;> decide)

/-- The table has neither ternaries nor conditionals. -/
theorem not_marked {c : Char} (hc : c ∈ alphabet) {f : Form} (h : (shapes token c).form = f)
    (hm : (shapes token c).marks ≠ []) (hf : f ≠ .group ")") : False :=
  hf (h.symm.trans (group_alphabet c hc hm).2)

theorem derivable (x : ParseTree Char) : Derivable x := by
  induction x with
  | leaf c => exact derivable_leaf c
  | prefixed c x ih => exact derivable_prefixed c ih
  | postfixed c x ih => exact derivable_postfixed c ih
  | infixed c x y ihx ihy => exact derivable_infixed c ihx ihy
  | grouped c x d ih => exact derivable_grouped c d ih
  | ternary c x y d z =>
    rintro v r hmem ⟨⟨m, hm, -⟩, -⟩ _ _ _
    have hc := hmem c (List.mem_append_right _ List.mem_cons_self)
    exact (not_marked hc hm (by simp [Shape.marks, hm]) (by simp)).elim
  | conditional c x d y e =>
    rintro v r hmem ⟨⟨m, n, o, hm, -⟩, -⟩ _ _ _
    exact (not_marked (hmem c List.mem_cons_self) hm (by simp [Shape.marks, hm]) (by simp)).elim
  | alternative c x d y m z e =>
    rintro v r hmem ⟨⟨m, n, o, hm, -⟩, -⟩ _ _ _
    exact (not_marked (hmem c List.mem_cons_self) hm (by simp [Shape.marks, hm]) (by simp)).elim

theorem Derives.mem_alphabet {r : Rank} {cs : List Char} {v : Value} (h : Derives r cs v) :
    ∀ c ∈ cs, c ∈ alphabet := by
  have hsigns : ∀ c ∈ signs, c ∈ alphabet := by decide
  have hfactors : ∀ c ∈ factors, c ∈ alphabet := by decide
  have hdigits : ∀ e ∈ digits, e.1 ∈ alphabet := by decide
  induction h with
  | ofSum _ ih | ofProduct _ ih | ofPower _ ih | ofUnary _ ih | ofNumeral _ ih | ofAtom _ ih =>
    exact ih
  | equate _ _ ihx ihy | raise _ _ ihx ihy =>
    exact List.forall_mem_append.2 ⟨ihx, List.forall_mem_cons.2 ⟨by decide, ihy⟩⟩
  | add hc _ _ ihx ihy =>
    exact List.forall_mem_append.2 ⟨ihx, List.forall_mem_cons.2 ⟨hsigns _ hc, ihy⟩⟩
  | multiply hc _ _ ihx ihy =>
    exact List.forall_mem_append.2 ⟨ihx, List.forall_mem_cons.2 ⟨hfactors _ hc, ihy⟩⟩
  | sign hc _ ih => exact List.forall_mem_cons.2 ⟨hsigns _ hc, ih⟩
  | extend hd _ ih =>
    exact List.forall_mem_append.2 ⟨ih, List.forall_mem_singleton.2 (hdigits _ hd)⟩
  | digit hd => exact List.forall_mem_singleton.2 (hdigits _ hd)
  | group _ ih =>
    exact List.forall_mem_cons.2 ⟨by decide,
      List.forall_mem_append.2 ⟨ih, List.forall_mem_singleton.2 (by decide)⟩⟩

/-- The characters that are not skipped. -/
def withoutBlanks (cs : List Char) : List Char :=
  cs.filter fun c => !Table.standardSkip.toList.contains c

/-- A text over the alphabet is read as the tokens of its characters. -/
theorem charsFrom_eq {cs : List Char} (h : ∀ c ∈ withoutBlanks cs, c ∈ alphabet) (pos : Nat) :
    Standard.tree.table.charsFrom Table.standardSkip.toList pos cs =
      .ofTokens ((withoutBlanks cs).map token) := by
  induction cs generalizing pos with
  | nil => rfl
  | cons c cs ih =>
    by_cases hskip : Table.standardSkip.toList.contains c = true
    · have hcs : withoutBlanks (c :: cs) = withoutBlanks cs :=
        List.filter_cons_of_neg (by rw [hskip]; decide)
      rw [Table.charsFrom, if_pos hskip, hcs]
      exact ih (hcs ▸ h) _
    · have hcs : withoutBlanks (c :: cs) = c :: withoutBlanks cs :=
        List.filter_cons_of_pos (by simpa using hskip)
      rw [hcs] at h ⊢
      obtain ⟨hc, h⟩ := List.forall_mem_cons.1 h
      obtain ⟨t, ht⟩ := Option.isSome_iff_exists.1 (lookup_alphabet hc)
      have htoken : token c = t := by rw [token, Standard.token, ht, Option.getD_some]
      rw [Table.charsFrom, if_neg hskip, ht, List.map_cons, htoken]
      dsimp only
      rw [ih h]
      rfl

/-- Any other text is read as tokens and then a failure. -/
theorem charsFrom_failed {cs : List Char} (h : ¬ ∀ c ∈ withoutBlanks cs, c ∈ alphabet) (pos : Nat) :
    ∃ ts e, (∀ t ∈ ts, Standard.tree.Draws t) ∧
      Standard.tree.table.charsFrom Table.standardSkip.toList pos cs = ⟨ts, some (.parse e)⟩ := by
  induction cs generalizing pos with
  | nil => exact absurd (List.forall_mem_nil _) h
  | cons c cs ih =>
    by_cases hskip : Table.standardSkip.toList.contains c = true
    · have hcs : withoutBlanks (c :: cs) = withoutBlanks cs :=
        List.filter_cons_of_neg (by rw [hskip]; decide)
      rw [Table.charsFrom, if_pos hskip]
      exact ih (hcs ▸ h) _
    · have hcs : withoutBlanks (c :: cs) = c :: withoutBlanks cs :=
        List.filter_cons_of_pos (by simpa using hskip)
      rw [Table.charsFrom, if_neg hskip]
      cases ht : Standard.tree.table.lookup (.singleton c) with
      | none => exact ⟨[], .lexical pos (.singleton c), List.forall_mem_nil _, rfl⟩
      | some t =>
        have hrest : ¬ ∀ c ∈ withoutBlanks cs, c ∈ alphabet := by
          intro hrest
          rw [hcs] at h
          exact h (List.forall_mem_cons.2 ⟨mem_alphabet ht, hrest⟩)
        obtain ⟨ts, e, hts, he⟩ := ih hrest (pos + 1)
        dsimp only
        rw [he]
        exact ⟨t :: ts, e, List.forall_mem_cons.2 ⟨Standard.draws_of_lookup ht, hts⟩, rfl⟩

/-- On every text, with its blanks left out, a strict run returns the tree that the grammar derives,
and fails with a parse error if there is none. -/
theorem parse_text_iff_derives (text : String) :
    (∀ v, ((Standard.tree.table.readChars Table.standardSkip text).parse false true).result = .ok v ↔
      Derives .equation (withoutBlanks text.toList) v) ∧
      ((∀ v, ¬ Derives .equation (withoutBlanks text.toList) v) →
        ∃ e, ((Standard.tree.table.readChars Table.standardSkip text).parse false true).result =
          .error (.parse e)) := by
  rw [Table.readChars]
  by_cases hmem : ∀ c ∈ withoutBlanks text.toList, c ∈ alphabet
  · rw [charsFrom_eq hmem]
    have h (v : Value) : ((Stream.ofTokens ((withoutBlanks text.toList).map token)).parse
        false true).result = .ok v ↔ Derives .equation (withoutBlanks text.toList) v := by
      rw [vocabulary.parse_eq_ok_iff hmem]
      constructor
      · rintro ⟨x, hx, hwf, hpc, hv⟩
        rw [← hx] at hmem ⊢
        exact derivable x v .equation hmem hwf hpc hv
          (Standard.tight_zero buildsTrees fun u hu => draws_alphabet (hmem u hu))
      · intro h
        obtain ⟨x, hx⟩ := h.spelled
        exact ⟨x, hx.yield, hx.wellFormed, hx.correct, hx.value⟩
    refine ⟨h, fun hno => ?_⟩
    have hdraws : ∀ t ∈ (withoutBlanks text.toList).map token, Standard.tree.Draws t :=
      List.forall_mem_map.2 fun c hc => draws_alphabet (hmem c hc)
    rcases Standard.accepted_or_error buildsTrees hdraws with ⟨v, hv⟩ | herror
    · exact absurd ((h v).1 hv) (hno v)
    · exact herror
  · obtain ⟨ts, e, hts, he⟩ := charsFrom_failed hmem 0
    obtain ⟨err, herr⟩ := Standard.error_of_failure buildsTrees hts e
    rw [he, herr]
    refine ⟨fun v => ⟨by simp, fun h => absurd h.mem_alphabet hmem⟩, fun _ => ⟨err, rfl⟩⟩

end BindingPower.TreeGrammar
