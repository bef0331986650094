import BindingPower.Proofs.Standard.TreeGrammar
import Mathlib.Tactic.Tauto

/-! Trees of arithmetic printed with as few brackets as the grammar can do with. What is printed is
read back as the tree, and without a pair of its brackets it is not. -/
namespace BindingPower.TreeGrammar

inductive Sign where
  | plus
  | minus
deriving DecidableEq

inductive Operator where
  | equal
  | plus
  | minus
  | times
  | divide
  | power
deriving DecidableEq

/-- Trees over natural numbers. -/
inductive Tree where
  | number (n : Nat)
  | unary (s : Sign) (x : Tree)
  | binary (o : Operator) (x y : Tree)

def Sign.symbol : Sign → Char
  | plus => '+'
  | minus => '-'

namespace Operator

def symbol : Operator → Char
  | equal => '='
  | plus => '+'
  | minus => '-'
  | times => '*'
  | divide => '/'
  | power => '^'

/-- The binding power in the table. -/
def lbp (o : Operator) : Int := (token o.symbol).lbp

/-- The power down to which the operator takes its right operand. -/
def rbp (o : Operator) : Int := (token o.symbol).rbp.getD 0

/-- The level of the expressions that the operator makes. -/
def rank : Operator → Rank
  | equal => .equation
  | plus | minus => .sum
  | times | divide => .product
  | power => .power

def leftRank : Operator → Rank
  | equal => .equation
  | plus | minus => .sum
  | times | divide => .product
  | power => .unary

def rightRank : Operator → Rank
  | equal => .sum
  | plus | minus => .product
  | times | divide | power => .power

end Operator

/-- A text in brackets, where it needs them. -/
def bracketed (need : Bool) (cs : List Char) : List Char :=
  if need then '(' :: (cs ++ [')']) else cs

namespace Tree

/-- The tree as the parser builds it. -/
def value : Tree → Value
  | number n => .number (.int n)
  | unary s x => .unary (.text (.singleton s.symbol)) x.value
  | binary o x y => .binary (.text (.singleton o.symbol)) x.value y.value

def isBinary : Tree → Bool
  | binary .. => true
  | _ => false

/-- Whether the tree needs brackets on the left of an operator. -/
def loosensLeft (o : Operator) : Tree → Bool
  | binary l _ _ => l.rbp < o.lbp
  | _ => false

/-- Whether the tree needs brackets on the right of an operator. -/
def loosensRight (o : Operator) : Tree → Bool
  | binary r _ _ => r.lbp ≤ o.rbp
  | _ => false

def chars : Tree → List Char
  | number n => (toString n).toList
  | unary s x => s.symbol :: bracketed x.isBinary x.chars
  | binary o x y => bracketed (x.loosensLeft o) x.chars ++
      o.symbol :: bracketed (y.loosensRight o) y.chars

/-- The tree as a text. -/
def printed (t : Tree) : String := .ofList t.chars

/-- Whether the tree is tight enough to stand at a level without brackets. -/
def fits (r : Rank) : Tree → Bool
  | number _ => true
  | unary .. => r.bound ≤ Rank.unary.bound
  | binary o _ _ => r.bound ≤ o.rank.bound

end Tree

variable {t x y : Tree} {r q : Rank} {cs : List Char} {o : Operator}

/-! Brackets by levels -/

private theorem isBinary_eq (t : Tree) : t.isBinary = !t.fits .unary := by
  cases t with
  | number n => rfl
  | unary s x => rfl
  | binary o x y => cases o <;> rfl

private theorem loosensLeft_eq (o : Operator) (t : Tree) : t.loosensLeft o = !t.fits o.leftRank := by
  cases t with
  | number n => rfl
  | unary s x => cases o <;> rfl
  | binary l x y => cases o <;> cases l <;> rfl

private theorem loosensRight_eq (o : Operator) (t : Tree) : t.loosensRight o = !t.fits o.rightRank := by
  cases t with
  | number n => rfl
  | unary s x => cases o <;> rfl
  | binary l x y => cases o <;> cases l <;> rfl

private theorem fits_equation (t : Tree) : t.fits .equation = true := by
  cases t with
  | number n => rfl
  | unary s x => rfl
  | binary o x y => cases o <;> rfl

private theorem fits_mono (h : t.fits q = true) (hr : r.bound ≤ q.bound) : t.fits r = true := by
  cases t with
  | number n => rfl
  | unary s x =>
    simp only [Tree.fits, decide_eq_true_eq] at h ⊢
    omega
  | binary o x y =>
    simp only [Tree.fits, decide_eq_true_eq] at h ⊢
    omega

/-! What is printed is derived -/

private theorem chars_number (n : Nat) : (Tree.number n).chars = Nat.toDigits 10 n := by
  simp [Tree.chars]

theorem mem_digits {d : Nat} (h : d < 10) : (d.digitChar, d) ∈ digits := by
  have hall : ∀ d < 10, (Nat.digitChar d, d) ∈ digits := by decide
  exact hall d h

private theorem derives_toDigits (n : Nat) : Derives .numeral (Nat.toDigits 10 n) (.number (.int n)) := by
  induction n using Nat.strongRecOn with
  | ind n ih =>
    rw [Nat.toDigits_eq_if (by decide)]
    split
    · exact (Derives.digit (mem_digits ‹_›)).ofAtom
    · have hsnoc := Derives.extend (mem_digits (Nat.mod_lt n (by decide : 0 < 10)))
        (ih (n / 10) (by omega))
      have hn : ((n / 10 : Nat) : Int) * 10 + (n % 10 : Nat) = n := by omega
      rwa [hn] at hsnoc

/-- An operator between operands of its levels. -/
theorem derives_binary {xs ys : List Char} {v w : Value} (o : Operator)
    (hx : Derives o.leftRank xs v) (hy : Derives o.rightRank ys w) :
    Derives o.rank (xs ++ o.symbol :: ys) (.binary (.text (.singleton o.symbol)) v w) := by
  cases o with
  | equal => exact .equate hx hy
  | plus | minus => exact .add (by decide) hx hy
  | times | divide => exact .multiply (by decide) hx hy
  | power => exact .raise hx hy

private theorem derives_bracketed
    (h : ∀ r : Rank, r.bound ≤ Rank.unary.bound → x.fits r = true → Derives r x.chars x.value)
    (hr : r.bound ≤ Rank.unary.bound) :
    Derives r (bracketed (!x.fits r) x.chars) x.value := by
  cases hfits : x.fits r with
  | true => exact h r hr hfits
  | false =>
    have hgroup := Derives.group (h .equation (by decide) (fits_equation x))
    exact hgroup.lift (by revert hr; cases r <;> decide)

private theorem derives_chars (t : Tree) :
    ∀ r : Rank, r.bound ≤ Rank.unary.bound → t.fits r = true → Derives r t.chars t.value := by
  induction t with
  | number n =>
    intro r hr _
    rw [chars_number]
    exact (derives_toDigits n).lift (by revert hr; cases r <;> decide)
  | unary s x ih =>
    intro r hr _
    have hx := derives_bracketed ih (Int.le_refl Rank.unary.bound)
    rw [← isBinary_eq] at hx
    exact (Derives.sign (by cases s <;> decide) hx).lift hr
  | binary o x y ihx ihy =>
    intro r _ hfits
    have hx := derives_bracketed (r := o.leftRank) ihx (by cases o <;> decide)
    have hy := derives_bracketed (r := o.rightRank) ihy (by cases o <;> decide)
    rw [← loosensLeft_eq] at hx
    rw [← loosensRight_eq] at hy
    exact (derives_binary o hx hy).lift (by simpa [Tree.fits] using hfits)

/-! No derivation has fewer brackets -/

/-- The brackets the tree is printed with at a level. -/
def Tree.brackets (r : Rank) (t : Tree) : Nat := (bracketed (!t.fits r) t.chars).count '('

private theorem count_bracketed (need : Bool) (cs : List Char) :
    (bracketed need cs).count '(' = cs.count '(' + need.toNat := by
  cases need with
  | false => rfl
  | true => simp [bracketed]

private theorem brackets_eq (r : Rank) (t : Tree) :
    t.brackets r = t.chars.count '(' + (!t.fits r).toNat :=
  count_bracketed _ _

private theorem brackets_mono (hr : r.bound ≤ q.bound) : t.brackets r ≤ t.brackets q := by
  rw [brackets_eq, brackets_eq]
  cases hq : t.fits q with
  | true => rw [fits_mono hq hr]
  | false => cases t.fits r <;> simp

private theorem brackets_number (r : Rank) (n : Nat) : (Tree.number n).brackets r = 0 := by
  have hnot : '(' ∉ Nat.toDigits 10 n := by
    intro hmem
    have hdigit : Char.isDigit '(' = true :=
      Nat.isDigit_of_mem_toDigits (by decide) (le_refl 10) hmem
    revert hdigit
    decide
  rw [brackets_eq, chars_number, List.count_eq_zero.2 hnot]
  rfl

private theorem brackets_unary (s : Sign) (x : Tree) :
    (Tree.unary s x).brackets .unary = x.brackets .unary := by
  have hsymbol : s.symbol ≠ '(' := by cases s <;> decide
  rw [brackets_eq, Tree.chars, List.count_cons_of_ne hsymbol, isBinary_eq]
  simp [Tree.fits, Tree.brackets]

private theorem brackets_binary (o : Operator) (x y : Tree) :
    (Tree.binary o x y).brackets o.rank = x.brackets o.leftRank + y.brackets o.rightRank := by
  have hsymbol : o.symbol ≠ '(' := by cases o <;> decide
  rw [brackets_eq, Tree.chars, List.count_append, List.count_cons_of_ne hsymbol, loosensLeft_eq,
    loosensRight_eq]
  simp [Tree.fits, Tree.brackets]

private theorem singleton_injective {c d : Char} (h : String.singleton c = String.singleton d) : c = d := by
  have hlist : [c] = [d] := by
    simpa only [String.toList_singleton] using congrArg String.toList h
  exact List.singleton_inj.1 hlist

/-- A tree that is built of two operands has an operator of this character on top. -/
theorem eq_binary {c : Char} {v w : Value} (h : t.value = .binary (.text (.singleton c)) v w) :
    ∃ o x y, t = .binary o x y ∧ o.symbol = c ∧ x.value = v ∧ y.value = w := by
  cases t with
  | number n => cases h
  | unary s x => cases h
  | binary o x y =>
    obtain ⟨hop, hx, hy⟩ := Value.binary.inj h
    exact ⟨o, x, y, rfl, singleton_injective (Value.text.inj hop), hx, hy⟩

private theorem brackets_le_node {c : Char} {v w : Value} {xs ys : List Char} {q₁ q₂ : Rank}
    (h : t.value = .binary (.text (.singleton c)) v w)
    (hranks : ∀ o : Operator, o.symbol = c → o.rank = q ∧ o.leftRank = q₁ ∧ o.rightRank = q₂)
    (hx : ∀ x : Tree, x.value = v → x.brackets q₁ ≤ xs.count '(')
    (hy : ∀ y : Tree, y.value = w → y.brackets q₂ ≤ ys.count '(') :
    t.brackets q ≤ (xs ++ c :: ys).count '(' := by
  obtain ⟨o, x, y, rfl, ho, hxv, hyw⟩ := eq_binary h
  obtain ⟨rfl, rfl, rfl⟩ := hranks o ho
  have hleft := hx x hxv
  have hright := hy y hyw
  have htail : ys.count '(' ≤ (c :: ys).count '(' := List.count_le_count_cons
  rw [brackets_binary, List.count_append]
  omega

/-- No text has fewer brackets than the tree it derives is printed with. -/
theorem brackets_le_count {v : Value} (h : Derives r cs v) :
    ∀ t : Tree, t.value = v → t.brackets r ≤ cs.count '(' := by
  have hsigns : ∀ o : Operator, o.symbol ∈ signs →
      o.rank = .sum ∧ o.leftRank = .sum ∧ o.rightRank = .product := by
    intro o
    cases o <;> decide
  have hfactors : ∀ o : Operator, o.symbol ∈ factors →
      o.rank = .product ∧ o.leftRank = .product ∧ o.rightRank = .power := by
    intro o
    cases o <;> decide
  induction h with
  | ofSum _ ih | ofProduct _ ih | ofPower _ ih | ofUnary _ ih | ofNumeral _ ih | ofAtom _ ih =>
    exact fun t ht => (brackets_mono (by decide)).trans (ih t ht)
  | equate _ _ ihx ihy =>
    exact fun t ht => brackets_le_node ht (fun o => by cases o <;> decide) ihx ihy
  | add hc _ _ ihx ihy =>
    exact fun t ht => brackets_le_node ht (fun o ho => hsigns o (ho ▸ hc)) ihx ihy
  | multiply hc _ _ ihx ihy =>
    exact fun t ht => brackets_le_node ht (fun o ho => hfactors o (ho ▸ hc)) ihx ihy
  | raise _ _ ihx ihy =>
    exact fun t ht => brackets_le_node ht (fun o => by cases o <;> decide) ihx ihy
  | sign _ _ ih =>
    intro t ht
    cases t with
    | number n => cases ht
    | unary s x =>
      rw [brackets_unary]
      exact (ih x (Value.unary.inj ht).2).trans List.count_le_count_cons
    | binary o x y => cases ht
  | extend _ _ _ | digit _ =>
    intro t ht
    cases t with
    | number n =>
      rw [brackets_number]
      exact Nat.zero_le _
    | unary s x => cases ht
    | binary o x y => cases ht
  | group _ ih =>
    intro t ht
    have hinner := ih t ht
    rw [brackets_eq, fits_equation] at hinner
    rw [brackets_eq, List.count_cons_self, List.count_append]
    have hbool := Bool.toNat_le (!t.fits .atom)
    simp only [Bool.not_true, Bool.toNat_false] at hinner
    omega

/-! Texts -/

private theorem withoutBlanks_eq (h : ∀ c ∈ cs, c ∈ alphabet) : withoutBlanks cs = cs := by
  have hblank : (alphabet.all fun c => !Table.standardSkip.toList.contains c) = true := by decide
  exact List.filter_eq_self.2 fun c hc => List.all_eq_true.1 hblank c (h c hc)

private theorem readChars_eq (h : ∀ c ∈ cs, c ∈ alphabet) :
    Standard.tree.table.readChars Table.standardSkip (.ofList cs) = .ofTokens (cs.map token) := by
  have hblanks := withoutBlanks_eq h
  rw [Table.readChars, String.toList_ofList, charsFrom_eq (by rwa [hblanks]), hblanks]

private theorem parse_of_derives {v : Value} (h : Derives .equation cs v) :
    ((Standard.tree.table.readChars Table.standardSkip (.ofList cs)).parse false true).result =
      .ok v := by
  rw [readChars_eq h.mem_alphabet, vocabulary.parse_eq_ok_iff h.mem_alphabet]
  obtain ⟨x, hx⟩ := h.spelled
  exact ⟨x, hx.yield, hx.wellFormed, hx.correct, hx.value⟩

/-- A run, strict or not, makes what is derived by the characters it has consumed. -/
theorem derives_of_parse (hcs : ∀ c ∈ cs, c ∈ alphabet) {strict : Bool} {v : Value}
    (h : ((Standard.tree.table.readChars Table.standardSkip (.ofList cs)).parse
      false strict).result = .ok v) :
    ∃ xs rest, xs ++ rest = cs ∧ Derives .equation xs v := by
  rw [readChars_eq hcs] at h
  obtain ⟨x, rest, hyield, hwf, hpc, hv⟩ := vocabulary.parse_sound hcs h
  have hmem : ∀ c ∈ x.yield, c ∈ alphabet :=
    fun c hc => hcs c (hyield ▸ List.mem_append_left rest hc)
  exact ⟨x.yield, rest, hyield, derivable x v .equation hmem hwf hpc hv
    (Standard.tight_zero buildsTrees fun u hu => draws_alphabet (hmem u hu))⟩

/-- A tree is printed so that a strict run on the text gives the tree back, and no run does on the
text without two brackets of it, whether they belong together or not. -/
theorem parse_printed (t : Tree) :
    ((Standard.tree.table.readChars Table.standardSkip t.printed).parse false true).result =
        .ok t.value ∧
      ∀ (a b c : List Char) (strict : Bool), t.printed.toList = a ++ '(' :: (b ++ ')' :: c) →
        ((Standard.tree.table.readChars Table.standardSkip (.ofList (a ++ b ++ c))).parse
          false strict).result ≠ .ok t.value := by
  have hderives := derives_chars t .equation (by decide) (fits_equation t)
  refine ⟨parse_of_derives hderives, fun a b c strict htext h => ?_⟩
  have hchars : t.chars = a ++ '(' :: (b ++ ')' :: c) := by
    rw [← htext, Tree.printed, String.toList_ofList]
  have hmem : ∀ d ∈ a ++ b ++ c, d ∈ alphabet := by
    intro d hd
    refine hderives.mem_alphabet d ?_
    rw [hchars]
    simp only [List.mem_append, List.mem_cons] at hd ⊢
    tauto
  obtain ⟨xs, rest, hxs, hshort⟩ := derives_of_parse hmem h
  -- The text has one bracket less than the tree is printed with, which no derivation of it has.
  have hneeded : t.chars.count '(' ≤ xs.count '(' := by
    have hcount := brackets_le_count hshort t rfl
    rwa [brackets_eq, fits_equation] at hcount
  have hless : t.chars.count '(' = (a ++ b ++ c).count '(' + 1 := by
    have hclose : (')' :: c).count '(' = c.count '(' := List.count_cons_of_ne (by decide)
    simp only [hchars, List.count_append, List.count_cons_self, hclose]
    omega
  have hconsumed : xs.count '(' ≤ (a ++ b ++ c).count '(' := by
    rw [← hxs, List.count_append]
    exact Nat.le_add_right _ _
  omega

example : (Tree.binary .power (.binary .power (.number 2) (.number 3))
    (.unary .minus (.number 12))).printed = "(2^3)^-12" := by
  decide

end BindingPower.TreeGrammar
