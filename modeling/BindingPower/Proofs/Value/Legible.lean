import BindingPower.Proofs.Lexer.Separation
import BindingPower.Proofs.Value.Trees

/-! Trees that can be told from what they are printed as. An opening bracket tells nodes from leaves, a
leaf or an operator ends where a delimiter stands, and the operands of a node end where its bracket
closes. So a text that begins with such a tree, up to a delimiter or its end, begins with no other. -/
namespace BindingPower.Value

open Lexer Text

/-- What ends a leaf or an operator. -/
def isDelimiter (c : Char) : Bool := c == ' ' || c == ')'

/-- An operator that ends at a delimiter and is not the word of a choice. -/
structure Operator (op : String) : Prop where
  ne_if : op ≠ "if"
  solid : op.toList.any isDelimiter = false

/-- A leaf that holds a natural or a word. -/
inductive LegibleLeaf : Value → Prop
  | natural (n : Nat) : LegibleLeaf (.number (.int n))
  | word {cs : List Char} (h : cs ∈ words) : LegibleLeaf (.name (.text (.ofList cs)))

/-- A tree whose leaves hold naturals and words, with such operators. -/
inductive Legible : Value → Prop
  | leaf {v : Value} (h : v.LegibleLeaf) : Legible v
  | unary {op : String} {v : Value} (hop : Operator op) (hv : Legible v) :
      Legible (.unary (.text op) v)
  | binary {op : String} {v w : Value} (hop : Operator op) (hv : Legible v) (hw : Legible w) :
      Legible (.binary (.text op) v w)
  | choice {c v w : Value} (hc : Legible c) (hv : Legible v) (hw : Legible w) :
      Legible (.choice c v w)
  | short {c v : Value} (hc : Legible c) (hv : Legible v) : Legible (.choice c v .absent)

variable {v w : Value} {op op' : String} {vs ws : List Value} {cs ds rest rest' : List Char}

theorem Legible.tree (h : v.Legible) : v.Tree AnyLeaf := by
  induction h with
  | leaf h =>
    cases h with
    | natural n => exact .leaf (.inl ⟨n, rfl⟩)
    | word h => exact .leaf (.inr (.inr ⟨_, rfl⟩))
  | unary _ _ ih => exact .unary ih
  | binary _ _ _ ihv ihw => exact .binary ihv ihw
  | choice _ _ _ ihc ihv ihw => exact .choice ihc ihv ihw
  | short _ _ ihc ihv => exact .short ihc ihv

/-! Leaves -/

private theorem isDelimiter_of_isWordChar {c : Char} (h : isWordChar c = true) : isDelimiter c = false := by
  rw [isDelimiter, Bool.or_eq_false_iff, beq_eq_false_iff_ne, beq_eq_false_iff_ne]
  constructor
  · rintro rfl
    exact absurd h (by decide)
  · rintro rfl
    exact absurd h (by decide)

private theorem plain_natural (n : Nat) : (number (.int n)).plain = .ofList (Nat.toDigits 10 n) := rfl

private theorem plain_word (cs : List Char) : (name (.text (.ofList cs))).plain = .ofList cs := rfl

/-- Digits are word characters as well. -/
theorem LegibleLeaf.wordChars (h : v.LegibleLeaf) :
    v.plain.toList ≠ [] ∧ ∀ c ∈ v.plain.toList, isWordChar c = true := by
  cases h with
  | natural n =>
    rw [plain_natural, String.toList_ofList]
    refine ⟨Nat.toDigits_ne_nil, fun c hc => ?_⟩
    have hdigit : isDigit c = true := Number.isDigit_toDigits n c hc
    rw [isWordChar, isAlnum_of_isDigit hdigit, Bool.true_or]
  | word h =>
    obtain ⟨c, cs, rfl, hc, hcs⟩ := mem_oneOf_mul.1 h
    rw [plain_word, String.toList_ofList]
    exact ⟨List.cons_ne_nil c cs,
      List.forall_mem_cons.2 ⟨isWordChar_of_isWordStart hc, mem_oneOf_kstar.1 hcs⟩⟩

private theorem toDigits_notMem_words (n : Nat) : Nat.toDigits 10 n ∉ words := by
  intro h
  obtain ⟨c, cs, hdigits, hc, -⟩ := mem_oneOf_mul.1 h
  have hdigit : isDigit c = true :=
    Number.isDigit_toDigits n c (hdigits ▸ List.mem_cons_self)
  rw [isDigit_of_isWordStart hc] at hdigit
  cases hdigit

/-- The first character tells a number from a word. -/
theorem LegibleLeaf.eq_of_plain (hv : v.LegibleLeaf) (hw : w.LegibleLeaf)
    (h : v.plain.toList = w.plain.toList) : v = w := by
  cases hv with
  | natural n =>
    cases hw with
    | natural m =>
      rw [plain_natural, plain_natural, String.toList_ofList, String.toList_ofList] at h
      have hvalue : n = m := calc
        n = Number.digitsValue (Nat.toDigits 10 n) := (Number.digitsValue_toDigits n).symm
        _ = Number.digitsValue (Nat.toDigits 10 m) := by rw [h]
        _ = m := Number.digitsValue_toDigits m
      rw [hvalue]
    | word hw =>
      rw [plain_natural, plain_word, String.toList_ofList, String.toList_ofList] at h
      exact absurd (h ▸ hw) (toDigits_notMem_words n)
  | word hv =>
    cases hw with
    | natural m =>
      rw [plain_natural, plain_word, String.toList_ofList, String.toList_ofList] at h
      exact absurd (h ▸ hv) (toDigits_notMem_words m)
    | word hw =>
      rw [plain_word, plain_word, String.toList_ofList, String.toList_ofList] at h
      rw [h]

/-! Nodes -/

/-- What is left of a text begins with a delimiter, if anything is. -/
def Ends (rest : List Char) : Prop := ∀ c ∈ rest.head?, isDelimiter c = true

private theorem ends_cons {c : Char} (h : isDelimiter c = true) (rest : List Char) : Ends (c :: rest) :=
  fun _ hd => Option.some.inj hd ▸ h

/-- What a delimiter ends is cut in one way only. -/
theorem cut_unique (hcs : cs.any isDelimiter = false) (hds : ds.any isDelimiter = false)
    (hrest : Ends rest) (hrest' : Ends rest') (h : cs ++ rest = ds ++ rest') :
    cs = ds ∧ rest = rest' := by
  have hrun {cs : List Char} (hcs : cs.any isDelimiter = false) :
      ∀ c ∈ cs, (!isDelimiter c) = true := fun c hc => by simpa using List.any_eq_false.1 hcs c hc
  have hstop {rest : List Char} (hrest : Ends rest) :
      ∀ c ∈ rest.head?, (!isDelimiter c) = false := fun c hc => by rw [hrest c hc]; rfl
  obtain ⟨htake, hdrop⟩ := takeWhile_run (hrun hcs) (hstop hrest)
  obtain ⟨htake', hdrop'⟩ := takeWhile_run (hrun hds) (hstop hrest')
  rw [h] at htake hdrop
  exact ⟨htake.symm.trans htake', hdrop.symm.trans hdrop'⟩

/-- The node of an operator, or of the word of a choice, and its operands. -/
def node (op : String) : List Value → Value
  | [v] => .unary (.text op) v
  | [v, w] => if op = "if" then .choice v w .absent else .binary (.text op) v w
  | [c, v, w] => .choice c v w
  | _ => .absent

/-- The texts of some operands, with a space before each. -/
def spaced : List Value → List Char
  | [] => []
  | v :: vs => ' ' :: (v.plain.toList ++ spaced vs)

private theorem ends_spaced (vs : List Value) (rest : List Char) : Ends (spaced vs ++ ')' :: rest) := by
  cases vs with
  | nil => exact ends_cons rfl rest
  | cons v vs => exact ends_cons rfl _

/-- How a node is made and how it is printed. -/
structure Branch (op : String) (vs : List Value) (v : Value) : Prop where
  eq_node : v = node op vs
  solid : op.toList.any isDelimiter = false
  operands : ∀ u ∈ vs, u.Legible
  plain : v.plain.toList = '(' :: (op.toList ++ (spaced vs ++ [')']))

private theorem branch_unary (hop : Operator op) (hv : v.Legible) : Branch op [v] (.unary (.text op) v) where
  eq_node := rfl
  solid := hop.solid
  operands := List.forall_mem_singleton.2 hv
  plain := by simp [Value.plain, spaced]

private theorem branch_binary (hop : Operator op) (hv : v.Legible) (hw : w.Legible) :
    Branch op [v, w] (.binary (.text op) v w) where
  eq_node := (if_neg hop.ne_if).symm
  solid := hop.solid
  operands := List.forall_mem_cons.2 ⟨hv, List.forall_mem_singleton.2 hw⟩
  plain := by simp [Value.plain, spaced]

private theorem branch_choice {c : Value} (hc : c.Legible) (hv : v.Legible) (hw : w.Legible) :
    Branch "if" [c, v, w] (.choice c v w) where
  eq_node := rfl
  solid := rfl
  operands := List.forall_mem_cons.2
    ⟨hc, List.forall_mem_cons.2 ⟨hv, List.forall_mem_singleton.2 hw⟩⟩
  plain := by
    have habsent : w.isAbsent = false := hw.tree.isAbsent fun _ => AnyLeaf.isTree
    simp [Value.plain, spaced, habsent]

private theorem branch_short {c : Value} (hc : c.Legible) (hv : v.Legible) :
    Branch "if" [c, v] (.choice c v .absent) where
  eq_node := rfl
  solid := rfl
  operands := List.forall_mem_cons.2 ⟨hc, List.forall_mem_singleton.2 hv⟩
  plain := by simp [Value.plain, spaced, isAbsent]

private theorem Legible.leaf_or_branch (h : v.Legible) : v.LegibleLeaf ∨ ∃ op vs, Branch op vs v := by
  cases h with
  | leaf h => exact .inl h
  | unary hop hv => exact .inr ⟨_, _, branch_unary hop hv⟩
  | binary hop hv hw => exact .inr ⟨_, _, branch_binary hop hv hw⟩
  | choice hc hv hw => exact .inr ⟨_, _, branch_choice hc hv hw⟩
  | short hc hv => exact .inr ⟨_, _, branch_short hc hv⟩

/-! Reading back -/

/-- Where a text begins with the tree, it begins with no other legible one. -/
def Recovered (v : Value) : Prop :=
  ∀ w, w.Legible → ∀ rest rest', Ends rest → Ends rest' →
    v.plain.toList ++ rest = w.plain.toList ++ rest' → v = w ∧ rest = rest'

/-- A leaf does not begin with a bracket. -/
theorem LegibleLeaf.not_branch (hv : v.LegibleLeaf) (hw : Branch op ws w)
    (h : v.plain.toList ++ rest = w.plain.toList ++ rest') : False := by
  obtain ⟨hne, hchars⟩ := hv.wordChars
  obtain ⟨c, cs, hcs⟩ := List.exists_cons_of_ne_nil hne
  rw [hcs, hw.plain, List.cons_append, List.cons_append] at h
  have hbracket : c = '(' := (List.cons.inj h).1
  have hword : isWordChar c = true := hchars c (hcs ▸ List.mem_cons_self)
  rw [hbracket] at hword
  exact absurd hword (by decide)

private theorem LegibleLeaf.recovered (hv : v.LegibleLeaf) : v.Recovered := by
  intro w hw rest rest' hrest hrest' h
  have hsolid {v : Value} (hv : v.LegibleLeaf) : v.plain.toList.any isDelimiter = false :=
    List.any_eq_false.2 fun c hc => by simp [isDelimiter_of_isWordChar (hv.wordChars.2 c hc)]
  rcases hw.leaf_or_branch with hw | ⟨op, ws, hw⟩
  · obtain ⟨hplain, hrests⟩ := cut_unique (hsolid hv) (hsolid hw) hrest hrest' h
    exact ⟨hv.eq_of_plain hw hplain, hrests⟩
  · exact (hv.not_branch hw h).elim

/-- Operands are recovered one by one, up to the bracket that closes after the last. -/
theorem spaced_recovered (hvs : ∀ v ∈ vs, v.Recovered) (hws : ∀ w ∈ ws, w.Legible)
    (h : spaced vs ++ ')' :: rest = spaced ws ++ ')' :: rest') : vs = ws ∧ rest = rest' := by
  -- Where one list ends before the other, a bracket would be a space.
  induction vs generalizing ws with
  | nil =>
    cases ws with
    | nil => exact ⟨rfl, (List.cons.inj h).2⟩
    | cons w ws =>
      have hbracket : ')' = ' ' := (List.cons.inj h).1
      exact absurd hbracket (by decide)
  | cons v vs ih =>
    cases ws with
    | nil =>
      have hspace : ' ' = ')' := (List.cons.inj h).1
      exact absurd hspace (by decide)
    | cons w ws =>
      obtain ⟨hv, hvs'⟩ := List.forall_mem_cons.1 hvs
      obtain ⟨hw, hws'⟩ := List.forall_mem_cons.1 hws
      simp only [spaced, List.cons_append, List.append_assoc] at h
      obtain ⟨rfl, hrests⟩ :=
        hv w hw _ _ (ends_spaced vs rest) (ends_spaced ws rest') (List.cons.inj h).2
      obtain ⟨rfl, hrest⟩ := ih hvs' hws' hrests
      exact ⟨rfl, hrest⟩

private theorem Branch.recovered (hv : Branch op vs v) (hvs : ∀ u ∈ vs, u.Recovered) : v.Recovered := by
  intro w hw rest rest' hrest hrest' h
  rcases hw.leaf_or_branch with hw | ⟨op', ws, hw⟩
  · exact (hw.not_branch hv h.symm).elim
  · rw [hv.plain, hw.plain] at h
    simp only [List.cons_append, List.append_assoc, List.nil_append] at h
    obtain ⟨hop, hoperands⟩ :=
      cut_unique hv.solid hw.solid (ends_spaced vs rest) (ends_spaced ws rest') (List.cons.inj h).2
    obtain ⟨rfl, hrests⟩ := spaced_recovered hvs hw.operands hoperands
    refine ⟨?_, hrests⟩
    rw [hv.eq_node, hw.eq_node, String.toList_inj.1 hop]

private theorem Legible.recovered (h : v.Legible) : v.Recovered := by
  induction h with
  | leaf h => exact h.recovered
  | unary hop hv ih => exact (branch_unary hop hv).recovered (List.forall_mem_singleton.2 ih)
  | binary hop hv hw ihv ihw =>
    refine (branch_binary hop hv hw).recovered ?_
    exact List.forall_mem_cons.2 ⟨ihv, List.forall_mem_singleton.2 ihw⟩
  | choice hc hv hw ihc ihv ihw =>
    refine (branch_choice hc hv hw).recovered ?_
    exact List.forall_mem_cons.2 ⟨ihc, List.forall_mem_cons.2 ⟨ihv, List.forall_mem_singleton.2 ihw⟩⟩
  | short hc hv ihc ihv =>
    refine (branch_short hc hv).recovered ?_
    exact List.forall_mem_cons.2 ⟨ihc, List.forall_mem_singleton.2 ihv⟩

/-- Legible trees that are printed alike are the same. -/
theorem Legible.eq_of_plain (hv : v.Legible) (hw : w.Legible) (h : v.plain = w.plain) : v = w := by
  have hend : Ends [] := fun _ hc => nomatch hc
  have htexts : v.plain.toList ++ [] = w.plain.toList ++ [] := by rw [h]
  exact (hv.recovered w hw [] [] hend hend htexts).1

end BindingPower.Value
