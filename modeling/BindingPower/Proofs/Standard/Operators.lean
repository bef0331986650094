import BindingPower.Proofs.Grammar.Strata
import BindingPower.Proofs.Standard.Drawing

/-! The operators that the tables that build trees have in common, and the nodes they build. -/
namespace BindingPower

namespace Token
variable {t : Token Value} {op : String} {p : Int} {a : Assoc}

/-- An infix operator that builds nodes. -/
structure Binds (t : Token Value) (op : String) (p : Int) (a : Assoc) : Prop where
  lbp : t.lbp = p
  assoc : t.shape.assoc = some a
  value : ∀ x y, t.kind.infixValue? x y = some (.binary (.text op) x y)

/-- A sign before an operand that builds nodes. -/
structure Signs (t : Token Value) (op : String) : Prop where
  isPrefix : t.shape.isPrefix = true
  power : t.shape.prefixPower = prefixPower
  value : ∀ x, t.kind.prefixValue? x = some (.unary (.text op) x)

theorem Binds.operandPower (h : t.Binds op p a) : t.shape.operandPower = rightPower p a := by
  rw [Shape.operandPower_of_assoc h.assoc, lbp_shape, h.lbp]

end Token

section
variable {S : Type} {token : S → Token Value} {l h l₁ h₁ l₂ h₂ p : Int} {a : Assoc} {op : String}
  {s : S} {ss us : List S} {v w : Value}

theorem Spelled.binary (hx : Spelled token l₁ h₁ ss v) (hy : Spelled token l₂ h₂ us w)
    (hs : (token s).Binds op p a) (hj : Shape.Joins ⟨none, p, .infixOp a⟩ l h l₁ h₁ l₂ h₂) :
    Spelled token l h (ss ++ s :: us) (.binary (.text op) v w) := by
  have hassoc : (shapes token s).assoc = some a := hs.assoc
  refine hx.infixed hy (by rw [hassoc, Option.isSome_some]) ?_ (hs.value v w)
  have hlbp : (shapes token s).lbp = p := hs.lbp
  have hpower : (shapes token s).operandPower = rightPower p a := hs.operandPower
  rwa [Shape.Joins, hlbp, hassoc, hpower]

theorem Spelled.sign (hx : Spelled token l₁ h₁ ss v) (hs : (token s).Signs op)
    (hp : Token.prefixPower ≤ l₁) (hh : h ≤ Token.prefixPower) (hh₁ : h ≤ h₁) :
    Spelled token l h (s :: ss) (.unary (.text op) v) := by
  have hpower : (shapes token s).prefixPower = Token.prefixPower := hs.power
  refine hx.prefixed hs.isPrefix ?_ ?_ hh₁ (hs.value v)
  · rwa [hpower]
  · rwa [hpower]

end

namespace Standard

def signs : List String := ["+", "-"]

def factors : List String := ["*", "/"]

variable {s : Standard}

private theorem lookup_of_mem {V : Type} {es : Entries V} (h : es.keys.Nodup) {k : String}
    {t : Token V} (hm : (k, t) ∈ es) : es.lookup k = some t := by
  induction es with
  | nil => cases hm
  | cons e es ih =>
    obtain ⟨hne, h⟩ := List.nodup_cons.1 h
    rcases List.mem_cons.1 hm with rfl | hm
    · exact List.lookup_cons_self
    · have hk : (k == e.1) = false :=
        beq_false_of_ne fun he => hne (List.mem_map.2 ⟨(k, t), hm, he⟩)
      rw [List.lookup_cons, hk]
      exact ih h hm

private theorem token_of_mem {lexeme : String} {t : Token Value} (h : (lexeme, t) ∈ s.entries) :
    s.token lexeme = t := by
  have hl : s.table.lookup lexeme = some t := lookup_of_mem s.nodup_entries h
  rw [token, hl, Option.getD_some]

/-- The operators that build nodes are entries of both tables. -/
theorem building_entries (hs : s.BuildsTrees) : s.building ⊆ s.entries := by
  intro e he
  rcases hs with rfl | rfl
  · exact List.mem_append_left _ (List.mem_append_right _ (List.mem_cons_of_mem _ he))
  · exact List.mem_append_right _ he

private theorem signs_building {op : String} (h : op ∈ signs) :
    s.signEntry op (Value.binaryNode op) (Value.unaryNode op) ∈ s.building := by
  simp only [signs, List.mem_cons, List.not_mem_nil, or_false] at h
  rcases h with rfl | rfl
  · exact .head _
  · exact .tail _ (.head _)

private theorem factors_building {op : String} (h : op ∈ factors) :
    s.infixEntry op 30 .left (Value.binaryNode op) ∈ s.building := by
  simp only [factors, List.mem_cons, List.not_mem_nil, or_false] at h
  rcases h with rfl | rfl
  · exact .tail _ (.tail _ (.head _))
  · exact .tail _ (.tail _ (.tail _ (.head _)))

private theorem binds_infixEntry {op : String} {p : Int} {a : Assoc} (hs : s.BuildsTrees)
    (h : s.infixEntry op p a (Value.binaryNode op) ∈ s.building) : (s.token op).Binds op p a := by
  rw [token_of_mem (building_entries hs h)]
  exact ⟨rfl, rfl, fun _ _ => rfl⟩

theorem binds_signs (hs : s.BuildsTrees) : ∀ op ∈ signs, (s.token op).Binds op 20 .left := by
  intro op hop
  rw [token_of_mem (building_entries hs (signs_building hop))]
  exact ⟨rfl, rfl, fun _ _ => rfl⟩

theorem signs_signs (hs : s.BuildsTrees) : ∀ op ∈ signs, (s.token op).Signs op := by
  intro op hop
  rw [token_of_mem (building_entries hs (signs_building hop))]
  exact ⟨rfl, rfl, fun _ => rfl⟩

theorem binds_factors (hs : s.BuildsTrees) : ∀ op ∈ factors, (s.token op).Binds op 30 .left :=
  fun _ hop => binds_infixEntry hs (factors_building hop)

theorem binds_power (hs : s.BuildsTrees) : (s.token "^").Binds "^" 40 .right :=
  binds_infixEntry hs (List.mem_of_mem_getLast? rfl)

/-- A token bears the lexeme it is found under as its name. -/
theorem name_entries (s : Standard) : ∀ e ∈ s.entries, e.2.name = some e.1 := by
  cases s <;> decide

/-- A token that is no literal is the table's token of its name. -/
theorem Draws.eq_token (hs : s.BuildsTrees) {t : Token Value} (h : s.Draws t)
    (hf : t.shape.form ≠ .literal) : ∃ lexeme, (lexeme, t) ∈ s.entries ∧ t = s.token lexeme := by
  rcases h.entry_or_literal hs with ⟨lexeme, h⟩ | ⟨-, text, v, rfl, -, -⟩
  · exact ⟨lexeme, h, (token_of_mem h).symm⟩
  · exact absurd rfl hf

/-- A delimiter is the table's token of its name. -/
theorem Draws.eq_delimiter (hs : s.BuildsTrees) {t : Token Value} (h : s.Draws t) {m : String}
    (hd : t.shape.Delimits m) : t = s.token m := by
  have hf : t.shape.form ≠ .literal := fun he => by cases hd.2.symm.trans he
  obtain ⟨lexeme, hmem, ht⟩ := h.eq_token hs hf
  have hn : t.name = some lexeme := s.name_entries _ hmem
  obtain rfl : lexeme = m := Option.some.inj (hn.symm.trans hd.1)
  exact ht

/-- What holds of the shapes of all entries and of literals holds of all tokens of a table. -/
theorem Draws.shape_induction (hs : s.BuildsTrees) {t : Token Value} (h : s.Draws t)
    {P : Shape → Prop} (he : ∀ e ∈ s.entries, P e.2.shape) (hl : ∀ text, P ⟨some text, 0, .literal⟩) :
    P t.shape := by
  rcases h.entry_or_literal hs with ⟨lexeme, h⟩ | ⟨-, text, v, rfl, -, -⟩
  · exact he _ h
  · exact hl text

private theorem Draws.lifts (hs : s.BuildsTrees) {t : Token Value} (h : s.Draws t) {o : Shape} {q : Int}
    (he : ∀ e ∈ s.entries, e.2.shape.Lifts o q) : t.shape.Lifts o q :=
  h.shape_induction hs (P := fun shape => shape.Lifts o q) he fun _ =>
    ⟨by simp [Shape.assoc, Shape.isTernary], by simp [Shape.isPrefix], by simp [Shape.isSuffix]⟩

/-- The prefix operators of the tables are signs. -/
theorem prefixPower_entries (hs : s.BuildsTrees) :
    ∀ e ∈ s.entries, e.2.shape.isPrefix = true → Token.prefixPower ≤ e.2.shape.prefixPower := by
  rcases hs with rfl | rfl
  · decide
  · decide

end Standard

section
variable {S : Type} {s : Standard} {token : S → Token Value} {x y : ParseTree S} {t : S}
  {v : Value} {op : String} {q q₁ q₂ : Int}

/-- What is on top of an operand before an operator. -/
theorem Standard.tight_of_precedes (hs : s.BuildsTrees) (hmem : ∀ t ∈ x.yield, s.Draws (token t))
    (hwf : x.WellFormed (shapes token)) {o : Shape} (hl : ∀ e ∈ s.entries, e.2.shape.Lifts o q)
    (h : x.Precedes (shapes token) o) : x.Tight (shapes token) q :=
  h.tight hwf fun t ht => (hmem t ht).lifts hs hl

/-- What is on top of a last operand. -/
theorem Standard.tight_of_above (hs : s.BuildsTrees) (hmem : ∀ t ∈ x.yield, s.Draws (token t))
    (hwf : x.WellFormed (shapes token)) {p : Int} (hq : q ≤ p + 1) (hq' : q ≤ Token.prefixPower)
    (h : x.Above (shapes token) p) : x.Tight (shapes token) q := by
  refine h.tight hwf hq fun t ht hp => ?_
  have hpower : (token t).shape.isPrefix = true → Token.prefixPower ≤ (token t).shape.prefixPower :=
    (hmem t ht).shape_induction hs
      (P := fun s => s.isPrefix = true → Token.prefixPower ≤ s.prefixPower)
      (prefixPower_entries hs) fun _ h => by cases h
  exact Int.le_trans hq' (hpower hp)

theorem Standard.tight_zero (hs : s.BuildsTrees) (hmem : ∀ t ∈ x.yield, s.Draws (token t)) :
    x.Tight (shapes token) 0 :=
  ParseTree.tight_zero fun t ht => ((hmem t ht).regular hs).shape

/-- What is on top of the operands of a binary operator, and the node they make. -/
theorem Standard.infixed_operands (hs : s.BuildsTrees)
    (hmem : ∀ u ∈ (ParseTree.infixed t x y).yield, s.Draws (token u))
    (hwf : (ParseTree.infixed t x y).WellFormed (shapes token))
    (hpc : (ParseTree.infixed t x y).PrecedenceCorrect (shapes token))
    (hv : (ParseTree.infixed t x y).value? token = some v) {p : Int} {a : Assoc}
    (hb : (token t).Binds op p a) (hl : ∀ e ∈ s.entries, e.2.shape.Lifts (token t).shape q₁)
    (hq : q₂ ≤ rightPower p a + 1) (hq' : q₂ ≤ Token.prefixPower) :
    x.Tight (shapes token) q₁ ∧ y.Tight (shapes token) q₂ ∧
      ∃ u w, x.value? token = some u ∧ y.value? token = some w ∧ v = .binary (.text op) u w := by
  obtain ⟨hmemx, hmem⟩ := List.forall_mem_append.1 hmem
  obtain ⟨-, hmemy⟩ := List.forall_mem_cons.1 hmem
  obtain ⟨-, hwfx, hwfy⟩ := hwf
  obtain ⟨-, -, hprec, habove⟩ := hpc
  obtain ⟨u, hu, hv⟩ := Option.bind_eq_some_iff.1 hv
  obtain ⟨w, hw, hfn⟩ := Option.bind_eq_some_iff.1 hv
  have hpower : (shapes token t).operandPower = rightPower p a := hb.operandPower
  rw [hpower] at habove
  exact ⟨tight_of_precedes hs hmemx hwfx hl hprec, tight_of_above hs hmemy hwfy hq hq' habove,
    u, w, hu, hw, Option.some.inj (hfn.symm.trans (hb.value u w))⟩

/-- What is on top of the operand of a sign, and the node it makes. -/
theorem Standard.prefixed_operand (hs : s.BuildsTrees)
    (hmem : ∀ u ∈ (ParseTree.prefixed t x).yield, s.Draws (token u))
    (hwf : (ParseTree.prefixed t x).WellFormed (shapes token))
    (hpc : (ParseTree.prefixed t x).PrecedenceCorrect (shapes token))
    (hv : (ParseTree.prefixed t x).value? token = some v) (ht : (token t).Signs op)
    (hq : q ≤ Token.prefixPower) :
    x.Tight (shapes token) q ∧ ∃ w, x.value? token = some w ∧ v = .unary (.text op) w := by
  obtain ⟨-, hmemx⟩ := List.forall_mem_cons.1 hmem
  obtain ⟨w, hw, hfn⟩ := Option.bind_eq_some_iff.1 hv
  obtain ⟨-, habove⟩ := hpc
  have hpower : (shapes token t).prefixPower = Token.prefixPower := ht.power
  rw [hpower] at habove
  exact ⟨tight_of_above hs hmemx hwf.2 (by omega) hq habove, w, hw,
    Option.some.inj (hfn.symm.trans (ht.value w))⟩

end

end BindingPower
