import BindingPower.Proofs.Value.Evaluation
import BindingPower.Proofs.Value.Trees

/-! What goes wrong in expressions over numbers apart from arithmetic: an operator has no value to work
on, because a branch was left out, or an order is asked of a complex number, which only a power of
numbers that are not complex can have brought in. -/
namespace BindingPower

/-- Operands that an operator is not made for. -/
def Fault.isMismatch : Fault → Bool
  | unsupported .. | badOperand .. | unordered .. => true
  | _ => false

namespace Value
variable {v w x y : Value} {f : Fault} {op : String}

/-- A number or truth value, or none because a branch was left out. -/
def Operand (v : Value) : Prop := v = .absent ∨ v.scalar?.isSome = true

def IsComplex (v : Value) : Prop := ∃ z, v = .complex z

/-! Operators -/

/-- The operators that compute with numbers. -/
def arithmeticOperators : List String := ["+", "-", "*", "/", "^"]

private theorem comparison_forms (op : String) :
    Standard.comparison op = Value.eq ∨ Standard.comparison op = Value.ne ∨
      ∃ r, Standard.comparison op = compareBy r := by
  unfold Standard.comparison
  split
  · exact .inl rfl
  · exact .inr (.inl rfl)
  all_goals exact .inr (.inr ⟨_, rfl⟩)

/-- An operator computes with numbers, or it compares. -/
theorem infixMeaning_forms (op : String) :
    op ∈ arithmeticOperators ∨ infixMeaning op = Value.eq ∨ infixMeaning op = Value.ne ∨
      ∃ r, infixMeaning op = compareBy r := by
  unfold infixMeaning
  split
  · exact .inl (by decide)
  · exact .inl (by decide)
  · exact .inl (by decide)
  · exact .inl (by decide)
  · exact .inl (by decide)
  · exact .inr (.inl rfl)
  · exact .inr (comparison_forms _)

/-- The operands there are. -/
theorem Operand.cases {P : Value → Prop} (hv : v.Operand) (habsent : P absent)
    (hbool : ∀ b, P (bool b)) (hint : ∀ i, P (int i)) (hfloat : ∀ x, P (float x))
    (hnan : ∀ m, P (nan m)) (hcomplex : ∀ z, P (complex z)) : P v := by
  cases v with
  | absent => exact habsent
  | bool b => exact hbool b
  | int i => exact hint i
  | float x => exact hfloat x
  | nan m => exact hnan m
  | complex z => exact hcomplex z
  | text | list | token | number | name | unary | binary | choice => cases hv <;> contradiction

private theorem mismatch_left (hop : op ∈ arithmeticOperators) (hw : w.Operand) :
    ∃ symbol, infixMeaning op absent w = .error (.unsupported symbol absent.kindName w.kindName) := by
  simp only [arithmeticOperators, List.mem_cons, List.not_mem_nil, or_false] at hop
  rcases hop with rfl | rfl | rfl | rfl | rfl
  all_goals apply hw.cases <;> intros <;> exact ⟨_, rfl⟩

private theorem mismatch_right (hop : op ∈ arithmeticOperators) (hv : v.Operand) :
    ∃ symbol, infixMeaning op v absent = .error (.unsupported symbol v.kindName absent.kindName) := by
  simp only [arithmeticOperators, List.mem_cons, List.not_mem_nil, or_false] at hop
  rcases hop with rfl | rfl | rfl | rfl | rfl
  all_goals apply hv.cases <;> intros <;> exact ⟨_, rfl⟩

private theorem related_operands (r : Relation) (hv : v.Operand) (hw : w.Operand) :
    v.related r w =
      match v.scalar?, w.scalar? with
      | some x, some y =>
        match x.order y with
        | some o => .ok (o.any r.holds)
        | none => .error (.unordered r.symbol v.kindName w.kindName)
      | _, _ => .error (.unordered r.symbol v.kindName w.kindName) := by
  apply hv.cases <;> intros <;> (apply hw.cases <;> intros <;> rfl)

private theorem Operand.eq_absent (hv : v.Operand) (h : v.scalar? = none) : v = absent := by
  rcases hv with rfl | hsome
  · rfl
  · rw [h] at hsome
    cases hsome

private theorem Scalar.complex_of_order {x y : Scalar} (h : x.order y = none) :
    (∃ z, x = .complex z) ∨ ∃ z, y = .complex z := by
  cases x with
  | complex z => exact .inl ⟨z, rfl⟩
  | int | float =>
    cases y with
    | complex z => exact .inr ⟨z, rfl⟩
    | int | float => cases h

private theorem isComplex_of_scalar? {z : Number.ComplexFloat} (h : v.scalar? = some (.complex z)) :
    v.IsComplex := by
  cases v <;> cases h
  exact ⟨z, rfl⟩

/-- Operands that have no order. -/
theorem compareBy_error {r : Relation} (hv : v.Operand) (hw : w.Operand)
    (h : compareBy r v w = .error f) :
    f.isMismatch = true ∧ ((v = absent ∨ w = absent) ∨ v.IsComplex ∨ w.IsComplex) := by
  rw [compareBy, related_operands r hv hw] at h
  cases hx : v.scalar? with
  | none =>
    simp only [hx] at h
    cases h
    exact ⟨rfl, .inl (.inl (hv.eq_absent hx))⟩
  | some x =>
    cases hy : w.scalar? with
    | none =>
      simp only [hx, hy] at h
      cases h
      exact ⟨rfl, .inl (.inr (hw.eq_absent hy))⟩
    | some y =>
      simp only [hx, hy] at h
      cases ho : x.order y with
      | some o =>
        rw [ho] at h
        cases h
      | none =>
        rw [ho] at h
        cases h
        refine ⟨rfl, .inr ?_⟩
        rcases Scalar.complex_of_order ho with ⟨z, rfl⟩ | ⟨z, rfl⟩
        · exact .inl (isComplex_of_scalar? hx)
        · exact .inr (isComplex_of_scalar? hy)

private theorem compareBy_ok {r : Relation} {x : Value} (h : compareBy r v w = .ok x) : ∃ b, x = .bool b := by
  unfold compareBy at h
  cases hr : v.related r w with
  | error f => rw [hr] at h; cases h
  | ok b => rw [hr] at h; exact ⟨b, (Except.ok.inj h).symm⟩

/-- Arithmetic on operands: one of them is missing, or they are numbers. -/
theorem arithmetic_operands (hop : op ∈ arithmeticOperators) (hv : v.Operand) (hw : w.Operand) :
    ((v = absent ∨ w = absent) ∧
        ∃ symbol, infixMeaning op v w = .error (.unsupported symbol v.kindName w.kindName)) ∨
      Numeric (infixMeaning op v w) := by
  rcases hv with rfl | hx
  · exact .inl ⟨.inl rfl, mismatch_left hop hw⟩
  · rcases hw with rfl | hy
    · exact .inl ⟨.inr rfl, mismatch_right hop (.inr hx)⟩
    · exact .inr (numeric_infixMeaning (List.mem_append_left ["="] hop) hx hy)

/-- What an operator raises is a failure of arithmetic, or it is asked to work on nothing, or to order
complex numbers. -/
theorem infixMeaning_error (hv : v.Operand) (hw : w.Operand) (h : infixMeaning op v w = .error f) :
    f.isArithmetic = true ∨ f.isMismatch = true ∧ ((v = absent ∨ w = absent) ∨
      (∃ r, infixMeaning op = compareBy r) ∧ (v.IsComplex ∨ w.IsComplex)) := by
  rcases infixMeaning_forms op with hop | heq | hne | ⟨r, hr⟩
  · rcases arithmetic_operands hop hv hw with ⟨hnone, symbol, hsymbol⟩ | hnumeric
    · cases h.symm.trans hsymbol
      exact .inr ⟨rfl, .inl hnone⟩
    · rw [h] at hnumeric
      exact .inl hnumeric
  · rw [heq] at h
    cases h
  · rw [hne] at h
    cases h
  · rw [hr] at h
    obtain ⟨hf, hkind⟩ := compareBy_error hv hw h
    exact .inr ⟨hf, hkind.imp_right fun hcomplex => ⟨⟨r, hr⟩, hcomplex⟩⟩

/-- The result of an operator is a number or truth value. -/
theorem infixMeaning_ok (hv : v.Operand) (hw : w.Operand) (h : infixMeaning op v w = .ok x) :
    x.scalar?.isSome = true := by
  rcases infixMeaning_forms op with hop | heq | hne | ⟨r, hr⟩
  · rcases arithmetic_operands hop hv hw with ⟨-, symbol, hsymbol⟩ | hnumeric
    · cases h.symm.trans hsymbol
    · rw [h] at hnumeric
      exact hnumeric
  · rw [heq] at h
    cases h
    rfl
  · rw [hne] at h
    cases h
    rfl
  · rw [hr] at h
    obtain ⟨b, rfl⟩ := compareBy_ok h
    rfl

/-- A sign has nothing to work on, or it makes a number, complex only if its operand is. -/
theorem signMeaning_operand (op : String) (hv : v.Operand) :
    v = absent ∧ (∃ symbol, signMeaning op v = .error (.badOperand symbol v.kindName)) ∨
      ∃ x, signMeaning op v = .ok x ∧ x.scalar?.isSome = true ∧ (x.IsComplex → v.IsComplex) := by
  unfold signMeaning
  split
  all_goals
    apply hv.cases
    · exact .inl ⟨rfl, _, rfl⟩
    all_goals
      intro a
      refine .inr ⟨_, rfl, rfl, ?_⟩
      rintro ⟨z, hz⟩
      first | cases hz; done | exact ⟨_, rfl⟩

/-! Where complex numbers come from -/

private theorem Scalar.real_combine {ints : Int → Int → Except Fault Value}
    {reals : Float → Float → Except Fault Value}
    {complexes : Number.ComplexFloat → Number.ComplexFloat → Except Fault Value}
    (hints : ∀ i j v, ints i j = .ok v → ¬ v.IsComplex)
    (hreals : ∀ x y v, reals x y = .ok v → ¬ v.IsComplex) {x y : Scalar}
    (hx : ∀ z, x ≠ .complex z) (hy : ∀ z, y ≠ .complex z)
    (h : combine ints reals complexes x y = .ok v) : ¬ v.IsComplex := by
  have hreal {x y : Scalar} (h : (do reals (← x.real) (← y.real)) = Except.ok v) : ¬ v.IsComplex := by
    cases hr : x.real with
    | error f => rw [hr] at h; cases h
    | ok a =>
      cases hs : y.real with
      | error f => rw [hr, hs] at h; cases h
      | ok b =>
        rw [hr, hs] at h
        exact hreals a b v h
  cases x with
  | complex z => exact absurd rfl (hx z)
  | int i =>
    cases y with
    | complex z => exact absurd rfl (hy z)
    | int j => exact hints i j v h
    | float b => exact hreal h
  | float a =>
    cases y with
    | complex z => exact absurd rfl (hy z)
    | int j => exact hreal h
    | float b => exact hreal h

private theorem Scalar.real_divideInts {i j : Int} (h : divideInts i j = .ok v) : ¬ v.IsComplex := by
  unfold divideInts at h
  split at h
  · cases h
  · split at h <;> cases h
    rintro ⟨z, hz⟩
    cases hz

private theorem bool_not_isComplex (b : Bool) : ¬ (bool b).IsComplex := fun ⟨_, hz⟩ => nomatch hz

private theorem int_not_isComplex (i : Int) : ¬ (int i).IsComplex := fun ⟨_, hz⟩ => nomatch hz

private theorem float_not_isComplex (x : Float) : ¬ (float x).IsComplex := fun ⟨_, hz⟩ => nomatch hz

/-- A number that is not complex, as a number of its kind. -/
theorem exists_real_scalar (hv : v.scalar?.isSome = true) (hvr : ¬ v.IsComplex) :
    ∃ a, v.scalar? = some a ∧ ∀ z, a ≠ .complex z := by
  obtain ⟨a, ha⟩ := Option.isSome_iff_exists.1 hv
  refine ⟨a, ha, ?_⟩
  rintro z rfl
  exact hvr (isComplex_of_scalar? ha)

private theorem real_arithmetic (hop : op ∈ arithmeticOperators) (hpow : op ≠ "^")
    (hv : v.scalar?.isSome = true) (hw : w.scalar?.isSome = true) (hvr : ¬ v.IsComplex)
    (hwr : ¬ w.IsComplex) (h : infixMeaning op v w = .ok x) : ¬ x.IsComplex := by
  obtain ⟨a, ha, har⟩ := exists_real_scalar hv hvr
  obtain ⟨b, hb, hbr⟩ := exists_real_scalar hw hwr
  simp only [arithmeticOperators, List.mem_cons, List.not_mem_nil, or_false] at hop
  rcases hop with rfl | rfl | rfl | rfl | rfl
  · have hadd : a.add b = .ok x := by simpa only [infixMeaning, add, ha, hb] using h
    refine Scalar.real_combine (fun i j v hv => ?_) (fun x y v hv => ?_) har hbr hadd <;> cases hv
    · exact int_not_isComplex _
    · exact float_not_isComplex _
  · have hsub : a.sub b = .ok x := by simpa only [infixMeaning, sub, ha, hb] using h
    refine Scalar.real_combine (fun i j v hv => ?_) (fun x y v hv => ?_) har hbr hsub <;> cases hv
    · exact int_not_isComplex _
    · exact float_not_isComplex _
  · have hmul : a.mul b = .ok x := by simpa only [infixMeaning, mul, ha, hb] using h
    refine Scalar.real_combine (fun i j v hv => ?_) (fun x y v hv => ?_) har hbr hmul <;> cases hv
    · exact int_not_isComplex _
    · exact float_not_isComplex _
  · have hdiv : a.div b = .ok x := by simpa only [infixMeaning, div, ha, hb] using h
    refine Scalar.real_combine (fun i j v => Scalar.real_divideInts) (fun x y v hv => ?_) har hbr hdiv
    split at hv <;> cases hv
    exact float_not_isComplex _
  · exact absurd rfl hpow

/-- Only a power makes a complex number of operands that are not. -/
theorem real_infixMeaning (hpow : op ≠ "^") (hv : v.Operand) (hw : w.Operand) (hvr : ¬ v.IsComplex)
    (hwr : ¬ w.IsComplex) (h : infixMeaning op v w = .ok x) : ¬ x.IsComplex := by
  rcases infixMeaning_forms op with hop | heq | hne | ⟨r, hr⟩
  · have hv' : v ≠ absent := by
      rintro rfl
      obtain ⟨symbol, hsymbol⟩ := mismatch_left hop hw
      cases h.symm.trans hsymbol
    have hw' : w ≠ absent := by
      rintro rfl
      obtain ⟨symbol, hsymbol⟩ := mismatch_right hop hv
      cases h.symm.trans hsymbol
    exact real_arithmetic hop hpow (hv.resolve_left hv') (hw.resolve_left hw') hvr hwr h
  · rw [heq] at h
    cases h
    exact bool_not_isComplex _
  · rw [hne] at h
    cases h
    exact bool_not_isComplex _
  · rw [hr] at h
    obtain ⟨b, rfl⟩ := compareBy_ok h
    exact bool_not_isComplex b

/-! Trees -/

/-- A leaf that holds a number as numerals denote them, or one of the words for truth values. -/
def WordLeaf (v : Value) : Prop :=
  (∃ i, v = .number (.int i)) ∨ (∃ x, v = .number (.float x)) ∨ v = .name (.text "true") ∨
    v = .name (.text "false")

/-- The value is that of a conditional whose else branch is left out and asked for. -/
inductive Omits : Value → Prop
  | omitted {c d v : Value} (hc : c.evaluate wordLeaf = .ok d) (hd : d.truth = false) :
      Omits (.choice c v .absent)
  | yes {c d v w : Value} (hc : c.evaluate wordLeaf = .ok d) (hd : d.truth = true) (h : Omits v) :
      Omits (.choice c v w)
  | otherwise {c d v w : Value} (hc : c.evaluate wordLeaf = .ok d) (hd : d.truth = false)
      (h : Omits w) : Omits (.choice c v w)

/-- The value is made from a power that is complex, of numbers that are not. -/
inductive FromPower : Value → Prop
  | power {v w x y : Value} {z : Number.ComplexFloat} (hv : v.evaluate wordLeaf = .ok x)
      (hw : w.evaluate wordLeaf = .ok y) (hx : ¬ x.IsComplex) (hy : ¬ y.IsComplex)
      (h : x.pow y = .ok (.complex z)) : FromPower (.binary (.text "^") v w)
  | operand {op : String} {v : Value} (h : FromPower v) : FromPower (.unary (.text op) v)
  | left {op : String} {v w : Value} (h : FromPower v) : FromPower (.binary (.text op) v w)
  | right {op : String} {v w : Value} (h : FromPower w) : FromPower (.binary (.text op) v w)
  | yes {c d v w : Value} (hc : c.evaluate wordLeaf = .ok d) (hd : d.truth = true)
      (h : FromPower v) : FromPower (.choice c v w)
  | otherwise {c d v w : Value} (hc : c.evaluate wordLeaf = .ok d) (hd : d.truth = false)
      (h : FromPower w) : FromPower (.choice c v w)

/-- The operator at the root raises the fault: it is applied to nothing, the value of a conditional
whose else branch is left out, or it orders a complex number that a power has made. -/
inductive Misapplied (f : Fault) : Value → Prop
  | sign {op : String} {v : Value} (hv : v.evaluate wordLeaf = .ok .absent) (homits : v.Omits)
      (h : signMeaning op .absent = .error f) : Misapplied f (.unary (.text op) v)
  | operator {op : String} {v w x y : Value} (hv : v.evaluate wordLeaf = .ok x)
      (hw : w.evaluate wordLeaf = .ok y)
      (homits : x = .absent ∧ v.Omits ∨ y = .absent ∧ w.Omits)
      (h : infixMeaning op x y = .error f) : Misapplied f (.binary (.text op) v w)
  | order {op : String} {v w x y : Value} (r : Relation) (hr : infixMeaning op = compareBy r)
      (hv : v.evaluate wordLeaf = .ok x) (hw : w.evaluate wordLeaf = .ok y)
      (hpower : x.IsComplex ∧ v.FromPower ∨ y.IsComplex ∧ w.FromPower)
      (h : compareBy r x y = .error f) : Misapplied f (.binary (.text op) v w)

/-- A value and where it has come from if it is none or has no order. -/
structure Explains (t v : Value) : Prop where
  operand : v.Operand
  omits : v = .absent → t.Omits
  fromPower : v.IsComplex → t.FromPower

/-- A failure of arithmetic, or an operator in the expression is to blame. -/
def Blames (t : Value) (f : Fault) : Prop :=
  f.isArithmetic = true ∨ f.isMismatch = true ∧ ∃ u : Value, u.Part t ∧ u.Misapplied f

/-- What an expression computes, or why it does not. -/
def Accounts (t : Value) : Except Fault Value → Prop
  | .ok v => t.Explains v
  | .error f => t.Blames f

theorem Blames.mono {t t' : Value} (h : t.Blames f) (hpart : ∀ u, Part u t → Part u t') :
    t'.Blames f :=
  h.imp_right fun ⟨hf, u, hu, hmisapplied⟩ => ⟨hf, u, hpart u hu, hmisapplied⟩

/-- A number or truth value that is not complex needs no explanation. -/
theorem explains_real {t : Value} (hv : v.scalar?.isSome = true) (hr : ¬ v.IsComplex) :
    t.Explains v :=
  ⟨.inr hv, fun h => (nomatch h ▸ hv), fun h => absurd h hr⟩

/-- What is done with the value of a part. -/
theorem accounts_bind {t u : Value} {g : Value → Except Fault Value}
    (hu : u.Accounts (u.evaluate wordLeaf)) (hpart : ∀ s, Part s u → Part s t)
    (hg : ∀ x, u.evaluate wordLeaf = .ok x → u.Explains x → t.Accounts (g x)) :
    t.Accounts (u.evaluate wordLeaf >>= g) := by
  cases hx : u.evaluate wordLeaf with
  | error f =>
    rw [hx] at hu
    exact Blames.mono hu hpart
  | ok x =>
    rw [hx] at hu
    exact hg x hx hu

theorem WordLeaf.accounts {t : Value} (h : t.WordLeaf) : t.Accounts (t.evaluate wordLeaf) := by
  obtain ⟨i, rfl⟩ | ⟨x, rfl⟩ | rfl | rfl := h
  · exact explains_real rfl (int_not_isComplex i)
  · exact explains_real rfl (float_not_isComplex x)
  · exact explains_real rfl (bool_not_isComplex true)
  · exact explains_real rfl (bool_not_isComplex false)

private theorem accounts_unary {t : Value} (op : String) (ht : t.Accounts (t.evaluate wordLeaf)) :
    (unary (text op) t).Accounts ((unary (text op) t).evaluate wordLeaf) := by
  rw [evaluate]
  refine accounts_bind ht (fun _ => .operand) fun x hx he => ?_
  rcases signMeaning_operand op he.operand with ⟨rfl, symbol, hsign⟩ | ⟨y, hsign, hy, hcomplex⟩
  · rw [hsign]
    exact .inr ⟨rfl, _, .self, .sign hx (he.omits rfl) hsign⟩
  · rw [hsign]
    refine ⟨.inr hy, fun h => ?_, fun hz => .operand (he.fromPower (hcomplex hz))⟩
    rw [h] at hy
    cases hy

private theorem accounts_binary {t u : Value} (op : String) (ht : t.Accounts (t.evaluate wordLeaf))
    (hu : u.Accounts (u.evaluate wordLeaf)) :
    (binary (text op) t u).Accounts ((binary (text op) t u).evaluate wordLeaf) := by
  rw [evaluate]
  refine accounts_bind ht (fun _ => .left) fun x hx hex => ?_
  refine accounts_bind hu (fun _ => .right) fun y hy hey => ?_
  cases h : infixMeaning op x y with
  | error f =>
    rcases infixMeaning_error hex.operand hey.operand h with harith | ⟨hf, hnone | ⟨⟨r, hr⟩, hz⟩⟩
    · exact .inl harith
    · refine .inr ⟨hf, _, .self, .operator hx hy ?_ h⟩
      exact hnone.imp (fun hx => ⟨hx, hex.omits hx⟩) fun hy => ⟨hy, hey.omits hy⟩
    · refine .inr ⟨hf, _, .self, .order r hr hx hy ?_ (hr ▸ h)⟩
      exact hz.imp (fun hx => ⟨hx, hex.fromPower hx⟩) fun hy => ⟨hy, hey.fromPower hy⟩
  | ok v =>
    have hv := infixMeaning_ok hex.operand hey.operand h
    refine ⟨.inr hv, fun hnone => ?_, ?_⟩
    · rw [hnone] at hv
      cases hv
    · rintro ⟨z, rfl⟩
      -- The power that has made the number, here or in an operand.
      by_cases hxz : x.IsComplex
      · exact .left (hex.fromPower hxz)
      by_cases hyz : y.IsComplex
      · exact .right (hey.fromPower hyz)
      by_cases hop : op = "^"
      · subst hop
        exact .power hx hy hxz hyz h
      · exact absurd ⟨z, rfl⟩ (real_infixMeaning hop hex.operand hey.operand hxz hyz h)

private theorem accounts_choice {c t u : Value} (hc : c.Accounts (c.evaluate wordLeaf))
    (ht : t.Accounts (t.evaluate wordLeaf)) (hu : u = .absent ∨ u.Accounts (u.evaluate wordLeaf)) :
    (choice c t u).Accounts ((choice c t u).evaluate wordLeaf) := by
  rw [evaluate]
  refine accounts_bind hc (fun _ => .cond) fun b hb _ => ?_
  refine accounts_bind ht (fun _ => .yes) fun x hx hex => ?_
  rcases hu with rfl | hu
  · show Explains _ (if b.truth then x else absent)
    cases hd : b.truth with
    | true => exact ⟨hex.operand, fun h => .yes hb hd (hex.omits h), fun h => .yes hb hd (hex.fromPower h)⟩
    | false => exact ⟨.inl rfl, fun _ => .omitted hb hd, fun ⟨z, hz⟩ => nomatch hz⟩
  · refine accounts_bind hu (fun _ => .otherwise) fun y hy hey => ?_
    show Explains _ (if b.truth then x else y)
    cases hd : b.truth with
    | true => exact ⟨hex.operand, fun h => .yes hb hd (hex.omits h), fun h => .yes hb hd (hex.fromPower h)⟩
    | false =>
      exact ⟨hey.operand, fun h => .otherwise hb hd (hey.omits h),
        fun h => .otherwise hb hd (hey.fromPower h)⟩

/-- An expression over numbers and truth values computes an operand, or a failure of arithmetic, or an
operator in it is misapplied. -/
theorem Tree.accounts {t : Value} (h : t.Tree WordLeaf) : t.Accounts (t.evaluate wordLeaf) := by
  induction h with
  | leaf h => exact h.accounts
  | unary _ ih => exact accounts_unary _ ih
  | binary _ _ ihv ihw => exact accounts_binary _ ihv ihw
  | choice _ _ _ ihc ihv ihw => exact accounts_choice ihc ihv (.inr ihw)
  | short _ _ ihc ihv => exact accounts_choice ihc ihv (.inl rfl)

end Value

end BindingPower
