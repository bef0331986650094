import BindingPower.Proofs.Grammar.Viability

/-! Tokens whose functions do not fail make a grammar in which every parse can be completed. -/
namespace BindingPower
variable {V : Type} {W : Token V → Prop} {Good : V → Prop}

/-- On good values the functions of the kind have good results. A digit joins its operand or
refuses it. -/
def Kind.Total (Good : V → Prop) : Kind V → Prop
  | literal v => Good v
  | digit d make extend joins => (∃ v, make d = .ok v ∧ Good v) ∧
      ∀ v, Good v → joins v = .ok false ∨ joins v = .ok true ∧ ∃ w, extend v d = .ok w ∧ Good w
  | infixOp _ fn => ∀ v w, Good v → Good w → ∃ u, fn v w = .ok u ∧ Good u
  | prefixOp _ fn | postfixOp fn => ∀ v, Good v → ∃ u, fn v = .ok u ∧ Good u
  | bifix _ fn _ prefixFn => (∀ v w, Good v → Good w → ∃ u, fn v w = .ok u ∧ Good u) ∧
      ∀ v, Good v → ∃ u, prefixFn v = .ok u ∧ Good u
  | group _ wrap => ∀ fn, wrap = some fn → ∀ v, Good v → ∃ u, fn v = .ok u ∧ Good u
  | ternary _ fn =>
      ∀ c v w, Good c → Good v → Good w → ∃ u, fn c v w = .ok u ∧ Good u
  | conditional _ _ _ fn => ∀ c v, Good c → Good v →
      (∃ u, fn c v none = .ok u ∧ Good u) ∧ ∀ w, Good w → ∃ u, fn c v (some w) = .ok u ∧ Good u
  | _ => True

theorem Ready.finish {ended : Bool} {e : Except Fault V} (h : ∃ v, e = .ok v ∧ Good v) :
    Ready W Good ended (.finish e) := by
  obtain ⟨v, rfl, hv⟩ := h
  exact .done hv

/-- A delimiter that the grammar has. -/
def Closes (W : Token V → Prop) (m : String) : Prop :=
  m ≠ Token.endName ∧ ∃ d, W d ∧ d.name = some m ∧ d.lbp = 0

theorem Closes.expect {m : String} (h : Closes W m) {next : Option Profile → Action V V}
    (hnext : ∀ p, Ready W Good false (next p)) : Ready W Good true (.expect (.named m) next) := by
  obtain ⟨hm, d, hd, hn, hl⟩ := h
  exact .expect hd hn hl hm hnext

theorem Closes.attempt {m : String} (h : Closes W m) {next : Bool → Action V V}
    (htrue : Ready W Good false (next true)) (hfalse : Ready W Good true (next false)) :
    Ready W Good true (.attempt (.named m) next) := by
  obtain ⟨hm, d, hd, hn, hl⟩ := h
  exact .attempt hd hn hl hm htrue hfalse

/-- The end of an infix operator refuses nothing that does not bind. -/
theorem Ready.combine {lbp : Int} {name : Option String} {a : Assoc} {fn : V → V → Except Fault V}
    {v w : V} (hl : 1 ≤ lbp) (h : ∃ u, fn v w = .ok u ∧ Good u) :
    Ready W Good true (Kind.combine lbp name a fn v w) := by
  obtain ⟨u, hu, hg⟩ := h
  by_cases ha : a = .none
  · rw [Kind.combine, if_pos ha, hu]
    refine .look hg fun t pos => ?_
    by_cases hc : Kind.chains lbp (some t.profile) = true
    · have ht : t.lbp = lbp := by
        simp only [Kind.chains, Option.any_some, Bool.and_eq_true, decide_eq_true_eq] at hc
        exact hc.1
      rw [if_pos hc]
      exact .inr ⟨by omega, _, rfl⟩
    · rw [if_neg hc]
      exact .inl rfl
  · rw [Kind.combine, if_neg ha, hu]
    exact .done hg

namespace Token.Regular
variable {t : Token V}

private theorem ready_nud (ht : t.Regular) (htotal : t.kind.Total Good)
    (hm : ∀ m ∈ t.shape.marks, Closes W m) {a : Action V V} (ha : t.nud = some a) :
    Ready W Good false a := by
  obtain ⟨identity, lbp, name, k⟩ := t
  have hk : k.HasForm k.form := ht.hasForm
  have hs : Shape.Regular ⟨name, lbp, k.form⟩ := ht.shape
  have hm : ∀ m ∈ Shape.marks ⟨name, lbp, k.form⟩, Closes W m := hm
  generalize k.form = f at hk hs hm
  cases hk with
  | literal v =>
    cases ha
    exact .done htotal
  | digit d make extend joins =>
    cases ha
    exact .finish htotal.1
  | prefixOp r fn =>
    cases ha
    exact .expression hs.2 fun v hv => .finish (htotal v hv)
  | bifix b fn r prefixFn =>
    cases ha
    exact .expression hs.2 fun v hv => .finish (htotal.2 v hv)
  | group c wrap =>
    cases ha
    have hc : Closes W c := hm c List.mem_cons_self
    refine .expression (Int.le_refl 0) fun v hv => hc.expect fun _ => ?_
    cases wrap with
    | none => exact .done hv
    | some fn => exact .finish (htotal fn rfl v hv)
  | conditional a b c fn =>
    cases ha
    obtain ⟨hthen, hm⟩ := List.forall_mem_cons.1 hm
    obtain ⟨helse, hm⟩ := List.forall_mem_cons.1 hm
    have hend : Closes W c := hm c List.mem_cons_self
    refine .expression (Int.le_refl 0) fun u hu => hthen.expect fun _ =>
      .expression (Int.le_refl 0) fun v hv => helse.attempt ?_ ?_
    · exact .expression (Int.le_refl 0) fun w hw => hend.expect fun _ =>
        .finish ((htotal u v hu hv).2 w hw)
    · exact hend.expect fun _ => .finish (htotal u v hu hv).1
  | _ => cases ha

private theorem ready_led (ht : t.Regular) (htotal : t.kind.Total Good)
    (hm : ∀ m ∈ t.shape.marks, Closes W m) {f : V → Action V V} (hf : t.led = some f) {v : V}
    (hv : Good v) : Ready W Good false (f v) ∨ f v = t.refusal := by
  obtain ⟨identity, lbp, name, k⟩ := t
  have hk : k.HasForm k.form := ht.hasForm
  have hs : Shape.Regular ⟨name, lbp, k.form⟩ := ht.shape
  have hm : ∀ m ∈ Shape.marks ⟨name, lbp, k.form⟩, Closes W m := hm
  generalize k.form = f at hk hs hm
  cases hk with
  | digit d make extend joins =>
    cases hf
    rcases htotal.2 v hv with hj | ⟨hj, hw⟩
    · right
      dsimp only
      rw [hj]
      rfl
    · left
      dsimp only
      rw [hj]
      exact .finish hw
  | infixOp a fn =>
    cases hf
    exact .inl (.expression (Shape.Regular.operandPower_nonneg hs) fun w hw =>
      .combine hs (htotal v w hv hw))
  | bifix a fn r prefixFn =>
    cases hf
    exact .inl (.expression (Shape.Regular.operandPower_nonneg hs) fun w hw =>
      .combine hs.1 (htotal.1 v w hv hw))
  | postfixOp fn =>
    cases hf
    exact .inl (.finish (htotal v hv))
  | ternary m fn =>
    cases hf
    have hc : Closes W m := hm m List.mem_cons_self
    exact .inl (.expression (Int.le_refl 0) fun u hu => hc.expect fun _ =>
      .expression (Shape.Regular.operandPower_nonneg hs) fun w hw =>
        .finish (htotal v u w hv hu hw))
  | _ => cases hf

end Token.Regular

/-- Regular tokens with functions that do not fail, with all their delimiters and an operand. -/
theorem Productive.of_total (hreg : ∀ t, W t → t.Regular) (htotal : ∀ t, W t → t.kind.Total Good)
    (hm : ∀ t, W t → ∀ m ∈ t.shape.marks, Closes W m)
    (ho : ∃ t v, W t ∧ t.nud = some (.done v) ∧ Good v) : Productive W Good where
  regular := hreg
  start t ht _ ha := (hreg t ht).ready_nud (htotal t ht) (hm t ht) ha
  follow t ht _ hf _ hv := (hreg t ht).ready_led (htotal t ht) (hm t ht) hf hv
  operand := ho

end BindingPower
