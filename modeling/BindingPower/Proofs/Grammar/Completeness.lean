import BindingPower.Proofs.Grammar.Soundness

/-! Every tree that groups its operators as their binding powers say is what the parser makes of the
yield of the tree. -/
namespace BindingPower
variable {S V α β : Type}

@[simp] theorem Outcome.andThen_mk_ok (a : α) (p : Parser V) (f : α → Parser V → Outcome V β) :
    (⟨.ok a, p⟩ : Outcome V α).andThen f = f a p := rfl

private theorem Action.run_finish_of_eq {expr : Int → Parser V → Outcome V V} {e : Except Fault α} {v : α}
    (p : Parser V) (h : e.toOption = some v) : (Action.finish e).run expr p = ⟨.ok v, p⟩ :=
  Action.run_finish_eq_ok.2 ⟨h, rfl⟩

namespace ParseTree
variable {shape : S → Shape} {x : ParseTree S} {power : Int}

/-- In a tree that fits its labels no operator binds as little as a delimiter does. -/
theorem WellFormed.above_zero (h : x.WellFormed shape) (hr : ∀ s ∈ x.yield, (shape s).Regular) :
    x.Above shape 0 := by
  induction x with
  | postfixed s x ih =>
    have hs : s ∈ (postfixed s x).yield := List.mem_append_right _ List.mem_cons_self
    exact List.forall_mem_cons.2 ⟨(hr s hs).lbp_pos_of_isSuffix h.1,
      ih h.2 fun t ht => hr t (List.mem_append_left _ ht)⟩
  | infixed s x y ihx =>
    have hs : s ∈ (infixed s x y).yield := List.mem_append_right _ List.mem_cons_self
    obtain ⟨a, ha⟩ := Option.isSome_iff_exists.1 h.1
    exact List.forall_mem_cons.2 ⟨(hr s hs).lbp_pos_of_assoc ha,
      ihx h.2.1 fun t ht => hr t (List.mem_append_left _ ht)⟩
  | ternary s c y d z ihc =>
    have hs : s ∈ (ternary s c y d z).yield := List.mem_append_right _ List.mem_cons_self
    obtain ⟨⟨m, hm, -⟩, hc, -⟩ := h
    exact List.forall_mem_cons.2 ⟨(hr s hs).lbp_pos_of_ternary hm,
      ihc hc fun t ht => hr t (List.mem_append_left _ ht)⟩
  | leaf | prefixed | grouped | conditional | alternative => exact List.forall_mem_nil _

/-- No operand reaches past a delimiter. -/
theorem ends_zero (hr : ∀ s ∈ x.yield, (shape s).Regular) : x.Ends shape 0 := by
  induction x with
  | prefixed s x ih =>
    obtain ⟨hs, hx⟩ := List.forall_mem_cons.1 hr
    exact List.forall_mem_cons.2 ⟨hs.prefixPower_nonneg, ih hx⟩
  | infixed s x y _ ih =>
    obtain ⟨hs, hy⟩ := List.forall_mem_cons.1 (List.forall_mem_append.1 hr).2
    exact List.forall_mem_cons.2 ⟨hs.operandPower_nonneg, ih hy⟩
  | ternary s c y d z _ _ ih =>
    obtain ⟨hs, hy⟩ := List.forall_mem_cons.1 (List.forall_mem_append.1 hr).2
    have hz := (List.forall_mem_cons.1 (List.forall_mem_append.1 hy).2).2
    exact List.forall_mem_cons.2 ⟨hs.operandPower_nonneg, ih hz⟩
  | leaf | postfixed | grouped | conditional | alternative => exact List.forall_mem_nil _

/-- An operator that the last operand does not take in is not chained to it either. -/
theorem Above.precedes (h : x.Above shape power) {o : Shape} (ho : o.lbp ≤ power)
    (he : x.Ends shape o.lbp) : x.Precedes shape o := by
  refine ⟨he, fun _ hc => ?_⟩
  cases x with
  | infixed s x y =>
    have hlt := h _ List.mem_cons_self
    rw [hc.1] at hlt
    omega
  | _ => exact hc

end ParseTree

variable {token : S → Token V} {W : S → Prop}

/-- On the yield of the tree the parser makes its value, and goes on with what follows. -/
def Reaches (token : S → Token V) (W : S → Prop) (x : ParseTree S) : Prop :=
  ∀ v rest r k, x.WellFormed (shapes token) → x.PrecedenceCorrect (shapes token) →
    x.value? token = some v → (∀ s ∈ x.yield ++ rest, W s) → x.Above (shapes token) r →
    x.Precedes (shapes token) (ahead token rest).shape →
    ∃ j, (Parser.facing none k ((x.yield ++ rest).map token)).expression r =
      (Parser.facing none j (rest.map token)).operators r v

/-- An operand before a token that it does not take in. -/
theorem Reaches.operand {x : ParseTree S} (hx : Reaches token W x) {v : V} {rest : List S} {r : Int}
    (k : Int) (hwf : x.WellFormed (shapes token)) (hpc : x.PrecedenceCorrect (shapes token))
    (hv : x.value? token = some v) (hmem : ∀ s ∈ x.yield ++ rest, W s)
    (ha : x.Above (shapes token) r) (hr : (ahead token rest).lbp ≤ r)
    (he : x.Ends (shapes token) (ahead token rest).lbp) :
    ∃ j, (Parser.facing none k ((x.yield ++ rest).map token)).expression r =
      ⟨.ok v, .facing none j (rest.map token)⟩ := by
  obtain ⟨j, hj⟩ := hx v rest r k hwf hpc hv hmem ha (ha.precedes hr he)
  exact ⟨j, hj.trans (Parser.operators_facing_le v hr)⟩

/-- An operand before the delimiter that its handler demands next. -/
theorem Reaches.delimited (hW : Vocabulary token W) {x : ParseTree S} (hx : Reaches token W x) {v : V}
    {d : S} {rest : List S} {m : String} (k : Int) (hwf : x.WellFormed (shapes token))
    (hpc : x.PrecedenceCorrect (shapes token)) (hv : x.value? token = some v)
    (hmem : ∀ s ∈ x.yield ++ d :: rest, W s) (hd : (token d).shape.Delimits m) :
    ∃ j, (Parser.facing none k ((x.yield ++ d :: rest).map token)).expression 0 =
      ⟨.ok v, .facing none j (token d :: rest.map token)⟩ := by
  obtain ⟨hx', hrest⟩ := List.forall_mem_append.1 hmem
  have hreg : ∀ s ∈ x.yield, (shapes token s).Regular := fun s hs => (hW.regular s (hx' s hs)).shape
  have hlbp : (token d).lbp = 0 :=
    (hW.regular d (hrest d List.mem_cons_self)).shape.lbp_of_delimits hd
  refine hx.operand k hwf hpc hv hmem (hwf.above_zero hreg) (Int.le_of_eq hlbp) ?_
  rw [ahead_cons, hlbp]
  exact ParseTree.ends_zero hreg

/-- A delimiter that is there is consumed. -/
theorem expect_complete (hW : Vocabulary token W) {d : S} {rest : List S} {m : String}
    (hrest : ∀ s ∈ rest, W s) (hd : (token d).shape.Delimits m) (k : Int) :
    (Parser.facing none k (token d :: rest.map token)).expect (.named m) =
      ⟨.ok (some (token d)), .facing none (k + 1) (rest.map token)⟩ :=
  Parser.expect_facing_of_name (hW.isEnd hrest) (.inl rfl) hd.1

/-- A handler that parses an operand, demands a delimiter and goes on with `next`. -/
theorem Reaches.demanded (hW : Vocabulary token W) {x : ParseTree S} (hx : Reaches token W x) {v : V}
    {d : S} {rest : List S} {m : String} (k : Int) (hwf : x.WellFormed (shapes token))
    (hpc : x.PrecedenceCorrect (shapes token)) (hv : x.value? token = some v)
    (hmem : ∀ s ∈ x.yield ++ d :: rest, W s) (hd : (token d).shape.Delimits m)
    (next : V → Action V V) :
    ∃ j, (Action.expression 0 fun u => .expect (.named m) fun _ => next u).run Parser.expression
        (.facing none k ((x.yield ++ d :: rest).map token)) =
      (next v).run Parser.expression (.facing none j (rest.map token)) := by
  obtain ⟨j, hj⟩ := hx.delimited hW k hwf hpc hv hmem hd
  have hrest := (List.forall_mem_cons.1 (List.forall_mem_append.1 hmem).2).2
  refine ⟨j + 1, ?_⟩
  rw [Action.run, hj, Outcome.andThen_mk_ok, Action.run, expect_complete hW hrest hd,
    Outcome.andThen_mk_ok]

/-- A token with a handler at the start of an expression. -/
theorem start_complete (hW : Vocabulary token W) {s : S} {rest : List S} (hmem : ∀ t ∈ s :: rest, W t)
    {nud : Action V V} (hnud : (token s).nud = some nud) (k r : Int) :
    (Parser.facing none k ((s :: rest).map token)).expression r =
      (nud.run Parser.expression (.facing none (k + 1) (rest.map token))).andThen fun v q =>
        q.operators r v := by
  rw [List.map_cons, Parser.expression_facing_cons
    (hW.isEnd (List.forall_mem_cons.1 hmem).2) (.inl rfl), hnud]

/-- A token with a handler after an operand, and tight enough. -/
theorem follow_complete (hW : Vocabulary token W) {s : S} {rest : List S}
    (hmem : ∀ t ∈ s :: rest, W t) {led : V → Action V V} (hled : (token s).led = some led) {r : Int}
    (hr : r < (token s).lbp) (k : Int) (u : V) :
    (Parser.facing none k ((s :: rest).map token)).operators r u =
      ((led u).run Parser.expression (.facing none (k + 1) (rest.map token))).andThen fun v q =>
        q.operators r v := by
  rw [List.map_cons, Parser.operators_facing_lt u
    (hW.isEnd (List.forall_mem_cons.1 hmem).2) (.inl rfl) hr, hled]

section
variable {s d m e : S} {c x y : ParseTree S}

private theorem reaches_leaf (hW : Vocabulary token W) (s : S) : Reaches token W (.leaf s) := by
  intro v rest r k hwf _ hv hmem _ _
  have hs : W s := hmem s List.mem_cons_self
  obtain ⟨e, hnud, he⟩ := (hW.regular s hs).starts.of_isOperand hwf
  refine ⟨k + 1, (start_complete hW hmem hnud k r).trans ?_⟩
  rw [Action.run_finish_of_eq _ (he.symm.trans hv), Outcome.andThen_mk_ok]
  rfl

private theorem reaches_prefixed (hW : Vocabulary token W) (hx : Reaches token W x) :
    Reaches token W (.prefixed s x) := by
  intro v rest r k hwf hpc hv hmem _ hp
  simp only [ParseTree.yield, List.cons_append] at hmem ⊢
  obtain ⟨hs, hmem'⟩ := List.forall_mem_cons.1 hmem
  obtain ⟨fn, hnud, he⟩ := (hW.regular s hs).starts.of_isPrefix hwf.1
  obtain ⟨w, hw, hfn⟩ := Option.bind_eq_some_iff.1 hv
  obtain ⟨hle, hends⟩ := List.forall_mem_cons.1 hp.1
  obtain ⟨j, hj⟩ := hx.operand (k + 1) hwf.2 hpc.1 hw hmem' hpc.2 hle hends
  refine ⟨j, (start_complete hW hmem hnud k r).trans ?_⟩
  rw [Action.run, hj, Outcome.andThen_mk_ok, Action.run_finish_of_eq _ ((he w).symm.trans hfn),
    Outcome.andThen_mk_ok]

private theorem reaches_postfixed (hW : Vocabulary token W) (hx : Reaches token W x) :
    Reaches token W (.postfixed s x) := by
  intro v rest r k hwf hpc hv hmem ha _
  simp only [ParseTree.yield, List.append_assoc, List.singleton_append] at hmem ⊢
  obtain ⟨-, hmem'⟩ := List.forall_mem_append.1 hmem
  have hs := hmem' s List.mem_cons_self
  obtain ⟨w, hw, hfn⟩ := Option.bind_eq_some_iff.1 hv
  obtain ⟨hr, ha⟩ := List.forall_mem_cons.1 ha
  obtain ⟨f, hled, hf⟩ := (hW.regular s hs).follows.of_isSuffix (hW.regular s hs) hwf.1
  obtain ⟨j, hj⟩ := hx w (s :: rest) r k hwf.2 hpc.1 hw hmem ha hpc.2
  refine ⟨j + 1, hj.trans ((follow_complete hW hmem' hled hr j w).trans ?_)⟩
  rcases hf w with ⟨e, hfin, he⟩ | ⟨-, he⟩
  · rw [hfin, Action.run_finish_of_eq _ (he.symm.trans hfn), Outcome.andThen_mk_ok]
  · cases he.symm.trans hfn

private theorem reaches_infixed (hW : Vocabulary token W) (hx : Reaches token W x) (hy : Reaches token W y) :
    Reaches token W (.infixed s x y) := by
  intro v rest r k hwf hpc hv hmem ha hp
  simp only [ParseTree.yield, List.append_assoc, List.cons_append] at hmem ⊢
  obtain ⟨-, hmem'⟩ := List.forall_mem_append.1 hmem
  obtain ⟨hs, hmem''⟩ := List.forall_mem_cons.1 hmem'
  obtain ⟨w, hw, hv⟩ := Option.bind_eq_some_iff.1 hv
  obtain ⟨z, hz, hfn⟩ := Option.bind_eq_some_iff.1 hv
  obtain ⟨hr, ha⟩ := List.forall_mem_cons.1 ha
  obtain ⟨a, hassoc⟩ := Option.isSome_iff_exists.1 hwf.1
  obtain ⟨fn, hled, he⟩ := (hW.regular s hs).follows.of_assoc (hW.regular s hs) hassoc
  obtain ⟨hle, hends⟩ := List.forall_mem_cons.1 hp.1
  obtain ⟨i, hi⟩ := hx w (s :: (y.yield ++ rest)) r k hwf.2.1 hpc.1 hw hmem ha hpc.2.2.1
  obtain ⟨j, hj⟩ := hy.operand (i + 1) hwf.2.2 hpc.2.1 hz hmem'' hpc.2.2.2 hle hends
  refine ⟨j, hi.trans ((follow_complete hW hmem' hled hr i w).trans ?_)⟩
  have hrest := (List.forall_mem_append.1 hmem'').2
  rw [Action.run, hj, Outcome.andThen_mk_ok, Parser.combine_facing_eq_ok.2
    ⟨fun h hc => ?_, (he w z).symm.trans hfn, rfl⟩, Outcome.andThen_mk_ok]
  exact hp.2 ((hW.assoc_ahead hrest).symm.trans hc.2) ⟨hc.1.symm, hassoc.trans (congrArg some h)⟩

private theorem reaches_grouped (hW : Vocabulary token W) (hx : Reaches token W x) :
    Reaches token W (.grouped s x d) := by
  intro v rest r k hwf hpc hv hmem _ _
  simp only [ParseTree.yield, List.append_assoc, List.cons_append, List.nil_append] at hmem ⊢
  obtain ⟨hs, hmem'⟩ := List.forall_mem_cons.1 hmem
  obtain ⟨⟨c, hc, hd⟩, hwf⟩ := hwf
  obtain ⟨fn, hnud, he⟩ := (hW.regular s hs).starts.of_group hc
  obtain ⟨w, hw, hfn⟩ := Option.bind_eq_some_iff.1 hv
  obtain ⟨j, hj⟩ := hx.demanded hW (k + 1) hwf hpc hw hmem' hd fun u => .finish (fn u)
  refine ⟨j, (start_complete hW hmem hnud k r).trans ?_⟩
  rw [hj, Action.run_finish_of_eq _ ((he w).symm.trans hfn), Outcome.andThen_mk_ok]

private theorem reaches_ternary (hW : Vocabulary token W) (hc : Reaches token W c) (hx : Reaches token W x)
    (hy : Reaches token W y) : Reaches token W (.ternary s c x d y) := by
  intro v rest r k hwf hpc hv hmem ha hp
  simp only [ParseTree.yield, List.append_assoc, List.cons_append] at hmem ⊢
  obtain ⟨-, hmem₁⟩ := List.forall_mem_append.1 hmem
  obtain ⟨hs, hmem₂⟩ := List.forall_mem_cons.1 hmem₁
  have hmem₃ := (List.forall_mem_cons.1 (List.forall_mem_append.1 hmem₂).2).2
  obtain ⟨⟨m, hm, hd⟩, hwc, hwx, hwy⟩ := hwf
  obtain ⟨hpc, hpx, hpy, hprec, habove⟩ := hpc
  obtain ⟨u, hu, hv⟩ := Option.bind_eq_some_iff.1 hv
  obtain ⟨w, hw, hv⟩ := Option.bind_eq_some_iff.1 hv
  obtain ⟨z, hz, hfn⟩ := Option.bind_eq_some_iff.1 hv
  obtain ⟨hr, ha⟩ := List.forall_mem_cons.1 ha
  obtain ⟨fn, hled, he⟩ := (hW.regular s hs).follows.of_ternary (hW.regular s hs) hm
  obtain ⟨hle, hends⟩ := List.forall_mem_cons.1 hp.1
  obtain ⟨i, hi⟩ := hc u _ r k hwc hpc hu hmem ha hprec
  obtain ⟨j, hj⟩ := hx.demanded hW (i + 1) hwx hpx hw hmem₂ hd fun w =>
    .expression (token s).shape.operandPower fun z => .finish (fn u w z)
  obtain ⟨l, hl⟩ := hy.operand j hwy hpy hz hmem₃ habove hle hends
  refine ⟨l, hi.trans ((follow_complete hW hmem₁ hled hr i u).trans ?_)⟩
  rw [hj, Action.run, hl, Outcome.andThen_mk_ok,
    Action.run_finish_of_eq _ ((he u w z).symm.trans hfn), Outcome.andThen_mk_ok]

private theorem reaches_conditional (hW : Vocabulary token W) (hc : Reaches token W c)
    (hx : Reaches token W x) : Reaches token W (.conditional s c d x e) := by
  intro v rest r k hwf hpc hv hmem _ _
  simp only [ParseTree.yield, List.append_assoc, List.cons_append, List.nil_append] at hmem ⊢
  obtain ⟨hs, hmem₁⟩ := List.forall_mem_cons.1 hmem
  have hmem₂ := (List.forall_mem_cons.1 (List.forall_mem_append.1 hmem₁).2).2
  have hmem₃ := (List.forall_mem_cons.1 (List.forall_mem_append.1 hmem₂).2).2
  obtain ⟨⟨m, n, o, hm, hd, hend⟩, hwc, hwx⟩ := hwf
  obtain ⟨u, hu, hv⟩ := Option.bind_eq_some_iff.1 hv
  obtain ⟨w, hw, hfn⟩ := Option.bind_eq_some_iff.1 hv
  obtain ⟨fn, hnud, he⟩ := (hW.regular s hs).starts.of_conditional hm
  obtain ⟨i, hi⟩ := hc.demanded hW (k + 1) hwc hpc.1 hu hmem₁ hd _
  obtain ⟨j, hj⟩ := hx.delimited hW i hwx hpc.2 hw hmem₂ hend
  -- What closes the conditional is not what would open its other branch.
  have hne : ((token e :: rest.map token).headD .sentinel).name ≠ some n := by
    have hshape := (hW.regular s hs).shape
    rw [Shape.Regular, hm] at hshape
    exact fun h => hshape.2 (Option.some.inj (h.symm.trans hend.1))
  refine ⟨j + 1, (start_complete hW hmem hnud k r).trans ?_⟩
  rw [hi, Action.run, hj, Outcome.andThen_mk_ok, Action.run, Parser.attempt_facing_of_ne hne,
    Outcome.andThen_mk_ok, Action.run, expect_complete hW hmem₃ hend, Outcome.andThen_mk_ok,
    Action.run_finish_of_eq _ ((he u w none).symm.trans hfn), Outcome.andThen_mk_ok]

private theorem reaches_alternative (hW : Vocabulary token W) (hc : Reaches token W c)
    (hx : Reaches token W x) (hy : Reaches token W y) :
    Reaches token W (.alternative s c d x m y e) := by
  intro v rest r k hwf hpc hv hmem _ _
  simp only [ParseTree.yield, List.append_assoc, List.cons_append, List.nil_append] at hmem ⊢
  obtain ⟨hs, hmem₁⟩ := List.forall_mem_cons.1 hmem
  have hmem₂ := (List.forall_mem_cons.1 (List.forall_mem_append.1 hmem₁).2).2
  have hmem₃ := (List.forall_mem_cons.1 (List.forall_mem_append.1 hmem₂).2).2
  obtain ⟨⟨m', n, o, hm, hd, helse, hend⟩, hwc, hwx, hwy⟩ := hwf
  obtain ⟨u, hu, hv⟩ := Option.bind_eq_some_iff.1 hv
  obtain ⟨w, hw, hv⟩ := Option.bind_eq_some_iff.1 hv
  obtain ⟨z, hz, hfn⟩ := Option.bind_eq_some_iff.1 hv
  obtain ⟨fn, hnud, he⟩ := (hW.regular s hs).starts.of_conditional hm
  obtain ⟨i, hi⟩ := hc.demanded hW (k + 1) hwc hpc.1 hu hmem₁ hd _
  obtain ⟨j, hj⟩ := hx.delimited hW i hwx hpc.2.1 hw hmem₂ helse
  obtain ⟨l, hl⟩ := hy.demanded hW (j + 1) hwy hpc.2.2 hz hmem₃ hend fun z =>
    .finish (fn u w (some z))
  refine ⟨l, (start_complete hW hmem hnud k r).trans ?_⟩
  rw [hi, Action.run, hj, Outcome.andThen_mk_ok, Action.run,
    Parser.attempt_facing_of_name (hW.isEnd hmem₃) (.inl rfl) helse.1, Outcome.andThen_mk_ok,
    hl, Action.run_finish_of_eq _ ((he u w (some z)).symm.trans hfn), Outcome.andThen_mk_ok]

end

private theorem reaches (hW : Vocabulary token W) (x : ParseTree S) : Reaches token W x := by
  induction x with
  | leaf s => exact reaches_leaf hW s
  | prefixed s x hx => exact reaches_prefixed hW hx
  | postfixed s x hx => exact reaches_postfixed hW hx
  | infixed s x y hx hy => exact reaches_infixed hW hx hy
  | grouped s x d hx => exact reaches_grouped hW hx
  | ternary s c x d y hc hx hy => exact reaches_ternary hW hc hx hy
  | conditional s c d x e hc hx => exact reaches_conditional hW hc hx
  | alternative s c d x m y e hc hx hy => exact reaches_alternative hW hc hx hy

/-- A strict run makes the values of the trees over all of the input that group their operators as
the binding powers say, and nothing else. -/
theorem Vocabulary.parse_eq_ok_iff (hW : Vocabulary token W) {ss : List S} (hss : ∀ s ∈ ss, W s)
    {v : V} :
    ((Stream.ofTokens (ss.map token)).parse false true).result = .ok v ↔
      ∃ x : ParseTree S, x.yield = ss ∧ x.WellFormed (shapes token) ∧
        x.PrecedenceCorrect (shapes token) ∧ x.value? token = some v := by
  have hend (us : List S) (hus : ∀ s ∈ us, W s) (j : Int) :
      (Parser.facing none j (us.map token)).atEnd = (us.map token).isEmpty := by
    refine Parser.atEnd_facing fun u hu => ?_
    obtain ⟨s, hs, rfl⟩ := List.mem_map.1 hu
    exact (hW.regular s (hus s hs)).identity
  rw [Stream.ofTokens, Stream.parse_eq (hW.isEnd hss) (.inl rfl)]
  constructor
  · intro h
    cases he : (Parser.facing none 0 (ss.map token)).expression 0 with
    | mk result p =>
      rw [he] at h
      cases result with
      | error e => cases h
      | ok w =>
        obtain ⟨x, rest, hx, -⟩ := expression_sound hW ss hss _ _ _ _ he
        obtain ⟨j, rfl⟩ := hx.parser
        rw [Outcome.andThen_mk_ok, hend rest (hx.mem hss)] at h
        cases rest with
        | nil =>
          cases h
          exact ⟨x, by simpa using hx.yield.symm, hx.wellFormed, hx.correct, hx.value⟩
        | cons s rest => cases h
  · rintro ⟨x, rfl, hwf, hpc, hv⟩
    have hreg : ∀ s ∈ x.yield, (shapes token s).Regular :=
      fun s hs => (hW.regular s (hss s hs)).shape
    have hmem : ∀ s ∈ x.yield ++ [], W s := by simpa using hss
    obtain ⟨j, hj⟩ := (reaches hW x).operand 0 hwf hpc hv hmem (hwf.above_zero hreg)
      (Int.le_refl _) (ParseTree.ends_zero hreg)
    rw [List.append_nil] at hj
    rw [hj, Outcome.andThen_mk_ok, hend [] (by simp)]
    rfl

end BindingPower
