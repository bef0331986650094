import BindingPower.Proofs.Parser.Facing
import BindingPower.Proofs.Grammar.ParseTree

/-! Every expression that is parsed comes from a parse tree: its yield is what was consumed, and its
operators are grouped as their binding powers say. -/
namespace BindingPower
variable {S V α β : Type}

theorem Action.run_finish_eq_ok {expr : Int → Parser V → Outcome V V} {e : Except Fault α} {v : α}
    {p q : Parser V} :
    (Action.finish e).run expr p = ⟨.ok v, q⟩ ↔ e.toOption = some v ∧ q = p := by
  cases e with
  | ok a =>
    constructor
    · intro h
      cases h
      exact ⟨rfl, rfl⟩
    · rintro ⟨h, rfl⟩
      cases h
      rfl
  | error f =>
    constructor
    · intro h
      cases h
    · rintro ⟨h, -⟩
      cases h

namespace Parser
variable {pos : Int} {ts : List (Token V)}

private theorem expect_facing_eq_ok {n : String} {x : Option (Token V)} {q : Parser V}
    (h : ∀ u ∈ ts, u.isEnd = false) (hn : n ≠ Token.endName)
    (he : (facing none pos ts).expect (.named n) = ⟨.ok x, q⟩) :
    ∃ t us, ts = t :: us ∧ t.name = some n ∧ q = facing none (pos + 1) us := by
  by_cases ht : (ts.headD .sentinel).name = some n
  · cases ts with
    | nil => exact absurd (Option.some.inj ht).symm hn
    | cons t us =>
      have ht : t.name = some n := ht
      rw [expect_facing_of_name (fun u hu => h u (List.mem_cons_of_mem _ hu)) (.inl rfl) ht] at he
      cases he
      exact ⟨t, us, rfl, ht, rfl⟩
  · rw [expect_facing_of_ne ht] at he
    cases he

private theorem attempt_facing_eq_ok {n : String} {b : Bool} {q : Parser V}
    (h : ∀ u ∈ ts, u.isEnd = false) (hn : n ≠ Token.endName)
    (he : (facing none pos ts).attempt (.named n) = ⟨.ok b, q⟩) :
    (b = true ∧ ∃ t us, ts = t :: us ∧ t.name = some n ∧ q = facing none (pos + 1) us) ∨
      (b = false ∧ q = facing none pos ts) := by
  by_cases ht : (ts.headD .sentinel).name = some n
  · cases ts with
    | nil => exact absurd (Option.some.inj ht).symm hn
    | cons t us =>
      have ht : t.name = some n := ht
      rw [attempt_facing_of_name (fun u hu => h u (List.mem_cons_of_mem _ hu)) (.inl rfl) ht] at he
      cases he
      exact .inl ⟨rfl, t, us, rfl, ht, rfl⟩
  · rw [attempt_facing_of_ne ht] at he
    cases he
    exact .inr ⟨rfl, rfl⟩

end Parser

private theorem Kind.chains_profile {lbp : Int} {t : Token V} :
    Kind.chains lbp (some t.profile) = true ↔ t.lbp = lbp ∧ t.assoc = some .none := by
  simp only [Kind.chains, Option.any_some, Bool.and_eq_true, decide_eq_true_eq]
  rfl

/-- A non-associative operator ends only where no other of its power follows. -/
theorem Parser.combine_facing_eq_ok {failure : Option Failure} {k : Int} {ts : List (Token V)}
    {expr : Int → Parser V → Outcome V V} {lbp : Int} {name : Option String} {a : Assoc}
    {fn : V → V → Except Fault V} {x y v : V} {q : Parser V} :
    (Kind.combine lbp name a fn x y).run expr (facing failure k ts) = ⟨.ok v, q⟩ ↔
      (a = .none → ¬ ((ts.headD .sentinel).lbp = lbp ∧ (ts.headD .sentinel).assoc = some .none)) ∧
        (fn x y).toOption = some v ∧ q = facing failure k ts := by
  by_cases ha : a = .none
  · simp only [Kind.combine, ha, if_true, Action.run, forall_const]
    have hlook : Kind.chains lbp (facing failure k ts).lookahead = true ↔ _ :=
      Kind.chains_profile (t := ts.headD .sentinel)
    by_cases hc : (ts.headD .sentinel).lbp = lbp ∧ (ts.headD .sentinel).assoc = some .none
    · rw [if_pos (hlook.2 hc)]
      constructor
      · intro h
        cases h
      · exact fun h => absurd hc h.1
    · rw [if_neg (fun h => hc (hlook.1 h)), Action.run_finish_eq_ok]
      exact ⟨fun h => ⟨hc, h⟩, fun h => h.2⟩
  · simp only [Kind.combine, ha, if_false, Action.run_finish_eq_ok, false_implies, true_and]

/-- Labels that stand for regular tokens, with delimiters' names borne by keywords alone. -/
structure Vocabulary (token : S → Token V) (W : S → Prop) : Prop where
  regular : ∀ s, W s → (token s).Regular
  marks : ∀ s, W s → ∀ m ∈ (token s).shape.marks, ∀ d, W d → (token d).name = some m →
    (token d).shape.form = .keyword

section
variable {token : S → Token V} {W : S → Prop}

theorem Vocabulary.comp {T : Type} (hW : Vocabulary token W) {f : T → S} {U : T → Prop}
    (h : ∀ t, U t → W (f t)) : Vocabulary (fun t => token (f t)) U where
  regular t ht := hW.regular (f t) (h t ht)
  marks t ht m hm d hd := hW.marks (f t) (h t ht) m hm (f d) (h d hd)

theorem Vocabulary.isEnd (hW : Vocabulary token W) {ss : List S} (h : ∀ s ∈ ss, W s) :
    ∀ u ∈ ss.map token, u.isEnd = false := by
  intro u hu
  obtain ⟨s, hs, rfl⟩ := List.mem_map.1 hu
  exact (hW.regular s (h s hs)).isEnd

private theorem Vocabulary.delimits (hW : Vocabulary token W) {s d : S} (hs : W s) (hd : W d) {m : String}
    (hm : m ∈ (token s).shape.marks) (hn : (token d).name = some m) :
    (token d).shape.Delimits m :=
  ⟨hn, hW.marks s hs m hm d hd hn⟩

private theorem Vocabulary.ne_endName (hW : Vocabulary token W) {s : S} (hs : W s) {m : String}
    (hm : m ∈ (token s).shape.marks) : m ≠ Token.endName :=
  fun h => (hW.regular s hs).marks (h ▸ hm)

/-- The lookahead of a parser that faces these labels. -/
def ahead (token : S → Token V) (ss : List S) : Token V := (ss.map token).headD .sentinel

@[simp] theorem ahead_cons (s : S) (ss : List S) : ahead token (s :: ss) = token s := rfl

theorem Vocabulary.assoc_ahead (hW : Vocabulary token W) {ss : List S} (h : ∀ s ∈ ss, W s) :
    (ahead token ss).assoc = (ahead token ss).shape.assoc := by
  cases ss with
  | nil => rfl
  | cons s ss => exact (hW.regular s (h s List.mem_cons_self)).assoc

/-- The shapes of the tokens that labels stand for. -/
abbrev shapes (token : S → Token V) (s : S) : Shape := (token s).shape

/-- A tree read off some labels, and the parser before those that are left: the tree may stand where
operands reach down to `power`, and before the lookahead. -/
structure Parsed (token : S → Token V) (ss : List S) (v : V) (power : Int) (q : Parser V)
    (x : ParseTree S) (rest : List S) : Prop where
  yield : ss = x.yield ++ rest
  parser : ∃ k, q = .facing none k (rest.map token)
  wellFormed : x.WellFormed (shapes token)
  correct : x.PrecedenceCorrect (shapes token)
  value : x.value? token = some v
  above : x.Above (shapes token) power
  precedes : x.Precedes (shapes token) (ahead token rest).shape

/-- What is parsed as an expression is a tree, and the lookahead after it does not go on with it. -/
def ExpressionSound (token : S → Token V) (ss : List S) : Prop :=
  ∀ r k v q, (Parser.facing none k (ss.map token)).expression r = ⟨.ok v, q⟩ →
    ∃ x rest, Parsed token ss v r q x rest ∧ (ahead token rest).lbp ≤ r

namespace Parsed

theorem mem {ss rest : List S} {v : V} {power : Int} {q : Parser V} {x : ParseTree S}
    (h : Parsed token ss v power q x rest) (hss : ∀ s ∈ ss, W s) : ∀ s ∈ rest, W s :=
  fun s hs => hss s (h.yield ▸ List.mem_append_right _ hs)

theorem length_lt {ss rest : List S} {v : V} {power : Int} {q : Parser V} {x : ParseTree S}
    (h : Parsed token ss v power q x rest) : rest.length < ss.length := by
  rw [h.yield, List.length_append]
  have := x.length_yield_pos
  omega

end Parsed

/-- A tree read off some labels up to the delimiter that is demanded after it. -/
structure Delimited (token : S → Token V) (ss : List S) (m : String) (v : V) (x : ParseTree S) (d : S)
    (rest : List S) : Prop where
  yield : ss = x.yield ++ d :: rest
  delimits : (token d).shape.Delimits m
  wellFormed : x.WellFormed (shapes token)
  correct : x.PrecedenceCorrect (shapes token)
  value : x.value? token = some v

namespace Delimited
variable {ss rest : List S} {m : String} {v : V} {x : ParseTree S} {d : S}

theorem mem (h : Delimited token ss m v x d rest) (hss : ∀ s ∈ ss, W s) : ∀ s ∈ rest, W s :=
  fun s hs => hss s (h.yield ▸ List.mem_append_right _ (List.mem_cons_of_mem _ hs))

theorem length_lt (h : Delimited token ss m v x d rest) : rest.length < ss.length := by
  rw [h.yield, List.length_append, List.length_cons]
  omega

end Delimited

/-- A delimiter that a handler demands after an expression. -/
theorem expect_sound (hW : Vocabulary token W) {s : S} (hs : W s) {m : String}
    (hm : m ∈ (token s).shape.marks) {ss : List S} (hss : ∀ s ∈ ss, W s) {k : Int}
    {t : Option (Token V)} {q : Parser V}
    (h : (Parser.facing none k (ss.map token)).expect (.named m) = ⟨.ok t, q⟩) :
    ∃ d rest, ss = d :: rest ∧ (token d).shape.Delimits m ∧
      q = .facing none (k + 1) (rest.map token) := by
  obtain ⟨u, us, hu, hn, rfl⟩ :=
    Parser.expect_facing_eq_ok (hW.isEnd hss) (hW.ne_endName hs hm) h
  obtain ⟨d, rest, rfl, rfl, rfl⟩ := List.map_eq_cons_iff.1 hu
  exact ⟨d, rest, rfl, hW.delimits hs (hss d List.mem_cons_self) hm hn, rfl⟩

/-- A handler that parses an expression, demands a delimiter and goes on with `next`. -/
theorem delimited_sound (hW : Vocabulary token W) {s : S} (hs : W s) {m : String}
    (hm : m ∈ (token s).shape.marks) {ss : List S} (hss : ∀ s ∈ ss, W s)
    (hsound : ExpressionSound token ss) {next : V → Action V V} {k : Int} {v : V} {q : Parser V}
    (h : (Action.expression 0 fun u => .expect (.named m) fun _ => next u).run Parser.expression
      (.facing none k (ss.map token)) = ⟨.ok v, q⟩) :
    ∃ x u d rest j, Delimited token ss m u x d rest ∧
      (next u).run Parser.expression (.facing none j (rest.map token)) = ⟨.ok v, q⟩ := by
  obtain ⟨u, p, hx, h⟩ := Outcome.andThen_eq_ok.1 h
  obtain ⟨x, rest, hx, -⟩ := hsound _ _ _ _ hx
  obtain ⟨j, rfl⟩ := hx.parser
  obtain ⟨t, p, he, h⟩ := Outcome.andThen_eq_ok.1 h
  obtain ⟨d, rest, rfl, hd, rfl⟩ := expect_sound hW hs hm (hx.mem hss) he
  exact ⟨x, u, d, rest, j + 1, ⟨hx.yield, hd, hx.wellFormed, hx.correct, hx.value⟩, h⟩

section
variable {s : S} {ss : List S} {k : Int} {v : V} {q : Parser V} {power : Int}

private theorem leaf_sound {e : Except Fault V} (hs : (token s).shape.isOperand = true)
    (he : (token s).kind.startValue? = e.toOption)
    (h : (Action.finish e).run Parser.expression (.facing none k (ss.map token)) = ⟨.ok v, q⟩) :
    ∃ x rest, Parsed token (s :: ss) v power q x rest := by
  obtain ⟨hv, rfl⟩ := Action.run_finish_eq_ok.1 h
  exact ⟨.leaf s, ss, rfl, ⟨k, rfl⟩, hs, trivial, he.trans hv, by simp [ParseTree.Above],
    by simp [ParseTree.Precedes, ParseTree.Ends]⟩

private theorem prefixed_sound {fn : V → Except Fault V} (hs : (token s).shape.isPrefix = true)
    (he : ∀ x, (token s).kind.prefixValue? x = (fn x).toOption) (hsound : ExpressionSound token ss)
    (h : (Action.expression (token s).shape.prefixPower fun x => .finish (fn x)).run
      Parser.expression (.facing none k (ss.map token)) = ⟨.ok v, q⟩) :
    ∃ x rest, Parsed token (s :: ss) v power q x rest := by
  obtain ⟨w, p, hx, h⟩ := Outcome.andThen_eq_ok.1 h
  obtain ⟨x, rest, hx, hle⟩ := hsound _ _ _ _ hx
  obtain ⟨hv, rfl⟩ := Action.run_finish_eq_ok.1 h
  refine ⟨.prefixed s x, rest, by simp [ParseTree.yield, hx.yield], hx.parser, ⟨hs, hx.wellFormed⟩,
    ⟨hx.correct, hx.above⟩, by simp [ParseTree.value?, hx.value, he, hv],
    by simp [ParseTree.Above], ?_⟩
  exact ⟨List.forall_mem_cons.2 ⟨hle, hx.precedes.1⟩, fun _ => id⟩

private theorem grouped_sound (hW : Vocabulary token W) (hs : W s) {c : String} {fn : V → Except Fault V}
    (hf : (token s).shape.form = .group c)
    (he : ∀ x, (token s).kind.groupValue? x = (fn x).toOption) (hss : ∀ t ∈ ss, W t)
    (hsound : ExpressionSound token ss)
    (h : (Action.expression 0 fun x => .expect (.named c) fun _ => .finish (fn x)).run
      Parser.expression (.facing none k (ss.map token)) = ⟨.ok v, q⟩) :
    ∃ x rest, Parsed token (s :: ss) v power q x rest := by
  have hc : c ∈ (token s).shape.marks := by simp [Shape.marks, hf]
  obtain ⟨x, w, d, rest, j, hx, h⟩ := delimited_sound hW hs hc hss hsound h
  obtain ⟨hv, rfl⟩ := Action.run_finish_eq_ok.1 h
  exact ⟨.grouped s x d, rest, by simp [ParseTree.yield, hx.yield], ⟨j, rfl⟩,
    ⟨⟨c, hf, hx.delimits⟩, hx.wellFormed⟩, hx.correct,
    by simp [ParseTree.value?, hx.value, he, hv], by simp [ParseTree.Above],
    by simp [ParseTree.Precedes, ParseTree.Ends]⟩

/-- What a handler makes at the start of an expression is a tree without a left operand. -/
theorem start_sound (hW : Vocabulary token W) (hs : W s) (hss : ∀ s ∈ ss, W s)
    (ih : ∀ us : List S, us.length ≤ ss.length → (∀ u ∈ us, W u) → ExpressionSound token us)
    {nud : Action V V} (hnud : (token s).nud = some nud)
    (h : nud.run Parser.expression (.facing none k (ss.map token)) = ⟨.ok v, q⟩) (power : Int) :
    ∃ x rest, Parsed token (s :: ss) v power q x rest := by
  have hstart := (hW.regular s hs).starts
  have hsound := ih ss (le_refl _) hss
  rw [hnud] at hstart
  cases hstart with
  | operand e hf he => exact leaf_sound hf he h
  | prefixOp fn hf he => exact prefixed_sound hf he hsound h
  | group c fn hf he => exact grouped_sound hW hs hf he hss hsound h
  | conditional a b c fn hf he =>
    have hm : (token s).shape.marks = [a, b, c] := by simp [Shape.marks, hf]
    obtain ⟨x, w, d, rest₁, j, hx, h⟩ := delimited_sound hW hs (by simp [hm]) hss hsound h
    have hss₁ := hx.mem hss
    have hlt₁ := hx.length_lt
    obtain ⟨z, p, hy, h⟩ := Outcome.andThen_eq_ok.1 h
    obtain ⟨y, rest₂, hy, -⟩ := ih rest₁ hlt₁.le hss₁ _ _ _ _ hy
    obtain ⟨j, rfl⟩ := hy.parser
    obtain ⟨b', p, ha, h⟩ := Outcome.andThen_eq_ok.1 h
    have hattempt := Parser.attempt_facing_eq_ok (hW.isEnd (hy.mem hss₁))
      (hW.ne_endName hs (by simp [hm])) ha
    rcases hattempt with ⟨rfl, u, us, hu, hn, rfl⟩ | ⟨rfl, rfl⟩
    · obtain ⟨m, rest₃, rfl, rfl, rfl⟩ := List.map_eq_cons_iff.1 hu
      obtain ⟨hm', hss₂⟩ := List.forall_mem_cons.1 (hy.mem hss₁)
      have hmark := hW.delimits hs hm' (by simp [hm]) hn
      have hlt₂ := hy.length_lt
      rw [List.length_cons] at hlt₂
      obtain ⟨z', z, e, rest₄, j, hz, h⟩ := delimited_sound hW hs (by simp [hm]) hss₂
        (ih rest₃ (by omega) hss₂) h
      obtain ⟨hv, rfl⟩ := Action.run_finish_eq_ok.1 h
      exact ⟨.alternative s x d y m z' e, rest₄,
        by simp [ParseTree.yield, hx.yield, hy.yield, hz.yield], ⟨j, rfl⟩,
        ⟨⟨a, b, c, hf, hx.delimits, hmark, hz.delimits⟩, hx.wellFormed, hy.wellFormed,
          hz.wellFormed⟩, ⟨hx.correct, hy.correct, hz.correct⟩,
        by simp [ParseTree.value?, hx.value, hy.value, hz.value, he, hv],
        by simp [ParseTree.Above], by simp [ParseTree.Precedes, ParseTree.Ends]⟩
    · obtain ⟨t, p, he₂, h⟩ := Outcome.andThen_eq_ok.1 h
      obtain ⟨e, rest₂, rfl, hd', rfl⟩ := expect_sound hW hs (by simp [hm]) (hy.mem hss₁) he₂
      obtain ⟨hv, rfl⟩ := Action.run_finish_eq_ok.1 h
      exact ⟨.conditional s x d y e, rest₂, by simp [ParseTree.yield, hx.yield, hy.yield],
        ⟨_, rfl⟩, ⟨⟨a, b, c, hf, hx.delimits, hd'⟩, hx.wellFormed, hy.wellFormed⟩,
        ⟨hx.correct, hy.correct⟩, by simp [ParseTree.value?, hx.value, hy.value, he, hv],
        by simp [ParseTree.Above], by simp [ParseTree.Precedes, ParseTree.Ends]⟩

end

/-- What a handler makes of a tree before its token is a tree on top of it. -/
theorem follow_sound (hW : Vocabulary token W) {all ss : List S} {s : S} {r : Int} {u v : V}
    {p q : Parser V} {x : ParseTree S} (hx : Parsed token all u r p x (s :: ss))
    (hmem : ∀ t ∈ all, W t)
    (ih : ∀ us : List S, us.length ≤ ss.length → (∀ t ∈ us, W t) → ExpressionSound token us)
    (hr : r < (token s).lbp) {led : V → Action V V} (hled : (token s).led = some led) {k : Int}
    (h : (led u).run Parser.expression (.facing none k (ss.map token)) = ⟨.ok v, q⟩) :
    ∃ y rest, Parsed token all v r q y rest ∧ rest.length ≤ ss.length := by
  obtain ⟨hs, hss⟩ := List.forall_mem_cons.1 (hx.mem hmem)
  have hfollow := (hW.regular s hs).follows
  have habove := List.forall_mem_cons.2 ⟨hr, hx.above⟩
  have hall := hx.yield
  have hsound := ih ss (le_refl _) hss
  rw [hled] at hfollow
  cases hfollow with
  | suffix f hf he =>
    rcases he u with ⟨e, hfin, he⟩ | ⟨href, -⟩
    · rw [hfin] at h
      obtain ⟨hv, rfl⟩ := Action.run_finish_eq_ok.1 h
      exact ⟨.postfixed s x, ss, ⟨by simp [ParseTree.yield, hall], ⟨k, rfl⟩, ⟨hf, hx.wellFormed⟩,
        ⟨hx.correct, hx.precedes⟩, by simp [ParseTree.value?, hx.value, he, hv], habove,
        by simp [ParseTree.Precedes, ParseTree.Ends]⟩, le_refl _⟩
    · rw [href] at h
      cases h
  | infixOp a fn hf he =>
    obtain ⟨w, p, hy, h⟩ := Outcome.andThen_eq_ok.1 h
    obtain ⟨y, rest, hy, hle⟩ := hsound _ _ _ _ hy
    obtain ⟨j, rfl⟩ := hy.parser
    obtain ⟨hchain, hv, rfl⟩ := Parser.combine_facing_eq_ok.1 h
    refine ⟨.infixed s x y, rest, ⟨by simp [ParseTree.yield, hall, hy.yield], ⟨j, rfl⟩,
      ⟨by simp [hf], hx.wellFormed, hy.wellFormed⟩,
      ⟨hx.correct, hy.correct, hx.precedes, hy.above⟩,
      by simp [ParseTree.value?, hx.value, hy.value, he, hv], habove,
      List.forall_mem_cons.2 ⟨hle, hy.precedes.1⟩, ?_⟩, hy.length_lt.le⟩
    -- The lookahead would be a second non-associative operator of this power.
    rintro ho ⟨hl, ha⟩
    rw [hf] at ha
    exact hchain (Option.some.inj ha) ⟨hl.symm, (hW.assoc_ahead (hy.mem hss)).trans ho⟩
  | ternary m fn hf he =>
    have hm : m ∈ (token s).shape.marks := by simp [Shape.marks, hf]
    obtain ⟨y, w, d, rest₁, j, hy, h⟩ := delimited_sound hW hs hm hss hsound h
    have hlt := hy.length_lt
    obtain ⟨z', p, hz, h⟩ := Outcome.andThen_eq_ok.1 h
    obtain ⟨z, rest₂, hz, hle⟩ := ih rest₁ hlt.le (hy.mem hss) _ _ _ _ hz
    obtain ⟨hv, rfl⟩ := Action.run_finish_eq_ok.1 h
    have hlt' := hz.length_lt
    exact ⟨.ternary s x y d z, rest₂, ⟨by simp [ParseTree.yield, hall, hy.yield, hz.yield],
      hz.parser, ⟨⟨m, hf, hy.delimits⟩, hx.wellFormed, hy.wellFormed, hz.wellFormed⟩,
      ⟨hx.correct, hy.correct, hz.correct, hx.precedes, hz.above⟩,
      by simp [ParseTree.value?, hx.value, hy.value, hz.value, he, hv], habove,
      List.forall_mem_cons.2 ⟨hle, hz.precedes.1⟩, fun _ => id⟩, by omega⟩

/-- The loop over operators keeps a tree of everything consumed so far. -/
theorem operators_sound (hW : Vocabulary token W) {all ss : List S} {r : Int} {u v : V}
    {p q : Parser V} {x : ParseTree S} (hx : Parsed token all u r p x ss) (hmem : ∀ s ∈ all, W s)
    (ih : ∀ us : List S, us.length < ss.length → (∀ s ∈ us, W s) → ExpressionSound token us)
    (h : p.operators r u = ⟨.ok v, q⟩) :
    ∃ y rest, Parsed token all v r q y rest ∧ (ahead token rest).lbp ≤ r := by
  induction hn : ss.length using Nat.strong_induction_on generalizing ss u p x with
  | _ n IH =>
    obtain ⟨k, hp⟩ := hx.parser
    by_cases hr : (ahead token ss).lbp ≤ r
    · rw [hp, Parser.operators_facing_le u hr] at h
      cases h
      exact ⟨x, ss, { hx with parser := ⟨k, rfl⟩ }, hr⟩
    · cases ss with
      | nil =>
        rw [hp, List.map_nil, Parser.operators_facing_nil u (Int.not_le.1 hr)] at h
        cases h
      | cons s ss =>
        have hr : r < (token s).lbp := Int.not_le.1 hr
        rw [hp, List.map_cons, Parser.operators_facing_lt u
          (hW.isEnd (List.forall_mem_cons.1 (hx.mem hmem)).2) (.inl rfl) hr] at h
        cases hled : (token s).led with
        | none =>
          rw [hled] at h
          cases h
        | some led =>
          rw [hled] at h
          obtain ⟨w, p', hf, h⟩ := Outcome.andThen_eq_ok.1 h
          rw [List.length_cons] at hn ih
          obtain ⟨y, rest, hy, hle⟩ := follow_sound hW hx hmem
            (fun us hus => ih us (Nat.lt_succ_of_le hus)) hr hled hf
          exact IH rest.length (by omega) hy (fun us hus => ih us (by omega))
            h rfl

theorem expression_sound (hW : Vocabulary token W) (ss : List S) (hss : ∀ s ∈ ss, W s) :
    ExpressionSound token ss := by
  induction hn : ss.length using Nat.strong_induction_on generalizing ss with
  | _ n ih =>
    intro r k v q h
    cases ss with
    | nil =>
      rw [List.map_nil, Parser.expression_facing_nil] at h
      cases h
    | cons s ss =>
      obtain ⟨hs, hss'⟩ := List.forall_mem_cons.1 hss
      rw [List.length_cons] at hn
      rw [List.map_cons, Parser.expression_facing_cons (hW.isEnd hss') (.inl rfl)] at h
      cases hnud : (token s).nud with
      | none =>
        rw [hnud] at h
        cases h
      | some nud =>
        rw [hnud] at h
        obtain ⟨w, p, hf, h⟩ := Outcome.andThen_eq_ok.1 h
        have ih' (us : List S) (hlt : us.length < n) (hus : ∀ u ∈ us, W u) :
            ExpressionSound token us := ih us.length hlt us hus rfl
        obtain ⟨x, rest, hx⟩ := start_sound hW hs hss' (fun us hus => ih' us (by omega)) hnud hf r
        have hlt := hx.length_lt
        rw [List.length_cons] at hlt
        exact operators_sound hW hx hss (fun us hus => ih' us (by omega)) h

/-- A run, strict or not, makes the value of a tree over what it has consumed. -/
theorem Vocabulary.parse_sound (hW : Vocabulary token W) {ss : List S} (hss : ∀ s ∈ ss, W s)
    {strict : Bool} {v : V}
    (h : ((Stream.ofTokens (ss.map token)).parse false strict).result = .ok v) :
    ∃ (x : ParseTree S) (rest : List S), x.yield ++ rest = ss ∧ x.WellFormed (shapes token) ∧
      x.PrecedenceCorrect (shapes token) ∧ x.value? token = some v := by
  rw [Stream.ofTokens, Stream.parse_eq (hW.isEnd hss) (.inl rfl)] at h
  cases he : (Parser.facing none 0 (ss.map token)).expression 0 with
  | mk result p =>
    rw [he] at h
    cases result with
    | error e => cases h
    | ok w =>
      obtain ⟨x, rest, hx, -⟩ := expression_sound hW ss hss _ _ _ _ he
      refine ⟨x, rest, hx.yield.symm, hx.wellFormed, hx.correct, ?_⟩
      simp only [Outcome.andThen] at h
      split at h
      · cases h
      · cases h
        exact hx.value

end

end BindingPower
