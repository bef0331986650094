import BindingPower.Proofs.Parser.Account
import BindingPower.Proofs.Parser.Boundary
import BindingPower.Proofs.Parser.Grading
import BindingPower.Proofs.Parser.Loosening

/-! An operator that does not associate is one that associates to the left and refuses to be chained. It
looks for another of its power when its right operand is complete, before the expression around it goes
on; and there it finds one just if that expression, had the operator associated to the left, would go on
with it and hand it the result. -/
namespace BindingPower
variable {V : Type} {s : Stream V}

/-- At this index the stream delivers an operator that does not associate. -/
def Stream.Strict (s : Stream V) (i : Int) : Prop :=
  ∃ (k : ℕ) (t : Token V), i = k ∧ s.delivery k = .ok t ∧ t.assoc = some .none

/-- The handler of an operator after its left operand, which does not associate in the stream. -/
def Handler.Strict (s : Stream V) (h : Handler V) : Prop := h.role = .led ∧ s.Strict h.index

/-- An operator that does not associate in the stream is handed the result of another one of its power as
its left operand. -/
def Use.Chains (s : Stream V) (u : Use V) : Prop :=
  ∃ h, u.manner = .follows (some h) ∧ h.Strict s ∧ s.Strict u.index ∧ h.token.lbp = u.token.lbp

/-- The refusal of a chain at a position. -/
def Failure.RefusesChain (pos : Int) (e : Failure) : Prop :=
  ∃ t name, e = .parse (.unexpected pos t ("no chained operator after " ++ Text.quoted? name))

/-- An operator that does not associate looks at what comes after its operands before it combines them. -/
theorem Config.run_combine {p : Parser V} {t : Token V} (ht : p.token = some t) {lbp : Int}
    {name : Option String} {fn : V → V → Except Fault V} {v w : V} {fs : List (Frame V)} :
    (⟨Kind.combine lbp name .none fn v w, fs⟩ : Config V).run p =
      if t.lbp = lbp ∧ t.assoc = some .none then
        ⟨.error (.parse (.unexpected p.pos (some t.profile)
          ("no chained operator after " ++ Text.quoted? name))), p⟩
      else (⟨.finish (fn v w), fs⟩ : Config V).run p := by
  have hchains : Kind.chains lbp (some t.profile) = true ↔ t.lbp = lbp ∧ t.assoc = some .none := by
    rw [Kind.chains, Option.any_some, Bool.and_eq_true, decide_eq_true_eq, decide_eq_true_eq]
    rfl
  rw [run, Kind.combine, if_pos rfl, Action.run, Parser.lookahead, ht, Option.map_some]
  by_cases h : t.lbp = lbp ∧ t.assoc = some .none
  · rw [if_pos h, if_pos (hchains.2 h)]
    rfl
  · rw [if_neg h, if_neg (mt hchains.1 h)]
    rfl

/-! Runs side by side -/

/-- Expressions that wait in the parse of a stream, and those in the parse of the loosened one with their
handlers. They are the same but for the operators that do not associate. -/
inductive Frame.Loosens (s : Stream V) : Handlers V → List (Frame V) → List (Frame V) → Prop
  | nil : Loosens s [] [] []
  | same {h hs f fs fs'} (hh : ∀ h' ∈ h, ¬ h'.Strict s)
      (hf : ∀ v, (f.next v).Guarded (f.rbp ≤ 0)) (rest : Loosens s hs fs fs') :
      Loosens s (h :: hs) (f :: fs) (f :: fs')
  | strict {h hs fn v fs fs'} (hh : h.Strict s) (hwait : ∃ f ∈ fs'.head?, f.rbp < h.token.lbp)
      (rest : Loosens s hs fs fs') :
      Loosens s (some h :: hs)
        (⟨h.token.lbp, Kind.combine h.token.lbp h.token.name .none fn v⟩ :: fs)
        (⟨h.token.lbp, Kind.combine h.token.lbp h.token.name .left fn v⟩ :: fs')

/-- Handlers before a lookahead, the second above the expressions that wait in the loosened parse. -/
inductive Action.Loosens (s : Stream V) (token : Option (Token V)) (fs : List (Frame V)) :
    Option (Handler V) → Action V V → Action V V → Prop
  | same {h a} (hh : ∀ h' ∈ h, ¬ h'.Strict s) (ha : a.Guarded (∀ t ∈ token, t.lbp ≤ 0)) :
      Loosens s token fs h a a
  | asking {h fn v} (hh : h.Strict s) (hwait : ∃ f ∈ fs.head?, f.rbp < h.token.lbp) :
      Loosens s token fs (some h)
        (.expression h.token.lbp (Kind.combine h.token.lbp h.token.name .none fn v))
        (.expression h.token.lbp (Kind.combine h.token.lbp h.token.name .left fn v))
  /-- With both operands, and nothing to refuse. -/
  | checked {h r} (hfree : ∀ h' ∈ h, ∀ t ∈ token, ¬ (t.lbp = h'.token.lbp ∧ t.assoc = some .none)) :
      Loosens s token fs h (.finish r) (.finish r)
  | failing {h e e'} (he : e.Alike e') : Loosens s token fs h (.fail e) (.fail e')

/-- Configurations of the two parses, with the handlers of the second. -/
def Config.Loosens (s : Stream V) (token : Option (Token V)) (c c' : Config V) : Handlers V → Prop
  | [] => False
  | h :: hs => c.action.Loosens s token c'.stack h c'.action ∧ Frame.Loosens s hs c.stack c'.stack

/-- An operator that does not associate with both its operands, and its counterpart. -/
inductive Config.Checks (s : Stream V) : Handlers V → Config V → Config V → Prop
  | mk {h hs fn v w fs fs'} (hh : h.Strict s) (hwait : ∃ f ∈ fs'.head?, f.rbp < h.token.lbp)
      (rest : Frame.Loosens s hs fs fs') :
      Checks s (some h :: hs) ⟨Kind.combine h.token.lbp h.token.name .none fn v w, fs⟩
        ⟨Kind.combine h.token.lbp h.token.name .left fn v w, fs'⟩

/-- Turns before a token at a position, the second of this configuration. -/
inductive Turn.Loosens (s : Stream V) (t : Token V) (pos : Int) (hs : Handlers V) (c' : Config V) :
    Turn V → Turn V → Prop
  | value (v : V) : Loosens s t pos hs c' (.halt (.ok v)) (.halt (.ok v))
  | failure {e e'} (he : e.Alike e') : Loosens s t pos hs c' (.halt (.error e)) (.halt (.error e'))
  | stay {c₁ c₁'} (h : c₁.Loosens s (some t) c₁' (c'.handlers pos none hs)) :
      Loosens s t pos hs c' (.stay none c₁) (.stay none c₁')
  | check {c₁ c₁'} (h : Config.Checks s (c'.handlers pos none hs) c₁ c₁') :
      Loosens s t pos hs c' (.stay none c₁) (.stay none c₁')
  | shift {d d' c₁ c₁'} (h : ∀ token, c₁.Loosens s token c₁' (c'.handlers pos d' hs))
      (hu : ¬ Use.Chains s ⟨pos, t.loosened, c'.manner d' hs⟩) :
      Loosens s t pos hs c' (.shift d c₁) (.shift d' c₁')

/-- A token of the stream at its index. Whether it is strict there is a matter of its association. -/
structure Token.At (s : Stream V) (pos : Int) (t : Token V) : Prop where
  stock : t.Stock fun _ => True
  strict : s.Strict pos ↔ t.assoc = some .none

namespace Config.Loosens
variable {t : Token V} {pos : Int} {hs : Handlers V} {c c' : Config V}

/-- The lookahead goes on with an expression. -/
private theorem led {h : Option (Handler V)} {v : V} {f f' : Frame V} {fs fs' : List (Frame V)}
    (ht : t.At s pos) (hfree : ∀ h' ∈ h, h'.Strict s → s.Strict pos → h'.token.lbp ≠ t.lbp)
    (hstack : Frame.Loosens s hs (f :: fs) (f' :: fs')) (hlt : f.rbp < t.lbp) :
    Turn.Loosens s t pos (h :: hs) ⟨.done v, f' :: fs'⟩
      ((⟨.done v, f :: fs⟩ : Config V).turn (some t) pos)
      ((⟨.done v, f' :: fs'⟩ : Config V).turn (some t.loosened) pos) := by
  have hrbp : f.rbp = f'.rbp := by cases hstack <;> rfl
  have hlt' : f'.rbp < t.loosened.lbp := hrbp ▸ hlt
  have hunchained : ¬ Use.Chains s ⟨pos, t.loosened, .follows h⟩ := by
    rintro ⟨h', hfollows, hstrict, hhere, hlbp⟩
    cases hfollows
    exact hfree h' rfl hstrict hhere hlbp
  rw [turn_done, if_pos hlt, turn_done, if_pos hlt']
  by_cases hassoc : t.assoc = some .none
  · obtain ⟨fn, hled, hled'⟩ := ht.stock.led_of_none hassoc
    rw [hled, hled']
    have hstrict : Handler.Strict s ⟨pos, t.loosened, .led, 0⟩ := ⟨rfl, ht.strict.2 hassoc⟩
    exact .shift (fun token => ⟨.asking hstrict ⟨f', rfl, hlt'⟩, hstack⟩) hunchained
  · rw [Token.loosened_of_assoc hassoc] at hunchained ⊢
    cases hled : t.led with
    | none =>
      refine .shift (fun token => ?_) (fun ⟨_, hfollows, _⟩ => nomatch hfollows)
      cases hstack with
      | same _ _ rest | strict _ _ rest => exact ⟨.failing (.same _), rest⟩
    | some led =>
      have hloose : ∀ h' ∈ some (⟨pos, t, .led, 0⟩ : Handler V), ¬ h'.Strict s := by
        rintro h' ⟨⟩ ⟨-, hhere⟩
        exact hassoc (ht.strict.1 hhere)
      have hguarded := t.kind.guarded_led ht.stock.kind hassoc led hled v
      exact .shift (fun token => ⟨.same hloose (hguarded.mono False.elim), hstack⟩) hunchained

/-- An operand is complete: the expression goes on with the lookahead, or it ends. -/
private theorem done {h : Option (Handler V)} {v : V} {fs fs' : List (Frame V)} (ht : t.At s pos)
    (hfree : ∀ h' ∈ h, h'.Strict s → s.Strict pos → h'.token.lbp ≠ t.lbp)
    (hstack : Frame.Loosens s hs fs fs') :
    Turn.Loosens s t pos (h :: hs) ⟨.done v, fs'⟩ ((⟨.done v, fs⟩ : Config V).turn (some t) pos)
      ((⟨.done v, fs'⟩ : Config V).turn (some t.loosened) pos) := by
  have hstack' := hstack
  cases hstack with
  | nil => exact .value v
  | @same h' hs f fs fs' hh hf rest =>
    by_cases hlt : f.rbp < t.lbp
    · exact led ht hfree hstack' hlt
    · have hlt' : ¬ f.rbp < t.loosened.lbp := hlt
      rw [turn_done, if_neg hlt, turn_done, if_neg hlt']
      refine .stay ⟨.same hh ((hf v).mono fun hzero => ?_), rest⟩
      rintro u ⟨⟩
      omega
  | @strict h' hs fn w fs fs' hh hwait rest =>
    by_cases hlt : h'.token.lbp < t.lbp
    · exact led ht hfree hstack' hlt
    · have hlt' : ¬ h'.token.lbp < t.loosened.lbp := hlt
      rw [turn_done, if_neg hlt, turn_done, if_neg hlt']
      exact .check (.mk hh hwait rest)

/-- The lookahead is to begin an expression that a handler asks for. -/
private theorem expression {h : Option (Handler V)} {r : Int} {next next' : V → Action V V}
    {fs fs' : List (Frame V)} (ht : t.At s pos) (hstack : Frame.Loosens s hs fs fs')
    (hpushed : Frame.Loosens s (h :: hs) (⟨r, next⟩ :: fs) (⟨r, next'⟩ :: fs')) :
    Turn.Loosens s t pos (h :: hs) ⟨.expression r next', fs'⟩
      ((⟨.expression r next, fs⟩ : Config V).turn (some t) pos)
      ((⟨.expression r next', fs'⟩ : Config V).turn (some t.loosened) pos) := by
  rw [turn_expression, turn_expression, t.nud_loosened]
  cases hnud : t.nud with
  | none =>
    have hmissing := Failure.Alike.missingPrefix pos t.mention_loosened.symm
    exact .shift (fun token => ⟨.failing hmissing, hstack⟩)
      (fun ⟨_, hfollows, _⟩ => nomatch hfollows)
  | some nud =>
    have hloose : ∀ h' ∈ some (⟨pos, t.loosened, .nud, 0⟩ : Handler V), ¬ h'.Strict s := by
      rintro h' ⟨⟩ ⟨hrole, -⟩
      cases hrole
    have hguarded := t.kind.guarded_nud ht.stock.kind nud hnud
    exact .shift (fun token => ⟨.same hloose (hguarded.mono False.elim), hpushed⟩)
      (fun ⟨_, hfollows, _⟩ => nomatch hfollows)

/-- Configurations that differ in nothing before the lookahead but in what waits. -/
private theorem same {h : Option (Handler V)} {a : Action V V} {fs fs' : List (Frame V)}
    (ht : t.At s pos) (hh : ∀ h' ∈ h, ¬ h'.Strict s) (ha : a.Guarded (∀ u ∈ some t, u.lbp ≤ 0))
    (hstack : Frame.Loosens s hs fs fs') :
    Turn.Loosens s t pos (h :: hs) ⟨a, fs'⟩ ((⟨a, fs⟩ : Config V).turn (some t) pos)
      ((⟨a, fs'⟩ : Config V).turn (some t.loosened) pos) := by
  have hsettled (hzero : ∀ u ∈ some t, u.lbp ≤ 0) : t.loosened = t :=
    Token.loosened_of_assoc (ht.stock.assoc_of_nonpos (hzero t rfl))
  have hmet : ∀ h' ∈ h.map Handler.met, ¬ h'.Strict s := by
    rintro _ hmem
    obtain ⟨h', hh', rfl⟩ := Option.map_eq_some_iff.1 hmem
    exact hh h' hh'
  have hdemanded {u : Token V} {handler : Option (Handler V)} :
      ¬ Use.Chains s ⟨pos, u, .demanded handler⟩ := by
    rintro ⟨_, hfollows, -⟩
    cases hfollows
  cases a with
  | done v => exact done ht (fun h' hh' hstrict => absurd hstrict (hh h' hh')) hstack
  | fail e => exact .failure (.same e)
  | expression r next => exact expression ht hstack (.same hh ha hstack)
  | expect m next =>
    obtain ⟨hzero, hnext⟩ := ha
    rw [hsettled hzero, Config.turn, Config.turn]
    cases m.accepts ((some t).map (·.profile)) with
    | error f => exact .failure (.same _)
    | ok met =>
      cases met with
      | false => exact .failure (.same _)
      | true =>
        exact .shift (fun token => ⟨.same hmet ((hnext _).mono False.elim), hstack⟩) hdemanded
  | attempt m next =>
    obtain ⟨hzero, htrue, hfalse⟩ := ha
    rw [hsettled hzero, Config.turn, Config.turn]
    cases m.accepts ((some t).map (·.profile)) with
    | error f => exact .failure (.same _)
    | ok met =>
      cases met with
      | false => exact .stay ⟨.same hmet hfalse, hstack⟩
      | true =>
        exact .shift (fun token => ⟨.same hmet (htrue.mono False.elim), hstack⟩) hdemanded
  | look next =>
    rcases ha with ⟨hzero, hnext⟩ | ⟨e, hfail⟩
    · rw [hsettled hzero]
      exact .stay ⟨.same hh (hnext _ _), hstack⟩
    · rw [Config.turn, Config.turn, hfail, hfail]
      exact .stay ⟨.failing (.same _), hstack⟩
  | advance | emit => exact ha.elim

/-- Before the same token the two parses take the same turn, unless an operator that does not associate
has its operands. -/
theorem turn (ht : t.At s pos) (hc : c.Loosens s (some t) c' hs) :
    Turn.Loosens s t pos hs c' (c.turn (some t) pos) (c'.turn (some t.loosened) pos) := by
  obtain _ | ⟨h, hs⟩ := hs
  · exact hc.elim
  · obtain ⟨a, fs⟩ := c
    obtain ⟨a', fs'⟩ := c'
    obtain ⟨haction, hstack⟩ := hc
    cases haction with
    | same hh ha => exact same ht hh ha hstack
    | asking hh hwait => exact expression ht hstack (.strict hh hwait hstack)
    | @checked h r hfree =>
      cases r with
      | error f => exact .failure (.same _)
      | ok v =>
        exact done ht (fun h' hh' _ hhere hlbp => hfree h' hh' t rfl ⟨hlbp.symm, ht.strict.1 hhere⟩)
          hstack
    | failing he => exact .failure he

/-- Where it refuses nothing, an operator with both its operands is its counterpart. -/
theorem unchained {left : Handler V} {fn : V → V → Except Fault V} {v w : V} {fs fs' : List (Frame V)}
    (hchains : ¬ (t.lbp = left.token.lbp ∧ t.assoc = some .none)) (hstack : Frame.Loosens s hs fs fs') :
    (⟨.finish (fn v w), fs⟩ : Config V).Loosens s (some t)
      ⟨Kind.combine left.token.lbp left.token.name .left fn v w, fs'⟩ (some left :: hs) := by
  rw [Kind.combine_of_ne (by decide)]
  refine ⟨.checked ?_, hstack⟩
  rintro h' ⟨⟩ u ⟨⟩
  exact hchains

end Config.Loosens

/-- The first of the tokens, in the order in which they are consumed, that chains. -/
inductive FirstChain (s : Stream V) (u : Use V) : List (Use V) → Prop
  | here {uses} (hu : u.Chains s) : FirstChain s u (u :: uses)
  | later {w uses} (hw : ¬ w.Chains s) (h : FirstChain s u uses) : FirstChain s u (w :: uses)

namespace FirstChain
variable {u : Use V} {uses : List (Use V)}

theorem mem (h : FirstChain s u uses) : u ∈ uses ∧ u.Chains s := by
  induction h with
  | here hu => exact ⟨List.mem_cons_self, hu⟩
  | later _ _ ih => exact ⟨List.mem_cons_of_mem _ ih.1, ih.2⟩

end FirstChain

/-- How a parse ends, given the tokens that the loosened parse consumes and how that one ends. -/
inductive Verdict (s : Stream V) (uses : List (Use V)) (o o' : Outcome V V) : Prop
  | alike (hfree : ∀ u ∈ uses, ¬ u.Chains s) (h : o.Alike o')
  | refused {u e} (hfirst : FirstChain s u uses) (he : o.result = .error e)
      (hrefuses : e.RefusesChain u.index)
  /-- A chain is refused, and without the refusal the function of the operator or the next pull fails. -/
  | failed {e e' pos} (he : o.result = .error e) (hrefuses : e.RefusesChain pos)
      (he' : o'.result = .error e')

namespace Verdict
variable {uses : List (Use V)} {o o' : Outcome V V}

/-- A token is consumed before the others, and does not chain. -/
theorem cons {u : Use V} (hu : ¬ u.Chains s) (h : Verdict s uses o o') : Verdict s (u :: uses) o o' := by
  cases h with
  | alike hfree halike => exact .alike (List.forall_mem_cons.2 ⟨hu, hfree⟩) halike
  | refused hfirst he hrefuses => exact .refused (.later hu hfirst) he hrefuses
  | failed he hrefuses he' => exact .failed he hrefuses he'

/-- The parse ends like the loosened one, or a chain is refused. -/
theorem alike_or_refused (h : Verdict s uses o o') :
    o.Alike o' ∨ ∃ e pos, o.result = .error e ∧ e.RefusesChain pos := by
  cases h with
  | alike _ halike => exact .inl halike
  | refused _ he hrefuses | failed he hrefuses => exact .inr ⟨_, _, he, hrefuses⟩

/-- Where the loosened parse makes a value, the parse fails if an operator chains, and at the first one. -/
theorem fails_iff (h : Verdict s uses o o') {v : V} (hv : o'.result = .ok v) :
    ((∃ e, o.result = .error e) ↔ ∃ u ∈ uses, u.Chains s) ∧
      ∀ e, o.result = .error e → ∃ u, FirstChain s u uses ∧ e.RefusesChain u.index := by
  cases h with
  | alike hfree halike =>
    have hmakes : ∀ e, o.result ≠ .error e := by
      intro e he
      cases halike with
      | value => cases he
      | failure => cases hv
    exact ⟨⟨fun ⟨e, he⟩ => absurd he (hmakes e), fun ⟨u, hu, hchains⟩ => absurd hchains (hfree u hu)⟩,
      fun e he => absurd he (hmakes e)⟩
  | @refused u e hfirst he hrefuses =>
    refine ⟨⟨fun _ => ⟨u, hfirst.mem⟩, fun _ => ⟨e, he⟩⟩, fun e' he' => ?_⟩
    cases he.symm.trans he'
    exact ⟨u, hfirst, hrefuses⟩
  | failed _ _ he' => cases hv.symm.trans he'

end Verdict

/-- What is delivered at an index is a token of the stream there. -/
theorem Token.at_of_delivery (hs : ∀ t ∈ s.tokens, t.Stock fun _ => True) {pos : Int} {k : ℕ}
    {t : Token V} (hk : pos = k) (hdelivery : s.delivery k = .ok t) : t.At s pos := by
  constructor
  · rcases s.mem_of_delivery hdelivery with rfl | hmem
    · exact ⟨trivial, rfl, fun _ => rfl⟩
    · exact hs t hmem
  · constructor
    · rintro ⟨k', u, hk', hu, hassoc⟩
      obtain rfl : k = k' := by omega
      cases hdelivery.symm.trans hu
      exact hassoc
    · exact fun hassoc => ⟨k, t, hk, hdelivery, hassoc⟩

namespace Account
variable {hs : Handlers V} {c c' : Config V} {p q : Parser V} {uses : List (Use V)} {o : Outcome V V}

/-- Before an operator that it chains with, an operator that does not associate refuses. Its counterpart
hands over its result to that operator, if it has one. -/
private theorem refuses {h : Handler V} {t : Token V} {fn : V → V → Except Fault V} {v w : V}
    {fs fs' : List (Frame V)} (ht : t.At s p.pos) (htoken : p.token = some t) (hq : Parser.Loosens p q)
    (hh : h.Strict s) (hwait : ∃ f ∈ fs'.head?, f.rbp < h.token.lbp)
    (hchains : t.lbp = h.token.lbp ∧ t.assoc = some .none)
    (hrest : Account (some h :: hs) ⟨Kind.combine h.token.lbp h.token.name .left fn v w, fs'⟩ q uses o) :
    Verdict s uses
      ((⟨Kind.combine h.token.lbp h.token.name .none fn v w, fs⟩ : Config V).run p) o := by
  have hrefuses : (Failure.parse (.unexpected p.pos (some t.profile)
      ("no chained operator after " ++ Text.quoted? h.token.name))).RefusesChain p.pos := ⟨_, _, rfl⟩
  have htoken' : q.token = some t.loosened := by rw [hq.token, htoken, Option.map_some]
  rw [Config.run_combine htoken, if_pos hchains]
  rw [Kind.combine_of_ne (by decide)] at hrest
  cases hvalue : fn v w with
  | error f =>
    rw [hvalue] at hrest
    obtain ⟨rfl, rfl⟩ := hrest.of_fail
    exact .failed rfl hrefuses rfl
  | ok x =>
    rw [hvalue] at hrest
    obtain ⟨f, hf, hlt⟩ := hwait
    obtain _ | ⟨f', fs'⟩ := fs'
    · cases hf
    · cases hf
      -- The expression around it waits with less power than the lookahead has, so it goes on.
      obtain ⟨fn', -, hled⟩ := ht.stock.led_of_none hchains.2
      have hdispatch : f.rbp < t.loosened.lbp := hchains.1.symm ▸ hlt
      have hturn : ∃ c, (⟨.done x, f :: fs'⟩ : Config V).turn q.token q.pos =
          .shift (some ⟨t.loosened, some x⟩) c := by
        rw [htoken', Config.turn_done, if_pos hdispatch, hled]
        exact ⟨_, rfl⟩
      obtain ⟨c, hturn⟩ := hturn
      have hstrict : s.Strict p.pos := ht.strict.2 hchains.2
      cases hrest with
      | halt hturn' | stay hturn' => cases hturn.symm.trans hturn'
      | unread => exact .failed rfl hrefuses rfl
      | shift hturn' =>
        cases hturn.symm.trans hturn'
        rw [Config.use, htoken']
        refine .refused (u := ⟨q.pos, t.loosened, .follows (some h)⟩) (.here ?_) rfl ?_
        · exact ⟨h, rfl, hh, hq.pos ▸ hstrict, hchains.1.symm⟩
        · exact hq.pos ▸ hrefuses

/-- The lookahead of a parser, and its turn beside that of the loosened one. -/
private theorem turns (hs : ∀ t ∈ s.tokens, t.Stock fun _ => True) {trace : Bool} {ds : Answers V}
    {hands : Handlers V} (hc : c.Loosens s p.token c' hands) (hp : Pulls (.ofStream s trace) ds p)
    (hdrawn : Drawn p) (hq : Parser.Loosens p q) :
    ∃ t turn, p.token = some t ∧ t.At s p.pos ∧ c.run p = turn.outcome p ∧
      Turn.Loosens s t p.pos hands c' turn (c'.turn q.token q.pos) := by
  obtain ⟨k, t, ht, hk, hdelivery⟩ := hdrawn.delivered hp
  have htoken : q.token = some t.loosened := by rw [hq.token, ht, Option.map_some]
  have hat := Token.at_of_delivery hs hk hdelivery
  refine ⟨t, c.turn p.token p.pos, ht, hat, c.run_eq_turn p, ?_⟩
  rw [ht] at hc ⊢
  rw [htoken, hq.pos]
  exact hc.turn hat

/-- The verdict on a parse beside a loosened one that consumes these tokens. -/
theorem verdict (hs : ∀ t ∈ s.tokens, t.Stock fun _ => True) {trace : Bool} {hands : Handlers V}
    (h : Account hands c' q uses o) {ds : Answers V} (hc : c.Loosens s p.token c' hands)
    (hp : Pulls (.ofStream s trace) ds p) (hdrawn : Drawn p) (hq : Parser.Loosens p q) :
    Verdict s uses (c.run p) o := by
  -- On the account of the loosened parse, which goes on where the other refuses.
  induction h generalizing c p ds with
  | halt h =>
    obtain ⟨t, turn, -, -, hrun, hturn⟩ := turns hs hc hp hdrawn hq
    rw [hrun]
    rw [h] at hturn
    cases hturn with
    | value v => exact .alike (List.forall_mem_nil _) (.value hq.pos.symm)
    | failure he => exact .alike (List.forall_mem_nil _) (.failure he hq.pos.symm)
  | @stay hands c' q event c₁' uses o h rest ih =>
    obtain ⟨t, turn, ht, hat, hrun, hturn⟩ := turns hs hc hp hdrawn hq
    rw [hrun]
    rw [h] at hturn
    rw [hq.pos] at ih rest
    cases hturn with
    | stay hc₁ => exact ih (ht ▸ hc₁) hp hdrawn hq
    | check hc₁ =>
      generalize c'.handlers p.pos none hands = hands' at hc₁ ih rest
      cases hc₁ with
      | @mk left hs' fn v w fs fs' hleft hwait hstack =>
        by_cases hchains : t.lbp = left.token.lbp ∧ t.assoc = some .none
        · exact refuses hat ht hq hleft hwait hchains rest
        · rw [Turn.outcome, Parser.note, Config.run_combine ht, if_neg hchains]
          exact ih (ht ▸ .unchained hchains hstack) hp hdrawn hq
  | @unread hands c' q d' c₁' e h he =>
    obtain ⟨t, turn, -, -, hrun, hturn⟩ := turns hs hc hp hdrawn hq
    rw [hrun]
    rw [h] at hturn
    cases hturn with
    | shift _ _ =>
      have he' := (hq.advance.1 e).2 he
      refine .alike (List.forall_mem_nil _) ?_
      rw [Turn.outcome, Outcome.andThen_error _ he']
      refine .failure (.same e) ?_
      rw [(Parser.advance_failed he').2, (Parser.advance_failed he).2, hq.pos]
  | @shift hands c' q d' c₁' u uses o h hu rest ih =>
    obtain ⟨t, turn, ht, -, hrun, hturn⟩ := turns hs hc hp hdrawn hq
    rw [hrun]
    rw [h] at hturn
    rw [hq.pos] at ih
    cases hturn with
    | @shift d d' c₁ c₁' hc₁ hunchained =>
      cases hpull : p.advance.result with
      | error e => cases ((hq.advance.1 e).1 hpull).symm.trans hu
      | ok t' =>
        rw [Turn.outcome, Outcome.andThen_ok _ hpull, Config.use, hq.token, ht, hq.pos]
        exact (ih (hc₁ _) (hp.advance.announced d p.pos) (Drawn.advance hdrawn.pos hpull d p.pos).1
          (hq.advance.2.announced d d' p.pos p.pos)).cons hunchained

end Account

namespace Stream
variable {trace strict : Bool} {uses : List (Use V)}

private theorem Accounts.verdict (hs : ∀ t ∈ s.tokens, t.Stock fun _ => True)
    (h : s.loosened.Accounts trace strict uses) :
    Verdict s uses (s.parse trace strict) (s.loosened.parse trace strict) := by
  have hq : Parser.Loosens (s.runner trace) (s.loosened.runner trace) := ⟨rfl, rfl, rfl⟩
  rcases h.opened with ⟨e, hunread⟩ | ⟨t', ht', haccount⟩
  · have he := (hq.advance.1 e).2 hunread.result
    rw [s.parse_eq_opened, Outcome.andThen_error _ he, hunread.parse, hunread.uses]
    refine .alike (List.forall_mem_nil _) (.failure (.same e) ?_)
    rw [(Parser.advance_failed he).2, (Parser.advance_failed hunread.result).2, hq.pos]
  · cases ht : (s.runner trace).advance.result with
    | error e => cases ((hq.advance.1 e).1 ht).symm.trans ht'
    | ok t =>
      have hguarded : (Config.opened strict : Config V).action.Guarded
          (∀ u ∈ (s.runner trace).advance.parser.token, u.lbp ≤ 0) := by
        intro v
        cases strict with
        | false => trivial
        | true =>
          refine .inl ⟨le_refl _, fun u pos => ?_⟩
          dsimp only
          split <;> trivial
      rw [s.parse_eq_opened, Outcome.andThen_ok _ ht]
      exact haccount.verdict hs ⟨.same nofun hguarded, .nil⟩ (s.pulls_runner trace)
        (drawn_runner ht).1 hq.advance.2

end Stream

/-- An operator that does not associate is one that associates to the left and refuses to be chained. A
run ends as if such operators associated to the left, or it refuses a chain. And where it would make a
value with them, it fails if and only if one of them would hand over its result to another of the same
power, and it fails at the first that would take one. -/
theorem none_is_left_without_chains (s : Stream V) (hs : ∀ t ∈ s.tokens, t.Stock fun _ => True)
    (trace strict : Bool) :
    ((s.parse trace strict).Alike (s.loosened.parse trace strict) ∨
        ∃ e pos, (s.parse trace strict).result = .error e ∧ e.RefusesChain pos) ∧
      ∃ uses, s.loosened.Accounts trace strict uses ∧
        ∀ v, (s.loosened.parse trace strict).result = .ok v →
          ((∃ e, (s.parse trace strict).result = .error e) ↔ ∃ u ∈ uses, u.Chains s) ∧
            ∀ e, (s.parse trace strict).result = .error e →
              ∃ u, FirstChain s u uses ∧ e.RefusesChain u.index := by
  obtain ⟨uses, h⟩ := s.loosened.exists_accounts trace strict
  have hverdict := h.verdict hs
  exact ⟨hverdict.alike_or_refused, uses, h, fun v hv => hverdict.fails_iff hv⟩

def below : Token ℕ :=
  ⟨.anonymous, 10, some "<", .infixOp .none fun x y => .ok (if x < y then 1 else 0)⟩

/-- `(1 < 2) < 3 < 4`. -/
def ranking : Stream ℕ :=
  ⟨[⟨.anonymous, 0, some "(", .group (.named ")") none⟩, ⟨.anonymous, 0, some "1", .literal 1⟩, below,
    ⟨.anonymous, 0, some "2", .literal 2⟩, ⟨.anonymous, 0, some ")", .keyword⟩, below,
    ⟨.anonymous, 0, some "3", .literal 3⟩, below, ⟨.anonymous, 0, some "4", .literal 4⟩], none⟩

/-- Brackets undo the first chain. The last operator is the one that is refused. -/
theorem none_is_left_without_chains_ranking :
    (∀ t ∈ ranking.tokens, t.Stock fun _ => True) ∧
      (ranking.loosened.parse false true).result = .ok 1 ∧
      (ranking.parse false true).result = .error (.parse (.unexpected 7 (some below.profile)
        ("no chained operator after " ++ Text.quoted? (some "<")))) ∧
      ∃ uses u, ranking.loosened.Accounts false true uses ∧ FirstChain ranking u uses ∧ u.index = 7 := by
  have hs : ∀ t ∈ ranking.tokens, t.Stock fun _ => True := by
    have hbelow : below.Stock fun _ => True := ⟨trivial, (by omega : (1 : Int) ≤ 10), nofun⟩
    have hplain (name : String) (k : Kind ℕ) (hk : k.Stock fun _ => True) (hpower : k.Admits 0) :
        (⟨.anonymous, 0, some name, k⟩ : Token ℕ).Stock fun _ => True := ⟨hk, hpower, nofun⟩
    have hliteral (name : String) (n : ℕ) := hplain name (.literal n) trivial (le_refl 0)
    simp only [ranking, List.forall_mem_cons]
    exact ⟨hplain _ _ trivial (le_refl 0), hliteral _ _, hbelow, hliteral _ _,
      hplain _ _ trivial (le_refl 0), hbelow, hliteral _ _, hbelow, hliteral _ _, List.forall_mem_nil _⟩
  have hvalue : (ranking.loosened.parse false true).result = .ok 1 := rfl
  have hrefused : (ranking.parse false true).result = .error (.parse (.unexpected 7
      (some below.profile) ("no chained operator after " ++ Text.quoted? (some "<")))) := rfl
  obtain ⟨-, uses, haccounts, hmakes⟩ := none_is_left_without_chains ranking hs false true
  obtain ⟨u, hfirst, t, name, heq⟩ := (hmakes 1 hvalue).2 _ hrefused
  have hindex : (7 : Int) = u.index := by
    injection heq with heq
    injection heq
  exact ⟨hs, hvalue, hrefused, uses, u, haccounts, hfirst, hindex.symm⟩

end BindingPower
