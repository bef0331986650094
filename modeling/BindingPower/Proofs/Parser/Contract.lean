import BindingPower.Proofs.Parser.Failures
import BindingPower.Proofs.Parser.Lockstep

/-! What handlers are held to: the values they make of such values, how they fail, and what they ask
the parser for. Where every token keeps to it, so does every parse, whether it succeeds or not. -/
namespace BindingPower
variable {V : Type}

/-- The values that handlers make and may be given, the failures they may end in, and the powers and
matchers they may ask with. What the parser refuses on its own is among the failures. -/
structure Contract (V : Type) where
  value : V → Prop
  failure : Failure → Prop
  power : Int → Prop
  matcher : Matcher → Prop
  power_zero : power 0
  missingPrefix : ∀ pos t, failure (.parse (.missingPrefix pos t))
  unexpected : ∀ pos t m, failure (.parse (.unexpected pos t m))
  unmatched : ∀ m t f, matcher m → m.accepts t = .error f → failure (.fault f)

namespace Contract

def Result (C : Contract V) : Except Failure V → Prop
  | .ok v => C.value v
  | .error e => C.failure e

/-- The same of a function that computes. -/
def Computes (C : Contract V) : Except Fault V → Prop
  | .ok v => C.value v
  | .error f => C.failure (.fault f)

end Contract

variable {C : Contract V}

/-- A handler that keeps a contract as long as the expressions it asks for do. -/
def Action.Keeps (C : Contract V) : Action V V → Prop
  | done v => C.value v
  | fail e => C.failure e
  | expression r next => C.power r ∧ ∀ v, C.value v → Keeps C (next v)
  | expect m next => C.matcher m ∧ ∀ t, Keeps C (next t)
  | attempt m next => C.matcher m ∧ ∀ b, Keeps C (next b)
  | advance next => ∀ t, Keeps C (next t)
  | look next => ∀ t pos, Keeps C (next t pos)
  | emit _ a => Keeps C a

private theorem Action.keeps_finish {r : Except Fault V} (h : C.Computes r) :
    (Action.finish r : Action V V).Keeps C := by
  cases r with
  | ok v => exact h
  | error f => exact h

namespace Kind

/-- A ready-made kind whose functions compute within a contract, and whose powers and matchers are
within it as well, where the token of the kind has this power. -/
def Keeps (C : Contract V) (lbp : Int) : Kind V → Prop
  | literal v => C.value v
  | digit d make extend joins => C.Computes (make d) ∧ ∀ v, C.value v →
      (∀ f, joins v = .error f → C.failure (.fault f)) ∧
        (joins v = .ok true → C.Computes (extend v d))
  | infixOp assoc fn => C.power (rightPower lbp assoc) ∧
      ∀ v w, C.value v → C.value w → C.Computes (fn v w)
  | prefixOp rbp fn => C.power rbp ∧ ∀ v, C.value v → C.Computes (fn v)
  | bifix assoc fn rbp prefixFn =>
      (C.power (rightPower lbp assoc) ∧ ∀ v w, C.value v → C.value w → C.Computes (fn v w)) ∧
        C.power rbp ∧ ∀ v, C.value v → C.Computes (prefixFn v)
  | postfixOp fn => ∀ v, C.value v → C.Computes (fn v)
  | group close wrap => C.matcher close ∧ ∀ fn ∈ wrap, ∀ v, C.value v → C.Computes (fn v)
  | ternary separator fn => C.matcher separator ∧ C.power (lbp - 1) ∧
      ∀ c v w, C.value c → C.value v → C.value w → C.Computes (fn c v w)
  | conditional thenMark elseMark endMark fn =>
      (C.matcher thenMark ∧ C.matcher elseMark ∧ C.matcher endMark) ∧
        ∀ c v, C.value c → C.value v →
          C.Computes (fn c v none) ∧ ∀ w, C.value w → C.Computes (fn c v (some w))
  | endToken | keyword => True
  | scripted .. | duck .. | traced .. => False

variable {k : Kind V} {lbp : Int}

theorem keeps_nud (hk : k.Keeps C lbp) : ∀ a ∈ k.nud, a.Keeps C := by
  cases k with
  | literal value =>
    rintro a ⟨⟩
    exact hk
  | digit value make extend joins =>
    rintro a ⟨⟩
    exact Action.keeps_finish hk.1
  | prefixOp rbp fn =>
    rintro a ⟨⟩
    exact ⟨hk.1, fun v hv => Action.keeps_finish (hk.2 v hv)⟩
  | bifix assoc fn rbp prefixFn =>
    rintro a ⟨⟩
    exact ⟨hk.2.1, fun v hv => Action.keeps_finish (hk.2.2 v hv)⟩
  | group close wrap =>
    rintro a ⟨⟩
    refine ⟨C.power_zero, fun v hv => ⟨hk.1, fun _ => ?_⟩⟩
    cases wrap with
    | none => exact hv
    | some fn => exact Action.keeps_finish (hk.2 fn rfl v hv)
  | conditional thenMark elseMark endMark fn =>
    obtain ⟨⟨hthen, helse, hend⟩, hfn⟩ := hk
    rintro a ⟨⟩
    refine ⟨C.power_zero, fun c hc => ⟨hthen, fun _ => ⟨C.power_zero, fun v hv => ⟨helse, ?_⟩⟩⟩⟩
    rintro (_ | _)
    · exact ⟨hend, fun _ => Action.keeps_finish (hfn c v hc hv).1⟩
    · exact ⟨C.power_zero, fun w hw =>
        ⟨hend, fun _ => Action.keeps_finish ((hfn c v hc hv).2 w hw)⟩⟩
  | endToken | infixOp | postfixOp | keyword | ternary => exact fun a ha => nomatch ha
  | scripted | duck | traced => exact hk.elim

private theorem keeps_combine {name : Option String} {assoc : Assoc} {fn : V → V → Except Fault V} {v w : V}
    (h : C.Computes (fn v w)) : (combine lbp name assoc fn v w).Keeps C := by
  unfold combine
  split
  · intro t pos
    dsimp only
    split
    · exact C.unexpected pos t _
    · exact Action.keeps_finish h
  · exact Action.keeps_finish h

theorem keeps_led {identity : Identity} {name : Option String} (hk : k.Keeps C lbp) :
    ∀ led ∈ k.led identity lbp name, ∀ v, C.value v → (led v).Keeps C := by
  cases k with
  | digit value make extend joins =>
    rintro led ⟨⟩ v hv
    obtain ⟨hfault, hjoins⟩ := hk.2 v hv
    dsimp only
    split
    · exact hfault _ ‹_›
    · exact Action.keeps_finish (hjoins ‹_›)
    · exact fun t pos => C.unexpected _ _ _
  | infixOp assoc fn =>
    rintro led ⟨⟩ v hv
    exact ⟨hk.1, fun w hw => keeps_combine (hk.2 v w hv hw)⟩
  | bifix assoc fn rbp prefixFn =>
    rintro led ⟨⟩ v hv
    exact ⟨hk.1.1, fun w hw => keeps_combine (hk.1.2 v w hv hw)⟩
  | postfixOp fn =>
    rintro led ⟨⟩ v hv
    exact Action.keeps_finish (hk v hv)
  | ternary separator fn =>
    obtain ⟨hseparator, hpower, hfn⟩ := hk
    rintro led ⟨⟩ c hc
    exact ⟨C.power_zero, fun v hv => ⟨hseparator, fun _ => ⟨hpower, fun w hw =>
      Action.keeps_finish (hfn c v w hc hv hw)⟩⟩⟩
  | endToken | literal | prefixOp | group | keyword | conditional => exact fun a ha => nomatch ha
  | scripted | duck | traced => exact hk.elim

end Kind

/-- A token that brings handlers that keep a contract. Where it has none to go on with an expression, it
binds no tighter than any power, or that is a failure like others. -/
structure Token.Keeps (C : Contract V) (t : Token V) : Prop where
  nud : ∀ a ∈ t.nud, a.Keeps C
  led : ∀ led ∈ t.led, ∀ v, C.value v → (led v).Keeps C
  missingInfix : t.led = none → ∀ r, C.power r → r < t.lbp →
    ∀ pos, C.failure (.parse (.missingInfix pos (some t.profile)))

theorem Token.keeps_sentinel (h : ∀ r, C.power r → 0 ≤ r) : (sentinel : Token V).Keeps C where
  nud := nofun
  led := nofun
  missingInfix _ r hr hlt := absurd hlt (Int.not_lt.2 (h r hr))

/-- A token of a ready-made kind within the contract, that binds where it has a handler for it. -/
theorem Token.keeps_of_kind {t : Token V} (hk : t.kind.Keeps C t.lbp)
    (hled : t.led = none → t.lbp ≤ 0) (h : ∀ r, C.power r → 0 ≤ r) : t.Keeps C where
  nud := t.kind.keeps_nud hk
  led := t.kind.keeps_led hk
  missingInfix hnone r hr hlt := absurd hlt (Int.not_lt.2 ((hled hnone).trans (h r hr)))

/-- The handler under way keeps the contract, and so do those that wait for a value. -/
structure Config.Keeps (C : Contract V) (c : Config V) : Prop where
  action : c.action.Keeps C
  stack : ∀ f ∈ c.stack, C.power f.rbp ∧ ∀ v, C.value v → (f.next v).Keeps C

def Turn.Keeps (C : Contract V) : Turn V → Prop
  | halt r => C.Result r
  | stay _ c | shift _ c => c.Keeps C

namespace Config.Keeps
variable {token : Option (Token V)} {pos : Int}

private theorem done {v : V} {fs : List (Frame V)} (hv : C.value v)
    (hfs : ∀ f ∈ fs, C.power f.rbp ∧ ∀ v, C.value v → (f.next v).Keeps C)
    (ht : ∀ t ∈ token, t.Keeps C) : ((⟨.done v, fs⟩ : Config V).turn token pos).Keeps C := by
  cases fs with
  | nil => exact hv
  | cons f fs =>
    obtain ⟨⟨hpower, hnext⟩, hrest⟩ := List.forall_mem_cons.1 hfs
    rw [Config.turn]
    split
    · rename_i hlt
      obtain ⟨u, rfl, hu⟩ := (Option.any_eq_true _ _).1 hlt
      have hlt : f.rbp < u.lbp := of_decide_eq_true hu
      have hu := ht u rfl
      cases hled : u.led with
      | none =>
        simp only [Option.bind_some, hled, Option.map_none]
        exact ⟨hu.missingInfix hled _ hpower hlt pos, hrest⟩
      | some led =>
        simp only [Option.bind_some, hled, Option.map_some]
        exact ⟨hu.led led hled v hv, hfs⟩
    · exact ⟨hnext v hv, hrest⟩

/-- A turn before a token that keeps the contract leaves handlers that do. -/
theorem turn {c : Config V} (hc : c.Keeps C) (ht : ∀ t ∈ token, t.Keeps C) :
    (c.turn token pos).Keeps C := by
  obtain ⟨a, fs⟩ := c
  obtain ⟨ha, hfs⟩ := hc
  cases a with
  | done v => exact done ha hfs ht
  | fail e => exact ha
  | expression r next =>
    rw [Config.turn]
    cases hnud : token.bind fun t => t.nud.map (t, ·) with
    | none => exact ⟨C.missingPrefix pos _, hfs⟩
    | some handler =>
      obtain ⟨u, nud⟩ := handler
      obtain ⟨hu, hnud⟩ := Parser.of_handler hnud
      exact ⟨(ht u hu).nud nud hnud, List.forall_mem_cons.2 ⟨ha, hfs⟩⟩
  | expect m next =>
    rw [Config.turn]
    cases hm : m.accepts (token.map (·.profile)) with
    | error f => exact C.unmatched m _ f ha.1 hm
    | ok met =>
      cases met with
      | true => exact ⟨ha.2 _, hfs⟩
      | false => exact C.unexpected pos _ _
  | attempt m next =>
    rw [Config.turn]
    cases hm : m.accepts (token.map (·.profile)) with
    | error f => exact C.unmatched m _ f ha.1 hm
    | ok met =>
      cases met with
      | true => exact ⟨ha.2 true, hfs⟩
      | false => exact ⟨ha.2 false, hfs⟩
  | advance next => exact ⟨ha _, hfs⟩
  | look next => exact ⟨ha _ pos, hfs⟩
  | emit event a => exact ⟨ha, hfs⟩

end Config.Keeps

/-- A parser all of whose tokens, those to come included, keep the contract. -/
structure Parser.Keeps (C : Contract V) (p : Parser V) : Prop where
  token : ∀ t ∈ p.token, t.Keeps C
  rest : ∀ t ∈ p.source.rest, t.Keeps C
  failure : ∀ e ∈ p.source.failure, C.failure e

/-- A pull fails with the failure of the source only, and leaves none but that. -/
theorem Source.next_failure (s : Source V) :
    (∀ e, s.next.2.failure = some e → s.failure = some e) ∧
      ∀ e, s.next.1 = .error e → s.failure = some e := by
  obtain ⟨rest, failure, pos, exhausted⟩ := s
  unfold Source.next
  cases exhausted with
  | true => exact ⟨fun _ he => he, fun e he => nomatch he⟩
  | false =>
    cases rest with
    | nil =>
      cases failure with
      | none => exact ⟨fun _ he => he, fun e he => nomatch he⟩
      | some e =>
        refine ⟨fun e' he => ?_, fun e' he => congrArg some (Except.error.inj he)⟩
        cases he
    | cons u us =>
      cases hend : u.isEnd with
      | true =>
        simp only [hend, Bool.false_eq_true, if_true, if_false]
        exact ⟨fun _ he => he, fun e he => nomatch he⟩
      | false =>
        simp only [hend, Bool.false_eq_true, if_false]
        exact ⟨fun _ he => he, fun e he => nomatch he⟩

namespace Parser

theorem keeps_stable (hend : (Token.sentinel : Token V).Keeps C) : Stable (Parser.Keeps C) where
  advance p h := by
    obtain ⟨hleft, hdelivered⟩ := p.source.next_rest
    obtain ⟨hfailure, -⟩ := p.source.next_failure
    have hrest : ∀ t ∈ p.source.next.2.rest, t.Keeps C := fun t ht => h.rest t (hleft t ht)
    have hkept : ∀ e ∈ p.source.next.2.failure, C.failure e := fun e he =>
      h.failure e (hfailure e he)
    cases hn : p.source.next.1 with
    | ok t =>
      have ht : t.Keeps C := by
        rcases hdelivered t hn with rfl | hmem
        · exact hend
        · exact h.rest t hmem
      rw [advance_of_ok hn]
      exact ⟨fun u hu => Option.some.inj hu ▸ ht, hrest, hkept⟩
    | error e =>
      rw [advance_of_error hn]
      exact ⟨h.token, hrest, hkept⟩
  emit _ _ h := ⟨h.token, h.rest, h.failure⟩

theorem Keeps.note {p : Parser V} (h : p.Keeps C) (event : Option Event) : (p.note event).Keeps C := by
  obtain ⟨log, hlog⟩ := p.note_eq event
  rw [hlog]
  exact ⟨h.token, h.rest, h.failure⟩

theorem Keeps.announce {p : Parser V} (h : p.Keeps C) (d : Option (Dispatch V)) (pos : Int) :
    (p.announce d pos).Keeps C := by
  obtain ⟨log, hlog⟩ := p.announce_eq d pos
  rw [hlog]
  exact ⟨h.token, h.rest, h.failure⟩

end Parser

/-- A parse whose handlers keep the contract has a result within it. -/
theorem Course.keeps {c : Config V} {p : Parser V} {acts : List (Act V)} {o : Outcome V V}
    (h : Course c p acts o) (hend : (Token.sentinel : Token V).Keeps C) (hc : c.Keeps C)
    (hp : p.Keeps C) : C.Result o.result := by
  have hadvance {p : Parser V} (hp : p.Keeps C) : p.advance.parser.Keeps C :=
    (Parser.keeps_stable hend).advance p hp
  induction h with
  | @halt c p r h =>
    have hturn : (c.turn p.token p.pos).Keeps C := hc.turn hp.token
    rw [h] at hturn
    exact hturn
  | @stay c p event c' acts o h rest ih =>
    have hturn : (c.turn p.token p.pos).Keeps C := hc.turn hp.token
    rw [h] at hturn
    exact ih hturn (hp.note event)
  | @unread c p d c' e h he =>
    exact hp.failure e (p.source.next_failure.2 e (Parser.advance_result_error.1 he))
  | @shift c p d c' t acts o h ht rest ih =>
    have hturn : (c.turn p.token p.pos).Keeps C := hc.turn hp.token
    rw [h] at hturn
    exact ih hturn ((hadvance hp).announce d p.pos)

theorem Config.keeps_whole (strict : Bool) : (Config.whole strict : Config V).Keeps C := by
  refine ⟨fun t => ⟨C.power_zero, fun v hv => ?_⟩, fun _ hf => nomatch hf⟩
  cases strict with
  | false => exact hv
  | true =>
    intro u pos
    dsimp only
    split
    · exact hv
    · exact C.unexpected pos u _

/-- A run on tokens that keep the contract, where what ends them does too, has a result within it. -/
theorem Stream.parse_keeps {s : Stream V} (hend : (Token.sentinel : Token V).Keeps C)
    (htokens : ∀ t ∈ s.tokens, t.Keeps C) (hfailure : ∀ e ∈ s.failure, C.failure e)
    (trace strict : Bool) : C.Result (s.parse trace strict).result := by
  have hp : Parser.Keeps C { Parser.ofStream s trace with started := true } :=
    ⟨nofun, htokens, hfailure⟩
  obtain ⟨acts, hcourse⟩ := exists_course (.whole strict)
    { Parser.ofStream s trace with started := true }
  rw [Config.run_whole strict rfl] at hcourse
  exact hcourse.keeps hend (Config.keeps_whole strict) hp

end BindingPower
