import BindingPower.Proofs.Grammar.Shape
import BindingPower.Proofs.Grammar.Stock
import BindingPower.Proofs.Parser.Failures

/-! Where an expression ends it does not matter what comes next, if only it binds nothing: an expression
that ends at the end of the input is the same before any token of power zero. For a delimiter that is
not there is demanded in vain at the end as well as before such a token, and an operator that binds
something is not chained to either. -/
namespace BindingPower
variable {V : Type}

/-- The name of a delimiter. The end mark has its own. -/
def Matcher.IsDelimiter (m : Matcher) : Prop := ∃ name, m = .named name ∧ name ≠ Token.endName

/-- A stock token within an expression. -/
structure Token.Inner (t : Token V) : Prop where
  stock : t.Stock Matcher.IsDelimiter
  isEnd : t.isEnd = false

theorem Token.Inner.identity {t : Token V} (h : t.Inner) : t.identity ≠ .sentinel :=
  fun hi => Bool.false_ne_true (h.isEnd.symm.trans (h.stock.proper hi))

/-! Handlers -/

namespace Action

/-- A handler that demands delimiters, the last of which is never left out, and that does not tell
lookaheads of power zero apart. -/
inductive Heedless : Action V V → Prop
  | done (v : V) : Heedless (.done v)
  | fail (e : Failure) : Heedless (.fail e)
  | expression {r : Int} {next : V → Action V V} (h : ∀ v, Heedless (next v)) :
      Heedless (.expression r next)
  | expect {name : String} {next : Option Profile → Action V V} (hname : name ≠ Token.endName)
      (h : ∀ t, Heedless (next t)) : Heedless (.expect (.named name) next)
  /-- What need not be there is followed by what has to be. -/
  | attempt {name last : String} {next : Bool → Action V V} {close : Option Profile → Action V V}
      (hname : name ≠ Token.endName) (htrue : Heedless (next true))
      (hfalse : next false = .expect (.named last) close) (hlast : last ≠ Token.endName)
      (h : ∀ t, Heedless (close t)) : Heedless (.attempt (.named name) next)
  | look (refused : Option Profile → Bool) (e : Option Profile → Int → Failure) {a : Action V V}
      (h : ∀ t t' : Profile, t.lbp = 0 → t'.lbp = 0 → refused (some t) = refused (some t'))
      (ha : Heedless a) :
      Heedless (.look fun t pos => if refused t then .fail (e t pos) else a)

theorem Heedless.finish (r : Except Fault V) : (Action.finish r : Action V V).Heedless := by
  cases r with
  | ok v => exact .done v
  | error f => exact .fail (.fault f)

end Action

namespace Kind
variable {k : Kind V}

private theorem heedless_nud (hk : k.Stock Matcher.IsDelimiter) : ∀ a ∈ k.nud, a.Heedless := by
  cases k with
  | literal value =>
    rintro a ⟨⟩
    exact .done value
  | digit value make extend joins =>
    rintro a ⟨⟩
    exact .finish (make value)
  | prefixOp rbp fn =>
    rintro a ⟨⟩
    exact .expression fun v => .finish (fn v)
  | bifix assoc infixFn rbp fn =>
    rintro a ⟨⟩
    exact .expression fun v => .finish (fn v)
  | group close wrap =>
    obtain ⟨name, rfl, hname⟩ := hk
    rintro a ⟨⟩
    refine .expression fun v => .expect hname fun _ => ?_
    cases wrap with
    | none => exact .done v
    | some wrap => exact .finish (wrap v)
  | conditional thenMark elseMark endMark fn =>
    obtain ⟨⟨a, rfl, ha⟩, ⟨b, rfl, hb⟩, c, rfl, hc⟩ := hk
    rintro a ⟨⟩
    refine .expression fun x => .expect ha fun _ => .expression fun y => ?_
    refine .attempt hb ?_ rfl hc fun _ => .finish (fn x y none)
    exact .expression fun z => .expect hc fun _ => .finish (fn x y (some z))
  | endToken | infixOp | postfixOp | keyword | ternary => exact fun a ha => nomatch ha
  | scripted | duck | traced => exact hk.elim

/-- A non-associative operator refuses no token of power zero. -/
theorem heedless_combine {lbp : Int} (hlbp : 1 ≤ lbp) (name : Option String) (assoc : Assoc)
    (fn : V → V → Except Fault V) (v w : V) : (combine lbp name assoc fn v w).Heedless := by
  unfold combine
  split
  · refine .look (chains lbp) _ (fun t t' ht ht' => ?_) (.finish (fn v w))
    simp only [chains, Option.any_some, ht, ht']
    rw [decide_eq_false (by omega : ¬ (0 : Int) = lbp)]
    rfl
  · exact .finish (fn v w)

private theorem heedless_led {identity : Identity} {lbp : Int} {name : Option String}
    (hk : k.Stock Matcher.IsDelimiter) (hlbp : k.Admits lbp) :
    ∀ led ∈ k.led identity lbp name, ∀ v, (led v).Heedless := by
  cases k with
  | digit value make extend joins =>
    rintro a ⟨⟩ v
    dsimp only
    split
    · exact .fail _
    · exact .finish (extend v value)
    · -- It looks for its position only, and refuses whatever comes.
      exact .look (fun _ => true) _ (fun _ _ _ _ => rfl) (.done v)
  | infixOp assoc fn =>
    rintro a ⟨⟩ v
    exact .expression fun w => heedless_combine hlbp name assoc fn v w
  | bifix assoc fn rbp prefixFn =>
    rintro a ⟨⟩ v
    exact .expression fun w => heedless_combine hlbp name assoc fn v w
  | postfixOp fn =>
    rintro a ⟨⟩ v
    exact .finish (fn v)
  | ternary separator fn =>
    obtain ⟨name, rfl, hname⟩ := hk
    rintro a ⟨⟩ v
    exact .expression fun x => .expect hname fun _ => .expression fun y => .finish (fn v x y)
  | endToken | literal | prefixOp | group | keyword | conditional => exact fun a ha => nomatch ha
  | scripted | duck | traced => exact hk.elim

end Kind

/-! Turns -/

/-- A handler under way, and those that wait for it. -/
structure Config.Heedless (c : Config V) : Prop where
  action : c.action.Heedless
  stack : ∀ f ∈ c.stack, ∀ v, (f.next v).Heedless

def Turn.Heedless : Turn V → Prop
  | halt _ => True
  | stay event c => event = none ∧ c.Heedless
  | shift _ c => c.Heedless

/-- A lookahead that brings nothing but such handlers. -/
def Token.Heedless (t : Token V) : Prop :=
  (∀ a ∈ t.nud, a.Heedless) ∧ ∀ led ∈ t.led, ∀ v, (led v).Heedless

theorem Token.heedless_sentinel : (sentinel : Token V).Heedless := ⟨nofun, nofun⟩

theorem Token.Inner.heedless {t : Token V} (h : t.Inner) : t.Heedless :=
  ⟨t.kind.heedless_nud h.stock.kind, t.kind.heedless_led h.stock.kind h.stock.power⟩

namespace Config
variable {c c' : Config V} {t t' : Token V} {pos pos' : Int}

/-- What a turn leaves is of the same sort. -/
theorem Heedless.turn (hc : c.Heedless) (ht : t.Heedless) : (c.turn (some t) pos).Heedless := by
  obtain ⟨a, fs⟩ := c
  obtain ⟨ha, hfs⟩ := hc
  cases ha with
  | done v =>
    cases fs with
    | nil => trivial
    | cons f fs =>
      obtain ⟨hf, hrest⟩ := List.forall_mem_cons.1 hfs
      rw [Config.turn]
      split
      · cases hled : (some t).bind fun t => t.led.map (t, ·) with
        | none => exact ⟨.fail _, hrest⟩
        | some handler =>
          obtain ⟨u, led⟩ := handler
          obtain ⟨hu, hled⟩ := Parser.of_handler hled
          cases hu
          exact ⟨ht.2 led hled v, hfs⟩
      · exact ⟨rfl, hf v, hrest⟩
  | fail e => trivial
  | @expression r next h =>
    rw [Config.turn]
    cases hnud : (some t).bind fun t => t.nud.map (t, ·) with
    | none => exact ⟨.fail _, hfs⟩
    | some handler =>
      obtain ⟨u, nud⟩ := handler
      obtain ⟨hu, hnud⟩ := Parser.of_handler hnud
      cases hu
      exact ⟨ht.1 nud hnud, List.forall_mem_cons.2 ⟨h, hfs⟩⟩
  | @expect name next hname h =>
    rw [Config.turn, Option.map_some, Parser.accepts_named]
    cases decide (t.name = some name) with
    | true => exact ⟨h _, hfs⟩
    | false => trivial
  | @attempt name last next close hname htrue hfalse hlast h =>
    rw [Config.turn, Option.map_some, Parser.accepts_named]
    cases decide (t.name = some name) with
    | true => exact ⟨htrue, hfs⟩
    | false => exact ⟨rfl, hfalse ▸ .expect hlast h, hfs⟩
  | look refused e h ha =>
    refine ⟨rfl, ?_, hfs⟩
    dsimp only
    split
    · exact .fail _
    · exact ha

/-- Before this lookahead at this position the parse fails. -/
def Fails (c : Config V) (t : Token V) (pos : Int) : Prop :=
  ∀ p : Parser V, p.token = some t → p.pos = pos → ∃ e, (c.run p).result = .error e

theorem fails_of_halt {e : Failure} (h : c.turn (some t) pos = .halt (.error e)) :
    c.Fails t pos := by
  rintro p ht rfl
  rw [run_eq_turn, ht, h]
  exact ⟨e, rfl⟩

theorem fails_of_shift {d : Option (Dispatch V)} {e : Failure} {fs : List (Frame V)}
    (h : c.turn (some t) pos = .shift d ⟨.fail e, fs⟩) : c.Fails t pos := by
  rintro p ht rfl
  rw [run_eq_turn, ht, h, Turn.outcome]
  cases hp : p.advance.result with
  | ok u =>
    rw [Outcome.andThen_ok _ hp]
    exact ⟨e, rfl⟩
  | error e' =>
    rw [Outcome.andThen_error _ hp]
    exact ⟨e', rfl⟩

theorem fails_of_stay {e : Failure} {fs : List (Frame V)} {event : Option Event}
    (h : c.turn (some t) pos = .stay event ⟨.fail e, fs⟩) : c.Fails t pos := by
  rintro p ht rfl
  rw [run_eq_turn, ht, h]
  exact ⟨e, rfl⟩

/-- Positions tell on errors only. -/
theorem Heedless.turn_pos (hc : c.Heedless) (t : Token V) (pos pos' : Int) :
    c.turn (some t) pos' = c.turn (some t) pos ∨ c.Fails t pos := by
  obtain ⟨a, fs⟩ := c
  cases hc.action with
  | done v =>
    cases fs with
    | nil => exact .inl rfl
    | cons f fs =>
      by_cases hlt : (some t).any (fun t => f.rbp < t.lbp) = true
      · cases hled : (some t).bind fun t => t.led.map (t, ·) with
        | none => exact .inr (fails_of_shift (by rw [Config.turn, if_pos hlt, hled]))
        | some handler => exact .inl (by simp only [Config.turn, if_pos hlt, hled])
      · exact .inl (by simp only [Config.turn, if_neg hlt])
  | fail e => exact .inl rfl
  | expression h =>
    cases hnud : (some t).bind fun t => t.nud.map (t, ·) with
    | none => exact .inr (fails_of_shift (by rw [Config.turn, hnud]))
    | some handler => exact .inl (by rw [Config.turn, Config.turn, hnud])
  | @expect name next hname h =>
    cases hm : (Matcher.named name).accepts ((some t).map (·.profile)) with
    | error f => exact .inl (by rw [Config.turn, Config.turn, hm])
    | ok met =>
      cases met with
      | true => exact .inl (by rw [Config.turn, Config.turn, hm])
      | false => exact .inr (fails_of_halt (by rw [Config.turn, hm]))
  | attempt hname htrue hfalse hlast h => exact .inl rfl
  | look refused e h ha =>
    cases hr : refused ((some t).map (·.profile)) with
    | true => exact .inr (fails_of_stay (by rw [Config.turn, hr, if_pos rfl]))
    | false => exact .inl (by simp only [Config.turn, hr, if_neg Bool.false_ne_true])

/-- Before this lookahead at this position the parse fails, or consumes it. -/
def Needs (c : Config V) (t : Token V) (pos : Int) : Prop :=
  ∀ (p : Parser V) acts o, p.token = some t → p.pos = pos → Course c p acts o →
    (∃ e, o.result = .error e) ∨ answers acts ≠ []

theorem Fails.needs (h : c.Fails t pos) : c.Needs t pos := by
  intro p acts o ht hpos hcourse
  obtain ⟨e, he⟩ := h p ht hpos
  rw [hcourse.run] at he
  exact .inl ⟨e, he⟩

private theorem needs_of_shift {d : Option (Dispatch V)} (h : c.turn (some t) pos = .shift d c') :
    c.Needs t pos := by
  rintro p acts o ht rfl hcourse
  rw [← ht] at h
  cases hcourse with
  | unread h' he => exact .inl ⟨_, rfl⟩
  | shift h' ht' rest =>
    rw [answers_shift]
    exact .inr (List.cons_ne_nil _ _)
  | halt h' | stay h' => cases h.symm.trans h'

private theorem needs_of_stay (h : c.turn (some t) pos = .stay none c') (hc : c'.Needs t pos) :
    c.Needs t pos := by
  rintro p acts o ht rfl hcourse
  rw [← ht] at h
  cases hcourse with
  | stay h' rest =>
    cases h.symm.trans h'
    exact hc p _ _ ht rfl rest
  | halt h' | unread h' | shift h' => cases h.symm.trans h'

private theorem needs_expect (name : String) (next : Option Profile → Action V V) (fs : List (Frame V))
    (t : Token V) (pos : Int) : (⟨.expect (.named name) next, fs⟩ : Config V).Needs t pos := by
  cases hm : (Matcher.named name).accepts ((some t).map (·.profile)) with
  | error f => exact (fails_of_halt (by rw [Config.turn, hm])).needs
  | ok met =>
    cases met with
    | true => exact needs_of_shift (by rw [Config.turn, hm])
    | false => exact (fails_of_halt (by rw [Config.turn, hm])).needs

/-- A lookahead of power zero is no other than another of power zero, unless it is needed. -/
theorem Heedless.turn_zero (hc : c.Heedless) (ht : t.lbp = 0) (ht' : t'.lbp = 0) (pos pos' : Int) :
    c.turn (some t') pos' = c.turn (some t) pos ∨ c.Needs t pos := by
  obtain ⟨a, fs⟩ := c
  cases hc.action with
  | done v =>
    cases fs with
    | nil => exact .inl rfl
    | cons f fs =>
      have hany (u : Token V) (hu : u.lbp = 0) :
          (some u).any (fun u => f.rbp < u.lbp) = decide (f.rbp < 0) := by
        rw [Option.any_some, hu]
      by_cases hlt : f.rbp < 0
      · have hpos := (hany t ht).trans (decide_eq_true hlt)
        cases hled : (some t).bind fun t => t.led.map (t, ·) with
        | none => exact .inr (needs_of_shift (by rw [Config.turn, if_pos hpos, hled]))
        | some handler => exact .inr (needs_of_shift (by rw [Config.turn, if_pos hpos, hled]))
      · rw [Config.turn, Config.turn, hany t ht, hany t' ht', decide_eq_false hlt]
        exact .inl rfl
  | fail e => exact .inl rfl
  | expression h =>
    cases hnud : (some t).bind fun t => t.nud.map (t, ·) with
    | none => exact .inr (needs_of_shift (by rw [Config.turn, hnud]))
    | some handler => exact .inr (needs_of_shift (by rw [Config.turn, hnud]))
  | @expect name next hname h => exact .inr (needs_expect name next fs t pos)
  | @attempt name last next close hname htrue hfalse hlast h =>
    cases hm : (Matcher.named name).accepts ((some t).map (·.profile)) with
    | error f => exact .inr (fails_of_halt (by rw [Config.turn, hm])).needs
    | ok met =>
      cases met with
      | true => exact .inr (needs_of_shift (by rw [Config.turn, hm]))
      | false =>
        have hneeds := needs_expect last close fs t pos
        rw [← hfalse] at hneeds
        exact .inr (needs_of_stay (by rw [Config.turn, hm]) hneeds)
  | look refused e h ha =>
    have hsame := h t'.profile t.profile ht' ht
    cases hr : refused (some t.profile) with
    | true =>
      exact .inr (fails_of_stay (by rw [Config.turn, Option.map_some, hr, if_pos rfl])).needs
    | false =>
      exact .inl (by simp only [Config.turn, Option.map_some, hsame, hr, if_neg Bool.false_ne_true])

end Config

/-! Courses -/

namespace Parser
variable {pos : Int} {us : List (Token V)}

theorem announce_facing (d : Option (Dispatch V)) (k : Int) :
    (facing none pos us).announce d k = facing none pos us := by
  cases d <;> rfl

theorem advance_facing (h : ∀ u ∈ us, u.isEnd = false) (pos : Int) :
    (facing none pos us).advance =
      ⟨.ok (some (us.headD .sentinel)), facing none (pos + 1) us.tail⟩ := by
  cases us with
  | nil => exact advance_facing_nil
  | cons u us => exact advance_facing_cons (List.forall_mem_cons.1 h).2 (.inl rfl)

end Parser

theorem Config.run_facing (c : Config V) (pos : Int) (us : List (Token V)) :
    c.run (.facing none pos us) =
      (c.turn (some (us.headD .sentinel)) pos).outcome (.facing none pos us) :=
  c.run_eq_turn _

theorem Config.run_shift {c c' : Config V} {us : List (Token V)} {pos : Int}
    {d : Option (Dispatch V)} (hus : ∀ u ∈ us, u.isEnd = false)
    (h : c.turn (some (us.headD .sentinel)) pos = .shift d c') :
    c.run (.facing none pos us) = c'.run (.facing none (pos + 1) us.tail) := by
  rw [run_facing, h, Turn.outcome, Parser.advance_facing hus, Outcome.andThen_ok _ rfl,
    Parser.announce_facing]

namespace Config
variable {t : Token V} {v : V} {r pos : Int} {next : V → Action V V} {f : Frame V}
  {fs : List (Frame V)}

theorem turn_done : (⟨.done v, f :: fs⟩ : Config V).turn (some t) pos =
    if f.rbp < t.lbp then
      match t.led with
      | none => .shift none ⟨.fail (.parse (.missingInfix pos (some t.profile))), fs⟩
      | some led => .shift (some ⟨t, some v⟩) ⟨led v, f :: fs⟩
    else .stay none ⟨f.next v, fs⟩ := by
  by_cases hlt : f.rbp < t.lbp
  · cases hled : t.led with
    | none => simp [turn, hlt, hled]
    | some led => simp [turn, hlt, hled]
  · simp [turn, hlt]

theorem turn_expression : (⟨.expression r next, fs⟩ : Config V).turn (some t) pos =
    match t.nud with
    | none => .shift none ⟨.fail (.parse (.missingPrefix pos (some t.profile))), fs⟩
    | some nud => .shift (some ⟨t, none⟩) ⟨nud, ⟨r, next⟩ :: fs⟩ := by
  cases hnud : t.nud with
  | none => simp [turn, hnud]
  | some nud => simp [turn, hnud]

/-- A token that makes a value by itself begins an expression. -/
theorem turn_begin (h : t.nud = some (.done v)) (pos : Int) :
    (⟨.expression r next, fs⟩ : Config V).turn (some t) pos =
      .shift (some ⟨t, none⟩) ⟨.done v, ⟨r, next⟩ :: fs⟩ := by
  rw [turn_expression, h]

end Config

namespace Course
variable {c : Config V} {p : Parser V} {acts : List (Act V)} {o : Outcome V V} {pos : Int}
  {v : V} {us tail tail' : List (Token V)}

/-- A parse that succeeds takes the same turn elsewhere in the input. -/
theorem turn_pos {t : Token V} (h : Course c p acts o) (hc : c.Heedless) (htoken : p.token = some t)
    (hv : o.result = .ok v) (pos' : Int) : c.turn (some t) pos' = c.turn p.token p.pos := by
  rw [htoken]
  rcases hc.turn_pos t p.pos pos' with hsame | hfails
  · exact hsame
  · obtain ⟨e, he⟩ := hfails p htoken rfl
    rw [h.run, hv] at he
    cases he

/-- Where nothing more is consumed, one lookahead of power zero is as good as another. -/
theorem turn_zero {t t' : Token V} (h : Course c p acts o) (hc : c.Heedless) (htoken : p.token = some t)
    (ht : t.lbp = 0) (ht' : t'.lbp = 0) (hv : o.result = .ok v) (hnone : answers acts = [])
    (pos' : Int) : c.turn (some t') pos' = c.turn p.token p.pos := by
  rw [htoken]
  rcases hc.turn_zero ht ht' p.pos pos' with hsame | hneeds
  · exact hsame
  · rcases hneeds p acts o htoken rfl h with ⟨e, he⟩ | hsome
    · rw [hv] at he
      cases he
    · exact absurd hnone hsome

/-- An expression that consumes nothing more ends before every lookahead of power zero. -/
theorem exchange_end {t : Token V} (h : Course c p acts o) (hc : c.Heedless) (htoken : p.token = some t)
    (ht : t.lbp = 0) (hzero : (tail.headD .sentinel).lbp = 0) (hv : o.result = .ok v)
    (hnone : answers acts = []) :
    c.run (.facing none pos tail) = ⟨.ok v, .facing none pos tail⟩ := by
  induction h with
  | @halt c p r h =>
    have hsame := (Course.halt h).turn_zero hc htoken ht hzero hv hnone pos
    cases hv
    rw [Config.run_facing, hsame, h]
    rfl
  | @stay c p event c' acts o h rest ih =>
    have hsame := (Course.stay h rest).turn_zero hc htoken ht hzero hv hnone pos
    have hheedless : (c.turn (some .sentinel) pos).Heedless := hc.turn Token.heedless_sentinel
    rw [(Course.stay h rest).turn_zero hc htoken ht rfl hv hnone pos, h] at hheedless
    obtain ⟨rfl, hc'⟩ := hheedless
    rw [Config.run_facing, hsame, h]
    exact ih hc' htoken hv hnone
  | unread => cases hnone
  | shift =>
    rw [answers_shift] at hnone
    cases hnone

/-- An expression that consumes certain tokens is the same before whatever binds nothing, at the end of
the input too, and wherever it stands. -/
theorem exchange (h : Course c (.facing none pos (us ++ tail)) acts o) (hc : c.Heedless)
    (hus : ∀ u ∈ us, u.Inner) (htail : ∀ u ∈ tail, u.isEnd = false)
    (htail' : ∀ u ∈ tail', u.isEnd = false) (hzero : (tail.headD .sentinel).lbp = 0)
    (hzero' : (tail'.headD .sentinel).lbp = 0) (hv : o.result = .ok v)
    (hlength : (answers acts).length = us.length) (k : Int) :
    c.run (.facing none k (us ++ tail')) = ⟨.ok v, .facing none (k + us.length) tail'⟩ := by
  induction us generalizing c pos k acts with
  | nil =>
    have hrun : c.run (.facing none k tail') = ⟨.ok v, .facing none k tail'⟩ :=
      h.exchange_end hc rfl hzero hzero' hv (List.length_eq_zero_iff.1 hlength)
    simpa using hrun
  | cons u us ih =>
    obtain ⟨hu, hrest⟩ := List.forall_mem_cons.1 hus
    have hends {tail : List (Token V)} (h : ∀ w ∈ tail, w.isEnd = false) :
        ∀ w ∈ us ++ tail, w.isEnd = false :=
      List.forall_mem_append.2 ⟨fun w hw => (hrest w hw).isEnd, h⟩
    rw [List.cons_append] at h ⊢
    generalize hp : Parser.facing none pos (u :: (us ++ tail)) = p at h
    induction h with
    | halt => cases hlength
    | @stay c p event c' acts o h rest ih' =>
      subst hp
      have hturn : c.turn (some u) k = .stay event c' :=
        ((Course.stay h rest).turn_pos hc rfl hv k).trans h
      have hheedless : (c.turn (some u) k).Heedless := hc.turn hu.heedless
      rw [hturn] at hheedless
      obtain ⟨rfl, hc'⟩ := hheedless
      rw [Config.run_facing, List.headD_cons, hturn]
      exact ih' hv ih hc' hlength rfl
    | unread => cases hv
    | @shift c p d c' t acts o h ht rest _ =>
      subst hp
      have hturn : c.turn (some u) k = .shift d c' :=
        ((Course.shift h ht rest).turn_pos hc rfl hv k).trans h
      have hc' : (c.turn (some u) k).Heedless := hc.turn hu.heedless
      rw [hturn] at hc'
      rw [Parser.advance_facing_cons (hends htail) (.inl rfl), Parser.announce_facing] at rest
      rw [answers_shift, List.length_cons, List.length_cons, Nat.add_right_cancel_iff] at hlength
      have hpos : k + 1 + (us.length : Int) = k + ((u :: us).length : Int) := by
        rw [List.length_cons]
        omega
      rw [Config.run_facing, List.headD_cons, hturn, Turn.outcome,
        Parser.advance_facing_cons (hends htail') (.inl rfl), Outcome.andThen_ok _ rfl,
        Parser.announce_facing, ih rest hc' hrest hlength, hpos]

end Course

/-- The end mark is consumed by a parse that fails only. -/
theorem Config.Heedless.shift_at_end {c c' : Config V} {d : Option (Dispatch V)} {pos : Int}
    (hc : c.Heedless) (h : c.turn (some .sentinel) pos = .shift d c') : ∃ e, c'.action = .fail e := by
  obtain ⟨a, fs⟩ := c
  cases hc.action with
  | done v =>
    cases fs with
    | nil => cases h
    | cons f fs =>
      rw [Config.turn] at h
      split at h <;> cases h
      exact ⟨_, rfl⟩
  | expression hnext =>
    cases h
    exact ⟨_, rfl⟩
  | @expect name next hname hnext | @attempt name last next close hname htrue hfalse hlast hnext =>
    have hmiss : (Matcher.named name).accepts ((some (Token.sentinel : Token V)).map (·.profile)) =
        .ok false :=
      congrArg Except.ok (decide_eq_false fun heq => hname (Option.some.inj heq).symm)
    rw [Config.turn, hmiss] at h
    cases h
  | fail | look => cases h

/-- A parse that succeeds has consumed the first of the tokens, and faces the others. -/
theorem Course.facing {c : Config V} {acts : List (Act V)} {o : Outcome V V} {pos : Int} {v : V}
    {us : List (Token V)} (h : Course c (.facing none pos us) acts o) (hc : c.Heedless)
    (hus : ∀ u ∈ us, u.Inner) (hv : o.result = .ok v) :
    (answers acts).length ≤ us.length ∧
      o.parser = .facing none (pos + (answers acts).length) (us.drop (answers acts).length) := by
  have hhead {us : List (Token V)} (hus : ∀ u ∈ us, u.Inner) : (us.headD .sentinel).Heedless := by
    cases us with
    | nil => exact Token.heedless_sentinel
    | cons u us => exact (hus u List.mem_cons_self).heedless
  generalize hp : Parser.facing none pos us = p at h
  induction h generalizing us pos with
  | halt =>
    subst hp
    simp
  | @stay c p event c' acts o h rest ih =>
    subst hp
    have hturn : c.turn (some (us.headD .sentinel)) pos = .stay event c' := h
    have hheedless : (c.turn (some (us.headD .sentinel)) pos).Heedless := hc.turn (hhead hus)
    rw [hturn] at hheedless
    obtain ⟨rfl, hc'⟩ := hheedless
    exact ih hc' hus hv rfl
  | unread => cases hv
  | @shift c p d c' t acts o h ht rest ih =>
    subst hp
    have hturn : c.turn (some (us.headD .sentinel)) pos = .shift d c' := h
    have hc' : (c.turn (some (us.headD .sentinel)) pos).Heedless := hc.turn (hhead hus)
    rw [hturn] at hc'
    cases us with
    | nil =>
      obtain ⟨e, he⟩ := hc.shift_at_end hturn
      obtain ⟨a, fs⟩ := c'
      obtain rfl : a = .fail e := he
      rw [← rest.run] at hv
      cases hv
    | cons u us =>
      obtain ⟨hu, hrest⟩ := List.forall_mem_cons.1 hus
      have hends : ∀ w ∈ us, w.isEnd = false := fun w hw => (hrest w hw).isEnd
      have hnext : Parser.facing none (pos + 1) us =
          (Parser.facing none pos (u :: us)).advance.parser.announce d pos := by
        rw [Parser.advance_facing_cons hends (.inl rfl), Parser.announce_facing]
      obtain ⟨hle, hparser⟩ := ih hc' hrest hv hnext
      rw [answers_shift, List.length_cons, List.length_cons, List.drop_succ_cons, hparser]
      refine ⟨Nat.succ_le_succ hle, ?_⟩
      have hpos : pos + 1 + ((answers acts).length : Int) =
          pos + ((answers acts).length + 1 : ℕ) := by omega
      rw [hpos]

namespace Parser

/-- After an expression the lookahead binds no tighter than the expression goes on to. -/
theorem operate_ends {n : ℕ} {r : Int} {left v : V} {p q : Parser V}
    (h : operate n r left p = ⟨.ok v, q⟩) : ¬ q.token.any (fun t => r < t.lbp) = true := by
  induction n generalizing left p with
  | zero =>
    unfold operate at h
    split at h
    · cases h
    · cases h
      assumption
  | succ n ih =>
    unfold operate at h
    split at h
    · obtain ⟨t, p', -, h⟩ := Outcome.andThen_eq_ok.1 h
      split at h
      · cases h
      · obtain ⟨w, p'', -, h⟩ := Outcome.andThen_eq_ok.1 h
        exact ih h
    · cases h
      assumption

theorem expression_ends {r : Int} {v : V} {p q : Parser V} (h : p.expression r = ⟨.ok v, q⟩) :
    ¬ q.token.any (fun t => r < t.lbp) = true := by
  rw [expression_eq] at h
  obtain ⟨t, p', -, h⟩ := Outcome.andThen_eq_ok.1 h
  split at h
  · cases h
  · obtain ⟨w, p'', -, h⟩ := Outcome.andThen_eq_ok.1 h
    exact operate_ends h

/-- An expression of the input consumes the first of its tokens. Alone, or before any other token of
power zero, and wherever they stand, they make the same value. -/
theorem expression_exchange {us : List (Token V)} (hus : ∀ u ∈ us, u.Inner) {pos : Int} {v : V}
    {q : Parser V} (h : (facing none pos us).expression 0 = ⟨.ok v, q⟩) :
    ∃ n ≤ us.length, q = .facing none (pos + n) (us.drop n) ∧
      ∀ (tail : List (Token V)) (pos' : Int), (∀ u ∈ tail, u.isEnd = false) →
        (tail.headD .sentinel).lbp = 0 →
          (facing none pos' (us.take n ++ tail)).expression 0 =
            ⟨.ok v, .facing none (pos' + n) tail⟩ := by
  obtain ⟨acts, hcourse⟩ := (facing none pos us).exists_course_expression 0
  rw [h] at hcourse
  have hc : (Config.alone 0 : Config V).Heedless := ⟨.expression fun v => .done v, nofun⟩
  obtain ⟨hle, hq⟩ := hcourse.facing hc hus rfl
  have hq : q = facing none (pos + (answers acts).length) (us.drop (answers acts).length) := hq
  refine ⟨_, hle, hq, fun tail pos' htail hzero => ?_⟩
  have hdrop : ∀ u ∈ us.drop (answers acts).length, u.isEnd = false :=
    fun u hu => (hus u (List.mem_of_mem_drop hu)).isEnd
  have hends : ((us.drop (answers acts).length).headD .sentinel).lbp = 0 := by
    have hzero := expression_ends h
    rw [hq, token_facing, Option.any_some, decide_eq_true_eq, Int.not_lt] at hzero
    refine le_antisymm hzero ?_
    cases hleft : us.drop (answers acts).length with
    | nil => exact le_refl _
    | cons u rest =>
      have hu : u ∈ us := List.mem_of_mem_drop (hleft ▸ List.mem_cons_self)
      exact (hus u hu).stock.power.nonneg
  have hlength : (answers acts).length = (us.take (answers acts).length).length := by
    rw [List.length_take, Nat.min_eq_left hle]
  rw [← List.take_append_drop (answers acts).length us] at hcourse
  have hrun := hcourse.exchange hc (fun u hu => hus u (List.mem_of_mem_take hu)) hdrop htail hends
    hzero rfl hlength pos'
  rw [Config.run_alone, ← hlength] at hrun
  exact hrun

end Parser

/-- A list of tokens is accepted where its expression consumes them all. -/
theorem Stream.accepts_iff {us : List (Token V)} (hus : ∀ u ∈ us, u.Inner) {v : V} :
    ((Stream.mk us none).parse false true).result = .ok v ↔
      (Parser.facing none 0 us).expression 0 = ⟨.ok v, .facing none us.length []⟩ := by
  have hends : ∀ u ∈ us, u.isEnd = false := fun u hu => (hus u hu).isEnd
  rw [Stream.parse_eq hends (.inl rfl)]
  constructor
  · intro h
    cases he : (Parser.facing none 0 us).expression 0 with
    | mk result q =>
      rw [he] at h
      cases result with
      | error e => cases h
      | ok w =>
        obtain ⟨n, hn, rfl, -⟩ := Parser.expression_exchange hus he
        have hend : (Parser.facing none (0 + (n : Int)) (us.drop n)).atEnd = (us.drop n).isEmpty :=
          Parser.atEnd_facing fun u hu => (hus u (List.mem_of_mem_drop hu)).identity
        rw [Outcome.andThen_ok _ rfl] at h
        dsimp only at h
        rw [hend] at h
        cases hleft : us.drop n with
        | nil =>
          obtain rfl : n = us.length := le_antisymm hn (List.drop_eq_nil_iff.1 hleft)
          rw [hleft] at h
          cases h
          rw [Int.zero_add]
        | cons u rest =>
          rw [hleft] at h
          cases h
  · intro h
    rw [h, Outcome.andThen_ok _ rfl]
    rfl

/-- What is accepted is parsed as well before any token of power zero, and wherever it stands. -/
theorem Parser.expression_of_accepts {us tail : List (Token V)} (hus : ∀ u ∈ us, u.Inner) {v : V}
    (h : ((Stream.mk us none).parse false true).result = .ok v) (pos : Int)
    (htail : ∀ u ∈ tail, u.isEnd = false) (hzero : (tail.headD .sentinel).lbp = 0) :
    (facing none pos (us ++ tail)).expression 0 = ⟨.ok v, facing none (pos + us.length) tail⟩ := by
  obtain ⟨n, -, hq, hexchange⟩ := expression_exchange hus ((Stream.accepts_iff hus).1 h)
  have hn : n = us.length := by
    have hpos : (us.length : Int) = 0 + n := congrArg Parser.pos hq
    omega
  subst hn
  have hparse := hexchange tail pos htail hzero
  rwa [List.take_length] at hparse

end BindingPower
