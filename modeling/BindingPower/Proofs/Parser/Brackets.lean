import BindingPower.Proofs.Parser.Boundary
import BindingPower.Proofs.Parser.Contract
import BindingPower.Value.Arithmetic

/-! An expression in brackets is as good as a literal of its value, wherever it stands: the tokens around
it cannot tell the two apart, as long as none of them demands one of them by name. -/
namespace BindingPower
variable {V : Type}

/-- A literal of the value that binds nothing. -/
structure Token.StandsFor (t : Token V) (v : V) : Prop where
  kind : t.kind = .literal v
  lbp : t.lbp = 0
  identity : t.identity ≠ .sentinel

/-- A bracket that binds nothing and does nothing but to wait for another, a keyword. -/
structure Token.Encloses (opening closing : Token V) : Prop where
  opens : ∃ close, opening.kind = .group close none ∧
    close.accepts (some closing.profile) = .ok true
  lbp : opening.lbp = 0
  identity : opening.identity ≠ .sentinel
  closes : closing.kind = .keyword
  closing_lbp : 0 ≤ closing.lbp

/-- The name of a delimiter other than these tokens. -/
def Matcher.Passes (us : List (Token V)) (m : Matcher) : Prop :=
  m.IsDelimiter ∧ ∀ u ∈ us, m.accepts (some u.profile) = .ok false

/-- A stock token within an expression that does not demand these tokens. -/
structure Token.Passes (us : List (Token V)) (t : Token V) : Prop where
  stock : t.Stock (Matcher.Passes us)
  isEnd : t.isEnd = false

theorem Token.Passes.inner {us : List (Token V)} {t : Token V} (h : t.Passes us) : t.Inner :=
  ⟨⟨h.stock.kind.mono fun _ hm => hm.1, h.stock.power, h.stock.proper⟩, h.isEnd⟩

/-! Matchers that handlers use -/

/-- Handlers are held to matchers of a sort, and to nothing else. -/
def Contract.matching (P : Matcher → Prop) : Contract V where
  value _ := True
  failure _ := True
  power _ := True
  matcher := P
  power_zero := trivial
  missingPrefix _ _ := trivial
  unexpected _ _ _ := trivial
  unmatched _ _ _ _ _ := trivial

section
variable {P : Matcher → Prop}

private theorem computes_matching (r : Except Fault V) : (Contract.matching P).Computes r := by
  cases r <;> trivial

theorem Kind.Stock.keeps {k : Kind V} (h : k.Stock P) (lbp : Int) :
    k.Keeps (.matching P) lbp := by
  have hcomputes := computes_matching (V := V) (P := P)
  cases k with
  | endToken | literal | keyword => trivial
  | digit => exact ⟨hcomputes _, fun v _ => ⟨fun _ _ => trivial, fun _ => hcomputes _⟩⟩
  | infixOp => exact ⟨trivial, fun _ _ _ _ => hcomputes _⟩
  | prefixOp => exact ⟨trivial, fun _ _ => hcomputes _⟩
  | bifix => exact ⟨⟨trivial, fun _ _ _ _ => hcomputes _⟩, trivial, fun _ _ => hcomputes _⟩
  | postfixOp => exact fun _ _ => hcomputes _
  | group => exact ⟨h, fun _ _ _ _ => hcomputes _⟩
  | ternary => exact ⟨h, trivial, fun _ _ _ _ _ _ => hcomputes _⟩
  | conditional => exact ⟨h, fun _ _ _ _ => ⟨hcomputes _, fun _ _ => hcomputes _⟩⟩
  | scripted | duck | traced => exact h.elim

theorem Token.Stock.keeps {t : Token V} (h : t.Stock P) : t.Keeps (.matching P) where
  nud := t.kind.keeps_nud (h.kind.keeps t.lbp)
  led := t.kind.keeps_led (h.kind.keeps t.lbp)
  missingInfix _ _ _ _ _ := trivial

private theorem Token.keeps_matching_sentinel : (sentinel : Token V).Keeps (.matching P) :=
  ⟨nofun, nofun, fun _ _ _ _ _ => trivial⟩

end

/-! Turns before the literal and before the bracket -/

section
variable {literal opening closing : Token V} {v : V}

namespace Token.StandsFor

theorem nud (h : literal.StandsFor v) : literal.nud = some (.done v) := by
  rw [Token.nud, h.kind, Kind.nud]

theorem led (h : literal.StandsFor v) : literal.led = none := by
  rw [Token.led, h.kind, Kind.led]

theorem isEnd (h : literal.StandsFor v) : literal.isEnd = false :=
  congrArg Kind.isEnd h.kind

end Token.StandsFor

namespace Token.Encloses

theorem nud (h : opening.Encloses closing) : ∃ close, close.accepts (some closing.profile) = .ok true ∧
    opening.nud = some (.expression 0 fun v => .expect close fun _ => .done v) := by
  obtain ⟨close, hkind, hclose⟩ := h.opens
  exact ⟨close, hclose, by rw [Token.nud, hkind, Kind.nud]⟩

theorem isEnd (h : opening.Encloses closing) : opening.isEnd = false ∧ closing.isEnd = false := by
  obtain ⟨close, hkind, -⟩ := h.opens
  exact ⟨congrArg Kind.isEnd hkind, congrArg Kind.isEnd h.closes⟩

end Token.Encloses

/-- Neither begins nor goes on with an expression, and it ends none: a parse that does not ask for an
expression does the same before any two such tokens, or fails. -/
theorem Config.Heedless.turn_passed {c : Config V} {t u : Token V} (hc : c.Heedless)
    (hkeeps : c.Keeps (.matching (Matcher.Passes [t, u]))) (ht : t.lbp = 0) (hu : u.lbp = 0)
    (hled : t.led = none) (pos pos' : Int) :
    (∃ r next, c.action = .expression r next) ∨ c.Fails t pos ∨
      (∃ v, c.turn (some t) pos = .halt (.ok v) ∧ c.turn (some u) pos' = .halt (.ok v)) ∨
      ∃ c', c.turn (some t) pos = .stay none c' ∧ c.turn (some u) pos' = .stay none c' := by
  obtain ⟨a, fs⟩ := c
  cases hc.action with
  | done v =>
    cases fs with
    | nil => exact .inr (.inr (.inl ⟨v, rfl, rfl⟩))
    | cons f fs =>
      by_cases hlt : f.rbp < 0
      · have hrefused : (⟨.done v, f :: fs⟩ : Config V).turn (some t) pos =
            .shift none ⟨.fail (.parse (.missingInfix pos (some t.profile))), fs⟩ := by
          simp [Config.turn, ht, hlt, hled]
        exact .inr (.inl (fails_of_shift hrefused))
      · exact .inr (.inr (.inr ⟨⟨f.next v, fs⟩, by simp [Config.turn, ht, hlt],
          by simp [Config.turn, hu, hlt]⟩))
  | fail e => exact .inr (.inl (fails_of_halt rfl))
  | @expression r next h => exact .inl ⟨r, next, rfl⟩
  | @expect name next hname h =>
    obtain ⟨⟨-, hpass⟩, -⟩ := hkeeps.action
    have hmiss := hpass t List.mem_cons_self
    exact .inr (.inl (fails_of_halt (by rw [Config.turn, Option.map_some, hmiss])))
  | @attempt name last next close hname htrue hfalse hlast h =>
    obtain ⟨⟨-, hpass⟩, -⟩ := hkeeps.action
    have hmiss := hpass t List.mem_cons_self
    have hmiss' := hpass u (List.mem_cons_of_mem t List.mem_cons_self)
    exact .inr (.inr (.inr ⟨⟨next false, fs⟩, by rw [Config.turn, Option.map_some, hmiss],
      by rw [Config.turn, Option.map_some, hmiss']⟩))
  | @look refused e a h ha =>
    have hsame := h u.profile t.profile hu ht
    cases hr : refused (some t.profile) with
    | true =>
      exact .inr (.inl (fails_of_stay (by rw [Config.turn, Option.map_some, hr, if_pos rfl])))
    | false =>
      exact .inr (.inr (.inr ⟨⟨a, fs⟩,
        by simp only [Config.turn, Option.map_some, hr, if_neg Bool.false_ne_true],
        by simp only [Config.turn, Option.map_some, hsame, hr, if_neg Bool.false_ne_true]⟩))

/-! Runs -/

/-- The second list of tokens is the first with brackets around some tokens in place of the literal, if
that is still to come. -/
inductive Replaced (literal opening closing : Token V) (ts : List (Token V)) :
    List (Token V) → List (Token V) → Prop
  | nil : Replaced literal opening closing ts [] []
  | cons {t us us'} (ht : t.Passes [literal, opening])
      (h : Replaced literal opening closing ts us us') :
      Replaced literal opening closing ts (t :: us) (t :: us')
  | literal {post} (h : Replaced literal opening closing ts post post) :
      Replaced literal opening closing ts (literal :: post) (opening :: (ts ++ closing :: post))

variable {ts us us' : List (Token V)}

theorem Replaced.self (h : ∀ t ∈ us, t.Passes [literal, opening]) :
    Replaced literal opening closing ts us us := by
  induction us with
  | nil => exact .nil
  | cons t us ih =>
    obtain ⟨ht, hus⟩ := List.forall_mem_cons.1 h
    exact .cons ht (ih hus)

theorem Replaced.of_append {pre post : List (Token V)}
    (hpre : ∀ t ∈ pre, t.Passes [literal, opening]) (hpost : ∀ t ∈ post, t.Passes [literal, opening]) :
    Replaced literal opening closing ts (pre ++ literal :: post)
      (pre ++ opening :: (ts ++ closing :: post)) := by
  induction pre with
  | nil => exact .literal (.self hpost)
  | cons t pre ih =>
    obtain ⟨ht, hpre⟩ := List.forall_mem_cons.1 hpre
    exact .cons ht (ih hpre)

/-- What is replaced: brackets around tokens whose expression has the value of the literal. -/
structure Replacement (literal opening closing : Token V) (ts : List (Token V)) (v : V) : Prop where
  literal : literal.StandsFor v
  encloses : opening.Encloses closing
  closing_lbp : closing.lbp = 0
  inner : ∀ t ∈ ts, t.Inner
  accepts : ((Stream.mk ts none).parse false true).result = .ok v

variable (hr : Replacement literal opening closing ts v)
include hr

theorem Replaced.isEnd (h : Replaced literal opening closing ts us us') :
    (∀ t ∈ us, t.isEnd = false) ∧ ∀ t ∈ us', t.isEnd = false := by
  induction h with
  | nil => exact ⟨List.forall_mem_nil _, List.forall_mem_nil _⟩
  | cons ht _ ih =>
    exact ⟨List.forall_mem_cons.2 ⟨ht.isEnd, ih.1⟩, List.forall_mem_cons.2 ⟨ht.isEnd, ih.2⟩⟩
  | literal _ ih =>
    obtain ⟨hopening, hclosing⟩ := hr.encloses.isEnd
    exact ⟨List.forall_mem_cons.2 ⟨hr.literal.isEnd, ih.1⟩,
      List.forall_mem_cons.2 ⟨hopening, List.forall_mem_append.2
        ⟨fun t ht => (hr.inner t ht).isEnd, List.forall_mem_cons.2 ⟨hclosing, ih.1⟩⟩⟩⟩

/-- The two lists end together. -/
theorem Replaced.atEnd (h : Replaced literal opening closing ts us us') (pos pos' : Int) :
    (Parser.facing none pos' us').atEnd = (Parser.facing none pos us).atEnd := by
  cases h with
  | nil | cons => rfl
  | literal =>
    have hopening : decide (opening.identity = .sentinel) = false :=
      decide_eq_false hr.encloses.identity
    have hliteral : decide (literal.identity = .sentinel) = false :=
      decide_eq_false hr.literal.identity
    exact hopening.trans hliteral.symm

/-- A bracket where an expression is asked for leads to the value of what it encloses. -/
theorem run_enclosed {r : Int} {next : V → Action V V} {fs : List (Frame V)} {post : List (Token V)}
    (hpost : ∀ t ∈ post, t.isEnd = false) (pos : Int) :
    (⟨.expression r next, fs⟩ : Config V).run
        (.facing none pos (opening :: (ts ++ closing :: post))) =
      (⟨.done v, ⟨r, next⟩ :: fs⟩ : Config V).run (.facing none (pos + 1 + ts.length + 1) post) := by
  obtain ⟨close, hclose, hnud⟩ := hr.encloses.nud
  obtain ⟨hopening, hclosing⟩ := hr.encloses.isEnd
  have hrest : ∀ t ∈ closing :: post, t.isEnd = false := List.forall_mem_cons.2 ⟨hclosing, hpost⟩
  have hinside : ∀ t ∈ ts ++ closing :: post, t.isEnd = false :=
    List.forall_mem_append.2 ⟨fun t ht => (hr.inner t ht).isEnd, hrest⟩
  have hopen : (⟨.expression r next, fs⟩ : Config V).turn
      (some ((opening :: (ts ++ closing :: post)).headD .sentinel)) pos =
      .shift (some ⟨opening, none⟩)
        ⟨.expression 0 fun v => .expect close fun _ => .done v, ⟨r, next⟩ :: fs⟩ := by
    rw [List.headD_cons, Config.turn_expression, hnud]
  have hexpression := Parser.expression_of_accepts hr.inner hr.accepts (pos + 1) hrest hr.closing_lbp
  have hexpect : (⟨.expect close fun _ => .done v, ⟨r, next⟩ :: fs⟩ : Config V).turn
      (some ((closing :: post).headD .sentinel)) (pos + 1 + ts.length) =
      .shift none ⟨.done v, ⟨r, next⟩ :: fs⟩ := by
    simp only [List.headD_cons, Config.turn, Option.map_some, hclose]
  have hinner : (⟨.expression 0 fun v => .expect close fun _ => .done v, ⟨r, next⟩ :: fs⟩ :
      Config V).run (.facing none (pos + 1) (ts ++ closing :: post)) =
        (⟨.expect close fun _ => .done v, ⟨r, next⟩ :: fs⟩ : Config V).run
          (.facing none (pos + 1 + ts.length) (closing :: post)) := by
    rw [Config.run, Action.run, hexpression]
    rfl
  have hall : ∀ t ∈ opening :: (ts ++ closing :: post), t.isEnd = false :=
    List.forall_mem_cons.2 ⟨hopening, hinside⟩
  rw [Config.run_shift hall hopen, List.tail_cons, hinner, Config.run_shift hrest hexpect,
    List.tail_cons]

/-- At each turn the two parses do the same, or the first is about to read the literal. -/
theorem Course.turn_replaced {c : Config V} {acts : List (Act V)} {o : Outcome V V} {pos : Int} {w : V}
    (h : Course c (.facing none pos us) acts o) (hsame : Replaced literal opening closing ts us us')
    (hc : c.Heedless) (hk : c.Keeps (.matching (Matcher.Passes [literal, opening])))
    (hw : o.result = .ok w) (pos' : Int) :
    (∃ r next post, c.action = .expression r next ∧ us = literal :: post ∧
        us' = opening :: (ts ++ closing :: post) ∧ Replaced literal opening closing ts post post) ∨
      c.turn (some (us'.headD .sentinel)) pos' = c.turn (some (us.headD .sentinel)) pos ∧
        ((us = [] ∧ us' = []) ∨ (∃ t rest rest', us = t :: rest ∧ us' = t :: rest' ∧
          t.Passes [literal, opening] ∧ Replaced literal opening closing ts rest rest') ∨
        ∀ d c', c.turn (some (us.headD .sentinel)) pos ≠ .shift d c') := by
  cases hsame with
  | nil => exact .inr ⟨h.turn_pos hc rfl hw pos', .inl ⟨rfl, rfl⟩⟩
  | @cons t rest rest' ht hrest =>
    exact .inr ⟨h.turn_pos hc rfl hw pos', .inr (.inl ⟨t, rest, rest', rfl, rfl, ht, hrest⟩)⟩
  | @literal post hpost =>
    rcases hc.turn_passed hk hr.literal.lbp hr.encloses.lbp hr.literal.led pos pos' with
      ⟨r, next, ha⟩ | hfails | ⟨x, hx, hx'⟩ | ⟨c', hc', hc''⟩
    · exact .inl ⟨r, next, post, ha, rfl, rfl, hpost⟩
    · obtain ⟨e, he⟩ := hfails (.facing none pos (literal :: post)) rfl rfl
      rw [h.run, hw] at he
      cases he
    · exact .inr ⟨hx'.trans hx.symm, .inr (.inr fun d c' hshift => nomatch hx.symm.trans hshift)⟩
    · exact .inr ⟨hc''.trans hc'.symm, .inr (.inr fun d c' hshift => nomatch hc'.symm.trans hshift)⟩

/-- The lookahead of the first parse brings handlers that keep to the matchers. -/
theorem Replaced.head (h : Replaced literal opening closing ts us us') :
    (us.headD .sentinel).Heedless ∧
      (us.headD .sentinel).Keeps (.matching (Matcher.Passes [literal, opening])) := by
  cases h with
  | nil => exact ⟨Token.heedless_sentinel, Token.keeps_matching_sentinel⟩
  | cons ht => exact ⟨ht.inner.heedless, ht.stock.keeps⟩
  | literal =>
    have hnud : ∀ a ∈ literal.nud, a = .done v := by
      rw [hr.literal.nud]
      rintro a ⟨⟩
      rfl
    have hled : ∀ led, led ∉ literal.led := by
      rw [hr.literal.led]
      exact fun led h => nomatch h
    refine ⟨⟨fun a ha => hnud a ha ▸ .done v, fun led h => absurd h (hled led)⟩,
      fun a ha => hnud a ha ▸ trivial, fun led h => absurd h (hled led), fun _ _ _ _ _ => trivial⟩

/-- What succeeds with the literal succeeds with the brackets, too. -/
theorem Course.replaced {c : Config V} {acts : List (Act V)} {o : Outcome V V} {pos : Int} {w : V}
    (h : Course c (.facing none pos us) acts o) (hsame : Replaced literal opening closing ts us us')
    (hc : c.Heedless) (hk : c.Keeps (.matching (Matcher.Passes [literal, opening])))
    (hw : o.result = .ok w) (pos' : Int) :
    (c.run (.facing none pos' us')).result = .ok w ∧
      (c.run (.facing none pos' us')).parser.atEnd = o.parser.atEnd := by
  generalize hp : Parser.facing none pos us = p at h
  induction h generalizing us us' pos pos' with
  | @halt c p r h =>
    subst hp
    have hturn : c.turn (some (us.headD .sentinel)) pos = .halt r := h
    rcases (Course.halt h).turn_replaced hr hsame hc hk hw pos' with
      ⟨r, next, post, ha, rfl, -⟩ | ⟨heq, -⟩
    · obtain ⟨a, fs⟩ := c
      obtain rfl : a = _ := ha
      cases (Config.turn_begin hr.literal.nud pos).symm.trans hturn
    · rw [Config.run_facing, heq, hturn]
      exact ⟨hw, hsame.atEnd hr pos pos'⟩
  | @stay c p event c' acts o h rest ih =>
    subst hp
    have hturn : c.turn (some (us.headD .sentinel)) pos = .stay event c' := h
    have hheedless : (c.turn (some (us.headD .sentinel)) pos).Heedless := hc.turn (hsame.head hr).1
    have hkeeps : (c.turn (some (us.headD .sentinel)) pos).Keeps _ :=
      hk.turn fun t ht => Option.some.inj ht ▸ (hsame.head hr).2
    rw [hturn] at hheedless hkeeps
    obtain ⟨rfl, hc'⟩ := hheedless
    rcases (Course.stay h rest).turn_replaced hr hsame hc hk hw pos' with
      ⟨r, next, post, ha, rfl, -⟩ | ⟨heq, -⟩
    · obtain ⟨a, fs⟩ := c
      obtain rfl : a = _ := ha
      cases (Config.turn_begin hr.literal.nud pos).symm.trans hturn
    · rw [Config.run_facing, heq, hturn]
      exact ih hsame hc' hkeeps hw pos' rfl
  | unread => cases hw
  | @shift c p d c' t acts o h ht rest ih =>
    subst hp
    have hturn : c.turn (some (us.headD .sentinel)) pos = .shift d c' := h
    have hc' : (c.turn (some (us.headD .sentinel)) pos).Heedless := hc.turn (hsame.head hr).1
    have hk' : (c.turn (some (us.headD .sentinel)) pos).Keeps _ :=
      hk.turn fun t ht => Option.some.inj ht ▸ (hsame.head hr).2
    rw [hturn] at hc' hk'
    rcases (Course.shift h ht rest).turn_replaced hr hsame hc hk hw pos' with
      ⟨r, next, post, ha, rfl, rfl, hpost⟩ |
        ⟨heq, ⟨rfl, rfl⟩ | ⟨u, us, us', rfl, rfl, hu, hus⟩ | hnot⟩
    · obtain ⟨a, fs⟩ := c
      obtain rfl : a = _ := ha
      cases (Config.turn_begin hr.literal.nud pos).symm.trans hturn
      obtain ⟨hends, -⟩ := hpost.isEnd hr
      have hnext : Parser.facing none (pos + 1) post =
          (Parser.facing none pos (literal :: post)).advance.parser.announce
            (some ⟨literal, none⟩) pos := by
        rw [Parser.advance_facing_cons hends (.inl rfl), Parser.announce_facing]
      rw [run_enclosed hr hends]
      exact ih hpost hc' hk' hw _ hnext
    · -- What is read at the end of the input is refused.
      obtain ⟨e, he⟩ := hc.shift_at_end hturn
      obtain ⟨a, fs⟩ := c'
      obtain rfl : a = .fail e := he
      rw [← rest.run] at hw
      cases hw
    · obtain ⟨hends, hends'⟩ := hus.isEnd hr
      have hnext : Parser.facing none (pos + 1) us =
          (Parser.facing none pos (u :: us)).advance.parser.announce d pos := by
        rw [Parser.advance_facing_cons hends (.inl rfl), Parser.announce_facing]
      have hall : ∀ t ∈ u :: us', t.isEnd = false :=
        List.forall_mem_cons.2 ⟨hu.isEnd, hends'⟩
      rw [Config.run_shift hall (heq.trans hturn), List.tail_cons]
      exact ih hus hc' hk' hw _ hnext
    · exact absurd hturn (hnot d c')

end

/-- A literal that is parsed among other tokens may be replaced by brackets around tokens that have its
value, as long as none of the others demands the literal or the bracket by name and the closing bracket
binds nothing. -/
theorem bracketed_as_literal {pre post ts : List (Token V)} {literal opening closing : Token V}
    {v w : V} (hliteral : literal.StandsFor v) (hencloses : opening.Encloses closing)
    (hclosing : closing.lbp = 0) (hothers : ∀ t ∈ pre ++ post, t.Passes [literal, opening])
    (hinner : ∀ t ∈ ts, t.Inner)
    (hts : ((Stream.ofTokens ts).parse false true).result = .ok v) (strict : Bool)
    (hw : ((Stream.ofTokens (pre ++ literal :: post)).parse false strict).result = .ok w) :
    ((Stream.ofTokens (pre ++ opening :: (ts ++ closing :: post))).parse false strict).result =
      .ok w := by
  have hr : Replacement literal opening closing ts v :=
    ⟨hliteral, hencloses, hclosing, hinner, hts⟩
  obtain ⟨hpre, hpost⟩ := List.forall_mem_append.1 hothers
  have hsame : Replaced literal opening closing ts (pre ++ literal :: post)
      (pre ++ opening :: (ts ++ closing :: post)) := .of_append hpre hpost
  obtain ⟨hends, hends'⟩ := hsame.isEnd hr
  have hc : (Config.alone 0 : Config V).Heedless := ⟨.expression fun v => .done v, nofun⟩
  have hk : (Config.alone 0 : Config V).Keeps (.matching (Matcher.Passes [literal, opening])) :=
    ⟨⟨trivial, fun _ _ => trivial⟩, nofun⟩
  obtain ⟨acts, hcourse⟩ := exists_course (.alone 0)
    (Parser.facing none 0 (pre ++ literal :: post))
  rw [Config.run_alone] at hcourse
  rw [Stream.ofTokens, Stream.parse_eq hends (.inl rfl)] at hw
  rw [Stream.ofTokens, Stream.parse_eq hends' (.inl rfl)]
  cases he : (Parser.facing none 0 (pre ++ literal :: post)).expression 0 with
  | mk result q =>
    rw [he] at hw hcourse
    cases result with
    | error e => cases hw
    | ok x =>
      obtain ⟨hx, hend⟩ := hcourse.replaced hr hsame hc hk rfl 0
      rw [Config.run_alone] at hx hend
      rw [Outcome.andThen_ok _ rfl] at hw
      rw [Outcome.andThen_ok _ hx, hend]
      dsimp only at hw ⊢
      split at hw
      · cases hw
      · rename_i hstop
        rw [if_neg hstop]
        exact hw

namespace Brackets

/-- The literal of an integer. -/
def literal (i : Int) : Token Value := ⟨.anonymous, 0, some (toString i), .literal (.int i)⟩

def opening : Token Value := ⟨.anonymous, 0, some "(", .group (.named ")") none⟩

/-- A closing bracket of any power. -/
def closing (lbp : Int) : Token Value := ⟨.anonymous, lbp, some ")", .keyword⟩

def plus : Token Value := ⟨.anonymous, 20, some "+", .infixOp .left Value.add⟩

def times : Token Value := ⟨.anonymous, 30, some "*", .infixOp .left Value.mul⟩

private theorem standsFor_literal (i : Int) : (literal i).StandsFor (.int i) := ⟨rfl, rfl, nofun⟩

private theorem encloses_closing {lbp : Int} (h : 0 ≤ lbp) : opening.Encloses (closing lbp) :=
  ⟨⟨_, rfl, rfl⟩, rfl, nofun, rfl, h⟩

private theorem passes_literal (us : List (Token Value)) (i : Int) : (literal i).Passes us :=
  ⟨⟨trivial, le_refl 0, nofun⟩, rfl⟩

private theorem passes_times (us : List (Token Value)) : times.Passes us :=
  ⟨⟨trivial, (by decide : (1 : Int) ≤ 30), nofun⟩, rfl⟩

private theorem passes_plus (us : List (Token Value)) : plus.Passes us :=
  ⟨⟨trivial, (by decide : (1 : Int) ≤ 20), nofun⟩, rfl⟩

end Brackets

open Brackets in
/-- A factor three, and the sum of one and two in brackets. -/
theorem bracketed_as_literal_factor :
    ((Stream.ofTokens [literal 2, times, opening, literal 1, plus, literal 2, closing 0]).parse false
      true).result = .ok (.int 6) := by
  have hothers : ∀ t ∈ [literal 2, times] ++ [], t.Passes [literal 3, opening] :=
    List.forall_mem_cons.2 ⟨passes_literal _ 2, List.forall_mem_cons.2
      ⟨passes_times _, List.forall_mem_nil _⟩⟩
  have hinner : ∀ t ∈ [literal 1, plus, literal 2], t.Inner :=
    List.forall_mem_cons.2 ⟨(passes_literal [] 1).inner, List.forall_mem_cons.2
      ⟨(passes_plus []).inner, List.forall_mem_cons.2 ⟨(passes_literal [] 2).inner,
        List.forall_mem_nil _⟩⟩⟩
  have hthree : ((Stream.ofTokens ([literal 2, times] ++ literal 3 :: [])).parse false true).result =
      .ok (.int 6) := rfl
  exact bracketed_as_literal (standsFor_literal 3) (encloses_closing (le_refl 0)) rfl hothers hinner
    rfl true hthree

open Brackets in
/-- A closing bracket that binds something is taken for an operator that cannot follow. -/
theorem bracketed_with_tight_closing :
    ¬ ∀ (pre post ts : List (Token Value)) (literal opening closing : Token Value) (v w : Value)
      (strict : Bool), literal.StandsFor v → opening.Encloses closing →
        (∀ t ∈ pre ++ post ++ ts, t.Passes [literal, opening]) →
        ((Stream.ofTokens ts).parse false true).result = .ok v →
        ((Stream.ofTokens (pre ++ literal :: post)).parse false strict).result = .ok w →
        ((Stream.ofTokens (pre ++ opening :: (ts ++ closing :: post))).parse false strict).result =
          .ok w := by
  intro h
  have hone : ((Stream.ofTokens [opening, literal 1, closing 1]).parse false false).result =
      .ok (.int 1) :=
    h [] [] [literal 1] (literal 1) opening (closing 1) (.int 1) (.int 1) false
      (standsFor_literal 1) (encloses_closing (by decide))
      (List.forall_mem_cons.2 ⟨passes_literal _ 1, List.forall_mem_nil _⟩) rfl rfl
  have hrefused : ((Stream.ofTokens [opening, literal 1, closing 1]).parse false false).result =
      .error (.parse (.missingInfix 2 (some (closing 1).profile))) := rfl
  cases hone.symm.trans hrefused

end BindingPower
