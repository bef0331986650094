import BindingPower.Proofs.Parser.Boundary

/-! An operand may be one token, or it may be spelled by several, the first of which makes a value that
the others extend. A list of tokens and the same list with its operands spelled are parsed alike: to the
same value, or to the same error wherever it is met. -/
namespace BindingPower
variable {V : Type}

/-- The same error at another position. -/
def ParseError.moved (pos : Int) : ParseError → ParseError
  | missingPrefix _ t => missingPrefix pos t
  | missingInfix _ t => missingInfix pos t
  | unexpected _ t expected => unexpected pos t expected
  | lexical _ text => lexical pos text

/-- What an error says does not depend on where it is met, but for the position itself. -/
theorem ParseError.message_moved (e : ParseError) :
    ∃ before after, ∀ pos, (e.moved pos).message = before ++ (toString pos ++ after) := by
  cases e with
  | missingPrefix _ t =>
    refine ⟨"Parse error at token ", ": unexpected " ++ (Profile.mention t ++
      ", expecting an expression"), fun pos => ?_⟩
    unfold moved message
    simp only [String.append_assoc]
  | missingInfix _ t =>
    refine ⟨"Parse error at token ", ": " ++ (Profile.mention t ++ " cannot follow an expression"),
      fun pos => ?_⟩
    unfold moved message
    simp only [String.append_assoc]
  | unexpected _ t expected =>
    refine ⟨"Parse error at token ", ": unexpected " ++ (Profile.mention t ++ (", expecting " ++
      expected)), fun pos => ?_⟩
    unfold moved message
    simp only [String.append_assoc]
  | lexical _ text =>
    refine ⟨"Lex error at character ", ": unexpected character " ++ Text.quoted text, fun pos => ?_⟩
    unfold moved message
    simp only [String.append_assoc]

def Failure.moved (pos : Int) : Failure → Failure
  | parse e => parse (e.moved pos)
  | fault cause => fault cause
  | spent => spent

private theorem Failure.exists_moved (e : Failure) : ∃ pos, e = e.moved pos := by
  cases e with
  | parse e => exact ⟨e.pos, by cases e <;> rfl⟩
  | fault | spent => exact ⟨0, rfl⟩

/-- The same value, or the same failure at two places. -/
inductive SameAnswer : Except Failure V → Except Failure V → Prop
  | ok (v : V) : SameAnswer (.ok v) (.ok v)
  | error (e : Failure) (pos : Int) : SameAnswer (.error e) (.error (e.moved pos))

theorem SameAnswer.refl (r : Except Failure V) : SameAnswer r r := by
  cases r with
  | ok v => exact .ok v
  | error e =>
    obtain ⟨pos, he⟩ := e.exists_moved
    have hanswer : SameAnswer (V := V) (.error e) (.error (e.moved pos)) := .error e pos
    rwa [← he] at hanswer

/-! Handlers -/

namespace Action

/-- A handler that asks for expressions down to less than the bound and demands tokens in certain ways,
and that never asks where it is. -/
inductive Steady (bound : Int) (M : Matcher → Prop) : Action V V → Prop
  | done (v : V) : Steady bound M (.done v)
  | fail (e : Failure) : Steady bound M (.fail e)
  | expression {r : Int} {next : V → Action V V} (hr : r < bound)
      (h : ∀ v, Steady bound M (next v)) : Steady bound M (.expression r next)
  | expect {m : Matcher} {next : Option Profile → Action V V} (hm : M m)
      (h : ∀ t, Steady bound M (next t)) : Steady bound M (.expect m next)
  | attempt {m : Matcher} {next : Bool → Action V V} (hm : M m)
      (h : ∀ b, Steady bound M (next b)) : Steady bound M (.attempt m next)

/-- Asks for an expression at once, or fails. -/
inductive Awaits : Action V V → Prop
  | expression (r : Int) (next : V → Action V V) : Awaits (.expression r next)
  | fail (e : Failure) : Awaits (.fail e)

theorem Steady.finish {bound : Int} {M : Matcher → Prop} (r : Except Fault V) :
    (Action.finish r : Action V V).Steady bound M := by
  cases r with
  | ok v => exact .done v
  | error f => exact .fail (.fault f)

end Action

/-- A token that brings steady handlers only. -/
structure Token.Steady (bound : Int) (M : Matcher → Prop) (t : Token V) : Prop where
  nud : ∀ a ∈ t.nud, a.Steady bound M
  led : ∀ led ∈ t.led, ∀ v, (led v).Steady bound M

/-- A token after which an expression has to begin: its handlers ask for one, and nothing else ever
consumes it. -/
structure Token.Opens (M : Matcher → Prop) (t : Token V) : Prop where
  nud : ∀ a ∈ t.nud, a.Awaits
  led : ∀ led ∈ t.led, ∀ v, (led v).Awaits
  unmatched : ∀ m, M m → m.accepts (some t.profile) ≠ .ok true

namespace Kind

/-- A ready-made kind, no digit, that asks with such powers and matchers and looks at no operator that
follows. -/
def Steady (bound : Int) (M : Matcher → Prop) (lbp : Int) : Kind V → Prop
  | infixOp assoc _ => assoc ≠ .none ∧ rightPower lbp assoc < bound
  | prefixOp rbp _ => rbp < bound
  | bifix assoc _ rbp _ => (assoc ≠ .none ∧ rightPower lbp assoc < bound) ∧ rbp < bound
  | group close _ => 0 < bound ∧ M close
  | ternary separator _ => (0 < bound ∧ lbp - 1 < bound) ∧ M separator
  | conditional thenMark elseMark endMark _ => 0 < bound ∧ M thenMark ∧ M elseMark ∧ M endMark
  | endToken | literal _ | postfixOp _ | keyword => True
  | digit .. | scripted .. | duck .. | traced .. => False

/-- The kinds that ask for an expression first, wherever they are handed over to. -/
def Opens : Kind V → Prop
  | infixOp .. | prefixOp .. | bifix .. | group .. | ternary .. | conditional .. => True
  | _ => False

variable {k : Kind V} {bound lbp : Int} {M : Matcher → Prop}

private theorem steady_nud (hk : k.Steady bound M lbp) : ∀ a ∈ k.nud, a.Steady bound M := by
  cases k with
  | literal value =>
    rintro a ⟨⟩
    exact .done value
  | prefixOp rbp fn =>
    rintro a ⟨⟩
    exact .expression hk fun v => .finish (fn v)
  | bifix assoc infixFn rbp fn =>
    rintro a ⟨⟩
    exact .expression hk.2 fun v => .finish (fn v)
  | group close wrap =>
    rintro a ⟨⟩
    refine .expression hk.1 fun v => .expect hk.2 fun _ => ?_
    cases wrap with
    | none => exact .done v
    | some wrap => exact .finish (wrap v)
  | conditional thenMark elseMark endMark fn =>
    obtain ⟨hbound, hthen, helse, hend⟩ := hk
    rintro a ⟨⟩
    refine .expression hbound fun x => .expect hthen fun _ => .expression hbound fun y =>
      .attempt helse fun b => ?_
    cases b with
    | false => exact .expect hend fun _ => .finish (fn x y none)
    | true => exact .expression hbound fun z => .expect hend fun _ => .finish (fn x y (some z))
  | endToken | infixOp | postfixOp | keyword | ternary => exact fun a ha => nomatch ha
  | digit | scripted | duck | traced => exact hk.elim

private theorem steady_combine {assoc : Assoc} (ha : assoc ≠ .none) (name : Option String)
    (fn : V → V → Except Fault V) (v w : V) : (combine lbp name assoc fn v w).Steady bound M := by
  rw [combine, if_neg ha]
  exact .finish (fn v w)

private theorem steady_led {identity : Identity} {name : Option String} (hk : k.Steady bound M lbp) :
    ∀ led ∈ k.led identity lbp name, ∀ v, (led v).Steady bound M := by
  cases k with
  | infixOp assoc fn =>
    rintro led ⟨⟩ v
    exact .expression hk.2 fun w => steady_combine hk.1 name fn v w
  | bifix assoc fn rbp prefixFn =>
    rintro led ⟨⟩ v
    exact .expression hk.1.2 fun w => steady_combine hk.1.1 name fn v w
  | postfixOp fn =>
    rintro led ⟨⟩ v
    exact .finish (fn v)
  | ternary separator fn =>
    obtain ⟨⟨hbound, hlbp⟩, hseparator⟩ := hk
    rintro led ⟨⟩ v
    exact .expression hbound fun x => .expect hseparator fun _ => .expression hlbp fun y =>
      .finish (fn v x y)
  | endToken | literal | prefixOp | group | keyword | conditional => exact fun a ha => nomatch ha
  | digit | scripted | duck | traced => exact hk.elim

private theorem awaits_nud (hk : k.Opens) : ∀ a ∈ k.nud, a.Awaits := by
  cases k with
  | prefixOp | bifix | group | conditional =>
    rintro a ⟨⟩
    exact .expression _ _
  | infixOp | ternary => exact fun a ha => nomatch ha
  | endToken | literal | digit | postfixOp | keyword | scripted | duck | traced => exact hk.elim

private theorem awaits_led {identity : Identity} {name : Option String} (hk : k.Opens) :
    ∀ led ∈ k.led identity lbp name, ∀ v, (led v).Awaits := by
  cases k with
  | infixOp | bifix | ternary =>
    rintro led ⟨⟩ v
    exact .expression _ _
  | prefixOp | group | conditional => exact fun led hled => nomatch hled
  | endToken | literal | digit | postfixOp | keyword | scripted | duck | traced => exact hk.elim

end Kind

theorem Token.steady_of_kind {bound : Int} {M : Matcher → Prop} {t : Token V}
    (ht : t.kind.Steady bound M t.lbp) : t.Steady bound M :=
  ⟨t.kind.steady_nud ht, t.kind.steady_led ht⟩

theorem Token.opens_of_kind {M : Matcher → Prop} {t : Token V} (ht : t.kind.Opens)
    (hm : ∀ m, M m → m.accepts (some t.profile) ≠ .ok true) : t.Opens M :=
  ⟨t.kind.awaits_nud ht, t.kind.awaits_led ht, hm⟩

private theorem Token.steady_sentinel {bound : Int} {M : Matcher → Prop} :
    (sentinel : Token V).Steady bound M := ⟨nofun, nofun⟩

/-! Turns -/

section
variable {bound : Int} {M : Matcher → Prop} {c c' : Config V} {t : Token V}

/-- Handlers that ask for an expression do not go on without it. -/
theorem Action.Awaits.not_stay {token : Option (Token V)} {pos : Int} {event : Option Event}
    (h : c.action.Awaits) : c.turn token pos ≠ .stay event c' := by
  intro hstay
  obtain ⟨a, fs⟩ := c
  cases h with
  | expression r next =>
    rw [Config.turn] at hstay
    split at hstay <;> cases hstay
  | fail e => cases hstay

/-- They halt only if they fail. -/
theorem Action.Awaits.halt {token : Option (Token V)} {pos : Int} {r : Except Failure V}
    (h : c.action.Awaits) (hr : c.turn token pos = .halt r) :
    ∃ e, r = .error e ∧ ∀ p, (c.run p).result = .error e := by
  obtain ⟨a, fs⟩ := c
  cases h with
  | expression r next =>
    rw [Config.turn] at hr
    split at hr <;> cases hr
  | fail e =>
    cases hr
    exact ⟨e, rfl, fun _ => rfl⟩

/-- A handler under way, and those that wait for it. -/
structure Config.Steady (bound : Int) (M : Matcher → Prop) (c : Config V) : Prop where
  action : c.action.Steady bound M
  stack : ∀ f ∈ c.stack, f.rbp < bound ∧ ∀ v, (f.next v).Steady bound M

def Turn.Steady (bound : Int) (M : Matcher → Prop) : Turn V → Prop
  | halt _ => True
  | stay event c => event = none ∧ c.Steady bound M
  | shift _ c => c.Steady bound M

/-- The same turn at two positions: where they differ, they refuse the token. -/
inductive Turn.Alike (pos : Int) : Turn V → Turn V → Prop
  | same (s : Turn V) : Alike pos s s
  | halt (e : Failure) : Alike pos (.halt (.error e)) (.halt (.error (e.moved pos)))
  | shift (e : Failure) (fs : List (Frame V)) :
      Alike pos (.shift none ⟨.fail e, fs⟩) (.shift none ⟨.fail (e.moved pos), fs⟩)

namespace Config.Steady

/-- What a turn leaves is steady, too. -/
theorem turn (hc : c.Steady bound M) (ht : t.Steady bound M) (pos : Int) :
    (c.turn (some t) pos).Steady bound M := by
  obtain ⟨a, fs⟩ := c
  obtain ⟨ha, hfs⟩ := hc
  cases ha with
  | done v =>
    cases fs with
    | nil => trivial
    | cons f fs =>
      obtain ⟨hf, hrest⟩ := List.forall_mem_cons.1 hfs
      rw [Config.turn_done]
      split
      · cases hled : t.led with
        | none => exact ⟨.fail _, hrest⟩
        | some led => exact ⟨ht.led led hled v, hfs⟩
      · exact ⟨rfl, hf.2 v, hrest⟩
  | fail e => trivial
  | expression hr h =>
    rw [Config.turn_expression]
    cases hnud : t.nud with
    | none => exact ⟨.fail _, hfs⟩
    | some nud => exact ⟨ht.nud nud hnud, List.forall_mem_cons.2 ⟨⟨hr, h⟩, hfs⟩⟩
  | expect hm h =>
    rw [Config.turn]
    split
    · trivial
    · exact ⟨h _, hfs⟩
    · trivial
  | attempt hm h =>
    rw [Config.turn]
    split
    · trivial
    · exact ⟨h true, hfs⟩
    · exact ⟨rfl, h false, hfs⟩

/-- The position of the lookahead is told in errors, and nowhere else. -/
theorem turn_alike (hc : c.Steady bound M) (t : Token V) (pos pos' : Int) :
    (c.turn (some t) pos).Alike pos' (c.turn (some t) pos') := by
  obtain ⟨a, fs⟩ := c
  cases hc.action with
  | done v =>
    cases fs with
    | nil => exact .same _
    | cons f fs =>
      rw [Config.turn_done, Config.turn_done]
      split
      · cases t.led with
        | none => exact .shift (.parse (.missingInfix pos (some t.profile))) fs
        | some led => exact .same _
      · exact .same _
  | fail e => exact .same _
  | expression hr h =>
    rw [Config.turn_expression, Config.turn_expression]
    cases t.nud with
    | none => exact .shift (.parse (.missingPrefix pos (some t.profile))) fs
    | some nud => exact .same _
  | @expect m next hm h =>
    rw [Config.turn, Config.turn]
    split
    · exact .same _
    · exact .same _
    · exact .halt (.parse (.unexpected pos (some t.profile) m.mention))
  | attempt hm h => exact .same _

/-- After a token that opens an expression one is asked for. -/
theorem awaits_of_shift {pos : Int} {d : Option (Dispatch V)} (hc : c.Steady bound M)
    (ht : t.Opens M) (h : c.turn (some t) pos = .shift d c') : c'.action.Awaits := by
  obtain ⟨a, fs⟩ := c
  cases hc.action with
  | done v =>
    cases fs with
    | nil => cases h
    | cons f fs =>
      rw [Config.turn_done] at h
      split at h
      · cases hled : t.led with
        | none =>
          rw [hled] at h
          cases h
          exact .fail _
        | some led =>
          rw [hled] at h
          cases h
          exact ht.led led hled v
      · cases h
  | fail e => cases h
  | expression hr hnext =>
    rw [Config.turn_expression] at h
    cases hnud : t.nud with
    | none =>
      rw [hnud] at h
      cases h
      exact .fail _
    | some nud =>
      rw [hnud] at h
      cases h
      exact ht.nud nud hnud
  | @expect m next hm hnext | @attempt m next hm hnext =>
    have hmiss : m.accepts ((some t).map (·.profile)) ≠ .ok true := ht.unmatched m hm
    rw [Config.turn] at h
    split at h
    · cases h
    · exact absurd ‹_› hmiss
    · cases h

end Config.Steady

end

/-! Spelled operands -/

/-- A row of tokens that is read as a value: the first makes one, and each of the others extends what is
on its left, binding no looser than the bound. -/
inductive Reads (bound : Int) : List (Token V) → V → Prop
  | first {t v} (hend : t.isEnd = false) (hnud : t.nud = some (.done v)) : Reads bound [t] v
  | extend {ts t v w led} (h : Reads bound ts v) (hend : t.isEnd = false) (hlbp : bound ≤ t.lbp)
      (hled : t.led = some led) (hw : led v = .done w) : Reads bound (ts ++ [t]) w

/-- The second list is the first with its operands spelled. An operand stands where an expression has
to begin, as is said of the start of the lists. -/
inductive Respells (bound : Int) (M : Matcher → Prop) : Bool → List (Token V) → List (Token V) → Prop
  | nil {opened} : Respells bound M opened [] []
  | cons {opened opens t us us'} (ht : t.Steady bound M) (hend : t.isEnd = false)
      (hopens : opens = true → t.Opens M) (h : Respells bound M opens us us') :
      Respells bound M opened (t :: us) (t :: us')
  | operand {t v ts us us'} (hend : t.isEnd = false) (hnud : t.nud = some (.done v))
      (hts : Reads bound ts v) (h : Respells bound M false us us') :
      Respells bound M true (t :: us) (ts ++ us')

section
variable {bound : Int} {M : Matcher → Prop} {opened : Bool} {c : Config V} {us us' ts : List (Token V)}
  {t : Token V} {v : V}

theorem Reads.isEnd (h : Reads bound ts v) : ∀ t ∈ ts, t.isEnd = false := by
  induction h with
  | first hend => exact List.forall_mem_singleton.2 hend
  | extend _ hend _ _ _ ih => exact List.forall_mem_append.2 ⟨ih, List.forall_mem_singleton.2 hend⟩

theorem Respells.isEnd (h : Respells bound M opened us us') :
    (∀ t ∈ us, t.isEnd = false) ∧ ∀ t ∈ us', t.isEnd = false := by
  induction h with
  | nil => exact ⟨List.forall_mem_nil _, List.forall_mem_nil _⟩
  | cons _ hend _ _ ih =>
    exact ⟨List.forall_mem_cons.2 ⟨hend, ih.1⟩, List.forall_mem_cons.2 ⟨hend, ih.2⟩⟩
  | operand hend _ hts _ ih =>
    exact ⟨List.forall_mem_cons.2 ⟨hend, ih.1⟩, List.forall_mem_append.2 ⟨hts.isEnd, ih.2⟩⟩

/-- Where an expression is asked for that goes on with tokens as tight, a row of tokens is read whole. -/
theorem Reads.run {r : Int} {next : V → Action V V} {fs : List (Frame V)} (h : Reads bound ts v)
    (hr : r < bound) (hus : ∀ u ∈ us, u.isEnd = false) (pos : Int) :
    (⟨.expression r next, fs⟩ : Config V).run (.facing none pos (ts ++ us)) =
      (⟨.done v, ⟨r, next⟩ :: fs⟩ : Config V).run (.facing none (pos + ts.length) us) := by
  induction h generalizing us with
  | @first t v hend hnud =>
    exact Config.run_shift (List.forall_mem_cons.2 ⟨hend, hus⟩) (Config.turn_begin hnud pos)
  | @extend ts t v w led _ hend hlbp hled hw ih =>
    have hall : ∀ u ∈ t :: us, u.isEnd = false := List.forall_mem_cons.2 ⟨hend, hus⟩
    have hturn : (⟨.done v, ⟨r, next⟩ :: fs⟩ : Config V).turn (some ((t :: us).headD .sentinel))
        (pos + ts.length) = .shift (some ⟨t, some v⟩) ⟨.done w, ⟨r, next⟩ :: fs⟩ := by
      rw [List.headD_cons, Config.turn_done, if_pos (hr.trans_le hlbp), hled]
      simp only [hw]
    have hpos : pos + ((ts ++ [t]).length : Int) = pos + ts.length + 1 := by
      rw [List.length_append, List.length_singleton]
      omega
    rw [List.append_assoc, List.singleton_append, ih hall, Config.run_shift hall hturn, hpos,
      List.tail_cons]

/-- The lists begin with the same token, or both end, or an operand is spelled here. -/
theorem Respells.head (h : Respells bound M opened us us') :
    (us'.headD .sentinel = us.headD .sentinel ∧ (us.headD .sentinel).Steady bound M ∧
      ∃ opens, (opens = true → (us.headD .sentinel).Opens M) ∧
        Respells bound M opens us.tail us'.tail) ∨
    opened = true ∧ ∃ t v ts rest rest', us = t :: rest ∧ us' = ts ++ rest' ∧
      t.nud = some (.done v) ∧ Reads bound ts v ∧ Respells bound M false rest rest' := by
  cases h with
  | nil => exact .inl ⟨rfl, Token.steady_sentinel, false, nofun, .nil⟩
  | cons ht _ hopens h => exact .inl ⟨rfl, ht, _, hopens, h⟩
  | operand _ hnud hts h => exact .inr ⟨rfl, _, _, _, _, _, rfl, rfl, hnud, hts, h⟩

/-- The parse of the list with its operands spelled takes the same course, but that it reads them in
several turns. -/
theorem Course.spelled {acts : List (Act V)} {o : Outcome V V} {pos : Int}
    (h : Course c (.facing none pos us) acts o) (hsame : Respells bound M opened us us')
    (hc : c.Steady bound M) (hopened : opened = true → c.action.Awaits) (pos' : Int) :
    SameAnswer o.result (c.run (.facing none pos' us')).result ∧
      ∀ v, o.result = .ok v → (c.run (.facing none pos' us')).parser.token = o.parser.token := by
  generalize hp : Parser.facing none pos us = p at h
  induction h generalizing us us' opened pos pos' with
  | @halt c p r h =>
    subst hp
    have hturn : c.turn (some (us.headD .sentinel)) pos = .halt r := h
    rcases hsame.head with ⟨hhead, -, -⟩ | ⟨hopen, -⟩
    · have halike := hc.turn_alike (us.headD .sentinel) pos pos'
      rw [Config.run_facing, hhead]
      rw [hturn] at halike
      generalize c.turn (some (us.headD .sentinel)) pos' = s at halike
      cases halike with
      | same => exact ⟨.refl r, fun _ _ => congrArg some hhead⟩
      | halt e => exact ⟨.error e pos', fun _ hv => nomatch hv⟩
    · -- Handlers that ask for an expression have failed if they halt before it.
      obtain ⟨e, rfl, hrun⟩ := (hopened hopen).halt hturn
      rw [hrun]
      exact ⟨.refl _, fun _ hv => nomatch hv⟩
  | @stay c p event c' acts o h rest ih =>
    subst hp
    have hturn : c.turn (some (us.headD .sentinel)) pos = .stay event c' := h
    have hclosed : opened ≠ true := fun hopen => (hopened hopen).not_stay hturn
    rcases hsame.head with ⟨hhead, ht, -⟩ | ⟨hopen, -⟩
    · have hsteady := hc.turn ht pos
      have halike := hc.turn_alike (us.headD .sentinel) pos pos'
      rw [hturn] at hsteady halike
      obtain ⟨rfl, hc'⟩ := hsteady
      rw [Config.run_facing, hhead]
      generalize c.turn (some (us.headD .sentinel)) pos' = s at halike
      cases halike
      exact ih hsame hc' (fun hopen => absurd hopen hclosed) pos' rfl
    · exact absurd hopen hclosed
  | @unread c p d c' e h he =>
    subst hp
    rw [Parser.advance_facing hsame.isEnd.1] at he
    cases he
  | @shift c p d c' t acts o h ht rest ih =>
    subst hp
    obtain ⟨hends, hends'⟩ := hsame.isEnd
    have hturn : c.turn (some (us.headD .sentinel)) pos = .shift d c' := h
    have hnext : Parser.facing none (pos + 1) us.tail =
        (Parser.facing none pos us).advance.parser.announce d pos := by
      rw [Parser.advance_facing hends, Parser.announce_facing]
    rcases hsame.head with ⟨hhead, hsteady, opens, hopens, htail⟩ |
      ⟨hopen, t, v, ts, tail, tail', rfl, rfl, hnud, hts, htail⟩
    · have hc' : (c.turn (some (us.headD .sentinel)) pos).Steady bound M := hc.turn hsteady pos
      have halike := hc.turn_alike (us.headD .sentinel) pos pos'
      rw [hturn] at hc' halike
      generalize hturn' : c.turn (some (us.headD .sentinel)) pos' = s at halike
      rw [← hhead] at hturn'
      cases halike with
      | same =>
        rw [Config.run_shift hends' hturn']
        exact ih htail hc' (fun hopen => hc.awaits_of_shift (hopens hopen) hturn) _ hnext
      | shift e fs =>
        rw [Config.run_shift hends' hturn', ← rest.run]
        exact ⟨.error e pos', fun _ hv => nomatch hv⟩
    · obtain ⟨a, fs⟩ := c
      obtain ⟨-, hends'⟩ := List.forall_mem_append.1 hends'
      cases hopened hopen with
      | fail e => cases hturn
      | expression r next =>
        obtain ⟨hr, hnexts⟩ : r < bound ∧ ∀ v, (next v).Steady bound M := by
          cases hc.action
          exact ⟨‹_›, ‹_›⟩
        cases (Config.turn_begin hnud pos).symm.trans hturn
        rw [hts.run hr hends']
        exact ih htail ⟨.done v, List.forall_mem_cons.2 ⟨⟨hr, hnexts⟩, hc.stack⟩⟩ nofun _ hnext

end

/-- A list of tokens is parsed as the same list with its operands spelled. -/
theorem Stream.parse_spelled {bound : Int} {M : Matcher → Prop} {us us' : List (Token V)}
    (h : Respells bound M true us us') (hbound : 0 < bound) (strict : Bool) :
    SameAnswer ((Stream.ofTokens us).parse false strict).result
      ((Stream.ofTokens us').parse false strict).result := by
  obtain ⟨hends, hends'⟩ := h.isEnd
  obtain ⟨acts, hcourse⟩ := (Parser.facing none 0 us).exists_course_expression 0
  have hc : (Config.alone 0 : Config V).Steady bound M := ⟨.expression hbound .done, nofun⟩
  obtain ⟨hanswer, htoken⟩ := hcourse.spelled h hc (fun _ => .expression _ _) 0
  rw [Config.run_alone] at hanswer htoken
  rw [Stream.ofTokens, Stream.ofTokens, Stream.parse_eq hends (.inl rfl),
    Stream.parse_eq hends' (.inl rfl)]
  generalize (Parser.facing none 0 us).expression 0 = o at hanswer htoken
  generalize (Parser.facing none 0 us').expression 0 = o' at hanswer htoken
  obtain ⟨r, p⟩ := o
  obtain ⟨r', p'⟩ := o'
  cases hanswer with
  | ok v =>
    have htoken : p'.token = p.token := htoken v rfl
    have hend : p'.lookahead = p.lookahead := congrArg (Option.map Token.profile) htoken
    rw [Outcome.andThen_ok _ rfl, Outcome.andThen_ok _ rfl, Parser.atEnd, Parser.atEnd, hend]
    dsimp only
    split
    · exact .error (.parse (.unexpected p.pos p.lookahead "end of input")) p'.pos
    · exact .ok v
  | error e pos => exact .error e pos

end BindingPower
