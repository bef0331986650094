import BindingPower.Proofs.Parser.Configuration

/-! A parse step by step, with nothing that bounds it. Before a lookahead a configuration halts, goes
on, or consumes the lookahead; the course of a parse is the list of its pulls and dispatches until it
halts. Each configuration has exactly one course, and its outcome is that of the parse. -/
namespace BindingPower
variable {V : Type}

/-- The parser hands over to a token, after an operand where it follows one. -/
structure Dispatch (V : Type) where
  token : Token V
  left : Option V

def Dispatch.role (d : Dispatch V) : Role := if d.left.isSome then .led else .nud

/-- What a configuration does next. -/
inductive Turn (V : Type) where
  | halt (result : Except Failure V)
  /-- It goes on with the same lookahead, and may report something. -/
  | stay (event : Option Event) (c : Config V)
  /-- It consumes the lookahead, and may hand over to it. -/
  | shift (d : Option (Dispatch V)) (c : Config V)

/-- The turn of a configuration before a lookahead at a position. A token without the handler it needs
is consumed before it is refused. -/
def Config.turn (token : Option (Token V)) (pos : Int) : Config V → Turn V
  | ⟨.done v, []⟩ => .halt (.ok v)
  | ⟨.done v, f :: fs⟩ =>
    if token.any fun t => f.rbp < t.lbp then
      match token.bind fun t => t.led.map (t, ·) with
      | none => .shift none ⟨.fail (.parse (.missingInfix pos (token.map (·.profile)))), fs⟩
      | some (t, led) => .shift (some ⟨t, some v⟩) ⟨led v, f :: fs⟩
    else .stay none ⟨f.next v, fs⟩
  | ⟨.fail e, _⟩ => .halt (.error e)
  | ⟨.expression r next, fs⟩ =>
    match token.bind fun t => t.nud.map (t, ·) with
    | none => .shift none ⟨.fail (.parse (.missingPrefix pos (token.map (·.profile)))), fs⟩
    | some (t, nud) => .shift (some ⟨t, none⟩) ⟨nud, ⟨r, next⟩ :: fs⟩
  | ⟨.expect m next, fs⟩ =>
    match m.accepts (token.map (·.profile)) with
    | .error f => .halt (.error (.fault f))
    | .ok true => .shift none ⟨next (token.map (·.profile)), fs⟩
    | .ok false =>
      .halt (.error (.parse (.unexpected pos (token.map (·.profile)) m.mention)))
  | ⟨.attempt m next, fs⟩ =>
    match m.accepts (token.map (·.profile)) with
    | .error f => .halt (.error (.fault f))
    | .ok true => .shift none ⟨next true, fs⟩
    | .ok false => .stay none ⟨next false, fs⟩
  | ⟨.advance next, fs⟩ => .shift none ⟨next (token.map (·.profile)), fs⟩
  | ⟨.look next, fs⟩ => .stay none ⟨next (token.map (·.profile)) pos, fs⟩
  | ⟨.emit event a, fs⟩ => .stay (some event) ⟨a, fs⟩

/-- What is dispatched is the lookahead, and it is its handler that goes on. -/
theorem Config.turn_dispatch {c c' : Config V} {token : Option (Token V)} {pos : Int}
    {d : Dispatch V} (h : c.turn token pos = .shift (some d) c') :
    token = some d.token ∧
      (d.left = none ∧ d.token.nud = some c'.action ∨
        ∃ v led, d.left = some v ∧ d.token.led = some led ∧ c'.action = led v) := by
  obtain ⟨a, fs⟩ := c
  cases a with
  | done v =>
    cases fs with
    | nil => cases h
    | cons f fs =>
      rw [turn] at h
      split at h
      · cases hled : token.bind fun t => t.led.map (t, ·) with
        | none =>
          rw [hled] at h
          cases h
        | some handler =>
          obtain ⟨t, led⟩ := handler
          obtain ⟨htoken, hhandler⟩ := Parser.of_handler hled
          rw [hled] at h
          cases h
          exact ⟨htoken, .inr ⟨v, led, rfl, hhandler, rfl⟩⟩
      · cases h
  | expression r next =>
    rw [turn] at h
    cases hnud : token.bind fun t => t.nud.map (t, ·) with
    | none =>
      rw [hnud] at h
      cases h
    | some handler =>
      obtain ⟨t, nud⟩ := handler
      obtain ⟨htoken, hhandler⟩ := Parser.of_handler hnud
      rw [hnud] at h
      cases h
      exact ⟨htoken, .inl ⟨rfl, hhandler⟩⟩
  | expect m next | attempt m next =>
    rw [turn] at h
    split at h <;> cases h
  | fail | advance | look | emit => cases h

/-- An operator is dispatched where an expression waits for it, and a token that starts an expression
leaves behind the handler that has asked for one. -/
theorem Config.turn_dispatched {c c' : Config V} {token : Option (Token V)} {pos : Int}
    {d : Dispatch V} (h : c.turn token pos = .shift (some d) c') :
    d.left ≠ none ∧ c.stack ≠ [] ∧ c'.stack = c.stack ∨
      ∃ r next, d.left = none ∧ c.action = .expression r next ∧ c'.stack = ⟨r, next⟩ :: c.stack := by
  obtain ⟨a, fs⟩ := c
  cases a with
  | done v =>
    cases fs with
    | nil => cases h
    | cons f fs =>
      rw [turn] at h
      repeat' split at h
      all_goals cases h
      exact .inl ⟨nofun, nofun, rfl⟩
  | expression r next =>
    rw [turn] at h
    split at h <;> cases h
    exact .inr ⟨r, next, rfl, rfl, rfl⟩
  | expect m next | attempt m next =>
    rw [turn] at h
    split at h <;> cases h
  | fail | advance | look | emit => cases h

theorem Config.acts_of_turn {c c' : Config V} {token : Option (Token V)} {pos : Int}
    {d : Dispatch V} (h : c.turn token pos = .shift (some d) c') : d.token.acts = true := by
  obtain ⟨-, ⟨-, hnud⟩ | ⟨v, led, -, hled, -⟩⟩ := turn_dispatch h
  · simp [Token.acts, hnud]
  · simp [Token.acts, hled]

namespace Parser

def note (event : Option Event) (p : Parser V) : Parser V :=
  match event with
  | none => p
  | some event => p.emit event

/-- Reports the dispatch of the token at a position, if there is one. -/
def announce (d : Option (Dispatch V)) (pos : Int) (p : Parser V) : Parser V :=
  match d with
  | none => p
  | some d => p.report d.role d.token pos

/-- What is reported changes the log alone. -/
theorem note_eq (event : Option Event) (p : Parser V) : ∃ log, p.note event = { p with log := log } := by
  cases event with
  | none => exact ⟨p.log, rfl⟩
  | some event => exact ⟨p.log ++ [event], rfl⟩

theorem announce_eq (d : Option (Dispatch V)) (pos : Int) (p : Parser V) :
    ∃ log, p.announce d pos = { p with log := log } := by
  cases d with
  | none => exact ⟨p.log, rfl⟩
  | some d =>
    rw [announce, report]
    split
    · exact ⟨p.log ++ [.dispatch d.role d.token.profile pos], rfl⟩
    · exact ⟨p.log, rfl⟩

theorem pos_note (event : Option Event) (p : Parser V) : (p.note event).pos = p.pos := by
  obtain ⟨log, h⟩ := p.note_eq event
  rw [h]

theorem lookahead_note (event : Option Event) (p : Parser V) :
    (p.note event).lookahead = p.lookahead := by
  obtain ⟨log, h⟩ := p.note_eq event
  rw [h]
  rfl

theorem pos_announce (d : Option (Dispatch V)) (pos : Int) (p : Parser V) :
    (p.announce d pos).pos = p.pos := by
  obtain ⟨log, h⟩ := p.announce_eq d pos
  rw [h]

theorem source_announce (d : Option (Dispatch V)) (pos : Int) (p : Parser V) :
    (p.announce d pos).source = p.source := by
  obtain ⟨log, h⟩ := p.announce_eq d pos
  rw [h]

theorem log_advance (p : Parser V) : p.advance.parser.log = p.log := by
  unfold advance
  split <;> rfl

theorem log_announce (d : Option (Dispatch V)) (pos : Int) (p : Parser V) :
    (p.announce d pos).log =
      p.log ++ d.toList.flatMap fun d =>
        if p.trace then [Event.dispatch d.role d.token.profile pos] else [] := by
  cases d with
  | none => simp [announce]
  | some d =>
    rw [announce, report]
    cases p.trace <;> simp [emit]

theorem trace_note (event : Option Event) (p : Parser V) : (p.note event).trace = p.trace := by
  obtain ⟨log, h⟩ := p.note_eq event
  rw [h]

theorem trace_announce (d : Option (Dispatch V)) (pos : Int) (p : Parser V) :
    (p.announce d pos).trace = p.trace := by
  obtain ⟨log, h⟩ := p.announce_eq d pos
  rw [h]

end Parser

/-- A pull with its answer, or a dispatch. -/
inductive Act (V : Type) where
  | pull (answer : Except Failure (Token V))
  | dispatch (d : Dispatch V)

/-- What a configuration does with a parser until it halts, and the outcome. -/
inductive Course : Config V → Parser V → List (Act V) → Outcome V V → Prop
  | halt {c p r} (h : c.turn p.token p.pos = .halt r) : Course c p [] ⟨r, p⟩
  | stay {c p event c' acts o} (h : c.turn p.token p.pos = .stay event c')
      (rest : Course c' (p.note event) acts o) : Course c p acts o
  /-- A pull that fails ends the parse. -/
  | unread {c p d c' e} (h : c.turn p.token p.pos = .shift d c')
      (he : p.advance.result = .error e) :
      Course c p [.pull p.source.next.1] ⟨.error e, p.advance.parser⟩
  | shift {c p d c' t acts o} (h : c.turn p.token p.pos = .shift d c')
      (ht : p.advance.result = .ok t)
      (rest : Course c' (p.advance.parser.announce d p.pos) acts o) :
      Course c p (.pull p.source.next.1 :: (d.toList.map .dispatch ++ acts)) o

namespace Turn

/-- What is left to do after a turn. -/
def outcome (p : Parser V) : Turn V → Outcome V V
  | halt r => ⟨r, p⟩
  | stay event c => c.run (p.note event)
  | shift d c => p.advance.andThen fun _ q => c.run (q.announce d p.pos)

end Turn

namespace Config
variable {a : Action V V} {fs : List (Frame V)} {p : Parser V}

private theorem run_done (v : V) (f : Frame V) :
    (⟨.done v, f :: fs⟩ : Config V).run p =
      ((⟨.done v, f :: fs⟩ : Config V).turn p.token p.pos).outcome p := by
  have hrun : (⟨.done v, f :: fs⟩ : Config V).run p =
      (p.operators f.rbp v).andThen fun v q => (⟨f.next v, fs⟩ : Config V).run q := rfl
  rw [hrun, Parser.operators_eq, turn]
  split
  · rw [Outcome.andThen_assoc]
    cases hled : p.token.bind fun t => t.led.map (t, ·) with
    | none =>
      refine Outcome.andThen_congr _ fun t ht => ?_
      rw [Parser.advance_result ht, hled]
      rfl
    | some handler =>
      obtain ⟨u, led⟩ := handler
      dsimp only [Turn.outcome]
      refine Outcome.andThen_congr _ fun t ht => ?_
      rw [Parser.advance_result ht, hled]
      exact Outcome.andThen_assoc ..
  · rfl

private theorem run_expression (r : Int) (next : V → Action V V) :
    (⟨.expression r next, fs⟩ : Config V).run p =
      ((⟨.expression r next, fs⟩ : Config V).turn p.token p.pos).outcome p := by
  rw [run, Action.run, Parser.expression_eq, Outcome.andThen_assoc, Outcome.andThen_assoc, turn]
  cases hnud : p.token.bind fun t => t.nud.map (t, ·) with
  | none =>
    refine Outcome.andThen_congr _ fun t ht => ?_
    rw [Parser.advance_result ht, hnud]
    rfl
  | some handler =>
    obtain ⟨u, nud⟩ := handler
    dsimp only [Turn.outcome]
    refine Outcome.andThen_congr _ fun t ht => ?_
    rw [Parser.advance_result ht, hnud, Outcome.andThen_assoc]
    rfl

private theorem run_expect (m : Matcher) (next : Option Profile → Action V V) :
    (⟨.expect m next, fs⟩ : Config V).run p =
      ((⟨.expect m next, fs⟩ : Config V).turn p.token p.pos).outcome p := by
  rw [run, Action.run, Parser.expect, Parser.lookahead, turn]
  cases m.accepts (p.token.map (·.profile)) with
  | error f => rfl
  | ok met =>
    cases met with
    | false => rfl
    | true =>
      dsimp only
      rw [Outcome.andThen_assoc]
      refine Outcome.andThen_congr _ fun t ht => ?_
      rw [Parser.advance_result ht]
      rfl

private theorem run_attempt (m : Matcher) (next : Bool → Action V V) :
    (⟨.attempt m next, fs⟩ : Config V).run p =
      ((⟨.attempt m next, fs⟩ : Config V).turn p.token p.pos).outcome p := by
  rw [run, Action.run, Parser.attempt, Parser.lookahead, turn]
  cases m.accepts (p.token.map (·.profile)) with
  | error f => rfl
  | ok met =>
    cases met with
    | false => rfl
    | true =>
      dsimp only
      rw [Outcome.andThen_assoc, Outcome.andThen_assoc]
      rfl

/-- A parse is its next turn and what is left to do after it. -/
theorem run_eq_turn (c : Config V) (p : Parser V) :
    c.run p = (c.turn p.token p.pos).outcome p := by
  obtain ⟨a, fs⟩ := c
  cases a with
  | done v =>
    cases fs with
    | nil => rfl
    | cons f fs => exact run_done v f
  | fail e => rfl
  | expression r next => exact run_expression r next
  | expect m next => exact run_expect m next
  | attempt m next => exact run_attempt m next
  | advance next =>
    rw [run, Action.run, turn, Outcome.andThen_assoc]
    refine Outcome.andThen_congr _ fun t ht => ?_
    rw [Parser.advance_result ht]
    rfl
  | look next => rfl
  | emit event a => rfl

end Config

namespace Course
variable {c : Config V} {p : Parser V} {acts acts' : List (Act V)} {o o' : Outcome V V}

/-- A course leads to the outcome of the parse. -/
theorem run (h : Course c p acts o) : c.run p = o := by
  induction h with
  | halt h => rw [Config.run_eq_turn, h, Turn.outcome]
  | stay h _ ih => rw [Config.run_eq_turn, h, Turn.outcome, ih]
  | unread h he => rw [Config.run_eq_turn, h, Turn.outcome, Outcome.andThen_error _ he]
  | shift h ht _ ih => rw [Config.run_eq_turn, h, Turn.outcome, Outcome.andThen_ok _ ht, ih]

theorem unique (h : Course c p acts o) (h' : Course c p acts' o') : acts = acts' ∧ o = o' := by
  induction h generalizing acts' o' with
  | halt h =>
    cases h' with
    | halt h' =>
      cases h.symm.trans h'
      exact ⟨rfl, rfl⟩
    | stay h' | unread h' | shift h' => cases h.symm.trans h'
  | stay h _ ih =>
    cases h' with
    | stay h' rest =>
      cases h.symm.trans h'
      exact ih rest
    | halt h' | unread h' | shift h' => cases h.symm.trans h'
  | unread h he =>
    cases h' with
    | unread h' he' =>
      cases he.symm.trans he'
      exact ⟨rfl, rfl⟩
    | shift h' ht' => cases he.symm.trans ht'
    | halt h' | stay h' => cases h.symm.trans h'
  | shift h ht _ ih =>
    cases h' with
    | shift h' ht' rest =>
      cases h.symm.trans h'
      obtain ⟨rfl, rfl⟩ := ih rest
      exact ⟨rfl, rfl⟩
    | unread h' he' => cases ht.symm.trans he'
    | halt h' | stay h' => cases h.symm.trans h'

end Course

/-- After finitely many turns the configuration halts. -/
def Config.Halts (c : Config V) (p : Parser V) : Prop := ∃ acts o, Course c p acts o

namespace Config.Halts
variable {c c' : Config V} {p : Parser V} {event : Option Event} {d : Option (Dispatch V)}

theorem stay (h : c.turn p.token p.pos = .stay event c') (hc : c'.Halts (p.note event)) :
    c.Halts p := by
  obtain ⟨acts, o, hrest⟩ := hc
  exact ⟨acts, o, .stay h hrest⟩

theorem shift (h : c.turn p.token p.pos = .shift d c')
    (hc : ∀ t, p.advance.result = .ok t → c'.Halts (p.advance.parser.announce d p.pos)) :
    c.Halts p := by
  cases ht : p.advance.result with
  | error e => exact ⟨_, _, .unread h ht⟩
  | ok t =>
    obtain ⟨acts, o, hrest⟩ := hc t ht
    exact ⟨_, o, .shift h ht hrest⟩

theorem fail (e : Failure) (fs : List (Frame V)) (p : Parser V) :
    (⟨.fail e, fs⟩ : Config V).Halts p :=
  ⟨_, _, .halt rfl⟩

/-- A dispatch leaves one token less to dispatch. -/
private theorem dispatch {n : Nat} (hlater : ∀ (c : Config V) p, p.pending < n → c.Halts p)
    (hp : p.pending ≤ n) {t : Token V} (ht : p.token = some t) (ha : t.acts = true)
    {left : Option V} (h : c.turn p.token p.pos = .shift (some ⟨t, left⟩) c') : c.Halts p := by
  refine shift h fun u hu => hlater _ _ ?_
  have hlt := Parser.pending_dispatch_lt hu ((Parser.advance_result hu).trans ht) ha
  rw [Parser.announce, Parser.pending_report]
  omega

/-- A configuration halts if the handlers that wait in it do, with no more to dispatch. -/
private theorem of_action {n : Nat} (hlater : ∀ (c : Config V) p, p.pending < n → c.Halts p)
    {fs : List (Frame V)} (hdone : ∀ v p, p.pending ≤ n → (⟨.done v, fs⟩ : Config V).Halts p)
    (a : Action V V) {p : Parser V} (hp : p.pending ≤ n) : (⟨a, fs⟩ : Config V).Halts p := by
  have hpull (p : Parser V) (hp : p.pending ≤ n) : p.advance.parser.pending ≤ n :=
    (Parser.pending_advance_le p).trans hp
  induction a generalizing p with
  | done v => exact hdone v p hp
  | fail e => exact fail e fs p
  | expression r next ih =>
    cases hnud : p.token.bind fun t => t.nud.map (t, ·) with
    | none => exact shift (by rw [Config.turn, hnud]) fun _ _ => fail _ fs _
    | some handler =>
      obtain ⟨t, nud⟩ := handler
      obtain ⟨ht, ha⟩ := Parser.acts_of_nud hnud
      exact dispatch hlater hp ht ha (by rw [Config.turn, hnud])
  | expect m next ih =>
    cases hm : m.accepts (p.token.map (·.profile)) with
    | error f => exact ⟨_, _, .halt (by rw [Config.turn, hm])⟩
    | ok met =>
      cases met with
      | false => exact ⟨_, _, .halt (by rw [Config.turn, hm])⟩
      | true =>
        have hturn : (⟨.expect m next, fs⟩ : Config V).turn p.token p.pos =
            .shift none ⟨next (p.token.map (·.profile)), fs⟩ := by
          rw [Config.turn, hm]
        exact shift hturn fun _ _ => ih _ (hpull p hp)
  | attempt m next ih =>
    cases hm : m.accepts (p.token.map (·.profile)) with
    | error f => exact ⟨_, _, .halt (by rw [Config.turn, hm])⟩
    | ok met =>
      cases met with
      | false =>
        have hturn : (⟨.attempt m next, fs⟩ : Config V).turn p.token p.pos =
            .stay none ⟨next false, fs⟩ := by
          rw [Config.turn, hm]
        exact stay hturn (ih false hp)
      | true =>
        have hturn : (⟨.attempt m next, fs⟩ : Config V).turn p.token p.pos =
            .shift none ⟨next true, fs⟩ := by
          rw [Config.turn, hm]
        exact shift hturn fun _ _ => ih true (hpull p hp)
  | advance next ih =>
    exact shift rfl fun _ _ => ih _ (hpull p hp)
  | look next ih => exact stay rfl (ih _ _ hp)
  | emit event a ih => exact stay rfl (ih (p := p.emit event) hp)

/-- With no more than `n` to dispatch, the expressions around a value end one after the other. -/
private theorem of_done {n : Nat} (hlater : ∀ (c : Config V) p, p.pending < n → c.Halts p)
    (fs : List (Frame V)) (v : V) {p : Parser V} (hp : p.pending ≤ n) :
    (⟨.done v, fs⟩ : Config V).Halts p := by
  induction fs generalizing v p with
  | nil => exact ⟨_, _, .halt rfl⟩
  | cons f fs ih =>
    by_cases hr : (p.token.any fun t => f.rbp < t.lbp) = true
    · cases hled : p.token.bind fun t => t.led.map (t, ·) with
      | none => exact shift (by rw [Config.turn, if_pos hr, hled]) fun _ _ => fail _ fs _
      | some handler =>
        obtain ⟨t, led⟩ := handler
        obtain ⟨ht, ha⟩ := Parser.acts_of_led hled
        exact dispatch hlater hp ht ha (by rw [Config.turn, if_pos hr, hled])
    · refine stay (by rw [Config.turn, if_neg hr]) ?_
      exact of_action hlater (fun v p hp => ih v hp) (f.next v) hp

end Config.Halts

/-- Each configuration halts: a dispatch leaves less to dispatch, the end of an expression leaves one
expression less under way, and every other turn leaves a part of the handler. -/
theorem Config.halts (c : Config V) (p : Parser V) : c.Halts p := by
  induction hn : p.pending using Nat.strongRecOn generalizing c p with
  | ind n ih =>
    have hlater (c : Config V) (q : Parser V) (hq : q.pending < n) : c.Halts q := ih _ hq c q rfl
    exact Halts.of_action hlater (fun v _ hq => Halts.of_done hlater c.stack v hq) c.action hn.le

/-- Each parse has a course. -/
theorem exists_course (c : Config V) (p : Parser V) : ∃ acts, Course c p acts (c.run p) := by
  obtain ⟨acts, o, h⟩ := c.halts p
  exact ⟨acts, h.run ▸ h⟩

namespace Config

/-- An expression that is asked for from outside. -/
def alone (r : Int) : Config V := ⟨.expression r .done, []⟩

/-- A run from the start, after which the input must end if it is strict. -/
def whole (strict : Bool) : Config V :=
  ⟨.advance fun _ => .expression 0 fun v =>
    if strict then
      .look fun token pos =>
        if token.any fun t => t.identity = .sentinel then .done v
        else .fail (.parse (.unexpected pos token "end of input"))
    else .done v, []⟩

theorem run_alone (r : Int) (p : Parser V) : (alone r : Config V).run p = p.expression r := by
  rw [alone, run, Action.run, Outcome.andThen_assoc]
  exact Outcome.andThen_ok_self _

theorem run_whole (strict : Bool) {p : Parser V} (h : p.started = false) :
    (whole strict).run { p with started := true } = p.run strict := by
  rw [whole, run, Action.run, Parser.run, if_neg (by simp [h]), Outcome.andThen_assoc]
  refine Outcome.andThen_congr _ fun t _ => ?_
  rw [Action.run, Outcome.andThen_assoc]
  refine Outcome.andThen_congr _ fun v _ => ?_
  cases strict with
  | false => rfl
  | true =>
    -- Both look at the same lookahead for the end mark.
    show Outcome.andThen (Action.run _ (if Parser.atEnd _ = true then _ else _) _) _ = _
    cases hend : Parser.atEnd _ with
    | true => rfl
    | false => rfl

end Config

/-- The course of an expression. -/
theorem Parser.exists_course_expression (r : Int) (p : Parser V) :
    ∃ acts, Course (.alone r) p acts (p.expression r) := by
  obtain ⟨acts, h⟩ := exists_course (.alone r) p
  rw [Config.run_alone] at h
  exact ⟨acts, h⟩

end BindingPower
