import BindingPower.Proofs.Parser.Failures
import BindingPower.Session

/-! Sessions command by command. A pull past the parser answers what it delivers, an expression and a run
pull what their courses pull, whatever else consumes a token pulls once, and nothing else pulls. So a
session delivers the stream in order, and its parser stands where the last pull that delivered has put
it. -/
namespace BindingPower
variable {V α β : Type}

/-- A step whose result is only renamed. -/
private theorem Outcome.andThen_map (o : Outcome V α) (f : α → β) :
    (o.andThen fun a p => ⟨.ok (f a), p⟩) = ⟨o.result.map f, o.parser⟩ := by
  cases h : o.result with
  | ok a => rw [andThen_ok _ h]; rfl
  | error e => rw [andThen_error _ h]; rfl

private theorem Parser.advance_eq (p : Parser V) :
    p.advance.result = p.source.next.1.map fun _ => p.token := by
  cases h : p.source.next.1 with
  | ok t => rw [advance_of_ok h]; rfl
  | error e => rw [advance_of_error h]; rfl

/-- The answer of a step that consumes the lookahead. -/
private theorem Parser.andThen_advance (p : Parser V) (f : Option (Token V) → α) :
    (p.advance.andThen fun t q => ⟨.ok (f t), q⟩) =
      ⟨p.source.next.1.map fun _ => f p.token, p.advance.parser⟩ := by
  rw [Outcome.andThen_map, p.advance_eq]
  cases p.source.next.1 <;> rfl

namespace Command

/-- What a command pulls on a parser and how it ends, where this is what the next pull delivers. -/
inductive Serves (p : Parser V) (due : Except Failure (Token V)) :
    Command → Answers V → Except Failure (Option (Item V)) → Prop
  | pull : Serves p due .pull [due] (due.map fun t => some (.token (some t.profile)))
  | fork : Serves p due .fork [] (.ok none)
  | peek : Serves p due (.step .peek) [] (.ok (some (.token p.lookahead)))
  | position : Serves p due (.step .position) [] (.ok (some (.index p.pos)))
  | advance : Serves p due (.step .advance) [due] (due.map fun _ => some (.token p.lookahead))
  | expected {m : Matcher} (h : m.accepts p.lookahead = .ok true) :
      Serves p due (.step (.expect m)) [due] (due.map fun _ => some (.token p.lookahead))
  | unexpected {m : Matcher} (h : m.accepts p.lookahead = .ok false) :
      Serves p due (.step (.expect m)) [] (.error (.parse (.unexpected p.pos p.lookahead m.mention)))
  | unmatched {m : Matcher} {f : Fault} (h : m.accepts p.lookahead = .error f) :
      Serves p due (.step (.expect m)) [] (.error (.fault f))
  | consumed {m : Matcher} (h : m.accepts p.lookahead = .ok true) :
      Serves p due (.step (.attempt m)) [due] (due.map fun _ => some (.flag true))
  | missed {m : Matcher} (h : m.accepts p.lookahead = .ok false) :
      Serves p due (.step (.attempt m)) [] (.ok (some (.flag false)))
  | untried {m : Matcher} {f : Fault} (h : m.accepts p.lookahead = .error f) :
      Serves p due (.step (.attempt m)) [] (.error (.fault f))
  | expression {r : Int} {acts : List (Act V)} {o : Outcome V V} (h : Course (.alone r) p acts o) :
      Serves p due (.step (.expression r)) (answers acts) (o.result.map fun v => some (.value v))
  | run {strict : Bool} {acts : List (Act V)} {o : Outcome V V} (hs : p.started = false)
      (h : Course (.whole strict) { p with started := true } acts o) :
      Serves p due (.run strict) (answers acts) (o.result.map fun v => some (.value v))
  | rerun {strict : Bool} (hs : p.started = true) :
      Serves p due (.run strict) [] (.error (.fault .alreadyRun))

/-- A command leaves the parser as its pulls do. -/
def Follows (c : Command) (p : Parser V) (o : Outcome V (Option (Item V))) : Prop :=
  ∃ es, c.Serves p p.source.next.1 es o.result ∧ Pulls p es o.parser

private theorem perform_pull (p : Parser V) :
    pull.perform p = ⟨p.source.next.1.map fun t => some (.token (some t.profile)),
      { p with source := p.source.next.2 }⟩ := by
  unfold perform
  generalize p.source.next = r
  obtain ⟨d, source⟩ := r
  cases d <;> rfl

private theorem serves_expect (m : Matcher) (p : Parser V) :
    (step (.expect m)).Follows p ((step (.expect m)).perform p) := by
  have hperform : (step (.expect m)).perform p =
      (p.expect m).andThen fun t q => ⟨.ok (some (.token (t.map (·.profile)))), q⟩ :=
    Outcome.andThen_assoc ..
  rw [hperform, Parser.expect]
  cases hm : m.accepts p.lookahead with
  | error f => exact ⟨[], .unmatched hm, .refl⟩
  | ok met =>
    cases met with
    | false => exact ⟨[], .unexpected hm, .refl⟩
    | true =>
      rw [p.andThen_advance fun t => (some (.token (t.map (·.profile))) : Option (Item V))]
      exact ⟨_, .expected hm, Pulls.refl.advance⟩

private theorem serves_attempt (m : Matcher) (p : Parser V) :
    (step (.attempt m)).Follows p ((step (.attempt m)).perform p) := by
  have hperform : (step (.attempt m)).perform p =
      (p.attempt m).andThen fun b q => ⟨.ok (some (.flag b)), q⟩ :=
    Outcome.andThen_assoc ..
  rw [hperform, Parser.attempt]
  cases hm : m.accepts p.lookahead with
  | error f => exact ⟨[], .untried hm, .refl⟩
  | ok met =>
    cases met with
    | false => exact ⟨[], .missed hm, .refl⟩
    | true =>
      have hconsumed : ((p.advance.andThen fun _ q => ⟨.ok true, q⟩).andThen fun b q =>
          (⟨.ok (some (.flag b)), q⟩ : Outcome V (Option (Item V)))) =
            p.advance.andThen fun _ q => ⟨.ok (some (.flag true)), q⟩ :=
        Outcome.andThen_assoc ..
      dsimp only
      rw [hconsumed, p.andThen_advance fun _ => (some (.flag true) : Option (Item V))]
      exact ⟨_, .consumed hm, Pulls.refl.advance⟩

private theorem serves_step (s : Step) (p : Parser V) :
    (step s).Follows p ((step s).perform p) := by
  cases s with
  | expression r =>
    have hperform : (step (.expression r)).perform p =
        (p.expression r).andThen fun v q => ⟨.ok (some (.value v)), q⟩ :=
      Outcome.andThen_assoc ..
    obtain ⟨acts, hcourse⟩ := p.exists_course_expression r
    rw [hperform, Outcome.andThen_map]
    exact ⟨_, .expression hcourse, hcourse.pulls⟩
  | expect m => exact serves_expect m p
  | attempt m => exact serves_attempt m p
  | advance =>
    have hperform : (step .advance).perform p =
        p.advance.andThen fun t q => ⟨.ok (some (.token (t.map (·.profile)))), q⟩ :=
      Outcome.andThen_assoc ..
    rw [hperform, p.andThen_advance fun t => (some (.token (t.map (·.profile))) : Option (Item V))]
    exact ⟨_, .advance, Pulls.refl.advance⟩
  | peek => exact ⟨[], .peek, .refl⟩
  | position => exact ⟨[], .position, .refl⟩

/-- Every command on every parser pulls and answers so. -/
theorem serves (c : Command) (p : Parser V) : c.Follows p (c.perform p) := by
  cases c with
  | step s => exact serves_step s p
  | run strict =>
    cases hs : p.started with
    | true =>
      have hrun : p.run strict = ⟨.error (.fault .alreadyRun), p⟩ := by rw [Parser.run, if_pos hs]
      rw [perform, hrun]
      exact ⟨[], .rerun hs, .refl⟩
    | false =>
      obtain ⟨acts, hcourse⟩ := exists_course (.whole strict) { p with started := true }
      rw [Config.run_whole strict hs] at hcourse
      rw [perform, Outcome.andThen_map]
      exact ⟨_, .run hs hcourse, (Pulls.refl.note true p.log).trans hcourse.pulls⟩
  | pull =>
    rw [perform_pull]
    exact ⟨_, .pull, Pulls.refl.pull⟩
  | fork => exact ⟨[], .fork, Pulls.refl.fork⟩

end Command

/-- The parser that some commands of a session leave. -/
def leftBy (cs : List Command) (p : Parser V) : Parser V :=
  ((session cs p).getLast?.map (·.parser)).getD p

private theorem leftBy_cons (c : Command) (cs : List Command) (p : Parser V) :
    leftBy (c :: cs) p = leftBy cs (c.perform { p with log := [] }).parser := by
  unfold leftBy
  rw [session, List.getLast?_cons]
  cases (session cs (c.perform { p with log := [] }).parser).getLast? <;> rfl

private theorem leftBy_append (cs ds : List Command) (p : Parser V) :
    leftBy (cs ++ ds) p = leftBy ds (leftBy cs p) := by
  induction cs generalizing p with
  | nil => rfl
  | cons c cs ih => rw [List.cons_append, leftBy_cons, leftBy_cons, ih]

private theorem pulls_leftBy (cs : List Command) (p : Parser V) : ∃ ds, Pulls p ds (leftBy cs p) := by
  induction cs generalizing p with
  | nil => exact ⟨[], .refl⟩
  | cons c cs ih =>
    rw [leftBy_cons]
    obtain ⟨ds, -, hds⟩ := c.serves { p with log := [] }
    obtain ⟨es, hes⟩ := ih (c.perform { p with log := [] }).parser
    exact ⟨_, ((Pulls.refl.note p.started []).trans hds).trans hes⟩

/-- A command of a session is carried out on the parser that those before it leave. -/
theorem getElem?_session (before : List Command) (c : Command) (after : List Command) (p : Parser V) :
    (session (before ++ c :: after) p)[before.length]? =
      some (c.perform { leftBy before p with log := [] }) := by
  induction before generalizing p with
  | nil => rfl
  | cons b before ih =>
    rw [List.cons_append, session, List.length_cons, List.getElem?_cons_succ, ih, leftBy_cons]

/-- A session gets from one command to the next by pulls alone, each command pulls and answers by what
is due after the pulls before it, and at every moment, also within a command: the pulls so far have
delivered the stream in order, the parser stands where they have put it, no later pull makes the position
or the end of the source go back, and neither a pull that raises nor a demand that is not met moves the
parser. -/
theorem session_follows_stream (s : Stream V) (trace : Bool) :
    (∀ before after : List Command, ∃ ds es,
      Pulls (.ofStream s trace) ds (leftBy before (.ofStream s trace)) ∧
        Pulls (leftBy before (.ofStream s trace)) es
          (leftBy (before ++ after) (.ofStream s trace))) ∧
      (∀ (before : List Command) (c : Command) (after : List Command), ∃ ds es o,
        (session (before ++ c :: after) (.ofStream s trace))[before.length]? = some o ∧
          Pulls (.ofStream s trace) ds (leftBy before (.ofStream s trace)) ∧
          c.Serves { leftBy before (.ofStream s trace) with log := [] } (s.delivery ds.length) es
            o.result ∧
          Pulls { leftBy before (.ofStream s trace) with log := [] } es o.parser ∧
          ∀ k < es.length, es[k]? = some (s.delivery (ds.length + k))) ∧
      ∀ ds (p : Parser V), Pulls (.ofStream s trace) ds p →
        p.Follows s ds ∧
        (∀ es q, Pulls p es q → p.source.pos ≤ q.source.pos ∧
          (p.source.exhausted = true → q.source.exhausted = true)) ∧
        (∀ e, p.advance.result = .error e →
          p.advance.parser.token = p.token ∧ p.advance.parser.pos = p.pos) ∧
        ∀ m : Matcher, m.accepts p.lookahead ≠ .ok true →
          (p.expect m).parser = p ∧ (p.attempt m).parser = p := by
  refine ⟨fun before after => ?_, fun before c after => ?_, fun ds p h => ⟨h.follows,
    fun es q hq => ⟨?_, hq.exhausted⟩, fun e he => Parser.advance_failed he,
    fun m hm => Parser.expect_missed hm⟩⟩
  · obtain ⟨ds, hds⟩ := pulls_leftBy before (.ofStream s trace)
    obtain ⟨es, hes⟩ := pulls_leftBy after (leftBy before (.ofStream s trace))
    exact ⟨ds, es, hds, leftBy_append before after _ ▸ hes⟩
  · obtain ⟨ds, hds⟩ := pulls_leftBy before (.ofStream s trace)
    obtain ⟨es, hserves, hes⟩ := c.serves { leftBy before (.ofStream s trace) with log := [] }
    have hsource (k : Nat) : (leftBy before (.ofStream s trace)).source.delivery k =
        s.delivery (ds.length + k) := hds.delivery k
    refine ⟨ds, es, _, getElem?_session before c after _, hds, ?_, hes, fun k hk => ?_⟩
    · rw [(Source.next_delivery _).1, hsource] at hserves
      exact hserves
    · rw [hes.getElem? k hk, hsource]
  · rw [hq.source_pos]
    omega

end BindingPower
