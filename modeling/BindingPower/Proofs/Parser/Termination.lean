import BindingPower.Proofs.Parser.Failures

/-! Every parse ends, whatever the handlers ask for, and dispatches no more often than the source
delivers tokens: each dispatch uses up a token that has a handler, and so is not the end mark. -/
namespace BindingPower
variable {V : Type}

namespace Act

def isDispatch : Act V → Bool
  | dispatch _ => true
  | pull _ => false

/-- A pull that delivers a token other than the end mark. -/
def delivers : Act V → Bool
  | pull (.ok t) => !t.isEnd
  | _ => false

end Act

def dispatched (acts : List (Act V)) : Nat := acts.countP Act.isDispatch

def delivered (acts : List (Act V)) : Nat := acts.countP Act.delivers

private theorem dispatched_shift (answer : Except Failure (Token V)) (d : Option (Dispatch V))
    (acts : List (Act V)) :
    dispatched (.pull answer :: (d.toList.map .dispatch ++ acts)) =
      (if d.isSome then 1 else 0) + dispatched acts := by
  cases d with
  | none => simp [dispatched, Act.isDispatch]
  | some d => simp [dispatched, Act.isDispatch, List.countP_cons, Nat.add_comm]

private theorem delivered_shift (answer : Except Failure (Token V)) (d : Option (Dispatch V))
    (acts : List (Act V)) :
    delivered (.pull answer :: (d.toList.map .dispatch ++ acts)) =
      delivered [.pull answer] + delivered acts := by
  cases d with
  | none => simp [delivered, List.countP_cons, Nat.add_comm]
  | some d => simp [delivered, List.countP_cons, Act.delivers, Nat.add_comm]

/-- A pull delivers the end mark or a token that does not end the input. -/
theorem Source.next_ok {s : Source V} {t : Token V} (h : s.next.1 = .ok t) :
    t = .sentinel ∨ t.isEnd = false := by
  obtain ⟨rest, failure, pos, exhausted⟩ := s
  cases exhausted with
  | true => exact .inl (Except.ok.inj h).symm
  | false =>
    cases rest with
    | nil =>
      cases failure with
      | none => exact .inl (Except.ok.inj h).symm
      | some e => cases h
    | cons u us =>
      cases hend : u.isEnd with
      | true =>
        simp only [next, hend, Bool.false_eq_true, if_true, if_false] at h
        exact .inl (Except.ok.inj h).symm
      | false =>
        simp only [next, hend, Bool.false_eq_true, if_false] at h
        exact .inr (Except.ok.inj h ▸ hend)

namespace Parser

/-- One if the lookahead can be dispatched. -/
def ahead (p : Parser V) : Nat := if p.token.any Token.acts then 1 else 0

private theorem ahead_note (event : Option Event) (p : Parser V) : (p.note event).ahead = p.ahead := by
  obtain ⟨log, h⟩ := p.note_eq event
  rw [h]
  rfl

private theorem ahead_announce (d : Option (Dispatch V)) (pos : Int) (p : Parser V) :
    (p.announce d pos).ahead = p.ahead := by
  obtain ⟨log, h⟩ := p.announce_eq d pos
  rw [h]
  rfl

/-- A lookahead that can be dispatched is a token that has been delivered. -/
theorem ahead_advance_le {p : Parser V} {t : Option (Token V)} (h : p.advance.result = .ok t) :
    p.advance.parser.ahead ≤ delivered [.pull p.source.next.1] := by
  obtain ⟨u, hu⟩ := advance_result_ok h
  rw [advance_of_ok hu, hu]
  rcases Source.next_ok hu with rfl | hend
  · simp [ahead]
  · simp only [ahead, delivered, List.countP_singleton, Act.delivers, hend, Bool.not_false, if_true]
    split <;> omega

end Parser

namespace Course
variable {c : Config V} {p : Parser V} {acts : List (Act V)} {o : Outcome V V}

/-- Each dispatch is paid for by the delivery of its token, or by the lookahead of the start. -/
theorem dispatched_le (h : Course c p acts o) :
    dispatched acts + o.parser.ahead ≤ delivered acts + p.ahead := by
  induction h with
  | halt => simp [dispatched, delivered]
  | stay h _ ih =>
    rw [Parser.ahead_note] at ih
    exact ih
  | @unread c p d c' e h he =>
    have hsame : p.advance.parser.ahead = p.ahead := by
      unfold Parser.ahead
      rw [(Parser.advance_failed he).1]
    simp [dispatched, Act.isDispatch, hsame]
  | @shift c p d c' t acts o h ht _ ih =>
    have hle := Parser.ahead_advance_le ht
    rw [Parser.ahead_announce] at ih
    rw [dispatched_shift, delivered_shift]
    cases d with
    | none =>
      simp only [Option.isSome_none, Bool.false_eq_true, if_false]
      omega
    | some d =>
      have hone : p.ahead = 1 := by
        simp [Parser.ahead, (Config.turn_dispatch h).1, Config.acts_of_turn h]
      simp only [Option.isSome_some, if_true]
      omega

/-- A run starts without its lookahead, so that all it dispatches has been delivered to it. -/
theorem dispatched_whole_le {strict : Bool} (h : Course (.whole strict) p acts o) :
    dispatched acts ≤ delivered acts := by
  cases h with
  | halt h | stay h => cases h
  | unread h he => simp [dispatched, Act.isDispatch]
  | shift h ht rest =>
    cases h
    have hle := Parser.ahead_advance_le ht
    have hrest := rest.dispatched_le
    rw [Parser.ahead_announce] at hrest
    rw [dispatched_shift, delivered_shift]
    simp only [Option.isSome_none, Bool.false_eq_true, if_false]
    omega

end Course

/-! What a parser reports -/

namespace Parser

/-- How many dispatches have been reported. -/
def reported (p : Parser V) : Nat := p.log.countP Event.isDispatch

private theorem reported_note {event : Option Event} (h : ∀ e ∈ event, e.isDispatch = false) (p : Parser V) :
    (p.note event).reported = p.reported := by
  cases event with
  | none => rfl
  | some e => simp [note, emit, reported, h e rfl]

private theorem reported_announce (d : Option (Dispatch V)) (pos : Int) (p : Parser V) :
    (p.announce d pos).reported =
      p.reported + if p.trace then (if d.isSome then 1 else 0) else 0 := by
  cases d with
  | none => simp [announce]
  | some d =>
    rw [announce, report]
    cases p.trace with
    | true => simp [emit, reported, Event.isDispatch]
    | false => simp

end Parser

private theorem Course.reported {c : Config V} {p : Parser V} {acts : List (Act V)} {o : Outcome V V}
    (h : Course c p acts o) (hc : c.Proper (fun _ _ _ => True) Event.IsEntry p.lookahead p.pos) :
    o.parser.reported = p.reported + if p.trace then dispatched acts else 0 := by
  induction h with
  | halt => simp [dispatched]
  | @stay c p event c' acts o h _ ih =>
    have hturn := hc.of_turn common_any h
    rw [ih (p.lookahead_note event ▸ p.pos_note event ▸ hturn.2), Parser.reported_note hturn.1,
      Parser.trace_note]
  | @unread c p d c' e h he =>
    rw [Parser.reported, Parser.log_advance]
    simp [Parser.reported, dispatched, Act.isDispatch]
  | @shift c p d c' t acts o h ht _ ih =>
    have hturn := hc.of_turn common_any h
    rw [ih (hturn _ _ ⟨trivial, trivial⟩ fun _ _ _ => trivial),
      Parser.reported_announce, Parser.trace_announce, Parser.trace_advance, dispatched_shift,
      Parser.reported, Parser.log_advance]
    cases p.trace with
    | true => simp only [if_true, Parser.reported, Nat.add_assoc]
    | false => rfl

/-- The only bound that a parse can run into is one that its stream reports. -/
theorem Course.spent {c : Config V} {p : Parser V} {acts : List (Act V)} {o : Outcome V V}
    (h : Course c p acts o)
    (hc : c.Proper (fun _ _ => Failure.IsParsing) Event.IsEntry p.lookahead p.pos)
    (he : o.result = .error .spent) : p.source.failure = some .spent := by
  rcases h.isParsing_or_pulled hc he with hparsing | hpulled
  · exact absurd rfl hparsing.1
  · exact h.failure_of_pulled hpulled

/-- The parse of a configuration ends after these acts, and in no other way. Its result is a value or an
error, and a parser that traces has reported each dispatch. -/
structure Config.Ends (c : Config V) (p : Parser V) (acts : List (Act V)) (o : Outcome V V) :
    Prop where
  course : Course c p acts o
  unique : ∀ acts' o', Course c p acts' o' → acts' = acts ∧ o' = o
  not_spent : o.result = .error .spent → p.source.failure = some .spent
  reported : p.trace = true → o.parser.reported = p.reported + dispatched acts

private theorem Config.exists_ends {c : Config V} {p : Parser V}
    (hc : ∀ {F : Option Profile → Int → Failure → Prop}, Common F →
      c.Proper F Event.IsEntry p.lookahead p.pos) :
    ∃ acts, c.Ends p acts (c.run p) := by
  obtain ⟨acts, h⟩ := exists_course c p
  refine ⟨acts, h, fun acts' o' h' => h'.unique h, h.spent (hc common_isParsing), fun ht => ?_⟩
  rw [h.reported (hc common_any), if_pos ht]

/-- Every expression, down to any power, and every run ends. An expression dispatches no more tokens
than the source delivers meanwhile, but perhaps one more if its lookahead is there from the start, and a
run no more than the source delivers. -/
theorem every_parse_ends :
    (∀ (p : Parser V) (r : Int), ∃ acts, (Config.alone r).Ends p acts (p.expression r) ∧
        dispatched acts ≤ delivered acts + p.ahead) ∧
      ∀ (p : Parser V) (strict : Bool),
        (p.started = true → p.run strict = ⟨.error (.fault .alreadyRun), p⟩) ∧
          (p.started = false →
            ∃ acts, (Config.whole strict).Ends { p with started := true } acts (p.run strict) ∧
              dispatched acts ≤ delivered acts) := by
  refine ⟨fun p r => ?_, fun p strict => ⟨fun h => ?_, fun h => ?_⟩⟩
  · obtain ⟨acts, hends⟩ := Config.exists_ends (c := .alone r) (p := p) fun _ => proper_alone r p.pos
    rw [Config.run_alone] at hends
    exact ⟨acts, hends, by have := hends.course.dispatched_le; omega⟩
  · rw [Parser.run, if_pos h]
  · obtain ⟨acts, hends⟩ := Config.exists_ends (c := .whole strict)
      (p := { p with started := true }) fun hF => proper_whole hF strict p.pos
    rw [Config.run_whole strict h] at hends
    exact ⟨acts, hends, hends.course.dispatched_whole_le⟩

/-- Below zero the end mark is taken for an operator, which ends the expression with an error. -/
example :
    ((Parser.ofStream ⟨[⟨.anonymous, 0, none, .literal 7⟩], none⟩ false).advance.parser.expression
        (-1)).result =
      .error (.parse (.missingInfix 1 (some (Token.sentinel (V := Nat)).profile))) := rfl

end BindingPower
