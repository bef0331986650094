import BindingPower.Proofs.Session.Commands

/-! Every error of a parser points at its token: at its position in the stream stands the token that it
mentions, or a trace of it. A digit that is refused stands one before the lookahead, and that is so
because a step that dispatches an operator has drawn its lookahead itself. -/
namespace BindingPower
variable {V : Type} {s : Stream V} {trace : Bool} {ds : Answers V} {p : Parser V} {e : Failure}

/-- Points at what the pull of this number has delivered; a parser without a token, before the first. A
digit that does not join is mentioned itself, although it may have been delivered under traces. -/
inductive ParseError.PointsAt (s : Stream V) : ParseError → Prop where
  | unstarted {e : ParseError} (hpos : e.pos = -1) (htoken : e.token = none) : PointsAt s e
  | token {e : ParseError} {k : ℕ} {t : Token V} (hpos : e.pos = k) (hk : s.delivery k = .ok t)
      (htoken : e.token = some t.profile) : PointsAt s e
  | refused {k : ℕ} {t : Token V} {v : V} (hk : s.delivery k = .ok t) (hv : t.kind.Refuses v) :
      PointsAt s (.unexpected k (some t.core) "an operator")

/-- Other failures point nowhere. -/
def Failure.Points (s : Stream V) : Failure → Prop
  | parse e => e.PointsAt s
  | _ => True

/-- A lookahead and its position, as the pulls on the stream leave them. -/
inductive Located (s : Stream V) : Option Profile → Int → Prop where
  | unstarted : Located s none (-1)
  | delivered {k : ℕ} {t : Token V} (hk : s.delivery k = .ok t) : Located s (some t.profile) k

theorem Parser.Follows.located (h : p.Follows s ds) : Located s p.lookahead p.pos := by
  rw [Parser.lookahead]
  cases ht : p.token with
  | none =>
    rw [h.not_started.1 ht]
    exact .unstarted
  | some t =>
    obtain ⟨k, hpos, hk⟩ := h.delivery ht
    rw [hpos]
    exact .delivered hk

/-- Errors that mention the lookahead at its position. -/
theorem Located.points {t : Option Profile} {pos : Int} (h : Located s t pos) (m : String) :
    (Failure.parse (.missingPrefix pos t)).Points s ∧ (Failure.parse (.missingInfix pos t)).Points s ∧
      (Failure.parse (.unexpected pos t m)).Points s := by
  cases h with
  | unstarted => exact ⟨.unstarted rfl rfl, .unstarted rfl rfl, .unstarted rfl rfl⟩
  | delivered hk => exact ⟨.token rfl hk rfl, .token rfl hk rfl, .token rfl hk rfl⟩

/-- What a handler may fail with before a lookahead. -/
def Aims (s : Stream V) (t : Option Profile) (pos : Int) (e : Failure) : Prop :=
  Located s t pos → e.Points s

private theorem common_aims (s : Stream V) : Common (Aims s) :=
  ⟨fun _ _ _ _ => trivial, fun _ _ m h => (h.points m).2.2⟩

namespace Config
variable {c c' : Config V} {token : Option (Token V)} {pos : Int}

/-- Nothing waits for a handler unless a token has been dispatched. -/
theorem stack_of_stay {event : Option Event} (h : c.turn token pos = .stay event c')
    (hc : c.stack = []) : c'.stack = [] := by
  obtain ⟨a, fs⟩ := c
  obtain rfl : fs = [] := hc
  cases a with
  | look | emit =>
    cases h
    rfl
  | expression | expect | attempt =>
    rw [turn] at h
    split at h <;> cases h
    all_goals rfl
  | done | fail | advance => cases h

end Config

/-- An error points at its token, or it is one that a pull has met. What carries the induction is that
the parser has drawn its lookahead last, unless it has drawn nothing in this parse. -/
theorem Course.points {c : Config V} {acts : List (Act V)} {o : Outcome V V}
    (h : Course c p acts o) (hp : Pulls (.ofStream s trace) ds p)
    (hc : c.Proper (Aims s) Event.IsEntry p.lookahead p.pos)
    (hlast : c.stack = [] ∨ p.pos = p.source.pos) (he : o.result = .error e) :
    e.Points s ∨ .error e ∈ answers acts := by
  induction h generalizing ds with
  | @halt c p r h =>
    have hturn := hc.of_turn (common_aims s) h
    exact .inl (hturn e he hp.follows.located)
  | @stay c p event c' acts o h _ ih =>
    have hturn := hc.of_turn (common_aims s) h
    obtain ⟨log, hlog⟩ := p.note_eq event
    have hlast' : c'.stack = [] ∨ p.pos = p.source.pos :=
      hlast.imp_left (Config.stack_of_stay h)
    have hnoted := hp.noted event
    rw [hlog] at ih hnoted
    exact ih hnoted hturn.2 hlast' he
  | unread h hf =>
    rw [Parser.advance_result_error] at hf
    cases he
    exact .inr (List.mem_singleton.2 hf.symm)
  | @shift c p d c' t acts o h ht _ ih =>
    have hturn := hc.of_turn (common_aims s) h
    have hold := hp.follows.located
    obtain ⟨u, hu⟩ := Parser.advance_result_ok ht
    have hnext := hp.advance.announced d p.pos
    obtain ⟨log, hlog⟩ := p.advance.parser.announce_eq d p.pos
    rw [hlog, Parser.advance_of_ok hu] at ih hnext
    rw [answers_shift]
    refine (ih hnext (hturn _ _ ⟨fun _ => (hold.points "").1, fun _ => (hold.points "").2.1⟩ ?_)
      (.inr (Source.pos_next _).symm) he).imp_right (List.mem_cons_of_mem _)
    -- A digit that is refused has been the lookahead before the last pull.
    intro d' hd' hrefused _
    obtain rfl := Option.mem_def.1 hd'
    obtain ⟨v, hv, hk⟩ := hrefused
    have htoken := (Config.turn_dispatch h).1
    have hstack : c.stack ≠ [] := by
      rcases Config.turn_dispatched h with ⟨-, hne, -⟩ | ⟨r, next, hleft, -, -⟩
      · exact hne
      · cases hleft.symm.trans hv
    have hpos : p.pos = p.source.pos := hlast.resolve_left hstack
    obtain ⟨k, hk', hdelivery⟩ := hp.follows.delivery htoken
    have hback : p.source.pos + 1 - 1 = k := by omega
    rw [hback]
    exact .refused hdelivery hk

/-- A pull on a stream can only fail with the failure of the stream. -/
theorem Pulls.failure_of_next (h : Pulls (.ofStream s trace) ds p) (he : p.source.next.1 = .error e) :
    s.failure = some e := by
  rw [(Source.next_delivery _).1, h.delivery] at he
  exact Source.failure_of_delivery (s := (Parser.ofStream s trace).source) he

private theorem Pulls.failure_of_advance (h : Pulls (.ofStream s trace) ds p)
    (he : p.advance.result = .error e) : s.failure = some e :=
  h.failure_of_next (Parser.advance_result_error.1 he)

namespace Parser

/-- The error of a parse in a session. -/
theorem points_of_run {c : Config V} (h : Pulls (.ofStream s trace) ds p) (hc : c.stack = [])
    (hproper : c.Proper (Aims s) Event.IsEntry p.lookahead p.pos) (he : (c.run p).result = .error e) :
    e.Points s ∨ s.failure = some e := by
  obtain ⟨acts, hcourse⟩ := exists_course c p
  refine (hcourse.points h hproper (.inl hc) he).imp_right fun hmem => ?_
  obtain ⟨k, hk, hget⟩ := List.getElem_of_mem hmem
  have hdue := (h.trans hcourse.pulls).follows.delivered (ds.length + k)
    (by rw [List.length_append]; omega)
  rw [List.getElem?_append_right (Nat.le_add_right _ _), Nat.add_sub_cancel_left,
    List.getElem?_eq_getElem hk, hget] at hdue
  exact Source.failure_of_delivery (s := (Parser.ofStream s trace).source)
    (Option.some.inj hdue).symm

private theorem points_of_expect {m : Matcher} (h : Pulls (.ofStream s trace) ds p)
    (he : (p.expect m).result = .error e) : e.Points s ∨ s.failure = some e := by
  unfold expect at he
  split at he
  · cases he
    exact .inl trivial
  · exact .inr (h.failure_of_advance he)
  · cases he
    exact .inl (h.follows.located.points _).2.2

private theorem points_of_attempt {m : Matcher} (h : Pulls (.ofStream s trace) ds p)
    (he : (p.attempt m).result = .error e) : e.Points s ∨ s.failure = some e := by
  unfold attempt at he
  split at he
  · cases he
    exact .inl trivial
  · cases ha : p.advance.result with
    | ok t =>
      rw [Outcome.andThen_ok _ ha] at he
      cases he
    | error e' =>
      rw [Outcome.andThen_error _ ha] at he
      cases he
      exact .inr (h.failure_of_advance ha)
  · cases he

end Parser

namespace Command

private theorem points_of_step (st : Step) (h : Pulls (.ofStream s trace) ds p)
    (he : (st.action.run Parser.expression p).result = .error e) :
    e.Points s ∨ s.failure = some e := by
  cases st with
  | expression r =>
    have hexpr : (p.expression r).result = .error e :=
      Outcome.of_andThen_error (fun _ _ => ⟨_, rfl⟩) he
    rw [← Config.run_alone] at hexpr
    exact Parser.points_of_run h rfl (proper_alone r p.pos) hexpr
  | expect m => exact Parser.points_of_expect h (Outcome.of_andThen_error (fun _ _ => ⟨_, rfl⟩) he)
  | attempt m => exact Parser.points_of_attempt h (Outcome.of_andThen_error (fun _ _ => ⟨_, rfl⟩) he)
  | advance =>
    exact .inr (h.failure_of_advance (Outcome.of_andThen_error (fun _ _ => ⟨_, rfl⟩) he))
  | peek | position => cases he

/-- Whoever fails in a session, the error points at its token or is the failure of the stream. -/
theorem points (c : Command) (h : Pulls (.ofStream s trace) ds p)
    (he : (c.perform p).result = .error e) : e.Points s ∨ s.failure = some e := by
  cases c with
  | step st => exact points_of_step st h (Outcome.of_andThen_error (fun _ _ => ⟨_, rfl⟩) he)
  | run strict =>
    have hrun : (p.run strict).result = .error e :=
      Outcome.of_andThen_error (fun _ _ => ⟨_, rfl⟩) he
    cases hs : p.started with
    | true =>
      rw [Parser.run, if_pos hs] at hrun
      cases hrun
      exact .inl trivial
    | false =>
      rw [← Config.run_whole strict hs] at hrun
      exact Parser.points_of_run (h.note true p.log) rfl (proper_whole (common_aims s) strict p.pos)
        hrun
  | pull =>
    refine .inr (h.failure_of_next ?_)
    rw [perform] at he
    split at he
    · cases he
    · rename_i hnext
      rw [hnext]
      cases he
      rfl
  | fork => cases he

end Command

/-- The commands of a session leave each other what they have pulled. -/
theorem session_points (cs : List Command) (h : Pulls (.ofStream s trace) ds p) :
    ∀ o ∈ session cs p, ∀ e, o.result = .error e → e.Points s ∨ s.failure = some e := by
  induction cs generalizing ds p with
  | nil => exact fun o ho => nomatch ho
  | cons c cs ih =>
    have hquiet : Pulls (.ofStream s trace) ds { p with log := [] } := h.note p.started []
    obtain ⟨es, -, hes⟩ := c.serves { p with log := [] }
    intro o ho e he
    rcases List.mem_cons.1 ho with rfl | hrest
    · exact c.points hquiet he
    · exact ih (hquiet.trans hes) o hrest e he

/-- In any session on a stream, with pulls past the parser, new parsers and failures on the way, an error
other than that of a lexer points at its token. -/
theorem errors_point_at_tokens
    (hs : ∀ e, s.failure = some (.parse e) → ∃ pos text, e = .lexical pos text) (trace : Bool)
    (cs : List Command) :
    ∀ o ∈ session cs (.ofStream s trace), ∀ e, o.result = .error (.parse e) →
      (∀ pos text, e ≠ .lexical pos text) → e.PointsAt s := by
  intro o ho e he hparse
  rcases session_points cs .refl o ho _ he with hpoints | hfailure
  · exact hpoints
  · obtain ⟨pos, text, rfl⟩ := hs e hfailure
    exact absurd rfl (hparse pos text)

/-- A digit that joins to nothing, under a trace and between literals, and then text that is no
token. -/
def strayDigit : Stream ℕ where
  tokens := [⟨.anonymous, 0, some "7", .literal 7⟩, ⟨.anonymous, 0, some "7", .literal 7⟩,
    ⟨.anonymous, 9, some "3", .traced "three" (fun v => .ok (toString v)) .anonymous
      (.digit 3 (fun _ => .ok 3) (fun v d => .ok (10 * v + d.toNat)) fun _ => .ok false)⟩,
    ⟨.anonymous, 0, some "7", .literal 7⟩]
  failure := some (.parse (.lexical 4 "?"))

/-- The first literal is drawn past the parser, and a new parser refuses the digit after the second. The
error points at the digit, although the run has drawn the token behind it. -/
theorem errors_point_at_stray_digit :
    (∀ e, strayDigit.failure = some (.parse e) → ∃ pos text, e = .lexical pos text) ∧
      ∃ o ∈ session [.pull, .fork, .run false] (.ofStream strayDigit true),
        ∃ e, o.result = .error (.parse e) ∧ (∀ pos text, e ≠ .lexical pos text) ∧ e.pos = 2 ∧
          e.PointsAt strayDigit := by
  have hs : ∀ e, strayDigit.failure = some (.parse e) → ∃ pos text, e = .lexical pos text := by
    rintro e ⟨⟩
    exact ⟨4, "?", rfl⟩
  have hparse : ∀ pos text,
      ParseError.unexpected 2 (some ⟨.anonymous, .digit, 9, some "3", false, none⟩) "an operator" ≠
        .lexical pos text := nofun
  have hlast (a b c : Outcome ℕ (Option (Item ℕ))) : c ∈ [a, b, c] := .tail _ (.tail _ (.head _))
  refine ⟨hs, _, hlast .., _, rfl, hparse, rfl, ?_⟩
  exact errors_point_at_tokens hs true [.pull, .fork, .run false] _ (hlast ..) _ rfl hparse

end BindingPower
