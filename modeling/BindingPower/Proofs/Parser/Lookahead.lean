import BindingPower.Proofs.Parser.Failures
import Mathlib.Data.List.TakeWhile

/-! A parse depends on nothing but what it has pulled, and pulls no more than one token past the one it
decides on. Where it fails says how far it has read: an error at the lookahead, no token further; at a
token that is consumed before it is refused, one further. -/
namespace BindingPower
variable {V α : Type}

/-- Parsers that look the same, and to which the next `n` pulls deliver the same. -/
structure Parser.Abreast (n : Nat) (p q : Parser V) : Prop where
  due : ∀ k < n, p.source.delivery k = q.source.delivery k
  source_pos : p.source.pos = q.source.pos
  token : p.token = q.token
  pos : p.pos = q.pos
  trace : p.trace = q.trace
  log : p.log = q.log

namespace Parser.Abreast
variable {n : Nat} {p q : Parser V}

theorem noted (event : Option Event) (h : p.Abreast n q) :
    (p.note event).Abreast n (q.note event) := by
  cases event with
  | none => exact h
  | some event =>
    exact { h with log := by rw [note, note, emit, emit, h.log] }

theorem announced (d : Option (Dispatch V)) (pos : Int) (h : p.Abreast n q) :
    (p.announce d pos).Abreast n (q.announce d pos) := by
  cases d with
  | none => exact h
  | some d =>
    rw [announce, announce, report, report, h.trace]
    split
    · exact { h with log := by rw [emit, emit, h.log] }
    · exact h

/-- The next pull answers both alike. -/
theorem answer (h : p.Abreast (n + 1) q) : p.source.next.1 = q.source.next.1 := by
  rw [(Source.next_delivery _).1, (Source.next_delivery _).1, h.due 0 (Nat.succ_pos n)]

theorem advance (h : p.Abreast (n + 1) q) :
    p.advance.result = q.advance.result ∧ p.advance.parser.Abreast n q.advance.parser := by
  have hdue : ∀ k < n, p.source.next.2.delivery k = q.source.next.2.delivery k := by
    intro k hk
    rw [(Source.next_delivery _).2, (Source.next_delivery _).2]
    exact h.due (k + 1) (Nat.succ_lt_succ hk)
  have hpos : p.source.next.2.pos = q.source.next.2.pos := by
    rw [Source.pos_next, Source.pos_next, h.source_pos]
  have hanswer := h.answer
  cases hp : p.source.next.1 with
  | ok t =>
    rw [Parser.advance_of_ok hp, Parser.advance_of_ok (hanswer ▸ hp), h.token]
    exact ⟨rfl, hdue, hpos, rfl, by rw [h.source_pos], h.trace, h.log⟩
  | error e =>
    rw [Parser.advance_of_error hp, Parser.advance_of_error (hanswer ▸ hp)]
    exact ⟨rfl, hdue, hpos, h.token, h.pos, h.trace, h.log⟩

end Parser.Abreast

/-- Parsers abreast take the same course, as far as what is due to them is the same. -/
theorem Course.abreast {c : Config V} {p q : Parser V} {acts : List (Act V)} {o : Outcome V V}
    {n : Nat} (h : Course c p acts o) (hpq : p.Abreast ((answers acts).length + n) q) :
    ∃ q', Course c q acts ⟨o.result, q'⟩ ∧ o.parser.Abreast n q' := by
  induction h generalizing q with
  | halt h =>
    rw [hpq.token, hpq.pos] at h
    exact ⟨q, .halt h, by simpa using hpq⟩
  | stay h _ ih =>
    rw [hpq.token, hpq.pos] at h
    obtain ⟨q', hq, habreast⟩ := ih (hpq.noted _)
    exact ⟨q', .stay h hq, habreast⟩
  | @unread c p d c' e h he =>
    rw [hpq.token, hpq.pos] at h
    have hpq : p.Abreast (n + 1) q := Nat.add_comm 1 n ▸ hpq
    obtain ⟨hresult, habreast⟩ := hpq.advance
    refine ⟨_, ?_, habreast⟩
    rw [hpq.answer]
    exact .unread h (hresult ▸ he)
  | @shift c p d c' t acts o h ht _ ih =>
    rw [hpq.token, hpq.pos] at h
    rw [answers_shift, List.length_cons, Nat.succ_add] at hpq
    obtain ⟨hresult, habreast⟩ := hpq.advance
    obtain ⟨q', hq, hleft⟩ := ih (habreast.announced d p.pos)
    refine ⟨q', ?_, hleft⟩
    rw [hpq.answer]
    exact .shift h (hresult ▸ ht) (hpq.pos ▸ hq)

/-! Where it fails -/

/-- The acts end with a digit that has been dispatched and does not join. -/
def EndsRefused (acts : List (Act V)) : Prop := ∃ d, .dispatch d ∈ acts.getLast? ∧ d.Refused

private theorem endsRefused_shift {d : Option (Dispatch V)} (hd : ∀ d' ∈ d, ¬ d'.Refused)
    (answer : Except Failure (Token V)) (acts : List (Act V)) :
    EndsRefused (.pull answer :: (d.toList.map .dispatch ++ acts)) ↔ EndsRefused acts := by
  unfold EndsRefused
  cases acts with
  | cons a acts => simp [List.getLast?_cons, List.getLast?_append]
  | nil =>
    cases d with
    | none => simp
    | some d => simpa using hd d rfl

/-- The handler refuses the token that it was dispatched for, the one before the lookahead, and asks
for nothing before. -/
def Action.Refusal : Action V α → Int → Prop
  | fail e, pos => ∃ t m, e = .parse (.unexpected (pos - 1) t m)
  | look next, pos => ∀ t, Refusal (next t pos) pos
  | emit _ next, pos => Refusal next pos
  | _, _ => False

private theorem Kind.refusal_led {k : Kind V} {v : V} (hk : k.Refuses v) {identity : Identity} {lbp : Int}
    {name : Option String} {led : V → Action V V} (hled : k.led identity lbp name = some led)
    (pos : Int) : (led v).Refusal pos := by
  induction k generalizing identity led with
  | digit value make extend joins =>
    cases hled
    dsimp only
    rw [show joins v = .ok false from hk]
    exact fun t => ⟨_, _, rfl⟩
  | traced label quote inside inner ih =>
    obtain ⟨b, hb, rfl⟩ := Option.map_eq_some_iff.1 hled
    obtain ⟨⟨text, hquote⟩, hinner⟩ := hk
    intro t
    rw [hquote]
    exact ih hinner hb
  | _ => cases hk

/-- A position in relation to the lookahead, for what is refused there. -/
def Failure.StandsAt (pos : Int) : Failure → Prop
  | parse (.missingPrefix p _) | parse (.missingInfix p _) => pos = p + 1
  | parse (.unexpected p _ _) => pos = p
  | parse (.lexical ..) | spent => False
  | fault _ => True

private theorem common_standsAt : Common fun _ => Failure.StandsAt :=
  ⟨fun _ _ _ => trivial, fun _ _ _ => rfl⟩

namespace Course
variable {c : Config V} {p : Parser V} {acts : List (Act V)} {o : Outcome V V} {e : Failure}

theorem refusal {a : Action V V} {fs : List (Frame V)} (h : Course ⟨a, fs⟩ p acts o)
    (ha : a.Refusal p.pos) :
    acts = [] ∧ ∃ t m, o.result = .error (.parse (.unexpected (o.parser.pos - 1) t m)) := by
  induction a generalizing p with
  | fail e =>
    obtain ⟨t, m, rfl⟩ := ha
    cases h with
    | halt h =>
      cases h
      exact ⟨rfl, t, m, rfl⟩
    | stay h | unread h | shift h => cases h
  | look next ih =>
    cases h with
    | stay h rest =>
      cases h
      exact ih _ _ rest (ha _)
    | halt h | unread h | shift h => cases h
  | emit event next ih =>
    cases h with
    | stay h rest =>
      cases h
      exact ih rest ha
    | halt h | unread h | shift h => cases h
  | done | expression | expect | attempt | advance => cases ha

/-- A token that is refused once it is consumed ends the parse. -/
theorem dispatch_refused {c c' : Config V} {token : Option (Token V)} {pos : Int} {d : Dispatch V}
    (hturn : c.turn token pos = .shift (some d) c') (hd : d.Refused) (h : Course c' p acts o) :
    acts = [] ∧ ∃ t m, o.result = .error (.parse (.unexpected (o.parser.pos - 1) t m)) := by
  obtain ⟨v, hv, hk⟩ := hd
  obtain ⟨-, ⟨hnone, -⟩ | ⟨w, led, hw, hled, haction⟩⟩ := Config.turn_dispatch hturn
  · rw [hnone] at hv
    cases hv
  · cases hw.symm.trans hv
    obtain ⟨a, fs⟩ := c'
    cases haction
    exact h.refusal (Kind.refusal_led hk hled p.pos)

/-- As long as no pull fails, the lookahead is the token of the last pull. -/
theorem pos_eq (h : Course c p acts o) (hp : p.pos = p.source.pos)
    (he : ∀ e, o.result = .error e → .error e ∉ answers acts) :
    o.parser.pos = o.parser.source.pos := by
  induction h with
  | halt => exact hp
  | @stay c p event c' acts o h _ ih =>
    obtain ⟨log, hlog⟩ := p.note_eq event
    rw [hlog] at ih
    exact ih hp he
  | unread h hf =>
    rw [Parser.advance_result_error] at hf
    exact absurd (List.mem_singleton.2 hf.symm) (he _ rfl)
  | @shift c p d c' t acts o h ht _ ih =>
    obtain ⟨log, hlog⟩ := p.advance.parser.announce_eq d p.pos
    obtain ⟨u, hu⟩ := Parser.advance_result_ok ht
    rw [answers_shift] at he
    rw [hlog, Parser.advance_of_ok hu] at ih
    refine ih (Source.pos_next _).symm fun e hr hmem => he e hr (List.mem_cons_of_mem _ hmem)

/-- An error of the parser stands at the lookahead, or at the token before it if that has been
consumed. -/
theorem standsAt (h : Course c p acts o)
    (hc : c.Proper (fun _ => Failure.StandsAt) Event.IsEntry p.lookahead p.pos)
    (hp : p.pos = p.source.pos) (hr : o.result = .error e) (he : .error e ∉ answers acts) :
    EndsRefused acts ∧ (∃ t m, e = .parse (.unexpected (o.parser.pos - 1) t m)) ∨
      ¬ EndsRefused acts ∧ e.StandsAt o.parser.pos := by
  induction h with
  | @halt c p r h =>
    have hturn := hc.of_turn common_standsAt h
    exact .inr ⟨(fun ⟨d, hd, _⟩ => nomatch hd), hturn e hr⟩
  | @stay c p event c' acts o h _ ih =>
    have hturn := hc.of_turn common_standsAt h
    obtain ⟨log, hlog⟩ := p.note_eq event
    rw [hlog] at ih
    exact ih hturn.2 hp hr he
  | unread h hf =>
    rw [Parser.advance_result_error] at hf
    cases hr
    exact absurd (List.mem_singleton.2 hf.symm) he
  | @shift c p d c' t acts o h ht hrest ih =>
    have hturn := hc.of_turn common_standsAt h
    by_cases hd : ∃ d' ∈ d, d'.Refused
    · obtain ⟨d', rfl, hd'⟩ := hd
      obtain ⟨rfl, t, m, hfail⟩ := hrest.dispatch_refused h hd'
      rw [hfail] at hr
      cases hr
      exact .inl ⟨⟨d', rfl, hd'⟩, t, m, rfl⟩
    · have hnone : ∀ d' ∈ d, ¬ d'.Refused := fun d' hd' href => hd ⟨d', hd', href⟩
      obtain ⟨log, hlog⟩ := p.advance.parser.announce_eq d p.pos
      obtain ⟨u, hu⟩ := Parser.advance_result_ok ht
      rw [endsRefused_shift hnone]
      rw [answers_shift] at he
      rw [hlog, Parser.advance_of_ok hu] at ih
      have hmissing : p.source.pos + 1 = p.pos + 1 := by rw [hp]
      refine ih (hturn _ _ ⟨hmissing, hmissing⟩ fun d' hd' href => ?_)
        (Source.pos_next _).symm hr fun hmem => he (List.mem_cons_of_mem _ hmem)
      exact absurd href (hnone d' hd')

end Course

/-- Whether the token in error has been consumed: it lacks a handler, or is a digit that has been
dispatched and does not join. -/
def ParseError.Consumed (acts : List (Act V)) : ParseError → Prop
  | missingPrefix .. | missingInfix .. => True
  | unexpected .. => EndsRefused acts
  | lexical .. => False

namespace Stream

/-- The acts of the parse of a stream. -/
def Parses (s : Stream V) (trace strict : Bool) (acts : List (Act V)) : Prop :=
  Course (.whole strict) { Parser.ofStream s trace with started := true } acts (s.parse trace strict)

theorem exists_parses (s : Stream V) (trace strict : Bool) : ∃ acts, s.Parses trace strict acts := by
  obtain ⟨acts, h⟩ := exists_course (.whole strict) { Parser.ofStream s trace with started := true }
  rw [Config.run_whole strict rfl] at h
  exact ⟨acts, h⟩

namespace Parses
variable {s s' : Stream V} {trace strict : Bool} {acts : List (Act V)} {e : Failure}

private theorem length_answers (h : s.Parses trace strict acts) :
    ((answers acts).length : Int) = (s.parse trace strict).parser.source.pos + 1 := by
  have hpos : (s.parse trace strict).parser.source.pos = -1 + (answers acts).length :=
    h.pulls.source_pos
  omega

theorem pos_eq (h : s.Parses trace strict acts)
    (he : ∀ e, (s.parse trace strict).result = .error e → .error e ∉ answers acts) :
    ((answers acts).length : Int) = (s.parse trace strict).parser.pos + 1 := by
  rw [h.length_answers, Course.pos_eq h rfl he]

private theorem mem_answers (h : s.Parses trace strict acts) {k : Nat} (hk : k < (answers acts).length) :
    s.delivery k ∈ answers acts :=
  List.mem_of_getElem? (h.pulls.getElem? k hk)

/-- Streams that deliver the same as far as the parse of one reads are parsed alike. -/
theorem alike (h : s.Parses trace strict acts) {n : Nat} (hn : (answers acts).length ≤ n)
    (hs : ∀ k < n, s.delivery k = s'.delivery k) :
    s'.Parses trace strict acts ∧
      (s'.parse trace strict).result = (s.parse trace strict).result ∧
      (s'.parse trace strict).parser.token = (s.parse trace strict).parser.token ∧
      (s'.parse trace strict).parser.pos = (s.parse trace strict).parser.pos ∧
      (s'.parse trace strict).parser.log = (s.parse trace strict).parser.log := by
  have hstart : Parser.Abreast ((answers acts).length + 0)
      { Parser.ofStream s trace with started := true }
      { Parser.ofStream s' trace with started := true } :=
    ⟨fun k hk => hs k (lt_of_lt_of_le hk hn), rfl, rfl, rfl, rfl, rfl⟩
  obtain ⟨q, hq, hleft⟩ := Course.abreast h hstart
  have hparse : s'.parse trace strict = ⟨(s.parse trace strict).result, q⟩ := by
    rw [← hq.run, Config.run_whole strict rfl]
    rfl
  rw [Parses, hparse]
  exact ⟨hq, rfl, hleft.token.symm, hleft.pos.symm, hleft.log.symm⟩

/-- The parser raises nothing on its own that a stream without failures could not make it raise. -/
theorem isParsing (h : s.Parses trace strict acts) (hs : s.failure = none)
    (he : (s.parse trace strict).result = .error e) : e.IsParsing := by
  rcases Course.isParsing_or_pulled h (proper_whole common_isParsing strict _) he with hown | hpulled
  · exact hown
  · cases hs.symm.trans (Course.failure_of_pulled h hpulled)

end Parses

private theorem delivery_of_lt {ts : List (Token V)} (hts : ∀ t ∈ ts, t.isEnd = false)
    (back : List (Token V)) (failure : Option Failure) {k : Nat} (hk : k < ts.length) :
    (Stream.mk (ts ++ back) failure).delivery k = .ok ts[k] := by
  have hlive : (Stream.mk (ts ++ back) failure).live[k]? = some ts[k] := by
    rw [live, List.takeWhile_append_of_pos fun t ht => by simp [hts t ht],
      List.getElem?_append_left hk, List.getElem?_eq_getElem hk]
  rw [delivery, hlive]

private theorem delivery_length {ts : List (Token V)} (hts : ∀ t ∈ ts, t.isEnd = false) (e : Failure) :
    (Stream.mk ts (some e)).delivery ts.length = .error e := by
  have hlive : (Stream.mk ts (some e)).live = ts :=
    List.takeWhile_eq_self_iff.2 fun t ht => by simp [hts t ht]
  rw [delivery, hlive, List.getElem?_eq_none le_rfl]
  exact if_pos ⟨rfl, rfl⟩

/-- A stream that fails where another goes on is parsed like it, unless the parse meets the failure. -/
theorem parse_curtailed {ts : List (Token V)} (hts : ∀ t ∈ ts, t.isEnd = false)
    (back : List (Token V)) (failure : Option Failure) (e : Failure) (trace strict : Bool) :
    ((Stream.mk ts (some e)).parse trace strict).result = .error e ∨
      ((Stream.mk ts (some e)).parse trace strict).result =
        ((Stream.mk (ts ++ back) failure).parse trace strict).result := by
  obtain ⟨acts, h⟩ := (Stream.mk ts (some e)).exists_parses trace strict
  by_cases hle : (answers acts).length ≤ ts.length
  · refine .inr (h.alike hle fun k hk => ?_).2.1.symm
    have hsame := delivery_of_lt hts [] (some e) hk
    rw [List.append_nil] at hsame
    rw [hsame, delivery_of_lt hts back failure hk]
  · refine .inl (Course.of_failed_pull h ?_)
    have hmet := h.mem_answers (Nat.lt_of_not_le hle)
    rwa [delivery_length hts e] at hmet

end Stream

/-- A parse depends on its pulls alone, with one token of lookahead: whatever delivers the same up to
the last of them is parsed alike. After a value the last pull was that of the lookahead; after an error
of the parser, that of the token in error, or of the next one if that token has been consumed. So the
text that a lexer cannot read is an error of the parse just if the parse would have read as far. -/
theorem parse_depends_on_pulls (s : Stream V) (trace strict : Bool) :
    ∃ acts, s.Parses trace strict acts ∧
      (∀ (s' : Stream V) n, (answers acts).length ≤ n → (∀ k < n, s.delivery k = s'.delivery k) →
        s'.Parses trace strict acts ∧
          (s'.parse trace strict).result = (s.parse trace strict).result ∧
          (s'.parse trace strict).parser.token = (s.parse trace strict).parser.token ∧
          (s'.parse trace strict).parser.pos = (s.parse trace strict).parser.pos ∧
          (s'.parse trace strict).parser.log = (s.parse trace strict).parser.log) ∧
      (∀ v, (s.parse trace strict).result = .ok v →
        ((answers acts).length : Int) = (s.parse trace strict).parser.pos + 1) ∧
      (∀ e, (s.parse trace strict).result = .error (.parse e) →
        .error (.parse e) ∉ answers acts →
          (∀ pos text, e ≠ .lexical pos text) ∧
            (e.Consumed acts → ((answers acts).length : Int) = e.pos + 2) ∧
            (¬ e.Consumed acts → ((answers acts).length : Int) = e.pos + 1)) ∧
      ∀ (s' : Stream V) k pos text, s'.delivery k = .error (.parse (.lexical pos text)) →
        (∀ j < k, s'.delivery j = s.delivery j) → s.failure = none →
          ((s'.parse trace strict).result = .error (.parse (.lexical pos text)) ↔
            k < (answers acts).length) := by
  obtain ⟨acts, h⟩ := s.exists_parses trace strict
  refine ⟨acts, h, fun s' n hn hs => h.alike hn hs, fun v hv => ?_, fun e he hown => ?_,
    fun s' k pos text hk hs hfree => ?_⟩
  · refine h.pos_eq fun e he => ?_
    rw [hv] at he
    cases he
  · have hpos := h.pos_eq fun e' he' => by
      rw [he] at he'
      cases he'
      exact hown
    rcases Course.standsAt h (proper_whole common_standsAt strict _) rfl he hown with
      ⟨hrefused, t, m, heq⟩ | ⟨hnot, hstands⟩
    · cases heq
      refine ⟨(fun _ _ h => nomatch h), fun _ => ?_, fun hcons => absurd hrefused hcons⟩
      rw [ParseError.pos]
      omega
    · cases e with
      | missingPrefix p t | missingInfix p t =>
        have hstands : (s.parse trace strict).parser.pos = p + 1 := hstands
        refine ⟨(fun _ _ h => nomatch h), fun _ => ?_, fun hcons => absurd trivial hcons⟩
        rw [ParseError.pos]
        omega
      | unexpected p t m =>
        have hstands : (s.parse trace strict).parser.pos = p := hstands
        refine ⟨(fun _ _ h => nomatch h), fun hcons => absurd hcons hnot, fun _ => ?_⟩
        rw [ParseError.pos]
        omega
      | lexical p t => cases hstands
  · obtain ⟨acts', h'⟩ := s'.exists_parses trace strict
    constructor
    · intro hlex
      by_contra hle
      have hsame := (h.alike (Nat.not_lt.1 hle) fun j hj => (hs j hj).symm).2.1
      exact (h.isParsing hfree (hsame ▸ hlex)).2 pos text rfl
    · intro hlt
      refine Course.of_failed_pull h' (hk ▸ h'.mem_answers ?_)
      by_contra hle
      obtain ⟨hs', -⟩ := h'.alike (Nat.not_lt.1 hle) hs
      obtain ⟨rfl, -⟩ := Course.unique h hs'
      exact hle hlt

end BindingPower
