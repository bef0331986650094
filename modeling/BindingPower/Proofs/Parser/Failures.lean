import BindingPower.Proofs.Parser.Course
import BindingPower.Proofs.Session.History

/-! Where the failures of a parse come from. What a handler refuses on its own is a fault of a function
or the lookahead, but for a digit, which refuses itself once it is consumed; any other failure is one
that a pull has met. -/
namespace BindingPower
variable {V α β : Type} {F : Option Profile → Int → Failure → Prop} {R : Event → Prop}
  {t : Option Profile} {pos : Int}

/-- Whether a report is of a dispatch, as opposed to the entry of a traced token. -/
def Event.isDispatch : Event → Bool
  | dispatch .. => true
  | entered .. => false

def Event.IsEntry (e : Event) : Prop := e.isDispatch = false

/-- On its own the handler fails only in these ways, by the lookahead and its position where it does,
and reports only such events. -/
def Action.Proper (F : Option Profile → Int → Failure → Prop) (R : Event → Prop) :
    Action V α → Option Profile → Int → Prop
  | done _, _, _ => True
  | fail e, t, pos => F t pos e
  | expression _ next, _, _ => ∀ v t pos, Proper F R (next v) t pos
  | expect _ next, _, _ | advance next, _, _ => ∀ u t pos, Proper F R (next u) t pos
  | attempt _ next, _, _ => ∀ b t pos, Proper F R (next b) t pos
  | look next, t, pos => Proper F R (next t pos) t pos
  | emit event next, t, pos => R event ∧ Proper F R next t pos

/-- Failures that any handler may run into. -/
structure Common (F : Option Profile → Int → Failure → Prop) : Prop where
  fault : ∀ t pos f, F t pos (.fault f)
  unexpected : ∀ t pos m, F t pos (.parse (.unexpected pos t m))

theorem common_any : Common fun _ _ _ => True := ⟨fun _ _ _ => trivial, fun _ _ _ => trivial⟩

/-- A digit that does not join to the operand, perhaps under a trace that quotes it first. -/
def Kind.Refuses : Kind V → V → Prop
  | digit _ _ _ joins, v => joins v = .ok false
  | traced _ quote _ inner, v => (∃ text, quote v = .ok text) ∧ inner.Refuses v
  | _, _ => False

/-- What is seen of the token under all traces. -/
def Kind.core (identity : Identity) (lbp : Int) (name : Option String) : Kind V → Profile
  | traced _ _ inside inner => inner.core inside lbp name
  | k => k.profile identity lbp name

def Token.core (t : Token V) : Profile := t.kind.core t.identity t.lbp t.name

/-- A digit that is handed an operand it does not join to. -/
def Dispatch.Refused (d : Dispatch V) : Prop := ∃ v ∈ d.left, d.token.kind.Refuses v

namespace Action.Proper

theorem bind {a : Action V α} {f : α → Action V β} (ha : a.Proper F R t pos)
    (hf : ∀ x t pos, (f x).Proper F R t pos) : (a.bind f).Proper F R t pos := by
  induction a generalizing t pos with
  | done x => exact hf x t pos
  | fail e => exact ha
  | expression r next ih => exact fun v t pos => ih v (ha v t pos)
  | expect m next ih => exact fun u t pos => ih u (ha u t pos)
  | attempt m next ih => exact fun b t pos => ih b (ha b t pos)
  | advance next ih => exact fun u t pos => ih u (ha u t pos)
  | look next ih => exact ih t pos ha
  | emit event next ih => exact ⟨ha.1, ih ha.2⟩

theorem finish (h : Common F) (r : Except Fault α) :
    (Action.finish r : Action V α).Proper F R t pos := by
  cases r with
  | ok x => trivial
  | error f => exact h.fault t pos f

/-- Steps of a script fail only where the parser does. -/
theorem collect (steps : List Step) : (Step.collect steps : Action V _).Proper F R t pos := by
  induction steps generalizing t pos with
  | nil => trivial
  | cons step rest ih =>
    have hstep : (step.action : Action V _).Proper F R t pos := by
      cases step with
      | expression r => exact fun v t pos => trivial
      | expect m => exact fun u t pos => trivial
      | attempt m => exact fun b t pos => trivial
      | advance => exact fun u t pos => trivial
      | peek => trivial
      | position => trivial
    exact hstep.bind fun item t pos => ih.bind fun items t pos => trivial

theorem runScript (build : Option V → List (Item V) → V) (left : Option V) (steps : List Step) :
    (Kind.runScript build left steps).Proper F R t pos :=
  (collect steps).bind fun _ _ _ => trivial

end Action.Proper

namespace Kind

def Untraced : Kind V → Prop
  | traced .. => False
  | _ => True

private theorem proper_combine (h : Common F) {lbp : Int} {name : Option String} {assoc : Assoc}
    {fn : V → V → Except Fault V} (left right : V) :
    (combine lbp name assoc fn left right).Proper F R t pos := by
  unfold combine
  split
  · show Action.Proper F R (if chains lbp t then _ else _) t pos
    split
    · exact h.unexpected t pos _
    · exact .finish h _
  · exact .finish h _

/-- Only traces report anything. -/
theorem proper_nud_of_untraced (h : Common F) {k : Kind V} (hk : k.Untraced) (t : Option Profile)
    (pos : Int) : ∀ a ∈ k.nud, a.Proper F R t pos := by
  cases k with
  | scripted nud led build =>
    intro a ha
    obtain ⟨steps, -, rfl⟩ := Option.map_eq_some_iff.1 ha
    exact .runScript build none steps
  | duck named isEnd nud led build =>
    intro a ha
    obtain ⟨steps, -, rfl⟩ := Option.map_eq_some_iff.1 ha
    exact .runScript build none steps
  | literal value =>
    rintro a ⟨⟩
    trivial
  | digit value make extend joins =>
    rintro a ⟨⟩
    exact .finish h _
  | prefixOp rbp fn =>
    rintro a ⟨⟩
    exact fun v t pos => .finish h _
  | bifix assoc infixFn prefixRbp prefixFn =>
    rintro a ⟨⟩
    exact fun v t pos => .finish h _
  | group close wrap =>
    rintro a ⟨⟩ v t pos u t pos
    cases wrap with
    | none => trivial
    | some wrap => exact .finish h _
  | conditional thenMark elseMark endMark fn =>
    rintro a ⟨⟩ c t pos u t pos v t pos b t pos
    cases b with
    | true => exact fun w t pos u t pos => .finish h _
    | false => exact fun u t pos => .finish h _
  | traced => exact hk.elim
  | endToken | infixOp | postfixOp | keyword | ternary => exact fun a ha => nomatch ha

theorem proper_led_of_untraced (h : Common F) {k : Kind V} (hk : k.Untraced) {identity : Identity}
    {lbp : Int} {name : Option String} {v : V}
    (hr : k.Refuses v →
      F t pos (.parse (.unexpected (pos - 1) (some (k.core identity lbp name)) "an operator"))) :
    ∀ led ∈ k.led identity lbp name, (led v).Proper F R t pos := by
  cases k with
  | scripted nud led build =>
    intro a ha
    obtain ⟨steps, -, rfl⟩ := Option.map_eq_some_iff.1 ha
    exact .runScript build (some v) steps
  | duck named isEnd nud led build =>
    intro a ha
    obtain ⟨steps, -, rfl⟩ := Option.map_eq_some_iff.1 ha
    exact .runScript build (some v) steps
  | digit value make extend joins =>
    rintro a ⟨⟩
    dsimp only
    split
    · exact h.fault t pos _
    · exact .finish h _
    · rename_i hj
      exact hr hj
  | infixOp assoc fn =>
    rintro a ⟨⟩ w t pos
    exact proper_combine h v w
  | bifix assoc fn rbp prefixFn =>
    rintro a ⟨⟩ w t pos
    exact proper_combine h v w
  | postfixOp fn =>
    rintro a ⟨⟩
    exact .finish h _
  | ternary separator fn =>
    rintro a ⟨⟩ y t pos u t pos n t pos
    exact .finish h _
  | traced => exact hk.elim
  | endToken | literal | prefixOp | group | keyword | conditional => exact fun a ha => nomatch ha

section
variable (hR : ∀ label role pos left, R (.entered label role pos left))
include hR

private theorem proper_nud (h : Common F) (k : Kind V) (t : Option Profile) (pos : Int) :
    ∀ a ∈ k.nud, a.Proper F R t pos := by
  induction k with
  | traced label quote identity inner ih =>
    intro a ha
    obtain ⟨b, hb, rfl⟩ := Option.map_eq_some_iff.1 ha
    exact ⟨hR .., ih b hb⟩
  | _ => exact proper_nud_of_untraced h (by trivial) t pos

private theorem proper_led (h : Common F) (k : Kind V) {identity : Identity} {lbp : Int}
    {name : Option String} {v : V} {t : Option Profile} {pos : Int}
    (hk : k.Refuses v →
      F t pos (.parse (.unexpected (pos - 1) (some (k.core identity lbp name)) "an operator"))) :
    ∀ led ∈ k.led identity lbp name, (led v).Proper F R t pos := by
  induction k generalizing identity with
  | traced label quote inside inner ih =>
    intro a ha
    obtain ⟨b, hb, rfl⟩ := Option.map_eq_some_iff.1 ha
    dsimp only [Action.Proper]
    split
    · exact h.fault t pos _
    · rename_i text hquote
      exact ⟨hR .., ih (fun hinner => hk ⟨⟨text, hquote⟩, hinner⟩) b hb⟩
  | _ => exact proper_led_of_untraced h (by trivial) hk

end

end Kind

/-- The same of a handler under way and of those that wait for it. -/
structure Config.Proper (F : Option Profile → Int → Failure → Prop) (R : Event → Prop) (c : Config V)
    (t : Option Profile) (pos : Int) : Prop where
  action : c.action.Proper F R t pos
  stack : ∀ f ∈ c.stack, ∀ v t pos, (f.next v).Proper F R t pos

/-- The same of a turn and of what it leaves, before another lookahead if the turn consumes this. -/
def Turn.Proper (F : Option Profile → Int → Failure → Prop) (R : Event → Prop) (t : Option Profile)
    (pos : Int) : Turn V → Prop
  | halt r => ∀ e, r = .error e → F t pos e
  | stay event c => (∀ e ∈ event, R e) ∧ c.Proper F R t pos
  | shift d c => ∀ t' pos',
      F t' pos' (.parse (.missingPrefix pos t)) ∧ F t' pos' (.parse (.missingInfix pos t)) →
      (∀ d' ∈ d, d'.Refused →
        F t' pos' (.parse (.unexpected (pos' - 1) (some d'.token.core) "an operator"))) →
      c.Proper F R t' pos'

namespace Config.Proper
variable {c : Config V} {token : Option (Token V)}

private theorem done (h : Common F) {v : V} {fs : List (Frame V)}
    (hR : ∀ d c', (⟨.done v, fs⟩ : Config V).turn token pos = .shift (some d) c' →
      ∀ label role pos left, R (.entered label role pos left))
    (hfs : ∀ f ∈ fs, ∀ v t pos, (f.next v).Proper F R t pos) :
    ((⟨.done v, fs⟩ : Config V).turn token pos).Proper F R (token.map (·.profile)) pos := by
  cases fs with
  | nil =>
    intro e he
    cases he
  | cons f fs =>
    obtain ⟨hf, hrest⟩ := List.forall_mem_cons.1 hfs
    rw [Config.turn] at hR ⊢
    split
    · rename_i hlt
      rw [if_pos hlt] at hR
      cases hled : token.bind fun t => t.led.map (t, ·) with
      | none => exact fun t' pos' hmissing _ => ⟨hmissing.2, hrest⟩
      | some handler =>
        obtain ⟨u, led⟩ := handler
        rw [hled] at hR
        intro t' pos' _ hrefused
        refine ⟨u.kind.proper_led (hR _ _ rfl) h (fun hk => ?_) led (Parser.of_handler hled).2, hfs⟩
        exact hrefused ⟨u, some v⟩ rfl ⟨v, rfl, hk⟩
    · refine ⟨fun e he => ?_, hf v _ pos, hrest⟩
      cases he

private theorem expression (h : Common F) {r : Int} {next : V → Action V V} {fs : List (Frame V)}
    (hR : ∀ d c', (⟨.expression r next, fs⟩ : Config V).turn token pos = .shift (some d) c' →
      ∀ label role pos left, R (.entered label role pos left))
    (hnext : ∀ v t pos, (next v).Proper F R t pos)
    (hfs : ∀ f ∈ fs, ∀ v t pos, (f.next v).Proper F R t pos) :
    ((⟨.expression r next, fs⟩ : Config V).turn token pos).Proper F R (token.map (·.profile)) pos := by
  rw [Config.turn] at hR ⊢
  cases hnud : token.bind fun t => t.nud.map (t, ·) with
  | none => exact fun t' pos' hmissing _ => ⟨hmissing.1, hfs⟩
  | some handler =>
    obtain ⟨u, nud⟩ := handler
    rw [hnud] at hR
    intro t' pos' _ _
    refine ⟨u.kind.proper_nud (hR _ _ rfl) h t' pos' nud (Parser.of_handler hnud).2, ?_⟩
    exact List.forall_mem_cons.2 ⟨hnext, hfs⟩

/-- What may be reported includes the entries of traced tokens where one may be dispatched. -/
theorem turn (h : Common F)
    (hR : ∀ d c', c.turn token pos = .shift (some d) c' →
      ∀ label role pos left, R (.entered label role pos left))
    (hc : c.Proper F R (token.map (·.profile)) pos) :
    (c.turn token pos).Proper F R (token.map (·.profile)) pos := by
  obtain ⟨a, fs⟩ := c
  obtain ⟨ha, hfs⟩ := hc
  cases a with
  | done v => exact done h hR hfs
  | fail e =>
    intro e' he
    cases he
    exact ha
  | expression r next => exact expression h hR ha hfs
  | expect m next =>
    rw [Config.turn]
    cases m.accepts (token.map (·.profile)) with
    | error f =>
      intro e he
      cases he
      exact h.fault _ pos f
    | ok met =>
      cases met with
      | true => exact fun t' pos' _ _ => ⟨ha _ t' pos', hfs⟩
      | false =>
        intro e he
        cases he
        exact h.unexpected _ pos _
  | attempt m next =>
    rw [Config.turn]
    cases m.accepts (token.map (·.profile)) with
    | error f =>
      intro e he
      cases he
      exact h.fault _ pos f
    | ok met =>
      cases met with
      | true => exact fun t' pos' _ _ => ⟨ha true t' pos', hfs⟩
      | false =>
        refine ⟨fun e he => ?_, ha false _ pos, hfs⟩
        cases he
  | advance next => exact fun t' pos' _ _ => ⟨ha _ t' pos', hfs⟩
  | look next =>
    refine ⟨fun e he => ?_, ha, hfs⟩
    cases he
  | emit event a =>
    refine ⟨fun e he => ?_, ha.2, hfs⟩
    cases he
    exact ha.1

/-- A parse reports nothing on its own but the entries of traced tokens. -/
theorem of_turn (h : Common F)
    (hc : c.Proper F Event.IsEntry (token.map (·.profile)) pos) {r : Turn V}
    (hr : c.turn token pos = r) : r.Proper F Event.IsEntry (token.map (·.profile)) pos :=
  hr ▸ hc.turn h fun _ _ _ _ _ _ _ => rfl

end Config.Proper

theorem proper_alone (r : Int) (pos : Int) : (Config.alone r : Config V).Proper F R t pos :=
  ⟨fun _ _ _ => trivial, fun _ hf => nomatch hf⟩

theorem proper_whole (h : Common F) (strict : Bool) (pos : Int) :
    (Config.whole strict : Config V).Proper F R t pos := by
  refine ⟨fun u t pos v t pos => ?_, fun _ hf => nomatch hf⟩
  cases strict with
  | false => trivial
  | true =>
    show Action.Proper F R (if t.any _ then _ else _) t pos
    split
    · trivial
    · exact h.unexpected t pos _

/-! Pulls -/

def Act.answer? : Act V → Option (Except Failure (Token V))
  | pull answer => some answer
  | dispatch _ => none

/-- The answers of the pulls in a course. -/
def answers (acts : List (Act V)) : Answers V := acts.filterMap Act.answer?

@[simp] theorem answers_nil : answers ([] : List (Act V)) = [] := rfl

@[simp] theorem answers_shift (answer : Except Failure (Token V)) (d : Option (Dispatch V))
    (acts : List (Act V)) :
    answers (.pull answer :: (d.toList.map .dispatch ++ acts)) = answer :: answers acts := by
  cases d <;> rfl

theorem Parser.advance_result_error {p : Parser V} {e : Failure} :
    p.advance.result = .error e ↔ p.source.next.1 = .error e := by
  cases h : p.source.next.1 with
  | ok t => simp [advance_of_ok h]
  | error e' => simp [advance_of_error h]

theorem Parser.advance_result_ok {p : Parser V} {t : Option (Token V)}
    (h : p.advance.result = .ok t) : ∃ u, p.source.next.1 = .ok u := by
  cases hn : p.source.next.1 with
  | ok u => exact ⟨u, rfl⟩
  | error e => rw [Parser.advance_result_error.2 hn] at h; cases h

/-- A parser that has drawn its lookahead itself, and last, goes on so. -/
theorem Parser.pos_advance {p : Parser V} {t : Option (Token V)} (h : p.advance.result = .ok t)
    (hpos : p.pos = p.source.pos) :
    p.advance.parser.pos = p.pos + 1 ∧ p.advance.parser.source.pos = p.pos + 1 := by
  obtain ⟨u, hu⟩ := Parser.advance_result_ok h
  rw [Parser.advance_of_ok hu, hpos]
  exact ⟨rfl, Source.pos_next _⟩

namespace Pulls
variable {p q : Parser V} {ds : Answers V}

theorem noted (event : Option Event) (h : Pulls p ds q) : Pulls p ds (q.note event) := by
  obtain ⟨log, hlog⟩ := q.note_eq event
  rw [hlog]
  exact h.note q.started log

theorem announced (d : Option (Dispatch V)) (pos : Int) (h : Pulls p ds q) :
    Pulls p ds (q.announce d pos) := by
  obtain ⟨log, hlog⟩ := q.announce_eq d pos
  rw [hlog]
  exact h.note q.started log

end Pulls

theorem Source.failure_of_delivery {s : Source V} {k : Nat} {e : Failure}
    (h : s.delivery k = .error e) : s.failure = some e := by
  unfold delivery Stream.delivery Stream.ending at h
  repeat' split at h
  all_goals cases h
  assumption

namespace Course
variable {c : Config V} {p : Parser V} {acts : List (Act V)} {o : Outcome V V} {e : Failure}

theorem pulls (h : Course c p acts o) : Pulls p (answers acts) o.parser := by
  induction h with
  | halt => exact .refl
  | stay h _ ih => exact (Pulls.refl.noted _).trans ih
  | unread h he => exact Pulls.refl.advance
  | @shift c p d c' t acts o h ht _ ih =>
    rw [answers_shift]
    exact (Pulls.refl.advance.announced d p.pos).trans ih

/-- A pull that fails decides the parse. -/
theorem of_failed_pull (h : Course c p acts o) (he : .error e ∈ answers acts) :
    o.result = .error e := by
  induction h with
  | halt => cases he
  | stay _ _ ih => exact ih he
  | unread h hf =>
    rw [Parser.advance_result_error] at hf
    cases List.mem_singleton.1 he ▸ hf
    rfl
  | shift h ht _ ih =>
    obtain ⟨u, hu⟩ := Parser.advance_result_ok ht
    rw [answers_shift, hu] at he
    exact ih ((List.mem_cons.1 he).resolve_left (fun h => nomatch h))

/-- A pull can only fail with the failure of the source. -/
theorem failure_of_pulled (h : Course c p acts o) (he : .error e ∈ answers acts) :
    p.source.failure = some e := by
  obtain ⟨k, hk, hget⟩ := List.getElem_of_mem he
  have hdue := h.pulls.getElem? k hk
  rw [List.getElem?_eq_getElem hk, hget] at hdue
  exact Source.failure_of_delivery (Option.some.inj hdue).symm

end Course

/-- What a parser may find wrong with the tokens it gets, or a function with its operands. -/
def Failure.IsParsing (e : Failure) : Prop :=
  e ≠ .spent ∧ ∀ pos text, e ≠ .parse (.lexical pos text)

private theorem isParsing_fault (f : Fault) : (Failure.fault f).IsParsing :=
  ⟨(fun h => nomatch h), fun _ _ h => nomatch h⟩

private theorem isParsing_unexpected (pos : Int) (t : Option Profile) (m : String) :
    (Failure.parse (.unexpected pos t m)).IsParsing :=
  ⟨(fun h => nomatch h), fun _ _ h => nomatch h⟩

private theorem isParsing_missing (pos : Int) (t : Option Profile) :
    (Failure.parse (.missingPrefix pos t)).IsParsing ∧
      (Failure.parse (.missingInfix pos t)).IsParsing :=
  ⟨⟨(fun h => nomatch h), fun _ _ h => nomatch h⟩, ⟨(fun h => nomatch h), fun _ _ h => nomatch h⟩⟩

theorem common_isParsing : Common fun _ _ => Failure.IsParsing :=
  ⟨fun _ _ => isParsing_fault, fun t pos m => isParsing_unexpected pos t m⟩

/-- Any other failure is one that a pull has met. -/
theorem Course.isParsing_or_pulled {c : Config V} {p : Parser V} {acts : List (Act V)}
    {o : Outcome V V} {e : Failure} (h : Course c p acts o)
    (hc : c.Proper (fun _ _ => Failure.IsParsing) Event.IsEntry p.lookahead p.pos)
    (he : o.result = .error e) :
    e.IsParsing ∨ .error e ∈ answers acts := by
  induction h with
  | @halt c p r h =>
    have hturn := hc.of_turn common_isParsing h
    exact .inl (hturn e he)
  | @stay c p event c' acts o h _ ih =>
    have hturn := hc.of_turn common_isParsing h
    exact ih (p.lookahead_note event ▸ p.pos_note event ▸ hturn.2) he
  | unread h hf =>
    rw [Parser.advance_result_error] at hf
    cases he
    exact .inr (List.mem_singleton.2 hf.symm)
  | @shift c p d c' t acts o h ht _ ih =>
    have hturn := hc.of_turn common_isParsing h
    have hrest := ih (hturn _ _ (isParsing_missing p.pos _) fun _ _ _ =>
      isParsing_unexpected _ _ _) he
    rw [answers_shift]
    exact hrest.imp_right (List.mem_cons_of_mem _)

end BindingPower
