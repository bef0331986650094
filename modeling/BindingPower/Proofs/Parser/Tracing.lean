import BindingPower.Proofs.Parser.Grading
import BindingPower.Proofs.Parser.Quoting
import BindingPower.Proofs.Value.Evaluation

/-! What is traced is parsed alike. A parser that traces reports its dispatches and does nothing else
another way. A token under traces reports its entries, each with the index at which the token stands,
and then does what it does without them, unless it is handed an operand that cannot be quoted. -/
namespace BindingPower
variable {V : Type} {c : Config V} {p : Parser V} {acts : List (Act V)} {o : Outcome V V}

/-! Parsers that trace -/

namespace Parser

/-- The parser had it not traced. -/
def untraced (p : Parser V) : Parser V :=
  { p with trace := false, log := p.log.filter fun e => !e.isDispatch }

private theorem untraced_note {event : Option Event} (h : ∀ e ∈ event, e.IsEntry) (p : Parser V) :
    (p.note event).untraced = p.untraced.note event := by
  cases event with
  | none => rfl
  | some e =>
    have he : e.isDispatch = false := h e rfl
    simp only [note, emit, untraced, List.filter_append, List.filter_singleton, he, Bool.not_false]
    rfl

private theorem untraced_announce (d : Option (Dispatch V)) (pos : Int) (p : Parser V) :
    (p.announce d pos).untraced = p.untraced.announce d pos := by
  cases d with
  | none => rfl
  | some d =>
    rw [announce, announce, report_of_quiet (p := p.untraced) rfl, report]
    split
    · simp [untraced, emit, Event.isDispatch]
    · rfl

private theorem untraced_advance (p : Parser V) :
    p.untraced.advance = ⟨p.advance.result, p.advance.parser.untraced⟩ := by
  cases h : p.source.next.1 with
  | ok t => rw [advance_of_ok h, advance_of_ok (p := p.untraced) h]; rfl
  | error e => rw [advance_of_error h, advance_of_error (p := p.untraced) h]; rfl

end Parser

/-- Without the trace the same turns are taken. -/
theorem Course.untraced (h : Course c p acts o)
    (hc : c.Proper (fun _ _ _ => True) Event.IsEntry p.lookahead p.pos) :
    Course c p.untraced acts ⟨o.result, o.parser.untraced⟩ := by
  induction h with
  | halt h => exact .halt h
  | @stay c p event c' acts o h _ ih =>
    have hturn := hc.of_turn common_any h
    have hrest := ih (p.lookahead_note event ▸ p.pos_note event ▸ hturn.2)
    rw [Parser.untraced_note hturn.1] at hrest
    exact .stay h hrest
  | @unread c p d c' e h he =>
    have hadvance := p.untraced_advance
    have hcourse := Course.unread (p := p.untraced) h (e := e) (by rw [hadvance, he])
    rw [hadvance] at hcourse
    exact hcourse
  | @shift c p d c' t acts o h ht _ ih =>
    have hturn := hc.of_turn common_any h
    have hrest := ih (hturn _ _ ⟨trivial, trivial⟩ fun _ _ _ => trivial)
    have hadvance := p.untraced_advance
    rw [Parser.untraced_announce] at hrest
    exact .shift (p := p.untraced) h (by rw [hadvance, ht]) (by rw [hadvance]; exact hrest)

/-- The token, under traces or not. Which token a trace is does not matter, unless it is taken for the
end mark. -/
inductive Token.Traces (t : Token V) : Token V → Prop
  | same : Traces t t
  | traced {quote : V → Except Fault String} {label : Option String} {u w : Token V} {i : Identity}
      (h : Traces t u) (hw : Token.traced quote label u = .ok w) (hi : i ≠ .sentinel) :
      Traces t { w with identity := i }

private theorem Token.of_traced {quote : V → Except Fault String} {label : Option String} {t w : Token V}
    (h : Token.traced quote label t = .ok w) :
    w = ⟨.anonymous, t.lbp, t.name,
      .traced (label.getD (Profile.mention (some t.profile))) quote t.identity t.kind⟩ := by
  rw [Token.traced, Token.checked] at h
  split at h <;> cases h
  rfl

/-- A trace that never fails to quote looks like what it wraps, and does the same. -/
theorem Lockstep.Pairs.traced {t u w : Token V} {quote : V → Except Fault String}
    {label : Option String} {i : Identity} (h : Scale.same.lockstep.Pairs u.lenient t)
    (hend : t.isEnd = false) (ht : t.identity ≠ .sentinel) (hw : Token.traced quote label u = .ok w)
    (hi : i ≠ .sentinel) : Scale.same.lockstep.Pairs { w with identity := i }.lenient t := by
  obtain rfl := Token.of_traced hw
  obtain ⟨hname, hnamed, hlbp, -, hassoc, -⟩ := h.seen
  have hnud := h.nud
  have hled := h.led
  constructor
  · exact ⟨hname, hnamed, hlbp, hend.symm, hassoc, iff_of_false hi ht⟩
  · exact h.power
  · show Option.Rel _ (u.lenient.nud.map fun action => Action.look fun _ pos =>
      Action.emit (.entered _ .nud (pos - 1) none) action) t.nud
    generalize u.lenient.nud = a at hnud
    generalize t.nud = b at hnud
    cases hnud with
    | none => exact .none
    | some hab => exact .some (.glance fun _ _ => .report hab)
  · show Option.Rel _ (u.lenient.led.map fun action left => Action.look fun _ pos =>
      Action.emit (.entered _ .led (pos - 1) (some ((quote left).toOption.getD ""))) (action left))
      t.led
    generalize u.lenient.led = a at hled
    generalize t.led = b at hled
    cases hled with
    | none => exact .none
    | some hab => exact .some fun v w hv => .glance fun _ _ => .report (hab v w hv)
  · exact fun _ _ _ _ hv => nomatch hv

/-- A token that a trace can be made of: it is in stock and has a name, and does not end the input. -/
structure Token.Traceable (t : Token V) : Prop where
  stock : t.Stock Matcher.BySight
  name : t.name ≠ none
  isEnd : t.isEnd = false

private theorem Token.Traceable.lenient {t : Token V} (h : t.Traceable) : t.lenient = t := by
  obtain ⟨identity, lbp, name, kind⟩ := t
  have hkind := h.stock.kind
  cases kind with
  | traced => exact hkind.elim
  | _ => rfl

theorem Token.Traces.pairs {t w : Token V} (h : t.Traces w) (ht : t.Traceable) :
    Scale.same.lockstep.Pairs w.lenient t := by
  have hidentity : t.identity ≠ .sentinel := by
    intro hi
    exact Bool.false_ne_true (ht.isEnd.symm.trans (ht.stock.proper hi))
  induction h with
  | same =>
    have hblind := ht.stock.kind.mono fun m => Scale.blind_of_bySight (V := V) (m := m)
    have hpairs := Scale.same.pairs_regraded hblind ht.name
    have hself : t.regraded Scale.same.power = t := t.regraded_id
    rw [hself] at hpairs
    rwa [ht.lenient]
  | traced h hw hi ih => exact ih.traced ht.isEnd hidentity hw hi

/-- The entries of a token under traces, outermost first, up to one that cannot quote the operand. -/
def Kind.entries (role : Role) (pos : Int) (left : Option V) : Kind V → List Event
  | traced label quote _ inner =>
    match left.mapM quote with
    | .error _ => []
    | .ok text => .entered label role pos text :: inner.entries role pos left
  | _ => []

/-- What a dispatch reports of a token at a position: the parser itself, if it traces, and then the
traces of the token. -/
def Dispatch.report (trace : Bool) (pos : Int) (d : Dispatch V) : List Event :=
  (if trace then [.dispatch d.role d.token.profile pos] else []) ++
    d.token.kind.entries d.role pos d.left

/-- The dispatches in a course, each with the index of its token: with the lookahead at `pos`, what is
dispatched has stood one before. -/
def dispatches : (pos : Int) → List (Act V) → List (Int × Dispatch V)
  | _, [] => []
  | pos, .pull _ :: acts => dispatches (pos + 1) acts
  | pos, .dispatch d :: acts => (pos - 1, d) :: dispatches pos acts

private theorem dispatches_shift (pos : Int) (answer : Except Failure (Token V)) (d : Option (Dispatch V))
    (acts : List (Act V)) :
    dispatches pos (.pull answer :: (d.toList.map .dispatch ++ acts)) =
      d.toList.map (pos, ·) ++ dispatches (pos + 1) acts := by
  cases d with
  | none => rfl
  | some d => simp [dispatches]

/-- Reports nothing on its own. -/
def Action.Quiet (t : Option Profile) (pos : Int) (a : Action V V) : Prop :=
  a.Proper (fun _ _ _ => True) (fun _ => False) t pos

/-- Before this lookahead at this position the handler reports these events first, and then nothing more
on its own. -/
inductive Action.Opens (t : Option Profile) (pos : Int) : List Event → Action V V → Prop
  | quiet {a} (h : a.Quiet t pos) : Opens t pos [] a
  | look {es next} (h : Opens t pos es (next t pos)) : Opens t pos es (.look next)
  | emit {es e a} (h : Opens t pos es a) : Opens t pos (e :: es) (.emit e a)

namespace Config
variable {c' : Config V} {token : Option (Token V)} {pos : Int} {d : Dispatch V}

end Config

/-- A pull that delivers a token with a handler delivers that of its number. -/
theorem Stream.getElem?_of_delivery {s : Stream V} {k : ℕ} {t : Token V}
    (h : s.delivery k = .ok t) (ht : t.acts = true) : s.tokens[k]? = some t := by
  have hsentinel : (Token.sentinel : Token V).acts = false := rfl
  cases hlive : s.live[k]? with
  | some u =>
    rw [delivery, hlive] at h
    cases h
    obtain ⟨hk, rfl⟩ := List.getElem?_eq_some_iff.1 hlive
    exact List.prefix_iff_getElem?.1 (List.takeWhile_prefix _) k hk
  | none =>
    rw [delivery, hlive] at h
    dsimp only [ending] at h
    repeat' split at h
    all_goals cases h
    all_goals cases hsentinel.symm.trans ht

/-- What is dispatched is the token of its index. -/
theorem Course.dispatches_located {s : Stream V} {trace : Bool} {ds : Answers V}
    (h : Course c p acts o) (hp : Pulls (.ofStream s trace) ds p) (hpos : p.pos = p.source.pos) :
    ∀ x ∈ dispatches p.pos acts, ∃ k : ℕ, x.1 = k ∧ s.tokens[k]? = some x.2.token := by
  induction h generalizing ds with
  | halt | unread => exact fun x hx => nomatch hx
  | @stay c p event c' acts o h _ ih =>
    rw [← p.pos_note event]
    refine ih (hp.noted event) ?_
    obtain ⟨log, hlog⟩ := p.note_eq event
    rw [hlog]
    exact hpos
  | @shift c p d c' t acts o h ht _ ih =>
    have hnext := Parser.pos_advance ht hpos
    have hrest := ih (hp.advance.announced d p.pos)
    rw [Parser.pos_announce, Parser.source_announce, hnext.1, hnext.2] at hrest
    rw [dispatches_shift]
    intro x hx
    rcases List.mem_append.1 hx with hfirst | hlater
    · cases d with
      | none => cases hfirst
      | some d =>
        obtain rfl := List.mem_singleton.1 hfirst
        obtain ⟨k, hk, hdelivery⟩ := hp.follows.delivery (Config.turn_dispatch h).1
        exact ⟨k, hk, Stream.getElem?_of_delivery hdelivery (Config.acts_of_turn h)⟩
    · exact hrest rfl x hlater

/-- The dispatches of a run are of the tokens of their indices. -/
private theorem Stream.Parses.located {s : Stream V} {trace strict : Bool} {acts : List (Act V)}
    (h : s.Parses trace strict acts) :
    ∀ x ∈ dispatches (-1) acts, ∃ k : ℕ, x.1 = k ∧ s.tokens[k]? = some x.2.token :=
  Course.dispatches_located h (Pulls.refl.note true []) rfl

end BindingPower
