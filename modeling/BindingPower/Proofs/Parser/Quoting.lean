import BindingPower.Proofs.Parser.Lookahead

/-! A trace quotes the operand that its token is handed, and an operand that cannot be quoted ends the
parse. A parse in which all of them can be is the same as one whose traces write something for each. -/
namespace BindingPower
variable {V : Type}

private theorem rel_self {α : Type} {R : α → α → Prop} (a : Option α) (hR : ∀ x, R x x) :
    Option.Rel R a a := by
  cases a with
  | none => exact .none
  | some x => exact .some (hR x)

namespace Kind

/-- A trace of the token fails to quote the operand, the outermost one that does. -/
def Unquoted (f : Fault) : Kind V → V → Prop
  | traced _ quote _ inner, v =>
    quote v = .error f ∨ (∃ text, quote v = .ok text) ∧ inner.Unquoted f v
  | _, _ => False

/-- The same under traces that write nothing for an operand that they cannot quote. -/
def lenient : Kind V → Kind V
  | traced label quote inside inner =>
    traced label (fun v => .ok ((quote v).toOption.getD "")) inside inner.lenient
  | k => k

variable {identity : Identity} {lbp : Int} {name : Option String}

private theorem profile_lenient (k : Kind V) :
    k.lenient.profile identity lbp name = k.profile identity lbp name := by
  have hassoc : k.lenient.assoc = k.assoc := by
    induction k with
    | traced label quote inside inner ih => exact ih
    | _ => rfl
  unfold profile
  rw [hassoc]
  cases k <;> rfl

private theorem nud_lenient (k : Kind V) : k.lenient.nud = k.nud := by
  induction k with
  | traced label quote inside inner ih =>
    show inner.lenient.nud.map _ = inner.nud.map _
    rw [ih]
  | _ => rfl

/-- The handlers after an operand are the same if the operand can be quoted. -/
private theorem led_lenient (k : Kind V) :
    Option.Rel (fun led led' => ∀ v, (∀ f, ¬ k.Unquoted f v) → led' v = led v)
      (k.led identity lbp name) (k.lenient.led identity lbp name) := by
  induction k generalizing identity with
  | traced label quote inside inner ih =>
    show Option.Rel _ ((inner.led inside lbp name).map _) ((inner.lenient.led inside lbp name).map _)
    have hinner := @ih inside
    generalize inner.led inside lbp name = a at hinner
    generalize inner.lenient.led inside lbp name = b at hinner
    cases hinner with
    | none => exact .none
    | some hab =>
      refine .some fun v hv => ?_
      cases hquote : quote v with
      | error f => exact absurd (.inl hquote) (hv f)
      | ok text =>
        have hsame := hab v fun f hf => hv f (.inr ⟨⟨text, hquote⟩, hf⟩)
        simp only [hquote, hsame, Except.toOption, Option.getD_some]
  | _ => exact rel_self _ fun _ _ _ => rfl

/-- A handler of an operand that cannot be quoted does nothing else but to fail. -/
private theorem course_unquoted {k : Kind V} {f : Fault} {v : V} (hk : k.Unquoted f v)
    {led : V → Action V V} (hled : k.led identity lbp name = some led) {fs : List (Frame V)}
    {p : Parser V} {acts : List (Act V)} {o : Outcome V V} (h : Course ⟨led v, fs⟩ p acts o) :
    acts = [] ∧ o.result = .error (.fault f) := by
  induction k generalizing identity led p acts o with
  | traced label quote inside inner ih =>
    obtain ⟨b, hb, rfl⟩ := Option.map_eq_some_iff.1 hled
    cases h with
    | stay hturn h =>
      cases hturn
      rcases hk with hquote | ⟨⟨text, hquote⟩, hinner⟩
      · rw [hquote] at h
        cases h with
        | halt hturn =>
          cases hturn
          exact ⟨rfl, rfl⟩
        | stay hturn | unread hturn | shift hturn => cases hturn
      · rw [hquote] at h
        cases h with
        | stay hturn h =>
          cases hturn
          exact ih hinner hb h
        | halt hturn | unread hturn | shift hturn => cases hturn
    | halt hturn | unread hturn | shift hturn => cases hturn
  | _ => exact hk.elim

end Kind

/-- A token is handed an operand that cannot be quoted. -/
def Dispatch.Unquoted (f : Fault) (d : Dispatch V) : Prop := ∃ v ∈ d.left, d.token.kind.Unquoted f v

/-! Under traces that never fail to quote -/

def Token.lenient (t : Token V) : Token V := { t with kind := t.kind.lenient }

def Dispatch.lenient (d : Dispatch V) : Dispatch V := ⟨d.token.lenient, d.left⟩

def Source.lenient (s : Source V) : Source V := { s with rest := s.rest.map Token.lenient }

def Stream.lenient (s : Stream V) : Stream V := { s with tokens := s.tokens.map Token.lenient }

def Parser.lenient (p : Parser V) : Parser V :=
  { p with source := p.source.lenient, token := p.token.map Token.lenient }

@[simp] theorem Token.profile_lenient (t : Token V) : t.lenient.profile = t.profile :=
  t.kind.profile_lenient

private theorem Token.nud_lenient (t : Token V) : t.lenient.nud = t.nud := t.kind.nud_lenient

private theorem Token.led_lenient (t : Token V) :
    Option.Rel (fun led led' => ∀ v, (∀ f, ¬ t.kind.Unquoted f v) → led' v = led v)
      t.led t.lenient.led :=
  t.kind.led_lenient

/-- A turn and the same turn under lenient traces, where only the handler of an operand that cannot be
quoted may differ. -/
def Turn.Eased (next : Turn V) : Turn V → Prop
  | halt r => next = halt r
  | stay event c => next = stay event c
  | shift d c => ∃ c', next = shift (d.map Dispatch.lenient) c' ∧
      ((∀ u ∈ d, ∀ f, ¬ u.Unquoted f) → c' = c)

private theorem Config.turn_eased (c : Config V) (token : Option (Token V)) (pos : Int) :
    (c.turn (token.map Token.lenient) pos).Eased (c.turn token pos) := by
  have hseen : (token.map Token.lenient).map (·.profile) = token.map (·.profile) := by
    cases token <;> simp
  obtain ⟨a, fs⟩ := c
  cases a with
  | done v =>
    cases fs with
    | nil => exact rfl
    | cons frame fs =>
      cases token with
      | none => exact rfl
      | some t =>
        have hany : ((some t).map Token.lenient).any (fun u => frame.rbp < u.lbp) =
            (some t).any fun u => frame.rbp < u.lbp := rfl
        rw [turn, turn, hany]
        split
        · have hrel := t.led_lenient
          dsimp only [Option.map_some, Option.bind_some]
          rw [t.profile_lenient]
          generalize t.led = led at hrel
          generalize t.lenient.led = led' at hrel
          cases hrel with
          | none => exact ⟨_, rfl, fun _ => rfl⟩
          | some hsame =>
            refine ⟨_, rfl, fun hd => ?_⟩
            rw [hsame v fun f hf => hd _ rfl f ⟨v, rfl, hf⟩]
        · exact rfl
  | expression r next =>
    cases token with
    | none => exact ⟨_, rfl, fun _ => rfl⟩
    | some t =>
      simp only [turn, Option.map_some, Option.bind_some, t.nud_lenient, t.profile_lenient]
      cases t.nud with
      | none => exact ⟨_, rfl, fun _ => rfl⟩
      | some nud => exact ⟨_, rfl, fun _ => rfl⟩
  | expect m next =>
    rw [turn, turn, hseen]
    split
    · exact rfl
    · exact ⟨_, rfl, fun _ => rfl⟩
    · exact rfl
  | attempt m next =>
    rw [turn, turn, hseen]
    split
    · exact rfl
    · exact ⟨_, rfl, fun _ => rfl⟩
    · exact rfl
  | advance next =>
    rw [turn, turn, hseen]
    exact ⟨_, rfl, fun _ => rfl⟩
  | look next =>
    rw [turn, turn, hseen]
    exact rfl
  | fail e => exact rfl
  | emit event a => exact rfl

/-! Parses -/

private theorem Source.next_lenient (s : Source V) :
    s.lenient.next = (s.next.1.map Token.lenient, s.next.2.lenient) := by
  obtain ⟨rest, failure, pos, exhausted⟩ := s
  cases exhausted with
  | true => rfl
  | false =>
    cases rest with
    | nil => cases failure <;> rfl
    | cons t rest =>
      have hend : t.lenient.isEnd = t.isEnd := congrArg Profile.isEnd t.profile_lenient
      simp only [next, lenient, List.map_cons, hend]
      cases t.isEnd <;> rfl

namespace Parser

private theorem advance_lenient (p : Parser V) :
    p.lenient.advance =
      ⟨p.advance.result.map (Option.map Token.lenient), p.advance.parser.lenient⟩ := by
  have hnext := p.source.next_lenient
  have hsource : p.lenient.source = p.source.lenient := rfl
  unfold advance
  rw [hsource, hnext]
  obtain ⟨answer, source⟩ := p.source.next
  cases answer <;> rfl

private theorem lenient_note (event : Option Event) (p : Parser V) :
    (p.note event).lenient = p.lenient.note event := by
  cases event <;> rfl

private theorem lenient_announce (d : Option (Dispatch V)) (pos : Int) (p : Parser V) :
    (p.announce d pos).lenient = p.lenient.announce (d.map Dispatch.lenient) pos := by
  cases d with
  | none => rfl
  | some d =>
    obtain ⟨source, trace, token, position, started, log⟩ := p
    simp only [announce, report, Option.map_some, Dispatch.lenient, Token.profile_lenient]
    cases trace <;> rfl

end Parser

/-- A token that has been handed an operand that cannot be quoted is the last that is. -/
private theorem Course.ends_unquoted {c c' : Config V} {token : Option (Token V)} {pos : Int}
    {d : Dispatch V} (h : c.turn token pos = .shift (some d) c') {f : Fault} (hd : d.Unquoted f)
    {p : Parser V} {acts : List (Act V)} {o : Outcome V V} (hrest : Course c' p acts o) :
    acts = [] ∧ o.result = .error (.fault f) := by
  obtain ⟨v, hv, hk⟩ := hd
  obtain ⟨-, ⟨hnone, -⟩ | ⟨w, led, hleft, hled, haction⟩⟩ := Config.turn_dispatch h
  · cases hnone.symm.trans hv
  · cases hleft.symm.trans hv
    obtain ⟨action, stack⟩ := c'
    cases haction
    exact Kind.course_unquoted hk hled hrest

/-- A parse goes on in the same way under traces that never fail to quote, or it ends where a token has
been handed an operand that cannot be quoted. -/
theorem Course.lenient {c : Config V} {p : Parser V} {acts : List (Act V)} {o : Outcome V V}
    (h : Course c p acts o) :
    (∃ acts', Course c p.lenient acts' ⟨o.result, o.parser.lenient⟩) ∨
      ∃ before d f, acts = before ++ [.dispatch d] ∧ d.Unquoted f ∧
        o.result = .error (.fault f) := by
  induction h with
  | @halt c p r h =>
    have hturn := c.turn_eased p.token p.pos
    rw [h] at hturn
    exact .inl ⟨_, .halt hturn⟩
  | @stay c p event c' acts o h _ ih =>
    have hturn := c.turn_eased p.token p.pos
    rw [h] at hturn
    refine ih.imp_left fun ⟨acts', hrest⟩ => ?_
    rw [Parser.lenient_note] at hrest
    exact ⟨_, .stay hturn hrest⟩
  | @unread c p d c' e h he =>
    have hturn := c.turn_eased p.token p.pos
    rw [h] at hturn
    obtain ⟨c'', hturn, -⟩ := hturn
    have hadvance : p.lenient.advance = ⟨.error e, p.advance.parser.lenient⟩ := by
      rw [p.advance_lenient, he]
      rfl
    have hcourse := Course.unread (p := p.lenient) hturn (e := e) (by rw [hadvance])
    rw [hadvance] at hcourse
    exact .inl ⟨_, hcourse⟩
  | @shift c p d c' t acts o h ht hrest ih =>
    by_cases hd : ∃ u ∈ d, ∃ f, u.Unquoted f
    · obtain ⟨u, rfl, f, hu⟩ := hd
      obtain ⟨rfl, hresult⟩ := Course.ends_unquoted h hu hrest
      exact .inr ⟨[.pull p.source.next.1], u, f, rfl, hu, hresult⟩
    · have hturn := c.turn_eased p.token p.pos
      rw [h] at hturn
      obtain ⟨c'', hturn, hsame⟩ := hturn
      obtain rfl := hsame fun u hu f hf => hd ⟨u, hu, f, hf⟩
      have hadvance : p.lenient.advance.result = .ok (t.map Token.lenient) := by
        rw [p.advance_lenient, ht]
        rfl
      rcases ih with ⟨acts', hrest'⟩ | ⟨before, u, f, rfl, hu, hresult⟩
      · rw [Parser.lenient_announce] at hrest'
        have hafter : p.lenient.advance.parser = p.advance.parser.lenient := by
          rw [p.advance_lenient]
        exact .inl ⟨_, .shift hturn hadvance (hafter ▸ hrest')⟩
      · exact .inr ⟨.pull p.source.next.1 :: (d.toList.map .dispatch ++ before), u, f, by simp, hu,
          hresult⟩

end BindingPower
