import BindingPower.Proofs.Parser.Contract

/-! The values that a parse comes to, its last one and those on the way. Where of two parses in lockstep
the second raises a fault, the first comes to a value that stands for it. -/
namespace BindingPower
variable {V W : Type}

/-- A handler under way comes to the value before the parse ends. -/
inductive Config.Makes (v : V) : Config V → Parser V → Prop
  | here {fs p} : Makes v ⟨.done v, fs⟩ p
  | stay {c p event c'} (h : c.turn p.token p.pos = .stay event c')
      (rest : Makes v c' (p.note event)) : Makes v c p
  | shift {c p d c' t} (h : c.turn p.token p.pos = .shift d c') (ht : p.advance.result = .ok t)
      (rest : Makes v c' (p.advance.parser.announce d p.pos)) : Makes v c p

/-- A run on the stream comes to the value. -/
def Stream.Makes (trace strict : Bool) (s : Stream V) (v : V) : Prop :=
  (Config.whole strict).Makes v { Parser.ofStream s trace with started := true }

/-- Handlers that keep a contract come to values within it. -/
theorem Config.Makes.keeps {C : Contract V} {v : V} {c : Config V} {p : Parser V} (h : c.Makes v p)
    (hend : (Token.sentinel : Token V).Keeps C) (hc : c.Keeps C) (hp : p.Keeps C) : C.value v := by
  induction h with
  | here => exact hc.action
  | @stay c p event c' h rest ih =>
    have hturn : (c.turn p.token p.pos).Keeps C := hc.turn hp.token
    rw [h] at hturn
    exact ih hturn (hp.note event)
  | @shift c p d c' t h ht rest ih =>
    have hturn : (c.turn p.token p.pos).Keeps C := hc.turn hp.token
    rw [h] at hturn
    exact ih hturn (((Parser.keeps_stable hend).advance p hp).announce d p.pos)

theorem Stream.Makes.keeps {C : Contract V} {trace strict : Bool} {s : Stream V} {v : V}
    (h : s.Makes trace strict v) (hend : (Token.sentinel : Token V).Keeps C) (htokens : ∀ t ∈ s.tokens, t.Keeps C)
    (hfailure : ∀ e ∈ s.failure, C.failure e) : C.value v :=
  Config.Makes.keeps h hend (Config.keeps_whole strict) ⟨nofun, htokens, hfailure⟩

namespace Lockstep
variable {L : Lockstep V W} {f : Fault} {p : Parser V} {q : Parser W}

structure PairedFrames (L : Lockstep V W) (x : Frame V) (y : Frame W) : Prop where
  power : L.power x.rbp y.rbp
  next : ∀ v w, L.value v (.ok w) → L.Mirrors (x.next v) (y.next w)

structure PairedConfigs (L : Lockstep V W) (c : Config V) (d : Config W) : Prop where
  action : L.Mirrors c.action d.action
  stack : List.Forall₂ L.PairedFrames c.stack d.stack

/-- A parse that comes to a value that stands for the fault, unless it raises the fault itself. -/
def Meets (L : Lockstep V W) (f : Fault) (c : Config V) (p : Parser V) : Prop :=
  (∃ v, L.value v (.error f) ∧ c.Makes v p) ∨ (c.run p).result = .error (.fault f)

namespace Meets
variable {c c' : Config V} {event : Option Event} {d : Option (Dispatch V)}

theorem stay (h : c.turn p.token p.pos = .stay event c') (hc : L.Meets f c' (p.note event)) :
    L.Meets f c p := by
  rcases hc with ⟨v, hv, hmakes⟩ | hraises
  · exact .inl ⟨v, hv, .stay h hmakes⟩
  · exact .inr (by rw [Config.run_eq_turn, h]; exact hraises)

theorem shift {t : Option (Token V)} (h : c.turn p.token p.pos = .shift d c')
    (ht : p.advance.result = .ok t) (hc : L.Meets f c' (p.advance.parser.announce d p.pos)) :
    L.Meets f c p := by
  rcases hc with ⟨v, hv, hmakes⟩ | hraises
  · exact .inl ⟨v, hv, .shift h ht hmakes⟩
  · refine .inr ?_
    rw [Config.run_eq_turn, h, Turn.outcome, Outcome.andThen_ok _ ht]
    exact hraises

theorem unread (h : c.turn p.token p.pos = .shift d c')
    (he : p.advance.result = .error (.fault f)) : L.Meets f c p := by
  refine .inr ?_
  rw [Config.run_eq_turn, h, Turn.outcome, Outcome.andThen_error _ he]

end Meets

/-- Whatever the second parse does in this turn, if it raises the fault then the first meets it. -/
def Follows (L : Lockstep V W) (f : Fault) (c : Config V) (p : Parser V) (q : Parser W) :
    Turn W → Prop
  | .halt r => r = .error (.fault f) → L.Meets f c p
  | .stay event d => (∀ c' p', L.PairedConfigs c' d → L.Paired p' (q.note event) → L.Meets f c' p') →
      L.Meets f c p
  | .shift dispatch d => (∀ t, q.advance.result = .ok t → ∀ c' p', L.PairedConfigs c' d →
      L.Paired p' (q.advance.parser.announce dispatch q.pos) → L.Meets f c' p') →
      (∀ e, q.advance.result = .error e → e = .fault f) → L.Meets f c p

theorem Follows.mono {c c' : Config V} {p' : Parser V} {turn : Turn W}
    (h : L.Meets f c' p' → L.Meets f c p) (hf : L.Follows f c' p' q turn) :
    L.Follows f c p q turn := by
  cases turn with
  | halt r => exact fun hr => h (hf hr)
  | stay event d => exact fun hnext => h (hf hnext)
  | shift dispatch d => exact fun hnext hunread => h (hf hnext hunread)

theorem Paired.note (h : L.Paired p q) (event : Option Event) : L.Paired (p.note event) q := by
  obtain ⟨log, hlog⟩ := p.note_eq event
  rw [hlog]
  exact ⟨h.source, h.token, h.pos, h.pos_le⟩

theorem Paired.announce (h : L.Paired p q) (d : Option (Dispatch V)) (d' : Option (Dispatch W))
    (pos pos' : Int) : L.Paired (p.announce d pos) (q.announce d' pos') := by
  obtain ⟨log, hlog⟩ := p.announce_eq d pos
  obtain ⟨log', hlog'⟩ := q.announce_eq d' pos'
  rw [hlog, hlog']
  exact ⟨h.source, h.token, h.pos, h.pos_le⟩

private theorem Paired.advance_cases (h : L.Paired p q) :
    (∃ t u, p.advance.result = .ok t ∧ q.advance.result = .ok u ∧
        L.Paired p.advance.parser q.advance.parser) ∨
      ∃ e, p.advance.result = .error e ∧ q.advance.result = .error e := by
  unfold Parser.advance
  rcases h.source.next with ⟨t, u, s, s', hp, hq, htu, hsource⟩ | ⟨e, s, s', hp, hq⟩
  · rw [hp, hq]
    exact .inl ⟨_, _, rfl, rfl, hsource, .some htu, hsource.pos, le_refl _⟩
  · rw [hp, hq]
    exact .inr ⟨e, rfl, rfl⟩

/-- Turns at which two parses do the same. -/
inductive PairedTurns (L : Lockstep V W) : Turn V → Turn W → Prop
  | return (v w) : PairedTurns L (.halt (.ok v)) (.halt (.ok w))
  | fail {e e'} (h : e.Alike e') : PairedTurns L (.halt (.error e)) (.halt (.error e'))
  | stay {c d} (h : L.PairedConfigs c d) : PairedTurns L (.stay none c) (.stay none d)
  | shift {c d} (dispatch dispatch') (h : L.PairedConfigs c d) :
      PairedTurns L (.shift dispatch c) (.shift dispatch' d)

theorem PairedTurns.follows {c : Config V} {turn : Turn W} (hpq : L.Paired p q)
    (h : L.PairedTurns (c.turn p.token p.pos) turn) : L.Follows f c p q turn := by
  generalize hc : c.turn p.token p.pos = turn' at h
  cases h with
  | «return» v w => exact fun hr => nomatch hr
  | fail he =>
    intro hr
    cases hr
    cases he with
    | same => exact .inr (by rw [Config.run_eq_turn, hc]; rfl)
  | stay hk => exact fun hnext => .stay hc (hnext _ _ hk hpq)
  | shift dispatch dispatch' hk =>
    intro hnext hunread
    rcases hpq.advance_cases with ⟨t, u, ht, hu, hpaired⟩ | ⟨e, he, he'⟩
    · exact .shift hc ht (hnext u hu _ _ hk (hpaired.announce _ _ _ _))
    · obtain rfl := hunread e he'
      exact .unread hc he

section
variable {fs : List (Frame V)} {gs : List (Frame W)} (hstack : List.Forall₂ L.PairedFrames fs gs)
  {t : Option (Token V)} {u : Option (Token W)} (htu : Option.Rel L.Pairs t u) (pos : Int)
include hstack htu

private theorem pairedTurns_done {v : V} {w : W} (hv : L.value v (.ok w)) :
    L.PairedTurns ((⟨.done v, fs⟩ : Config V).turn t pos) ((⟨.done w, gs⟩ : Config W).turn u pos) := by
  cases hstack with
  | nil => exact .return v w
  | @cons x y fs gs hxy hrest =>
    have hseen := seen_profile htu
    rw [Config.turn, Config.turn]
    cases htu with
    | none => exact .stay ⟨hxy.next v w hv, hrest⟩
    | @some t u htu =>
      have hpower : decide (x.rbp < t.lbp) = decide (y.rbp < u.lbp) :=
        decide_eq_decide.2 (htu.power hxy.power)
      simp only [Option.any_some, Option.bind_some, hpower]
      split
      · have hled := htu.led
        generalize t.led = a at hled
        generalize u.led = b at hled
        cases hled with
        | none => exact .shift none none ⟨.fail (.missingInfix pos (mention_eq hseen)), hrest⟩
        | some hab => exact .shift _ _ ⟨hab v w hv, .cons hxy hrest⟩
      · exact .stay ⟨hxy.next v w hv, hrest⟩

private theorem pairedTurns_expression {r r' : Int} {next : V → Action V V} {next' : W → Action W W}
    (hframe : L.PairedFrames ⟨r, next⟩ ⟨r', next'⟩) :
    L.PairedTurns ((⟨.expression r next, fs⟩ : Config V).turn t pos)
      ((⟨.expression r' next', gs⟩ : Config W).turn u pos) := by
  have hseen := seen_profile htu
  rw [Config.turn, Config.turn]
  cases htu with
  | none => exact .shift none none ⟨.fail (.missingPrefix pos (mention_eq hseen)), hstack⟩
  | @some t u htu =>
    simp only [Option.bind_some]
    have hnud := htu.nud
    generalize t.nud = a at hnud
    generalize u.nud = b at hnud
    cases hnud with
    | none => exact .shift none none ⟨.fail (.missingPrefix pos (mention_eq hseen)), hstack⟩
    | some hab => exact .shift _ _ ⟨hab, .cons hframe hstack⟩

private theorem pairedTurns_expect {m : Matcher} (hm : L.Blind m) {next : Option Profile → Action V V}
    {next' : Option Profile → Action W W}
    (hnext : ∀ p p', Option.Rel L.seen p p' → L.Mirrors (next p) (next' p')) :
    L.PairedTurns ((⟨.expect m next, fs⟩ : Config V).turn t pos)
      ((⟨.expect m next', gs⟩ : Config W).turn u pos) := by
  have hseen := seen_profile htu
  rw [Config.turn, Config.turn, hm hseen]
  split
  · exact .fail (.same _)
  · exact .shift none none ⟨hnext _ _ hseen, hstack⟩
  · exact .fail (.unexpected pos _ (mention_eq hseen))

private theorem pairedTurns_attempt {m : Matcher} (hm : L.Blind m) {next : Bool → Action V V}
    {next' : Bool → Action W W} (hnext : ∀ b, L.Mirrors (next b) (next' b)) :
    L.PairedTurns ((⟨.attempt m next, fs⟩ : Config V).turn t pos)
      ((⟨.attempt m next', gs⟩ : Config W).turn u pos) := by
  rw [Config.turn, Config.turn, hm (seen_profile htu)]
  split
  · exact .fail (.same _)
  · exact .shift none none ⟨hnext true, hstack⟩
  · exact .stay ⟨hnext false, hstack⟩

end

/-- The induction is on how the handlers mirror each other: at some steps only the first moves. -/
theorem Mirrors.follows (hwaived : ∀ e, ¬ L.waived e) {a : Action V V} {b : Action W W}
    (h : L.Mirrors a b) {fs : List (Frame V)} {gs : List (Frame W)}
    (hstack : List.Forall₂ L.PairedFrames fs gs) (hpq : L.Paired p q) :
    L.Follows f ⟨a, fs⟩ p q ((⟨b, gs⟩ : Config W).turn q.token q.pos) := by
  induction h generalizing p with
  | @finish v r hv =>
    cases r with
    | ok w => exact PairedTurns.follows hpq (hpq.pos ▸ pairedTurns_done hstack hpq.token p.pos hv)
    | error g =>
      intro hr
      cases hr
      exact .inl ⟨v, hv, .here⟩
  | fail he => exact PairedTurns.follows hpq (.fail he)
  | waive he => exact absurd he (hwaived _)
  | expression hr hnext _ =>
    exact PairedTurns.follows hpq (hpq.pos ▸ pairedTurns_expression hstack hpq.token p.pos ⟨hr, hnext⟩)
  | expect hm hnext =>
    exact PairedTurns.follows hpq (hpq.pos ▸ pairedTurns_expect hstack hpq.token p.pos hm hnext)
  | attempt hm hnext =>
    exact PairedTurns.follows hpq (hpq.pos ▸ pairedTurns_attempt hstack hpq.token p.pos hm hnext)
  | look hnext =>
    refine PairedTurns.follows hpq ?_
    rw [Config.turn, Config.turn, hpq.pos]
    exact .stay ⟨hnext _ _ _ (seen_profile hpq.token), hstack⟩
  | glance _ ih => exact .mono (.stay rfl) (ih _ _ hpq)
  | @report event a b _ ih => exact .mono (.stay rfl) (ih (hpq.note (some event)))

/-- A course of the second parse that raises a fault leads the first to a value that stands for it. -/
theorem meets_of_course (hwaived : ∀ e, ¬ L.waived e) {c : Config V} {d : Config W}
    {acts : List (Act W)} {o : Outcome W W} (h : Course d q acts o)
    (hturn : L.Follows f c p q (d.turn q.token q.pos)) (ho : o.result = .error (.fault f)) :
    L.Meets f c p := by
  induction h generalizing c p with
  | @halt d q r h =>
    rw [h] at hturn
    exact hturn ho
  | @stay d q event d' acts o h rest ih =>
    rw [h] at hturn
    exact hturn fun c' p' hc hp => ih (hc.action.follows hwaived hc.stack hp) ho
  | @unread d q dispatch d' e h he =>
    rw [h] at hturn
    cases ho
    refine hturn (fun t ht => ?_) fun e' he' => (Except.error.inj (he.symm.trans he')).symm
    cases he.symm.trans ht
  | @shift d q dispatch d' t acts o h ht rest ih =>
    rw [h] at hturn
    refine hturn (fun _ _ c' p' hc hp => ih (hc.action.follows hwaived hc.stack hp) ho) fun e he => ?_
    cases ht.symm.trans he

/-- After the first pull of a run, the same is left to do, which looks for the end if the run is
strict. -/
theorem pairedTurns_whole (strict : Bool) (t : Option (Token V)) (u : Option (Token W)) (pos : Int) :
    L.PairedTurns ((Config.whole strict).turn t pos) ((Config.whole strict).turn u pos) := by
  refine .shift none none ⟨.expression L.power_zero (fun v w hv => ?_) (fun v f hv => ?_), .nil⟩
  · cases strict with
    | false => exact .finish (r := .ok w) hv
    | true =>
      refine .look fun p p' pos hseen => ?_
      have hend : (p.any fun t => t.identity = .sentinel) = p'.any fun t => t.identity = .sentinel := by
        cases hseen with
        | none => rfl
        | some hs => exact decide_eq_decide.2 (L.identity hs)
      rw [hend]
      split
      · exact .finish (r := .ok w) hv
      · exact .fail (.unexpected pos _ (mention_eq hseen))
  · cases strict with
    | false => exact hv
    | true =>
      intro p pos
      show L.Doomed f (if p.any _ then _ else _)
      split
      · exact hv
      · trivial

/-- Where the second of two paired streams raises a fault, the first comes to a value that stands for
it, unless it raises the fault, too. -/
theorem makes_of_raised (hwaived : ∀ e, ¬ L.waived e) {s : Stream V} {s' : Stream W}
    (h : L.PairedStreams s s') {trace strict : Bool}
    (hf : (s'.parse trace strict).result = .error (.fault f)) :
    (∃ v, L.value v (.error f) ∧ s.Makes trace strict v) ∨
      (s.parse trace strict).result = .error (.fault f) := by
  have hstart : L.Paired { Parser.ofStream s trace with started := true }
      { Parser.ofStream s' trace with started := true } :=
    ⟨⟨h.tokens, h.failure, rfl, rfl⟩, .none, rfl, le_refl _⟩
  obtain ⟨acts, hcourse⟩ := exists_course (.whole strict)
    { Parser.ofStream s' trace with started := true }
  rw [Config.run_whole strict rfl] at hcourse
  have hmeets : L.Meets f (.whole strict) { Parser.ofStream s trace with started := true } :=
    meets_of_course hwaived hcourse (PairedTurns.follows hstart (pairedTurns_whole strict ..)) hf
  rwa [Meets, Config.run_whole strict rfl] at hmeets

end Lockstep

end BindingPower
