import BindingPower.Proofs.Parser.Bound
import BindingPower.Proofs.Parser.Stability
import Mathlib.Data.List.Forall2
import Mathlib.Data.Int.Order.Basic

/-! Two parses in lockstep. Two streams of tokens that look alike, with handlers that ask for the same
things, drive the parser through the same steps, whatever their values are: the values of the second
are what those of the first stand for. A value of the first may stand for a fault instead. There the
second parse ends while the first goes on, with values that stand for that fault. -/
namespace BindingPower
variable {V W α β α' β' : Type}

/-- A pull draws on what is left, and delivers nothing else but the end mark. -/
theorem Source.next_rest (s : Source V) :
    (∀ t ∈ s.next.2.rest, t ∈ s.rest) ∧ ∀ t, s.next.1 = .ok t → t = .sentinel ∨ t ∈ s.rest := by
  obtain ⟨rest, failure, pos, exhausted⟩ := s
  unfold Source.next
  cases exhausted with
  | true => exact ⟨fun _ ht => ht, fun t ht => .inl (Except.ok.inj ht).symm⟩
  | false =>
    cases rest with
    | nil =>
      cases failure with
      | none => exact ⟨fun _ ht => ht, fun t ht => .inl (Except.ok.inj ht).symm⟩
      | some e => exact ⟨fun _ ht => ht, fun t ht => nomatch ht⟩
    | cons u us =>
      cases hend : u.isEnd with
      | true =>
        simp only [hend, Bool.false_eq_true, if_true, if_false]
        exact ⟨fun _ => List.mem_cons_of_mem u, fun t ht => .inl (Except.ok.inj ht).symm⟩
      | false =>
        simp only [hend, Bool.false_eq_true, if_false]
        exact ⟨fun _ => List.mem_cons_of_mem u,
          fun t ht => .inr (Except.ok.inj ht ▸ List.mem_cons_self)⟩

/-- Errors of one class, at one position and with one message. -/
structure ParseError.Alike (e e' : ParseError) : Prop where
  cls : e.ctorIdx = e'.ctorIdx
  pos : e.pos = e'.pos
  message : e.message = e'.message

inductive Failure.Alike : Failure → Failure → Prop
  | parse {e e' : ParseError} : e.Alike e' → Alike (.parse e) (.parse e')
  | same (e : Failure) : Alike e e

namespace Failure.Alike
variable {p p' : Option Profile}

/-! Tokens that are mentioned alike are refused alike. -/

theorem missingPrefix (pos : Int) (h : Profile.mention p = Profile.mention p') :
    (Failure.parse (.missingPrefix pos p)).Alike (.parse (.missingPrefix pos p')) := by
  refine .parse ⟨rfl, rfl, ?_⟩
  show _ ++ Profile.mention p ++ _ = _ ++ Profile.mention p' ++ _
  rw [h]

theorem missingInfix (pos : Int) (h : Profile.mention p = Profile.mention p') :
    (Failure.parse (.missingInfix pos p)).Alike (.parse (.missingInfix pos p')) := by
  refine .parse ⟨rfl, rfl, ?_⟩
  show _ ++ Profile.mention p ++ _ = _ ++ Profile.mention p' ++ _
  rw [h]

theorem unexpected (pos : Int) (expected : String) (h : Profile.mention p = Profile.mention p') :
    (Failure.parse (.unexpected pos p expected)).Alike (.parse (.unexpected pos p' expected)) := by
  refine .parse ⟨rfl, rfl, ?_⟩
  show _ ++ Profile.mention p ++ _ ++ expected = _ ++ Profile.mention p' ++ _ ++ expected
  rw [h]

end Failure.Alike

/-- What makes the values, powers and tokens of two parses correspond. -/
structure Lockstep (V W : Type) where
  /-- What a value stands for: a value, or the fault that computing it runs into. -/
  value : V → Except Fault W → Prop
  /-- Powers down to which the two parse expressions. -/
  power : Int → Int → Prop
  /-- Tokens that look alike. -/
  seen : Profile → Profile → Prop
  /-- Failures of the first parse that the second need not share. -/
  waived : Failure → Prop
  power_zero : power 0 0
  power_sentinel : ∀ {r r'}, power r r' → (r < 0 ↔ r' < 0)
  mention : ∀ {p p'}, seen p p' → Profile.mention (some p) = Profile.mention (some p')
  isEnd : ∀ {p p'}, seen p p' → p.isEnd = p'.isEnd
  identity : ∀ {p p'}, seen p p' → (p.identity = .sentinel ↔ p'.identity = .sentinel)
  sentinel : seen (Token.sentinel : Token V).profile (Token.sentinel : Token W).profile

namespace Lockstep
variable (L : Lockstep V W)

/-- Whatever a handler makes stands for the fault. -/
def Doomed (f : Fault) : Action V V → Prop
  | .done v => L.value v (.error f)
  | .fail _ => True
  | .expression _ next => ∀ v, Doomed f (next v)
  | .expect _ next | .advance next => ∀ p, Doomed f (next p)
  | .attempt _ next => ∀ b, Doomed f (next b)
  | .look next => ∀ p pos, Doomed f (next p pos)
  | .emit _ next => Doomed f next

/-- What a matcher answers does not tell tokens that look alike apart. -/
def Blind (m : Matcher) : Prop :=
  ∀ {p p'}, Option.Rel L.seen p p' → m.accepts p = m.accepts p'

/-- Handlers that ask for the same things as long as no answer stands for a fault. -/
inductive Mirrors : Action V V → Action W W → Prop
  | finish {v r} : L.value v r → Mirrors (.done v) (.finish r)
  | fail {e e'} : e.Alike e' → Mirrors (.fail e) (.fail e')
  | waive {e b} : L.waived e → Mirrors (.fail e) b
  | expression {r r' next next'} : L.power r r' →
      (∀ v w, L.value v (.ok w) → Mirrors (next v) (next' w)) →
      (∀ v f, L.value v (.error f) → L.Doomed f (next v)) →
      Mirrors (.expression r next) (.expression r' next')
  | expect {m next next'} : L.Blind m →
      (∀ p p', Option.Rel L.seen p p' → Mirrors (next p) (next' p')) →
      Mirrors (.expect m next) (.expect m next')
  | attempt {m next next'} : L.Blind m → (∀ b, Mirrors (next b) (next' b)) →
      Mirrors (.attempt m next) (.attempt m next')
  | look {next next'} :
      (∀ p p' pos, Option.Rel L.seen p p' → Mirrors (next p pos) (next' p' pos)) →
      Mirrors (.look next) (.look next')
  /-- Only the first looks. -/
  | glance {next b} : (∀ p pos, Mirrors (next p pos) b) → Mirrors (.look next) b
  /-- Only the first reports. -/
  | report {event a b} : Mirrors a b → Mirrors (.emit event a) b

/-- An operand that stands for a fault goes on doing so after the token. -/
def Lasting (t : Token V) : Prop :=
  ∀ led ∈ t.led, ∀ v f, L.value v (.error f) → L.Doomed f (led v)

/-- Tokens at which the two parses do the same. -/
structure Pairs (t : Token V) (u : Token W) : Prop where
  seen : L.seen t.profile u.profile
  power : ∀ {r r'}, L.power r r' → (r < t.lbp ↔ r' < u.lbp)
  nud : Option.Rel L.Mirrors t.nud u.nud
  led : Option.Rel (fun a b => ∀ v w, L.value v (.ok w) → L.Mirrors (a v) (b w)) t.led u.led
  lasting : L.Lasting t

structure PairedStreams (s : Stream V) (s' : Stream W) : Prop where
  tokens : List.Forall₂ L.Pairs s.tokens s'.tokens
  failure : s.failure = s'.failure

structure PairedSources (s : Source V) (s' : Source W) : Prop where
  rest : List.Forall₂ L.Pairs s.rest s'.rest
  failure : s.failure = s'.failure
  pos : s.pos = s'.pos
  exhausted : s.exhausted = s'.exhausted

/-- Parsers at the same place of paired streams. -/
structure Paired (p : Parser V) (q : Parser W) : Prop where
  source : L.PairedSources p.source q.source
  token : Option.Rel L.Pairs p.token q.token
  pos : p.pos = q.pos
  pos_le : p.pos ≤ p.source.pos

/-- No token to come frees an operand of what it stands for, and the position is `k` or later. -/
structure Steady (k : Int) (p : Parser V) : Prop where
  rest : ∀ t ∈ p.source.rest, L.Lasting t
  token : ∀ t ∈ p.token, L.Lasting t
  pos : k ≤ p.pos
  source_pos : k ≤ p.source.pos

/-- If the step has a result at all, it stands for the fault. -/
structure Dooms (R : α → Except Fault β → Prop) (f : Fault) (k : Int) (o : Outcome V α) :
    Prop where
  result : ∀ a, o.result = .ok a → R a (.error f)
  parser : L.Steady k o.parser

/-- How the two parses end: with a result and what it stands for; with failures alike, at one place; or
the second with a fault, no later than where the first ends, for which the result of the first stands
if it has one. -/
inductive Agrees (R : α → Except Fault β → Prop) : Outcome V α → Outcome W β → Prop
  | value {a b p q} : R a (.ok b) → L.Paired p q → Agrees R ⟨.ok a, p⟩ ⟨.ok b, q⟩
  | failure {e e' p q} : e.Alike e' → p.pos = q.pos → Agrees R ⟨.error e, p⟩ ⟨.error e', q⟩
  | raised {o f q} : (∃ v, L.value v (.error f)) → L.Dooms R f q.pos o →
      Agrees R o ⟨.error (.fault f), q⟩
  | waived {e p o} : L.waived e → Agrees R ⟨.error e, p⟩ o

/-- Results that stand for results only. -/
def Plain (S : α → β → Prop) (a : α) (r : Except Fault β) : Prop := ∃ b, r = .ok b ∧ S a b

variable {L} {R : α → Except Fault β → Prop} {R' : α' → Except Fault β' → Prop} {f : Fault}
  {k : Int}

/-! Lookaheads -/

theorem mention_eq {p p' : Option Profile} (h : Option.Rel L.seen p p') :
    Profile.mention p = Profile.mention p' := by
  cases h with
  | none => rfl
  | some h => exact L.mention h

theorem seen_profile {t : Option (Token V)} {u : Option (Token W)} (h : Option.Rel L.Pairs t u) :
    Option.Rel L.seen (t.map (·.profile)) (u.map (·.profile)) := by
  cases h with
  | none => exact .none
  | some h => exact .some h.seen

theorem Pairs.sentinel : L.Pairs .sentinel .sentinel where
  seen := L.sentinel
  power := L.power_sentinel
  nud := .none
  led := .none
  lasting := fun _ h => nomatch h

namespace Paired
variable {p : Parser V} {q : Parser W}

theorem lookahead (h : L.Paired p q) : Option.Rel L.seen p.lookahead q.lookahead :=
  seen_profile h.token

theorem atEnd (h : L.Paired p q) : p.atEnd = q.atEnd := by
  unfold Parser.atEnd
  have hseen := h.lookahead
  generalize p.lookahead = a at hseen
  generalize q.lookahead = b at hseen
  cases hseen with
  | none => rfl
  | some hs => simp only [Option.any_some, decide_eq_decide]; exact L.identity hs

theorem bound (h : L.Paired p q) : p.bound = q.bound := by
  unfold Parser.bound
  rw [h.source.rest.length_eq]

theorem report (h : L.Paired p q) (role : Role) (t : Token V) (u : Token W) (pos : Int) :
    L.Paired (p.report role t pos) (q.report role u pos) := by
  unfold Parser.report
  split <;> split <;> exact ⟨h.source, h.token, h.pos, h.pos_le⟩

private theorem steady (h : L.Paired p q) : L.Steady q.pos p where
  rest t ht := by
    obtain ⟨i, hi, rfl⟩ := List.getElem_of_mem ht
    exact (h.source.rest.get hi (h.source.rest.length_eq ▸ hi)).lasting
  token t ht := by
    have htoken := h.token
    rw [Option.mem_def.1 ht] at htoken
    generalize q.token = u at htoken
    cases htoken with
    | some hp => exact hp.lasting
  pos := le_of_eq h.pos.symm
  source_pos := h.pos ▸ h.pos_le

end Paired

/-! Outcomes -/

theorem Dooms.andThen {o : Outcome V α} {g : α → Parser V → Outcome V α'} (h : L.Steady k o.parser)
    (hg : ∀ a p, o.result = .ok a → L.Steady k p → L.Dooms R' f k (g a p)) :
    L.Dooms R' f k (o.andThen g) := by
  unfold Outcome.andThen
  split
  · exact hg _ _ ‹_› h
  · exact ⟨fun _ ha => (nomatch ha), h⟩

theorem Agrees.andThen {o : Outcome V α} {o' : Outcome W β} {g : α → Parser V → Outcome V α'}
    {g' : β → Parser W → Outcome W β'} (h : L.Agrees R o o')
    (hvalue : ∀ a b p q, R a (.ok b) → L.Paired p q → L.Agrees R' (g a p) (g' b q))
    (hdoom : ∀ a f k p, R a (.error f) → L.Steady k p → L.Dooms R' f k (g a p)) :
    L.Agrees R' (o.andThen g) (o'.andThen g') := by
  cases h with
  | value hr hpq => exact hvalue _ _ _ _ hr hpq
  | failure he hpos => exact .failure he hpos
  | raised hf ho =>
    have hrest := Dooms.andThen ho.parser fun a p ha hp => hdoom a _ _ p (ho.result a ha) hp
    exact .raised hf hrest
  | waived he => exact .waived he

/-- What follows a step whose results stand for no fault. -/
theorem Agrees.andThen_plain {S : α → β → Prop} {o : Outcome V α} {o' : Outcome W β}
    {g : α → Parser V → Outcome V α'} {g' : β → Parser W → Outcome W β'}
    (h : L.Agrees (Plain S) o o')
    (hg : ∀ a b p q, S a b → L.Paired p q → L.Agrees R' (g a p) (g' b q)) :
    L.Agrees R' (o.andThen g) (o'.andThen g') :=
  h.andThen (fun a b p q ⟨_, hb, hs⟩ hpq => hg a b p q (Except.ok.inj hb ▸ hs) hpq)
    fun _ _ _ _ ⟨_, hb, _⟩ => nomatch hb

/-! Steps -/

theorem PairedSources.next {s : Source V} {s' : Source W} (h : L.PairedSources s s') :
    (∃ t u s₁ s₁', s.next = (.ok t, s₁) ∧ s'.next = (.ok u, s₁') ∧ L.Pairs t u ∧
        L.PairedSources s₁ s₁') ∨
      ∃ e s₁ s₁', s.next = (.error e, s₁) ∧ s'.next = (.error e, s₁') := by
  obtain ⟨rest, failure, pos, exhausted⟩ := s
  obtain ⟨rest', failure', pos', exhausted'⟩ := s'
  obtain ⟨hrest, hfailure, hpos, hexhausted⟩ := h
  simp only at hrest hfailure hpos hexhausted
  subst hfailure hpos hexhausted
  cases exhausted with
  | true => exact .inl ⟨_, _, _, _, rfl, rfl, .sentinel, hrest, rfl, rfl, rfl⟩
  | false =>
    cases hrest with
    | nil =>
      cases failure with
      | none => exact .inl ⟨_, _, _, _, rfl, rfl, .sentinel, .nil, rfl, rfl, rfl⟩
      | some e => exact .inr ⟨e, _, _, rfl, rfl⟩
    | @cons t u ts us htu htail =>
      have hend : t.isEnd = u.isEnd := L.isEnd htu.seen
      unfold Source.next
      cases hu : u.isEnd with
      | true =>
        simp only [hend.trans hu, hu]
        exact .inl ⟨_, _, _, _, rfl, rfl, .sentinel, htail, rfl, rfl, rfl⟩
      | false =>
        simp only [hend.trans hu, hu]
        exact .inl ⟨_, _, _, _, rfl, rfl, htu, htail, rfl, rfl, rfl⟩

theorem Paired.advance {p : Parser V} {q : Parser W} (h : L.Paired p q) :
    L.Agrees (Plain (Option.Rel L.Pairs)) p.advance q.advance := by
  unfold Parser.advance
  rcases h.source.next with ⟨t, u, s, s', hp, hq, htu, hsource⟩ | ⟨e, s, s', hp, hq⟩
  · rw [hp, hq]
    exact .value ⟨_, rfl, h.token⟩ ⟨hsource, .some htu, hsource.pos, le_refl _⟩
  · rw [hp, hq]
    exact .failure (.same e) h.pos

theorem Paired.expect {p : Parser V} {q : Parser W} (h : L.Paired p q) {m : Matcher}
    (hm : L.Blind m) :
    L.Agrees (Plain (Option.Rel L.Pairs)) (p.expect m) (q.expect m) := by
  unfold Parser.expect
  rw [hm h.lookahead, h.pos]
  split
  · exact .failure (.same _) h.pos
  · exact h.advance
  · exact .failure (.unexpected _ _ (mention_eq h.lookahead)) h.pos

theorem Paired.attempt {p : Parser V} {q : Parser W} (h : L.Paired p q) {m : Matcher}
    (hm : L.Blind m) : L.Agrees (Plain Eq) (p.attempt m) (q.attempt m) := by
  unfold Parser.attempt
  rw [hm h.lookahead]
  split
  · exact .failure (.same _) h.pos
  · exact h.advance.andThen_plain fun _ _ _ _ _ hpq => .value ⟨_, rfl, rfl⟩ hpq
  · exact .value ⟨_, rfl, rfl⟩ h

private theorem Steady.stable (k : Int) : Stable (L.Steady k) where
  advance p h := by
    obtain ⟨hleft, hdelivered⟩ := p.source.next_rest
    have hpos := p.source.pos_next
    have hsource := h.source_pos
    have hnext : k ≤ p.source.next.2.pos := by omega
    have hrest : ∀ t ∈ p.source.next.2.rest, L.Lasting t := fun t ht => h.rest t (hleft t ht)
    unfold Parser.advance
    cases hn : p.source.next with
    | mk result source =>
      rw [hn] at hdelivered hnext hrest
      cases result with
      | ok t =>
        have ht : L.Lasting t := by
          rcases hdelivered t rfl with rfl | hmem
          · exact Pairs.sentinel.lasting
          · exact h.rest t hmem
        exact ⟨hrest, fun u hu => Option.some.inj hu ▸ ht, hnext, hnext⟩
      | error e => exact ⟨hrest, h.token, h.pos, hnext⟩
  emit _ _ h := ⟨h.rest, h.token, h.pos, h.source_pos⟩

/-! Handlers -/

/-- A doomed handler dooms its run. -/
theorem Doomed.run {expr : Int → Parser V → Outcome V V}
    (he : ∀ r p, L.Steady k p → L.Steady k (expr r p).parser) {a : Action V V} (h : L.Doomed f a)
    {p : Parser V} (hp : L.Steady k p) : L.Dooms L.value f k (a.run expr p) := by
  have hstable := Steady.stable (L := L) k
  induction a generalizing p with
  | done v => exact ⟨fun _ hv => Except.ok.inj hv ▸ h, hp⟩
  | fail e => exact ⟨fun _ hv => (nomatch hv), hp⟩
  | expression r next ih => exact .andThen (he r p hp) fun v q _ hq => ih v (h v) hq
  | expect m next ih => exact .andThen (hstable.expect m hp) fun t q _ hq => ih _ (h _) hq
  | attempt m next ih => exact .andThen (hstable.attempt m hp) fun b q _ hq => ih b (h b) hq
  | advance next ih => exact .andThen (hstable.advance p hp) fun t q _ hq => ih _ (h _) hq
  | look next ih => exact ih _ _ (h _ _) hp
  | emit event next ih => exact ih h (hstable.emit event p hp)

theorem Mirrors.run {expr : Int → Parser V → Outcome V V} {expr' : Int → Parser W → Outcome W W}
    (he : ∀ r r' p q, L.power r r' → L.Paired p q → L.Agrees L.value (expr r p) (expr' r' q))
    (hs : ∀ k r p, L.Steady k p → L.Steady k (expr r p).parser)
    {a : Action V V} {b : Action W W} (h : L.Mirrors a b) {p : Parser V} {q : Parser W}
    (hpq : L.Paired p q) : L.Agrees L.value (a.run expr p) (b.run expr' q) := by
  induction h generalizing p q with
  | @finish v r hv =>
    cases r with
    | ok w => exact .value hv hpq
    | error f => exact .raised ⟨v, hv⟩ ⟨fun _ ha => Except.ok.inj ha ▸ hv, hpq.steady⟩
  | fail h => exact .failure h hpq.pos
  | waive h => exact .waived h
  | expression hr _ hdoom ih =>
    exact (he _ _ _ _ hr hpq).andThen (fun v w p q hv hpq => ih v w hv hpq)
      fun v f k p hv hp => (hdoom v f hv).run (hs k) hp
  | expect hm _ ih =>
    exact (hpq.expect hm).andThen_plain fun t u p q htu hpq => ih _ _ (seen_profile htu) hpq
  | attempt hm _ ih =>
    exact (hpq.attempt hm).andThen_plain fun b c p q hb hpq => hb ▸ ih b hpq
  | look _ ih =>
    rw [Action.run, Action.run, hpq.pos]
    exact ih _ _ _ hpq.lookahead hpq
  | glance _ ih => exact ih _ _ hpq
  | @report event a b _ ih =>
    have hemit : L.Paired (p.emit event) q := ⟨hpq.source, hpq.token, hpq.pos, hpq.pos_le⟩
    exact ih hemit

/-! Parses -/

/-- Operators after a doomed operand. -/
theorem dooms_operate (n : Nat) (r : Int) {v : V} (hv : L.value v (.error f)) {p : Parser V}
    (hp : L.Steady k p) : L.Dooms L.value f k (Parser.operate n r v p) := by
  have hstable := Steady.stable (L := L) k
  induction n generalizing v p with
  | zero =>
    unfold Parser.operate
    split
    · refine ⟨fun _ h => ?_, hp⟩
      cases h
    · exact ⟨fun _ h => Except.ok.inj h ▸ hv, hp⟩
  | succ n ih =>
    unfold Parser.operate
    split
    · refine .andThen (hstable.advance p hp) fun t q ht hq => ?_
      have htoken : t = p.token := Parser.advance_result ht
      split
      · refine ⟨fun _ h => ?_, hq⟩
        cases h
      · next t led hled =>
        rw [htoken] at hled
        obtain ⟨u, hu, hled⟩ := Option.bind_eq_some_iff.1 hled
        obtain ⟨a, ha, hpair⟩ := Option.map_eq_some_iff.1 hled
        cases hpair
        have hdoomed : L.Doomed f (led v) := hp.token _ hu _ ha v f hv
        have hrun := hdoomed.run (fun r p => hstable.parse n r) (hstable.report .led t p.pos hq)
        exact .andThen hrun.parser fun w q hw hq => ih (hrun.result w hw) hq
    · exact ⟨fun _ h => Except.ok.inj h ▸ hv, hp⟩

private theorem agrees (n : Nat) :
    (∀ r r' p q, L.power r r' → L.Paired p q →
        L.Agrees L.value (Parser.parse n r p) (Parser.parse n r' q)) ∧
      ∀ r r' v w p q, L.power r r' → L.value v (.ok w) → L.Paired p q →
        L.Agrees L.value (Parser.operate n r v p) (Parser.operate n r' w q) := by
  -- Whether the loop goes on depends on the lookaheads alone.
  have hany : ∀ {r r'} {p : Parser V} {q : Parser W}, L.power r r' → L.Paired p q →
      (p.token.any fun t => decide (r < t.lbp)) = q.token.any fun t => decide (r' < t.lbp) := by
    intro r r' p q hr hpq
    have htoken := hpq.token
    generalize p.token = t at htoken
    generalize q.token = u at htoken
    cases htoken with
    | none => rfl
    | some htu => simp only [Option.any_some, decide_eq_decide]; exact htu.power hr
  induction n with
  | zero =>
    refine ⟨fun r r' p q _ hpq => .failure (.same _) hpq.pos, fun r r' v w p q hr hv hpq => ?_⟩
    unfold Parser.operate
    rw [hany hr hpq]
    split
    · exact .failure (.same _) hpq.pos
    · exact .value hv hpq
  | succ n ih =>
    obtain ⟨hparse, hoperate⟩ := ih
    have hsteady : ∀ k r p, L.Steady k p → L.Steady k (Parser.parse n r p).parser :=
      fun k r p hp => (Steady.stable k).parse n r hp
    -- A handler, and then the operators after its result.
    have hrest : ∀ {r r' a b p q}, L.power r r' → L.Mirrors a b → L.Paired p q →
        L.Agrees L.value
          ((a.run (Parser.parse n) p).andThen fun v p => Parser.operate n r v p)
          ((b.run (Parser.parse n) q).andThen fun w q => Parser.operate n r' w q) :=
      fun hr hab hpq => (hab.run hparse hsteady hpq).andThen
        (fun v w p q hv hpq => hoperate _ _ v w p q hr hv hpq)
        fun v f k p hv hp => dooms_operate n _ hv hp
    refine ⟨fun r r' p q hr hpq => ?_, fun r r' v w p q hr hv hpq => ?_⟩
    · rw [Parser.parse, Parser.parse, hpq.pos]
      refine hpq.advance.andThen_plain fun t u p₁ q₁ htu hpq₁ => ?_
      have hmissing := Failure.Alike.missingPrefix q.pos (mention_eq hpq.lookahead)
      cases htu with
      | none => exact .failure hmissing hpq₁.pos
      | @some t u htu =>
        simp only [Option.bind_some]
        have hnud := htu.nud
        generalize t.nud = a at hnud
        generalize u.nud = b at hnud
        cases hnud with
        | none => exact .failure hmissing hpq₁.pos
        | some hab => exact hrest hr hab (hpq₁.report _ _ _ _)
    · unfold Parser.operate
      rw [hany hr hpq, hpq.pos]
      split
      · refine hpq.advance.andThen_plain fun t u p₁ q₁ htu hpq₁ => ?_
        have hmissing := Failure.Alike.missingInfix q.pos (mention_eq hpq.lookahead)
        cases htu with
        | none => exact .failure hmissing hpq₁.pos
        | @some t u htu =>
          simp only [Option.bind_some]
          have hled := htu.led
          generalize t.led = a at hled
          generalize u.led = b at hled
          cases hled with
          | none => exact .failure hmissing hpq₁.pos
          | some hab => exact hrest hr (hab v w hv) (hpq₁.report _ _ _ _)
      · exact .value hv hpq

/-- Paired streams are parsed in lockstep. -/
theorem parse_agrees {s : Stream V} {s' : Stream W} (h : L.PairedStreams s s')
    (trace trace' strict : Bool) :
    L.Agrees L.value (s.parse trace strict) (s'.parse trace' strict) := by
  have hstart : L.Paired { Parser.ofStream s trace with started := true }
      { Parser.ofStream s' trace' with started := true } :=
    ⟨⟨h.tokens, h.failure, rfl, rfl⟩, .none, rfl, le_refl _⟩
  unfold Stream.parse Parser.run
  rw [if_neg (show ¬(Parser.ofStream s trace).started = true from Bool.false_ne_true),
    if_neg (show ¬(Parser.ofStream s' trace').started = true from Bool.false_ne_true)]
  refine hstart.advance.andThen_plain fun _ _ p q _ hpq => ?_
  have hexpr : L.Agrees L.value (p.expression 0) (q.expression 0) := by
    unfold Parser.expression
    rw [hpq.bound]
    exact (agrees q.bound).1 0 0 p q L.power_zero hpq
  refine hexpr.andThen (fun v w p q hv hpq => ?_) fun v f k p hv hp => ?_
  · rw [hpq.atEnd, hpq.pos]
    split
    · exact .failure (.unexpected _ _ (mention_eq hpq.lookahead)) hpq.pos
    · exact .value hv hpq
  · split
    · exact ⟨fun _ h => (nomatch h), hp⟩
    · exact ⟨fun _ h => Except.ok.inj h ▸ hv, hp⟩

/-- Where the first parse has an error, the second has one like it, unless it has raised a fault
before or need not share the error. -/
theorem Agrees.of_error {o : Outcome V α} {o' : Outcome W β} (h : L.Agrees R o o')
    {e : ParseError} (ho : o.result = .error (.parse e)) :
    (∃ e', o'.result = .error (.parse e') ∧ e.Alike e') ∨
      (∃ f, o'.result = .error (.fault f) ∧ (∃ v, L.value v (.error f)) ∧
        o'.parser.pos ≤ o.parser.pos) ∨
      L.waived (.parse e) := by
  cases h with
  | value _ _ => cases ho
  | failure he _ =>
    cases ho
    cases he with
    | parse he => exact .inl ⟨_, rfl, he⟩
    | same => exact .inl ⟨e, rfl, rfl, rfl, rfl⟩
  | raised hv hdoom => exact .inr (.inl ⟨_, rfl, hv, hdoom.parser.pos⟩)
  | waived hw =>
    cases ho
    exact .inr (.inr hw)

end Lockstep

end BindingPower
