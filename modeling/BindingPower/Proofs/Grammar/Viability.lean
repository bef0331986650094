import BindingPower.Proofs.Grammar.Shape
import BindingPower.Proofs.Parser.Configuration

/-! Grammars whose handlers can always be brought to a good end. In them a parse that has not failed
yet can be completed, so it fails at the first token after which no completion is left. -/
namespace BindingPower
variable {V : Type}

/-- What a handler may still do so that, on some tokens of `W`, it ends with a value that is good.
`ended` tells whether an operand has just been read, which goes on if an operator follows. -/
inductive Ready (W : Token V → Prop) (Good : V → Prop) : (ended : Bool) → Action V V → Prop where
  | done {ended : Bool} {v : V} (hv : Good v) : Ready W Good ended (.done v)
  | expression {r : Int} {next : V → Action V V} (hr : 0 ≤ r)
      (h : ∀ v, Good v → Ready W Good true (next v)) : Ready W Good false (.expression r next)
  | expect {m : String} {next : Option Profile → Action V V} {d : Token V} (hd : W d)
      (hn : d.name = some m) (hl : d.lbp = 0) (hm : m ≠ Token.endName)
      (h : ∀ p, Ready W Good false (next p)) : Ready W Good true (.expect (.named m) next)
  | attempt {m : String} {next : Bool → Action V V} {d : Token V} (hd : W d)
      (hn : d.name = some m) (hl : d.lbp = 0) (hm : m ≠ Token.endName)
      (htrue : Ready W Good false (next true)) (hfalse : Ready W Good true (next false)) :
      Ready W Good true (.attempt (.named m) next)
  /-- A refusal of what could go on with the operand. -/
  | look {next : Option Profile → Int → Action V V} {v : V} (hv : Good v)
      (h : ∀ (t : Token V) (pos : Int), next (some t.profile) pos = .done v ∨ (t.lbp ≠ 0 ∧
        ∃ x, next (some t.profile) pos = .fail (.parse (.unexpected pos (some t.profile) x)))) :
      Ready W Good true (.look next)

/-- Regular tokens whose handlers, on good values, either refuse what they follow or are ready, and
among them an operand. -/
structure Productive (W : Token V → Prop) (Good : V → Prop) : Prop where
  regular : ∀ t, W t → t.Regular
  start : ∀ t, W t → ∀ a, t.nud = some a → Ready W Good false a
  follow : ∀ t, W t → ∀ f, t.led = some f → ∀ v, Good v →
    Ready W Good false (f v) ∨ f v = t.refusal
  operand : ∃ t v, W t ∧ t.nud = some (.done v) ∧ Good v

/-- An error of the two kinds that a grammar of regular tokens has, at this position. -/
inductive ParseError.Reports (pos : Int) : ParseError → Prop where
  | missingPrefix (t : Option Profile) : Reports pos (.missingPrefix pos t)
  | unexpected (t : Option Profile) (expected : String) : Reports pos (.unexpected pos t expected)

variable {W : Token V → Prop} {Good : V → Prop}

/-- A frame that can be brought to a good end whatever good value it waits for. -/
def Frame.Waits (W : Token V → Prop) (Good : V → Prop) (f : Frame V) : Prop :=
  0 ≤ f.rbp ∧ ∀ v, Good v → Ready W Good true (f.next v)

namespace Config

/-- The invariant of a parse that has not failed. -/
structure Live (W : Token V → Prop) (Good : V → Prop) (c : Config V) : Prop where
  action : Ready W Good false c.action
  stack : ∀ f ∈ c.stack, f.Waits W Good

/-- Whatever follows, the run fails with an error at this position. -/
def Doomed (pos : Int) (c : Config V) : Prop :=
  ∃ e : ParseError, e.Reports pos ∧
    ∀ p : Parser V, p.pos = pos + 1 → (c.run p).result = .error (.parse e)

theorem live_start : (start : Config V).Live W Good where
  action := .expression (Int.le_refl 0) fun _ hv => .done hv
  stack := List.forall_mem_nil _

private theorem doomed_fail {pos : Int} {e : ParseError} (h : e.Reports pos) (stack : List (Frame V)) :
    (⟨.fail (.parse e), stack⟩ : Config V).Doomed pos :=
  ⟨e, h, fun _ _ => rfl⟩

private theorem doomed_refusal (t : Token V) (pos : Int) (stack : List (Frame V)) :
    (⟨t.refusal, stack⟩ : Config V).Doomed pos := by
  refine ⟨.unexpected pos (some t.profile) "an operator", .unexpected .., fun p hp => ?_⟩
  have hpos : p.pos - 1 = pos := by omega
  rw [← hpos]
  rfl

end Config

/-- The moves of a live configuration before a lookahead: it stays live or fails there, at once or
after the lookahead is consumed, or all of it ends. -/
inductive Move.Fits (W : Token V → Prop) (Good : V → Prop) (t : Token V) (pos : Int) :
    Move V → Prop where
  | live {c : Config V} (ht : W t) (h : c.Live W Good) : Fits W Good t pos (.shift c)
  | doomed {c : Config V} (h : c.Doomed pos) : Fits W Good t pos (.shift c)
  | reject {e : ParseError} (h : e.Reports pos) : Fits W Good t pos (.reject (.parse e))
  | stop {v : V} : Fits W Good t pos (.stop v)

section
variable {t : Token V} {pos : Int} {stack : List (Frame V)}

private theorem ne_mark_of_sentinel {m : String} (hm : m ≠ Token.endName) (ht : W t ∨ t = .sentinel)
    (hn : t.name = some m) : W t := by
  refine ht.resolve_right fun h => ?_
  subst h
  exact hm (Option.some.inj hn).symm

/-- It is enough to know the moves after values. -/
theorem Ready.fits_of_done (hW : Productive W Good) (ht : W t ∨ t = .sentinel)
    (hs : ∀ f ∈ stack, f.Waits W Good)
    (hdone : ∀ v, Good v → ∃ s, (⟨.done v, stack⟩ : Config V).Sees t pos s ∧ s.Fits W Good t pos)
    {ended : Bool} {a : Action V V} (h : Ready W Good ended a) :
    ∃ s, (⟨a, stack⟩ : Config V).Sees t pos s ∧ s.Fits W Good t pos := by
  induction h with
  | done hv => exact hdone _ hv
  | @expression r next hr hnext _ =>
    cases hnud : t.nud with
    | none => exact ⟨_, Config.sees_expression_none hnud, .doomed (Config.doomed_fail (.missingPrefix _) _)⟩
    | some nud =>
      have ht : W t := by
        refine ht.resolve_right fun h => ?_
        subst h
        cases hnud
      exact ⟨_, Config.sees_expression hnud,
        .live ht ⟨hW.start t ht nud hnud, List.forall_mem_cons.2 ⟨⟨hr, hnext⟩, hs⟩⟩⟩
  | @expect m next d hd hn hl hm hnext _ =>
    by_cases htm : t.name = some m
    · exact ⟨_, Config.sees_expect htm, .live (ne_mark_of_sentinel hm ht htm) ⟨hnext _, hs⟩⟩
    · exact ⟨_, Config.sees_expect_ne htm, .reject (.unexpected ..)⟩
  | @attempt m next d hd hn hl hm htrue _ _ ih =>
    by_cases htm : t.name = some m
    · exact ⟨_, Config.sees_attempt htm, .live (ne_mark_of_sentinel hm ht htm) ⟨htrue, hs⟩⟩
    · obtain ⟨s, hsees, hfits⟩ := ih
      exact ⟨s, Config.sees_attempt_ne htm hsees, hfits⟩
  | @look next v hv hnext =>
    rcases hnext t pos with hv' | ⟨-, x, hx⟩
    · obtain ⟨s, hsees, hfits⟩ := hdone v hv
      exact ⟨s, Config.sees_look (hv' ▸ hsees), hfits⟩
    · exact ⟨_, Config.sees_look (hx ▸ Config.sees_fail _), .reject (.unexpected ..)⟩

/-- A value goes on with the lookahead or is handed on, frame by frame. -/
theorem Frame.fits_done (hW : Productive W Good) (ht : W t ∨ t = .sentinel)
    (hs : ∀ f ∈ stack, f.Waits W Good) {v : V} (hv : Good v) :
    ∃ s, (⟨.done v, stack⟩ : Config V).Sees t pos s ∧ s.Fits W Good t pos := by
  induction stack generalizing v with
  | nil => exact ⟨_, Config.sees_done_nil, .stop⟩
  | cons f stack ih =>
    obtain ⟨⟨hr, hnext⟩, hs'⟩ := List.forall_mem_cons.1 hs
    by_cases hlt : f.rbp < t.lbp
    · have ht : W t := by
        refine ht.resolve_right fun h => ?_
        subst h
        exact Int.not_lt.2 hr hlt
      have hfollow := (hW.regular t ht).follows
      cases hled : t.led with
      | none =>
        rw [hled] at hfollow
        cases hfollow with
        | none hl => omega
      | some led =>
        refine ⟨_, Config.sees_done_led hlt hled, ?_⟩
        rcases hW.follow t ht led hled v hv with h | h
        · exact .live ht ⟨h, hs⟩
        · rw [h]
          exact .doomed (Config.doomed_refusal t pos _)
    · obtain ⟨s, hsees, hfits⟩ := (hnext v hv).fits_of_done hW ht hs' fun v hv => ih hs' hv
      exact ⟨s, Config.sees_done_pop (Int.not_lt.1 hlt) hsees, hfits⟩

/-- One token keeps a parse live or makes it fail at that token. -/
theorem Config.Live.fits (hW : Productive W Good) {c : Config V} (hc : c.Live W Good)
    (ht : W t ∨ t = .sentinel) (pos : Int) : ∃ s, c.Sees t pos s ∧ s.Fits W Good t pos :=
  hc.action.fits_of_done hW ht hc.stack fun _ hv => Frame.fits_done hW ht hc.stack hv

end

namespace Config

/-- Whether a strict run on these tokens returns. -/
def Accepts (c : Config V) (pos : Int) (ts : List (Token V)) : Prop :=
  ∃ v, (c.strict (.facing none pos ts)).result = .ok v

variable {c d : Config V} {t : Token V} {pos : Int} {ts : List (Token V)}

private theorem strict_of_shift (h : c.Sees t pos (.shift d)) (hts : ∀ u ∈ ts, u.isEnd = false) :
    c.strict (.facing none pos (t :: ts)) = d.strict (.facing none (pos + 1) ts) := by
  rw [h.strict rfl rfl rfl, Move.strict, Parser.advance_facing_cons hts (.inl rfl)]
  rfl

theorem Doomed.strict (h : c.Doomed pos) :
    ∃ e : ParseError, e.Reports pos ∧
      ∀ p : Parser V, p.pos = pos + 1 → (c.strict p).result = .error (.parse e) := by
  obtain ⟨e, he, hrun⟩ := h
  refine ⟨e, he, fun p hp => ?_⟩
  rw [Config.strict, Outcome.andThen_error _ (hrun p hp)]

end Config

theorem Productive.isEnd (hW : Productive W Good) {ts : List (Token V)} (h : ∀ t ∈ ts, W t) :
    ∀ u ∈ ts, u.isEnd = false :=
  fun u hu => (hW.regular u (h u hu)).isEnd

/-- Tokens of the grammar that bring a configuration to its end. -/
structure Config.Completes (W : Token V → Prop) (c : Config V) (us : List (Token V)) : Prop where
  mem : ∀ u ∈ us, W u
  accepts : ∀ pos, c.Accepts pos us

namespace Config.Completes
variable {c d : Config V} {t : Token V} {us : List (Token V)} {stack : List (Frame V)}

theorem shift (hW : Productive W Good) (ht : W t) (hc : ∀ pos, c.Sees t pos (.shift d))
    (h : d.Completes W us) : c.Completes W (t :: us) where
  mem := List.forall_mem_cons.2 ⟨ht, h.mem⟩
  accepts pos := by
    rw [Config.Accepts, Config.strict_of_shift (hc pos) (hW.isEnd h.mem)]
    exact h.accepts (pos + 1)

private theorem pop {r : Int} {next : V → Action V V} {v : V} (h : Completes W ⟨next v, stack⟩ us)
    (hr : (us.headD .sentinel).lbp ≤ r) : Completes W ⟨.done v, ⟨r, next⟩ :: stack⟩ us where
  mem := h.mem
  accepts pos := by
    rw [Config.Accepts, Config.strict, Config.run_done_pop rfl hr]
    exact h.accepts pos

theorem look {next : Option Profile → Int → Action V V} {v : V}
    (h : Completes W ⟨.done v, stack⟩ us)
    (hnext : ∀ pos, next (some (us.headD .sentinel).profile) pos = .done v) :
    Completes W ⟨.look next, stack⟩ us where
  mem := h.mem
  accepts pos := by
    have hrun (p : Parser V) : (⟨.look next, stack⟩ : Config V).run p =
        (⟨next p.lookahead p.pos, stack⟩ : Config V).run p := rfl
    rw [Config.Accepts, Config.strict, hrun, Parser.lookahead_facing, hnext]
    exact h.accepts pos

end Config.Completes

section
variable {stack : List (Frame V)}

/-- It is enough to know how to complete after values. Where an operand has just been read, a token
comes next that does not go on with it. -/
theorem Ready.completes_of_done (hW : Productive W Good)
    (hdone : ∀ v, Good v →
      ∃ us, Config.Completes W ⟨.done v, stack⟩ us ∧ (us.headD .sentinel).lbp = 0)
    {ended : Bool} {a : Action V V} (h : Ready W Good ended a) :
    ∃ us, Config.Completes W ⟨a, stack⟩ us ∧ (ended = true → (us.headD .sentinel).lbp = 0) := by
  induction h with
  | done hv =>
    obtain ⟨us, hus, hl⟩ := hdone _ hv
    exact ⟨us, hus, fun _ => hl⟩
  | expression hr _ ih =>
    obtain ⟨t, v, ht, hnud, hv⟩ := hW.operand
    obtain ⟨us, hus, hl⟩ := ih v hv
    exact ⟨t :: us, (hus.pop (hl rfl ▸ hr)).shift hW ht fun _ => Config.sees_expression hnud, by simp⟩
  | @expect m next d hd hn hl _ _ ih =>
    obtain ⟨us, hus, -⟩ := ih (some d.profile)
    exact ⟨d :: us, hus.shift hW hd fun _ => Config.sees_expect hn, fun _ => hl⟩
  | @attempt m next d hd hn hl _ _ _ ih =>
    obtain ⟨us, hus, -⟩ := ih
    exact ⟨d :: us, hus.shift hW hd fun _ => Config.sees_attempt hn, fun _ => hl⟩
  | look hv hnext =>
    obtain ⟨us, hus, hl⟩ := hdone _ hv
    exact ⟨us, hus.look fun pos => (hnext _ pos).resolve_right fun h => h.1 hl, fun _ => hl⟩

private theorem Frame.completes_done (hW : Productive W Good) (hs : ∀ f ∈ stack, f.Waits W Good) {v : V}
    (hv : Good v) :
    ∃ us, Config.Completes W ⟨.done v, stack⟩ us ∧ (us.headD .sentinel).lbp = 0 := by
  induction stack generalizing v with
  | nil => exact ⟨[], ⟨List.forall_mem_nil _, fun _ => ⟨v, rfl⟩⟩, rfl⟩
  | cons f stack ih =>
    obtain ⟨⟨hr, hnext⟩, hs⟩ := List.forall_mem_cons.1 hs
    obtain ⟨us, hus, hl⟩ := (hnext v hv).completes_of_done hW fun v hv => ih hs hv
    exact ⟨us, hus.pop (hl rfl ▸ hr), hl rfl⟩

/-- A parse that has not failed can be completed. -/
theorem Config.Live.completes (hW : Productive W Good) {c : Config V} (hc : c.Live W Good) :
    ∃ us, c.Completes W us := by
  obtain ⟨us, hus, -⟩ :=
    hc.action.completes_of_done hW fun v hv => Frame.completes_done hW hc.stack hv
  exact ⟨us, hus⟩

end

/-- The failure of a run on `ts` at the first token that no accepted input has there: what is before
it can be completed, but not with it, whatever follows. -/
structure Config.FailsFirst (W : Token V → Prop) (c : Config V) (pos : Int) (ts : List (Token V))
    (e : ParseError) (before rest : List (Token V)) : Prop where
  split : ts = before ++ rest
  fails : (c.strict (.facing none pos ts)).result = .error (.parse e)
  reports : e.Reports (pos + before.length)
  viable : ∃ us, (∀ u ∈ us, W u) ∧ c.Accepts pos (before ++ us)
  fatal : ∀ t us, rest.head? = some t → (∀ u ∈ us, W u) → ¬ c.Accepts pos (before ++ t :: us)

/-- A token that does not keep a parse live makes it fail, whatever follows. -/
theorem Config.Live.shifts_or_fails (hW : Productive W Good) {c : Config V} (hc : c.Live W Good)
    {t : Token V} (ht : W t) (pos : Int) :
    (∃ d, d.Live W Good ∧ c.Sees t pos (.shift d)) ∨
      ∃ e : ParseError, e.Reports pos ∧ ∀ us, (∀ u ∈ us, W u) →
        (c.strict (.facing none pos (t :: us))).result = .error (.parse e) := by
  obtain ⟨s, hsees, hfits⟩ := hc.fits hW (.inl ht) pos
  cases hfits with
  | live _ h => exact .inl ⟨_, h, hsees⟩
  | doomed h =>
    obtain ⟨e, he, hfail⟩ := h.strict
    refine .inr ⟨e, he, fun us hus => ?_⟩
    rw [Config.strict_of_shift hsees (hW.isEnd hus)]
    exact hfail _ rfl
  | reject h =>
    refine .inr ⟨_, h, fun us _ => ?_⟩
    rw [hsees.strict rfl rfl rfl]
    rfl
  | stop =>
    refine .inr ⟨_, .unexpected (some t.profile) "end of input", fun us hus => ?_⟩
    have hend : (Parser.facing none pos (t :: us)).atEnd = false :=
      Parser.atEnd_facing (List.forall_mem_cons.2 ⟨(hW.regular t ht).identity,
        fun u hu => (hW.regular u (hus u hu)).identity⟩)
    rw [hsees.strict rfl rfl rfl, Move.strict, hend]
    rfl

/-- At the end of its input a live configuration accepts or fails there. -/
theorem Config.Live.accepts_or_fails (hW : Productive W Good) {c : Config V} (hc : c.Live W Good)
    (pos : Int) :
    c.Accepts pos [] ∨ ∃ e : ParseError, e.Reports pos ∧
      (c.strict (.facing none pos [])).result = .error (.parse e) := by
  obtain ⟨s, hsees, hfits⟩ := hc.fits hW (.inr rfl) pos
  have hstrict := hsees.strict (p := .facing none pos []) rfl rfl rfl
  cases hfits with
  | live ht _ => exact absurd rfl (hW.regular _ ht).identity
  | doomed h =>
    obtain ⟨e, he, hfail⟩ := h.strict
    refine .inr ⟨e, he, ?_⟩
    rw [hstrict, Move.strict, Parser.advance_facing_nil]
    exact hfail _ rfl
  | reject h =>
    refine .inr ⟨_, h, ?_⟩
    rw [hstrict]
    rfl
  | @stop v =>
    refine .inl ⟨v, ?_⟩
    rw [hstrict]
    rfl

namespace Config.FailsFirst
variable {c d : Config V} {t : Token V} {pos : Int} {ts before rest : List (Token V)} {e : ParseError}

/-- A failure at once, whatever follows. -/
theorem of_head (hW : Productive W Good) (hc : c.Live W Good) (hts : ∀ u ∈ ts, W u)
    (he : e.Reports pos) (hfail : ∀ us, (∀ u ∈ us, W u) →
      (c.strict (.facing none pos (t :: us))).result = .error (.parse e)) :
    c.FailsFirst W pos (t :: ts) e [] (t :: ts) where
  split := rfl
  fails := hfail ts hts
  reports := by simpa using he
  viable := by
    obtain ⟨us, hus⟩ := hc.completes hW
    exact ⟨us, hus.mem, hus.accepts pos⟩
  fatal u us hu hus hacc := by
    obtain rfl := Option.some.inj hu
    obtain ⟨v, hv⟩ := hacc
    cases (hfail us hus).symm.trans hv

/-- A failure after one more token. -/
theorem shift (hW : Productive W Good) (hts : ∀ u ∈ ts, W u) (hsees : c.Sees t pos (.shift d))
    (h : d.FailsFirst W (pos + 1) ts e before rest) :
    c.FailsFirst W pos (t :: ts) e (t :: before) rest := by
  obtain ⟨rfl, hfails, hreports, ⟨us, hus, hacc⟩, hfatal⟩ := h
  obtain ⟨hbefore, hrest⟩ := List.forall_mem_append.1 hts
  have hstep (us : List (Token V)) (hus : ∀ u ∈ us, W u) :
      c.strict (.facing none pos (t :: us)) = d.strict (.facing none (pos + 1) us) :=
    strict_of_shift hsees (hW.isEnd hus)
  refine ⟨rfl, ?_, ?_, ⟨us, hus, ?_⟩, fun u us hu hus hacc => hfatal u us hu hus ?_⟩
  · rw [hstep _ hts]
    exact hfails
  · have hpos : pos + (t :: before).length = pos + 1 + before.length := by
      rw [List.length_cons]
      omega
    rwa [hpos]
  · rwa [Accepts, List.cons_append, hstep _ (List.forall_mem_append.2 ⟨hbefore, hus⟩)]
  · have hmem : ∀ x ∈ before ++ u :: us, W x :=
      List.forall_mem_append.2
        ⟨hbefore, List.forall_mem_cons.2 ⟨hrest u (List.mem_of_mem_head? hu), hus⟩⟩
    rwa [Accepts, List.cons_append, hstep _ hmem] at hacc

end Config.FailsFirst

/-- A live configuration accepts its input or fails at the first token that cannot be. -/
theorem Config.Live.fate (hW : Productive W Good) {c : Config V} (hc : c.Live W Good)
    {ts : List (Token V)} (hts : ∀ t ∈ ts, W t) (pos : Int) :
    c.Accepts pos ts ∨ ∃ e before rest, c.FailsFirst W pos ts e before rest := by
  induction ts generalizing c pos with
  | nil =>
    rcases hc.accepts_or_fails hW pos with h | ⟨e, he, hfail⟩
    · exact .inl h
    · obtain ⟨us, hus⟩ := hc.completes hW
      exact .inr ⟨e, [], [], rfl, hfail, by simpa using he, ⟨us, hus.mem, hus.accepts pos⟩, by simp⟩
  | cons t ts ih =>
    obtain ⟨ht, hts⟩ := List.forall_mem_cons.1 hts
    rcases hc.shifts_or_fails hW ht pos with ⟨d, hd, hsees⟩ | ⟨e, he, hfail⟩
    · rcases ih hd hts (pos + 1) with h | ⟨e, before, rest, h⟩
      · left
        rwa [Config.Accepts, Config.strict_of_shift hsees (hW.isEnd hts)]
      · exact .inr ⟨e, t :: before, rest, h.shift hW hts hsees⟩
    · exact .inr ⟨e, [], t :: ts, .of_head hW hc hts he hfail⟩

/-- If the input itself fails after some tokens, so does the parse, there or before. -/
theorem Config.Live.fails_of_failure (hW : Productive W Good) {c : Config V} (hc : c.Live W Good)
    {ts : List (Token V)} (hts : ∀ u ∈ ts, W u) (hne : ts ≠ []) (pos : Int) (e : ParseError) :
    ∃ err, (c.strict (.facing (some (.parse e)) pos ts)).result = .error (.parse err) := by
  induction ts generalizing c pos with
  | nil => exact absurd rfl hne
  | cons t ts ih =>
    obtain ⟨ht, hts⟩ := List.forall_mem_cons.1 hts
    obtain ⟨s, hsees, hfits⟩ := hc.fits hW (.inl ht) pos
    have shifts {d : Config V} (h : ts ≠ [] → ∃ err, (d.strict
        (.facing (some (.parse e)) (pos + 1) ts)).result = .error (.parse err)) :
        ∃ err, ((Move.shift d).strict (.facing (some (.parse e)) pos (t :: ts))).result =
          .error (.parse err) := by
      cases ts with
      | nil => exact ⟨e, rfl⟩
      | cons u us =>
        rw [Move.strict, Parser.advance_facing_cons (hW.isEnd hts) (.inr (List.cons_ne_nil u us))]
        exact h (List.cons_ne_nil u us)
    rw [hsees.strict rfl rfl rfl]
    cases hfits with
    | live _ h => exact shifts fun hne => ih h hts hne (pos + 1)
    | doomed h =>
      obtain ⟨err, -, hfail⟩ := h.strict
      exact shifts fun _ => ⟨err, hfail _ rfl⟩
    | reject h => exact ⟨_, rfl⟩
    | stop =>
      have hend : (Parser.facing (some (.parse e)) pos (t :: ts)).atEnd = false :=
        Parser.atEnd_facing (List.forall_mem_cons.2 ⟨(hW.regular t ht).identity,
          fun u hu => (hW.regular u (hts u hu)).identity⟩)
      rw [Move.strict, hend]
      exact ⟨_, rfl⟩

end BindingPower
