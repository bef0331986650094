import BindingPower.Proofs.Parser.Facing

/-! A parse as the run of a machine: a handler under way, the expressions around it that are not
finished, and one token of lookahead, which alone decides the next move. -/
namespace BindingPower
variable {V α β γ : Type}

theorem Outcome.andThen_assoc (o : Outcome V α) (f : α → Parser V → Outcome V β)
    (g : β → Parser V → Outcome V γ) :
    (o.andThen f).andThen g = o.andThen fun a p => (f a p).andThen g := by
  cases h : o.result with
  | ok a => rw [andThen_ok f h, andThen_ok _ h]
  | error e => rw [andThen_error f h, andThen_error _ h, andThen_error g rfl]

theorem Parser.trace_advance (p : Parser V) : p.advance.parser.trace = p.trace := by
  unfold advance
  split <;> rfl

theorem Parser.report_of_quiet {p : Parser V} (h : p.trace = false) (role : Role) (t : Token V)
    (pos : Int) : p.report role t pos = p := by
  simp [report, h]

/-- An expression that waits for a handler: it goes on with operators that bind tighter than `rbp`,
and its value goes to the handler that asked for it. -/
structure Frame (V : Type) where
  rbp : Int
  next : V → Action V V

/-- Finishes the expressions around a value, innermost first. -/
def Frame.unwind : List (Frame V) → V → Parser V → Outcome V V
  | [], v, p => ⟨.ok v, p⟩
  | f :: fs, v, p =>
    (p.operators f.rbp v).andThen fun v p =>
      ((f.next v).run Parser.expression p).andThen (unwind fs)

/-- A handler under way, and the expressions around it. -/
structure Config (V : Type) where
  action : Action V V
  stack : List (Frame V)

/-- What a lookahead makes of a configuration. -/
inductive Move (V : Type) where
  /-- The lookahead is consumed. -/
  | shift (c : Config V)
  | reject (e : Failure)
  /-- All expressions end before the lookahead. -/
  | stop (v : V)

namespace Config

def run (c : Config V) (p : Parser V) : Outcome V V :=
  (c.action.run Parser.expression p).andThen (Frame.unwind c.stack)

/-- A run after which the input must end. -/
def strict (c : Config V) (p : Parser V) : Outcome V V :=
  (c.run p).andThen fun v p =>
    if p.atEnd then ⟨.ok v, p⟩
    else ⟨.error (.parse (.unexpected p.pos p.lookahead "end of input")), p⟩

/-- Where a parse starts. -/
def start : Config V := ⟨.expression 0 .done, []⟩

end Config

namespace Move

def outcome : Move V → Parser V → Outcome V V
  | shift c, p => p.advance.andThen fun _ q => c.run q
  | reject e, p => ⟨.error e, p⟩
  | stop v, p => ⟨.ok v, p⟩

/-- The same with a look at the end. -/
def strict (s : Move V) (p : Parser V) : Outcome V V :=
  match s with
  | shift c => p.advance.andThen fun _ q => c.strict q
  | reject e => ⟨.error e, p⟩
  | stop v =>
    if p.atEnd then ⟨.ok v, p⟩
    else ⟨.error (.parse (.unexpected p.pos p.lookahead "end of input")), p⟩

end Move

namespace Config

/-- The move of a configuration before this lookahead, wherever the rest of the input leads. -/
def Sees (c : Config V) (t : Token V) (pos : Int) (s : Move V) : Prop :=
  ∀ p : Parser V, p.trace = false → p.token = some t → p.pos = pos → c.run p = s.outcome p

variable {t : Token V} {pos : Int} {stack : List (Frame V)} {s : Move V} {v : V} {r : Int}
  {next : V → Action V V}

theorem Sees.strict {c : Config V} (h : c.Sees t pos s) {p : Parser V} (ht : p.trace = false)
    (hp : p.token = some t) (hpos : p.pos = pos) : c.strict p = s.strict p := by
  rw [Config.strict, h p ht hp hpos]
  cases s with
  | shift c => exact Outcome.andThen_assoc ..
  | reject e => rfl
  | stop v => rfl

theorem sees_fail (e : Failure) : (⟨.fail e, stack⟩ : Config V).Sees t pos (.reject e) :=
  fun _ _ _ _ => rfl

theorem sees_done_nil : (⟨.done v, []⟩ : Config V).Sees t pos (.stop v) := fun _ _ _ _ => rfl

/-- Before a token that binds no tighter than an expression goes on to, the expression is left to the
handler that asked for it. -/
theorem run_done_pop {p : Parser V} (hp : p.token = some t) (hr : t.lbp ≤ r) :
    (⟨.done v, ⟨r, next⟩ :: stack⟩ : Config V).run p = (⟨next v, stack⟩ : Config V).run p := by
  have hle : ¬ p.token.any (fun t => r < t.lbp) = true := by
    simpa [hp] using hr
  have hops : p.operators r v = ⟨.ok v, p⟩ := by
    rw [Parser.operators_eq, if_neg hle]
  rw [run, run, Action.run, Outcome.andThen_ok _ rfl, Frame.unwind, hops, Outcome.andThen_ok _ rfl]

theorem sees_done_pop (hr : t.lbp ≤ r) (h : (⟨next v, stack⟩ : Config V).Sees t pos s) :
    (⟨.done v, ⟨r, next⟩ :: stack⟩ : Config V).Sees t pos s :=
  fun p ht hp hpos => (run_done_pop hp hr).trans (h p ht hp hpos)

/-- A token that binds tighter goes on with the expression. -/
theorem sees_done_led {led : V → Action V V} (hr : r < t.lbp) (hled : t.led = some led) :
    (⟨.done v, ⟨r, next⟩ :: stack⟩ : Config V).Sees t pos
      (.shift ⟨led v, ⟨r, next⟩ :: stack⟩) := by
  intro p ht hp hpos
  have hlt : p.token.any (fun t => r < t.lbp) = true := by
    simpa [hp] using hr
  rw [run, Action.run, Outcome.andThen_ok _ rfl, Frame.unwind, Parser.operators_eq, if_pos hlt,
    Outcome.andThen_assoc]
  refine Outcome.andThen_congr _ fun u hu => ?_
  obtain rfl : u = some t := (Parser.advance_result hu).trans hp
  simp only [Option.bind_some, hled, Option.map_some]
  rw [Parser.report_of_quiet ((Parser.trace_advance p).trans ht), Outcome.andThen_assoc]
  rfl

theorem sees_expression {nud : Action V V} (hnud : t.nud = some nud) :
    (⟨.expression r next, stack⟩ : Config V).Sees t pos (.shift ⟨nud, ⟨r, next⟩ :: stack⟩) := by
  intro p ht hp hpos
  rw [run, Action.run, Parser.expression_eq, Outcome.andThen_assoc, Outcome.andThen_assoc]
  refine Outcome.andThen_congr _ fun u hu => ?_
  obtain rfl : u = some t := (Parser.advance_result hu).trans hp
  simp only [Option.bind_some, hnud, Option.map_some]
  rw [Parser.report_of_quiet ((Parser.trace_advance p).trans ht), Outcome.andThen_assoc]
  rfl

/-- A token that cannot start an expression is consumed before it is refused. -/
theorem sees_expression_none (hnud : t.nud = none) :
    (⟨.expression r next, stack⟩ : Config V).Sees t pos
      (.shift ⟨.fail (.parse (.missingPrefix pos (some t.profile))), stack⟩) := by
  intro p ht hp hpos
  rw [run, Action.run, Parser.expression_eq, Outcome.andThen_assoc, Outcome.andThen_assoc]
  refine Outcome.andThen_congr _ fun u hu => ?_
  obtain rfl : u = some t := (Parser.advance_result hu).trans hp
  simp only [Option.bind_some, hnud, Option.map_none, Parser.lookahead, hp, hpos, Option.map_some]
  rfl

section
variable {name : String}

theorem sees_expect {next : Option Profile → Action V V} (ht : t.name = some name) :
    (⟨.expect (.named name) next, stack⟩ : Config V).Sees t pos
      (.shift ⟨next (some t.profile), stack⟩) := by
  intro p _ hp hpos
  have hacc : p.expect (.named name) = p.advance := by
    simp only [Parser.expect, Parser.lookahead, hp, Option.map_some, Parser.accepts_named, ht,
      decide_true]
  rw [run, Action.run, hacc, Outcome.andThen_assoc]
  refine Outcome.andThen_congr _ fun u hu => ?_
  obtain rfl : u = some t := (Parser.advance_result hu).trans hp
  rfl

theorem sees_expect_ne {next : Option Profile → Action V V} (ht : t.name ≠ some name) :
    (⟨.expect (.named name) next, stack⟩ : Config V).Sees t pos
      (.reject (.parse (.unexpected pos (some t.profile) (Text.quoted name)))) := by
  intro p _ hp hpos
  have hacc : p.expect (.named name) =
      ⟨.error (.parse (.unexpected pos (some t.profile) (Text.quoted name))), p⟩ := by
    simp only [Parser.expect, Parser.lookahead, hp, hpos, Option.map_some, Parser.accepts_named, ht,
      decide_false]
    rfl
  rw [run, Action.run, hacc, Outcome.andThen_error _ rfl, Outcome.andThen_error _ rfl]
  rfl

theorem sees_attempt {next : Bool → Action V V} (ht : t.name = some name) :
    (⟨.attempt (.named name) next, stack⟩ : Config V).Sees t pos
      (.shift ⟨next true, stack⟩) := by
  intro p _ hp hpos
  have hacc : p.attempt (.named name) = p.advance.andThen fun _ p => ⟨.ok true, p⟩ := by
    simp only [Parser.attempt, Parser.lookahead, hp, Option.map_some, Parser.accepts_named, ht,
      decide_true]
  rw [run, Action.run, hacc, Outcome.andThen_assoc, Outcome.andThen_assoc]
  rfl

theorem sees_attempt_ne {next : Bool → Action V V} (ht : t.name ≠ some name)
    (h : (⟨next false, stack⟩ : Config V).Sees t pos s) :
    (⟨.attempt (.named name) next, stack⟩ : Config V).Sees t pos s := by
  intro p htr hp hpos
  have hacc : p.attempt (.named name) = ⟨.ok false, p⟩ := by
    simp only [Parser.attempt, Parser.lookahead, hp, Option.map_some, Parser.accepts_named, ht,
      decide_false]
  rw [← h p htr hp hpos, run, Action.run, hacc]
  rfl

end

theorem sees_look {next : Option Profile → Int → Action V V}
    (h : (⟨next (some t.profile) pos, stack⟩ : Config V).Sees t pos s) :
    (⟨.look next, stack⟩ : Config V).Sees t pos s := by
  intro p ht hp hpos
  rw [← h p ht hp hpos, run, Action.run, Parser.lookahead, hp, hpos]
  rfl

end Config

/-- A strict run of a parser is a strict run of the machine from its start. -/
theorem Stream.parse_eq_strict {failure : Option Failure} {ts : List (Token V)}
    (h : ∀ u ∈ ts, u.isEnd = false) (hd : failure = none ∨ ts ≠ []) :
    (Stream.mk ts failure).parse false true = Config.start.strict (.facing failure 0 ts) := by
  rw [Stream.parse_eq h hd, Config.strict, Config.run, Config.start, Action.run,
    Outcome.andThen_assoc, Outcome.andThen_assoc]
  refine Outcome.andThen_congr _ fun v _ => ?_
  rw [Action.run, Outcome.andThen_ok _ rfl, Frame.unwind, Outcome.andThen_ok _ rfl]
  cases Parser.atEnd _ <;> rfl

end BindingPower
