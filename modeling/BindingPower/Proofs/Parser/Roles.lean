import BindingPower.Proofs.Parser.Account
import BindingPower.Proofs.Parser.Spelling
import Mathlib.Data.List.Forall2
import Mathlib.Data.List.Nodup

/-! What a token is used for depends on the token before it alone. At each token of a parse either an
expression has to begin or one has just come to a place where it may end, and the token that is consumed
there settles which of the two it is at the next. So no token is skipped and none is used twice, and an
operator that can be either is a prefix at the places of the first sort and an infix at the others. -/
namespace BindingPower
variable {V : Type} {P : Matcher → Prop} {due : Prop}

/-! What tokens leave -/

/-- What a handler demands a token for. -/
inductive Mark where
  | close
  | separator
  | thenMark
  | elseMark
  | endMark

/-- An expression begins after the mark. -/
def Mark.Opens : Mark → Prop
  | separator | thenMark | elseMark => True
  | close | endMark => False

namespace Kind

/-- What the demands of a handler of the kind are for, counted from zero, and what they are met by. -/
def demand : Kind V → (demands : ℕ) → Option (Mark × Matcher)
  | group close _, 0 => some (.close, close)
  | ternary separator _, 0 => some (.separator, separator)
  | conditional thenMark _ _ _, 0 => some (.thenMark, thenMark)
  | conditional _ elseMark _ _, 1 => some (.elseMark, elseMark)
  | conditional _ _ endMark _, 2 => some (.endMark, endMark)
  | _, _ => none

/-- An expression may end with a token of the kind. -/
def Closes : Kind V → Prop
  | literal .. | digit .. | postfixOp .. => True
  | _ => False

end Kind

namespace Manner

/-- The role in which a token is dispatched, if it is. -/
def role : Manner V → Option Role
  | starts => some .nud
  | follows _ => some .led
  | _ => none

/-- What a token is demanded for. -/
def mark : Manner V → Option Mark
  | demanded (some h) => (h.token.kind.demand h.demands).map (·.1)
  | _ => none

end Manner

namespace Use

/-- An operator that takes an expression after it, or a keyword that an expression comes after. -/
def Opens (u : Use V) : Prop :=
  u.token.kind.Opens ∨ u.token.kind = .keyword ∧ ∃ mark ∈ u.manner.mark, mark.Opens

/-- An operand, an operator after its operand, or a keyword that ends an operand. -/
def Closes (u : Use V) : Prop :=
  u.token.kind.Closes ∨ u.token.kind = .keyword ∧ ∃ mark ∈ u.manner.mark, ¬ mark.Opens

/-- The token meets a demand that a handler makes in its turn. -/
def Meets (u : Use V) : Prop :=
  ∃ handler mark m, u.manner = .demanded (some handler) ∧
    handler.token.kind.demand handler.demands = some (mark, m) ∧
    m.accepts (some u.token.profile) = .ok true

/-- The line that is printed of the token. -/
def line (u : Use V) : Option Event :=
  u.manner.role.map fun role => .dispatch role u.token.profile u.index

/-- A use where an expression has to begin or not, and whether one has to after it. -/
structure Passes (due : Prop) (u : Use V) (due' : Prop) : Prop where
  nud : u.manner.role = some .nud → due
  led : u.manner.role = some .led → ¬ due
  demanded : u.manner.role = none → u.token.kind = .keyword ∧ u.Meets
  opens : u.Opens ↔ due'
  closes : u.Closes ↔ ¬ due'

end Use

/-- Uses that fit each other, up to one for which a token has not the handler. -/
inductive Alternates : Prop → List (Use V) → Except Failure V → Prop
  | done {due r} : Alternates due [] r
  | use {due due' u uses r} (h : Use.Passes due u due') (rest : Alternates due' uses r) :
      Alternates due (u :: uses) r
  | refused {due u e} (hu : u.manner = .refused) : Alternates due [u] (.error e)

/-! Handlers -/

/-- A handler of the kind that has met so many demands. It asks for an expression where one is due, and
nothing else there; it demands tokens for what its kind does, and ends where nothing is due. -/
def Action.Paced (P : Matcher → Prop) (k : Kind V) : (demands : ℕ) → (due : Prop) → Action V V → Prop
  | _, due, .done _ => ¬ due
  | _, _, .fail _ => True
  | n, due, .expression _ next => due ∧ ∀ v, Paced P k n False (next v)
  | n, due, .expect m next => ¬ due ∧ P m ∧ ∃ mark, k.demand n = some (mark, m) ∧
      ∀ t, Paced P k (n + 1) mark.Opens (next t)
  | n, due, .attempt m next => ¬ due ∧ P m ∧ ∃ mark, k.demand n = some (mark, m) ∧
      Paced P k (n + 1) mark.Opens (next true) ∧ Paced P k (n + 1) False (next false)
  | _, _, .advance _ | _, _, .emit .. => False
  | n, due, .look next => ∀ t pos, Paced P k n due (next t pos)

namespace Kind
variable {k : Kind V} {n : ℕ}

private theorem paced_finish (h : ¬ due) (r : Except Fault V) : (Action.finish r).Paced P k n due := by
  cases r with
  | ok v => exact h
  | error f => trivial

private theorem paced_combine {lbp : Int} {name : Option String} {assoc : Assoc}
    {fn : V → V → Except Fault V} (v w : V) : (combine lbp name assoc fn v w).Paced P k n False := by
  unfold combine
  split
  · intro t pos
    dsimp only
    split
    · trivial
    · exact paced_finish not_false _
  · exact paced_finish not_false _

/-- Dispatched at the start of an expression, a token leaves one due if its kind opens any. -/
theorem paced_nud (hk : k.Stock P) : ∀ a ∈ k.nud, a.Paced P k 0 k.Opens := by
  cases k with
  | literal value =>
    rintro a ⟨⟩
    exact not_false
  | digit value make extend joins =>
    rintro a ⟨⟩
    exact paced_finish not_false _
  | prefixOp rbp fn =>
    rintro a ⟨⟩
    exact ⟨trivial, fun v => paced_finish not_false _⟩
  | bifix assoc infixFn rbp fn =>
    rintro a ⟨⟩
    exact ⟨trivial, fun v => paced_finish not_false _⟩
  | group close wrap =>
    rintro a ⟨⟩
    refine ⟨trivial, fun v => ⟨not_false, hk, .close, rfl, fun _ => ?_⟩⟩
    cases wrap with
    | none => exact not_false
    | some wrap => exact paced_finish not_false _
  | conditional thenMark elseMark endMark fn =>
    obtain ⟨hthen, helse, hend⟩ := hk
    rintro a ⟨⟩
    refine ⟨trivial, fun c => ⟨not_false, hthen, .thenMark, rfl, fun _ => ⟨trivial, fun v => ?_⟩⟩⟩
    refine ⟨not_false, helse, .elseMark, rfl, ⟨trivial, fun w => ?_⟩, ?_⟩
    · exact ⟨not_false, hend, .endMark, rfl, fun _ => paced_finish not_false _⟩
    · exact ⟨not_false, hend, .endMark, rfl, fun _ => paced_finish not_false _⟩
  | endToken | infixOp | postfixOp | keyword | ternary => exact fun a ha => nomatch ha
  | scripted | duck | traced => exact hk.elim

private theorem paced_led {identity : Identity} {lbp : Int} {name : Option String} (hk : k.Stock P) :
    ∀ led ∈ k.led identity lbp name, ∀ v, (led v).Paced P k 0 k.Opens := by
  cases k with
  | digit value make extend joins =>
    rintro a ⟨⟩ v
    dsimp only
    split
    · trivial
    · exact paced_finish not_false _
    · exact fun t pos => trivial
  | infixOp assoc fn =>
    rintro a ⟨⟩ v
    exact ⟨trivial, fun w => paced_combine v w⟩
  | bifix assoc fn rbp prefixFn =>
    rintro a ⟨⟩ v
    exact ⟨trivial, fun w => paced_combine v w⟩
  | postfixOp fn =>
    rintro a ⟨⟩ v
    exact paced_finish not_false _
  | ternary separator fn =>
    rintro a ⟨⟩ v
    exact ⟨trivial, fun w => ⟨not_false, hk, .separator, rfl, fun _ =>
      ⟨trivial, fun x => paced_finish not_false _⟩⟩⟩
  | endToken | literal | prefixOp | group | keyword | conditional => exact fun a ha => nomatch ha
  | scripted | duck | traced => exact hk.elim

end Kind

/-! Uses -/

namespace Use
variable {t : Token V} {pos : Int}

/-- A token that can be dispatched either opens an expression or closes one. -/
theorem opens_or_closes (ht : t.kind.Stock P) (hacts : t.acts = true) (m : Manner V) :
    ((⟨pos, t, m⟩ : Use V).Opens ↔ t.kind.Opens) ∧
      ((⟨pos, t, m⟩ : Use V).Closes ↔ ¬ t.kind.Opens) := by
  obtain ⟨identity, lbp, name, k⟩ := t
  cases k with
  | endToken | keyword => cases hacts
  | scripted | duck | traced => exact ht.elim
  | literal | digit | infixOp | prefixOp | bifix | postfixOp | group | ternary | conditional =>
    simp [Opens, Closes, Kind.Opens, Kind.Closes]

private theorem passes_starts (ht : t.kind.Stock P) (hacts : t.acts = true) (hdue : due) :
    Passes due ⟨pos, t, .starts⟩ t.kind.Opens where
  nud _ := hdue
  led := nofun
  demanded := nofun
  opens := (opens_or_closes ht hacts _).1
  closes := (opens_or_closes ht hacts _).2

private theorem passes_follows (ht : t.kind.Stock P) (hacts : t.acts = true) (hdue : ¬ due)
    (left : Option (Handler V)) : Passes due ⟨pos, t, .follows left⟩ t.kind.Opens where
  nud := nofun
  led _ := hdue
  demanded := nofun
  opens := (opens_or_closes ht hacts _).1
  closes := (opens_or_closes ht hacts _).2

private theorem passes_demanded {h : Handler V} {mark : Mark} {m : Matcher} (ht : t.kind = .keyword)
    (hdemand : h.token.kind.demand h.demands = some (mark, m))
    (haccepts : m.accepts (some t.profile) = .ok true) :
    Passes due ⟨pos, t, .demanded (some h)⟩ mark.Opens := by
  have hmark : (Manner.demanded (some h)).mark = some mark := by
    rw [Manner.mark, hdemand]
    rfl
  constructor
  · exact nofun
  · exact nofun
  · exact fun _ => ⟨ht, h, mark, m, rfl, hdemand, haccepts⟩
  · simp [Opens, ht, hmark, Kind.Opens]
  · simp [Closes, ht, hmark, Kind.Closes]

end Use

/-! Configurations -/

/-- A handler is left with what keeps its pace. That of the run demands nothing. -/
def Action.InStep (P : Matcher → Prop) (due : Prop) (a : Action V V) : Option (Handler V) → Prop
  | none => a.Paced P .keyword 0 due
  | some h => a.Paced P h.token.kind h.demands due

/-- The handlers under way are those of the configuration, and nothing is due where they wait for the
expressions that they have asked for. -/
def Config.InStep (P : Matcher → Prop) (due : Prop) (c : Config V) : Handlers V → Prop
  | [] => False
  | h :: hs => c.action.InStep P due h ∧
      List.Forall₂ (fun h f => ∀ v, (f.next v).InStep P False h) hs c.stack

/-- A turn before a token leaves a configuration in step, or it has refused the token. -/
def Turn.InStep (P : Matcher → Prop) (due : Prop) (c : Config V) (hs : Handlers V) (t : Token V)
    (pos : Int) : Turn V → Prop
  | halt _ => True
  | stay event c' => event = none ∧ c'.InStep P due (c.handlers pos none hs)
  | shift d c' =>
    (∃ due', Use.Passes due ⟨pos, t, c.manner d hs⟩ due' ∧ c'.InStep P due' (c.handlers pos d hs)) ∨
      c.manner d hs = .refused ∧ ∃ e, c'.action = .fail e

namespace Config.InStep
variable {c : Config V} {hs : Handlers V} {t : Token V}

private theorem done {v : V} {fs : List (Frame V)} (ht : t.kind.Stock P)
    (hc : (⟨.done v, fs⟩ : Config V).InStep P due hs) (pos : Int) :
    ((⟨.done v, fs⟩ : Config V).turn (some t) pos).InStep P due ⟨.done v, fs⟩ hs t pos := by
  obtain _ | ⟨h, hs⟩ := hs
  · exact hc.elim
  · obtain ⟨hdone, hstack⟩ := hc
    have hdue : ¬ due := by cases h <;> exact hdone
    obtain rfl : due = False := eq_false hdue
    cases hstack with
    | nil => trivial
    | @cons h' f hs fs hnext hrest =>
      rw [turn_done]
      split
      · cases hled : t.led with
        | none => exact .inr ⟨rfl, _, rfl⟩
        | some led =>
          have hacts : t.acts = true := by simp [Token.acts, hled]
          exact .inl ⟨_, Use.passes_follows ht hacts not_false h,
            t.kind.paced_led ht led hled v, .cons hnext hrest⟩
      · exact ⟨rfl, hnext v, hrest⟩

private theorem expression {r : Int} {next : V → Action V V} {fs : List (Frame V)}
    (ht : t.kind.Stock P) (hc : (⟨.expression r next, fs⟩ : Config V).InStep P due hs) (pos : Int) :
    ((⟨.expression r next, fs⟩ : Config V).turn (some t) pos).InStep P due
      ⟨.expression r next, fs⟩ hs t pos := by
  obtain _ | ⟨h, hs⟩ := hs
  · exact hc.elim
  · obtain ⟨hasks, hstack⟩ := hc
    have hnext : due ∧ ∀ v, (next v).InStep P False h := by cases h <;> exact hasks
    rw [turn_expression]
    cases hnud : t.nud with
    | none => exact .inr ⟨rfl, _, rfl⟩
    | some nud =>
      have hacts : t.acts = true := by simp [Token.acts, hnud]
      exact .inl ⟨_, Use.passes_starts ht hacts hnext.1, t.kind.paced_nud ht nud hnud,
        .cons hnext.2 hstack⟩

/-- A configuration in step takes its turns in step, where none but keywords are demanded. -/
theorem turn (ht : t.kind.Stock P)
    (hmark : ∀ m, P m → m.accepts (some t.profile) = .ok true → t.kind = .keyword)
    (hc : c.InStep P due hs) (pos : Int) : (c.turn (some t) pos).InStep P due c hs t pos := by
  obtain ⟨a, fs⟩ := c
  cases a with
  | done v => exact done ht hc pos
  | expression r next => exact expression ht hc pos
  | fail e => trivial
  | expect m next =>
    obtain _ | ⟨h, hs⟩ := hs
    · exact hc.elim
    · obtain ⟨hdemand, hstack⟩ := hc
      rw [Config.turn, Option.map_some]
      cases haccepts : m.accepts (some t.profile) with
      | error f => trivial
      | ok met =>
        cases met with
        | false => trivial
        | true =>
          cases h with
          | none =>
            obtain ⟨-, -, mark, hnone, -⟩ := hdemand
            cases hnone
          | some h =>
            obtain ⟨hdue, hm, mark, hfor, hnext⟩ := hdemand
            exact .inl ⟨_, Use.passes_demanded (hmark m hm haccepts) hfor haccepts, hnext _, hstack⟩
  | attempt m next =>
    obtain _ | ⟨h, hs⟩ := hs
    · exact hc.elim
    · obtain ⟨hdemand, hstack⟩ := hc
      rw [Config.turn, Option.map_some]
      cases h with
      | none =>
        obtain ⟨-, -, mark, hnone, -⟩ := hdemand
        cases hnone
      | some h =>
        obtain ⟨hdue, hm, mark, hfor, hmet, hmissed⟩ := hdemand
        cases haccepts : m.accepts (some t.profile) with
        | error f => trivial
        | ok met =>
          cases met with
          | false =>
            obtain rfl : due = False := eq_false hdue
            exact ⟨rfl, hmissed, hstack⟩
          | true =>
            exact .inl ⟨_, Use.passes_demanded (hmark m hm haccepts) hfor haccepts, hmet, hstack⟩
  | look next =>
    obtain _ | ⟨h, hs⟩ := hs
    · exact hc.elim
    · refine ⟨rfl, ?_, hc.2⟩
      have hlook := hc.1
      cases h <;> exact hlook _ _
  | advance | emit =>
    obtain _ | ⟨_ | h, hs⟩ := hs
    · exact hc.elim
    · exact hc.1.elim
    · exact hc.1.elim

end Config.InStep

/-! Runs -/

namespace Account
variable {hs : Handlers V} {c : Config V} {p : Parser V} {uses : List (Use V)} {o : Outcome V V}

/-- The line of what is consumed is printed if it is dispatched. -/
theorem log_shift (c : Config V) (hs : Handlers V) (d : Option (Dispatch V)) {t : Token V}
    (ht : p.token = some t) (hd : ∀ d' ∈ d, d'.token = t) (htrace : p.trace = true) :
    (p.advance.parser.announce d p.pos).log =
      p.log ++ (c.use p d hs).toList.filterMap Use.line := by
  rw [Parser.log_announce, Parser.log_advance, Parser.trace_advance, htrace, Config.use, ht]
  cases d with
  | none =>
    obtain ⟨a, fs⟩ := c
    cases a <;> rfl
  | some d =>
    obtain ⟨u, left⟩ := d
    obtain rfl : u = t := hd _ rfl
    cases left <;> rfl

/-- The uses of a run in step fit each other, and their lines are what it prints. -/
theorem alternates {s : Stream V} {trace : Bool} {ds : Answers V}
    (hs' : ∀ k t, s.delivery k = .ok t → t.kind.Stock P ∧
      ∀ m, P m → m.accepts (some t.profile) = .ok true → t.kind = .keyword)
    (h : Account hs c p uses o) (hp : Pulls (.ofStream s trace) ds p) (hdrawn : Drawn p)
    (htrace : p.trace = true) (hc : c.InStep P due hs) :
    Alternates due uses o.result ∧ o.parser.log = p.log ++ uses.filterMap Use.line := by
  induction h generalizing ds due with
  | halt => exact ⟨.done, by simp⟩
  | @stay hs c p event c' uses o h _ ih =>
    obtain ⟨k, t, ht, -, hdelivery⟩ := hdrawn.delivered hp
    obtain ⟨hstock, hmark⟩ := hs' k t hdelivery
    have hturn := hc.turn hstock hmark p.pos
    rw [← ht, h] at hturn
    obtain ⟨rfl, hnext⟩ := hturn
    exact ih hp hdrawn htrace hnext
  | unread h he => exact ⟨.done, by simp [Parser.log_advance]⟩
  | @shift hs c p d c' u uses o h hu hrest ih =>
    obtain ⟨k, t, ht, -, hdelivery⟩ := hdrawn.delivered hp
    obtain ⟨hstock, hmark⟩ := hs' k t hdelivery
    have hd : ∀ d' ∈ d, d'.token = t := by
      rintro d' rfl
      have hdispatch := (Config.turn_dispatch h).1
      rw [ht] at hdispatch
      exact (Option.some.inj hdispatch).symm
    have hlog := log_shift c hs d ht hd htrace
    have huse : c.use p d hs = some ⟨p.pos, t, c.manner d hs⟩ := by rw [Config.use, ht]; rfl
    have hturn := hc.turn hstock hmark p.pos
    rw [← ht, h] at hturn
    rcases hturn with ⟨due', hpasses, hnext⟩ | ⟨hrefused, e, hfail⟩
    · have hdrawn' := (Drawn.advance hdrawn.pos hu d p.pos).1
      have htrace' : (p.advance.parser.announce d p.pos).trace = true := by
        rw [Parser.trace_announce, Parser.trace_advance, htrace]
      obtain ⟨halternates, hlogs⟩ := ih (hp.advance.announced d p.pos) hdrawn' htrace' hnext
      rw [hlogs, hlog, huse, List.filterMap_append, List.append_assoc]
      exact ⟨.use hpasses halternates, rfl⟩
    · obtain ⟨a, fs⟩ := c'
      obtain rfl : a = .fail e := hfail
      obtain ⟨rfl, rfl⟩ := hrest.of_fail
      rw [hlog, huse, List.append_nil]
      exact ⟨.refused hrefused, rfl⟩

end Account

/-! What is printed -/

namespace Alternates
variable {uses : List (Use V)} {r : Except Failure V} {i : ℕ} {u : Use V}

/-- Whether an expression is due at a token is settled by the token before it. -/
theorem passes (h : Alternates due uses r) (hu : uses[i]? = some u) :
    (u.manner = .refused ∧ ∃ e, r = .error e) ∨ ∃ here next, u.Passes here next ∧
      (i = 0 → (here ↔ due)) ∧
      ∀ j w, i = j + 1 → uses[j]? = some w → (w.Opens ↔ here) ∧ (w.Closes ↔ ¬ here) := by
  induction h generalizing i with
  | done => cases hu
  | @use due due' first rest r hfirst _ ih =>
    cases i with
    | zero =>
      cases hu
      exact .inr ⟨due, due', hfirst, fun _ => Iff.rfl, fun j w hj => absurd hj (by omega)⟩
    | succ i =>
      rcases ih hu with hrefused | ⟨here, next, hpasses, hstart, hbefore⟩
      · exact .inl hrefused
      · refine .inr ⟨here, next, hpasses, fun hi => absurd hi (by omega), fun j w hj hw => ?_⟩
        cases j with
        | zero =>
          cases hw
          have hhere := hstart (by omega)
          exact ⟨hfirst.opens.trans hhere.symm, hfirst.closes.trans (not_congr hhere.symm)⟩
        | succ j => exact hbefore j w (by omega) hw
  | refused hrefused =>
    cases i with
    | zero =>
      cases hu
      exact .inl ⟨hrefused, _, rfl⟩
    | succ i => cases hu

/-- Where an expression is due a token is dispatched to begin one, and nowhere else. -/
theorem role_iff {role : Role} (h : Alternates True uses r) (hu : uses[i]? = some u)
    (hrole : u.manner.role = some role) :
    (role = .nud ↔ i = 0 ∨ ∃ j w, i = j + 1 ∧ uses[j]? = some w ∧ w.Opens) ∧
      (role = .led ↔ ∃ j w, i = j + 1 ∧ uses[j]? = some w ∧ w.Closes) := by
  rcases h.passes hu with ⟨hrefused, -⟩ | ⟨here, next, hpasses, hstart, hbefore⟩
  · rw [hrefused] at hrole
    cases hrole
  · have hlead : (here ↔ i = 0 ∨ ∃ j w, i = j + 1 ∧ uses[j]? = some w ∧ w.Opens) ∧
        (¬ here ↔ ∃ j w, i = j + 1 ∧ uses[j]? = some w ∧ w.Closes) := by
      cases i with
      | zero => simp [hstart rfl]
      | succ j =>
        obtain ⟨w, hw⟩ : ∃ w, uses[j]? = some w := by
          have hlt := (List.getElem?_eq_some_iff.1 hu).1
          exact ⟨_, List.getElem?_eq_getElem (by omega)⟩
        obtain ⟨hopens, hcloses⟩ := hbefore j w rfl hw
        simp [hw, hopens, hcloses]
    rw [← hlead.1, ← hlead.2]
    cases role with
    | nud => simp [hpasses.nud hrole]
    | led => simp [hpasses.led hrole]

end Alternates

/-- The role and the index of a dispatched token. -/
def Event.place : Event → Option (Role × Int)
  | dispatch role _ pos => some (role, pos)
  | entered .. => none

/-- The roles and indices in the lines that a parse prints. -/
def Outcome.printed (o : Outcome V V) : List (Role × Int) := o.parser.log.filterMap Event.place

namespace Use

def place (u : Use V) : Option (Role × Int) := u.manner.role.map (·, u.index)

private theorem mem_place {u : Use V} {x : Role × Int} :
    x ∈ u.place ↔ u.manner.role = some x.1 ∧ u.index = x.2 := by
  obtain ⟨role, pos⟩ := x
  simp only [place, Option.mem_def, Option.map_eq_some_iff, Prod.mk.injEq]
  constructor
  · rintro ⟨role', hrole, rfl, hpos⟩
    exact ⟨hrole, hpos⟩
  · rintro ⟨hrole, hpos⟩
    exact ⟨role, hrole, rfl, hpos⟩

private theorem place_line (u : Use V) : u.line.bind Event.place = u.place := by
  rw [line, place, Option.bind_map]
  cases u.manner.role <;> rfl

variable {uses : List (Use V)}

/-- The indices in the lines increase. -/
theorem pairwise_place (h : ∀ (i : ℕ) u, uses[i]? = some u → u.index = i) :
    ((uses.filterMap place).map (·.2)).Pairwise (· < ·) := by
  rw [List.pairwise_map, List.pairwise_filterMap, List.pairwise_iff_getElem]
  intro i j hi hj hlt x hx y hy
  obtain ⟨-, hx⟩ := mem_place.1 hx
  obtain ⟨-, hy⟩ := mem_place.1 hy
  rw [h i _ (List.getElem?_eq_getElem hi)] at hx
  rw [h j _ (List.getElem?_eq_getElem hj)] at hy
  omega

private theorem mem_places (h : ∀ (i : ℕ) u, uses[i]? = some u → u.index = i) {role : Role} {pos : Int} :
    (role, pos) ∈ uses.filterMap place ↔
      ∃ (i : ℕ) (u : Use V), pos = i ∧ uses[i]? = some u ∧ u.manner.role = some role := by
  rw [List.mem_filterMap]
  constructor
  · rintro ⟨u, hu, hplace⟩
    obtain ⟨i, hi⟩ := List.mem_iff_getElem?.1 hu
    obtain ⟨hrole, hpos⟩ := mem_place.1 hplace
    exact ⟨i, u, hpos.symm.trans (h i u hi), hi, hrole⟩
  · rintro ⟨i, u, rfl, hi, hrole⟩
    exact ⟨u, List.mem_of_getElem? hi, mem_place.2 ⟨hrole, h i u hi⟩⟩

/-- A token that is dispatched has one line, and any other has none. -/
theorem count_place (h : ∀ (i : ℕ) u, uses[i]? = some u → u.index = i) {i : ℕ} {u : Use V}
    (hu : uses[i]? = some u) :
    ((uses.filterMap place).map (·.2)).count (i : Int) = if u.manner.role.isSome then 1 else 0 := by
  have hnodup : ((uses.filterMap place).map (·.2)).Nodup := (pairwise_place h).imp ne_of_lt
  cases hrole : u.manner.role with
  | some role =>
    have hmem : (role, (i : Int)) ∈ uses.filterMap place := (mem_places h).2 ⟨i, u, rfl, hu, hrole⟩
    exact List.count_eq_one_of_mem hnodup (List.mem_map_of_mem hmem)
  | none =>
    refine List.count_eq_zero_of_not_mem fun hmem => ?_
    obtain ⟨⟨role, pos⟩, hplace, rfl⟩ := List.mem_map.1 hmem
    obtain ⟨j, w, hj, hw, hsome⟩ := (mem_places h).1 hplace
    obtain rfl : i = j := Int.ofNat.inj hj
    cases hu.symm.trans hw
    rw [hrole] at hsome
    cases hsome

end Use

/-- Names that keywords have in a stream, and nothing else. -/
def Stream.Reserves (s : Stream V) (m : Matcher) : Prop :=
  ∃ name, m = .named name ∧ name ≠ Token.endName ∧
    ∀ t ∈ s.tokens, t.name = some name → t.kind = .keyword

private theorem Stream.stock_of_delivery {s : Stream V} (hs : ∀ t ∈ s.tokens, t.kind.Stock s.Reserves)
    (k : ℕ) (t : Token V) (h : s.delivery k = .ok t) : t.kind.Stock s.Reserves ∧
      ∀ m, s.Reserves m → m.accepts (some t.profile) = .ok true → t.kind = .keyword := by
  rcases s.mem_of_delivery h with rfl | ht
  · refine ⟨trivial, ?_⟩
    rintro _ ⟨name, rfl, hname, -⟩ haccepts
    have hmatch : some Token.endName = some name := of_decide_eq_true (Except.ok.inj haccepts)
    exact absurd (Option.some.inj hmatch).symm hname
  · refine ⟨hs t ht, ?_⟩
    rintro _ ⟨name, rfl, -, hkeyword⟩ haccepts
    exact hkeyword t ht (of_decide_eq_true (Except.ok.inj haccepts))

/-- The run itself starts with an expression and demands nothing. -/
theorem Config.inStep_opened (strict : Bool) : (Config.opened strict : Config V).InStep P True [none] := by
  refine ⟨⟨trivial, fun v => ?_⟩, .nil⟩
  cases strict with
  | false => exact not_false
  | true =>
    intro t pos
    dsimp only
    split
    · exact not_false
    · trivial

private theorem Stream.Accounts.alternates {s : Stream V} {strict : Bool} {uses : List (Use V)}
    (hs : ∀ t ∈ s.tokens, t.kind.Stock s.Reserves) (h : s.Accounts true strict uses) :
    Alternates True uses (s.parse true strict).result ∧
      (s.parse true strict).printed = uses.filterMap Use.place := by
  rcases h.opened with ⟨e, -, hparse, rfl⟩ | ⟨t, ht, haccount⟩
  · refine ⟨.done, ?_⟩
    rw [hparse, Outcome.printed, Parser.log_advance]
    rfl
  · have hlog : (s.runner true).advance.parser.log = [] := Parser.log_advance _
    have htrace : (s.runner true).advance.parser.trace = true := Parser.trace_advance _
    obtain ⟨halternates, hlines⟩ := haccount.alternates (s.stock_of_delivery hs)
      (s.pulls_runner true) (drawn_runner ht).1 htrace (Config.inStep_opened strict)
    refine ⟨halternates, ?_⟩
    rw [Outcome.printed, hlines, hlog, List.nil_append, List.filterMap_filterMap]
    exact congrArg (List.filterMap · uses) (funext Use.place_line)

/-- A run uses each token it consumes once, and for what the token before it leaves open. The lines it
prints have increasing indices. If it succeeds, each token before the one where it ends is either printed
once, or it is a keyword and met a demand. And a token that is printed begins an expression if it is the
first or an expression begins after the one before it, and goes on with one if it may end there. -/
theorem roles_alternate (s : Stream V) (hs : ∀ t ∈ s.tokens, t.kind.Stock s.Reserves)
    (strict : Bool) :
    ∃ uses, s.Accounts true strict uses ∧
      (∀ (i : ℕ) u, uses[i]? = some u → u.index = i ∧ s.delivery i = .ok u.token) ∧
      ((s.parse true strict).printed.map (·.2)).Pairwise (· < ·) ∧
      (∀ v, (s.parse true strict).result = .ok v →
        ∀ i : ℕ, i < (s.parse true strict).parser.pos → ∃ u, uses[i]? = some u ∧
          (((s.parse true strict).printed.map (·.2)).count (i : Int) = 1 ∧
              (∀ handler, u.manner ≠ .demanded handler) ∨
            ((s.parse true strict).printed.map (·.2)).count (i : Int) = 0 ∧
              u.token.kind = .keyword ∧ u.Meets)) ∧
      ∀ role pos, (role, pos) ∈ (s.parse true strict).printed →
        (role = .nud ↔ pos = 0 ∨ ∃ u ∈ uses, u.index = pos - 1 ∧ u.Opens) ∧
          (role = .led ↔ ∃ u ∈ uses, u.index = pos - 1 ∧ u.Closes) := by
  obtain ⟨uses, h⟩ := s.exists_accounts true strict
  obtain ⟨hlocated, hend⟩ := h.located
  have hindex (i : ℕ) (u : Use V) (hu : uses[i]? = some u) : u.index = i := (hlocated i u hu).1
  obtain ⟨halternates, hprinted⟩ := h.alternates hs
  have hincreasing := Use.pairwise_place hindex
  rw [hprinted]
  refine ⟨uses, h, hlocated, hincreasing, fun v hv i hi => ?_, fun role pos hmem => ?_⟩
  · have hlt : i < uses.length := by
      rw [hend v hv] at hi
      omega
    have hu : uses[i]? = some uses[i] := List.getElem?_eq_getElem hlt
    refine ⟨uses[i], hu, ?_⟩
    rw [Use.count_place hindex hu]
    rcases halternates.passes hu with ⟨-, e, he⟩ | ⟨here, next, hpasses, -⟩
    · cases hv.symm.trans he
    · cases hrole : uses[i].manner.role with
      | some role =>
        refine .inl ⟨rfl, fun handler hdemanded => ?_⟩
        rw [hdemanded] at hrole
        cases hrole
      | none => exact .inr ⟨rfl, hpasses.demanded hrole⟩
  · obtain ⟨i, u, rfl, hu, hrole⟩ := (Use.mem_places hindex).1 hmem
    have hbefore (Q : Use V → Prop) : (∃ u ∈ uses, u.index = (i : Int) - 1 ∧ Q u) ↔
        ∃ j w, i = j + 1 ∧ uses[j]? = some w ∧ Q w := by
      constructor
      · rintro ⟨w, hw, hpos, hQ⟩
        obtain ⟨j, hj⟩ := List.mem_iff_getElem?.1 hw
        have := hindex j w hj
        exact ⟨j, w, by omega, hj, hQ⟩
      · rintro ⟨j, w, rfl, hj, hQ⟩
        have := hindex j w hj
        exact ⟨w, List.mem_of_getElem? hj, by omega, hQ⟩
    rw [hbefore, hbefore, Int.natCast_eq_zero]
    exact halternates.role_iff hu hrole

def minus : Token ℤ :=
  ⟨.anonymous, 10, some "-", .bifix .left (fun x y => .ok (x - y)) 100 fun x => .ok (-x)⟩

/-- `- (1 - 2)`. -/
def negation : Stream ℤ :=
  ⟨[minus, ⟨.anonymous, 0, some "(", .group (.named ")") none⟩,
    ⟨.anonymous, 0, some "1", .literal 1⟩, minus, ⟨.anonymous, 0, some "2", .literal 2⟩,
    ⟨.anonymous, 0, some ")", .keyword⟩], none⟩

/-- The first sign is a prefix, the second comes after an operand, and the bracket meets a demand. -/
theorem roles_alternate_negation :
    (∀ t ∈ negation.tokens, t.kind.Stock negation.Reserves) ∧
      (negation.parse true true).printed = [(.nud, 0), (.nud, 1), (.nud, 2), (.led, 3), (.nud, 4)] ∧
      ∃ uses, negation.Accounts true true uses ∧ (∃ u ∈ uses, u.index = 2 ∧ u.Closes) ∧
        ∃ u, uses[5]? = some u ∧ u.Meets := by
  have hclose : negation.Reserves (.named ")") := by
    refine ⟨")", rfl, by decide, ?_⟩
    simp [negation, minus]
  have hs : ∀ t ∈ negation.tokens, t.kind.Stock negation.Reserves := by
    simp only [negation, minus, List.forall_mem_cons]
    exact ⟨trivial, hclose, trivial, trivial, trivial, trivial, List.forall_mem_nil _⟩
  have hprinted : (negation.parse true true).printed =
      [(.nud, 0), (.nud, 1), (.nud, 2), (.led, 3), (.nud, 4)] := rfl
  obtain ⟨uses, haccounts, -, -, honce, hrole⟩ := roles_alternate negation hs true
  refine ⟨hs, hprinted, uses, haccounts, ?_, ?_⟩
  · exact (hrole .led 3 (by rw [hprinted]; decide)).2.1 rfl
  · obtain ⟨u, hu, ⟨hone, -⟩ | ⟨-, -, hmeets⟩⟩ := honce 1 rfl 5 (by decide)
    · rw [hprinted] at hone
      cases hone
    · exact ⟨u, hu, hmeets⟩

end BindingPower
