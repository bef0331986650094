import BindingPower.Proofs.Parser.Account
import BindingPower.Proofs.Parser.Boundary
import BindingPower.Proofs.Parser.Stability

/-! How far down an expression goes. Down to a lower power it takes the same turns as down to a higher
one, until the latter ends, and then it goes on from its value with the operators in between. So all that
a binding power decides is where an expression ends, and what comes before does not depend on it. -/
namespace BindingPower
variable {V : Type}

/-- The expression that is asked for from outside, as it waits for an operand. -/
def Frame.outer (r : Int) : Frame V := ⟨r, .done⟩

/-- Configurations that differ in nothing but how far down the expression goes that is asked for from
outside. -/
inductive Config.Lowered (high low : Int) : Config V → Config V → Prop
  | asked : Lowered high low (.alone high) (.alone low)
  | within (a : Action V V) (fs : List (Frame V)) :
      Lowered high low ⟨a, fs ++ [.outer high]⟩ ⟨a, fs ++ [.outer low]⟩
  /-- The expression is given up. -/
  | failed (e : Failure) : Lowered high low ⟨.fail e, []⟩ ⟨.fail e, []⟩

inductive Turn.Lowered (high low : Int) : Turn V → Turn V → Prop
  | halt (e : Failure) : Lowered high low (.halt (.error e)) (.halt (.error e))
  | stay {event c c'} (h : Config.Lowered high low c c') :
      Lowered high low (.stay event c) (.stay event c')
  | shift {d c c'} (h : Config.Lowered high low c c') : Lowered high low (.shift d c) (.shift d c')

namespace Config.Lowered
variable {high low : Int} {c c' c₁ : Config V} {token : Option (Token V)} {pos : Int}

private theorem turn_asked :
    Turn.Lowered high low ((alone high : Config V).turn token pos) ((alone low).turn token pos) := by
  rw [alone, alone, Config.turn, Config.turn]
  cases token.bind fun t => t.nud.map (t, ·) with
  | none => exact .shift (.failed _)
  | some handler => exact .shift (.within handler.2 [])

/-- An operand is complete. An operator above the higher power goes on with both expressions. -/
private theorem turn_operand (hle : low ≤ high) (v : V) :
    Turn.Lowered high low ((⟨.done v, [.outer high]⟩ : Config V).turn token pos)
        ((⟨.done v, [.outer low]⟩ : Config V).turn token pos) ∨
      (⟨.done v, [.outer high]⟩ : Config V).turn token pos = .stay none ⟨.done v, []⟩ := by
  cases token with
  | none => exact .inr rfl
  | some t =>
    by_cases hhigh : (Frame.outer high : Frame V).rbp < t.lbp
    · have hlow : (Frame.outer low : Frame V).rbp < t.lbp := lt_of_le_of_lt hle hhigh
      rw [turn_done, if_pos hhigh, turn_done, if_pos hlow]
      cases t.led with
      | none => exact .inl (.shift (.failed _))
      | some led => exact .inl (.shift (.within (led v) []))
    · rw [turn_done, if_neg hhigh]
      exact .inr rfl

/-- A handler within the expression does not see how far down it goes. -/
private theorem turn_within (a : Action V V) (fs : List (Frame V)) (h : ∀ v, a = .done v → fs ≠ []) :
    Turn.Lowered high low ((⟨a, fs ++ [.outer high]⟩ : Config V).turn token pos)
      ((⟨a, fs ++ [.outer low]⟩ : Config V).turn token pos) := by
  cases a with
  | done v =>
    obtain ⟨f, fs, rfl⟩ := List.exists_cons_of_ne_nil (h v rfl)
    rw [List.cons_append, List.cons_append, Config.turn, Config.turn]
    split
    · cases token.bind fun t => t.led.map (t, ·) with
      | none => exact .shift (.within _ fs)
      | some handler => exact .shift (.within (handler.2 v) (f :: fs))
    · exact .stay (.within _ fs)
  | fail e => exact .halt e
  | expression r next =>
    rw [Config.turn, Config.turn]
    cases token.bind fun t => t.nud.map (t, ·) with
    | none => exact .shift (.within _ fs)
    | some handler => exact .shift (.within handler.2 (⟨r, next⟩ :: fs))
  | expect m next =>
    rw [Config.turn, Config.turn]
    split
    · exact .halt _
    · exact .shift (.within _ fs)
    · exact .halt _
  | attempt m next =>
    rw [Config.turn, Config.turn]
    split
    · exact .halt _
    · exact .shift (.within _ fs)
    · exact .stay (.within _ fs)
  | advance next => exact .shift (.within _ fs)
  | look next => exact .stay (.within _ fs)
  | emit event a => exact .stay (.within a fs)

/-- Both take the same turn, until the expression down to the higher power ends. -/
theorem turn (hle : low ≤ high) (h : c.Lowered high low c') (token : Option (Token V)) (pos : Int) :
    Turn.Lowered high low (c.turn token pos) (c'.turn token pos) ∨
      ∃ v, c.turn token pos = .stay none ⟨.done v, []⟩ ∧ c' = ⟨.done v, [.outer low]⟩ := by
  cases h with
  | asked => exact .inl turn_asked
  | failed e => exact .inl (.halt e)
  | within a fs =>
    by_cases hdone : ∃ v, a = .done v ∧ fs = []
    · obtain ⟨v, rfl, rfl⟩ := hdone
      exact (turn_operand hle v).imp_right fun hends => ⟨v, hends, rfl⟩
    · exact .inl (turn_within a fs fun v hv hfs => hdone ⟨v, hv, hfs⟩)

private theorem of_halt (hle : low ≤ high) (h : c.Lowered high low c') {r : Except Failure V}
    (hturn : c.turn token pos = .halt r) :
    ∃ e, r = .error e ∧ c'.turn token pos = .halt (.error e) := by
  rcases h.turn hle token pos with hsame | ⟨v, hends, -⟩
  · rw [hturn] at hsame
    generalize c'.turn token pos = turn' at hsame
    cases hsame with
    | halt e => exact ⟨e, rfl, rfl⟩
  · cases hturn.symm.trans hends

private theorem of_stay (hle : low ≤ high) (h : c.Lowered high low c') {event : Option Event}
    (hturn : c.turn token pos = .stay event c₁) :
    (∃ c₁', c'.turn token pos = .stay event c₁' ∧ c₁.Lowered high low c₁') ∨
      ∃ v, event = none ∧ c₁ = ⟨.done v, []⟩ ∧ c' = ⟨.done v, [.outer low]⟩ := by
  rcases h.turn hle token pos with hsame | ⟨v, hends, hc'⟩
  · rw [hturn] at hsame
    generalize c'.turn token pos = turn' at hsame
    cases hsame with
    | stay hc₁ => exact .inl ⟨_, rfl, hc₁⟩
  · cases hturn.symm.trans hends
    exact .inr ⟨v, rfl, rfl, hc'⟩

private theorem of_shift (hle : low ≤ high) (h : c.Lowered high low c') {d : Option (Dispatch V)}
    (hturn : c.turn token pos = .shift d c₁) :
    ∃ c₁', c'.turn token pos = .shift d c₁' ∧ c₁.Lowered high low c₁' := by
  rcases h.turn hle token pos with hsame | ⟨v, hends, -⟩
  · rw [hturn] at hsame
    generalize c'.turn token pos = turn' at hsame
    cases hsame with
    | shift hc₁ => exact ⟨_, rfl, hc₁⟩
  · cases hturn.symm.trans hends

/-- The account of a turn is the same for both. -/
theorem handlers (h : c.Lowered high low c') (pos : Int) (d : Option (Dispatch V)) (hs : Handlers V) :
    c.handlers pos d hs = c'.handlers pos d hs := by
  cases h <;> cases d <;> rfl

theorem use (h : c.Lowered high low c') (p : Parser V) (d : Option (Dispatch V)) (hs : Handlers V) :
    c.use p d hs = c'.use p d hs := by
  cases h <;> cases d <;> rfl

end Config.Lowered

namespace Account
variable {high low : Int} {hs : Handlers V} {c c' : Config V} {p : Parser V} {uses : List (Use V)}
  {o : Outcome V V}

/-- A parse that begins with these uses, given how it would end with them. If not in a failure, it goes on
from the value with the operators down to a power. -/
inductive Begins (low : Int) (hs : Handlers V) (c : Config V) (p : Parser V) (uses : List (Use V)) :
    Outcome V V → Prop
  | failed {e q} (h : Account hs c p uses ⟨.error e, q⟩) : Begins low hs c p uses ⟨.error e, q⟩
  | ended (hs' : Handlers V) {v q} (h : ∀ later o,
      Account hs' ⟨.done v, [.outer low]⟩ q later o → Account hs c p (uses ++ later) o) :
      Begins low hs c p uses ⟨.ok v, q⟩

namespace Begins

theorem stay {event : Option Event} (hturn : c.turn p.token p.pos = .stay event c')
    (h : Begins low (c.handlers p.pos none hs) c' (p.note event) uses o) :
    Begins low hs c p uses o := by
  cases h with
  | failed h => exact .failed (.stay hturn h)
  | ended hs' h => exact .ended hs' fun later o hlater => .stay hturn (h later o hlater)

theorem shift {d : Option (Dispatch V)} {t : Option (Token V)}
    (hturn : c.turn p.token p.pos = .shift d c') (ht : p.advance.result = .ok t)
    (h : Begins low (c.handlers p.pos d hs) c' (p.advance.parser.announce d p.pos) uses o) :
    Begins low hs c p ((c.use p d hs).toList ++ uses) o := by
  cases h with
  | failed h => exact .failed (.shift hturn ht h)
  | ended hs' h =>
    refine .ended hs' fun later o hlater => ?_
    rw [List.append_assoc]
    exact .shift hturn ht (h later o hlater)

end Begins

/-- Down to the lower power a parse begins as it goes down to the higher, turn by turn. -/
theorem begins (hle : low ≤ high) (h : Account hs c p uses o) (hc : c.Lowered high low c') :
    Begins low hs c' p uses o := by
  induction h generalizing c' with
  | halt h =>
    obtain ⟨e, rfl, hturn⟩ := hc.of_halt hle h
    exact .failed (.halt hturn)
  | stay h rest ih =>
    rcases hc.of_stay hle h with ⟨c₁', hturn, hc₁⟩ | ⟨v, rfl, rfl, rfl⟩
    · have hrest := ih hc₁
      rw [hc.handlers] at hrest
      exact .stay hturn hrest
    · -- Nothing is left to do down to the higher power, and all that follows is to come.
      cases rest with
      | halt hdone =>
        cases hdone
        exact .ended _ fun later o hlater => hlater
      | stay h | unread h | shift h => cases h
  | unread h he =>
    obtain ⟨c₁', hturn, -⟩ := hc.of_shift hle h
    exact .failed (.unread hturn he)
  | shift h ht rest ih =>
    obtain ⟨c₁', hturn, hc₁⟩ := hc.of_shift hle h
    have hrest := ih hc₁
    rw [hc.handlers] at hrest
    rw [hc.use]
    exact .shift hturn ht hrest

end Account

namespace Parser
variable {p q : Parser V} {r : Int} {v : V}

theorem exists_account (hs : Handlers V) (r : Int) (p : Parser V) :
    ∃ uses, Account hs (.alone r) p uses (p.expression r) := by
  obtain ⟨acts, h⟩ := p.exists_course_expression r
  exact h.exists_account hs

private theorem exists_account_operators (hs : Handlers V) (r : Int) (v : V) (p : Parser V) :
    ∃ uses, Account hs ⟨.done v, [.outer r]⟩ p uses (p.operators r v) := by
  obtain ⟨acts, h⟩ := exists_course ⟨.done v, [.outer r]⟩ p
  have hrun : (⟨.done v, [.outer r]⟩ : Config V).run p = p.operators r v :=
    Outcome.andThen_ok_self _
  rw [hrun] at h
  exact h.exists_account hs

/-- An expression down to a lower power is the one down to a higher power with the operators that follow,
and the tokens it consumes are those of the other and more. -/
theorem expression_lowered {high low : Int} (hle : low ≤ high) (hs : Handlers V) (p : Parser V) :
    (p.expression low = (p.expression high).andThen fun left q => q.operators low left) ∧
      ∃ uses uses', Account hs (.alone high) p uses (p.expression high) ∧
        Account hs (.alone low) p uses' (p.expression low) ∧ uses <+: uses' := by
  obtain ⟨uses, huses⟩ := exists_account hs high p
  obtain ⟨uses', huses'⟩ := exists_account hs low p
  have hbegins := huses.begins hle .asked
  suffices hlow : (p.expression low = (p.expression high).andThen fun left q => q.operators low left) ∧
      uses <+: uses' from ⟨hlow.1, uses, uses', huses, huses', hlow.2⟩
  generalize p.expression high = o at hbegins
  cases hbegins with
  | failed h =>
    obtain ⟨rfl, hlow⟩ := huses'.unique h
    exact ⟨hlow, List.prefix_rfl⟩
  | @ended hs₁ v q h =>
    obtain ⟨later, hlater⟩ := exists_account_operators hs₁ low v q
    obtain ⟨rfl, hlow⟩ := huses'.unique (h later _ hlater)
    exact ⟨hlow, List.prefix_append uses later⟩

private theorem stable_facing : Stable fun p : Parser V => ∃ t, p.token = some t where
  advance p hp := by
    cases h : p.source.next.1 with
    | ok t => exact ⟨t, by rw [advance_of_ok h]⟩
    | error e => simpa only [advance_of_error h] using hp
  emit _ _ hp := hp

/-- Whether there is a lookahead before an expression or not, there is one after it. -/
theorem token_of_expression (h : p.expression r = ⟨.ok v, q⟩) : ∃ t, q.token = some t := by
  rw [expression_eq] at h
  -- The first pull brings a lookahead, and no pull or handler takes it away.
  obtain ⟨t, q₁, hadvance, h⟩ := Outcome.andThen_eq_ok.1 h
  have hfirst : ∃ t, q₁.token = some t := by
    obtain ⟨u, hu⟩ := advance_result_ok (congrArg Outcome.result hadvance)
    rw [advance_of_ok hu] at hadvance
    cases hadvance
    exact ⟨u, rfl⟩
  split at h
  · cases h
  · rename_i u nud hnud
    obtain ⟨left, q₂, hrun, h⟩ := Outcome.andThen_eq_ok.1 h
    have hoperand : ∃ t, q₂.token = some t := by
      have hkept := stable_facing.run (fun r p hp => stable_facing.expression r hp) nud
        (stable_facing.report .nud u p.pos hfirst)
      rwa [hrun] at hkept
    have hkept := stable_facing.operate q₂.bound r left hoperand
    rwa [← operators, h] at hkept

/-- After an expression the lookahead binds no tighter than the expression goes on to. -/
theorem lookahead_of_expression (h : (p.expression r).result = .ok v) :
    ∃ t, (p.expression r).parser.token = some t ∧ t.lbp ≤ r := by
  have hends : p.expression r = ⟨.ok v, (p.expression r).parser⟩ := by rw [← h]
  obtain ⟨t, ht⟩ := token_of_expression hends
  have hbinds := expression_ends hends
  rw [ht, Option.any_some, decide_eq_true_eq, Int.not_lt] at hbinds
  exact ⟨t, ht, hbinds⟩

end Parser

/-- The law of continuation. In every state of a parser an expression down to a lower power does what the
expression down to a higher power does, and then goes on from its value with the operators down to the
lower: the result is the same, and so are the parser it leaves and what it reports. If it fails down to
the higher power it fails in the same way down to the lower, and what it consumes down to the higher power
comes first in what it consumes down to the lower. After an expression the lookahead binds no tighter than
its power. -/
theorem expression_continues (p : Parser V) :
    (∀ high low : Int, low ≤ high →
      (p.expression low = (p.expression high).andThen fun left q => q.operators low left) ∧
        (∀ e, (p.expression high).result = .error e → p.expression low = p.expression high) ∧
        ∀ hs, ∃ uses uses', Account hs (.alone high) p uses (p.expression high) ∧
          Account hs (.alone low) p uses' (p.expression low) ∧ uses <+: uses') ∧
      ∀ r v, (p.expression r).result = .ok v →
        ∃ t, (p.expression r).parser.token = some t ∧ t.lbp ≤ r := by
  refine ⟨fun high low hle => ?_, fun r v h => Parser.lookahead_of_expression h⟩
  have hlaw := (Parser.expression_lowered hle [] p).1
  refine ⟨hlaw, fun e he => ?_, fun hs => (Parser.expression_lowered hle hs p).2⟩
  rw [hlaw, Outcome.andThen_error _ he, ← he]

namespace Continuation

def numeral (name : String) (n : ℕ) : Token ℕ := ⟨.anonymous, 0, some name, .literal n⟩

def times : Token ℕ := ⟨.anonymous, 30, some "*", .infixOp .left fun x y => .ok (x * y)⟩

def plus : Token ℕ := ⟨.anonymous, 20, some "+", .infixOp .left fun x y => .ok (x + y)⟩

/-- Before the first of some tokens. -/
def before (ts : List (Token ℕ)) : Parser ℕ := (Parser.ofStream ⟨ts, none⟩ false).advance.parser

/-- `4 * 2 + 3`. -/
def sum : Parser ℕ := before [numeral "4" 4, times, numeral "2" 2, plus, numeral "3" 3]

/-- `4 *`. -/
def unfinished : Parser ℕ := before [numeral "4" 4, times]

end Continuation

open Continuation in
/-- The product is the first summand. Where a factor is missing there is no sum. -/
theorem expression_continues_sum :
    (0 : Int) ≤ 20 ∧ (sum.expression 20).result = .ok 8 ∧ (sum.expression 0).result = .ok 11 ∧
      sum.expression 0 = ((sum.expression 20).andThen fun left q => q.operators 0 left) ∧
      (∃ uses uses', Account [] (.alone 20) sum uses (sum.expression 20) ∧
        Account [] (.alone 0) sum uses' (sum.expression 0) ∧ uses <+: uses' ∧
          uses.length = 3 ∧ uses'.length = 5) ∧
      (∃ t, (sum.expression 20).parser.token = some t ∧ t.lbp ≤ 20) ∧
      (unfinished.expression 20).result =
        .error (.parse (.missingPrefix 2 (some (Token.sentinel (V := ℕ)).profile))) ∧
      unfinished.expression 0 = unfinished.expression 20 := by
  have hle : (0 : Int) ≤ 20 := by decide
  have hproduct : (sum.expression 20).result = .ok 8 := rfl
  have hmissing : (unfinished.expression 20).result =
      .error (.parse (.missingPrefix 2 (some (Token.sentinel (V := ℕ)).profile))) := rfl
  obtain ⟨hpowers, hends⟩ := expression_continues sum
  obtain ⟨hlaw, -, hconsumes⟩ := hpowers 20 0 hle
  obtain ⟨uses, uses', huses, huses', hprefix⟩ := hconsumes []
  have hdrawn : Account.Drawn sum := ⟨rfl, rfl⟩
  have hthree : (3 : Int) = 0 + uses.length := (huses.indices hdrawn).2
  have hfive : (5 : Int) = 0 + uses'.length := (huses'.indices hdrawn).2
  refine ⟨hle, hproduct, rfl, hlaw, ⟨uses, uses', huses, huses', hprefix, ?_, ?_⟩,
    hends 20 8 hproduct, hmissing, ?_⟩
  · omega
  · omega
  · exact ((expression_continues unfinished).1 20 0 hle).2.1 _ hmissing

end BindingPower
