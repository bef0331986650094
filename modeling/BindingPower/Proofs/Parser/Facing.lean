import BindingPower.Proofs.Parser.Bound
import BindingPower.Lexer.Basic

/-! Parsers that face a list of tokens: the first is the lookahead, the others are still to be drawn,
and after the last comes the end or a failure. -/
namespace BindingPower
variable {V α : Type} {failure : Option Failure} {pos : Int} {t : Token V} {ts : List (Token V)}

namespace Parser

/-- A parser under way, not tracing, with these tokens left and the first of them at `pos`. -/
def facing (failure : Option Failure) (pos : Int) (ts : List (Token V)) : Parser V :=
  ⟨⟨ts.tail, failure, pos, ts.isEmpty⟩, false, some (ts.headD .sentinel), pos, true, []⟩

@[simp] theorem token_facing : (facing failure pos ts).token = some (ts.headD .sentinel) := rfl

@[simp] theorem lookahead_facing :
    (facing failure pos ts).lookahead = some (ts.headD .sentinel).profile := rfl

@[simp] theorem report_facing (role : Role) (u : Token V) (k : Int) :
    (facing failure pos ts).report role u k = facing failure pos ts := rfl

theorem advance_facing_nil :
    (facing none pos ([] : List (Token V))).advance =
      ⟨.ok (some .sentinel), facing none (pos + 1) []⟩ := rfl

theorem advance_facing_cons (h : ∀ u ∈ ts, u.isEnd = false) (hd : failure = none ∨ ts ≠ []) :
    (facing failure pos (t :: ts)).advance = ⟨.ok (some t), facing failure (pos + 1) ts⟩ := by
  cases ts with
  | nil =>
    obtain rfl := hd.resolve_right (· rfl)
    rfl
  | cons u us =>
    have hu := h u List.mem_cons_self
    simp [facing, advance, Source.next, hu]

theorem expression_facing_nil (r : Int) :
    (facing none pos ([] : List (Token V))).expression r =
      ⟨.error (.parse (.missingPrefix pos (some (Token.sentinel (V := V)).profile))),
        facing none (pos + 1) []⟩ := by
  rw [expression_eq, advance_facing_nil]
  rfl

theorem expression_facing_cons (h : ∀ u ∈ ts, u.isEnd = false) (hd : failure = none ∨ ts ≠ [])
    (r : Int) :
    (facing failure pos (t :: ts)).expression r =
      match t.nud with
      | none => ⟨.error (.parse (.missingPrefix pos (some t.profile))), facing failure (pos + 1) ts⟩
      | some nud =>
        (nud.run expression (facing failure (pos + 1) ts)).andThen fun left q =>
          q.operators r left := by
  rw [expression_eq, advance_facing_cons h hd, Outcome.andThen_ok _ rfl]
  simp only [Option.bind_some, report_facing]
  cases t.nud <;> rfl

theorem operators_facing_le {r : Int} (left : V) (h : (ts.headD .sentinel).lbp ≤ r) :
    (facing failure pos ts).operators r left = ⟨.ok left, facing failure pos ts⟩ := by
  rw [operators_eq]
  exact if_neg (by simpa using h)

theorem operators_facing_nil {r : Int} (left : V) (h : r < 0) :
    (facing none pos ([] : List (Token V))).operators r left =
      ⟨.error (.parse (.missingInfix pos (some (Token.sentinel (V := V)).profile))),
        facing none (pos + 1) []⟩ := by
  have hlt : r < (Token.sentinel (V := V)).lbp := h
  rw [operators_eq, if_pos (by simpa using hlt), advance_facing_nil, Outcome.andThen_ok _ rfl]
  rfl

theorem operators_facing_lt {r : Int} (left : V) (h : ∀ u ∈ ts, u.isEnd = false)
    (hd : failure = none ∨ ts ≠ []) (ht : r < t.lbp) :
    (facing failure pos (t :: ts)).operators r left =
      match t.led with
      | none => ⟨.error (.parse (.missingInfix pos (some t.profile))), facing failure (pos + 1) ts⟩
      | some led =>
        ((led left).run expression (facing failure (pos + 1) ts)).andThen fun left q =>
          q.operators r left := by
  rw [operators_eq, if_pos (by simpa using ht), advance_facing_cons h hd, Outcome.andThen_ok _ rfl]
  simp only [Option.bind_some, report_facing]
  cases t.led <;> rfl

theorem accepts_named (n : String) (u : Token V) :
    (Matcher.named n).accepts (some u.profile) = .ok (decide (u.name = some n)) := rfl

theorem expect_facing_of_name {n : String} (h : ∀ u ∈ ts, u.isEnd = false)
    (hd : failure = none ∨ ts ≠ []) (ht : t.name = some n) :
    (facing failure pos (t :: ts)).expect (.named n) =
      ⟨.ok (some t), facing failure (pos + 1) ts⟩ := by
  rw [← advance_facing_cons h hd]
  simp only [expect, lookahead_facing, List.headD_cons, accepts_named, ht, decide_true]

theorem expect_facing_of_ne {n : String} (ht : (ts.headD .sentinel).name ≠ some n) :
    (facing failure pos ts).expect (.named n) =
      ⟨.error (.parse (.unexpected pos (some (ts.headD .sentinel).profile) (Text.quoted n))),
        facing failure pos ts⟩ := by
  simp only [expect, lookahead_facing, accepts_named, ht, decide_false]
  rfl

theorem attempt_facing_of_name {n : String} (h : ∀ u ∈ ts, u.isEnd = false)
    (hd : failure = none ∨ ts ≠ []) (ht : t.name = some n) :
    (facing failure pos (t :: ts)).attempt (.named n) =
      ⟨.ok true, facing failure (pos + 1) ts⟩ := by
  simp only [attempt, lookahead_facing, List.headD_cons, accepts_named, ht, decide_true,
    advance_facing_cons h hd, Outcome.andThen]

theorem attempt_facing_of_ne {n : String} (ht : (ts.headD .sentinel).name ≠ some n) :
    (facing failure pos ts).attempt (.named n) = ⟨.ok false, facing failure pos ts⟩ := by
  simp only [attempt, lookahead_facing, accepts_named, ht, decide_false]

theorem atEnd_facing (h : ∀ u ∈ ts, u.identity ≠ .sentinel) :
    (facing failure pos ts).atEnd = ts.isEmpty := by
  cases ts with
  | nil => rfl
  | cons u us => exact decide_eq_false (h u List.mem_cons_self)

end Parser

/-- A run is the parse of an expression on all tokens, and if strict a look at the end. -/
theorem Stream.parse_eq {strict : Bool} (h : ∀ u ∈ ts, u.isEnd = false)
    (hd : failure = none ∨ ts ≠ []) :
    (Stream.mk ts failure).parse false strict =
      ((Parser.facing failure 0 ts).expression 0).andThen fun v p =>
        if strict && !p.atEnd then
          ⟨.error (.parse (.unexpected p.pos p.lookahead "end of input")), p⟩
        else ⟨.ok v, p⟩ := by
  cases ts with
  | nil =>
    obtain rfl := hd.resolve_right (· rfl)
    rfl
  | cons t ts =>
    have ht := h t List.mem_cons_self
    simp [Stream.parse, Parser.run, Parser.ofStream, Parser.ofSource, Source.ofStream,
      Parser.advance, Source.next, ht, Outcome.andThen, Parser.facing]

end BindingPower
