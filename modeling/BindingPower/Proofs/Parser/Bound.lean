import BindingPower.Parser
import Mathlib.Order.Nat

/-! The bound on dispatches is never used up: past the number of tokens left to dispatch, more of it
changes nothing. So expressions and operators obey equations that do not mention it. -/
namespace BindingPower
variable {V α β : Type}

/-- Whether a token has a handler at all. -/
def Token.acts (t : Token V) : Bool := t.nud.isSome || t.led.isSome

@[simp] theorem Token.acts_sentinel : (Token.sentinel : Token V).acts = false := rfl

namespace Outcome

theorem andThen_ok {o : Outcome V α} {a : α} (f : α → Parser V → Outcome V β)
    (h : o.result = .ok a) : o.andThen f = f a o.parser := by
  simp only [andThen, h]

theorem andThen_error {o : Outcome V α} {e : Failure} (f : α → Parser V → Outcome V β)
    (h : o.result = .error e) : o.andThen f = ⟨.error e, o.parser⟩ := by
  simp only [andThen, h]

theorem andThen_eq_ok {o : Outcome V α} {f : α → Parser V → Outcome V β} {b : β} {q : Parser V} :
    o.andThen f = ⟨.ok b, q⟩ ↔ ∃ a p, o = ⟨.ok a, p⟩ ∧ f a p = ⟨.ok b, q⟩ := by
  obtain ⟨result, parser⟩ := o
  cases result with
  | ok a =>
    constructor
    · exact fun h => ⟨a, parser, rfl, h⟩
    · rintro ⟨a', p, h, hf⟩
      cases h
      exact hf
  | error e =>
    constructor
    · intro h
      cases h
    · rintro ⟨a', p, h, -⟩
      cases h

theorem of_andThen_error {o : Outcome V α} {f : α → Parser V → Outcome V β} {e : Failure}
    (hf : ∀ a q, ∃ b, (f a q).result = .ok b) (he : (o.andThen f).result = .error e) :
    o.result = .error e := by
  cases ho : o.result with
  | ok a =>
    obtain ⟨b, hb⟩ := hf a o.parser
    rw [andThen_ok _ ho, hb] at he
    cases he
  | error e' =>
    rw [andThen_error _ ho] at he
    cases he
    rfl

theorem andThen_ok_self (o : Outcome V α) : (o.andThen fun a p => ⟨.ok a, p⟩) = o := by
  cases h : o.result with
  | ok a => rw [andThen_ok _ h, ← h]
  | error e => rw [andThen_error _ h, ← h]

/-- What goes on after a step matters only where the step succeeds. -/
theorem andThen_congr (o : Outcome V α) {f g : α → Parser V → Outcome V β}
    (h : ∀ a, o.result = .ok a → f a o.parser = g a o.parser) : o.andThen f = o.andThen g := by
  cases ho : o.result with
  | ok a => rw [andThen_ok f ho, andThen_ok g ho, h a ho]
  | error e => rw [andThen_error f ho, andThen_error g ho]

end Outcome

namespace Parser

/-- How many tokens are left to dispatch: those not drawn yet, and the lookahead if it has a
handler. -/
def pending (p : Parser V) : Nat :=
  p.source.rest.length + if p.token.any Token.acts then 1 else 0

@[simp] theorem pending_report (role : Role) (t : Token V) (pos : Int) (p : Parser V) :
    (p.report role t pos).pending = p.pending := by
  unfold report
  split <;> rfl

private theorem pending_lt_bound (p : Parser V) : p.pending < p.bound := by
  unfold pending bound
  split <;> omega

theorem advance_result {p : Parser V} {t : Option (Token V)} (h : p.advance.result = .ok t) :
    t = p.token := by
  unfold advance at h
  split at h
  · exact (Except.ok.inj h).symm
  · cases h

/-- After a pull that delivers, nothing is left but what was not drawn before. -/
theorem pending_advance_of_ok {p : Parser V} {t : Option (Token V)}
    (h : p.advance.result = .ok t) : p.advance.parser.pending ≤ p.source.rest.length := by
  unfold advance Source.next at h ⊢
  by_cases he : p.source.exhausted
  · simp [he, pending]
  · cases hr : p.source.rest with
    | nil => cases hf : p.source.failure <;> simp_all [pending]
    | cons t rest =>
      by_cases hend : t.isEnd
      · simp [he, hend, pending]
      · simp only [he, hend, pending]
        simp only [Bool.false_eq_true, if_false, List.length_cons]
        split <;> omega

theorem pending_advance_le (p : Parser V) : p.advance.parser.pending ≤ p.pending := by
  cases h : p.advance.result with
  | ok t =>
    have := pending_advance_of_ok h
    unfold pending at this ⊢
    omega
  | error e =>
    have hsame : p.advance.parser.token = p.token := by
      unfold advance at h ⊢
      split at h
      · cases h
      · rfl
    have hrest : p.advance.parser.source.rest.length ≤ p.source.rest.length := by
      unfold advance Source.next at h ⊢
      by_cases he : p.source.exhausted
      · simp [he]
      · cases hr : p.source.rest with
        | nil => cases p.source.failure <;> simp [he]
        | cons t rest => by_cases hend : t.isEnd <;> simp [he, hend]
    unfold pending
    rw [hsame]
    omega

private theorem pending_expect_le (m : Matcher) (p : Parser V) :
    (p.expect m).parser.pending ≤ p.pending := by
  unfold expect
  split
  · exact le_refl _
  · exact pending_advance_le p
  · exact le_refl _

private theorem pending_attempt_le (m : Matcher) (p : Parser V) :
    (p.attempt m).parser.pending ≤ p.pending := by
  unfold attempt
  split
  · exact le_refl _
  · cases h : p.advance.result with
    | ok t => rw [Outcome.andThen_ok _ h]; exact pending_advance_le p
    | error e => rw [Outcome.andThen_error _ h]; exact pending_advance_le p
  · exact le_refl _

end Parser

private theorem Outcome.pending_andThen_le {n : Nat} {o : Outcome V α} {f : α → Parser V → Outcome V β}
    (ho : o.parser.pending ≤ n)
    (hf : ∀ a, o.result = .ok a → (f a o.parser).parser.pending ≤ n) :
    (o.andThen f).parser.pending ≤ n := by
  cases h : o.result with
  | ok a => rw [andThen_ok f h]; exact hf a h
  | error e => rw [andThen_error f h]; exact ho

/-- A way to parse expressions that never leaves more to dispatch than it found, as far as `n`. -/
def Consumes (n : Nat) (expr : Int → Parser V → Outcome V V) : Prop :=
  ∀ r p, p.pending ≤ n → (expr r p).parser.pending ≤ p.pending

private theorem Action.pending_run_le {n : Nat} {expr : Int → Parser V → Outcome V V}
    (he : Consumes n expr) (a : Action V α) {p : Parser V} (hp : p.pending ≤ n) :
    (a.run expr p).parser.pending ≤ p.pending := by
  induction a generalizing p with
  | done | fail => exact le_refl _
  | expression r next ih =>
    have h := he r p hp
    exact Outcome.pending_andThen_le h fun v _ => (ih v (h.trans hp)).trans h
  | expect m next ih =>
    have h := Parser.pending_expect_le m p
    exact Outcome.pending_andThen_le h fun t _ => (ih _ (h.trans hp)).trans h
  | attempt m next ih =>
    have h := Parser.pending_attempt_le m p
    exact Outcome.pending_andThen_le h fun b _ => (ih b (h.trans hp)).trans h
  | advance next ih =>
    have h := Parser.pending_advance_le p
    exact Outcome.pending_andThen_le h fun t _ => (ih _ (h.trans hp)).trans h
  | look next ih => exact ih _ _ hp
  | emit event next ih => exact ih (p := p.emit event) hp

/-- A handler that has no more than `n` to dispatch sees no difference between two ways to parse
expressions that agree so far. -/
theorem Action.run_congr {n : Nat} {f g : Int → Parser V → Outcome V V} (hf : Consumes n f)
    (hfg : ∀ r p, p.pending ≤ n → f r p = g r p) (a : Action V α) {p : Parser V}
    (hp : p.pending ≤ n) : a.run f p = a.run g p := by
  induction a generalizing p with
  | done | fail => rfl
  | expression r next ih =>
    rw [run, run, ← hfg r p hp]
    exact Outcome.andThen_congr _ fun v _ => ih v ((hf r p hp).trans hp)
  | expect m next ih =>
    exact Outcome.andThen_congr _ fun t _ => ih _ ((Parser.pending_expect_le m p).trans hp)
  | attempt m next ih =>
    exact Outcome.andThen_congr _ fun b _ => ih b ((Parser.pending_attempt_le m p).trans hp)
  | advance next ih =>
    exact Outcome.andThen_congr _ fun t _ => ih _ ((Parser.pending_advance_le p).trans hp)
  | look next ih => exact ih _ _ hp
  | emit event next ih => exact ih (p := p.emit event) hp

namespace Parser

/-- The token that a dispatch hands over to is one less to dispatch. -/
theorem pending_dispatch_lt {p : Parser V} {t : Option (Token V)} {u : Token V}
    (h : p.advance.result = .ok t) (hu : t = some u) (ha : u.acts = true) :
    p.advance.parser.pending < p.pending := by
  have hle := pending_advance_of_ok h
  have ht := advance_result h
  subst hu
  simp only [pending, ← ht, Option.any_some, ha, if_true] at hle ⊢
  omega

/-- The token that a dispatch looks for, and its handler. -/
theorem of_handler {g : Token V → Option α} {t : Option (Token V)} {u : Token V} {a : α}
    (h : t.bind (fun t => (g t).map (t, ·)) = some (u, a)) : t = some u ∧ g u = some a := by
  cases t with
  | none => cases h
  | some t =>
    obtain ⟨b, hb, he⟩ := Option.map_eq_some_iff.1 h
    cases he
    exact ⟨rfl, hb⟩

theorem acts_of_nud {t : Option (Token V)} {u : Token V} {a : Action V V}
    (h : t.bind (fun t => t.nud.map (t, ·)) = some (u, a)) : t = some u ∧ u.acts = true := by
  obtain ⟨ht, ha⟩ := of_handler h
  exact ⟨ht, by simp [Token.acts, ha]⟩

theorem acts_of_led {t : Option (Token V)} {u : Token V} {f : V → Action V V}
    (h : t.bind (fun t => t.led.map (t, ·)) = some (u, f)) : t = some u ∧ u.acts = true := by
  obtain ⟨ht, hf⟩ := of_handler h
  exact ⟨ht, by simp [Token.acts, hf]⟩

/-- Where there is less than `n` to dispatch, a way to parse with this bound leaves no more to dispatch
than it found, and any other bound above that gives the same. -/
def Settles (f : Nat → Parser V → Outcome V V) (n : Nat) : Prop :=
  ∀ p, p.pending < n →
    (f n p).parser.pending ≤ p.pending ∧ ∀ m, p.pending < m → f n p = f m p

/-- The invariant of the bound: it is no matter to expressions and to their continuations. -/
private structure Settled (V : Type) (n : Nat) : Prop where
  parse : ∀ r, Settles (fun n (p : Parser V) => parse n r p) n
  operate : ∀ r left, Settles (fun n (p : Parser V) => operate n r left p) n

/-- A handler, and the operators after what it makes. -/
private theorem Settled.handler {n : Nat} (h : Settled V n) (a : Action V V) (r : Int) :
    Settles (fun n p => (a.run (Parser.parse n) p).andThen fun left q => Parser.operate n r left q)
      n := by
  intro p hp
  have hc : Consumes p.pending (Parser.parse n (V := V)) :=
    fun r q hq => (h.parse r q (hq.trans_lt hp)).1
  have hle := a.pending_run_le hc (le_refl p.pending)
  refine ⟨?_, fun m hm => ?_⟩
  · exact Outcome.pending_andThen_le hle fun v _ =>
      (h.operate r v _ (hle.trans_lt hp)).1.trans hle
  · have hrun := a.run_congr hc (fun r q hq => (h.parse r q (hq.trans_lt hp)).2 m (hq.trans_lt hm))
      (le_refl _)
    dsimp only
    rw [← hrun]
    exact Outcome.andThen_congr _ fun v _ =>
      (h.operate r v _ (hle.trans_lt hp)).2 m (hle.trans_lt hm)

/-- Once its token is drawn, a handler has less to dispatch. -/
private theorem pending_report_lt {p : Parser V} {t : Option (Token V)} {u : Token V} (role : Role)
    (h : p.advance.result = .ok t) (hu : t = some u ∧ u.acts = true) :
    (p.advance.parser.report role u p.pos).pending < p.pending := by
  rw [pending_report]
  exact pending_dispatch_lt h hu.1 hu.2

private theorem Settled.parse_succ {n : Nat} (h : Settled V n) (r : Int) :
    Settles (fun n (p : Parser V) => Parser.parse n r p) (n + 1) := by
  refine fun p hp => ⟨?_, fun m hm => ?_⟩
  · dsimp only
    rw [Parser.parse]
    refine Outcome.pending_andThen_le (pending_advance_le p) fun t ht => ?_
    split
    · exact pending_advance_le p
    · rename_i u nud hu
      have hlt := pending_report_lt .nud ht (acts_of_nud hu)
      exact (h.handler nud r _ (by omega)).1.trans hlt.le
  · obtain ⟨m, rfl⟩ := Nat.exists_eq_succ_of_ne_zero (Nat.ne_zero_of_lt hm)
    dsimp only
    rw [Parser.parse, Parser.parse]
    refine Outcome.andThen_congr _ fun t ht => ?_
    split
    · rfl
    · rename_i u nud hu
      have hlt := pending_report_lt .nud ht (acts_of_nud hu)
      exact (h.handler nud r _ (by omega)).2 m (by omega)

private theorem Settled.operate_succ {n : Nat} (h : Settled V n) (r : Int) (left : V) :
    Settles (fun n (p : Parser V) => Parser.operate n r left p) (n + 1) := by
  refine fun p hp => ⟨?_, fun m hm => ?_⟩
  · unfold Parser.operate
    dsimp only
    split
    · refine Outcome.pending_andThen_le (pending_advance_le p) fun t ht => ?_
      split
      · exact pending_advance_le p
      · rename_i u led hu
        have hlt := pending_report_lt .led ht (acts_of_led hu)
        exact (h.handler (led left) r _ (by omega)).1.trans hlt.le
    · exact le_refl _
  · obtain ⟨m, rfl⟩ := Nat.exists_eq_succ_of_ne_zero (Nat.ne_zero_of_lt hm)
    unfold Parser.operate
    dsimp only
    split
    · refine Outcome.andThen_congr _ fun t ht => ?_
      split
      · rfl
      · rename_i u led hu
        have hlt := pending_report_lt .led ht (acts_of_led hu)
        exact (h.handler (led left) r _ (by omega)).2 m (by omega)
    · rfl

private theorem settled (n : Nat) : Settled V n := by
  induction n with
  | zero =>
    exact ⟨fun _ _ h => absurd h (Nat.not_lt_zero _), fun _ _ _ h => absurd h (Nat.not_lt_zero _)⟩
  | succ n ih => exact ⟨ih.parse_succ, ih.operate_succ⟩

private theorem parse_eq_expression {n : Nat} {p : Parser V} (h : p.pending < n) (r : Int) :
    parse n r p = p.expression r :=
  ((settled n).parse r p h).2 p.bound p.pending_lt_bound

private theorem operate_eq_operators {n : Nat} {p : Parser V} (h : p.pending < n) (r : Int) (left : V) :
    operate n r left p = p.operators r left :=
  ((settled n).operate r left p h).2 p.bound p.pending_lt_bound

private theorem pending_expression_le (r : Int) (p : Parser V) :
    (p.expression r).parser.pending ≤ p.pending :=
  ((settled p.bound).parse r p p.pending_lt_bound).1

private theorem run_parse_eq {n : Nat} {p : Parser V} (h : p.pending < n) (a : Action V α) :
    a.run (parse n) p = a.run Parser.expression p :=
  a.run_congr (fun r q hq => ((settled n).parse r q (hq.trans_lt h)).1)
    (fun r _ hq => parse_eq_expression (hq.trans_lt h) r) (le_refl _)

/-- An expression is what the handler of the lookahead makes at its start, extended by the operators
that bind tighter than `r`. -/
theorem expression_eq (r : Int) (p : Parser V) :
    p.expression r = p.advance.andThen fun t q =>
      match t.bind fun t => t.nud.map (t, ·) with
      | none => ⟨.error (.parse (.missingPrefix p.pos p.lookahead)), q⟩
      | some (t, nud) =>
        (nud.run Parser.expression (q.report .nud t p.pos)).andThen fun left q =>
          q.operators r left := by
  rw [expression, bound, parse]
  refine Outcome.andThen_congr _ fun t ht => ?_
  cases hu : t.bind fun t => t.nud.map (t, ·) with
  | none => rfl
  | some h =>
    obtain ⟨u, nud⟩ := h
    have hn : (p.advance.parser.report .nud u p.pos).pending < p.source.rest.length + 1 := by
      rw [pending_report]
      exact Nat.lt_succ_of_le (pending_advance_of_ok ht)
    dsimp only
    rw [run_parse_eq hn]
    refine Outcome.andThen_congr _ fun left _ => operate_eq_operators (lt_of_le_of_lt ?_ hn) r left
    exact nud.pending_run_le (fun r q _ => pending_expression_le r q) (le_refl _)

/-- An operand goes on as long as the lookahead binds tighter than `r`. -/
theorem operators_eq (r : Int) (left : V) (p : Parser V) :
    p.operators r left =
      if p.token.any fun t => r < t.lbp then
        p.advance.andThen fun t q =>
          match t.bind fun t => t.led.map (t, ·) with
          | none => ⟨.error (.parse (.missingInfix p.pos p.lookahead)), q⟩
          | some (t, led) =>
            ((led left).run Parser.expression (q.report .led t p.pos)).andThen fun left q =>
              q.operators r left
      else ⟨.ok left, p⟩ := by
  rw [operators, bound]
  unfold operate
  split
  · refine Outcome.andThen_congr _ fun t ht => ?_
    cases hu : t.bind fun t => t.led.map (t, ·) with
    | none => rfl
    | some h =>
      obtain ⟨u, led⟩ := h
      have hn : (p.advance.parser.report .led u p.pos).pending < p.source.rest.length + 1 := by
        rw [pending_report]
        exact Nat.lt_succ_of_le (pending_advance_of_ok ht)
      dsimp only
      rw [run_parse_eq hn]
      refine Outcome.andThen_congr _ fun next _ =>
        operate_eq_operators (lt_of_le_of_lt ?_ hn) r next
      exact (led left).pending_run_le (fun r q _ => pending_expression_le r q) (le_refl _)
  · rfl

end Parser

end BindingPower
