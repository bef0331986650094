import BindingPower.Parser

/-! What is kept by every pull and every report is kept by every parse, whatever the handlers ask
for and whether it fails or not. -/
namespace BindingPower
variable {V α β : Type} {I : Parser V → Prop}

/-- A property of parsers that neither a pull nor a report ends. -/
structure Stable (I : Parser V → Prop) : Prop where
  advance : ∀ p, I p → I p.advance.parser
  emit : ∀ event p, I p → I (p.emit event)

namespace Stable

theorem andThen {o : Outcome V α} {f : α → Parser V → Outcome V β} (ho : I o.parser)
    (hf : ∀ a p, I p → I (f a p).parser) : I (o.andThen f).parser := by
  unfold Outcome.andThen
  split
  · exact hf _ _ ho
  · exact ho

theorem report (h : Stable I) (role : Role) (t : Token V) (pos : Int) {p : Parser V} (hp : I p) :
    I (p.report role t pos) := by
  unfold Parser.report
  split
  · exact h.emit _ _ hp
  · exact hp

theorem expect (h : Stable I) (m : Matcher) {p : Parser V} (hp : I p) : I (p.expect m).parser := by
  unfold Parser.expect
  split
  · exact hp
  · exact h.advance p hp
  · exact hp

theorem attempt (h : Stable I) (m : Matcher) {p : Parser V} (hp : I p) :
    I (p.attempt m).parser := by
  unfold Parser.attempt
  split
  · exact hp
  · exact andThen (h.advance p hp) fun _ _ hq => hq
  · exact hp

/-- A handler keeps what the expressions it asks for keep. -/
theorem run (h : Stable I) {expr : Int → Parser V → Outcome V V}
    (he : ∀ r p, I p → I (expr r p).parser) (a : Action V α) {p : Parser V} (hp : I p) :
    I (a.run expr p).parser := by
  induction a generalizing p with
  | done | fail => exact hp
  | expression r next ih => exact andThen (he r p hp) fun v _ hq => ih v hq
  | expect m next ih => exact andThen (h.expect m hp) fun _ _ hq => ih _ hq
  | attempt m next ih => exact andThen (h.attempt m hp) fun b _ hq => ih b hq
  | advance next ih => exact andThen (h.advance p hp) fun _ _ hq => ih _ hq
  | look next ih => exact ih _ _ hp
  | emit event next ih => exact ih (h.emit event p hp)

private theorem settled (h : Stable I) (n : Nat) :
    (∀ r p, I p → I (Parser.parse n r p).parser) ∧
      ∀ r v p, I p → I (Parser.operate n r v p).parser := by
  induction n with
  | zero =>
    refine ⟨fun r p hp => hp, fun r v p hp => ?_⟩
    unfold Parser.operate
    split <;> exact hp
  | succ n ih =>
    refine ⟨fun r p hp => ?_, fun r v p hp => ?_⟩
    · rw [Parser.parse]
      refine andThen (h.advance p hp) fun t q hq => ?_
      split
      · exact hq
      · exact andThen (h.run ih.1 _ (h.report _ _ _ hq)) (ih.2 r)
    · unfold Parser.operate
      split
      · refine andThen (h.advance p hp) fun t q hq => ?_
        split
        · exact hq
        · exact andThen (h.run ih.1 _ (h.report _ _ _ hq)) (ih.2 r)
      · exact hp

theorem parse (h : Stable I) (n : Nat) (r : Int) {p : Parser V} (hp : I p) :
    I (Parser.parse n r p).parser :=
  (h.settled n).1 r p hp

theorem operate (h : Stable I) (n : Nat) (r : Int) (v : V) {p : Parser V} (hp : I p) :
    I (Parser.operate n r v p).parser :=
  (h.settled n).2 r v p hp

theorem expression (h : Stable I) (r : Int) {p : Parser V} (hp : I p) :
    I (p.expression r).parser :=
  h.parse p.bound r hp

end Stable

end BindingPower
