import BindingPower.Proofs.Parser.Boundary
import Mathlib.Data.List.Forall2

/-! Several expressions from one source. A parser draws one token more than its expression has, and
that is all that the next parser on the source does not see: so expressions may be read one after the
other, with one token between every two. -/
namespace BindingPower
variable {V α : Type}

/-- The results of this many parsers that run on a source one after the other, each with the position of
the source behind its run. -/
def Source.runs : ℕ → Source V → List (Except Failure V × Int)
  | 0, _ => []
  | n + 1, s =>
    let o := (Parser.ofSource s false).run false
    (o.result, o.parser.source.pos) :: runs n o.parser.source

/-- The lists in order, with a separator after each that another one follows. -/
def separated : List (List α) → List α → List α
  | e :: es, s :: seps => e ++ s :: separated es seps
  | es, _ => es.flatten

/-- The indices of what follows each of the lists, if the first of them starts at `k`. -/
def boundaries : (k : Int) → List (List α) → List Int
  | _, [] => []
  | k, e :: es => (k + e.length) :: boundaries (k + e.length + 1) es

private theorem forall_mem_separated {P : α → Prop} {es : List (List α)} {seps : List α}
    (hes : ∀ e ∈ es, ∀ a ∈ e, P a) (hseps : ∀ s ∈ seps, P s) : ∀ a ∈ separated es seps, P a := by
  fun_induction separated es seps with
  | case1 e es s seps ih =>
    obtain ⟨he, hes⟩ := List.forall_mem_cons.1 hes
    obtain ⟨hs, hseps⟩ := List.forall_mem_cons.1 hseps
    exact List.forall_mem_append.2 ⟨he, List.forall_mem_cons.2 ⟨hs, ih hes hseps⟩⟩
  | case2 es seps =>
    intro a ha
    obtain ⟨e, he, hae⟩ := List.mem_flatten.1 ha
    exact hes e he a hae

/-- A parser draws its first token itself, whoever has drawn on the source before. -/
theorem Parser.run_ofSource {ts : List (Token V)} (h : ∀ u ∈ ts, u.isEnd = false) (k : Int) :
    (ofSource ⟨ts, none, k, false⟩ false).run false = (facing none (k + 1) ts).expression 0 := by
  have hadvance : Parser.advance { ofSource (Source.mk ts none k false) false with started := true } =
      ⟨.ok none, facing none (k + 1) ts⟩ := by
    cases ts with
    | nil => rfl
    | cons t ts =>
      have ht := h t List.mem_cons_self
      simp [advance, ofSource, Source.next, ht, facing]
  rw [run, if_neg (by simp [ofSource]), hadvance, Outcome.andThen_ok _ rfl]
  exact Outcome.andThen_ok_self _

/-- A run on a source with an expression and more. -/
theorem Parser.run_accepted {e tail : List (Token V)} {v : V} (he : ∀ t ∈ e, t.Inner)
    (h : ((Stream.mk e none).parse false true).result = .ok v) (htail : ∀ u ∈ tail, u.isEnd = false)
    (hzero : (tail.headD .sentinel).lbp = 0) (k : Int) :
    (ofSource ⟨e ++ tail, none, k, false⟩ false).run false =
      ⟨.ok v, .facing none (k + 1 + e.length) tail⟩ := by
  have hends : ∀ u ∈ e ++ tail, u.isEnd = false :=
    List.forall_mem_append.2 ⟨fun u hu => (he u hu).isEnd, htail⟩
  rw [run_ofSource hends]
  exact expression_of_accepts he h (k + 1) htail hzero

/-- Parsers on one source make the values of its expressions in order. -/
theorem Source.runs_separated {es : List (List (Token V))} {vs : List V} {seps : List (Token V)}
    (hes : ∀ e ∈ es, ∀ t ∈ e, t.Inner) (hseps : ∀ s ∈ seps, s.lbp = 0 ∧ s.isEnd = false)
    (hlength : es.length ≤ seps.length + 1)
    (h : List.Forall₂ (fun e v => ((Stream.mk e none).parse false true).result = .ok v) es vs)
    (k : Int) :
    (Source.mk (separated es seps) none k false).runs es.length =
      (vs.map .ok).zip (boundaries (k + 1) es) := by
  induction h generalizing seps k with
  | nil => rfl
  | @cons e v es vs he h ih =>
    obtain ⟨hinner, hes⟩ := List.forall_mem_cons.1 hes
    cases seps with
    | nil =>
      obtain rfl : es = [] := List.length_eq_zero_iff.1 (by simpa using hlength)
      cases h
      have hrun : (Parser.ofSource ⟨separated [e] [], none, k, false⟩ false).run false =
          ⟨.ok v, .facing none (k + 1 + e.length) []⟩ :=
        Parser.run_accepted hinner he (List.forall_mem_nil _) rfl k
      rw [List.length_singleton, runs, hrun]
      rfl
    | cons s seps =>
      obtain ⟨⟨hzero, hend⟩, hseps⟩ := List.forall_mem_cons.1 hseps
      have hends : ∀ u ∈ separated es seps, u.isEnd = false :=
        forall_mem_separated (fun e he t ht => (hes e he t ht).isEnd) fun s hs => (hseps s hs).2
      have hrun := Parser.run_accepted hinner he (List.forall_mem_cons.2 ⟨hend, hends⟩) hzero k
      have hrest := ih hes hseps (Nat.le_of_succ_le_succ hlength) (k + 1 + e.length)
      rw [separated, List.length_cons, runs, hrun, boundaries, List.map_cons, List.zip_cons_cons,
        ← hrest]
      rfl

/-- Expressions in sequence. Parsers that run one after the other on a source of accepted lists, with any
token of power zero between every two, make their values in order, and each leaves the source at the
token behind its expression. And what a run that need not reach the end has consumed is accepted on its
own, with the same value. -/
theorem expressions_in_sequence :
    (∀ (es : List (List (Token V))) (vs : List V) (seps : List (Token V)),
      (∀ e ∈ es, ∀ t ∈ e, t.Inner) → (∀ s ∈ seps, s.lbp = 0 ∧ s.isEnd = false) →
        es.length ≤ seps.length + 1 →
          List.Forall₂ (fun e v => ((Stream.mk e none).parse false true).result = .ok v) es vs →
            (Source.ofStream ⟨separated es seps, none⟩).runs es.length =
              (vs.map .ok).zip (boundaries 0 es)) ∧
      ∀ (ts : List (Token V)) (v : V), (∀ t ∈ ts, t.Inner) →
        ((Stream.mk ts none).parse false false).result = .ok v →
          ∃ q ≤ ts.length, ((Stream.mk ts none).parse false false).parser.pos = q ∧
            ((Stream.mk (ts.take q) none).parse false true).result = .ok v := by
  refine ⟨fun es vs seps hes hseps hlength h => Source.runs_separated hes hseps hlength h (-1),
    fun ts v hts h => ?_⟩
  have hends : ∀ u ∈ ts, u.isEnd = false := fun u hu => (hts u hu).isEnd
  have hparse : (Stream.mk ts none).parse false false = (Parser.facing none 0 ts).expression 0 :=
    Parser.run_ofSource hends (-1)
  cases he : (Parser.facing none 0 ts).expression 0 with
  | mk result p =>
    rw [hparse, he] at h
    obtain rfl : result = .ok v := h
    obtain ⟨n, hn, rfl, hexchange⟩ := Parser.expression_exchange hts he
    refine ⟨n, hn, ?_, ?_⟩
    · rw [hparse, he]
      exact Int.zero_add n
    · rw [Stream.accepts_iff fun u hu => hts u (List.mem_of_mem_take hu)]
      have halone := hexchange [] 0 (fun _ hu => nomatch hu) rfl
      rw [List.append_nil, Int.zero_add] at halone
      rw [halone, List.length_take, Nat.min_eq_left hn]

/-- `1 + 2` and `3`. -/
def sums : List (List (Token ℕ)) :=
  let numeral (name : String) (n : ℕ) : Token ℕ := ⟨.anonymous, 0, some name, .literal n⟩
  [[numeral "1" 1, ⟨.anonymous, 20, some "+", .infixOp .left fun x y => .ok (x + y)⟩, numeral "2" 2],
    [numeral "3" 3]]

def semicolon : Token ℕ := ⟨.anonymous, 0, some ";", .keyword⟩

/-- Both are 3, the first behind index 3, where the semicolon stands, and the second behind index 5. -/
theorem expressions_in_sequence_sums :
    (∀ e ∈ sums, ∀ t ∈ e, t.Inner) ∧ (∀ s ∈ [semicolon], s.lbp = 0 ∧ s.isEnd = false) ∧
      List.Forall₂ (fun e v => ((Stream.mk e none).parse false true).result = .ok v) sums [3, 3] ∧
      (Source.ofStream ⟨separated sums [semicolon], none⟩).runs 2 = [(.ok 3, 3), (.ok 3, 5)] := by
  have hsums : ∀ e ∈ sums, ∀ t ∈ e, t.Inner := by
    have hnumeral (name : String) (n : ℕ) :
        (⟨.anonymous, 0, some name, .literal n⟩ : Token ℕ).Inner :=
      ⟨⟨trivial, le_refl _, nofun⟩, rfl⟩
    have hplus (fn : ℕ → ℕ → Except Fault ℕ) :
        (⟨.anonymous, 20, some "+", .infixOp .left fn⟩ : Token ℕ).Inner :=
      ⟨⟨trivial, (by omega : (1 : Int) ≤ 20), nofun⟩, rfl⟩
    simp [sums, hnumeral, hplus]
  have hseps : ∀ s ∈ [semicolon], s.lbp = 0 ∧ s.isEnd = false := by simp [semicolon, Token.isEnd,
    Kind.isEnd]
  have haccepted : List.Forall₂
      (fun e v => ((Stream.mk e none).parse false true).result = .ok v) sums [3, 3] :=
    .cons rfl (.cons rfl .nil)
  refine ⟨hsums, hseps, haccepted, ?_⟩
  exact expressions_in_sequence.1 sums [3, 3] [semicolon] hsums hseps (le_refl 2) haccepted

end BindingPower
