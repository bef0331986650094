import BindingPower.Parser
import Mathlib.Data.Int.Order.Basic

/-! Sessions pull by pull. Whatever the commands do and wherever they fail, the pulls deliver the
stream in order and then the end, and a parser stands where its last pull that delivered has put
it. -/
namespace BindingPower
variable {V : Type}

namespace Stream

/-- The tokens before the first that ends the input. -/
def live (s : Stream V) : List (Token V) := s.tokens.takeWhile fun t => !t.isEnd

/-- What comes after the last token. -/
def ending (s : Stream V) : Except Failure (Token V) :=
  match s.failure with
  | some e => .error e
  | none => .ok .sentinel

/-- What pull number `k`, counted from zero, delivers: the tokens up to one that ends the input, the
failure behind the last of them if none does, and the end mark ever after. -/
def delivery (s : Stream V) (k : Nat) : Except Failure (Token V) :=
  match s.live[k]? with
  | some t => .ok t
  | none =>
    if s.live.length = s.tokens.length ∧ k = s.tokens.length then s.ending else .ok .sentinel

variable {t : Token V} {ts : List (Token V)} {failure : Option Failure}

private theorem delivery_of_isEnd (h : t.isEnd = true) (k : Nat) :
    (Stream.mk (t :: ts) failure).delivery k = .ok .sentinel := by
  simp [delivery, live, h]

private theorem delivery_cons_zero (h : t.isEnd = false) :
    (Stream.mk (t :: ts) failure).delivery 0 = .ok t := by
  simp [delivery, live, h]

private theorem delivery_cons_succ (h : t.isEnd = false) (k : Nat) :
    (Stream.mk (t :: ts) failure).delivery (k + 1) = (Stream.mk ts failure).delivery k := by
  have hlive : (Stream.mk (t :: ts) failure).live = t :: (Stream.mk ts failure).live := by
    simp [live, h]
  rw [delivery, delivery, hlive, List.getElem?_cons_succ]
  cases (Stream.mk ts failure).live[k]? with
  | some u => rfl
  | none => simp [ending]

end Stream

namespace Source

/-- What pull number `k` from now on delivers. -/
def delivery (s : Source V) (k : Nat) : Except Failure (Token V) :=
  if s.exhausted then .ok .sentinel else (Stream.mk s.rest s.failure).delivery k

/-- The next pull delivers what is due, and leaves the rest of it for later. -/
theorem next_delivery (s : Source V) :
    s.next.1 = s.delivery 0 ∧ ∀ k, s.next.2.delivery k = s.delivery (k + 1) := by
  obtain ⟨rest, failure, pos, exhausted⟩ := s
  cases exhausted with
  | true => exact ⟨rfl, fun k => rfl⟩
  | false =>
    cases rest with
    | nil =>
      cases failure with
      | none => exact ⟨rfl, fun k => rfl⟩
      | some e => simp [next, delivery, Stream.delivery, Stream.live, Stream.ending]
    | cons t ts =>
      cases ht : t.isEnd with
      | true => simp [next, delivery, ht, Stream.delivery_of_isEnd ht]
      | false =>
        simp [next, delivery, ht, Stream.delivery_cons_zero ht, Stream.delivery_cons_succ ht]

private theorem exhausted_next {s : Source V} (h : s.exhausted = true) : s.next.2.exhausted = true := by
  simp [next, h]

end Source

namespace Parser

theorem advance_of_ok {p : Parser V} {t : Token V} (h : p.source.next.1 = .ok t) :
    p.advance = ⟨.ok p.token,
      { p with source := p.source.next.2, token := some t, pos := p.source.pos + 1 }⟩ := by
  rw [← Source.pos_next, advance]
  split
  · rename_i u source hu
    rw [hu] at h ⊢
    rw [Except.ok.inj h]
  · rename_i e source he
    rw [he] at h
    cases h

theorem advance_of_error {p : Parser V} {e : Failure} (h : p.source.next.1 = .error e) :
    p.advance = ⟨.error e, { p with source := p.source.next.2 }⟩ := by
  rw [advance]
  split
  · rename_i u source hu
    rw [hu] at h
    cases h
  · rename_i e' source he
    rw [he] at h ⊢
    rw [Except.error.inj h]

private theorem source_advance (p : Parser V) : p.advance.parser.source = p.source.next.2 := by
  cases h : p.source.next.1 with
  | ok t => rw [advance_of_ok h]
  | error e => rw [advance_of_error h]

/-- A pull that raises leaves the parser where it was. -/
theorem advance_failed {p : Parser V} {e : Failure} (h : p.advance.result = .error e) :
    p.advance.parser.token = p.token ∧ p.advance.parser.pos = p.pos := by
  cases hn : p.source.next.1 with
  | ok t =>
    rw [advance_of_ok hn] at h
    cases h
  | error e => simp [advance_of_error hn]

/-- A demand that is not met pulls nothing. -/
theorem expect_missed {p : Parser V} {m : Matcher} (h : m.accepts p.lookahead ≠ .ok true) :
    (p.expect m).parser = p ∧ (p.attempt m).parser = p := by
  unfold expect attempt
  split
  · exact ⟨rfl, rfl⟩
  · rename_i hm
    exact absurd hm h
  · exact ⟨rfl, rfl⟩

end Parser

/-- The answers of some pulls, newest last. -/
abbrev Answers (V : Type) := List (Except Failure (Token V))

/-- How a parser in a session becomes another one, with the answers of all pulls on their source in
between, whoever makes them. -/
inductive Pulls (p : Parser V) : Answers V → Parser V → Prop where
  | refl : Pulls p [] p
  | advance {ds q} (h : Pulls p ds q) : Pulls p (ds ++ [q.source.next.1]) q.advance.parser
  /-- A pull past the parser. -/
  | pull {ds q} (h : Pulls p ds q) :
      Pulls p (ds ++ [q.source.next.1]) { q with source := q.source.next.2 }
  /-- A new parser over the same source. -/
  | fork {ds q} (h : Pulls p ds q) : Pulls p ds (.ofSource q.source q.trace)
  /-- Nothing but what is reported, or that the parser has been run. -/
  | note {ds q} (h : Pulls p ds q) (started : Bool) (log : List Event) :
      Pulls p ds { q with started := started, log := log }

namespace Pulls
variable {p q u : Parser V} {ds es : Answers V}

theorem trans (h : Pulls p ds q) (h' : Pulls q es u) : Pulls p (ds ++ es) u := by
  induction h' with
  | refl => rwa [List.append_nil]
  | advance _ ih =>
    rw [← List.append_assoc]
    exact ih.advance
  | pull _ ih =>
    rw [← List.append_assoc]
    exact ih.pull
  | fork _ ih => exact ih.fork
  | note _ started log ih => exact ih.note started log

/-- The position of a source counts the pulls. -/
theorem source_pos (h : Pulls p ds q) : q.source.pos = p.source.pos + ds.length := by
  induction h with
  | refl => simp
  | advance _ ih =>
    rw [Parser.source_advance, Source.pos_next, ih, List.length_append, List.length_singleton]
    omega
  | pull _ ih =>
    rw [Source.pos_next, ih, List.length_append, List.length_singleton]
    omega
  | fork _ ih => exact ih
  | note _ _ _ ih => exact ih

theorem exhausted (h : Pulls p ds q) (hp : p.source.exhausted = true) :
    q.source.exhausted = true := by
  induction h with
  | refl => exact hp
  | advance _ ih =>
    rw [Parser.source_advance]
    exact Source.exhausted_next ih
  | pull _ ih => exact Source.exhausted_next ih
  | fork _ ih => exact ih
  | note _ _ _ ih => exact ih

/-- What was due later is due now. -/
theorem delivery (h : Pulls p ds q) (k : Nat) :
    q.source.delivery k = p.source.delivery (ds.length + k) := by
  induction h generalizing k with
  | refl => rw [List.length_nil, Nat.zero_add]
  | advance _ ih =>
    rw [Parser.source_advance, (Source.next_delivery _).2, ih, List.length_append]
    congr 1
    simp only [List.length_singleton]
    omega
  | pull _ ih =>
    rw [(Source.next_delivery _).2, ih, List.length_append]
    congr 1
    simp only [List.length_singleton]
    omega
  | fork _ ih => exact ih k
  | note _ _ _ ih => exact ih k

private theorem getElem?_snoc {k : Nat} (h : Pulls p ds q)
    (ih : ∀ k < ds.length, ds[k]? = some (p.source.delivery k))
    (hk : k < (ds ++ [q.source.next.1]).length) :
    (ds ++ [q.source.next.1])[k]? = some (p.source.delivery k) := by
  rw [List.length_append, List.length_singleton] at hk
  rcases Nat.lt_succ_iff_lt_or_eq.1 hk with hlt | rfl
  · rw [List.getElem?_append_left hlt]
    exact ih k hlt
  · rw [List.getElem?_concat_length, (Source.next_delivery _).1, h.delivery, Nat.add_zero]

/-- Each pull has delivered what was due. -/
theorem getElem? (h : Pulls p ds q) : ∀ k < ds.length, ds[k]? = some (p.source.delivery k) := by
  induction h with
  | refl => exact fun k hk => absurd hk (Nat.not_lt_zero k)
  | advance h ih => exact fun k hk => getElem?_snoc h ih hk
  | pull h ih => exact fun k hk => getElem?_snoc h ih hk
  | fork _ ih => exact ih
  | note _ _ _ ih => exact ih

end Pulls

/-- Where a parser stands in a stream after some pulls on it. -/
structure Parser.Follows (p : Parser V) (s : Stream V) (ds : Answers V) : Prop where
  delivered : ∀ k < ds.length, ds[k]? = some (s.delivery k)
  source_pos : p.source.pos = ds.length - 1
  not_started : p.token = none ↔ p.pos = -1
  /-- The lookahead is what the pull at its position has delivered. -/
  lookahead : ∀ t, p.token = some t → ∃ k : Nat, p.pos = k ∧ ds[k]? = some (.ok t)
  pos_le : p.pos ≤ p.source.pos

namespace Parser.Follows
variable {s : Stream V} {p : Parser V} {ds : Answers V} {d : Except Failure (Token V)}

/-- More pulls change nothing for a parser that does not see them. -/
theorem snoc (h : p.Follows s ds) (hd : ∀ k < (ds ++ [d]).length, (ds ++ [d])[k]? = some (s.delivery k)) :
    Parser.Follows { p with source := p.source.next.2 } s (ds ++ [d]) where
  delivered := hd
  source_pos := by
    rw [Source.pos_next, h.source_pos, List.length_append, List.length_singleton]
    omega
  not_started := h.not_started
  lookahead t ht := by
    obtain ⟨k, hk, hget⟩ := h.lookahead t ht
    exact ⟨k, hk, List.getElem?_append_left (List.getElem?_eq_some_iff.1 hget).1 ▸ hget⟩
  pos_le := by
    have := h.pos_le
    rw [Source.pos_next]
    dsimp only
    omega

/-- The pull of an `advance` becomes the lookahead if it delivers. -/
theorem advance (h : p.Follows s ds)
    (hd : ∀ k < (ds ++ [p.source.next.1]).length,
      (ds ++ [p.source.next.1])[k]? = some (s.delivery k)) :
    p.advance.parser.Follows s (ds ++ [p.source.next.1]) := by
  cases hn : p.source.next.1 with
  | error e =>
    rw [advance_of_error hn]
    rw [hn] at hd
    exact h.snoc hd
  | ok t =>
    rw [advance_of_ok hn]
    rw [hn] at hd
    have hpos : p.source.pos + 1 = ds.length := by
      rw [h.source_pos]
      omega
    refine { h.snoc hd with not_started := ?_, lookahead := ?_, pos_le := ?_ }
    · dsimp only
      constructor
      · intro hnone
        cases hnone
      · intro hneg
        omega
    · rintro u hu
      cases hu
      exact ⟨ds.length, hpos, List.getElem?_concat_length ..⟩
    · dsimp only
      rw [Source.pos_next]

/-- The lookahead is the token that is due at its position. -/
theorem delivery {t : Token V} (h : p.Follows s ds) (ht : p.token = some t) :
    ∃ k : ℕ, p.pos = k ∧ s.delivery k = .ok t := by
  obtain ⟨k, hpos, hget⟩ := h.lookahead t ht
  have hdue := h.delivered k (List.getElem?_eq_some_iff.1 hget).1
  exact ⟨k, hpos, Option.some.inj (hdue.symm.trans hget)⟩

end Parser.Follows

/-- At every moment of a session a parser stands where the pulls have put it. -/
theorem Pulls.follows {s : Stream V} {trace : Bool} {ds : Answers V} {p : Parser V}
    (h : Pulls (.ofStream s trace) ds p) : p.Follows s ds := by
  have hdelivered {es : Answers V} {q : Parser V} (h : Pulls (.ofStream s trace) es q) :
      ∀ k < es.length, es[k]? = some (s.delivery k) := h.getElem?
  induction h with
  | refl =>
    exact ⟨hdelivered .refl, rfl, ⟨fun _ => rfl, fun _ => rfl⟩, (fun t ht => nomatch ht), le_refl _⟩
  | advance h ih => exact ih.advance (hdelivered h.advance)
  | pull h ih => exact ih.snoc (hdelivered h.pull)
  | @fork es q h ih =>
    have hpos : q.source.pos = es.length - 1 := ih.source_pos
    have hle : -1 ≤ q.source.pos := by omega
    exact ⟨hdelivered h, hpos, ⟨fun _ => rfl, fun _ => rfl⟩, (fun t ht => nomatch ht), hle⟩
  | note h started log ih =>
    exact ⟨hdelivered h, ih.source_pos, ih.not_started, ih.lookahead, ih.pos_le⟩

end BindingPower
