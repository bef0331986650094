import BindingPower.Lexer.Basic
import BindingPower.Proofs.Parser.Lockstep

/-! Tokens that differ in their values only. Two of a kind, with the same name and powers, make a pair
if the functions they apply commute with what the values stand for. -/
namespace BindingPower
variable {V W : Type}

/-- Of the same looks, though it may be another token. -/
structure Profile.Like (p p' : Profile) : Prop where
  looks : p' = { p with identity := p'.identity }
  sentinel : p.identity = .sentinel ↔ p'.identity = .sentinel

namespace Profile.Like
variable {p p' : Profile}

theorem name (h : p.Like p') : p.name = p'.name := by rw [h.looks]

theorem mention (h : p.Like p') : Profile.mention (some p) = Profile.mention (some p') := by
  rw [h.looks]
  rfl

end Profile.Like

namespace Lockstep

/-- Parses of tokens of the same looks down to the same powers, with values that stand for others. -/
def ofValues (value : V → Except Fault W → Prop) (waived : Failure → Prop) : Lockstep V W where
  value := value
  power := Eq
  seen := Profile.Like
  waived := waived
  power_zero := rfl
  power_sentinel h := h ▸ Iff.rfl
  mention h := h.mention
  isEnd h := by rw [h.looks]
  identity h := h.sentinel
  sentinel := ⟨rfl, Iff.rfl⟩

section
variable (L : Lockstep V W)

/-- A result that stands for another. -/
def Computes (g : Except Fault V) (r : Except Fault W) : Prop := ∃ x, g = .ok x ∧ L.value x r

/-- Functions of one operand that commute with what it stands for. -/
def Unary (g : V → Except Fault V) (h : W → Except Fault W) : Prop :=
  ∀ {v r}, L.value v r → L.Computes (g v) (r >>= h)

/-- Functions of two operands. A fault in the first makes the second irrelevant. -/
structure Binary (g : V → V → Except Fault V) (h : W → W → Except Fault W) : Prop where
  apply : ∀ {v w v' r}, L.value v (.ok w) → L.value v' r → L.Computes (g v v') (r >>= h w)
  left : ∀ {v f}, L.value v (.error f) → ∀ v', L.Computes (g v v') (.error f)

/-- Functions of a condition and two branches, the second of which may be left out. -/
structure Choice (g : V → V → Option V → Except Fault V) (h : W → W → Option W → Except Fault W) :
    Prop where
  apply : ∀ {c d v w v' r}, L.value c (.ok d) → L.value v (.ok w) → L.value v' r →
    L.Computes (g c v (some v')) (r >>= fun w' => h d w (some w'))
  short : ∀ {c d v r}, L.value c (.ok d) → L.value v r →
    L.Computes (g c v none) (r >>= fun w => h d w none)
  branch : ∀ {c d v f}, L.value c (.ok d) → L.value v (.error f) →
    ∀ v', L.Computes (g c v v') (.error f)
  cond : ∀ {c f}, L.value c (.error f) → ∀ v v', L.Computes (g c v v') (.error f)

variable {L}

private theorem Computes.mirrors {g : Except Fault V} {r : Except Fault W} (h : L.Computes g r) :
    L.Mirrors (.finish g) (.finish r) := by
  obtain ⟨x, rfl, hx⟩ := h
  exact .finish hx

theorem Computes.doomed {g : Except Fault V} {f : Fault} (h : L.Computes g (.error f)) :
    L.Doomed f (.finish g) := by
  obtain ⟨x, rfl, hx⟩ := h
  exact hx

end

section
variable {value : V → Except Fault W → Prop} {waived : Failure → Prop} {i i' : Identity} {lbp : Int}
  {name : Option String}

theorem blind_named (m : String) : (ofValues value waived).Blind (.named m) := by
  intro p p' h
  cases h with
  | none => rfl
  | some h => simp only [Matcher.accepts, Option.bind_some, h.name]

private theorem chains_like {p p' : Option Profile} (h : Option.Rel Profile.Like p p') :
    Kind.chains lbp p = Kind.chains lbp p' := by
  cases h with
  | none => rfl
  | some h =>
    simp only [Kind.chains, Option.any_some]
    rw [h.looks]

variable (hi : i ≠ .sentinel) (hi' : i' ≠ .sentinel)
include hi hi'

theorem like_profile {k : Kind V} {k' : Kind W} (hcls : k.cls = k'.cls) (hend : k.isEnd = k'.isEnd)
    (hassoc : k.assoc = k'.assoc) :
    (Token.mk i lbp name k).profile.Like (Token.mk i' lbp name k').profile where
  looks := by
    simp only [Token.profile, Kind.profile]
    rw [hcls, hend, hassoc]
  sentinel := ⟨fun h => absurd h hi, fun h => absurd h hi'⟩

theorem pairs_literal {v : V} {w : W} (h : value v (.ok w)) :
    (ofValues value waived).Pairs ⟨i, lbp, name, .literal v⟩ ⟨i', lbp, name, .literal w⟩ where
  seen := like_profile hi hi' rfl rfl rfl
  power hr := hr ▸ Iff.rfl
  nud := .some (.finish (r := .ok w) h)
  led := .none
  lasting _ hled := nomatch hled

theorem pairs_keyword :
    (ofValues value waived).Pairs ⟨i, lbp, name, .keyword⟩ ⟨i', lbp, name, .keyword⟩ where
  seen := like_profile hi hi' rfl rfl rfl
  power hr := hr ▸ Iff.rfl
  nud := .none
  led := .none
  lasting _ hled := nomatch hled

theorem pairs_group (close : String) :
    (ofValues value waived).Pairs ⟨i, lbp, name, .group (.named close) none⟩
      ⟨i', lbp, name, .group (.named close) none⟩ where
  seen := like_profile hi hi' rfl rfl rfl
  power hr := hr ▸ Iff.rfl
  nud := .some <| .expression rfl
    (fun _ _ hx => .expect (blind_named close) fun _ _ _ => .finish hx) fun _ _ hx _ => hx
  led := .none
  lasting _ hled := nomatch hled

section
variable {g : V → Except Fault V} {h : W → Except Fault W}

theorem pairs_wrapped (hgh : (ofValues value waived).Unary g h) (close : String) :
    (ofValues value waived).Pairs ⟨i, lbp, name, .group (.named close) (some g)⟩
      ⟨i', lbp, name, .group (.named close) (some h)⟩ where
  seen := like_profile hi hi' rfl rfl rfl
  power hr := hr ▸ Iff.rfl
  nud := .some <| .expression rfl
    (fun _ _ hx => .expect (blind_named close) fun _ _ _ => (hgh hx).mirrors)
    fun _ _ hx _ => (hgh hx).doomed
  led := .none
  lasting _ hled := nomatch hled

theorem pairs_prefixOp (hgh : (ofValues value waived).Unary g h) (rbp : Int) :
    (ofValues value waived).Pairs ⟨i, lbp, name, .prefixOp rbp g⟩
      ⟨i', lbp, name, .prefixOp rbp h⟩ where
  seen := like_profile hi hi' rfl rfl rfl
  power hr := hr ▸ Iff.rfl
  nud := .some <| .expression rfl (fun _ _ hx => (hgh hx).mirrors) fun _ _ hx => (hgh hx).doomed
  led := .none
  lasting _ hled := nomatch hled

theorem pairs_postfixOp (hgh : (ofValues value waived).Unary g h) :
    (ofValues value waived).Pairs ⟨i, lbp, name, .postfixOp g⟩
      ⟨i', lbp, name, .postfixOp h⟩ where
  seen := like_profile hi hi' rfl rfl rfl
  power hr := hr ▸ Iff.rfl
  nud := .none
  led := .some fun _ _ hv => (hgh hv).mirrors
  lasting _ hled _ _ hv := by
    cases hled
    exact (hgh hv).doomed

end

section
variable {d : Int} {make : Int → Except Fault V} {make' : Int → Except Fault W}
  {extend : V → Int → Except Fault V} {extend' : W → Int → Except Fault W}
  {joins : V → Except Fault Bool} {joins' : W → Except Fault Bool}

theorem pairs_digit (hmake : (ofValues value waived).Computes (make d) (make' d))
    (hextend : (ofValues value waived).Unary (extend · d) (extend' · d))
    (hjoins : ∀ {v w}, value v (.ok w) → joins v = joins' w) :
    (ofValues value waived).Pairs ⟨i, lbp, name, .digit d make extend joins⟩
      ⟨i', lbp, name, .digit d make' extend' joins'⟩ where
  seen := like_profile hi hi' rfl rfl rfl
  power hr := hr ▸ Iff.rfl
  nud := .some hmake.mirrors
  led := by
    refine .some fun v w hv => ?_
    dsimp only
    rw [hjoins hv]
    split
    · exact .fail (.same _)
    · exact (hextend hv).mirrors
    · exact .look fun p p' pos _ => .fail (.unexpected _ _
        (mention_eq (L := ofValues value waived) (.some (like_profile hi hi' rfl rfl rfl))))
  lasting _ hled v f hv := by
    cases hled
    dsimp only
    split
    · trivial
    · exact (hextend hv).doomed
    · exact fun _ _ => trivial

end

section
variable {g : V → V → Except Fault V} {h : W → W → Except Fault W} {assoc : Assoc}

omit hi hi' in
/-- The end of an infix operator with both operands. -/
theorem mirrors_combine {v v' : V} {w w' : W}
    (hgh : (ofValues value waived).Computes (g v v') (h w w')) :
    (ofValues value waived).Mirrors (Kind.combine lbp name assoc g v v')
      (Kind.combine lbp name assoc h w w') := by
  unfold Kind.combine
  split
  · refine .look fun p p' pos hp => ?_
    rw [chains_like hp]
    split
    · exact .fail (.unexpected _ _ (mention_eq (L := ofValues value waived) hp))
    · exact hgh.mirrors
  · exact hgh.mirrors

omit hi hi' in
private theorem doomed_combine {v v' : V} {f : Fault}
    (hg : (ofValues value waived).Computes (g v v') (.error f)) :
    (ofValues value waived).Doomed f (Kind.combine lbp name assoc g v v') := by
  unfold Kind.combine
  split
  · intro p pos
    dsimp only
    split
    · trivial
    · exact hg.doomed
  · exact hg.doomed

omit hi hi' in
/-- What an operator does after its left operand. -/
private theorem mirrors_infix (hgh : (ofValues value waived).Binary g h) {v : V} {w : W}
    (hv : value v (.ok w)) :
    (ofValues value waived).Mirrors
      (.expression (rightPower lbp assoc) fun v' => Kind.combine lbp name assoc g v v')
      (.expression (rightPower lbp assoc) fun w' => Kind.combine lbp name assoc h w w') :=
  .expression rfl (fun _ _ hv' => mirrors_combine (hgh.apply hv hv'))
    fun _ _ hv' => doomed_combine (hgh.apply hv hv')

theorem pairs_infixOp (hgh : (ofValues value waived).Binary g h) :
    (ofValues value waived).Pairs ⟨i, lbp, name, .infixOp assoc g⟩
      ⟨i', lbp, name, .infixOp assoc h⟩ where
  seen := like_profile hi hi' rfl rfl rfl
  power hr := hr ▸ Iff.rfl
  nud := .none
  led := .some fun _ _ hv => mirrors_infix hgh hv
  lasting _ hled _ _ hv := by
    cases hled
    exact fun v' => doomed_combine (hgh.left hv v')

theorem pairs_bifix (hgh : (ofValues value waived).Binary g h) {rbp : Int}
    {g' : V → Except Fault V} {h' : W → Except Fault W}
    (hsign : (ofValues value waived).Unary g' h') :
    (ofValues value waived).Pairs ⟨i, lbp, name, .bifix assoc g rbp g'⟩
      ⟨i', lbp, name, .bifix assoc h rbp h'⟩ where
  seen := like_profile hi hi' rfl rfl rfl
  power hr := hr ▸ Iff.rfl
  nud := .some <| .expression rfl (fun _ _ hx => (hsign hx).mirrors) fun _ _ hx =>
    (hsign hx).doomed
  led := .some fun _ _ hv => mirrors_infix hgh hv
  lasting _ hled _ _ hv := by
    cases hled
    exact fun v' => doomed_combine (hgh.left hv v')

end

section
variable {g : V → V → Option V → Except Fault V} {h : W → W → Option W → Except Fault W}

theorem pairs_ternary (hgh : (ofValues value waived).Choice g h) (separator : String) :
    (ofValues value waived).Pairs
      ⟨i, lbp, name, .ternary (.named separator) fun c v v' => g c v (some v')⟩
      ⟨i', lbp, name, .ternary (.named separator) fun c w w' => h c w (some w')⟩ where
  seen := like_profile hi hi' rfl rfl rfl
  power hr := hr ▸ Iff.rfl
  nud := .none
  led := .some fun _ _ hc => .expression rfl
    (fun _ _ hv => .expect (blind_named separator) fun _ _ _ => .expression rfl
      (fun _ _ hv' => (hgh.apply hc hv hv').mirrors) fun _ _ hv' => (hgh.apply hc hv hv').doomed)
    fun _ _ hv _ v' => (hgh.branch hc hv (some v')).doomed
  lasting _ hled _ _ hc := by
    cases hled
    exact fun v _ v' => (hgh.cond hc v (some v')).doomed

theorem pairs_conditional (hgh : (ofValues value waived).Choice g h)
    (thenMark elseMark endMark : String) :
    (ofValues value waived).Pairs
      ⟨i, lbp, name, .conditional (.named thenMark) (.named elseMark) (.named endMark) g⟩
      ⟨i', lbp, name, .conditional (.named thenMark) (.named elseMark) (.named endMark) h⟩ where
  seen := like_profile hi hi' rfl rfl rfl
  power hr := hr ▸ Iff.rfl
  nud := by
    refine .some (.expression rfl (fun c d hc => .expect (blind_named thenMark) fun _ _ _ =>
      .expression rfl (fun v w hv => .attempt (blind_named elseMark) fun b => ?_) ?_) ?_)
    · cases b with
      | true =>
        exact .expression rfl
          (fun _ _ hv' => .expect (blind_named endMark) fun _ _ _ => (hgh.apply hc hv hv').mirrors)
          fun _ _ hv' _ => (hgh.apply hc hv hv').doomed
      | false => exact .expect (blind_named endMark) fun _ _ _ => (hgh.short hc hv).mirrors
    -- A fault in the first branch, and one in the condition.
    · rintro v f hv (_ | _)
      · exact fun _ => (hgh.branch hc hv none).doomed
      · exact fun v' _ => (hgh.branch hc hv (some v')).doomed
    · rintro c f hc _ v (_ | _)
      · exact fun _ => (hgh.cond hc v none).doomed
      · exact fun v' _ => (hgh.cond hc v (some v')).doomed
  led := .none
  lasting _ hled := nomatch hled

end

end

/-! Streams read by two tables -/

section
variable {L : Lockstep V W} {t : Table V} {u : Table W}

/-- An entry of each table, for one lexeme. -/
def PairedEntries (L : Lockstep V W) (e : String × Token V) (e' : String × Token W) : Prop :=
  e.1 = e'.1 ∧ L.Pairs e.2 e'.2

theorem lookup_paired {es : Entries V} {es' : Entries W}
    (h : List.Forall₂ L.PairedEntries es es') (lexeme : String) :
    Option.Rel L.Pairs (es.lookup lexeme) (es'.lookup lexeme) := by
  induction h with
  | nil => exact .none
  | cons he _ ih =>
    rw [List.lookup_cons, List.lookup_cons, he.1]
    split
    · exact .some he.2
    · exact ih

theorem PairedStreams.cons {s : Stream V} {s' : Stream W} {v : Token V} {w : Token W}
    (hvw : L.Pairs v w) (h : L.PairedStreams s s') : L.PairedStreams (.cons v s) (.cons w s') :=
  ⟨.cons hvw h.tokens, h.failure⟩

theorem charsFrom_paired
    (h : ∀ lexeme, Option.Rel L.Pairs (t.lookup lexeme) (u.lookup lexeme)) (skip : List Char)
    (pos : Nat) (cs : List Char) :
    L.PairedStreams (t.charsFrom skip pos cs) (u.charsFrom skip pos cs) := by
  induction cs generalizing pos with
  | nil => exact ⟨.nil, rfl⟩
  | cons c cs ih =>
    rw [Table.charsFrom, Table.charsFrom]
    split
    · exact ih _
    · have hc := h (.singleton c)
      generalize t.lookup (.singleton c) = a at hc
      generalize u.lookup (.singleton c) = b at hc
      cases hc with
      | none => exact ⟨.nil, rfl⟩
      | some hvw => exact .cons hvw (ih _)

/-- What the two tables make of a piece of text: a token each, none, or the same failure. -/
inductive PairedPieces (L : Lockstep V W) :
    Except Failure (Option (Token V)) → Except Failure (Option (Token W)) → Prop
  | ok {a b} : Option.Rel L.Pairs a b → PairedPieces L (.ok a) (.ok b)
  | error (e) : PairedPieces L (.error e) (.error e)

theorem tokensFrom_paired {pieces : List Lexer.Piece}
    (h : ∀ piece ∈ pieces, ∀ pos, L.PairedPieces (t.tokenOf pos piece) (u.tokenOf pos piece))
    (pos : Nat) : L.PairedStreams (t.tokensFrom pos pieces) (u.tokensFrom pos pieces) := by
  induction pieces generalizing pos with
  | nil => exact ⟨.nil, rfl⟩
  | cons piece pieces ih =>
    obtain ⟨hpiece, hrest⟩ := List.forall_mem_cons.1 h
    have hpaired := hpiece pos
    rw [Table.tokensFrom, Table.tokensFrom]
    generalize t.tokenOf pos piece = a at hpaired
    generalize u.tokenOf pos piece = b at hpaired
    cases hpaired with
    | error e => exact ⟨.nil, rfl⟩
    | ok hab =>
      cases hab with
      | none => exact ih hrest _
      | some hvw => exact .cons hvw (ih hrest _)

end

end Lockstep

end BindingPower
