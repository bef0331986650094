import BindingPower.Proofs.Grammar.Stock
import BindingPower.Proofs.Parser.Lockstep
import Mathlib.Order.Monotone.Basic

/-! Binding powers on another scale. The parser does nothing with powers but to compare them, and what
it takes one off of it compares with whole powers only. So nothing but their order matters, although
the powers of right operands do not move along with the scale. -/
namespace BindingPower
variable {V : Type}

/-- A scale on which powers keep their order and zero its place. -/
structure Scale where
  power : Int → Int
  lt : ∀ {r n : Int}, r < n → power r < power n
  zero : power 0 = 0

namespace Scale

def same : Scale := ⟨id, fun h => h, rfl⟩

/-- Powers below zero stay as they are. -/
def extend (f : ℕ → ℕ) : Int → Int
  | .ofNat n => f n
  | .negSucc n => .negSucc n

private theorem extend_lt {f : ℕ → ℕ} (hf : StrictMono f) {a b : Int} (hab : a < b) :
    extend f a < extend f b := by
  cases a with
  | ofNat m =>
    cases b with
    | ofNat n => exact Int.ofNat_lt.2 (hf (Int.ofNat_lt.1 hab))
    | negSucc n => exact absurd (hab.trans (Int.negSucc_lt_zero n)) (Int.natCast_nonneg m).not_gt
  | negSucc m =>
    cases b with
    | ofNat n => exact (Int.negSucc_lt_zero m).trans_le (Int.natCast_nonneg (f n))
    | negSucc n => exact hab

/-- A scale given on the powers from zero on. -/
def ofNat (f : ℕ → ℕ) (hf : StrictMono f) (hzero : f 0 = 0) : Scale where
  power := extend f
  lt := extend_lt hf
  zero := congrArg Int.ofNat hzero

variable (g : Scale)

private theorem lt_iff {r n : Int} : r < n ↔ g.power r < g.power n := by
  refine ⟨g.lt, fun h => ?_⟩
  rcases lt_trichotomy r n with hlt | rfl | hgt
  · exact hlt
  · exact absurd h (lt_irrefl _)
  · exact absurd (g.lt hgt) (lt_asymm h)

private theorem le_iff {r n : Int} : r ≤ n ↔ g.power r ≤ g.power n := by
  rw [← Int.not_lt, ← Int.not_lt, g.lt_iff]

private theorem eq_iff {r n : Int} : r = n ↔ g.power r = g.power n := by
  rw [le_antisymm_iff, le_antisymm_iff, ← g.le_iff, ← g.le_iff]

private theorem power_pos {n : Int} (h : 1 ≤ n) : 1 ≤ g.power n := by
  have hlt : g.power 0 < g.power n := g.lt (by omega)
  rw [g.zero] at hlt
  omega

private theorem power_nonneg {n : Int} (h : 0 ≤ n) : 0 ≤ g.power n := by
  rw [g.le_iff, g.zero] at h
  exact h

/-- What is one below a power compares with powers as what is one below its image does with theirs. -/
theorem pred_lt_iff (r n : Int) : r - 1 < n ↔ g.power r - 1 < g.power n := by
  rw [Int.sub_one_lt_iff, Int.sub_one_lt_iff, g.le_iff]

private theorem rightPower_lt_iff (assoc : Assoc) (r n : Int) :
    rightPower r assoc < n ↔ rightPower (g.power r) assoc < g.power n := by
  cases assoc with
  | right => exact g.pred_lt_iff r n
  | none | left => exact g.lt_iff

end Scale

/-! Tokens on another scale -/

/-- The powers that the kind holds on its own: those of operands after a prefix. -/
def Kind.regraded (g : Int → Int) : Kind V → Kind V
  | .prefixOp rbp fn => .prefixOp (g rbp) fn
  | .bifix assoc infixFn rbp prefixFn => .bifix assoc infixFn (g rbp) prefixFn
  | k => k

def Token.regraded (g : Int → Int) (t : Token V) : Token V :=
  ⟨t.identity, g t.lbp, t.name, t.kind.regraded g⟩

def Stream.regraded (g : Int → Int) (s : Stream V) : Stream V :=
  ⟨s.tokens.map (Token.regraded g), s.failure⟩

namespace Kind
variable (g : Int → Int) (k : Kind V)

@[simp] theorem regraded_id : k.regraded id = k := by cases k <;> rfl

@[simp] theorem isEnd_regraded : (k.regraded g).isEnd = k.isEnd := by cases k <;> rfl

@[simp] theorem assoc_regraded : (k.regraded g).assoc = k.assoc := by cases k <;> rfl

end Kind

@[simp] theorem Token.regraded_id (t : Token V) : t.regraded id = t := by
  simp only [regraded, Kind.regraded_id, id]

/-- On another scale a stock token is still one that its constructor lets through. -/
theorem Token.Stock.regraded {P : Matcher → Prop} {t : Token V} (h : t.Stock P) (g : Scale) :
    (t.regraded g.power).Stock P := by
  obtain ⟨identity, lbp, name, k⟩ := t
  obtain ⟨hkind, hpower, hproper⟩ := h
  dsimp only at hkind hpower
  refine ⟨?_, ?_, fun hi => ?_⟩
  · cases k <;> exact hkind
  · cases k with
    | endToken | conditional =>
      obtain rfl : lbp = 0 := hpower
      exact g.zero
    | infixOp | bifix | postfixOp | ternary => exact g.power_pos hpower
    | scripted | duck | literal | digit | prefixOp | group | keyword | traced =>
      exact g.power_nonneg hpower
  · exact (Kind.isEnd_regraded g.power k).trans (hproper hi)

/-- Of the same name and use, with a power on another scale. -/
structure Profile.Regraded (g : Int → Int) (p p' : Profile) : Prop where
  name : p.name = p'.name
  named : p.name ≠ none
  lbp : p'.lbp = g p.lbp
  isEnd : p.isEnd = p'.isEnd
  assoc : p.assoc = p'.assoc
  sentinel : p.identity = .sentinel ↔ p'.identity = .sentinel

/-- A token that has a name is mentioned by it. -/
theorem Profile.Regraded.mention {g : Int → Int} {p p' : Profile} (h : p.Regraded g p') :
    Profile.mention (some p) = Profile.mention (some p') := by
  obtain ⟨name, hname⟩ := Option.ne_none_iff_exists'.1 h.named
  simp only [Profile.mention, h.isEnd, ← h.name, hname]

private theorem Kind.profile_regraded (g : Int → Int) (k : Kind V) (identity : Identity) (lbp : Int)
    {name : Option String} (hname : name ≠ none) :
    (k.profile identity lbp name).Regraded g ((k.regraded g).profile identity (g lbp) name) :=
  ⟨rfl, hname, rfl, (k.isEnd_regraded g).symm, (k.assoc_regraded g).symm, Iff.rfl⟩

namespace Scale
variable (g : Scale)

/-- Parses that make the same values of tokens with powers on two scales. The powers down to which they
parse expressions need not correspond, but they compare alike with all powers of tokens. -/
def lockstep : Lockstep V V where
  value v r := r = .ok v
  power r r' := ∀ n, r < n ↔ r' < g.power n
  seen := Profile.Regraded g.power
  waived _ := False
  power_zero n := by rw [g.lt_iff, g.zero]
  power_sentinel h := by simpa only [g.zero] using h 0
  mention := Profile.Regraded.mention
  isEnd := Profile.Regraded.isEnd
  identity := Profile.Regraded.sentinel
  sentinel := ⟨rfl, nofun, g.zero.symm, rfl, rfl, Iff.rfl⟩

theorem blind_named (name : String) : (g.lockstep (V := V)).Blind (.named name) := by
  intro p p' h
  cases h with
  | none => rfl
  | some h => simp only [Matcher.accepts, Option.bind_some, h.name]

private theorem blind_of_isNamed {m : Matcher} (h : m.IsNamed) : (g.lockstep (V := V)).Blind m := by
  obtain ⟨name, rfl⟩ := h
  exact g.blind_named name

/-- Where the powers are the same, a matcher may look at them. -/
theorem blind_of_bySight {m : Matcher} (h : m.BySight) : (same.lockstep (V := V)).Blind m := by
  intro p p' hp
  cases hp with
  | none => rfl
  | @some p p' hp =>
    cases m with
    | named name => exact same.blind_named name (.some hp)
    | test label accepts => exact congrArg Except.ok (h p p' hp.name hp.lbp.symm)
    | anything | ofClass | only | invalid => exact h.elim

private theorem chains_regraded {p p' : Option Profile}
    (h : Option.Rel (Profile.Regraded g.power) p p') (lbp : Int) :
    Kind.chains lbp p = Kind.chains (g.power lbp) p' := by
  cases h with
  | none => rfl
  | some h =>
    simp only [Kind.chains, Option.any_some]
    rw [h.lbp, h.assoc, decide_eq_decide.2 g.eq_iff]

private theorem mirrors_finish (e : Except Fault V) : g.lockstep.Mirrors (.finish e) (.finish e) := by
  cases e with
  | ok v => exact .finish (r := .ok v) rfl
  | error f => exact .fail (.same _)

/-- A refusal of a token, which both mention by its name. -/
theorem mirrors_unexpected {p p' : Option Profile} (h : Option.Rel (Profile.Regraded g.power) p p')
    (pos : Int) (expected : String) :
    (g.lockstep (V := V)).Mirrors (.fail (.parse (.unexpected pos p expected)))
      (.fail (.parse (.unexpected pos p' expected))) :=
  .fail (.unexpected pos expected (Lockstep.mention_eq (L := g.lockstep (V := V)) h))

/-- Expressions down to powers that compare alike, of which both handlers get the same value. -/
theorem mirrors_expression {r r' : Int} {next next' : V → Action V V}
    (hr : ∀ n, r < n ↔ r' < g.power n) (h : ∀ v, g.lockstep.Mirrors (next v) (next' v)) :
    g.lockstep.Mirrors (.expression r next) (.expression r' next') := by
  refine .expression hr (fun v w hv => ?_) fun v f hv => nomatch hv
  cases hv
  exact h v

theorem mirrors_combine {assoc : Assoc} {lbp : Int} {name : Option String}
    {fn : V → V → Except Fault V} (v w : V) :
    g.lockstep.Mirrors (Kind.combine lbp name assoc fn v w)
      (Kind.combine (g.power lbp) name assoc fn v w) := by
  unfold Kind.combine
  split
  · refine .look fun p p' pos hp => ?_
    rw [g.chains_regraded hp]
    split
    · exact g.mirrors_unexpected hp pos _
    · exact g.mirrors_finish _
  · exact g.mirrors_finish _

variable {k : Kind V}

private theorem mirrors_nud (hk : k.Stock (g.lockstep (V := V)).Blind) :
    Option.Rel g.lockstep.Mirrors k.nud (k.regraded g.power).nud := by
  have hzero : ∀ n, 0 < n ↔ 0 < g.power n := g.lockstep.power_zero (V := V)
  cases k with
  | literal v => exact .some (g.mirrors_finish (.ok v))
  | digit value make extend joins => exact .some (g.mirrors_finish (make value))
  | prefixOp rbp fn =>
    exact .some (g.mirrors_expression (fun n => g.lt_iff) fun v => g.mirrors_finish (fn v))
  | bifix assoc infixFn rbp prefixFn =>
    exact .some (g.mirrors_expression (fun n => g.lt_iff) fun v => g.mirrors_finish (prefixFn v))
  | group close wrap =>
    refine .some (g.mirrors_expression hzero fun v => .expect hk fun _ _ _ => ?_)
    cases wrap with
    | none => exact g.mirrors_finish (.ok v)
    | some wrap => exact g.mirrors_finish (wrap v)
  | conditional thenMark elseMark endMark fn =>
    obtain ⟨hthen, helse, hend⟩ := hk
    refine .some (g.mirrors_expression hzero fun c => .expect hthen fun _ _ _ =>
      g.mirrors_expression hzero fun v => .attempt helse fun b => ?_)
    cases b with
    | true =>
      exact g.mirrors_expression hzero fun w => .expect hend fun _ _ _ => g.mirrors_finish _
    | false => exact .expect hend fun _ _ _ => g.mirrors_finish _
  | endToken | infixOp | postfixOp | keyword | ternary => exact .none
  | scripted | duck | traced => exact hk.elim

private theorem mirrors_led {identity : Identity} {lbp : Int} {name : Option String} (hname : name ≠ none)
    (hk : k.Stock (g.lockstep (V := V)).Blind) :
    Option.Rel (fun a b => ∀ v w, g.lockstep.value v (.ok w) → g.lockstep.Mirrors (a v) (b w))
      (k.led identity lbp name) ((k.regraded g.power).led identity (g.power lbp) name) := by
  have hzero : ∀ n, 0 < n ↔ 0 < g.power n := g.lockstep.power_zero (V := V)
  have hself := k.profile_regraded g.power identity lbp hname
  cases k with
  | digit value make extend joins =>
    refine .some fun v w hv => ?_
    cases hv
    cases joins v with
    | error f => exact .fail (.same _)
    | ok b =>
      cases b with
      | true => exact g.mirrors_finish _
      | false =>
        exact .look fun _ _ pos _ => g.mirrors_unexpected (.some hself) (pos - 1) _
  | infixOp assoc fn =>
    refine .some fun v w hv => ?_
    cases hv
    exact g.mirrors_expression (g.rightPower_lt_iff assoc lbp) (g.mirrors_combine v)
  | bifix assoc infixFn rbp prefixFn =>
    refine .some fun v w hv => ?_
    cases hv
    exact g.mirrors_expression (g.rightPower_lt_iff assoc lbp) (g.mirrors_combine v)
  | postfixOp fn =>
    refine .some fun v w hv => ?_
    cases hv
    exact g.mirrors_finish (fn v)
  | ternary separator fn =>
    refine .some fun c w hc => ?_
    cases hc
    exact g.mirrors_expression hzero fun v => .expect hk fun _ _ _ =>
      g.mirrors_expression (g.pred_lt_iff lbp) fun w => g.mirrors_finish (fn c v w)
  | endToken | literal | prefixOp | group | keyword | conditional => exact .none
  | scripted | duck | traced => exact hk.elim

/-- A named stock token and the same on another scale make a pair. -/
theorem pairs_regraded {t : Token V} (hk : t.kind.Stock (g.lockstep (V := V)).Blind)
    (hname : t.name ≠ none) : g.lockstep.Pairs t (t.regraded g.power) where
  seen := t.kind.profile_regraded g.power t.identity t.lbp hname
  power h := h t.lbp
  nud := g.mirrors_nud hk
  led := g.mirrors_led hname hk
  lasting _ _ _ _ hv := nomatch hv

end Scale

/-- Runs that end with the same value or with failures alike, at one position. -/
inductive Outcome.Alike : Outcome V V → Outcome V V → Prop
  | value {v p q} (hpos : p.pos = q.pos) : Alike ⟨.ok v, p⟩ ⟨.ok v, q⟩
  | failure {e e' p q} (he : e.Alike e') (hpos : p.pos = q.pos) : Alike ⟨.error e, p⟩ ⟨.error e', q⟩

theorem Outcome.Alike.of_agrees {g : Scale} {o o' : Outcome V V}
    (h : g.lockstep.Agrees g.lockstep.value o o') : o.Alike o' := by
  cases h with
  | @value v w p q hv hpq =>
    cases hv
    exact .value hpq.pos
  | failure he hpos => exact .failure he hpos
  | raised hv _ =>
    obtain ⟨v, hv⟩ := hv
    cases hv
  | waived hw => exact hw.elim

/-- Only the order of binding powers matters. On another scale of powers a stream of named stock tokens
is still one, and each run on it makes the same value or fails alike, at the same position. -/
theorem parse_regraded {f : ℕ → ℕ} (hf : StrictMono f) (hzero : f 0 = 0) {s : Stream V}
    (hs : ∀ t ∈ s.tokens, t.Stock Matcher.IsNamed ∧ t.name ≠ none) (trace strict : Bool) :
    (∀ t ∈ (s.regraded (Scale.extend f)).tokens, t.Stock Matcher.IsNamed ∧ t.name ≠ none) ∧
      (s.parse trace strict).Alike ((s.regraded (Scale.extend f)).parse trace strict) := by
  let g : Scale := .ofNat f hf hzero
  constructor
  · intro t ht
    obtain ⟨u, hu, rfl⟩ := List.mem_map.1 ht
    exact ⟨(hs u hu).1.regraded g, (hs u hu).2⟩
  · have hpaired : g.lockstep.PairedStreams s (s.regraded (Scale.extend f)) := by
      refine ⟨?_, rfl⟩
      rw [Stream.regraded, List.forall₂_map_right_iff, List.forall₂_same]
      intro t ht
      have hblind := (hs t ht).1.kind.mono fun m => g.blind_of_isNamed (V := V) (m := m)
      exact g.pairs_regraded hblind (hs t ht).2
    exact .of_agrees (Lockstep.parse_agrees hpaired trace trace strict)

/-- `2 ^ 3 ^ 2`, which groups to the right. -/
def tower : Stream ℕ :=
  let caret : Token ℕ := ⟨.anonymous, 40, some "^", .infixOp .right fun x y => .ok (x.pow y)⟩
  ⟨[⟨.anonymous, 0, some "2", .literal 2⟩, caret, ⟨.anonymous, 0, some "3", .literal 3⟩, caret,
    ⟨.anonymous, 0, some "2", .literal 2⟩], none⟩

/-- Three times as strong, the operator takes its right operand down to 119 instead of 39. -/
theorem parse_regraded_tower :
    StrictMono (fun n : ℕ => 3 * n) ∧ (∀ t ∈ tower.tokens, t.Stock Matcher.IsNamed ∧ t.name ≠ none) ∧
      (tower.parse false true).result = .ok 512 ∧
      ((tower.regraded (Scale.extend fun n => 3 * n)).parse false true).result = .ok 512 := by
  have hmono : StrictMono (fun n : ℕ => 3 * n) := fun a b hab => by dsimp only; omega
  have hstock : ∀ t ∈ tower.tokens, t.Stock Matcher.IsNamed ∧ t.name ≠ none := by
    have hliteral (name : String) (n : ℕ) :
        (⟨.anonymous, 0, some name, .literal n⟩ : Token ℕ).Stock Matcher.IsNamed :=
      ⟨trivial, le_refl _, nofun⟩
    have hcaret (fn : ℕ → ℕ → Except Fault ℕ) :
        (⟨.anonymous, 40, some "^", .infixOp .right fn⟩ : Token ℕ).Stock Matcher.IsNamed :=
      ⟨trivial, (by omega : (1 : Int) ≤ 40), nofun⟩
    simp [tower, hliteral, hcaret]
  have hvalue : (tower.parse false true).result = .ok 512 := rfl
  refine ⟨hmono, hstock, hvalue, ?_⟩
  have halike := (parse_regraded hmono rfl hstock false true).2
  generalize (tower.regraded _).parse false true = o' at halike
  generalize tower.parse false true = o at halike hvalue
  cases halike with
  | value => exact hvalue
  | failure => cases hvalue

end BindingPower
