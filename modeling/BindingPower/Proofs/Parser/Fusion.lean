import BindingPower.Proofs.Grammar.Stock
import BindingPower.Proofs.Parser.Counterparts
import Mathlib.Data.Nat.Bits

/-! Parsers never look into values. Where the functions of two grammars commute with a map between
their values, so do the parses, and failures are the same: to compute while parsing is to parse into
terms first and to evaluate them then. -/
namespace BindingPower
variable {V W : Type}

/-- What a token of the library does. Its functions never fail, and what it demands goes by name. -/
inductive Rule (V : Type) where
  | endToken
  | literal (value : V)
  | digit (digit : Int) (make : Int → V) (extend : V → Int → V) (joins : V → Bool)
  | infixOp (assoc : Assoc) (fn : V → V → V)
  | prefixOp (rbp : Int) (fn : V → V)
  | bifix (assoc : Assoc) (infixFn : V → V → V) (prefixRbp : Int) (prefixFn : V → V)
  | postfixOp (fn : V → V)
  | group (close : String) (wrap : Option (V → V))
  | keyword
  | ternary (separator : String) (fn : V → V → V → V)
  | conditional (thenMark elseMark endMark : String) (fn : V → V → Option V → V)

def Rule.kind : Rule V → Kind V
  | endToken => .endToken
  | literal v => .literal v
  | digit d make extend joins =>
    .digit d (fun d => .ok (make d)) (fun v d => .ok (extend v d)) fun v => .ok (joins v)
  | infixOp assoc fn => .infixOp assoc fun x y => .ok (fn x y)
  | prefixOp rbp fn => .prefixOp rbp fun x => .ok (fn x)
  | bifix assoc infixFn rbp prefixFn =>
    .bifix assoc (fun x y => .ok (infixFn x y)) rbp fun x => .ok (prefixFn x)
  | postfixOp fn => .postfixOp fun x => .ok (fn x)
  | group close wrap => .group (.named close) (wrap.map fun wrap x => .ok (wrap x))
  | keyword => .keyword
  | ternary separator fn => .ternary (.named separator) fun x y z => .ok (fn x y z)
  | conditional thenMark elseMark endMark fn =>
    .conditional (.named thenMark) (.named elseMark) (.named endMark) fun c x y => .ok (fn c x y)

/-- None of the functions of the kind ever fails. -/
def Kind.IsTotal : Kind V → Prop
  | digit _ make extend joins =>
    (∀ d, ∃ v, make d = .ok v) ∧ (∀ v d, ∃ w, extend v d = .ok w) ∧ ∀ v, ∃ b, joins v = .ok b
  | infixOp _ fn => ∀ x y, ∃ z, fn x y = .ok z
  | prefixOp _ fn | postfixOp fn => ∀ x, ∃ y, fn x = .ok y
  | bifix _ infixFn _ prefixFn =>
    (∀ x y, ∃ z, infixFn x y = .ok z) ∧ ∀ x, ∃ y, prefixFn x = .ok y
  | group _ wrap => ∀ fn ∈ wrap, ∀ x, ∃ y, fn x = .ok y
  | ternary _ fn => ∀ x y z, ∃ v, fn x y z = .ok v
  | conditional _ _ _ fn => ∀ c x y, ∃ v, fn c x y = .ok v
  | _ => True

/-- Each ready-made kind with delimiters by name and total functions is one of a rule. -/
theorem Kind.exists_rule {k : Kind V} (hstock : k.Stock Matcher.IsNamed) (htotal : k.IsTotal) :
    ∃ r : Rule V, r.kind = k := by
  cases k with
  | scripted | duck | traced => exact hstock.elim
  | endToken => exact ⟨.endToken, rfl⟩
  | literal v => exact ⟨.literal v, rfl⟩
  | keyword => exact ⟨.keyword, rfl⟩
  | digit d make extend joins =>
    obtain ⟨hmake, hextend, hjoins⟩ := htotal
    choose make' hmake using hmake
    choose extend' hextend using hextend
    choose joins' hjoins using hjoins
    refine ⟨.digit d make' extend' joins', ?_⟩
    rw [Rule.kind, funext hmake, funext fun v => funext (hextend v), funext hjoins]
  | infixOp assoc fn =>
    choose fn' hfn using htotal
    refine ⟨.infixOp assoc fn', ?_⟩
    rw [Rule.kind, funext fun x => funext (hfn x)]
  | prefixOp rbp fn =>
    choose fn' hfn using htotal
    refine ⟨.prefixOp rbp fn', ?_⟩
    rw [Rule.kind, funext hfn]
  | bifix assoc infixFn rbp prefixFn =>
    obtain ⟨hboth, hone⟩ := htotal
    choose infixFn' hboth using hboth
    choose prefixFn' hone using hone
    refine ⟨.bifix assoc infixFn' rbp prefixFn', ?_⟩
    rw [Rule.kind, funext fun x => funext (hboth x), funext hone]
  | postfixOp fn =>
    choose fn' hfn using htotal
    refine ⟨.postfixOp fn', ?_⟩
    rw [Rule.kind, funext hfn]
  | group close wrap =>
    obtain ⟨close, rfl⟩ := hstock
    cases wrap with
    | none => exact ⟨.group close none, rfl⟩
    | some fn =>
      choose fn' hfn using htotal fn rfl
      refine ⟨.group close (some fn'), ?_⟩
      rw [Rule.kind, funext hfn]
      rfl
  | ternary separator fn =>
    obtain ⟨separator, rfl⟩ := hstock
    choose fn' hfn using htotal
    refine ⟨.ternary separator fn', ?_⟩
    rw [Rule.kind, funext fun x => funext fun y => funext (hfn x y)]
  | conditional thenMark elseMark endMark fn =>
    obtain ⟨⟨thenMark, rfl⟩, ⟨elseMark, rfl⟩, ⟨endMark, rfl⟩⟩ := hstock
    choose fn' hfn using htotal
    refine ⟨.conditional thenMark elseMark endMark fn', ?_⟩
    rw [Rule.kind, funext fun c => funext fun x => funext (hfn c x)]

/-- A token with its rule. Only the end mark is called so. -/
structure RuledToken (V : Type) where
  identity : Identity
  lbp : Int
  name : Option String
  rule : Rule V
  proper : identity = .sentinel → rule = .endToken

def RuledToken.token (t : RuledToken V) : Token V := ⟨t.identity, t.lbp, t.name, t.rule.kind⟩

/-- A stock token that demands by name and has total functions. -/
structure Token.Library (t : Token V) : Prop where
  stock : t.Stock Matcher.IsNamed
  total : t.kind.IsTotal

private theorem Token.Library.exists_ruled {t : Token V} (h : t.Library) : ∃ r : RuledToken V, r.token = t := by
  obtain ⟨rule, hrule⟩ := Kind.exists_rule h.stock.kind h.total
  have hproper : t.identity = .sentinel → rule = .endToken := by
    intro hi
    have hend : t.kind.isEnd = true := h.stock.proper hi
    rw [← hrule] at hend
    cases rule with
    | endToken => rfl
    | _ => cases hend
  exact ⟨⟨t.identity, t.lbp, t.name, rule, hproper⟩, by rw [RuledToken.token, hrule]⟩

private theorem exists_ruled {ts : List (Token V)} (h : ∀ t ∈ ts, t.Library) :
    ∃ rs : List (RuledToken V), rs.map RuledToken.token = ts := by
  induction ts with
  | nil => exact ⟨[], rfl⟩
  | cons t ts ih =>
    obtain ⟨ht, hts⟩ := List.forall_mem_cons.1 h
    obtain ⟨r, rfl⟩ := ht.exists_ruled
    obtain ⟨rs, rfl⟩ := ih hts
    exact ⟨r :: rs, rfl⟩

/-- A run on some tokens, behind which the source may fail. -/
def parseRuled (ts : List (RuledToken V)) (failure : Option Failure) (trace strict : Bool) :
    Outcome V V :=
  (Stream.mk (ts.map RuledToken.token) failure).parse trace strict

/-! Maps between values -/

/-- Rules that differ in their functions only, and these commute with the map. -/
inductive Rule.Maps (h : V → W) : Rule V → Rule W → Prop
  | endToken : Maps h .endToken .endToken
  | literal (v : V) : Maps h (.literal v) (.literal (h v))
  | digit {d make make' extend extend' joins joins'} (hmake : make' d = h (make d))
      (hextend : ∀ v, extend' (h v) d = h (extend v d)) (hjoins : ∀ v, joins' (h v) = joins v) :
      Maps h (.digit d make extend joins) (.digit d make' extend' joins')
  | infixOp {assoc fn fn'} (hfn : ∀ x y, fn' (h x) (h y) = h (fn x y)) :
      Maps h (.infixOp assoc fn) (.infixOp assoc fn')
  | prefixOp {rbp fn fn'} (hfn : ∀ x, fn' (h x) = h (fn x)) :
      Maps h (.prefixOp rbp fn) (.prefixOp rbp fn')
  | bifix {assoc infixFn infixFn' rbp prefixFn prefixFn'}
      (hboth : ∀ x y, infixFn' (h x) (h y) = h (infixFn x y))
      (hone : ∀ x, prefixFn' (h x) = h (prefixFn x)) :
      Maps h (.bifix assoc infixFn rbp prefixFn) (.bifix assoc infixFn' rbp prefixFn')
  | postfixOp {fn fn'} (hfn : ∀ x, fn' (h x) = h (fn x)) : Maps h (.postfixOp fn) (.postfixOp fn')
  | group {close} : Maps h (.group close none) (.group close none)
  | wrapped {close fn fn'} (hfn : ∀ x, fn' (h x) = h (fn x)) :
      Maps h (.group close (some fn)) (.group close (some fn'))
  | keyword : Maps h .keyword .keyword
  | ternary {separator fn fn'} (hfn : ∀ x y z, fn' (h x) (h y) (h z) = h (fn x y z)) :
      Maps h (.ternary separator fn) (.ternary separator fn')
  | conditional {thenMark elseMark endMark fn fn'}
      (hfn : ∀ c x y, fn' (h c) (h x) (y.map h) = h (fn c x y)) :
      Maps h (.conditional thenMark elseMark endMark fn)
        (.conditional thenMark elseMark endMark fn')

structure RuledToken.Maps (h : V → W) (t : RuledToken V) (u : RuledToken W) : Prop where
  sentinel : t.identity = .sentinel ↔ u.identity = .sentinel
  lbp : t.lbp = u.lbp
  name : t.name = u.name
  rule : t.rule.Maps h u.rule

/-- A value stands for its image. -/
def mapping (h : V → W) : Lockstep V W := .ofValues (fun v r => r = .ok (h v)) fun _ => False

namespace mapping
variable {h : V → W}

theorem unary (f : V → V) (f' : W → W) (hf : ∀ x, f' (h x) = h (f x)) :
    (mapping h).Unary (fun x => .ok (f x)) fun x => .ok (f' x) := by
  rintro v r rfl
  exact ⟨f v, rfl, congrArg Except.ok (hf v)⟩

theorem binary {f : V → V → V} {f' : W → W → W} (hf : ∀ x y, f' (h x) (h y) = h (f x y)) :
    (mapping h).Binary (fun x y => .ok (f x y)) fun x y => .ok (f' x y) where
  apply := by
    rintro v w v' r hv rfl
    cases hv
    exact ⟨f v v', rfl, congrArg Except.ok (hf v v')⟩
  left hv := nomatch hv

theorem choice {f : V → V → Option V → V} {f' : W → W → Option W → W}
    (hf : ∀ c x y, f' (h c) (h x) (y.map h) = h (f c x y)) :
    (mapping h).Choice (fun c x y => .ok (f c x y)) fun c x y => .ok (f' c x y) where
  apply := by
    rintro c d v w v' r hc hv rfl
    cases hc
    cases hv
    exact ⟨f c v (some v'), rfl, congrArg Except.ok (hf c v (some v'))⟩
  short := by
    rintro c d v r hc rfl
    cases hc
    exact ⟨f c v none, rfl, congrArg Except.ok (hf c v none)⟩
  branch _ hv := nomatch hv
  cond hc := nomatch hc

end mapping

/-- Tokens with functions that commute with the map make a pair. -/
theorem RuledToken.Maps.pairs {h : V → W} {t : RuledToken V} {u : RuledToken W} (htu : t.Maps h u) :
    (mapping h).Pairs t.token u.token := by
  obtain ⟨i, lbp, name, rule, hproper⟩ := t
  obtain ⟨i', lbp', name', rule', hproper'⟩ := u
  obtain ⟨hsentinel, rfl, rfl, hrule⟩ := htu
  have hi (hne : rule ≠ .endToken) : i ≠ .sentinel := fun hi => hne (hproper hi)
  have hi' (hne : rule' ≠ .endToken) : i' ≠ .sentinel := fun hi => hne (hproper' hi)
  dsimp only at hrule hsentinel
  unfold token Rule.kind
  cases hrule with
  | endToken =>
    have hlike : (Token.mk i lbp name .endToken : Token V).profile.Like
        (Token.mk i' lbp name .endToken : Token W).profile := ⟨rfl, hsentinel⟩
    exact ⟨hlike, fun hr => hr ▸ Iff.rfl, .none, .none, fun _ hled => by cases hled⟩
  | literal v => exact Lockstep.pairs_literal (hi nofun) (hi' nofun) rfl
  | @digit d make make' extend extend' joins joins' hmake hextend hjoins =>
    have hunary : (mapping h).Unary (fun v => .ok (extend v d)) fun w => .ok (extend' w d) :=
      mapping.unary (extend · d) (extend' · d) hextend
    refine Lockstep.pairs_digit (hi nofun) (hi' nofun) ⟨_, rfl, congrArg Except.ok hmake⟩ hunary ?_
    rintro v w ⟨⟩
    exact congrArg Except.ok (hjoins v).symm
  | infixOp hfn => exact Lockstep.pairs_infixOp (hi nofun) (hi' nofun) (mapping.binary hfn)
  | prefixOp hfn => exact Lockstep.pairs_prefixOp (hi nofun) (hi' nofun) (mapping.unary _ _ hfn) _
  | bifix hboth hone =>
    exact Lockstep.pairs_bifix (hi nofun) (hi' nofun) (mapping.binary hboth)
      (mapping.unary _ _ hone)
  | postfixOp hfn => exact Lockstep.pairs_postfixOp (hi nofun) (hi' nofun) (mapping.unary _ _ hfn)
  | group => exact Lockstep.pairs_group (hi nofun) (hi' nofun) _
  | wrapped hfn => exact Lockstep.pairs_wrapped (hi nofun) (hi' nofun) (mapping.unary _ _ hfn) _
  | keyword => exact Lockstep.pairs_keyword (hi nofun) (hi' nofun)
  | @ternary separator fn fn' hfn =>
    -- The pair is that of a choice in which neither branch is left out.
    have hchoice : (mapping h).Choice (fun c x y => .ok (fn c x (y.getD x)))
        fun c x y => .ok (fn' c x (y.getD x)) := by
      refine mapping.choice ?_
      rintro c x (_ | y)
      · exact hfn c x x
      · exact hfn c x y
    exact Lockstep.pairs_ternary (hi nofun) (hi' nofun) hchoice separator
  | conditional hfn =>
    exact Lockstep.pairs_conditional (hi nofun) (hi' nofun) (mapping.choice hfn) _ _ _

/-- The second parse ends with the image of the value that the first ends with, or both with failures
alike. -/
structure FusesTo (h : V → W) (r : Except Failure V) (r' : Except Failure W) : Prop where
  value : ∀ w, r' = .ok w ↔ ∃ v, r = .ok v ∧ h v = w
  failure : ∀ e, r = .error e → ∃ e', r' = .error e' ∧ e.Alike e'
  failure_of : ∀ e', r' = .error e' → ∃ e, r = .error e ∧ e.Alike e'

private theorem fusesTo_ok (h : V → W) (v : V) : FusesTo h (.ok v) (.ok (h v)) where
  value w := by
    constructor
    · rintro ⟨⟩
      exact ⟨v, rfl, rfl⟩
    · rintro ⟨_, ⟨⟩, rfl⟩
      rfl
  failure _ he := nomatch he
  failure_of _ he := nomatch he

private theorem fusesTo_error (h : V → W) {e e' : Failure} (he : e.Alike e') :
    FusesTo h (.error e) (.error e') where
  value _ := ⟨(fun hw => nomatch hw), fun ⟨_, hv, _⟩ => nomatch hv⟩
  failure _ hr := ⟨e', rfl, Except.error.inj hr ▸ he⟩
  failure_of _ hr := ⟨e, rfl, Except.error.inj hr ▸ he⟩

theorem FusesTo.of_agrees {h : V → W} {o : Outcome V V} {o' : Outcome W W}
    (hagrees : (mapping h).Agrees (mapping h).value o o') : FusesTo h o.result o'.result := by
  cases hagrees with
  | @value v w p q hvalue _ =>
    cases (hvalue : Except.ok w = .ok (h v))
    exact fusesTo_ok h v
  | failure he _ => exact fusesTo_error h he
  | raised hvalue _ =>
    obtain ⟨v, hv⟩ := hvalue
    cases hv
  | waived hwaived => exact hwaived.elim

private theorem fusesTo_of_maps {h : V → W} {ts : List (RuledToken V)} {us : List (RuledToken W)}
    (htu : List.Forall₂ (RuledToken.Maps h) ts us) (failure : Option Failure) (trace strict : Bool) :
    FusesTo h (parseRuled ts failure trace strict).result
      (parseRuled us failure trace strict).result := by
  have hpaired : (mapping h).PairedStreams ⟨ts.map RuledToken.token, failure⟩
      ⟨us.map RuledToken.token, failure⟩ := by
    refine ⟨?_, rfl⟩
    rw [List.forall₂_map_left_iff, List.forall₂_map_right_iff]
    exact htu.imp fun _ _ h => h.pairs
  exact .of_agrees (Lockstep.parse_agrees hpaired trace trace strict)

/-! Terms -/

/-- Values and the functions to apply to them. -/
inductive Term (W : Type) where
  | leaf (w : W)
  | unary (fn : W → W) (x : Term W)
  | binary (fn : W → W → W) (x y : Term W)
  | ternary (fn : W → W → W → W) (x y z : Term W)

def Term.fold : Term W → W
  | leaf w => w
  | unary fn x => fn x.fold
  | binary fn x y => fn x.fold y.fold
  | ternary fn x y z => fn x.fold y.fold z.fold

/-- The term of a choice, in which the second branch may be left out. -/
def Term.choice (fn : W → W → Option W → W) (c x : Term W) : Option (Term W) → Term W
  | none => .binary (fun c x => fn c x none) c x
  | some y => .ternary (fun c x y => fn c x (some y)) c x y

/-- The rule with terms for values: nothing is applied, but to decide whether a digit joins. -/
def Rule.free : Rule W → Rule (Term W)
  | endToken => .endToken
  | literal w => .literal (.leaf w)
  | digit d make extend joins =>
    .digit d (fun d => .leaf (make d)) (fun t d => .unary (extend · d) t) fun t => joins t.fold
  | infixOp assoc fn => .infixOp assoc (.binary fn)
  | prefixOp rbp fn => .prefixOp rbp (.unary fn)
  | bifix assoc infixFn rbp prefixFn => .bifix assoc (.binary infixFn) rbp (.unary prefixFn)
  | postfixOp fn => .postfixOp (.unary fn)
  | group close wrap => .group close (wrap.map .unary)
  | keyword => .keyword
  | ternary separator fn => .ternary separator (.ternary fn)
  | conditional thenMark elseMark endMark fn =>
    .conditional thenMark elseMark endMark (.choice fn)

def RuledToken.free (t : RuledToken W) : RuledToken (Term W) where
  identity := t.identity
  lbp := t.lbp
  name := t.name
  rule := t.rule.free
  proper h := by rw [t.proper h, Rule.free]

private theorem Rule.free_maps (r : Rule W) : r.free.Maps Term.fold r := by
  cases r with
  | endToken => exact .endToken
  | literal w => exact .literal _
  | digit d make extend joins => exact .digit rfl (fun _ => rfl) fun _ => rfl
  | infixOp assoc fn => exact .infixOp fun _ _ => rfl
  | prefixOp rbp fn => exact .prefixOp fun _ => rfl
  | bifix assoc infixFn rbp prefixFn => exact .bifix (fun _ _ => rfl) fun _ => rfl
  | postfixOp fn => exact .postfixOp fun _ => rfl
  | group close wrap =>
    cases wrap with
    | none => exact .group
    | some fn => exact .wrapped fun _ => rfl
  | keyword => exact .keyword
  | ternary separator fn => exact .ternary fun _ _ _ => rfl
  | conditional thenMark elseMark endMark fn =>
    refine .conditional fun c x y => ?_
    cases y <;> rfl

private theorem RuledToken.free_maps (us : List (RuledToken W)) :
    List.Forall₂ (RuledToken.Maps Term.fold) (us.map RuledToken.free) us := by
  rw [List.forall₂_map_left_iff, List.forall₂_same]
  exact fun u _ => ⟨Iff.rfl, rfl, rfl, u.rule.free_maps⟩

/-- Tokens that differ in their functions only, which commute with a map between the values, are parsed
to a value and to its image, or with failures alike. So to parse with the functions at hand is to parse
into terms and to fold these. All stock tokens that demand by name and have total functions are such
tokens. -/
theorem parse_fuses :
    (∀ {V W : Type} (h : V → W) (ts : List (RuledToken V)) (us : List (RuledToken W))
        (failure : Option Failure) (trace strict : Bool),
        List.Forall₂ (RuledToken.Maps h) ts us →
          FusesTo h (parseRuled ts failure trace strict).result
            (parseRuled us failure trace strict).result) ∧
      (∀ {W : Type} (us : List (RuledToken W)) (failure : Option Failure) (trace strict : Bool),
        FusesTo Term.fold (parseRuled (us.map RuledToken.free) failure trace strict).result
          (parseRuled us failure trace strict).result) ∧
      ∀ {V W : Type} (h : V → W) (ts : List (Token V)) (us : List (Token W)),
        (∀ t ∈ ts, t.Library) → (∀ u ∈ us, u.Library) →
          ∃ rs ss, rs.map RuledToken.token = ts ∧ ss.map RuledToken.token = us ∧
            ∀ (failure : Option Failure) (trace strict : Bool),
              (List.Forall₂ (RuledToken.Maps h) rs ss →
                FusesTo h ((Stream.mk ts failure).parse trace strict).result
                  ((Stream.mk us failure).parse trace strict).result) ∧
              FusesTo Term.fold (parseRuled (ss.map RuledToken.free) failure trace strict).result
                ((Stream.mk us failure).parse trace strict).result := by
  refine ⟨fun _ _ _ failure trace strict htu => fusesTo_of_maps htu failure trace strict,
    fun us failure trace strict => fusesTo_of_maps (RuledToken.free_maps us) failure trace strict,
    fun h ts us hts hus => ?_⟩
  obtain ⟨rs, rfl⟩ := exists_ruled hts
  obtain ⟨ss, rfl⟩ := exists_ruled hus
  exact ⟨rs, ss, rfl, rfl, fun failure trace strict =>
    ⟨fun hmaps => fusesTo_of_maps hmaps failure trace strict,
      fusesTo_of_maps (RuledToken.free_maps ss) failure trace strict⟩⟩

/-- A token with no identity of its own. -/
def RuledToken.anonymous (name : String) (lbp : Int) (rule : Rule V) : RuledToken V where
  identity := .anonymous
  lbp := lbp
  name := some name
  rule := rule
  proper h := absurd h (by decide)

/-- `3 + 4 * 5` over some numbers. -/
def formula (number : ℕ → V) (add mul : V → V → V) : List (RuledToken V) :=
  [.anonymous "3" 0 (.literal (number 3)), .anonymous "+" 10 (.infixOp .left add),
    .anonymous "4" 0 (.literal (number 4)), .anonymous "*" 20 (.infixOp .left mul),
    .anonymous "5" 0 (.literal (number 5))]

/-- Whether a value is odd is computed from whether the numbers are. -/
theorem parse_fuses_parity :
    List.Forall₂ (RuledToken.Maps Nat.bodd) (formula id (· + ·) (· * ·))
        (formula Nat.bodd xor and) ∧
      (parseRuled (formula id (· + ·) (· * ·)) none false true).result = .ok 23 ∧
      (parseRuled (formula Nat.bodd xor and) none false true).result = .ok true := by
  have hmaps : List.Forall₂ (RuledToken.Maps Nat.bodd) (formula id (· + ·) (· * ·))
      (formula Nat.bodd xor and) := by
    have hliteral (n : ℕ) : (Rule.literal n).Maps Nat.bodd (.literal n.bodd) := .literal n
    refine .cons ⟨Iff.rfl, rfl, rfl, hliteral 3⟩ (.cons ⟨Iff.rfl, rfl, rfl, .infixOp ?_⟩
      (.cons ⟨Iff.rfl, rfl, rfl, hliteral 4⟩ (.cons ⟨Iff.rfl, rfl, rfl, .infixOp ?_⟩
        (.cons ⟨Iff.rfl, rfl, rfl, hliteral 5⟩ .nil))))
    · exact fun x y => (Nat.bodd_add x y).symm
    · exact fun x y => (Nat.bodd_mul x y).symm
  have hvalue : (parseRuled (formula id (· + ·) (· * ·)) none false true).result = .ok 23 := rfl
  obtain ⟨hfuses, -⟩ := parse_fuses
  exact ⟨hmaps, hvalue, ((hfuses _ _ _ none false true hmaps).value true).2 ⟨23, hvalue, rfl⟩⟩

end BindingPower
