import BindingPower.Proofs.Parser.Lookahead

/-! Who consumes each token of a parse, and as what. Beside the configuration the account of a parse
keeps whose handlers are under way: a token that is dispatched puts its own to work, in the place of
the one whose result it is handed if it follows an operand, and one that is done gives way to the one
that has asked for the expression. -/
namespace BindingPower
variable {V : Type}

/-- The handler of the token at an index, in one of its uses, and how often it has demanded a token of
the parser so far. -/
structure Handler (V : Type) where
  index : Int
  token : Token V
  role : Role
  demands : Nat

/-- The handler under way and those that wait for it. The run itself is no token's. -/
abbrev Handlers (V : Type) := List (Option (Handler V))

/-- What a token is consumed as. -/
inductive Manner (V : Type) where
  /-- An expression starts with it. -/
  | starts
  /-- An expression goes on with it, after the result of a handler. -/
  | follows (left : Option (Handler V))
  /-- A handler has demanded a token like it, and had demanded so many before. -/
  | demanded (handler : Option (Handler V))
  /-- A handler has asked for the next token, whatever it is. -/
  | taken (handler : Option (Handler V))
  /-- It has not the handler that is asked for. -/
  | refused

/-- A token that is consumed, with its index. -/
structure Use (V : Type) where
  index : Int
  token : Token V
  manner : Manner V

def Handler.met (h : Handler V) : Handler V := { h with demands := h.demands + 1 }

namespace Config

/-- What the lookahead is consumed as, if it is. -/
def manner (c : Config V) (d : Option (Dispatch V)) (hs : Handlers V) : Manner V :=
  match d, c.action with
  | some d, _ => if d.left.isSome then .follows hs.head?.join else .starts
  | none, .expect .. | none, .attempt .. => .demanded hs.head?.join
  | none, .advance _ => .taken hs.head?.join
  | none, _ => .refused

/-- The handlers under way after a turn before a lookahead at a position, which may be dispatched. A
demand counts whether it is met or not. -/
def handlers (c : Config V) (pos : Int) (d : Option (Dispatch V)) (hs : Handlers V) : Handlers V :=
  match d, c.action with
  | some d, _ =>
    some ⟨pos, d.token, d.role, 0⟩ :: if d.left.isSome then hs.tail else hs
  | none, .done _ => hs.tail
  | none, .expect .. | none, .attempt .. => hs.modifyHead (Option.map Handler.met)
  | none, _ => hs

/-- The use that is made of the lookahead when it is consumed. Before the first pull there is none. -/
def use (c : Config V) (p : Parser V) (d : Option (Dispatch V)) (hs : Handlers V) : Option (Use V) :=
  p.token.map fun t => ⟨p.pos, t, c.manner d hs⟩

end Config

/-- The course of a parse with the tokens it consumes and what they are consumed as. -/
inductive Account : Handlers V → Config V → Parser V → List (Use V) → Outcome V V → Prop
  | halt {hs c p r} (h : c.turn p.token p.pos = .halt r) : Account hs c p [] ⟨r, p⟩
  | stay {hs c p event c' uses o} (h : c.turn p.token p.pos = .stay event c')
      (rest : Account (c.handlers p.pos none hs) c' (p.note event) uses o) : Account hs c p uses o
  /-- Where the next token cannot be drawn the lookahead stays. -/
  | unread {hs c p d c' e} (h : c.turn p.token p.pos = .shift d c')
      (he : p.advance.result = .error e) : Account hs c p [] ⟨.error e, p.advance.parser⟩
  | shift {hs c p d c' t uses o} (h : c.turn p.token p.pos = .shift d c')
      (ht : p.advance.result = .ok t)
      (rest : Account (c.handlers p.pos d hs) c' (p.advance.parser.announce d p.pos) uses o) :
      Account hs c p ((c.use p d hs).toList ++ uses) o

/-- Each course can be accounted for. -/
theorem Course.exists_account {c : Config V} {p : Parser V} {acts : List (Act V)} {o : Outcome V V}
    (h : Course c p acts o) (hs : Handlers V) : ∃ uses, Account hs c p uses o := by
  induction h generalizing hs with
  | halt h => exact ⟨[], .halt h⟩
  | stay h _ ih =>
    obtain ⟨uses, hrest⟩ := ih _
    exact ⟨uses, .stay h hrest⟩
  | unread h he => exact ⟨[], .unread h he⟩
  | shift h ht _ ih =>
    obtain ⟨uses, hrest⟩ := ih _
    exact ⟨_, .shift h ht hrest⟩

namespace Account
variable {hs : Handlers V} {c : Config V} {p : Parser V} {uses uses' : List (Use V)}
  {o o' : Outcome V V}

/-- There is one account of a parse. -/
theorem unique (h : Account hs c p uses o) (h' : Account hs c p uses' o') :
    uses = uses' ∧ o = o' := by
  induction h generalizing uses' o' with
  | halt h =>
    cases h' with
    | halt h' =>
      cases h.symm.trans h'
      exact ⟨rfl, rfl⟩
    | stay h' | unread h' | shift h' => cases h.symm.trans h'
  | stay h _ ih =>
    cases h' with
    | stay h' rest =>
      cases h.symm.trans h'
      exact ih rest
    | halt h' | unread h' | shift h' => cases h.symm.trans h'
  | unread h he =>
    cases h' with
    | unread h' he' =>
      cases he.symm.trans he'
      exact ⟨rfl, rfl⟩
    | shift h' ht' => cases he.symm.trans ht'
    | halt h' | stay h' => cases h.symm.trans h'
  | shift h ht _ ih =>
    cases h' with
    | shift h' ht' rest =>
      cases h.symm.trans h'
      obtain ⟨rfl, rfl⟩ := ih rest
      exact ⟨rfl, rfl⟩
    | unread h' he' => cases ht.symm.trans he'
    | halt h' | stay h' => cases h.symm.trans h'

theorem of_fail {e : Failure} {fs : List (Frame V)} (h : Account hs ⟨.fail e, fs⟩ p uses o) :
    uses = [] ∧ o = ⟨.error e, p⟩ := by
  cases h with
  | halt h =>
    cases h
    exact ⟨rfl, rfl⟩
  | stay h | unread h | shift h => cases h

/-- The parser has a lookahead that it has drawn itself, and last. -/
structure Drawn (p : Parser V) : Prop where
  token : p.token.isSome = true
  pos : p.pos = p.source.pos

theorem Drawn.noted (h : Drawn p) (event : Option Event) : Drawn (p.note event) := by
  obtain ⟨log, hlog⟩ := p.note_eq event
  rw [hlog]
  exact ⟨h.token, h.pos⟩

/-- Its lookahead is what the pull of its position delivers. -/
theorem Drawn.delivered {s : Stream V} {trace : Bool} {ds : Answers V} (h : Drawn p)
    (hp : Pulls (.ofStream s trace) ds p) :
    ∃ (k : ℕ) (t : Token V), p.token = some t ∧ p.pos = k ∧ s.delivery k = .ok t := by
  obtain ⟨t, ht⟩ := Option.isSome_iff_exists.1 h.token
  obtain ⟨k, hk, hdelivery⟩ := hp.follows.delivery ht
  exact ⟨k, t, ht, hk, hdelivery⟩

theorem Drawn.advance (hpos : p.pos = p.source.pos) {t : Option (Token V)}
    (ht : p.advance.result = .ok t) (d : Option (Dispatch V)) (pos : Int) :
    Drawn (p.advance.parser.announce d pos) ∧
      (p.advance.parser.announce d pos).pos = p.pos + 1 := by
  obtain ⟨log, hlog⟩ := p.advance.parser.announce_eq d pos
  obtain ⟨hnext, hsource⟩ := Parser.pos_advance ht hpos
  obtain ⟨u, hu⟩ := Parser.advance_result_ok ht
  rw [hlog]
  refine ⟨⟨?_, hnext.trans hsource.symm⟩, hnext⟩
  rw [Parser.advance_of_ok hu]
  rfl

/-- The tokens are consumed in order, none is left out, and the lookahead is the first that is not. -/
theorem indices (h : Account hs c p uses o) (hp : Drawn p) :
    (∀ (i : ℕ) u, uses[i]? = some u → u.index = p.pos + i) ∧ o.parser.pos = p.pos + uses.length := by
  induction h with
  | halt => simp
  | @stay hs c p event c' uses o h _ ih =>
    rw [← p.pos_note event]
    exact ih (hp.noted event)
  | unread h he => simpa using (Parser.advance_failed he).2
  | @shift hs c p d c' t uses o h ht _ ih =>
    obtain ⟨u, hu⟩ := Option.isSome_iff_exists.1 hp.token
    obtain ⟨hdrawn, hnext⟩ := Drawn.advance hp.pos ht d p.pos
    obtain ⟨hindex, hend⟩ := ih hdrawn
    rw [hnext] at hindex hend
    rw [Config.use, hu, Option.map_some, Option.toList_some, List.singleton_append]
    refine ⟨fun i use hi => ?_, ?_⟩
    · cases i with
      | zero =>
        cases hi
        exact (Int.add_zero _).symm
      | succ i =>
        rw [hindex i use hi]
        omega
    · rw [hend, List.length_cons]
      omega

/-- Each of them is what the pull of its index delivers. -/
theorem delivered {s : Stream V} {trace : Bool} {ds : Answers V} (h : Account hs c p uses o)
    (hp : Pulls (.ofStream s trace) ds p) :
    ∀ u ∈ uses, ∃ k : ℕ, u.index = k ∧ s.delivery k = .ok u.token := by
  induction h generalizing ds with
  | halt | unread => exact List.forall_mem_nil _
  | @stay hs c p event c' uses o h _ ih => exact ih (hp.noted event)
  | @shift hs c p d c' t uses o h ht _ ih =>
    refine List.forall_mem_append.2 ⟨fun u hu => ?_, ih (hp.advance.announced d p.pos)⟩
    obtain ⟨t, htoken, rfl⟩ := Option.map_eq_some_iff.1 (Option.mem_toList.1 hu)
    exact hp.follows.delivery htoken

end Account

/-- What is left of a run once the first token has been drawn. -/
def Config.opened (strict : Bool) : Config V :=
  ⟨.expression 0 fun v =>
    if strict then
      .look fun token pos =>
        if token.any fun t => t.identity = .sentinel then .done v
        else .fail (.parse (.unexpected pos token "end of input"))
    else .done v, []⟩

namespace Stream
variable {s : Stream V} {trace strict : Bool} {uses : List (Use V)}

/-- What is delivered is a token of the stream, or the end mark. -/
theorem mem_of_delivery {k : ℕ} {t : Token V} (h : s.delivery k = .ok t) :
    t = .sentinel ∨ t ∈ s.tokens := by
  cases hlive : s.live[k]? with
  | some u =>
    rw [delivery, hlive] at h
    cases h
    exact .inr ((List.takeWhile_prefix _).subset (List.mem_of_getElem? hlive))
  | none =>
    rw [delivery, hlive] at h
    dsimp only [ending] at h
    repeat' split at h
    all_goals cases h
    all_goals exact .inl rfl

/-- The parser of a run before its first pull. -/
def runner (s : Stream V) (trace : Bool) : Parser V :=
  { Parser.ofStream s trace with started := true }

/-- A run is its first pull and what is left of it. -/
theorem parse_eq_opened (s : Stream V) (trace strict : Bool) :
    s.parse trace strict =
      (s.runner trace).advance.andThen fun _ q => (Config.opened strict).run q := by
  rw [parse, ← Config.run_whole strict rfl, Config.run_eq_turn]
  rfl

/-- The account of the parse of a stream. -/
def Accounts (s : Stream V) (trace strict : Bool) (uses : List (Use V)) : Prop :=
  Account [none] (.whole strict) (s.runner trace) uses (s.parse trace strict)

theorem exists_accounts (s : Stream V) (trace strict : Bool) :
    ∃ uses, s.Accounts trace strict uses := by
  obtain ⟨acts, h⟩ := s.exists_parses trace strict
  exact h.exists_account [none]

/-- The parse of a stream of which the first token cannot be drawn. -/
structure Unread (s : Stream V) (trace strict : Bool) (uses : List (Use V)) (e : Failure) : Prop where
  result : (s.runner trace).advance.result = .error e
  parse : s.parse trace strict = ⟨.error e, (s.runner trace).advance.parser⟩
  uses : uses = []

/-- The first pull decides nothing unless it fails. -/
theorem Accounts.opened (h : s.Accounts trace strict uses) :
    (∃ e, s.Unread trace strict uses e) ∨ ∃ t, (s.runner trace).advance.result = .ok t ∧
      Account [none] (.opened strict) (s.runner trace).advance.parser uses
        (s.parse trace strict) := by
  unfold Accounts at h
  generalize hparse : s.parse trace strict = o at h
  have hturn : (Config.whole strict : Config V).turn (s.runner trace).token (s.runner trace).pos =
      .shift none (.opened strict) := rfl
  cases h with
  | halt h | stay h => cases hturn.symm.trans h
  | unread h he => exact .inl ⟨_, he, hparse, rfl⟩
  | shift h ht rest =>
    cases hturn.symm.trans h
    exact .inr ⟨_, ht, rest⟩

/-- After the first pull the lookahead is the token at index zero. -/
theorem drawn_runner {t : Option (Token V)} (ht : (s.runner trace).advance.result = .ok t) :
    Account.Drawn (s.runner trace).advance.parser ∧ (s.runner trace).advance.parser.pos = 0 :=
  Account.Drawn.advance (p := s.runner trace) rfl ht none 0

theorem pulls_runner (s : Stream V) (trace : Bool) :
    Pulls (.ofStream s trace) [(s.runner trace).source.next.1] (s.runner trace).advance.parser :=
  (Pulls.refl.note true []).advance

/-- A parse consumes the tokens that are delivered, in order and up to the one where it ends. -/
theorem Accounts.located (h : s.Accounts trace strict uses) :
    (∀ (i : ℕ) u, uses[i]? = some u → u.index = i ∧ s.delivery i = .ok u.token) ∧
      ∀ v, (s.parse trace strict).result = .ok v →
        (s.parse trace strict).parser.pos = uses.length := by
  rcases h.opened with ⟨e, -, hparse, rfl⟩ | ⟨t, ht, haccount⟩
  · refine ⟨fun i u hu => (by cases hu), fun v hv => ?_⟩
    rw [hparse] at hv
    cases hv
  · obtain ⟨hdrawn, hpos⟩ := drawn_runner ht
    obtain ⟨hindex, hend⟩ := haccount.indices hdrawn
    rw [hpos, Int.zero_add] at hend
    refine ⟨fun i u hu => ?_, fun _ _ => hend⟩
    have hi : u.index = i := by rw [hindex i u hu, hpos, Int.zero_add]
    obtain ⟨k, hk, hdelivery⟩ := haccount.delivered (s.pulls_runner trace) u (List.mem_of_getElem? hu)
    obtain rfl : k = i := by omega
    exact ⟨hi, hdelivery⟩

end Stream

end BindingPower
