import BindingPower.Proofs.Lexer.Longest

/-! The scanned text as it is cut: each slice is the longest text of the first class that has one at its
start. The slices cover the text, or all of it before the place that cannot be read, and there is no
other way to cut them. -/
namespace BindingPower

open Lexer

namespace Table
variable {V : Type}

/-- The slice at the start of a text: blanks, else a number, else a word, else an operator. -/
inductive Cut (t : Table V) (cs : List Char) : Piece → Prop
  | blank {lexeme} (h : Longest blanks cs lexeme) : Cut t cs ⟨.blank, lexeme⟩
  | number {lexeme} (hblank : Absent blanks cs) (h : Longest numbers cs lexeme) :
      Cut t cs ⟨.number, lexeme⟩
  | word {lexeme} (hblank : Absent blanks cs) (hnumber : Absent numbers cs)
      (h : Longest words cs lexeme) : Cut t cs ⟨.word, lexeme⟩
  | operator {lexeme} (hblank : Absent blanks cs) (hnumber : Absent numbers cs)
      (hword : Absent words cs) (h : Longest t.symbols cs lexeme) : Cut t cs ⟨.operator, lexeme⟩

/-- The text at a place that cannot be read: a number or a word that nothing makes a token of, or a
character where there is no slice. -/
inductive Unread (t : Table V) (cs : List Char) : List Char → Prop
  | number {lexeme} (hcut : t.Cut cs ⟨.number, lexeme⟩) (hnumber : t.number = none) :
      Unread t cs lexeme
  | word {lexeme} (hcut : t.Cut cs ⟨.word, lexeme⟩) (hlookup : t.lookup (.ofList lexeme) = none)
      (hname : t.name = none) : Unread t cs lexeme
  | stray {c rest} (hcs : cs = c :: rest) (hcut : ∀ slice, ¬ t.Cut cs slice) : Unread t cs [c]

/-- The token of a slice. -/
inductive Makes (t : Table V) : Piece → Token V → Prop
  | number {lexeme make token} (hnumber : t.number = some make)
      (hmake : make (.ofList lexeme) = .ok token) : Makes t ⟨.number, lexeme⟩ token
  | word {lexeme token} (hlookup : t.lookup (.ofList lexeme) = some token) :
      Makes t ⟨.word, lexeme⟩ token
  | name {lexeme make token} (hlookup : t.lookup (.ofList lexeme) = none)
      (hname : t.name = some make) (hmake : make (.ofList lexeme) = .ok token) :
      Makes t ⟨.word, lexeme⟩ token
  | operator {lexeme token} (hlookup : t.lookup (.ofList lexeme) = some token) :
      Makes t ⟨.operator, lexeme⟩ token

/-- The slices of a text, and what is left of it where they end. -/
inductive Partition (t : Table V) : List Char → List Piece → List Char → Prop
  | done : Partition t [] [] []
  | stop {cs lexeme} (h : t.Unread cs lexeme) : Partition t cs [] cs
  | slice {cs slice slices rest} (hcut : t.Cut cs slice) (hread : ∀ lexeme, ¬ t.Unread cs lexeme)
      (h : Partition t (cs.drop slice.text.length) slices rest) :
      Partition t cs (slice :: slices) rest

/-! Cutting -/

variable {t : Table V} {cs rest lexeme : List Char} {slice : Piece} {slices : List Piece}

/-- The piece a text begins with. -/
def firstPiece (t : Table V) (cs : List Char) : Piece :=
  Piece.first (t.operators.map (·.toList)) cs

/-- The classes are tried in turn, and what is found is the longest of its class. -/
theorem firstPiece_cases (t : Table V) (cs : List Char) :
    t.Cut cs (t.firstPiece cs) ∨ t.firstPiece cs = ⟨.stray, cs.take 1⟩ := by
  unfold firstPiece Piece.first
  obtain ⟨hblank, hnoBlank⟩ := finds_blanks cs
  obtain ⟨hnumber, hnoNumber⟩ := finds_numbers cs
  obtain ⟨hword, hnoWord⟩ := finds_words cs
  simp only [Bool.not_eq_true', List.isEmpty_eq_false_iff]
  split_ifs with h₁ h₂ h₃ h₄
  · exact .inl (.blank (hblank h₁))
  · exact .inl (.number (hnoBlank (not_not.1 h₁)) (hnumber h₂))
  · exact .inl (.word (hnoBlank (not_not.1 h₁)) (hnoNumber (not_not.1 h₂)) (hword h₃))
  · exact .inl (.operator (hnoBlank (not_not.1 h₁)) (hnoNumber (not_not.1 h₂))
      (hnoWord (not_not.1 h₃)) ((t.finds_symbols cs).1 h₄))
  · exact .inr rfl

/-- What is cut of a text is the piece it begins with. -/
theorem Cut.eq_firstPiece (h : t.Cut cs slice) : t.firstPiece cs = slice := by
  have hblanks (habsent : Absent blanks cs) : cs.takeWhile Text.isBlank = [] :=
    finds_blanks.eq_nil habsent
  unfold firstPiece Piece.first
  cases h with
  | blank h =>
    obtain ⟨rfl, hne⟩ := finds_blanks.eq h
    simp [hne]
  | number hblank h =>
    obtain ⟨rfl, hne⟩ := finds_numbers.eq h
    simp [hblanks hblank, hne]
  | word hblank hnumber h =>
    obtain ⟨rfl, hne⟩ := finds_words.eq h
    simp [hblanks hblank, finds_numbers.eq_nil hnumber, hne]
  | operator hblank hnumber hword h =>
    obtain ⟨rfl, hne⟩ := t.finds_symbols.eq h
    simp [hblanks hblank, finds_numbers.eq_nil hnumber, finds_words.eq_nil hword, hne]

/-- There is one way to cut a slice. -/
theorem Cut.unique {slice' : Piece} (h : t.Cut cs slice) (h' : t.Cut cs slice') : slice = slice' :=
  h.eq_firstPiece.symm.trans h'.eq_firstPiece

/-- A slice is not empty, and it is where the text begins. -/
theorem Cut.begins (h : t.Cut cs slice) : slice.text ≠ [] ∧ slice.text <+: cs := by
  have hfound {L : Language Char} {cut : List Char → List Char} {lexeme : List Char}
      (hfinds : Finds L cut) (hlongest : Longest L cs lexeme) : lexeme ≠ [] ∧ lexeme <+: cs := by
    obtain ⟨rfl, hne⟩ := hfinds.eq hlongest
    exact ⟨hne, hlongest.begins⟩
  cases h with
  | blank h => exact hfound finds_blanks h
  | number _ h => exact hfound finds_numbers h
  | word _ _ h => exact hfound finds_words h
  | operator _ _ _ h => exact hfound t.finds_symbols h

/-- Even a character where there is no slice is passed. -/
theorem firstPiece_begins (hne : cs ≠ []) :
    (t.firstPiece cs).text ≠ [] ∧ (t.firstPiece cs).text <+: cs := by
  rcases t.firstPiece_cases cs with hcut | hstray
  · exact hcut.begins
  · obtain ⟨c, rest, rfl⟩ := List.exists_cons_of_ne_nil hne
    rw [hstray]
    exact ⟨List.cons_ne_nil c [], List.take_prefix 1 (c :: rest)⟩

private theorem firstPiece_of_not_cut (h : ∀ slice, ¬ t.Cut cs slice) :
    t.firstPiece cs = ⟨.stray, cs.take 1⟩ :=
  (t.firstPiece_cases cs).resolve_left (h _)

/-! Reading -/

/-- The factories of a table that make a token of each text. -/
structure Total (t : Table V) : Prop where
  number : ∀ make ∈ t.number, ∀ lexeme, ∃ token, make lexeme = .ok token
  name : ∀ make ∈ t.name, ∀ lexeme, ∃ token, make lexeme = .ok token

private theorem lookup_of_mem_symbols (h : lexeme ∈ t.symbols) :
    ∃ token, t.lookup (.ofList lexeme) = some token := by
  obtain ⟨entry, hentry, hkey⟩ := List.mem_map.1 h.1
  refine Option.isSome_iff_exists.1 (List.lookup_isSome_iff.2 ⟨entry, hentry, ?_⟩)
  rw [hkey, beq_self_eq_true]

private theorem Unread.ne_nil (h : t.Unread cs lexeme) : cs ≠ [] := by
  rintro rfl
  have hcut (slice : Piece) : ¬ t.Cut [] slice := fun hcut =>
    hcut.begins.1 (List.prefix_nil.1 hcut.begins.2)
  cases h with
  | number h | word h => exact hcut _ h
  | stray hcs => cases hcs

/-- What cannot be read has no token, and is what the failure is about. -/
theorem Unread.tokenOf (h : t.Unread cs lexeme) (pos : Nat) :
    t.tokenOf pos (t.firstPiece cs) = .error (.parse (.lexical pos (.ofList lexeme))) := by
  cases h with
  | number hcut hnumber =>
    rw [hcut.eq_firstPiece]
    simp only [Table.tokenOf, hnumber]
  | word hcut hlookup hname =>
    rw [hcut.eq_firstPiece]
    simp only [Table.tokenOf, hlookup, hname]
  | stray hcs hcut =>
    rw [firstPiece_of_not_cut hcut, hcs]
    rfl

/-- A slice that can be read is one of blanks or has its token. -/
theorem Cut.tokenOf (ht : t.Total) (h : t.Cut cs slice) (hread : ∀ lexeme, ¬ t.Unread cs lexeme)
    (pos : Nat) :
    slice.kind = .blank ∧ t.tokenOf pos slice = .ok none ∨
      slice.kind ≠ .blank ∧ ∃ token, t.Makes slice token ∧ t.tokenOf pos slice = .ok (some token) := by
  cases h with
  | blank h => exact .inl ⟨rfl, rfl⟩
  | @number lexeme hblank h =>
    refine .inr ⟨nofun, ?_⟩
    cases hnumber : t.number with
    | none => exact absurd (.number (.number hblank h) hnumber) (hread lexeme)
    | some make =>
      obtain ⟨token, hmake⟩ := ht.number make hnumber (.ofList lexeme)
      refine ⟨token, .number hnumber hmake, ?_⟩
      simp only [Table.tokenOf, hnumber, hmake]
      rfl
  | @word lexeme hblank hnumber h =>
    refine .inr ⟨nofun, ?_⟩
    cases hlookup : t.lookup (.ofList lexeme) with
    | some token =>
      refine ⟨token, .word hlookup, ?_⟩
      simp only [Table.tokenOf, hlookup]
    | none =>
      cases hname : t.name with
      | none => exact absurd (.word (.word hblank hnumber h) hlookup hname) (hread lexeme)
      | some make =>
        obtain ⟨token, hmake⟩ := ht.name make hname (.ofList lexeme)
        refine ⟨token, .name hlookup hname hmake, ?_⟩
        simp only [Table.tokenOf, hlookup, hname, hmake]
        rfl
  | operator _ _ _ h =>
    obtain ⟨token, hlookup⟩ := lookup_of_mem_symbols h.mem
    refine .inr ⟨nofun, token, .operator hlookup, ?_⟩
    simp only [Table.tokenOf, hlookup]

private theorem piecesFrom_eq_drop (operators : List (List Char)) (inside : Nat) (cs : List Char) :
    piecesFrom operators inside cs = pieces operators (cs.drop inside) := by
  induction cs generalizing inside with
  | nil => rw [List.drop_nil, pieces, piecesFrom, piecesFrom]
  | cons c cs ih =>
    cases inside with
    | zero => rfl
    | succ inside => rw [piecesFrom, ih, List.drop_succ_cons]

/-- Each piece is what the text from some place on begins with. -/
theorem mem_piecesFrom {operators : List (List Char)} {piece : Piece} {inside : Nat}
    {cs : List Char} (h : piece ∈ piecesFrom operators inside cs) :
    ∃ cs', piece = Piece.first operators cs' := by
  induction cs generalizing inside with
  | nil =>
    rw [piecesFrom] at h
    cases h
  | cons c cs ih =>
    cases inside with
    | succ inside => exact ih h
    | zero =>
      rw [piecesFrom] at h
      rcases List.mem_cons.1 h with rfl | h
      · exact ⟨c :: cs, rfl⟩
      · exact ih h

/-- The pieces after the first are those of what it leaves. -/
theorem pieces_cons (operators : List (List Char)) (c : Char) (cs : List Char)
    (hne : (Piece.first operators (c :: cs)).text ≠ []) :
    pieces operators (c :: cs) = Piece.first operators (c :: cs) ::
      pieces operators ((c :: cs).drop (Piece.first operators (c :: cs)).text.length) := by
  obtain ⟨d, ds, htext⟩ := List.exists_cons_of_ne_nil hne
  rw [pieces, piecesFrom, piecesFrom_eq_drop, htext, List.length_cons, List.drop_succ_cons,
    Nat.add_sub_cancel]

/-- What is scanned of a text from some position on. -/
def scanFrom (t : Table V) (pos : Nat) (cs : List Char) : Stream V :=
  t.tokensFrom pos (pieces (t.operators.map (·.toList)) cs)

/-- A text is scanned piece by piece. -/
theorem scanFrom_eq (hne : cs ≠ []) (pos : Nat) :
    t.scanFrom pos cs = match t.tokenOf pos (t.firstPiece cs) with
      | .error e => .failed e
      | .ok none => t.scanFrom (pos + (t.firstPiece cs).text.length)
          (cs.drop (t.firstPiece cs).text.length)
      | .ok (some token) => .cons token (t.scanFrom (pos + (t.firstPiece cs).text.length)
          (cs.drop (t.firstPiece cs).text.length)) := by
  obtain ⟨hfirst, -⟩ := firstPiece_begins (t := t) hne
  obtain ⟨c, rest, rfl⟩ := List.exists_cons_of_ne_nil hne
  unfold firstPiece at hfirst ⊢
  rw [scanFrom, pieces_cons _ c rest hfirst, tokensFrom]
  rfl

private theorem scanFrom_unread (h : t.Unread cs lexeme) (pos : Nat) :
    t.scanFrom pos cs = .failed (.parse (.lexical pos (.ofList lexeme))) := by
  rw [scanFrom_eq h.ne_nil, h.tokenOf pos]

theorem scanFrom_cut (h : t.Cut cs slice) (pos : Nat) :
    t.scanFrom pos cs = match t.tokenOf pos slice with
      | .error e => .failed e
      | .ok none => t.scanFrom (pos + slice.text.length) (cs.drop slice.text.length)
      | .ok (some token) =>
        .cons token (t.scanFrom (pos + slice.text.length) (cs.drop slice.text.length)) := by
  obtain ⟨hne, hbegins⟩ := h.begins
  have hcs : cs ≠ [] := fun hnil => hne (List.prefix_nil.1 (hnil ▸ hbegins))
  rw [scanFrom_eq hcs, h.eq_firstPiece]

/-- Blanks at the start are passed over at once. -/
theorem scanFrom_dropWhile (pos : Nat) (cs : List Char) :
    t.scanFrom pos cs =
      t.scanFrom (pos + (cs.takeWhile Text.isBlank).length) (cs.dropWhile Text.isBlank) := by
  by_cases hnil : cs.takeWhile Text.isBlank = []
  · rw [← drop_takeWhile, hnil]
    rfl
  · rw [scanFrom_cut (.blank ((finds_blanks cs).1 hnil)), drop_takeWhile]
    rfl

theorem scanFrom_blanks {ws : List Char} (hws : ∀ c ∈ ws, Text.isBlank c = true) (pos : Nat)
    (cs : List Char) : t.scanFrom pos (ws ++ cs) = t.scanFrom (pos + ws.length) cs := by
  rw [scanFrom_dropWhile, List.takeWhile_append_of_pos hws, List.dropWhile_append_of_pos hws,
    scanFrom_dropWhile (pos + ws.length), List.length_append, Nat.add_assoc]

theorem scanFrom_blank {c : Char} (hc : Text.isBlank c = true) (pos : Nat) (cs : List Char) :
    t.scanFrom pos (c :: cs) = t.scanFrom (pos + 1) cs := by
  have hblanks : ∀ d ∈ [c], Text.isBlank d = true := List.forall_mem_singleton.2 hc
  exact scanFrom_blanks hblanks pos cs

/-- Blank by blank and piece by piece the end of a text is reached. -/
theorem pieceInduction (t : Table V) {motive : List Char → Prop} (nil : motive [])
    (blank : ∀ c cs, Text.isBlank c = true → motive cs → motive (c :: cs))
    (piece : ∀ c cs, Text.isBlank c = false →
      motive ((c :: cs).drop (t.firstPiece (c :: cs)).text.length) → motive (c :: cs))
    (cs : List Char) : motive cs := by
  induction hn : cs.length using Nat.strongRecOn generalizing cs with
  | ind n ih =>
    subst hn
    cases cs with
    | nil => exact nil
    | cons c cs =>
      cases hc : Text.isBlank c with
      | true => exact blank c cs hc (ih cs.length (Nat.lt_succ_self _) cs rfl)
      | false =>
        obtain ⟨hne, -⟩ := firstPiece_begins (t := t) (List.cons_ne_nil c cs)
        refine piece c cs hc (ih _ ?_ _ rfl)
        rw [List.length_drop, List.length_cons]
        have := List.length_pos_iff.2 hne
        omega

namespace Partition

/-- Each text is cut in some way. -/
theorem exists_slices (t : Table V) (cs : List Char) :
    ∃ slices rest, t.Partition cs slices rest := by
  induction hn : cs.length using Nat.strongRecOn generalizing cs with
  | ind n ih =>
    by_cases hread : ∃ lexeme, t.Unread cs lexeme
    · obtain ⟨lexeme, h⟩ := hread
      exact ⟨[], cs, .stop h⟩
    · have hread : ∀ lexeme, ¬ t.Unread cs lexeme := fun lexeme h => hread ⟨lexeme, h⟩
      cases cs with
      | nil => exact ⟨[], [], .done⟩
      | cons c cs =>
        by_cases hcut : ∃ slice, t.Cut (c :: cs) slice
        · obtain ⟨slice, hcut⟩ := hcut
          have hpos : 0 < slice.text.length := List.length_pos_iff.2 hcut.begins.1
          have hlt : ((c :: cs).drop slice.text.length).length < n := by
            rw [List.length_drop, ← hn, List.length_cons]
            omega
          obtain ⟨slices, rest, h⟩ := ih _ hlt _ rfl
          exact ⟨slice :: slices, rest, .slice hcut hread h⟩
        · exact absurd (.stray rfl fun slice h => hcut ⟨slice, h⟩) (hread [c])

theorem unique {slices' : List Piece} {rest' : List Char} (h : t.Partition cs slices rest)
    (h' : t.Partition cs slices' rest') : slices' = slices ∧ rest' = rest := by
  induction h generalizing slices' rest' with
  | done =>
    cases h' with
    | done => exact ⟨rfl, rfl⟩
    | stop h => exact absurd rfl h.ne_nil
    | slice hcut => exact absurd (List.prefix_nil.1 hcut.begins.2) hcut.begins.1
  | stop h =>
    cases h' with
    | done => exact absurd rfl h.ne_nil
    | stop => exact ⟨rfl, rfl⟩
    | slice _ hread => exact absurd h (hread _)
  | slice hcut hread _ ih =>
    cases h' with
    | done => exact absurd (List.prefix_nil.1 hcut.begins.2) hcut.begins.1
    | stop h => exact absurd h (hread _)
    | slice hcut' _ h' =>
      cases hcut.unique hcut'
      obtain ⟨rfl, rfl⟩ := ih h'
      exact ⟨rfl, rfl⟩

private theorem text_ne_nil (h : t.Partition cs slices rest) : ∀ slice ∈ slices, slice.text ≠ [] := by
  induction h with
  | done | stop => exact List.forall_mem_nil _
  | slice hcut _ _ ih => exact List.forall_mem_cons.2 ⟨hcut.begins.1, ih⟩

/-- The slices follow each other without a gap. -/
theorem flatten_append (h : t.Partition cs slices rest) :
    cs = (slices.map (·.text)).flatten ++ rest := by
  induction h with
  | done | stop => rfl
  | @slice cs slice slices rest hcut _ _ ih =>
    rw [List.map_cons, List.flatten_cons, List.append_assoc, ← ih]
    exact (List.prefix_iff_eq_append.1 hcut.begins.2).symm

private theorem rest_eq_nil_or (h : t.Partition cs slices rest) :
    rest = [] ∨ ∃ lexeme, t.Unread rest lexeme := by
  induction h with
  | done => exact .inl rfl
  | stop h => exact .inr ⟨_, h⟩
  | slice _ _ _ ih => exact ih

/-- The tokens of the slices are scanned in order, up to the end or to what cannot be read. -/
theorem scanFrom (ht : t.Total) (h : t.Partition cs slices rest) (pos : Nat) :
    List.Forall₂ t.Makes (slices.filter (·.kind ≠ .blank)) (t.scanFrom pos cs).tokens ∧
      (rest = [] → (t.scanFrom pos cs).failure = none) ∧
      ∀ lexeme, t.Unread rest lexeme → (t.scanFrom pos cs).failure =
        some (.parse (.lexical (pos + (slices.map (·.text)).flatten.length : Nat)
          (.ofList lexeme))) := by
  induction h generalizing pos with
  | done => exact ⟨.nil, fun _ => rfl, fun lexeme h => absurd rfl h.ne_nil⟩
  | stop h =>
    refine ⟨?_, fun hnil => absurd hnil h.ne_nil, fun lexeme h' => ?_⟩
    · rw [scanFrom_unread h]
      exact .nil
    · rw [scanFrom_unread h']
      rfl
  | @slice cs slice slices rest hcut hread _ ih =>
    obtain ⟨htokens, hnil, hfailed⟩ := ih (pos + slice.text.length)
    rw [scanFrom_cut hcut]
    rw [List.map_cons, List.flatten_cons, List.length_append, ← Nat.add_assoc]
    rcases hcut.tokenOf ht hread pos with ⟨hblank, htoken⟩ | ⟨hkind, token, hmakes, htoken⟩
    · rw [htoken, List.filter_cons_of_neg (by simpa using hblank)]
      exact ⟨htokens, hnil, hfailed⟩
    · rw [htoken, List.filter_cons_of_pos (by simpa using hkind)]
      exact ⟨.cons hmakes htokens, hnil, hfailed⟩

end Partition

/-- A text is scanned slice by slice. There is one way to cut it: nonempty slices one after the other,
each the longest of its class at its start, up to the end or to the first place that cannot be read.
The tokens are those of the slices in order, blanks left out, and the scan fails at that place with the
text that cannot be read there, or not at all. -/
theorem scan_partition (t : Table V) (ht : t.Total) (text : String) :
    ∃ slices rest, t.Partition text.toList slices rest ∧
      (∀ slices' rest', t.Partition text.toList slices' rest' → slices' = slices ∧ rest' = rest) ∧
      (∀ slice ∈ slices, slice.text ≠ []) ∧
      text.toList = (slices.map (·.text)).flatten ++ rest ∧
      List.Forall₂ t.Makes (slices.filter (·.kind ≠ .blank)) (t.scan text).tokens ∧
      ((t.scan text).failure = none ↔ rest = []) ∧
      ∀ e, (t.scan text).failure = some e ↔ ∃ lexeme, t.Unread rest lexeme ∧
        e = .parse (.lexical ((slices.map (·.text)).flatten.length : Nat) (.ofList lexeme)) := by
  obtain ⟨slices, rest, h⟩ := Partition.exists_slices t text.toList
  obtain ⟨htokens, hnil, hfailed⟩ := h.scanFrom ht 0
  rw [Nat.zero_add] at hfailed
  refine ⟨slices, rest, h, fun _ _ h' => h.unique h', h.text_ne_nil, h.flatten_append, htokens,
    ⟨fun hnone => ?_, hnil⟩, fun e => ⟨fun he => ?_, ?_⟩⟩
  · rcases h.rest_eq_nil_or with hrest | ⟨lexeme, hunread⟩
    · exact hrest
    · cases hnone.symm.trans (hfailed lexeme hunread)
  · rcases h.rest_eq_nil_or with hrest | ⟨lexeme, hunread⟩
    · cases (hnil hrest).symm.trans he
    · exact ⟨lexeme, hunread, Option.some.inj (he.symm.trans (hfailed lexeme hunread))⟩
  · rintro ⟨lexeme, hunread, rfl⟩
    exact hfailed lexeme hunread

/-- One point and two, and numbers, but no names. -/
def points : Table Unit where
  entries :=
    [(".", ⟨.anonymous, 0, some ".", .keyword⟩), ("..", ⟨.anonymous, 0, some "..", .keyword⟩)]
  number := some fun text => .ok ⟨.anonymous, 0, some text, .literal ()⟩
  name := none
  nodup := by decide
  nonempty := by decide

/-- After a number with its point and exponent, two points and one. What is left is a name. -/
theorem scan_partition_points :
    points.Total ∧ ∃ slices rest, points.Partition "1.e5...x".toList slices rest ∧
      List.Forall₂ points.Makes (slices.filter (·.kind ≠ .blank)) (points.scan "1.e5...x").tokens ∧
      (points.scan "1.e5...x").tokens.map (·.name) = [some "1.e5", some "..", some "."] ∧
      rest ≠ [] := by
  have htotal : points.Total := by
    constructor
    · rintro make ⟨⟩ lexeme
      exact ⟨_, rfl⟩
    · rintro make ⟨⟩
  obtain ⟨slices, rest, hpartition, -, -, -, htokens, hend, -⟩ :=
    scan_partition points htotal "1.e5...x"
  have hnames : (points.scan "1.e5...x").tokens.map (·.name) = [some "1.e5", some "..", some "."] :=
    rfl
  have hfailure : (points.scan "1.e5...x").failure = some (.parse (.lexical 7 "x")) := rfl
  refine ⟨htotal, slices, rest, hpartition, htokens, hnames, fun hrest => ?_⟩
  cases hfailure.symm.trans (hend.2 hrest)

end Table

end BindingPower
