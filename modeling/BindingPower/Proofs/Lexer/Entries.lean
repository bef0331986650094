import BindingPower.Proofs.Lexer.Relevance
import BindingPower.Proofs.Lexer.Separation

/-! The entries of a table that a scan can come to: those of identifiers, and those of operators where
neither a blank nor a number is cut first. Such a lexeme is read as its own entry; the others are never
read as theirs. -/
namespace BindingPower

open Lexer Text

namespace Lexer

/-- Identifiers, and what begins with neither a letter or number, an underscore, a blank nor the fraction
of a number. -/
inductive Scannable : List Char → Prop
  | word {cs : List Char} (h : cs ∈ words) : Scannable cs
  | operator {c : Char} {rest : List Char} (halnum : isAlnum c = false) (hunderscore : c ≠ '_')
      (hblank : isBlank c = false) (hpoint : c = '.' → ∀ d ∈ rest.head?, isDigit d = false) :
      Scannable (c :: rest)

variable {c : Char} {rest : List Char}

private theorem isWordChar_eq_false : isWordChar c = false ↔ isAlnum c = false ∧ c ≠ '_' := by
  rw [isWordChar, Bool.or_eq_false_iff, beq_eq_false_iff_ne]

private theorem scannable_cons_iff : Scannable (c :: rest) ↔
    (isWordStart c = true ∧ rest.all isWordChar = true) ∨
      isWordChar c = false ∧ isBlank c = false ∧ (c ≠ '.' ∨ rest.head?.any isDigit = false) := by
  have hpoint : (c = '.' → ∀ d ∈ rest.head?, isDigit d = false) ↔
      (c ≠ '.' ∨ rest.head?.any isDigit = false) := by
    rw [Option.any_eq_false, imp_iff_not_or]
    rfl
  rw [List.all_eq_true, ← hpoint]
  constructor
  · intro h
    cases h with
    | word h =>
      obtain ⟨d, ds, hd, hstart, hds⟩ := mem_oneOf_mul.1 h
      cases hd
      exact .inl ⟨hstart, mem_oneOf_kstar.1 hds⟩
    | operator halnum hunderscore hblank hpoint =>
      exact .inr ⟨isWordChar_eq_false.2 ⟨halnum, hunderscore⟩, hblank, hpoint⟩
  · rintro (⟨hstart, hrest⟩ | ⟨hother, hblank, hpoint⟩)
    · exact .word (mem_oneOf_mul.2 ⟨c, rest, rfl, hstart, mem_oneOf_kstar.2 hrest⟩)
    · obtain ⟨halnum, hunderscore⟩ := isWordChar_eq_false.1 hother
      exact .operator halnum hunderscore hblank hpoint

instance decidableScannable : (cs : List Char) → Decidable (Scannable cs)
  | [] => .isFalse fun h => by
    cases h with
    | word h =>
      obtain ⟨c, rest, hcs, -⟩ := mem_oneOf_mul.1 h
      cases hcs
  | _ :: _ => decidable_of_iff _ scannable_cons_iff.symm

end Lexer

namespace Table
variable {V : Type} {t : Table V} {token : Token V} {kind : PieceKind} {text key : String}

/-- Words and operators are looked up in the table. -/
def LookedUp (kind : PieceKind) : Prop := kind = .word ∨ kind = .operator

/-- The scan of a text comes to the entry of a lexeme: a word or an operator of the text is the lexeme,
and all that stands before it can be read. -/
def Yields (t : Table V) (text key : String) : Prop :=
  ∃ before kind after, pieces (t.operators.map (·.toList)) text.toList =
      before ++ ⟨kind, key.toList⟩ :: after ∧
    LookedUp kind ∧ (t.tokensFrom 0 before).failure = none

/-- A lexeme of the table is cut as one piece that is looked up exactly if it is scannable. -/
theorem cut_self_iff (h : key ∈ t.keys) :
    (∃ kind, LookedUp kind ∧ t.Cut key.toList ⟨kind, key.toList⟩) ↔ Scannable key.toList := by
  constructor
  · rintro ⟨kind, hkind, hcut⟩
    cases hcut with
    | blank | number => rcases hkind with hkind | hkind <;> cases hkind
    | word _ _ hword => exact .word hword.mem
    | operator hblank hnumber _ hoperator =>
      obtain ⟨-, c, hc, hother⟩ := hoperator.mem
      obtain ⟨rest, hrest⟩ := List.head?_eq_some_iff.1 hc
      rw [hrest] at hblank hnumber ⊢
      obtain ⟨halnum, hunderscore⟩ := isWordChar_eq_false.1 hother
      exact .operator halnum hunderscore (absent_blanks_iff.1 hblank) (absent_numbers_iff.1 hnumber).2
  · intro hscannable
    generalize hcs : key.toList = cs at hscannable ⊢
    cases hscannable with
    | word hword =>
      obtain ⟨c, rest, rfl, hc, -⟩ := mem_oneOf_mul.1 hword
      have hpoint : c ≠ '.' := by
        rintro rfl
        cases hc
      exact ⟨.word, .inl rfl, .word (absent_blanks_iff.2 (isBlank_of_isWordStart hc))
        (absent_numbers_iff.2 ⟨isDigit_of_isWordStart hc, fun h => absurd h hpoint⟩) (.self hword)⟩
    | @operator c rest halnum hunderscore hblank hpoint =>
      have hother : isWordChar c = false := isWordChar_eq_false.2 ⟨halnum, hunderscore⟩
      have hdigit : isDigit c = false :=
        Bool.eq_false_iff.2 (mt isAlnum_of_isDigit (Bool.eq_false_iff.1 halnum))
      have hstart : isWordStart c = false :=
        Bool.eq_false_iff.2 (mt isWordChar_of_isWordStart (Bool.eq_false_iff.1 hother))
      have hsymbol : c :: rest ∈ t.symbols := ⟨by rwa [← hcs, String.ofList_toList], c, rfl, hother⟩
      exact ⟨.operator, .inr rfl, .operator (absent_blanks_iff.2 hblank)
        (absent_numbers_iff.2 ⟨hdigit, hpoint⟩) (absent_words hstart) (.self hsymbol)⟩

/-- A piece that is looked up and cut of some text is cut of itself. -/
theorem Yields.cut (h : t.Yields text key) :
    ∃ kind, LookedUp kind ∧ t.Cut key.toList ⟨kind, key.toList⟩ := by
  obtain ⟨before, kind, after, hpieces, hkind, -⟩ := h
  have hmem : (⟨kind, key.toList⟩ : Piece) ∈ pieces (t.operators.map (·.toList)) text.toList :=
    hpieces ▸ List.mem_append_right before List.mem_cons_self
  obtain ⟨cs, hpiece⟩ := mem_piecesFrom hmem
  have hfirst : t.firstPiece cs = ⟨kind, key.toList⟩ := hpiece.symm
  refine ⟨kind, hkind, ?_⟩
  rcases t.firstPiece_cases cs with hcut | hstray
  · exact (hfirst ▸ hcut).alone
  · rw [hstray, Piece.mk.injEq] at hfirst
    rcases hkind with rfl | rfl <;> cases hfirst.1

private theorem tokenOf_of_lookup (hkind : LookedUp kind) (h : t.lookup key = some token) (pos : Nat) :
    t.tokenOf pos ⟨kind, key.toList⟩ = .ok (some token) := by
  rcases hkind with rfl | rfl <;> simp only [tokenOf, String.ofList_toList, h]

private theorem tokensFrom_append (t : Table V) (pos : Nat) (before after : List Piece) :
    ∃ pos', t.tokensFrom pos (before ++ after) =
      (t.tokensFrom pos before).followedBy (t.tokensFrom pos' after) := by
  induction before generalizing pos with
  | nil => exact ⟨pos, rfl⟩
  | cons piece before ih =>
    obtain ⟨pos', hrest⟩ := ih (pos + piece.text.length)
    refine ⟨pos', ?_⟩
    rw [List.cons_append, tokensFrom, tokensFrom]
    cases t.tokenOf pos piece with
    | error e => rfl
    | ok made =>
      cases made with
      | none => exact hrest
      | some u => rw [Stream.cons_followedBy, ← hrest]

/-- The token of the entry is among those of the text. -/
theorem Yields.mem_tokens (h : t.Yields text key) (hlookup : t.lookup key = some token) :
    token ∈ (t.scan text).tokens := by
  obtain ⟨before, kind, after, hpieces, hkind, hread⟩ := h
  obtain ⟨pos, happend⟩ := t.tokensFrom_append 0 before (⟨kind, key.toList⟩ :: after)
  rw [scan, hpieces, happend, Stream.followedBy_of_read hread, tokensFrom,
    tokenOf_of_lookup hkind hlookup]
  exact List.mem_append_right _ List.mem_cons_self

private theorem Cut.yields (hkind : LookedUp kind) (h : t.Cut key.toList ⟨kind, key.toList⟩) :
    t.Yields key key := by
  obtain ⟨hne, -⟩ := h.begins
  have hfirst := h.eq_firstPiece
  unfold firstPiece at hfirst
  refine ⟨[], kind, [], ?_, hkind, rfl⟩
  generalize key.toList = cs at hfirst hne ⊢
  obtain ⟨c, rest, rfl⟩ := List.exists_cons_of_ne_nil hne
  rw [pieces_cons _ c rest (hfirst ▸ hne), hfirst, List.drop_length]
  rfl

theorem Cut.scan (hkind : LookedUp kind) (h : t.Cut key.toList ⟨kind, key.toList⟩)
    (hlookup : t.lookup key = some token) : t.scan key = .ofTokens [token] := by
  have hcut := scanFrom_cut h 0
  rw [tokenOf_of_lookup hkind hlookup, List.drop_length] at hcut
  exact hcut

/-- A scan can come to the entry of a lexeme exactly if the lexeme is an identifier or begins with a
character that is neither a letter or number nor an underscore nor a blank, and not with a point before a
digit. Then the lexeme is read as its token alone. -/
theorem yields_iff (t : Table V) (h : t.lookup key = some token) :
    ((∃ text, t.Yields text key) ↔ Scannable key.toList) ∧
      (∀ text, t.Yields text key → token ∈ (t.scan text).tokens) ∧
      (Scannable key.toList → t.scan key = .ofTokens [token]) := by
  have hkey : key ∈ t.keys := mem_keys.2 (Option.isSome_iff_exists.2 ⟨token, h⟩)
  have hcut := cut_self_iff hkey
  refine ⟨⟨fun ⟨_, hyields⟩ => hcut.1 hyields.cut, fun hscannable => ?_⟩,
    fun _ hyields => hyields.mem_tokens h, fun hscannable => ?_⟩
  · obtain ⟨kind, hkind, hself⟩ := hcut.2 hscannable
    exact ⟨key, hself.yields hkind⟩
  · obtain ⟨kind, hkind, hself⟩ := hcut.2 hscannable
    exact hself.scan hkind h

/-- The token of a delimiter. -/
def delimiter (lexeme : String) : Token Unit := ⟨.anonymous, 0, some lexeme, .keyword⟩

/-- Two points, the fraction of a number, and a word that does not begin with an ASCII letter. -/
def assorted : Table Unit where
  entries := ["..", ".5", "été"].map fun lexeme => (lexeme, delimiter lexeme)
  number := none
  name := none
  nodup := by decide
  nonempty := by decide

/-- The points are read as their entry, the fraction and the word in no text as theirs. -/
theorem yields_iff_assorted :
    assorted.lookup ".." = some (delimiter "..") ∧ assorted.scan ".." = .ofTokens [delimiter ".."] ∧
      assorted.lookup ".5" = some (delimiter ".5") ∧ (¬ ∃ text, assorted.Yields text ".5") ∧
      assorted.lookup "été" = some (delimiter "été") ∧ ¬ ∃ text, assorted.Yields text "été" := by
  have hpoints : assorted.lookup ".." = some (delimiter "..") := rfl
  have hfraction : assorted.lookup ".5" = some (delimiter ".5") := rfl
  have hword : assorted.lookup "été" = some (delimiter "été") := rfl
  obtain ⟨-, -, hscan⟩ := yields_iff assorted hpoints
  obtain ⟨hfractionIff, -⟩ := yields_iff assorted hfraction
  obtain ⟨hwordIff, -⟩ := yields_iff assorted hword
  exact ⟨hpoints, hscan (by decide), hfraction, hfractionIff.not.2 (by decide), hword,
    hwordIff.not.2 (by decide)⟩

end Table

end BindingPower
