import BindingPower.Proofs.Lexer.Numerals
import BindingPower.Proofs.Lexer.Partition

/-! Blanks part the lexemes of a text: what stands before them is read as if the text ended there, and
what comes after as if it began there. So a text that can be read is read again from its lexemes with
spaces between. -/
namespace BindingPower

open Lexer Text

namespace Text
variable {c : Char}

private theorem toNat_of_isWordStart (h : isWordStart c = true) :
    'A'.toNat ≤ c.toNat ∧ c.toNat ≤ 'z'.toNat := by
  rw [isWordStart, Bool.or_eq_true] at h
  rcases h with hletter | hunderscore
  · simp only [isAsciiLetter, Bool.or_eq_true, Bool.and_eq_true, decide_eq_true_eq, Char.le_def,
      UInt32.le_iff_toNat_le] at hletter
    rcases hletter with ⟨hfrom, hto⟩ | ⟨hfrom, hto⟩
    · exact ⟨le_trans (by decide) hfrom, hto⟩
    · exact ⟨hfrom, le_trans hto (by decide)⟩
  · obtain rfl := eq_of_beq hunderscore
    decide

/-- Words begin between the blocks of digits. -/
theorem isDigit_of_isWordStart (h : isWordStart c = true) : isDigit c = false := by
  have hapart : ∀ z ∈ zeros, z + 10 ≤ 'A'.toNat ∨ 'z'.toNat < z := by decide
  obtain ⟨hfrom, hto⟩ := toNat_of_isWordStart h
  by_contra hdigit
  obtain ⟨d, hd⟩ := Option.isSome_iff_exists.1 (Bool.not_eq_false _ ▸ hdigit)
  obtain ⟨z, hz, hle, hlt⟩ := exists_of_digitFrom hd
  have := hapart z hz
  omega

theorem isBlank_of_isWordStart (h : isWordStart c = true) : isBlank c = false := by
  have hapart : ∀ r ∈ blankRanges, r.2 < 'A'.toNat ∨ 'z'.toNat < r.1 := by decide
  obtain ⟨hfrom, hto⟩ := toNat_of_isWordStart h
  by_contra hblank
  obtain ⟨r, hr, hlow, hhigh⟩ := exists_of_inRanges (Bool.not_eq_false _ ▸ hblank)
  have := hapart r hr
  omega

/-- No range of letters and numbers meets a range of blanks. -/
theorem isBlank_of_isWordChar (h : isWordChar c = true) : isBlank c = false := by
  have hapart : ∀ a ∈ alnumRanges, ∀ r ∈ blankRanges, r.2 < a.1 ∨ a.2 < r.1 := by decide +kernel
  simp only [isWordChar, isAlnum, Bool.or_eq_true] at h
  rcases h with ((hletter | hdigit) | halnum) | hunderscore
  · exact isBlank_of_isWordStart (by simp [isWordStart, hletter])
  · exact isBlank_of_isDigit hdigit
  · obtain ⟨a, ha, hafrom, hato⟩ := exists_of_inRanges halnum
    by_contra hblank
    obtain ⟨r, hr, hlow, hhigh⟩ := exists_of_inRanges (Bool.not_eq_false _ ▸ hblank)
    have := hapart a ha r hr
    omega
  · obtain rfl := eq_of_beq hunderscore
    decide

end Text

namespace Stream
variable {V : Type} {s s' : Stream V} {token : Token V}

/-- The tokens of one stream and then those of another, unless the first ends in a failure. -/
def followedBy (s s' : Stream V) : Stream V :=
  match s.failure with
  | some e => ⟨s.tokens, some e⟩
  | none => ⟨s.tokens ++ s'.tokens, s'.failure⟩

@[simp]
theorem nil_followedBy : nil.followedBy s = s := rfl

@[simp]
theorem failed_followedBy (e : Failure) : (failed e).followedBy s = failed e := rfl

@[simp]
theorem cons_followedBy : (s.cons token).followedBy s' = (s.followedBy s').cons token := by
  obtain ⟨tokens, failure⟩ := s
  cases failure <;> rfl

@[simp]
private theorem followedBy_nil : s.followedBy nil = s := by
  obtain ⟨tokens, failure⟩ := s
  cases failure with
  | none => simp [followedBy, nil]
  | some e => rfl

private theorem followedBy_of_failed {e : Failure} (h : s.failure = some e) : s.followedBy s' = s := by
  obtain ⟨tokens, failure⟩ := s
  cases h
  rfl

theorem followedBy_of_read (h : s.failure = none) :
    s.followedBy s' = ⟨s.tokens ++ s'.tokens, s'.failure⟩ := by
  rw [followedBy, h]

end Stream

/-- The failure of a text that stands further on in another, where the place of a lexeme counts from the
start of all. -/
def Failure.shifted (n : Nat) : Failure → Failure
  | .parse (.lexical pos text) => .parse (.lexical (pos + n) text)
  | e => e

def Stream.shifted {V : Type} (n : Nat) (s : Stream V) : Stream V :=
  { s with failure := s.failure.map (.shifted n) }

namespace Lexer

/-- What stands in a text and has no blanks stands before the first blank. -/
theorem prefix_append_iff {pre cs ds : List Char} (hpre : ∀ c ∈ pre, isBlank c = false)
    (hds : ∀ d ∈ ds.head?, isBlank d = true) : pre <+: cs ++ ds ↔ pre <+: cs := by
  refine ⟨fun h => ?_, fun h => h.trans (List.prefix_append cs ds)⟩
  induction cs generalizing pre with
  | nil =>
    cases pre with
    | nil => exact List.nil_prefix
    | cons c pre =>
      obtain ⟨rest, rfl⟩ := h
      exact absurd (hds c rfl) (by simp [hpre c List.mem_cons_self])
  | cons d cs ih =>
    cases pre with
    | nil => exact List.nil_prefix
    | cons c pre =>
      obtain ⟨rfl, hrest⟩ := List.cons_prefix_cons.1 h
      exact List.cons_prefix_cons.2 ⟨rfl, ih (List.forall_mem_cons.1 hpre).2 hrest⟩

/-- What is cut of a text without blanks in it is cut of the text before the first blank. -/
theorem Finds.append {L : Language Char} {cut : List Char → List Char} {ds : List Char}
    (hcut : Finds L cut) (hL : ∀ pre ∈ L, ∀ c ∈ pre, isBlank c = false)
    (hds : ∀ d ∈ ds.head?, isBlank d = true) (cs : List Char) : cut (cs ++ ds) = cut cs :=
  hcut.congr hcut fun pre => and_congr_right fun hmem => prefix_append_iff (hL pre hmem) hds

private theorem Absent.of_prefix {L : Language Char} {cs ds : List Char} (h : Absent L cs) (hds : ds <+: cs) :
    Absent L ds :=
  fun pre hmem hbegins => h pre hmem (hbegins.trans hds)

private theorem isBlank_of_mem_words {cs : List Char} (h : cs ∈ words) : ∀ c ∈ cs, isBlank c = false := by
  obtain ⟨c, rest, rfl, hc, hrest⟩ := mem_oneOf_mul.1 h
  refine List.forall_mem_cons.2 ⟨isBlank_of_isWordChar (isWordChar_of_isWordStart hc), ?_⟩
  exact fun d hd => isBlank_of_isWordChar (mem_oneOf_kstar.1 hrest d hd)

end Lexer

namespace Table
variable {V : Type} {t : Table V} {cs ds : List Char} {c : Char} {piece : Piece}

/-- No operator of the table has a blank in it. -/
def Unbroken (t : Table V) : Prop := ∀ lexeme ∈ t.operators, ∀ c ∈ lexeme.toList, isBlank c = false

private theorem Unbroken.isBlank_of_mem_symbols (ht : t.Unbroken) :
    ∀ lexeme ∈ t.symbols, ∀ c ∈ lexeme, isBlank c = false := by
  intro lexeme hlexeme c hc
  refine ht (.ofList lexeme) (mem_operators.2 ?_) c ?_
  · rwa [String.toList_ofList]
  · rwa [String.toList_ofList]

/-- The piece at a character that is no blank is the one there would be without what comes from the next
blank on. -/
theorem firstPiece_append (ht : t.Unbroken) (hc : isBlank c = false)
    (hds : ∀ d ∈ ds.head?, isBlank d = true) :
    t.firstPiece (c :: cs ++ ds) = t.firstPiece (c :: cs) := by
  have hblank (cs : List Char) : (c :: cs).takeWhile isBlank = [] :=
    List.takeWhile_cons_of_neg (by simp [hc])
  have hnumber := finds_numbers.append (fun _ h c hc => isBlank_of_inNumber (inNumber_of_mem h c hc))
    hds (c :: cs)
  have hword := finds_words.append (fun _ => isBlank_of_mem_words) hds (c :: cs)
  have hoperator := t.finds_symbols.append ht.isBlank_of_mem_symbols hds (c :: cs)
  rw [List.cons_append] at hnumber hword hoperator ⊢
  simp only [firstPiece, Piece.first, hnumber, hword, hoperator, hblank, List.take_succ_cons,
    List.take_zero]

private theorem tokenOf_add (t : Table V) (pos n : Nat) (piece : Piece) :
    t.tokenOf (pos + n) piece = (t.tokenOf pos piece).mapError (.shifted n) := by
  unfold tokenOf
  cases piece.kind with
  | blank | stray => rfl
  | number =>
    cases t.number with
    | none => rfl
    | some make => cases hmake : make (.ofList piece.text) <;> simp only [hmake] <;> rfl
  | word =>
    cases hlookup : t.lookup (.ofList piece.text) with
    | some token => simp only [hlookup]; rfl
    | none =>
      cases t.name with
      | none => simp only [hlookup]; rfl
      | some make => cases hmake : make (.ofList piece.text) <;> simp only [hlookup, hmake] <;> rfl
  | operator => cases hlookup : t.lookup (.ofList piece.text) <;> simp only [hlookup] <;> rfl

/-- Where a text begins only counts for the place of its failure. -/
theorem scanFrom_add (t : Table V) (pos n : Nat) (cs : List Char) :
    t.scanFrom (pos + n) cs = (t.scanFrom pos cs).shifted n := by
  induction cs using t.pieceInduction generalizing pos with
  | nil => rfl
  | blank c cs hc ih => rw [scanFrom_blank hc, scanFrom_blank hc, Nat.add_right_comm, ih]
  | piece c cs _ ih =>
    have hne : c :: cs ≠ [] := List.cons_ne_nil c cs
    rw [scanFrom_eq hne, scanFrom_eq hne, tokenOf_add, Nat.add_right_comm, ih]
    cases t.tokenOf pos (t.firstPiece (c :: cs)) with
    | error e => rfl
    | ok made => cases made <;> rfl

/-- Up to the first blank after it, a text is read as if it were all, and from there on as if nothing
stood before. -/
theorem scanFrom_append (ht : t.Unbroken) (hds : ∀ d ∈ ds.head?, isBlank d = true) (pos : Nat)
    (cs : List Char) :
    t.scanFrom pos (cs ++ ds) = (t.scanFrom pos cs).followedBy (t.scanFrom (pos + cs.length) ds) := by
  induction cs using t.pieceInduction generalizing pos with
  | nil => rfl
  | blank c cs hc ih =>
    rw [List.cons_append, scanFrom_blank hc, scanFrom_blank hc, ih, List.length_cons,
      Nat.add_right_comm, Nat.add_assoc]
  | piece c cs hc ih =>
    have hne : c :: cs ≠ [] := List.cons_ne_nil c cs
    obtain ⟨-, hbegins⟩ := firstPiece_begins (t := t) hne
    have hle := hbegins.length_le
    have hend : pos + (t.firstPiece (c :: cs)).text.length +
        ((c :: cs).drop (t.firstPiece (c :: cs)).text.length).length = pos + (c :: cs).length := by
      rw [List.length_drop]
      omega
    rw [scanFrom_eq hne, scanFrom_eq (List.append_ne_nil_of_left_ne_nil hne ds),
      firstPiece_append ht hc hds, List.drop_append_of_le_length hle, ih, hend]
    cases t.tokenOf pos (t.firstPiece (c :: cs)) with
    | error e => simp
    | ok made => cases made <;> simp

/-! Lexemes -/

/-- A piece that is cut of a text is also cut of itself, whole. -/
theorem Cut.alone (h : t.Cut cs piece) : t.Cut piece.text piece := by
  obtain ⟨-, hbegins⟩ := h.begins
  cases h with
  | blank h => exact .blank (.self h.mem)
  | number hblank h => exact .number (hblank.of_prefix hbegins) (.self h.mem)
  | word hblank hnumber h =>
    exact .word (hblank.of_prefix hbegins) (hnumber.of_prefix hbegins) (.self h.mem)
  | operator hblank hnumber hword h =>
    exact .operator (hblank.of_prefix hbegins) (hnumber.of_prefix hbegins)
      (hword.of_prefix hbegins) (.self h.mem)

private theorem tokenOf_of_ok {made : Option (Token V)} {pos : Nat} (h : t.tokenOf pos piece = .ok made)
    (pos' : Nat) : t.tokenOf pos' piece = .ok made := by
  rw [← Nat.zero_add pos, tokenOf_add] at h
  rw [← Nat.zero_add pos', tokenOf_add]
  cases hzero : t.tokenOf 0 piece with
  | error e =>
    rw [hzero] at h
    cases h
  | ok made' =>
    rw [hzero] at h
    exact h

/-- The pieces of a text, but for its blanks. -/
def lexemesOf (t : Table V) (cs : List Char) : List (List Char) :=
  ((pieces (t.operators.map (·.toList)) cs).filter (·.kind ≠ .blank)).map (·.text)

/-- The lexemes of a text in order. -/
def lexemes (t : Table V) (text : String) : List String := (t.lexemesOf text.toList).map .ofList

private theorem lexemesOf_cut (h : t.Cut cs piece) : t.lexemesOf cs =
    (if piece.kind = .blank then [] else [piece.text]) ++ t.lexemesOf (cs.drop piece.text.length) := by
  obtain ⟨hne, hbegins⟩ := h.begins
  have hcs : cs ≠ [] := fun hnil => hne (List.prefix_nil.1 (hnil ▸ hbegins))
  obtain ⟨c, rest, rfl⟩ := List.exists_cons_of_ne_nil hcs
  have hfirst := h.eq_firstPiece
  unfold firstPiece at hfirst
  rw [lexemesOf, pieces_cons _ c rest (hfirst ▸ hne), hfirst, List.filter_cons]
  by_cases hkind : piece.kind = .blank
  · rw [if_neg (by simpa using hkind), if_pos hkind]
    rfl
  · rw [if_pos (by simpa using hkind), if_neg hkind]
    rfl

private theorem lexemesOf_dropWhile (t : Table V) (cs : List Char) :
    t.lexemesOf cs = t.lexemesOf (cs.dropWhile isBlank) := by
  by_cases hnil : cs.takeWhile isBlank = []
  · rw [← drop_takeWhile, hnil]
    rfl
  · rw [lexemesOf_cut (.blank ((finds_blanks cs).1 hnil)), drop_takeWhile]
    rfl

private theorem lexemesOf_blank (hc : isBlank c = true) : t.lexemesOf (c :: cs) = t.lexemesOf cs := by
  rw [lexemesOf_dropWhile, List.dropWhile_cons_of_pos hc, ← lexemesOf_dropWhile]

/-- Among the pieces that can be read those of blanks are the ones without a token. -/
theorem kind_eq_blank {made : Option (Token V)} {pos : Nat} (h : t.tokenOf pos piece = .ok made) :
    piece.kind = .blank ↔ made = none := by
  have hmade (x : Except Fault (Token V)) : (x.map some).mapError Failure.fault ≠ .ok none := by
    cases x <;> nofun
  unfold tokenOf at h
  cases hkind : piece.kind <;> grind

/-- A lexeme and a space are read before the lexemes after them. -/
theorem scanFrom_intercalate_cons (ht : t.Unbroken) (pos : Nat) (lexeme : List Char)
    (rest : List (List Char)) :
    ∃ pos', t.scanFrom pos ([' '].intercalate (lexeme :: rest)) =
      (t.scanFrom pos lexeme).followedBy (t.scanFrom pos' ([' '].intercalate rest)) := by
  cases rest with
  | nil => exact ⟨pos, by rw [List.intercalate_singleton]; exact Stream.followedBy_nil.symm⟩
  | cons next rest =>
    have hspace : ∀ d ∈ ([' '] ++ [' '].intercalate (next :: rest)).head?, isBlank d = true := by
      rintro d ⟨⟩
      rfl
    refine ⟨pos + lexeme.length + 1, ?_⟩
    rw [List.intercalate_cons_cons, List.append_assoc, scanFrom_append ht hspace]
    rw [List.singleton_append, scanFrom_blank rfl]

private theorem scanFrom_lexemesOf (ht : t.Unbroken) {pos : Nat} (h : (t.scanFrom pos cs).failure = none)
    (pos' : Nat) : t.scanFrom pos' ([' '].intercalate (t.lexemesOf cs)) = t.scanFrom pos cs := by
  induction cs using t.pieceInduction generalizing pos pos' with
  | nil => rfl
  | blank c cs hc ih =>
    rw [scanFrom_blank hc] at h ⊢
    rw [lexemesOf_blank hc]
    exact ih h pos'
  | piece c cs hc ih =>
    rw [scanFrom_eq (List.cons_ne_nil c cs)] at h ⊢
    rcases t.firstPiece_cases (c :: cs) with hcut | hstray
    · rw [lexemesOf_cut hcut]
      generalize t.firstPiece (c :: cs) = piece at *
      cases htoken : t.tokenOf pos piece with
      | error e =>
        rw [htoken] at h
        cases h
      | ok made =>
        rw [htoken] at h
        cases made with
        | none =>
          rw [if_pos ((kind_eq_blank htoken).2 rfl)]
          exact ih h pos'
        | some token =>
          have hkind : piece.kind ≠ .blank := fun hblank =>
            nomatch (kind_eq_blank htoken).1 hblank
          obtain ⟨later, hjoined⟩ := scanFrom_intercalate_cons ht pos' piece.text
            (t.lexemesOf ((c :: cs).drop piece.text.length))
          have hlone : t.scanFrom pos' piece.text = .cons token .nil := by
            rw [scanFrom_cut hcut.alone, tokenOf_of_ok htoken, List.drop_length]
            rfl
          rw [if_neg hkind, List.singleton_append, hjoined, hlone, ih h later]
          rfl
    · rw [hstray] at h
      cases h

/-- Blanks separate whatever stands around them, where no operator has a blank in it: a text is read up
to its failure as if nothing came after the blanks, and what comes after them as if it came first, with
its failure shifted. So a text that can be read is read again from its lexemes, joined with single
spaces. -/
theorem scan_separated (t : Table V) (ht : t.Unbroken) :
    (∀ a w b : String, w ≠ "" → (∀ c ∈ w.toList, isBlank c = true) →
      (∀ e, (t.scan a).failure = some e → t.scan (a ++ w ++ b) = t.scan a) ∧
      ((t.scan a).failure = none → t.scan (a ++ w ++ b) =
        ⟨(t.scan a).tokens ++ (t.scan b).tokens,
          (t.scan b).failure.map (.shifted (a.length + w.length))⟩)) ∧
    ∀ text, (t.scan text).failure = none →
      t.scan (" ".intercalate (t.lexemes text)) = t.scan text := by
  refine ⟨fun a w b hw hblank => ?_, fun text hread => ?_⟩
  · have hds : ∀ d ∈ (w.toList ++ b.toList).head?, isBlank d = true := by
      cases hlist : w.toList with
      | nil => exact absurd (String.toList_eq_nil_iff.1 hlist) hw
      | cons c rest =>
        rintro d ⟨⟩
        exact hblank c (hlist ▸ List.mem_cons_self)
    have hscan : t.scan (a ++ w ++ b) =
        (t.scan a).followedBy ((t.scan b).shifted (a.length + w.length)) := by
      have happend := scanFrom_append ht hds 0 a.toList
      rw [scanFrom_blanks hblank, Nat.zero_add, ← Nat.zero_add (_ + _), scanFrom_add] at happend
      rw [← String.length_toList, ← String.length_toList, scan, String.toList_append,
        String.toList_append, List.append_assoc]
      exact happend
    rw [hscan]
    exact ⟨fun e => Stream.followedBy_of_failed, Stream.followedBy_of_read⟩
  · have hjoined : (" ".intercalate (t.lexemes text)).toList =
        [' '].intercalate (t.lexemesOf text.toList) := by
      rw [String.toList_intercalate, lexemes, List.map_map]
      simp
    rw [scan, hjoined]
    exact scanFrom_lexemesOf ht hread 0

/-- Blanks within three points part them, and the name at the end of it all is what cannot be read. -/
theorem scan_separated_points :
    points.Unbroken ∧ points.scan ("1.5." ++ " \t" ++ "..x") =
        ⟨(points.scan "1.5.").tokens ++ (points.scan "..x").tokens,
          some (.parse (.lexical 8 "x"))⟩ ∧
      points.scan ("x" ++ " " ++ "1") = points.scan "x" ∧
      points.lexemes " 1.e5...2 " = ["1.e5", "..", ".2"] ∧
      points.scan "1.e5 .. .2" = points.scan " 1.e5...2 " := by
  have hpoints : points.operators.all (fun lexeme => lexeme.toList.all fun c => !isBlank c) = true := rfl
  have hunbroken : points.Unbroken := by
    intro lexeme hlexeme c hc
    have hplain := List.all_eq_true.1 hpoints lexeme hlexeme
    simpa using List.all_eq_true.1 hplain c hc
  obtain ⟨hblank, hlexemes⟩ := scan_separated points hunbroken
  obtain ⟨-, hread⟩ := hblank "1.5." " \t" "..x" (by decide) (List.all_eq_true.1 rfl)
  obtain ⟨hfailed, -⟩ := hblank "x" " " "1" (by decide) (List.all_eq_true.1 rfl)
  exact ⟨hunbroken, hread rfl, hfailed _ rfl, rfl, hlexemes " 1.e5...2 " rfl⟩

end Table

end BindingPower
