import BindingPower.Proofs.Lexer.Partition

/-! What a table contributes to the reading of a text: its factories and the lexemes that occur in the
text. The order of the entries and all the other lexemes have no part in it. -/
namespace BindingPower

open Lexer

variable {V : Type}

/-! Lookups of changed entries -/

namespace Entries
variable {es es' new : Entries V} {lexeme key : String} {token : Token V}

private theorem lookup_put_of_ne (h : key ≠ lexeme) : (es.put lexeme token).lookup key = es.lookup key := by
  have hkey : (key == lexeme) = false := beq_eq_false_iff_ne.2 h
  induction es with
  | nil => rw [put, List.lookup_cons, hkey]
  | cons e rest ih =>
    rw [put]
    split
    · rename_i he
      rw [List.lookup_cons, List.lookup_cons, he, hkey]
    · rw [List.lookup_cons, List.lookup_cons, ih]

private theorem lookup_putAll_of_notMem (h : ∀ e ∈ new, e.1 ≠ key) :
    (es.putAll new).lookup key = es.lookup key := by
  induction new generalizing es with
  | nil => rfl
  | cons e rest ih =>
    obtain ⟨he, hrest⟩ := List.forall_mem_cons.1 h
    rw [putAll, List.foldl_cons, ← putAll, ih hrest, lookup_put_of_ne he.symm]

private theorem lookup_eq_some (h : es.keys.Nodup) :
    es.lookup key = some token ↔ (key, token) ∈ es := by
  induction es with
  | nil => exact ⟨nofun, nofun⟩
  | cons e rest ih =>
    obtain ⟨first, u⟩ := e
    obtain ⟨hnot, hrest⟩ := List.nodup_cons.1 h
    rw [List.lookup_cons, List.mem_cons, Prod.mk.injEq]
    by_cases hkey : key = first
    · subst hkey
      have hlate : (key, token) ∉ rest := fun hmem => hnot (List.mem_map.2 ⟨_, hmem, rfl⟩)
      rw [beq_self_eq_true, or_iff_left hlate, Option.some.injEq, eq_comm]
      exact (and_iff_right rfl).symm
    · rw [beq_eq_false_iff_ne.2 hkey, or_iff_right fun heq => hkey heq.1]
      exact ih hrest

/-- As long as no lexeme has two entries, their order does not matter. -/
theorem lookup_perm (h : es.Perm es') (hnodup : es.keys.Nodup) (key : String) :
    es.lookup key = es'.lookup key := by
  have hnodup' : es'.keys.Nodup := (h.map _).nodup_iff.1 hnodup
  ext token
  rw [lookup_eq_some hnodup, lookup_eq_some hnodup', h.mem_iff]

end Entries

namespace Table
variable {t t' : Table V} {cs text : List Char}

theorem mem_keys {lexeme : String} : lexeme ∈ t.keys ↔ (t.lookup lexeme).isSome = true := by
  rw [lookup, List.lookup_isSome_iff, keys, Entries.keys, List.mem_map]
  simp only [beq_iff_eq]
  exact exists_congr fun e => and_congr_right fun _ => eq_comm

/-- Tables that make the same of numbers and names, and have the same token for each text within the
one to be read. -/
structure AgreesOn (t t' : Table V) (text : List Char) : Prop where
  number : t.number = t'.number
  name : t.name = t'.name
  lookup : ∀ lexeme, lexeme ≠ [] → lexeme <:+: text →
    t.lookup (.ofList lexeme) = t'.lookup (.ofList lexeme)

namespace AgreesOn

theorem mono (h : t.AgreesOn t' text) (hcs : cs <:+: text) : t.AgreesOn t' cs :=
  ⟨h.number, h.name, fun lexeme hne hin => h.lookup lexeme hne (hin.trans hcs)⟩

/-- The same operators stand at the start of the text. -/
theorem symbols (h : t.AgreesOn t' cs) (lexeme : List Char) (hbegins : lexeme <+: cs) :
    lexeme ∈ t.symbols ↔ lexeme ∈ t'.symbols := by
  refine and_congr_left fun ⟨c, hc, _⟩ => ?_
  have hne : lexeme ≠ [] := by
    rintro rfl
    cases hc
  rw [mem_keys, mem_keys, h.lookup lexeme hne hbegins.isInfix]

/-- Neither the order among operators of one length nor those that are not in the text decide which is
cut. -/
theorem firstPiece (h : t.AgreesOn t' cs) : t.firstPiece cs = t'.firstPiece cs := by
  have hoperator : operatorPart (t.operators.map (·.toList)) cs =
      operatorPart (t'.operators.map (·.toList)) cs :=
    t.finds_symbols.congr t'.finds_symbols fun lexeme => and_congr_left (h.symbols lexeme)
  rw [Table.firstPiece, Table.firstPiece, Piece.first, Piece.first, hoperator]

theorem tokenOf {piece : Piece} (h : t.AgreesOn t' piece.text) (hne : piece.text ≠ []) (pos : Nat) :
    t.tokenOf pos piece = t'.tokenOf pos piece := by
  simp only [Table.tokenOf, h.number, h.name, h.lookup piece.text hne List.infix_rfl]

theorem scanFrom (h : t.AgreesOn t' cs) (pos : Nat) : t.scanFrom pos cs = t'.scanFrom pos cs := by
  induction cs using t'.pieceInduction generalizing pos with
  | nil => rfl
  | blank c cs hc ih =>
    rw [scanFrom_blank hc, scanFrom_blank hc, ih (h.mono (List.suffix_cons c cs).isInfix)]
  | piece c cs _ ih =>
    have hne : c :: cs ≠ [] := List.cons_ne_nil c cs
    obtain ⟨hpiece, hbegins⟩ := firstPiece_begins (t := t') hne
    have htoken := (h.mono hbegins.isInfix).tokenOf hpiece pos
    have hrest := ih (h.mono (List.drop_suffix _ _).isInfix)
    rw [scanFrom_eq hne, scanFrom_eq hne, h.firstPiece, htoken, hrest]

theorem charsFrom (h : t.AgreesOn t' cs) (skip : List Char) (pos : Nat) :
    t.charsFrom skip pos cs = t'.charsFrom skip pos cs := by
  induction cs generalizing pos with
  | nil => rfl
  | cons c rest ih =>
    have hlookup : t.lookup (.singleton c) = t'.lookup (.singleton c) :=
      h.lookup [c] (List.cons_ne_nil c []) ⟨[], rest, rfl⟩
    rw [Table.charsFrom, Table.charsFrom, hlookup,
      ih (h.mono (List.suffix_cons c rest).isInfix)]

/-- Lexemes that are not in the text do not matter. -/
theorem of_extend {es : Entries V} (hes : ∀ e ∈ es, ¬ e.1.toList <:+: text)
    (h : t.extend es none none = .ok t') : t.AgreesOn t' text := by
  rw [extend, ofEntries] at h
  split at h
  · cases h
  · cases h
    refine ⟨rfl, rfl, fun lexeme _ hin => ?_⟩
    refine (Entries.lookup_putAll_of_notMem fun e he hkey => hes e he ?_).symm
    rwa [hkey, String.toList_ofList]

private theorem of_perm (hnumber : t.number = t'.number) (hname : t.name = t'.name)
    (h : t.entries.Perm t'.entries) : t.AgreesOn t' text :=
  ⟨hnumber, hname, fun _ _ _ => Entries.lookup_perm h t.nodup _⟩

end AgreesOn

/-- Both lexers give the same tokens and the same failure under two tables, whatever is skipped. -/
structure ReadsAlike (t t' : Table V) (text : String) : Prop where
  scan : t.scan text = t'.scan text
  readChars : ∀ skip, t.readChars skip text = t'.readChars skip text

private theorem AgreesOn.readsAlike {text : String} (h : t.AgreesOn t' text.toList) : t.ReadsAlike t' text :=
  ⟨h.scanFrom 0, fun skip => h.charsFrom skip.toList 0⟩

/-- Lexing depends on a table only through its factories and the lexemes that occur in the text. So
lexemes that do not occur there can be added, and the entries come in any order. -/
theorem readsAlike_of_occurring (t : Table V) (text : String) :
    (∀ t', t.AgreesOn t' text.toList → t.ReadsAlike t' text) ∧
      (∀ es t', (∀ e ∈ es, ¬ e.1.toList <:+: text.toList) → t.extend es none none = .ok t' →
        t.ReadsAlike t' text) ∧
      ∀ t', t.number = t'.number → t.name = t'.name → t.entries.Perm t'.entries →
        t.ReadsAlike t' text :=
  ⟨fun _ h => h.readsAlike, fun _ _ hes h => (AgreesOn.of_extend hes h).readsAlike,
    fun _ hnumber hname h => (AgreesOn.of_perm hnumber hname h).readsAlike⟩

/-- Three points in a row. -/
def morePoints : Entries Unit := [("...", ⟨.anonymous, 0, some "...", .keyword⟩)]

/-- Three points can be added and the entries reversed, as far as this text is concerned. -/
theorem readsAlike_of_occurring_points :
    ∃ more flipped : Table Unit, points.extend morePoints none none = .ok more ∧
      flipped.entries = points.entries.reverse ∧ points.ReadsAlike more "1.5..2" ∧
      points.ReadsAlike flipped "1.5..2" ∧
      (points.scan "1.5..2").tokens.map (·.name) = [some "1.5", some "..", some "2"] := by
  obtain ⟨-, hextend, hperm⟩ := readsAlike_of_occurring points "1.5..2"
  obtain ⟨more, hmore⟩ : ∃ more, points.extend morePoints none none = .ok more := ⟨_, rfl⟩
  have habsent : ∀ e ∈ morePoints, ¬ e.1.toList <:+: "1.5..2".toList := by decide
  let flipped : Table Unit :=
    { points with entries := points.entries.reverse, nodup := by decide, nonempty := by decide }
  exact ⟨more, flipped, hmore, rfl, hextend _ more habsent hmore,
    hperm flipped rfl rfl (List.reverse_perm _).symm, rfl⟩

end Table

end BindingPower
