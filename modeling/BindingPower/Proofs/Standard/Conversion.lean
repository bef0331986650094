import BindingPower.Proofs.Lexer.Separation
import BindingPower.Proofs.Standard.Contracts
import Mathlib.Data.Nat.Digits.Defs

/-! What a scan cuts as a number is converted, without a point or an exponent to the integer that its
digits denote, unless there are too many of them. The digits that an integer is printed with denote it. -/
namespace BindingPower

open Lexer Text

namespace Number

/-- The value of a row of digits, the last of which counts once and each other ten times the next. -/
theorem digitsValue_eq_ofDigits (cs : List Char) :
    digitsValue cs = Nat.ofDigits 10 (cs.map fun c => (digitValue? c).getD 0).reverse := by
  induction cs using List.reverseRecOn with
  | nil => rfl
  | append_singleton cs c ih =>
    rw [List.map_append, List.map_singleton, List.reverse_append, List.reverse_singleton,
      List.singleton_append, Nat.ofDigits_cons, ← ih, digitsValue, List.foldl_append]
    exact Nat.add_comm _ _

end Number

namespace Lexer
variable {cs : List Char}

private theorem mem_numbers_of_digits (hne : cs ≠ []) (h : ∀ c ∈ cs, isDigit c = true) : cs ∈ numbers := by
  obtain ⟨c, rest, rfl⟩ := List.exists_cons_of_ne_nil hne
  obtain ⟨hc, hrest⟩ := List.forall_mem_cons.1 h
  have hdigits : c :: rest ∈ digits := mem_oneOf_mul.2 ⟨c, rest, rfl, hc, mem_oneOf_kstar.2 hrest⟩
  have hnone (L : Language Char) : [] ∈ 1 + L := (Language.mem_add ..).2 (.inl Language.nil_mem_one)
  rw [numbers, ← List.append_nil (c :: rest), ← List.append_nil (c :: rest ++ [])]
  exact (Language.mem_add ..).2
    (.inl (Language.append_mem_mul (Language.append_mem_mul hdigits (hnone _)) (hnone _)))

end Lexer

/-- A numeral is converted: to the integer whose decimal places its digits are, or to a floating number
where it has a point or an exponent. An integer with too many digits is refused. -/
structure Converted (cs : List Char) : Prop where
  integer : isFractional (.ofList cs) = false → cs.length ≤ digitLimit → ∃ places : List Nat,
    cs.map digitValue? = places.map some ∧
      numberLiteral (.ofList cs) =
        .ok (literalOf (.ofList cs) (.int (Nat.ofDigits 10 places.reverse : Nat)))
  float : isFractional (.ofList cs) = true → ∃ x : Float,
    numberLiteral (.ofList cs) = .ok (literalOf (.ofList cs) (.float x))
  overlong : Overlong cs → numberLiteral (.ofList cs) = .error (.longNumeral cs.length)

private theorem converted_of_mem_numbers {cs : List Char} (h : cs ∈ numbers) : Converted cs := by
  constructor
  · intro hwhole hlimit
    obtain ⟨hne, hdigits⟩ := digits_of_not_isFractional h hwhole
    refine ⟨cs.map fun c => (digitValue? c).getD 0, ?_, ?_⟩
    · rw [List.map_map]
      refine List.map_congr_left fun c hc => ?_
      obtain ⟨d, hd⟩ := Option.isSome_iff_exists.1 (hdigits c hc)
      rw [Function.comp_apply, hd, Option.getD_some]
    · rw [numberLiteral, numeralValue_digits hne hdigits, if_neg hlimit.not_gt,
        Number.digitsValue_eq_ofDigits]
      rfl
  · intro hfraction
    obtain ⟨x, hx⟩ := Number.readDecimal?_isSome h
    exact ⟨x, by rw [numberLiteral, numeralValue, hfraction, if_pos rfl, hx]; rfl⟩
  · rintro ⟨hwhole, hlimit⟩
    obtain ⟨hne, hdigits⟩ := digits_of_not_isFractional h hwhole
    rw [numberLiteral, numeralValue_digits hne hdigits, if_pos hlimit]
    rfl

private theorem mem_numbers_of_mem_pieces {operators : List (List Char)} {cs : List Char} {piece : Piece}
    (h : piece ∈ pieces operators cs) (hkind : piece.kind = .number) : piece.text ∈ numbers := by
  obtain ⟨rest, rfl⟩ := Table.mem_piecesFrom h
  obtain ⟨htext, hne⟩ := Standard.text_first_number hkind
  exact htext ▸ Table.Supplies.numberPart_mem hne

/-- A row of digits is scanned as one number. -/
theorem Table.scan_digits {V : Type} {make : Factory V} {cs : List Char} (t : Table V)
    (ht : t.number = some make) (hne : cs ≠ []) (h : ∀ c ∈ cs, isDigit c = true) :
    t.scan (.ofList cs) =
      match make (.ofList cs) with
      | .error f => .failed (.fault f)
      | .ok u => .ofTokens [u] := by
  have hblank : Absent blanks cs := by
    obtain ⟨c, rest, rfl⟩ := List.exists_cons_of_ne_nil hne
    exact absent_blanks_iff.2 (isBlank_of_isDigit (h c List.mem_cons_self))
  have hcut : t.Cut cs ⟨.number, cs⟩ := .number hblank (.self (mem_numbers_of_digits hne h))
  have hscan := scanFrom_cut hcut 0
  simp only [Table.tokenOf, ht, List.drop_length] at hscan
  rw [Table.scan, String.toList_ofList]
  refine Eq.trans hscan ?_
  cases make (.ofList cs) <;> rfl

/-- A row that is too long for its number to be made is not scanned. -/
theorem Table.scan_longRow {V : Type} {make : Factory V} {f : Fault} (t : Table V)
    (ht : t.number = some make) (hmake : make (.ofList Number.longRow) = .error f) :
    t.scan (.ofList Number.longRow) = .failed (.fault f) := by
  rw [t.scan_digits ht Number.longRow_ne_nil Number.isDigit_longRow, hmake]

namespace Standard

/-- What fails in a scan by a table is a text that is no token, or a number that is too long. -/
theorem supplies_numbers (s : Standard) : s.table.Supplies fun _ => True where
  entry _ _ := trivial
  number := by
    intro make hmake cs hcs
    have hreading := reading_of_mem_numbers hcs
    cases s with
    | arithmetic | tree => cases hmake
    | conditional =>
      cases hmake
      exact hreading.supplies (fun _ _ => trivial) fun _ => trivial
    | conditionalTree =>
      cases hmake
      exact hreading.supplies (fun _ _ => trivial) fun _ => trivial
  name := by
    intro make hmake word
    cases s with
    | arithmetic | tree | conditional => cases hmake
    | conditionalTree =>
      cases hmake
      exact ⟨_, rfl, trivial⟩

/-- Whatever is cut of a text as a number is converted, unless it is an integer with too many digits, so
that a scan by the tables fails otherwise only at texts that are no tokens. An integer without a sign is
read from what it is printed as, if it has no more digits than are printed. -/
theorem scanned_numbers_convert :
    (∀ (operators : List (List Char)) (text : String), ∀ piece ∈ pieces operators text.toList,
        piece.kind = .number → Converted piece.text) ∧
      (∀ (s : Standard) (text : String), ∀ e ∈ (s.table.scan text).failure,
        (∃ pos lexeme, e = .parse (.lexical pos lexeme)) ∨
          ∃ f, e = .fault f ∧ s.table.Overruns text f) ∧
      ∀ (t : Table Value) (n : Nat), t.number = some numberLiteral → n < 10 ^ digitLimit →
        ∃ line, (Value.int n).printed = .ok line ∧
          t.scan line = .ofTokens [literalOf line (.int n)] := by
  refine ⟨fun operators text piece hpiece hkind => ?_, fun s text => ?_, fun t n ht hn => ?_⟩
  · exact converted_of_mem_numbers (mem_numbers_of_mem_pieces hpiece hkind)
  · exact (s.supplies_numbers.scan text).failure
  · have hprinted : (Value.int n).printed = .ok (.ofList (Nat.toDigits 10 n)) :=
      Value.printed_of_textFault? (if_neg (by simp [Number.isLong_eq_false hn]))
    have hmade : numberLiteral (.ofList (Nat.toDigits 10 n)) =
        .ok (literalOf (.ofList (Nat.toDigits 10 n)) (.int n)) := by
      rw [numberLiteral, numeralValue_digits Nat.toDigits_ne_nil (Number.isDigit_toDigits n),
        if_neg (Number.length_toDigits_le hn).not_gt, Number.digitsValue_toDigits]
      rfl
    refine ⟨_, hprinted, ?_⟩
    rw [t.scan_digits ht Nat.toDigits_ne_nil (Number.isDigit_toDigits n), hmade]

/-- Digits of another script, a point without digits after it, and an integer as it is printed. -/
theorem scanned_numbers_convert_scripts :
    ⟨.number, "٣٤".toList⟩ ∈ pieces [['+']] "٣٤+1.e".toList ∧ Converted "٣٤".toList ∧
      ⟨.number, "1.".toList⟩ ∈ pieces [['+']] "٣٤+1.e".toList ∧ Converted "1.".toList ∧
      conditional.table.number = some numberLiteral ∧ 120 < 10 ^ digitLimit ∧
      ∃ line, (Value.int (120 : Nat)).printed = .ok line ∧
        conditional.table.scan line = .ofTokens [literalOf line (.int (120 : Nat))] := by
  obtain ⟨hconverted, -, hprinted⟩ := scanned_numbers_convert
  have hwhole : ⟨.number, "٣٤".toList⟩ ∈ pieces [['+']] "٣٤+1.e".toList := by decide
  have hpoint : ⟨.number, "1.".toList⟩ ∈ pieces [['+']] "٣٤+1.e".toList := by decide
  have hshort : 120 < 10 ^ digitLimit :=
    (by decide : 120 < 10 ^ 3).trans_le (Nat.pow_le_pow_right (by decide) (by decide))
  exact ⟨hwhole, hconverted _ _ _ hwhole rfl, hpoint, hconverted _ _ _ hpoint rfl, rfl, hshort,
    hprinted _ 120 rfl hshort⟩

/-- A row with a digit more than an integer is read from is cut as a number and not converted. -/
theorem long_row_not_converted :
    conditional.table.number = some numberLiteral ∧ Number.longRow ∈ numbers ∧
      isFractional (.ofList Number.longRow) = false ∧
      conditional.table.scan (.ofList Number.longRow) =
        .failed (.fault (.longNumeral (digitLimit + 1))) := by
  have hnumber : conditional.table.number = some numberLiteral := rfl
  exact ⟨hnumber, mem_numbers_of_digits Number.longRow_ne_nil Number.isDigit_longRow,
    overlong_longRow.1, conditional.table.scan_longRow hnumber numberLiteral_longRow⟩

end Standard

end BindingPower
