import BindingPower.Proofs.Lexer.Longest
import BindingPower.Standard.Numerals
import Mathlib.Data.Nat.Digits.Defs

/-! Every number that is cut of a text can be read, unless it has too many digits: what has a point or
an exponent as a floating number, all else as the integer that its digits make. The digits that a natural
is printed with make it. -/
namespace BindingPower

open Text Computability

namespace Text

theorem exists_of_inRanges {ranges : List (Nat × Nat)} {n : Nat} (h : inRanges ranges n = true) :
    ∃ r ∈ ranges, r.1 ≤ n ∧ n ≤ r.2 := by
  induction ranges with
  | nil => cases h
  | cons r rest ih =>
    rw [inRanges] at h
    split at h
    · cases h
    · split at h
      · exact ⟨r, List.mem_cons_self, by omega, by omega⟩
      · obtain ⟨r', hr', hn⟩ := ih h
        exact ⟨r', List.mem_cons_of_mem r hr', hn⟩

theorem exists_of_digitFrom {starts : List Nat} {n d : Nat} (h : digitFrom starts n = some d) :
    ∃ z ∈ starts, z ≤ n ∧ n < z + 10 := by
  induction starts with
  | nil => cases h
  | cons z rest ih =>
    rw [digitFrom] at h
    split at h
    · cases h
    · split at h
      · exact ⟨z, List.mem_cons_self, by omega, by omega⟩
      · obtain ⟨z', hz', hn⟩ := ih h
        exact ⟨z', List.mem_cons_of_mem z hz', hn⟩

private theorem lt_of_digitFrom {starts : List Nat} {n d : Nat} (h : digitFrom starts n = some d) : d < 10 := by
  induction starts with
  | nil => cases h
  | cons z rest ih =>
    rw [digitFrom] at h
    split at h
    · cases h
    · split at h
      · cases h
        omega
      · exact ih h

/-- No block of digits meets a range of blanks. -/
theorem isBlank_of_isDigit {c : Char} (h : isDigit c = true) : isBlank c = false := by
  have hapart : ∀ z ∈ zeros, ∀ r ∈ blankRanges, r.2 < z ∨ z + 10 ≤ r.1 := by decide
  obtain ⟨d, hd⟩ := Option.isSome_iff_exists.1 h
  obtain ⟨z, hz, hle, hlt⟩ := exists_of_digitFrom hd
  by_contra hblank
  obtain ⟨r, hr, hlow, hhigh⟩ := exists_of_inRanges (Bool.not_eq_false _ ▸ hblank)
  have := hapart z hz r hr
  omega

end Text

namespace Lexer
variable {cs : List Char}

/-- An exponent is a letter with digits after it, and perhaps a sign between. -/
theorem mem_perhaps_exponent (h : cs ∈ 1 + exponent) :
    cs = [] ∨ ∃ e sign ds, cs = e :: (sign ++ ds) ∧ (e = 'e' ∨ e = 'E') ∧
      (sign = [] ∨ sign = ['+'] ∨ sign = ['-']) ∧ ds ≠ [] ∧ ∀ c ∈ ds, isDigit c = true := by
  rcases (Language.mem_add ..).1 h with h | h
  · exact .inl ((Language.mem_one _).1 h)
  · right
    rw [exponent, mul_assoc] at h
    obtain ⟨e, rest, rfl, he, hrest⟩ := mem_oneOf_mul.1 h
    obtain ⟨mark, hmark, ds, hds, rfl⟩ := Language.mem_mul.1 hrest
    obtain ⟨d, more, rfl, hd, hmore⟩ := mem_oneOf_mul.1 hds
    refine ⟨e, mark, d :: more, rfl, by simpa using he, ?_, List.cons_ne_nil d more,
      List.forall_mem_cons.2 ⟨hd, mem_oneOf_kstar.1 hmore⟩⟩
    rcases (Language.mem_add ..).1 hmark with hnone | ⟨c, hc, rfl⟩
    · exact .inl ((Language.mem_one _).1 hnone)
    · right
      simpa using hc

/-- A number is a row of digits, a fraction perhaps and an exponent perhaps, with a digit before the
exponent. -/
theorem mem_numbers (h : cs ∈ numbers) :
    ∃ whole fraction power, cs = whole ++ (fraction ++ power) ∧ (∀ c ∈ whole, isDigit c = true) ∧
      (fraction = [] ∧ whole ≠ [] ∨
        ∃ ds, fraction = '.' :: ds ∧ (∀ c ∈ ds, isDigit c = true) ∧ (whole ≠ [] ∨ ds ≠ [])) ∧
      power ∈ 1 + exponent := by
  have hdigits {cs : List Char} (h : cs ∈ digits) : cs ≠ [] ∧ ∀ c ∈ cs, isDigit c = true := by
    obtain ⟨d, ds, rfl, hd, hds⟩ := mem_oneOf_mul.1 h
    exact ⟨List.cons_ne_nil d ds, List.forall_mem_cons.2 ⟨hd, mem_oneOf_kstar.1 hds⟩⟩
  rw [numbers, mul_assoc, mul_assoc] at h
  rcases (Language.mem_add ..).1 h with h | h
  · obtain ⟨whole, hwhole, rest, hrest, rfl⟩ := Language.mem_mul.1 h
    obtain ⟨fraction, hfraction, power, hpower, rfl⟩ := Language.mem_mul.1 hrest
    obtain ⟨hne, hall⟩ := hdigits hwhole
    refine ⟨whole, fraction, power, rfl, hall, ?_, hpower⟩
    rcases (Language.mem_add ..).1 hfraction with hnone | hsome
    · exact .inl ⟨(Language.mem_one _).1 hnone, hne⟩
    · obtain ⟨c, ds, rfl, hc, hds⟩ := mem_oneOf_mul.1 hsome
      obtain rfl := of_decide_eq_true hc
      exact .inr ⟨ds, rfl, mem_oneOf_kstar.1 hds, .inl hne⟩
  · obtain ⟨c, rest, rfl, hc, hrest⟩ := mem_oneOf_mul.1 h
    obtain rfl := of_decide_eq_true hc
    obtain ⟨ds, hds, power, hpower, rfl⟩ := Language.mem_mul.1 hrest
    obtain ⟨hne, hall⟩ := hdigits hds
    exact ⟨[], '.' :: ds, power, rfl, List.forall_mem_nil _, .inr ⟨ds, rfl, hall, .inr hne⟩, hpower⟩

/-- The characters of a number. -/
def inNumber (c : Char) : Bool := isDigit c || ['.', 'e', 'E', '+', '-'].contains c

theorem isBlank_of_inNumber {c : Char} (h : inNumber c = true) : isBlank c = false := by
  rw [inNumber, Bool.or_eq_true] at h
  rcases h with hdigit | hmark
  · exact isBlank_of_isDigit hdigit
  · have hmarks : (['.', 'e', 'E', '+', '-'].all fun c => !isBlank c) = true := by decide
    simpa using List.all_eq_true.1 hmarks c (by simpa using hmark)

theorem inNumber_of_mem (h : cs ∈ numbers) : ∀ c ∈ cs, inNumber c = true := by
  have hdigits {ds : List Char} (h : ∀ c ∈ ds, isDigit c = true) : ∀ c ∈ ds, inNumber c = true :=
    fun c hc => by simp [inNumber, h c hc]
  obtain ⟨whole, fraction, power, rfl, hwhole, hfraction, hpower⟩ := mem_numbers h
  refine List.forall_mem_append.2 ⟨hdigits hwhole, List.forall_mem_append.2 ⟨?_, ?_⟩⟩
  · rcases hfraction with ⟨rfl, -⟩ | ⟨ds, rfl, hds, -⟩
    · exact List.forall_mem_nil _
    · exact List.forall_mem_cons.2 ⟨rfl, hdigits hds⟩
  · rcases mem_perhaps_exponent hpower with rfl | ⟨e, sign, ds, rfl, he, hsign, -, hds⟩
    · exact List.forall_mem_nil _
    · refine List.forall_mem_cons.2 ⟨?_, List.forall_mem_append.2 ⟨?_, hdigits hds⟩⟩
      · rcases he with rfl | rfl <;> rfl
      · rcases hsign with rfl | rfl | rfl <;> simp [inNumber]

end Lexer

namespace Number
variable {cs : List Char}

private theorem trim_eq (h : ∀ c ∈ cs, isPadding c = false) : trim cs = cs := by
  have hkept {cs : List Char} (h : ∀ c ∈ cs, isPadding c = false) : cs.dropWhile isPadding = cs := by
    cases cs with
    | nil => rfl
    | cons c cs => exact List.dropWhile_cons_of_neg (by simp [h c List.mem_cons_self])
  rw [trim, hkept h, hkept (fun c hc => h c (List.mem_reverse.1 hc)), List.reverse_reverse]

private theorem ungroup_eq (h : '_' ∉ cs) (afterDigit : Bool) : ungroup afterDigit cs = some cs := by
  induction cs generalizing afterDigit with
  | nil => rfl
  | cons c cs ih =>
    obtain ⟨hc, hcs⟩ := List.ne_and_not_mem_of_not_mem_cons h
    rw [ungroup, if_neg hc.symm, ih hcs, Option.map_some]

/-- Nothing is left out of a number before it is read. -/
theorem ungroup_trim (h : ∀ c ∈ cs, Lexer.inNumber c = true) : ungroup false (trim cs) = some cs := by
  have hblank : ∀ c ∈ cs, isPadding c = false := by
    intro c hc
    rw [isPadding, Bool.and_eq_false_iff]
    exact .inl (Lexer.isBlank_of_inNumber (h c hc))
  rw [trim_eq hblank, ungroup_eq]
  intro hmem
  exact absurd (h '_' hmem) (by decide)

private theorem splitSign_of_digit {c : Char} (h : isDigit c = true ∨ c = '.') :
    splitSign (c :: cs) = (false, c :: cs) := by
  have hminus : c ≠ '-' := by
    rintro rfl
    exact absurd h (by decide)
  have hplus : c ≠ '+' := by
    rintro rfl
    exact absurd h (by decide)
  unfold splitSign
  split <;> simp_all

theorem digitsValue_concat {c : Char} {d : Nat} (h : digitValue? c = some d) (cs : List Char) :
    digitsValue (cs ++ [c]) = 10 * digitsValue cs + d := by
  rw [digitsValue, List.foldl_append, List.foldl_cons, List.foldl_nil, h, Option.getD_some]
  rfl

private theorem digitValue?_digitChar {d : Nat} (h : d < 10) : digitValue? d.digitChar = some d := by
  have hall : ∀ d < 10, digitValue? (Nat.digitChar d) = some d := by decide
  exact hall d h

theorem isDigit_toDigits (n : Nat) : ∀ c ∈ Nat.toDigits 10 n, Text.isDigit c = true := by
  have hlast {d : Nat} (h : d < 10) : Text.isDigit d.digitChar = true := by
    rw [Text.isDigit, digitValue?_digitChar h]
    rfl
  induction n using Nat.strongRecOn with
  | ind n ih =>
    rw [Nat.toDigits_eq_if (by decide)]
    split
    · exact List.forall_mem_singleton.2 (hlast ‹_›)
    · exact List.forall_mem_append.2 ⟨ih (n / 10) (by omega),
        List.forall_mem_singleton.2 (hlast (Nat.mod_lt n (by decide)))⟩

theorem digitsValue_toDigits (n : Nat) : digitsValue (Nat.toDigits 10 n) = n := by
  induction n using Nat.strongRecOn with
  | ind n ih =>
    rw [Nat.toDigits_eq_if (by decide)]
    split
    · rw [← List.nil_append [n.digitChar], digitsValue_concat (digitValue?_digitChar ‹_›)]
      exact Nat.zero_add n
    · rw [digitsValue_concat (digitValue?_digitChar (Nat.mod_lt n (by decide))), ih (n / 10) (by omega)]
      exact Nat.div_add_mod n 10

/-- The digits of a row are less than as many places can hold. -/
theorem digitsValue_lt (cs : List Char) : digitsValue cs < 10 ^ cs.length := by
  induction cs using List.reverseRecOn with
  | nil => exact Nat.one_pos
  | append_singleton cs c ih =>
    have hdigit : (digitValue? c).getD 0 < 10 := by
      cases hd : digitValue? c with
      | none => decide
      | some d => exact lt_of_digitFrom hd
    have hvalue : digitsValue (cs ++ [c]) = 10 * digitsValue cs + (digitValue? c).getD 0 := by
      rw [digitsValue, List.foldl_append]
      rfl
    rw [hvalue, List.length_append, List.length_singleton, Nat.pow_succ]
    omega

/-- The integers that are not written are those with more places than the limit. -/
theorem isLong_iff {i : Int} : isLong i = true ↔ 10 ^ digitLimit ≤ i.natAbs := by
  have hplaces : i.natAbs < 10 ^ (Nat.toDigits 10 i.natAbs).length := by
    have hlt := digitsValue_lt (Nat.toDigits 10 i.natAbs)
    rwa [digitsValue_toDigits] at hlt
  rw [isLong, decide_eq_true_iff, ← not_iff_not, Nat.not_lt, Nat.not_le]
  constructor
  · exact fun hlength => hplaces.trans_le (Nat.pow_le_pow_right (by decide) hlength)
  · exact Nat.toDigits_length 10 _ _ (by decide)

theorem isLong_eq_false {n : Nat} (h : n < 10 ^ digitLimit) : isLong n = false := by
  rw [← Bool.not_eq_true, isLong_iff, Int.natAbs_natCast]
  exact h.not_ge

theorem isLong_digitsValue (h : cs.length ≤ digitLimit) : isLong (digitsValue cs) = false :=
  isLong_eq_false ((digitsValue_lt cs).trans_le (Nat.pow_le_pow_right (by decide) h))

/-- A natural that is not too long has no more digits than an integer is read from. -/
theorem length_toDigits_le {n : Nat} (h : n < 10 ^ digitLimit) :
    (Nat.toDigits 10 n).length ≤ digitLimit :=
  Nat.toDigits_length 10 _ _ (by decide) h

/-- A row with a digit more than an integer is read from. -/
def longRow : List Char := List.replicate (digitLimit + 1) '1'

private theorem length_longRow : longRow.length = digitLimit + 1 := List.length_replicate

theorem longRow_ne_nil : longRow ≠ [] := List.ne_nil_of_length_eq_add_one length_longRow

theorem eq_of_mem_longRow {c : Char} (h : c ∈ longRow) : c = '1' := List.eq_of_mem_replicate h

theorem isDigit_longRow : ∀ c ∈ longRow, isDigit c = true :=
  fun _ hc => eq_of_mem_longRow hc ▸ rfl

theorem longRow_ne {text : String} {c : Char} (h : c ∈ text.toList) (hc : c ≠ '1') :
    String.ofList longRow ≠ text := by
  rintro rfl
  rw [String.toList_ofList] at h
  exact hc (eq_of_mem_longRow h)

/-- Its value is not written either. -/
theorem isLong_longRow : isLong (digitsValue longRow) = true := by
  have hones (n : Nat) : 10 ^ n ≤ digitsValue (List.replicate (n + 1) '1') := by
    have hone : digitValue? '1' = some 1 := by decide
    induction n with
    | zero => exact Nat.le_refl 1
    | succ n ih =>
      rw [List.replicate_succ', digitsValue_concat hone, Nat.pow_succ]
      omega
  rw [isLong_iff, Int.natAbs_natCast]
  exact hones digitLimit

private theorem readInteger_digits (h : ∀ c ∈ cs, isDigit c = true) (hne : cs ≠ []) :
    readInteger (.ofList cs) =
      if digitLimit < cs.length then .error (.longNumeral cs.length) else .ok (digitsValue cs) := by
  obtain ⟨c, rest, rfl⟩ := List.exists_cons_of_ne_nil hne
  have hblank : ∀ d ∈ c :: rest, isPadding d = false := fun d hd => by
    simp [isPadding, isBlank_of_isDigit (h d hd)]
  have hsign : splitSign (c :: rest) = (false, c :: rest) :=
    splitSign_of_digit (.inl (h c List.mem_cons_self))
  have hrow : ∀ d ∈ c :: rest, (isDigit d || decide (d = '_')) = true := fun d hd => by simp [h d hd]
  have hgroups : '_' ∉ c :: rest := fun hmem => absurd (h '_' hmem) (by decide)
  rw [readInteger, String.toList_ofList, trim_eq hblank, hsign]
  simp only [List.takeWhile_eq_self_iff.2 hrow, List.dropWhile_eq_nil_iff.2 hrow,
    ungroup_eq hgroups, List.isEmpty_cons, List.isEmpty_nil, Bool.not_true, Bool.or_self,
    Bool.false_eq_true, if_false]

private theorem readExponent?_isSome (h : cs ∈ 1 + Lexer.exponent) : ∃ e, readExponent? cs = some e := by
  rcases Lexer.mem_perhaps_exponent h with rfl | ⟨e, sign, ds, rfl, he, hsign, hne, hds⟩
  · exact ⟨0, rfl⟩
  · obtain ⟨d, more, rfl⟩ := List.exists_cons_of_ne_nil hne
    have hall : (d :: more).all isDigit = true := List.all_eq_true.2 hds
    have hsplit : ∃ negative, splitSign (sign ++ d :: more) = (negative, d :: more) := by
      rcases hsign with rfl | rfl | rfl
      · exact ⟨_, splitSign_of_digit (.inl (hds d List.mem_cons_self))⟩
      · exact ⟨false, rfl⟩
      · exact ⟨true, rfl⟩
    obtain ⟨negative, hsplit⟩ := hsplit
    have hletter : (decide (e = 'e') || decide (e = 'E')) = true := by simpa using he
    rw [readExponent?, hsplit]
    simp [hletter, hall]

theorem readDecimal?_isSome (h : cs ∈ Lexer.numbers) : ∃ x, readDecimal? (.ofList cs) = some x := by
  have hin := Lexer.inNumber_of_mem h
  obtain ⟨whole, fraction, power, rfl, hwhole, hfraction, hpower⟩ := Lexer.mem_numbers h
  have hstop : ∀ c ∈ power.head?, isDigit c = false := by
    rcases Lexer.mem_perhaps_exponent hpower with rfl | ⟨e, sign, ds, rfl, he, -⟩
    · exact fun c hc => nomatch hc
    · intro c hc
      cases hc
      rcases he with rfl | rfl <;> decide
  obtain ⟨e, he⟩ := readExponent?_isSome hpower
  rw [readDecimal?, String.toList_ofList, ungroup_trim hin]
  have hnodigit : isDigit '.' = false := by decide
  rcases hfraction with ⟨rfl, hne⟩ | ⟨ds, rfl, hds, hne⟩
  · obtain ⟨htake, hdrop⟩ := Lexer.takeWhile_run hwhole hstop
    obtain ⟨c, rest, rfl⟩ := List.exists_cons_of_ne_nil hne
    have hsign : splitSign (c :: rest ++ power) = (false, c :: rest ++ power) :=
      splitSign_of_digit (.inl (hwhole c List.mem_cons_self))
    have hpoint : ∀ tail, power ≠ '.' :: tail := by
      rcases Lexer.mem_perhaps_exponent hpower with rfl | ⟨e, sign, ds, rfl, he, -⟩
      · exact fun _ h => nomatch h
      · rintro tail ⟨⟩
        exact absurd he (by decide)
    simp only [Option.bind_eq_bind, Option.bind_some, List.nil_append, hsign, htake, hdrop]
    split
    · rename_i hempty
      cases hempty
    · exact ⟨_, by rw [he, Option.bind_some]⟩
  · have hpoint : ∀ c ∈ ('.' :: (ds ++ power)).head?, isDigit c = false := by
      rintro c ⟨⟩
      exact hnodigit
    obtain ⟨htake, hdrop⟩ := Lexer.takeWhile_run hwhole hpoint
    obtain ⟨htakeds, hdropds⟩ := Lexer.takeWhile_run hds hstop
    have hsign : splitSign (whole ++ '.' :: (ds ++ power)) = (false, whole ++ '.' :: (ds ++ power)) := by
      cases whole with
      | nil => exact splitSign_of_digit (.inr rfl)
      | cons c rest => exact splitSign_of_digit (.inl (hwhole c List.mem_cons_self))
    have hsome : (whole.isEmpty && ds.isEmpty) = false := by
      rcases hne with hne | hne <;> simp [hne]
    simp only [Option.bind_eq_bind, Option.bind_some, List.cons_append, hsign, htake, hdrop, htakeds,
      hdropds, hsome, Bool.false_eq_true, if_false, he]
    exact ⟨_, rfl⟩

end Number

variable {cs : List Char}

theorem digits_of_not_isFractional (h : cs ∈ Lexer.numbers) (hf : isFractional (.ofList cs) = false) :
    cs ≠ [] ∧ ∀ c ∈ cs, isDigit c = true := by
  rw [isFractional, String.toList_ofList, List.any_eq_false] at hf
  obtain ⟨whole, fraction, power, rfl, hwhole, hfraction, hpower⟩ := Lexer.mem_numbers h
  rcases hfraction with ⟨rfl, hne⟩ | ⟨ds, rfl, -⟩
  · rcases Lexer.mem_perhaps_exponent hpower with rfl | ⟨e, sign, ds, rfl, he, -⟩
    · simpa using ⟨hne, hwhole⟩
    · refine absurd (hf e (by simp)) (not_not.2 ?_)
      rcases he with rfl | rfl <;> rfl
  · exact absurd (hf '.' (by simp)) (by simp)

private theorem not_isFractional_of_digits (h : ∀ c ∈ cs, isDigit c = true) :
    isFractional (.ofList cs) = false := by
  rw [isFractional, String.toList_ofList, List.any_eq_false]
  intro c hc hmark
  have hdigit := h c hc
  have hmarks : (['.', 'e', 'E'].all fun c => !isDigit c) = true := by decide
  have hnot := List.all_eq_true.1 hmarks c (by simpa [or_assoc] using hmark)
  rw [hdigit] at hnot
  cases hnot

/-- A row of digits is the integer that they make, unless there are too many of them. -/
theorem numeralValue_digits (hne : cs ≠ []) (h : ∀ c ∈ cs, isDigit c = true) :
    numeralValue (.ofList cs) = if digitLimit < cs.length then .error (.longNumeral cs.length)
      else .ok (.int (Number.digitsValue cs)) := by
  rw [numeralValue, not_isFractional_of_digits h, if_neg Bool.false_ne_true,
    Number.readInteger_digits h hne, apply_ite (Except.map Value.int)]
  rfl

theorem numeralValue_longRow :
    numeralValue (.ofList Number.longRow) = .error (.longNumeral (digitLimit + 1)) := by
  rw [numeralValue_digits Number.longRow_ne_nil Number.isDigit_longRow, Number.length_longRow,
    if_pos (Nat.lt_succ_self _)]

theorem numberLiteral_longRow :
    numberLiteral (.ofList Number.longRow) = .error (.longNumeral (digitLimit + 1)) := by
  rw [numberLiteral, numeralValue_longRow]
  rfl

/-- A numeral without a fraction or an exponent that has more digits than are read. -/
def Overlong (cs : List Char) : Prop := isFractional (.ofList cs) = false ∧ digitLimit < cs.length

instance (cs : List Char) : Decidable (Overlong cs) := inferInstanceAs (Decidable (_ ∧ _))

theorem overlong_longRow : Overlong Number.longRow :=
  ⟨not_isFractional_of_digits Number.isDigit_longRow, Number.length_longRow ▸ Nat.lt_succ_self _⟩

/-- What a numeral comes to. -/
inductive Reading (cs : List Char) : Except Fault Value → Prop
  | overlong (h : Overlong cs) : Reading cs (.error (.longNumeral cs.length))
  | integer {i : Int} (hi : Number.isLong i = false) : Reading cs (.ok (.int i))
  | decimal (x : Float) : Reading cs (.ok (.float x))

/-- A number of a text has a value, an integer or a floating number, unless it is too long. -/
theorem reading_of_mem_numbers (h : cs ∈ Lexer.numbers) : Reading cs (numeralValue (.ofList cs)) := by
  cases hf : isFractional (.ofList cs) with
  | true =>
    obtain ⟨x, hx⟩ := Number.readDecimal?_isSome h
    rw [numeralValue, hf, if_pos rfl, hx]
    exact .decimal x
  | false =>
    obtain ⟨hne, hdigits⟩ := digits_of_not_isFractional h hf
    rw [numeralValue_digits hne hdigits]
    split
    · exact .overlong ⟨hf, ‹_›⟩
    · exact .integer (Number.isLong_digitsValue (Nat.le_of_not_lt ‹_›))

end BindingPower
