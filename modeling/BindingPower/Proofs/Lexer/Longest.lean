import BindingPower.Lexer.Basic
import Mathlib.Computability.Language
import Mathlib.Data.List.Sort
import Mathlib.Data.List.TakeWhile

/-! What the lexer cuts at a place is the longest text there of a language: that of blanks, numbers,
words or the operators of a table. Concatenations are read part by part, which loses nothing as long as
no part can begin with what the one before it goes on with. -/
namespace BindingPower

open Computability Text

namespace Lexer
variable {L M : Language Char} {p q : Char → Bool} {c : Char} {cs pre : List Char}

/-- The texts of one character of a class. -/
def oneOf (p : Char → Bool) : Language Char := {cs | ∃ c, p c = true ∧ cs = [c]}

def blanks : Language Char := oneOf isBlank * (oneOf isBlank)∗

def digits : Language Char := oneOf isDigit * (oneOf isDigit)∗

def point : Language Char := oneOf fun c => c = '.'

def sign : Language Char := oneOf fun c => c = '+' || c = '-'

def exponent : Language Char := (oneOf fun c => c = 'e' || c = 'E') * (1 + sign) * digits

/-- Digits with a fraction and an exponent perhaps, or a fraction of digits with an exponent perhaps. -/
def numbers : Language Char :=
  digits * (1 + point * (oneOf isDigit)∗) * (1 + exponent) + point * digits * (1 + exponent)

def words : Language Char := oneOf isWordStart * (oneOf isWordChar)∗

/-- No text of the language is at the start of this one. -/
def Absent (L : Language Char) (cs : List Char) : Prop := ∀ pre ∈ L, ¬ pre <+: cs

/-- The longest text of the language at the start of another. -/
structure Longest (L : Language Char) (cs pre : List Char) : Prop where
  mem : pre ∈ L
  begins : pre <+: cs
  maximal : ∀ other ∈ L, other <+: cs → other.length ≤ pre.length

/-- A function that cuts the longest text of a language, and none where there is none. -/
def Finds (L : Language Char) (cut : List Char → List Char) : Prop :=
  ∀ cs, (cut cs ≠ [] → Longest L cs (cut cs)) ∧ (cut cs = [] → Absent L cs)

/-- No text of the language begins with a character of the class. -/
def Avoids (p : Char → Bool) (L : Language Char) : Prop := ∀ c cs, c :: cs ∈ L → p c = false

theorem Longest.unique {pre' : List Char} (h : Longest L cs pre) (h' : Longest L cs pre') :
    pre = pre' := by
  have hle : pre.length ≤ pre'.length := h'.maximal pre h.mem h.begins
  have hge : pre'.length ≤ pre.length := h.maximal pre' h'.mem h'.begins
  exact (List.prefix_of_prefix_length_le h.begins h'.begins hle).eq_of_length (le_antisymm hle hge)

theorem Longest.self (h : cs ∈ L) : Longest L cs cs :=
  ⟨h, List.prefix_rfl, fun _ _ hbegins => hbegins.length_le⟩

private theorem Absent.not_longest (h : Absent L cs) : ¬ Longest L cs pre :=
  fun hlongest => h pre hlongest.mem hlongest.begins

theorem Finds.eq_nil {cut : List Char → List Char} (hcut : Finds L cut) (h : Absent L cs) :
    cut cs = [] := by
  by_contra hne
  exact h.not_longest ((hcut cs).1 hne)

/-- There is no other longest text, and it is not empty. -/
theorem Finds.eq {cut : List Char → List Char} (hcut : Finds L cut) (h : Longest L cs pre) :
    pre = cut cs ∧ cut cs ≠ [] := by
  have hne : cut cs ≠ [] := fun hnil => (hcut cs).2 hnil pre h.mem h.begins
  exact ⟨h.unique ((hcut cs).1 hne), hne⟩

/-- What is cut depends only on the texts of the language that stand at the start. -/
theorem Finds.congr {cut cut' : List Char → List Char} {ds : List Char} (hcut : Finds L cut)
    (hcut' : Finds M cut') (h : ∀ pre, pre ∈ L ∧ pre <+: cs ↔ pre ∈ M ∧ pre <+: ds) :
    cut cs = cut' ds := by
  by_cases hnil : cut cs = []
  · have habsent : Absent M ds := by
      intro pre hmem hbegins
      obtain ⟨hmem, hbegins⟩ := (h pre).2 ⟨hmem, hbegins⟩
      exact (hcut cs).2 hnil pre hmem hbegins
    rw [hnil, hcut'.eq_nil habsent]
  · have hlongest := (hcut cs).1 hnil
    obtain ⟨hmem, hbegins⟩ := (h _).1 ⟨hlongest.mem, hlongest.begins⟩
    refine (hcut'.eq ⟨hmem, hbegins, fun other hother hfits => ?_⟩).1
    obtain ⟨hother, hfits⟩ := (h other).2 ⟨hother, hfits⟩
    exact hlongest.maximal other hother hfits

/-! Languages by their first characters -/

theorem mem_oneOf_mul : cs ∈ oneOf p * L ↔ ∃ c rest, cs = c :: rest ∧ p c = true ∧ rest ∈ L := by
  rw [Language.mem_mul]
  constructor
  · rintro ⟨_, ⟨c, hc, rfl⟩, rest, hrest, rfl⟩
    exact ⟨c, rest, rfl, hc, hrest⟩
  · rintro ⟨c, rest, rfl, hc, hrest⟩
    exact ⟨[c], ⟨c, hc, rfl⟩, rest, hrest, rfl⟩

theorem mem_oneOf_kstar : cs ∈ (oneOf p)∗ ↔ ∀ c ∈ cs, p c = true := by
  rw [Language.mem_kstar]
  constructor
  · rintro ⟨parts, rfl, hparts⟩ c hc
    obtain ⟨part, hpart, hmem⟩ := List.mem_flatten.1 hc
    obtain ⟨d, hd, rfl⟩ := hparts part hpart
    exact List.mem_singleton.1 hmem ▸ hd
  · intro h
    refine ⟨cs.map fun c => [c], ?_, ?_⟩
    · rw [← List.flatMap_def, List.flatMap_singleton']
    · rintro _ hpart
      obtain ⟨c, hc, rfl⟩ := List.mem_map.1 hpart
      exact ⟨c, h c hc, rfl⟩

private theorem avoids_one : Avoids p 1 := fun _ _ h => nomatch (Language.mem_one _).1 h

private theorem avoids_oneOf_mul (h : ∀ c, q c = true → p c = false) : Avoids p (oneOf q * L) := by
  intro c cs hmem
  obtain ⟨d, rest, hd, hq, -⟩ := mem_oneOf_mul.1 hmem
  cases hd
  exact h c hq

theorem Avoids.add (hL : Avoids p L) (hM : Avoids p M) : Avoids p (L + M) := by
  intro c cs hmem
  rcases (Language.mem_add ..).1 hmem with h | h
  · exact hL c cs h
  · exact hM c cs h

/-! Longest texts of composed languages -/

private theorem longest_one (cs : List Char) : Longest 1 cs [] where
  mem := Language.nil_mem_one
  begins := List.nil_prefix
  maximal other h _ := by rw [(Language.mem_one other).1 h]

theorem Longest.cons (hc : p c = true) (h : Longest L cs pre) :
    Longest (oneOf p * L) (c :: cs) (c :: pre) where
  mem := mem_oneOf_mul.2 ⟨c, pre, rfl, hc, h.mem⟩
  begins := (List.prefix_cons_inj c).2 h.begins
  maximal other hother hbegins := by
    obtain ⟨d, rest, rfl, -, hrest⟩ := mem_oneOf_mul.1 hother
    have hle := h.maximal rest hrest (List.cons_prefix_cons.1 hbegins).2
    exact Nat.succ_le_succ hle

private theorem absent_nil : Absent (oneOf p * L) [] := by
  intro other hother hbegins
  obtain ⟨d, rest, rfl, -, -⟩ := mem_oneOf_mul.1 hother
  exact absurd (List.prefix_nil.1 hbegins) (List.cons_ne_nil d rest)

private theorem absent_cons (h : p c = true → Absent L cs) : Absent (oneOf p * L) (c :: cs) := by
  intro other hother hbegins
  obtain ⟨d, rest, rfl, hd, hrest⟩ := mem_oneOf_mul.1 hother
  obtain ⟨rfl, hrestBegins⟩ := List.cons_prefix_cons.1 hbegins
  exact h hd rest hrest hrestBegins

theorem Absent.add (hL : Absent L cs) (hM : Absent M cs) : Absent (L + M) cs := by
  intro other hother
  rcases (Language.mem_add ..).1 hother with h | h
  · exact hL other h
  · exact hM other h

private theorem Longest.add_of_le (h : Longest L cs pre)
    (hM : ∀ other ∈ M, other <+: cs → other.length ≤ pre.length) : Longest (L + M) cs pre where
  mem := (Language.mem_add ..).2 (.inl h.mem)
  begins := h.begins
  maximal other hother hbegins := by
    rcases (Language.mem_add ..).1 hother with hother | hother
    · exact h.maximal other hother hbegins
    · exact hM other hother hbegins

private theorem Longest.add_left (h : Longest L cs pre) (hM : Absent M cs) : Longest (L + M) cs pre :=
  h.add_of_le fun other hother hbegins => absurd hbegins (hM other hother)

private theorem Longest.add_right (h : Longest L cs pre) (hM : Absent M cs) : Longest (M + L) cs pre := by
  rw [add_comm]
  exact h.add_left hM

private theorem Longest.perhaps (h : Longest L cs pre) : Longest (1 + L) cs pre := by
  rw [add_comm]
  refine h.add_of_le fun other hother _ => ?_
  rw [(Language.mem_one other).1 hother]
  exact Nat.zero_le _

private theorem Absent.perhaps (h : Absent L cs) : Longest (1 + L) cs [] := (longest_one cs).add_left h

/-- A run of characters, and the longest text after it. -/
theorem Longest.run (hL : Avoids p L) (h : Longest L (cs.dropWhile p) pre) :
    Longest ((oneOf p)∗ * L) cs (cs.takeWhile p ++ pre) where
  mem := Language.append_mem_mul (mem_oneOf_kstar.2 fun _ => List.mem_takeWhile_imp) h.mem
  begins := by
    conv => rhs; rw [← List.takeWhile_append_dropWhile (p := p) (l := cs)]
    exact (List.prefix_append_right_inj _).2 h.begins
  maximal other hother hbegins := by
    obtain ⟨run, hrun, rest, hrest, rfl⟩ := Language.mem_mul.1 hother
    obtain ⟨last, rfl⟩ := hbegins
    rw [mem_oneOf_kstar] at hrun
    rw [List.append_assoc, List.takeWhile_append_of_pos hrun, List.length_append,
      List.length_append]
    cases rest with
    | nil => simp only [List.length_append, List.length_nil]; omega
    | cons d rest =>
      -- The rest does not go on with the run, so that the runs are the same.
      have hd : p d = false := hL d rest hrest
      rw [List.append_assoc, List.dropWhile_append_of_pos hrun, List.cons_append,
        List.dropWhile_cons_of_neg (by simp [hd])] at h
      have hle := h.maximal (d :: rest) hrest (List.prefix_append ..)
      simp only [List.length_append]
      omega

theorem Longest.many (hL : Avoids p L) (hne : cs.takeWhile p ≠ [])
    (h : Longest L (cs.dropWhile p) pre) :
    Longest (oneOf p * (oneOf p)∗ * L) cs (cs.takeWhile p ++ pre) := by
  rw [mul_assoc]
  cases cs with
  | nil => exact absurd rfl hne
  | cons c cs =>
    have hc : p c = true := by
      by_contra hneg
      exact hne (List.takeWhile_cons_of_neg hneg)
    rw [List.dropWhile_cons_of_pos hc] at h
    rw [List.takeWhile_cons_of_pos hc]
    exact (h.run hL).cons hc

private theorem absent_many (hnil : cs.takeWhile p = []) : Absent (oneOf p * (oneOf p)∗ * L) cs := by
  rw [mul_assoc]
  cases cs with
  | nil => exact absent_nil
  | cons c cs =>
    refine absent_cons fun hc => ?_
    rw [List.takeWhile_cons_of_pos hc] at hnil
    cases hnil

private theorem finds_many (p : Char → Bool) : Finds (oneOf p * (oneOf p)∗) fun cs => cs.takeWhile p := by
  intro cs
  refine ⟨fun hne => ?_, fun hnil => ?_⟩
  · have hlongest := Longest.many avoids_one hne (longest_one (cs.dropWhile p))
    rwa [mul_one, List.append_nil] at hlongest
  · have habsent : Absent (oneOf p * (oneOf p)∗ * 1) cs := absent_many hnil
    rwa [mul_one] at habsent

theorem finds_blanks : Finds blanks fun cs => cs.takeWhile isBlank := finds_many isBlank

theorem absent_blanks_iff : Absent blanks (c :: cs) ↔ isBlank c = false := by
  refine ⟨fun h => ?_, fun h => (finds_blanks _).2 (List.takeWhile_cons_of_neg (by simp [h]))⟩
  by_contra hblank
  have hnil := finds_blanks.eq_nil h
  rw [List.takeWhile_cons_of_pos (by simpa using hblank)] at hnil
  cases hnil

/-! Numbers -/

private theorem isDigit_of_or {a b : Char} (ha : isDigit a = false) (hb : isDigit b = false)
    (h : (c = a || c = b) = true) : isDigit c = false := by
  simp only [Bool.or_eq_true, decide_eq_true_eq] at h
  rcases h with rfl | rfl
  · exact ha
  · exact hb

private theorem finds_digits : Finds digits fun cs => cs.takeWhile isDigit := finds_many isDigit

/-- Digits after a sign perhaps. -/
private theorem signed_digits (cs : List Char) :
    ((cs.drop (signPart cs).length).takeWhile isDigit ≠ [] → Longest ((1 + sign) * digits) cs
        (signPart cs ++ (cs.drop (signPart cs).length).takeWhile isDigit)) ∧
      ((cs.drop (signPart cs).length).takeWhile isDigit = [] → Absent ((1 + sign) * digits) cs) := by
  rw [add_mul, one_mul]
  cases cs with
  | nil => exact ⟨fun hne => absurd rfl hne, fun _ => absent_nil.add absent_nil⟩
  | cons c cs =>
    by_cases hc : (c = '+' || c = '-') = true
    · have hnot : isDigit c = false := isDigit_of_or (by decide) (by decide) hc
      have hplain : Absent digits (c :: cs) :=
        absent_cons fun hdigit => nomatch hnot.symm.trans hdigit
      have hsign : signPart (c :: cs) = [c] := by
        rw [signPart, if_pos (by simpa using hc)]
      rw [hsign, List.length_singleton, List.drop_succ_cons, List.drop_zero]
      refine ⟨fun hne => ?_, fun hnil => ?_⟩
      · exact (((finds_digits cs).1 hne).cons hc).add_right hplain
      · exact hplain.add (absent_cons fun _ => (finds_digits cs).2 hnil)
    · have hsigned : Absent (sign * digits) (c :: cs) := absent_cons fun h => absurd h hc
      have hsign : signPart (c :: cs) = [] := by
        rw [signPart, if_neg (by simpa using hc)]
      rw [hsign, List.length_nil, List.drop_zero, List.nil_append]
      refine ⟨fun hne => ?_, fun hnil => ?_⟩
      · exact ((finds_digits (c :: cs)).1 hne).add_left hsigned
      · exact ((finds_digits (c :: cs)).2 hnil).add hsigned

private theorem longest_exponent (cs : List Char) : Longest (1 + exponent) cs (exponentPart cs) := by
  unfold exponent
  rw [mul_assoc]
  cases cs with
  | nil => exact absent_nil.perhaps
  | cons c cs =>
    obtain ⟨hlongest, habsent⟩ := signed_digits cs
    rw [exponentPart]
    split
    · rename_i h
      simp only [Bool.and_eq_true, Bool.not_eq_true', List.isEmpty_eq_false_iff] at h
      exact ((hlongest h.2).cons (by simpa using h.1)).perhaps
    · rename_i h
      refine (absent_cons fun hc => habsent ?_).perhaps
      by_contra hne
      exact h (by simpa [hne] using hc)

/-- A run of a class is cut where something else follows it. -/
theorem takeWhile_run {run rest : List Char} (hrun : ∀ c ∈ run, p c = true)
    (hrest : ∀ c ∈ rest.head?, p c = false) :
    (run ++ rest).takeWhile p = run ∧ (run ++ rest).dropWhile p = rest := by
  have hstop : rest.takeWhile p = [] ∧ rest.dropWhile p = rest := by
    cases rest with
    | nil => exact ⟨rfl, rfl⟩
    | cons c rest =>
      have hc : ¬ p c = true := by simp [hrest c rfl]
      exact ⟨List.takeWhile_cons_of_neg hc, List.dropWhile_cons_of_neg hc⟩
  rw [List.takeWhile_append_of_pos hrun, List.dropWhile_append_of_pos hrun, hstop.1, hstop.2,
    List.append_nil]
  exact ⟨rfl, rfl⟩

theorem drop_takeWhile (p : Char → Bool) (cs : List Char) :
    cs.drop (cs.takeWhile p).length = cs.dropWhile p := by
  have hsplit : cs.takeWhile p ++ cs.dropWhile p = cs := List.takeWhile_append_dropWhile
  have hdrop := congrArg (List.drop (cs.takeWhile p).length) hsplit
  rw [List.drop_left] at hdrop
  exact hdrop.symm

theorem fractionPart_of_ne (h : c ≠ '.') : fractionPart (c :: cs) = [] := by
  unfold fractionPart
  split
  · rename_i heq
    exact absurd (List.cons.inj heq).1 h
  · rfl

private theorem avoids_exponent : Avoids isDigit (1 + exponent) := by
  unfold exponent
  rw [mul_assoc]
  exact avoids_one.add (avoids_oneOf_mul fun _ => isDigit_of_or (by decide) (by decide))

private theorem isDigit_point (h : decide (c = '.') = true) : isDigit c = false := by
  rw [of_decide_eq_true h]
  decide

/-- A fraction and an exponent, each perhaps, after digits. -/
private theorem longest_fraction (cs : List Char) :
    Longest ((1 + point * (oneOf isDigit)∗) * (1 + exponent)) cs
      (fractionPart cs ++ exponentPart (cs.drop (fractionPart cs).length)) := by
  rw [add_mul, one_mul, mul_assoc point]
  cases cs with
  | nil => exact (longest_exponent []).add_left absent_nil
  | cons c cs =>
    by_cases hc : c = '.'
    · subst hc
      have hfraction := ((longest_exponent (cs.dropWhile isDigit)).run avoids_exponent).cons
        (p := fun c => c = '.') (c := '.') rfl
      have hexponent : Absent exponent ('.' :: cs) := by
        unfold exponent
        rw [mul_assoc]
        exact absent_cons fun h => absurd h (by decide)
      rw [fractionPart, List.length_cons, List.drop_succ_cons, drop_takeWhile, add_comm]
      refine hfraction.add_of_le fun other hother hbegins => ?_
      exact (hexponent.perhaps.maximal other hother hbegins).trans (Nat.zero_le _)
    · rw [fractionPart_of_ne hc]
      have hfraction : Absent (point * ((oneOf isDigit)∗ * (1 + exponent))) (c :: cs) :=
        absent_cons fun h => absurd (of_decide_eq_true h) hc
      exact (longest_exponent (c :: cs)).add_left hfraction

theorem finds_numbers : Finds numbers numberPart := by
  intro cs
  unfold numbers
  rw [mul_assoc digits, mul_assoc point]
  by_cases hwhole : cs.takeWhile isDigit = []
  · have hfirst : Absent (digits * ((1 + point * (oneOf isDigit)∗) * (1 + exponent))) cs :=
      absent_many hwhole
    unfold numberPart
    simp only [hwhole, List.isEmpty_nil, Bool.true_and, List.length_nil, List.drop_zero,
      List.nil_append, decide_eq_true_eq]
    cases cs with
    | nil => exact ⟨fun hne => absurd rfl hne, fun _ => hfirst.add absent_nil⟩
    | cons c cs =>
      by_cases hc : c = '.'
      · subst hc
        rw [fractionPart, List.length_cons, List.drop_succ_cons, drop_takeWhile]
        split
        · rename_i hshort
          have hnil : cs.takeWhile isDigit = [] := List.length_eq_zero_iff.1 (by omega)
          exact ⟨fun hne => absurd rfl hne,
            fun _ => hfirst.add (absent_cons fun _ => absent_many hnil)⟩
        · rename_i hlong
          have hne : cs.takeWhile isDigit ≠ [] := fun hnil => hlong (by simp [hnil])
          refine ⟨fun _ => ?_, fun hnil => nomatch hnil⟩
          exact (((longest_exponent (cs.dropWhile isDigit)).many avoids_exponent hne).cons
            (p := fun c => c = '.') (c := '.') rfl).add_right hfirst
      · rw [fractionPart_of_ne hc]
        refine ⟨fun hne => absurd rfl hne, fun _ => hfirst.add ?_⟩
        exact absent_cons fun h => absurd (of_decide_eq_true h) hc
  · have hsecond : Absent (point * (digits * (1 + exponent))) cs := by
      cases cs with
      | nil => exact absent_nil
      | cons c cs =>
        refine absent_cons fun hc => absurd ?_ hwhole
        rw [List.takeWhile_cons_of_neg (by simp [isDigit_point hc])]
    have havoids : Avoids isDigit ((1 + point * (oneOf isDigit)∗) * (1 + exponent)) := by
      rw [add_mul, one_mul, mul_assoc]
      exact avoids_exponent.add (avoids_oneOf_mul fun _ => isDigit_point)
    have hnumber : numberPart cs = cs.takeWhile isDigit ++
        (fractionPart (cs.dropWhile isDigit) ++ exponentPart ((cs.dropWhile isDigit).drop
          (fractionPart (cs.dropWhile isDigit)).length)) := by
      have hfull : (cs.takeWhile isDigit).isEmpty = false := List.isEmpty_eq_false_iff.2 hwhole
      unfold numberPart
      simp only [hfull, Bool.false_and, Bool.false_eq_true, if_false]
      rw [List.length_append, ← List.drop_drop, drop_takeWhile, List.append_assoc]
    rw [hnumber]
    refine ⟨fun _ => ?_, fun hnil => absurd (List.append_eq_nil_iff.1 hnil).1 hwhole⟩
    exact ((longest_fraction (cs.dropWhile isDigit)).many havoids hwhole).add_left hsecond

/-- A number begins with a digit, or with a point and a digit. -/
theorem absent_numbers_iff : Absent numbers (c :: cs) ↔
    isDigit c = false ∧ (c = '.' → ∀ d ∈ cs.head?, isDigit d = false) := by
  have hcut : Absent numbers (c :: cs) ↔ numberPart (c :: cs) = [] :=
    ⟨finds_numbers.eq_nil, (finds_numbers _).2⟩
  rw [hcut, numberPart]
  cases hc : isDigit c with
  | true => simp [hc]
  | false =>
    by_cases hpoint : c = '.'
    · subst hpoint
      cases cs with
      | nil => simp [hc, fractionPart]
      | cons d cs => cases hd : isDigit d <;> simp [hc, hd, fractionPart]
    · simp [hc, hpoint, fractionPart_of_ne hpoint]

theorem finds_words : Finds words wordPart := by
  intro cs
  cases cs with
  | nil => exact ⟨fun hne => absurd rfl hne, fun _ => absent_nil⟩
  | cons c cs =>
    rw [wordPart]
    split
    · rename_i hc
      refine ⟨fun _ => ?_, fun hnil => nomatch hnil⟩
      have hrun := ((longest_one (cs.dropWhile isWordChar)).run avoids_one).cons hc
      rwa [mul_one, List.append_nil] at hrun
    · rename_i hc
      exact ⟨fun hne => absurd rfl hne, fun _ => absent_cons fun h => absurd h hc⟩

theorem absent_words (h : isWordStart c = false) : Absent words (c :: cs) :=
  (finds_words _).2 (by rw [wordPart, if_neg (by simp [h])])

end Lexer

/-! Operators -/

namespace Table
variable {V : Type}

/-- The lexemes of a table that do not begin as a word might go on. -/
def symbols (t : Table V) : Language Char :=
  {cs | String.ofList cs ∈ t.keys ∧ ∃ c ∈ cs.head?, isWordChar c = false}

/-- Sorting by length is insertion sort. -/
theorem byLength_eq (lexemes : List String) :
    byLength lexemes = lexemes.insertionSort fun a b => b.length ≤ a.length := by
  have hinsert (lexeme : String) (sorted : List String) : insertByLength lexeme sorted =
      sorted.orderedInsert (fun a b => b.length ≤ a.length) lexeme := by
    induction sorted with
    | nil => rfl
    | cons l rest ih => rw [insertByLength, List.orderedInsert_cons, ih]
  induction lexemes with
  | nil => rfl
  | cons l rest ih => rw [byLength, List.insertionSort_cons, ih, hinsert]

theorem mem_operators {t : Table V} {lexeme : String} :
    lexeme ∈ t.operators ↔ lexeme.toList ∈ t.symbols := by
  rw [operators, byLength_eq, List.mem_insertionSort, List.mem_filter]
  show lexeme ∈ t.keys ∧ isOperator lexeme = true ↔
    String.ofList lexeme.toList ∈ t.keys ∧ ∃ c ∈ lexeme.toList.head?, isWordChar c = false
  rw [String.ofList_toList]
  refine and_congr_right fun hmem => ?_
  unfold isOperator
  cases hhead : lexeme.toList.head? with
  | none =>
    -- The empty lexeme is in no table.
    have hempty : lexeme = "" := by
      rw [← String.ofList_toList (s := lexeme), List.head?_eq_none_iff.1 hhead]
    exact absurd (hempty ▸ hmem) t.nonempty
  | some c => simp

private theorem longer_first (t : Table V) : t.operators.Pairwise fun a b => b.length ≤ a.length := by
  rw [operators, byLength_eq]
  have : Std.Total fun a b : String => b.length ≤ a.length := ⟨fun a b => Nat.le_total ..⟩
  have : IsTrans String fun a b => b.length ≤ a.length := ⟨fun a b c hab hbc => hbc.trans hab⟩
  exact List.pairwise_insertionSort _ _

theorem finds_symbols (t : Table V) :
    Lexer.Finds t.symbols (Lexer.operatorPart (t.operators.map (·.toList))) := by
  intro cs
  have hmem (lexeme : List Char) (h : lexeme ∈ t.symbols) :
      lexeme ∈ t.operators.map (·.toList) :=
    List.mem_map.2 ⟨String.ofList lexeme, mem_operators.2 (by rwa [String.toList_ofList]),
      String.toList_ofList⟩
  have hsorted : (t.operators.map (·.toList)).Pairwise fun a b => b.length ≤ a.length := by
    rw [List.pairwise_map]
    exact t.longer_first.imp fun h => by rwa [String.length_toList, String.length_toList]
  unfold Lexer.operatorPart
  cases hfind : (t.operators.map (·.toList)).find? (·.isPrefixOf cs) with
  | none =>
    refine ⟨fun hne => absurd rfl hne, fun _ lexeme hlexeme hbegins => ?_⟩
    have hnot := List.find?_eq_none.1 hfind lexeme (hmem lexeme hlexeme)
    exact hnot (List.isPrefixOf_iff_prefix.2 hbegins)
  | some first =>
    obtain ⟨hfirst, before, after, hsplit, hbefore⟩ := List.find?_eq_some_iff_append.1 hfind
    obtain ⟨op, hop, rfl⟩ := List.mem_map.1 (List.mem_of_find?_eq_some hfind)
    have hsymbol : op.toList ∈ t.symbols := mem_operators.1 hop
    refine ⟨fun _ => ⟨hsymbol, List.isPrefixOf_iff_prefix.1 hfirst,
      fun lexeme hlexeme hbegins => ?_⟩, fun hnil => ?_⟩
    · have hplace := hmem lexeme hlexeme
      rw [hsplit] at hplace hsorted
      rcases List.mem_append.1 hplace with hearly | hlate
      · have hnot := hbefore lexeme hearly
        rw [List.isPrefixOf_iff_prefix.2 hbegins] at hnot
        cases hnot
      · rcases List.mem_cons.1 hlate with rfl | hlate
        · exact le_rfl
        · exact (List.pairwise_cons.1 (List.pairwise_append.1 hsorted).2.1).1 lexeme hlate
    · have hnil : op.toList = [] := hnil
      obtain ⟨-, c, hc, -⟩ := hsymbol
      rw [hnil] at hc
      cases hc

end Table

end BindingPower
