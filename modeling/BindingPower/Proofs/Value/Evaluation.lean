import BindingPower.Proofs.Lexer.Numerals
import BindingPower.Standard.Tables
import Mathlib.Algebra.Ring.Int.Parity

/-! What trees stand for: the operands computed from left to right, then the operator on them. Over
numbers nothing goes wrong in this but arithmetic. -/
namespace BindingPower.Value

/-- What a sign does. -/
def signMeaning : String → Value → Except Fault Value
  | "+" => pos
  | _ => neg

/-- What an operator between two operands does. -/
def infixMeaning : String → Value → Value → Except Fault Value
  | "+" => add
  | "-" => sub
  | "*" => mul
  | "/" => div
  | "^" => pow
  | "=" => Value.eq
  | op => Standard.comparison op

/-- What a tree computes, given what its leaves stand for. Both branches of a choice are computed,
before one of them is chosen. -/
def evaluate (leaf : Value → Except Fault Value) : Value → Except Fault Value
  | unary (text op) v => do
    let x ← evaluate leaf v
    signMeaning op x
  | binary (text op) v w => do
    let x ← evaluate leaf v
    let y ← evaluate leaf w
    infixMeaning op x y
  | choice c v w => do
    let b ← evaluate leaf c
    let x ← evaluate leaf v
    let y ← evaluate leaf w
    choose b x (some y)
  | v => leaf v

/-- The floating number that reading the digits of a natural one after the other makes. -/
def accumulate (n : Nat) : Except Fault Value :=
  if n < 10 then (Scalar.int n).real.map .float else do
    let v ← accumulate (n / 10)
    v.appendDigit (n % 10 : Nat)

theorem accumulate_of_lt {d : Nat} (h : d < 10) :
    accumulate d = (Scalar.int d).real.map .float := by
  rw [accumulate, if_pos h]

/-- Also a digit after zero is one more place. -/
theorem accumulate_snoc (n : Nat) {d : Nat} (h : d < 10) :
    accumulate (n * 10 + d) = accumulate n >>= fun v => v.appendDigit d := by
  cases n with
  | zero =>
    rw [Nat.zero_mul, Nat.zero_add, accumulate_of_lt h, accumulate_of_lt (by decide : 0 < 10)]
    match d, h with
    | 0, _ | 1, _ | 2, _ | 3, _ | 4, _ | 5, _ | 6, _ | 7, _ | 8, _ | 9, _ => rfl
  | succ n =>
    have hlarge : ¬(n + 1) * 10 + d < 10 := by omega
    have hquot : ((n + 1) * 10 + d) / 10 = n + 1 := by omega
    have hrem : ((n + 1) * 10 + d) % 10 = d := by omega
    rw [accumulate, if_neg hlarge, hquot, hrem]

/-- Numbers read digit by digit. -/
def digitLeaf : Value → Except Fault Value
  | number (int n) => accumulate n.toNat
  | v => .ok v

/-- Numbers as they are, and the two words for truth values. -/
def wordLeaf : Value → Except Fault Value
  | number v => .ok v
  | name (text "true") => .ok (bool true)
  | name (text "false") => .ok (bool false)
  | v => .ok v

/-! Numbers -/

/-- A number or truth value, or a failure of arithmetic. -/
def Numeric : Except Fault Value → Prop
  | .ok v => v.scalar?.isSome = true
  | .error f => f.isArithmetic = true

theorem Numeric.bind {α : Type} {r : Except Fault α} {g : α → Except Fault Value}
    (herror : ∀ f, r = .error f → f.isArithmetic = true) (hok : ∀ a, r = .ok a → Numeric (g a)) :
    Numeric (r >>= g) := by
  cases r with
  | ok a => exact hok a rfl
  | error f => exact herror f rfl

theorem Numeric.andThen {r : Except Fault Value} {g : Value → Except Fault Value} (hr : Numeric r)
    (hg : ∀ v, v.scalar?.isSome = true → Numeric (g v)) : Numeric (r >>= g) := by
  cases r with
  | ok v => exact hg v hr
  | error f => exact hr

namespace Scalar

theorem isArithmetic_of_real {x : Scalar} {f : Fault} (h : x.real = .error f) :
    f.isArithmetic = true := by
  unfold real at h
  split at h
  · split at h
    · cases h
    · cases h
      rfl
  · cases h
  · cases h

private theorem isArithmetic_of_toComplex {x : Scalar} {f : Fault} (h : x.toComplex = .error f) :
    f.isArithmetic = true := by
  have hmap : x.real.map Number.ComplexFloat.ofReal = .error f → f.isArithmetic = true := by
    intro hx
    cases hr : x.real with
    | error g =>
      rw [hr] at hx
      cases hx
      exact isArithmetic_of_real hr
    | ok y =>
      rw [hr] at hx
      cases hx
  cases x with
  | int i => exact hmap h
  | float y => exact hmap h
  | complex z => cases h

variable {ints : Int → Int → Except Fault Value} {reals : Float → Float → Except Fault Value}
  {complexes : Number.ComplexFloat → Number.ComplexFloat → Except Fault Value}

/-- An operation on numbers of any kinds goes by the kind they share. -/
theorem numeric_combine (hints : ∀ i j, Numeric (ints i j)) (hreals : ∀ x y, Numeric (reals x y))
    (hcomplexes : ∀ z w, Numeric (complexes z w)) (x y : Scalar) :
    Numeric (combine ints reals complexes x y) := by
  have hreal : ∀ x y : Scalar, Numeric (do reals (← x.real) (← y.real)) := fun x y =>
    .bind (fun _ => isArithmetic_of_real) fun _ _ => .bind (fun _ => isArithmetic_of_real)
      fun _ _ => hreals _ _
  have hcomplex : ∀ x y : Scalar, Numeric (do complexes (← x.toComplex) (← y.toComplex)) :=
    fun x y => .bind (fun _ => isArithmetic_of_toComplex) fun _ _ =>
      .bind (fun _ => isArithmetic_of_toComplex) fun _ _ => hcomplexes _ _
  cases x with
  | int i =>
    cases y with
    | int j => exact hints i j
    | float y => exact hreal (int i) (float y)
    | complex w => exact hcomplex (int i) (complex w)
  | float x =>
    cases y with
    | int j => exact hreal (float x) (int j)
    | float y => exact hreal (float x) (float y)
    | complex w => exact hcomplex (float x) (complex w)
  | complex z =>
    cases y with
    | int j => exact hcomplex (complex z) (int j)
    | float y => exact hcomplex (complex z) (float y)
    | complex w => exact hcomplex (complex z) (complex w)

private theorem numeric_divideInts (i j : Int) : Numeric (divideInts i j) := by
  unfold divideInts
  split
  · rfl
  · split <;> rfl

private theorem numeric_powComplex (z w : Number.ComplexFloat) : Numeric (powComplex z w) := by
  unfold powComplex
  split
  · rfl
  · split <;> rfl

private theorem numeric_powReals (x y : Float) : Numeric (powReals x y) := by
  unfold powReals
  split
  · rfl
  · exact numeric_powComplex _ _
  · rfl
  · rfl

/-- The bases that are told apart have the power that they would have anyway. -/
theorem powNat_eq (i : Int) (n : Nat) : powNat i n = i ^ n := by
  rw [powNat]
  split
  · subst n
    exact (pow_zero i).symm
  · have hn : n ≠ 0 := ‹_›
    split
    · obtain rfl | rfl : i = 0 ∨ i = 1 := by simpa using ‹(decide (i = 0) || decide (i = 1)) = true›
      · exact (zero_pow hn).symm
      · exact (one_pow n).symm
    · split
      · subst i
        split
        · exact (Even.neg_one_pow (Nat.even_iff.2 ‹_›)).symm
        · exact (Odd.neg_one_pow (Nat.odd_iff.2 (Nat.mod_two_ne_zero.1 ‹_›))).symm
      · rfl

/-- A power of ten with more places than are written. -/
theorem isLong_powNat {n : Nat} (h : digitLimit ≤ n) : Number.isLong (powNat 10 n) = true := by
  rw [powNat_eq, Number.isLong_iff, Int.natAbs_pow]
  exact Nat.pow_le_pow_right (by decide) h

private theorem numeric_powInts (i j : Int) : Numeric (powInts i j) := by
  unfold powInts
  split
  · rfl
  · exact .bind (fun _ => isArithmetic_of_real) fun _ _ => .bind (fun _ => isArithmetic_of_real)
      fun _ _ => numeric_powReals _ _

private theorem numeric_add (x y : Scalar) : Numeric (x.add y) := by
  refine numeric_combine (fun _ _ => ?_) (fun _ _ => ?_) (fun _ _ => ?_) x y <;> rfl

private theorem numeric_sub (x y : Scalar) : Numeric (x.sub y) := by
  refine numeric_combine (fun _ _ => ?_) (fun _ _ => ?_) (fun _ _ => ?_) x y <;> rfl

private theorem numeric_mul (x y : Scalar) : Numeric (x.mul y) := by
  refine numeric_combine (fun _ _ => ?_) (fun _ _ => ?_) (fun _ _ => ?_) x y <;> rfl

private theorem numeric_div (x y : Scalar) : Numeric (x.div y) := by
  refine numeric_combine numeric_divideInts (fun x y => ?_) (fun z w => ?_) x y
  · split <;> rfl
  · split <;> rfl

private theorem numeric_pow (x y : Scalar) : Numeric (x.pow y) :=
  numeric_combine numeric_powInts numeric_powReals numeric_powComplex x y

end Scalar

variable {v w : Value}

/-- The operators of arithmetic stay with numbers. -/
theorem numeric_infixMeaning {op : String} (hop : op ∈ ["+", "-", "*", "/", "^", "="])
    (hv : v.scalar?.isSome = true) (hw : w.scalar?.isSome = true) :
    Numeric (infixMeaning op v w) := by
  obtain ⟨x, hx⟩ := Option.isSome_iff_exists.1 hv
  obtain ⟨y, hy⟩ := Option.isSome_iff_exists.1 hw
  have hadd : Numeric (v.add w) := by
    simp only [add, hx, hy]
    exact x.numeric_add y
  have hsub : Numeric (v.sub w) := by
    simp only [sub, hx, hy]
    exact x.numeric_sub y
  have hmul : Numeric (v.mul w) := by
    simp only [mul, hx, hy]
    exact x.numeric_mul y
  have hdiv : Numeric (v.div w) := by
    simp only [div, hx, hy]
    exact x.numeric_div y
  have hpow : Numeric (v.pow w) := by
    simp only [pow, hx, hy]
    exact x.numeric_pow y
  have heq : Numeric (v.eq w) := rfl
  simp only [List.mem_cons, List.not_mem_nil, or_false] at hop
  rcases hop with rfl | rfl | rfl | rfl | rfl | rfl
  · exact hadd
  · exact hsub
  · exact hmul
  · exact hdiv
  · exact hpow
  · exact heq

theorem numeric_signMeaning (op : String) (hv : v.scalar?.isSome = true) :
    Numeric (signMeaning op v) := by
  obtain ⟨x, hx⟩ := Option.isSome_iff_exists.1 hv
  have hpos : Numeric v.pos := by
    cases x <;> simp only [pos, hx] <;> first | rfl | exact hv
  have hneg : Numeric v.neg := by
    cases x <;> simp only [neg, hx] <;> rfl
  unfold signMeaning
  split
  · exact hpos
  · exact hneg

theorem numeric_appendDigit (hv : v.scalar?.isSome = true) (d : Int) :
    Numeric (v.appendDigit d) := by
  have hmul : Numeric (infixMeaning "*" v (int 10)) := numeric_infixMeaning (by decide) hv rfl
  refine hmul.andThen fun u hu => ?_
  have hadd : Numeric (infixMeaning "+" u (int d)) := numeric_infixMeaning (by decide) hu rfl
  exact hadd

theorem numeric_accumulate (n : Nat) : Numeric (accumulate n) := by
  induction n using Nat.strongRecOn with
  | ind n ih =>
    rw [accumulate]
    split
    · cases hr : (Scalar.int n).real with
      | ok x => rfl
      | error f => exact Scalar.isArithmetic_of_real hr
    · exact (ih (n / 10) (by omega)).andThen fun u hu => numeric_appendDigit hu _

end BindingPower.Value
