import Mathlib.Algebra.Group.Nat.Defs
import Mathlib.Data.Nat.Find

/-! # Binary floating point

The facts of IEEE 754 that bounds from below need. How a result is rounded is left open, but rounding is
monotone, and a comparison with NaN fails. -/

namespace Lib

/-- The operations of `f64`. -/
class F64 (F : Type) extends Add F, Sub F, Mul F, Div F, OfScientific F where
  /-- `n as f64`. -/
  ofNat : Nat → F
  /-- `x as u64`. -/
  toNat : F → Nat
  lt : F → F → Bool
  le : F → F → Bool
  fmax : F → F → F
  fmin : F → F → F
  cbrt : F → F
  powi : F → Nat → F
  maxValue : F

namespace F64

variable {F : Type} [F64 F]

def AtLeast (n : Nat) (x : F) : Prop := le (ofNat n) x = true

/-- Facts of binary64: numbers up to `2 ^ 53` are exact, and rounding is monotone. -/
class Lawful (F : Type) [F64 F] : Prop where
  literal : ∀ n, n ≤ 2 ^ 49 → (OfScientific.ofScientific (n * 10) true 1 : F) = ofNat n
  ofNat_mul : ∀ m n, m * n ≤ 2 ^ 53 → (ofNat m * ofNat n : F) = ofNat (m * n)
  atLeast_ofNat : ∀ m n, m ≤ n → AtLeast m (ofNat n : F)
  toNat_ofNat : ∀ n, n ≤ 2 ^ 53 → toNat (ofNat n : F) = n
  le_toNat : ∀ (x : F) n, n ≤ 2 ^ 53 → AtLeast n x → n ≤ toNat x
  add : ∀ (x y : F) n, AtLeast n x → AtLeast 0 y → AtLeast n (x + y)
  sub : ∀ x y : F, lt x y = true → AtLeast 0 (y - x)
  max_left : ∀ (x y : F) n, AtLeast n x → AtLeast n (fmax x y)
  max_right : ∀ (x y : F) n, AtLeast n y → AtLeast n (fmax x y)
  min : ∀ (x y : F), AtLeast 0 x → AtLeast 0 y → AtLeast 0 (fmin x y) ∧ le (fmin x y) y = true
  mul_div : ∀ (x y : F) m n k, AtLeast 0 x → le x (ofNat m) = true → m ≤ 2 ^ 53 → n < 2 ^ 64 →
    0 < k → AtLeast k y → AtLeast 0 (x * ofNat n / y)

def ofNanos (nanos : Nat) : F := ofNat (nanos / 10 ^ 9) + ofNat (nanos % 10 ^ 9) / ofNat (10 ^ 9)

/-- The type of binary64 numbers; `powi` multiplies. -/
instance : F64 Float where
  ofNat n := (UInt64.ofNat n).toFloat
  toNat x := x.toUInt64.toNat
  lt x y := decide (x < y)
  le x y := decide (x ≤ y)
  fmax x y := if x.isNaN || x < y then y else x
  fmin x y := if x.isNaN || y < x then y else x
  cbrt := Float.cbrt
  powi x n := n.repeat (· * x) 1.0
  maxValue := Float.ofBits 0x7fefffffffffffff

/-- Natural numbers in the place of floating point: nothing is rounded but quotients and roots. -/
instance : F64 Nat where
  ofScientific m s e := if s then m / 10 ^ e else m * 10 ^ e
  ofNat := id
  toNat := id
  lt x y := x < y
  le x y := x ≤ y
  fmax := max
  fmin := min
  cbrt x := Nat.findGreatest (· ^ 3 ≤ x) x
  powi := (· ^ ·)
  maxValue := 2 ^ 1024

theorem atLeast_nat {n x : Nat} : AtLeast n x ↔ n ≤ x := decide_eq_true_iff

instance : Lawful Nat where
  literal n _ := by simp [OfScientific.ofScientific, ofNat]
  ofNat_mul _ _ _ := rfl
  atLeast_ofNat _ _ := atLeast_nat.mpr
  toNat_ofNat _ _ := rfl
  le_toNat _ _ _ := atLeast_nat.mp
  add _ _ _ h _ := atLeast_nat.mpr (Nat.le_add_right_of_le (atLeast_nat.mp h))
  sub _ _ _ := atLeast_nat.mpr (Nat.zero_le _)
  max_left _ _ _ h := atLeast_nat.mpr (Nat.le_trans (atLeast_nat.mp h) (Nat.le_max_left _ _))
  max_right _ _ _ h := atLeast_nat.mpr (Nat.le_trans (atLeast_nat.mp h) (Nat.le_max_right _ _))
  min x y _ _ := ⟨atLeast_nat.mpr (Nat.zero_le _), decide_eq_true (Nat.min_le_right x y)⟩
  mul_div _ _ _ _ _ _ _ _ _ _ _ := atLeast_nat.mpr (Nat.zero_le _)

end F64

end Lib
