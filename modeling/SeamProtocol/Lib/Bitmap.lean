import Mathlib.Tactic

/-! # Bitmaps stored in 64-bit words

A bitmap of `64 * n` bits is a vector of `n` words, bit `p` being bit `p % 64` of word `p / 64`. -/

namespace Lib

abbrev Bitmap (n : Nat) := Vector (BitVec 64) n

namespace Bitmap

variable {n : Nat}

/-- Bit `p` of a bitmap; positions past the end read as `false`. -/
def bit (b : Bitmap n) (p : Nat) : Bool :=
  if h : p / 64 < n then b[p / 64].getLsbD (p % 64) else false

def test (b : Bitmap n) (p : Nat) : Bool :=
  if h : p / 64 < n then b[p / 64] &&& 1#64 <<< (p % 64) != 0#64 else false

def setBit (b : Bitmap n) (p : Nat) : Bitmap n :=
  if h : p / 64 < n then b.set (p / 64) (b[p / 64] ||| 1#64 <<< (p % 64)) h else b

/-- Shift towards position `0` by `k` bits: each word is put together from the word `k / 64` places
further on and, unless `k` is a multiple of 64, the low bits of the next. -/
def shiftDown (b : Bitmap n) (k : Nat) : Bitmap n :=
  Vector.ofFn fun i =>
    if h : i.val + k / 64 < n then
      if h' : 0 < k % 64 ∧ i.val + k / 64 + 1 < n then
        b[i.val + k / 64] >>> (k % 64) ||| b[i.val + k / 64 + 1] <<< (64 - k % 64)
      else b[i.val + k / 64] >>> (k % 64)
    else 0

def zero : Bitmap n := Vector.replicate n 0

@[simp] theorem bit_zero (p : Nat) : bit (zero : Bitmap n) p = false := by
  simp [bit, zero]

variable (b : Bitmap n)

open BitVec

@[simp] theorem test_eq_bit (p : Nat) : b.test p = b.bit p := by
  have hj : p % 64 < 64 := Nat.mod_lt _ (by decide)
  have htwo : twoPow 64 (p % 64) ≠ 0#64 := by
    intro h
    have := congrArg (fun v => v.getLsbD (p % 64)) h
    simp [Nat.not_le.mpr hj] at this
  unfold test bit
  by_cases h : p / 64 < n
  · rw [dif_pos h, dif_pos h, ← twoPow_eq, and_twoPow]
    cases b[p / 64].getLsbD (p % 64) <;> simp [htwo]
  · simp [h]

theorem bit_setBit {p : Nat} (hp : p / 64 < n) (q : Nat) :
    (b.setBit p).bit q = (b.bit q || decide (q = p)) := by
  unfold setBit bit
  rw [dif_pos hp]
  by_cases hq : q / 64 < n
  · rw [dif_pos hq, dif_pos hq]
    by_cases hw : p / 64 = q / 64
    · -- same word: compare the offsets inside it
      have hqp : q % 64 = p % 64 ↔ q = p := by omega
      have hlt : q % 64 < 64 := Nat.mod_lt _ (by decide)
      simp only [hw, Vector.getElem_set_self, getLsbD_or]
      rw [← twoPow_eq, getLsbD_twoPow]
      by_cases h : q = p
      · subst h
        simp [hlt]
      · have hne : p % 64 ≠ q % 64 := fun he => h (hqp.mp he.symm)
        simp [h, hne]
    · have h : q ≠ p := fun he => hw (by rw [he])
      simp only [Vector.getElem_set_ne _ _ hw, h, decide_false, Bool.or_false]
  · have h : q ≠ p := fun he => hq (by rw [he]; exact hp)
    simp [hq, h]

theorem bit_shiftDown (k : Nat) {p : Nat} (hp : p / 64 < n) :
    (b.shiftDown k).bit p = b.bit (p + k) := by
  have hj : p % 64 < 64 := Nat.mod_lt _ (by decide)
  unfold shiftDown bit
  rw [dif_pos hp]
  rw [Vector.getElem_ofFn]
  by_cases hcarry : p % 64 + k % 64 < 64
  · -- the bit comes from the first of the two words
    have hword : (p + k) / 64 = p / 64 + k / 64 := by omega
    have hoff : (p + k) % 64 = k % 64 + p % 64 := by omega
    have hlow : p % 64 < 64 - k % 64 := by omega
    rw [hword, hoff]
    by_cases hsrc : p / 64 + k / 64 < n
    · rw [dif_pos hsrc, dif_pos hsrc]
      split <;> simp [hlow]
    · rw [dif_neg hsrc, dif_neg hsrc]
      simp
  · -- the bit comes from the word after it
    have hword : (p + k) / 64 = p / 64 + k / 64 + 1 := by omega
    have hoff : (p + k) % 64 = p % 64 - (64 - k % 64) := by omega
    have hhigh : ¬ p % 64 < 64 - k % 64 := by omega
    have hpos : 0 < k % 64 := by omega
    have hpast : 64 ≤ k % 64 + p % 64 := by omega
    rw [hword, hoff]
    by_cases hsrc : p / 64 + k / 64 + 1 < n
    · rw [dif_pos (Nat.lt_of_succ_lt hsrc), dif_pos ⟨hpos, hsrc⟩, dif_pos hsrc]
      simp only [getLsbD_or, getLsbD_ushiftRight, getLsbD_shiftLeft,
        getLsbD_of_ge _ _ hpast, hhigh, hj, decide_true, decide_false, Bool.not_false,
        Bool.true_and, Bool.false_or]
    · split
      · rw [dif_neg (fun h => hsrc h.2)]
        simp [getLsbD_of_ge _ _ hpast]
      · simp

end Bitmap

end Lib
