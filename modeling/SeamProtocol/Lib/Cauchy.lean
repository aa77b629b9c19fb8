import Mathlib.Algebra.Polynomial.Roots
import Mathlib.Tactic

/-! # Cauchy systems

A square matrix with entries `1 / (x i - y j)`, for distinct `x`, distinct `y` and `x i ≠ y j`, has only
the trivial kernel, and every square part of it is again one. -/

namespace Lib

open Polynomial Finset

variable {K ι : Type*} [Field K] [Fintype ι] [DecidableEq ι]

noncomputable def cauchyNumerator (y v : ι → K) : K[X] :=
  ∑ j, C (v j) * ∏ l ∈ Finset.univ.erase j, (X - C (y l))

theorem natDegree_cauchyNumerator_lt [Nonempty ι] (y v : ι → K) :
    (cauchyNumerator y v).natDegree < Fintype.card ι := by
  have hpos : 0 < Fintype.card ι := Fintype.card_pos
  suffices hle : (cauchyNumerator y v).natDegree ≤ Fintype.card ι - 1 by omega
  refine natDegree_sum_le_of_forall_le _ _ fun j _ => ?_
  refine (natDegree_C_mul_le _ _).trans (le_of_eq ?_)
  simp [card_erase_of_mem, card_univ]

theorem eval_cauchyNumerator (y v : ι → K) {x : K} (hx : ∀ l, x ≠ y l) :
    (cauchyNumerator y v).eval x = (∏ l, (x - y l)) * ∑ j, (x - y j)⁻¹ * v j := by
  unfold cauchyNumerator
  rw [eval_finsetSum, mul_sum]
  refine sum_congr rfl fun j _ => ?_
  rw [eval_mul, eval_C, eval_prod, ← mul_prod_erase _ _ (mem_univ j)]
  simp only [eval_sub, eval_X, eval_C]
  field_simp [sub_ne_zero.mpr (hx j)]

theorem eval_cauchyNumerator_pole (y v : ι → K) (j : ι) :
    (cauchyNumerator y v).eval (y j) = v j * ∏ l ∈ Finset.univ.erase j, (y j - y l) := by
  unfold cauchyNumerator
  rw [eval_finsetSum, sum_eq_single j]
  · rw [eval_mul, eval_C, eval_prod]
    simp
  · intro i _ hij
    -- the factor of pole `j` is in the product of every other summand
    rw [eval_mul, eval_prod, prod_eq_zero (mem_erase.mpr ⟨hij.symm, mem_univ j⟩),
      mul_zero]
    simp
  · intro hj
    exact absurd (mem_univ j) hj

variable {v : ι → K}

theorem eq_zero_of_cauchy {x y : ι → K} (hx : Function.Injective x) (hy : Function.Injective y)
    (hxy : ∀ i j, x i ≠ y j) (h : ∀ i, ∑ j, (x i - y j)⁻¹ * v j = 0) : v = 0 := by
  funext j
  have hne : Nonempty ι := ⟨j⟩
  have hzero : cauchyNumerator y v = 0 := by
    refine eq_zero_of_natDegree_lt_card_of_eval_eq_zero _ hx (fun i => ?_)
      (natDegree_cauchyNumerator_lt y v)
    rw [eval_cauchyNumerator y v (hxy i), h i, mul_zero]
  have hpole := eval_cauchyNumerator_pole y v j
  rw [hzero, eval_zero] at hpole
  refine (mul_eq_zero.mp hpole.symm).resolve_right (prod_ne_zero_iff.mpr fun l hl => ?_)
  exact sub_ne_zero.mpr (hy.ne (ne_of_mem_erase hl).symm)

/-- **Rows of the identity and of a Cauchy matrix have a trivial kernel together.** Row `i` is the unit
row of `i` or, unless `i` is held, the Cauchy row of `x i`. -/
theorem eq_zero_of_unit_or_cauchy {m : ι → ι → K} (held : ι → Prop) [DecidablePred held] (x y : ι → K)
    (hunit : ∀ i, held i → ∀ j, m i j = if i = j then 1 else 0)
    (hrow : ∀ i, ¬held i → ∀ j, m i j = (x i - y j)⁻¹)
    (hx : ∀ i i', ¬held i → ¬held i' → x i = x i' → i = i') (hy : Function.Injective y)
    (hxy : ∀ i j, ¬held i → x i ≠ y j) (h : ∀ i, ∑ j, m i j * v j = 0) : v = 0 := by
  have hheld : ∀ i, held i → v i = 0 := by
    intro i hi
    have hsum := h i
    simp only [hunit i hi, ite_mul, one_mul, zero_mul, sum_ite_eq, mem_univ, if_true]
      at hsum
    exact hsum
  -- in the other rows only the columns that are not held are left
  have hrest : (fun i : {i // ¬held i} => v i) = 0 := by
    refine eq_zero_of_cauchy (x := fun i : {i // ¬held i} => x i) (y := fun i => y i)
      (fun i i' heq => Subtype.ext (hx i i' i.2 i'.2 heq)) (hy.comp Subtype.val_injective)
      (fun i j => hxy i j i.2) fun i => ?_
    have hsum := h i
    simp only [hrow i i.2] at hsum
    rw [← sum_subtype (Finset.univ.filter fun j => ¬held j) (by simp)
      fun j => (x i - y j)⁻¹ * v j, ← hsum]
    refine sum_filter_of_ne fun j _ hne hj => hne ?_
    rw [hheld j hj, mul_zero]
  funext i
  by_cases hi : held i
  · exact hheld i hi
  · exact congrFun hrest ⟨i, hi⟩

end Lib
