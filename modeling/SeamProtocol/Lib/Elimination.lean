import Mathlib.Algebra.BigOperators.Fin
import Mathlib.Algebra.BigOperators.Field
import Mathlib.LinearAlgebra.Matrix.NonsingularInverse
import Mathlib.Tactic

/-! # Gaussian elimination with vectors on the right

The right sides are lists, which are combined like the rows of the matrix; an elimination that would
combine lists of different lengths does not return. -/

namespace Lib

open List

structure System (K : Type*) (k : Nat) where
  mat : Fin k → Fin k → K
  rhs : Fin k → List K

namespace System

variable {K : Type*} [Field K] [DecidableEq K] {k : Nat}

/-! ## The algorithm -/

/-- The first row from `col` on with an entry in the column. -/
def pivot (s : System K k) (col : Fin k) : Option (Fin k) :=
  (List.finRange k).find? fun r => col ≤ r && decide (s.mat r col ≠ 0)

def swap (s : System K k) (i j : Fin k) : System K k where
  mat := s.mat ∘ Equiv.swap i j
  rhs := s.rhs ∘ Equiv.swap i j

def scale (s : System K k) (col : Fin k) : System K k where
  mat r j := if r = col then s.mat col j * (s.mat col col)⁻¹ else s.mat r j
  rhs r := if r = col then (s.rhs col).map (· * (s.mat col col)⁻¹) else s.rhs r

def Misfit (s : System K k) (col : Fin k) : Prop :=
  ∃ r, r ≠ col ∧ s.mat r col ≠ 0 ∧ (s.rhs r).length ≠ (s.rhs col).length

instance (s : System K k) (col : Fin k) : Decidable (s.Misfit col) :=
  inferInstanceAs (Decidable (∃ r, r ≠ col ∧ s.mat r col ≠ 0 ∧
    (s.rhs r).length ≠ (s.rhs col).length))

/-- Subtract multiples of a row from all others, such that only its own entry is left in the column. -/
def clear (s : System K k) (col : Fin k) : System K k where
  mat r j := if r = col then s.mat r j else s.mat r j - s.mat r col * s.mat col j
  rhs r := if r = col ∨ s.mat r col = 0 then s.rhs r
    else List.zipWith (fun dst src => dst - s.mat r col * src) (s.rhs r) (s.rhs col)

/-- Treat the columns one by one. The outer `none` is a combination of rows that do not fit, the inner
one a column without a pivot. -/
def eliminateColumns : List (Fin k) → System K k → Option (Option (System K k))
  | [], s => some (some s)
  | col :: rest, s =>
    match s.pivot col with
    | none => some none
    | some p =>
      let s := (s.swap col p).scale col
      if s.Misfit col then none else eliminateColumns rest (s.clear col)

def eliminate (s : System K k) : Option (Option (System K k)) := eliminateColumns (List.finRange k) s

/-! ## The rule of invariants -/

def reduced (s : System K k) (col p : Fin k) : System K k := ((s.swap col p).scale col).clear col

variable {s : System K k}

/-- **What an elimination can do**, for an invariant `I c` that holds before column `c` is treated. -/
theorem eliminate_cases (I : Nat → System K k → Prop)
    (hstep : ∀ (col : Fin k) s p, I col s → s.pivot col = some p → ¬ ((s.swap col p).scale col).Misfit col → I (col + 1) (s.reduced col p))
    (h : I 0 s) :
    (∃ s', s.eliminate = some (some s') ∧ I k s') ∨
    (s.eliminate = some none ∧ ∃ (col : Fin k) (s' : System K k), I col s' ∧ s'.pivot col = none) ∨
    (s.eliminate = none ∧ ∃ (col : Fin k) (s' : System K k) (p : Fin k), I col s' ∧
      s'.pivot col = some p ∧ ((s'.swap col p).scale col).Misfit col) := by
  -- the columns from `c` on are left
  have hfrom : ∀ (n c : Nat) (s : System K k), c + n = k → I c s →
      (∃ s', eliminateColumns ((finRange k).drop c) s = some (some s') ∧ I k s') ∨
      (eliminateColumns ((finRange k).drop c) s = some none ∧
        ∃ (col : Fin k) (s' : System K k), I col s' ∧ s'.pivot col = none) ∨
      (eliminateColumns ((finRange k).drop c) s = none ∧
        ∃ (col : Fin k) (s' : System K k) (p : Fin k), I col s' ∧ s'.pivot col = some p ∧
          ((s'.swap col p).scale col).Misfit col) := by
    intro n
    induction n with
    | zero =>
      intro c s hc h
      rw [drop_eq_nil_of_le (by rw [length_finRange]; omega)]
      have hck : c = k := hc
      exact .inl ⟨s, rfl, hck ▸ h⟩
    | succ n ih =>
      intro c s hc h
      have hlt : c < k := by omega
      have hdrop : (finRange k).drop c = ⟨c, hlt⟩ :: (finRange k).drop (c + 1) := by
        rw [drop_eq_getElem_cons (by rw [length_finRange]; exact hlt)]
        simp
      rw [hdrop, eliminateColumns]
      cases hp : s.pivot ⟨c, hlt⟩ with
      | none => exact .inr (.inl ⟨rfl, ⟨c, hlt⟩, s, h, hp⟩)
      | some p =>
        dsimp only
        split_ifs with hfit
        · exact .inr (.inr ⟨rfl, ⟨c, hlt⟩, s, p, h, hp, hfit⟩)
        · exact ih (c + 1) _ (by omega) (hstep ⟨c, hlt⟩ s p h hp hfit)
  have hall := hfrom k 0 s (Nat.zero_add k) h
  exact hall

variable {col p : Fin k}

theorem pivot_eq_some (h : s.pivot col = some p) : col ≤ p ∧ s.mat p col ≠ 0 := by
  have hp := find?_some h
  simpa using hp

theorem pivot_eq_none (h : s.pivot col = none) (r : Fin k) (hr : col ≤ r) : s.mat r col = 0 := by
  have hnone := find?_eq_none.mp h r (mem_finRange r)
  by_contra hne
  exact hnone (by simp [hr, hne])

/-! ## The matrix -/

def UnitBefore (s : System K k) (c : Nat) : Prop :=
  ∀ (r j : Fin k), (j : Nat) < c → s.mat r j = if r = j then 1 else 0

omit [Field K] [DecidableEq K] in
theorem swap_mat_left (s : System K k) (col p : Fin k) : (s.swap col p).mat col = s.mat p := by
  simp [swap]

theorem UnitBefore.reduced (h : s.UnitBefore col) (hp : s.pivot col = some p) :
    (s.reduced col p).UnitBefore (col + 1) := by
  obtain ⟨hle, hne⟩ := pivot_eq_some hp
  -- rows from `col` on have no entries in the columns before it
  have hrow : ∀ (j : Fin k), j < col → ∀ r, (s.swap col p).mat r j = if r = j then 1 else 0 := by
    intro j hj r
    show s.mat (Equiv.swap col p r) j = _
    rw [h _ j hj]
    by_cases hrcol : r = col
    · subst hrcol
      rw [Equiv.swap_apply_left, if_neg (by rintro rfl; exact absurd hj (not_lt.mpr hle)),
        if_neg hj.ne']
    · by_cases hrp : r = p
      · subst hrp
        rw [Equiv.swap_apply_right, if_neg hj.ne', if_neg (by rintro rfl; exact absurd hj (not_lt.mpr hle))]
      · rw [Equiv.swap_apply_of_ne_of_ne hrcol hrp]
  have hdiag : (s.swap col p).mat col col ≠ 0 := by
    rw [swap_mat_left]
    exact hne
  intro r j hj
  unfold System.reduced clear scale
  rcases Nat.lt_succ_iff_lt_or_eq.mp hj with hlt | heq
  · have hlt' : j < col := hlt
    simp only [hrow j hlt', hlt'.ne', if_false, if_true]
    split_ifs <;> simp_all
  · have heq' : j = col := Fin.ext heq
    subst heq'
    by_cases hr : r = j
    · simp [hr, hdiag]
    · simp [hr, hdiag]

def Regular (s : System K k) : Prop :=
  ∀ v : Fin k → K, (∀ r, ∑ j, s.mat r j * v j = 0) → v = 0

theorem sum_reduced (col p r : Fin k) (v : Fin k → K) :
    ∑ j, (s.reduced col p).mat r j * v j =
      if r = col then (∑ j, s.mat p j * v j) * (s.mat p col)⁻¹
      else ∑ j, (s.swap col p).mat r j * v j
        - (s.swap col p).mat r col * (s.mat p col)⁻¹ * ∑ j, s.mat p j * v j := by
  by_cases hr : r = col
  · simp only [System.reduced, clear, scale, swap_mat_left, hr, if_true]
    rw [Finset.sum_mul]
    exact Finset.sum_congr rfl fun j _ => by ring
  · simp only [System.reduced, clear, scale, swap_mat_left, hr, if_true, if_false]
    rw [Finset.mul_sum, ← Finset.sum_sub_distrib]
    exact Finset.sum_congr rfl fun j _ => by ring

theorem Regular.reduced (h : s.Regular) (hp : s.pivot col = some p) : (s.reduced col p).Regular := by
  obtain ⟨-, hne⟩ := pivot_eq_some hp
  intro v hv
  simp only [sum_reduced] at hv
  -- the pivot row kills `v`, and then so does every other one
  have hcol : ∑ j, s.mat p j * v j = 0 := by
    have hscaled := hv col
    rw [if_pos rfl] at hscaled
    exact (mul_eq_zero.mp hscaled).resolve_right (inv_ne_zero hne)
  have hall : ∀ r, ∑ j, (s.swap col p).mat r j * v j = 0 := by
    intro r
    by_cases hr : r = col
    · rw [hr, swap_mat_left]
      exact hcol
    · have hcleared := hv r
      rw [if_neg hr, hcol, mul_zero, sub_zero] at hcleared
      exact hcleared
  refine h v fun r => ?_
  have hr := hall (Equiv.swap col p r)
  simp only [swap, Function.comp_apply, Equiv.swap_apply_self] at hr
  exact hr

theorem Regular.pivot_ne_none (h : s.Regular) (hunit : s.UnitBefore col) : s.pivot col ≠ none := by
  intro hnone
  -- otherwise the column is a combination of those before it
  have hv := h (fun j => if j < col then - s.mat j col else if j = col then 1 else 0) fun r => ?_
  · have hcol := congrFun hv col
    simp at hcol
  · rw [← Finset.add_sum_erase _ _ (Finset.mem_univ col)]
    by_cases hr : r < col
    · rw [← Finset.add_sum_erase _ _ (Finset.mem_erase.mpr ⟨hr.ne, Finset.mem_univ r⟩),
        Finset.sum_eq_zero fun j hj => ?_]
      · simp [hr, hunit r r hr]
      · obtain ⟨hjr, hj⟩ := Finset.mem_erase.mp hj
        have hjcol := Finset.ne_of_mem_erase hj
        by_cases hlt : j < col
        · simp [hunit r j hlt, Ne.symm hjr]
        · simp [hlt, hjcol]
    · rw [Finset.sum_eq_zero fun j hj => ?_]
      · simp [pivot_eq_none hnone r (not_lt.mp hr)]
      · have hjcol := Finset.ne_of_mem_erase hj
        by_cases hlt : j < col
        · have hjr : r ≠ j := by
            rintro rfl
            exact hr hlt
          simp [hunit r j hlt, hjr]
        · simp [hlt, hjcol]

/-! ## The right sides -/

def Uniform (s : System K k) (n : Nat) : Prop := ∀ r, (s.rhs r).length = n

variable {n : Nat}

theorem Uniform.reduced (h : s.Uniform n) (col p : Fin k) : (s.reduced col p).Uniform n := by
  have hscaled : ((s.swap col p).scale col).Uniform n := by
    intro r
    unfold scale
    dsimp only
    split_ifs
    · rw [length_map]
      exact h _
    · exact h _
  intro r
  unfold System.reduced clear
  dsimp only
  split_ifs
  · exact hscaled r
  · rw [length_zipWith, hscaled, hscaled, min_self]

omit [DecidableEq K] in
theorem Uniform.not_misfit (h : s.Uniform n) (col p : Fin k) :
    ¬ ((s.swap col p).scale col).Misfit col := by
  rintro ⟨r, hr, -, hlen⟩
  apply hlen
  simp only [scale, if_neg hr, if_true, length_map]
  exact (h _).trans (h _).symm

def combine (a : Fin k → K) (x : Fin k → List K) (n : Nat) : List K :=
  (List.range n).map fun t => ∑ j, a j * (x j).getD t 0

def Solution (s : System K k) (x : Fin k → List K) (n : Nat) : Prop :=
  ∀ r, s.rhs r = combine (s.mat r) x n

variable {x : Fin k → List K}

omit [DecidableEq K] in
theorem Solution.uniform (h : s.Solution x n) : s.Uniform n := by
  intro r
  simp [h r, combine]

omit [DecidableEq K] in
theorem map_mul_combine (a : Fin k → K) (x : Fin k → List K) (n : Nat) (c : K) :
    (combine a x n).map (· * c) = combine (fun j => a j * c) x n := by
  unfold combine
  rw [map_map]
  refine map_congr_left fun t _ => ?_
  rw [Function.comp_apply, Finset.sum_mul]
  exact Finset.sum_congr rfl fun j _ => by ring

omit [DecidableEq K] in
theorem zipWith_combine (a b : Fin k → K) (x : Fin k → List K) (n : Nat) (c : K) :
    zipWith (fun dst src => dst - c * src) (combine a x n) (combine b x n)
      = combine (fun j => a j - c * b j) x n := by
  unfold combine
  rw [zipWith_map, zipWith_self]
  refine map_congr_left fun t _ => ?_
  rw [Finset.mul_sum, ← Finset.sum_sub_distrib]
  exact Finset.sum_congr rfl fun j _ => by ring

omit [DecidableEq K] in
theorem Solution.scale (h : s.Solution x n) (col : Fin k) : (s.scale col).Solution x n := by
  intro r
  by_cases hr : r = col
  · subst hr
    simp only [System.scale, if_true]
    rw [h r, map_mul_combine]
  · simp only [System.scale, if_neg hr]
    exact h r

theorem Solution.clear (h : s.Solution x n) (col : Fin k) : (s.clear col).Solution x n := by
  intro r
  by_cases hr : r = col
  · subst hr
    simp only [System.clear, true_or, if_true]
    exact h r
  · by_cases hzero : s.mat r col = 0
    · simp only [System.clear, hr, hzero, or_true, if_true, if_false, zero_mul, sub_zero]
      exact h r
    · simp only [System.clear, hr, hzero, or_self, if_false]
      rw [h r, h col, zipWith_combine]

theorem Solution.reduced (h : s.Solution x n) (col p : Fin k) : (s.reduced col p).Solution x n := by
  have hswap : (s.swap col p).Solution x n := fun r => h (Equiv.swap col p r)
  exact (hswap.scale col).clear col

omit [DecidableEq K] in
theorem combine_unit {r : Fin k} (hlen : (x r).length = n) {a : Fin k → K}
    (ha : ∀ j, a j = if r = j then 1 else 0) : combine a x n = x r := by
  unfold combine
  refine ext_getElem (by rw [length_map, length_range, hlen]) fun t ht ht' => ?_
  rw [getElem_map, getElem_range]
  simp only [ha, ite_mul, one_mul, zero_mul, Finset.sum_ite_eq, Finset.mem_univ, if_true]
  exact (getElem_eq_getD 0).symm

/-! ## Results -/

theorem eliminate_of_solution (hreg : s.Regular) (hsol : s.Solution x n)
    (hlen : ∀ j, (x j).length = n) : ∃ s', s.eliminate = some (some s') ∧ s'.rhs = x := by
  rcases eliminate_cases (fun c s => s.UnitBefore c ∧ s.Regular ∧ s.Solution x n)
      (fun col s p h hp _ => ⟨h.1.reduced hp, h.2.1.reduced hp, h.2.2.reduced col p⟩)
      (s := s) ⟨fun _ _ hj => absurd hj (Nat.not_lt_zero _), hreg, hsol⟩ with
    ⟨s', heq, hunit, -, hsol'⟩ | ⟨-, col, s', ⟨hunit, hreg', -⟩, hnone⟩
      | ⟨-, col, s', p, ⟨-, -, hsol'⟩, -, hmisfit⟩
  · refine ⟨s', heq, funext fun r => ?_⟩
    rw [hsol' r, combine_unit (hlen r) fun j => hunit r j j.isLt]
  · exact absurd hnone (hreg'.pivot_ne_none hunit)
  · exact absurd hmisfit (hsol'.uniform.not_misfit col p)

theorem eliminate_ne_none (h : s.Uniform n) : s.eliminate ≠ none := by
  rcases eliminate_cases (fun _ s => s.Uniform n) (fun col s p h _ _ => h.reduced col p) h with
    ⟨s', heq, -⟩ | ⟨heq, -⟩ | ⟨-, col, s', p, h', -, hmisfit⟩
  · rw [heq]
    simp
  · rw [heq]
    simp
  · exact absurd hmisfit (h'.not_misfit col p)

theorem eliminate_ne_some_none (hreg : s.Regular) : s.eliminate ≠ some none := by
  rcases eliminate_cases (fun c s => s.UnitBefore c ∧ s.Regular)
      (fun col s p h hp _ => ⟨h.1.reduced hp, h.2.reduced hp⟩)
      (s := s) ⟨fun _ _ hj => absurd hj (Nat.not_lt_zero _), hreg⟩ with
    ⟨s', heq, -⟩ | ⟨-, col, s', ⟨hunit, hreg'⟩, hnone⟩ | ⟨heq, -⟩
  · rw [heq]
    simp
  · exact absurd hnone (hreg'.pivot_ne_none hunit)
  · rw [heq]
    simp

/-- The right side of every row is as long as the lists of the unknowns in it. -/
def Fits (s : System K k) (len : Fin k → Nat) : Prop :=
  ∀ r j, s.mat r j ≠ 0 → (s.rhs r).length = len j

theorem Fits.of_reduced {len : Fin k → Nat} (hp : s.pivot col = some p)
    (hfit : ¬ ((s.swap col p).scale col).Misfit col) (h : (s.reduced col p).Fits len) : s.Fits len := by
  obtain ⟨-, hne⟩ := pivot_eq_some hp
  have hdiag : (s.swap col p).mat col col ≠ 0 := by
    rw [swap_mat_left]
    exact hne
  -- before the multiples of the row were subtracted
  have hscaled : ((s.swap col p).scale col).Fits len := by
    intro r j hrj
    by_cases hr : r = col
    · subst hr
      have := h r j
      simp only [System.reduced, clear, true_or, if_true] at this
      exact this hrj
    · by_cases hzero : ((s.swap col p).scale col).mat r col = 0
      · have := h r j
        simp only [System.reduced, clear, hr, hzero, or_true, if_true, if_false, zero_mul, sub_zero]
          at this
        exact this hrj
      · have hlen : (((s.swap col p).scale col).rhs r).length
            = (((s.swap col p).scale col).rhs col).length := by
          by_contra hlen
          exact hfit ⟨r, hr, hzero, hlen⟩
        by_cases hrow : (s.reduced col p).mat r j = 0
        · -- the entry came from the pivot row
          have hcol : ((s.swap col p).scale col).mat col j ≠ 0 := by
            intro hcol
            simp only [System.reduced, clear, hr, if_false, hcol, mul_zero, sub_zero] at hrow
            exact hrj hrow
          have := h col j
          simp only [System.reduced, clear, true_or, if_true] at this
          rw [hlen]
          exact this hcol
        · have := h r j hrow
          simp only [System.reduced, clear, hr, hzero, or_self, if_false, length_zipWith, hlen,
            min_self] at this
          rw [hlen]
          exact this
  intro r j hrj
  have hrow := hscaled (Equiv.swap col p r) j
  by_cases hr : Equiv.swap col p r = col
  · rw [hr] at hrow
    simp only [scale, if_true, length_map, ne_eq, mul_eq_zero, inv_eq_zero, hdiag, or_false]
      at hrow
    simp only [swap, Function.comp_apply, Equiv.swap_apply_left] at hrow
    have hrp : r = p := by rw [← Equiv.swap_apply_self col p r, hr, Equiv.swap_apply_left]
    rw [hrp] at hrj ⊢
    exact hrow hrj
  · simp only [scale, if_neg hr, swap, Function.comp_apply, Equiv.swap_apply_self] at hrow
    exact hrow hrj

theorem unit_of_eliminate {s' : System K k} (h : s.eliminate = some (some s')) :
    s'.UnitBefore k ∧ s.Regular := by
  have hstep : ∀ (s : System K k) (v : Fin k → K) (col p : Fin k), (∀ r, ∑ j, s.mat r j * v j = 0) →
      ∀ r, ∑ j, (s.reduced col p).mat r j * v j = 0 := by
    intro s v col p hv r
    have hr : ∑ j, (s.swap col p).mat r j * v j = 0 := hv _
    rw [sum_reduced, hv p, hr, zero_mul, mul_zero, sub_zero, ite_self]
  rcases eliminate_cases (fun c s'' => s''.UnitBefore c ∧ ∀ v : Fin k → K,
        (∀ r, ∑ j, s.mat r j * v j = 0) → ∀ r, ∑ j, s''.mat r j * v j = 0)
      (fun col s'' p h hp _ => ⟨h.1.reduced hp, fun v hv => hstep s'' v col p (h.2 v hv)⟩) (s := s)
      ⟨fun _ _ hj => absurd hj (Nat.not_lt_zero _), fun _ hv => hv⟩ with
    ⟨s'', heq, hunit, hker⟩ | ⟨heq, -⟩ | ⟨heq, -⟩ <;> rw [h] at heq <;> cases heq
  refine ⟨hunit, fun v hv => funext fun r => ?_⟩
  have hr := hker v hv r
  simp only [hunit r _ (Fin.isLt _), ite_mul, one_mul, zero_mul, Finset.sum_ite_eq,
    Finset.mem_univ, if_true] at hr
  exact hr

theorem length_eq_of_eliminate {s' : System K k} (h : s.eliminate = some (some s')) :
    s.Fits fun j => (s'.rhs j).length := by
  have hunit := (unit_of_eliminate h).1
  have hfinal : s'.Fits fun j => (s'.rhs j).length := by
    intro r j hrj
    rw [hunit r j j.isLt] at hrj
    split_ifs at hrj with heq
    · rw [heq]
    · exact absurd rfl hrj
  -- backwards through the columns
  have hcols : ∀ (cols : List (Fin k)) (s : System K k),
      eliminateColumns cols s = some (some s') → s.Fits fun j => (s'.rhs j).length := by
    intro cols
    induction cols with
    | nil =>
      intro s hs
      cases hs
      exact hfinal
    | cons col rest ih =>
      intro s hs
      rw [eliminateColumns] at hs
      cases hp : s.pivot col with
      | none =>
        rw [hp] at hs
        cases hs
      | some p =>
        rw [hp] at hs
        dsimp only at hs
        split_ifs at hs with hmisfit
        exact Fits.of_reduced hp hmisfit (ih _ hs)
  exact hcols _ s h

/-! ## Matrices -/

omit [DecidableEq K] in
theorem regular_iff_isUnit (M : Matrix (Fin k) (Fin k) K) (rhs : Fin k → List K) :
    Regular ⟨M, rhs⟩ ↔ IsUnit M := by
  rw [← Matrix.mulVec_injective_iff_isUnit]
  refine Iff.trans ?_ (injective_iff_map_eq_zero M.mulVecLin).symm
  exact forall_congr' fun v => imp_congr_left funext_iff.symm

def rows {n : Nat} (B : Matrix (Fin k) (Fin n) K) (i : Fin k) : List K := List.ofFn (B i)

omit [DecidableEq K] in
theorem combine_rows (a : Fin k → K) (X : Matrix (Fin k) (Fin n) K) :
    combine a (rows X) n = ofFn fun t => ∑ j, a j * X j t := by
  refine ext_getElem (by simp [combine]) fun t ht ht' => ?_
  have htn : t < n := by simpa [combine] using ht
  simp [combine, rows, htn]

/-- **Elimination inverts every matrix that can be inverted**, and says so of no other one. -/
theorem eliminate_matrix (M : Matrix (Fin k) (Fin k) K) (B : Matrix (Fin k) (Fin n) K) :
    (IsUnit M ∧ eliminate ⟨M, rows B⟩ = some (some ⟨(1 : Matrix _ _ K), rows (M⁻¹ * B)⟩)) ∨
    (¬ IsUnit M ∧ eliminate ⟨M, rows B⟩ = some none) := by
  by_cases hM : IsUnit M
  · refine .inl ⟨hM, ?_⟩
    have hdet := (Matrix.isUnit_iff_isUnit_det M).mp hM
    have hsol : Solution ⟨M, rows B⟩ (rows (M⁻¹ * B)) n := by
      intro r
      rw [combine_rows]
      show ofFn (B r) = ofFn fun t => (M * (M⁻¹ * B)) r t
      rw [Matrix.mul_nonsing_inv_cancel_left _ _ hdet]
    obtain ⟨s', hs', hrhs⟩ := eliminate_of_solution ((regular_iff_isUnit M _).mpr hM) hsol
      fun j => length_ofFn
    have hunit := (unit_of_eliminate hs').1
    rw [hs', ← hrhs]
    have hmat : s'.mat = (1 : Matrix _ _ K) := by
      funext r j
      rw [hunit r j j.isLt, Matrix.one_apply]
    rw [← hmat]
  · refine .inr ⟨hM, ?_⟩
    rcases h : eliminate ⟨M, rows B⟩ with - | (- | s')
    · exact absurd h (eliminate_ne_none fun r => length_ofFn)
    · rfl
    · exact absurd ((regular_iff_isUnit M _).mp (unit_of_eliminate h).2) hM

end System

end Lib
