import SeamProtocol.Fec.Kernel

/-! # Gaussian elimination as it is written

`gauss_rhs` and `invert_matrix` are one loop over the columns, for rows of different shapes. A panic is
`none`, a singular matrix is `some none`. -/

namespace SeamProtocol

open Lib List Option System

namespace Kernel

/-! ## The loops -/

section

variable {k : Nat} {ρ : Type*} (entry : ρ → Fin k → Gf) (scale : ρ → Gf → ρ)
  (mulAdd : ρ → ρ → Gf → Option ρ)

def clearRow (col : Fin k) (pivotRow row : ρ) : Option ρ :=
  let factor := entry row col
  if factor = 0 then some row else mulAdd row pivotRow factor

def clearRows (col : Fin k) (rows : Fin k → ρ) : Option (Fin k → ρ) :=
  (List.finRange k).foldlM (fun rows r =>
    if r = col then some rows
    else (clearRow entry mulAdd col (rows col) (rows r)).map (Function.update rows r)) rows

/-- The loop over the columns: find a pivot, swap, scale, clear the other rows. -/
def reduceColumns : List (Fin k) → (Fin k → ρ) → Option (Option (Fin k → ρ))
  | [], rows => some (some rows)
  | col :: rest, rows =>
    match (List.finRange k).find? fun r => col ≤ r && decide (entry (rows r) col ≠ 0) with
    | none => some none
    | some pivot =>
      let rows := rows ∘ Equiv.swap col pivot
      (Gf.inv (entry (rows col) col)).bind fun pivotInv =>
        (clearRows entry mulAdd col (Function.update rows col (scale (rows col) pivotInv))).bind
          (reduceColumns rest)

end

variable {k : Nat}

abbrev Equation (k : Nat) := (Fin k → Gf) × Symbol

def gaussRhs (mat : Fin k → Fin k → Gf) (rhs : Fin k → Symbol) : Option (Option (Fin k → Equation k)) :=
  reduceColumns (fun row j => row.1 j)
    (fun row c => (fun j => (row.1 j).mul c, row.2.map fun v => v.mul c))
    (fun row pivotRow factor => (mulAddSlice row.2 pivotRow.2 factor).map fun rhs =>
      (fun j => (row.1 j).add (factor.mul (pivotRow.1 j)), rhs))
    (List.finRange k) fun i => (mat i, rhs i)

def invertMatrix (mat : Fin k → Fin k → Gf) : Option (Option (Fin k → Fin k → Gf)) :=
  let aug (i : Fin k) : Fin (k + k) → Gf := Fin.append (mat i) fun j => if j = i then 1 else 0
  let reduced := reduceColumns (fun row j => row (Fin.castAdd k j)) (fun row c j => (row j).mul c)
    (fun row pivotRow factor => some fun j => (row j).add (factor.mul (pivotRow j)))
    (List.finRange k) aug
  reduced.map fun rows => rows.map fun rows i j => rows i (Fin.natAdd k j)

/-! ## The loop over the rows -/

variable {ρ : Type*} {entry : ρ → Fin k → Gf} {scale : ρ → Gf → ρ} {mulAdd : ρ → ρ → Gf → Option ρ}
  {col : Fin k}

theorem collect_eq_none {α : Type*} {f : Fin k → Option α} {i : Fin k} (h : f i = none) :
    collect f = none := by
  refine dif_neg fun hall => ?_
  have hi := hall i
  rw [h] at hi
  cases hi

theorem clearRows_eq (rows : Fin k → ρ) : clearRows entry mulAdd col rows = collect fun r =>
    if r = col then some (rows r) else clearRow entry mulAdd col (rows col) (rows r) := by
  -- the rows of a part of the list
  suffices hpart : ∀ (l : List (Fin k)), l.Nodup → ∀ rows : Fin k → ρ,
      l.foldlM (fun rows r => if r = col then some rows
        else (clearRow entry mulAdd col (rows col) (rows r)).map (Function.update rows r)) rows
      = collect fun r => if r = col ∨ r ∉ l then some (rows r)
        else clearRow entry mulAdd col (rows col) (rows r) by
    refine (hpart _ (nodup_finRange k) rows).trans ?_
    simp only [mem_finRange, not_true_eq_false, or_false]
  intro l hl
  induction l with
  | nil =>
    intro rows
    exact (collect_eq_some.mpr fun r => if_pos (.inr not_mem_nil)).symm
  | cons r l ih =>
    obtain ⟨hr, hl⟩ := nodup_cons.mp hl
    intro rows
    rw [foldlM_cons]
    by_cases hcol : r = col
    · rw [if_pos hcol]
      refine (ih hl rows).trans (congrArg collect (funext fun r' => ?_))
      by_cases hr' : r' = col <;> simp [hr', hcol]
    · rw [if_neg hcol]
      cases hrow : clearRow entry mulAdd col (rows col) (rows r) with
      | none =>
        refine (collect_eq_none (i := r) ?_).symm
        rw [if_neg (by simp [hcol]), hrow]
      | some row =>
        refine (ih hl _).trans (congrArg collect (funext fun r' => ?_))
        rw [Function.update_of_ne (Ne.symm hcol)]
        by_cases heq : r' = r
        · subst heq
          simp [hcol, hr, hrow]
        · simp [heq]

/-! ## Refinement -/

/-- Rows are equations in disguise. -/
structure Represents (entry : ρ → Fin k → Gf) (scale : ρ → Gf → ρ) (mulAdd : ρ → ρ → Gf → Option ρ)
    (abs : ρ → Equation k) : Prop where
  entry_eq : ∀ a j, entry a j = (abs a).1 j
  scale_eq : ∀ a c, abs (scale a c) = (fun j => (abs a).1 j * c, (abs a).2.map (· * c))
  mulAdd_eq : ∀ a b c, (mulAdd a b c).map abs = if (abs a).2.length ≠ (abs b).2.length then none
    else some (fun j => (abs a).1 j - c * (abs b).1 j,
      List.zipWith (fun dst src => dst - c * src) (abs a).2 (abs b).2)

def system (abs : ρ → Equation k) (rows : Fin k → ρ) : System Gf k :=
  ⟨fun i => (abs (rows i)).1, fun i => (abs (rows i)).2⟩

variable {abs : ρ → Equation k} (h : Represents entry scale mulAdd abs)

include h

theorem Represents.clearRows (col : Fin k) (rows : Fin k → ρ) :
    (clearRows entry mulAdd col rows).map (system abs) =
      if (system abs rows).Misfit col then none else some ((system abs rows).clear col) := by
  rw [clearRows_eq]
  have hmulAdd := fun r => h.mulAdd_eq (rows r) (rows col) ((abs (rows r)).1 col)
  split_ifs with hfit
  · obtain ⟨r, hr, hne, hlen⟩ := hfit
    have hnone := (hmulAdd r).trans (if_pos hlen)
    rw [map_eq_none_iff] at hnone
    rw [collect_eq_none (i := r), map_none]
    rw [if_neg hr, clearRow, h.entry_eq]
    exact (if_neg hne).trans hnone
  · have hrow : ∀ r, ∃ row, (if r = col then some (rows r)
        else clearRow entry mulAdd col (rows col) (rows r)) = some row ∧
        abs row = (((system abs rows).clear col).mat r, ((system abs rows).clear col).rhs r) := by
      intro r
      unfold clearRow clear
      by_cases hr : r = col
      · exact ⟨rows r, if_pos hr, by simp [hr, system]⟩
      by_cases hzero : (abs (rows r)).1 col = 0
      · exact ⟨rows r, by simp [hr, h.entry_eq, hzero], by simp [hr, hzero, system]⟩
      · have hlen : (abs (rows r)).2.length = (abs (rows col)).2.length :=
          not_not.mp fun hlen => hfit ⟨r, hr, hzero, hlen⟩
        have hsome := hmulAdd r
        rw [if_neg (not_not.mpr hlen)] at hsome
        obtain ⟨row, hrow, habs⟩ := map_eq_some_iff.mp hsome
        exact ⟨row, by simp [hr, h.entry_eq, hzero, hrow], by simp [habs, hr, hzero, system]⟩
    choose cleared hcleared habs using hrow
    rw [collect_eq_some.mpr hcleared, map_some, system]
    simp only [habs]

theorem Represents.reduceColumns (cols : List (Fin k)) (rows : Fin k → ρ) :
    (reduceColumns entry scale mulAdd cols rows).map (Option.map (system abs))
      = eliminateColumns cols (system abs rows) := by
  induction cols generalizing rows with
  | nil => rfl
  | cons col rest ih =>
    have hpivot : ((finRange k).find? fun r => col ≤ r && decide (entry (rows r) col ≠ 0))
        = (system abs rows).pivot col := by
      simp only [h.entry_eq]
      rfl
    rw [Kernel.reduceColumns, eliminateColumns, hpivot]
    cases hp : (system abs rows).pivot col with
    | none => rfl
    | some pivot =>
      have hswap : (system abs rows).swap col pivot = system abs (rows ∘ Equiv.swap col pivot) := rfl
      have hne : ((system abs rows).swap col pivot).mat col col ≠ 0 := by
        rw [swap_mat_left]
        exact (pivot_eq_some hp).2
      rw [hswap] at hne
      dsimp only
      rw [hswap]
      generalize rows ∘ Equiv.swap col pivot = rows at hne ⊢
      have hinv : Gf.inv ((abs (rows col)).1 col) = some ((abs (rows col)).1 col)⁻¹ :=
        Gf.inv_eq_some hne
      rw [h.entry_eq, hinv, bind_some]
      have hscale : system abs (Function.update rows col (scale (rows col) ((abs (rows col)).1 col)⁻¹))
          = (system abs rows).scale col := by
        unfold system System.scale
        congr 1 <;> funext r <;> by_cases hr : r = col
        all_goals simp [hr, h.scale_eq]
      have hclear := h.clearRows col
        (Function.update rows col (scale (rows col) ((abs (rows col)).1 col)⁻¹))
      rw [hscale] at hclear
      split_ifs at hclear ⊢ with hfit
      · rw [map_eq_none_iff.mp hclear]
        rfl
      · obtain ⟨cleared, hcleared, heq⟩ := map_eq_some_iff.mp hclear
        rw [hcleared, bind_some, ih, heq]

omit h

/-! ## Results -/

theorem gaussRhs_eq (mat : Fin k → Fin k → Gf) (rhs : Fin k → Symbol) :
    (gaussRhs mat rhs).map (Option.map (system id)) = eliminate ⟨mat, rhs⟩ := by
  refine Represents.reduceColumns ⟨fun _ _ => rfl, fun _ _ => rfl, fun a b c => ?_⟩ _ _
  rw [mulAddSlice_eq_spec, mulAddSlice_eq]
  dsimp only [id]
  split_ifs <;> rfl

/-- A row of the augmented matrix as an equation. -/
def halves (row : Fin (k + k) → Gf) : Equation k :=
  (fun j => row (Fin.castAdd k j), List.ofFn fun j => row (Fin.natAdd k j))

open Fin

theorem represents_halves : Represents (k := k) (fun row j => row (castAdd k j))
    (fun row c j => (row j).mul c)
    (fun row pivotRow factor => some fun j => (row j).add (factor.mul (pivotRow j))) halves where
  entry_eq _ _ := rfl
  scale_eq a c := by
    unfold halves
    rw [map_ofFn]
    rfl
  mulAdd_eq a b c := by
    have hzip : zipWith (fun dst src => dst - c * src) (halves a).2 (halves b).2
        = ofFn fun j => a (natAdd k j) - c * b (natAdd k j) :=
      ext_getElem (by simp [halves]) fun i _ _ => by simp [halves]
    rw [if_neg (by simp [halves]), hzip]
    rfl

theorem invertMatrix_eq (mat : Fin k → Fin k → Gf) :
    (invertMatrix mat).map (Option.map fun N i => ofFn (N i))
      = (eliminate ⟨mat, rows (1 : Matrix (Fin k) (Fin k) Gf)⟩).map (Option.map rhs) := by
  have haug : system halves (fun i => append (mat i) fun j => if j = i then 1 else 0)
      = ⟨mat, rows (1 : Matrix (Fin k) (Fin k) Gf)⟩ := by
    have hone : ∀ i, (1 : Matrix (Fin k) (Fin k) Gf) i = fun j => if j = i then 1 else 0 := fun i =>
      funext fun j => Matrix.one_apply.trans (if_congr eq_comm rfl rfl)
    unfold system halves rows
    simp only [append_left, append_right, hone]
  have hreduce := represents_halves.reduceColumns (finRange k)
    fun i => append (mat i) fun j => if j = i then 1 else 0
  rw [haug] at hreduce
  unfold eliminate
  rw [← hreduce, invertMatrix, Option.map_map, Option.map_map]
  congr 1
  funext out
  cases out <;> rfl

/-- **Gaussian elimination is correct.** `gauss_rhs` and `invert_matrix` return, and find a matrix
singular exactly if it is. Otherwise the first leaves the identity and the only solution, the second the
inverse. -/
theorem elimination_correct (k : Nat) (M : Matrix (Fin k) (Fin k) Gf) :
    (∀ (n : Nat) (B : Matrix (Fin k) (Fin n) Gf), ∃ out,
      gaussRhs M (fun i => List.ofFn (B i)) = some out ∧ (out.isSome ↔ IsUnit M) ∧
      ∀ rows, out = some rows → (fun i => (rows i).1) = (1 : Matrix (Fin k) (Fin k) Gf) ∧
        ∃ X : Matrix (Fin k) (Fin n) Gf, (∀ i, (rows i).2 = List.ofFn (X i)) ∧ ∀ Y, M * Y = B ↔ Y = X) ∧
    ∃ out, invertMatrix M = some out ∧ (out.isSome ↔ IsUnit M) ∧
      ∀ N : Matrix (Fin k) (Fin k) Gf, out = some N → M * N = 1 ∧ N * M = 1 := by
  refine ⟨fun n B => ?_, ?_⟩
  · have heq := gaussRhs_eq M (System.rows B)
    rcases eliminate_matrix M B with ⟨hM, hB⟩ | ⟨hM, hB⟩
    · rw [hB] at heq
      obtain ⟨out, hout, hsome⟩ := Option.map_eq_some_iff.mp heq
      obtain ⟨rows, rfl, hrows⟩ := Option.map_eq_some_iff.mp hsome
      refine ⟨_, hout, by simp [hM], fun rows' hrows' => ?_⟩
      cases hrows'
      have hdet := (Matrix.isUnit_iff_isUnit_det M).mp hM
      refine ⟨congrArg System.mat hrows, M⁻¹ * B, fun i => congrFun (congrArg System.rhs hrows) i,
        fun Y => ⟨?_, ?_⟩⟩
      · rintro rfl
        rw [Matrix.nonsing_inv_mul_cancel_left _ _ hdet]
      · rintro rfl
        rw [Matrix.mul_nonsing_inv_cancel_left _ _ hdet]
    · rw [hB] at heq
      obtain ⟨out, hout, hnone⟩ := Option.map_eq_some_iff.mp heq
      rw [Option.map_eq_none_iff] at hnone
      exact ⟨out, hout, by simp [hnone, hM], by simp [hnone]⟩
  · have heq := invertMatrix_eq M
    rcases eliminate_matrix M (1 : Matrix (Fin k) (Fin k) Gf) with ⟨hM, hone⟩ | ⟨hM, hone⟩
    · rw [hone] at heq
      obtain ⟨out, hout, hsome⟩ := Option.map_eq_some_iff.mp heq
      obtain ⟨N, rfl, hN⟩ := Option.map_eq_some_iff.mp hsome
      have hinv : N = M⁻¹ := by
        rw [← Matrix.mul_one M⁻¹]
        exact funext fun i => List.ofFn_injective (congrFun hN i)
      have hdet := (Matrix.isUnit_iff_isUnit_det M).mp hM
      refine ⟨_, hout, by simp [hM], fun N' hN' => ?_⟩
      cases hN'
      rw [hinv]
      exact ⟨Matrix.mul_nonsing_inv _ hdet, Matrix.nonsing_inv_mul _ hdet⟩
    · rw [hone] at heq
      obtain ⟨out, hout, hnone⟩ := Option.map_eq_some_iff.mp heq
      simp only [Option.map_none, Option.map_eq_none_iff] at hnone
      exact ⟨out, hout, by simp [hnone, hM], by simp [hnone]⟩

end Kernel

end SeamProtocol
