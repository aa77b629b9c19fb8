import Mathlib.Tactic

/-! # Totals over finitely many accounts

Sums of a family of counters when only one of them changes. -/

namespace Lib

open Finset

variable {ι : Type*} {f g : ι → Nat} {d : Nat}

theorem sum_le_sum_add (i : ι) (hi : g i ≤ f i + d) (hne : ∀ j, j ≠ i → g j ≤ f j) (s : Finset ι) :
    ∑ j ∈ s, g j ≤ ∑ j ∈ s, f j + d := by
  classical
  by_cases his : i ∈ s
  · rw [← add_sum_erase s g his, ← add_sum_erase s f his]
    have hrest : ∑ j ∈ s.erase i, g j ≤ ∑ j ∈ s.erase i, f j :=
      sum_le_sum fun j hj => hne j (ne_of_mem_erase hj)
    omega
  · have hsum : ∑ j ∈ s, g j ≤ ∑ j ∈ s, f j :=
      sum_le_sum fun j hj => hne j (ne_of_mem_of_not_mem hj his)
    omega

theorem sum_add_le_sum {i : ι} (hi : f i + d ≤ g i) (hne : ∀ j, j ≠ i → f j ≤ g j) {s : Finset ι}
    (his : i ∈ s) : ∑ j ∈ s, f j + d ≤ ∑ j ∈ s, g j := by
  classical
  rw [← add_sum_erase s g his, ← add_sum_erase s f his]
  have hrest : ∑ j ∈ s.erase i, f j ≤ ∑ j ∈ s.erase i, g j :=
    sum_le_sum fun j hj => hne j (ne_of_mem_erase hj)
  omega

end Lib
