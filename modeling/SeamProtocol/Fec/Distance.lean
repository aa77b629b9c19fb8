import Mathlib.Logic.Equiv.Fintype
import SeamProtocol.Fec.Gauss
import SeamProtocol.Fec.Recovery

/-! # The distance of the code

Any `k` rows of the identity and the Cauchy matrix are independent as long as all `k + r` indices are
different bytes, twice as many as the encoder's comments ask for. -/

namespace SeamProtocol

open Lib List SortedMap UInt8

/-- The identity, and the coefficients of the repair symbols below it. -/
def codeMatrix (k r : Nat) (m : Fin (k + r)) (j : Fin k) : Gf :=
  if (m : Nat) < k then if (m : Nat) = j then 1 else 0
  else (cauchy (UInt8.ofNat (m - k)) (UInt8.ofNat j) (UInt8.ofNat r)).getD 0

section

variable {k r : Nat} {sel : Fin k → Fin (k + r)}

/-- The chosen rows can be put in an order that has each unit row in its own place. -/
theorem exists_order (hsel : Function.Injective sel) :
    ∃ σ : Equiv.Perm (Fin k), ∀ col, (sel (σ col) : Nat) = col ∨ k ≤ sel (σ col) := by
  classical
  let place : {i // (sel i : Nat) < k} → {col : Fin k // ∃ i, (sel i : Nat) = col} :=
    fun i => ⟨⟨sel i, i.2⟩, i, rfl⟩
  have hplace : Function.Bijective place := by
    refine ⟨fun i i' heq => Subtype.ext (hsel (Fin.ext ?_)), ?_⟩
    · exact congrArg (fun col => (col.1 : Nat)) heq
    · rintro ⟨col, i, hi⟩
      exact ⟨⟨i, hi ▸ col.2⟩, Subtype.ext (Fin.ext hi)⟩
  let e := (Equiv.ofBijective place hplace).symm
  refine ⟨e.extendSubtype, fun col => ?_⟩
  by_cases hcol : ∃ i, (sel i : Nat) = col
  · left
    rw [e.extendSubtype_apply_of_mem col hcol]
    exact congrArg (fun col => (col.1 : Nat)) ((Equiv.ofBijective place hplace).apply_symm_apply _)
  · exact .inr (not_lt.mp (e.extendSubtype_not_mem col hcol))

theorem cauchy_ofNat (hfew : k + r ≤ 256) {i j : Nat} (hi : i < r) (hj : j < k) :
    cauchy (ofNat i) (ofNat j) (ofNat r) = some (coefficient r i j) := by
  have hr : (ofNat r).toNat = r := toNat_ofNat_of_lt' (show r < 256 by omega)
  have hsome := cauchy_eq_coefficient (r := ofNat r) (i := i) (j := j) (by omega) (by omega)
  rwa [hr] at hsome

theorem linearIndependent_rows (hfew : k + r ≤ 256) (hsel : Function.Injective sel) :
    LinearIndependent Gf fun i => codeMatrix k r (sel i) := by
  obtain ⟨σ, hσ⟩ := exists_order hsel
  rw [← linearIndependent_equiv σ]
  refine Matrix.linearIndependent_rows_iff_isUnit.mpr ((System.regular_iff_isUnit _ fun _ => []).mp
    (regular_of_unit_or_cauchy hfew (fun col => (sel (σ col) : Nat) = col) (fun col => sel (σ col) - k)
      ?_ ?_ ?_))
  · intro col hcol
    funext j
    show codeMatrix k r (sel (σ col)) j = _
    rw [codeMatrix, hcol, if_pos col.2]
    exact if_congr Fin.ext_iff.symm rfl rfl
  · intro col hcol
    have hle := (hσ col).resolve_left hcol
    refine ⟨by omega, funext fun j => ?_⟩
    show codeMatrix k r (sel (σ col)) j = _
    rw [codeMatrix, if_neg (by omega), cauchy_ofNat hfew (by omega) j.2]
    rfl
  · intro col col' hcol hcol' heq
    have hle := (hσ col).resolve_left hcol
    have hle' := (hσ col').resolve_left hcol'
    exact σ.injective (hsel (Fin.ext (by omega)))

end

/-! ## Honest groups -/

/-- What the decoder has of a group if every packet has an index that the encoder gives. -/
inductive HonestGroup (k r : UInt8) : GroupState → Prop where
  | new (len : Nat) : HonestGroup k r (.new k r len)
  | source {g : GroupState} (sourceIdx : UInt8) (data : Symbol) (hidx : sourceIdx < k)
    (h : HonestGroup k r g) : HonestGroup k r (g.withSource sourceIdx data)
  | repair {g : GroupState} (rep : FecRepairData) (hidx : rep.repairIdx < r)
    (h : HonestGroup k r g) : HonestGroup k r (g.withRepair rep)

variable {k r : UInt8} {g : GroupState}

theorem HonestGroup.indices (h : HonestGroup k r g) :
    g.k = k ∧ g.r = r ∧ ∀ i ∈ g.repairs.keys, i < r.toNat := by
  induction h with
  | new len => exact ⟨rfl, rfl, nofun⟩
  | source sourceIdx data hidx h ih => exact ih
  | @repair g rep hidx h ih =>
    refine ⟨ih.1, ih.2.1, fun i hi => ?_⟩
    obtain ⟨data, hget⟩ := (mem_keys_iff _ i).mp hi
    by_cases heq : i = rep.repairIdx.toNat
    · rw [heq]
      exact hidx
    · refine ih.2.2 i ((mem_keys_iff _ i).mpr ⟨data, ?_⟩)
      exact (get?_insert_of_ne _ _ heq).symm.trans hget

open FecGroup in
theorem HonestGroup.regular (h : HonestGroup k r g) (hfew : k.toNat + r.toNat ≤ 256)
    (hlen : g.missing.length ≤ g.repairs.size) :
    ∃ rows, collect (g.row (places g)) = some rows ∧ (system rows).Regular := by
  obtain ⟨rfl, rfl, hrep⟩ := h.indices
  obtain ⟨rows, sub, hrows, hheld, hmissing, hdistinct⟩ := exists_rows hfew hrep hlen
  refine ⟨rows, hrows, regular_of_rows hfew hheld (fun col hcol => ?_) hdistinct⟩
  obtain ⟨hlt, data, -, hrow⟩ := hmissing col hcol
  exact ⟨hlt, congrArg Prod.fst hrow⟩

/-- **The code corrects every loss it has symbols for**, with up to 256 packets in a group: the
coefficients exist, any `k` rows are independent, repair symbols are emitted without a panic, and the
matrix that the decoder builds for an honest group is not found singular. -/
theorem cauchy_code_mds (k r : Nat) (hfew : k + r ≤ 256) :
    (∀ i < r, ∀ j < k, (cauchy (UInt8.ofNat i) (UInt8.ofNat j) (UInt8.ofNat r)).isSome) ∧
    (∀ sel : Fin k → Fin (k + r), Function.Injective sel →
      LinearIndependent Gf fun i => codeMatrix k r (sel i)) ∧
    (∀ (e : FecEncoder) (actualK : UInt8), actualK.toNat = k → e.r.toNat = r → k ≤ e.sources.length →
      ∃ repairs e', e.emitRepairs actualK = some (repairs, e') ∧
        ∀ rep ∈ repairs, rep.repairIdx < e.r ∧ rep.k = actualK ∧ rep.r = e.r) ∧
    ∀ (k' r' : UInt8) (g : GroupState), k'.toNat = k → r'.toNat = r → HonestGroup k' r' g →
      g.missing.length ≤ g.repairs.size →
      ∃ rows, collect (g.row (g.missing.zip (g.repairs.keys.take g.missing.length))) = some rows ∧
        Kernel.gaussRhs (fun i => (rows i).1) (fun i => (rows i).2) ≠ some none := by
  refine ⟨fun i hi j hj => ?_, fun sel => linearIndependent_rows hfew, ?_, ?_⟩
  · rw [cauchy_ofNat hfew hi hj]
    rfl
  · rintro e actualK rfl rfl hsources
    obtain ⟨e', he⟩ := emitRepairs_eq e hsources hfew
    refine ⟨_, e', he, fun rep hrep => ?_⟩
    obtain ⟨i, hi, rfl⟩ := mem_map.mp hrep
    have hlt := mem_range.mp hi
    refine ⟨?_, rfl, rfl⟩
    rw [UInt8.lt_iff_toNat_lt, UInt8.toNat_ofNat_of_lt' (hlt.trans e.r.toNat_lt)]
    exact hlt
  · rintro k' r' g rfl rfl hg hlen
    obtain ⟨rows, hrows, hregular⟩ := hg.regular hfew hlen
    refine ⟨rows, hrows, fun hnone => System.eliminate_ne_some_none hregular ?_⟩
    have heq := Kernel.gaussRhs_eq (fun i => (rows i).1) (fun i => (rows i).2)
    rw [hnone] at heq
    exact heq.symm

/-- A source and the repair symbol of a group of two, of which the other source is lost. -/
def oneLost : GroupState :=
  ((GroupState.new 2 1 1).withSource 0 [1]).withRepair ⟨0, 0, 2, 1, 1, [1]⟩

theorem one_lost_not_singular : oneLost.missing.length ≤ oneLost.repairs.size ∧
    ∃ rows, collect (oneLost.row (oneLost.missing.zip (oneLost.repairs.keys.take
        oneLost.missing.length))) = some rows ∧
      Kernel.gaussRhs (fun i => (rows i).1) (fun i => (rows i).2) ≠ some none :=
  have hlen : oneLost.missing.length ≤ oneLost.repairs.size := by decide
  ⟨hlen, (cauchy_code_mds 2 1 (by decide)).2.2.2 2 1 oneLost rfl rfl
    (.repair _ (by decide) (.source 0 [1] (by decide) (.new 1))) hlen⟩

end SeamProtocol
