import Mathlib.Tactic

/-! # Fragments of a sequence

Fragments are pairs of an offset and the elements found there. `Tiles w n fs` says that `fs` are
fragments of `w` that cover its first `n` elements without overlap. -/

namespace Lib

open List

variable {α : Type*} {w d : List α} {off : Nat}

theorem take_append_of_isPrefix_drop (h : d <+: w.drop off) :
    w.take off ++ d = w.take (off + d.length) := by
  rw [take_add, ← prefix_iff_eq_take.mp h]

theorem isPrefix_drop_append (h : d <+: w.drop off) (x : List α) : d <+: (w ++ x).drop off := by
  rw [drop_append]
  exact h.trans (prefix_append _ _)

theorem drop_isPrefix_drop (h : d <+: w.drop off) (k : Nat) : d.drop k <+: w.drop (off + k) := by
  obtain ⟨t, ht⟩ := h
  by_cases hk : k ≤ d.length
  · refine ⟨t, ?_⟩
    rw [← drop_drop, ← ht, drop_append_of_le_length hk]
  · rw [drop_of_length_le (by omega)]
    exact nil_prefix

/-- The fragments `fs` are pieces of `w`, end within its first `n` elements, do not overlap, and
leave none of those elements out. -/
structure Tiles (w : List α) (n : Nat) (fs : List (Nat × List α)) : Prop where
  slice : ∀ f ∈ fs, f.2 <+: w.drop f.1
  bound : ∀ f ∈ fs, f.1 + f.2.length ≤ n
  disjoint : ∀ f ∈ fs, ∀ g ∈ fs, f.2 ≠ [] → g.2 ≠ [] →
    f = g ∨ f.1 + f.2.length ≤ g.1 ∨ g.1 + g.2.length ≤ f.1
  cover : ∀ p < n, ∃ f ∈ fs, f.1 ≤ p ∧ p < f.1 + f.2.length

theorem Tiles.nil (w : List α) : Tiles w 0 [] := by
  constructor <;> simp

variable {fs : List (Nat × List α)} {n : Nat}

theorem Tiles.add_length_le (h : Tiles w n fs) {f g : Nat × List α} (hf : f ∈ fs) (hg : g ∈ fs)
    (hfne : f.2 ≠ []) (hgne : g.2 ≠ []) (hlt : f.1 < g.1) : f.1 + f.2.length ≤ g.1 := by
  rcases h.disjoint f hf g hg hfne hgne with rfl | hle | hle
  · exact absurd hlt (lt_irrefl _)
  · exact hle
  · omega

theorem Tiles.eq_of_offset_eq (h : Tiles w n fs) {o : Nat} {e : List α} (hd : (o, d) ∈ fs)
    (he : (o, e) ∈ fs) (hdne : d ≠ []) (hene : e ≠ []) : d = e := by
  have hdpos := length_pos_of_ne_nil hdne
  have hepos := length_pos_of_ne_nil hene
  rcases h.disjoint (o, d) hd (o, e) he hdne hene with heq | hle | hle
  · exact congrArg Prod.snd heq
  · dsimp only at hle
    omega
  · dsimp only at hle
    omega

theorem Tiles.write (h : Tiles w n fs) (x : List α) : Tiles (w ++ x) n fs :=
  ⟨fun f hf => isPrefix_drop_append (h.slice f hf) x, h.bound, h.disjoint, h.cover⟩

theorem Tiles.snoc (h : Tiles w n fs) (hd : d <+: w.drop n) :
    Tiles w (n + d.length) (fs ++ [(n, d)]) := by
  refine ⟨?_, ?_, ?_, ?_⟩
  · intro f hf
    rcases mem_append.mp hf with hf | hf
    · exact h.slice f hf
    · rw [mem_singleton.mp hf]
      exact hd
  · intro f hf
    rcases mem_append.mp hf with hf | hf
    · exact (h.bound f hf).trans (Nat.le_add_right _ _)
    · rw [mem_singleton.mp hf]
  · -- the new piece starts where every earlier one has ended
    intro f hf g hg hfne hgne
    rcases mem_append.mp hf with hf | hf <;> rcases mem_append.mp hg with hg | hg
    · exact h.disjoint f hf g hg hfne hgne
    · rw [mem_singleton.mp hg]
      exact .inr (.inl (h.bound f hf))
    · rw [mem_singleton.mp hf]
      exact .inr (.inr (h.bound g hg))
    · left
      rw [mem_singleton.mp hf, mem_singleton.mp hg]
  · intro p hp
    by_cases hpn : p < n
    · obtain ⟨f, hf, hfp⟩ := h.cover p hpn
      exact ⟨f, mem_append_left _ hf, hfp⟩
    · exact ⟨(n, d), mem_append_right _ (mem_singleton.mpr rfl), by omega, hp⟩

end Lib
