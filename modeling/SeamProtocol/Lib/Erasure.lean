import SeamProtocol.Lib.Run

/-! # Events that leave no trace

Two runs from one state may differ in events that should not matter. `Unwinding step visible I R` makes
this a property of single steps: a hidden event leads to a related state, related states see the same
events, and a visible event ends the difference. -/

namespace Lib

variable {σ ε : Type*}

def visibles (step : σ → ε → Option σ) (visible : σ → ε → Bool) : σ → List ε → List ε
  | _, [] => []
  | s, e :: es =>
    match step s e with
    | none => []
    | some s' =>
      if visible s e then e :: visibles step visible s' es else visibles step visible s' es

def endsVisible (step : σ → ε → Option σ) (visible : σ → ε → Bool) : σ → List ε → Bool
  | _, [] => true
  | s, e :: es =>
    match step s e with
    | none => true
    | some s' => if es.isEmpty then visible s e else endsVisible step visible s' es

structure Unwinding (step : σ → ε → Option σ) (visible : σ → ε → Bool) (I : σ → Prop)
    (R : σ → σ → Prop) : Prop where
  invariant : ∀ {s e s'}, I s → step s e = some s' → I s'
  refl : ∀ s, R s s
  trans : ∀ {s t u}, R s t → R t u → R s u
  hidden : ∀ {s e s'}, I s → visible s e = false → step s e = some s' → R s s'
  visible_eq : ∀ {s t e}, R s t → visible s e = visible t e
  step_eq : ∀ {s t e}, I s → R s t → visible s e = true → step s e = step t e

section

variable {step : σ → ε → Option σ} {visible : σ → ε → Bool} {I : σ → Prop} {R : σ → σ → Prop} {s s' : σ}
  {e : ε} (es : List ε)

theorem visibles_cons_of_visible (hstep : step s e = some s') (hv : visible s e = true) :
    visibles step visible s (e :: es) = e :: visibles step visible s' es := by
  rw [visibles, hstep]
  exact if_pos hv

theorem visibles_cons_of_hidden (hstep : step s e = some s') (hv : visible s e = false) :
    visibles step visible s (e :: es) = visibles step visible s' es := by
  rw [visibles, hstep]
  exact if_neg (Bool.eq_false_iff.mp hv)

variable {es : List ε}

theorem Unwinding.visible_head (U : Unwinding step visible I R) {l : List ε} (hs : I s)
    (h : visibles step visible s es = e :: l) : visible s e = true := by
  induction es generalizing s with
  | nil => cases h
  | cons e' es ih =>
    cases hstep : step s e' with
    | none =>
      rw [visibles, hstep] at h
      cases h
    | some s' =>
      cases hv : visible s e' with
      | true =>
        rw [visibles_cons_of_visible es hstep hv] at h
        cases h
        exact hv
      | false =>
        rw [visibles_cons_of_hidden es hstep hv] at h
        rw [U.visible_eq (U.hidden hs hv hstep)]
        exact ih (U.invariant hs hstep) h

theorem Unwinding.exec_eq (U : Unwinding step visible I R) {t : σ} (hs : I s) (ht : I t)
    (hrel : R s t) (hne : visibles step visible t es ≠ []) :
    exec step s (visibles step visible t es) = exec step t (visibles step visible t es) := by
  cases hv : visibles step visible t es with
  | nil => exact absurd hv hne
  | cons e l =>
    have hvis := U.visible_head ht hv
    rw [exec_cons, exec_cons, U.step_eq hs hrel ((U.visible_eq hrel).trans hvis)]

theorem visibles_ne_nil (hne : es ≠ []) (hrun : exec step s es = some s')
    (hend : endsVisible step visible s es = true) : visibles step visible s es ≠ [] := by
  induction es generalizing s with
  | nil => exact absurd rfl hne
  | cons e es ih =>
    rw [exec_cons, Option.bind_eq_some_iff] at hrun
    obtain ⟨t, hstep, hrun⟩ := hrun
    rw [endsVisible, hstep] at hend
    cases hv : visible s e with
    | true =>
      rw [visibles_cons_of_visible es hstep hv]
      exact List.cons_ne_nil _ _
    | false =>
      rw [visibles_cons_of_hidden es hstep hv]
      cases es with
      | nil =>
        rw [hv] at hend
        cases hend
      | cons e' es' => exact ih (List.cons_ne_nil _ _) hrun hend

theorem exec_visibles (U : Unwinding step visible I R) (hs : I s) (hrun : exec step s es = some s') :
    ∃ t, exec step s (visibles step visible s es) = some t ∧ R t s' ∧
      (endsVisible step visible s es = true → t = s') := by
  induction es generalizing s with
  | nil =>
    cases hrun
    exact ⟨s', rfl, U.refl s', fun _ => rfl⟩
  | cons e es ih =>
    rw [exec_cons, Option.bind_eq_some_iff] at hrun
    obtain ⟨u, hstep, hrun⟩ := hrun
    have hu := U.invariant hs hstep
    obtain ⟨t, hexec, hrel, heq⟩ := ih hu hrun
    rw [endsVisible, hstep]
    cases hv : visible s e with
    | true =>
      rw [visibles_cons_of_visible es hstep hv, exec_cons, hstep]
      refine ⟨t, hexec, hrel, fun hend => heq ?_⟩
      cases es with
      | nil => rfl
      | cons e' es' => exact hend
    | false =>
      rw [visibles_cons_of_hidden es hstep hv]
      have hsu := U.hidden hs hv hstep
      by_cases hnil : visibles step visible u es = []
      · -- nothing visible follows: the run could stop here
        rw [hnil] at hexec ⊢
        cases hexec
        refine ⟨s, rfl, U.trans hsu hrel, fun hend => ?_⟩
        cases es with
        | nil => cases hend
        | cons e' es' =>
          exact absurd hnil (visibles_ne_nil (List.cons_ne_nil _ _) hrun hend)
      · rw [U.exec_eq hs hu hsu hnil]
        refine ⟨t, hexec, hrel, fun hend => heq ?_⟩
        cases es with
        | nil => cases hend
        | cons e' es' => exact hend

/-- **Runs with the same visible events** end in the same state, if no hidden event comes last. -/
theorem exec_eq_of_visibles_eq (U : Unwinding step visible I R) {s₁ s₂ : σ} {es₁ es₂ : List ε}
    (hs : I s) (h₁ : exec step s es₁ = some s₁) (h₂ : exec step s es₂ = some s₂)
    (hvis : visibles step visible s es₁ = visibles step visible s es₂)
    (hend₁ : endsVisible step visible s es₁ = true) (hend₂ : endsVisible step visible s es₂ = true) :
    s₁ = s₂ := by
  obtain ⟨t₁, hexec₁, -, heq₁⟩ := exec_visibles U hs h₁
  obtain ⟨t₂, hexec₂, -, heq₂⟩ := exec_visibles U hs h₂
  rw [hvis, hexec₂] at hexec₁
  rw [← heq₁ hend₁, ← heq₂ hend₂]
  exact (Option.some.inj hexec₁).symm

end

end Lib
