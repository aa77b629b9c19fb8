import Mathlib.Tactic

/-! # Runs of a partial step function

A system is a step function `step : σ → ε → Option σ`, `none` meaning that the event cannot happen (or
that the call never returns). `exec` folds it over an event list, and `Meets step ok` says that every
event satisfies `ok` in the state it happens in. -/

namespace Lib

open List Option

variable {σ ε : Type*}

def exec (step : σ → ε → Option σ) : σ → List ε → Option σ
  | s, [] => some s
  | s, e :: es => (step s e).bind fun s' => exec step s' es

def Meets (step : σ → ε → Option σ) (ok : σ → ε → Prop) : σ → List ε → Prop
  | _, [] => True
  | s, e :: es => ok s e ∧ ∀ s', step s e = some s' → Meets step ok s' es

instance Meets.decidable (step : σ → ε → Option σ) (ok : σ → ε → Prop)
    [∀ s e, Decidable (ok s e)] : ∀ s es, Decidable (Meets step ok s es)
  | _, [] => isTrue trivial
  | s, e :: es =>
    have : Decidable (∀ s', step s e = some s' → Meets step ok s' es) :=
      match _h : step s e with
      | none => isTrue fun _ h' => nomatch h'
      | some t =>
        match Meets.decidable step ok t es with
        | isTrue ht => isTrue fun _ h' => Option.some.inj h' ▸ ht
        | isFalse ht => isFalse fun hall => ht (hall t rfl)
    inferInstanceAs (Decidable (ok s e ∧ _))

variable {step : σ → ε → Option σ} {ok : σ → ε → Prop}

@[simp] theorem exec_nil (s : σ) : exec step s [] = some s := rfl

theorem exec_cons (s : σ) (e : ε) (es : List ε) :
    exec step s (e :: es) = (step s e).bind fun s' => exec step s' es := rfl

variable {s : σ} {es : List ε}

theorem exists_of_exec_any {p : σ → Bool} (h : (exec step s es).any p = true) :
    ∃ s', exec step s es = some s' ∧ p s' = true := by
  cases hrun : exec step s es with
  | none =>
    rw [hrun] at h
    cases h
  | some s' =>
    rw [hrun] at h
    exact ⟨s', rfl, h⟩

theorem exists_exec_of {p q : σ → Prop} (h : ∃ s', exec step s es = some s' ∧ p s')
    (hq : ∀ s', exec step s es = some s' → p s' → q s') : ∃ s', exec step s es = some s' ∧ q s' := by
  obtain ⟨s', hrun, hp⟩ := h
  exact ⟨s', hrun, hq s' hrun hp⟩

theorem exec_append (s : σ) (es fs : List ε) :
    exec step s (es ++ fs) = (exec step s es).bind fun s' => exec step s' fs := by
  induction es generalizing s with
  | nil => rfl
  | cons e es ih =>
    rw [cons_append, exec_cons, exec_cons, bind_assoc]
    exact congrArg (bind (step s e)) (funext fun s' => ih s')

variable (I : σ → Prop)

/-- **Invariant rule.** What every admissible step keeps, every admissible run keeps. -/
theorem exec_invariant_of_meets (hstep : ∀ s e s', I s → ok s e → step s e = some s' → I s')
    (hs : I s) (hok : Meets step ok s es) (hrun : exec step s es = some s') : I s' := by
  induction es generalizing s with
  | nil =>
    rw [exec_nil, some.injEq] at hrun
    exact hrun ▸ hs
  | cons e es ih =>
    rw [exec_cons, bind_eq_some_iff] at hrun
    obtain ⟨t, hst, hrun⟩ := hrun
    exact ih (hstep s e t hs hok.1 hst) (hok.2 t hst) hrun

/-- **Progress rule.** If every admissible event can happen and keeps the invariant, then an admissible
run goes through and keeps it. -/
theorem exec_total_of_meets (hstep : ∀ s e, I s → ok s e → ∃ s', step s e = some s' ∧ I s') (hs : I s)
    (hok : Meets step ok s es) : ∃ s', exec step s es = some s' ∧ I s' := by
  induction es generalizing s with
  | nil => exact ⟨s, rfl, hs⟩
  | cons e es ih =>
    obtain ⟨t, hst, ht⟩ := hstep s e hs hok.1
    obtain ⟨s', hrun, hs'⟩ := ih ht (hok.2 t hst)
    refine ⟨s', ?_, hs'⟩
    rw [exec_cons, hst]
    exact hrun

theorem Meets.of_forall (h : ∀ s, ∀ e ∈ es, ok s e) : Meets step ok s es := by
  induction es generalizing s with
  | nil => trivial
  | cons e es ih =>
    exact ⟨h s e mem_cons_self, fun s' _ => ih fun t e' he' => h t e' (mem_cons_of_mem e he')⟩

theorem Meets.after {fs : List ε} {t : σ} (h : Meets step ok s (es ++ fs))
    (hrun : exec step s es = some t) : Meets step ok t fs := by
  induction es generalizing s with
  | nil =>
    rw [exec_nil, some.injEq] at hrun
    exact hrun ▸ h
  | cons e es ih =>
    rw [exec_cons, bind_eq_some_iff] at hrun
    obtain ⟨s', hst, hrun⟩ := hrun
    exact ih (h.2 s' hst) hrun

theorem Meets.of_invariant {ok' : σ → ε → Prop}
    (hstep : ∀ s e s', I s → ok s e → step s e = some s' → I s') (hok : ∀ s e, I s → ok s e → ok' s e)
    (hs : I s) (h : Meets step ok s es) : Meets step ok' s es := by
  induction es generalizing s with
  | nil => trivial
  | cons e es ih =>
    refine ⟨hok s e hs h.1, ?_⟩
    intro s' hst
    exact ih (hstep s e s' hs h.1 hst) (h.2 s' hst)

theorem Meets.and_forall {p : ε → Prop} (h : Meets step ok s es) (hp : ∀ e ∈ es, p e) :
    Meets step (fun s e => ok s e ∧ p e) s es := by
  induction es generalizing s with
  | nil => trivial
  | cons e es ih =>
    refine ⟨⟨h.1, hp e mem_cons_self⟩, ?_⟩
    intro s' hst
    exact ih (h.2 s' hst) fun e' he' => hp e' (mem_cons_of_mem e he')

variable {τ ε' ω : Type*} {step' : τ → ε' → Option τ}

/-- **Simulation rule.** If every admissible step is matched by a run of another system with the same
observations, so is every admissible run. -/
theorem exec_simulation_of_meets (obs : ε → List ω) (obs' : ε' → List ω) (R : σ → τ → Prop)
    (hstep : ∀ s e s' t, R s t → ok s e → step s e = some s' → ∃ es' t', exec step' t es' = some t' ∧ es'.flatMap obs' = obs e ∧ R s' t')
    {t : τ} (hR : R s t) (hok : Meets step ok s es) (hrun : exec step s es = some s') :
    ∃ es' t', exec step' t es' = some t' ∧ es'.flatMap obs' = es.flatMap obs ∧ R s' t' := by
  induction es generalizing s t with
  | nil =>
    rw [exec_nil, some.injEq] at hrun
    exact ⟨[], t, rfl, rfl, hrun ▸ hR⟩
  | cons e es ih =>
    rw [exec_cons, bind_eq_some_iff] at hrun
    obtain ⟨s₁, hst, hrun⟩ := hrun
    obtain ⟨es₁, t₁, hrun₁, hobs₁, hR₁⟩ := hstep s e s₁ t hR hok.1 hst
    obtain ⟨es₂, t₂, hrun₂, hobs₂, hR₂⟩ := ih hR₁ (hok.2 s₁ hst) hrun
    refine ⟨es₁ ++ es₂, t₂, ?_, ?_, hR₂⟩
    · rw [exec_append, hrun₁]
      exact hrun₂
    · simp [hobs₁, hobs₂]

/-- **Morphism rule.** A map that takes steps to steps takes runs to runs. -/
theorem exec_map (f : σ → τ) (g : ε → ε')
    (hstep : ∀ s e s', step s e = some s' → step' (f s) (g e) = some (f s'))
    (hrun : exec step s es = some s') : exec step' (f s) (es.map g) = some (f s') := by
  induction es generalizing s with
  | nil =>
    rw [exec_nil, some.injEq] at hrun
    exact hrun ▸ rfl
  | cons e es ih =>
    rw [exec_cons, bind_eq_some_iff] at hrun
    obtain ⟨t, hst, hrun⟩ := hrun
    rw [map_cons, exec_cons, hstep s e t hst]
    exact ih hrun

/-- **Termination rule.** If every step is work done, a run is not longer than there is work to do. -/
theorem exec_length_le (work : σ → Nat) (hstep : ∀ s e s', step s e = some s' → work s' < work s)
    (hrun : exec step s es = some s') : es.length ≤ work s := by
  induction es generalizing s with
  | nil => exact Nat.zero_le _
  | cons e es ih =>
    rw [exec_cons, bind_eq_some_iff] at hrun
    obtain ⟨s₁, hst, hrun⟩ := hrun
    exact (Nat.succ_le_succ (ih hrun)).trans (hstep s e s₁ hst)

theorem exec_invariant (hstep : ∀ s e s', I s → step s e = some s' → I s') (hs : I s)
    (hrun : exec step s es = some s') : I s' := by
  exact exec_invariant_of_meets I (fun s e s' h _ => hstep s e s' h) hs
    (.of_forall fun _ _ _ => trivial : Meets step (fun _ _ => True) s es) hrun

/-- **Output rule.** If every step of a run adds the same output, so does the run. The invariant may depend
on the events so far. -/
theorem exec_replicate {step : List ω × σ → ε → Option (List ω × σ)} {o : ω} (I : List ε → σ → Prop)
    (hs : I [] s)
    (hstep : ∀ pre e t, pre ++ [e] <+: es → I pre t → ∃ t', (∀ outs, step (outs, t) e = some (outs ++ [o], t')) ∧ I (pre ++ [e]) t') :
    ∃ s', exec step ([], s) es = some (List.replicate es.length o, s') ∧ I es s' := by
  suffices hall : ∀ pre, pre <+: es →
      ∃ s', exec step ([], s) pre = some (List.replicate pre.length o, s') ∧ I pre s' from
    hall es (prefix_refl es)
  intro pre
  induction pre using List.reverseRecOn with
  | nil => exact fun _ => ⟨s, rfl, hs⟩
  | append_singleton pre e ih =>
    intro hpre
    obtain ⟨t, hrun, ht⟩ := ih ((prefix_append pre [e]).trans hpre)
    obtain ⟨t', hst, ht'⟩ := hstep pre e t hpre ht
    refine ⟨t', ?_, ht'⟩
    rw [exec_append, hrun, bind_some, exec_cons, hst, length_append, length_singleton,
      replicate_succ']
    rfl

/-- **Exactness rule.** If a property holds after a step exactly if it held before and the step met a
condition, then it holds after a run exactly if every step met it. -/
theorem exec_iff_meets (Good : σ → Prop) (hI : ∀ s e s', I s → step s e = some s' → I s')
    (hgood : ∀ s e s', I s → step s e = some s' → (Good s' ↔ Good s ∧ ok s e)) (hs : I s)
    (hrun : exec step s es = some s') : Good s' ↔ Good s ∧ Meets step ok s es := by
  induction es generalizing s with
  | nil =>
    rw [exec_nil, some.injEq] at hrun
    rw [hrun]
    exact (and_iff_left trivial).symm
  | cons e es ih =>
    rw [exec_cons, bind_eq_some_iff] at hrun
    obtain ⟨t, hst, hrun⟩ := hrun
    have hmeets : Meets step ok s (e :: es) ↔ ok s e ∧ Meets step ok t es := by
      refine and_congr_right fun _ => ⟨fun h => h t hst, fun h s₁ hs₁ => ?_⟩
      rw [hst, some.injEq] at hs₁
      exact hs₁ ▸ h
    rw [ih (hI s e t hs hst) hrun, hgood s e t hs hst, hmeets, and_assoc]

end Lib
