import SeamProtocol.Lib.Run

/-! # The rate limiter of copy

A token bucket. A call that finds too few tokens sleeps, and the time it has slept fills the bucket once
more for the call after it. -/

namespace SeamProtocol

open Lib List

structure TokenBucket where
  capacity : Nat
  tokens : Nat
  rateBps : Nat
  lastRefill : ℚ

namespace TokenBucket

/-- `(elapsed * self.rate_bps as f64) as u64` is rounded down and saturates. -/
def newTokens (b : TokenBucket) (now : ℚ) : Nat :=
  min ⌊(now - b.lastRefill) * b.rateBps⌋₊ (2 ^ 64 - 1)

def refill (b : TokenBucket) (now : ℚ) : TokenBucket :=
  { b with tokens := min ((b.tokens + b.newTokens now) % 2 ^ 64) b.capacity, lastRefill := now }

def consume (b : TokenBucket) (now : ℚ) (bytes : Nat) : TokenBucket × ℚ :=
  let b := b.refill now
  if bytes ≤ b.tokens then ({ b with tokens := b.tokens - bytes }, now)
  else ({ b with tokens := 0 }, now + ((bytes - b.tokens : Nat) : ℚ) / b.rateBps)

end TokenBucket

/-- The calls so far: when the last one has returned, and what each one was given when. -/
structure Limited where
  bucket : TokenBucket
  free : ℚ
  returned : List (ℚ × Nat)

namespace Limited

/-- `consume` borrows the bucket, so that the next call starts when the last one has returned. -/
def step (s : Limited) : ℚ × Nat → Option Limited
  | (now, bytes) =>
    if s.free ≤ now then
      let (bucket, free) := s.bucket.consume now bytes
      some ⟨bucket, free, (free, bytes) :: s.returned⟩
    else none

def init (rate capacity : Nat) : Limited := ⟨⟨capacity, capacity, rate, 0⟩, 0, []⟩

def total (s : Limited) : Nat := (s.returned.map Prod.snd).sum

def totalBy (s : Limited) (t : ℚ) : Nat := ((s.returned.filter (·.1 ≤ t)).map Prod.snd).sum

/-- After a call that has slept, the next one comes when a whole bucket could have been filled. -/
def Rested (s : Limited) (call : ℚ × Nat) : Prop :=
  s.free = s.bucket.lastRefill ∨ s.bucket.capacity ≤ s.bucket.rateBps * (call.1 - s.free)

instance (s : Limited) (call : ℚ × Nat) : Decidable (s.Rested call) :=
  inferInstanceAs (Decidable (_ ∨ _))

structure Bounded (R C : Nat) (s : Limited) : Prop where
  rate : s.bucket.rateBps = R
  capacity : s.bucket.capacity = C
  covered : (s.total + s.bucket.tokens : ℚ) ≤ C + R * s.free
  latest : ∀ r ∈ s.returned, r.1 ≤ s.free
  nonneg : 0 ≤ s.free
  bound : ∀ t, 0 ≤ t → (s.totalBy t : ℚ) ≤ C + R * t

end Limited

theorem TokenBucket.newTokens_le (b : TokenBucket) {now : ℚ} (h : b.lastRefill ≤ now) :
    (b.newTokens now : ℚ) ≤ (now - b.lastRefill) * b.rateBps := by
  have hnonneg : 0 ≤ (now - b.lastRefill) * b.rateBps := by
    positivity
  calc (b.newTokens now : ℚ) ≤ (⌊(now - b.lastRefill) * b.rateBps⌋₊ : ℚ) := by
        exact_mod_cast min_le_left _ _
    _ ≤ _ := Nat.floor_le hnonneg

namespace Limited

theorem Bounded.refill (h : Bounded R C s) (hnow : s.free ≤ call.1) (hrest : s.Rested call) :
    (s.total + (s.bucket.refill call.1).tokens : ℚ) ≤ C + R * call.1 := by
  have hcov := h.covered
  obtain hfree | hlate := hrest
  · have hle : ((s.bucket.refill call.1).tokens : ℚ) ≤ s.bucket.tokens + s.bucket.newTokens call.1 := by
      exact_mod_cast (min_le_left _ _).trans (Nat.mod_le _ _)
    have hnew := s.bucket.newTokens_le (hfree ▸ hnow)
    rw [h.rate, ← hfree] at hnew
    linarith
  · have hle : ((s.bucket.refill call.1).tokens : ℚ) ≤ C := by
      rw [← h.capacity]
      exact_mod_cast min_le_right _ _
    rw [h.rate, h.capacity] at hlate
    linarith

theorem Bounded.push (h : Bounded R C s) {bucket : TokenBucket} {free : ℚ} {bytes : Nat}
    (hrate : bucket.rateBps = R) (hcap : bucket.capacity = C) (hfree : s.free ≤ free)
    (hcov : (s.total + bytes + bucket.tokens : ℚ) ≤ C + R * free) :
    Bounded R C ⟨bucket, free, (free, bytes) :: s.returned⟩ := by
  refine ⟨hrate, hcap, ?_, ?_, h.nonneg.trans hfree, fun t ht => ?_⟩
  · simpa [total, add_comm, add_left_comm, add_assoc] using hcov
  · rintro r hr
    obtain rfl | hr := mem_cons.mp hr
    · rfl
    · exact (h.latest r hr).trans hfree
  · by_cases hlt : free ≤ t
    · have hall : s.returned.filter (·.1 ≤ t) = s.returned := filter_eq_self.mpr fun r hr =>
        decide_eq_true ((h.latest r hr).trans (hfree.trans hlt))
      have hR : (R : ℚ) * free ≤ R * t := by gcongr
      simp only [totalBy, filter_cons, hlt, decide_true, if_true, hall, map_cons, sum_cons,
        total] at hcov ⊢
      push_cast at hcov ⊢
      linarith
    · simpa [totalBy, hlt] using h.bound t ht

theorem Bounded.step (hR : 0 < R) (h : Bounded R C s) (hrest : s.Rested call)
    (hstep : s.step call = some s') : Bounded R C s' := by
  obtain ⟨now, bytes⟩ := call
  by_cases hnow : s.free ≤ now
  · have hpot := h.refill hnow hrest
    obtain rfl : _ = s' := by simpa [Limited.step, hnow] using hstep
    by_cases hle : bytes ≤ (s.bucket.refill now).tokens
    · rw [TokenBucket.consume, if_pos hle]
      refine h.push h.rate h.capacity hnow ?_
      push_cast [hle]
      linarith
    · rw [TokenBucket.consume, if_neg hle]
      have hrate : (s.bucket.refill now).rateBps = R := h.rate
      refine h.push h.rate h.capacity (hnow.trans (le_add_of_nonneg_right (by positivity))) ?_
      rw [hrate, Nat.cast_sub (not_le.mp hle).le]
      field_simp
      push_cast
      linarith
  · simp [Limited.step, hnow] at hstep

end Limited

/-- **The rate limit.** If every call that follows a sleep comes when the bucket could have been filled
once since, at most `C + R * t` bytes are given by the time `t`. -/
theorem rate_bounded {R C : Nat} (hR : 0 < R) {calls : List (ℚ × Nat)} {s : Limited}
    (hok : Meets Limited.step Limited.Rested (.init R C) calls)
    (hrun : exec Limited.step (.init R C) calls = some s) {t : ℚ} (ht : 0 ≤ t) :
    (s.totalBy t : ℚ) ≤ C + R * t := by
  have hinit : Limited.Bounded R C (.init R C) :=
    ⟨rfl, rfl, by simp [Limited.init, Limited.total], nofun, le_rfl,
      fun t ht => by
        positivity⟩
  have h : Limited.Bounded R C s := exec_invariant_of_meets (Limited.Bounded R C)
    (fun _ _ _ hs hrest hstep => hs.step hR hrest hstep) hinit hok hrun
  exact h.bound t ht

theorem rate_bounded_rested : ∃ s, exec Limited.step (.init 1 1) [(0, 2), (2, 1)] = some s
    ∧ (s.totalBy 2 : ℚ) ≤ (1 : Nat) + (1 : Nat) * 2 := by
  obtain ⟨s, hs⟩ := Option.isSome_iff_exists.mp
    (by decide +kernel : (exec Limited.step (.init 1 1) [(0, 2), (2, 1)]).isSome)
  exact ⟨s, hs, rate_bounded (by decide) (by decide +kernel) hs (by decide)⟩

theorem sleep_counted_twice : ∃ s,
    exec Limited.step (.init 65536 65536) [(0, 131072), (1, 65536)] = some s
    ∧ (65536 + 65536 * 1 : ℚ) < s.totalBy 1 := by
  have h : (exec Limited.step (.init 65536 65536) [(0, 131072), (1, 65536)]).any
      (fun s => (65536 + 65536 * 1 : ℚ) < s.totalBy 1) = true := by decide +kernel
  obtain ⟨s, hs, hlt⟩ := exists_of_exec_any h
  exact ⟨s, hs, of_decide_eq_true hlt⟩

end SeamProtocol
