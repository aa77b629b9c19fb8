import SeamProtocol.Handshake.State

/-! # The validity of cookies

A cookie is a keyed hash of an address and a time bucket of 30 seconds; those of the current and the
previous bucket are accepted. In the first bucket the code compares with 32 zero bytes instead. -/

namespace SeamProtocol

open Lib List CookieFactory

def CookiesValid (B : Blake3) (f : CookieFactory) (addrs : Set Bytes) (now : Nat) : Prop :=
  (∀ addr ∈ addrs, ∀ addr' ∈ addrs, ∀ t ≤ now,
    f.verify B addr' (f.generate B addr t).toList now = true ↔ addr' = addr ∧ now / 30 - t / 30 ≤ 1) ∧
  ∀ addr ∈ addrs, ∀ cookie : Key,
    (∀ t, now / 30 - 1 ≤ t / 30 → t / 30 ≤ now / 30 → f.generate B addr t ≠ cookie) →
      f.verify B addr cookie.toList now = false

def CollisionFree (B : Blake3) (secret : Key) (addrs : Set Bytes) : Prop :=
  Set.InjOn (B.keyedHash secret) {x | ∃ addr ∈ addrs, ∃ b < 2 ^ 64, x = addr ++ leBytes 8 b}

section

variable {B : Blake3} {secret : Key} {addrs : Set Bytes} {addr addr' : Bytes} {now : Nat}

theorem compute_inj (hfree : CollisionFree B secret addrs) (ha : addr ∈ addrs) (ha' : addr' ∈ addrs)
    {b b' : Nat} (hb : b < 2 ^ 64) (hb' : b' < 2 ^ 64)
    (h : (new secret).compute B addr b = (new secret).compute B addr' b') :
    addr = addr' ∧ b = b' := by
  obtain ⟨haddr, hbytes⟩ :=
    append_inj' (hfree ⟨addr, ha, b, hb, rfl⟩ ⟨addr', ha', b', hb', rfl⟩ h) (by simp)
  have hnat := congrArg leNat hbytes
  rw [leNat_leBytes, leNat_leBytes] at hnat
  exact ⟨haddr, by omega⟩

theorem generate_eq (t : Nat) :
    (new secret).generate B addr t = (new secret).compute B addr (t / 30) := rfl

theorem verify_iff {cookie : Key} :
    (new secret).verify B addr cookie.toList now = true ↔
      (new secret).compute B addr (now / 30) = cookie ∨
        (if 0 < now / 30 then (new secret).compute B addr (now / 30 - 1)
          else Vector.replicate 32 0) = cookie := by
  simp [verify, Vector.toList_inj, bucket, new]

/-- **Cookies are valid in their bucket and the next one**, for their address only, and nothing else is
accepted: exactly when the clock of the server is past the first bucket. -/
theorem cookies_valid_iff (haddrs : addrs.Nontrivial) (hfree : CollisionFree B secret addrs)
    (hnow : now < 2 ^ 64) : CookiesValid B (.new secret) addrs now ↔ 30 ≤ now := by
  simp only [CookiesValid, generate_eq, ← Bool.not_eq_true, verify_iff]
  constructor
  · rintro ⟨-, hnone⟩
    by_contra hfirst
    rw [show now / 30 = 0 by omega] at hnone
    -- the zero bytes are accepted from both addresses, so they would be the cookie of both
    have hzero : ∀ addr ∈ addrs, (CookieFactory.new secret).compute B addr 0 = .replicate 32 0 := by
      intro addr ha
      by_contra hne
      exact hnone addr ha _ (fun t _ ht => by rwa [Nat.le_zero.mp ht]) (.inr rfl)
    obtain ⟨addr, ha, addr', ha', hne⟩ := haddrs
    exact hne (compute_inj hfree ha ha' (by decide) (by decide)
      ((hzero addr ha).trans (hzero addr' ha').symm)).1
  · intro hpast
    simp only [if_pos (show 0 < now / 30 by omega)]
    refine ⟨fun addr ha addr' ha' t ht => ⟨?_, ?_⟩, fun addr ha cookie hnone => ?_⟩
    · rintro (h | h)
      all_goals
        obtain ⟨rfl, hb⟩ := compute_inj hfree ha' ha (by omega) (by omega) h
        exact ⟨rfl, by omega⟩
    · rintro ⟨rfl, hle⟩
      rcases (show now / 30 = t / 30 ∨ now / 30 - 1 = t / 30 by omega) with h | h
      · exact .inl (by rw [h])
      · exact .inr (by rw [h])
    · rintro (h | h)
      · exact hnone now (by omega) le_rfl h
      · refine hnone (now - 30) (by omega) (by omega) ?_
        rwa [show (now - 30) / 30 = now / 30 - 1 by omega]

end

/-! ## Concrete cookies -/

def paddingBlake3 : Blake3 where
  deriveKey := fun _ _ => .replicate 32 0
  hash := fun _ => .replicate 32 0
  keyedHash := fun _ x => .ofFn fun i => x.getD i 0

def twoAddrs : Set Bytes := {[1, 2, 3, 4], [5, 6, 7, 8]}

theorem collisionFree_twoAddrs (secret : Key) : CollisionFree paddingBlake3 secret twoAddrs := by
  have hlength : ∀ x ∈ {x | ∃ addr ∈ twoAddrs, ∃ b < 2 ^ 64, x = addr ++ leBytes 8 b}, x.length = 12 := by
    rintro x ⟨addr, rfl | rfl, b, -, rfl⟩ <;> simp
  intro x hx y hy h
  refine ext_getElem ((hlength x hx).trans (hlength y hy).symm) fun i hi hi' => ?_
  have h32 : i < 32 := by rw [hlength x hx] at hi; omega
  have hget := congrArg (fun v : Key => v.toList[i]?) h
  simpa [paddingBlake3, hi, hi', h32] using hget

theorem cookies_valid_half_minute :
    30 ≤ 30 ∧ CookiesValid paddingBlake3 (.new (.replicate 32 7)) twoAddrs 30 :=
  ⟨le_rfl, (cookies_valid_iff ⟨_, .inl rfl, _, .inr rfl, by decide⟩ (collisionFree_twoAddrs _)
    (by decide)).mpr le_rfl⟩

/-- **Zero bytes are a cookie**: in the first bucket, for an address whose cookies are never zero. -/
theorem zero_cookie_accepted :
    CollisionFree paddingBlake3 (.replicate 32 7) twoAddrs ∧
      ¬ CookiesValid paddingBlake3 (.new (.replicate 32 7)) twoAddrs 29 := by
  refine ⟨collisionFree_twoAddrs _, fun h => ?_⟩
  have hrejected := h.2 [1, 2, 3, 4] (.inl rfl) (.replicate 32 0) fun t _ _ heq => by
    have hfirst := congrArg (fun v : Key => v.toList[0]?) heq
    simp [generate_eq, CookieFactory.compute, paddingBlake3] at hfirst
  revert hrejected
  decide

end SeamProtocol
