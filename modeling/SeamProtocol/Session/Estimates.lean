import SeamProtocol.Lib.Run
import SeamProtocol.Session.Resources

/-! # Round-trip estimates and the timeout

The tracker smooths its samples with truncating divisions, so the estimate may fall below every sample,
by 14 µs at most. The timeout stays between 200 ms and 60 s, and a drain at most doubles it. -/

namespace SeamProtocol

open Lib List Option SortedMap ArqTracker

namespace ArqTracker

def sample? (t : ArqTracker) (pktNum now : Nat) : Option Nat :=
  (t.inFlight.get? pktNum).bind fun pkt =>
    if pkt.retransmits = 0 then some (now - pkt.sentAt) else none

def SampleFits (t : ArqTracker) (rtt : Nat) : Prop :=
  ∀ n ∈ [rtt / 1000, 7 * t.srttUs, 3 * t.rttvarUs, (t.updateRtt rtt).srttUs,
      4 * (t.updateRtt rtt).rttvarUs, (t.updateRtt rtt).srttUs + 4 * (t.updateRtt rtt).rttvarUs],
    n < 2 ^ 64

structure Within (t : ArqTracker) (hi : Nat) : Prop where
  srtt : t.srttUs ≤ hi
  rttvar : t.rttvarUs ≤ hi
  rto : 200000000 ≤ t.rto ∧ t.rto ≤ 60000000000

variable {t : ArqTracker} {lo hi : Nat}

theorem Within.packets (h : t.Within hi) (inFlight : SortedMap Nat InFlight) :
    { t with inFlight }.Within hi :=
  ⟨h.srtt, h.rttvar, h.rto⟩

variable {rtt : Nat}

/-- **A sample** keeps the bounds: the two divisions lose at most `7 / 8` each, and 14 is what seven
eighths of itself and these make. -/
theorem Within.updateRtt (h : t.Within hi) (hlow : t.srttUs = 0 ∨ lo - 14 ≤ t.srttUs)
    (hrtt : lo ≤ rtt / 1000 ∧ rtt / 1000 ≤ hi) :
    (t.updateRtt rtt).Within hi ∧ lo - 14 ≤ (t.updateRtt rtt).srttUs := by
  obtain ⟨hsrtt, hvar, -⟩ := h
  unfold ArqTracker.updateRtt
  refine ⟨⟨?_, ?_, ?_⟩, ?_⟩ <;> dsimp only
  · split_ifs <;> omega
  · split_ifs <;> omega
  · exact ⟨le_min (le_max_right _ _) (by decide), min_le_right _ _⟩
  · split_ifs <;> omega

theorem Within.sampleFits (h : t.Within hi) (hhi : hi < 2 ^ 60) (hrtt : rtt / 1000 ≤ hi) :
    t.SampleFits rtt := by
  have hnext := (h.updateRtt (.inr (Nat.zero_le _ : 0 - 14 ≤ _)) ⟨Nat.zero_le _, hrtt⟩).1
  have := h.srtt
  have := h.rttvar
  have := hnext.srtt
  have := hnext.rttvar
  simp only [SampleFits, forall_mem_cons]
  refine ⟨?_, ?_, ?_, ?_, ?_, ?_, nofun⟩ <;> omega

theorem onAck_snd (t : ArqTracker) (pktNum now : Nat) :
    ∃ inFlight, (t.onAck pktNum now).2 = match t.sample? pktNum now with
      | none => { t with inFlight }
      | some rtt => { t with inFlight }.updateRtt rtt := by
  unfold onAck sample?
  cases t.inFlight.get? pktNum with
  | none => exact ⟨_, rfl⟩
  | some pkt =>
    dsimp only [bind_some]
    split_ifs
    · exact ⟨_, rfl⟩
    · exact ⟨_, rfl⟩

theorem mem_drainExpired_iff (t : ArqTracker) (now pktNum : Nat) :
    pktNum ∈ (t.drainExpired now).1.map Prod.fst ↔
      ∃ pkt, t.inFlight.get? pktNum = some pkt ∧ t.expired now pkt = true := by
  simp only [drainExpired, List.map_map, List.mem_map, List.mem_filter, Function.comp_apply]
  constructor
  · rintro ⟨⟨k, pkt⟩, ⟨hmem, hexp⟩, rfl⟩
    exact ⟨pkt, (mem_entries_iff _ _ _).mp hmem, hexp⟩
  · rintro ⟨pkt, hget, hexp⟩
    exact ⟨(pktNum, pkt), ⟨(mem_entries_iff _ _ _).mpr hget, hexp⟩, rfl⟩

theorem Within.drainExpired (h : t.Within hi) (now : Nat) :
    (t.drainExpired now).2.Within hi ∧ t.rto ≤ (t.drainExpired now).2.rto ∧
      (t.drainExpired now).2.rto ≤ 2 * t.rto := by
  obtain ⟨hlow, hhigh⟩ := h.rto
  have hrto : t.rto ≤ (t.drainExpired now).2.rto ∧ (t.drainExpired now).2.rto ≤ 2 * t.rto ∧
      (t.drainExpired now).2.rto ≤ 60000000000 := by
    unfold ArqTracker.drainExpired
    dsimp only
    split_ifs <;> omega
  exact ⟨⟨h.srtt, h.rttvar, hlow.trans hrto.1, hrto.2.2⟩, hrto.1, hrto.2.1⟩

end ArqTracker

/-! ## Runs -/

inductive ArqCall where
  | sent (pktNum : Nat) (data : Bytes) (now : Nat)
  | ack (pktNum now : Nat)
  | drain (now : Nat)

structure ArqRun where
  tracker : ArqTracker
  /-- How often a packet was returned by a drain since it was sent. -/
  resent : Nat → Nat
  sampled : Bool

namespace ArqRun

def start : ArqRun := ⟨.new, fun _ => 0, false⟩

def step (s : ArqRun) : ArqCall → Option ArqRun
  | .sent pktNum data now => some
    { s with tracker := s.tracker.onSent pktNum data now, resent := Function.update s.resent pktNum 0 }
  | .ack pktNum now => some
    { s with
      tracker := (s.tracker.onAck pktNum now).2
      sampled := s.sampled || (s.tracker.sample? pktNum now).isSome }
  | .drain now =>
    let (due, tracker) := s.tracker.drainExpired now
    some { s with tracker, resent := fun k => s.resent k + if k ∈ due.map Prod.fst then 1 else 0 }

/-- A sample that the call takes lies between `lo` and `hi` microseconds. -/
def SampleIn (lo hi : Nat) (s : ArqRun) : ArqCall → Prop
  | .ack pktNum now => ∀ rtt ∈ s.tracker.sample? pktNum now, lo ≤ rtt / 1000 ∧ rtt / 1000 ≤ hi
  | _ => True

def CountFits (s : ArqRun) : ArqCall → Prop
  | .drain now => ∀ e ∈ s.tracker.inFlight.entries, s.tracker.expired now e.2 = true →
    e.2.retransmits + 1 < 2 ^ 32
  | _ => True

instance (lo hi : Nat) (s : ArqRun) : ∀ c, Decidable (s.SampleIn lo hi c ∧ s.CountFits c)
  | .sent _ _ _ => isTrue ⟨trivial, trivial⟩
  | .ack pktNum now => inferInstanceAs (Decidable
    ((∀ rtt ∈ s.tracker.sample? pktNum now, lo ≤ rtt / 1000 ∧ rtt / 1000 ≤ hi) ∧ True))
  | .drain now => inferInstanceAs (Decidable (True ∧ ∀ e ∈ s.tracker.inFlight.entries,
    s.tracker.expired now e.2 = true → e.2.retransmits + 1 < 2 ^ 32))

structure Bounded (lo hi : Nat) (s : ArqRun) : Prop where
  within : s.tracker.Within hi
  low : s.sampled = true → lo - 14 ≤ s.tracker.srttUs

/-- **What a call should do**: samples fit and come from packets that were never retransmitted, and
a drain counts without overflow and at most doubles the timeout. -/
def Behaves (lo hi : Nat) (s : ArqRun) (call : ArqCall) : Prop :=
  s.Bounded lo hi ∧ match call with
    | .sent _ _ _ => True
    | .ack pktNum now => ∀ rtt ∈ s.tracker.sample? pktNum now,
      s.resent pktNum = 0 ∧ s.tracker.SampleFits rtt
    | .drain now => s.CountFits (.drain now) ∧ s.tracker.rto ≤ (s.tracker.drainExpired now).2.rto ∧
      (s.tracker.drainExpired now).2.rto ≤ 2 * s.tracker.rto

variable {s : ArqRun} {lo hi : Nat} {call : ArqCall}

structure Inv (lo hi : Nat) (s : ArqRun) : Prop extends Bounded lo hi s where
  fresh : s.sampled = false → s.tracker.srttUs = 0
  counted : ∀ k pkt, s.tracker.inFlight.get? k = some pkt → pkt.retransmits = s.resent k

theorem inv_start (lo hi : Nat) : Inv lo hi start :=
  ⟨⟨⟨Nat.zero_le _, Nat.zero_le _, by decide⟩, nofun⟩, fun _ => rfl, nofun⟩

theorem Inv.step (h : s.Inv lo hi) (hsample : s.SampleIn lo hi call) :
    ∃ s', s.step call = some s' ∧ s'.Inv lo hi := by
  cases call with
  | sent pktNum data now =>
    refine ⟨_, rfl, ⟨h.within.packets _, h.low⟩, h.fresh, fun k pkt hget => ?_⟩
    dsimp only
    by_cases hk : k = pktNum
    · subst hk
      have hget : some _ = some pkt := (get?_insert_self _ _ _).symm.trans hget
      rw [← Option.some.inj hget, Function.update_self]
    · rw [Function.update_of_ne hk]
      exact h.counted k pkt ((get?_insert_of_ne _ _ hk).symm.trans hget)
  | ack pktNum now =>
    have hcounted : ∀ k pkt, (s.tracker.onAck pktNum now).2.inFlight.get? k = some pkt →
        pkt.retransmits = s.resent k := by
      intro k pkt hget
      rw [onAck_inFlight_get?] at hget
      split_ifs at hget
      exact h.counted k pkt hget
    obtain ⟨inFlight, heq⟩ := s.tracker.onAck_snd pktNum now
    rw [ArqRun.step, heq]
    rw [heq] at hcounted
    cases hs : s.tracker.sample? pktNum now with
    | none =>
      rw [hs] at hcounted
      rw [isSome_none, Bool.or_false]
      exact ⟨_, rfl, ⟨h.within.packets _, h.low⟩, h.fresh, hcounted⟩
    | some rtt =>
      rw [hs] at hcounted
      -- an estimate of zero is there before the first sample, or starts anew
      have hlow : s.tracker.srttUs = 0 ∨ lo - 14 ≤ s.tracker.srttUs := by
        cases hsampled : s.sampled with
        | false => exact .inl (h.fresh hsampled)
        | true => exact .inr (h.low hsampled)
      have hnext := (h.within.packets inFlight).updateRtt hlow (hsample rtt hs)
      rw [isSome_some, Bool.or_true]
      exact ⟨_, rfl, ⟨hnext.1, fun _ => hnext.2⟩, nofun, hcounted⟩
  | drain now =>
    refine ⟨_, rfl, ⟨(h.within.drainExpired now).1, h.low⟩, h.fresh, fun k pkt hget => ?_⟩
    have hmem := s.tracker.mem_drainExpired_iff now k
    obtain ⟨pkt', hpkt, rfl⟩ := map_eq_some_iff.mp ((get?_mapVal _ _ k).symm.trans hget)
    rw [hpkt] at hmem
    simp only [Option.some.injEq, exists_eq_left'] at hmem
    show _ = s.resent k + if k ∈ (s.tracker.drainExpired now).1.map Prod.fst then 1 else 0
    simp only [hmem, ← h.counted k pkt' hpkt]
    split_ifs <;> rfl

theorem Inv.behaves (h : s.Inv lo hi) (hhi : hi < 2 ^ 60) (hsample : s.SampleIn lo hi call)
    (hcount : s.CountFits call) : s.Behaves lo hi call := by
  refine ⟨h.toBounded, ?_⟩
  cases call with
  | sent pktNum data now => trivial
  | ack pktNum now =>
    intro rtt hrtt
    refine ⟨?_, h.within.sampleFits hhi (hsample rtt hrtt).2⟩
    obtain ⟨pkt, hget, hpkt⟩ := bind_eq_some_iff.mp hrtt
    rw [← h.counted pktNum pkt hget]
    exact (ite_none_right_eq_some.mp hpkt).1
  | drain now => exact ⟨hcount, (h.within.drainExpired now).2⟩

end ArqRun

open ArqRun

/-- **Estimates and timeouts are bounded**, and every call behaves, in every run with samples between `lo`
and `hi` in which no packet is retransmitted so often that its counter overflows. -/
theorem estimates_bounded {lo hi : Nat} (hhi : hi < 2 ^ 60) {calls : List ArqCall}
    (hok : Meets ArqRun.step (fun s c => s.SampleIn lo hi c ∧ s.CountFits c) start calls) :
    Meets ArqRun.step (Behaves lo hi) start calls ∧
      ∃ s, exec ArqRun.step start calls = some s ∧ s.Bounded lo hi := by
  refine ⟨hok.of_invariant (Inv lo hi) ?_ (fun s c hs hc => hs.behaves hhi hc.1 hc.2) (inv_start lo hi), ?_⟩
  · intro s c s' hs hc hst
    obtain ⟨t, hst', ht⟩ := hs.step hc.1
    rw [hst, Option.some.injEq] at hst'
    exact hst' ▸ ht
  · obtain ⟨s, hrun, hs⟩ := exec_total_of_meets (Inv lo hi) (fun s c hs hc => hs.step hc.1)
      (inv_start lo hi) hok
    exact ⟨s, hrun, hs.toBounded⟩

/-- A sample, and a packet that is sent again. -/
theorem estimates_bounded_resent :
    let calls : List ArqCall := [.sent 0 [1] 0, .ack 0 8000000, .sent 1 [2] 0, .drain 300000000]
    Meets ArqRun.step (Behaves 8000 8000) start calls ∧
      ∃ s, exec ArqRun.step start calls = some s ∧ s.Bounded 8000 8000 ∧ s.resent 1 = 1 := by
  intro calls
  have hok : Meets ArqRun.step (fun s c => s.SampleIn 8000 8000 c ∧ s.CountFits c) start calls := by
    decide +kernel
  obtain ⟨hmeets, s, hrun, hs⟩ := estimates_bounded (by decide) hok
  have hresent : ∃ s, exec ArqRun.step start calls = some s ∧ s.resent 1 = 1 := by decide +kernel
  refine ⟨hmeets, exists_exec_of hresent fun s' hrun' hone => ⟨?_, hone⟩⟩
  rw [hrun, Option.some.injEq] at hrun'
  exact hrun' ▸ hs

def drains (n : Nat) : List ArqCall :=
  .sent 0 [] 0 :: (List.range n).map fun i => .drain ((i + 1) * 60000000000)

theorem drains_succ (n : Nat) : drains (n + 1) = drains n ++ [.drain ((n + 1) * 60000000000)] := by
  rw [drains, range_succ, map_append]
  rfl

theorem expired_minute {t : ArqTracker} (h : t.rto ≤ 60000000000) (n : Nat) :
    t.expired ((n + 1) * 60000000000) ⟨[], n * 60000000000, n⟩ = true := by
  rw [expired, decide_eq_true_iff]
  dsimp only
  omega

theorem exec_drains (n : Nat) : ∃ s, exec ArqRun.step start (drains n) = some s ∧
    s.tracker.rto ≤ 60000000000 ∧
    s.tracker.inFlight.get? 0 = some ⟨[], n * 60000000000, n⟩ := by
  induction n with
  | zero => exact ⟨_, rfl, by decide, rfl⟩
  | succ n ih =>
    obtain ⟨s, hrun, hrto, hget⟩ := ih
    refine ⟨_, by rw [drains_succ, exec_append, hrun]; rfl, ?_, ?_⟩
    · show (s.tracker.drainExpired _).2.rto ≤ _
      unfold drainExpired
      dsimp only
      split_ifs
      · exact hrto
      · exact min_le_right _ _
    · refine (get?_mapVal _ _ 0).trans ?_
      simp [hget, expired_minute hrto n]

/-- **The counter of a packet that is retransmitted `2 ^ 32` times overflows.** -/
theorem retransmit_count_overflows :
    Meets ArqRun.step (SampleIn 0 0) start (drains (2 ^ 32)) ∧
      ¬ Meets ArqRun.step (Behaves 0 0) start (drains (2 ^ 32)) := by
  obtain ⟨n, hn⟩ : ∃ n, 2 ^ 32 = n + 1 := ⟨2 ^ 32 - 1, by norm_num⟩
  refine ⟨Meets.of_forall fun s c hc => ?_, fun h => ?_⟩
  · rcases mem_cons.mp hc with rfl | hc
    · trivial
    · obtain ⟨i, -, rfl⟩ := List.mem_map.mp hc
      trivial
  · rw [hn, drains_succ] at h
    obtain ⟨s, hrun, hrto, hget⟩ := exec_drains n
    obtain ⟨-, hcount, -⟩ := (h.after hrun).1
    have hlt := hcount _ ((mem_entries_iff _ _ _).mpr hget) (expired_minute hrto n)
    dsimp only at hlt
    omega

end SeamProtocol
