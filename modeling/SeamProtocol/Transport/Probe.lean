import SeamProtocol.Lib.Bytes
import SeamProtocol.Lib.Run

/-! # Path probes

A prober looks for the MTU by bisection, and then keeps the path alive. A probe that is echoed raises
the lower bound to its size; if one is lost, the upper bound falls to the midpoint of the current
bounds, whatever the size of the lost probe. An arithmetic underflow is `none`. -/

namespace SeamProtocol

open Lib List

def minMtu : Nat := 1280

def maxMtu : Nat := 1500

def probeInterval : Nat := 5 * 10 ^ 9

def probeTimeout : Nat := 2 * 10 ^ 9

def migrationThreshold : Nat := 3

def probeHdr : Nat := 16

structure PendingProbe where
  sentAt : Nat
  probeSize : Nat
  deriving DecidableEq

structure PathProber where
  nextProbe : Nat
  pending : List (Nat × PendingProbe)
  nextId : Nat
  pathMtu : Nat
  mtuLo : Nat
  mtuHi : Nat
  probingMtu : Bool
  consecutiveTimeouts : Nat
  deriving DecidableEq

namespace PathProber

def new (now : Nat) : PathProber := ⟨now, [], 0, minMtu, minMtu, maxMtu, true, 0⟩

def probeSize (p : PathProber) : Nat := if p.probingMtu then (p.mtuLo + p.mtuHi) / 2 else probeHdr

def probePayload (p : PathProber) (nowUs : Nat) : Bytes :=
  leBytes 8 p.nextId ++ leBytes 8 nowUs ++ List.replicate (p.probeSize - probeHdr) 0

def buildProbe (p : PathProber) (now : Nat) : PathProber :=
  { p with
    pending := (p.nextId, ⟨now, p.probeSize⟩) :: p.pending.filter (·.1 ≠ p.nextId)
    nextId := (p.nextId + 1) % 2 ^ 64
    nextProbe := now + probeInterval }

def echoed (p : PathProber) (payload : Bytes) : Option PendingProbe :=
  if payload.length < probeHdr then none else p.pending.lookup (leNat (payload.take 8))

def onEcho (p : PathProber) (payload : Bytes) (now : Nat) : Option (Option Nat × PathProber) :=
  match p.echoed payload with
  | none => some (none, p)
  | some probe =>
    let rest := { p with
      pending := p.pending.filter (·.1 ≠ leNat (payload.take 8))
      consecutiveTimeouts := 0 }
    if p.probingMtu then
      if probe.probeSize ≤ p.mtuHi then
        if p.mtuHi - probe.probeSize ≤ 16 then
          some (some (now - probe.sentAt),
            { rest with mtuLo := probe.probeSize, pathMtu := probe.probeSize, probingMtu := false })
        else some (some (now - probe.sentAt), { rest with mtuLo := probe.probeSize })
      else none
    else some (some (now - probe.sentAt), rest)

def isExpired (now : Nat) (probe : Nat × PendingProbe) : Bool := probeTimeout ≤ now - probe.2.sentAt

def expireTimeouts (p : PathProber) (now : Nat) : PathProber :=
  let expired := p.pending.filter (isExpired now)
  let mtuLoss := expired.any fun probe => probeHdr < probe.2.probeSize
  let keepaliveLoss := expired.any fun probe => probe.2.probeSize ≤ probeHdr
  { p with
    pending := p.pending.filter fun probe => !isExpired now probe
    consecutiveTimeouts :=
      if keepaliveLoss then min (p.consecutiveTimeouts + 1) (2 ^ 32 - 1) else p.consecutiveTimeouts
    mtuHi := if mtuLoss && p.probingMtu then (p.mtuLo + p.mtuHi) / 2 else p.mtuHi }

def shouldMigrate (p : PathProber) : Bool := migrationThreshold ≤ p.consecutiveTimeouts

end PathProber

/-! ## Runs -/

inductive ProbeEvent where
  | build (now : Nat)
  | echo (payload : Bytes) (now : Nat)
  | expire (now : Nat)

structure ProberRun where
  prober : PathProber
  sizes : List Nat

namespace ProberRun

def step (r : ProberRun) : ProbeEvent → Option ProberRun
  | .build now => some { r with prober := r.prober.buildProbe now }
  | .echo payload now => (r.prober.onEcho payload now).map fun res =>
    ⟨res.2, ((r.prober.echoed payload).map PendingProbe.probeSize).toList ++ r.sizes⟩
  | .expire now => some { r with prober := r.prober.expireTimeouts now }

def OneAtATime (r : ProberRun) : ProbeEvent → Prop
  | .build _ => r.prober.pending = []
  | _ => True

structure Sound (r : ProberRun) : Prop where
  lo : minMtu ≤ r.prober.mtuLo
  lo_le_hi : r.prober.mtuLo ≤ r.prober.mtuHi
  hi : r.prober.mtuHi ≤ maxMtu
  sizes_le : ∀ size ∈ r.sizes, size ≤ r.prober.mtuHi
  pathMtu : r.prober.pathMtu = minMtu ∨ r.prober.pathMtu ∈ r.sizes

structure Inv (r : ProberRun) : Prop where
  lo : minMtu ≤ r.prober.mtuLo
  lo_le_hi : r.prober.mtuLo ≤ r.prober.mtuHi
  hi : r.prober.mtuHi ≤ maxMtu
  sizes_le : ∀ size ∈ r.sizes, size ≤ r.prober.mtuLo
  pathMtu : r.prober.pathMtu = minMtu ∨ r.prober.pathMtu ∈ r.sizes
  pending : r.prober.pending = [] ∨ ∃ id t, r.prober.pending = [(id, ⟨t, r.prober.probeSize⟩)]

variable {r : ProberRun}

theorem Inv.sound (h : r.Inv) : r.Sound :=
  ⟨h.lo, h.lo_le_hi, h.hi, fun size hsize => (h.sizes_le size hsize).trans h.lo_le_hi, h.pathMtu⟩

open PathProber

theorem Inv.echo (h : r.Inv) (payload : Bytes) (now : Nat) :
    ∃ r', r.step (.echo payload now) = some r' ∧ r'.Inv ∧ r.prober.mtuLo ≤ r'.prober.mtuLo := by
  obtain ⟨hlo, hle, hhi, hsizes, hmtu, hpending⟩ := h
  cases hecho : r.prober.echoed payload with
  | none =>
    refine ⟨r, ?_, ⟨hlo, hle, hhi, hsizes, hmtu, hpending⟩, le_rfl⟩
    simp [step, onEcho, hecho]
  | some probe =>
    obtain ⟨hprobe, hrest⟩ : probe.probeSize = r.prober.probeSize ∧
        r.prober.pending.filter (·.1 ≠ leNat (payload.take 8)) = [] := by
      unfold echoed at hecho
      rcases hpending with hnil | ⟨id, t, hone⟩
      · simp [hnil] at hecho
      · by_cases hid : leNat (payload.take 8) = id
        · simp [hone, hid] at hecho ⊢
          simp [← hecho.2]
        · simp [hone, lookup_cons, beq_false_of_ne hid] at hecho
    simp only [step, onEcho, hecho, hrest, Option.map_some, Option.toList_some,
      singleton_append, hprobe]
    by_cases hon : r.prober.probingMtu = true
    · have hmid : r.prober.probeSize = (r.prober.mtuLo + r.prober.mtuHi) / 2 := if_pos hon
      have hup : r.prober.mtuLo ≤ r.prober.probeSize := by omega
      have hdown : r.prober.probeSize ≤ r.prober.mtuHi := by omega
      have hgrown : ∀ size ∈ r.prober.probeSize :: r.sizes, size ≤ r.prober.probeSize := by
        intro size hsize
        rcases mem_cons.mp hsize with rfl | hsize
        · exact le_rfl
        · exact (hsizes size hsize).trans hup
      split_ifs
      · exact ⟨_, rfl, ⟨hlo.trans hup, hdown, hhi, hgrown, .inr mem_cons_self, .inl rfl⟩, hup⟩
      · exact ⟨_, rfl, ⟨hlo.trans hup, hdown, hhi, hgrown, hmtu.imp id (mem_cons_of_mem _), .inl rfl⟩,
          hup⟩
    · have hkeep : r.prober.probeSize = probeHdr := if_neg hon
      rw [if_neg hon]
      refine ⟨_, rfl, ⟨hlo, hle, hhi, fun size hsize => ?_, hmtu.imp id (mem_cons_of_mem _),
        .inl rfl⟩, le_rfl⟩
      rcases mem_cons.mp hsize with rfl | hsize
      · exact hkeep.trans_le (le_trans (by decide) hlo)
      · exact hsizes size hsize

theorem Inv.expire (h : r.Inv) (now : Nat) :
    ∃ r', r.step (.expire now) = some r' ∧ r'.Inv ∧ r.prober.mtuLo ≤ r'.prober.mtuLo := by
  by_cases hnone : ∀ probe ∈ r.prober.pending, isExpired now probe = false
  · refine ⟨r, ?_, h, le_rfl⟩
    have hall : r.prober.pending.filter (fun probe => !isExpired now probe) = r.prober.pending :=
      filter_eq_self.mpr fun probe hprobe => by simp [hnone probe hprobe]
    have hnil : r.prober.pending.filter (isExpired now) = [] :=
      filter_eq_nil_iff.mpr fun probe hprobe => by simp [hnone probe hprobe]
    simp [step, expireTimeouts, hall, hnil]
  · obtain ⟨hlo, hle, hhi, hsizes, hmtu, hnil | ⟨id, t, hone⟩⟩ := h
    · simp [hnil] at hnone
    refine ⟨_, rfl, ⟨hlo, ?_, ?_, hsizes, hmtu, .inl ?_⟩, le_rfl⟩
    · unfold expireTimeouts
      dsimp only
      split_ifs <;> omega
    · unfold expireTimeouts
      dsimp only
      split_ifs <;> omega
    · simp_all [expireTimeouts]

theorem Inv.step (h : r.Inv) {e : ProbeEvent} (hok : r.OneAtATime e) :
    ∃ r', r.step e = some r' ∧ r'.Inv ∧ r.prober.mtuLo ≤ r'.prober.mtuLo := by
  cases e with
  | build now =>
    refine ⟨_, rfl, ⟨h.lo, h.lo_le_hi, h.hi, h.sizes_le, h.pathMtu, .inr ⟨r.prober.nextId, now, ?_⟩⟩, le_rfl⟩
    simp only [OneAtATime] at hok
    simp [buildProbe, hok, probeSize]
  | echo payload now => exact h.echo payload now
  | expire now => exact h.expire now

end ProberRun

/-! ## A path with a fixed MTU -/

namespace PathProber

def resolve (mtu : Nat) (p : PathProber) (now : Nat) : Option PathProber :=
  if p.probeSize ≤ mtu then ((p.buildProbe now).onEcho (p.probePayload (now / 1000)) now).map Prod.snd
  else some ((p.buildProbe now).expireTimeouts (now + probeTimeout))

/-- Less than `n` sizes are left, or the search has ended. -/
structure Searching (mtu n : Nat) (p : PathProber) : Prop where
  pending : p.pending = []
  nextId : p.nextId < 2 ^ 64
  bounds : if p.probingMtu then
      minMtu ≤ p.mtuLo ∧ p.mtuLo ≤ mtu ∧ mtu ≤ p.mtuHi ∧ p.mtuHi < p.mtuLo + n
    else mtu < p.pathMtu + 17 ∧ p.pathMtu ≤ mtu

variable {p : PathProber} {mtu n : Nat}

theorem id_probePayload (hid : p.nextId < 2 ^ 64) (nowUs : Nat) :
    leNat ((p.probePayload nowUs).take 8) = p.nextId := by
  rw [probePayload, append_assoc, take_left' (length_leBytes ..), leNat_leBytes]
  omega

theorem echoed_buildProbe (hid : p.nextId < 2 ^ 64) (now nowUs : Nat) :
    (p.buildProbe now).echoed (p.probePayload nowUs) = some ⟨now, p.probeSize⟩ := by
  rw [echoed, if_neg (by simp [probePayload, probeHdr]; omega), id_probePayload hid]
  simp [buildProbe]

theorem Searching.round (h : p.Searching mtu (n + 1)) (hmtu : minMtu ≤ mtu) (now : Nat) :
    ∃ p', p.resolve mtu now = some p' ∧ p'.Searching mtu n := by
  obtain ⟨hpending, hid, hbounds⟩ := h
  have hnext : (p.nextId + 1) % 2 ^ 64 < 2 ^ 64 := Nat.mod_lt _ (by decide)
  have hrest : (p.buildProbe now).pending.filter
      (·.1 ≠ leNat ((p.probePayload (now / 1000)).take 8)) = [] := by
    simp [buildProbe, hpending, id_probePayload hid]
  rw [resolve, onEcho, echoed_buildProbe hid, hrest]
  dsimp only [buildProbe]
  by_cases hon : p.probingMtu = true
  · simp only [hon, if_true] at hbounds ⊢
    have hsize : p.probeSize = (p.mtuLo + p.mtuHi) / 2 := if_pos hon
    by_cases hfit : p.probeSize ≤ mtu
    · simp only [hfit, show p.probeSize ≤ p.mtuHi by omega, if_true]
      split_ifs
      · exact ⟨_, rfl, rfl, hnext, by simp; omega⟩
      · exact ⟨_, rfl, rfl, hnext, by simp; omega⟩
    · rw [if_neg hfit]
      refine ⟨_, rfl, ?_, hnext, ?_⟩
      · simp [expireTimeouts, hpending, isExpired]
      · have hmtuLoss : probeHdr < p.probeSize := by
          simp only [minMtu, probeHdr] at *
          omega
        simp [expireTimeouts, hpending, isExpired, hmtuLoss]
        omega
  · have hsize : p.probeSize = probeHdr := if_neg hon
    have hfit : p.probeSize ≤ mtu := hsize.trans_le (le_trans (by decide) hmtu)
    simp only [hon, hfit, if_true] at hbounds ⊢
    exact ⟨_, rfl, rfl, hnext, hbounds⟩

theorem Searching.ends (h : p.Searching mtu n) (hmtu : minMtu ≤ mtu) {nows : List Nat}
    (hlen : n ≤ nows.length) : ∃ p', exec (resolve mtu) p nows = some p' ∧ p'.Searching mtu 0 := by
  induction nows generalizing p n with
  | nil =>
    rw [length_nil, Nat.le_zero] at hlen
    exact ⟨p, rfl, hlen ▸ h⟩
  | cons now nows ih =>
    have hle : p.Searching mtu (nows.length + 1) := by
      refine ⟨h.pending, h.nextId, ?_⟩
      have hbounds := h.bounds
      rw [length_cons] at hlen
      split_ifs at hbounds ⊢ <;> omega
    obtain ⟨q, hq, hsearch⟩ := hle.round hmtu now
    obtain ⟨p', hrun, hend⟩ := ih hsearch le_rfl
    exact ⟨p', by simp [exec_cons, hq, hrun], hend⟩

end PathProber

/-- **The MTU search** is sound in every run in which each probe is resolved before the next is built:
no subtraction underflows, the bounds and the path MTU are sound, and the lower bound never decreases.
On a path with a fixed MTU it ends at most 16 bytes below it. -/
theorem mtu_search (t : Nat) {es : List ProbeEvent}
    (hok : Meets ProberRun.step ProberRun.OneAtATime ⟨.new t, []⟩ es) :
    (∃ r, exec ProberRun.step ⟨.new t, []⟩ es = some r ∧ r.Sound ∧
      ∀ e, r.OneAtATime e → ∃ r', r.step e = some r' ∧ r.prober.mtuLo ≤ r'.prober.mtuLo) ∧
    ∀ mtu, minMtu ≤ mtu → mtu ≤ maxMtu → ∀ nows : List Nat, 221 ≤ nows.length →
      ∃ p, exec (PathProber.resolve mtu) (.new t) nows = some p ∧ p.probingMtu = false ∧
        mtu < p.pathMtu + 17 ∧ p.pathMtu ≤ mtu := by
  constructor
  · have hnew : ProberRun.Inv ⟨.new t, []⟩ :=
      ⟨le_rfl, show minMtu ≤ maxMtu by decide, le_rfl, nofun, .inl rfl, .inl rfl⟩
    obtain ⟨r, hrun, hinv⟩ := exec_total_of_meets ProberRun.Inv (fun r e h hok => by
      obtain ⟨r', hstep, hinv, -⟩ := h.step hok
      exact ⟨r', hstep, hinv⟩) hnew hok
    refine ⟨r, hrun, hinv.sound, fun e he => ?_⟩
    obtain ⟨r', hstep, -, hle⟩ := hinv.step he
    exact ⟨r', hstep, hle⟩
  · intro mtu hmin hmax nows hlen
    have hnew : (PathProber.new t).Searching mtu 221 :=
      ⟨rfl, show 0 < 2 ^ 64 by decide, ⟨le_rfl, hmin, hmax, show maxMtu < minMtu + 221 by decide⟩⟩
    obtain ⟨p, hrun, -, -, hend⟩ := hnew.ends hmin hlen
    split_ifs at hend with hon
    · omega
    · exact ⟨p, hrun, by simpa using hon, hend⟩

/-- A probe that is echoed. -/
theorem mtu_search_one_probe :
    ∃ r, exec ProberRun.step ⟨.new 0, []⟩ [.build 0, .echo (leBytes 16 0) 1] = some r ∧ r.Sound := by
  have hok : Meets ProberRun.step ProberRun.OneAtATime ⟨.new 0, []⟩ [.build 0, .echo (leBytes 16 0) 1] :=
    ⟨rfl, fun _ _ => ⟨trivial, fun _ _ => trivial⟩⟩
  obtain ⟨r, hrun, hsound, -⟩ := (mtu_search 0 hok).1
  exact ⟨r, hrun, hsound⟩

/-- **A late echo**: after two probes of one size are lost, the upper bound is below that size, and the
echo of a third one underflows. -/
theorem late_echo_underflows :
    exec ProberRun.step ⟨.new 0, []⟩ [.build 0, .build (10 ^ 9), .build (2 * 10 ^ 9),
      .expire (2 * 10 ^ 9), .expire (3 * 10 ^ 9), .echo (leBytes 16 2) (3 * 10 ^ 9)] = none := by
  decide +kernel

end SeamProtocol
