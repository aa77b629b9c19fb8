import SeamProtocol.Lib.Float
import SeamProtocol.Session.PacketSizes

/-! # Congestion control

Two window-based controllers, told what was sent, acknowledged and lost. CUBIC computes with `f64`, AIMD
with 64-bit integers. -/

namespace SeamProtocol

open Lib

def mss : Nat := 1400

inductive CcEvent where
  | send (bytes : UInt64)
  | ack (bytes : UInt64) (rtt now : Nat)
  | loss (now : Nat)
  | timeout
  deriving DecidableEq

/-! ## CUBIC -/

structure Cubic (F : Type) where
  cwnd : F
  ssthresh : F
  bytesInFlight : Nat
  /-- The window at the last loss. -/
  wMax : F
  /-- The same, for fast convergence. -/
  wLastMax : F
  /-- When congestion avoidance began. -/
  epochStart : Option Nat
  epochCwnd : F
  /-- The TCP-friendly estimate. -/
  wEst : F
  lastRtt : Nat

namespace Cubic

open F64

variable {F : Type} [F64 F]

def c : F := 0.4

def beta : F := 0.7

def alphaCubic : F := 3.0 * beta / (2.0 - beta)

def new : Cubic F :=
  let init := 10.0 * ofNat mss
  { cwnd := init
    ssthresh := maxValue
    bytesInFlight := 0
    wMax := init
    wLastMax := init
    epochStart := none
    epochCwnd := init
    wEst := init
    lastRtt := 100 * 10 ^ 6 }

def cubicWindow (s : Cubic F) (tSecs : F) : F :=
  let k := cbrt (s.wMax * (1.0 - beta) / c)
  c * powi (tSecs - k) 3 + s.wMax

def tcpFriendlyWindow (s : Cubic F) (acked : F) : F :=
  s.wEst + alphaCubic * ofNat mss * acked / s.cwnd

def available (s : Cubic F) : Nat := toNat s.cwnd - s.bytesInFlight

def onSend (s : Cubic F) (bytes : UInt64) : Cubic F :=
  { s with bytesInFlight := saturatingAdd s.bytesInFlight bytes.toNat }

def onAck (s : Cubic F) (bytes : UInt64) (rtt now : Nat) : Cubic F :=
  let s := { s with bytesInFlight := s.bytesInFlight - bytes.toNat, lastRtt := rtt }
  let acked := ofNat bytes.toNat
  if lt s.cwnd s.ssthresh then
    -- slow start
    let s := { s with cwnd := s.cwnd + acked, wEst := s.cwnd + acked }
    if le s.ssthresh s.cwnd then { s with epochStart := some now, epochCwnd := s.cwnd } else s
  else
    -- congestion avoidance
    let epochStart := s.epochStart.getD now
    let wCubic := s.cubicWindow (ofNanos (now - epochStart))
    let wEst := s.tcpFriendlyWindow acked
    let target := fmax wCubic wEst
    let cwnd := if lt s.cwnd target then
        s.cwnd + fmin (target - s.cwnd) (ofNat mss) * acked / s.cwnd
      else s.cwnd
    { s with epochStart := some epochStart, wEst, cwnd := fmax cwnd (ofNat mss) }

def onLoss (s : Cubic F) : Cubic F :=
  let wMax := if lt s.cwnd s.wLastMax then s.cwnd * (2.0 - beta) / 2.0 else s.cwnd
  let ssthresh := fmax (s.cwnd * beta) (2.0 * ofNat mss)
  { s with
    wLastMax := s.cwnd
    wMax
    ssthresh
    cwnd := ssthresh
    wEst := ssthresh
    epochStart := none
    bytesInFlight := min s.bytesInFlight (toNat ssthresh) }

def onTimeout (s : Cubic F) : Cubic F :=
  { s with
    wMax := s.cwnd
    ssthresh := fmax (s.cwnd * beta) (2.0 * ofNat mss)
    cwnd := ofNat mss
    wEst := ofNat mss
    epochStart := none
    bytesInFlight := 0 }

def step (s : Cubic F) : CcEvent → Cubic F
  | .send bytes => s.onSend bytes
  | .ack bytes rtt now => s.onAck bytes rtt now
  | .loss _ => s.onLoss
  | .timeout => s.onTimeout

variable [Lawful F]

open Lawful

theorem atLeast_two_mss {x : F} : AtLeast 2800 (fmax x (2.0 * ofNat mss)) := by
  refine max_right _ _ _ ?_
  rw [show (2.0 : F) = ofNat 2 from literal 2 (by decide), ofNat_mul _ _ (by decide)]
  exact atLeast_ofNat _ _ (by decide)

theorem atLeast_onAck {s : Cubic F} {n : Nat} (hn : 0 < n) (h : AtLeast n s.cwnd) (bytes : UInt64)
    (rtt now : Nat) : AtLeast n (s.onAck bytes rtt now).cwnd := by
  have hacked : AtLeast 0 (ofNat bytes.toNat : F) := atLeast_ofNat _ _ (Nat.zero_le _)
  unfold onAck
  dsimp only
  split_ifs with hslow hepoch hgrow
  · exact add _ _ _ h hacked
  · exact add _ _ _ h hacked
  · -- the increment is finite: it is at most a segment, and a `u64` times a segment is
    obtain ⟨hinc, hle⟩ := min _ (ofNat mss : F) (sub _ _ hgrow)
      (atLeast_ofNat _ _ (Nat.zero_le _))
    refine max_left _ _ _ (add _ _ _ h ?_)
    exact mul_div _ _ mss _ n hinc hle (by decide) bytes.toNat_lt hn h
  · exact max_left _ _ _ h

theorem atLeast_run {evs : List CcEvent} (h : .timeout ∉ evs) :
    AtLeast 2800 (evs.foldl step (new : Cubic F)).cwnd := by
  refine List.foldlRecOn (motive := fun s : Cubic F => AtLeast 2800 s.cwnd) _ _ ?_ fun s hs ev hev => ?_
  · rw [new, show (10.0 : F) = ofNat 10 from literal 10 (by decide),
      ofNat_mul _ _ (by decide)]
    exact atLeast_ofNat _ _ (by decide)
  · cases ev with
    | send bytes => exact hs
    | ack bytes rtt now => exact atLeast_onAck (by decide) hs bytes rtt now
    | loss now => exact atLeast_two_mss
    | timeout => exact absurd hev h

end Cubic

/-! ## AIMD -/

structure Aimd where
  cwnd : Nat
  ssthresh : Nat
  bytesInFlight : Nat
  lastLoss : Option Nat

namespace Aimd

def new : Aimd := ⟨10 * mss, 2 ^ 64 - 1, 0, none⟩

def available (s : Aimd) : Nat := s.cwnd - s.bytesInFlight

def onSend (s : Aimd) (bytes : UInt64) : Aimd :=
  { s with bytesInFlight := saturatingAdd s.bytesInFlight bytes.toNat }

def onAck (s : Aimd) (bytes : UInt64) : Aimd :=
  let s := { s with bytesInFlight := s.bytesInFlight - bytes.toNat }
  if s.cwnd < s.ssthresh then { s with cwnd := saturatingAdd s.cwnd bytes.toNat }
  else
    let inc := mss * bytes.toNat % 2 ^ 64 / max s.cwnd 1
    { s with cwnd := saturatingAdd s.cwnd (max inc 1) }

def onLoss (s : Aimd) (now : Nat) : Aimd :=
  if s.lastLoss.any fun last => now - last < 200 * 10 ^ 6 then s
  else
    let ssthresh := max (s.cwnd / 2) (2 * mss)
    { s with lastLoss := some now, ssthresh, cwnd := ssthresh }

def onTimeout (s : Aimd) : Aimd :=
  { s with ssthresh := max (s.cwnd / 2) (2 * mss), cwnd := 2 * mss, bytesInFlight := 0 }

def step (s : Aimd) : CcEvent → Aimd
  | .send bytes => s.onSend bytes
  | .ack bytes _ _ => s.onAck bytes
  | .loss now => s.onLoss now
  | .timeout => s.onTimeout

theorem le_cwnd_run (evs : List CcEvent) : 2 * mss ≤ (evs.foldl step new).cwnd := by
  refine List.foldlRecOn (motive := fun s : Aimd => 2 * mss ≤ s.cwnd) _ _ (by decide) fun s hs ev _ => ?_
  cases ev with
  | send bytes => exact hs
  | ack bytes rtt now =>
    simp only [step, onAck, saturatingAdd, mss] at hs ⊢
    split_ifs
    all_goals dsimp only; omega
  | loss now =>
    simp only [step, onLoss]
    split_ifs
    · exact hs
    · exact Nat.le_max_right _ _
  | timeout => exact Nat.le_refl _

end Aimd

def AdmitsWhenIdle (bytesInFlight available : Nat) : Prop :=
  bytesInFlight = 0 → largestDataPacket ≤ available

end SeamProtocol
