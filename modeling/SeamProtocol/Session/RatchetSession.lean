import SeamProtocol.Crypto.Ratchet
import SeamProtocol.Session.Core
import SeamProtocol.Lib.Run

/-! # The ratchet of a session

`SessionRatchet` decides when a DH step is due and moves its frame over the wire. Two sides should stay
in step: equal root keys, and each side's send chain the other side's receive chain. -/

namespace SeamProtocol

open Lib DoubleRatchet

/-! ## Sessions -/

structure RatchetConfig where
  epochPacketLimit : Nat := 1000
  epochTimeSecs : Nat := 30

structure SessionRatchet where
  inner : DoubleRatchet

namespace SessionRatchet

variable (K : RatchetPrimitives)

def new (handshakeHash : Key) (isInitiator : Bool) (config : RatchetConfig) (drawn : Key) (now : Nat) :
    SessionRatchet :=
  ⟨DoubleRatchet.newWithLimits K handshakeHash isInitiator config.epochPacketLimit
    (config.epochTimeSecs * 10 ^ 9) drawn now⟩

def nextSendKey (s : SessionRatchet) : Key × SessionRatchet :=
  let (key, inner) := s.inner.nextSendKey K
  (key, ⟨inner⟩)

def nextRecvKey (s : SessionRatchet) (now epoch packetIndex : Nat) : Option Key × SessionRatchet :=
  let (key, inner) := s.inner.nextRecvKey K now epoch packetIndex
  (key, ⟨inner⟩)

def maybeAdvanceSend (s : SessionRatchet) (drawn : Key) (now : Nat) : Option Bytes × SessionRatchet :=
  if !s.inner.shouldRatchet now then (none, s)
  else
    let (step, inner) := s.inner.advanceSendRatchet K drawn now
    (some step.encode, ⟨inner⟩)

def applyPeerStepBytes (s : SessionRatchet) (frameBytes : Bytes) :
    Except SeamError Unit × SessionRatchet :=
  match RatchetStep.decode frameBytes with
  | none => (.error (.protocolViolation "malformed RatchetStep frame"), s)
  | some step => (.ok (), ⟨s.inner.applyPeerRatchetStep K step⟩)

end SessionRatchet

/-! ## Two sides -/

structure RatchetPair where
  side : Role → DoubleRatchet

structure DhRound where
  stepper : Role
  drawn : Key
  now : Nat

namespace RatchetPair

variable (K : RatchetPrimitives)

def initial (rootSecret : Key) (drawn : Role → Key) (now : Nat) : RatchetPair where
  side x := DoubleRatchet.new K rootSecret (x = .client) (drawn x) now

def round (p : RatchetPair) (r : DhRound) : RatchetPair :=
  let (step, d) := (p.side r.stepper).advanceSendRatchet K r.drawn r.now
  { side := fun x => if x = r.stepper then d else (p.side x).applyPeerRatchetStep K step }

def step (p : RatchetPair) (r : DhRound) : Option RatchetPair := some (p.round K r)

variable (p : RatchetPair)

theorem exec_step (rounds : List DhRound) :
    exec (step K) p rounds = some (rounds.foldl (round K) p) := by
  induction rounds generalizing p with
  | nil => rfl
  | cons r rest ih => exact ih (p.round K r)

structure InStep (p : RatchetPair) : Prop where
  root : ∀ x, (p.side x).rootKey = (p.side x.peer).rootKey
  chain : ∀ x, (p.side x).sendChainKey = (p.side x.peer).recvChainKey

def Exchanged (p : RatchetPair) : Prop :=
  ∀ x, (p.side x).theirEphemeral = K.ephemeralPublic (p.side x.peer).ourEphemeral

def newRoot (p : RatchetPair) (r : DhRound) : Key :=
  ((p.side r.stepper).advanceSendRatchet K r.drawn r.now).2.rootKey

/-- A round that keeps the sides in step: the stepping side knows the other's ephemeral, and the new
root key gives one chain key under both labels. -/
structure Mirrored (p : RatchetPair) (r : DhRound) : Prop where
  known : (p.side r.stepper).theirEphemeral
    = K.ephemeralPublic (p.side r.stepper.peer).ourEphemeral
  /-- The label of the send chain and that of the receive chain give the same key. -/
  label : K.deriveKey .sendChain (p.newRoot K r).toList
    = K.deriveKey .recvChain (p.newRoot K r).toList

theorem inStep_initial (rootSecret : Key) (drawn : Role → Key) (now : Nat) :
    (initial K rootSecret drawn now).InStep := by
  constructor
  · intro x
    rfl
  · intro x
    cases x <;> rfl

@[simp] theorem round_side_stepper (r : DhRound) :
    (p.round K r).side r.stepper = ((p.side r.stepper).advanceSendRatchet K r.drawn r.now).2 :=
  if_pos rfl

@[simp] theorem round_side_peer (r : DhRound) :
    (p.round K r).side r.stepper.peer = (p.side r.stepper.peer).applyPeerRatchetStep K
      ((p.side r.stepper).advanceSendRatchet K r.drawn r.now).1 :=
  if_neg (by cases r.stepper <;> decide)

theorem forall_of_stepper {P : Role → Prop} (x : Role) (hx : P x) (hpeer : P x.peer) : ∀ y, P y := by
  intro y
  cases x <;> cases y <;> assumption

variable {p : RatchetPair}

theorem Exchanged.round (h : p.Exchanged K) (r : DhRound) : (p.round K r).Exchanged K := by
  refine forall_of_stepper r.stepper ?_ ?_
  · rw [round_side_stepper, round_side_peer]
    exact h r.stepper
  · rw [Role.peer_peer, round_side_stepper, round_side_peer]
    rfl

variable {K}

theorem Exchanged.meets (h : p.Exchanged K)
    (hlabel : ∀ root, K.deriveKey .sendChain root = K.deriveKey .recvChain root)
    (rounds : List DhRound) : Meets (step K) (Mirrored K) p rounds := by
  induction rounds generalizing p with
  | nil => trivial
  | cons r rest ih =>
    refine ⟨⟨h r.stepper, hlabel _⟩, ?_⟩
    intro q hq
    exact ih (Option.some.inj hq ▸ h.round K r)

/-- **One root key.** The stepping side uses its new secret with the other's public key, the other its
own secret with the announced public key. -/
theorem round_rootKey (hK : K.Commutes) (h : p.InStep) (r : DhRound)
    (hknown : (p.side r.stepper).theirEphemeral = K.ephemeralPublic (p.side r.stepper.peer).ourEphemeral) :
    ((p.round K r).side r.stepper.peer).rootKey = p.newRoot K r := by
  rw [round_side_peer]
  simp only [applyPeerRatchetStep, advanceSendRatchet, newRoot]
  rw [hknown, hK, h.root r.stepper]

theorem InStep.round (hK : K.Commutes) (h : p.InStep) {r : DhRound} (hr : p.Mirrored K r) :
    (p.round K r).InStep := by
  have hroot := round_rootKey hK h r hr.known
  constructor
  · refine forall_of_stepper r.stepper ?_ ?_
    · rw [hroot, round_side_stepper]
      rfl
    · rw [hroot, Role.peer_peer, round_side_stepper]
      rfl
  · refine forall_of_stepper r.stepper ?_ ?_
    · -- the direction of the step: both derive the chain from the new root key
      have hrecv : ((p.round K r).side r.stepper.peer).recvChainKey
          = K.deriveKey .recvChain ((p.round K r).side r.stepper.peer).rootKey.toList := by
        rw [round_side_peer]
        rfl
      rw [hrecv, hroot, ← hr.label, round_side_stepper]
      rfl
    · -- the other direction is left alone
      rw [Role.peer_peer, round_side_stepper, round_side_peer]
      exact (h.chain r.stepper.peer).trans (by rw [Role.peer_peer]; rfl)

end RatchetPair

open RatchetPair

theorem addPrimitives_commutes (tag : RatchetContext → UInt8) :
    (addPrimitives tag).Commutes := by
  intro a b
  apply Vector.ext
  simp [addPrimitives, UInt8.add_comm]

def samplePair (tag : RatchetContext → UInt8) : RatchetPair :=
  initial (DoubleRatchet.addPrimitives tag) (Vector.replicate 32 0)
    (fun x => Vector.replicate 32 (if x = .client then 9 else 17)) 0

def exchangedPair (tag : RatchetContext → UInt8) : RatchetPair where
  side x := { (samplePair tag).side x with
    theirEphemeral := ((samplePair tag).side x.peer).ourEphemeral }

def sampleRounds : List DhRound :=
  [⟨.client, Vector.replicate 32 25, 1⟩, ⟨.server, Vector.replicate 32 33, 2⟩]

def firstRound (p : RatchetPair) : RatchetPair :=
  p.round (DoubleRatchet.addPrimitives DoubleRatchet.contextTag) ⟨.client, Vector.replicate 32 25, 1⟩

end SeamProtocol
