import Mathlib.Data.UInt
import SeamProtocol.Session.Core

/-! # The key schedule

From the Noise transcript hash and split and the shared secret of the KEM, both sides derive the session
id and the packet keys of both directions. BLAKE3 is a parameter; it is not injective, and
`Blake3.InjOn` says that no collision is met among the inputs that occur. -/

namespace SeamProtocol

open Lib

/-! ## BLAKE3 -/

inductive KdfContext where
  /-- `apex/payload-encryption/v1`. -/
  | payloadEncryption
  /-- `apex/header-protection/v1`. -/
  | headerProtection
  /-- `apex/nonce-base/v1`. -/
  | nonceBase
  deriving DecidableEq

structure Blake3 where
  deriveKey : KdfContext → Bytes → Key
  hash : Bytes → Key
  keyedHash : Key → Bytes → Key

def Blake3.InjOn (B : Blake3) (inputs : Set (KdfContext × Bytes)) : Prop :=
  Set.InjOn (fun i => B.deriveKey i.1 i.2) inputs

/-! ## Packet keys -/

def PacketKeys.deriveFromSecretWithCipher (B : Blake3) (secret : Bytes) (cipherSuite : CipherSuite) :
    PacketKeys where
  encKey := B.deriveKey .payloadEncryption secret
  hpKey := B.deriveKey .headerProtection secret
  nonceBase := Vector.ofFn fun i => (B.deriveKey .nonceBase secret).get (i.castLE (by decide))
  cipherSuite := cipherSuite

structure HybridSharedSecret where
  data : Bytes

inductive Direction where
  | c2s
  | s2c
  deriving DecidableEq

def Direction.label : Direction → Bytes
  | .c2s => [0x63, 0x32, 0x73]
  | .s2c => [0x73, 0x32, 0x63]

namespace HybridSharedSecret

def new (x25519Bytes kemBytes : Key) : HybridSharedSecret := ⟨x25519Bytes.toList ++ kemBytes.toList⟩

def ikm (s : HybridSharedSecret) (noiseHash : Bytes) (direction : Direction) : Bytes :=
  s.data ++ noiseHash ++ direction.label

def derivePacketKeysWithCipher (B : Blake3) (s : HybridSharedSecret) (noiseHash : Bytes)
    (cipherSuite : CipherSuite) (direction : Direction) : PacketKeys :=
  PacketKeys.deriveFromSecretWithCipher B (s.ikm noiseHash direction) cipherSuite

def deriveDirectionalPacketKeys (B : Blake3) (s : HybridSharedSecret) (noiseHash : Bytes)
    (cipherSuite : CipherSuite) : PacketKeys × PacketKeys :=
  (s.derivePacketKeysWithCipher B noiseHash cipherSuite .c2s,
    s.derivePacketKeysWithCipher B noiseHash cipherSuite .s2c)

end HybridSharedSecret

/-! ## The result of a handshake -/

structure HandshakeResult where
  sessionId : UInt64
  keysC2s : PacketKeys
  keysS2c : PacketKeys
  peerStaticPubkey : Key
  cipherSuite : CipherSuite
  handshakeHash : Bytes
  deriving DecidableEq

def hybridSecret (B : Blake3) (kemShared : Key) (dhSplit : Key × Key) : HybridSharedSecret :=
  let x25519Component := B.hash (dhSplit.1.toList ++ dhSplit.2.toList)
  HybridSharedSecret.new kemShared x25519Component

def finish (B : Blake3) (hash : Bytes) (peerStatic kemShared : Key) (dhSplit : Key × Key)
    (cipherSuite : CipherSuite) : Option HandshakeResult :=
  if hash.length < 8 then none
  else
    let keys := (hybridSecret B kemShared dhSplit).deriveDirectionalPacketKeys B hash cipherSuite
    some
      { sessionId := UInt64.ofNat (leNat (hash.take 8))
        keysC2s := keys.1
        keysS2c := keys.2
        peerStaticPubkey := peerStatic
        cipherSuite
        handshakeHash := hash }

namespace HandshakeResult

def txKeys (r : HandshakeResult) : Role → PacketKeys
  | .client => r.keysC2s
  | .server => r.keysS2c

def session (r : HandshakeResult) (role : Role) : Session :=
  let (ourTx, ourRx) := match role with
    | .client => (r.keysC2s, r.keysS2c)
    | .server => (r.keysS2c, r.keysC2s)
  Session.withLimits r.sessionId role (PacketEncoder.new ourTx r.sessionId)
    (PacketDecoder.new ourRx) SessionLimits.default

end HandshakeResult

/-! ## Separation -/

def keyInputs (B : Blake3) (hash : Bytes) (kemShared : Key) (dhSplit : Key × Key) :
    Set (KdfContext × Bytes) :=
  {i | ∃ direction, i = (.payloadEncryption, (hybridSecret B kemShared dhSplit).ikm hash direction)}

theorem encKey_ne {B : Blake3} {hash : Bytes} {peerStatic kemShared : Key} {dhSplit : Key × Key}
    {suite : CipherSuite} {r : HandshakeResult}
    (hB : B.InjOn (keyInputs B hash kemShared dhSplit))
    (h : finish B hash peerStatic kemShared dhSplit suite = some r) :
    r.keysC2s.encKey ≠ r.keysS2c.encKey := by
  unfold finish at h
  split_ifs at h
  cases h
  intro heq
  have hpair := hB ⟨.c2s, rfl⟩ ⟨.s2c, rfl⟩ heq
  -- the labels have the same length, so they would be equal
  have hlabel := List.append_cancel_left (congrArg Prod.snd hpair)
  exact absurd hlabel (by decide)

/-! ## A stand-in for concrete runs -/

def lastByteBlake3 : Blake3 where
  deriveKey _ input := Vector.replicate 32 (input.getLastD 0)
  hash input := Vector.replicate 32 (input.getLastD 0)
  keyedHash _ input := Vector.replicate 32 input.sum

theorem lastByteBlake3_injOn (hash : Bytes) (kemShared : Key) (dhSplit : Key × Key) :
    lastByteBlake3.InjOn (keyInputs lastByteBlake3 hash kemShared dhSplit) := by
  rintro _ ⟨d, rfl⟩ _ ⟨d', rfl⟩ heq
  have hlast : ∀ d, ((hybridSecret lastByteBlake3 kemShared dhSplit).ikm hash d).getLastD 0
      = d.label.getLastD 0 := by
    intro d
    cases d <;> simp [HybridSharedSecret.ikm, Direction.label]
  have hbyte : d.label.getLastD 0 = d'.label.getLastD 0 := by
    have hkey := congrArg (fun v : Key => v[0]) heq
    rw [← hlast, ← hlast]
    exact hkey
  cases d <;> cases d' <;> first | rfl | exact absurd hbyte (by decide)

/-! ## Key updates -/

structure KeySchedule where
  currentSecret : Key
  cipherSuite : CipherSuite
  current : PacketKeys
  next : Option PacketKeys
  epoch : Nat

namespace KeySchedule

-- `kdf` is BLAKE3 under `apex/key-update/v1`
variable (B : Blake3) (kdf : Key → Key)

def keys (secret : Key) (cipherSuite : CipherSuite) : PacketKeys :=
  .deriveFromSecretWithCipher B secret.toList cipherSuite

def newWithCipher (initialSecret : Key) (cipherSuite : CipherSuite) : KeySchedule :=
  ⟨initialSecret, cipherSuite, keys B initialSecret cipherSuite, none, 0⟩

def keyPhase (k : KeySchedule) : Bool := k.epoch &&& 1 == 1

def prepareNext (k : KeySchedule) : KeySchedule :=
  if k.next.isSome then k
  else { k with next := some (keys B (kdf k.currentSecret) k.cipherSuite) }

def rotate (k : KeySchedule) : KeySchedule :=
  let k := k.prepareNext B kdf
  let nextSecret := kdf k.currentSecret
  { k with
    currentSecret := nextSecret
    current := k.next.getD (keys B nextSecret k.cipherSuite)
    next := none
    epoch := (k.epoch + 1) % 2 ^ 64 }

/-- `rotate` or `prepare_next`. -/
def onCall (k : KeySchedule) (rotates : Bool) : KeySchedule :=
  if rotates then k.rotate B kdf else k.prepareNext B kdf

/-- The schedule after `m` rotations, with or without the next keys. -/
def after (secret : Key) (suite : CipherSuite) (m : Nat) (prepared : Bool) : KeySchedule :=
  ⟨kdf^[m] secret, suite, keys B (kdf^[m] secret) suite,
    if prepared then some (keys B (kdf^[m + 1] secret) suite) else none, m % 2 ^ 64⟩

variable (secret : Key) (suite : CipherSuite) (m : Nat) (prepared : Bool)

theorem prepareNext_after : (after B kdf secret suite m prepared).prepareNext B kdf
    = after B kdf secret suite m true := by
  cases prepared <;> simp [prepareNext, after, Function.iterate_succ_apply']

theorem rotate_after : (after B kdf secret suite m prepared).rotate B kdf
    = after B kdf secret suite (m + 1) false := by
  rw [rotate, prepareNext_after]
  simp [after, Function.iterate_succ_apply']

/-- **Preparing early changes nothing.** After any calls, the secret, the keys in use, the epoch and with
it the key phase are those of as many updates as there were rotations. -/
theorem keys_of_rotations (calls : List Bool) :
    calls.foldl (onCall B kdf) (newWithCipher B secret suite)
      = after B kdf secret suite (calls.count true) (calls.getLast? == some false) ∧
    ∀ m prepared, (after B kdf secret suite m prepared).keyPhase = (m % 2 == 1) := by
  constructor
  · induction calls using List.reverseRecOn with
    | nil => rfl
    | append_singleton calls call ih =>
      rw [List.foldl_append, ih]
      cases call with
      | true => simpa [onCall] using rotate_after ..
      | false => simpa [onCall] using prepareNext_after ..
  · intro m prepared
    rw [keyPhase, after, Nat.and_one_is_mod, Nat.mod_mod_of_dvd _ (by decide)]

end KeySchedule

end SeamProtocol
