import SeamProtocol.Handshake.Keys

/-! # Traffic analysis resistance

A connection may pad a packet to a size class and mask its first eight bytes. The receiver should remove
the mask before it decodes; nothing removes the padding, and not every sending path applies the mask. The
rate tracker, whose rate nothing reads, is left out. -/

namespace SeamProtocol

open Lib

/-! ## Size classes -/

inductive PacketSizeClass where
  | small
  | medium
  | large
  | jumbo
  deriving DecidableEq

namespace PacketSizeClass

def classify (wireLen : Nat) : PacketSizeClass :=
  if wireLen ≤ 256 then .small
  else if wireLen ≤ 512 then .medium
  else if wireLen ≤ 1024 then .large
  else .jumbo

def wireSize : PacketSizeClass → Nat
  | .small => 256
  | .medium => 512
  | .large => 1024
  | .jumbo => 1400

end PacketSizeClass

def lcgNext (lcg : UInt64) : UInt64 := lcg * 6364136223846793005 + 0x14057b7ef767814f

def lcgByte (lcg : UInt64) : UInt8 := ((lcg >>> 33) &&& 0xFF).toUInt8

def lcgBytes : Nat → UInt64 → Bytes × UInt64
  | 0, lcg => ([], lcg)
  | n + 1, lcg =>
    let lcg := lcgNext lcg
    let rest := lcgBytes n lcg
    (lcgByte lcg :: rest.1, rest.2)

def padToSizeClass (packet : Bytes) (lcg : UInt64) : Bytes × UInt64 :=
  let target := (PacketSizeClass.classify packet.length).wireSize
  if target ≤ packet.length then (packet, lcg)
  else
    let padding := lcgBytes (target - packet.length) lcg
    (packet ++ padding.1, padding.2)

/-! ## Header obfuscation -/

def obfuscateHeader (packet : Bytes) (sessionSecret : Key) : Bytes :=
  xorInto packet (sessionSecret.toList.take 8)

@[simp] theorem obfuscateHeader_twice (packet : Bytes) (sessionSecret : Key) :
    obfuscateHeader (obfuscateHeader packet sessionSecret) sessionSecret = packet :=
  xorInto_xorInto _ _

def obfuscateContext : Bytes :=
  [0x73, 0x65, 0x61, 0x6d, 0x2e, 0x74, 0x61, 0x72, 0x2e, 0x6f, 0x62, 0x66, 0x75, 0x73, 0x63, 0x61,
    0x74, 0x65, 0x2e, 0x76, 0x31]

def deriveObfuscationSecret (B : Blake3) (sessionKey : Key) : Key :=
  B.keyedHash sessionKey obfuscateContext

/-! ## Configuration and state -/

structure CoverTrafficConfig where
  targetKbps : Nat
  packetSize : Nat
  deriving DecidableEq

def CoverTrafficConfig.disabled : CoverTrafficConfig := ⟨0, 1024⟩

def CoverTrafficConfig.interPacketInterval (c : CoverTrafficConfig) : Option Nat :=
  if c.targetKbps = 0 then none
  else
    let bytesPerSec := c.targetKbps * 1000 / 8
    if bytesPerSec = 0 then none
    else some (min (c.packetSize * 1000000000) (2 ^ 64 - 1) / bytesPerSec)

structure TarConfig where
  noPadding : Bool
  cover : CoverTrafficConfig
  /-- Upper bound of the random delay before a packet, in milliseconds; 0 for none. -/
  maxJitterMs : Nat
  obfuscate : Bool
  deriving DecidableEq

namespace TarConfig

def disabled : TarConfig := ⟨true, .disabled, 0, false⟩

def fipsDefaults : TarConfig := ⟨false, .disabled, 0, false⟩

def paddingEnabled (c : TarConfig) : Bool := !c.noPadding

end TarConfig

structure TarState where
  config : TarConfig
  lcg : UInt64
  /-- The mask, once the handshake is complete and if masking is on. -/
  obfuscationSecret : Option Key
  nextCoverAt : Option Nat
  deriving DecidableEq

namespace TarState

def new (config : TarConfig) : TarState := ⟨config, 0x517cc1b727220a95, none, none⟩

def markCoverSent (t : TarState) (now : Nat) : TarState :=
  match t.config.cover.interPacketInterval with
  | some interval => { t with nextCoverAt := some (now + interval) }
  | none => t

def setSessionSecret (B : Blake3) (t : TarState) (sessionKey : Key) (now : Nat) : TarState :=
  let t := if t.config.obfuscate then
      { t with obfuscationSecret := some (deriveObfuscationSecret B sessionKey) }
    else t
  t.markCoverSent now

def maybePad (t : TarState) (packet : Bytes) : Bytes × TarState :=
  if t.config.paddingEnabled then
    let padded := padToSizeClass packet t.lcg
    (padded.1, { t with lcg := padded.2 })
  else (packet, t)

def maybeObfuscate (t : TarState) (packet : Bytes) : Bytes :=
  match t.obfuscationSecret with
  | some secret => obfuscateHeader packet secret
  | none => packet

def maybeDeobfuscate (t : TarState) (packet : Bytes) : Bytes :=
  match t.obfuscationSecret with
  | some secret => obfuscateHeader packet secret
  | none => packet

def jitterDelay (t : TarState) : Nat × TarState :=
  if t.config.maxJitterMs = 0 then (0, t)
  else
    let lcg := lcgNext t.lcg
    ((lcg >>> 33).toNat % t.config.maxJitterMs, { t with lcg })

def onRealSend (t : TarState) (now : Nat) : TarState :=
  match t.config.cover.interPacketInterval, t.nextCoverAt with
  | some interval, some _ => { t with nextCoverAt := some (now + interval) }
  | _, _ => t

def shouldSendCover (t : TarState) (now : Nat) : Bool :=
  match t.nextCoverAt with
  | none => false
  | some due => due ≤ now

def coverPayload (t : TarState) : Bytes × TarState :=
  let payload := lcgBytes t.config.cover.packetSize t.lcg
  (payload.1, { t with lcg := payload.2 })

end TarState

/-! ## Sending paths -/

inductive Egress where
  | flush
  | retransmitExpired
  | cover
  | chaff
  | probe
  /-- The challenge sent by `maybe_migrate`. -/
  | pathChallenge
  | pathResponse
  deriving DecidableEq

namespace Egress

def pads : Egress → Bool
  | .flush | .retransmitExpired => true
  | _ => false

def obfuscates : Egress → Bool
  | .flush | .retransmitExpired | .cover => true
  | _ => false

end Egress

/-- What a path does to a packet before it is sent on the socket. `flush` first draws a delay from the
generator of the padding bytes. -/
def TarState.transform (t : TarState) : Egress → Bytes → Bytes × TarState
  | .flush, packet =>
    let padded := t.jitterDelay.2.maybePad packet
    (padded.2.maybeObfuscate padded.1, padded.2)
  | .retransmitExpired, packet =>
    let padded := t.maybePad packet
    (padded.2.maybeObfuscate padded.1, padded.2)
  | .cover, packet => (t.maybeObfuscate packet, t)
  | .chaff, packet | .probe, packet | .pathChallenge, packet | .pathResponse, packet => (packet, t)

def HandshakeResult.tarSecret (B : Blake3) (r : HandshakeResult) : Key :=
  B.hash (r.keysC2s.encKey.toList ++ r.keysS2c.encKey.toList)

namespace TarState

structure SameMask (t t' : TarState) : Prop where
  config_eq : t'.config = t.config
  secret_eq : t'.obfuscationSecret = t.obfuscationSecret

variable (t : TarState)

theorem SameMask.refl : t.SameMask t := ⟨rfl, rfl⟩

theorem SameMask.trans {t t' t'' : TarState} (h : t.SameMask t') (h' : t'.SameMask t'') :
    t.SameMask t'' :=
  ⟨h'.config_eq.trans h.config_eq, h'.secret_eq.trans h.secret_eq⟩

theorem sameMask_markCoverSent (now : Nat) : t.SameMask (t.markCoverSent now) := by
  unfold markCoverSent
  split <;> exact ⟨rfl, rfl⟩

theorem sameMask_onRealSend (now : Nat) : t.SameMask (t.onRealSend now) := by
  unfold onRealSend
  split <;> exact ⟨rfl, rfl⟩

theorem sameMask_lcg (lcg : UInt64) : t.SameMask { t with lcg } := ⟨rfl, rfl⟩

theorem sameMask_maybePad (packet : Bytes) : t.SameMask (t.maybePad packet).2 := by
  unfold maybePad
  split
  · exact t.sameMask_lcg _
  · exact SameMask.refl t

theorem sameMask_jitterDelay : t.SameMask t.jitterDelay.2 := by
  unfold jitterDelay
  split
  · exact SameMask.refl t
  · exact t.sameMask_lcg _

theorem sameMask_transform (path : Egress) (packet : Bytes) :
    t.SameMask (t.transform path packet).2 := by
  cases path with
  | flush => exact t.sameMask_jitterDelay.trans (t.jitterDelay.2.sameMask_maybePad packet)
  | retransmitExpired => exact t.sameMask_maybePad packet
  | cover | chaff | probe | pathChallenge | pathResponse => exact SameMask.refl t

structure Installed (B : Blake3) (config : TarConfig) (sessionKey : Key) (t : TarState) : Prop where
  config_eq : t.config = config
  secret_eq : t.obfuscationSecret
    = if config.obfuscate then some (deriveObfuscationSecret B sessionKey) else none

variable {B : Blake3} {config : TarConfig} {sessionKey : Key} {t : TarState}

theorem Installed.of_sameMask {t' : TarState} (h : t.Installed B config sessionKey)
    (hsame : t.SameMask t') : t'.Installed B config sessionKey :=
  ⟨hsame.config_eq.trans h.config_eq, hsame.secret_eq.trans h.secret_eq⟩

theorem installed_setSessionSecret (B : Blake3) (config : TarConfig) (sessionKey : Key) (now : Nat) :
    ((new config).setSessionSecret B sessionKey now).Installed B config sessionKey := by
  unfold setSessionSecret
  refine Installed.of_sameMask ?_ (sameMask_markCoverSent _ now)
  cases hobf : config.obfuscate with
  | true | false => exact ⟨by simp [new, hobf], by simp [new, hobf]⟩

theorem maybeDeobfuscate_maybeObfuscate {r : TarState}
    (h : t.obfuscationSecret = r.obfuscationSecret) (packet : Bytes) :
    r.maybeDeobfuscate (t.maybeObfuscate packet) = packet := by
  unfold maybeDeobfuscate maybeObfuscate
  rw [← h]
  cases t.obfuscationSecret with
  | none => rfl
  | some secret => exact obfuscateHeader_twice packet secret

end TarState

/-! ## What the receiver undoes -/

/-- The packets a path sends in a form that the receiver can undo: not padded, and masked if the
receiver expects a mask. -/
def Egress.clean (path : Egress) (config : TarConfig) (packet : Bytes) : Bool :=
  (!path.pads || config.noPadding
    || decide ((PacketSizeClass.classify packet.length).wireSize ≤ packet.length))
  && (path.obfuscates || !config.obfuscate)

section Inverse

variable {B : Blake3} {config : TarConfig} {sessionKey : Key} {t r : TarState} {path : Egress}
  {packet : Bytes}

open TarState

theorem maybePad_of_full (ht : t.Installed B config sessionKey)
    (h : config.noPadding = true ∨
      (PacketSizeClass.classify packet.length).wireSize ≤ packet.length) :
    (t.maybePad packet).1 = packet := by
  unfold maybePad
  rw [ht.config_eq, TarConfig.paddingEnabled]
  rcases h with h | h
  · simp [h]
  · cases config.noPadding with
    | true => simp
    | false => simp [padToSizeClass, h]

theorem maybeDeobfuscate_transform (ht : t.Installed B config sessionKey)
    (hr : r.Installed B config sessionKey) (hclean : path.clean config packet = true) :
    r.maybeDeobfuscate (t.transform path packet).1 = packet := by
  have hsame : ∀ t' : TarState, t'.Installed B config sessionKey →
      t'.obfuscationSecret = r.obfuscationSecret := by
    intro t' ht'
    rw [ht'.secret_eq, hr.secret_eq]
  simp only [Egress.clean, Bool.and_eq_true, Bool.or_eq_true, Bool.not_eq_true',
    decide_eq_true_eq] at hclean
  obtain ⟨hpad, hmask⟩ := hclean
  have hfull : path.pads = true → config.noPadding = true ∨
      (PacketSizeClass.classify packet.length).wireSize ≤ packet.length := by
    intro hpads
    simpa [hpads] using hpad
  cases path with
  | flush =>
    have hj := ht.of_sameMask t.sameMask_jitterDelay
    have hp := hj.of_sameMask (t.jitterDelay.2.sameMask_maybePad packet)
    rw [transform]
    rw [maybePad_of_full hj (hfull rfl), maybeDeobfuscate_maybeObfuscate (hsame _ hp)]
  | retransmitExpired =>
    have hp := ht.of_sameMask (t.sameMask_maybePad packet)
    rw [transform]
    rw [maybePad_of_full ht (hfull rfl), maybeDeobfuscate_maybeObfuscate (hsame _ hp)]
  | cover => exact maybeDeobfuscate_maybeObfuscate (hsame t ht) packet
  | chaff | probe | pathChallenge | pathResponse =>
    -- these paths never mask, so the receiver must not expect it
    have hoff : config.obfuscate = false := by simpa [Egress.obfuscates] using hmask
    have hnone : r.obfuscationSecret = none := by simp [hr.secret_eq, hoff]
    simp [transform, maybeDeobfuscate, hnone]

end Inverse

def sampleResult : HandshakeResult := ⟨1, zeroKeys, zeroKeys, Vector.replicate 32 0, .chaCha20Poly1305, []⟩

def sampleTar (config : TarConfig) : TarState :=
  (TarState.new config).setSessionSecret lastByteBlake3 (sampleResult.tarSecret lastByteBlake3) 0

def maskOnly : TarConfig := { TarConfig.disabled with obfuscate := true }

def sampleArrival (config : TarConfig) (path : Egress) (packet : Bytes) : Except SeamError Decoded :=
  ((PacketDecoder.new zeroKeys).decode checksumPrimitives
    ((sampleTar config).maybeDeobfuscate ((sampleTar config).transform path packet).1)).1

theorem unmasked_undecodable :
    ∃ packet, sealPacket checksumPrimitives zeroKeys 1 0 .chaff [] = .ok packet ∧
      sampleArrival .disabled .chaff packet = .ok (.chaff, 0, []) ∧
      sampleArrival maskOnly .chaff packet = .error (.invalidPktType 0xDF) := by
  refine ⟨_, rfl, ?_, ?_⟩
  · decide +kernel
  · decide +kernel

end SeamProtocol
