import SeamProtocol.Packet
import SeamProtocol.Lib.Bytes

/-! # Ciphers, packet keys and header protection

The primitives come from other crates and enter as a parameter; `Primitives.Lawful` collects what those
crates document: decryption inverts encryption, a 16-byte tag is appended, and encryption fails only on
inputs far beyond any packet. -/

namespace SeamProtocol

open Lib

inductive CipherSuite where
  | chaCha20Poly1305
  | aes256Gcm
  deriving DecidableEq, Repr

abbrev Key := Vector UInt8 32

structure Primitives where
  /-- Encrypt a buffer under suite, key, nonce and associated data, appending the tag. -/
  encrypt : CipherSuite → Key → Bytes → Bytes → Bytes → Option Bytes
  /-- Check and strip the tag, and decrypt; `none` if the tag does not match. -/
  decrypt : CipherSuite → Key → Bytes → Bytes → Bytes → Option Bytes
  /-- The 32 keystream bytes of a ChaCha20 block, from key, 12-byte nonce and block counter. -/
  keystream : Key → Bytes → Nat → Bytes

structure Primitives.Lawful (P : Primitives) : Prop where
  decrypt_encrypt : ∀ {suite key nonce aad plain cipher},
    P.encrypt suite key nonce aad plain = some cipher →
    P.decrypt suite key nonce aad cipher = some plain
  length_encrypt : ∀ {suite key nonce aad plain cipher},
    P.encrypt suite key nonce aad plain = some cipher → cipher.length = plain.length + tagLen
  /-- Encryption succeeds on every buffer of up to a gibibyte (both AEADs allow far more). -/
  encrypt_isSome : ∀ {suite key nonce aad plain}, plain.length ≤ 2 ^ 30 →
    (P.encrypt suite key nonce aad plain).isSome

/-- The AEAD call of either cipher: a nonce that is not 12 bytes long, and every failure, is
`AuthFailed`. -/
def encryptInPlace (P : Primitives) (suite : CipherSuite) (key : Key) (nonce aad buffer : Bytes) :
    Except SeamError Bytes :=
  if nonce.length = 12 then
    match P.encrypt suite key nonce aad buffer with
    | some sealed => .ok sealed
    | none => .error .authFailed
  else .error .authFailed

def decryptInPlace (P : Primitives) (suite : CipherSuite) (key : Key) (nonce aad buffer : Bytes) :
    Except SeamError Bytes :=
  if nonce.length = 12 then
    match P.decrypt suite key nonce aad buffer with
    | some opened => .ok opened
    | none => .error .authFailed
  else .error .authFailed

structure PacketKeys where
  encKey : Key
  hpKey : Key
  /-- Base value the packet number is XORed into to make the nonce. -/
  nonceBase : Vector UInt8 12
  cipherSuite : CipherSuite
  deriving DecidableEq

def PacketKeys.nonce (keys : PacketKeys) (pktNum : UInt64) : Bytes :=
  xorInto keys.nonceBase.toList (leBytes 8 pktNum.toNat)

variable (keys : PacketKeys)

@[simp] theorem PacketKeys.length_nonce (pktNum : UInt64) : (keys.nonce pktNum).length = 12 := by
  simp [PacketKeys.nonce]

theorem PacketKeys.nonce_injective : Function.Injective keys.nonce := by
  intro m n h
  have hbytes : leBytes 8 m.toNat = leBytes 8 n.toNat :=
    xorInto_right_cancel (by simp) (by simp) h
  have hm : m.toNat < 256 ^ 8 := m.toNat_lt
  have hn : n.toNat < 256 ^ 8 := n.toNat_lt
  have hnat := congrArg leNat hbytes
  rw [leNat_leBytes, leNat_leBytes, Nat.mod_eq_of_lt hm, Nat.mod_eq_of_lt hn] at hnat
  exact UInt64.toNat_inj.mp hnat

/-- XOR the header with the keystream block that the ciphertext sample selects (12 bytes of nonce, 4 of
counter). -/
def applyHeaderProtection (P : Primitives) (hpKey : Key) (header sample : Bytes) : Bytes :=
  xorInto header (P.keystream hpKey (sample.take 12) (leNat ((sample.drop 12).take 4)))

variable (P : Primitives)

@[simp] theorem length_applyHeaderProtection (hpKey : Key) (header sample : Bytes) :
    (applyHeaderProtection P hpKey header sample).length = header.length :=
  length_xorInto _ _

@[simp] theorem applyHeaderProtection_twice (hpKey : Key) (header sample : Bytes) :
    applyHeaderProtection P hpKey (applyHeaderProtection P hpKey header sample) sample = header :=
  xorInto_xorInto _ _

variable {P : Primitives} {nonce buffer : Bytes}

theorem Primitives.Lawful.encryptInPlace_eq_ok (hP : P.Lawful) (suite : CipherSuite) (key : Key)
    (aad : Bytes) (hn : nonce.length = 12) (hlen : buffer.length ≤ 2 ^ 30) :
    ∃ sealed, encryptInPlace P suite key nonce aad buffer = .ok sealed := by
  have hsome : (P.encrypt suite key nonce aad buffer).isSome := hP.encrypt_isSome hlen
  obtain ⟨sealed, h⟩ := Option.isSome_iff_exists.mp hsome
  exact ⟨sealed, by simp [encryptInPlace, hn, h]⟩

theorem Primitives.Lawful.of_encryptInPlace (hP : P.Lawful) {suite : CipherSuite} {key : Key}
    {aad sealed : Bytes} (h : encryptInPlace P suite key nonce aad buffer = .ok sealed) :
    sealed.length = buffer.length + tagLen ∧
      decryptInPlace P suite key nonce aad sealed = .ok buffer := by
  unfold encryptInPlace at h
  split at h
  · next hn =>
      split at h
      · next out hout =>
          cases h
          refine ⟨hP.length_encrypt hout, ?_⟩
          rw [decryptInPlace, if_pos hn, hP.decrypt_encrypt hout]
      · cases h
  · cases h

/-! ## A stand-in for concrete runs -/

def checksumTag (nonce aad text : Bytes) : Bytes :=
  leBytes tagLen (leNat nonce + ((aad ++ text).map UInt8.toNat).sum)

/-- Primitives that can be evaluated: the text stays in the clear, the tag is a checksum, and the
keystream constant. -/
def checksumPrimitives : Primitives where
  encrypt _ _ nonce aad plain := some (plain ++ checksumTag nonce aad plain)
  decrypt _ _ nonce aad cipher :=
    let plain := cipher.take (cipher.length - tagLen)
    if cipher.drop (cipher.length - tagLen) = checksumTag nonce aad plain then some plain else none
  keystream _ _ _ := List.replicate 32 0x5A

theorem checksumPrimitives_lawful : checksumPrimitives.Lawful := by
  have htag : ∀ nonce aad plain : Bytes, (checksumTag nonce aad plain).length = tagLen :=
    fun nonce aad plain => length_leBytes _ _
  refine ⟨?_, ?_, fun _ => rfl⟩
  · intro suite key nonce aad plain cipher h
    cases h
    have hlen : (plain ++ checksumTag nonce aad plain).length - tagLen = plain.length := by
      simp [htag]
    simp only [checksumPrimitives, hlen, List.take_left, List.drop_left, if_true]
  · intro suite key nonce aad plain cipher h
    cases h
    simp [htag]

def zeroKeys : PacketKeys :=
  ⟨Vector.replicate 32 0, Vector.replicate 32 0, Vector.replicate 12 0, .chaCha20Poly1305⟩

end SeamProtocol
