import SeamProtocol.Crypto.Codec

/-! # Encoding and decoding, in sequence

What `decode` reads back from one `encode`, and which packet numbers a sequence of `encode` calls uses. -/

namespace SeamProtocol

open Lib PacketEncoder List

namespace PacketEncoder

variable {P : Primitives} {e : PacketEncoder} {pktType : PktType} {plaintext out : Bytes}

theorem encode_of_short (h : out.length < encodeBufLen plaintext.length) :
    e.encode P pktType plaintext out
      = (.error (.bufferTooSmall (encodeBufLen plaintext.length) out.length), out, e) := by
  simp [encode, h]

theorem encode_of_fits (h : encodeBufLen plaintext.length ≤ out.length) :
    (e.encode P pktType plaintext out).2.2 = { e with nextPktNum := e.nextPktNum + 1 } ∧
    ∀ need size, (e.encode P pktType plaintext out).1 ≠ .error (.bufferTooSmall need size) := by
  unfold encode
  rw [if_neg (Nat.not_lt.mpr h)]
  cases hseal : sealPacket P e.keys e.sessionId e.nextPktNum pktType plaintext with
  | ok packet => exact ⟨rfl, fun _ _ => nofun⟩
  | error err =>
    refine ⟨rfl, fun need size => ?_⟩
    -- the only failure of the AEAD is reported as a failed authentication
    have hauth : err = .authFailed := by
      unfold sealPacket encryptInPlace at hseal
      simp only [PacketKeys.length_nonce, if_true] at hseal
      cases henc : P.encrypt e.keys.cipherSuite e.keys.encKey (e.keys.nonce e.nextPktNum)
          (packetHeader e.sessionId pktType e.nextPktNum) plaintext with
      | none =>
        rw [henc] at hseal
        cases hseal
        rfl
      | some sealed =>
        rw [henc] at hseal
        cases hseal
    rw [hauth]
    nofun

/-- **One packet is written**: exactly `encodeBufLen` bytes, an authentic packet with the number shown
before the call; the rest of the buffer stays. -/
theorem encode_eq (hP : P.Lawful) (hlen : plaintext.length ≤ maxPacketLen - 48)
    (hout : encodeBufLen plaintext.length ≤ out.length) :
    ∃ packet, e.encode P pktType plaintext out
        = (.ok (encodeBufLen plaintext.length), packet ++ out.drop (encodeBufLen plaintext.length),
          { e with nextPktNum := e.nextPktNum + 1 }) ∧
      packet.length = encodeBufLen plaintext.length ∧
      authenticate P e.keys packet = some (pktType, e.peekNextPktNum, plaintext) := by
  have hmax : encodeBufLen plaintext.length ≤ maxPacketLen := by
    simp only [encodeBufLen, headerLen, tagLen, maxPacketLen] at hlen ⊢
    omega
  have hgib : plaintext.length ≤ 2 ^ 30 := by
    simp only [maxPacketLen] at hlen
    omega
  obtain ⟨packet, hseal⟩ : ∃ packet,
      sealPacket P e.keys e.sessionId e.nextPktNum pktType plaintext = .ok packet :=
    sealPacket_eq_ok hP hgib
  refine ⟨packet, ?_, length_sealPacket hP hseal, authenticate_sealPacket hP hseal hmax⟩
  unfold encode
  rw [if_neg (Nat.not_lt.mpr hout), hseal]

end PacketEncoder

/-! ## Sequences of calls -/

structure EncodeCall where
  pktType : PktType
  plaintext : Bytes
  out : Bytes

def EncodeCall.fits (c : EncodeCall) : Bool := encodeBufLen c.plaintext.length ≤ c.out.length

/-- Run a sequence of `encode` calls: for each the number shown before it and its result, and the
encoder at the end. -/
def encodeAll (P : Primitives) : PacketEncoder → List EncodeCall →
    List (UInt64 × Except SeamError Nat) × PacketEncoder
  | e, [] => ([], e)
  | e, c :: cs =>
    let r := e.encode P c.pktType c.plaintext c.out
    let rest := encodeAll P r.2.2 cs
    ((e.peekNextPktNum, r.1) :: rest.1, rest.2)

/-- The packet number used by a call: the one shown before it, unless it was refused for the size of
the buffer. -/
def usedNumber : UInt64 × Except SeamError Nat → Option UInt64
  | (_, .error (.bufferTooSmall _ _)) => none
  | (n, _) => some n

def usedNumbers (results : List (UInt64 × Except SeamError Nat)) : List UInt64 :=
  results.filterMap usedNumber

theorem usedNumber_eq_some {n : UInt64} {r : Except SeamError Nat}
    (h : ∀ need size, r ≠ .error (.bufferTooSmall need size)) : usedNumber (n, r) = some n := by
  unfold usedNumber
  split
  · next need size heq =>
      cases heq
      exact absurd rfl (h need size)
  · next _ heq =>
      cases heq
      rfl

open EncodeCall

theorem usedNumbers_eq (P : Primitives) (calls : List EncodeCall) (e : PacketEncoder) :
    usedNumbers (encodeAll P e calls).1
      = (List.range (calls.countP fits)).map (fun i => e.nextPktNum + UInt64.ofNat i) ∧
    (encodeAll P e calls).2
      = { e with nextPktNum := e.nextPktNum + UInt64.ofNat (calls.countP fits) } := by
  induction calls generalizing e with
  | nil => simp [encodeAll, usedNumbers]
  | cons c cs ih =>
    rw [encodeAll]
    by_cases hfits : encodeBufLen c.plaintext.length ≤ c.out.length
    · -- the call takes the number shown, and the others follow on
      have hcall : (e.encode P c.pktType c.plaintext c.out).2.2
            = { e with nextPktNum := e.nextPktNum + 1 } ∧
          ∀ need size, (e.encode P c.pktType c.plaintext c.out).1
            ≠ .error (.bufferTooSmall need size) := encode_of_fits hfits
      have hcount : (c :: cs).countP fits = cs.countP fits + 1 :=
        countP_cons_of_pos (decide_eq_true hfits)
      have hshift : ∀ i : Nat, e.nextPktNum + 1 + UInt64.ofNat i
          = e.nextPktNum + UInt64.ofNat (i + 1) := by
        intro i
        rw [UInt64.ofNat_add, UInt64.add_assoc, UInt64.add_comm 1]
        rfl
      obtain ⟨hnext, hok⟩ := hcall
      obtain ⟨hused, hend⟩ := ih { e with nextPktNum := e.nextPktNum + 1 }
      rw [hnext, hcount]
      refine ⟨?_, ?_⟩
      · rw [usedNumbers, filterMap_cons_some (usedNumber_eq_some hok), ← usedNumbers, hused,
          range_succ_eq_map, map_cons, map_map]
        simp [PacketEncoder.peekNextPktNum, hshift]
      · rw [hend, hshift]
    · have hshort : c.out.length < encodeBufLen c.plaintext.length := Nat.not_le.mp hfits
      have hcount : (c :: cs).countP fits = cs.countP fits :=
        countP_cons_of_neg (by simpa [fits] using hshort)
      rw [encode_of_short hshort, hcount]
      exact ih e

/-- **Packet codec round trip.** An `encode` of up to `maxPacketLen - 48` bytes into a large enough
buffer writes exactly `encodeBufLen` bytes, from which a `decode` with the same keys returns the type,
the number shown before the call and the plaintext, if its window admits the number. The numbers used by
any sequence of calls are consecutive, and a call refused for its buffer uses none. -/
theorem codec_round_trip {P : Primitives} (hP : P.Lawful) (e : PacketEncoder) (d : PacketDecoder)
    (hkeys : d.keys = e.keys) :
    (∀ (pktType : PktType) (plaintext out : Bytes), plaintext.length ≤ maxPacketLen - 48 →
      encodeBufLen plaintext.length ≤ out.length →
      ∃ packet e', e.encode P pktType plaintext out = (.ok (encodeBufLen plaintext.length),
          packet ++ out.drop (encodeBufLen plaintext.length), e') ∧
        packet.length = encodeBufLen plaintext.length ∧
        (d.replay.check e.peekNextPktNum = .ok () →
          (d.decode P packet).1 = .ok (pktType, e.peekNextPktNum, plaintext))) ∧
    (∀ calls : List EncodeCall,
      usedNumbers (encodeAll P e calls).1
        = (List.range (calls.countP EncodeCall.fits)).map
            (fun i => e.peekNextPktNum + UInt64.ofNat i)) ∧
    (∀ (pktType : PktType) (plaintext out : Bytes) (need size : Nat),
      (e.encode P pktType plaintext out).1 = .error (.bufferTooSmall need size) →
        (e.encode P pktType plaintext out).2.2 = e) := by
  refine ⟨fun pktType plaintext out hlen hout => ?_, fun calls => (usedNumbers_eq P calls e).1,
    fun pktType plaintext out need size hrefused => ?_⟩
  · obtain ⟨packet, henc, hsize, hauth⟩ := encode_eq hP (e := e) hlen hout
    refine ⟨packet, _, henc, hsize, fun hadmit => ?_⟩
    exact (PacketDecoder.decode_ok_iff P d packet).mpr ⟨hkeys ▸ hauth, hadmit⟩
  · by_cases hfits : encodeBufLen plaintext.length ≤ out.length
    · exact absurd hrefused ((encode_of_fits hfits).2 need size)
    · rw [encode_of_short (Nat.not_le.mp hfits)]

/-- Nothing to encrypt: the packet is header and tag, and all of the sample is tag. -/
theorem codec_round_trip_empty :
    ∃ packet, packet.length = 48 ∧
      ((PacketDecoder.new zeroKeys).decode checksumPrimitives packet).1 = .ok (.ping, 0, []) := by
  obtain ⟨packet, e', -, hsize, hdecode⟩ := (codec_round_trip checksumPrimitives_lawful
    (PacketEncoder.new zeroKeys 1) (PacketDecoder.new zeroKeys) rfl).1 .ping []
    (List.replicate 64 0) (by decide) (by decide)
  exact ⟨packet, hsize, hdecode (by decide)⟩

end SeamProtocol
