import SeamProtocol.Crypto.Cipher
import SeamProtocol.Crypto.Replay

/-! # The packet encoder and decoder

A packet is its 32-byte header, authenticated as associated data and then masked, the encrypted payload
and the tag. The decoder consults the replay window, read-only before authentication and for good after
it. -/

namespace SeamProtocol

open Lib List ReplayWindow

/-! ## Encoding -/

structure PacketEncoder where
  keys : PacketKeys
  sessionId : UInt64
  nextPktNum : UInt64
  deriving DecidableEq

namespace PacketEncoder

def new (keys : PacketKeys) (sessionId : UInt64) : PacketEncoder := ⟨keys, sessionId, 0⟩

def peekNextPktNum (e : PacketEncoder) : UInt64 := e.nextPktNum

end PacketEncoder

/-- The plaintext header: version, type, flags and reserved bytes, session id, packet number, and
eight reserved bytes. -/
def packetHeader (sessionId : UInt64) (pktType : PktType) (pktNum : UInt64) : Bytes :=
  [1, pktType.toByte, 0, 0, 0, 0, 0, 0] ++ leBytes 8 sessionId.toNat ++ leBytes 8 pktNum.toNat
    ++ List.replicate 8 0

/-- Encrypt the payload with the plaintext header as associated data, then mask the header with the
first 16 bytes of the result. -/
def sealPacket (P : Primitives) (keys : PacketKeys) (sessionId pktNum : UInt64) (pktType : PktType)
    (plaintext : Bytes) : Except SeamError Bytes :=
  let header := packetHeader sessionId pktType pktNum
  match encryptInPlace P keys.cipherSuite keys.encKey (keys.nonce pktNum) header plaintext with
  | .error e => .error e
  | .ok payload => .ok (applyHeaderProtection P keys.hpKey header (payload.take 16) ++ payload)

/-- The number of bytes written, the buffer and the encoder afterwards. A short buffer costs no packet
number; a failure of the AEAD does, and leaves the plaintext in the buffer. -/
def PacketEncoder.encode (P : Primitives) (e : PacketEncoder) (pktType : PktType)
    (plaintext out : Bytes) : Except SeamError Nat × Bytes × PacketEncoder :=
  let needed := encodeBufLen plaintext.length
  if out.length < needed then (.error (.bufferTooSmall needed out.length), out, e)
  else
    let e' := { e with nextPktNum := e.nextPktNum + 1 }
    match sealPacket P e.keys e.sessionId e.nextPktNum pktType plaintext with
    | .error err =>
      let filled := packetHeader e.sessionId pktType e.nextPktNum ++ plaintext
      (.error err, filled ++ out.drop filled.length, e')
    | .ok packet => (.ok needed, packet ++ out.drop needed, e')

variable (P : Primitives)

theorem PacketEncoder.encode_snd (e : PacketEncoder) (pktType : PktType) (plaintext out : Bytes) :
    ∃ nextPktNum, (e.encode P pktType plaintext out).2.2 = { e with nextPktNum } := by
  unfold encode
  dsimp only
  split
  · exact ⟨_, rfl⟩
  · split <;> exact ⟨_, rfl⟩

/-! ## Decoding -/

structure PacketDecoder where
  keys : PacketKeys
  replay : ReplayWindow
  deriving DecidableEq

def PacketDecoder.new (keys : PacketKeys) : PacketDecoder := ⟨keys, ReplayWindow.new⟩

abbrev Decoded := PktType × UInt64 × Bytes

def unprotectedHeader (P : Primitives) (keys : PacketKeys) (buf : Bytes) : Bytes :=
  applyHeaderProtection P keys.hpKey (buf.take headerLen) ((buf.drop headerLen).take 16)

def headerPktNum (header : Bytes) : UInt64 := UInt64.ofNat (leNat ((header.drop 16).take 8))

def PacketDecoder.decode (P : Primitives) (d : PacketDecoder) (buf : Bytes) :
    Except SeamError Decoded × PacketDecoder :=
  if maxPacketLen < buf.length then (.error (.packetTooLarge buf.length maxPacketLen), d)
  else if buf.length < minPacketLen then (.error (.bufferTooSmall minPacketLen buf.length), d)
  else
    let header := unprotectedHeader P d.keys buf
    match PktType.tryFrom (header.getD 1 0) with
    | .error e => (.error e, d)
    | .ok pktType =>
      let pktNum := headerPktNum header
      match d.replay.check pktNum with
      | .error e => (.error e, d)
      | .ok () =>
        match decryptInPlace P d.keys.cipherSuite d.keys.encKey (d.keys.nonce pktNum) header
            (buf.drop headerLen) with
        | .error e => (.error e, d)
        | .ok opened =>
          match d.replay.commit pktNum with
          | (.error e, replay) => (.error e, { d with replay })
          | (.ok (), replay) =>
            (.ok (pktType, pktNum, opened.take (buf.length - tagLen - headerLen)),
              { d with replay })

/-- The part of `decode` that does not depend on the replay window. -/
def authenticate (P : Primitives) (keys : PacketKeys) (buf : Bytes) : Option Decoded :=
  if maxPacketLen < buf.length then none
  else if buf.length < minPacketLen then none
  else
    let header := unprotectedHeader P keys buf
    match PktType.tryFrom (header.getD 1 0) with
    | .error _ => none
    | .ok pktType =>
      let pktNum := headerPktNum header
      match decryptInPlace P keys.cipherSuite keys.encKey (keys.nonce pktNum) header
          (buf.drop headerLen) with
      | .error _ => none
      | .ok opened => some (pktType, pktNum, opened.take (buf.length - tagLen - headerLen))

namespace PacketDecoder

variable (P : Primitives) (d : PacketDecoder) (buf : Bytes)

theorem decode_cases :
    (∃ e, d.decode P buf = (.error e, d) ∧
      ∀ x, authenticate P d.keys buf = some x → d.replay.check x.2.1 ≠ .ok ()) ∨
    (∃ x, authenticate P d.keys buf = some x ∧ d.replay.check x.2.1 = .ok () ∧
      d.decode P buf = (.ok x, { d with replay := (d.replay.commit x.2.1).2 })) := by
  unfold decode authenticate
  split
  · exact .inl ⟨_, rfl, fun x hx => nomatch hx⟩
  split
  · exact .inl ⟨_, rfl, fun x hx => nomatch hx⟩
  dsimp only
  cases PktType.tryFrom ((unprotectedHeader P d.keys buf).getD 1 0) with
  | error e => exact .inl ⟨e, rfl, fun x hx => nomatch hx⟩
  | ok pktType =>
    generalize hn : headerPktNum (unprotectedHeader P d.keys buf) = pktNum
    cases hdec : decryptInPlace P d.keys.cipherSuite d.keys.encKey (d.keys.nonce pktNum)
        (unprotectedHeader P d.keys buf) (buf.drop headerLen) with
    | error e =>
      left
      cases hchk : d.replay.check pktNum with
      | error e' => exact ⟨e', rfl, fun x hx => nomatch hx⟩
      | ok u => exact ⟨e, rfl, fun x hx => nomatch hx⟩
    | ok opened =>
      cases hchk : d.replay.check pktNum with
      | error e =>
        refine .inl ⟨e, rfl, fun x hx => ?_⟩
        cases hx
        rw [hchk]
        exact nofun
      | ok u =>
        -- the number was admitted, so the commit after decryption cannot fail
        have hfst : (d.replay.commit pktNum).1 = .ok u :=
          (commit_fst _ _).trans hchk
        refine .inr ⟨_, rfl, hchk, ?_⟩
        rcases hcom : d.replay.commit pktNum with ⟨r, w⟩
        rw [hcom] at hfst
        cases hfst
        rfl

variable {x : Decoded}

/-- **`decode` succeeds** exactly on authentic packets whose number the window admits. -/
theorem decode_ok_iff :
    (d.decode P buf).1 = .ok x ↔
      authenticate P d.keys buf = some x ∧ d.replay.check x.2.1 = .ok () := by
  rcases decode_cases P d buf with ⟨e, hd, hno⟩ | ⟨y, hy, hchk, hd⟩
  · rw [hd]
    constructor
    · intro h
      cases h
    · rintro ⟨hx, hchk⟩
      exact absurd hchk (hno x hx)
  · rw [hd]
    constructor
    · intro h
      cases h
      exact ⟨hy, hchk⟩
    · rintro ⟨hx, -⟩
      rw [hx] at hy
      cases hy
      rfl

variable {P d buf}

theorem decode_of_authentic (h : authenticate P d.keys buf = some x) :
    (d.decode P buf).1 = (d.replay.check x.2.1).map fun _ => x := by
  cases hchk : d.replay.check x.2.1 with
  | ok u => exact (decode_ok_iff P d buf).mpr ⟨h, hchk⟩
  | error e =>
    unfold authenticate at h
    unfold decode
    split_ifs at h ⊢
    dsimp only at h ⊢
    cases htype : PktType.tryFrom ((unprotectedHeader P d.keys buf).getD 1 0) with
    | error e' =>
      rw [htype] at h
      cases h
    | ok pktType =>
      rw [htype] at h
      dsimp only at h ⊢
      split at h
      · cases h
      · cases h
        rw [hchk]
        rfl

theorem decode_snd_of_error {e : SeamError} (h : (d.decode P buf).1 = .error e) :
    (d.decode P buf).2 = d := by
  rcases decode_cases P d buf with ⟨e', hd, -⟩ | ⟨y, -, -, hd⟩
  · rw [hd]
  · rw [hd] at h
    cases h

@[simp] theorem decode_snd_keys : (d.decode P buf).2.keys = d.keys := by
  rcases decode_cases P d buf with ⟨e', hd, -⟩ | ⟨y, -, -, hd⟩ <;> rw [hd]

end PacketDecoder

/-! ## The round trip -/

variable (sessionId : UInt64)

@[simp] theorem length_packetHeader (pktType : PktType) (pktNum : UInt64) :
    (packetHeader sessionId pktType pktNum).length = headerLen := by
  simp [packetHeader, headerLen]

@[simp] theorem headerPktNum_packetHeader (pktType : PktType) (pktNum : UInt64) :
    headerPktNum (packetHeader sessionId pktType pktNum) = pktNum := by
  have hfield : ((packetHeader sessionId pktType pktNum).drop 16).take 8
      = leBytes 8 pktNum.toNat := by
    simp [packetHeader]
  have hlt : pktNum.toNat < 256 ^ 8 := pktNum.toNat_lt
  simp [headerPktNum, hfield, leNat_leBytes]

@[simp] theorem getD_packetHeader (pktType : PktType) (pktNum : UInt64) :
    (packetHeader sessionId pktType pktNum).getD 1 0 = pktType.toByte := rfl

section Sealed

variable {P : Primitives} (hP : P.Lawful) {keys : PacketKeys} {sessionId pktNum : UInt64}
  {pktType : PktType} {plaintext packet : Bytes}

include hP

theorem sealPacket_eq_ok (hlen : plaintext.length ≤ 2 ^ 30) :
    ∃ packet, sealPacket P keys sessionId pktNum pktType plaintext = .ok packet := by
  obtain ⟨payload, h⟩ := hP.encryptInPlace_eq_ok keys.cipherSuite keys.encKey
    (packetHeader sessionId pktType pktNum) (keys.length_nonce pktNum) hlen
  exact ⟨_, by rw [sealPacket, h]⟩

variable (h : sealPacket P keys sessionId pktNum pktType plaintext = .ok packet)
include h

theorem sealPacket_cases
    :
    ∃ payload, packet = applyHeaderProtection P keys.hpKey
        (packetHeader sessionId pktType pktNum) (payload.take 16) ++ payload ∧
      payload.length = plaintext.length + tagLen ∧
      decryptInPlace P keys.cipherSuite keys.encKey (keys.nonce pktNum)
        (packetHeader sessionId pktType pktNum) payload = .ok plaintext := by
  unfold sealPacket at h
  dsimp only at h
  split at h
  · cases h
  · next payload hpay =>
      cases h
      exact ⟨payload, rfl, hP.of_encryptInPlace hpay⟩

theorem length_sealPacket
    : packet.length = encodeBufLen plaintext.length := by
  obtain ⟨payload, rfl, hlen, -⟩ := sealPacket_cases hP h
  simp [encodeBufLen, hlen, Nat.add_assoc]

theorem authenticate_sealPacket
    (hmax : encodeBufLen plaintext.length ≤ maxPacketLen) :
    authenticate P keys packet = some (pktType, pktNum, plaintext) := by
  have hsize := length_sealPacket hP h
  obtain ⟨payload, rfl, hlen, hopen⟩ := sealPacket_cases hP h
  set masked := applyHeaderProtection P keys.hpKey (packetHeader sessionId pktType pktNum)
    (payload.take 16) with hmasked
  have hml : masked.length = headerLen := by simp [hmasked]
  have hheader : unprotectedHeader P keys (masked ++ payload)
      = packetHeader sessionId pktType pktNum := by
    rw [unprotectedHeader, ← hml, take_left, drop_left, hmasked,
      applyHeaderProtection_twice]
  have hdrop : (masked ++ payload).drop headerLen = payload := by
    simp [← hml]
  have hmin : ¬ (masked ++ payload).length < minPacketLen := by
    rw [hsize, encodeBufLen, minPacketLen]
    omega
  have htake : plaintext.take ((masked ++ payload).length - tagLen - headerLen) = plaintext := by
    rw [hsize, encodeBufLen]
    exact take_of_length_le (by omega)
  unfold authenticate
  rw [if_neg (by rw [hsize]; omega), if_neg hmin]
  simp only [hheader, hdrop, getD_packetHeader, PktType.tryFrom_toByte, headerPktNum_packetHeader,
    hopen, htake]

end Sealed

/-! ## Runs of the decoder -/

def decodeAll (P : Primitives) : PacketDecoder → List Bytes →
    List (Except SeamError Decoded) × PacketDecoder
  | d, [] => ([], d)
  | d, buf :: bufs =>
    let r := d.decode P buf
    let rest := decodeAll P r.2 bufs
    (r.1 :: rest.1, rest.2)

inductive Arrival where
  | common (buf : Bytes)
  | inserted (buf : Bytes)

def commonPart : List Arrival → List Bytes
  | [] => []
  | .common buf :: rest => buf :: commonPart rest
  | .inserted _ :: rest => commonPart rest

def decodeCommon (P : Primitives) : PacketDecoder → List Arrival →
    List (Except SeamError Decoded) × PacketDecoder
  | d, [] => ([], d)
  | d, .common buf :: rest =>
    let r := d.decode P buf
    let rs := decodeCommon P r.2 rest
    (r.1 :: rs.1, rs.2)
  | d, .inserted buf :: rest => decodeCommon P (d.decode P buf).2 rest

def acceptedNumbers (results : List (Except SeamError Decoded)) : List UInt64 :=
  results.filterMap fun r => r.toOption.map fun x => x.2.1

theorem PacketDecoder.decode_snd_of_not_authentic {P : Primitives} {d : PacketDecoder}
    {buf : Bytes} (h : authenticate P d.keys buf = none) : (d.decode P buf).2 = d := by
  rcases decode_cases P d buf with ⟨e, hd, -⟩ | ⟨x, hx, -, -⟩
  · rw [hd]
  · rw [h] at hx
    cases hx

open PacketDecoder

theorem decodeCommon_eq (run : List Arrival) (d : PacketDecoder)
    (h : ∀ buf, .inserted buf ∈ run → authenticate P d.keys buf = none) :
    decodeCommon P d run = decodeAll P d (commonPart run) := by
  induction run generalizing d with
  | nil => rfl
  | cons a rest ih =>
    cases a with
    | common buf =>
      have ih' := ih (d.decode P buf).2 fun b hb => by
        rw [decode_snd_keys]
        exact h b (mem_cons_of_mem _ hb)
      rw [commonPart, decodeCommon, decodeAll, ih']
    | inserted buf =>
      have hskip := decode_snd_of_not_authentic (h buf mem_cons_self)
      rw [commonPart, decodeCommon, hskip]
      exact ih d fun b hb => h b (mem_cons_of_mem _ hb)

theorem check_of_mem_acceptedNumbers (bufs : List Bytes) (d : PacketDecoder) {n : UInt64}
    (h : n ∈ acceptedNumbers (decodeAll P d bufs).1) : d.replay.check n = .ok () := by
  induction bufs generalizing d with
  | nil => cases h
  | cons buf bufs ih =>
    rw [decodeAll] at h
    rcases decode_cases P d buf with ⟨e, hd, -⟩ | ⟨x, -, hchk, hd⟩
    · rw [hd] at h
      exact ih d h
    · rw [hd] at h
      rcases mem_cons.mp h with rfl | h
      · exact hchk
      · exact (check_of_check_commit
          ((commit_fst _ _).trans hchk) (ih _ h)).1

theorem nodup_acceptedNumbers (bufs : List Bytes) (d : PacketDecoder) :
    (acceptedNumbers (decodeAll P d bufs).1).Nodup := by
  induction bufs generalizing d with
  | nil => exact nodup_nil
  | cons buf bufs ih =>
    rw [decodeAll]
    rcases decode_cases P d buf with ⟨e, hd, -⟩ | ⟨x, -, hchk, hd⟩
    · rw [hd]
      exact ih d
    · rw [hd]
      refine nodup_cons.mpr ⟨fun hmem => ?_, ih _⟩
      -- once committed, the number is refused for good
      exact (check_of_check_commit ((commit_fst _ _).trans hchk)
        (check_of_mem_acceptedNumbers P bufs _ hmem)).2 rfl

/-- **Unauthenticated input has no influence on the decoder**: a failing `decode` changes nothing; runs
that differ only by buffers that fail to authenticate agree on the common buffers and in the final
decoder; no packet number is returned `Ok` twice; and after the replay check and the AEAD the commit
cannot fail. -/
theorem decode_ignores_unauthenticated (P : Primitives) (d : PacketDecoder) :
    (∀ (buf : Bytes) (e : SeamError),
      (d.decode P buf).1 = .error e → (d.decode P buf).2 = d) ∧
    (∀ run₁ run₂ : List Arrival, commonPart run₁ = commonPart run₂ →
      (∀ buf, .inserted buf ∈ run₁ ∨ .inserted buf ∈ run₂ → authenticate P d.keys buf = none) →
      decodeCommon P d run₁ = decodeCommon P d run₂) ∧
    (∀ bufs : List Bytes, (acceptedNumbers (decodeAll P d bufs).1).Nodup) ∧
    (∀ (buf : Bytes) (x : Decoded), authenticate P d.keys buf = some x →
      d.replay.check x.2.1 = .ok () →
      (d.replay.commit x.2.1).1 = .ok () ∧ (d.decode P buf).1 = .ok x) := by
  refine ⟨fun buf e => PacketDecoder.decode_snd_of_error, fun run₁ run₂ hcommon hforged => ?_,
    fun bufs => nodup_acceptedNumbers P bufs d, fun buf x hx hchk => ⟨?_, ?_⟩⟩
  · rw [decodeCommon_eq P run₁ d fun buf hbuf => hforged buf (.inl hbuf), hcommon,
      decodeCommon_eq P run₂ d fun buf hbuf => hforged buf (.inr hbuf)]
  · rw [ReplayWindow.commit_fst, hchk]
  · exact (PacketDecoder.decode_ok_iff P d buf).mpr ⟨hx, hchk⟩

end SeamProtocol
