import SeamProtocol.Handshake.Keys

/-! # The handshake

Three Noise messages, each with a payload: the client's cipher preference, the server's KEM key and the
cipher agreed on, and a KEM ciphertext. Before them the server has the client echo a cookie. Noise and
the KEM are parameters; what is assumed of Noise is said in terms of the history of its states. -/

namespace SeamProtocol

open Lib

/-! ## Noise -/

abbrev Transcript := List (Bytes × Bytes)

/-- The Noise implementation. Calls that can fail return the state also then; messages of errors are
texts. -/
structure Noise where
  State : Type
  /-- Start as initiator, with the own secret key and the other side's public key. -/
  buildInitiator : Key → Key → Except String State
  buildResponder : Key → Except String State
  /-- Write the next message with a payload; the last argument is the randomness used. -/
  writeMessage : State → Bytes → Nat → Except String Bytes × State
  readMessage : State → Bytes → Except String Bytes × State
  getHandshakeHash : State → Bytes
  getRemoteStatic : State → Option Bytes
  rawSplit : State → Key × Key
  transcript : State → Transcript

structure Noise.Lawful (N : Noise) : Prop where
  transcript_initiator : ∀ {sk pk s}, N.buildInitiator sk pk = .ok s → N.transcript s = []
  transcript_responder : ∀ {sk s}, N.buildResponder sk = .ok s → N.transcript s = []
  transcript_write : ∀ {s payload seed msg s'}, N.writeMessage s payload seed = (.ok msg, s') →
    N.transcript s' = N.transcript s ++ [(payload, msg)]
  transcript_write_error : ∀ {s payload seed e s'}, N.writeMessage s payload seed = (.error e, s') →
    N.transcript s' = N.transcript s
  transcript_read : ∀ {s msg payload s'}, N.readMessage s msg = (.ok payload, s') →
    N.transcript s' = N.transcript s ++ [(payload, msg)]
  read_error : ∀ {s msg e s'}, N.readMessage s msg = (.error e, s') → s' = s
  hash_eq : ∀ {s s'}, N.transcript s = N.transcript s' → N.getHandshakeHash s = N.getHandshakeHash s'
  split_eq : ∀ {s s'}, N.transcript s = N.transcript s' → N.rawSplit s = N.rawSplit s'

def Noise.Exchanged (N : Noise) (initiator : N.State) (msg₂ payload₂ : Bytes) (responder : N.State) :
    Prop :=
  ∃ skI pkR skR i₀ r₀ r₁ payload₁ payload₁' msg₁ seed₁ seed₂,
    N.buildInitiator skI pkR = .ok i₀ ∧ N.writeMessage i₀ payload₁ seed₁ = (.ok msg₁, initiator) ∧
    N.buildResponder skR = .ok r₀ ∧ N.readMessage r₀ msg₁ = (.ok payload₁', r₁) ∧
    N.writeMessage r₁ payload₂ seed₂ = (.ok msg₂, responder)

/-- What is assumed of Noise when nobody interferes: the handshake goes through. -/
structure Noise.Completes (N : Noise) : Prop where
  /-- A message has two keys and two tags besides its payload, at most. -/
  length_write : ∀ {s payload seed msg s'}, N.writeMessage s payload seed = (.ok msg, s') →
    msg.length ≤ payload.length + 96
  /-- The initiator reads in message 2 what the responder wrote. -/
  read_msg2 : ∀ {i₁ i₂ msg₂ payload₂ payload r₂}, N.Exchanged i₁ msg₂ payload₂ r₂ →
    N.readMessage i₁ msg₂ = (.ok payload, i₂) → payload = payload₂
  /-- The responder accepts message 3, and then has a static key of 32 bytes and a hash of at least
  8. -/
  read_msg3 : ∀ {i₁ i₂ i₃ msg₂ payload₂ payload r₂ payload₃ seed msg₃},
    N.Exchanged i₁ msg₂ payload₂ r₂ → N.readMessage i₁ msg₂ = (.ok payload, i₂) →
    N.writeMessage i₂ payload₃ seed = (.ok msg₃, i₃) →
    ∃ r₃ static, N.readMessage r₂ msg₃ = (.ok payload₃, r₃) ∧ N.getRemoteStatic r₃ = some static ∧
      static.length = 32 ∧ 8 ≤ (N.getHandshakeHash r₃).length

def writeNoise (N : Noise) (s : N.State) (payload : Bytes) (seed : Nat) :
    Except SeamError Bytes × N.State :=
  let r := N.writeMessage s payload seed
  (r.1.mapError .handshakeFailed, r.2)

def readNoise (N : Noise) (s : N.State) (msg : Bytes) : Except SeamError Bytes × N.State :=
  let r := N.readMessage s msg
  (r.1.mapError .handshakeFailed, r.2)

variable {N : Noise} {payload msg : Bytes} {seed : Nat} {s s' : N.State}

theorem writeNoise_eq_ok :
    writeNoise N s payload seed = (.ok msg, s') ↔ N.writeMessage s payload seed = (.ok msg, s') := by
  unfold writeNoise
  rcases N.writeMessage s payload seed with ⟨e | m, t⟩ <;> simp [Except.mapError]

theorem readNoise_eq_ok :
    readNoise N s msg = (.ok payload, s') ↔ N.readMessage s msg = (.ok payload, s') := by
  unfold readNoise
  rcases N.readMessage s msg with ⟨e | p, t⟩ <;> simp [Except.mapError]

/-! ## The KEM -/

structure Kem where
  PublicKey : Type
  SecretKey : Type
  IsPair : PublicKey → SecretKey → Prop
  pkToBytes : PublicKey → Bytes
  pkFromBytes : Bytes → Option PublicKey
  /-- Encapsulate with some randomness: the ciphertext and the shared secret. -/
  encapsulate : PublicKey → Nat → Bytes × Key
  /-- Decapsulate; `none` for a ciphertext that is malformed. -/
  decapsulate : SecretKey → Bytes → Option Key

structure Kem.Lawful (K : Kem) : Prop where
  pkFromBytes_pkToBytes : ∀ pk, K.pkFromBytes (K.pkToBytes pk) = some pk
  /-- The length of a public key fits two bytes; it is 1184. -/
  length_pkToBytes : ∀ pk, (K.pkToBytes pk).length < 2 ^ 16
  /-- The length of a ciphertext fits two bytes; it is 1088. -/
  length_encapsulate : ∀ pk seed, (K.encapsulate pk seed).1.length < 2 ^ 16
  decapsulate_encapsulate : ∀ {pk sk} seed, K.IsPair pk sk →
    K.decapsulate sk (K.encapsulate pk seed).1 = some (K.encapsulate pk seed).2

structure IdentityKeypair (K : Kem) where
  x25519Secret : Key
  kemPk : K.PublicKey
  kemSk : K.SecretKey
  isPair : K.IsPair kemPk kemSk

/-! ## Payloads -/

def cipherToFlag : CipherSuite → UInt8
  | .chaCha20Poly1305 => 0x00
  | .aes256Gcm => 0x01

def flagToCipher (flag : UInt8) : CipherSuite :=
  if flag = 0x01 then .aes256Gcm else .chaCha20Poly1305

@[simp] theorem flagToCipher_cipherToFlag (suite : CipherSuite) :
    flagToCipher (cipherToFlag suite) = suite := by
  cases suite <;> rfl

def lengthPrefix (data : Bytes) : Bytes := leBytes 2 data.length ++ data

def extractPrefix (buf : Bytes) : Except SeamError Bytes :=
  if buf.length < 2 then .error (.handshakeFailed "payload too short")
  else
    let len := leNat (buf.take 2)
    if buf.length < 2 + len then .error (.handshakeFailed "payload truncated")
    else .ok ((buf.drop 2).take len)

def extractPrefixWithFlag (buf : Bytes) : Except SeamError (Bytes × UInt8) :=
  if buf.length < 2 then .error (.handshakeFailed "payload too short")
  else
    let len := leNat (buf.take 2)
    if buf.length < 2 + len then .error (.handshakeFailed "payload truncated")
    else .ok ((buf.drop 2).take len, buf.getD (2 + len) (cipherToFlag .chaCha20Poly1305))

def clientFlag (payload : Bytes) : UInt8 :=
  if 2 < payload.length then
    payload.getD (2 + leNat (payload.take 2)) (cipherToFlag .chaCha20Poly1305)
  else cipherToFlag .chaCha20Poly1305

def negotiate (preferredCipher clientSuite : CipherSuite) : CipherSuite :=
  if preferredCipher = .aes256Gcm ∧ clientSuite = .aes256Gcm then .aes256Gcm
  else .chaCha20Poly1305

theorem negotiate_eq_aes256Gcm {server client : CipherSuite} :
    negotiate server client = .aes256Gcm ↔ server = .aes256Gcm ∧ client = .aes256Gcm := by
  cases server <;> cases client <;> decide

section Payloads

variable {data : Bytes} (h : data.length < 2 ^ 16)

include h

theorem leNat_lengthPrefix (rest : Bytes) :
    leNat ((lengthPrefix data ++ rest).take 2) = data.length := by
  have htake : (lengthPrefix data ++ rest).take 2 = leBytes 2 data.length := by
    simp [lengthPrefix]
  have hlt : data.length < 256 ^ 2 := h
  rw [htake, leNat_leBytes, Nat.mod_eq_of_lt hlt]

theorem extractPrefix_lengthPrefix : extractPrefix (lengthPrefix data) = .ok data := by
  have hlen := leNat_lengthPrefix h []
  rw [List.append_nil] at hlen
  have hsize : (lengthPrefix data).length = 2 + data.length := by simp [lengthPrefix]
  unfold extractPrefix
  rw [hlen, hsize, if_neg (by omega), if_neg (by omega)]
  simp [lengthPrefix]

variable (flag : UInt8)

theorem extractPrefixWithFlag_lengthPrefix :
    extractPrefixWithFlag (lengthPrefix data ++ [flag]) = .ok (data, flag) := by
  have hlen := leNat_lengthPrefix h [flag]
  have hsize : (lengthPrefix data ++ [flag]).length = 2 + data.length + 1 := by
    simp [lengthPrefix]
    omega
  unfold extractPrefixWithFlag
  rw [hlen, hsize, if_neg (by omega), if_neg (by omega)]
  simp [lengthPrefix]

theorem clientFlag_lengthPrefix : clientFlag (lengthPrefix data ++ [flag]) = flag := by
  have hlen := leNat_lengthPrefix h [flag]
  have hsize : (lengthPrefix data ++ [flag]).length = 2 + data.length + 1 := by
    simp [lengthPrefix]
    omega
  unfold clientFlag
  rw [hlen, hsize, if_pos (by omega)]
  simp [lengthPrefix]

end Payloads

/-! ## Both sides -/

def toKey (bytes : Bytes) : Option Key :=
  if h : bytes.length = 32 then some ⟨bytes.toArray, by simpa using h⟩ else none

/-- The end of a handshake, the same on both sides: the keys follow from transcript hash, shared secret
and Noise keys. `none` for a panic. -/
def conclude (N : Noise) (B : Blake3) (noise : N.State) (kemShared : Key)
    (agreedCipher : CipherSuite) : Option (Except SeamError HandshakeResult) :=
  match N.getRemoteStatic noise with
  | none => some (.error (.handshakeFailed "no remote static"))
  | some bytes =>
    match toKey bytes with
    | none => some (.error (.handshakeFailed "bad static key length"))
    | some peerStatic =>
      (finish B (N.getHandshakeHash noise) peerStatic kemShared (N.rawSplit noise) agreedCipher).map
        .ok

theorem conclude_of_static {noise : N.State} {static : Bytes}
    (hstatic : N.getRemoteStatic noise = some static) (hlen : static.length = 32)
    (hhash : 8 ≤ (N.getHandshakeHash noise).length) (B : Blake3) (kemShared : Key)
    (suite : CipherSuite) : ∃ result, conclude N B noise kemShared suite = some (.ok result) := by
  unfold conclude toKey finish
  rw [hstatic]
  dsimp only
  rw [dif_pos hlen]
  dsimp only
  rw [if_neg (Nat.not_lt.mpr hhash)]
  exact ⟨_, rfl⟩

structure ClientHandshake (N : Noise) where
  noise : N.State
  preferredCipher : CipherSuite

namespace ClientHandshake

variable {N : Noise} {K : Kem}

def newWithCipher (N : Noise) (x25519Secret serverX25519Static : Key) (preferredCipher : CipherSuite) :
    Except SeamError (ClientHandshake N) :=
  match N.buildInitiator x25519Secret serverX25519Static with
  | .error e => .error (.handshakeFailed e)
  | .ok noise => .ok ⟨noise, preferredCipher⟩

def msg1Payload (K : Kem) (serverKemPk : K.PublicKey) (preferredCipher : CipherSuite) : Bytes :=
  lengthPrefix (K.pkToBytes serverKemPk) ++ [cipherToFlag preferredCipher]

def writeMsg1 (K : Kem) (hs : ClientHandshake N) (serverKemPk : K.PublicKey) (seed : Nat) :
    Except SeamError Bytes × ClientHandshake N :=
  let r := writeNoise N hs.noise (msg1Payload K serverKemPk hs.preferredCipher) seed
  (r.1, { hs with noise := r.2 })

def parseMsg2 (K : Kem) (payload : Bytes) : Except SeamError (K.PublicKey × CipherSuite) :=
  match extractPrefixWithFlag payload with
  | .error e => .error e
  | .ok (pkBytes, flag) =>
    match K.pkFromBytes pkBytes with
    | none => .error (.handshakeFailed "bad KEM PK")
    | some pk => .ok (pk, flagToCipher flag)

def readMsg2 (K : Kem) (hs : ClientHandshake N) (msg : Bytes) :
    Except SeamError (K.PublicKey × CipherSuite) × ClientHandshake N :=
  let r := readNoise N hs.noise msg
  (r.1.bind (parseMsg2 K), { hs with noise := r.2 })

def msg3Payload (K : Kem) (serverKemPk : K.PublicKey) (kemSeed : Nat) : Bytes :=
  lengthPrefix (K.encapsulate serverKemPk kemSeed).1

def writeMsg3AndFinish (K : Kem) (B : Blake3) (hs : ClientHandshake N) (serverKemPk : K.PublicKey)
    (agreedCipher : CipherSuite) (kemSeed seed : Nat) :
    Option (Except SeamError (Bytes × HandshakeResult)) :=
  match writeNoise N hs.noise (msg3Payload K serverKemPk kemSeed) seed with
  | (.error e, _) => some (.error e)
  | (.ok msg3, noise) =>
    (conclude N B noise (K.encapsulate serverKemPk kemSeed).2 agreedCipher).map fun result =>
      result.map fun result => (msg3, result)

variable {hs hs' : ClientHandshake N} {pk : K.PublicKey} {seed : Nat}

theorem writeMsg1_eq_ok (h : hs.writeMsg1 K pk seed = (.ok msg, hs')) :
    N.writeMessage hs.noise (msg1Payload K pk hs.preferredCipher) seed = (.ok msg, hs'.noise) := by
  obtain ⟨hmsg, hnoise⟩ := Prod.mk.inj h
  exact writeNoise_eq_ok.mp (Prod.ext hmsg (congrArg noise hnoise))

variable {suite : CipherSuite}

theorem readMsg2_eq_ok (h : hs.readMsg2 K msg = (.ok (pk, suite), hs')) :
    ∃ payload, N.readMessage hs.noise msg = (.ok payload, hs'.noise) ∧
      parseMsg2 K payload = .ok (pk, suite) := by
  obtain ⟨hparse, hnoise⟩ := Prod.mk.inj h
  cases hread : (readNoise N hs.noise msg).1 with
  | error e =>
    rw [hread] at hparse
    cases hparse
  | ok payload =>
    rw [hread] at hparse
    exact ⟨payload, readNoise_eq_ok.mp (Prod.ext hread (congrArg noise hnoise)), hparse⟩

theorem writeMsg3AndFinish_eq_ok {B : Blake3} {kemSeed : Nat} {result : HandshakeResult}
    (h : hs.writeMsg3AndFinish K B pk suite kemSeed seed = some (.ok (msg, result))) :
    ∃ noise, N.writeMessage hs.noise (msg3Payload K pk kemSeed) seed = (.ok msg, noise) := by
  unfold writeMsg3AndFinish at h
  split at h
  · cases h
  · next msg3 noise hwrite =>
      obtain ⟨x, -, hx⟩ := Option.map_eq_some_iff.mp h
      cases x with
      | error e => cases hx
      | ok result' =>
        cases hx
        exact ⟨noise, writeNoise_eq_ok.mp hwrite⟩

end ClientHandshake

structure ServerHandshake (N : Noise) where
  noise : N.State
  preferredCipher : CipherSuite

namespace ServerHandshake

variable {N : Noise} {K : Kem}

def newWithCipher (N : Noise) (x25519Secret : Key) (preferredCipher : CipherSuite) :
    Except SeamError (ServerHandshake N) :=
  match N.buildResponder x25519Secret with
  | .error e => .error (.handshakeFailed e)
  | .ok noise => .ok ⟨noise, preferredCipher⟩

def readMsg1 (hs : ServerHandshake N) (msg : Bytes) :
    Except SeamError CipherSuite × ServerHandshake N :=
  let r := readNoise N hs.noise msg
  (r.1.map fun payload => negotiate hs.preferredCipher (flagToCipher (clientFlag payload)),
    { hs with noise := r.2 })

def msg2Payload (K : Kem) (localKemPk : K.PublicKey) (agreedCipher : CipherSuite) : Bytes :=
  lengthPrefix (K.pkToBytes localKemPk) ++ [cipherToFlag agreedCipher]

def writeMsg2 (K : Kem) (hs : ServerHandshake N) (localKemPk : K.PublicKey)
    (agreedCipher : CipherSuite) (seed : Nat) : Except SeamError Bytes × ServerHandshake N :=
  let r := writeNoise N hs.noise (msg2Payload K localKemPk agreedCipher) seed
  (r.1, { hs with noise := r.2 })

def openMsg3 (K : Kem) (localKemSk : K.SecretKey) (payload : Bytes) : Except SeamError Key :=
  match extractPrefix payload with
  | .error e => .error e
  | .ok ctBytes =>
    match K.decapsulate localKemSk ctBytes with
    | none => .error (.handshakeFailed "KEM decapsulation failed")
    | some kemShared => .ok kemShared

def readMsg3AndFinish (K : Kem) (B : Blake3) (hs : ServerHandshake N) (localKemSk : K.SecretKey)
    (agreedCipher : CipherSuite) (msg3 : Bytes) : Option (Except SeamError HandshakeResult) :=
  match readNoise N hs.noise msg3 with
  | (.error e, _) => some (.error e)
  | (.ok payload, noise) =>
    match openMsg3 K localKemSk payload with
    | .error e => some (.error e)
    | .ok kemShared => conclude N B noise kemShared agreedCipher

variable {hs : ServerHandshake N}

theorem newWithCipher_eq_ok {x25519Secret : Key} {preferredCipher : CipherSuite}
    (h : newWithCipher N x25519Secret preferredCipher = .ok hs) :
    N.buildResponder x25519Secret = .ok hs.noise ∧ hs.preferredCipher = preferredCipher := by
  unfold newWithCipher at h
  split at h
  · cases h
  · next noise hbuild =>
      cases h
      exact ⟨hbuild, rfl⟩

variable {hs' : ServerHandshake N} {suite : CipherSuite}

theorem readMsg1_eq_ok (h : hs.readMsg1 msg = (.ok suite, hs')) :
    ∃ payload, N.readMessage hs.noise msg = (.ok payload, hs'.noise) ∧
      suite = negotiate hs.preferredCipher (flagToCipher (clientFlag payload)) := by
  obtain ⟨hsuite, hnoise⟩ := Prod.mk.inj h
  cases hread : (readNoise N hs.noise msg).1 with
  | error e =>
    rw [hread] at hsuite
    cases hsuite
  | ok payload =>
    rw [hread] at hsuite
    cases hsuite
    exact ⟨payload, readNoise_eq_ok.mp (Prod.ext hread (congrArg noise hnoise)), rfl⟩

theorem writeMsg2_eq_ok {pk : K.PublicKey} {seed : Nat}
    (h : hs.writeMsg2 K pk suite seed = (.ok msg, hs')) :
    N.writeMessage hs.noise (msg2Payload K pk suite) seed = (.ok msg, hs'.noise) := by
  obtain ⟨hmsg, hnoise⟩ := Prod.mk.inj h
  exact writeNoise_eq_ok.mp (Prod.ext hmsg (congrArg noise hnoise))

theorem readMsg3AndFinish_eq_ok {B : Blake3} {sk : K.SecretKey} {result : HandshakeResult}
    (h : hs.readMsg3AndFinish K B sk suite msg = some (.ok result)) :
    ∃ payload noise kemShared, readNoise N hs.noise msg = (.ok payload, noise) ∧
      openMsg3 K sk payload = .ok kemShared ∧
      conclude N B noise kemShared suite = some (.ok result) := by
  unfold readMsg3AndFinish at h
  split at h
  · cases h
  · next payload noise hread =>
      split at h
      · cases h
      · next kemShared hopen => exact ⟨payload, noise, kemShared, hread, hopen, h⟩

end ServerHandshake

section Reading

variable {K : Kem} (hK : K.Lawful)

include hK

variable (pk : K.PublicKey)

open ClientHandshake

open ServerHandshake

theorem parseMsg2_msg2Payload (suite : CipherSuite) :
    parseMsg2 K (msg2Payload K pk suite) = .ok (pk, suite) := by
  unfold parseMsg2 msg2Payload
  rw [extractPrefixWithFlag_lengthPrefix (hK.length_pkToBytes pk)]
  simp [hK.pkFromBytes_pkToBytes]

theorem clientFlag_msg1Payload (suite : CipherSuite) :
    flagToCipher (clientFlag (msg1Payload K pk suite)) = suite := by
  rw [msg1Payload, clientFlag_lengthPrefix (hK.length_pkToBytes pk),
    flagToCipher_cipherToFlag]

theorem openMsg3_msg3Payload {pk : K.PublicKey} {sk : K.SecretKey} (hpair : K.IsPair pk sk)
    (seed : Nat) :
    openMsg3 K sk (msg3Payload K pk seed)
      = .ok (K.encapsulate pk seed).2 := by
  unfold openMsg3 msg3Payload
  rw [extractPrefix_lengthPrefix (hK.length_encapsulate pk seed)]
  simp [hK.decapsulate_encapsulate seed hpair]

end Reading

/-! ## Cookies -/

structure CookieFactory where
  secret : Key
  bucketSecs : Nat
  deriving DecidableEq

namespace CookieFactory

def new (secret : Key) : CookieFactory := ⟨secret, 30⟩

def bucket (f : CookieFactory) (unixSecs : Nat) : Nat := unixSecs / f.bucketSecs

def compute (B : Blake3) (f : CookieFactory) (clientAddr : Bytes) (bucket : Nat) : Key :=
  B.keyedHash f.secret (clientAddr ++ leBytes 8 bucket)

def generate (B : Blake3) (f : CookieFactory) (clientAddr : Bytes) (unixSecs : Nat) : Key :=
  f.compute B clientAddr (f.bucket unixSecs)

def verify (B : Blake3) (f : CookieFactory) (clientAddr cookie : Bytes) (unixSecs : Nat) : Bool :=
  let b := f.bucket unixSecs
  let cur := f.compute B clientAddr b
  let prev := if 0 < b then f.compute B clientAddr (b - 1) else Vector.replicate 32 0
  decide (cur.toList = cookie) || decide (prev.toList = cookie)

end CookieFactory

/-! ## Stand-ins for concrete runs -/

structure PlainNoise where
  initiator : Bool
  ownStatic : Key
  remoteStatic : Option Bytes
  log : Transcript

namespace PlainNoise

def myTurn (s : PlainNoise) : Bool := s.log.length < 3 && (s.log.length % 2 == 0) == s.initiator

def digest (log : Transcript) : UInt8 := (log.map fun entry => entry.1.sum + entry.2.sum).sum

def message (s : PlainNoise) (payload : Bytes) (seed : Nat) : Bytes :=
  s.ownStatic.toList ++ [digest s.log, UInt8.ofNat seed] ++ payload

def write (s : PlainNoise) (payload : Bytes) (seed : Nat) : Except String Bytes × PlainNoise :=
  if s.myTurn then
    let msg := s.message payload seed
    (.ok msg, { s with log := s.log ++ [(payload, msg)] })
  else (.error "not turn to write", s)

def read (s : PlainNoise) (msg : Bytes) : Except String Bytes × PlainNoise :=
  if s.log.length < 3 && !s.myTurn && 34 ≤ msg.length && msg.getD 32 0 == digest s.log then
    let payload := msg.drop 34
    (.ok payload, { s with remoteStatic := some (msg.take 32), log := s.log ++ [(payload, msg)] })
  else (.error "decrypt error", s)

end PlainNoise

def plainNoise : Noise where
  State := PlainNoise
  buildInitiator sk pk := .ok ⟨true, sk, some pk.toList, []⟩
  buildResponder sk := .ok ⟨false, sk, none, []⟩
  writeMessage := PlainNoise.write
  readMessage := PlainNoise.read
  getHandshakeHash s := List.replicate 8 (PlainNoise.digest s.log)
  getRemoteStatic s := s.remoteStatic
  rawSplit s :=
    (Vector.replicate 32 (PlainNoise.digest s.log), Vector.replicate 32 (PlainNoise.digest s.log))
  transcript s := s.log

theorem plainNoise_lawful : plainNoise.Lawful where
  transcript_initiator h := by cases h; rfl
  transcript_responder h := by cases h; rfl
  transcript_write {s payload seed msg s'} h := by
    simp only [plainNoise, PlainNoise.write] at h ⊢
    split at h <;> cases h
    rfl
  transcript_write_error {s payload seed e s'} h := by
    simp only [plainNoise, PlainNoise.write] at h ⊢
    split at h <;> cases h
    rfl
  transcript_read {s msg payload s'} h := by
    simp only [plainNoise, PlainNoise.read] at h ⊢
    split at h <;> cases h
    rfl
  read_error {s msg e s'} h := by
    simp only [plainNoise, PlainNoise.read] at h
    split at h <;> cases h
    rfl
  hash_eq {s s'} h := by
    simp only [plainNoise] at h ⊢
    rw [h]
  split_eq {s s'} h := by
    simp only [plainNoise] at h ⊢
    rw [h]

theorem PlainNoise.read_message {s t : PlainNoise} (hlog : t.log = s.log) (hlen : s.log.length < 3)
    (hturn : t.myTurn = false) (payload : Bytes) (seed : Nat) :
    t.read (s.message payload seed) = (.ok payload, { t with
      remoteStatic := some s.ownStatic.toList
      log := t.log ++ [(payload, s.message payload seed)] }) := by
  have hsize : s.ownStatic.toList.length = 32 := by simp
  have hdigest : (s.message payload seed).getD 32 0 = digest s.log := by
    simp [message, hsize]
  have hdrop : (s.message payload seed).drop 34 = payload := by
    rw [message, List.drop_append_of_le_length (by simp [hsize])]
    simp [hsize]
  have htake : (s.message payload seed).take 32 = s.ownStatic.toList := by
    rw [message, List.append_assoc, List.take_append_of_le_length (by simp)]
    simp
  have hcond : (decide (t.log.length < 3) && !t.myTurn && decide (34 ≤ (s.message payload seed).length)
      && (s.message payload seed).getD 32 0 == digest t.log) = true := by
    rw [hlog, hdigest, hturn]
    simp [hlen, message]
    omega
  rw [read, if_pos hcond, hdrop, htake]

theorem PlainNoise.write_eq_ok {s s' : PlainNoise}
    (h : plainNoise.writeMessage s payload seed = (.ok msg, s')) :
    msg = s.message payload seed ∧ s' = { s with log := s.log ++ [(payload, msg)] } := by
  change s.write payload seed = (.ok msg, s') at h
  unfold write at h
  split at h
  · cases h
    exact ⟨rfl, rfl⟩
  · cases h

open PlainNoise

theorem plainNoise_completes : plainNoise.Completes := by
  -- when message 2 is written, the initiator has what the responder had before
  have hexchanged : ∀ {i₁ r₂ : PlainNoise} {msg₂ payload₂}, plainNoise.Exchanged i₁ msg₂ payload₂ r₂ →
      ∃ r₁ : PlainNoise, ∃ seed, i₁.initiator = true ∧ r₂.initiator = false ∧ r₁.log.length = 1 ∧
        i₁.log = r₁.log ∧ msg₂ = r₁.message payload₂ seed ∧ r₂.log = r₁.log ++ [(payload₂, msg₂)] := by
    rintro i₁ r₂ msg₂ payload₂ ⟨skI, pkR, skR, i₀, r₀, r₁, payload₁, payload₁', msg₁, seed₁, seed₂, hi₀,
      hwrite₁, hr₀, hread₁, hwrite₂⟩
    cases hi₀
    cases hr₀
    obtain ⟨rfl, rfl⟩ := write_eq_ok hwrite₁
    obtain ⟨rfl, rfl⟩ := write_eq_ok hwrite₂
    have hread := read_message (s := ⟨true, skI, some pkR.toList, []⟩)
      (t := ⟨false, skR, none, []⟩) rfl (Nat.zero_lt_succ 2) rfl payload₁ seed₁
    obtain ⟨-, rfl⟩ := Prod.mk.inj (hread₁.symm.trans hread)
    refine ⟨⟨false, skR, some skI.toList, _⟩, seed₂, rfl, rfl, ?_, ?_, rfl, rfl⟩
    · rfl
    · rfl
  -- so it reads what the responder wrote
  have hread₂ : ∀ {i₁ i₂ r₂ : PlainNoise} {msg₂ payload₂ payload},
      plainNoise.Exchanged i₁ msg₂ payload₂ r₂ → plainNoise.readMessage i₁ msg₂ = (.ok payload, i₂) →
      payload = payload₂ ∧ r₂.log = i₂.log ∧ i₂.log.length < 3 ∧ r₂.myTurn = false := by
    intro i₁ i₂ r₂ msg₂ payload₂ payload hex hread
    obtain ⟨r₁, seed, hi, hr, hlen, hlog, rfl, hlog₂⟩ := hexchanged hex
    have hturn : i₁.myTurn = false := by
      rw [myTurn, hlog, hlen, hi]
      rfl
    have hmsg := read_message hlog (by omega) hturn payload₂ seed
    cases hread.symm.trans hmsg
    refine ⟨rfl, by rw [hlog₂, hlog], by simp [hlog, hlen], ?_⟩
    rw [myTurn, hlog₂, hr]
    simp [hlen]
  constructor
  · intro s payload seed msg s' h
    obtain ⟨rfl, -⟩ := write_eq_ok h
    simp [message]
    omega
  · intro i₁ i₂ msg₂ payload₂ payload r₂ hex hread
    exact (hread₂ hex hread).1
  · intro i₁ i₂ i₃ msg₂ payload₂ payload r₂ payload₃ seed msg₃ hex hread hwrite
    obtain ⟨-, hlog, hlen, hturn⟩ := hread₂ hex hread
    obtain ⟨rfl, -⟩ := write_eq_ok hwrite
    have hmsg := read_message hlog hlen hturn payload₃ seed
    exact ⟨_, _, hmsg, rfl, by simp, by simp [plainNoise]⟩

def plainKem : Kem where
  PublicKey := UInt8
  SecretKey := UInt8
  IsPair pk sk := pk = sk
  pkToBytes pk := [pk]
  pkFromBytes
    | [pk] => some pk
    | _ => none
  encapsulate pk seed := ([pk, UInt8.ofNat seed], Vector.replicate 32 (pk + UInt8.ofNat seed))
  decapsulate
    | sk, [pk, r] => if pk = sk then some (Vector.replicate 32 (pk + r)) else none
    | _, _ => none

theorem plainKem_lawful : plainKem.Lawful where
  pkFromBytes_pkToBytes _ := rfl
  length_pkToBytes _ := show 1 < 2 ^ 16 by decide
  length_encapsulate _ _ := show 2 < 2 ^ 16 by decide
  decapsulate_encapsulate seed hpair := by
    cases hpair
    exact if_pos rfl

end SeamProtocol
