import SeamProtocol.Transport.Connection

/-! # Session tickets

A server encrypts session id, keys and expiry under a key of its own for the client, who can present
them later. The keys are stored without their cipher, and read with the default one. -/

namespace SeamProtocol

open Lib Connection

/-! ## The bytes of a ticket -/

def PacketKeys.fromBytes (bytes : Bytes) : Option PacketKeys :=
  if h : bytes.length = 76 then
    some {
      encKey := ⟨(bytes.take 32).toArray, by simp; omega⟩
      hpKey := ⟨((bytes.drop 32).take 32).toArray, by simp; omega⟩
      nonceBase := ⟨((bytes.drop 64).take 12).toArray, by simp; omega⟩
      cipherSuite := .chaCha20Poly1305 }
  else none

def PacketKeys.restored (keys : PacketKeys) : PacketKeys :=
  { keys with cipherSuite := .chaCha20Poly1305 }

variable (keys : PacketKeys)

theorem PacketKeys.restored_eq_iff : keys.restored = keys ↔ keys.cipherSuite = .chaCha20Poly1305 := by
  constructor
  · intro h
    rw [← h]
    rfl
  · intro h
    rw [restored, ← h]

def unixNow (clock : Int64) : Nat := clock.toInt.toNat

def ticketTtlSecs : Nat := 24 * 3600

def ticketPlaintextLen : Nat := 8 + 76 + 76 + 8

def ticketLen : Nat := ticketPlaintextLen + 12 + 16

def ticketAad : Bytes := [0x73, 0x65, 0x61, 0x6d, 0x2d, 0x74, 0x69, 0x63, 0x6b, 0x65, 0x74]

def redeemTicket (P : Primitives) (key : Key) (ticket : Bytes) (unixSecs : Nat) :
    Except SeamError (UInt64 × PacketKeys × PacketKeys) :=
  if ticket.length ≠ ticketLen then .error (.handshakeFailed "bad ticket length")
  else
    match P.decrypt .chaCha20Poly1305 key (ticket.take 12) ticketAad
        ((ticket.drop 12).take (ticketPlaintextLen + 16)) with
    | none => .error .authFailed
    | some ct =>
      if ct.length < ticketPlaintextLen then .error .authFailed
      else
        match PacketKeys.fromBytes ((ct.drop 8).take 76),
            PacketKeys.fromBytes ((ct.drop 84).take 76) with
        | some keysC2s, some keysS2c =>
          if leNat ((ct.drop 160).take 8) ≤ unixSecs then .error (.handshakeFailed "ticket expired")
          else .ok (UInt64.ofNat (leNat (ct.take 8)), keysC2s, keysS2c)
        | _, _ => .error .authFailed

structure SessionTicket where
  sessionId : UInt64
  keysC2s : PacketKeys
  keysS2c : PacketKeys

namespace SessionTicket

def toBytes (t : SessionTicket) : Bytes :=
  leBytes 8 t.sessionId.toNat ++ keyBytes t.keysC2s ++ keyBytes t.keysS2c

def fromBytes (buf : Bytes) : Option SessionTicket :=
  if buf.length ≠ 8 + 76 + 76 then none
  else
    (PacketKeys.fromBytes ((buf.drop 8).take 76)).bind fun keysC2s =>
      (PacketKeys.fromBytes ((buf.drop 84).take 76)).map fun keysS2c =>
        ⟨UInt64.ofNat (leNat (buf.take 8)), keysC2s, keysS2c⟩

end SessionTicket

/-! ## Reading what was written -/

theorem take_drop_append {a b : Bytes} {i n : Nat} (c : Bytes) (ha : a.length = i) (hb : b.length = n) :
    ((a ++ (b ++ c)).drop i).take n = b := by
  rw [List.drop_left' ha, List.take_left' hb]

theorem length_keyBytes : (keyBytes keys).length = 76 := by simp [keyBytes]

theorem ofNat_leNat_leBytes (id : UInt64) : UInt64.ofNat (leNat (leBytes 8 id.toNat)) = id := by
  simp [leNat_leBytes]

theorem fromBytes_keyBytes : PacketKeys.fromBytes (keyBytes keys) = some keys.restored := by
  have henc : keys.encKey.toList.length = 32 := keys.encKey.length_toList
  have hhp : keys.hpKey.toList.length = 32 := keys.hpKey.length_toList
  have hbase : keys.nonceBase.toList.length = 12 := keys.nonceBase.length_toList
  have hsplit : keyBytes keys
      = keys.encKey.toList ++ (keys.hpKey.toList ++ (keys.nonceBase.toList ++ [])) := by
    simp [keyBytes]
  unfold PacketKeys.fromBytes
  rw [dif_pos (length_keyBytes keys), Option.some.injEq, PacketKeys.restored, PacketKeys.mk.injEq]
  refine ⟨Vector.toList_inj.mp ?_, Vector.toList_inj.mp ?_, Vector.toList_inj.mp ?_, rfl⟩
  · show (keyBytes keys).take 32 = _
    simp [hsplit]
  · show ((keyBytes keys).drop 32).take 32 = _
    simp [hsplit]
  · show ((keyBytes keys).drop 64).take 12 = _
    rw [hsplit, ← List.append_assoc, take_drop_append _ (by simp) hbase]

theorem SessionTicket.fromBytes_toBytes (t : SessionTicket) :
    fromBytes t.toBytes = some ⟨t.sessionId, t.keysC2s.restored, t.keysS2c.restored⟩ := by
  have hid : (leBytes 8 t.sessionId.toNat).length = 8 := length_leBytes _ _
  have hc2s := length_keyBytes t.keysC2s
  have hs2c := length_keyBytes t.keysS2c
  have hsplit : t.toBytes
      = leBytes 8 t.sessionId.toNat ++ (keyBytes t.keysC2s ++ (keyBytes t.keysS2c ++ [])) := by
    simp [toBytes]
  unfold fromBytes
  rw [if_neg (by simp [toBytes, hc2s, hs2c]), hsplit, take_drop_append _ hid hc2s, fromBytes_keyBytes,
    Option.bind_some, List.take_left' hid, ofNat_leNat_leBytes, ← List.append_assoc,
    take_drop_append _ (by simp [hid, hc2s]) hs2c, fromBytes_keyBytes]
  rfl

structure TicketCall where
  result : HandshakeResult
  nonce : Vector UInt8 12
  clock : Int64

namespace TicketCall

def issue (P : Primitives) (key : Key) (c : TicketCall) : Option Bytes :=
  issueTicket P key c.result c.nonce (unixNow c.clock)

def expiry (c : TicketCall) : Nat := unixNow c.clock + ticketTtlSecs

def plain (c : TicketCall) : Bytes :=
  leBytes 8 c.result.sessionId.toNat ++ (keyBytes c.result.keysC2s ++ (keyBytes c.result.keysS2c
    ++ (leBytes 8 c.expiry ++ [])))

variable {P : Primitives} {key : Key} {c : TicketCall}

theorem issue_eq (P : Primitives) (key : Key) (c : TicketCall) :
    c.issue P key = (P.encrypt .chaCha20Poly1305 key c.nonce.toList ticketAad c.plain).map
      fun sealed => c.nonce.toList ++ sealed := by
  simp [issue, issueTicket, plain, ticketAad, expiry, ticketTtlSecs]

theorem length_plain (c : TicketCall) : c.plain.length = ticketPlaintextLen := by
  simp [plain, length_keyBytes, ticketPlaintextLen]

theorem leNat_expiry (c : TicketCall) : leNat (leBytes 8 c.expiry) = c.expiry := by
  have hclock : c.clock.toInt < 2 ^ 63 := c.clock.toInt_lt
  rw [leNat_leBytes, Nat.mod_eq_of_lt]
  unfold expiry unixNow ticketTtlSecs
  omega

theorem redeemTicket_issue (hP : P.Lawful) {ticket : Bytes} (h : c.issue P key = some ticket)
    (unixSecs : Nat) : redeemTicket P key ticket unixSecs =
      if c.expiry ≤ unixSecs then .error (.handshakeFailed "ticket expired")
      else .ok (c.result.sessionId, c.result.keysC2s.restored, c.result.keysS2c.restored) := by
  rw [issue_eq] at h
  obtain ⟨sealed, hseal, rfl⟩ := Option.map_eq_some_iff.mp h
  have hnonce : c.nonce.toList.length = 12 := c.nonce.length_toList
  have hlen : sealed.length = ticketPlaintextLen + 16 := by
    rw [hP.length_encrypt hseal, length_plain]
    rfl
  have hid : (leBytes 8 c.result.sessionId.toNat).length = 8 := length_leBytes _ _
  have hc2s := length_keyBytes c.result.keysC2s
  have hs2c := length_keyBytes c.result.keysS2c
  -- the parts of the plaintext, each at its place
  have hC2s : (c.plain.drop 8).take 76 = keyBytes c.result.keysC2s := take_drop_append _ hid hc2s
  have hS2c : (c.plain.drop 84).take 76 = keyBytes c.result.keysS2c := by
    rw [plain, ← List.append_assoc]
    exact take_drop_append _ (by simp [hid, hc2s]) hs2c
  have hExpiry : (c.plain.drop 160).take 8 = leBytes 8 c.expiry := by
    rw [plain, ← List.append_assoc, ← List.append_assoc]
    exact take_drop_append _ (by simp [hc2s, hs2c]) (length_leBytes _ _)
  unfold redeemTicket
  rw [if_neg (by rw [List.length_append, hnonce, hlen, ticketLen]; omega), List.take_left' hnonce,
    List.drop_left' hnonce, List.take_of_length_le hlen.le, hP.decrypt_encrypt hseal]
  dsimp only
  rw [if_neg (by rw [length_plain]; exact lt_irrefl _), hC2s, hS2c, hExpiry, fromBytes_keyBytes,
    fromBytes_keyBytes, leNat_expiry, show c.plain.take 8 = _ from List.take_left' hid,
    ofNat_leNat_leBytes]

/-- The AEAD is unforgeable: this buffer opens only if it was sealed for one of these tickets. -/
def Unforged (P : Primitives) (key : Key) (issued : List TicketCall) (nonce cipher : Bytes) : Prop :=
  P.decrypt .chaCha20Poly1305 key nonce ticketAad cipher ≠ none → ∃ c ∈ issued, c.nonce.toList = nonce ∧
    P.encrypt .chaCha20Poly1305 key nonce ticketAad c.plain = some cipher

/-- **Tickets preserve the session**: until it expires, the ticket of a session gives the session back, and
so do the bytes that a client keeps; an expired ticket is refused, and so is every ticket that the server
has not issued. -/
def Preserves (P : Primitives) (key : Key) (c : TicketCall) : Prop :=
  ∃ ticket, c.issue P key = some ticket ∧
    (∀ clock, unixNow clock < c.expiry → redeemTicket P key ticket (unixNow clock)
      = .ok (c.result.sessionId, c.result.keysC2s, c.result.keysS2c)) ∧
    SessionTicket.fromBytes
        (SessionTicket.toBytes ⟨c.result.sessionId, c.result.keysC2s, c.result.keysS2c⟩)
      = some ⟨c.result.sessionId, c.result.keysC2s, c.result.keysS2c⟩ ∧
    (∀ clock, c.expiry ≤ unixNow clock → ∃ e, redeemTicket P key ticket (unixNow clock) = .error e) ∧
    ∀ altered issued clock, (∀ c' ∈ issued, c'.issue P key ≠ some altered) →
      Unforged P key issued (altered.take 12) (altered.drop 12) →
      ∃ e, redeemTicket P key altered (unixNow clock) = .error e

theorem redeemTicket_of_unforged {altered : Bytes} {issued : List TicketCall} (unixSecs : Nat)
    (hnew : ∀ c ∈ issued, c.issue P key ≠ some altered)
    (hunforged : Unforged P key issued (altered.take 12) (altered.drop 12)) :
    ∃ e, redeemTicket P key altered unixSecs = .error e := by
  unfold redeemTicket
  split_ifs with hlen
  · exact ⟨_, rfl⟩
  · rw [not_not, ticketLen] at hlen
    have hnone : P.decrypt .chaCha20Poly1305 key (altered.take 12) ticketAad (altered.drop 12) = none := by
      by_contra hopen
      obtain ⟨c, hc, hnonce, hseal⟩ := hunforged hopen
      refine hnew c hc ?_
      simp [issue_eq, hnonce, hseal]
    have hrest : (altered.drop 12).take (ticketPlaintextLen + 16) = altered.drop 12 :=
      List.take_of_length_le (by rw [List.length_drop]; omega)
    rw [hrest, hnone]
    exact ⟨_, rfl⟩

end TicketCall

/-- **Tickets preserve the session if and only if both of its ciphers are ChaCha20-Poly1305**, for every
ticket key, session, nonce and time of issue. -/
theorem tickets_preserve_iff {P : Primitives} (hP : P.Lawful) (key : Key) (c : TicketCall) :
    c.Preserves P key ↔ c.result.keysC2s.cipherSuite = .chaCha20Poly1305 ∧
      c.result.keysS2c.cipherSuite = .chaCha20Poly1305 := by
  rw [← PacketKeys.restored_eq_iff, ← PacketKeys.restored_eq_iff]
  constructor
  · rintro ⟨ticket, hissue, hredeem, -⟩
    have hvalid : ¬c.expiry ≤ unixNow c.clock := by
      unfold TicketCall.expiry ticketTtlSecs
      omega
    have hback := hredeem c.clock (not_le.mp hvalid)
    rw [TicketCall.redeemTicket_issue hP hissue, if_neg hvalid, Except.ok.injEq, Prod.mk.injEq,
      Prod.mk.injEq] at hback
    exact hback.2
  · rintro ⟨hc2s, hs2c⟩
    have hsome : (P.encrypt .chaCha20Poly1305 key c.nonce.toList ticketAad c.plain).isSome :=
      hP.encrypt_isSome (by rw [c.length_plain]; decide)
    obtain ⟨sealed, hseal⟩ := Option.isSome_iff_exists.mp hsome
    have hissue : c.issue P key = some (c.nonce.toList ++ sealed) := by
      simp [c.issue_eq, hseal]
    refine ⟨_, hissue, fun clock hlt => ?_, ?_, fun clock hle => ?_, fun altered issued clock =>
      TicketCall.redeemTicket_of_unforged _⟩
    · rw [TicketCall.redeemTicket_issue hP hissue, if_neg (not_le.mpr hlt), hc2s, hs2c]
    · rw [SessionTicket.fromBytes_toBytes]
      rw [hc2s, hs2c]
    · exact ⟨_, by rw [TicketCall.redeemTicket_issue hP hissue, if_pos hle]⟩

def sampleTicket (suite : CipherSuite) : TicketCall where
  result := { sampleResult with
    keysC2s := { zeroKeys with cipherSuite := suite }
    keysS2c := { zeroKeys with cipherSuite := suite } }
  nonce := Vector.replicate 12 7
  clock := 1000

/-- With the default cipher, the session is preserved. -/
theorem chaCha_ticket_preserves :
    (sampleTicket .chaCha20Poly1305).Preserves checksumPrimitives (Vector.replicate 32 0x42) :=
  (tickets_preserve_iff checksumPrimitives_lawful _ _).mpr ⟨rfl, rfl⟩

/-- **A ticket for AES-256-GCM keys does not**: one second later it gives ChaCha20-Poly1305 keys. -/
theorem aes_ticket_changes_cipher :
    ¬(sampleTicket .aes256Gcm).Preserves checksumPrimitives (Vector.replicate 32 0x42) := by
  rintro ⟨ticket, hissue, hredeem, -⟩
  have hrun : (((sampleTicket .aes256Gcm).issue checksumPrimitives (Vector.replicate 32 0x42)).map
      fun ticket => (redeemTicket checksumPrimitives (Vector.replicate 32 0x42) ticket (unixNow 1001)).map
        fun res => res.2.1.cipherSuite) = some (.ok .chaCha20Poly1305) := by
    decide +kernel
  rw [hissue, Option.map_some, hredeem 1001 (by decide)] at hrun
  cases hrun

end SeamProtocol
