import SeamProtocol.Crypto.RoundTrip
import SeamProtocol.Transport.Connection

/-! # What a datagram does in each phase

For each handler of a connection one lemma that says everything it can do. -/

namespace SeamProtocol

open Lib List Option ServerHandshake

/-! ## Established connections -/

namespace Session

def tag (s : Session) : UInt64 × Ident := (s.id, s.ident)

theorem tag_receivePacket {P : Primitives} {s s' : Session} {buf : Bytes} {now : Nat}
    {r : Except SeamError (List SessionEvent)} (h : s.receivePacket P buf now = some (r, s')) :
    s'.tag = s.tag := by
  unfold receivePacket at h
  dsimp only at h
  split at h
  · cases h
    simp [tag, ident]
  · obtain ⟨_, _, _, _, _, _, _, _, rfl⟩ := dispatch_eq h
    simp [tag, ident]

theorem tag_encodeRaw (P : Primitives) (s : Session) (pktType : PktType) (payload out : Bytes) :
    (s.encodeRaw P pktType payload out).2.2.tag = s.tag := by
  obtain ⟨nextPktNum, heq⟩ := PacketEncoder.encode_snd P s.encoder pktType payload out
  unfold encodeRaw
  dsimp only
  rw [heq]
  rfl

theorem tag_flush (P : Primitives) (s : Session) (now : Nat) (order : List Nat) :
    (s.flush P now order).2.tag = s.tag := by
  have hflushed : (s.flushed P now order).sess.tag = s.tag := by
    refine flushed_rel (fun s t => t.tag = s.tag) (fun _ => rfl) (fun _ _ _ h h' => h'.trans h) ?_ s order
    rintro s em d hd _ ⟨_, _, _, rfl, -⟩
    obtain ⟨_, _, _, _, _, _, heq⟩ := draft_eq hd
    exact heq ▸ rfl
  rcases s.flush_cases P now order with ⟨e, -, heq⟩ | ⟨-, heq⟩ <;> rw [heq] <;> exact hflushed

end Session

namespace Connection

variable {X : Platform}

/-- **What an established connection can change** as it receives and sends: its counters, clocks, events
and controllers, and its session, which keeps its identity. -/
def Evolves (c c' : Connection X) : Prop :=
  ∃ session cc events sendCounter lastSend tar, c' = { c with
      session, cc, events, sendCounter, lastSend, tar } ∧
    session.map Session.tag = c.session.map Session.tag

variable (c : Connection X)

theorem Evolves.refl : c.Evolves c := ⟨_, _, _, _, _, _, rfl, rfl⟩

variable {c c' : Connection X}

theorem Evolves.trans {c'' : Connection X} (h : c.Evolves c') (h' : c'.Evolves c'') :
    c.Evolves c'' := by
  obtain ⟨session, cc, events, sendCounter, lastSend, tar, rfl, hs⟩ := h
  obtain ⟨session', cc', events', sendCounter', lastSend', tar', rfl, hs'⟩ := h'
  exact ⟨_, _, _, _, _, _, rfl, hs'.trans hs⟩

variable {s : Session}

theorem evolves_session {s' : Session} (hs : c.session = some s) (htag : s'.tag = s.tag) :
    c.Evolves { c with session := some s' } :=
  ⟨_, _, _, _, _, _, rfl, by simp [hs, htag]⟩

variable {env : Env}

theorem evolves_sendTo {k k₀ : Connection X} (hc : k₀.Evolves c) (hk : k₀.Evolves k)
    (datagram : Bytes) : k₀.Evolves (c.sendTo env datagram k).conn := by
  unfold sendTo
  split
  · exact hc
  · exact hk

variable {r : Reply X}

theorem evolves_andThen {f : Connection X → Reply X} (hr : c.Evolves r.conn)
    (hf : ∀ c', c.Evolves c' → c.Evolves (f c').conn) : c.Evolves (r.andThen f).conn := by
  unfold Reply.andThen
  split
  · exact hr
  · exact hf _ hr

variable {c₀ : Connection X}

theorem evolves_flushLoop (packets : List TaggedPacket) (env : Env) (hc : c₀.Evolves c) :
    c₀.Evolves (flushLoop env c packets).conn := by
  induction packets generalizing env c with
  | nil => exact hc
  | cons tp rest ih =>
    have hnoted : ∀ lastSend tar, c₀.Evolves { c with lastSend, tar } :=
      fun _ _ => hc.trans ⟨_, _, _, _, _, _, rfl, rfl⟩
    rw [flushLoop]
    split
    · exact evolves_andThen (evolves_sendTo (hnoted _ _) (hc.trans ⟨_, _, _, _, _, _, rfl, rfl⟩) _)
        fun c' hc' => ih _ hc'
    · split
      · exact hnoted _ _
      · exact evolves_andThen
          (evolves_sendTo (hnoted _ _) (hc.trans ⟨_, _, _, _, _, _, rfl, rfl⟩) _)
          fun c' hc' => ih _ hc'

open Evolves

theorem evolves_flush (env : Env) (c : Connection X) : c.Evolves (c.flush env).conn := by
  unfold flush
  cases hs : c.session with
  | none => exact refl c
  | some s =>
    have htag := Session.tag_flush X.P s env.now env.order
    dsimp only
    split
    · next e s' heq =>
        rw [heq] at htag
        exact evolves_session hs htag
    · next packets s' heq =>
        rw [heq] at htag
        exact evolves_flushLoop packets env (evolves_session hs htag)

theorem evolves_encodeRaw (hs : c.session = some s) (pktType : PktType) (payload : Bytes) :
    c.Evolves (c.encodeRaw s pktType payload).2 :=
  evolves_session hs (Session.tag_encodeRaw X.P s pktType payload _)

theorem evolves_sendPathResponse (env : Env) (c : Connection X) (nonce : Nat) :
    c.Evolves (c.sendPathResponse env nonce).conn := by
  unfold sendPathResponse
  cases hs : c.session with
  | none => exact refl c
  | some s =>
    have hraw := evolves_encodeRaw hs .pathResponse (leBytes 8 nonce)
    dsimp only
    split
    · next e c' heq =>
        rw [heq] at hraw
        exact hraw
    · next packet c' heq =>
        rw [heq] at hraw
        exact evolves_sendTo hraw hraw _

theorem evolves_handleEvents (evs : List SessionEvent) (env : Env) (hc : c₀.Evolves c) :
    c₀.Evolves (handleEvents env c evs).conn := by
  induction evs generalizing env c with
  | nil => exact hc
  | cons ev rest ih =>
    rw [handleEvents.eq_def]
    split
    · cases ‹_ = _›
    · next nonce rest' heq =>
        cases heq
        exact evolves_andThen (hc.trans (evolves_sendPathResponse env c nonce))
          fun c' hc' => ih _ hc'
    · next nonce rest' heq =>
        cases heq
        exact ih env hc
    · next ev' rest' _ _ heq =>
        cases heq
        exact ih env (hc.trans ⟨_, _, _, _, _, _, rfl, rfl⟩)

theorem evolves_feedAck (env : Env) (c : Connection X) : c.Evolves (c.feedAck env) := by
  unfold feedAck
  cases hs : c.session with
  | none => exact refl c
  | some s =>
    have htag : s.drainCcAck.2.tag = s.tag := rfl
    dsimp only
    split
    · next s' heq =>
        rw [heq] at htag
        exact evolves_session hs htag
    · next bytes rtt s' heq =>
        rw [heq] at htag
        exact (evolves_session hs htag).trans ⟨_, _, _, _, _, _, rfl, rfl⟩

variable {buf : Bytes}

/-- **A datagram after the handshake** changes the time of the last arrival and what established
connections can change. -/
theorem evolves_onDataPacket (h : c.onDataPacket env buf = some r) :
    ({ c with lastRecv := env.now } : Connection X).Evolves r.conn := by
  unfold onDataPacket at h
  dsimp only at h
  rcases eq_none_or_eq_some c.session with hs | ⟨s, hs⟩
  · rw [hs] at h
    cases h
    exact ⟨_, _, _, _, _, _, rfl, congrArg _ hs.symm⟩
  · rw [hs] at h
    obtain ⟨⟨res, s'⟩, hrecv, heq⟩ := map_eq_some_iff.mp h
    have hsess : ({ c with lastRecv := env.now } : Connection X).Evolves
        { c with lastRecv := env.now, session := some s' } :=
      evolves_session hs (Session.tag_receivePacket hrecv)
    cases res with
    | error e =>
      cases heq
      exact hsess
    | ok events =>
      cases heq
      refine evolves_andThen (evolves_handleEvents events env hsess) fun c' hc' => ?_
      have hfed := hc'.trans (evolves_feedAck env c')
      split
      · exact hfed.trans (evolves_flush _ _)
      · exact hfed

theorem onPacket_of_established (hphase : c.phase = .established) (hne : buf ≠ []) :
    c.onPacket env buf = c.onDataPacket env buf := by
  unfold onPacket
  rw [isEmpty_eq_false_iff.mpr hne, if_neg Bool.false_ne_true, hphase]

/-! ## The handshake -/

variable {result : HandshakeResult}

theorem finishHandshake_cases (h : c.finishHandshake env result = some r) :
    r.result = .ok () ∧ (c.established env result).Evolves r.conn := by
  unfold finishHandshake at h
  dsimp only at h
  split at h
  · cases h
    exact ⟨rfl, refl _⟩
  · next key hkey =>
      obtain ⟨ticket, -, rfl⟩ := map_eq_some_iff.mp h
      have hraw : (c.established env result).Evolves
          ((c.established env result).encodeRaw (result.session c.role) .sessionTicket ticket).2 :=
        evolves_encodeRaw rfl _ _
      split
      · next e c' heq =>
          rw [heq] at hraw
          exact ⟨rfl, hraw⟩
      · next packet c' heq =>
          rw [heq] at hraw
          split
          · exact ⟨rfl, hraw⟩
          · exact ⟨rfl, hraw⟩

variable {cookie : Bytes} {hs : ClientHandshake X.N}

theorem takeChallenge_eq_ok {kemPk : X.K.PublicKey}
    (h : c.takeChallenge buf = .ok (cookie, hs, kemPk)) :
    33 ≤ buf.length ∧ buf.headD 0 = pktCookieChallenge ∧ cookie = (buf.drop 1).take 32 ∧
      c.clientHs = some hs ∧ c.serverKemPk = some kemPk := by
  unfold takeChallenge at h
  split at h
  · cases h
  · next hchallenge =>
      rw [not_or, Nat.not_lt, not_not] at hchallenge
      split at h
      · cases h
      · next hs' hhs =>
          split at h
          · cases h
          · next kemPk' hpk =>
              cases h
              exact ⟨hchallenge.1, hchallenge.2, rfl, hhs, hpk⟩

/-- **The client and a datagram while it waits for message 2**: the wrong type or no handshake; or Noise
and the parser decide. -/
theorem takeMsg2_cases (buf : Bytes) :
    (∃ e, c.takeMsg2 buf = (.error e, c)) ∨
    ∃ payload hs, stripType buf pktHandshakeMsg = .ok payload ∧ c.clientHs = some hs ∧
      ((∃ e, (hs.readMsg2 X.K payload).1 = .error e ∧
        c.takeMsg2 buf = (.error e, { c with clientHs := some (hs.readMsg2 X.K payload).2 })) ∨
      (∃ pk suite, (hs.readMsg2 X.K payload).1 = .ok (pk, suite) ∧
        c.takeMsg2 buf
          = (.ok ((hs.readMsg2 X.K payload).2, pk, suite), { c with clientHs := none }))) := by
  unfold takeMsg2
  cases hstrip : stripType buf pktHandshakeMsg with
  | error e => exact .inl ⟨e, rfl⟩
  | ok payload =>
    cases hhs : c.clientHs with
    | none => exact .inl ⟨_, rfl⟩
    | some hs =>
      right
      refine ⟨payload, hs, rfl, rfl, ?_⟩
      dsimp only
      rcases hread : hs.readMsg2 X.K payload with ⟨e | ⟨pk, suite⟩, hs'⟩
      · exact .inl ⟨e, rfl, rfl⟩
      · exact .inr ⟨pk, suite, rfl, rfl⟩

def echoedMsg1 (buf : Bytes) : Bytes := (buf.drop 35).take (leNat ((buf.drop 33).take 2))

theorem echoedMsg1_cookieEcho {msg1 : Bytes} (hcookie : cookie.length = 32)
    (hmsg1 : msg1.length < 2 ^ 16) : echoedMsg1 (cookieEcho cookie msg1) = msg1 := by
  have hfront : ([pktCookieEcho] ++ cookie).length = 33 := by simp [hcookie]
  have hlen : ((cookieEcho cookie msg1).drop 33).take 2 = leBytes 2 msg1.length := by
    rw [cookieEcho, append_assoc, drop_left' hfront]
    exact take_left' (length_leBytes _ _)
  have hrest : (cookieEcho cookie msg1).drop 35 = msg1 := by
    rw [cookieEcho, drop_left' (by simp [hcookie])]
  have hlt : msg1.length < 256 ^ 2 := hmsg1
  rw [echoedMsg1, hlen, hrest, leNat_leBytes, Nat.mod_eq_of_lt hlt, take_length]

/-- **What the server needs to accept a cookie echo**: the cookie is valid for the address, and Noise
reads message 1. -/
theorem takeEcho_eq_ok {identity : IdentityKeypair X.K} {hs : ServerHandshake X.N}
    {suite : CipherSuite} (h : c.takeEcho env buf = .ok (identity, hs, suite)) :
    35 ≤ buf.length ∧ buf.headD 0 = pktCookieEcho ∧
    (∃ factory, c.cookieFactory = some factory ∧
      factory.verify X.B c.remote ((buf.drop 1).take 32) env.unixSecs = true) ∧
    c.serverIdentity = some identity ∧
    ∃ hs₀, newWithCipher X.N identity.x25519Secret c.serverPreferredCipher
        = .ok hs₀ ∧ hs₀.readMsg1 (echoedMsg1 buf) = (.ok suite, hs) := by
  unfold takeEcho at h
  split at h
  · cases h
  next hecho =>
    rw [not_or, Nat.not_lt, not_not] at hecho
    split at h
    · cases h
    next factory hfactory =>
      split at h
      · cases h
      next hverify =>
        dsimp only at h
        split at h
        · cases h
        split at h
        · cases h
        next identity' hid =>
          split at h
          · cases h
          next hs₀ hnew =>
            split at h
            · cases h
            next agreed hs' hread =>
              cases h
              exact ⟨hecho.1, hecho.2, ⟨factory, hfactory, Bool.not_eq_false _ ▸ hverify⟩, hid,
                hs₀, hnew, hread⟩

/-- **The server and a datagram while it waits for message 3**: the wrong type or no handshake; or the
handshake is consumed. -/
theorem takeMsg3_cases (buf : Bytes) :
    (∃ e, c.takeMsg3 buf = (some (.error e), c)) ∨
    ∃ payload hs, stripType buf pktHandshakeMsg = .ok payload ∧ c.serverHs = some hs ∧
      ((∃ e, c.takeMsg3 buf = (some (.error e), { c with serverHs := none })) ∨
      (∃ identity, c.serverIdentity = some identity ∧ c.takeMsg3 buf
        = (hs.readMsg3AndFinish X.K X.B identity.kemSk c.agreedCipher payload,
            { c with serverHs := none }))) := by
  unfold takeMsg3
  cases hstrip : stripType buf pktHandshakeMsg with
  | error e => exact .inl ⟨e, rfl⟩
  | ok payload =>
    cases hhs : c.serverHs with
    | none => exact .inl ⟨_, rfl⟩
    | some hs =>
      right
      refine ⟨payload, hs, rfl, rfl, ?_⟩
      cases hid : c.serverIdentity with
      | none => exact .inl ⟨_, rfl⟩
      | some identity => exact .inr ⟨identity, rfl, rfl⟩

theorem takeMsg3_eq_ok (h : c.takeMsg3 buf = (some (.ok result), c')) :
    ∃ msg hs identity payload noise kemShared, stripType buf pktHandshakeMsg = .ok msg ∧
      c.serverHs = some hs ∧ c.serverIdentity = some identity ∧
      readNoise X.N hs.noise msg = (.ok payload, noise) ∧
      openMsg3 X.K identity.kemSk payload = .ok kemShared ∧
      conclude X.N X.B noise kemShared c.agreedCipher = some (.ok result) := by
  rcases c.takeMsg3_cases buf with
    ⟨e, htake⟩ | ⟨msg, hs, hstrip, hhs, ⟨e, htake⟩ | ⟨identity, hid, htake⟩⟩
  · rw [htake] at h
    cases h
  · rw [htake] at h
    cases h
  · rw [htake] at h
    obtain ⟨payload, noise, kemShared, hread, hopen, hconclude⟩ :=
      readMsg3AndFinish_eq_ok (Prod.mk.inj h).1
    exact ⟨msg, hs, identity, payload, noise, kemShared, hstrip, hhs, hid, hread, hopen, hconclude⟩

theorem clientRxChallenge_cases (env : Env) (c : Connection X) (buf : Bytes) :
    (∃ e clientHs, c.clientRxChallenge env buf = .fail { c with clientHs } e) ∨
    ∃ cookie hs kemPk msg1 hs', c.takeChallenge buf = .ok (cookie, hs, kemPk) ∧
      hs.writeMsg1 X.K kemPk env.noiseSeed = (.ok msg1, hs') ∧
      c.clientRxChallenge env buf
        = ⟨.ok (), { c with clientHs := some hs', phase := .clientWaitMsg2 },
            [cookieEcho cookie msg1]⟩ := by
  unfold clientRxChallenge
  cases htake : c.takeChallenge buf with
  | error e => exact .inl ⟨e, c.clientHs, rfl⟩
  | ok x =>
    obtain ⟨cookie, hs, kemPk⟩ := x
    dsimp only
    rcases hwrite : hs.writeMsg1 X.K kemPk env.noiseSeed with ⟨e | msg1, hs'⟩
    · exact .inl ⟨e, some hs', rfl⟩
    · unfold sendTo
      cases env.sendError 0 with
      | some e => exact .inl ⟨_, some hs', rfl⟩
      | none => exact .inr ⟨cookie, hs, kemPk, msg1, hs', rfl, hwrite, rfl⟩

/-- **The client either** fails and stays in its phase, or sends message 3 and completes the handshake. -/
theorem clientRxMsg2_cases (h : c.clientRxMsg2 env buf = some r) :
    (∃ e clientHs, r = .fail { c with clientHs } e) ∨
    ∃ hs kemPk suite msg3 result r',
      c.takeMsg2 buf = (.ok (hs, kemPk, suite), { c with clientHs := none }) ∧
      hs.writeMsg3AndFinish X.K X.B kemPk suite env.kemSeed env.noiseSeed
        = some (.ok (msg3, result)) ∧
      ({ c with clientHs := none } : Connection X).finishHandshake (env.after 1) result = some r' ∧
      r = { r' with sent := (pktHandshakeMsg :: msg3) :: r'.sent } := by
  unfold clientRxMsg2 at h
  rcases c.takeMsg2_cases buf with
    ⟨e, htake⟩ | ⟨payload, hs, -, -, ⟨e, -, htake⟩ | ⟨kemPk, suite, -, htake⟩⟩
  · rw [htake] at h
    cases h
    exact .inl ⟨e, c.clientHs, rfl⟩
  · rw [htake] at h
    cases h
    exact .inl ⟨e, _, rfl⟩
  · rw [htake] at h
    dsimp only at h
    split at h
    · cases h
    · cases h
      exact .inl ⟨_, none, rfl⟩
    · next msg3 result hfinish =>
        split at h
        · cases h
          exact .inl ⟨_, none, rfl⟩
        · obtain ⟨r', hr', rfl⟩ := map_eq_some_iff.mp h
          exact .inr ⟨_, kemPk, suite, msg3, result, r', htake, hfinish, hr', rfl⟩

/-- **The server waiting for the cookie** fails and stays in its phase, or sends message 2. -/
theorem serverRxCookieEcho_cases (env : Env) (c : Connection X) (buf : Bytes) :
    (∃ e agreedCipher, c.serverRxCookieEcho env buf = .fail { c with agreedCipher } e) ∨
    ∃ identity hs suite msg2 hs', c.takeEcho env buf = .ok (identity, hs, suite) ∧
      hs.writeMsg2 X.K identity.kemPk suite env.noiseSeed = (.ok msg2, hs') ∧
      c.serverRxCookieEcho env buf
        = ⟨.ok (), { c with agreedCipher := suite, serverHs := some hs', phase := .serverWaitMsg3 },
            [pktHandshakeMsg :: msg2]⟩ := by
  unfold serverRxCookieEcho
  cases htake : c.takeEcho env buf with
  | error e => exact .inl ⟨e, c.agreedCipher, rfl⟩
  | ok x =>
    obtain ⟨identity, hs, suite⟩ := x
    dsimp only
    rcases hwrite : hs.writeMsg2 X.K identity.kemPk suite env.noiseSeed with ⟨e | msg2, hs'⟩
    · exact .inl ⟨e, suite, rfl⟩
    · unfold sendTo
      cases env.sendError 0 with
      | some e => exact .inl ⟨_, suite, rfl⟩
      | none => exact .inr ⟨identity, hs, suite, msg2, hs', rfl, hwrite, rfl⟩

/-- **The server waiting for message 3** fails and stays in its phase, or completes the handshake. -/
theorem serverRxMsg3_cases (h : c.serverRxMsg3 env buf = some r) :
    (∃ e serverHs, (serverHs = none ∨ serverHs = c.serverHs) ∧ r = .fail { c with serverHs } e) ∨
    ∃ result, c.takeMsg3 buf = (some (.ok result), { c with serverHs := none }) ∧
      ({ c with serverHs := none } : Connection X).finishHandshake env result = some r := by
  unfold serverRxMsg3 at h
  rcases c.takeMsg3_cases buf with ⟨e, htake⟩ | ⟨payload, hs, -, -, ⟨e, htake⟩ | ⟨identity, -, htake⟩⟩
  · rw [htake] at h
    cases h
    exact .inl ⟨e, c.serverHs, .inr rfl, rfl⟩
  · rw [htake] at h
    cases h
    exact .inl ⟨e, none, .inl rfl, rfl⟩
  · rcases hread : hs.readMsg3AndFinish X.K X.B identity.kemSk c.agreedCipher payload with
      _ | e | result
    · rw [htake, hread] at h
      cases h
    · rw [htake, hread] at h
      cases h
      exact .inl ⟨e, none, .inl rfl, rfl⟩
    · rw [htake, hread] at h
      exact .inr ⟨result, by rw [htake, hread], h⟩

/-! ## Rejected datagrams -/

/-- The content of a datagram is refused in this phase: by its type byte or its length, by the cookie,
by Noise, or by the parser of the payload. -/
def rejects (env : Env) (c : Connection X) (buf : Bytes) : Bool :=
  match c.phase with
  | .clientWaitChallenge => !(c.takeChallenge buf).toBool
  | .clientWaitMsg2 => !(c.takeMsg2 buf).1.toBool
  | .serverWaitCookie => !(c.takeEcho env buf).toBool
  | .serverWaitMsg3 =>
    match (c.takeMsg3 buf).1 with
    | some (.error _) => true
    | _ => false
  | .established | .draining | .closed => false

/-- A datagram that cannot take the handshake away: the server, waiting for message 3, sees another type
byte; for the client, waiting for message 2, Noise refuses it. -/
def keepsHandshake (c : Connection X) (buf : Bytes) : Bool :=
  match c.phase with
  | .serverWaitMsg3 => !(stripType buf pktHandshakeMsg).toBool
  | .clientWaitMsg2 =>
    match stripType buf pktHandshakeMsg, c.clientHs with
    | .ok payload, some hs => !(X.N.readMessage hs.noise payload).1.toBool
    | _, _ => true
  | _ => true

theorem readMsg2_of_noise_error
    (hread : ∀ {s msg e s'}, X.N.readMessage s msg = (.error e, s') → s' = s) {payload : Bytes}
    (h : (X.N.readMessage hs.noise payload).1.toBool = false) : (hs.readMsg2 X.K payload).2 = hs := by
  unfold ClientHandshake.readMsg2 readNoise
  rcases hr : X.N.readMessage hs.noise payload with ⟨e | out, s'⟩
  · cases hread hr
    rfl
  · rw [hr] at h
    cases h

theorem stuck_without_handshake (hphase : c.phase = .serverWaitMsg3) (hnone : c.serverHs = none)
    (h : c.onPacket env buf = some r) : r.conn = c := by
  unfold onPacket at h
  rw [hphase] at h
  split at h
  · cases h
    rfl
  · unfold serverRxMsg3 at h
    rcases c.takeMsg3_cases buf with ⟨e, htake⟩ | ⟨payload, hs, -, hsome, -⟩
    · rw [htake] at h
      cases h
      rfl
    · rw [hnone] at hsome
      cases hsome

end Connection

def sampleIdentity : IdentityKeypair samplePlatform.K :=
  ⟨Vector.replicate 32 1, (9 : UInt8), (9 : UInt8), rfl⟩

def sampleConnectArgs (suite : CipherSuite) : Connection.ConnectArgs samplePlatform :=
  ⟨sampleIdentity, Vector.replicate 32 1, (9 : UInt8), suite, .disabled⟩

def sampleAcceptArgs (suite : CipherSuite) : Connection.AcceptArgs samplePlatform :=
  ⟨sampleIdentity, CookieFactory.new (Vector.replicate 32 3), some (Vector.replicate 32 4), suite⟩

def sampleAddr : Role → SocketAddr
  | .client => [0x63]
  | .server => [0x73]

def sampleStart (start : Except SeamError (Connection samplePlatform) × List Bytes) :
    Connection samplePlatform :=
  match start.1 with
  | .ok c => c
  | .error _ => Connection.newBaseWithTar samplePlatform [] .closed .disabled 0

def sampleConnecting (suite : CipherSuite) : Connection samplePlatform :=
  sampleStart (Connection.connect (sampleEnv 0) (sampleAddr .server) (sampleConnectArgs suite))

def sampleAccepting (suite : CipherSuite) : Connection samplePlatform :=
  sampleStart (Connection.acceptChallenge (sampleEnv 0) (sampleAddr .client) (sampleAcceptArgs suite))

def sampleChallenge : Bytes :=
  Connection.challengeFor samplePlatform (CookieFactory.new (Vector.replicate 32 3))
    (sampleAddr .client) 1000

def sampleReply (c : Connection samplePlatform) (buf : Bytes) : Reply samplePlatform :=
  (c.onPacket (sampleEnv 0) buf).getD (.fail c .authFailed)

def sampleEcho (suite : CipherSuite) : Reply samplePlatform :=
  sampleReply (sampleConnecting suite) sampleChallenge

def sampleMsg2 (client server : CipherSuite) : Reply samplePlatform :=
  sampleReply (sampleAccepting server) ((sampleEcho client).sent.headD [])

def sampleMsg3 (client server : CipherSuite) : Reply samplePlatform :=
  sampleReply (sampleEcho client).conn ((sampleMsg2 client server).sent.headD [])

def sampleDone (client server : CipherSuite) : Reply samplePlatform :=
  sampleReply (sampleMsg2 client server).conn ((sampleMsg3 client server).sent.headD [])

example : (sampleDone .aes256Gcm .aes256Gcm).result = .ok () ∧
    (sampleDone .aes256Gcm .aes256Gcm).conn.phase = .established := by
  decide +kernel

end SeamProtocol
