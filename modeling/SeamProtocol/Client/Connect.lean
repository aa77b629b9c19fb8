import SeamProtocol.Server.Loop
import SeamProtocol.Transport.Calls

/-! # Connecting

A client that dials a server, up to three times, over a network that loses, duplicates, delays and
reorders datagrams. -/

namespace SeamProtocol

open Lib List Option Connection ServerLoop ClientHandshake

/-! ## One iteration of the server's loop -/

namespace ServerLoop

variable {X : Platform} {args : Connection.AcceptArgs X} {s : ServerLoop X} {env : Env}
  {remote : SocketAddr} {buf : Bytes}

def iteration (s : ServerLoop X) (env : Env) (remote : SocketAddr) (buf : Bytes) : List LoopEvent :=
  .datagram env remote buf ::
    if (s.conns remote).isSome then List.replicate 4 (.proceed env) else []

variable {id : Nat} {c : Connection X}

theorem exec_last {wasEstablished : Bool} (hpoint : s.point = .processed remote id wasEstablished)
    (hc : s.heap[id]? = some c) :
    ∃ s', exec (step args) s (replicate 2 (.proceed env)) = some s' ∧ s'.point = .select ∧
      s'.heap = s.heap ∧ s'.sent = s.sent ∧ (c.isClosed = false → s'.conns = s.conns) ∧
      (c.isEstablished = false → s'.accepted = s.accepted) := by
  obtain ⟨delivered, pendingEvents, accepted, heq⟩ := s.deliver_eq remote id wasEstablished c
  have haccepted : c.isEstablished = false → accepted = s.accepted := by
    intro hest
    have hsame : s.deliver remote id wasEstablished c = s := by
      simp [deliver, hest]
    exact congrArg ServerLoop.accepted (heq.symm.trans hsame)
  have hfirst : step args s (.proceed env) = some { s with
      delivered, pendingEvents, accepted, point := .finishing remote id } := by
    simp [step, proceed, hpoint, hc, heq]
  rw [replicate_succ, exec_cons, hfirst, bind_some, replicate_one, exec_cons]
  simp only [step, proceed, hc, map_some, bind_some, exec_nil]
  refine ⟨_, rfl, rfl, ?_⟩
  unfold finish
  split
  · next hclosed => exact ⟨rfl, rfl, fun h => absurd (h.symm.trans hclosed) Bool.false_ne_true, haccepted⟩
  · exact ⟨rfl, rfl, fun _ => rfl, haccepted⟩

theorem exec_iteration_known (hpoint : s.point = .select) (hconns : s.conns remote = some id)
    (hc : s.heap[id]? = some c) :
    (c.onPacket env buf = none → exec (step args) s (s.iteration env remote buf) = none) ∧
    ∀ r, c.onPacket env buf = some r →
      ∃ s', exec (step args) s (s.iteration env remote buf) = some s' ∧ s'.point = .select ∧
        s'.heap = s.heap.set id r.conn ∧ s'.sent = s.sent ++ r.sent.map (remote, ·) ∧
        (r.conn.isClosed = false → s'.conns = s.conns) ∧
        (r.conn.isEstablished = false → s'.accepted = s.accepted) := by
  obtain ⟨v, hv⟩ : ∃ v, s.note args.cookieFactory env remote buf = { s with verified := v } :=
    ⟨_, note_eq args.cookieFactory env remote buf s⟩
  -- the first two steps
  have hstart : exec (step args) s (s.iteration env remote buf) = exec (step args)
      { s with verified := v, point := .checked remote id buf c.isEstablished }
      (List.replicate 3 (.proceed env)) := by
    rw [iteration, hconns, isSome_some, if_pos rfl, exec_cons, replicate_succ]
    simp only [step, hpoint, hv, hconns, bind_some]
    rw [exec_cons]
    simp [step, proceed, hc]
  rw [hstart, replicate_succ, exec_cons]
  simp only [step, proceed, hc, bind_some]
  refine ⟨fun hr => by rw [hr]; rfl, fun r hr => ?_⟩
  rw [hr, map_some, bind_some]
  -- the handler has run: `deliver` and `finish`
  have hset : (s.heap.set id r.conn)[id]? = some r.conn :=
    List.getElem?_set_self (List.getElem?_eq_some_iff.mp hc).1
  rw [note_eq]
  exact exec_last rfl hset

theorem exec_iteration_unknown (hpoint : s.point = .select) (hconns : s.conns remote = none) :
    ∃ s' datagrams, exec (step args) s (s.iteration env remote buf) = some s' ∧ s'.point = .select ∧
      s'.accepted = s.accepted ∧ s'.sent = s.sent ++ datagrams.map (remote, ·) ∧
      (datagrams = [] ∨
        datagrams = [challengeFor X args.cookieFactory remote env.unixSecs]) := by
  obtain ⟨v, hv⟩ : ∃ v, s.note args.cookieFactory env remote buf = { s with verified := v } :=
    ⟨_, note_eq args.cookieFactory env remote buf s⟩
  have hexec : exec (step args) s (s.iteration env remote buf)
      = some (({ s with verified := v } : ServerLoop X).enter args env remote) := by
    rw [iteration, hconns, isSome_none, if_neg Bool.false_ne_true, exec_cons]
    simp [step, hpoint, hv, hconns, exec_nil]
  rw [hexec]
  unfold enter acceptChallenge
  cases env.sendError 0 with
  | some e => exact ⟨_, [], rfl, hpoint, rfl, rfl, .inl rfl⟩
  | none => exact ⟨_, _, rfl, hpoint, rfl, rfl, .inr rfl⟩

end ServerLoop

/-! ## Client, server and network -/

structure Setup (X : Platform) where
  clientAddr : SocketAddr
  serverAddr : SocketAddr
  connectArgs : Connection.ConnectArgs X
  acceptArgs : Connection.AcceptArgs X

/-- How far `connect` has come. Attempts are counted from 0. -/
inductive Dial (X : Platform) where
  /-- Before an attempt; before the second and the third there is a delay. -/
  | pausing (attempt : Nat)
  | trying (attempt : Nat) (conn : Connection X)
  | connected (conn : Connection X)
  | failed (e : SeamError)

def Dial.giveUp {X : Platform} (attempt : Nat) (e : SeamError) : Dial X :=
  if attempt + 1 < 3 then .pausing (attempt + 1) else .failed e

/-- A client, a server, and the datagrams on their way: those that were not read yet. -/
structure Contact (X : Platform) where
  client : Dial X
  server : ServerLoop X
  toServer : List Bytes
  toClient : List Bytes

inductive ContactEvent where
  | attempt (env : Env)
  | abort (e : String)
  | clientGets (i : Nat) (env : Env)
  | serverGets (i : Nat) (env : Env)
  | lose (side : Role) (i : Nat)
  | duplicate (side : Role) (i : Nat)
  | sweep (now : SocketAddr → Nat)
  | write (env : Env) (streamId : Nat) (data : Bytes)

namespace Contact

variable {X : Platform}

def start (X : Platform) : Contact X := ⟨.pausing 0, ServerLoop.start X, [], []⟩

def serve (p : Setup X) (l : Contact X) (es : List LoopEvent) : Option (Contact X) :=
  (exec (ServerLoop.step p.acceptArgs) l.server es).map fun s =>
    { l with
      server := s
      toClient := l.toClient ++
        ((s.sent.drop l.server.sent.length).filter (·.1 = p.clientAddr)).map Prod.snd }

/-- The client has had a datagram in `try_connect`: an error ends the attempt, and so does the
established connection. -/
def tried (attempt : Nat) (r : Reply X) : Dial X :=
  match r.result with
  | .error e => .giveUp attempt e
  | .ok () => if r.conn.isEstablished then .connected r.conn else .trying attempt r.conn

def step (p : Setup X) (l : Contact X) : ContactEvent → Option (Contact X)
  | .attempt env =>
    match l.client with
    | .pausing n =>
      match Connection.connect env p.serverAddr p.connectArgs with
      | (.error e, sent) => some { l with client := .giveUp n e, toServer := l.toServer ++ sent }
      | (.ok c, sent) => some { l with client := .trying n c, toServer := l.toServer ++ sent }
    | _ => none
  | .abort e =>
    match l.client with
    | .trying n _ => some { l with client := .giveUp n (.handshakeFailed e) }
    | _ => none
  | .clientGets i env =>
    (l.toClient[i]?).bind fun buf =>
      match l.client with
      | .trying n c =>
        (c.onPacket env buf).map fun r =>
          { l with
            client := tried n r
            toClient := l.toClient.eraseIdx i
            toServer := l.toServer ++ r.sent }
      | .connected c =>
        if c.isClosed then none
        else
          (c.onPacket env buf).map fun r =>
            { l with
              client := .connected r.conn
              toClient := l.toClient.eraseIdx i
              toServer := l.toServer ++ r.sent }
      | _ => none
  | .serverGets i env =>
    (l.toServer[i]?).bind fun buf =>
      ({ l with toServer := l.toServer.eraseIdx i } : Contact X).serve p
        (l.server.iteration env p.clientAddr buf)
  | .lose .server i => some { l with toServer := l.toServer.eraseIdx i }
  | .lose .client i => some { l with toClient := l.toClient.eraseIdx i }
  | .duplicate .server i =>
    (l.toServer[i]?).map fun buf => { l with toServer := l.toServer ++ [buf] }
  | .duplicate .client i =>
    (l.toClient[i]?).map fun buf => { l with toClient := l.toClient ++ [buf] }
  | .sweep now => l.serve p [.sweep now]
  | .write env streamId data =>
    match l.client with
    | .connected c =>
      (c.write env streamId data).map fun r =>
        { l with client := .connected r.conn, toServer := l.toServer ++ r.sent }
    | _ => none

def served (l : Contact X) : Prop := l.server.accepted ≠ []

/-- What spares a handshake: nothing is duplicated; message 3 is not lost, and nothing like it overtakes
it; a retry starts when nothing is on its way; and while something is, no sweep removes the client's
connection. -/
def spares (p : Setup X) (l : Contact X) : ContactEvent → Prop
  | .attempt _ => l.toServer = [] ∧ l.toClient = []
  | .serverGets i _ => i = 0 ∨ (l.toServer.getD i []).headD 0 ≠ pktHandshakeMsg
  | .lose .server i => i = 0 → (l.toServer.getD i []).headD 0 ≠ pktHandshakeMsg
  | .duplicate _ _ => False
  | .sweep now => l.server.evicts now p.clientAddr = false ∨ (l.toServer = [] ∧ l.toClient = [])
  | _ => True

/-- **What is asked of the network**, until the server has passed the connection on. -/
def calm (p : Setup X) (l : Contact X) (e : ContactEvent) : Prop := l.served ∨ l.spares p e

instance (p : Setup X) (l : Contact X) : DecidablePred (l.spares p)
  | .attempt _ => inferInstanceAs (Decidable (_ ∧ _))
  | .serverGets _ _ => inferInstanceAs (Decidable (_ ∨ _))
  | .lose .server _ => inferInstanceAs (Decidable (_ → _))
  | .duplicate _ _ => isFalse id
  | .sweep _ => inferInstanceAs (Decidable (_ ∨ _))
  | .abort _ | .clientGets _ _ | .lose .client _ | .write _ _ _ => isTrue trivial

instance (p : Setup X) (l : Contact X) (e : ContactEvent) : Decidable (l.calm p e) :=
  inferInstanceAs (Decidable (l.server.accepted ≠ [] ∨ l.spares p e))

end Contact

/-! ## What each side has -/

structure Platform.Completes (X : Platform) : Prop extends X.Lawful where
  completes : X.N.Completes
  length_kemPk : ∀ pk, (X.K.pkToBytes pk).length ≤ 1184

namespace Connection

variable {X : Platform} {p : Setup X} {c cs : Connection X} {env : Env} {buf msg₁ msg₃ : Bytes}

def Asking (p : Setup X) (c : Connection X) : Prop :=
  c.phase = .clientWaitChallenge ∧ ∃ hs, c.clientHs = some hs ∧
    X.N.buildInitiator p.connectArgs.localIdentity.x25519Secret p.connectArgs.serverX25519
      = .ok hs.noise

def Echoing (p : Setup X) (c : Connection X) (msg₁ : Bytes) : Prop :=
  c.phase = .clientWaitMsg2 ∧ msg₁.length < 2 ^ 16 ∧ ∃ hs i₀ payload seed, c.clientHs = some hs ∧
    X.N.buildInitiator p.connectArgs.localIdentity.x25519Secret p.connectArgs.serverX25519 = .ok i₀ ∧
    X.N.writeMessage i₀ payload seed = (.ok msg₁, hs.noise)

def Answering (c cs : Connection X) (msg₂ : Bytes) : Prop :=
  cs.phase = .serverWaitMsg3 ∧ ∃ hs hs' identity suite, c.clientHs = some hs ∧
    cs.serverHs = some hs' ∧ cs.serverIdentity = some identity ∧
    X.N.Exchanged hs.noise msg₂ (ServerHandshake.msg2Payload X.K identity.kemPk suite) hs'.noise

def Ready (cs : Connection X) (msg₃ : Bytes) : Prop :=
  cs.phase = .serverWaitMsg3 ∧
    ∃ result, cs.takeMsg3 (pktHandshakeMsg :: msg₃) = (some (.ok result), { cs with serverHs := none })

theorem asking_connect {sent : List Bytes}
    (h : connect env p.serverAddr p.connectArgs = (.ok c, sent)) :
    c.Asking p ∧ sent = [[pktCookieReq]] := by
  unfold connect at h
  split at h
  · cases h
  · split at h
    · cases h
    · next hs hnew =>
        cases h
        refine ⟨⟨rfl, hs, rfl, ?_⟩, rfl⟩
        unfold newWithCipher at hnew
        split at hnew
        · cases hnew
        · next noise hbuild =>
            cases hnew
            exact hbuild

variable {r : Reply X}

theorem Asking.onPacket (hX : X.Completes) (h : c.Asking p) (hr : c.onPacket env buf = some r) :
    (r.sent = [] ∧ r.conn.phase ≠ .established ∧ (r.result = .ok () → r.conn = c)) ∨
    ∃ cookie msg₁, cookie.length = 32 ∧ r.result = .ok () ∧ r.conn.Echoing p msg₁ ∧
      r.sent = [cookieEcho cookie msg₁] := by
  obtain ⟨hphase, hs, hhs, hbuild⟩ := h
  unfold Connection.onPacket at hr
  rw [hphase] at hr
  split at hr
  · cases hr
    exact .inl ⟨rfl, by rw [Reply.done, hphase]; nofun, fun _ => rfl⟩
  · cases hr
    rcases c.clientRxChallenge_cases env buf with
      ⟨e, clientHs, heq⟩ | ⟨cookie, hs₀, kemPk, msg1, hs', htake, hwrite, heq⟩
    · rw [heq]
      exact .inl ⟨rfl, by rw [Reply.fail, hphase]; nofun, nofun⟩
    · obtain ⟨hlen, -, rfl, hhs₀, -⟩ := takeChallenge_eq_ok htake
      rw [hhs] at hhs₀
      cases hhs₀
      have hmessage := writeMsg1_eq_ok hwrite
      have hshort : msg1.length < 2 ^ 16 := by
        have hlen₁ := hX.completes.length_write hmessage
        have hlen₂ := hX.length_kemPk kemPk
        simp only [msg1Payload, lengthPrefix, length_append, length_leBytes,
          length_singleton] at hlen₁
        omega
      rw [heq]
      exact .inr ⟨_, msg1, by rw [length_take, length_drop]; omega, rfl,
        ⟨rfl, hshort, hs', hs.noise, _, _, rfl, hbuild, hmessage⟩, rfl⟩

open ServerHandshake

/-- **The server and the client's echo**, while it waits for the cookie: it sends nothing, or message 2
in answer. -/
theorem Echoing.answer (h : c.Echoing p msg₁) {cookie : Bytes} (hcookie : cookie.length = 32)
    (hphase : cs.phase = .serverWaitCookie) (hr : cs.onPacket env (cookieEcho cookie msg₁) = some r) :
    r.sent = [] ∨ ∃ msg₂, r.sent = [pktHandshakeMsg :: msg₂] ∧ c.Answering r.conn msg₂ := by
  obtain ⟨-, hshort, hs, i₀, payload, seed, hhs, hbuild, hwrite⟩ := h
  unfold onPacket at hr
  rw [hphase] at hr
  split at hr
  · cases hr
    exact .inl rfl
  · cases hr
    rcases cs.serverRxCookieEcho_cases env (cookieEcho cookie msg₁) with
      ⟨e, suite, heq⟩ | ⟨identity, hs₁, suite, msg2, hs₂, htake, hwrite₂, heq⟩
    · rw [heq]
      exact .inl rfl
    · obtain ⟨-, -, -, hid, hs₀, hnew, hread⟩ := takeEcho_eq_ok htake
      rw [echoedMsg1_cookieEcho hcookie hshort] at hread
      rw [heq]
      refine .inr ⟨msg2, rfl, rfl, hs, hs₂, identity, suite, hhs, rfl, hid, ?_⟩
      obtain ⟨payload₁, hread₁, -⟩ := readMsg1_eq_ok hread
      exact ⟨_, _, _, i₀, hs₀.noise, hs₁.noise, payload, payload₁, msg₁, seed, env.noiseSeed, hbuild,
        hwrite, (newWithCipher_eq_ok hnew).1, hread₁,
        writeMsg2_eq_ok hwrite₂⟩

/-- **The client and a datagram while it waits for message 2.** If it accepts it, it is established and
has sent message 3, which the server will accept if the datagram was its answer. -/
theorem Echoing.onPacket (hX : X.Completes) (h : c.Echoing p msg₁)
    (hr : c.onPacket env buf = some r) :
    (r.sent = [] ∧ r.conn.phase ≠ .established ∧ (r.result = .ok () → r.conn = c)) ∨
    ∃ msg₂ msg₃ rest, stripType buf pktHandshakeMsg = .ok msg₂ ∧ r.result = .ok () ∧
      r.conn.phase = .established ∧ r.sent = (pktHandshakeMsg :: msg₃) :: rest ∧
      ∀ cs, c.Answering cs msg₂ → cs.Ready msg₃ := by
  obtain ⟨hphase, -, hs, -, -, -, hhs, -⟩ := h
  unfold Connection.onPacket at hr
  rw [hphase] at hr
  split at hr
  · cases hr
    exact .inl ⟨rfl, by rw [Reply.done, hphase]; nofun, fun _ => rfl⟩
  rcases clientRxMsg2_cases hr with
    ⟨e, clientHs, rfl⟩ | ⟨hs₂, kemPk, suite, msg3, result, r', htake, hfinish, hr', rfl⟩
  · exact .inl ⟨rfl, by rw [Reply.fail, hphase]; nofun, nofun⟩
  rcases c.takeMsg2_cases buf with ⟨e, herr⟩ | ⟨msg₂, hs', hstrip, hhs', hcases⟩
  · rw [htake] at herr
    cases herr
  rw [hhs] at hhs'
  cases hhs'
  rcases hcases with ⟨e, -, herr⟩ | ⟨pk, suite', hread, hok⟩
  · rw [htake] at herr
    cases herr
  rw [htake] at hok
  cases hok
  obtain ⟨hresult, hev⟩ := finishHandshake_cases hr'
  obtain ⟨session, cc, events, sendCounter, lastSend, tar, heq, -⟩ := hev
  refine .inr ⟨msg₂, msg3, r'.sent, hstrip, hresult, by rw [heq]; rfl, rfl, ?_⟩
  -- the server reads what the client has written
  rintro cs ⟨hphase', hs₁, hs', identity, suite', hhs₁, hhs', hid, hexchanged⟩
  rw [hhs] at hhs₁
  cases hhs₁
  obtain ⟨payload, hmessage, hparse⟩ := readMsg2_eq_ok (Prod.ext hread rfl)
  obtain ⟨noise, hwrite⟩ := writeMsg3AndFinish_eq_ok hfinish
  have hpayload := hX.completes.read_msg2 hexchanged hmessage
  rw [hpayload, parseMsg2_msg2Payload hX.kem] at hparse
  cases hparse
  obtain ⟨r₃, static, hread₃, hstatic, hlen, hhash⟩ :=
    hX.completes.read_msg3 hexchanged hmessage hwrite
  obtain ⟨result', hconclude⟩ := conclude_of_static hstatic hlen hhash X.B
    (X.K.encapsulate identity.kemPk env.kemSeed).2 cs.agreedCipher
  refine ⟨hphase', result', ?_⟩
  have hstrip₃ : stripType (pktHandshakeMsg :: msg3) pktHandshakeMsg = .ok msg3 := by
    simp [stripType]
  unfold takeMsg3
  rw [hstrip₃, hhs']
  rw [hid]
  dsimp only
  rw [readMsg3AndFinish, readNoise_eq_ok.mpr hread₃]
  dsimp only
  rw [openMsg3_msg3Payload hX.kem identity.isPair]
  dsimp only
  rw [hconclude]

theorem finishHandshake_isSome (hP : X.P.Lawful) (env : Env) (c : Connection X)
    (result : HandshakeResult) : ∃ r, c.finishHandshake env result = some r := by
  unfold finishHandshake
  dsimp only
  split
  · exact ⟨_, rfl⟩
  · next key _ =>
      have hticket : (issueTicket X.P key result env.ticketNonce env.unixSecs).isSome := by
        rw [issueTicket, isSome_map]
        refine hP.encrypt_isSome ?_
        simp [keyBytes]
      obtain ⟨ticket, hticket⟩ := isSome_iff_exists.mp hticket
      rw [hticket]
      exact ⟨_, rfl⟩

theorem Ready.onPacket (hX : X.Completes) (h : cs.Ready msg₃) (env : Env) :
    ∃ r, cs.onPacket env (pktHandshakeMsg :: msg₃) = some r ∧ r.conn.phase = .established := by
  obtain ⟨hphase, result, htake⟩ := h
  obtain ⟨r, hr⟩ := finishHandshake_isSome hX.primitives env { cs with serverHs := none } result
  obtain ⟨session, cc, events, sendCounter, lastSend, tar, heq, -⟩ := (finishHandshake_cases hr).2
  refine ⟨r, ?_, by rw [heq]; rfl⟩
  unfold Connection.onPacket
  rw [isEmpty_cons, if_neg Bool.false_ne_true, hphase]
  rw [serverRxMsg3, htake]
  exact hr

/-- **A server that waits for message 3** ignores everything without its type byte. -/
theorem onPacket_of_not_msg3 (env : Env) (hphase : cs.phase = .serverWaitMsg3)
    (hhead : buf.headD 0 ≠ pktHandshakeMsg) :
    ∃ r, cs.onPacket env buf = some r ∧ r.conn = cs ∧ r.sent = [] := by
  unfold onPacket
  rw [hphase]
  cases buf with
  | nil => exact ⟨_, rfl, rfl, rfl⟩
  | cons b rest =>
    have hstrip : stripType (b :: rest) pktHandshakeMsg = .error _ := if_neg hhead
    rw [serverRxMsg3, takeMsg3, hstrip]
    exact ⟨_, rfl, rfl, rfl⟩

theorem onPacket_of_waitCookie (hphase : cs.phase = .serverWaitCookie)
    (hr : cs.onPacket env buf = some r) :
    (r.conn.phase = .serverWaitCookie ∨ r.conn.phase = .serverWaitMsg3) ∧ r.sent.length ≤ 1 ∧
      (buf.headD 0 ≠ pktCookieEcho → r.sent = []) := by
  unfold onPacket at hr
  rw [hphase] at hr
  split at hr
  · cases hr
    exact ⟨.inl hphase, Nat.zero_le 1, fun _ => rfl⟩
  · cases hr
    rcases cs.serverRxCookieEcho_cases env buf with
      ⟨e, suite, heq⟩ | ⟨identity, hs, suite, msg2, hs', htake, -, heq⟩
    · rw [heq]
      exact ⟨.inl hphase, Nat.zero_le 1, fun _ => rfl⟩
    · rw [heq]
      exact ⟨.inr rfl, Nat.le_refl 1, fun hhead => (hhead (takeEcho_eq_ok htake).2.1).elim⟩

end Connection

/-! ## The server's part of a step -/

namespace ServerLoop

variable {args : Connection.AcceptArgs X} {s s' : ServerLoop X}

theorem accepted_ne_nil_step {e : LoopEvent} (h : s.accepted ≠ []) (hstep : s.step args e = some s') :
    s'.accepted ≠ [] := by
  cases took hstep with
  | known | handled =>
    rw [accepted_note]
    exact h
  | unknown =>
    unfold enter
    split
    · rw [accepted_note]
      exact h
    · rw [accepted_note]
      exact h
  | swept | checked | closed | flushed => exact h
  | delivered =>
    unfold deliver
    split
    · dsimp only
      split
      · exact append_ne_nil_of_left_ne_nil h _
      · exact h
    · exact h
  | @finished env remote id c =>
    obtain ⟨conns, delivered, heq, -⟩ := s.finish_eq remote c
    rw [heq]
    exact h

end ServerLoop

namespace Contact

variable {X : Platform} {p : Setup X} {l : Contact X} {env : Env} {i : Nat} {buf : Bytes}

def entry (p : Setup X) (l : Contact X) : Option (Connection X) :=
  (l.server.conns p.clientAddr).bind (l.server.heap[·]?)

structure ServerOk (p : Setup X) (s : ServerLoop X) : Prop where
  inv : s.Inv p.acceptArgs
  point : s.point = .select

variable {cs : Connection X}

theorem ServerOk.entry_phase (h : ServerOk p l.server) (hnone : l.server.accepted = [])
    (hentry : l.entry p = some cs) : cs.phase = .serverWaitCookie ∨ cs.phase = .serverWaitMsg3 := by
  obtain ⟨id, hconns, hcs⟩ := bind_eq_some_iff.mp hentry
  have hid : id ∉ l.server.handles := by
    rw [handles, hnone]
    exact not_mem_nil
  rcases h.inv.waiting hconns hcs hid with hphase | hphase | ⟨-, hlast⟩
  · exact .inl hphase
  · exact .inr hphase
  · rw [h.point] at hlast
    cases hlast

theorem serve_eq {es : List LoopEvent} {s : ServerLoop X} {datagrams : List Bytes}
    (hexec : exec (ServerLoop.step p.acceptArgs) l.server es = some s)
    (hsent : s.sent = l.server.sent ++ datagrams.map (p.clientAddr, ·)) :
    l.serve p es = some { l with server := s, toClient := l.toClient ++ datagrams } := by
  rw [serve, hexec, map_some, hsent, List.drop_left]
  simp [List.filter_map, Function.comp_def]

theorem serverGets_known (h : ServerOk p l.server) (hbuf : l.toServer[i]? = some buf)
    (hentry : l.entry p = some cs) {r : Reply X} (hr : cs.onPacket env buf = some r)
    (hclosed : r.conn.isClosed = false) :
    ∃ s, l.step p (.serverGets i env) = some { l with
        server := s
        toServer := l.toServer.eraseIdx i
        toClient := l.toClient ++ r.sent } ∧ ServerOk p s ∧
      (∀ l' : Contact X, l'.server = s → l'.entry p = some r.conn) ∧
      (r.conn.isEstablished = false → s.accepted = l.server.accepted) ∧
      (r.conn.isEstablished = true → s.accepted ≠ []) := by
  obtain ⟨id, hconns, hcs⟩ := bind_eq_some_iff.mp hentry
  obtain ⟨s, hexec, hpoint, hheap, hsent, hconns', haccepted⟩ :=
    (exec_iteration_known h.point hconns hcs).2 r hr
  have hinv : s.Inv p.acceptArgs :=
    exec_invariant (ServerLoop.Inv p.acceptArgs) (fun _ _ _ h hstep => h.step hstep) h.inv hexec
  have hconn : s.conns p.clientAddr = some id := by rw [hconns' hclosed, hconns]
  have hget : s.heap[id]? = some r.conn := by
    rw [hheap]
    exact List.getElem?_set_self (List.getElem?_eq_some_iff.mp hcs).1
  refine ⟨s, ?_, ⟨hinv, hpoint⟩, fun l' hl' => ?_, haccepted, fun hest hnil => ?_⟩
  · rw [step, hbuf, bind_some]
    exact serve_eq (l := { l with toServer := l.toServer.eraseIdx i }) hexec hsent
  · rw [entry, hl', hconn, bind_some, hget]
  · -- an established connection in the table was accepted
    have hid : id ∉ s.handles := by
      rw [handles, hnil]
      exact not_mem_nil
    have hphase : r.conn.phase = .established := of_decide_eq_true hest
    rcases hinv.waiting hconn hget hid with hwait | hwait | ⟨-, hlast⟩
    · rw [hphase] at hwait
      cases hwait
    · rw [hphase] at hwait
      cases hwait
    · rw [hpoint] at hlast
      cases hlast

theorem serverGets_unknown (env : Env) (h : ServerOk p l.server) (hbuf : l.toServer[i]? = some buf)
    (hconns : l.server.conns p.clientAddr = none) :
    ∃ s datagrams, l.step p (.serverGets i env) = some { l with
        server := s
        toServer := l.toServer.eraseIdx i
        toClient := l.toClient ++ datagrams } ∧ ServerOk p s ∧ s.accepted = l.server.accepted ∧
      (datagrams = [] ∨ datagrams =
        [challengeFor X p.acceptArgs.cookieFactory p.clientAddr env.unixSecs]) := by
  obtain ⟨s, datagrams, hexec, hpoint, haccepted, hsent, hdatagrams⟩ :=
    ServerLoop.exec_iteration_unknown h.point hconns
  have hinv : s.Inv p.acceptArgs :=
    exec_invariant (ServerLoop.Inv p.acceptArgs) (fun _ _ _ h hstep => h.step hstep) h.inv hexec
  refine ⟨s, datagrams, ?_, ⟨hinv, hpoint⟩, haccepted, hdatagrams⟩
  rw [step, hbuf, bind_some]
  exact serve_eq (l := { l with toServer := l.toServer.eraseIdx i }) hexec hsent

theorem sweep_eq (h : ServerOk p l.server) (now : SocketAddr → Nat) :
    ∃ s, l.step p (.sweep now) = some { l with server := s } ∧ ServerOk p s ∧
      s.accepted = l.server.accepted ∧
      (l.server.evicts now p.clientAddr = false →
        ∀ l' : Contact X, l'.server = s → l'.entry p = l.entry p) := by
  have hstep : l.server.step p.acceptArgs (.sweep now) = some (l.server.sweep now) := by
    simp only [ServerLoop.step, h.point]
  have hexec : exec (ServerLoop.step p.acceptArgs) l.server [.sweep now]
      = some (l.server.sweep now) := by
    rw [exec_cons, hstep, bind_some, exec_nil]
  have hsent : (l.server.sweep now).sent = l.server.sent ++ [].map (p.clientAddr, ·) :=
    (append_nil _).symm
  refine ⟨l.server.sweep now, ?_, ⟨h.inv.step hstep, h.point⟩, rfl, fun hev l' hl' => ?_⟩
  · rw [step, serve_eq hexec hsent, append_nil]
  · rw [entry, hl', entry]
    simp only [ServerLoop.sweep, hev, if_neg Bool.false_ne_true]

end Contact

end SeamProtocol
