import SeamProtocol.Handshake.State
import SeamProtocol.Session.Calls
import SeamProtocol.Transport.Tar

/-! # A connection

A connection is one side of a handshake and afterwards a session with its congestion controllers, on a
datagram socket. What comes from other crates, and the controllers, are parameters (`Platform`). A call
gets its clocks, its randomness and the results of `send_to` from `Env`; it returns its result, the
connection and the datagrams sent. Repair packets, chaff, path probes and the sockets of a migration are
left out. -/

namespace SeamProtocol

open Lib

structure Congestion where
  State : Type
  new : State
  available : State → Nat
  shouldSend : State → Bool
  onSend : State → Nat → State
  /-- So many bytes were acknowledged, with this round-trip time, now. -/
  onAck : State → Nat → Nat → Nat → State
  onTimeout : State → State

structure Platform where
  P : Primitives
  B : Blake3
  N : Noise
  K : Kem
  C : Congestion

structure Platform.Lawful (X : Platform) : Prop where
  primitives : X.P.Lawful
  noise : X.N.Lawful
  kem : X.K.Lawful

abbrev SocketAddr := Bytes

structure Env where
  now : Nat
  unixSecs : Nat
  /-- The error of the next send, the one after it, and so on; `none` for success. -/
  sendError : Nat → Option String
  noiseSeed : Nat
  kemSeed : Nat
  ticketNonce : Vector UInt8 12
  order : List Nat

def Env.after (env : Env) (n : Nat) : Env :=
  { env with sendError := fun i => env.sendError (i + n) }

inductive ConnPhase where
  | clientWaitChallenge
  | clientWaitMsg2
  | serverWaitCookie
  | serverWaitMsg3
  | established
  | draining
  | closed
  deriving DecidableEq

def pktCookieReq : UInt8 := 0x10
def pktCookieChallenge : UInt8 := 0x11
def pktCookieEcho : UInt8 := 0x12
def pktHandshakeMsg : UInt8 := 0x13

structure Connection (X : Platform) where
  remote : SocketAddr
  phase : ConnPhase
  clientHs : Option (ClientHandshake X.N)
  serverHs : Option (ServerHandshake X.N)
  serverIdentity : Option (IdentityKeypair X.K)
  cookieFactory : Option CookieFactory
  agreedCipher : CipherSuite
  serverPreferredCipher : CipherSuite
  session : Option Session
  cc : X.C.State
  events : List SessionEvent
  sendCounter : Nat
  serverKemPk : Option X.K.PublicKey
  lastRecv : Nat
  lastSend : Nat
  ticketKey : Option Key
  peerStaticPubkey : Option Key
  tar : TarState

structure Reply (X : Platform) where
  result : Except SeamError Unit
  conn : Connection X
  sent : List Bytes

namespace Reply

variable {X : Platform}

def done (c : Connection X) : Reply X := ⟨.ok (), c, []⟩

def fail (c : Connection X) (e : SeamError) : Reply X := ⟨.error e, c, []⟩

def andThen (r : Reply X) (f : Connection X → Reply X) : Reply X :=
  match r.result with
  | .error _ => r
  | .ok () =>
    let r' := f r.conn
    { r' with sent := r.sent ++ r'.sent }

end Reply

namespace Connection

variable {X : Platform}

def sendTo (env : Env) (c : Connection X) (datagram : Bytes) (k : Connection X) : Reply X :=
  match env.sendError 0 with
  | some e => .fail c (.handshakeFailed e)
  | none => ⟨.ok (), k, [datagram]⟩

/-! ## Starting -/

def newBaseWithTar (X : Platform) (remote : SocketAddr) (phase : ConnPhase) (tarConfig : TarConfig)
    (now : Nat) : Connection X where
  remote
  phase
  clientHs := none
  serverHs := none
  serverIdentity := none
  cookieFactory := none
  agreedCipher := .chaCha20Poly1305
  serverPreferredCipher := .chaCha20Poly1305
  session := none
  cc := X.C.new
  events := []
  sendCounter := 0
  serverKemPk := none
  lastRecv := now
  lastSend := now
  ticketKey := none
  peerStaticPubkey := none
  tar := TarState.new tarConfig

structure ConnectArgs (X : Platform) where
  localIdentity : IdentityKeypair X.K
  serverX25519 : Key
  serverKemPk : X.K.PublicKey
  preferredCipher : CipherSuite
  tarConfig : TarConfig

def connect (env : Env) (remote : SocketAddr) (args : ConnectArgs X) :
    Except SeamError (Connection X) × List Bytes :=
  match env.sendError 0 with
  | some e => (.error (.handshakeFailed e), [])
  | none =>
    match ClientHandshake.newWithCipher X.N args.localIdentity.x25519Secret args.serverX25519
        args.preferredCipher with
    | .error e => (.error e, [[pktCookieReq]])
    | .ok hs =>
      (.ok { newBaseWithTar X remote .clientWaitChallenge args.tarConfig env.now with
          clientHs := some hs
          serverKemPk := some args.serverKemPk }, [[pktCookieReq]])

structure AcceptArgs (X : Platform) where
  serverIdentity : IdentityKeypair X.K
  cookieFactory : CookieFactory
  ticketKey : Option Key
  preferredCipher : CipherSuite

def challengeFor (X : Platform) (f : CookieFactory) (remote : SocketAddr) (unixSecs : Nat) : Bytes :=
  pktCookieChallenge :: (f.generate X.B remote unixSecs).toList

def acceptChallenge (env : Env) (remote : SocketAddr) (args : AcceptArgs X) :
    Except SeamError (Connection X) × List Bytes :=
  match env.sendError 0 with
  | some e => (.error (.handshakeFailed e), [])
  | none =>
    (.ok { newBaseWithTar X remote .serverWaitCookie .disabled env.now with
        serverIdentity := some args.serverIdentity
        cookieFactory := some args.cookieFactory
        ticketKey := args.ticketKey
        serverPreferredCipher := args.preferredCipher },
      [challengeFor X args.cookieFactory remote env.unixSecs])

/-! ## The end of the handshake -/

def keyBytes (keys : PacketKeys) : Bytes :=
  keys.encKey.toList ++ keys.hpKey.toList ++ keys.nonceBase.toList

def issueTicket (P : Primitives) (key : Key) (result : HandshakeResult) (nonce : Vector UInt8 12)
    (unixSecs : Nat) : Option Bytes :=
  let expiry := unixSecs + 24 * 3600
  let plain := leBytes 8 result.sessionId.toNat ++ keyBytes result.keysC2s ++ keyBytes result.keysS2c
    ++ leBytes 8 expiry
  let aad := [0x73, 0x65, 0x61, 0x6d, 0x2d, 0x74, 0x69, 0x63, 0x6b, 0x65, 0x74]
  (P.encrypt .chaCha20Poly1305 key nonce.toList aad plain).map fun sealed => nonce.toList ++ sealed

def role (c : Connection X) : Role := if c.serverIdentity.isSome then .server else .client

def established (env : Env) (c : Connection X) (result : HandshakeResult) : Connection X :=
  { c with
    session := some (result.session c.role)
    peerStaticPubkey := some result.peerStaticPubkey
    phase := .established
    serverIdentity := none
    cookieFactory := none
    serverKemPk := none
    tar := c.tar.setSessionSecret X.B (result.tarSecret X.B) env.now }

def encodeRaw (c : Connection X) (s : Session) (pktType : PktType) (payload : Bytes) :
    Except SeamError Bytes × Connection X :=
  let r := s.encodeRaw X.P pktType payload (List.replicate (32 + payload.length + 16) 0)
  (r.1.map fun n => r.2.1.take n, { c with session := some r.2.2 })

/-- Complete the handshake; a server with a ticket key sends a ticket, and ignores failures. `none` for
a panic. -/
def finishHandshake (env : Env) (c : Connection X) (result : HandshakeResult) : Option (Reply X) :=
  let session := result.session c.role
  let c := c.established env result
  match c.ticketKey with
  | none => some (.done c)
  | some key =>
    (issueTicket X.P key result env.ticketNonce env.unixSecs).map fun ticket =>
      match c.encodeRaw session .sessionTicket ticket with
      | (.error _, c) => .done c
      | (.ok packet, c) =>
        match env.sendError 0 with
        | some _ => .done c
        | none => ⟨.ok (), c, [packet]⟩

/-! ## Datagrams of the handshake -/

def hex (b : UInt8) : String :=
  let digit := fun n => "0123456789abcdef".toList.getD n '0'
  String.ofList [digit (b.toNat / 16), digit (b.toNat % 16)]

def stripType (buf : Bytes) (expected : UInt8) : Except SeamError Bytes :=
  match buf with
  | [] => .error (.handshakeFailed
      ("expected pkt type 0x" ++ hex expected ++ ", got 0x" ++ hex 0xff))
  | b :: rest =>
    if b = expected then .ok rest
    else .error (.handshakeFailed ("expected pkt type 0x" ++ hex expected ++ ", got 0x" ++ hex b))

def cookieEcho (cookie msg1 : Bytes) : Bytes :=
  [pktCookieEcho] ++ cookie ++ leBytes 2 msg1.length ++ msg1

def takeChallenge (c : Connection X) (buf : Bytes) :
    Except SeamError (Bytes × ClientHandshake X.N × X.K.PublicKey) :=
  if buf.length < 33 ∨ buf.headD 0 ≠ pktCookieChallenge then
    .error (.handshakeFailed "expected cookie challenge")
  else
    match c.clientHs with
    | none => .error (.handshakeFailed "no client hs")
    | some hs =>
      match c.serverKemPk with
      | none => .error (.handshakeFailed "no server kem pk")
      | some kemPk => .ok ((buf.drop 1).take 32, hs, kemPk)

def clientRxChallenge (env : Env) (c : Connection X) (buf : Bytes) : Reply X :=
  match c.takeChallenge buf with
  | .error e => .fail c e
  | .ok (cookie, hs, kemPk) =>
    match hs.writeMsg1 X.K kemPk env.noiseSeed with
    | (.error e, hs) => .fail { c with clientHs := some hs } e
    | (.ok msg1, hs) =>
      let c := { c with clientHs := some hs }
      c.sendTo env (cookieEcho cookie msg1) { c with phase := .clientWaitMsg2 }

def takeMsg2 (c : Connection X) (buf : Bytes) :
    Except SeamError (ClientHandshake X.N × X.K.PublicKey × CipherSuite) × Connection X :=
  match stripType buf pktHandshakeMsg with
  | .error e => (.error e, c)
  | .ok payload =>
    match c.clientHs with
    | none => (.error (.handshakeFailed "no client hs"), c)
    | some hs =>
      match hs.readMsg2 X.K payload with
      | (.error e, hs) => (.error e, { c with clientHs := some hs })
      | (.ok (serverKemPk, agreedCipher), hs) =>
        (.ok (hs, serverKemPk, agreedCipher), { c with clientHs := none })

def clientRxMsg2 (env : Env) (c : Connection X) (buf : Bytes) : Option (Reply X) :=
  match c.takeMsg2 buf with
  | (.error e, c) => some (.fail c e)
  | (.ok (hs, serverKemPk, agreedCipher), c) =>
    match hs.writeMsg3AndFinish X.K X.B serverKemPk agreedCipher env.kemSeed env.noiseSeed with
    | none => none
    | some (.error e) => some (.fail c e)
    | some (.ok (msg3, result)) =>
      match env.sendError 0 with
      | some e => some (.fail c (.handshakeFailed e))
      | none =>
        (c.finishHandshake (env.after 1) result).map fun r =>
          { r with sent := (pktHandshakeMsg :: msg3) :: r.sent }

def takeEcho (env : Env) (c : Connection X) (buf : Bytes) :
    Except SeamError (IdentityKeypair X.K × ServerHandshake X.N × CipherSuite) :=
  if buf.length < 35 ∨ buf.headD 0 ≠ pktCookieEcho then
    .error (.handshakeFailed "expected cookie echo")
  else
    match c.cookieFactory with
    | none => .error (.handshakeFailed "no cookie factory")
    | some factory =>
      if factory.verify X.B c.remote ((buf.drop 1).take 32) env.unixSecs = false then
        .error (.handshakeFailed "invalid cookie")
      else
        let msg1Len := leNat ((buf.drop 33).take 2)
        if buf.length < 35 + msg1Len then .error (.handshakeFailed "truncated msg1")
        else
          match c.serverIdentity with
          | none => .error (.handshakeFailed "no server identity")
          | some identity =>
            match ServerHandshake.newWithCipher X.N identity.x25519Secret
                c.serverPreferredCipher with
            | .error e => .error e
            | .ok hs =>
              match hs.readMsg1 ((buf.drop 35).take msg1Len) with
              | (.error e, _) => .error e
              | (.ok agreedCipher, hs) => .ok (identity, hs, agreedCipher)

/-- The server has the cookie and message 1: answer with message 2. Only then the handshake is
stored. -/
def serverRxCookieEcho (env : Env) (c : Connection X) (buf : Bytes) : Reply X :=
  match c.takeEcho env buf with
  | .error e => .fail c e
  | .ok (identity, hs, agreedCipher) =>
    let c := { c with agreedCipher }
    match hs.writeMsg2 X.K identity.kemPk agreedCipher env.noiseSeed with
    | (.error e, _) => .fail c e
    | (.ok msg2, hs) =>
      c.sendTo env (pktHandshakeMsg :: msg2)
        { c with serverHs := some hs, phase := .serverWaitMsg3 }

def takeMsg3 (c : Connection X) (buf : Bytes) :
    Option (Except SeamError HandshakeResult) × Connection X :=
  match stripType buf pktHandshakeMsg with
  | .error e => (some (.error e), c)
  | .ok payload =>
    match c.serverHs with
    | none => (some (.error (.handshakeFailed "no server hs")), c)
    | some hs =>
      let c := { c with serverHs := none }
      match c.serverIdentity with
      | none => (some (.error (.handshakeFailed "no server identity")), c)
      | some identity =>
        (hs.readMsg3AndFinish X.K X.B identity.kemSk c.agreedCipher payload, c)

def serverRxMsg3 (env : Env) (c : Connection X) (buf : Bytes) : Option (Reply X) :=
  match c.takeMsg3 buf with
  | (none, _) => none
  | (some (.error e), c) => some (.fail c e)
  | (some (.ok result), c) => c.finishHandshake env result

/-! ## Sending -/

/-- Control packets are sent always; the first data packet for which the congestion controllers have no
room ends the loop. -/
def flushLoop (env : Env) (c : Connection X) : List TaggedPacket → Reply X
  | [] => .done c
  | tp :: rest =>
    let wire := c.tar.transform .flush tp.bytes
    let c := { c with lastSend := env.now, tar := wire.2 }
    if tp.isControl then
      (c.sendTo env wire.1 { c with sendCounter := c.sendCounter + 1 }).andThen
        fun c => flushLoop (env.after 1) c rest
    else if X.C.available c.cc < wire.1.length ∨ X.C.shouldSend c.cc = false then .done c
    else
      (c.sendTo env wire.1 { c with
          cc := X.C.onSend c.cc wire.1.length
          tar := c.tar.onRealSend env.now
          sendCounter := c.sendCounter + 1 }).andThen
        fun c => flushLoop (env.after 1) c rest

def flush (env : Env) (c : Connection X) : Reply X :=
  match c.session with
  | none => .done c
  | some s =>
    match s.flush X.P env.now env.order with
    | (.error e, s) => .fail { c with session := some s } e
    | (.ok packets, s) => flushLoop env { c with session := some s } packets

def sendPathResponse (env : Env) (c : Connection X) (nonce : Nat) : Reply X :=
  match c.session with
  | none => .done c
  | some s =>
    match c.encodeRaw s .pathResponse (leBytes 8 nonce) with
    | (.error _, c) => .done c
    | (.ok packet, c) => c.sendTo env (c.tar.transform .pathResponse packet).1 c

/-! ## Packets of the session -/

def handleEvents (env : Env) (c : Connection X) : List SessionEvent → Reply X
  | [] => .done c
  | .pathChallengeReceived nonce :: rest =>
    let r := c.sendPathResponse env nonce
    r.andThen fun c => handleEvents (env.after r.sent.length) c rest
  | .pathResponseReceived _ :: rest => handleEvents env c rest
  | ev :: rest => handleEvents env { c with events := c.events ++ [ev] } rest

def feedAck (env : Env) (c : Connection X) : Connection X :=
  match c.session with
  | none => c
  | some s =>
    match s.drainCcAck with
    | (none, s) => { c with session := some s }
    | (some (bytes, rtt), s) =>
      { c with session := some s, cc := X.C.onAck c.cc bytes rtt env.now }

def hasPendingMaxData (c : Connection X) : Bool :=
  match c.session with
  | none => false
  | some s => s.pendingMaxData.isSome

/-- A datagram after the handshake. The time of arrival is noted before anything is checked. -/
def onDataPacket (env : Env) (c : Connection X) (buf : Bytes) : Option (Reply X) :=
  let c := { c with lastRecv := env.now }
  match c.session with
  | none => some (.fail c (.handshakeFailed "no session"))
  | some s =>
    (s.receivePacket X.P buf env.now).map fun
      | (.error e, s) => .fail { c with session := some s } e
      | (.ok events, s) =>
        let r := handleEvents env { c with session := some s } events
        r.andThen fun c =>
          let c := c.feedAck env
          if c.hasPendingMaxData then c.flush (env.after r.sent.length) else .done c

def onPacket (env : Env) (c : Connection X) (buf : Bytes) : Option (Reply X) :=
  if buf.isEmpty then some (.done c)
  else
    match c.phase with
    | .clientWaitChallenge => some (c.clientRxChallenge env buf)
    | .clientWaitMsg2 => c.clientRxMsg2 env buf
    | .serverWaitCookie => some (c.serverRxCookieEcho env buf)
    | .serverWaitMsg3 => c.serverRxMsg3 env buf
    | .established => c.onDataPacket env buf
    | .draining | .closed => some (.done c)

/-! ## Keepalive -/

def secs (n : Nat) : Nat := n * 1000000000

def isIdle (c : Connection X) (now : Nat) : Bool :=
  c.phase = .established && secs 30 ≤ now - c.lastRecv

/-- A connection that can be removed from a table: idle, or 30 seconds old and still not
established. -/
def isStale (c : Connection X) (now : Nat) : Bool :=
  match c.phase with
  | .established => secs 30 ≤ now - c.lastRecv
  | .draining | .closed => false
  | _ => secs 30 ≤ now - c.lastRecv

def isEstablished (c : Connection X) : Bool := c.phase = .established

def isClosed (c : Connection X) : Bool := c.phase = .closed || c.phase = .draining

def close (c : Connection X) : Connection X := { c with phase := .draining }

end Connection

/-! ## A stand-in for concrete runs -/

def windowOnly : Congestion where
  State := Nat
  new := 14000
  available window := window
  shouldSend _ := true
  onSend window bytes := window - bytes
  onAck window bytes _ _ := window + bytes
  onTimeout window := window

def samplePlatform : Platform := ⟨checksumPrimitives, lastByteBlake3, plainNoise, plainKem, windowOnly⟩

theorem samplePlatform_lawful : samplePlatform.Lawful :=
  ⟨checksumPrimitives_lawful, plainNoise_lawful, plainKem_lawful⟩

def sampleEnv (now : Nat) : Env where
  now
  unixSecs := 1000
  sendError _ := none
  noiseSeed := 5
  kemSeed := 6
  ticketNonce := Vector.replicate 12 7
  order := []

end SeamProtocol
