import SeamProtocol.Transport.Phases

/-! # Calls on an established connection

Write, send datagrams, end streams, read, and drive the timers with `tick`; every call that sends ends
in `flush` or `retransmit_expired`. Chaff, cover traffic, path probes and the challenges of a migration
have no effect on the session; any of them may be sent at any time. -/

namespace SeamProtocol

open Lib

namespace Connection

variable {X : Platform}

/-! ## Replies -/

variable {I : Connection X → Prop}

theorem sendTo_conn {env : Env} {c k : Connection X} (hc : I c) (hk : I k) (datagram : Bytes) :
    I (c.sendTo env datagram k).conn := by
  unfold sendTo
  split
  · exact hc
  · exact hk

theorem andThen_conn {r : Reply X} {f : Connection X → Reply X} (hr : I r.conn)
    (hf : ∀ c, I c → I (f c).conn) : I (r.andThen f).conn := by
  unfold Reply.andThen
  split
  · exact hr
  · exact hf _ hr

/-! ## Timers -/

def retransmitLoop (env : Env) (c : Connection X) : List (Nat × Bytes) → Reply X
  | [] => .done c
  | (_, data) :: rest =>
    let wire := c.tar.transform .retransmitExpired data
    let c := { c with tar := wire.2 }
    (c.sendTo env wire.1 { c with
        tar := c.tar.onRealSend env.now
        sendCounter := c.sendCounter + 1 }).andThen
      fun c => retransmitLoop (env.after 1) c rest

/-- Send what was not acknowledged in time again. Only the first controller is told. -/
def retransmitExpired (env : Env) (c : Connection X) : Reply X :=
  match c.session with
  | none => .done c
  | some s =>
    let r := s.drainRetransmits env.now
    retransmitLoop env { c with
        session := some r.2
        cc := if r.1.isEmpty then c.cc else X.C.onTimeout c.cc } r.1

def maybeQueuePing (env : Env) (c : Connection X) : Connection X :=
  if c.phase = .established ∧ secs 25 ≤ env.now - c.lastSend then
    { c with session := c.session.map Session.ping }
  else c

def tick (env : Env) (c : Connection X) : Reply X :=
  let r := (c.maybeQueuePing env).flush env
  r.andThen fun c => c.retransmitExpired (env.after r.sent.length)

/-! ## The application -/

def openStream (c : Connection X) : Option (Connection X) :=
  c.session.bind fun s =>
    match s.tryOpenStreamWithPriority priorityDefault with
    | (none, _) => none
    | (some _, s) => some { c with session := some s }

def write (env : Env) (c : Connection X) (streamId : Nat) (data : Bytes) : Option (Reply X) :=
  c.session.map fun s =>
    match s.send streamId data with
    | (.error e, s) => .fail { c with session := some s } e
    | (.ok (), s) => ({ c with session := some s } : Connection X).flush env

def sendDatagram (env : Env) (c : Connection X) (data : Bytes) : Option (Reply X) :=
  c.session.bind fun s =>
    (s.sendDatagram data).map fun
      | (.error e, s) => .fail { c with session := some s } e
      | (.ok (), s) => flush env { c with session := some s }

def sendFin (env : Env) (c : Connection X) (streamId : Nat) : Reply X :=
  { flush env { c with session := c.session.map fun s => s.finishStream streamId } with
    result := .ok () }

def read (c : Connection X) (streamId max : Nat) : Option (Reply X) :=
  c.session.bind fun s =>
    (s.read streamId max).map fun
      | (.error e, s) => .fail { c with session := some s } e
      | (.ok _, s) => .done { c with session := some s }

def recvDatagram (c : Connection X) : Connection X :=
  { c with session := c.session.map fun s => s.recvDatagram.2 }

def extraType : Egress → Option PktType
  | .cover | .chaff => some .chaff
  | .probe => some .pathProbe
  | .pathChallenge => some .pathChallenge
  | .flush | .retransmitExpired | .pathResponse => none

def sendExtra (env : Env) (c : Connection X) (path : Egress) (payload : Bytes) : Option (Reply X) :=
  match extraType path, c.session with
  | some pktType, some s =>
    some (match c.encodeRaw s pktType payload with
      | (.error e, c) => .fail c e
      | (.ok packet, c) => c.sendTo env (c.tar.transform path packet).1 c)
  | _, _ => none

inductive Call where
  | openStream
  | write (streamId : Nat) (data : Bytes)
  | sendDatagram (data : Bytes)
  | sendFin (streamId : Nat)
  | read (streamId max : Nat)
  | recvDatagram
  | flush
  | retransmitExpired
  | tick
  | sendExtra (path : Egress) (payload : Bytes)
  | close
  deriving DecidableEq

/-- **A call**; `none` if it panics or cannot be made. -/
def call (env : Env) (c : Connection X) : Call → Option (Reply X)
  | .openStream => c.openStream.map .done
  | .write streamId data => c.write env streamId data
  | .sendDatagram data => c.sendDatagram env data
  | .sendFin streamId => some (c.sendFin env streamId)
  | .read streamId max => c.read streamId max
  | .recvDatagram => some (.done c.recvDatagram)
  | .flush => some (c.flush env)
  | .retransmitExpired => some (c.retransmitExpired env)
  | .tick => some (c.tick env)
  | .sendExtra path payload => c.sendExtra env path payload
  | .close => some (.done c.close)

/-! ## What is encoded -/

def flushEncodes (env : Env) (c : Connection X) : List Decoded :=
  match c.session with
  | none => []
  | some s => (s.flushed X.P env.now env.order).log

def flushes (env : Env) (c : Connection X) : Call → Option (Connection X)
  | .write streamId data =>
    c.session.bind fun s =>
      match s.send streamId data with
      | (.error _, _) => none
      | (.ok (), s) => some { c with session := some s }
  | .sendDatagram data =>
    c.session.bind fun s => (s.sendDatagram data).bind fun
      | (.error _, _) => none
      | (.ok (), s) => some { c with session := some s }
  | .sendFin streamId =>
    some { c with session := c.session.map fun s => s.finishStream streamId }
  | .flush => some c
  | .tick => some (c.maybeQueuePing env)
  | .openStream | .read .. | .recvDatagram | .retransmitExpired | .sendExtra .. | .close => none

def encodes (env : Env) (c : Connection X) : Call → List Decoded
  | .sendExtra path payload =>
    match extraType path, c.session with
    | some pktType, some s => [(pktType, s.encoder.nextPktNum, payload)]
    | _, _ => []
  | call =>
    match c.flushes env call with
    | none => []
    | some c => c.flushEncodes env

def eventsEncode (env : Env) (c : Connection X) : List SessionEvent → List Decoded
  | [] => []
  | .pathChallengeReceived nonce :: rest =>
    let r := c.sendPathResponse env nonce
    (match c.session with
      | none => []
      | some s => [(.pathResponse, s.encoder.nextPktNum, leBytes 8 nonce)])
      ++ (match r.result with
        | .ok () => eventsEncode (env.after r.sent.length) r.conn rest
        | .error _ => [])
  | .pathResponseReceived _ :: rest => eventsEncode env c rest
  | ev :: rest => eventsEncode env { c with events := c.events ++ [ev] } rest

def arrives (env : Env) (c : Connection X) (buf : Bytes) :
    Option (List SessionEvent × Connection X) :=
  match c.phase, c.session with
  | .established, some s =>
    match s.receivePacket X.P buf env.now with
    | some (.ok events, s) => some (events, { c with lastRecv := env.now, session := some s })
    | _ => none
  | _, _ => none

def eventsFlush (env : Env) (c : Connection X) (events : List SessionEvent) :
    Option (Env × Connection X) :=
  let r := handleEvents env c events
  match r.result with
  | .ok () =>
    if (r.conn.feedAck env).hasPendingMaxData then
      some (env.after r.sent.length, r.conn.feedAck env)
    else none
  | .error _ => none

def packetEncodes (env : Env) (c : Connection X) (buf : Bytes) : List Decoded :=
  match c.arrives env buf with
  | none => []
  | some (events, c) =>
    eventsEncode env c events
      ++ (match c.eventsFlush env events with
        | none => []
        | some (env, c) => c.flushEncodes env)

end Connection

end SeamProtocol
