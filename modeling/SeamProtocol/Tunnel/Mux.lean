import SeamProtocol.Network.EndOfStream

/-! # The stream multiplexer

On each side of two connections four kinds of tasks cooperate through unbounded channels: the receive
loop of the connection, which queues the events of the session; the event loop, which handles one event
at a time (`Tunnel.handle`); one writer task per stream (the events `write`, `close` and `fin`); and the
application, which polls its streams. Each call on the connection is one step, and between the steps of
one task any other task may run. Nothing retransmits: `tick` is a method of the connection that the
multiplexer has taken apart. Datagrams, padding, repair packets and migration are left out; sending on
the socket does not fail. -/

namespace SeamProtocol

open Lib

inductive Writer where
  | idle
  | looping
  | closing
  | done
  deriving DecidableEq

structure MuxStream where
  /-- The event loop still has the sending end of the data channel. -/
  dataTx : Bool
  dataRx : List Bytes
  /-- What `poll_read` has received and not returned yet. -/
  readBuf : Bytes
  /-- The application still has the sending end of the write channel. -/
  writeTx : Bool
  writeRx : List Bytes
  writer : Writer
  deriving DecidableEq

structure Mux where
  streams : Nat → Option MuxStream
  pendingStreams : List Nat
  /-- Number of session events that the event loop has taken from its channel. -/
  handled : Nat
  running : Bool

structure Tunnel where
  net : Network
  mux : Role → Mux
  /-- The packets that were sent on the socket; the others of `net.wire` were held back. -/
  sent : Role → List Nat
  put : Role → Nat → Bytes
  got : Role → Nat → Bytes
  eof : Role → Nat → Bool

inductive TunnelEvent where
  | openStream (x : Role)
  | acceptStream (x : Role)
  | pollWrite (x : Role) (id : Nat) (data : Bytes)
  | pollShutdown (x : Role) (id : Nat)
  | pollRead (x : Role) (id room : Nat)
  | write (x : Role) (id now : Nat) (order : List Nat) (fits : Nat)
  | close (x : Role) (id : Nat)
  | fin (x : Role) (id now : Nat) (order : List Nat) (fits : Nat)
  | event (x : Role)
  | deliver (x : Role) (i now : Nat) (order : List Nat) (fits : Nat)

/-- How many packets of a flush are sent, if `fits` data packets fit the congestion window; control
packets are exempt. -/
def admitted : Nat → List TaggedPacket → Nat
  | _, [] => 0
  | fits, pkt :: rest =>
    if pkt.isControl then admitted fits rest + 1
    else match fits with
      | 0 => 0
      | fits + 1 => admitted fits rest + 1

namespace MuxStream

def opened : MuxStream := ⟨true, [], [], true, [], .looping⟩

def announced : MuxStream := ⟨true, [], [], false, [], .idle⟩

end MuxStream

namespace Tunnel

def init (c : NetworkConfig) : Tunnel :=
  { net := Network.init c
    mux := fun _ => ⟨fun _ => none, [], 0, true⟩
    sent := fun _ => []
    put := fun _ _ => []
    got := fun _ _ => []
    eof := fun _ _ => false }

def stream (t : Tunnel) (x : Role) (id : Nat) : Option MuxStream := (t.mux x).streams id

def queue (t : Tunnel) (x : Role) : List SessionEvent :=
  (t.net.peers.events x).drop (t.mux x).handled

def setMux (t : Tunnel) (x : Role) (m : Mux) : Tunnel := { t with mux := Function.update t.mux x m }

def setStream (t : Tunnel) (x : Role) (id : Nat) (m : MuxStream) : Tunnel :=
  t.setMux x { t.mux x with streams := Function.update (t.mux x).streams id (some m) }

/-- `Connection::flush`: packetise what is pending and send it, as far as the congestion window
allows. `false` if the session fails. -/
def flush (P : Primitives) (t : Tunnel) (x : Role) (now : Nat) (order : List Nat) (fits : Nat) :
    Option (Bool × Tunnel) :=
  (t.net.step P (.flush x now order)).map fun net =>
    match ((t.net.peers.sess x).flush P now order).1 with
    | .error _ => (false, { t with net })
    | .ok packets =>
      (true, { t with
        net
        sent := Function.update t.sent x
          (t.sent x ++ List.range' (t.net.wire x).length (admitted fits packets)) })

/-- The event loop handles an event. A new stream gets its data channel and is queued for
`accept_stream`; available data is read, at most 65536 bytes at once, and given to the data channel, if
that still has a sending end; the end of a stream drops the sending end. -/
def handle (P : Primitives) (t : Tunnel) (x : Role) : SessionEvent → Option Tunnel
  | .newStream id =>
    let t := t.setStream x id .announced
    some (t.setMux x { t.mux x with pendingStreams := (t.mux x).pendingStreams ++ [id] })
  | .dataAvailable id =>
    (t.net.step P (.read x id 65536)).map fun net =>
      let data := match (t.net.peers.sess x).read id 65536 with
        | some (.ok data, _) => data
        | _ => []
      let t := { t with net }
      match t.stream x id with
      | some m =>
        if data ≠ [] ∧ m.dataTx then t.setStream x id { m with dataRx := m.dataRx ++ [data] } else t
      | none => t
  | .streamFinished id =>
    match t.stream x id with
    | some m => some (t.setStream x id { m with dataTx := false })
    | none => some t
  | .closed => some (t.setMux x { t.mux x with running := false })
  | _ => some t

def step (P : Primitives) (t : Tunnel) : TunnelEvent → Option Tunnel
  | .openStream x =>
    -- the call panics if the session refuses to open a stream
    match ((t.net.peers.sess x).tryOpenStreamWithPriority priorityDefault).1 with
    | none => none
    | some id =>
      (t.net.step P (.app x (.openStream priorityDefault))).map fun net =>
        { t with net }.setStream x id .opened
  | .acceptStream x =>
    match (t.mux x).pendingStreams with
    | [] => none
    | id :: rest =>
      (t.stream x id).map fun m =>
        let t := t.setStream x id { m with writeTx := true, writer := .looping }
        t.setMux x { t.mux x with pendingStreams := rest }
  | .pollWrite x id data =>
    (t.stream x id).bind fun m =>
      if m.writer = .idle then none
      else if m.writeTx ∧ m.writer ≠ .done then
        some { t.setStream x id { m with writeRx := m.writeRx ++ [data] } with
          put := Function.update t.put x
            (Function.update (t.put x) id (t.put x id ++ data)) }
      else some t
  | .pollShutdown x id =>
    (t.stream x id).bind fun m =>
      if m.writer = .idle then none else some (t.setStream x id { m with writeTx := false })
  | .pollRead x id room =>
    (t.stream x id).bind fun m =>
      let got := fun data => Function.update t.got x (Function.update (t.got x) id (t.got x id ++ data))
      if m.writer = .idle then none
      else if m.readBuf ≠ [] then
        some { t.setStream x id { m with readBuf := m.readBuf.drop room } with
          got := got (m.readBuf.take room) }
      else match m.dataRx with
        | data :: rest =>
          some { t.setStream x id { m with dataRx := rest, readBuf := data.drop room } with
            got := got (data.take room) }
        | [] =>
          if m.dataTx then some t
          else some { t with eof := Function.update t.eof x (Function.update (t.eof x) id true) }
  | .write x id now order fits =>
    (t.stream x id).bind fun m =>
      match m.writer, m.writeRx with
      | .looping, data :: rest =>
        (t.net.step P (.send x id data)).bind fun net =>
          let t' := { t with net }
          match ((t.net.peers.sess x).send id data).1 with
          | .error _ => some (t'.setStream x id { m with writeRx := rest, writer := .closing })
          | .ok () =>
            (t'.flush P x now order fits).map fun (ok, t') =>
              t'.setStream x id
                { m with writeRx := rest, writer := if ok then .looping else .closing }
      | _, _ => none
  | .close x id =>
    (t.stream x id).bind fun m =>
      if m.writer = .looping ∧ m.writeRx = [] ∧ m.writeTx = false then
        some (t.setStream x id { m with writer := .closing })
      else none
  | .fin x id now order fits =>
    (t.stream x id).bind fun m =>
      if m.writer = .closing then
        (t.net.step P (.app x (.finish id))).bind fun net =>
          let t' : Tunnel := { t with net }
          (t'.flush P x now order fits).map fun (_, t') =>
            t'.setStream x id { m with writer := .done }
      else none
  | .event x =>
    if (t.mux x).running then
      (t.net.peers.events x)[(t.mux x).handled]?.bind fun ev =>
        (t.setMux x { t.mux x with handled := (t.mux x).handled + 1 }).handle P x ev
    else none
  | .deliver x i now order fits =>
    if i ∈ t.sent x then
      (t.net.step P (.deliver x i now)).bind fun net =>
        let t' := { t with net }
        -- an error of the session ends the call; otherwise a window update is flushed at once
        match (t.net.wire x)[i]?.bind fun bytes =>
            (t.net.peers.sess x.peer).receivePacket P bytes now with
        | some (.ok _, _) =>
          (t'.net.step P (.app x.peer .drainCcAck)).bind fun net =>
            let t' := { t' with net }
            if (t'.net.peers.sess x.peer).pendingMaxData.isSome then
              (t'.flush P x.peer now order fits).map Prod.snd
            else some t'
        | _ => some t'
    else none

end Tunnel

end SeamProtocol
