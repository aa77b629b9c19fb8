import SeamProtocol.Crypto.Codec
import SeamProtocol.Session.Ack
import SeamProtocol.Session.Resources
import SeamProtocol.Session.Stream

/-! # Sessions

A session owns the streams, the packet encoder and decoder, and all bookkeeping of one connection. Calls
that fail return the state they leave behind, since several of them fail after a change. A call that
panics or does not return is `none`. -/

namespace SeamProtocol

open Lib List

inductive SessionEvent where
  | newStream (id : Nat)
  | dataAvailable (id : Nat)
  | streamFinished (id : Nat)
  | datagramReceived
  | sessionTicket (ticket : Bytes)
  | closed
  | pathChallengeReceived (nonce : Nat)
  | pathResponseReceived (nonce : Nat)
  deriving DecidableEq, Repr

inductive Role where
  | client
  | server
  deriving DecidableEq, Repr

namespace Role

def localParity : Role → Nat
  | client => 1
  | server => 0

def peer : Role → Role
  | client => server
  | server => client

def name : Role → String
  | client => "Client"
  | server => "Server"

variable (x : Role)

@[simp] theorem peer_peer : x.peer.peer = x := by
  cases x <;> rfl

@[simp] theorem peer_ne : x.peer ≠ x := by
  cases x <;> exact nofun

end Role

structure SessionLimits where
  maxStreams : Nat
  maxDatagramSize : Nat
  maxDatagramQueue : Nat
  deriving DecidableEq

def SessionLimits.default : SessionLimits := ⟨1024, 1200, 64⟩

def defaultWindow : Nat := 16 * 2 ^ 20

def maxPayload : Nat := 1400

structure Session where
  id : UInt64
  role : Role
  encoder : PacketEncoder
  decoder : PacketDecoder
  streams : SortedMap Nat Stream
  nextStreamId : Nat
  sendWindow : FlowWindow
  recvWindow : FlowWindow
  recvConsumed : Nat
  pendingMaxData : Option Nat
  pendingPong : Bool
  pendingPing : Bool
  arq : ArqTracker
  datagrams : DatagramQueue
  limits : SessionLimits
  ackRanges : AckRanges
  /-- Congestion-control feedback: bytes acknowledged and round-trip time. -/
  pendingCcAck : Option (Nat × Nat)
  deriving DecidableEq

namespace Session

def withLimits (id : UInt64) (role : Role) (encoder : PacketEncoder) (decoder : PacketDecoder)
    (limits : SessionLimits) : Session :=
  { id
    role
    encoder
    decoder
    streams := ∅
    nextStreamId := match role with
      | .client => 1
      | .server => 2
    sendWindow := FlowWindow.new defaultWindow
    recvWindow := FlowWindow.new defaultWindow
    recvConsumed := 0
    pendingMaxData := none
    pendingPong := false
    pendingPing := false
    arq := ArqTracker.new
    datagrams := DatagramQueue.withLimits limits.maxDatagramSize limits.maxDatagramQueue
    limits
    ackRanges := AckRanges.new
    pendingCcAck := none }

/-! ## Calls of the application -/

def tryOpenStreamWithPriority (s : Session) (priority : Nat) : Option Nat × Session :=
  if s.limits.maxStreams ≤ s.streams.size % 2 ^ 32 then (none, s)
  else
    let id := s.nextStreamId
    (some id, { s with
      nextStreamId := (s.nextStreamId + 2) % 2 ^ 32
      streams := s.streams.insert id { Stream.new id with priority } })

/-- Write `data` into a stream's send buffer. The connection credit is reserved first. -/
def send (s : Session) (streamId : Nat) (data : Bytes) : Except SeamError Unit × Session :=
  match s.sendWindow.reserve data.length with
  | (.error e, sendWindow) => (.error e, { s with sendWindow })
  | (.ok (), sendWindow) =>
    let s := { s with sendWindow }
    match s.streams.get? streamId with
    | none => (.error (.unknownStream streamId), s)
    | some stream =>
      match stream.write data with
      | (.error e, stream) => (.error e, { s with streams := s.streams.insert streamId stream })
      | (.ok _, stream) => (.ok (), { s with streams := s.streams.insert streamId stream })

def finishStream (s : Session) (streamId : Nat) : Session :=
  match s.streams.get? streamId with
  | none => s
  | some stream => { s with streams := s.streams.insert streamId stream.finish }

def ping (s : Session) : Session := { s with pendingPing := true }

def sendDatagram (s : Session) (data : Bytes) : Option (Except SeamError Unit × Session) :=
  (s.datagrams.send data).map fun
    | (.error size, datagrams) =>
      (.error (.bufferTooSmall size s.limits.maxDatagramSize), { s with datagrams })
    | (.ok (), datagrams) => (.ok (), { s with datagrams })

def recvDatagram (s : Session) : Option Bytes × Session :=
  let r := s.datagrams.recv
  (r.1, { s with datagrams := r.2 })

def read (s : Session) (streamId max : Nat) : Option (Except SeamError Bytes × Session) :=
  match s.streams.get? streamId with
  | none => some (.error (.unknownStream streamId), s)
  | some stream =>
    (stream.read max).map fun (bytes, stream) =>
      (.ok bytes, { s with streams := s.streams.insert streamId stream })

def drainCcAck (s : Session) : Option (Nat × Nat) × Session :=
  (s.pendingCcAck, { s with pendingCcAck := none })

def drainRetransmits (s : Session) (now : Nat) : List (Nat × Bytes) × Session :=
  let r := s.arq.drainExpired now
  (r.1, { s with arq := r.2 })

end Session

/-! ## Stream frames -/

def streamFrame (isFin : Bool) (streamId offset : Nat) (data : Bytes) : Bytes :=
  [0x01, if isFin then 0x01 else 0x00] ++ leBytes 2 data.length ++ leBytes 4 streamId
    ++ leBytes 8 offset ++ data

@[simp] theorem length_streamFrame (isFin : Bool) (streamId offset : Nat) (data : Bytes) :
    (streamFrame isFin streamId offset data).length = 16 + data.length := by
  simp [streamFrame]
  omega

structure StreamFrame where
  streamId : Nat
  offset : Nat
  data : Bytes
  isFin : Bool
  deriving DecidableEq

def parseStreamFrame (frame : Bytes) : Option StreamFrame :=
  if frame.length < 16 then none
  else
    let dataLen := leNat ((frame.drop 2).take 2)
    if frame.length < 16 + dataLen then none
    else some
      { streamId := leNat ((frame.drop 4).take 4)
        offset := leNat ((frame.drop 8).take 8)
        data := (frame.drop 16).take dataLen
        isFin := frame.getD 1 0 &&& 0x01 ≠ 0 }

/-- **A stream frame reads back**, if its fields fit their widths. -/
theorem parseStreamFrame_streamFrame {isFin : Bool} {streamId offset : Nat} {data : Bytes}
    (hid : streamId < 2 ^ 32) (hoff : offset < 2 ^ 64) (hlen : data.length < 2 ^ 16) :
    parseStreamFrame (streamFrame isFin streamId offset data)
      = some ⟨streamId, offset, data, isFin⟩ := by
  set frame := streamFrame isFin streamId offset data with hframe
  have h2 : (frame.drop 2).take 2 = leBytes 2 data.length := by
    simp [hframe, streamFrame]
  have h4 : (frame.drop 4).take 4 = leBytes 4 streamId := by
    simp [hframe, streamFrame]
  have h8 : (frame.drop 8).take 8 = leBytes 8 offset := by
    simp [hframe, streamFrame, drop_append, drop_eq_nil_of_le]
  have h16 : frame.drop 16 = data := by
    simp [hframe, streamFrame, drop_append, drop_eq_nil_of_le]
  have hlen16 : frame.length = 16 + data.length := length_streamFrame _ _ _ _
  have hflag : frame.getD 1 0 = if isFin then 0x01 else 0x00 := by
    simp [hframe, streamFrame]
  have hfin : decide (frame.getD 1 0 &&& 0x01 ≠ 0) = isFin := by
    rw [hflag]
    cases isFin <;> decide
  have hdata : data.length % 256 ^ 2 = data.length := Nat.mod_eq_of_lt hlen
  rw [parseStreamFrame, if_neg (by omega)]
  simp only [h2, h4, h8, h16, hfin, leNat_leBytes, hdata, hlen16, lt_irrefl, if_false,
    Nat.mod_eq_of_lt (show streamId < 256 ^ 4 from hid),
    Nat.mod_eq_of_lt (show offset < 256 ^ 8 from hoff), take_length]

namespace Session

/-! ## Receiving -/

def ackEliciting : PktType → Bool
  | .ack | .chaff | .pathProbe | .pathChallenge | .pathResponse | .maxData | .pong => false
  | _ => true

def refuseNewStream (s : Session) (streamId : Nat) : Option SeamError :=
  if streamId % 2 = s.role.localParity then
    let role := s.role.name
    some (.protocolViolation
      s!"stream {streamId} parity matches local role {role}; remote must use opposite parity")
  else if s.limits.maxStreams ≤ s.streams.size % 2 ^ 32 then
    let maxStreams := s.limits.maxStreams
    some (.protocolViolation s!"peer opened stream {streamId}, exceeding max_streams={maxStreams}")
  else none

/-- Count received bytes, and schedule a window update when more than half of the window is used. -/
def consume (s : Session) (dataLen : Nat) : Session :=
  let recvConsumed := s.recvConsumed + dataLen
  { s with
    recvConsumed
    pendingMaxData := if s.recvWindow.limit < recvConsumed * 2 ∧ s.pendingMaxData = none then
        some (recvConsumed + defaultWindow)
      else s.pendingMaxData }

/-- Hand an admitted frame to its stream. The bytes are counted before the stream's own limit is
checked. -/
def deliverFrame (s : Session) (isNew : Bool) (f : StreamFrame) :
    Except SeamError (List SessionEvent) × Session :=
  let s := s.consume f.data.length
  let stream := (s.streams.get? f.streamId).getD (Stream.new f.streamId)
  let r := stream.receive f.offset f.data f.isFin
  let s := { s with streams := s.streams.insert f.streamId r.2 }
  match r.1 with
  | .error e => (.error e, s)
  | .ok () =>
    let events := if isNew then [.newStream f.streamId] else []
    let events := events ++ [.dataAvailable f.streamId]
    (.ok (if f.isFin || r.2.isRecvFinished then events ++ [.streamFinished f.streamId] else events),
      s)

def handleDataFrame (s : Session) (frame : Bytes) : Except SeamError (List SessionEvent) × Session :=
  match parseStreamFrame frame with
  | none => (.ok [], s)
  | some f =>
    match s.streams.get? f.streamId with
    | some _ => s.deliverFrame false f
    | none =>
      match s.refuseNewStream f.streamId with
      | some e => (.error e, s)
      | none => s.deliverFrame true f

/-- What an ACK frame has acknowledged so far: the tracker, the number of bytes, and the last
round-trip sample. -/
structure AckProgress where
  arq : ArqTracker
  totalBytes : Nat
  rttSample : Option Nat

def AckProgress.ackOne (now : Nat) (p : AckProgress) (pn : Nat) : AckProgress :=
  match p.arq.onAck pn now with
  | (none, arq) => { p with arq }
  | (some (rtt, bytes), arq) =>
    { arq
      totalBytes := p.totalBytes + bytes
      rttSample := if 0 < rtt then some rtt else p.rttSample }

/-- Acknowledge every packet number of an inclusive range; only those in flight are visited. -/
def AckProgress.ackRange (now : Nat) (p : AckProgress) (range : Nat × Nat) : AckProgress :=
  (p.arq.inFlight.keys.filter fun pn => range.1 ≤ pn && pn ≤ range.2).foldl (ackOne now) p

def handleAckFrame (s : Session) (frame : Bytes) (now : Nat) : Session :=
  match parseAckFrame frame with
  | none => s
  | some (_, _, ranges) =>
    let p := ranges.foldl (AckProgress.ackRange now) ⟨s.arq, 0, none⟩
    let s := { s with arq := p.arq }
    if 0 < p.totalBytes then
      let rtt := p.rttSample.getD 100000000
      { s with pendingCcAck := match s.pendingCcAck with
          | some (prevBytes, prevRtt) => some (prevBytes + p.totalBytes, min prevRtt rtt)
          | none => some (p.totalBytes, rtt) }
    else s

def dispatch (s : Session) (pktType : PktType) (payload : Bytes) (now : Nat) :
    Option (Except SeamError (List SessionEvent) × Session) :=
  match pktType with
  | .data => some (s.handleDataFrame payload)
  | .ack => some (.ok [], s.handleAckFrame payload now)
  | .maxData =>
    if 8 ≤ payload.length then
      some (.ok [], { s with sendWindow := s.sendWindow.updateLimit (beNat (payload.take 8)) })
    else some (.ok [], s)
  | .ping => some (.ok [], { s with pendingPong := true })
  | .sessionTicket => some (.ok [.sessionTicket payload], s)
  | .close => some (.ok [.closed], s)
  | .datagram =>
    (s.datagrams.receive payload).map fun datagrams =>
      (.ok [.datagramReceived], { s with datagrams })
  | .pathChallenge =>
    if 8 ≤ payload.length then some (.ok [.pathChallengeReceived (leNat (payload.take 8))], s)
    else some (.ok [], s)
  | .pathResponse =>
    if 8 ≤ payload.length then some (.ok [.pathResponseReceived (leNat (payload.take 8))], s)
    else some (.ok [], s)
  | .initial | .handshake | .fecRepair | .chaff | .pathProbe | .keyUpdate | .pong | .svcResume
  | .svcResumeOk => some (.ok [], s)

/-- Take in an authentic packet: its number is noted for acknowledgement before its payload is
looked at. -/
def onPacket (s : Session) (x : Decoded) (now : Nat) :
    Option (Except SeamError (List SessionEvent) × Session) :=
  { s with ackRanges := s.ackRanges.onReceived x.2.1.toNat (ackEliciting x.1) now }.dispatch
    x.1 x.2.2 now

def receivePacket (P : Primitives) (s : Session) (buf : Bytes) (now : Nat) :
    Option (Except SeamError (List SessionEvent) × Session) :=
  let r := s.decoder.decode P buf
  let s := { s with decoder := r.2 }
  match r.1 with
  | .error e => some (.error e, s)
  | .ok x => s.onPacket x now

/-! ## Lemmas about receiving -/

variable (now : Nat)

theorem AckProgress.ackOne_get? (p : AckProgress) (pn k : Nat) :
    (p.ackOne now pn).arq.inFlight.get? k = if k = pn then none else p.arq.inFlight.get? k := by
  rw [← ArqTracker.onAck_inFlight_get? p.arq pn now k]
  unfold ackOne
  rcases p.arq.onAck pn now with ⟨_ | _, arq⟩ <;> rfl

theorem AckProgress.foldl_ackOne_get? (pns : List Nat) (p : AckProgress) (k : Nat) :
    (pns.foldl (ackOne now) p).arq.inFlight.get? k
      = if k ∈ pns then none else p.arq.inFlight.get? k := by
  induction pns generalizing p with
  | nil => simp
  | cons pn rest ih =>
    rw [foldl_cons, ih, ackOne_get?]
    by_cases hk : k = pn <;> by_cases hr : k ∈ rest <;> simp [hk, hr]

theorem AckProgress.ackRange_get? (p : AckProgress) (range : Nat × Nat) (k : Nat) :
    (p.ackRange now range).arq.inFlight.get? k
      = if range.1 ≤ k ∧ k ≤ range.2 then none else p.arq.inFlight.get? k := by
  rw [ackRange, foldl_ackOne_get?]
  by_cases hin : range.1 ≤ k ∧ k ≤ range.2
  · split_ifs with hmem
    · rfl
    · -- a number of the range that is not listed is not in flight
      by_contra hne
      obtain ⟨pkt, hpkt⟩ := Option.ne_none_iff_exists'.mp hne
      apply hmem
      simpa [SortedMap.mem_keys_iff] using ⟨⟨pkt, hpkt⟩, by simpa using hin⟩
  · rw [if_neg hin, if_neg]
    intro hmem
    rw [mem_filter] at hmem
    exact hin (by simpa using hmem.2)

theorem AckProgress.foldl_ackRange_get? (ranges : List (Nat × Nat)) (p : AckProgress) (k : Nat) :
    (ranges.foldl (ackRange now) p).arq.inFlight.get? k
      = if Covers ranges k then none else p.arq.inFlight.get? k := by
  induction ranges generalizing p with
  | nil => simp [Covers]
  | cons r rest ih =>
    rw [foldl_cons, ih, ackRange_get?]
    have hcons : Covers (r :: rest) k ↔ (r.1 ≤ k ∧ k ≤ r.2) ∨ Covers rest k := by
      simp [Covers]
    by_cases hr : r.1 ≤ k ∧ k ≤ r.2 <;> by_cases hc : Covers rest k <;> simp [hcons, hr, hc]

theorem handleAckFrame_get? (s : Session) (frame : Bytes) (now k : Nat) :
    (s.handleAckFrame frame now).arq.inFlight.get? k =
      match parseAckFrame frame with
      | none => s.arq.inFlight.get? k
      | some (_, _, ranges) => if Covers ranges k then none else s.arq.inFlight.get? k := by
  unfold handleAckFrame
  split
  · rfl
  · next ranges _ =>
      dsimp only
      rw [← AckProgress.foldl_ackRange_get? now ranges ⟨s.arq, 0, none⟩ k]
      split <;> rfl

end Session

end SeamProtocol
