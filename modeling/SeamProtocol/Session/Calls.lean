import SeamProtocol.Session.Flush
import SeamProtocol.Session.Delivery

/-! # What the calls of a session leave alone

The receive side of a stream changes only by received frames and by reads, the send side only by writes,
finishing and flushes. -/

namespace SeamProtocol

open Lib Option SortedMap SessionEvent

inductive AppCall where
  | openStream (priority : Nat)
  | finish (streamId : Nat)
  | ping
  | sendDatagram (data : Bytes)
  | recvDatagram
  | drainCcAck
  deriving DecidableEq

def Session.appCall (s : Session) : AppCall → Option Session
  | .openStream priority => some (s.tryOpenStreamWithPriority priority).2
  | .finish streamId => some (s.finishStream streamId)
  | .ping => some s.ping
  | .sendDatagram data => (s.sendDatagram data).map Prod.snd
  | .recvDatagram => some s.recvDatagram.2
  | .drainCcAck => some s.drainCcAck.2

def rawType : PktType → Bool
  | .chaff | .pathProbe | .pathChallenge | .pathResponse | .sessionTicket => true
  | _ => false

def SessionEvent.streamId? : SessionEvent → Option Nat
  | .newStream id | .dataAvailable id | .streamFinished id => some id
  | _ => none

namespace Stream

structure RecvSide where
  recvOffset : Nat
  recvBuf : SortedMap Nat Bytes
  recvMaxData : Nat
  finReceived : Option Nat

def recvSide (s : Stream) : RecvSide := ⟨s.recvOffset, s.recvBuf, s.recvMaxData, s.finReceived⟩

theorem Holds.of_recvSide {s s' : Stream} {acc : List (Nat × Bytes)} (h : s.Holds acc)
    (hrecv : s'.recvSide = s.recvSide) : s'.Holds acc := by
  unfold Holds
  rw [show s'.recvOffset = _ from congrArg RecvSide.recvOffset hrecv,
    show s'.recvBuf = _ from congrArg RecvSide.recvBuf hrecv]
  exact h

structure SendSide where
  sendBuf : Bytes
  sendOffset : Nat
  sendMaxData : Nat
  finSent : Bool
  finFlushed : Bool

def stored (s : Stream) : Nat := (s.recvBuf.entries.map fun e => e.2.length).sum

def sendSide (s : Stream) : SendSide :=
  ⟨s.sendBuf, s.sendOffset, s.sendMaxData, s.finSent, s.finFlushed⟩

@[simp] theorem receive_sendSide (s : Stream) (offset : Nat) (data : Bytes) (isFin : Bool) :
    (s.receive offset data isFin).2.sendSide = s.sendSide := by
  unfold receive
  cases isFin <;> dsimp only <;> split_ifs <;> rfl

@[simp] theorem receive_recvMaxData (s : Stream) (offset : Nat) (data : Bytes) (isFin : Bool) :
    (s.receive offset data isFin).2.recvMaxData = s.recvMaxData := by
  unfold receive
  cases isFin <;> dsimp only <;> split_ifs <;> rfl

variable {s s' : Stream} {maxBytes : Nat}

theorem read_eq_some {bytes : Bytes} (h : s.read maxBytes = some (bytes, s')) :
    ∃ popped, s' = { s with
      recvOffset := s.recvOffset + bytes.length
      recvBuf := s.recvBuf.dropFirst popped } := by
  obtain ⟨r, hr, heq⟩ := map_eq_some_iff.mp h
  cases heq
  exact ⟨r.popped, by rw [(readLoop_recvOffset hr).1]⟩

theorem pollSend_recvSide {seg : Nat × Bytes} (h : s.pollSend maxBytes = some (seg, s')) :
    s'.recvSide = s.recvSide := by
  unfold pollSend at h
  split at h
  · cases h
  · cases h
    rfl

end Stream

namespace Session

def SameRecv (s s' : Session) : Prop :=
  ∀ id, (s'.streams.get? id).map Stream.recvSide = (s.streams.get? id).map Stream.recvSide

variable (s : Session)

theorem SameRecv.refl : s.SameRecv s := fun _ => rfl

variable {s : Session}

theorem SameRecv.trans {t u : Session} (h : s.SameRecv t) (h' : t.SameRecv u) : s.SameRecv u :=
  fun id => (h' id).trans (h id)

variable {s' : Session} {id : Nat} {stream : Stream}

theorem SameRecv.of_insert {stream' : Stream} (hget : s.streams.get? id = some stream)
    (hs' : s'.streams = s.streams.insert id stream') (hside : stream'.recvSide = stream.recvSide) :
    s.SameRecv s' := by
  intro id'
  rw [hs', get?_insert]
  split_ifs with heq
  · simp [heq, hget, hside]
  · rfl

theorem SameRecv.get? (h : s.SameRecv s') (hget : s.streams.get? id = some stream) :
    ∃ stream', s'.streams.get? id = some stream' ∧ stream'.recvSide = stream.recvSide := by
  have hid := h id
  rw [hget, map_some, map_eq_some_iff] at hid
  exact hid

theorem SameRecv.get?_eq_none_iff (h : s.SameRecv s') (id : Nat) :
    s'.streams.get? id = none ↔ s.streams.get? id = none := by
  rw [← map_eq_none_iff, h id, map_eq_none_iff]

def streamFor (s : Session) (id : Nat) : Stream := (s.streams.get? id).getD (Stream.new id)

theorem streamFor_of_get? (h : s.streams.get? id = some stream) : s.streamFor id = stream := by
  rw [streamFor, h]
  rfl

theorem streamFor_insert (h : s'.streams = s.streams.insert id stream) (id' : Nat) :
    s'.streamFor id' = if id' = id then stream else s.streamFor id' := by
  rw [streamFor, h, get?_insert]
  split_ifs <;> rfl

theorem SameRecv.streamFor (h : s.SameRecv s') (id : Nat) :
    (s'.streamFor id).recvSide = (s.streamFor id).recvSide := by
  have hid := h id
  unfold Session.streamFor
  cases hget : s.streams.get? id with
  | none =>
    rw [hget, map_none, map_eq_none_iff] at hid
    rw [hid]
  | some stream =>
    obtain ⟨stream', hget', hside⟩ := h.get? hget
    rw [hget']
    exact hside

theorem SameRecv.symm (h : s.SameRecv s') : s'.SameRecv s := fun id => (h id).symm

/-! ## Sending calls -/

/-- **What `send` does**, by cases: it is refused for want of credit; it keeps the credit and fails,
because there is no such stream or the stream refuses; or it is accepted by a stream. -/
theorem send_cases (id : Nat) (data : Bytes) :
    (∃ e, s.send id data = (.error e, s) ∧ s.sendWindow.limit < s.sendWindow.consumed + data.length)
    ∨ (∃ e s', s.send id data = (.error e, s') ∧
        s.sendWindow.consumed + data.length ≤ s.sendWindow.limit ∧
        s' = { s with sendWindow :=
          { s.sendWindow with consumed := s.sendWindow.consumed + data.length } } ∧
        ∀ stream, s.streams.get? id = some stream → ∃ e, stream.write data = (.error e, stream))
    ∨ (∃ stream, s.streams.get? id = some stream ∧ stream.finSent = false ∧
        saturatingAdd stream.sendOffset data.length ≤ stream.sendMaxData ∧
        s.sendWindow.consumed + data.length ≤ s.sendWindow.limit ∧
        s.send id data = (.ok (), { s with
          sendWindow := { s.sendWindow with consumed := s.sendWindow.consumed + data.length }
          streams := s.streams.insert id { stream with
            sendBuf := stream.sendBuf ++ data
            sendOffset := stream.sendOffset + data.length } })) := by
  unfold send
  rcases s.sendWindow.reserve_cases data.length with ⟨hlt, hres⟩ | ⟨hle, hres⟩
  · rw [hres]
    exact .inl ⟨_, rfl, hlt⟩
  · rw [hres]
    dsimp only
    cases hget : s.streams.get? id with
    | none => exact .inr (.inl ⟨_, _, rfl, hle, rfl, fun stream h => nomatch h⟩)
    | some stream =>
      dsimp only
      rcases stream.write_cases data with ⟨e, hw⟩ | ⟨hfin, hmax, hw⟩
      · rw [hw]
        refine .inr (.inl ⟨e, _, rfl, hle, ?_, fun stream' h => ?_⟩)
        · rw [insert_get?_self hget]
        · cases h
          exact ⟨e, hw⟩
      · rw [hw]
        exact .inr (.inr ⟨stream, rfl, hfin, hmax, hle, rfl⟩)

theorem send_eq_ok {data : Bytes} (hget : s.streams.get? id = some stream)
    (hfin : stream.finSent = false)
    (hmax : saturatingAdd stream.sendOffset data.length ≤ stream.sendMaxData)
    (hle : s.sendWindow.consumed + data.length ≤ s.sendWindow.limit) :
    s.send id data = (.ok (), { s with
      sendWindow := { s.sendWindow with consumed := s.sendWindow.consumed + data.length }
      streams := s.streams.insert id { stream with
        sendBuf := stream.sendBuf ++ data
        sendOffset := stream.sendOffset + data.length } }) := by
  rcases s.send_cases id data with ⟨e, -, hlt⟩ | ⟨e, s', -, -, -, hw⟩ | ⟨stream', hget', -, -, -, h⟩
  · omega
  · obtain ⟨e', hw⟩ := hw stream hget
    rw [Stream.write, if_neg (by rw [hfin]; exact Bool.false_ne_true),
      if_neg (Nat.not_lt.mpr hmax)] at hw
    cases hw
  · rw [hget] at hget'
    cases hget'
    exact h

open SameRecv

theorem send_sameRecv (id : Nat) (data : Bytes) : s.SameRecv (s.send id data).2 := by
  rcases s.send_cases id data with ⟨e, h, -⟩ | ⟨e, s', h, -, rfl, -⟩ | ⟨stream, hget, -, -, -, h⟩
  · rw [h]
    exact refl s
  · rw [h]
    exact refl s
  · rw [h]
    exact of_insert hget rfl rfl

theorem finishStream_sameRecv (id : Nat) : s.SameRecv (s.finishStream id) := by
  unfold finishStream
  split
  · exact refl s
  · next stream hget => exact of_insert hget rfl rfl

variable {now : Nat} {em : Emission} {d : Draft}

theorem draft_streams (h : s.draft now em = some d) :
    d.sess.streams = s.streams ∨ ∃ id stream stream', s.streams.get? id = some stream ∧
      d.sess.streams = s.streams.insert id stream' ∧ stream'.recvSide = stream.recvSide ∧
      stream'.finSent = stream.finSent ∧ stream'.sendMaxData = stream.sendMaxData := by
  rcases draft_shape h with ⟨id, stream, seg, stream', -, hget, hpoll, rfl⟩ |
    ⟨id, stream, -, hget, -, rfl⟩ | ⟨-, -, -, _, _, _, _, _, hsess⟩
  · refine .inr ⟨id, stream, stream', hget, rfl, Stream.pollSend_recvSide hpoll, ?_⟩
    unfold Stream.pollSend at hpoll
    split at hpoll
    · cases hpoll
    · cases hpoll
      exact ⟨rfl, rfl⟩
  · exact .inr ⟨id, stream, _, hget, rfl, rfl, rfl, rfl⟩
  · left
    rw [hsess]

theorem draft_sameRecv (h : s.draft now em = some d) : s.SameRecv d.sess := by
  rcases draft_streams h with hsame | ⟨id, stream, stream', hget, hstreams, hrecv, -⟩
  · exact fun id => by rw [hsame]
  · exact of_insert hget hstreams hrecv

variable (P : Primitives)

theorem flushed_sameRecv (s : Session) (now : Nat) (order : List Nat) :
    s.SameRecv (s.flushed P now order).sess := by
  refine flushed_rel SameRecv refl (fun _ _ _ => trans) ?_ s order
  rintro s em d hd _ ⟨_, _, _, rfl, -⟩
  exact draft_sameRecv hd

theorem unsent_eq (id : Nat) : s.unsent id = (s.streamFor id).sendBuf := by
  unfold unsent streamFor
  cases s.streams.get? id <;> rfl

theorem draft_finSent (h : s.draft now em = some d) (id : Nat) :
    (d.sess.streamFor id).finSent = (s.streamFor id).finSent := by
  rcases draft_streams h with hsame | ⟨id', stream, stream', hget, hstreams, -, hfin, -⟩
  · rw [streamFor, hsame]
    rfl
  · rw [streamFor_insert hstreams]
    split_ifs with heq
    · rw [heq, streamFor_of_get? hget, hfin]
    · rfl

/-- **What a flush leaves of the send sides**: no stream is finished by it, and no bytes are added to
a buffer. -/
theorem flushed_sendSide (s : Session) (now : Nat) (order : List Nat) (id : Nat) :
    ((s.flushed P now order).sess.streamFor id).finSent = (s.streamFor id).finSent ∧
      ((s.flushed P now order).sess.streamFor id).sendBuf.length
        ≤ (s.streamFor id).sendBuf.length := by
  refine flushed_rel (fun s t => (t.streamFor id).finSent = (s.streamFor id).finSent ∧
    (t.streamFor id).sendBuf.length ≤ (s.streamFor id).sendBuf.length) (fun _ => ⟨rfl, le_rfl⟩)
    (fun _ _ _ h h' => ⟨h'.1.trans h.1, h'.2.trans h.2⟩) ?_ s order
  rintro s em d hd _ ⟨_, _, _, rfl, -⟩
  have hle := draft_unsent_le hd id
  rw [unsent_eq, unsent_eq] at hle
  exact ⟨draft_finSent hd id, hle.trans (Nat.sub_le _ _)⟩

/-! ## Receiving calls -/

theorem deliverFrame_get? (isNew : Bool) (f : StreamFrame) (id : Nat) :
    (s.deliverFrame isNew f).2.streams.get? id =
      if id = f.streamId then
        some (((s.streams.get? f.streamId).getD (Stream.new f.streamId)).receive
          f.offset f.data f.isFin).2
      else s.streams.get? id := by
  unfold deliverFrame
  dsimp only
  split <;> exact get?_insert _ _ _ _

def frameEvents (isNew finished : Bool) (id : Nat) : List SessionEvent :=
  (if isNew then [.newStream id] else []) ++ [.dataAvailable id]
    ++ if finished then [.streamFinished id] else []

variable {isNew finished : Bool}

theorem streamFinished_mem_frameEvents {id' : Nat} :
    .streamFinished id' ∈ frameEvents isNew finished id ↔ id' = id ∧ finished = true := by
  cases isNew <;> cases finished <;> simp [frameEvents]

theorem streamId?_of_mem_frameEvents {ev : SessionEvent} (h : ev ∈ frameEvents isNew finished id) :
    ev.streamId? = some id := by
  unfold frameEvents at h
  cases isNew <;> cases finished <;> simp at h
  · rw [h]
    rfl
  · rcases h with rfl | rfl <;> rfl
  · rcases h with rfl | rfl <;> rfl
  · rcases h with rfl | rfl | rfl <;> rfl

theorem deliverFrame_of_ok {f : StreamFrame}
    (hok : ((s.streamFor f.streamId).receive f.offset f.data f.isFin).1 = .ok ()) :
    s.deliverFrame isNew f =
      (.ok (frameEvents isNew (f.isFin ||
          ((s.streamFor f.streamId).receive f.offset f.data f.isFin).2.isRecvFinished) f.streamId),
        { s.consume f.data.length with
          streams := s.streams.insert f.streamId
            ((s.streamFor f.streamId).receive f.offset f.data f.isFin).2 }) := by
  have hstream : ((s.consume f.data.length).streams.get? f.streamId).getD (Stream.new f.streamId)
      = s.streamFor f.streamId := rfl
  unfold deliverFrame
  dsimp only
  rw [hstream, hok]
  unfold frameEvents
  split_ifs <;> simp [consume]

/-- **What a Data packet can do**: be ignored as truncated, be refused because the peer may not open
the stream, or be handed to its stream. -/
theorem handleDataFrame_cases (payload : Bytes) :
    (parseStreamFrame payload = none ∧ s.handleDataFrame payload = (.ok [], s)) ∨
    (∃ f e, parseStreamFrame payload = some f ∧ s.streams.get? f.streamId = none ∧
      s.refuseNewStream f.streamId = some e ∧ s.handleDataFrame payload = (.error e, s)) ∨
    (∃ f, parseStreamFrame payload = some f ∧
      (s.streams.get? f.streamId = none → s.refuseNewStream f.streamId = none) ∧
      s.handleDataFrame payload
        = s.deliverFrame (s.streams.get? f.streamId).isNone f) := by
  unfold handleDataFrame
  cases hparse : parseStreamFrame payload with
  | none => exact .inl ⟨rfl, rfl⟩
  | some f =>
    dsimp only
    cases hget : s.streams.get? f.streamId with
    | some stream => exact .inr (.inr ⟨f, rfl, fun h => by simp [hget] at h, by rw [hget]; rfl⟩)
    | none =>
      cases hrefuse : s.refuseNewStream f.streamId with
      | some e => exact .inr (.inl ⟨f, e, rfl, hget, hrefuse, rfl⟩)
      | none =>
        exact .inr (.inr ⟨f, rfl, fun _ => hrefuse, by rw [hget]; rfl⟩)

def noted (s : Session) (x : Decoded) (now : Nat) : Session :=
  { s with
    decoder := { s.decoder with replay := (s.decoder.replay.commit x.2.1).2 }
    ackRanges := s.ackRanges.onReceived x.2.1.toNat (ackEliciting x.1) now }

/-- **What `receive_packet` does**: it fails in the decoder and changes nothing, or the packet is
authentic and new, is noted, and is dispatched by its type. -/
theorem receivePacket_cases (s : Session) (buf : Bytes) (now : Nat) :
    (∃ e, (s.decoder.decode P buf).1 = .error e ∧
      s.receivePacket P buf now = some (.error e, s)) ∨
    (∃ x, (s.decoder.decode P buf).1 = .ok x ∧
      s.receivePacket P buf now = (s.noted x now).dispatch x.1 x.2.2 now) := by
  unfold receivePacket
  rcases PacketDecoder.decode_cases P s.decoder buf with ⟨e, hd, -⟩ | ⟨x, -, -, hd⟩
  · rw [hd]
    exact .inl ⟨e, rfl, rfl⟩
  · rw [hd]
    exact .inr ⟨x, rfl, rfl⟩

variable {P : Primitives} {buf : Bytes}

theorem receivePacket_of_error {e : SeamError} (now : Nat)
    (h : (s.decoder.decode P buf).1 = .error e) : s.receivePacket P buf now = some (.error e, s) := by
  rcases s.receivePacket_cases P buf now with ⟨e', he, hrecv⟩ | ⟨x, hx, -⟩
  · rw [h] at he
    cases he
    exact hrecv
  · rw [h] at hx
    cases hx

theorem receivePacket_of_ok {x : Decoded} (now : Nat) (h : (s.decoder.decode P buf).1 = .ok x) :
    s.receivePacket P buf now = (s.noted x now).dispatch x.1 x.2.2 now := by
  rcases s.receivePacket_cases P buf now with ⟨e, he, -⟩ | ⟨y, hy, hrecv⟩
  · rw [h] at he
    cases he
  · rw [h] at hy
    cases hy
    exact hrecv

theorem handleAckFrame_eq (payload : Bytes) (now : Nat) :
    ∃ arq pendingCcAck, s.handleAckFrame payload now = { s with arq, pendingCcAck } := by
  unfold handleAckFrame
  split
  · exact ⟨_, _, rfl⟩
  · dsimp only
    split <;> exact ⟨_, _, rfl⟩

variable {pktType : PktType} {payload : Bytes}

/-- **What an authentic packet does after it was noted**, by its type. Packets other than Data, Ack and
MaxData do not change the streams, and are never refused. -/
theorem dispatch_cases (h : s.dispatch pktType payload now = some (r, s')) :
    (pktType = .data ∧ s.handleDataFrame payload = (r, s')) ∨
    (pktType = .ack ∧ r = .ok [] ∧ s' = s.handleAckFrame payload now) ∨
    (pktType = .maxData ∧ 8 ≤ payload.length ∧ r = .ok [] ∧
      s' = { s with sendWindow := s.sendWindow.updateLimit (beNat (payload.take 8)) }) ∨
    pktType ≠ .data ∧ pktType ≠ .ack ∧ ¬ (pktType = .maxData ∧ 8 ≤ payload.length) ∧
      (∃ events, r = .ok events ∧ ∀ ev ∈ events,
        ev.streamId? = none ∧ (ev = .closed → pktType = .close)) ∧
      ∃ pendingPong datagrams, s' = { s with pendingPong, datagrams } ∧
        datagrams.sendQueue = s.datagrams.sendQueue := by
  cases pktType with
  | data => exact .inl ⟨rfl, Option.some.inj h⟩
  | ack =>
    cases h
    exact .inr (.inl ⟨rfl, rfl, rfl⟩)
  | maxData =>
    unfold dispatch at h
    dsimp only at h
    split at h
    · next hlen =>
        cases h
        exact .inr (.inr (.inl ⟨rfl, hlen, rfl, rfl⟩))
    · next hlen =>
        cases h
        exact .inr (.inr (.inr ⟨nofun, nofun, fun hc => hlen hc.2, ⟨_, rfl, by simp⟩,
          _, _, rfl, rfl⟩))
  | datagram =>
    obtain ⟨datagrams, hrecv, heq⟩ := map_eq_some_iff.mp h
    cases heq
    exact .inr (.inr (.inr ⟨nofun, nofun, nofun,
      ⟨_, rfl, by simp [streamId?]⟩, _, _, rfl,
      DatagramQueue.sendQueue_receive hrecv⟩))
  | pathChallenge | pathResponse =>
    unfold dispatch at h
    dsimp only at h
    split at h <;> cases h <;> exact .inr (.inr (.inr ⟨nofun, nofun, nofun,
      ⟨_, rfl, by simp [streamId?]⟩, _, _, rfl, rfl⟩))
  | _ =>
    cases h
    exact .inr (.inr (.inr ⟨nofun, nofun, nofun,
      ⟨_, rfl, by simp [streamId?]⟩, _, _, rfl, rfl⟩))

theorem dispatch_streams (hne : pktType ≠ .data)
    (h : s.dispatch pktType payload now = some (r, s')) : s'.streams = s.streams := by
  rcases dispatch_cases h with ⟨hdata, -⟩ | ⟨-, -, rfl⟩ | ⟨-, -, -, rfl⟩ |
    ⟨-, -, -, -, _, _, rfl, -⟩
  · exact absurd hdata hne
  · obtain ⟨arq, pendingCcAck, heq⟩ := s.handleAckFrame_eq payload now
    rw [heq]
  · rfl
  · rfl

theorem dispatch_ok (hne : pktType ≠ .data)
    (h : s.dispatch pktType payload now = some (r, s')) :
    ∃ events, r = .ok events ∧ ∀ ev ∈ events, ev.streamId? = none := by
  rcases dispatch_cases h with ⟨hdata, -⟩ | ⟨-, rfl, -⟩ | ⟨-, -, rfl, -⟩ |
    ⟨-, -, -, ⟨events, rfl, hev⟩, -⟩
  · exact absurd hdata hne
  · exact ⟨[], rfl, nofun⟩
  · exact ⟨[], rfl, nofun⟩
  · exact ⟨events, rfl, fun ev hmem => (hev ev hmem).1⟩

theorem dispatch_events {events : List SessionEvent} (hne : pktType ≠ .data)
    (h : s.dispatch pktType payload now = some (.ok events, s')) :
    ∀ ev ∈ events, ev.streamId? = none := by
  obtain ⟨_, hok, hev⟩ := dispatch_ok hne h
  cases hok
  exact hev

variable {max : Nat}

theorem read_cases {r : Except SeamError Bytes} (h : s.read id max = some (r, s')) :
    (s.streams.get? id = none ∧ r = .error (.unknownStream id) ∧ s' = s) ∨
    (∃ stream bytes stream', s.streams.get? id = some stream ∧
      stream.read max = some (bytes, stream') ∧ r = .ok bytes ∧
      s' = { s with streams := s.streams.insert id stream' }) := by
  unfold read at h
  split at h
  · next hget =>
      cases h
      exact .inl ⟨hget, rfl, rfl⟩
  · next stream hget =>
      obtain ⟨⟨bytes, stream'⟩, hread, heq⟩ := map_eq_some_iff.mp h
      cases heq
      exact .inr ⟨stream, bytes, stream', hget, hread, rfl, rfl⟩

/-! ## What never changes -/

structure Ident where
  role : Role
  encKeys : PacketKeys
  sessionId : UInt64
  decKeys : PacketKeys
  limits : SessionLimits

def ident (s : Session) : Ident :=
  ⟨s.role, s.encoder.keys, s.encoder.sessionId, s.decoder.keys, s.limits⟩

theorem send_eq (id : Nat) (data : Bytes) :
    ∃ streams sendWindow, (s.send id data).2 = { s with streams, sendWindow } := by
  rcases s.send_cases id data with ⟨e, h, -⟩ | ⟨e, s', h, -, rfl, -⟩ | ⟨stream, -, -, -, -, h⟩ <;>
    rw [h] <;> exact ⟨_, _, rfl⟩

variable {call : AppCall}

theorem appCall_cases (h : s.appCall call = some s') :
    (∃ priority, call = .openStream priority ∧ s.streams.size % 2 ^ 32 < s.limits.maxStreams ∧
      s' = { s with
        nextStreamId := (s.nextStreamId + 2) % 2 ^ 32
        streams := s.streams.insert s.nextStreamId
          { Stream.new s.nextStreamId with priority } }) ∨
    (∃ id stream, call = .finish id ∧ s.streams.get? id = some stream ∧
      s' = { s with streams := s.streams.insert id stream.finish }) ∨
    ∃ pendingPing datagrams pendingCcAck, s' = { s with pendingPing, datagrams, pendingCcAck } := by
  cases call with
  | openStream priority =>
    cases h
    unfold tryOpenStreamWithPriority
    split_ifs with hfull
    · exact .inr (.inr ⟨_, _, _, rfl⟩)
    · exact .inl ⟨priority, rfl, Nat.lt_of_not_le hfull, rfl⟩
  | finish id =>
    cases h
    unfold finishStream
    split
    · exact .inr (.inr ⟨_, _, _, rfl⟩)
    · next stream hget => exact .inr (.inl ⟨id, stream, rfl, hget, rfl⟩)
  | sendDatagram data =>
    obtain ⟨⟨r, t⟩, hr, rfl⟩ := map_eq_some_iff.mp h
    obtain ⟨⟨q, datagrams⟩, -, heq⟩ := map_eq_some_iff.mp hr
    cases q <;> cases heq <;> exact .inr (.inr ⟨_, _, _, rfl⟩)
  | ping | recvDatagram | drainCcAck =>
    cases h
    exact .inr (.inr ⟨_, _, _, rfl⟩)

theorem appCall_sameRecv (hopen : ∀ p, call ≠ .openStream p) (h : s.appCall call = some s') :
    s.SameRecv s' := by
  rcases appCall_cases h with ⟨p, hp, -⟩ | ⟨id, stream, -, hget, rfl⟩ | ⟨_, _, _, rfl⟩
  · exact absurd hp (hopen p)
  · exact .of_insert hget rfl rfl
  · exact .refl s

theorem appCall_eq (h : s.appCall call = some s') :
    ∃ streams nextStreamId pendingPing datagrams pendingCcAck, s' = { s with
      streams, nextStreamId, pendingPing, datagrams, pendingCcAck } := by
  rcases appCall_cases h with ⟨priority, -, -, rfl⟩ | ⟨id, stream, -, -, rfl⟩ | ⟨_, _, _, rfl⟩ <;>
    exact ⟨_, _, _, _, _, rfl⟩

theorem read_eq {r : Except SeamError Bytes} (h : s.read id max = some (r, s')) :
    ∃ streams, s' = { s with streams } := by
  rcases read_cases h with ⟨-, -, rfl⟩ | ⟨stream, bytes, stream', -, -, -, rfl⟩ <;>
    exact ⟨_, rfl⟩

theorem draft_eq (h : s.draft now em = some d) :
    ∃ streams datagrams ackPending pendingMaxData pendingPong pendingPing, d.sess = { s with
      streams, datagrams, pendingMaxData, pendingPong, pendingPing
      ackRanges := { s.ackRanges with ackPending } } := by
  rcases draft_shape h with ⟨_, _, _, _, -, -, -, rfl⟩ | ⟨_, _, -, -, -, rfl⟩ |
    ⟨-, -, -, _, _, _, _, _, hsess⟩
  · exact ⟨_, _, _, _, _, _, rfl⟩
  · exact ⟨_, _, _, _, _, _, rfl⟩
  · exact ⟨_, _, _, _, _, _, hsess⟩

theorem handleDataFrame_snd (h : s.handleDataFrame payload = (r, s')) :
    s' = s ∨ ∃ f stream, parseStreamFrame payload = some f ∧
      stream = ((s.streams.get? f.streamId).getD (Stream.new f.streamId)) ∧
      s' = { s.consume f.data.length with
        streams := s.streams.insert f.streamId (stream.receive f.offset f.data f.isFin).2 } := by
  rcases s.handleDataFrame_cases payload with
    ⟨-, heq⟩ | ⟨f, e, -, -, -, heq⟩ | ⟨f, hparse, -, heq⟩ <;> rw [heq] at h
  · cases h
    exact .inl rfl
  · cases h
    exact .inl rfl
  · refine .inr ⟨f, _, hparse, rfl, ?_⟩
    unfold deliverFrame at h
    dsimp only at h
    split at h <;> cases h <;> rfl

theorem handleDataFrame_eq (h : s.handleDataFrame payload = (r, s')) :
    ∃ streams recvConsumed pendingMaxData, s' = { s with streams, recvConsumed, pendingMaxData } := by
  rcases handleDataFrame_snd h with rfl | ⟨_, _, -, -, rfl⟩
  · exact ⟨_, _, _, rfl⟩
  · exact ⟨_, _, _, rfl⟩

theorem dispatch_eq (h : s.dispatch pktType payload now = some (r, s')) :
    ∃ streams recvConsumed pendingMaxData arq pendingCcAck sendWindow pendingPong datagrams,
      s' = { s with
        streams, recvConsumed, pendingMaxData, arq, pendingCcAck, sendWindow, pendingPong,
        datagrams } := by
  rcases dispatch_cases h with ⟨-, heq⟩ | ⟨-, -, rfl⟩ | ⟨-, -, -, rfl⟩ | ⟨-, -, -, -, _, _, rfl, -⟩
  · obtain ⟨_, _, _, rfl⟩ := handleDataFrame_eq heq
    exact ⟨_, _, _, _, _, _, _, _, rfl⟩
  · obtain ⟨arq, pendingCcAck, heq⟩ := s.handleAckFrame_eq payload now
    rw [heq]
    exact ⟨_, _, _, _, _, _, _, _, rfl⟩
  · exact ⟨_, _, _, _, _, _, _, _, rfl⟩
  · exact ⟨_, _, _, _, _, _, _, _, rfl⟩

theorem dispatch_sendWindow (h : s.dispatch pktType payload now = some (r, s')) :
    s'.sendWindow = if pktType = .maxData ∧ 8 ≤ payload.length then
        s.sendWindow.updateLimit (beNat (payload.take 8)) else s.sendWindow := by
  rcases dispatch_cases h with ⟨rfl, heq⟩ | ⟨rfl, -, rfl⟩ | ⟨rfl, hlen, -, rfl⟩ |
    ⟨-, -, hne, -, _, _, rfl, -⟩
  · obtain ⟨_, _, _, rfl⟩ := handleDataFrame_eq heq
    simp
  · obtain ⟨arq, pendingCcAck, heq⟩ := s.handleAckFrame_eq payload now
    simp [heq]
  · rw [if_pos ⟨rfl, hlen⟩]
  · rw [if_neg hne]

theorem dispatch_consume (h : s.dispatch pktType payload now = some (r, s')) :
    (s'.recvConsumed = s.recvConsumed ∧ s'.pendingMaxData = s.pendingMaxData) ∨
      ∃ f, pktType = .data ∧ parseStreamFrame payload = some f ∧
        s'.recvConsumed = (s.consume f.data.length).recvConsumed ∧
        s'.pendingMaxData = (s.consume f.data.length).pendingMaxData := by
  rcases dispatch_cases h with ⟨rfl, heq⟩ | ⟨-, -, rfl⟩ | ⟨-, -, -, rfl⟩ |
    ⟨-, -, -, -, _, _, rfl, -⟩
  · rcases handleDataFrame_snd heq with rfl | ⟨f, stream, hparse, -, rfl⟩
    · exact .inl ⟨rfl, rfl⟩
    · exact .inr ⟨f, rfl, hparse, rfl, rfl⟩
  · obtain ⟨arq, pendingCcAck, heq⟩ := s.handleAckFrame_eq payload now
    left
    rw [heq]
    exact ⟨rfl, rfl⟩
  · exact .inl ⟨rfl, rfl⟩
  · exact .inl ⟨rfl, rfl⟩

def acksNumber (pktType : PktType) (payload : Bytes) (k : Nat) : Bool :=
  match pktType, parseAckFrame payload with
  | .ack, some (_, _, ranges) => Covers ranges k
  | _, _ => false

/-- **Only acknowledgements take packets out of flight**, and no received packet puts one in. -/
theorem dispatch_inFlight (h : s.dispatch pktType payload now = some (r, s'))
    (k : Nat) :
    s'.arq.inFlight.get? k =
      if acksNumber pktType payload k then none else s.arq.inFlight.get? k := by
  rcases dispatch_cases h with ⟨rfl, heq⟩ | ⟨rfl, -, rfl⟩ | ⟨rfl, -, -, rfl⟩ |
    ⟨-, hne, -, -, _, _, rfl, -⟩
  · obtain ⟨_, _, _, rfl⟩ := handleDataFrame_eq heq
    rfl
  · rw [handleAckFrame_get?]
    unfold acksNumber
    cases parseAckFrame payload with
    | none => rfl
    | some frame => simp
  · rfl
  · have hno : acksNumber pktType payload k = false := by
      unfold acksNumber
      split
      · exact absurd rfl hne
      · rfl
    rw [hno]
    rfl

end Session

end SeamProtocol
