import SeamProtocol.Network.Acceptance

/-! # Transfers

Long runs in which one side sends a stream in equal chunks, one packet each, described round by round;
nothing is lost here. -/

namespace SeamProtocol

open Lib Function SortedMap Role List Session Peers Flush UInt64 PacketEncoder ReplayWindow

namespace Session

/-! ## Flushing a single chunk -/

structure Idle (s : Session) : Prop where
  datagrams : s.datagrams.sendQueue = []
  ackPending : s.ackRanges.ackPending = false
  pendingMaxData : s.pendingMaxData = none
  pendingPong : s.pendingPong = false
  pendingPing : s.pendingPing = false

variable {P : Primitives} {now : Nat} {f : Flush}

theorem foldl_emit_of_draft_eq_none (ems : List Emission)
    (h : ∀ em ∈ ems, f.sess.draft now em = none) : ems.foldl (emit P now) f = f := by
  induction ems with
  | nil => rfl
  | cons em ems ih =>
    have hem : f.emit P now em = f := by
      unfold emit
      rw [h em mem_cons_self]
      cases f.error <;> rfl
    simpa [hem] using ih fun e he => h e (mem_cons_of_mem _ he)

variable {em : Emission}

theorem foldl_emit_single {f' : Flush} {ems : List Emission} (hem : f.emit P now em = f')
    (h : ∀ e ∈ ems, f'.sess.draft now e = none) : (em :: ems).foldl (emit P now) f = f' := by
  simpa [hem] using foldl_emit_of_draft_eq_none ems h

variable {s : Session}

theorem Idle.draft_eq_none (h : s.Idle) (now : Nat) (hdata : ∀ id, em ≠ .data id)
    (hfin : ∀ id, em ≠ .fin id) : s.draft now em = none := by
  cases em with
  | data id => exact absurd rfl (hdata id)
  | fin id => exact absurd rfl (hfin id)
  | datagram => simp [draft, DatagramQueue.pollSend, h.datagrams]
  | ack => simp [draft, AckRanges.hasPendingAck, h.ackPending]
  | maxData => simp [draft, h.pendingMaxData]
  | pong => simp [draft, h.pendingPong]
  | ping => simp [draft, h.pendingPing]

variable {id : Nat} {stream : Stream}

theorem draft_eq_none_of_sendBuf (now : Nat) (hget : s.streams.get? id = some stream)
    (hbuf : stream.sendBuf = []) (hfin : stream.finSent = false) :
    s.draft now (.data id) = none ∧ s.draft now (.fin id) = none := by
  constructor
  · simp [draft, hget, Stream.pollSend, hbuf]
  · simp [draft, hget, Stream.shouldSendFin, hfin]

def sentChunk (s : Session) (id : Nat) (stream : Stream) (bytes : Bytes) (now : Nat) : Session :=
  { s.bumped with
    streams := s.streams.insert id { stream with sendBuf := [] }
    arq := s.arq.onSent s.encoder.nextPktNum.toNat bytes now }

theorem flushed_single (hP : P.Lawful) {bytes : Bytes} (now : Nat)
    (hget : s.streams.get? id = some stream) (hbuf : stream.sendBuf ≠ [])
    (hlen : stream.sendBuf.length ≤ maxPayload - 14) (hfin : stream.finSent = false) (hidle : s.Idle)
    (hseal : sealPacket P s.encoder.keys s.encoder.sessionId s.encoder.nextPktNum .data (streamFrame false id (stream.sendOffset - stream.sendBuf.length) stream.sendBuf) = .ok bytes) :
    s.flushed P now [id] =
      { sess := s.sentChunk id stream bytes now
        packets := [⟨false, bytes⟩]
        error := none
        log := [(.data, s.encoder.nextPktNum,
          streamFrame false id (stream.sendOffset - stream.sendBuf.length) stream.sendBuf)] } := by
  obtain ⟨b, rest, hcons⟩ := exists_cons_of_ne_nil hbuf
  have hpoll : stream.pollSend (maxPayload - 14)
      = some ((stream.sendOffset - stream.sendBuf.length, stream.sendBuf),
        { stream with sendBuf := [] }) := by
    have hne : stream.sendBuf.isEmpty = false := by
      rw [hcons]
      rfl
    unfold Stream.pollSend
    rw [if_neg (by rw [hne]; exact Bool.false_ne_true)]
    simp [min_eq_left hlen]
  have hschedule : s.schedule [id] = .data id ::
      (List.replicate rest.length (.data id) ++ [.fin id] ++ [.ack, .maxData, .pong, .ping]) := by
    simp [schedule, unsent, hget, hcons, hidle.datagrams, replicate_succ]
  rw [flushed, hschedule]
  -- the first emission takes everything
  refine foldl_emit_single ?_ fun em hem => ?_
  · simp only [emit, draft, hget, hpoll, Option.bind_eq_bind, Option.bind_some,
      Option.pure_def, encodePacket_eq hP, hseal, Draft.sent, peekNextPktNum,
      nil_append, if_true]
    rfl
  have hget' : (s.sentChunk id stream bytes now).streams.get? id
      = some { stream with sendBuf := [] } := get?_insert_self _ _ _
  obtain ⟨hnoData, hnoFin⟩ := draft_eq_none_of_sendBuf now hget' rfl hfin
  have hrest : (s.sentChunk id stream bytes now).Idle :=
    ⟨hidle.datagrams, hidle.ackPending, hidle.pendingMaxData, hidle.pendingPong,
      hidle.pendingPing⟩
  simp only [mem_append, mem_cons, mem_replicate, not_mem_nil, or_false] at hem
  rcases hem with (⟨-, rfl⟩ | rfl) | rfl | rfl | rfl | rfl
  · exact hnoData
  · exact hnoFin
  all_goals exact hrest.draft_eq_none now (by simp) (by simp)

end Session

/-! ## Receiving and reading a single chunk -/

def Stream.withChunk (stream : Stream) (chunk : Bytes) : Stream :=
  { stream with
    recvBuffered := saturatingAdd stream.recvBuffered chunk.length
    recvBuf := stream.recvBuf.insert stream.recvOffset chunk }

variable {stream : Stream} {chunk : Bytes}

theorem Stream.receive_chunk (hne : chunk ≠ [])
    (hmax : stream.recvOffset + chunk.length ≤ stream.recvMaxData)
    (h64 : stream.recvOffset + chunk.length < 2 ^ 64) :
    stream.receive stream.recvOffset chunk false = (.ok (), stream.withChunk chunk) := by
  have hpos : 0 < chunk.length := List.length_pos_iff.mpr hne
  unfold receive
  simp only [Nat.mod_eq_of_lt h64, Bool.false_eq_true, if_false, List.isEmpty_iff, hne,
    if_neg (show ¬ stream.recvOffset + chunk.length ≤ stream.recvOffset by omega),
    if_neg (Nat.not_lt.mpr hmax)]
  rfl

theorem Stream.read_chunk (hne : chunk ≠ []) (hbuf : stream.recvBuf = ∅) :
    (stream.withChunk chunk).read chunk.length = some (chunk, { stream.withChunk chunk with
      recvOffset := stream.recvOffset + chunk.length
      recvBuf := ∅ }) := by
  have hpos : chunk.length ≠ 0 := (length_pos_iff.mpr hne).ne'
  have hentries : (stream.withChunk chunk).recvBuf.entries = [(stream.recvOffset, chunk)] := by
    rw [withChunk, hbuf]
    rfl
  have hloop : readLoop stream.recvOffset chunk.length [(stream.recvOffset, chunk)]
      = some ⟨chunk, stream.recvOffset + chunk.length, 1⟩ := by
    simp [readLoop, hpos]
  have hdrop : (stream.withChunk chunk).recvBuf.dropFirst 1 = ∅ := by
    refine eq_of_entries ?_
    show (stream.withChunk chunk).recvBuf.entries.drop 1 = []
    rw [hentries]
    rfl
  have hoff : (stream.withChunk chunk).recvOffset = stream.recvOffset := rfl
  simp [read, hentries, hoff, hloop, hdrop]

namespace Session

theorem handleDataFrame_chunk {s : Session} {id : Nat} {chunk : Bytes} (hne : chunk ≠ [])
    (hid : id < 2 ^ 32) (hlen : chunk.length < 2 ^ 16)
    (hnew : s.streams.get? id = none → s.refuseNewStream id = none)
    (hmax : (s.streamFor id).recvOffset + chunk.length ≤ (s.streamFor id).recvMaxData)
    (h64 : (s.streamFor id).recvOffset + chunk.length < 2 ^ 64) :
    ∃ events, s.handleDataFrame (streamFrame false id (s.streamFor id).recvOffset chunk)
      = (.ok events, { s.consume chunk.length with
          streams := s.streams.insert id ((s.streamFor id).withChunk chunk) }) := by
  have hparse : parseStreamFrame (streamFrame false id (s.streamFor id).recvOffset chunk)
      = some ⟨id, (s.streamFor id).recvOffset, chunk, false⟩ :=
    parseStreamFrame_streamFrame hid (by omega) hlen
  have hrecv := Stream.receive_chunk hne hmax h64
  rcases s.handleDataFrame_cases (streamFrame false id (s.streamFor id).recvOffset chunk) with
    ⟨hnone, -⟩ | ⟨f, e, hf, hget, hrefuse, -⟩ | ⟨f, hf, -, heq⟩
  · rw [hparse] at hnone
    cases hnone
  · rw [hparse] at hf
    cases hf
    rw [hnew hget] at hrefuse
    cases hrefuse
  · rw [hparse] at hf
    cases hf
    rw [heq]
    have hstream : ((s.consume chunk.length).streams.get? id).getD (Stream.new id)
        = s.streamFor id := rfl
    simp only [deliverFrame, hstream, hrecv]
    exact ⟨_, rfl⟩

def tookChunk (s : Session) (y : Decoded) (id : Nat) (chunk : Bytes) : Session :=
  { (s.noted y 0).consume chunk.length with
    streams := s.streams.insert id { (s.streamFor id).withChunk chunk with
      recvOffset := (s.streamFor id).recvOffset + chunk.length
      recvBuf := ∅ } }

theorem streamFor_tookChunk (s : Session) (y : Decoded) (id : Nat) (chunk : Bytes) :
    (s.tookChunk y id chunk).streamFor id = { (s.streamFor id).withChunk chunk with
      recvOffset := (s.streamFor id).recvOffset + chunk.length
      recvBuf := ∅ } := by
  rw [streamFor, tookChunk]
  dsimp only
  rw [get?_insert_self]
  rfl

/-! ## Both sessions of a transfer -/

structure WroteChunks (s : Session) (id : Nat) (chunk : Bytes) (k : Nat) : Prop where
  keys : s.streams.keys = [id]
  stream : ∃ stream, s.streams.get? id = some stream ∧ stream.sendBuf = [] ∧
    stream.finSent = false ∧ stream.sendOffset = k * chunk.length ∧
    stream.sendMaxData = defaultWindow
  idle : s.Idle
  consumed : s.sendWindow.consumed = k * chunk.length
  limit : s.sendWindow.limit = defaultWindow

structure TookChunks (s : Session) (id : Nat) (chunk : Bytes) (k : Nat) : Prop where
  streams : s.streams = if k = 0 then ∅ else (∅ : SortedMap Nat Stream).insert id (s.streamFor id)
  offset : (s.streamFor id).recvOffset = k * chunk.length
  buf : (s.streamFor id).recvBuf = ∅
  max : (s.streamFor id).recvMaxData = defaultWindow
  noData : (s.streamFor id).sendBuf = [] ∧ (s.streamFor id).finSent = false
  consumed : s.recvConsumed = k * chunk.length
  limit : s.recvWindow.limit = defaultWindow
  /-- A window update is scheduled when half of the window is used. -/
  pending : if 2 * (k * chunk.length) ≤ defaultWindow then s.pendingMaxData = none
    else ∃ limit, s.pendingMaxData = some limit ∧ 3 * 2 ^ 23 < limit ∧ limit < 2 ^ 64
  control : s.datagrams.sendQueue = [] ∧ s.pendingPong = false ∧ s.pendingPing = false

variable {P : Primitives} {s : Session} {id k : Nat} {chunk : Bytes}

theorem TookChunks.pending_tookChunk (h : s.TookChunks id chunk k) {y : Decoded} {i : Nat}
    (hroom : (k + 1) * chunk.length ≤ defaultWindow) :
    if 2 * ((k + 1) * chunk.length) ≤ defaultWindow then
      (s.tookChunk y i chunk).pendingMaxData = none
    else ∃ limit, (s.tookChunk y i chunk).pendingMaxData = some limit ∧
      3 * 2 ^ 23 < limit ∧ limit < 2 ^ 64 := by
  have hold := h.pending
  have hnew : (s.tookChunk y i chunk).pendingMaxData
      = if defaultWindow < (k * chunk.length + chunk.length) * 2 ∧ s.pendingMaxData = none then
        some (k * chunk.length + chunk.length + defaultWindow)
      else s.pendingMaxData := by
    have hdef : (s.tookChunk y i chunk).pendingMaxData = (s.consume chunk.length).pendingMaxData := rfl
    rw [hdef, consume, h.limit, h.consumed]
  rw [hnew]
  rw [Nat.succ_mul k] at hroom ⊢
  unfold defaultWindow at *
  split_ifs at hold with hhalf
  · rw [hold]
    split_ifs with hnow hcond hcond
    · omega
    · rfl
    · exact ⟨_, rfl, by omega, by omega⟩
    · simp only [and_true] at hcond
      omega
  · obtain ⟨limit, hlimit, hbounds⟩ := hold
    rw [hlimit, if_neg (by omega), if_neg (by simp)]
    exact ⟨limit, rfl, hbounds⟩

theorem TookChunks.tookChunk (h : s.TookChunks id chunk k) (y : Decoded)
    (hroom : (k + 1) * chunk.length ≤ defaultWindow) :
    (s.tookChunk y id chunk).TookChunks id chunk (k + 1) := by
  have htook := s.streamFor_tookChunk y id chunk
  refine ⟨?_, ?_, ?_, ?_, ?_, ?_, h.limit, h.pending_tookChunk hroom, h.control⟩
  · rw [htook, if_neg (Nat.succ_ne_zero k), Session.tookChunk]
    dsimp only
    rw [h.streams]
    split_ifs
    · rfl
    · exact insert_insert_self _ _ _ _
  · rw [htook, Nat.succ_mul, ← h.offset]
  · rw [htook]
  · rw [htook]
    exact h.max
  · rw [htook]
    exact h.noData
  · rw [Nat.succ_mul, ← h.consumed]
    rfl

theorem TookChunks.get? (h : s.TookChunks id chunk (k + 1)) (i : Nat) :
    s.streams.get? i = if i = id then some (s.streamFor id) else none := by
  have hstreams := h.streams
  rw [if_neg (Nat.succ_ne_zero k)] at hstreams
  rw [hstreams, get?_insert, get?_empty]

theorem TookChunks.keys (h : s.TookChunks id chunk (k + 1)) : s.streams.keys = [id] := by
  have hstreams := h.streams
  rw [if_neg (Nat.succ_ne_zero k)] at hstreams
  rw [hstreams]
  rfl

/-! ## Flushing an acknowledgement and a window update -/

def sentAck (s : Session) : Session :=
  { s.bumped with ackRanges := { s.ackRanges with ackPending := false } }

def sentUpdate (s : Session) (limit : Nat) : Session :=
  { s.bumped.bumped with
    ackRanges := { s.ackRanges with ackPending := false }
    pendingMaxData := none
    recvWindow := s.recvWindow.updateLimit limit }

variable {b : Bytes} {now : Nat}

theorem TookChunks.flushed_eq (hP : P.Lawful) (h : s.TookChunks id chunk (k + 1))
    (hack : s.ackRanges.ackPending = true)
    (hseal : sealPacket P s.encoder.keys s.encoder.sessionId s.encoder.nextPktNum .ack (s.ackRanges.buildFrame now).1 = .ok b) :
    s.flushed P now [id] = [.maxData, .pong, .ping].foldl (emit P now)
      { sess := s.sentAck
        packets := [⟨true, b⟩]
        error := none
        log := [(.ack, s.encoder.nextPktNum, (s.ackRanges.buildFrame now).1)] } := by
  have hget := h.get? id
  rw [if_pos rfl] at hget
  have hschedule : s.schedule [id] = [.fin id, .ack, .maxData, .pong, .ping] := by
    simp [schedule, unsent, hget, h.noData.1, h.control.1]
  obtain ⟨-, hnoFin⟩ := draft_eq_none_of_sendBuf now hget h.noData.1 h.noData.2
  have hemitFin : emit P now ⟨s, [], none, []⟩ (.fin id) = ⟨s, [], none, []⟩ := by
    simp only [emit, hnoFin]
  rw [flushed, hschedule, foldl_cons, hemitFin, foldl_cons]
  congr 1
  simp only [emit, draft, AckRanges.hasPendingAck, hack, guard_true, Option.bind_eq_bind,
    Option.pure_def, Option.bind_some, encodePacket_eq hP, hseal, Draft.sent,
    peekNextPktNum, nil_append]
  rfl

theorem TookChunks.flushed_ack (hP : P.Lawful) (h : s.TookChunks id chunk (k + 1))
    (hack : s.ackRanges.ackPending = true) (hlimit : s.pendingMaxData = none)
    (hseal : sealPacket P s.encoder.keys s.encoder.sessionId s.encoder.nextPktNum .ack (s.ackRanges.buildFrame now).1 = .ok b) :
    s.flushed P now [id] =
      { sess := s.sentAck
        packets := [⟨true, b⟩]
        error := none
        log := [(.ack, s.encoder.nextPktNum, (s.ackRanges.buildFrame now).1)] } := by
  rw [h.flushed_eq hP hack hseal]
  have hidle : s.sentAck.Idle := ⟨h.control.1, rfl, hlimit, h.control.2.1, h.control.2.2⟩
  refine foldl_emit_of_draft_eq_none _ fun em hem => hidle.draft_eq_none now ?_ ?_
  all_goals
    rintro i rfl
    simp at hem

theorem TookChunks.flushed_update (hP : P.Lawful) (h : s.TookChunks id chunk (k + 1)) {limit : Nat}
    (hack : s.ackRanges.ackPending = true) (hlimit : s.pendingMaxData = some limit)
    (hframe : (s.ackRanges.buildFrame now).1.length ≤ 2 ^ 30) :
    ∃ b1 b2, sealPacket P s.encoder.keys s.encoder.sessionId s.encoder.nextPktNum .ack
        (s.ackRanges.buildFrame now).1 = .ok b1 ∧
      sealPacket P s.encoder.keys s.encoder.sessionId (s.encoder.nextPktNum + 1) .maxData
        (beBytes 8 limit) = .ok b2 ∧
      s.flushed P now [id] =
        { sess := s.sentUpdate limit
          packets := [⟨true, b1⟩, ⟨true, b2⟩]
          error := none
          log := [(.ack, s.encoder.nextPktNum, (s.ackRanges.buildFrame now).1),
            (.maxData, s.encoder.nextPktNum + 1, beBytes 8 limit)] } := by
  obtain ⟨b1, hseal1⟩ := sealPacket_eq_ok hP hframe
  obtain ⟨b2, hseal2⟩ := sealPacket_eq_ok hP (show (beBytes 8 limit).length ≤ 2 ^ 30 by
    rw [length_beBytes]; decide)
  refine ⟨b1, b2, hseal1, hseal2, ?_⟩
  have hidle : (s.sentUpdate limit).Idle := ⟨h.control.1, rfl, rfl, h.control.2.1, h.control.2.2⟩
  rw [h.flushed_eq hP hack hseal1]
  refine foldl_emit_single ?_ fun em hem => hidle.draft_eq_none now ?_ ?_
  · simp only [emit, draft, sentAck, bumped, hlimit, Option.bind_eq_bind, Option.pure_def,
      Option.bind_some, encodePacket_eq hP, hseal2, Draft.sent, peekNextPktNum]
    rfl
  all_goals
    rintro i rfl
    simp at hem

end Session

namespace Network

variable {P : Primitives} {c : NetworkConfig}

/-! ## Deliveries -/

variable {n : Network} {x : Role} {bytes : Bytes} {y : Decoded}

theorem Wired.authenticate_sealed (hP : P.Lawful) (hw : Wired P c n) (hseal : SealedBy P c x y bytes)
    (hlen : encodeBufLen y.2.2.length ≤ maxPacketLen) :
    authenticate P (n.peers.sess x.peer).decoder.keys bytes = some y := by
  rw [hw.tracked.decKeys]
  exact authenticate_sealPacket hP hseal hlen

variable {i : Nat}

theorem Wired.accepts_eq_some_iff (hP : P.Lawful) (hw : Wired P c n) {z : Decoded}
    (hget : (n.wire x)[i]? = some bytes) (hseal : SealedBy P c x y bytes)
    (hlen : encodeBufLen y.2.2.length ≤ maxPacketLen) :
    n.accepts P x i = some z ↔
      z = y ∧ (n.peers.sess x.peer).decoder.replay.check y.2.1 = .ok () := by
  rw [accepts, hget, Option.bind_some,
    PacketDecoder.decode_of_authentic (hw.authenticate_sealed hP hseal hlen)]
  cases (n.peers.sess x.peer).decoder.replay.check y.2.1 with
  | error e => exact ⟨by rintro ⟨⟩, by rintro ⟨-, ⟨⟩⟩⟩
  | ok u => exact ⟨fun h => ⟨(Option.some.inj h).symm, rfl⟩, fun h => by rw [h.1]; rfl⟩

theorem Wired.sealedBy (hw : Wired P c n) {t : PktType} {payload : Bytes}
    (hseal : sealPacket P (n.peers.sess x).encoder.keys (n.peers.sess x).encoder.sessionId num t payload = .ok bytes) :
    SealedBy P c x (t, num, payload) bytes :=
  sealedBy_of_ident (hw.tracked.ident x) hseal

theorem step_deliver (hP : P.Lawful) (hw : Wired P c n) (now : Nat)
    (hget : (n.wire x)[i]? = some bytes) (hseal : SealedBy P c x y bytes)
    (hlen : encodeBufLen y.2.2.length ≤ maxPacketLen)
    (hcheck : (n.peers.sess x.peer).decoder.replay.check y.2.1 = .ok ()) :
    n.step P (.deliver x i now)
      = (n.peers.accept x.peer y now).map fun p => { n with peers := p } := by
  have hdec := (PacketDecoder.decode_ok_iff P _ bytes).mpr
    ⟨hw.authenticate_sealed hP hseal hlen, hcheck⟩
  simp only [step, hget, receivePacket_of_ok now hdec, hdec, accept, Option.map_map]
  rfl

variable {now : Nat} {f : Flush}

theorem step_flush {order : List Nat} (hperm : order.Perm (n.peers.sess x).streams.keys)
    (hf : (n.peers.sess x).flushed P now order = f) (herr : f.error = none) :
    n.step P (.flush x now order) = some ({ n with peers := n.peers.during x f }.transmit x
      (f.packets.map TaggedPacket.bytes)) := by
  subst hf
  simp only [step, if_pos hperm, flush, herr]
  rfl

/-! ## Rounds of the sending side -/

abbrev chunkPacket (id : Nat) (chunk : Bytes) (k : Nat) : Decoded :=
  (.data, UInt64.ofNat k, streamFrame false id (k * chunk.length) chunk)

/-- Side `x` has sent `k` chunks on its only stream, one packet each; some may be acknowledged. -/
structure ChunksFlushed (x : Role) (id : Nat) (chunk : Bytes) (k : Nat) (n : Network) : Prop where
  wrote : (n.peers.sess x).WroteChunks id chunk k
  log : (n.peers.log x).length = k
  wire : (n.wire x).length = k

structure ChunksSent (P : Primitives) (c : NetworkConfig) (x : Role) (id : Nat) (chunk : Bytes)
    (k : Nat) (n : Network) : Prop extends ChunksFlushed x id chunk k n where
  sealed : ∀ i, i < k → ∃ bytes, (n.wire x)[i]? = some bytes ∧ SealedBy P c x (chunkPacket id chunk i) bytes
  inFlight : ∀ i, i < k → i ∈ (n.peers.sess x).arq.inFlight.keys

def sendRound (x : Role) (id : Nat) (chunk : Bytes) (now : Nat) : List NetEvent :=
  [.send x id chunk, .flush x now [id]]

def afterRound (n : Network) (x : Role) (id : Nat) (data : Bytes) (s : Session) (e : Decoded)
    (bytes : Bytes) : Network :=
  { peers := { n.peers with
      sess := Function.update n.peers.sess x s
      log := Function.update n.peers.log x (n.peers.log x ++ [e])
      written := Function.update n.peers.written x
        (Function.update (n.peers.written x) id (n.peers.written x id ++ data)) }
    wire := Function.update n.wire x (n.wire x ++ [bytes]) }

variable {id : Nat} {chunk : Bytes}

theorem exec_sendRound {s1 s2 : Session} {e : Decoded}
    (hsend : (n.peers.sess x).send id chunk = (.ok (), s1)) (hkeys : s1.streams.keys = [id])
    (hflush : s1.flushed P now [id] = ⟨s2, [⟨false, bytes⟩], none, [e]⟩) :
    exec (step P) n (sendRound x id chunk now) = some (n.afterRound x id chunk s2 e bytes) := by
  have hstep1 : n.step P (.send x id chunk) = some { n with peers := n.peers.send x id chunk } := rfl
  have hsess : (n.peers.send x id chunk).sess x = s1 := by
    simp [Peers.send, hsend, Peers.setSess]
  rw [sendRound, exec_cons, hstep1, Option.bind_some, exec_cons]
  have hperm : [id].Perm s1.streams.keys := by
    rw [hkeys]
  simp only [step, hsess, if_pos hperm, flush, hflush]
  simp [afterRound, transmit, Peers.send, hsend, Peers.setSess]

variable {k : Nat}

theorem lt_of_room (hne : chunk ≠ []) (hroom : (k + 1) * chunk.length ≤ defaultWindow) :
    k < 2 ^ 64 := by
  have hle : k + 1 ≤ (k + 1) * chunk.length := Nat.le_mul_of_pos_right _ (length_pos_iff.mpr hne)
  unfold defaultWindow at hroom
  omega

theorem ChunksFlushed.round (hP : P.Lawful) (hw : Wired P c n) (ha : Accounted n.peers)
    (h : ChunksFlushed x id chunk k n) (hne : chunk ≠ []) (hlen : chunk.length ≤ maxPayload - 14)
    (hroom : (k + 1) * chunk.length ≤ defaultWindow) (now : Nat) :
    ∃ s bytes, exec (step P) n (sendRound x id chunk now)
        = some (n.afterRound x id chunk s (chunkPacket id chunk k) bytes) ∧
      ChunksFlushed x id chunk (k + 1) (n.afterRound x id chunk s (chunkPacket id chunk k) bytes) ∧
      SealedBy P c x (chunkPacket id chunk k) bytes ∧
      s.arq = (n.peers.sess x).arq.onSent k bytes now := by
  obtain ⟨⟨hkeys, ⟨stream, hget, hbuf, hfin, hoff, hmax⟩, hidle, hconsumed, hlimit⟩, hlog, hwire⟩ := h
  have hk := lt_of_room hne hroom
  rw [Nat.succ_mul] at hroom
  have hnum : (n.peers.sess x).encoder.nextPktNum = UInt64.ofNat k := by
    rw [ha.next x, hlog]
  -- the write
  set stream1 : Stream := { stream with
    sendBuf := stream.sendBuf ++ chunk
    sendOffset := stream.sendOffset + chunk.length } with hstream1
  set s1 : Session := { n.peers.sess x with
    sendWindow := { (n.peers.sess x).sendWindow with
      consumed := (n.peers.sess x).sendWindow.consumed + chunk.length }
    streams := (n.peers.sess x).streams.insert id stream1 } with hs1
  have hsend : (n.peers.sess x).send id chunk = (.ok (), s1) := send_eq_ok hget hfin
    (by rw [hoff, hmax]; exact (min_le_left _ _).trans hroom)
    (by rw [hconsumed, hlimit]; exact hroom)
  have hget1 : s1.streams.get? id = some stream1 := get?_insert_self _ _ _
  have hkeys1 : s1.streams.keys = [id] :=
    (keys_insert_of_get?_eq_some _ _ _ _ hget).trans hkeys
  have hbuf1 : stream1.sendBuf = chunk := by
    simp [hstream1, hbuf]
  -- the packet
  have hframe : streamFrame false id (stream1.sendOffset - stream1.sendBuf.length) stream1.sendBuf
      = streamFrame false id (k * chunk.length) chunk := by
    rw [hbuf1, hstream1, Nat.add_sub_cancel, hoff]
  obtain ⟨bytes, hseal⟩ : ∃ bytes, sealPacket P s1.encoder.keys s1.encoder.sessionId
      s1.encoder.nextPktNum .data (streamFrame false id (k * chunk.length) chunk) = .ok bytes := by
    refine sealPacket_eq_ok hP ?_
    unfold maxPayload at hlen
    rw [length_streamFrame]
    omega
  have hflush := flushed_single hP now hget1 (by rw [hbuf1]; exact hne)
    (by rw [hbuf1]; exact hlen) hfin ⟨hidle.1, hidle.2, hidle.3, hidle.4, hidle.5⟩
    (by rw [hframe]; exact hseal)
  rw [hframe, show s1.encoder.nextPktNum = _ from hnum] at hflush
  have hsealed : SealedBy P c x (chunkPacket id chunk k) bytes := hw.sealedBy (hnum ▸ hseal)
  have hnext : s1.encoder.nextPktNum.toNat = k := by
    rw [show s1.encoder.nextPktNum = UInt64.ofNat k from hnum, UInt64.toNat_ofNat',
      Nat.mod_eq_of_lt hk]
  refine ⟨_, _, exec_sendRound hsend hkeys1 hflush, ?_, hsealed, ?_⟩
  · have hwrote : (s1.sentChunk id stream1 bytes now).WroteChunks id chunk (k + 1) := by
      refine ⟨(keys_insert_of_get?_eq_some _ _ _ _ hget1).trans hkeys1,
        ⟨_, get?_insert_self _ _ _, rfl, hfin, ?_, hmax⟩,
        ⟨hidle.1, hidle.2, hidle.3, hidle.4, hidle.5⟩, ?_, hlimit⟩
      · rw [Nat.succ_mul, ← hoff]
      · rw [Nat.succ_mul, ← hconsumed]
        rfl
    unfold afterRound
    refine ⟨?_, ?_, ?_⟩
    all_goals dsimp only
    all_goals rw [update_self]
    · exact hwrote
    · simp [hlog]
    · simp [hwire]
  · rw [sentChunk, hnext]

variable {n' : Network}

theorem ChunksSent.of_flushed (h : ChunksSent P c x id chunk k n)
    (hf : ChunksFlushed x id chunk (k + 1) n') (hwire : n'.wire x = n.wire x ++ [bytes])
    (hseal : SealedBy P c x (chunkPacket id chunk k) bytes)
    (harq : (n'.peers.sess x).arq = (n.peers.sess x).arq.onSent k bytes now) :
    ChunksSent P c x id chunk (k + 1) n' := by
  refine ⟨hf, fun i hi => ?_, fun i hi => ?_⟩
  · rw [hwire]
    rcases Nat.lt_succ_iff_lt_or_eq.mp hi with hlt | rfl
    · obtain ⟨b, hb, hs⟩ := h.sealed i hlt
      exact ⟨b, by rw [getElem?_append_left (by rw [h.wire]; exact hlt), hb], hs⟩
    · refine ⟨bytes, ?_, hseal⟩
      simp [h.wire]
  · simp only [harq, ArqTracker.onSent, mem_keys_iff, get?_insert]
    rcases Nat.lt_succ_iff_lt_or_eq.mp hi with hlt | rfl
    · rw [if_neg (by omega), ← mem_keys_iff]
      exact h.inFlight i hlt
    · exact ⟨_, if_pos rfl⟩

theorem ChunksSent.round (hP : P.Lawful) (hw : Wired P c n) (ha : Accounted n.peers)
    (h : ChunksSent P c x id chunk k n) (hne : chunk ≠ []) (hlen : chunk.length ≤ maxPayload - 14)
    (hroom : (k + 1) * chunk.length ≤ defaultWindow) (now : Nat) :
    ∃ s bytes, exec (step P) n (sendRound x id chunk now)
        = some (n.afterRound x id chunk s (chunkPacket id chunk k) bytes) ∧
      ChunksSent P c x id chunk (k + 1) (n.afterRound x id chunk s (chunkPacket id chunk k) bytes) := by
  obtain ⟨s, bytes, hrun, hf, hseal, harq⟩ := h.toChunksFlushed.round hP hw ha hne hlen hroom now
  exact ⟨s, bytes, hrun, h.of_flushed hf (update_self _ _ _) hseal
    ((congrArg arq (update_self _ _ _)).trans harq)⟩

def sendRounds (x : Role) (id : Nat) (chunk : Bytes) : Nat → List NetEvent
  | 0 => []
  | k + 1 => sendRounds x id chunk k ++ sendRound x id chunk 0

theorem wired_accounted (hP : P.Lawful) {evs : List NetEvent} (hw : Wired P c n)
    (ha : Accounted n.peers) (hrun : exec (step P) n evs = some n') :
    Wired P c n' ∧ Accounted n'.peers :=
  exec_invariant (fun n => Wired P c n ∧ Accounted n.peers)
    (fun _ _ _ h hs => ⟨wired_step hP h.1 hs, h.2.step hP h.1 hs⟩) ⟨hw, ha⟩ hrun

/-- **Many rounds of the sending side**, as long as the windows allow. The other side does not
notice. -/
theorem ChunksSent.rounds (hP : P.Lawful) (hw : Wired P c n) (ha : Accounted n.peers)
    (h : ChunksSent P c x id chunk 0 n) (hne : chunk ≠ []) (hlen : chunk.length ≤ maxPayload - 14)
    (k : Nat) (hroom : k * chunk.length ≤ defaultWindow) :
    ∃ n', exec (step P) n (sendRounds x id chunk k) = some n' ∧ ChunksSent P c x id chunk k n' ∧
      n'.peers.sess x.peer = n.peers.sess x.peer ∧ n'.peers.accepted = n.peers.accepted := by
  induction k with
  | zero => exact ⟨n, rfl, h, rfl, rfl⟩
  | succ k ih =>
    have hle : k * chunk.length ≤ defaultWindow :=
      (Nat.mul_le_mul_right _ (Nat.le_succ k)).trans hroom
    obtain ⟨n1, hrun1, h1, hsess, hacc⟩ := ih hle
    obtain ⟨hw1, ha1⟩ := wired_accounted hP hw ha hrun1
    obtain ⟨s, bytes, hrun2, h2⟩ := h1.round hP hw1 ha1 hne hlen hroom 0
    refine ⟨_, ?_, h2, ?_, hacc⟩
    · simp [sendRounds, exec_append, hrun1, hrun2]
    · rw [← hsess]
      exact update_of_ne (peer_ne x) _ _

theorem chunksSent_open (x : Role) (chunk : Bytes) (hmax : 0 < (c.limits x).maxStreams)
    (priority : Nat) : ∃ n, (init c).step P (.app x (.openStream priority)) = some n ∧
      ChunksSent P c x ((init c).peers.sess x).nextStreamId chunk 0 n ∧
      n.peers.sess x.peer = (init c).peers.sess x.peer ∧ n.peers.accepted = fun _ => [] := by
  have hopen : ((init c).peers.sess x).appCall (.openStream priority)
      = some { (init c).peers.sess x with
        nextStreamId := (((init c).peers.sess x).nextStreamId + 2) % 2 ^ 32
        streams := (∅ : SortedMap Nat Stream).insert ((init c).peers.sess x).nextStreamId
          { Stream.new ((init c).peers.sess x).nextStreamId with priority } } := by
    have hfull : ¬ ((init c).peers.sess x).limits.maxStreams
        ≤ ((init c).peers.sess x).streams.size % 2 ^ 32 := Nat.not_le.mpr hmax
    rw [appCall, tryOpenStreamWithPriority, if_neg hfull]
    rfl
  refine ⟨_, by rw [step, hopen, Option.map_some], ?_, update_of_ne (peer_ne x) _ _,
    rfl⟩
  refine ⟨⟨?_, rfl, rfl⟩, fun i hi => absurd hi (Nat.not_lt_zero i),
    fun i hi => absurd hi (Nat.not_lt_zero i)⟩
  dsimp only [setSess]
  rw [update_self]
  exact ⟨rfl, ⟨_, get?_insert_self _ _ _, rfl, rfl, (Nat.zero_mul _).symm, rfl⟩,
    ⟨rfl, rfl, rfl, rfl, rfl⟩, (Nat.zero_mul _).symm, rfl⟩

/-! ## Rounds with delivery and reading -/

/-- Side `x` has sent `k` chunks, and the other side has received and read them all and sent no window
update. -/
structure ChunksTaken (x : Role) (id : Nat) (chunk : Bytes) (k : Nat) (n : Network) : Prop where
  flushed : ChunksFlushed x id chunk k n
  took : (n.peers.sess x.peer).TookChunks id chunk k
  processed : ∀ e ∈ n.peers.log x, e ∈ n.peers.accepted x.peer
  read : ∀ i, n.peers.readOut x.peer i = n.peers.written x i

/-- What a round does apart from moving a chunk: the sender keeps the packet for retransmission, the
receiver owes an acknowledgement. -/
structure ChunkRound (P : Primitives) (c : NetworkConfig) (x : Role) (id : Nat) (chunk : Bytes)
    (k : Nat) (n n' : Network) : Prop where
  packet : ∃ bytes, n'.wire x = n.wire x ++ [bytes] ∧ SealedBy P c x (chunkPacket id chunk k) bytes ∧
    (n'.peers.sess x).arq = (n.peers.sess x).arq.onSent k bytes 0
  ackPending : (n'.peers.sess x.peer).ackRanges.ackPending = true
  arq : (n'.peers.sess x.peer).arq = (n.peers.sess x.peer).arq
  log : n'.peers.log x.peer = n.peers.log x.peer
  wire : n'.wire x.peer = n.wire x.peer
  accepted : n'.peers.accepted x = n.peers.accepted x

/-- Side `x` has sent `k` chunks, the other side has received and read them all, and has sent
nothing itself. -/
structure ChunksRead (P : Primitives) (c : NetworkConfig) (x : Role) (id : Nat) (chunk : Bytes)
    (k : Nat) (n : Network) : Prop extends ChunksTaken x id chunk k n where
  sent : ChunksSent P c x id chunk k n
  ackPending : (n.peers.sess x.peer).ackRanges.ackPending = decide (0 < k)
  silent : n.peers.log x.peer = [] ∧ n.wire x.peer = [] ∧ n.peers.accepted x = []

def fullRound (x : Role) (id : Nat) (chunk : Bytes) (k : Nat) : List NetEvent :=
  sendRound x id chunk 0 ++ [.deliver x k 0, .read x.peer id chunk.length]

theorem exec_deliver_read (hP : P.Lawful) (hw : Wired P c n) (hget : (n.wire x)[i]? = some bytes)
    (hseal : SealedBy P c x (.data, num, streamFrame false id ((n.peers.sess x.peer).streamFor id).recvOffset chunk) bytes)
    (hcheck : (n.peers.sess x.peer).decoder.replay.check num = .ok ()) (hne : chunk ≠ [])
    (hlen : chunk.length ≤ maxPayload - 14) (hid : id < 2 ^ 32)
    (hnew : (n.peers.sess x.peer).streams.get? id = none → (n.peers.sess x.peer).refuseNewStream id = none)
    (hbuf : ((n.peers.sess x.peer).streamFor id).recvBuf = ∅)
    (hmax : ((n.peers.sess x.peer).streamFor id).recvOffset + chunk.length ≤ ((n.peers.sess x.peer).streamFor id).recvMaxData)
    (h64 : ((n.peers.sess x.peer).streamFor id).recvOffset + chunk.length < 2 ^ 64) :
    ∃ events, exec (step P) n [.deliver x i 0, .read x.peer id chunk.length] = some
      { n with peers := { n.peers with
          sess := Function.update n.peers.sess x.peer ((n.peers.sess x.peer).tookChunk
            (.data, num, streamFrame false id ((n.peers.sess x.peer).streamFor id).recvOffset chunk)
            id chunk)
          accepted := Function.update n.peers.accepted x.peer ((.data, num, streamFrame false id
            ((n.peers.sess x.peer).streamFor id).recvOffset chunk) :: n.peers.accepted x.peer)
          readOut := Function.update n.peers.readOut x.peer
            (Function.update (n.peers.readOut x.peer) id (n.peers.readOut x.peer id ++ chunk))
          events } } := by
  set s := n.peers.sess x.peer with hs
  set y : Decoded := (.data, num, streamFrame false id (s.streamFor id).recvOffset chunk) with hy
  have hsmall : chunk.length < 2 ^ 16 := by
    unfold maxPayload at hlen
    omega
  have hfits : encodeBufLen y.2.2.length ≤ maxPacketLen := by
    have : (streamFrame false id (s.streamFor id).recvOffset chunk).length = 16 + chunk.length :=
      length_streamFrame _ _ _ _
    unfold maxPayload at hlen
    simp only [hy, this, encodeBufLen, headerLen, tagLen, maxPacketLen]
    omega
  -- the delivery
  obtain ⟨events, hframe⟩ : ∃ events, (s.noted y 0).handleDataFrame
      (streamFrame false id ((s.noted y 0).streamFor id).recvOffset chunk) = (.ok events,
        { (s.noted y 0).consume chunk.length with
          streams := (s.noted y 0).streams.insert id
            (((s.noted y 0).streamFor id).withChunk chunk) }) :=
    handleDataFrame_chunk hne hid hsmall hnew hmax h64
  set s2 : Session := { (s.noted y 0).consume chunk.length with
    streams := s.streams.insert id ((s.streamFor id).withChunk chunk) } with hs2
  have hacc : n.peers.accept x.peer y 0 = some (n.peers.received x.peer y (.ok events) s2) := by
    have hdisp : ((n.peers.sess x.peer).noted y 0).dispatch y.1 y.2.2 0 = some (.ok events, s2) :=
      congrArg some hframe
    simp [Peers.accept, hdisp]
  have hstep1 := step_deliver hP hw 0 hget hseal hfits hcheck
  rw [hacc, Option.map_some] at hstep1
  -- the read
  have hread : s2.read id chunk.length = some (.ok chunk, s.tookChunk y id chunk) := by
    have hget2 : s2.streams.get? id = some ((s.streamFor id).withChunk chunk) :=
      get?_insert_self _ _ _
    rw [Session.read, hget2]
    dsimp only
    rw [Stream.read_chunk hne hbuf, Option.map_some, hs2]
    dsimp only
    rw [insert_insert_self]
    rfl
  refine ⟨(n.peers.received x.peer y (.ok events) s2).events, ?_⟩
  rw [exec_cons, hstep1, Option.bind_some, exec_cons]
  simp [step, Peers.read, Peers.received, hread, exec_nil, Peers.setSess]

structure Sendable (c : NetworkConfig) (x : Role) (id : Nat) (chunk : Bytes) : Prop where
  ne_nil : chunk ≠ []
  fits : chunk.length ≤ maxPayload - 14
  id_lt : id < 2 ^ 32
  new : ∀ s : Session, s.ident = identOf c x.peer → s.streams = ∅ → s.refuseNewStream id = none

theorem ChunksTaken.round (hP : P.Lawful) (hw : Wired P c n) (ha : Accounted n.peers)
    (h : ChunksTaken x id chunk k n) (hc : Sendable c x id chunk)
    (hroom : (k + 1) * chunk.length ≤ defaultWindow) :
    ∃ n', exec (step P) n (fullRound x id chunk k) = some n' ∧
      ChunksTaken x id chunk (k + 1) n' ∧ ChunkRound P c x id chunk k n n' := by
  obtain ⟨s1, bytes, hrun1, hsent, hsealed, harq⟩ := h.flushed.round hP hw ha hc.ne_nil hc.fits hroom 0
  obtain ⟨hw1, ha1⟩ := wired_accounted hP hw ha hrun1
  set n1 := n.afterRound x id chunk s1 (chunkPacket id chunk k) bytes with hn1
  have hsess : n1.peers.sess x.peer = n.peers.sess x.peer :=
    update_of_ne (peer_ne x) _ _
  have hwin : (k + 1) * chunk.length = k * chunk.length + chunk.length := Nat.succ_mul _ _
  have hk := lt_of_room hc.ne_nil hroom
  -- the packet has a number that was not used before
  have hcheck : (n1.peers.sess x.peer).decoder.replay.check (ofNat k) = .ok () := by
    rw [hsess]
    refine ha.check_of_lt fun y hy => ?_
    have hlt := ha.number_lt (by rw [h.flushed.log]; exact hk.le) (ha.sent x y hy)
    rwa [toNat_ofNat', Nat.mod_eq_of_lt hk, ← h.flushed.log]
  have hempty : (n1.peers.sess x.peer).streams.get? id = none →
      (n1.peers.sess x.peer).streams = ∅ := by
    rw [hsess, h.took.streams]
    split_ifs
    · exact fun _ => rfl
    · rw [get?_insert_self]
      exact fun hc => nomatch hc
  have hwire1 : n1.wire x = n.wire x ++ [bytes] := update_self _ _ _
  have hb : (n1.wire x)[k]? = some bytes := by
    simp [hwire1, h.flushed.wire]
  have hseal := hsealed
  rw [chunkPacket, ← h.took.offset, ← hsess] at hseal
  obtain ⟨events, hrun2⟩ := exec_deliver_read hP hw1 hb hseal hcheck hc.ne_nil hc.fits hc.id_lt
    (fun hnone => hc.new _ (hw1.tracked.ident x.peer) (hempty hnone)) (by rw [hsess]; exact h.took.buf)
    (by rw [hsess, h.took.offset, h.took.max, ← hwin]; exact hroom)
    (by rw [hsess, h.took.offset, ← hwin]; unfold defaultWindow at hroom; omega)
  rw [hsess, h.took.offset] at hrun2
  have hx : x ≠ x.peer := (peer_ne x).symm
  refine ⟨_, by rw [fullRound, exec_append, hrun1, Option.bind_some, hrun2], ?_, ?_⟩
  · refine ⟨⟨?_, hsent.log, hsent.wire⟩, ?_, ?_, ?_⟩
    all_goals dsimp only
    · rw [update_of_ne hx]
      exact hsent.wrote
    · simpa using h.took.tookChunk _ hroom
    · intro e he
      rw [update_self]
      have he' : e ∈ n.peers.log x ++ [chunkPacket id chunk k] := by
        rwa [show n1.peers.log x = _ from update_self _ _ _] at he
      rcases mem_append.mp he' with hold | hlast
      · exact mem_cons_of_mem _ (h.processed e hold)
      · rw [mem_singleton.mp hlast]
        exact mem_cons_self
    · intro i
      rw [update_self, show n1.peers.written x = _ from update_self _ _ _]
      have hold : ∀ j, n1.peers.readOut x.peer j = n.peers.written x j := h.read
      by_cases hi : i = id
      · simp [hi, hold]
      · rw [update_of_ne hi, update_of_ne hi, hold]
  · refine
      { packet := ⟨bytes, hwire1, hsealed, ?_⟩
        ackPending := ?_, arq := ?_, accepted := update_of_ne hx _ _
        log := update_of_ne (peer_ne x) _ _
        wire := update_of_ne (peer_ne x) _ _ }
    · rw [← harq]
      exact congrArg arq
        ((update_of_ne hx _ _).trans (update_self _ _ _))
    · dsimp only
      rw [update_self, tookChunk]
      exact AckRanges.onReceived_ackPending _ _ _
    · dsimp only
      rw [update_self]
      rfl

theorem ChunksRead.round (hP : P.Lawful) (hw : Wired P c n) (ha : Accounted n.peers)
    (h : ChunksRead P c x id chunk k n) (hc : Sendable c x id chunk)
    (hroom : (k + 1) * chunk.length ≤ defaultWindow) :
    ∃ n', exec (step P) n (fullRound x id chunk k) = some n' ∧
      ChunksRead P c x id chunk (k + 1) n' := by
  obtain ⟨n', hrun, ht, hround⟩ := h.toChunksTaken.round hP hw ha hc hroom
  obtain ⟨bytes, hwire, hseal, harq⟩ := hround.packet
  refine ⟨n', hrun, ht, h.sent.of_flushed ht.flushed hwire hseal harq, ?_,
    hround.log.trans h.silent.1, hround.wire.trans h.silent.2.1,
    hround.accepted.trans h.silent.2.2⟩
  rw [hround.ackPending]
  exact (decide_eq_true (Nat.succ_pos k)).symm

def fullRounds (x : Role) (id : Nat) (chunk : Bytes) : Nat → List NetEvent
  | 0 => []
  | k + 1 => fullRounds x id chunk k ++ fullRound x id chunk k

theorem ChunksRead.rounds (hP : P.Lawful) (hw : Wired P c n) (ha : Accounted n.peers)
    (h : ChunksRead P c x id chunk 0 n) (hc : Sendable c x id chunk)
    (k : Nat) (hroom : k * chunk.length ≤ defaultWindow) :
    ∃ n', exec (step P) n (fullRounds x id chunk k) = some n' ∧ ChunksRead P c x id chunk k n' := by
  induction k with
  | zero => exact ⟨n, rfl, h⟩
  | succ k ih =>
    obtain ⟨n1, hrun1, h1⟩ := ih ((Nat.mul_le_mul_right _ (Nat.le_succ k)).trans hroom)
    obtain ⟨hw1, ha1⟩ := wired_accounted hP hw ha hrun1
    obtain ⟨n2, hrun2, h2⟩ := h1.round hP hw1 ha1 hc hroom
    exact ⟨n2, by simp [fullRounds, exec_append, hrun1, hrun2], h2⟩

theorem chunksRead_open (x : Role) (chunk : Bytes) (hmax : 0 < (c.limits x).maxStreams)
    (priority : Nat) : ∃ n, (init c).step P (.app x (.openStream priority)) = some n ∧
      ChunksRead P c x ((init c).peers.sess x).nextStreamId chunk 0 n := by
  obtain ⟨n, hopen, hsent, hsess, hacc⟩ := @chunksSent_open P c x chunk hmax priority
  obtain ⟨s, rfl⟩ : ∃ s, n = { init c with peers := (init c).peers.setSess x s } := by
    rw [step] at hopen
    obtain ⟨s, -, hn⟩ := Option.map_eq_some_iff.mp hopen
    exact ⟨s, hn.symm⟩
  have hfresh : ((init c).peers.setSess x s).sess x.peer = (init c).peers.sess x.peer := hsess
  refine ⟨_, hopen, ⟨hsent.toChunksFlushed, ?_, fun e he => (not_mem_nil he).elim, fun i => rfl⟩,
    hsent, ?_, rfl, rfl, rfl⟩
  all_goals dsimp only
  all_goals rw [hfresh]
  · exact ⟨rfl, (Nat.zero_mul _).symm, rfl, rfl, ⟨rfl, rfl⟩, (Nat.zero_mul _).symm, rfl,
      by rw [Nat.zero_mul]; rfl, rfl, rfl, rfl⟩
  · rfl

theorem ChunksTaken.mem_received (ha : Accounted n.peers) (h : ChunksTaken x id chunk (k + 1) n)
    (hk : k + 1 ≤ 2 ^ 64) (j : Nat) :
    j ∈ (n.peers.sess x.peer).ackRanges.received.keys ↔ k - ackRetainWindow ≤ j ∧ j ≤ k := by
  have hcount : (n.peers.log x).length ≤ 2 ^ 64 := by
    rw [h.flushed.log]
    exact hk
  -- the accepted numbers are those below the length of the history
  have hnum : ∀ j, (∃ y ∈ n.peers.accepted x.peer, y.2.1.toNat = j) ↔ j ≤ k := by
    intro j
    constructor
    · rintro ⟨y, hy, rfl⟩
      have := ha.number_lt hcount (ha.sent x y hy)
      rw [h.flushed.log] at this
      omega
    · intro hj
      have hlt : j < (n.peers.log x).length := by
        rw [h.flushed.log]
        omega
      refine ⟨(n.peers.log x).get ⟨j, hlt⟩, h.processed _ (get_mem _ _), ?_⟩
      exact ha.number_getElem? hcount (getElem?_eq_getElem hlt)
  set top := maxSeq (numbers (n.peers.accepted x.peer)) with htop
  have hmax : top = k := by
    obtain ⟨y, hy, hyk⟩ := (hnum k).mpr le_rfl
    have hle := toNat_le_maxSeq (mem_numbers.mpr ⟨y, hy, rfl⟩)
    have hne : numbers (n.peers.accepted x.peer) ≠ [] :=
      ne_nil_of_mem (mem_numbers.mpr ⟨y, hy, rfl⟩)
    obtain ⟨m, hm, hmtop⟩ := maxSeq_mem hne
    obtain ⟨z, hz, rfl⟩ := mem_numbers.mp hm
    have := (hnum z.2.1.toNat).mp ⟨z, hz, rfl⟩
    omega
  rw [(ha.remembers x.peer).received j, hnum j, ← htop, hmax]
  exact and_comm

theorem ChunksTaken.length_ranges (ha : Accounted n.peers) (h : ChunksTaken x id chunk (k + 1) n)
    (hk : k + 1 ≤ 2 ^ 64) : (n.peers.sess x.peer).ackRanges.ranges.length = 1 :=
  AckRanges.ranges_of_interval (Nat.sub_le k ackRetainWindow) (h.mem_received ha hk)

theorem ChunksTaken.length_frame (ha : Accounted n.peers) (h : ChunksTaken x id chunk (k + 1) n)
    (hk : k + 1 ≤ 2 ^ 64) : ((n.peers.sess x.peer).ackRanges.buildFrame 0).1.length ≤ 26 := by
  have := (n.peers.sess x.peer).ackRanges.length_buildFrame_le 0
  rwa [h.length_ranges ha hk] at this

def ackRound (x : Role) (id i : Nat) : List NetEvent :=
  [.flush x.peer 0 [id], .deliver x.peer i 0]

theorem exec_ackRound (hP : P.Lawful) (hw : Wired P c n) (ha : Accounted n.peers) {frame b : Bytes}
    {rest : List TaggedPacket} (hkeys : (n.peers.sess x.peer).streams.keys = [id])
    (hf : (n.peers.sess x.peer).flushed P 0 [id] = f) (herr : f.error = none)
    (hpackets : f.packets = ⟨true, b⟩ :: rest)
    (hseal : SealedBy P c x.peer (.ack, (n.peers.sess x.peer).encoder.nextPktNum, frame) b)
    (hframe : frame.length ≤ 16 + maxPayload) (hcount : (n.peers.log x.peer).length < 2 ^ 64) :
    ∃ n', exec (step P) n (ackRound x id (n.wire x.peer).length) = some n' ∧
      n'.peers.sess x.peer = f.sess ∧
      n'.peers.sess x = ((n.peers.sess x).noted
        (.ack, (n.peers.sess x.peer).encoder.nextPktNum, frame) 0).handleAckFrame frame 0 ∧
      n'.peers.log x = n.peers.log x ∧ n'.peers.log x.peer = n.peers.log x.peer ++ f.log ∧
      n'.wire x = n.wire x ∧
      n'.wire x.peer = n.wire x.peer ++ f.packets.map TaggedPacket.bytes ∧
      n'.peers.accepted x.peer = n.peers.accepted x.peer ∧ n'.peers.accepted x
        = (.ack, (n.peers.sess x.peer).encoder.nextPktNum, frame) :: n.peers.accepted x ∧
      n'.peers.written = n.peers.written ∧ n'.peers.readOut = n.peers.readOut := by
  have hx : x ≠ x.peer := (peer_ne x).symm
  set num := (n.peers.sess x.peer).encoder.nextPktNum with hnum
  have hstep1 := step_flush (show [id].Perm _ by rw [hkeys]) hf herr
  set n1 := ({ n with peers := n.peers.during x.peer f } : Network).transmit x.peer
    (f.packets.map TaggedPacket.bytes) with hn1
  have hw1 := wired_step hP hw hstep1
  have ha1 := ha.step hP hw hstep1
  have hsess1 : n1.peers.sess x = n.peers.sess x := update_of_ne hx _ _
  have hwire1 : n1.wire x.peer = n.wire x.peer ++ f.packets.map TaggedPacket.bytes :=
    update_self _ _ _
  have hget : (n1.wire x.peer)[(n.wire x.peer).length]? = some b := by
    simp [hwire1, hpackets]
  -- the number was not used before
  have hcheck : (n1.peers.sess x.peer.peer).decoder.replay.check num = .ok () := by
    rw [peer_peer, hsess1]
    refine ha.check_of_lt fun y hy => ?_
    rw [hnum, ha.next x.peer, toNat_ofNat', Nat.mod_eq_of_lt hcount]
    exact ha.number_lt hcount.le (ha.sent x.peer y (by rw [peer_peer]; exact hy))
  have hstep2 := step_deliver hP hw1 0 hget hseal (encodeBufLen_le hframe) hcheck
  rw [peer_peer] at hstep2
  have hacc : n1.peers.accept x (.ack, num, frame) 0 = some (n1.peers.received x (.ack, num, frame)
      (.ok []) (((n.peers.sess x).noted (.ack, num, frame) 0).handleAckFrame frame 0)) := by
    rw [accept, hsess1]
    rfl
  rw [hacc, Option.map_some] at hstep2
  have hrun : exec (step P) n (ackRound x id (n.wire x.peer).length) = some { n1 with
      peers := n1.peers.received x (.ack, num, frame) (.ok [])
        (((n.peers.sess x).noted (.ack, num, frame) 0).handleAckFrame frame 0) } := by
    simp [ackRound, exec_cons, hstep1, hstep2]
  refine ⟨_, hrun, ?_, update_self _ _ _, update_of_ne hx _ _,
    update_self _ _ _, update_of_ne hx _ _, hwire1,
    update_of_ne hx.symm _ _, update_self _ _ _, rfl, rfl⟩
  exact (update_of_ne hx.symm _ _).trans (update_self _ _ _)

def updateRound (x : Role) (id : Nat) : List NetEvent :=
  [.flush x.peer 0 [id], .deliver x.peer 0 0, .deliver x.peer 1 0]

/-- Everything written by side `x` was read, and every packet of both sides was accepted. -/
structure Quiescent (x : Role) (n : Network) : Prop where
  read : ∀ i, n.peers.readOut x.peer i = n.peers.written x i
  processed : ∀ e ∈ n.peers.log x, e ∈ n.peers.accepted x.peer
  processed' : ∀ e ∈ n.peers.log x.peer, e ∈ n.peers.accepted x

/-- **The end of a transfer of more than half a window**: everything is quiescent, and the sending
side has more than 24 MiB of credit in all. -/
theorem ChunksRead.update (hP : P.Lawful) (hw : Wired P c n) (ha : Accounted n.peers)
    (h : ChunksRead P c x id chunk (k + 1) n) (hk : k + 1 ≤ 2 ^ 64)
    (hhalf : defaultWindow < 2 * ((k + 1) * chunk.length)) :
    ∃ n', exec (step P) n (updateRound x id) = some n' ∧ Quiescent x n' ∧
      (n'.peers.sess x).streams = (n.peers.sess x).streams ∧
      (n'.peers.sess x).sendWindow.consumed = (n.peers.sess x).sendWindow.consumed ∧
      3 * 2 ^ 23 < (n'.peers.sess x).sendWindow.limit := by
  obtain ⟨hnoLog, hnoWire, hnone⟩ := h.silent
  have hpending := h.took.pending
  rw [if_neg (Nat.not_le.mpr hhalf)] at hpending
  obtain ⟨limit, hlimit, hlarge, h64⟩ := hpending
  have hnum : (n.peers.sess x.peer).encoder.nextPktNum = 0 := by
    rw [ha.next x.peer, hnoLog]
    rfl
  have hack : (n.peers.sess x.peer).ackRanges.ackPending = true :=
    h.ackPending.trans (decide_eq_true (Nat.succ_pos k))
  -- the acknowledgement
  have hframe := (h.length_frame ha hk).trans (by decide : 26 ≤ 16 + maxPayload)
  obtain ⟨b1, b2, hseal1, hseal2, hf⟩ := h.took.flushed_update hP hack hlimit (hframe.trans (by decide))
  obtain ⟨n1, hrun, hpeer, hsess, hlog, hlog', hwire, hwire', hacc, haccx, hwritten, hread⟩ :=
    exec_ackRound hP hw ha h.took.keys hf rfl rfl (hw.sealedBy hseal1) hframe (by rw [hnoLog]; decide)
  obtain ⟨hw1, ha1⟩ := wired_accounted hP hw ha hrun
  rw [hnoWire] at hrun hwire'
  rw [hnoLog] at hlog'
  rw [hnum] at hsess haccx hlog' hseal2
  rw [hnone] at haccx
  obtain ⟨arq, pendingCcAck, heq⟩ := ((n.peers.sess x).noted
    (.ack, 0, ((n.peers.sess x.peer).ackRanges.buildFrame 0).1) 0).handleAckFrame_eq
      ((n.peers.sess x.peer).ackRanges.buildFrame 0).1 0
  rw [heq] at hsess
  -- the window update
  have hcheck : (n1.peers.sess x.peer.peer).decoder.replay.check 1 = .ok () := by
    rw [peer_peer]
    refine ha1.check_of_lt fun y hy => ?_
    rw [haccx] at hy
    rw [mem_singleton.mp hy]
    exact Nat.zero_lt_one
  have hstep := step_deliver hP hw1 0 (i := 1) (by rw [hwire']; rfl)
    (show SealedBy P c x.peer (.maxData, 1, beBytes 8 limit) b2 from hw.sealedBy hseal2)
    (encodeBufLen_le (by rw [length_beBytes]; decide)) hcheck
  have hacc2 : n1.peers.accept x (.maxData, 1, beBytes 8 limit) 0
      = some (n1.peers.received x (.maxData, 1, beBytes 8 limit) (.ok [])
        { (n1.peers.sess x).noted (.maxData, 1, beBytes 8 limit) 0 with
          sendWindow := (n1.peers.sess x).sendWindow.updateLimit (beNat ((beBytes 8 limit).take 8)) }) := by
    rw [accept, dispatch]
    dsimp only
    rw [if_pos (by rw [length_beBytes])]
    rfl
  rw [peer_peer, hacc2, Option.map_some] at hstep
  have hall : exec (step P) n (updateRound x id) = n1.step P (.deliver x.peer 1 0) := by
    have happend : updateRound x id = ackRound x id ([] : List Bytes).length ++ [.deliver x.peer 1 0] :=
      rfl
    rw [happend, exec_append, hrun, Option.bind_some, exec_cons, hstep]
    rfl
  refine ⟨_, hall.trans hstep, ⟨fun i => ?_, fun e he => ?_, fun e he => ?_⟩, ?_, ?_, ?_⟩
  · dsimp only [received]
    rw [hread, hwritten]
    exact h.read i
  · dsimp only [received] at he ⊢
    rw [update_of_ne (peer_ne x), hacc]
    rw [hlog] at he
    exact h.processed e he
  · dsimp only [received] at he ⊢
    rw [update_self, haccx]
    rw [hlog'] at he
    exact (mem_cons.mp he).elim (fun h => h ▸ mem_cons_of_mem _ mem_cons_self)
      fun h => mem_singleton.mp h ▸ mem_cons_self
  all_goals dsimp only [received]
  all_goals rw [update_self]
  · show (n1.peers.sess x).streams = _
    rw [hsess]
    rfl
  · rw [FlowWindow.updateLimit_consumed, hsess]
    rfl
  · rw [FlowWindow.updateLimit_limit, take_of_length_le (by rw [length_beBytes]),
      beNat_beBytes, Nat.mod_eq_of_lt (by omega)]
    exact lt_max_of_lt_right hlarge

end Network

end SeamProtocol
