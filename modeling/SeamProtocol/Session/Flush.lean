import SeamProtocol.Session.Core

/-! # Flushing a session

`flush` is a sequence of emissions, one packet each, in a fixed schedule: the streams by priority, each
drained and then perhaps finished, then the datagrams, then ACK, MaxData, Pong and Ping. An emission
that has nothing to send does nothing, and after a failed encoding nothing more is done. -/

namespace SeamProtocol

open Lib List Option Session

structure TaggedPacket where
  isControl : Bool
  bytes : Bytes
  deriving DecidableEq

inductive Emission where
  | data (streamId : Nat)
  | fin (streamId : Nat)
  | datagram
  | ack
  | maxData
  | pong
  | ping
  deriving DecidableEq

structure Draft where
  pktType : PktType
  payload : Bytes
  isControl : Bool
  tracked : Bool
  grant : Option Nat
  sess : Session

namespace Session

def draft (s : Session) (now : Nat) : Emission → Option Draft
  | .data streamId => do
    let stream ← s.streams.get? streamId
    let ((offset, chunk), stream) ← stream.pollSend (maxPayload - 14)
    return ⟨.data, streamFrame false streamId offset chunk, false, true, none,
      { s with streams := s.streams.insert streamId stream }⟩
  | .fin streamId => do
    let stream ← s.streams.get? streamId
    guard stream.shouldSendFin
    return ⟨.data, streamFrame true streamId stream.sendOffset [], false, true, none,
      { s with streams := s.streams.insert streamId stream.markFinFlushed }⟩
  | .datagram => do
    let (dg, datagrams) ← s.datagrams.pollSend
    return ⟨.datagram, dg, false, false, none, { s with datagrams }⟩
  | .ack => do
    guard s.ackRanges.hasPendingAck
    let (frame, ackRanges) := s.ackRanges.buildFrame now
    return ⟨.ack, frame, true, false, none, { s with ackRanges }⟩
  | .maxData => do
    let newLimit ← s.pendingMaxData
    return ⟨.maxData, beBytes 8 newLimit, true, false, some newLimit,
      { s with pendingMaxData := none }⟩
  | .pong => do
    guard s.pendingPong
    return ⟨.pong, [], true, false, none, { s with pendingPong := false }⟩
  | .ping => do
    guard s.pendingPing
    return ⟨.ping, [], true, false, none, { s with pendingPing := false }⟩

def encodePacket (P : Primitives) (s : Session) (pktType : PktType) (payload : Bytes) :
    Except SeamError Bytes × Session :=
  match s.encoder.encode P pktType payload (List.replicate (32 + payload.length + 16) 0) with
  | (.error e, _, encoder) => (.error e, { s with encoder })
  | (.ok n, out, encoder) => (.ok (out.take n), { s with encoder })

def encodeRaw (P : Primitives) (s : Session) (pktType : PktType) (payload out : Bytes) :
    Except SeamError Nat × Bytes × Session :=
  let r := s.encoder.encode P pktType payload out
  (r.1, r.2.1, { s with encoder := r.2.2 })

end Session

def Draft.sent (d : Draft) (sess : Session) (pktNum : UInt64) (bytes : Bytes) (now : Nat) :
    Session :=
  { sess with
    arq := if d.tracked then sess.arq.onSent pktNum.toNat bytes now else sess.arq
    recvWindow := match d.grant with
      | some newLimit => sess.recvWindow.updateLimit newLimit
      | none => sess.recvWindow }

structure Flush where
  sess : Session
  packets : List TaggedPacket
  error : Option SeamError
  /-- History: type, number and payload of everything given to the encoder so far. -/
  log : List Decoded

def Flush.emit (P : Primitives) (now : Nat) (f : Flush) (em : Emission) : Flush :=
  match f.error with
  | some _ => f
  | none =>
    match f.sess.draft now em with
    | none => f
    | some d =>
      let pktNum := d.sess.encoder.peekNextPktNum
      match d.sess.encodePacket P d.pktType d.payload with
      | (.error e, sess) =>
        { f with sess, error := some e, log := f.log ++ [(d.pktType, pktNum, d.payload)] }
      | (.ok bytes, sess) =>
        { sess := d.sent sess pktNum bytes now
          packets := f.packets ++ [⟨d.isControl, bytes⟩]
          error := none
          log := f.log ++ [(d.pktType, pktNum, d.payload)] }

namespace Session

def unsent (s : Session) (streamId : Nat) : Bytes :=
  match s.streams.get? streamId with
  | some stream => stream.sendBuf
  | none => []

def priorityOf (s : Session) (streamId : Nat) : Nat :=
  match s.streams.get? streamId with
  | some stream => stream.priority
  | none => priorityDefault

/-- The emissions of a flush, given the order in which the map of streams lists its keys: a stable sort
by priority, each stream polled until its buffer is empty, then its FIN; then the datagrams, and the
control frames. -/
def schedule (s : Session) (order : List Nat) : List Emission :=
  let streamIds := order.insertionSort fun i j => s.priorityOf i ≤ s.priorityOf j
  streamIds.flatMap (fun id => List.replicate (s.unsent id).length (.data id) ++ [.fin id])
    ++ List.replicate s.datagrams.sendQueue.length .datagram ++ [.ack, .maxData, .pong, .ping]

def flushed (P : Primitives) (s : Session) (now : Nat) (order : List Nat) : Flush :=
  (s.schedule order).foldl (Flush.emit P now) ⟨s, [], none, []⟩

def flush (P : Primitives) (s : Session) (now : Nat) (order : List Nat) :
    Except SeamError (List TaggedPacket) × Session :=
  let f := s.flushed P now order
  match f.error with
  | some e => (.error e, f.sess)
  | none => (.ok f.packets, f.sess)

end Session

theorem Session.flush_cases (P : Primitives) (s : Session) (now : Nat) (order : List Nat) :
    (∃ e, (s.flushed P now order).error = some e ∧
      s.flush P now order = (.error e, (s.flushed P now order).sess)) ∨
    ((s.flushed P now order).error = none ∧
      s.flush P now order = (.ok (s.flushed P now order).packets, (s.flushed P now order).sess)) := by
  unfold flush
  dsimp only
  split
  · next e he => exact .inl ⟨e, he, rfl⟩
  · next he => exact .inr ⟨he, rfl⟩

/-! ## Emissions -/

variable {P : Primitives} {now : Nat} {s : Session}

theorem flush_invariant (I : Flush → Prop) (hemit : ∀ f em, I f → I (f.emit P now em))
    (order : List Nat) (hs : I ⟨s, [], none, []⟩) : I (s.flushed P now order) := by
  exact foldlRecOn _ _ hs fun f hf em _ => hemit f em hf

def Draft.Encoded (d : Draft) (now : Nat) (s' : Session) : Prop :=
  ∃ nextPktNum arq recvWindow,
    s' = { d.sess with encoder := { d.sess.encoder with nextPktNum }, arq, recvWindow } ∧
    (arq = d.sess.arq ∨ d.tracked = true ∧ ∃ pn bytes, arq = d.sess.arq.onSent pn bytes now)

theorem Session.encodePacket_snd (P : Primitives) (s : Session) (pktType : PktType) (payload : Bytes) :
    ∃ nextPktNum, (s.encodePacket P pktType payload).2
      = { s with encoder := { s.encoder with nextPktNum } } := by
  obtain ⟨nextPktNum, henc⟩ := PacketEncoder.encode_snd P s.encoder pktType payload
    (replicate (32 + payload.length + 16) 0)
  refine ⟨nextPktNum, ?_⟩
  rw [← henc]
  unfold encodePacket
  split <;> next heq => rw [heq]

open Flush

theorem Flush.emit_sess (P : Primitives) (now : Nat) (f : Flush) (em : Emission) :
    (f.emit P now em).sess = f.sess ∨
      ∃ d, f.sess.draft now em = some d ∧ d.Encoded now (f.emit P now em).sess := by
  unfold emit
  split
  · exact .inl rfl
  · split
    · exact .inl rfl
    · next d hd =>
        refine .inr ⟨d, hd, ?_⟩
        obtain ⟨nextPktNum, henc⟩ := d.sess.encodePacket_snd P d.pktType d.payload
        split
        · next e sess heq =>
            obtain rfl : sess = _ := (congrArg Prod.snd heq).symm.trans henc
            exact ⟨_, _, _, rfl, .inl rfl⟩
        · next bytes sess heq =>
            obtain rfl : sess = _ := (congrArg Prod.snd heq).symm.trans henc
            refine ⟨_, _, _, rfl, ?_⟩
            split_ifs with htracked
            · exact .inr ⟨htracked, _, _, rfl⟩
            · exact .inl rfl

variable (R : Session → Session → Prop)

/-- **Rule for emissions.** A relation that holds for every packet, failed or sent, holds for all of them
together. -/
theorem Flush.foldl_emit_rel (hrefl : ∀ s, R s s) (htrans : ∀ s t u, R s t → R t u → R s u)
    {ems : List Emission}
    (hdraft : ∀ em ∈ ems, ∀ s d, s.draft now em = some d → ∀ s', d.Encoded now s' → R s s')
    (f : Flush) : R f.sess (ems.foldl (emit P now) f).sess := by
  refine foldlRecOn (motive := fun g : Flush => R f.sess g.sess) _ _ (hrefl _) fun g hg em hem => ?_
  rcases g.emit_sess P now em with hsame | ⟨d, hd, henc⟩
  · rw [hsame]
    exact hg
  · exact htrans _ _ _ hg (hdraft em hem _ d hd _ henc)

theorem Session.flushed_rel (hrefl : ∀ s, R s s) (htrans : ∀ s t u, R s t → R t u → R s u)
    (hdraft : ∀ s em d, s.draft now em = some d → ∀ s', d.Encoded now s' → R s s') (s : Session)
    (order : List Nat) : R s (s.flushed P now order).sess :=
  foldl_emit_rel R hrefl htrans (fun em _ s d => hdraft s em d) ⟨s, [], none, []⟩

def Session.bumped (s : Session) : Session :=
  { s with encoder := { s.encoder with nextPktNum := s.encoder.nextPktNum + 1 } }

theorem Session.encodePacket_eq (hP : P.Lawful) (s : Session) (pktType : PktType) (payload : Bytes) :
    s.encodePacket P pktType payload =
      (sealPacket P s.encoder.keys s.encoder.sessionId s.encoder.nextPktNum pktType payload,
        s.bumped) := by
  have hsize : ¬ (replicate (32 + payload.length + 16) (0 : UInt8)).length
      < encodeBufLen payload.length := by
    simp [encodeBufLen, headerLen, tagLen]
  unfold encodePacket PacketEncoder.encode
  rw [if_neg hsize]
  cases hseal : sealPacket P s.encoder.keys s.encoder.sessionId s.encoder.nextPktNum pktType
      payload with
  | error e => rfl
  | ok packet =>
    have hlen := length_sealPacket hP hseal
    dsimp only
    rw [take_left' hlen]
    rfl

abbrev Draft.packet (P : Primitives) (d : Draft) : Except SeamError Bytes :=
  sealPacket P d.sess.encoder.keys d.sess.encoder.sessionId d.sess.encoder.nextPktNum d.pktType
    d.payload

/-- **What an emission can do**: nothing, if it has nothing to send; fail, at the cost of what it has
taken and of a packet number; or add one sealed packet. -/
theorem Flush.emit_cases (hP : P.Lawful) (now : Nat) (f : Flush) (em : Emission) :
    f.emit P now em = f ∨
    f.error = none ∧ ∃ d, f.sess.draft now em = some d ∧
      ((∃ e, d.packet P = .error e ∧
        f.emit P now em =
          { f with
            sess := d.sess.bumped
            error := some e
            log := f.log ++ [(d.pktType, d.sess.encoder.nextPktNum, d.payload)] }) ∨
      (∃ bytes, d.packet P = .ok bytes ∧
        f.emit P now em =
          { sess := d.sent d.sess.bumped d.sess.encoder.nextPktNum bytes now
            packets := f.packets ++ [⟨d.isControl, bytes⟩]
            error := none
            log := f.log ++ [(d.pktType, d.sess.encoder.nextPktNum, d.payload)] })) := by
  unfold emit
  cases herr : f.error with
  | some e => exact .inl rfl
  | none =>
    cases hd : f.sess.draft now em with
    | none => exact .inl rfl
    | some d =>
      refine .inr ⟨rfl, d, rfl, ?_⟩
      dsimp only
      rw [show d.sess.encodePacket P d.pktType d.payload = (d.packet P, d.sess.bumped) from
        encodePacket_eq hP _ _ _]
      cases hseal : d.packet P with
      | error e => exact .inl ⟨e, rfl, rfl⟩
      | ok bytes => exact .inr ⟨bytes, rfl, rfl⟩

/-! ## Drafts -/

variable {em : Emission} {d : Draft}

theorem Session.draft_cases (h : s.draft now em = some d) :
    match em with
    | .data streamId => ∃ stream seg stream', s.streams.get? streamId = some stream ∧
        stream.pollSend (maxPayload - 14) = some (seg, stream') ∧
        d = ⟨.data, streamFrame false streamId seg.1 seg.2, false, true, none,
          { s with streams := s.streams.insert streamId stream' }⟩
    | .fin streamId => ∃ stream, s.streams.get? streamId = some stream ∧
        stream.shouldSendFin = true ∧
        d = ⟨.data, streamFrame true streamId stream.sendOffset [], false, true, none,
          { s with streams := s.streams.insert streamId stream.markFinFlushed }⟩
    | .datagram => ∃ dg datagrams, s.datagrams.pollSend = some (dg, datagrams) ∧
        d = ⟨.datagram, dg, false, false, none, { s with datagrams }⟩
    | .ack => s.ackRanges.ackPending = true ∧
        d = ⟨.ack, (s.ackRanges.buildFrame now).1, true, false, none,
          { s with ackRanges := { s.ackRanges with ackPending := false } }⟩
    | .maxData => ∃ newLimit, s.pendingMaxData = some newLimit ∧
        d = ⟨.maxData, beBytes 8 newLimit, true, false, some newLimit,
          { s with pendingMaxData := none }⟩
    | .pong => d = ⟨.pong, [], true, false, none, { s with pendingPong := false }⟩
    | .ping => d = ⟨.ping, [], true, false, none, { s with pendingPing := false }⟩ := by
  cases em with
  | data streamId =>
    simp only [draft, Option.bind_eq_bind, Option.bind_eq_some_iff, Option.pure_def] at h
    obtain ⟨stream, hstream, ⟨⟨offset, chunk⟩, stream'⟩, hpoll, hd⟩ := h
    exact ⟨stream, (offset, chunk), stream', hstream, hpoll, (Option.some.inj hd).symm⟩
  | fin streamId =>
    simp only [draft, Option.bind_eq_bind, Option.bind_eq_some_iff, Option.pure_def,
      Option.guard_eq_some'] at h
    obtain ⟨stream, hstream, -, hfin, hd⟩ := h
    exact ⟨stream, hstream, hfin, (Option.some.inj hd).symm⟩
  | datagram =>
    simp only [draft, Option.bind_eq_bind, Option.bind_eq_some_iff, Option.pure_def] at h
    obtain ⟨⟨dg, datagrams⟩, hpoll, hd⟩ := h
    exact ⟨dg, datagrams, hpoll, (Option.some.inj hd).symm⟩
  | ack =>
    simp only [draft, Option.bind_eq_bind, Option.bind_eq_some_iff, Option.pure_def,
      Option.guard_eq_some'] at h
    obtain ⟨-, hpending, hd⟩ := h
    exact ⟨hpending, (Option.some.inj hd).symm⟩
  | maxData =>
    simp only [draft, Option.bind_eq_bind, Option.bind_eq_some_iff, Option.pure_def] at h
    obtain ⟨newLimit, hlimit, hd⟩ := h
    exact ⟨newLimit, hlimit, (Option.some.inj hd).symm⟩
  | pong | ping =>
    simp only [draft, Option.bind_eq_bind, Option.bind_eq_some_iff, Option.pure_def,
      Option.guard_eq_some'] at h
    obtain ⟨-, -, hd⟩ := h
    exact (Option.some.inj hd).symm

theorem Session.draft_shape (h : s.draft now em = some d) :
    (∃ id stream seg stream', em = .data id ∧ s.streams.get? id = some stream ∧
      stream.pollSend (maxPayload - 14) = some (seg, stream') ∧
      d = ⟨.data, streamFrame false id seg.1 seg.2, false, true, none,
        { s with streams := s.streams.insert id stream' }⟩) ∨
    (∃ id stream, em = .fin id ∧ s.streams.get? id = some stream ∧ stream.shouldSendFin = true ∧
      d = ⟨.data, streamFrame true id stream.sendOffset [], false, true, none,
        { s with streams := s.streams.insert id stream.markFinFlushed }⟩) ∨
    (∀ id, em ≠ .data id) ∧ d.tracked = false ∧
      d.pktType ∈ [.datagram, .ack, .maxData, .pong, .ping] ∧
      ∃ datagrams ackPending pendingMaxData pendingPong pendingPing, d.sess = { s with
        datagrams, pendingMaxData, pendingPong, pendingPing
        ackRanges := { s.ackRanges with ackPending } } := by
  have hcases := draft_cases h
  cases em with
  | data id =>
    obtain ⟨stream, seg, stream', hget, hpoll, hd⟩ := hcases
    exact .inl ⟨id, stream, seg, stream', rfl, hget, hpoll, hd⟩
  | fin id =>
    obtain ⟨stream, hget, hfin, hd⟩ := hcases
    exact .inr (.inl ⟨id, stream, rfl, hget, hfin, hd⟩)
  | datagram =>
    obtain ⟨dg, datagrams, -, rfl⟩ := hcases
    exact .inr (.inr ⟨nofun, rfl, by simp, _, _, _, _, _, rfl⟩)
  | ack =>
    obtain ⟨-, rfl⟩ := hcases
    exact .inr (.inr ⟨nofun, rfl, by simp, _, _, _, _, _, rfl⟩)
  | maxData =>
    obtain ⟨newLimit, -, rfl⟩ := hcases
    exact .inr (.inr ⟨nofun, rfl, by simp, _, _, _, _, _, rfl⟩)
  | pong | ping =>
    dsimp only at hcases
    subst hcases
    exact .inr (.inr ⟨nofun, rfl, by simp, _, _, _, _, _, rfl⟩)

/-- **Only the ACK emission gives an ACK packet**, and only it changes the record. -/
theorem Session.draft_ack (h : s.draft now em = some d) :
    (s.ackRanges.ackPending = true ∧ d = ⟨.ack, (s.ackRanges.buildFrame now).1, true, false, none,
      { s with ackRanges := { s.ackRanges with ackPending := false } }⟩) ∨
    d.sess.ackRanges = s.ackRanges ∧ d.pktType ≠ .ack := by
  have hcases := draft_cases h
  cases em with
  | ack => exact .inl hcases
  | data | fin | datagram | maxData | pong | ping =>
    right
    grind

theorem Session.draft_tracked (h : s.draft now em = some d) (ht : d.tracked = true) :
    d.pktType = .data ∧ d.payload.length ≤ 16 + maxPayload := by
  rcases draft_shape h with
    ⟨id, stream, seg, stream', -, -, hpoll, rfl⟩ | ⟨id, stream, -, -, -, rfl⟩ | ⟨-, hfalse, -⟩
  · refine ⟨rfl, ?_⟩
    have hchunk := Stream.pollSend_length_le hpoll
    simp only [length_streamFrame]
    omega
  · refine ⟨rfl, ?_⟩
    simp only [length_streamFrame, length_nil]
    omega
  · rw [hfalse] at ht
    cases ht

theorem encodeBufLen_le {len : Nat} (h : len ≤ 16 + maxPayload) : encodeBufLen len ≤ maxPacketLen := by
  simp only [encodeBufLen, headerLen, tagLen, maxPacketLen, maxPayload] at h ⊢
  omega

/-! ## A flush that succeeds sends everything -/

variable {id : Nat}

theorem Session.unsent_insert {s' : Session} {stream : Stream}
    (h : s'.streams = s.streams.insert id stream) (id' : Nat) :
    s'.unsent id' = if id' = id then stream.sendBuf else s.unsent id' := by
  unfold unsent
  rw [h, SortedMap.get?_insert]
  by_cases heq : id' = id
  · rw [if_pos heq, if_pos heq]
  · rw [if_neg heq, if_neg heq]

theorem Session.draft_unsent_le (h : s.draft now em = some d) (id : Nat) :
    (d.sess.unsent id).length ≤ (s.unsent id).length - if em = .data id then 1 else 0 := by
  rcases draft_shape h with ⟨id', stream, seg, stream', rfl, hget, hpoll, rfl⟩ |
    ⟨id', stream, rfl, hget, -, rfl⟩ | ⟨hne, -, -, _, _, _, _, _, hsess⟩
  · have hunsent : s.unsent id' = stream.sendBuf := by
      rw [unsent, hget]
    rw [unsent_insert rfl]
    by_cases heq : id = id'
    · subst heq
      rw [if_pos rfl, if_pos rfl, hunsent]
      unfold Stream.pollSend at hpoll
      split at hpoll
      · cases hpoll
      · next hne =>
          cases hpoll
          rw [length_drop]
          unfold maxPayload
          omega
    · rw [if_neg heq, if_neg fun hdata => heq (Emission.data.inj hdata).symm]
      exact le_rfl
  · rw [unsent_insert rfl]
    by_cases heq : id = id'
    · subst heq
      rw [if_pos rfl, unsent, hget]
      exact le_rfl
    · rw [if_neg heq]
      exact le_rfl
  · rw [hsess, if_neg (hne id)]
    exact le_rfl

theorem Session.unsent_of_draft_eq_none (h : s.draft now (.data id) = none) : s.unsent id = [] := by
  unfold unsent
  split
  · next stream hget =>
      simp only [draft, hget, Option.bind_eq_bind, Option.bind_some, Option.pure_def,
        Option.bind_eq_none_iff] at h
      unfold Stream.pollSend at h
      split at h
      · next hempty => exact isEmpty_iff.mp hempty
      · cases h _ rfl
  · rfl

theorem Flush.emit_unsent_le (hP : P.Lawful) (now : Nat) (f : Flush) (em : Emission) (id : Nat)
    (hok : (f.emit P now em).error = none) : f.error = none ∧
      ((f.emit P now em).sess.unsent id).length
        ≤ (f.sess.unsent id).length - if em = .data id then 1 else 0 := by
  rcases emit_cases hP now f em with hsame | ⟨herr, d, hd, ⟨e, -, heq⟩ | ⟨bytes, -, heq⟩⟩
  · rw [hsame] at hok ⊢
    refine ⟨hok, ?_⟩
    split_ifs with hem
    · -- nothing happened although there was no error, so there was nothing to send
      cases hd : f.sess.draft now em with
      | none =>
        rw [hem] at hd
        rw [unsent_of_draft_eq_none hd]
        exact Nat.zero_le _
      | some d =>
        have hlog := congrArg log hsame
        unfold emit at hlog
        rw [hok, hd] at hlog
        dsimp only at hlog
        split at hlog <;> simp at hlog
    · exact le_rfl
  · rw [heq] at hok
    cases hok
  · rw [heq]
    exact ⟨herr, draft_unsent_le hd id⟩

theorem Flush.foldl_emit_unsent_le (hP : P.Lawful) (now : Nat) (id : Nat) (ems : List Emission)
    (f : Flush) (hok : (ems.foldl (emit P now) f).error = none) :
    f.error = none ∧ ((ems.foldl (emit P now) f).sess.unsent id).length
      ≤ (f.sess.unsent id).length - ems.count (.data id) := by
  induction ems generalizing f with
  | nil => exact ⟨hok, le_rfl⟩
  | cons em ems ih =>
    obtain ⟨herr, hle⟩ := ih (f.emit P now em) hok
    obtain ⟨herr', hle'⟩ := emit_unsent_le hP now f em id herr
    refine ⟨herr', hle.trans ?_⟩
    rw [count_cons]
    by_cases hem : em = .data id
    · rw [if_pos hem] at hle'
      rw [if_pos (by simp [hem])]
      omega
    · rw [if_neg fun hbeq => hem (beq_iff_eq.mp hbeq)]
      omega

theorem Session.flushed_unsent (hP : P.Lawful) {order : List Nat}
    (hok : (s.flushed P now order).error = none) (hid : id ∈ order) :
    (s.flushed P now order).sess.unsent id = [] := by
  have hle := (foldl_emit_unsent_le hP now id _ _ hok).2
  have hcount : (s.unsent id).length ≤ (s.schedule order).count (.data id) := by
    have hmem : id ∈ order.insertionSort fun i j => s.priorityOf i ≤ s.priorityOf j :=
      (perm_insertionSort _ order).mem_iff.mpr hid
    have hsub : (replicate (s.unsent id).length (Emission.data id)).Sublist
        (s.schedule order) := by
      have hpart := sublist_flatten_of_mem (mem_map_of_mem (f := fun id =>
        replicate (s.unsent id).length (Emission.data id) ++ [.fin id]) hmem)
      exact (sublist_append_left _ _).trans (hpart.trans
        ((sublist_append_left _ _).trans (sublist_append_left _ _)))
    have hmono := hsub.count_le (.data id)
    rwa [count_replicate_self] at hmono
  refine eq_nil_of_length_eq_zero (Nat.le_zero.mp (hle.trans ?_))
  dsimp only
  omega

end SeamProtocol
