import SeamProtocol.Session.Calls

/-! # Reading frames

`read_frame`, `read_frame_opt` and `wait_for_stream` take events from one queue, and throw away those
for another stream. One event makes a reader take up to 65536 bytes, whatever else is there. -/

namespace SeamProtocol

open Lib List Option

/-! ## Contiguous data -/

namespace Stream

def contiguousFrom : Nat → List (Nat × Bytes) → Bytes
  | _, [] => []
  | recvOffset, (offset, data) :: rest =>
    if recvOffset < offset then []
    else data.drop (recvOffset - offset)
      ++ contiguousFrom (recvOffset + (data.length - (recvOffset - offset))) rest

def contiguous (s : Stream) : Bytes := contiguousFrom s.recvOffset s.recvBuf.entries

theorem contiguousFrom_readLoop {recvOffset wanted : Nat} {es : List (Nat × Bytes)} {r : ReadLoop}
    (h : readLoop recvOffset wanted es = some r)
    (hle : (contiguousFrom recvOffset es).length ≤ wanted) :
    contiguousFrom r.recvOffset (es.drop r.popped) = [] := by
  induction es generalizing recvOffset wanted r with
  | nil =>
    cases h
    rfl
  | cons e rest ih =>
    obtain ⟨offset, data⟩ := e
    simp only [readLoop] at h
    split_ifs at h with hwanted hgap
    · cases h
      rw [hwanted] at hle
      exact eq_nil_of_length_eq_zero (Nat.le_zero.mp hle)
    · cases h
      simp [contiguousFrom, hgap]
    · obtain ⟨r', hr', rfl⟩ := map_eq_some_iff.mp h
      rw [contiguousFrom, if_neg hgap, length_append, length_drop] at hle
      have htake : min (data.drop (recvOffset - offset)).length wanted
          = data.length - (recvOffset - offset) := by
        rw [length_drop]
        omega
      rw [htake] at hr'
      exact ih hr' (by omega)

variable {s s' : Stream}

theorem contiguous_read {maxBytes : Nat} {bytes : Bytes} (h : s.read maxBytes = some (bytes, s'))
    (hle : s.contiguous.length ≤ maxBytes) : s'.contiguous = [] := by
  obtain ⟨r, hr, heq⟩ := map_eq_some_iff.mp h
  cases heq
  exact contiguousFrom_readLoop hr hle

theorem contiguous_of_recvSide (h : s'.recvSide = s.recvSide) : s'.contiguous = s.contiguous := by
  have hoff : s'.recvOffset = s.recvOffset := congrArg RecvSide.recvOffset h
  have hbuf : s'.recvBuf = s.recvBuf := congrArg RecvSide.recvBuf h
  rw [contiguous, contiguous, hoff, hbuf]

theorem contiguous_receive_error {offset : Nat} {data : Bytes} {isFin : Bool} {e : SeamError}
    (h : (s.receive offset data isFin).1 = .error e) :
    (s.receive offset data isFin).2.contiguous = s.contiguous := by
  unfold receive at h ⊢
  cases isFin <;> dsimp only at h ⊢ <;> split_ifs at h ⊢ <;> rfl

end Stream

namespace Session

def contiguous (s : Session) (sid : Nat) : Bytes := (s.streamFor sid).contiguous

variable {s s' : Session}

theorem SameRecv.contiguous (h : s.SameRecv s') (sid : Nat) :
    s'.contiguous sid = s.contiguous sid := Stream.contiguous_of_recvSide (h.streamFor sid)

theorem contiguous_deliverFrame (s : Session) (isNew : Bool) (f : StreamFrame) (sid : Nat) :
    (s.deliverFrame isNew f).2.contiguous sid =
      if sid = f.streamId then ((s.streamFor f.streamId).receive f.offset f.data f.isFin).2.contiguous
      else s.contiguous sid := by
  rw [contiguous, streamFor, deliverFrame_get?]
  split_ifs with heq
  · rfl
  · rfl

theorem contiguous_onPacket {x : Decoded} {now : Nat} {res : Except SeamError (List SessionEvent)}
    (h : s.onPacket x now = some (res, s')) (sid : Nat) :
    s'.contiguous sid = s.contiguous sid ∨ ∃ events, res = .ok events ∧ .dataAvailable sid ∈ events := by
  obtain ⟨pktType, pn, payload⟩ := x
  by_cases hdata : pktType = .data
  · subst hdata
    obtain ⟨t, ht⟩ : ∃ t, { s with ackRanges := s.ackRanges.onReceived pn.toNat true now } = t := ⟨_, rfl⟩
    have hsame : ∀ sid, t.contiguous sid = s.contiguous sid := fun sid => by
      rw [← ht]
      rfl
    have hhandle : t.handleDataFrame payload = (res, s') := by
      rw [← ht]
      exact Option.some.inj h
    rcases t.handleDataFrame_cases payload with ⟨-, heq⟩ | ⟨f, e, -, -, -, heq⟩ | ⟨f, -, -, heq⟩
    · cases heq.symm.trans hhandle
      exact .inl (hsame sid)
    · cases heq.symm.trans hhandle
      exact .inl (hsame sid)
    · have hdeliver := heq.symm.trans hhandle
      have hafter := t.contiguous_deliverFrame (t.streams.get? f.streamId).isNone f sid
      rw [hdeliver] at hafter
      by_cases hsid : sid = f.streamId
      · subst hsid
        rw [if_pos rfl] at hafter
        cases hreceive : ((t.streamFor f.streamId).receive f.offset f.data f.isFin).1 with
        | error e =>
          rw [Stream.contiguous_receive_error hreceive] at hafter
          exact .inl (hafter.trans (hsame _))
        | ok u =>
          rw [deliverFrame_of_ok hreceive] at hdeliver
          cases hdeliver
          refine .inr ⟨_, rfl, ?_⟩
          exact mem_append_left _ (mem_append_right _ mem_cons_self)
      · rw [if_neg hsid] at hafter
        exact .inl (hafter.trans (hsame sid))
  · have hstreams := dispatch_streams hdata h
    left
    rw [contiguous, contiguous, streamFor, streamFor, hstreams]

variable {sid : Nat}

theorem contiguous_read {max : Nat} {res : Except SeamError Bytes}
    (h : s.read sid max = some (res, s')) (sid' : Nat) :
    (sid' ≠ sid → s'.contiguous sid' = s.contiguous sid') ∧
      ((s.contiguous sid).length ≤ max → s'.contiguous sid = []) := by
  rcases read_cases h with ⟨hnone, -, rfl⟩ | ⟨stream, bytes, stream', hget, hread, -, rfl⟩
  · refine ⟨fun _ => rfl, fun _ => ?_⟩
    rw [contiguous, streamFor, hnone]
    rfl
  · have hafter : ∀ id, { s with streams := s.streams.insert sid stream' }.streamFor id
        = if id = sid then stream' else s.streamFor id := streamFor_insert rfl
    refine ⟨fun hne => ?_, fun hle => ?_⟩
    · simp [contiguous, hafter, hne]
    · rw [contiguous, streamFor_of_get? hget] at hle
      simpa [contiguous, hafter] using Stream.contiguous_read hread hle

theorem contiguous_appCall {call : AppCall} (h : s.appCall call = some s')
    (hne : s'.contiguous sid ≠ []) : s'.contiguous sid = s.contiguous sid := by
  cases call with
  | openStream priority =>
    cases h
    unfold tryOpenStreamWithPriority at hne ⊢
    split_ifs at hne ⊢ with hfull
    · rfl
    · have hafter : { s with
          nextStreamId := (s.nextStreamId + 2) % 2 ^ 32
          streams := s.streams.insert s.nextStreamId
            { Stream.new s.nextStreamId with priority } }.streamFor sid
          = if sid = s.nextStreamId then { Stream.new s.nextStreamId with priority }
            else s.streamFor sid := streamFor_insert rfl sid
      by_cases hsid : sid = s.nextStreamId
      · rw [if_pos hsid] at hafter
        rw [contiguous, hafter] at hne
        exact absurd rfl hne
      · rw [if_neg hsid] at hafter
        rw [contiguous, hafter]
        rfl
  | finish id =>
    cases h
    exact (s.finishStream_sameRecv id).contiguous sid
  | ping | recvDatagram | drainCcAck =>
    cases h
    rfl
  | sendDatagram data =>
    obtain ⟨⟨res, t⟩, ht, rfl⟩ := map_eq_some_iff.mp h
    obtain ⟨⟨res', datagrams⟩, -, heq⟩ := map_eq_some_iff.mp ht
    cases res' <;> cases heq <;> rfl

end Session

/-! ## Calls -/

def completeFrame (buf : Bytes) : Option (Bytes × Bytes) :=
  if 4 ≤ buf.length then
    let len := beNat (buf.take 4)
    if 4 + len ≤ buf.length then some ((buf.drop 4).take len, buf.drop (4 + len)) else none
  else none

inductive ReaderCall where
  | readFrame (sid buf : Nat)
  | readFrameOpt (sid buf : Nat)
  | waitForStream
  deriving DecidableEq

inductive ReaderResult where
  | frame (bytes : Bytes)
  | finished
  | stream (sid : Nat)
  | failed
  deriving DecidableEq

def ReaderCall.source : ReaderCall → Option (Nat × Nat)
  | readFrame sid buf | readFrameOpt sid buf => some (sid, buf)
  | waitForStream => none

def ReaderCall.atEnd (call : ReaderCall) (buf : Bytes) : ReaderResult :=
  match call with
  | readFrameOpt _ _ => if buf.isEmpty then .finished else .failed
  | readFrame _ _ | waitForStream => .failed

structure FrameReader where
  session : Session
  queue : List SessionEvent
  bufs : Nat → Bytes
  call : Option ReaderCall
  taken : List Nat
  returned : List ReaderResult

inductive ReaderEvent where
  | packet (x : Decoded) (now : Nat)
  | send (streamId : Nat) (data : Bytes)
  | flush (now : Nat) (order : List Nat)
  | app (call : AppCall)
  | call (call : ReaderCall)
  | poll

namespace FrameReader

def finish (r : FrameReader) (res : ReaderResult) : FrameReader :=
  { r with call := none, returned := res :: r.returned }

def reported : Except SeamError (List SessionEvent) → List SessionEvent
  | .ok events => events.filter fun
    | .pathChallengeReceived _ | .pathResponseReceived _ => false
    | _ => true
  | .error _ => []

def take (r : FrameReader) (call : ReaderCall) : SessionEvent → Option FrameReader
  | .newStream sid =>
    let r := { r with taken := sid :: r.taken }
    some (if call = .waitForStream then r.finish (.stream sid) else r)
  | .dataAvailable s =>
    match call.source with
    | some (sid, buf) =>
      if s = sid then
        (r.session.read s 65536).map fun (res, session) =>
          match res with
          | .ok data => { r with session, bufs := Function.update r.bufs buf (r.bufs buf ++ data) }
          | .error _ => { r with session }.finish .failed
      else some r
    | none => some r
  | .streamFinished s =>
    match call.source with
    | some (sid, buf) => some (if s = sid then r.finish (call.atEnd (r.bufs buf)) else r)
    | none => some r
  | .closed =>
    match call.source with
    | some (_, buf) => some (r.finish (call.atEnd (r.bufs buf)))
    | none => some (r.finish .failed)
  | _ => some r

def ready (r : FrameReader) (call : ReaderCall) : Option (Nat × Bytes × Bytes) :=
  match call.source with
  | some (_, buf) => (completeFrame (r.bufs buf)).map fun p => (buf, p)
  | none => none

def step (P : Primitives) (r : FrameReader) : ReaderEvent → Option FrameReader
  | .packet x now =>
    (r.session.onPacket x now).map fun (res, session) =>
      { r with session, queue := r.queue ++ reported res }
  | .send streamId data => some { r with session := (r.session.send streamId data).2 }
  | .flush now order => some { r with session := (r.session.flush P now order).2 }
  | .app call => (r.session.appCall call).map fun session => { r with session }
  | .call call => if r.call = none then some { r with call := some call } else none
  | .poll =>
    match r.call with
    | none => none
    | some call =>
      match r.ready call with
      | some (buf, frame, rest) =>
        some ({ r with bufs := Function.update r.bufs buf rest }.finish (.frame frame))
      | none =>
        match r.queue with
        | [] => none
        | ev :: queue => { r with queue }.take call ev

def start (session : Session) : FrameReader := ⟨session, [], fun _ => [], none, [], []⟩

def Waits (r : FrameReader) (sid buf : Nat) : Prop :=
  ∃ call, r.call = some call ∧ call.source = some (sid, buf) ∧ r.ready call = none ∧ r.queue = []

/-- **No call waits for a frame that is there, and no new stream is lost.** -/
def Awake (r : FrameReader) : Prop :=
  (∀ sid buf, r.Waits sid buf → completeFrame (r.bufs buf ++ r.session.contiguous sid) = none) ∧
    ∀ sid ∈ r.taken, .stream sid ∈ r.returned

def reads (call : ReaderCall) (sid : Nat) : Nat :=
  match call.source with
  | some (sid', _) => if sid' = sid then 65536 else 0
  | none => 0

def mayTake (r : FrameReader) (call : ReaderCall) (queue : List SessionEvent) : SessionEvent → Bool
  | .newStream _ => call = .waitForStream
  | .dataAvailable sid =>
    .dataAvailable sid ∈ queue || (r.session.contiguous sid).length ≤ reads call sid
  | _ => true

/-- **No event is thrown away that another call would need.** -/
def prompt (r : FrameReader) : ReaderEvent → Bool
  | .poll =>
    match r.call, r.queue with
    | some call, ev :: queue => (r.ready call).isSome || r.mayTake call queue ev
    | _, _ => true
  | _ => true

/-! ## Nothing is lost -/

/-- **What is there is announced**: as long as bytes of a stream can be read, an event of it is queued. -/
structure Announced (r : FrameReader) : Prop where
  data : ∀ sid, r.session.contiguous sid ≠ [] → .dataAvailable sid ∈ r.queue
  streams : ∀ sid ∈ r.taken, .stream sid ∈ r.returned

variable {r r' : FrameReader} {call : ReaderCall} {queue : List SessionEvent} {ev : SessionEvent}
  (h : r.Announced)
include h

theorem Announced.awake : r.Awake := by
  refine ⟨fun sid buf hwaits => ?_, h.streams⟩
  obtain ⟨call, -, hsource, hready, hqueue⟩ := hwaits
  have hnone : r.session.contiguous sid = [] := by
    by_contra hne
    have hmem := h.data sid hne
    rw [hqueue] at hmem
    exact not_mem_nil hmem
  unfold ready at hready
  rw [hsource] at hready
  rw [hnone, append_nil]
  exact map_eq_none_iff.mp hready

theorem Announced.finish (res : ReaderResult) : (r.finish res).Announced :=
  ⟨h.data, fun sid hsid => mem_cons_of_mem res (h.streams sid hsid)⟩

theorem Announced.tail (hqueue : r.queue = ev :: queue)
    (hev : ∀ sid, ev = .dataAvailable sid → r.session.contiguous sid ≠ [] →
      .dataAvailable sid ∈ queue) : { r with queue }.Announced := by
  refine ⟨fun sid hne => ?_, h.streams⟩
  have hmem := h.data sid hne
  rw [hqueue] at hmem
  rcases mem_cons.mp hmem with heq | hmem
  · exact hev sid heq.symm hne
  · exact hmem

theorem Announced.read {sid : Nat} (hqueue : r.queue = .dataAvailable sid :: queue)
    (hok : .dataAvailable sid ∈ queue ∨ (r.session.contiguous sid).length ≤ 65536)
    {res : Except SeamError Bytes} {session : Session}
    (hread : r.session.read sid 65536 = some (res, session)) (bufs : Nat → Bytes) :
    { r with queue, session, bufs }.Announced := by
  refine ⟨fun sid' hne => ?_, h.streams⟩
  obtain ⟨hother, hall⟩ := Session.contiguous_read hread sid'
  by_cases hsid : sid' = sid
  · subst hsid
    rcases hok with hmem | hle
    · exact hmem
    · exact absurd (hall hle) hne
  · have hne' : r.session.contiguous sid' ≠ [] := hother hsid ▸ hne
    have hmem := h.data sid' hne'
    rw [hqueue] at hmem
    rcases mem_cons.mp hmem with heq | hmem
    · cases heq
      exact absurd rfl hsid
    · exact hmem

open FrameReader

theorem Announced.take (hqueue : r.queue = ev :: queue)
    (hok : r.mayTake call queue ev = true) (htake : { r with queue }.take call ev = some r') :
    r'.Announced := by
  cases ev with
  | newStream sid =>
    have hwait : call = .waitForStream := of_decide_eq_true hok
    simp only [take, if_pos hwait] at htake
    cases htake
    refine ⟨(h.tail hqueue nofun).data, fun sid' hsid' => ?_⟩
    rcases mem_cons.mp hsid' with rfl | hsid'
    · exact mem_cons_self
    · exact mem_cons_of_mem _ (h.streams sid' hsid')
  | dataAvailable s =>
    rw [mayTake, Bool.or_eq_true, decide_eq_true_eq, decide_eq_true_eq] at hok
    -- if nothing is read, nothing was there
    have hskip : reads call s = 0 → { r with queue }.Announced := by
      intro hzero
      refine h.tail hqueue fun sid heq hne => ?_
      cases heq
      rcases hok with hmem | hle
      · exact hmem
      · rw [hzero, Nat.le_zero, length_eq_zero_iff] at hle
        exact absurd hle hne
    unfold take at htake
    unfold reads at hskip hok
    cases hsource : call.source with
    | none =>
      rw [hsource] at htake hskip
      cases htake
      exact hskip rfl
    | some p =>
      obtain ⟨sid, buf⟩ := p
      rw [hsource] at htake hskip hok
      dsimp only at htake hskip hok
      by_cases hsid : s = sid
      · subst hsid
        rw [if_pos rfl] at htake hok
        obtain ⟨⟨res, session⟩, hread, rfl⟩ := map_eq_some_iff.mp htake
        cases res with
        | ok data => exact h.read hqueue hok hread _
        | error e => exact (h.read hqueue hok hread _).finish _
      · rw [if_neg hsid] at htake
        cases htake
        exact hskip (if_neg fun heq => hsid heq.symm)
  | streamFinished s =>
    have htail := h.tail hqueue nofun
    simp only [take] at htake
    split at htake
    · split_ifs at htake <;> cases htake
      · exact htail.finish _
      · exact htail
    · cases htake
      exact htail
  | closed =>
    have htail := h.tail hqueue nofun
    simp only [take] at htake
    split at htake <;> cases htake <;> exact htail.finish _
  | datagramReceived | sessionTicket _ | pathChallengeReceived _ | pathResponseReceived _ =>
    cases htake
    exact h.tail hqueue nofun

theorem Announced.step {P : Primitives} {e : ReaderEvent}
    (hok : r.prompt e = true) (hstep : r.step P e = some r') : r'.Announced := by
  cases e with
  | packet x now =>
    obtain ⟨⟨res, session⟩, hpacket, rfl⟩ := map_eq_some_iff.mp hstep
    refine ⟨fun sid hne => ?_, h.streams⟩
    rcases Session.contiguous_onPacket hpacket sid with hsame | ⟨events, rfl, hmem⟩
    · exact mem_append_left _ (h.data sid (hsame ▸ hne))
    · exact mem_append_right _ (mem_filter.mpr ⟨hmem, rfl⟩)
  | send streamId data =>
    cases hstep
    refine ⟨fun sid hne => h.data sid ?_, h.streams⟩
    rwa [← (r.session.send_sameRecv streamId data).contiguous sid]
  | flush now order =>
    cases hstep
    have hsess : (r.session.flush P now order).2 = (r.session.flushed P now order).sess := by
      rcases r.session.flush_cases P now order with ⟨e, -, heq⟩ | ⟨-, heq⟩ <;> rw [heq]
    refine ⟨fun sid hne => h.data sid ?_, h.streams⟩
    rwa [← (r.session.flushed_sameRecv P now order).contiguous sid, ← hsess]
  | app call =>
    obtain ⟨session, hcall, rfl⟩ := map_eq_some_iff.mp hstep
    exact ⟨fun sid hne => h.data sid (Session.contiguous_appCall hcall hne ▸ hne), h.streams⟩
  | call call =>
    simp only [FrameReader.step] at hstep
    split_ifs at hstep
    cases hstep
    exact ⟨h.data, h.streams⟩
  | poll =>
    simp only [FrameReader.step] at hstep
    unfold prompt at hok
    cases hcall : r.call with
    | none =>
      rw [hcall] at hstep
      cases hstep
    | some call =>
      have hwaiting : { r with call := some call }.Announced := ⟨h.data, h.streams⟩
      rw [hcall] at hstep hok
      dsimp only at hstep
      cases hready : r.ready call with
      | some p =>
        rw [hready] at hstep
        cases hstep
        have hbufs : { r with call := some call, bufs := Function.update r.bufs p.1 p.2.2 }.Announced :=
          ⟨h.data, h.streams⟩
        exact hbufs.finish _
      | none =>
        cases hqueue : r.queue with
        | nil =>
          rw [hready, hqueue] at hstep
          cases hstep
        | cons ev queue =>
          rw [hready, hqueue] at hstep
          rw [hqueue] at hok
          dsimp only at hok
          rw [hready] at hok
          exact hwaiting.take hqueue hok hstep

end FrameReader

/-- **No call waits for a frame that is there, and no new stream is lost**, in every state of every run
in which no event is thrown away that another call would need. -/
theorem awake_of_prompt (P : Primitives) (id : UInt64) (role : Role) (encoder : PacketEncoder)
    (decoder : PacketDecoder) (limits : SessionLimits) (es : List ReaderEvent) (r : FrameReader)
    (hrun : exec (FrameReader.step P)
      (.start (Session.withLimits id role encoder decoder limits)) es = some r)
    (hok : Meets (FrameReader.step P) (fun r e => r.prompt e = true)
      (.start (Session.withLimits id role encoder decoder limits)) es) : r.Awake := by
  refine (exec_invariant_of_meets FrameReader.Announced
    (fun s e s' hs hok hstep => hs.step hok hstep) ?_ hok hrun).awake
  exact ⟨fun sid hne => absurd rfl hne, fun sid hsid => (not_mem_nil hsid).elim⟩

def sampleServer : FrameReader :=
  .start (Session.withLimits 1 .server (PacketEncoder.new zeroKeys 1) (PacketDecoder.new zeroKeys)
    SessionLimits.default)

def framePacket (streamId : Nat) (byte : UInt8) : ReaderEvent :=
  .packet (.data, 0, streamFrame false streamId 0 [0, 0, 0, 1, byte]) 0

def promptOps : List ReaderEvent :=
  [framePacket 1 7, .call .waitForStream, .poll, .call (.readFrame 1 0), .poll, .poll]

/-- Both calls return. -/
theorem awake_one_stream :
    ∃ r, exec (FrameReader.step checksumPrimitives) sampleServer promptOps = some r ∧
      r.returned = [.frame [7], .stream 1] ∧ r.Awake := by
  refine exists_exec_of (p := fun r => r.returned = [.frame [7], .stream 1]) (by decide +kernel) ?_
  intro r hrun hr
  exact ⟨hr, awake_of_prompt checksumPrimitives 1 .server _ _ _ promptOps r hrun (by decide +kernel)⟩

def headersOps : List ReaderEvent :=
  [framePacket 1 7, framePacket 3 8, .call .waitForStream, .poll, .call .waitForStream, .poll, .poll,
    .call (.readFrame 1 0), .poll]

def openedOps : List ReaderEvent :=
  [framePacket 1 7, .call .waitForStream, .poll, .call (.readFrame 1 0), .poll, .poll, framePacket 3 8,
    .call (.readFrame 1 0), .poll]

/-- **Frames that are never read, and a stream that is never returned.** The second `wait_for_stream`
throws away the event of the first stream, and `read_frame` then waits for a frame that is there. And
`read_frame` throws away the event of a new stream. -/
theorem parallel_headers_lost :
    (∃ r, exec (FrameReader.step checksumPrimitives) sampleServer headersOps = some r ∧
      r.Waits 1 0 ∧ r.session.contiguous 1 = [0, 0, 0, 1, 7] ∧ ¬r.Awake) ∧
    ∃ r, exec (FrameReader.step checksumPrimitives) sampleServer openedOps = some r ∧
      3 ∈ r.taken ∧ .stream 3 ∉ r.returned ∧ ¬r.Awake := by
  constructor
  · refine exists_exec_of (p := fun r => r.call = some (.readFrame 1 0) ∧ r.queue = [] ∧
      r.bufs 0 = [] ∧ r.session.contiguous 1 = [0, 0, 0, 1, 7]) (by decide +kernel) ?_
    rintro r - ⟨hcall, hqueue, hbuf, hdata⟩
    have hready : r.ready (.readFrame 1 0) = none := by
      unfold FrameReader.ready
      rw [ReaderCall.source]
      dsimp only
      rw [hbuf]
      rfl
    have hwaits : r.Waits 1 0 := ⟨.readFrame 1 0, hcall, rfl, hready, hqueue⟩
    refine ⟨hwaits, hdata, fun hawake => ?_⟩
    have hnone := hawake.1 1 0 hwaits
    rw [hbuf, hdata] at hnone
    cases hnone
  · refine exists_exec_of (p := fun r => 3 ∈ r.taken ∧ .stream 3 ∉ r.returned) (by decide +kernel) ?_
    rintro r - ⟨htaken, hreturned⟩
    exact ⟨htaken, hreturned, fun hawake => hreturned (hawake.2 3 htaken)⟩

end SeamProtocol
