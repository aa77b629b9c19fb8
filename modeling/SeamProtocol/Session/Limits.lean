import SeamProtocol.Lib.Totals
import SeamProtocol.Session.History

/-! # Limits that no code reads

`SessionLimits` has two limits that no code reads: the packets in flight, and the bytes buffered per
stream. A stream is checked against its own limit of 16 MiB, which is a limit on offsets. -/

namespace SeamProtocol

open Lib List SortedMap

structure FullLimits extends SessionLimits where
  maxInFlightPackets : Nat
  maxRecvBufferPerStream : Nat

def FullLimits.default : FullLimits := ⟨SessionLimits.default, 10000, 4 * 1024 * 1024⟩

/-! ## Buffered bytes -/

namespace Stream

def storedElsewhere (stream : Stream) (offset : Nat) : Nat :=
  { stream with recvBuf := stream.recvBuf.erase offset }.stored

variable {stream stream' : Stream}

theorem stored_insert {offset : Nat} {data : Bytes}
    (h : stream'.recvBuf = stream.recvBuf.insert offset data) :
    stream'.stored = stream.storedElsewhere offset + data.length := by
  have hperm := (stream.recvBuf.entries_insert_perm offset data).map fun e => e.2.length
  rw [stored, h, hperm.sum_eq, map_cons, sum_cons, Nat.add_comm]
  rfl

theorem stored_le_of_dropFirst {n : Nat} (h : stream'.recvBuf = stream.recvBuf.dropFirst n) :
    stream'.stored ≤ stream.stored := by
  rw [stored, h]
  exact ((drop_sublist n stream.recvBuf.entries).map _).sum_le_sum fun _ _ => Nat.zero_le _

/-- Is a frame stored? It has data, ends beyond what was read, and ends within the receive limit. -/
def storesFrame (stream : Stream) (f : StreamFrame) : Bool :=
  !f.data.isEmpty && stream.recvOffset < (f.offset + f.data.length) % 2 ^ 64 &&
    (f.offset + f.data.length) % 2 ^ 64 ≤ stream.recvMaxData

def fits (stream : Stream) (limit : Nat) (f : StreamFrame) : Bool :=
  !stream.storesFrame f || stream.storedElsewhere f.offset + f.data.length ≤ limit

theorem receive_recvBuf (stream : Stream) (f : StreamFrame) :
    (stream.receive f.offset f.data f.isFin).2.recvBuf =
      if stream.storesFrame f then stream.recvBuf.insert f.offset f.data else stream.recvBuf := by
  obtain ⟨finReceived, ⟨hdrop, h⟩ | ⟨-, -, hbig, e, h⟩ | ⟨hne, hnew, hle, h⟩⟩ :=
    stream.receive_cases f.offset f.data f.isFin
  · have hstores : stream.storesFrame f = false := by
      rcases hdrop with hnil | hold
      · rw [storesFrame, hnil]
        rfl
      · rw [storesFrame, decide_eq_false (Nat.not_lt.mpr hold), Bool.and_false, Bool.false_and]
    rw [h, hstores]
    rfl
  · have hstores : stream.storesFrame f = false := by
      rw [storesFrame, decide_eq_false (Nat.not_le.mpr hbig), Bool.and_false]
    rw [h, hstores]
    rfl
  · have hstores : stream.storesFrame f = true := by
      rw [storesFrame, isEmpty_eq_false_iff.mpr hne, decide_eq_true hnew, decide_eq_true hle]
      rfl
    rw [h, hstores]
    rfl

theorem receive_stored_le_of_fits {limit : Nat} {f : StreamFrame} (hle : stream.stored ≤ limit)
    (hfits : stream.fits limit f = true) :
    (stream.receive f.offset f.data f.isFin).2.stored ≤ limit := by
  have hbuf := stream.receive_recvBuf f
  cases hstores : stream.storesFrame f with
  | false =>
    rw [hstores, if_neg Bool.false_ne_true] at hbuf
    rwa [stored, hbuf]
  | true =>
    rw [hstores, if_pos rfl] at hbuf
    rw [fits, hstores, Bool.not_true, Bool.false_or, decide_eq_true_eq] at hfits
    rwa [stored_insert hbuf]

end Stream

/-! ## Packets in flight -/

def Stream.pendingPackets (stream : Stream) : Nat :=
  (stream.sendBuf.length + (maxPayload - 15)) / (maxPayload - 14)
    + (stream.finSent && !stream.finFlushed).toNat

variable {stream : Stream}

theorem Stream.pollSend_pendingPackets {stream' : Stream} {seg : Nat × Bytes}
    (h : stream.pollSend (maxPayload - 14) = some (seg, stream')) :
    stream'.pendingPackets + 1 ≤ stream.pendingPackets := by
  unfold pollSend at h
  split at h
  · cases h
  · next hne =>
      cases h
      have hpos : 0 < stream.sendBuf.length :=
        length_pos_of_ne_nil fun hnil => hne (isEmpty_iff.mpr hnil)
      unfold pendingPackets maxPayload
      dsimp only
      rw [length_drop]
      omega

theorem Stream.markFinFlushed_pendingPackets (h : stream.shouldSendFin = true) :
    stream.markFinFlushed.pendingPackets + 1 ≤ stream.pendingPackets := by
  rw [shouldSendFin, Bool.and_eq_true, Bool.and_eq_true] at h
  unfold pendingPackets markFinFlushed
  simp [h.1.1, h.1.2]

namespace Session

def pendingPackets (s : Session) (ids : Finset Nat) : Nat := ∑ id ∈ ids, (s.streamFor id).pendingPackets

def Sheds (s t : Session) : Prop :=
  s.SameTable t ∧ ∀ ids : Finset Nat, (∀ id, s.streams.get? id ≠ none → id ∈ ids) →
    t.arq.inFlight.size + t.pendingPackets ids ≤ s.arq.inFlight.size + s.pendingPackets ids

theorem Sheds.refl (s : Session) : s.Sheds s := ⟨.refl s, fun _ _ => Nat.le_refl _⟩

variable {s t : Session}

theorem Sheds.trans {u : Session} (h : s.Sheds t) (h' : t.Sheds u) : s.Sheds u := by
  refine ⟨h.1.trans h'.1, fun ids hids => (h'.2 ids fun id hid => ?_).trans (h.2 ids hids)⟩
  exact hids id fun hnone => hid ((h.1.get?_eq_none_iff id).mpr hnone)

variable {ids : Finset Nat}

theorem pendingPackets_insert {id : Nat} {stream stream' : Stream}
    (hget : s.streams.get? id = some stream) (hstreams : t.streams = s.streams.insert id stream')
    (hless : stream'.pendingPackets + 1 ≤ stream.pendingPackets) (hid : id ∈ ids) :
    t.pendingPackets ids + 1 ≤ s.pendingPackets ids := by
  refine sum_add_le_sum ?_ (fun id' hne => ?_) hid
  · rw [streamFor_insert hstreams, if_pos rfl, streamFor_of_get? hget]
    exact hless
  · rw [streamFor_insert hstreams, if_neg hne]

theorem draft_sheds {now : Nat} {em : Emission} {d : Draft} (h : s.draft now em = some d)
    (hids : ∀ id, s.streams.get? id ≠ none → id ∈ ids) :
    d.sess.arq = s.arq ∧ d.sess.pendingPackets ids + d.tracked.toNat ≤ s.pendingPackets ids := by
  rcases draft_shape h with ⟨id, stream, seg, stream', -, hget, hpoll, rfl⟩ |
    ⟨id, stream, -, hget, hfin, rfl⟩ | ⟨-, htracked, -, _, _, _, _, _, hsess⟩
  · exact ⟨rfl, pendingPackets_insert hget rfl (Stream.pollSend_pendingPackets hpoll)
      (hids id (hget ▸ nofun))⟩
  · exact ⟨rfl, pendingPackets_insert hget rfl (Stream.markFinFlushed_pendingPackets hfin)
      (hids id (hget ▸ nofun))⟩
  · rw [hsess, htracked]
    exact ⟨rfl, Nat.le_refl _⟩

theorem flushed_sheds (P : Primitives) (s : Session) (now : Nat) (order : List Nat) :
    s.Sheds (s.flushed P now order).sess := by
  refine flushed_rel Sheds .refl (fun _ _ _ => .trans) ?_ s order
  rintro s em d hd _ ⟨_, arq, _, rfl, hsent⟩
  refine ⟨(draft_sameTable hd).trans (.of_streams rfl rfl rfl rfl), fun ids hids => ?_⟩
  obtain ⟨harq, hpending⟩ := draft_sheds hd hids
  show arq.inFlight.size + d.sess.pendingPackets ids ≤ _
  rw [harq] at hsent
  rcases hsent with rfl | ⟨htracked, pn, bytes, rfl⟩
  · omega
  · rw [htracked, Bool.toNat_true] at hpending
    have hinsert := s.arq.inFlight.size_insert_le pn ⟨bytes, now, 0⟩
    rw [ArqTracker.onSent]
    dsimp only
    omega

theorem Does.inFlight_le {P : Primitives} {s' : Session} {call : SessionCall} (h : s.Does P call s') :
    s'.arq.inFlight.size ≤ s.arq.inFlight.size ∨
      ∃ now order, call = .op (.flush now order) ∧
        s'.arq.inFlight.size ≤ s.arq.inFlight.size + s.pendingPackets s.streams.keys.toFinset := by
  cases h with
  | packet _ h =>
    refine .inl (size_le_of_get? fun k hk => ?_)
    rw [dispatch_inFlight h k]
    split_ifs
    · rfl
    · exact hk
  | send id data =>
    obtain ⟨streams, sendWindow, heq⟩ := s.send_eq id data
    rw [heq]
    exact .inl (Nat.le_refl _)
  | app h =>
    obtain ⟨_, _, _, _, _, rfl⟩ := appCall_eq h
    exact .inl (Nat.le_refl _)
  | read h =>
    obtain ⟨_, rfl⟩ := read_eq h
    exact .inl (Nat.le_refl _)
  | @flush now order _ =>
    have hshed := (s.flushed_sheds P now order).2 s.streams.keys.toFinset fun id hid => by
      simpa [mem_keys_iff] using Option.ne_none_iff_exists'.mp hid
    exact .inr ⟨now, order, rfl, (Nat.le_add_right _ _).trans hshed⟩
  | drain now =>
    refine .inl (size_le_of_get? fun k hk => ?_)
    have hdata := s.arq.drainExpired_data now k
    rw [hk] at hdata
    exact Option.map_eq_none_iff.mp hdata
  | refused | encode => exact .inl (Nat.le_refl _)

/-! ## Result -/

structure Within (limits : FullLimits) (s : Session) : Prop where
  buffered : ∀ id stream, s.streams.get? id = some stream → stream.stored ≤ limits.maxRecvBufferPerStream
  inFlight : s.arq.inFlight.size ≤ limits.maxInFlightPackets

end Session

/-- A frame that is stored fits into its stream's buffer, and a flush has room for every packet that the
streams can be cut into. -/
def SessionCall.withinLimits (P : Primitives) (limits : FullLimits) (s : Session) (call : SessionCall) :
    Bool :=
  (match call.frame? P s with
    | some f => (s.streamFor f.streamId).fits limits.maxRecvBufferPerStream f
    | none => true) &&
  match call with
  | .op (.flush _ _) =>
    s.arq.inFlight.size + s.pendingPackets s.streams.keys.toFinset ≤ limits.maxInFlightPackets
  | _ => true

namespace LoggedSession

variable {P : Primitives} {limits : FullLimits} {r r' : LoggedSession} {call : SessionCall}

theorem turn_stored_le (hle : ∀ id stream, r.sess.streams.get? id = some stream →
      stream.stored ≤ limits.maxRecvBufferPerStream)
    (hfits : ∀ f, call.frame? P r.sess = some f →
      (r.sess.streamFor f.streamId).fits limits.maxRecvBufferPerStream f = true) (ht : Turn P r call r') :
    ∀ id stream, r'.sess.streams.get? id = some stream →
      stream.stored ≤ limits.maxRecvBufferPerStream := by
  intro id stream hget
  cases ht with
  | quiet hframe hsame hevents =>
    obtain ⟨old, hold, n, hn⟩ := hsame.stored id stream hget
    exact (Stream.stored_le_of_dropFirst hn).trans (hle id old hold)
  | opens priority hframe hroom =>
    rw [get?_insert] at hget
    split_ifs at hget
    · cases hget
      exact Nat.zero_le _
    · exact hle id stream hget
  | @receives f sess res hframe hallow hstreams hnext hrole hlimits hres =>
    have hfor : (r.sess.streamFor f.streamId).stored ≤ limits.maxRecvBufferPerStream := by
      rw [Session.streamFor]
      cases hold : r.sess.streams.get? f.streamId with
      | none => exact Nat.zero_le _
      | some old => exact hle f.streamId old hold
    rw [received, hstreams, get?_insert] at hget
    split_ifs at hget
    · cases hget
      exact Stream.receive_stored_le_of_fits hfor (hfits f hframe)
    · exact hle id stream hget

theorem within_step (h : r.sess.Within limits) (hok : call.withinLimits P limits r.sess = true)
    (hstep : r.step P call = some r') : r'.sess.Within limits := by
  unfold SessionCall.withinLimits at hok
  rw [Bool.and_eq_true] at hok
  obtain ⟨hfits, hroom⟩ := hok
  refine ⟨turn_stored_le h.buffered (fun f hf => ?_) (turn_of_step hstep), ?_⟩
  · rw [hf] at hfits
    exact hfits
  · rcases (does_of_step hstep).inFlight_le with hle | ⟨now, order, rfl, hle⟩
    · exact hle.trans h.inFlight
    · exact hle.trans (of_decide_eq_true hroom)

end LoggedSession

/-- **Within the limits.** In every run in which every stored frame fits into its stream's buffer and
every flush has room for the packets that it can send, each stream buffers at most
`max_recv_buffer_per_stream` bytes and at most `max_in_flight_packets` packets are in flight. -/
theorem within_limits (P : Primitives) (id : UInt64) (role : Role) (encoder : PacketEncoder)
    (decoder : PacketDecoder) (limits : FullLimits) (calls : List SessionCall) (r : LoggedSession)
    (hok : Meets (LoggedSession.step P) (fun r call => call.withinLimits P limits r.sess = true)
      (.new (Session.withLimits id role encoder decoder limits.toSessionLimits)) calls)
    (hrun : exec (LoggedSession.step P)
      (.new (Session.withLimits id role encoder decoder limits.toSessionLimits)) calls = some r) :
    r.sess.Within limits := by
  refine exec_invariant_of_meets (fun r : LoggedSession => r.sess.Within limits)
    (fun _ _ _ h hok hstep => LoggedSession.within_step h hok hstep) ?_ hok hrun
  exact ⟨fun _ _ => nofun, Nat.zero_le _⟩

def smallLimits : FullLimits := ⟨SessionLimits.default, 1, 4⟩

def smallCalls : List SessionCall :=
  [.op (.app (.openStream 4)), .op (.send 1 [1, 2, 3]), .op (.flush 0 [1]),
    .packet (.data, 0, streamFrame false 1 0 [1, 2, 3, 4]) 0]

/-- One packet in flight and four bytes stored are within the limits. -/
theorem within_limits_small :
    ∃ r, exec (LoggedSession.step checksumPrimitives) (.new sampleClient.sess) smallCalls = some r ∧
      r.sess.arq.inFlight.size = 1 ∧ r.sess.Within smallLimits :=
  ⟨_, rfl, by decide +kernel, within_limits checksumPrimitives 1 .client (PacketEncoder.new zeroKeys 1)
    (PacketDecoder.new zeroKeys) smallLimits smallCalls _ (by decide +kernel) rfl⟩

/-- The session enforces neither limit: a second packet is in flight after the next flush, and a frame of
two more bytes is stored. -/
theorem limits_not_enforced :
    ∃ r stream, exec (LoggedSession.step checksumPrimitives) (.new sampleClient.sess)
        (smallCalls ++ [.op (.send 1 [4]), .op (.flush 1 [1]),
          .packet (.data, 1, streamFrame false 1 4 [5, 6]) 0]) = some r ∧
      r.sess.arq.inFlight.size = 2 ∧ smallLimits.maxInFlightPackets = 1 ∧
      r.sess.streams.get? 1 = some stream ∧ stream.stored = 6 ∧ smallLimits.maxRecvBufferPerStream = 4 :=
  ⟨_, _, rfl, by decide +kernel, rfl, rfl, by decide +kernel, rfl⟩

end SeamProtocol
