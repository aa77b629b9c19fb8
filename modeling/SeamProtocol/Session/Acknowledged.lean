import SeamProtocol.Session.Calls

/-! # Acknowledged means delivered

`receive_packet` notes a packet number for acknowledgement before it looks at the payload. When has an
acknowledged Data packet also reached its stream? -/

namespace SeamProtocol

open Lib List SortedMap Session Option

inductive SessionOp where
  | receivePacket (buf : Bytes) (now : Nat)
  | read (streamId max : Nat)
  | flush (now : Nat) (order : List Nat)
  | send (streamId : Nat) (data : Bytes)
  | app (call : AppCall)
  | drainRetransmits (now : Nat)
  | encodeRaw (pktType : PktType) (payload out : Bytes)

structure AckedRun where
  sess : Session
  /-- History: number and payload of every Data packet that passed the decoder. -/
  dataPackets : List (Nat × Bytes)
  /-- History: numbers of the packets for which `receive_packet` returned `ProtocolViolation` or
  `FlowControlBlocked`. -/
  refused : List Nat

def dataPacketOf : Except SeamError Decoded → List (Nat × Bytes)
  | .ok (.data, pn, payload) => [(pn.toNat, payload)]
  | _ => []

def refusalOf : Except SeamError Decoded → Except SeamError (List SessionEvent) → List Nat
  | .ok (_, pn, _), .error (.protocolViolation _) => [pn.toNat]
  | .ok (_, pn, _), .error (.flowControlBlocked _ _) => [pn.toNat]
  | _, _ => []

namespace AckedRun

def new (id : UInt64) (role : Role) (encoder : PacketEncoder) (decoder : PacketDecoder)
    (limits : SessionLimits) : AckedRun :=
  ⟨Session.withLimits id role encoder decoder limits, [], []⟩

def step (P : Primitives) (r : AckedRun) : SessionOp → Option AckedRun
  | .receivePacket buf now =>
    (r.sess.receivePacket P buf now).map fun (res, sess) =>
      let decoded := (r.sess.decoder.decode P buf).1
      { sess
        dataPackets := dataPacketOf decoded ++ r.dataPackets
        refused := refusalOf decoded res ++ r.refused }
  | .read streamId max => (r.sess.read streamId max).map fun (_, sess) => { r with sess }
  | .flush now order =>
    if order.Perm r.sess.streams.keys then
      some { r with sess := (r.sess.flush P now order).2 }
    else none
  | .send streamId data => some { r with sess := (r.sess.send streamId data).2 }
  | .app call => (r.sess.appCall call).map fun sess => { r with sess }
  | .drainRetransmits now => some { r with sess := (r.sess.drainRetransmits now).2 }
  | .encodeRaw pktType payload out =>
    some { r with sess := (r.sess.encodeRaw P pktType payload out).2.2 }

end AckedRun

namespace Session

/-- Does the session take in the whole frame? Its stream exists or may be opened, and its data is empty
or fits the limit and replaces no other data at the same offset. -/
def takesWhole (s : Session) (f : StreamFrame) : Bool :=
  let stream := (s.streams.get? f.streamId).getD (Stream.new f.streamId)
  ((s.streams.get? f.streamId).isSome || (s.refuseNewStream f.streamId).isNone) &&
    (f.data.isEmpty || (f.offset + f.data.length ≤ stream.recvMaxData &&
      match stream.recvBuf.get? f.offset with
      | some d => d.isPrefixOf f.data
      | none => true))

def HoldsFrame (s : Session) (f : StreamFrame) : Prop :=
  ∃ stream, s.streams.get? f.streamId = some stream ∧ stream.Holds [(f.offset, f.data)]

end Session

/-- Data packets are well formed and taken in whole, reads cut no segment, and opening a stream does not
wrap around to an id in use. -/
def AckedRun.admits (P : Primitives) (r : AckedRun) : SessionOp → Bool
  | .receivePacket buf _ =>
    match (r.sess.decoder.decode P buf).1 with
    | .ok (.data, _, payload) =>
      match parseStreamFrame payload with
      | some f => r.sess.takesWhole f
      | none => false
    | _ => true
  | .read streamId max =>
    match r.sess.streams.get? streamId with
    | some stream => !stream.cutsSegment max
    | none => true
  | .app (.openStream _) => (r.sess.streams.get? r.sess.nextStreamId).isNone
  | _ => true

/-! ## The invariant -/

def Session.DefaultLimits (s : Session) : Prop :=
  ∀ id stream, s.streams.get? id = some stream → stream.recvMaxData = Stream.defaultWindow

namespace Session

variable {s s' : Session} {f : StreamFrame}

theorem HoldsFrame.of_sameRecv (h : s.HoldsFrame f) (hsame : s.SameRecv s') : s'.HoldsFrame f := by
  obtain ⟨stream, hget, hh⟩ := h
  obtain ⟨stream', hget', hside⟩ := hsame.get? hget
  exact ⟨stream', hget', hh.of_recvSide hside⟩

theorem DefaultLimits.of_sameRecv (h : s.DefaultLimits) (hsame : s.SameRecv s') : s'.DefaultLimits := by
  intro id stream hget
  obtain ⟨stream', hget', hside⟩ := hsame.symm.get? hget
  rw [← h id stream' hget']
  exact (congrArg Stream.RecvSide.recvMaxData hside).symm

theorem DefaultLimits.getD (h : s.DefaultLimits) (id : Nat) :
    ((s.streams.get? id).getD (Stream.new id)).recvMaxData = defaultWindow := by
  cases hget : s.streams.get? id with
  | none => rfl
  | some stream => exact h id stream hget

theorem deliverFrame_holds (hlim : s.DefaultLimits) (isNew : Bool) (htake : s.takesWhole f = true) :
    (∃ events, (s.deliverFrame isNew f).1 = .ok events) ∧
      (s.deliverFrame isNew f).2.DefaultLimits ∧ (s.deliverFrame isNew f).2.HoldsFrame f ∧
      ∀ g, s.HoldsFrame g → (s.deliverFrame isNew f).2.HoldsFrame g := by
  set stream := (s.streams.get? f.streamId).getD (Stream.new f.streamId) with hstream
  have hmaxEq : stream.recvMaxData = defaultWindow := hlim.getD f.streamId
  simp only [takesWhole, ← hstream, Bool.and_eq_true, Bool.or_eq_true, decide_eq_true_eq] at htake
  have hmax : f.data ≠ [] → f.offset + f.data.length ≤ stream.recvMaxData ∧
      f.offset + f.data.length < 2 ^ 64 := by
    intro hne
    have hle := (htake.2.resolve_left fun he => hne (isEmpty_iff.mp he)).1
    refine ⟨hle, hle.trans_lt ?_⟩
    rw [hmaxEq]
    decide
  have hover : f.data ≠ [] → ∀ d, stream.recvBuf.get? f.offset = some d → d <+: f.data := by
    intro hne d hd
    have hpre := (htake.2.resolve_left fun he => hne (isEmpty_iff.mp he)).2
    rw [hd] at hpre
    exact isPrefixOf_iff_prefix.mp hpre
  have hself : ∀ acc, stream.Holds acc →
      (stream.receive f.offset f.data f.isFin).2.Holds ((f.offset, f.data) :: acc) :=
    fun acc h => h.receive f.isFin hmax hover
  have hget := s.deliverFrame_get? isNew f
  refine ⟨?_, fun id st hst => ?_, ⟨_, (hget f.streamId).trans (if_pos rfl), ?_⟩, fun g hg => ?_⟩
  · have hok := (Stream.receive_of_le f.isFin hmax).1
    unfold deliverFrame consume
    dsimp only
    rw [← hstream, hok]
    exact ⟨_, rfl⟩
  · rw [hget id] at hst
    split_ifs at hst with heq
    · cases hst
      rw [Stream.receive_recvMaxData]
      exact hmaxEq
    · exact hlim id st hst
  · exact hself [] (fun _ h => nomatch h)
  · obtain ⟨st, hst, hh⟩ := hg
    by_cases heq : g.streamId = f.streamId
    · refine ⟨_, (hget g.streamId).trans (if_pos heq), fun x hx => ?_⟩
      have hsame : stream = st := by
        rw [hstream, ← heq, hst]
        rfl
      exact hself _ (hsame ▸ hh) x (mem_cons_of_mem _ hx)
    · exact ⟨st, by rw [hget, if_neg heq, hst], hh⟩

theorem openStream_holds (hlim : s.DefaultLimits) (priority : Nat)
    (hfresh : s.streams.get? s.nextStreamId = none) :
    (s.tryOpenStreamWithPriority priority).2.DefaultLimits ∧
      ∀ f, s.HoldsFrame f → (s.tryOpenStreamWithPriority priority).2.HoldsFrame f := by
  unfold tryOpenStreamWithPriority
  split_ifs with hfull
  · exact ⟨hlim, fun f hf => hf⟩
  · refine ⟨fun id stream hget => ?_, fun f hf => ?_⟩
    · rw [get?_insert] at hget
      split_ifs at hget with heq
      · cases hget
        rfl
      · exact hlim id stream hget
    · obtain ⟨stream, hget, hh⟩ := hf
      have hne : f.streamId ≠ s.nextStreamId := by
        intro heq
        rw [heq, hfresh] at hget
        cases hget
      exact ⟨stream, by rw [get?_insert_of_ne _ _ hne, hget], hh⟩

theorem read_holds (hlim : s.DefaultLimits) {id max : Nat} {r : Except SeamError Bytes}
    (h : s.read id max = some (r, s'))
    (hcut : ∀ stream, s.streams.get? id = some stream → stream.cutsSegment max = false) :
    s'.DefaultLimits ∧ ∀ f, s.HoldsFrame f → s'.HoldsFrame f := by
  rcases read_cases h with ⟨-, -, rfl⟩ | ⟨stream, bytes, stream', hget, hread, -, rfl⟩
  · exact ⟨hlim, fun f hf => hf⟩
  · refine ⟨fun id' st hst => ?_, fun f hf => ?_⟩
    · rw [get?_insert] at hst
      split_ifs at hst with heq
      · cases hst
        obtain ⟨popped, rfl⟩ := Stream.read_eq_some hread
        exact hlim id stream hget
      · exact hlim id' st hst
    · obtain ⟨st, hst, hh⟩ := hf
      by_cases heq : f.streamId = id
      · rw [heq, hget] at hst
        cases hst
        exact ⟨stream', by rw [heq, get?_insert_self], hh.read hread (hcut stream hget)⟩
      · exact ⟨st, by rw [get?_insert_of_ne _ _ heq, hst], hh⟩

end Session

namespace AckedRun

structure Inv (r : AckedRun) : Prop where
  limits : r.sess.DefaultLimits
  /-- Every Data packet was well formed, and its bytes are held. -/
  held : ∀ p ∈ r.dataPackets, ∃ f, parseStreamFrame p.2 = some f ∧ r.sess.HoldsFrame f
  refused : r.refused = []

theorem inv_new (id : UInt64) (role : Role) (encoder : PacketEncoder) (decoder : PacketDecoder)
    (limits : SessionLimits) : Inv (new id role encoder decoder limits) := by
  refine ⟨fun id stream h => ?_, fun p hp => ?_, rfl⟩
  · cases h
  · cases hp

variable {r : AckedRun} {sess : Session}

theorem Inv.of_holds (hi : Inv r) (hlim : sess.DefaultLimits)
    (hheld : ∀ f, r.sess.HoldsFrame f → sess.HoldsFrame f) : Inv { r with sess } := by
  refine ⟨hlim, fun p hp => ?_, hi.refused⟩
  obtain ⟨f, hparse, hf⟩ := hi.held p hp
  exact ⟨f, hparse, hheld f hf⟩

theorem Inv.of_sameRecv (hi : Inv r) (hsame : r.sess.SameRecv sess) : Inv { r with sess } :=
  hi.of_holds (hi.limits.of_sameRecv hsame) fun _ hf => hf.of_sameRecv hsame

variable {P : Primitives} {r' : AckedRun}

theorem inv_receivePacket {buf : Bytes} {now : Nat} (hi : Inv r)
    (hok : r.admits P (.receivePacket buf now) = true)
    (h : r.step P (.receivePacket buf now) = some r') : Inv r' := by
  obtain ⟨⟨res, sess⟩, hrecv, rfl⟩ := map_eq_some_iff.mp h
  rcases r.sess.receivePacket_cases P buf now with ⟨e, hdec, heq⟩ | ⟨⟨t, pn, payload⟩, hdec, heq⟩
  · -- the decoder refused: nothing changes
    rw [heq] at hrecv
    cases hrecv
    simp only [hdec, dataPacketOf, refusalOf, nil_append]
    exact hi
  · rw [heq] at hrecv
    simp only [admits, hdec] at hok
    simp only [hdec]
    by_cases ht : t = .data
    · subst ht
      dsimp only at hok
      cases hparse : parseStreamFrame payload with
      | none =>
        rw [hparse] at hok
        cases hok
      | some f =>
        simp only [hparse] at hok
        have hlim : (r.sess.noted (.data, pn, payload) now).DefaultLimits := hi.limits
        have hdeliver : ∃ isNew, (r.sess.noted (.data, pn, payload) now).handleDataFrame payload
            = (r.sess.noted (.data, pn, payload) now).deliverFrame isNew f := by
          rcases (r.sess.noted (.data, pn, payload) now).handleDataFrame_cases payload with
            ⟨hnone, -⟩ | ⟨g, e, hg, hget, hrefuse, -⟩ | ⟨g, hg, -, hdel⟩
          · rw [hparse] at hnone
            cases hnone
          · -- a refusal contradicts the condition
            rw [hparse] at hg
            cases hg
            have hget' : r.sess.streams.get? f.streamId = none := hget
            have hrefuse' : r.sess.refuseNewStream f.streamId = some e := hrefuse
            simp [Session.takesWhole, hget', hrefuse'] at hok
          · rw [hparse] at hg
            cases hg
            exact ⟨_, hdel⟩
        obtain ⟨isNew, hdel⟩ := hdeliver
        obtain ⟨⟨events, hres⟩, hlim', hf, hold⟩ :=
          deliverFrame_holds hlim isNew (show Session.takesWhole _ f = true from hok)
        have hpair : (res, sess) =
            (r.sess.noted (.data, pn, payload) now).deliverFrame isNew f := by
          rw [← hdel]
          exact (some.inj hrecv).symm
        have hres' : res = .ok events := by
          rw [← hres, ← hpair]
        have hsess : sess =
            ((r.sess.noted (.data, pn, payload) now).deliverFrame isNew f).2 := by
          rw [← hpair]
        rw [hres', hsess]
        refine ⟨hlim', fun p hp => ?_, hi.refused⟩
        rcases mem_cons.mp hp with rfl | hp
        · exact ⟨f, hparse, hf⟩
        · obtain ⟨g, hg, hgh⟩ := hi.held p hp
          exact ⟨g, hg, hold g hgh⟩
    · obtain ⟨events, rfl, -⟩ := dispatch_ok ht hrecv
      have hstreams := dispatch_streams ht hrecv
      have hnone : dataPacketOf (.ok (t, pn, payload)) = [] := by
        unfold dataPacketOf
        split
        · next hc => exact absurd (congrArg Prod.fst (Except.ok.inj hc)) ht
        · rfl
      rw [hnone]
      exact hi.of_sameRecv fun id => by rw [hstreams]; rfl

theorem inv_step {op : SessionOp} (hi : Inv r) (hok : r.admits P op = true)
    (h : r.step P op = some r') : Inv r' := by
  cases op with
  | receivePacket buf now => exact inv_receivePacket hi hok h
  | read id max =>
    obtain ⟨⟨res, sess⟩, hread, rfl⟩ := map_eq_some_iff.mp h
    obtain ⟨hlim, hheld⟩ := read_holds hi.limits hread fun stream hget => by
      simpa [admits, hget] using hok
    exact hi.of_holds hlim hheld
  | flush now order =>
    simp only [step] at h
    split at h
    · cases h
      have hsame := r.sess.flushed_sameRecv P now order
      rcases r.sess.flush_cases P now order with ⟨e, -, heq⟩ | ⟨-, heq⟩
      · rw [heq]
        exact hi.of_sameRecv hsame
      · rw [heq]
        exact hi.of_sameRecv hsame
    · cases h
  | send id data =>
    cases h
    exact hi.of_sameRecv (r.sess.send_sameRecv id data)
  | app call =>
    obtain ⟨sess, hcall, rfl⟩ := map_eq_some_iff.mp h
    by_cases hopen : ∃ p, call = .openStream p
    · obtain ⟨p, rfl⟩ := hopen
      cases hcall
      obtain ⟨hlim, hheld⟩ := openStream_holds hi.limits p (by simpa [admits] using hok)
      exact hi.of_holds hlim hheld
    · exact hi.of_sameRecv (appCall_sameRecv (fun p hp => hopen ⟨p, hp⟩) hcall)
  | drainRetransmits now | encodeRaw pktType payload out =>
    cases h
    exact hi.of_sameRecv fun id => rfl

end AckedRun

/-- **Acknowledged means delivered.** In every run whose Data packets are well formed and taken in
whole, whose reads cut no segment and whose stream ids do not wrap around: the bytes of every Data
packet due for acknowledgement are stored in their stream or were read from it, and no refused packet is
due. -/
theorem ackedRun_delivered (P : Primitives) (id : UInt64) (role : Role) (encoder : PacketEncoder)
    (decoder : PacketDecoder) (limits : SessionLimits) (ops : List SessionOp) (r : AckedRun)
    (hrun : exec (AckedRun.step P) (AckedRun.new id role encoder decoder limits) ops = some r)
    (hok : Meets (AckedRun.step P) (fun r op => r.admits P op = true)
      (AckedRun.new id role encoder decoder limits) ops) :
    (∀ pn payload, (pn, payload) ∈ r.dataPackets → pn ∈ r.sess.ackRanges.received.keys →
      ∃ f, parseStreamFrame payload = some f ∧ r.sess.HoldsFrame f) ∧
    ∀ pn ∈ r.refused, pn ∉ r.sess.ackRanges.received.keys := by
  have hi : AckedRun.Inv r := exec_invariant_of_meets AckedRun.Inv
    (fun _ _ _ hi hop hstep => AckedRun.inv_step hi hop hstep)
    (AckedRun.inv_new id role encoder decoder limits) hok hrun
  refine ⟨fun pn payload hmem _ => hi.held (pn, payload) hmem, fun pn hpn => ?_⟩
  rw [hi.refused] at hpn
  cases hpn

def sampleDataPacket (pktNum : UInt64) (streamId offset : Nat) (data : Bytes) : Bytes :=
  match sealPacket checksumPrimitives zeroKeys 1 pktNum .data
    (streamFrame false streamId offset data) with
  | .ok packet => packet
  | .error _ => []

def deliveredOps : List SessionOp :=
  [.receivePacket (sampleDataPacket 1 2 2 [3]) 0, .receivePacket (sampleDataPacket 0 2 0 [1, 2]) 1,
    .read 2 2, .flush 2 [2]]

def sampleClient : AckedRun :=
  AckedRun.new 1 .client (PacketEncoder.new zeroKeys 1) (PacketDecoder.new zeroKeys)
    SessionLimits.default

/-- The run of `deliveredOps` meets the condition; both packets are due for acknowledgement. -/
theorem ackedRun_delivered_two_segments :
    ∃ r, exec (AckedRun.step checksumPrimitives) sampleClient deliveredOps = some r ∧
      r.sess.ackRanges.received.keys = [0, 1] ∧
      ∀ pn payload, (pn, payload) ∈ r.dataPackets → pn ∈ r.sess.ackRanges.received.keys →
        ∃ f, parseStreamFrame payload = some f ∧ r.sess.HoldsFrame f :=
  ⟨_, rfl, by decide +kernel, (ackedRun_delivered checksumPrimitives 1 .client
    (PacketEncoder.new zeroKeys 1) (PacketDecoder.new zeroKeys) SessionLimits.default deliveredOps _
    rfl (by decide +kernel)).1⟩

/-- A Data packet that opens a stream of the wrong parity is refused, and is due for acknowledgement
all the same. -/
theorem refused_packet_is_acknowledged :
    ∃ r, exec (AckedRun.step checksumPrimitives) sampleClient
        [.receivePacket (sampleDataPacket 0 1 0 [7]) 0] = some r ∧
      0 ∈ r.refused ∧ 0 ∈ r.sess.ackRanges.received.keys ∧ r.sess.streams.keys = [] :=
  ⟨_, rfl, by decide +kernel, by decide +kernel, by decide +kernel⟩

end SeamProtocol
