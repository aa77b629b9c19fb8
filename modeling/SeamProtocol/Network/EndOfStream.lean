import SeamProtocol.Session.Channel
import SeamProtocol.Network.System

/-! # The end of a stream

Both directions of every stream are channels (`Session.Channel`), whatever the network does. A
`StreamFinished` event is given when a FIN frame arrives, and when any frame arrives after everything
was read. -/

namespace SeamProtocol

open Lib Function List Option Session Role Network

/-! ## The frames of a stream -/

def frameOf (e : Decoded) : Option StreamFrame :=
  if e.1 = .data then parseStreamFrame e.2.2 else none

def framesOn (id : Nat) (log : List Decoded) : List StreamFrame :=
  log.filterMap fun e => (frameOf e).filter fun f => f.streamId = id

variable {f : StreamFrame}

theorem mem_framesOn {log : List Decoded} {e : Decoded} (he : e ∈ log) (hf : frameOf e = some f) :
    f ∈ framesOn f.streamId log :=
  mem_filterMap.mpr ⟨e, he, by rw [hf]; simp⟩

namespace Peers

def frames (p : Peers) (x : Role) (id : Nat) : List StreamFrame := framesOn id (p.log x)

end Peers

namespace Session

structure IdsFit (s : Session) : Prop where
  streams : ∀ id, s.streams.get? id ≠ none → id < 2 ^ 32
  next : s.nextStreamId < 2 ^ 32

variable {s s' : Session} {id : Nat} {stream : Stream}

theorem IdsFit.insert (h : s.IdsFit) (hstreams : s'.streams = s.streams.insert id stream)
    (hid : id < 2 ^ 32) (hnext : s'.nextStreamId < 2 ^ 32) : s'.IdsFit := by
  refine ⟨fun id' hget => ?_, hnext⟩
  rw [hstreams, SortedMap.get?_insert] at hget
  split_ifs at hget with heq
  · rw [heq]
    exact hid
  · exact h.streams id' hget

theorem IdsFit.congr (h : s.IdsFit) (hstreams : s'.streams = s.streams)
    (hnext : s'.nextStreamId = s.nextStreamId) : s'.IdsFit :=
  ⟨hstreams ▸ h.streams, hnext ▸ h.next⟩

theorem IdsFit.lt (h : s.IdsFit) (hget : s.streams.get? id = some stream) : id < 2 ^ 32 :=
  h.streams id (by rw [hget]; exact some_ne_none stream)

theorem appCall_streamFor {call : AppCall} (h : s.IdsFit)
    (hfresh : ∀ priority, call = .openStream priority → s.streams.get? s.nextStreamId = none)
    (hcall : s.appCall call = some s') :
    s'.IdsFit ∧ ∀ id, (s'.streamFor id).recvSide = (s.streamFor id).recvSide ∧
      ((s'.streamFor id).sendSide = (s.streamFor id).sendSide ∨
        s'.streamFor id = (s.streamFor id).finish) := by
  rcases appCall_cases hcall with
    ⟨priority, hopen, -, rfl⟩ | ⟨id', stream, -, hget, rfl⟩ | ⟨_, _, _, rfl⟩
  · refine ⟨h.insert rfl h.next (Nat.mod_lt _ (by decide)), fun id => ?_⟩
    rw [streamFor_insert rfl]
    split_ifs with hid
    · rw [hid, streamFor, hfresh priority hopen]
      exact ⟨rfl, .inl rfl⟩
    · exact ⟨rfl, .inl rfl⟩
  · refine ⟨h.insert rfl (h.lt hget) h.next, fun id => ?_⟩
    rw [streamFor_insert rfl]
    split_ifs with hid
    · rw [hid, streamFor_of_get? hget]
      exact ⟨rfl, .inr rfl⟩
    · exact ⟨rfl, .inl rfl⟩
  · exact ⟨h.congr rfl rfl, fun id => ⟨rfl, .inl rfl⟩⟩

end Session

theorem parseStreamFrame_streamId_lt {payload : Bytes} (h : parseStreamFrame payload = some f) :
    f.streamId < 2 ^ 32 := by
  unfold parseStreamFrame at h
  dsimp only at h
  split_ifs at h with hlen
  cases h
  have hlt := leNat_lt ((payload.drop 4).take 4)
  have htake : ((payload.drop 4).take 4).length = 4 := by
    rw [length_take, length_drop]
    omega
  rw [htake] at hlt
  exact hlt

/-! ## The invariant -/

def Peers.ChannelOf (p : Peers) (x : Role) (id : Nat) : Prop :=
  Channel ((p.sess x).streamFor id) ((p.sess x.peer).streamFor id) (p.written x id)
    (p.readOut x.peer id) (p.frames x id)

structure Peers.Carried (p : Peers) : Prop where
  ids : ∀ x, (p.sess x).IdsFit
  channel : ∀ x id, p.ChannelOf x id
  announced : ∀ x id, ((p.sess x).streamFor id).finReceived ≠ none →
    .streamFinished id ∈ p.events x

namespace Peers

variable {p q : Peers} {z : Role} {s : Session}

theorem Carried.update (h : p.Carried) (hs : q.sess = Function.update p.sess z s)
    (hlog : q.log z.peer = p.log z.peer) (hwritten : q.written z.peer = p.written z.peer)
    (hreadOut : q.readOut z.peer = p.readOut z.peer) (hevents : ∀ x, p.events x ⊆ q.events x)
    (hids : s.IdsFit)
    (hsnd : ∀ id, Channel (s.streamFor id) ((p.sess z.peer).streamFor id) (q.written z id)
      (p.readOut z.peer id) (q.frames z id))
    (hrcv : ∀ id, Channel ((p.sess z.peer).streamFor id) (s.streamFor id) (p.written z.peer id)
      (q.readOut z id) (p.frames z.peer id))
    (hann : ∀ id, (s.streamFor id).finReceived ≠ none → .streamFinished id ∈ q.events z) :
    q.Carried := by
  have hself : q.sess z = s := by
    rw [hs, update_self]
  have hpeer : q.sess z.peer = p.sess z.peer := by
    simp [hs]
  have hframes : ∀ id, q.frames z.peer id = p.frames z.peer id := by
    intro id
    rw [frames, hlog, frames]
  have hcases : ∀ x : Role, x = z ∨ x = z.peer := by
    intro x
    cases x <;> cases z <;> simp [Role.peer]
  refine ⟨fun x => ?_, fun x id => ?_, fun x id hfin => ?_⟩
  · rcases hcases x with rfl | rfl
    · exact hself ▸ hids
    · exact hpeer ▸ h.ids _
  · rcases hcases x with rfl | rfl
    · rw [ChannelOf, hself, hpeer, hreadOut]
      exact hsnd id
    · rw [ChannelOf, peer_peer, hself, hpeer, hwritten, hframes]
      exact hrcv id
  · rcases hcases x with rfl | rfl
    · rw [hself] at hfin
      exact hann id hfin
    · rw [hpeer] at hfin
      exact hevents _ (h.announced _ id hfin)

theorem Carried.update_sender (h : p.Carried) (hs : q.sess = Function.update p.sess z s)
    (hlog : q.log z.peer = p.log z.peer) (hwritten : q.written z.peer = p.written z.peer)
    (hreadOut : q.readOut = p.readOut) (hevents : q.events = p.events) (hids : s.IdsFit)
    (hsame : ∀ id, (s.streamFor id).recvSide = ((p.sess z).streamFor id).recvSide)
    (hsnd : ∀ id, Channel (s.streamFor id) ((p.sess z.peer).streamFor id) (q.written z id)
      (p.readOut z.peer id) (q.frames z id)) : q.Carried := by
  refine h.update hs hlog hwritten (by rw [hreadOut])
    (fun x => by rw [hevents]; exact List.Subset.refl _) hids hsnd (fun id => ?_) fun id hfin => ?_
  · have hchannel := h.channel z.peer id
    rw [ChannelOf, peer_peer] at hchannel
    rw [hreadOut]
    exact hchannel.congr rfl (hsame id)
  · have hnoted : (s.streamFor id).finReceived = ((p.sess z).streamFor id).finReceived :=
      congrArg Stream.RecvSide.finReceived (hsame id)
    rw [hevents]
    exact h.announced z id (hnoted ▸ hfin)

theorem Carried.appCall (h : p.Carried) {call : AppCall}
    (hfresh : ∀ priority, call = .openStream priority →
      (p.sess z).streams.get? (p.sess z).nextStreamId = none)
    (hcall : (p.sess z).appCall call = some s) : (p.setSess z s).Carried := by
  obtain ⟨hids, hsides⟩ := appCall_streamFor (h.ids z) hfresh hcall
  refine h.update_sender rfl rfl rfl rfl rfl hids (fun id => (hsides id).1) fun id => ?_
  rcases (hsides id).2 with hsame | hfinish
  · exact (h.channel z id).congr hsame rfl
  · rw [hfinish]
    exact (h.channel z id).finish

theorem Carried.send (h : p.Carried) (z : Role) (id : Nat) (data : Bytes) :
    (p.send z id data).Carried := by
  have hrecv := (p.sess z).send_sameRecv id data
  have hpeer := peer_ne z
  unfold Peers.send
  rcases (p.sess z).send_cases id data with
    ⟨e, heq, -⟩ | ⟨e, s', heq, -, rfl, -⟩ | ⟨stream, hget, hfin, hmax, -, heq⟩
  · rw [heq] at hrecv ⊢
    exact h.update_sender rfl rfl rfl rfl rfl (h.ids z) hrecv.streamFor fun id => h.channel z id
  · rw [heq] at hrecv ⊢
    exact h.update_sender rfl rfl rfl rfl rfl ((h.ids z).congr rfl rfl) hrecv.streamFor
      fun id => h.channel z id
  · rw [heq] at hrecv ⊢
    refine h.update_sender rfl rfl (update_of_ne hpeer _ _) rfl rfl
      ((h.ids z).insert rfl ((h.ids z).lt hget) (h.ids z).next) hrecv.streamFor fun id' => ?_
    dsimp only [setSess]
    rw [update_self, streamFor_insert rfl]
    have hchannel := h.channel z id'
    by_cases hid : id' = id
    · subst hid
      rw [ChannelOf, streamFor_of_get? hget] at hchannel
      rw [if_pos rfl, update_self]
      exact hchannel.write hfin hmax
    · rw [if_neg hid, update_of_ne hid]
      exact hchannel

variable {id : Nat}

theorem Carried.read (h : p.Carried) {max : Nat} (hread : p.read z id max = some q) : q.Carried := by
  obtain ⟨⟨r, s⟩, hr, rfl⟩ := map_eq_some_iff.mp hread
  have hpeer := peer_ne z
  rcases read_cases hr with ⟨-, rfl, rfl⟩ | ⟨stream, bytes, stream', hget, hrd, rfl, rfl⟩
  · exact h.update_sender rfl rfl rfl rfl rfl (h.ids z) (fun id => rfl) fun id => h.channel z id
  · have hold := (p.sess z).streamFor_of_get? hget
    have hnew : ∀ id', streamFor { p.sess z with
        streams := (p.sess z).streams.insert id stream' } id'
          = if id' = id then stream' else (p.sess z).streamFor id' :=
      fun id' => streamFor_insert rfl id'
    obtain ⟨popped, rfl⟩ := Stream.read_eq_some hrd
    refine h.update rfl rfl rfl (update_of_ne hpeer _ _) (fun x => List.Subset.refl _)
      ((h.ids z).insert rfl ((h.ids z).lt hget) (h.ids z).next) (fun id' => ?_) (fun id' => ?_)
      fun id' => ?_
    · -- the send side of the stream stays
      rw [hnew]
      have hchannel := h.channel z id'
      by_cases hid : id' = id
      · subst hid
        rw [ChannelOf, hold] at hchannel
        rw [if_pos rfl]
        exact hchannel.congr rfl rfl
      · rw [if_neg hid]
        exact hchannel
    · rw [hnew]
      dsimp only [setSess]
      rw [update_self]
      have hchannel := h.channel z.peer id'
      rw [ChannelOf, peer_peer] at hchannel
      by_cases hid : id' = id
      · subst hid
        rw [hold] at hchannel
        simpa using hchannel.read hrd
      · simpa [hid] using hchannel
    · rw [hnew]
      by_cases hid : id' = id
      · subst hid
        rw [if_pos rfl, ← hold]
        exact h.announced z id'
      · rw [if_neg hid]
        exact h.announced z id'

theorem frames_snoc {e : Decoded} (hlog : q.log z = p.log z ++ [e]) (id : Nat) :
    q.frames z id = p.frames z id ++ ((frameOf e).filter fun f => f.streamId = id).toList := by
  rw [frames, framesOn, hlog, filterMap_append, frames, framesOn]
  congr 1

theorem encoded_sess (p : Peers) (z : Role) (d : Draft) (res : Except SeamError Bytes) (now : Nat) :
    ∃ s, (p.encoded z d res now).sess = Function.update p.sess z s ∧
      s.streams = d.sess.streams ∧ s.nextStreamId = d.sess.nextStreamId := by
  cases res with
  | ok bytes | error e => exact ⟨_, rfl, rfl, rfl⟩

variable {now : Nat} {d : Draft} {res : Except SeamError Bytes}

theorem Carried.encoded_frame (h : p.Carried) {stream stream' : Stream} {f : StreamFrame}
    (hget : (p.sess z).streams.get? id = some stream)
    (hsess : d.sess = { p.sess z with streams := (p.sess z).streams.insert id stream' })
    (hrecv : stream'.recvSide = stream.recvSide)
    (hframe : frameOf (d.pktType, d.sess.encoder.nextPktNum, d.payload) = some f)
    (hid : f.streamId = id)
    (hchannel : ∀ rcv out, Channel stream rcv (p.written z id) out (p.frames z id) → Channel stream' rcv (p.written z id) out (p.frames z id ++ [f])) :
    (p.encoded z d res now).Carried := by
  have hpeer := peer_ne z
  have hstreams : d.sess.streams = (p.sess z).streams.insert id stream' := by
    rw [hsess]
  obtain ⟨s, hs, hsstreams, hnext⟩ := p.encoded_sess z d res now
  rw [hstreams] at hsstreams
  rw [hsess] at hnext
  refine h.update_sender hs (update_of_ne hpeer _ _) rfl rfl rfl
    ((h.ids z).insert hsstreams ((h.ids z).lt hget) (hnext ▸ (h.ids z).next)) (fun id' => ?_)
    fun id' => ?_
  · rw [streamFor_insert hsstreams]
    split_ifs with heq
    · rw [hrecv, heq, streamFor_of_get? hget]
    · rfl
  · rw [streamFor_insert hsstreams,
      frames_snoc (p := p) (q := p.encoded z d res now) (update_self _ _ _), hframe]
    have hold := h.channel z id'
    by_cases heq : id' = id
    · subst heq
      rw [ChannelOf, streamFor_of_get? hget] at hold
      rw [if_pos rfl, filter_some, if_pos (decide_eq_true hid)]
      exact hchannel _ _ hold
    · rw [if_neg heq, filter_some, if_neg (by simpa [hid] using Ne.symm heq),
        toList_none, append_nil]
      exact hold

theorem Carried.encoded_other (h : p.Carried) (hstreams : d.sess.streams = (p.sess z).streams)
    (hnext : d.sess.nextStreamId = (p.sess z).nextStreamId) (htype : d.pktType ≠ .data) :
    (p.encoded z d res now).Carried := by
  have hpeer := peer_ne z
  obtain ⟨s, hs, hsstreams, hsnext⟩ := p.encoded_sess z d res now
  have hsame : ∀ id, s.streamFor id = (p.sess z).streamFor id := by
    intro id
    rw [streamFor, hsstreams, hstreams, streamFor]
  refine h.update_sender hs (update_of_ne hpeer _ _) rfl rfl rfl
    ((h.ids z).congr (hsstreams.trans hstreams) (hsnext.trans hnext)) (fun id' => ?_) fun id' => ?_
  · rw [hsame]
  · rw [hsame,
      frames_snoc (p := p) (q := p.encoded z d res now) (update_self _ _ _), frameOf,
      if_neg htype, filter_none, toList_none, append_nil]
    exact h.channel z id'

theorem Carried.encoded (h : p.Carried) {em : Emission} (res : Except SeamError Bytes)
    (hd : (p.sess z).draft now em = some d) : (p.encoded z d res now).Carried := by
  have hwindow := fun id => (h.channel z id).window.2
  unfold Stream.defaultWindow at hwindow
  rcases draft_shape hd with ⟨id, stream, seg, stream', -, hget, hpoll, rfl⟩ |
    ⟨id, stream, -, hget, hfin, rfl⟩ | ⟨-, -, htype, _, _, _, _, _, hsess⟩
  · have hold := h.channel z id
    rw [ChannelOf, streamFor_of_get? hget] at hold
    have hle := (hold.pollSend hpoll id).frame_le (mem_append_right _ mem_cons_self)
    have hmax := hwindow id
    have hlen := Stream.pollSend_length_le hpoll
    unfold maxPayload at hlen
    dsimp only at hle
    refine h.encoded_frame (f := ⟨id, seg.1, seg.2, false⟩) hget rfl
      (Stream.pollSend_recvSide hpoll) ?_ rfl fun rcv out hch => hch.pollSend hpoll id
    exact parseStreamFrame_streamFrame ((h.ids z).lt hget) (by omega) (by omega)
  · have hold := h.channel z id
    rw [ChannelOf, streamFor_of_get? hget] at hold
    have hmax := hwindow id
    rw [← hold.sending.offset_eq] at hmax
    refine h.encoded_frame (f := ⟨id, stream.sendOffset, [], true⟩) hget rfl rfl ?_ rfl
      fun rcv out hch => hch.sendFin hfin id
    exact parseStreamFrame_streamFrame ((h.ids z).lt hget) (by omega) (by decide)
  · refine h.encoded_other (by rw [hsess]) (by rw [hsess]) ?_
    rintro hdata
    rw [hdata] at htype
    simp at htype

variable {y : Decoded}

theorem Carried.dispatch_data (h : p.Carried) {r : Except SeamError (List SessionEvent)}
    (hlog : y ∈ p.log z.peer) (htype : y.1 = .data)
    (hdisp : ((p.sess z).noted y now).dispatch y.1 y.2.2 now = some (r, s)) :
    (s.streams = (p.sess z).streams ∧ (frameOf y = none ∧ r = .ok [] ∨
      ∃ f e, frameOf y = some f ∧ (p.sess z).streams.get? f.streamId = none ∧
        (p.sess z).refuseNewStream f.streamId = some e ∧ r = .error e)) ∨
    ∃ f stream', frameOf y = some f ∧ f ∈ p.frames z.peer f.streamId ∧
      stream' = (((p.sess z).streamFor f.streamId).receive f.offset f.data f.isFin).2 ∧
      r = .ok (frameEvents ((p.sess z).streams.get? f.streamId).isNone
        (f.isFin || stream'.isRecvFinished) f.streamId) ∧
      s.streams = (p.sess z).streams.insert f.streamId stream' := by
  rw [htype] at hdisp
  have hpair := Option.some.inj hdisp
  have hframeOf : frameOf y = parseStreamFrame y.2.2 := if_pos htype
  rcases ((p.sess z).noted y now).handleDataFrame_cases y.2.2 with
    ⟨hparse, heq⟩ | ⟨f, e, hparse, hget, hrefuse, heq⟩ | ⟨f, hparse, -, heq⟩
  · rw [heq] at hpair
    cases hpair
    exact .inl ⟨rfl, .inl ⟨hframeOf.trans hparse, rfl⟩⟩
  · rw [heq] at hpair
    cases hpair
    exact .inl ⟨rfl, .inr ⟨f, e, hframeOf.trans hparse, hget, hrefuse, rfl⟩⟩
  · right
    have hframe : frameOf y = some f := hframeOf.trans hparse
    have hmem : f ∈ p.frames z.peer f.streamId := mem_framesOn hlog hframe
    have hchannel := h.channel z.peer f.streamId
    rw [ChannelOf, peer_peer] at hchannel
    have hok : ((((p.sess z).noted y now).streamFor f.streamId).receive f.offset f.data f.isFin).1
        = .ok () := (hchannel.receive hmem).1
    rw [heq, deliverFrame_of_ok hok] at hpair
    cases hpair
    exact ⟨f, _, hframe, hmem, rfl, rfl, rfl⟩

theorem Carried.accept (h : p.Carried) (hlog : y ∈ p.log z.peer) (hacc : p.accept z y now = some q) :
    q.Carried := by
  obtain ⟨⟨r, s⟩, hdisp, rfl⟩ := map_eq_some_iff.mp hacc
  have hnext : s.nextStreamId = (p.sess z).nextStreamId := by
    obtain ⟨_, _, _, _, _, _, _, _, rfl⟩ := dispatch_eq hdisp
    rfl
  have hevents : ∀ x, p.events x ⊆ (p.received z y r s).events x := by
    intro x
    dsimp only [received]
    by_cases hx : x = z
    · simp [hx]
    · rw [update_of_ne hx]
      exact List.Subset.refl _
  -- a packet that reaches no stream
  have hother : s.streams = (p.sess z).streams → (p.received z y r s).Carried := by
    intro hstreams
    have hsame : ∀ id, s.streamFor id = (p.sess z).streamFor id := by
      intro id
      rw [streamFor, hstreams, streamFor]
    refine h.update rfl rfl rfl rfl hevents ((h.ids z).congr hstreams hnext) (fun id => ?_)
      (fun id => ?_) fun id hfin => ?_
    · rw [hsame]
      exact h.channel z id
    · have hchannel := h.channel z.peer id
      rw [ChannelOf, peer_peer] at hchannel
      rw [hsame]
      exact hchannel
    · rw [hsame] at hfin
      exact hevents z (h.announced z id hfin)
  by_cases htype : y.1 = .data
  · rcases h.dispatch_data hlog htype hdisp with
      ⟨hstreams, -⟩ | ⟨f, stream', hframe, hmem, hstream', rfl, hstreams⟩
    · exact hother hstreams
    · have hid : f.streamId < 2 ^ 32 := by
        rw [frameOf, if_pos htype] at hframe
        exact parseStreamFrame_streamId_lt hframe
      refine h.update rfl rfl rfl rfl hevents ((h.ids z).insert hstreams hid (hnext ▸ (h.ids z).next))
        (fun id => ?_) (fun id => ?_) fun id hfin => ?_
      · rw [streamFor_insert hstreams]
        have hchannel := h.channel z id
        by_cases heq : id = f.streamId
        · subst heq
          rw [if_pos rfl, hstream']
          exact hchannel.congr (Stream.receive_sendSide _ _ _ _) rfl
        · rw [if_neg heq]
          exact hchannel
      · rw [streamFor_insert hstreams]
        have hchannel := h.channel z.peer id
        rw [ChannelOf, peer_peer] at hchannel
        by_cases heq : id = f.streamId
        · subst heq
          rw [if_pos rfl, hstream']
          exact (hchannel.receive hmem).2
        · rw [if_neg heq]
          exact hchannel
      · rw [streamFor_insert hstreams] at hfin
        by_cases heq : id = f.streamId
        · subst heq
          rw [if_pos rfl, hstream', Stream.receive_finReceived] at hfin
          by_cases hisFin : f.isFin = true
          · -- the FIN is announced now
            dsimp only [received]
            simpa using mem_append_right _ (streamFinished_mem_frameEvents.mpr ⟨rfl, by rw
              [hisFin, Bool.true_or]⟩)
          · rw [if_neg hisFin] at hfin
            exact hevents z (h.announced z _ hfin)
        · rw [if_neg heq] at hfin
          exact hevents z (h.announced z id hfin)
  · have hstreams := dispatch_streams htype hdisp
    exact hother hstreams

theorem Carried.finished (h : p.Carried) {events : List SessionEvent} (hlog : y ∈ p.log z.peer)
    (hlast : ∀ f ∈ frameOf y, f.isFin = true → ((p.sess z).streamFor f.streamId).Holds (segments (p.frames z.peer f.streamId)))
    (hdisp : ((p.sess z).noted y now).dispatch y.1 y.2.2 now = some (.ok events, s))
    (hfinished : .streamFinished id ∈ events) :
    (s.streamFor id).finReceived = some (p.written z.peer id).length ∧
      ∃ rest s', s.read id (p.written z.peer id).length = some (.ok rest, s') ∧
        p.readOut z id ++ rest = p.written z.peer id := by
  by_cases htype : y.1 = .data
  · rcases h.dispatch_data hlog htype hdisp with
      ⟨-, ⟨-, hnone⟩ | ⟨f, e, -, -, -, herr⟩⟩ | ⟨f, stream', hframe, hmem, hstream', hevents, hstreams⟩
    · cases hnone
      exact (not_mem_nil hfinished).elim
    · cases herr
    · cases hevents
      obtain ⟨rfl, hcause⟩ := streamFinished_mem_frameEvents.mp hfinished
      have hchannel := h.channel z.peer f.streamId
      rw [ChannelOf, peer_peer] at hchannel
      have hreceived := (hchannel.receive hmem).2
      rw [← hstream'] at hreceived
      have hget : s.streams.get? f.streamId = some stream' := by
        rw [hstreams, SortedMap.get?_insert_self]
      obtain ⟨hoff, -, hbuf, hholds⟩ :=
        hchannel.complete_of_finished hmem (hlast f hframe) hstream' hcause
      obtain ⟨rest, rcv', hread, hall⟩ := hreceived.read_rest hbuf hholds
      refine ⟨by rw [streamFor_of_get? hget, hoff], rest,
        { s with streams := s.streams.insert f.streamId rcv' }, ?_, hall⟩
      rw [Session.read, hget]
      dsimp only
      rw [hread, map_some]
  · have hnone := dispatch_events htype hdisp _ hfinished
    cases hnone

end Peers

namespace Network

def opensFresh (n : Network) : NetEvent → Prop
  | .app x (.openStream _) =>
    (n.peers.sess x).streams.get? (n.peers.sess x).nextStreamId = none
  | _ => True

instance (n : Network) : ∀ ev, Decidable (n.opensFresh ev)
  | .app x (.openStream _) => inferInstanceAs (Decidable
      ((n.peers.sess x).streams.get? (n.peers.sess x).nextStreamId = none))
  | .app _ (.finish _) | .app _ .ping | .app _ (.sendDatagram _) | .app _ .recvDatagram
  | .app _ .drainCcAck | .send .. | .read .. | .flush .. | .retransmit .. | .encodeRaw ..
  | .deliver .. => isTrue trivial

theorem carried_init (c : NetworkConfig) : (init c).peers.Carried := by
  refine ⟨fun x => ⟨fun id hget => absurd rfl hget, ?_⟩, fun x id => Channel.new id id,
    fun x id hfin => absurd rfl hfin⟩
  cases x
  · show 1 < 2 ^ 32
    decide
  · show 2 < 2 ^ 32
    decide

theorem carried_step {P : Primitives} {c : NetworkConfig} (hP : P.Lawful) {n n' : Network}
    {ev : NetEvent} (hw : Wired P c n) (h : n.peers.Carried) (hok : n.opensFresh ev)
    (hs : n.step P ev = some n') : n'.peers.Carried := by
  refine step_peers hP hw hs Peers.Carried h ?_ ?_ ?_ ?_ ?_ ?_ ?_
  · intro x call s hev hcall
    subst hev
    exact h.appCall (fun priority hopen => by subst hopen; exact hok) hcall
  · intro x id data _
    exact h.send x id data
  · intro x id max p _ hread
    exact h.read hread
  · intro x now order q em d res _ hq hd _
    exact hq.encoded res hd
  · intro x t payload res _ ht
    refine h.encoded_other rfl rfl ?_
    rintro ⟨⟩
    cases ht
  · intro x now _
    exact h.update_sender rfl rfl rfl rfl rfl ((h.ids x).congr rfl rfl) (fun id => rfl)
      fun id => h.channel x id
  · intro x i now y p _ _ hlog _ hacc
    exact h.accept (by rw [peer_peer]; exact hlog) hacc

/-- If packet number `i` of side `x` carries a FIN and is accepted now, then the other side has all data
of the stream that was sent: the FIN does not overtake data. -/
def finLast (P : Primitives) (n : Network) (x : Role) (i : Nat) : Prop :=
  ∀ y ∈ n.accepts P x i, ∀ f ∈ frameOf y, f.isFin = true →
    ((n.peers.sess x.peer).streamFor f.streamId).Holds (segments (n.peers.frames x f.streamId))

instance (P : Primitives) (n : Network) (x : Role) (i : Nat) : Decidable (n.finLast P x i) :=
  inferInstanceAs (Decidable (∀ y ∈ n.accepts P x i, ∀ f ∈ frameOf y, f.isFin = true →
    ((n.peers.sess x.peer).streamFor f.streamId).Holds (segments (n.peers.frames x f.streamId))))

end Network

/-- **What a `StreamFinished` event says.** In every run that does not open a stream under an id in use:
a side that has noted a FIN has been given the event; and if `receive_packet` gives one, and not for a
FIN that has overtaken data, the end noted is that of what the other side has written, and the bytes
read, with those of one more read, are all of it. -/
theorem stream_finished_complete {P : Primitives} (hP : P.Lawful) (c : NetworkConfig)
    {evs : List NetEvent} {n : Network}
    (hok : Meets (Network.step P) Network.opensFresh (Network.init c) evs)
    (hrun : exec (Network.step P) (Network.init c) evs = some n) :
    (∀ x id off, ((n.peers.sess x).streamFor id).finReceived = some off →
      .streamFinished id ∈ n.peers.events x) ∧
    ∀ (x : Role) (i now id : Nat) (bytes : Bytes) (events : List SessionEvent) (s : Session),
      (n.wire x)[i]? = some bytes → n.finLast P x i →
      (n.peers.sess x.peer).receivePacket P bytes now = some (.ok events, s) →
      .streamFinished id ∈ events →
        (s.streamFor id).finReceived = some (n.peers.written x id).length ∧
        ∃ rest s', s.read id (n.peers.written x id).length = some (.ok rest, s') ∧
          n.peers.readOut x.peer id ++ rest = n.peers.written x id := by
  obtain ⟨hw, h⟩ := Network.run_invariant hP Network.opensFresh Peers.Carried
    (Network.carried_init c) (fun n ev n' hw h hok hs => Network.carried_step hP hw h hok hs) hok hrun
  refine ⟨fun x id off hoff => h.announced x id (by rw [hoff]; exact some_ne_none off), ?_⟩
  intro x i now id bytes events s hget hlast hrecv hfinished
  rcases (n.peers.sess x.peer).receivePacket_cases P bytes now with
    ⟨e, -, heq⟩ | ⟨y, hdec, heq⟩
  · rw [heq] at hrecv
    cases hrecv
  · rw [heq] at hrecv
    have hlog := (hw.mem_log hP (mem_of_getElem? hget) hdec).1
    have haccepts : n.accepts P x i = some y := by
      rw [Network.accepts, hget, bind_some, hdec]
      rfl
    have hcomplete := h.finished (z := x.peer) (y := y)
      (by rw [peer_peer]; exact hlog)
      (by rw [peer_peer]; exact fun f hf => hlast y haccepts f hf) hrecv hfinished
    rw [peer_peer] at hcomplete
    exact hcomplete

def finishedOps : List NetEvent :=
  [.app .client (.openStream 4), .send .client 1 [7], .flush .client 0 [1],
    .app .client (.finish 1), .flush .client 0 [1]]

def Network.finishes (P : Primitives) (n : Network) (x : Role) (i id : Nat) : Bool :=
  ((n.wire x)[i]?.bind fun bytes => (n.peers.sess x.peer).receivePacket P bytes 0).any fun r =>
    match r.1 with
    | .ok events => .streamFinished id ∈ events
    | .error _ => false

theorem Network.exists_of_finishes {P : Primitives} {n : Network} {x : Role} {i id : Nat}
    (h : n.finishes P x i id = true) : ∃ bytes events s, (n.wire x)[i]? = some bytes ∧
      (n.peers.sess x.peer).receivePacket P bytes 0 = some (.ok events, s) ∧
      .streamFinished id ∈ events := by
  obtain ⟨⟨r, s⟩, hr, hmatch⟩ := (any_eq_true _ _).mp h
  obtain ⟨bytes, hget, hrecv⟩ := bind_eq_some_iff.mp hr
  cases r with
  | ok events => exact ⟨bytes, events, s, hget, hrecv, of_decide_eq_true hmatch⟩
  | error e => cases hmatch

/-- The byte arrives before the FIN. -/
theorem stream_finished_complete_in_order :
    ∃ (n : Network) (bytes : Bytes) (events : List SessionEvent) (s s' : Session) (rest : Bytes),
      exec (Network.step checksumPrimitives) (Network.init Network.sampleConfig)
        (finishedOps ++ [.deliver .client 0 0]) = some n ∧
      (n.wire .client)[1]? = some bytes ∧
      (n.peers.sess .server).receivePacket checksumPrimitives bytes 0 = some (.ok events, s) ∧
      .streamFinished 1 ∈ events ∧ s.read 1 1 = some (.ok rest, s') ∧
      n.peers.readOut .server 1 ++ rest = [7] := by
  obtain ⟨n, hn, hlast, hwritten, hfinishes⟩ : ∃ n, exec (Network.step checksumPrimitives)
      (Network.init Network.sampleConfig) (finishedOps ++ [.deliver .client 0 0]) = some n ∧
      n.finLast checksumPrimitives .client 1 ∧ n.peers.written .client 1 = [7] ∧
      n.finishes checksumPrimitives .client 1 1 = true := by
    decide +kernel
  have hmeets : Meets (Network.step checksumPrimitives) Network.opensFresh
      (Network.init Network.sampleConfig) (finishedOps ++ [.deliver .client 0 0]) := by
    decide +kernel
  obtain ⟨bytes, events, s, hget, hrecv, hfinished⟩ := Network.exists_of_finishes hfinishes
  have hcomplete := (stream_finished_complete checksumPrimitives_lawful Network.sampleConfig hmeets
    hn).2 .client 1 0 1 bytes events s hget hlast hrecv hfinished
  rw [hwritten] at hcomplete
  obtain ⟨-, rest, s', hread, hall⟩ := hcomplete
  exact ⟨n, bytes, events, s, s', rest, hn, hget, hrecv, hfinished, hread, hall⟩

/-- **A FIN that overtakes data ends the stream early.** The FIN arrives first: `StreamFinished` is
given although the byte written has not arrived, and a read returns nothing. -/
theorem stream_finished_early :
    ∃ n n', exec (Network.step checksumPrimitives) (Network.init Network.sampleConfig) finishedOps
        = some n ∧
      n.step checksumPrimitives (.deliver .client 1 0) = some n' ∧
      n'.peers.written .client 1 = [7] ∧
      n'.peers.events .server = [.newStream 1, .dataAvailable 1, .streamFinished 1] ∧
      ((n'.peers.sess .server).streamFor 1).finReceived = some 1 ∧
      n'.peers.readOut .server 1 = [] ∧
      ((n'.peers.sess .server).read 1 1).map Prod.fst = some (.ok []) := by
  simp only [exists_and_left]
  decide +kernel

/-- **What is sent and what is read.** In the same runs, what a side has written to a stream is what it
has sent and its send buffer: the data frames cut up what is sent, a FIN frame stands at its end with
the buffer empty, and the other side has read a front of it. -/
theorem sent_in_pieces_read_in_order {P : Primitives} (hP : P.Lawful) (c : NetworkConfig)
    {evs : List NetEvent} {n : Network}
    (hok : Meets (step P) opensFresh (init c) evs)
    (hrun : exec (step P) (init c) evs = some n) (x : Role) (id : Nat) :
    ∃ sent, sent ++ ((n.peers.sess x).streamFor id).sendBuf = n.peers.written x id ∧
      Tiles (n.peers.written x id) sent.length (segments (n.peers.frames x id)) ∧
      (∀ f ∈ n.peers.frames x id, f.isFin = true →
        f.data = [] ∧ f.offset = sent.length ∧ ((n.peers.sess x).streamFor id).sendBuf = []) ∧
      n.peers.readOut x.peer id <+: sent := by
  have h := (run_invariant hP opensFresh Peers.Carried (carried_init c)
    (fun n ev n' hw h hok hs => carried_step hP hw h hok hs) hok hrun).2.channel x id
  obtain ⟨sent, hsent⟩ := h.sending.buf_suffix
  have hlen : sent.length
      = (n.peers.written x id).length - ((n.peers.sess x).streamFor id).sendBuf.length := by
    simp [← hsent]
  refine ⟨sent, hsent, hlen ▸ h.sending.tiles, fun f hf hfin => ?_, ?_⟩
  · obtain ⟨hdata, hoff, -, hbuf⟩ := h.ends f hf hfin
    exact ⟨hdata, by rw [hoff, hlen, hbuf]; rfl, hbuf⟩
  · rw [h.receiving.out_eq, ← hsent, take_append_of_le_length (hlen ▸ h.receiving.offset_le)]
    exact take_prefix _ _

/-- The server reads the byte that the client has sent. -/
theorem sent_in_pieces_read_in_order_byte :
    ∃ n, exec (step checksumPrimitives) (init sampleConfig)
        (finishedOps ++ [.deliver .client 0 0, .read .server 1 1]) = some n ∧
      n.peers.readOut .server 1 = [7] ∧ [7] <+: n.peers.written .client 1 := by
  refine exists_exec_of (p := fun n => n.peers.readOut .server 1 = [7]) (by decide +kernel) ?_
  intro n hrun hread
  obtain ⟨sent, hsent, -, -, hfront⟩ := sent_in_pieces_read_in_order checksumPrimitives_lawful
    sampleConfig (by decide +kernel) hrun .client 1
  exact ⟨hread, hread ▸ hsent ▸ hfront.trans (prefix_append _ _)⟩

end SeamProtocol
