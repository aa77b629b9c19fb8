import SeamProtocol.Session.Acknowledged

/-! # What the calls of a session have returned

The bytes that `send` has accepted, the ids of the streams that were opened, and the events of received
packets. Besides the packets that pass the decoder there are packets of a peer that has the keys and
sends what it likes. -/

namespace SeamProtocol

open Lib List Option SortedMap Session

inductive SessionCall where
  | op (o : SessionOp)
  /-- A packet of a peer that has the keys: any type, any number and any payload. -/
  | packet (x : Decoded) (now : Nat)

structure LoggedSession where
  sess : Session
  accepted : Nat
  /-- History: the ids that `open_stream` has returned, oldest first. -/
  opened : List Nat
  /-- History: the ids of the streams that frames have created, oldest first. -/
  created : List Nat
  events : List SessionEvent

def eventsOf : Except SeamError (List SessionEvent) → List SessionEvent
  | .ok events => events
  | .error _ => []

def newKeys (s s' : Session) : List Nat :=
  s'.streams.keys.filter fun id => (s.streams.get? id).isNone

namespace LoggedSession

def new (s : Session) : LoggedSession := ⟨s, 0, [], [], []⟩

def received (r : LoggedSession) (res : Except SeamError (List SessionEvent) × Session) : LoggedSession :=
  { r with
    sess := res.2
    created := r.created ++ newKeys r.sess res.2
    events := r.events ++ eventsOf res.1 }

def sent (r : LoggedSession) (data : Bytes) (res : Except SeamError Unit × Session) : LoggedSession :=
  { r with
    sess := res.2
    accepted := match res.1 with
      | .ok _ => r.accepted + data.length
      | .error _ => r.accepted }

def step (P : Primitives) (r : LoggedSession) : SessionCall → Option LoggedSession
  | .packet x now => (r.sess.onPacket x now).map r.received
  | .op (.receivePacket buf now) => (r.sess.receivePacket P buf now).map r.received
  | .op (.send streamId data) => some (r.sent data (r.sess.send streamId data))
  | .op (.app (.openStream priority)) =>
    let res := r.sess.tryOpenStreamWithPriority priority
    some { r with sess := res.2, opened := r.opened ++ res.1.toList }
  | .op (.app call) => (r.sess.appCall call).map fun sess => { r with sess }
  | .op (.read streamId max) => (r.sess.read streamId max).map fun res => { r with sess := res.2 }
  | .op (.flush now order) =>
    if order.Perm r.sess.streams.keys then some { r with sess := (r.sess.flush P now order).2 }
    else none
  | .op (.drainRetransmits now) => some { r with sess := (r.sess.drainRetransmits now).2 }
  | .op (.encodeRaw pktType payload out) =>
    some { r with sess := (r.sess.encodeRaw P pktType payload out).2.2 }

end LoggedSession

namespace Session

/-! ## The table of streams -/

structure SameTable (s s' : Session) : Prop where
  keys : s'.streams.keys = s.streams.keys
  next : s'.nextStreamId = s.nextStreamId
  role : s'.role = s.role
  limits : s'.limits = s.limits
  stored : ∀ id stream', s'.streams.get? id = some stream' → ∃ stream, s.streams.get? id = some stream ∧
    ∃ n, stream'.recvBuf = stream.recvBuf.dropFirst n

variable {s s' : Session}

theorem SameTable.of_streams (hstreams : s'.streams = s.streams)
    (hnext : s'.nextStreamId = s.nextStreamId) (hrole : s'.role = s.role)
    (hlimits : s'.limits = s.limits) : s.SameTable s' := by
  refine ⟨by rw [hstreams], hnext, hrole, hlimits, ?_⟩
  rw [hstreams]
  exact fun id stream hget => ⟨stream, hget, 0, rfl⟩

variable {id : Nat}

theorem SameTable.of_insert {stream stream' : Stream} (hget : s.streams.get? id = some stream)
    (hstreams : s'.streams = s.streams.insert id stream') (hnext : s'.nextStreamId = s.nextStreamId)
    (hrole : s'.role = s.role) (hlimits : s'.limits = s.limits)
    (hstored : ∃ n, stream'.recvBuf = stream.recvBuf.dropFirst n) : s.SameTable s' := by
  refine ⟨?_, hnext, hrole, hlimits, ?_⟩
  · rw [hstreams]
    exact keys_insert_of_get?_eq_some _ _ _ _ hget
  · intro id' stream₁ hget'
    rw [hstreams, get?_insert] at hget'
    by_cases heq : id' = id
    · rw [if_pos heq, Option.some.injEq] at hget'
      subst hget'
      exact ⟨stream, heq ▸ hget, hstored⟩
    · rw [if_neg heq] at hget'
      exact ⟨stream₁, hget', 0, rfl⟩

theorem SameTable.refl (s : Session) : s.SameTable s := .of_streams rfl rfl rfl rfl

theorem SameTable.trans {t u : Session} (h : s.SameTable t) (h' : t.SameTable u) : s.SameTable u := by
  refine ⟨h'.keys.trans h.keys, h'.next.trans h.next, h'.role.trans h.role, h'.limits.trans h.limits, ?_⟩
  intro id stream hget
  obtain ⟨stream', hget', n, hn⟩ := h'.stored id stream hget
  obtain ⟨stream'', hget'', m, hm⟩ := h.stored id stream' hget'
  refine ⟨stream'', hget'', m + n, ?_⟩
  rw [hn, hm]
  exact eq_of_entries drop_drop

theorem SameTable.get?_eq_none_iff (h : s.SameTable s') (id : Nat) :
    s'.streams.get? id = none ↔ s.streams.get? id = none := by
  rw [← not_iff_not, ← Ne, ← Ne, ne_none_iff_exists', ne_none_iff_exists',
    ← mem_keys_iff, ← mem_keys_iff, h.keys]

theorem SameTable.size_eq (h : s.SameTable s') : s'.streams.size = s.streams.size := by
  rw [← length_keys, ← length_keys, h.keys]

/-! ## Calls that keep it -/

theorem send_sameTable (s : Session) (id : Nat) (data : Bytes) : s.SameTable (s.send id data).2 := by
  rcases s.send_cases id data with ⟨e, h, -⟩ | ⟨e, s', h, -, rfl, -⟩ | ⟨stream, hget, -, -, -, h⟩
  · rw [h]
    exact .refl s
  · rw [h]
    exact .of_streams rfl rfl rfl rfl
  · rw [h]
    exact .of_insert hget rfl rfl rfl rfl ⟨0, rfl⟩

theorem read_sameTable {max : Nat} {res : Except SeamError Bytes}
    (h : s.read id max = some (res, s')) : s.SameTable s' := by
  rcases read_cases h with ⟨-, -, rfl⟩ | ⟨stream, bytes, stream', hget, hread, -, rfl⟩
  · exact .refl s'
  · obtain ⟨popped, rfl⟩ := Stream.read_eq_some hread
    exact .of_insert hget rfl rfl rfl rfl ⟨popped, rfl⟩

theorem appCall_sameTable {call : AppCall} (hopen : ∀ p, call ≠ .openStream p)
    (h : s.appCall call = some s') : s.SameTable s' := by
  rcases appCall_cases h with ⟨p, hp, -⟩ | ⟨id, stream, -, hget, rfl⟩ | ⟨_, _, _, rfl⟩
  · exact absurd hp (hopen p)
  · exact .of_insert hget rfl rfl rfl rfl ⟨0, rfl⟩
  · exact .of_streams rfl rfl rfl rfl

variable {now : Nat}

theorem draft_sameTable {em : Emission} {d : Draft} (h : s.draft now em = some d) :
    s.SameTable d.sess := by
  obtain ⟨_, _, _, _, _, _, hsess⟩ := draft_eq h
  rcases draft_streams h with hsame | ⟨id, stream, stream', hget, hstreams, hrecv, -⟩
  · exact .of_streams hsame (by rw [hsess]) (by rw [hsess]) (by rw [hsess])
  · exact .of_insert hget hstreams (by rw [hsess]) (by rw [hsess]) (by rw [hsess])
      ⟨0, congrArg Stream.RecvSide.recvBuf hrecv⟩

variable (P : Primitives)

theorem flushed_sameTable (s : Session) (now : Nat) (order : List Nat) :
    s.SameTable (s.flushed P now order).sess := by
  refine flushed_rel SameTable .refl (fun _ _ _ => .trans) ?_ s order
  rintro s em d hd _ ⟨_, _, _, rfl, -⟩
  exact (draft_sameTable hd).trans (.of_streams rfl rfl rfl rfl)

theorem flushed_sendWindow (s : Session) (now : Nat) (order : List Nat) :
    (s.flushed P now order).sess.sendWindow = s.sendWindow := by
  refine flushed_rel (fun s t => t.sendWindow = s.sendWindow) (fun _ => rfl)
    (fun _ _ _ h h' => h'.trans h) ?_ s order
  rintro s em d hd _ ⟨_, _, _, rfl, -⟩
  obtain ⟨_, _, _, _, _, _, heq⟩ := draft_eq hd
  exact heq ▸ rfl

theorem flush_snd (s : Session) (now : Nat) (order : List Nat) :
    (s.flush P now order).2 = (s.flushed P now order).sess := by
  rcases s.flush_cases P now order with ⟨e, -, h⟩ | ⟨-, h⟩ <;> rw [h]

theorem dispatch_sameTable {pktType : PktType} {payload : Bytes}
    {res : Except SeamError (List SessionEvent)} (hne : pktType ≠ .data)
    (h : s.dispatch pktType payload now = some (res, s')) : s.SameTable s' := by
  have hstreams := dispatch_streams hne h
  obtain ⟨_, _, _, _, _, _, _, _, rfl⟩ := dispatch_eq h
  exact .of_streams hstreams rfl rfl rfl

theorem deliverFrame_eq (s : Session) (isNew : Bool) (f : StreamFrame) :
    ∃ res, s.deliverFrame isNew f = (res, { s.consume f.data.length with
        streams := s.streams.insert f.streamId
          ((s.streamFor f.streamId).receive f.offset f.data f.isFin).2 }) ∧
      ((∃ e, ((s.streamFor f.streamId).receive f.offset f.data f.isFin).1 = .error e ∧ res = .error e) ∨
        ∃ finished, ((s.streamFor f.streamId).receive f.offset f.data f.isFin).1 = .ok () ∧
          res = .ok (frameEvents isNew finished f.streamId)) := by
  have hstream : ((s.consume f.data.length).streams.get? f.streamId).getD (Stream.new f.streamId)
      = s.streamFor f.streamId := rfl
  cases hres : ((s.streamFor f.streamId).receive f.offset f.data f.isFin).1 with
  | ok u => exact ⟨_, deliverFrame_of_ok hres, .inr ⟨_, rfl, rfl⟩⟩
  | error e =>
    refine ⟨.error e, ?_, .inl ⟨e, rfl, rfl⟩⟩
    unfold deliverFrame
    dsimp only
    rw [hstream, hres]
    rfl

theorem parity_of_refuseNewStream (h : s.refuseNewStream id = none) : id % 2 ≠ s.role.localParity := by
  intro heq
  rw [refuseNewStream, if_pos heq] at h
  cases h

theorem room_of_refuseNewStream (h : s.refuseNewStream id = none) :
    s.streams.size % 2 ^ 32 < s.limits.maxStreams := by
  rw [refuseNewStream, if_neg (parity_of_refuseNewStream h)] at h
  by_contra hge
  rw [if_pos (Nat.not_lt.mp hge)] at h
  cases h

end Session

/-! ## What a call can do -/

def SessionCall.packet? (P : Primitives) (s : Session) : SessionCall → Option Decoded
  | .packet x _ => some x
  | .op (.receivePacket buf _) => (s.decoder.decode P buf).1.toOption
  | .op _ => none

def SessionCall.frame? (P : Primitives) (s : Session) (call : SessionCall) : Option StreamFrame :=
  match call.packet? P s with
  | some (.data, _, payload) => parseStreamFrame payload
  | _ => none

inductive Session.Does (P : Primitives) (s : Session) : SessionCall → Session → Prop where
  | refused (buf : Bytes) (now : Nat) : Does P s (.op (.receivePacket buf now)) s
  | packet {call : SessionCall} {x : Decoded} {decoder : PacketDecoder} {ackRanges : AckRanges} {now : Nat}
      {res : Except SeamError (List SessionEvent)} {s' : Session} (hcall : call.packet? P s = some x)
      (h : { s with decoder, ackRanges }.dispatch x.1 x.2.2 now = some (res, s')) : Does P s call s'
  | send (streamId : Nat) (data : Bytes) : Does P s (.op (.send streamId data)) (s.send streamId data).2
  | app {call : AppCall} {s' : Session} (h : s.appCall call = some s') : Does P s (.op (.app call)) s'
  | read {streamId max : Nat} {res : Except SeamError Bytes} {s' : Session}
      (h : s.read streamId max = some (res, s')) : Does P s (.op (.read streamId max)) s'
  | flush {now : Nat} {order : List Nat} (h : order.Perm s.streams.keys) :
      Does P s (.op (.flush now order)) (s.flushed P now order).sess
  | drain (now : Nat) : Does P s (.op (.drainRetransmits now)) { s with arq := (s.arq.drainExpired now).2 }
  | encode {pktType : PktType} {payload out : Bytes} (encoder : PacketEncoder) :
      Does P s (.op (.encodeRaw pktType payload out)) { s with encoder }

namespace LoggedSession

inductive Turn (P : Primitives) (r : LoggedSession) (call : SessionCall) : LoggedSession → Prop where
  | quiet {sess : Session} {accepted : Nat} {events : List SessionEvent}
      (hframe : ∀ f, call.frame? P r.sess = some f →
        r.sess.streams.get? f.streamId = none ∧ r.sess.refuseNewStream f.streamId ≠ none)
      (hsame : r.sess.SameTable sess) (hevents : ∀ ev ∈ events, ev.streamId? = none) :
      Turn P r call { r with sess := sess, accepted := accepted, events := r.events ++ events }
  | opens (priority : Nat) (hframe : call.frame? P r.sess = none)
      (hroom : r.sess.streams.size % 2 ^ 32 < r.sess.limits.maxStreams) :
      Turn P r call { r with
        sess := { r.sess with
          nextStreamId := (r.sess.nextStreamId + 2) % 2 ^ 32
          streams := r.sess.streams.insert r.sess.nextStreamId
            { Stream.new r.sess.nextStreamId with priority } }
        opened := r.opened ++ [r.sess.nextStreamId] }
  /-- A frame is handed to its stream, which is created if need be, and refused or taken by it. -/
  | receives (f : StreamFrame) {sess : Session} {res : Except SeamError (List SessionEvent)}
      (hframe : call.frame? P r.sess = some f)
      (hallow : r.sess.streams.get? f.streamId = none → r.sess.refuseNewStream f.streamId = none)
      (hstreams : sess.streams = r.sess.streams.insert f.streamId
        ((r.sess.streamFor f.streamId).receive f.offset f.data f.isFin).2)
      (hnext : sess.nextStreamId = r.sess.nextStreamId) (hrole : sess.role = r.sess.role)
      (hlimits : sess.limits = r.sess.limits)
      (hres : (∃ e, ((r.sess.streamFor f.streamId).receive f.offset f.data f.isFin).1 = .error e ∧
          res = .error e) ∨
        ∃ finished, ((r.sess.streamFor f.streamId).receive f.offset f.data f.isFin).1 = .ok () ∧
          res = .ok (Session.frameEvents (r.sess.streams.get? f.streamId).isNone finished f.streamId)) :
      Turn P r call (r.received (res, sess))

variable {P : Primitives} {r r' : LoggedSession} {s s' : Session}

theorem mem_newKeys {id : Nat} :
    id ∈ newKeys s s' ↔ s.streams.get? id = none ∧ s'.streams.get? id ≠ none := by
  rw [newKeys, mem_filter, mem_keys_iff, isNone_iff_eq_none,
    ← ne_none_iff_exists', and_comm]

theorem newKeys_of_sameTable (h : s.SameTable s') : newKeys s s' = [] := by
  rw [eq_nil_iff_forall_not_mem]
  intro id hid
  obtain ⟨hnone, hsome⟩ := mem_newKeys.mp hid
  exact hsome ((h.get?_eq_none_iff id).mpr hnone)

variable {call : SessionCall} {sess : Session}

theorem Turn.of_sameTable (accepted : Nat) (hframe : ∀ f, call.frame? P r.sess ≠ some f)
    (hsame : r.sess.SameTable sess) : Turn P r call { r with sess := sess, accepted := accepted } := by
  have h : Turn P r call { r with sess := sess, accepted := accepted, events := r.events ++ [] } :=
    .quiet (fun f hf => absurd hf (hframe f)) hsame (fun _ hev => nomatch hev)
  rwa [append_nil] at h

theorem Turn.of_received {res : Except SeamError (List SessionEvent)}
    (hframe : ∀ f, call.frame? P r.sess = some f → r.sess.streams.get? f.streamId = none ∧ r.sess.refuseNewStream f.streamId ≠ none)
    (hsame : r.sess.SameTable sess) (hevents : ∀ ev ∈ eventsOf res, ev.streamId? = none) :
    Turn P r call (r.received (res, sess)) := by
  rw [received, newKeys_of_sameTable hsame, append_nil]
  exact .quiet hframe hsame hevents

open SessionCall

theorem Turn.of_dispatch {x : Decoded} {t : Session} {now : Nat}
    {res : Except SeamError (List SessionEvent) × Session} (h : t.dispatch x.1 x.2.2 now = some res)
    (hcall : call.packet? P r.sess = some x) (hstreams : t.streams = r.sess.streams)
    (hnext : t.nextStreamId = r.sess.nextStreamId) (hrole : t.role = r.sess.role)
    (hlimits : t.limits = r.sess.limits) : Turn P r call (r.received res) := by
  obtain ⟨pktType, pn, payload⟩ := x
  obtain ⟨res, sess⟩ := res
  have hsame : r.sess.SameTable t := .of_streams hstreams hnext hrole hlimits
  by_cases hne : pktType = .data
  · subst hne
    have hframe : call.frame? P r.sess = parseStreamFrame payload := by
      rw [frame?, hcall]
    have hrefuse : t.refuseNewStream = r.sess.refuseNewStream := by
      funext id
      rw [Session.refuseNewStream, hrole, hlimits, hstreams]
      rfl
    have hresult := Option.some.inj h
    rcases t.handleDataFrame_cases payload with
      ⟨hparse, heq⟩ | ⟨f, e, hparse, hget, hrefused, heq⟩ | ⟨f, hparse, hallow, heq⟩
    · rw [heq] at hresult
      cases hresult
      exact .of_received (by rw [hframe, hparse]; nofun) hsame (fun _ hev => nomatch hev)
    · rw [heq] at hresult
      cases hresult
      refine .of_received (fun g hg => ?_) hsame (fun _ hev => nomatch hev)
      rw [hframe, hparse] at hg
      cases hg
      rw [← hstreams, ← hrefuse, hrefused]
      exact ⟨hget, nofun⟩
    · have hfor : t.streamFor f.streamId = r.sess.streamFor f.streamId := by
        rw [Session.streamFor, hstreams]
        rfl
      obtain ⟨res', hdeliver, hres⟩ := t.deliverFrame_eq (t.streams.get? f.streamId).isNone f
      rw [heq, hdeliver] at hresult
      cases hresult
      rw [hstreams, hrefuse] at hallow
      rw [hfor, hstreams] at hres
      rw [hfor, hstreams]
      exact .receives f (hframe.trans hparse) hallow rfl hnext hrole hlimits hres
  · have hframe : call.frame? P r.sess = none := by
      rw [frame?, hcall]
      cases pktType <;> first | rfl | exact absurd rfl hne
    refine .of_received (by rw [hframe]; nofun) (hsame.trans (dispatch_sameTable hne h)) ?_
    cases res with
    | error e => exact fun _ hev => nomatch hev
    | ok events => exact dispatch_events hne h

theorem does_of_step (h : r.step P call = some r') : r.sess.Does P call r'.sess := by
  cases call with
  | packet x now =>
    obtain ⟨res, hres, rfl⟩ := map_eq_some_iff.mp h
    exact .packet rfl hres
  | op o =>
    cases o with
    | receivePacket buf now =>
      obtain ⟨res, hres, rfl⟩ := map_eq_some_iff.mp h
      rcases r.sess.receivePacket_cases P buf now with ⟨e, he, hrecv⟩ | ⟨x, hx, hrecv⟩
      · rw [hrecv] at hres
        cases hres
        exact .refused buf now
      · rw [hrecv] at hres
        refine .packet ?_ hres
        rw [packet?, hx]
        rfl
    | send id data =>
      cases h
      exact .send id data
    | app call =>
      cases call with
      | openStream p =>
        cases h
        exact .app rfl
      | _ =>
        dsimp only [step] at h
        obtain ⟨s', hs', rfl⟩ := map_eq_some_iff.mp h
        exact .app hs'
    | read id max =>
      obtain ⟨⟨res, s'⟩, hres, rfl⟩ := map_eq_some_iff.mp h
      exact .read hres
    | flush now order =>
      rw [step, ite_none_right_eq_some] at h
      obtain ⟨hperm, h⟩ := h
      cases h
      rw [flush_snd]
      exact .flush hperm
    | drainRetransmits now =>
      cases h
      exact .drain now
    | encodeRaw pktType payload out =>
      cases h
      exact .encode _

theorem turn_of_step (h : r.step P call = some r') : Turn P r call r' := by
  cases call with
  | packet x now =>
    obtain ⟨res, hres, rfl⟩ := map_eq_some_iff.mp h
    exact .of_dispatch hres rfl rfl rfl rfl rfl
  | op o =>
    cases o with
    | receivePacket buf now =>
      obtain ⟨res, hres, rfl⟩ := map_eq_some_iff.mp h
      rcases r.sess.receivePacket_cases P buf now with ⟨e, he, hrecv⟩ | ⟨x, hx, hrecv⟩
      · rw [hrecv] at hres
        cases hres
        have hpacket : (op (.receivePacket buf now)).packet? P r.sess = none := by
          rw [packet?, he]
          rfl
        refine .of_received ?_ (.refl _) (fun _ hev => nomatch hev)
        rw [frame?, hpacket]
        nofun
      · rw [hrecv] at hres
        have hpacket : (op (.receivePacket buf now)).packet? P r.sess = some x := by
          rw [packet?, hx]
          rfl
        exact .of_dispatch hres hpacket rfl rfl rfl rfl
    | send id data =>
      cases h
      exact .of_sameTable _ nofun (r.sess.send_sameTable id data)
    | app call =>
      by_cases hopen : ∃ p, call = .openStream p
      · obtain ⟨p, rfl⟩ := hopen
        cases h
        unfold Session.tryOpenStreamWithPriority
        by_cases hroom : r.sess.limits.maxStreams ≤ r.sess.streams.size % 2 ^ 32
        · rw [if_pos hroom, toList_none, append_nil]
          exact .of_sameTable _ nofun (.refl _)
        · rw [if_neg hroom]
          exact .opens p rfl (Nat.not_le.mp hroom)
      · have hstep : (r.sess.appCall call).map (fun sess => { r with sess }) = some r' := by
          cases call <;> first | exact h | exact absurd ⟨_, rfl⟩ hopen
        obtain ⟨sess, hsess, rfl⟩ := map_eq_some_iff.mp hstep
        exact .of_sameTable _ nofun
          (appCall_sameTable (fun p hp => hopen ⟨p, hp⟩) hsess)
    | read id max =>
      obtain ⟨⟨res, sess⟩, hres, rfl⟩ := map_eq_some_iff.mp h
      exact .of_sameTable _ nofun (read_sameTable hres)
    | flush now order =>
      rw [step, ite_none_right_eq_some] at h
      obtain ⟨-, h⟩ := h
      cases h
      rw [flush_snd]
      exact .of_sameTable _ nofun (r.sess.flushed_sameTable P now order)
    | drainRetransmits now | encodeRaw pktType payload out =>
      cases h
      exact .of_sameTable _ nofun (.of_streams rfl rfl rfl rfl)

end LoggedSession

end SeamProtocol
