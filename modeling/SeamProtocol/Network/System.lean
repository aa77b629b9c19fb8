import SeamProtocol.Session.Calls

/-! # Two sessions and a network

A client and a server session, joined by a network that may drop, delay, duplicate and reorder packets.
Beside the sessions the state has the history of what passed between them. `Peers` is the sessions with
the history, in which packets are triples of type, number and payload; `Network` adds the wire bytes. -/

namespace SeamProtocol

open Lib Function List Option Session

structure NetworkConfig where
  sessionId : UInt64
  keys : Role → PacketKeys
  limits : Role → SessionLimits

structure Peers where
  sess : Role → Session
  /-- History: type, number and payload of everything a side gave to its encoder. -/
  log : Role → List Decoded
  /-- History: the packets a side has accepted, latest first. -/
  accepted : Role → List Decoded
  written : Role → Nat → Bytes
  readOut : Role → Nat → Bytes
  events : Role → List SessionEvent

structure Network where
  peers : Peers
  wire : Role → List Bytes

inductive NetEvent where
  | app (x : Role) (call : AppCall)
  | send (x : Role) (streamId : Nat) (data : Bytes)
  | read (x : Role) (streamId max : Nat)
  | flush (x : Role) (now : Nat) (order : List Nat)
  | retransmit (x : Role) (now : Nat)
  | encodeRaw (x : Role) (pktType : PktType) (payload : Bytes)
  /-- The network delivers packet number `i` of side `x` to the other side. -/
  | deliver (x : Role) (i : Nat) (now : Nat)

namespace Peers

def setSess (p : Peers) (x : Role) (s : Session) : Peers :=
  { p with sess := Function.update p.sess x s }

def send (p : Peers) (x : Role) (streamId : Nat) (data : Bytes) : Peers :=
  let r := (p.sess x).send streamId data
  let p := p.setSess x r.2
  match r.1 with
  | .ok () =>
    { p with
      written := Function.update p.written x
        (Function.update (p.written x) streamId (p.written x streamId ++ data)) }
  | .error _ => p

def read (p : Peers) (x : Role) (streamId max : Nat) : Option Peers :=
  ((p.sess x).read streamId max).map fun (r, s) =>
    let p := p.setSess x s
    match r with
    | .ok bytes =>
      { p with
        readOut := Function.update p.readOut x
          (Function.update (p.readOut x) streamId (p.readOut x streamId ++ bytes)) }
    | .error _ => p

def encoded (p : Peers) (x : Role) (d : Draft) (res : Except SeamError Bytes) (now : Nat) : Peers :=
  { p with
    sess := Function.update p.sess x (match res with
      | .ok bytes => d.sent d.sess.bumped d.sess.encoder.nextPktNum bytes now
      | .error _ => d.sess.bumped)
    log := Function.update p.log x
      (p.log x ++ [(d.pktType, d.sess.encoder.nextPktNum, d.payload)]) }

theorem send_frame (p : Peers) (x : Role) (streamId : Nat) (data : Bytes) :
    (p.send x streamId data).sess = update p.sess x ((p.sess x).send streamId data).2 ∧
      (p.send x streamId data).log = p.log ∧ (p.send x streamId data).accepted = p.accepted := by
  unfold send
  dsimp only
  split <;> exact ⟨rfl, rfl, rfl⟩

/-- A packet sent through `encode_raw`, as a draft. -/
def rawDraft (p : Peers) (x : Role) (pktType : PktType) (payload : Bytes) : Draft :=
  ⟨pktType, payload, false, false, none, p.sess x⟩

def received (p : Peers) (x : Role) (y : Decoded) (res : Except SeamError (List SessionEvent))
    (s : Session) : Peers :=
  { p with
    sess := Function.update p.sess x s
    accepted := Function.update p.accepted x (y :: p.accepted x)
    events := Function.update p.events x (p.events x ++ (match res with
      | .ok events => events
      | .error _ => [])) }

def accept (p : Peers) (x : Role) (y : Decoded) (now : Nat) : Option Peers :=
  (((p.sess x).noted y now).dispatch y.1 y.2.2 now).map fun (res, s) => p.received x y res s

end Peers

namespace Network

def init (c : NetworkConfig) : Network :=
  { peers :=
      { sess := fun x => Session.withLimits c.sessionId x (PacketEncoder.new (c.keys x) c.sessionId)
          (PacketDecoder.new (c.keys x.peer)) (c.limits x)
        log := fun _ => []
        accepted := fun _ => []
        written := fun _ _ => []
        readOut := fun _ _ => []
        events := fun _ => [] }
    wire := fun _ => [] }

def sampleConfig : NetworkConfig := ⟨1, fun _ => zeroKeys, fun _ => SessionLimits.default⟩

def transmit (n : Network) (x : Role) (packets : List Bytes) : Network :=
  { n with wire := Function.update n.wire x (n.wire x ++ packets) }

def step (P : Primitives) (n : Network) : NetEvent → Option Network
  | .app x call =>
    ((n.peers.sess x).appCall call).map fun s => { n with peers := n.peers.setSess x s }
  | .send x streamId data => some { n with peers := n.peers.send x streamId data }
  | .read x streamId max => (n.peers.read x streamId max).map fun peers => { n with peers }
  | .flush x now order =>
    if order.Perm (n.peers.sess x).streams.keys then
      let r := (n.peers.sess x).flush P now order
      let log := ((n.peers.sess x).flushed P now order).log
      let n := { n with peers :=
        { n.peers.setSess x r.2 with
          log := Function.update n.peers.log x (n.peers.log x ++ log) } }
      match r.1 with
      | .ok packets => some (n.transmit x (packets.map TaggedPacket.bytes))
      | .error _ => some n
    else none
  | .retransmit x now =>
    let r := (n.peers.sess x).drainRetransmits now
    some ({ n with peers := n.peers.setSess x r.2 }.transmit x (r.1.map Prod.snd))
  | .encodeRaw x pktType payload =>
    if rawType pktType then
      let r := (n.peers.sess x).encodePacket P pktType payload
      let n := { n with peers := n.peers.encoded x (n.peers.rawDraft x pktType payload) r.1 0 }
      match r.1 with
      | .ok bytes => some (n.transmit x [bytes])
      | .error _ => some n
    else none
  | .deliver x i now =>
    match (n.wire x)[i]? with
    | none => none
    | some bytes =>
      ((n.peers.sess x.peer).receivePacket P bytes now).map fun (res, s) =>
        match ((n.peers.sess x.peer).decoder.decode P bytes).1 with
        | .error _ => { n with peers := n.peers.setSess x.peer s }
        | .ok y => { n with peers := n.peers.received x.peer y res s }

def accepts (P : Primitives) (n : Network) (x : Role) (i : Nat) : Option Decoded :=
  (n.wire x)[i]?.bind fun bytes => ((n.peers.sess x.peer).decoder.decode P bytes).1.toOption

end Network

/-! ## Flushes, seen from the history -/

namespace Peers

def during (p : Peers) (x : Role) (f : Flush) : Peers :=
  { p.setSess x f.sess with log := Function.update p.log x (p.log x ++ f.log) }

variable (p : Peers)

@[simp] theorem during_sess_self (x : Role) (f : Flush) :
    (p.during x f).sess x = f.sess := update_self _ _ _

theorem during_encoded (x : Role) (f f' : Flush) (d : Draft) (res : Except SeamError Bytes)
    (now : Nat)
    (hsess : f'.sess = match res with | .ok bytes => d.sent d.sess.bumped d.sess.encoder.nextPktNum bytes now | .error _ => d.sess.bumped)
    (hlog : f'.log = f.log ++ [(d.pktType, d.sess.encoder.nextPktNum, d.payload)]) :
    p.during x f' = (p.during x f).encoded x d res now := by
  unfold during encoded setSess
  simp [hsess, hlog]

theorem during_flushed {P : Primitives} (hP : P.Lawful) (I : Peers → Prop) {p : Peers} {x : Role}
    {now : Nat} (order : List Nat) (hI : I p)
    (hemit : ∀ (q : Peers) (em : Emission) (d : Draft) (res : Except SeamError Bytes), I q →
      (q.sess x).draft now em = some d → d.packet P = res → I (q.encoded x d res now)) :
    I (p.during x ((p.sess x).flushed P now order)) := by
  refine flush_invariant (fun f => I (p.during x f)) (fun f em hf => ?_) order ?_
  · rcases Flush.emit_cases hP now f em with hsame | ⟨-, d, hd, ⟨e, hseal, heq⟩ | ⟨bytes, hseal, heq⟩⟩
    · rw [hsame]
      exact hf
    · rw [p.during_encoded x f _ d (.error e) now (by rw [heq]) (by rw [heq])]
      exact hemit _ em d _ hf (by rw [during_sess_self]; exact hd) hseal
    · rw [p.during_encoded x f _ d (.ok bytes) now (by rw [heq]) (by rw [heq])]
      exact hemit _ em d _ hf (by rw [during_sess_self]; exact hd) hseal
  · have hstart : p.during x ⟨p.sess x, [], none, []⟩ = p := by
      unfold during setSess
      simp
    rw [hstart]
    exact hI

end Peers

/-! ## Bytes and history -/

namespace Network

variable (P : Primitives) (c : NetworkConfig)

def SealedBy (x : Role) (e : Decoded) (bytes : Bytes) : Prop :=
  sealPacket P (c.keys x) c.sessionId e.2.1 e.1 e.2.2 = .ok bytes

def identOf (x : Role) : Session.Ident := ⟨x, c.keys x, c.sessionId, c.keys x.peer, c.limits x⟩

variable {P c} in
theorem sealedBy_of_ident {x : Role} {s : Session} {t : PktType} {num : UInt64} {payload bytes : Bytes}
    (hident : s.ident = identOf c x)
    (hseal : sealPacket P s.encoder.keys s.encoder.sessionId num t payload = .ok bytes) :
    SealedBy P c x (t, num, payload) bytes := by
  rw [SealedBy, ← show _ = c.keys x from congrArg Session.Ident.encKeys hident,
    ← show _ = c.sessionId from congrArg Session.Ident.sessionId hident]
  exact hseal

/-- Keys and roles stay as agreed, and the bytes kept for retransmission are sealed Data packets of the
history, not too large for the decoder. -/
structure Tracked (p : Peers) : Prop where
  ident : ∀ x, (p.sess x).ident = identOf c x
  inFlight : ∀ x pn pkt, (p.sess x).arq.inFlight.get? pn = some pkt →
    ∃ e ∈ p.log x, e.1 = .data ∧ e.2.1.toNat = pn ∧ e.2.2.length ≤ 16 + maxPayload ∧
      SealedBy P c x e pkt.data

structure Wired (n : Network) : Prop where
  tracked : Tracked P c n.peers
  wire : ∀ x, ∀ bytes ∈ n.wire x, ∃ e ∈ n.peers.log x, SealedBy P c x e bytes

variable {P c}

theorem wired_init : Wired P c (init c) := by
  refine ⟨⟨fun x => rfl, fun x pn pkt h => ?_⟩, fun x bytes h => ?_⟩
  · cases h
  · cases h

theorem Tracked.decKeys {p : Peers} (h : Tracked P c p) (x : Role) :
    (p.sess x.peer).decoder.keys = c.keys x := by
  have hid := congrArg Session.Ident.decKeys (h.ident x.peer)
  rw [identOf, Role.peer_peer] at hid
  exact hid

variable {n : Network}

theorem Wired.mem_log (hw : Wired P c n) (hP : P.Lawful) {x : Role} {bytes : Bytes} {y : Decoded}
    (hbytes : bytes ∈ n.wire x) (hdec : ((n.peers.sess x.peer).decoder.decode P bytes).1 = .ok y) :
    y ∈ n.peers.log x ∧ (n.peers.sess x.peer).decoder.replay.check y.2.1 = .ok () := by
  obtain ⟨hauth, hcheck⟩ := (PacketDecoder.decode_ok_iff P _ bytes).mp hdec
  refine ⟨?_, hcheck⟩
  obtain ⟨e, he, hseal⟩ := hw.wire x bytes hbytes
  rw [hw.tracked.decKeys] at hauth
  by_cases hmax : encodeBufLen e.2.2.length ≤ maxPacketLen
  · rw [authenticate_sealPacket hP hseal hmax] at hauth
    cases hauth
    exact he
  · -- a packet too large for the decoder does not pass it
    have hlen := length_sealPacket hP hseal
    unfold authenticate at hauth
    rw [if_pos (by omega)] at hauth
    cases hauth

variable {n' : Network}

theorem Wired.deliver_cases (hw : Wired P c n) (hP : P.Lawful) {x : Role} {i now : Nat}
    (h : n.step P (.deliver x i now) = some n') :
    (n.accepts P x i = none ∧ n' = n) ∨ ∃ y p, n.accepts P x i = some y ∧ y ∈ n.peers.log x ∧
      (n.peers.sess x.peer).decoder.replay.check y.2.1 = .ok () ∧
      n.peers.accept x.peer y now = some p ∧ n' = { n with peers := p } := by
  simp only [step] at h
  split at h
  · cases h
  · next bytes hget =>
      obtain ⟨⟨res, s⟩, hrecv, rfl⟩ := map_eq_some_iff.mp h
      rcases (n.peers.sess x.peer).receivePacket_cases P bytes now with
        ⟨e, hdec, heq⟩ | ⟨y, hdec, heq⟩
      · left
        rw [heq] at hrecv
        cases hrecv
        refine ⟨?_, by simp only [hdec, Peers.setSess, update_eq_self]⟩
        rw [accepts, hget, bind_some, hdec]
        rfl
      · right
        obtain ⟨hlog, hcheck⟩ := hw.mem_log hP (mem_of_getElem? hget) hdec
        rw [heq] at hrecv
        refine ⟨y, n.peers.received x.peer y res s, ?_, hlog, hcheck, ?_, ?_⟩
        · rw [accepts, hget, bind_some, hdec]
          rfl
        · rw [Peers.accept, hrecv]
          rfl
        · simp only [hdec]

theorem flush_step_cases {x : Role} {now : Nat} {order : List Nat}
    (h : n.step P (.flush x now order) = some n') :
    order.Perm (n.peers.sess x).streams.keys ∧
    ((∃ e, ((n.peers.sess x).flushed P now order).error = some e ∧
      n' = { n with peers := n.peers.during x ((n.peers.sess x).flushed P now order) }) ∨
    (((n.peers.sess x).flushed P now order).error = none ∧
      n' = { n with peers := n.peers.during x ((n.peers.sess x).flushed P now order) }.transmit x
        (((n.peers.sess x).flushed P now order).packets.map TaggedPacket.bytes))) := by
  simp only [step] at h
  split at h
  · next hperm =>
      refine ⟨hperm, ?_⟩
      rcases (n.peers.sess x).flush_cases P now order with ⟨e, herr, heq⟩ | ⟨herr, heq⟩
      · rw [heq] at h
        cases h
        exact .inl ⟨e, herr, rfl⟩
      · rw [heq] at h
        cases h
        exact .inr ⟨herr, rfl⟩
  · cases h

variable {ev : NetEvent}

/-- **What an event can do to the sessions.** A property of sessions and history is kept by an event if
each of these keeps it: a call of the application, a `send`, a `read`, each encoding of a flush, a raw
packet, the restart of retransmission timers, and the acceptance of a packet of the history that the
replay window admits. -/
theorem step_peers (hP : P.Lawful) (hw : Wired P c n) (h : n.step P ev = some n') (I : Peers → Prop)
    (hI : I n.peers)
    (happ : ∀ x call s, ev = .app x call → (n.peers.sess x).appCall call = some s → I (n.peers.setSess x s))
    (hsend : ∀ x id data, ev = .send x id data → I (n.peers.send x id data))
    (hread : ∀ x id max p, ev = .read x id max → n.peers.read x id max = some p → I p)
    (hemit : ∀ x now order (q : Peers) em d res, ev = .flush x now order → I q → (q.sess x).draft now em = some d → d.packet P = res → I (q.encoded x d res now))
    (hraw : ∀ x t payload res, ev = .encodeRaw x t payload → rawType t = true → I (n.peers.encoded x (n.peers.rawDraft x t payload) res 0))
    (hretransmit : ∀ x now, ev = .retransmit x now → I (n.peers.setSess x ((n.peers.sess x).drainRetransmits now).2))
    (haccept : ∀ x i now y p, ev = .deliver x i now → n.accepts P x i = some y → y ∈ n.peers.log x → (n.peers.sess x.peer).decoder.replay.check y.2.1 = .ok () → n.peers.accept x.peer y now = some p → I p) :
    I n'.peers := by
  cases ev with
  | app x call =>
    obtain ⟨s, hcall, rfl⟩ := map_eq_some_iff.mp h
    exact happ x call s rfl hcall
  | send x id data =>
    cases h
    exact hsend x id data rfl
  | read x id max =>
    obtain ⟨p, hp, rfl⟩ := map_eq_some_iff.mp h
    exact hread x id max p rfl hp
  | flush x now order =>
    have hflush := Peers.during_flushed hP I order hI fun q em d res hq hd hseal =>
      hemit x now order q em d res rfl hq hd hseal
    rcases (flush_step_cases h).2 with ⟨e, -, rfl⟩ | ⟨-, rfl⟩
    · exact hflush
    · exact hflush
  | retransmit x now =>
    cases h
    exact hretransmit x now rfl
  | encodeRaw x t payload =>
    simp only [step] at h
    split at h
    · next ht =>
        split at h <;> cases h <;> exact hraw x t payload _ rfl ht
    · cases h
  | deliver x i now =>
    rcases hw.deliver_cases hP h with ⟨-, rfl⟩ | ⟨y, p, hy, hlog, hcheck, hacc, rfl⟩
    · exact hI
    · exact haccept x i now y p rfl hy hlog hcheck hacc

/-- **The same for properties of the packets.** Calls of the application leave encoder, decoder, tracker
and acknowledgements alone. -/
theorem step_packets (hP : P.Lawful) (hw : Wired P c n) (h : n.step P ev = some n') (I : Peers → Prop)
    (hI : I n.peers)
    (hcall : ∀ (q : Peers) x streams sendWindow nextStreamId pendingPing datagrams pendingCcAck, q.sess = update n.peers.sess x { n.peers.sess x with streams, sendWindow, nextStreamId, pendingPing, datagrams, pendingCcAck } → q.log = n.peers.log → q.accepted = n.peers.accepted → I q)
    (hemit : ∀ x now (q : Peers) em d res, I q → (q.sess x).draft now em = some d → d.packet P = res → I (q.encoded x d res now))
    (hraw : ∀ x t payload res, rawType t = true → I (n.peers.encoded x (n.peers.rawDraft x t payload) res 0))
    (hretransmit : ∀ x now, I (n.peers.setSess x ((n.peers.sess x).drainRetransmits now).2))
    (haccept : ∀ x i now y p, ev = .deliver x i now → n.accepts P x i = some y → y ∈ n.peers.log x → (n.peers.sess x.peer).decoder.replay.check y.2.1 = .ok () → n.peers.accept x.peer y now = some p → I p) :
    I n'.peers := by
  refine step_peers hP hw h I hI ?_ ?_ ?_ (fun x now _ q em d res _ => hemit x now q em d res)
    (fun x t payload res _ => hraw x t payload res) (fun x now _ => hretransmit x now) haccept
  · intro x call s _ h
    obtain ⟨_, _, _, _, _, rfl⟩ := appCall_eq h
    exact hcall _ x _ _ _ _ _ _ rfl rfl rfl
  · intro x id data _
    obtain ⟨_, _, heq⟩ := (n.peers.sess x).send_eq id data
    obtain ⟨hsess, hlog, hacc⟩ := n.peers.send_frame x id data
    exact hcall _ x _ _ _ _ _ _ (heq ▸ hsess) hlog hacc
  · intro x id max p _ hread
    obtain ⟨⟨r, s⟩, hr, rfl⟩ := map_eq_some_iff.mp hread
    obtain ⟨_, rfl⟩ := read_eq hr
    dsimp only
    split <;> exact hcall _ x _ _ _ _ _ _ rfl rfl rfl

/-! ## One side at a time -/

end Network

structure Side where
  sess : Session
  log : List Decoded
  accepted : List Decoded
  written : Nat → Bytes
  readOut : Nat → Bytes

namespace Peers

def side (p : Peers) (x : Role) : Side :=
  ⟨p.sess x, p.log x, p.accepted x, p.written x, p.readOut x⟩

variable (p : Peers)

@[simp] theorem side_setSess_self (x : Role) (s : Session) :
    (p.setSess x s).side x = { p.side x with sess := s } := by
  simp [side, setSess]

theorem side_setSess_of_ne {x z : Role} (s : Session) (h : z ≠ x) :
    (p.setSess x s).side z = p.side z := by
  simp [side, setSess, h]

theorem side_send_of_ne {x z : Role} (id : Nat) (data : Bytes) (h : z ≠ x) :
    (p.send x id data).side z = p.side z := by
  unfold send
  dsimp only
  split <;> simp [side, setSess, h]

theorem side_read_of_ne {p q : Peers} {x z : Role} {id max : Nat} (hr : p.read x id max = some q)
    (h : z ≠ x) : q.side z = p.side z := by
  obtain ⟨⟨r, s⟩, -, rfl⟩ := map_eq_some_iff.mp hr
  dsimp only
  split <;> simp [side, setSess, h]

theorem side_encoded_of_ne {x z : Role} (d : Draft) (res : Except SeamError Bytes) (now : Nat)
    (h : z ≠ x) : (p.encoded x d res now).side z = p.side z := by
  simp [side, encoded, h]

@[simp] theorem side_encoded_self (x : Role) (d : Draft) (res : Except SeamError Bytes) (now : Nat) :
    (p.encoded x d res now).side x = { p.side x with
      sess := match res with
        | .ok bytes => d.sent d.sess.bumped d.sess.encoder.nextPktNum bytes now
        | .error _ => d.sess.bumped
      log := p.log x ++ [(d.pktType, d.sess.encoder.nextPktNum, d.payload)] } := by
  simp [side, encoded]

theorem side_received_of_ne {x z : Role} (y : Decoded) (res : Except SeamError (List SessionEvent))
    (s : Session) (h : z ≠ x) : (p.received x y res s).side z = p.side z := by
  simp [side, received, h]

@[simp] theorem side_received_self (x : Role) (y : Decoded)
    (res : Except SeamError (List SessionEvent)) (s : Session) :
    (p.received x y res s).side x
      = { p.side x with sess := s, accepted := y :: p.accepted x } := by
  simp [side, received]

end Peers

namespace Network

variable {n n' : Network} {ev : NetEvent}

/-- **Every event changes one side only**: a property of single sides holds after an event if the event
keeps it for that side. -/
theorem step_sides (hP : P.Lawful) (hw : Wired P c n) (h : n.step P ev = some n') (J : Side → Prop)
    (hJ : ∀ x, J (n.peers.side x))
    (happ : ∀ x call s, ev = .app x call → (n.peers.sess x).appCall call = some s → J { n.peers.side x with sess := s })
    (hsend : ∀ x id data, ev = .send x id data → J ((n.peers.send x id data).side x))
    (hread : ∀ x id max p, ev = .read x id max → n.peers.read x id max = some p → J (p.side x))
    (hemit : ∀ x now order (q : Peers) em d res, ev = .flush x now order → J (q.side x) → (q.sess x).draft now em = some d → d.packet P = res → J ((q.encoded x d res now).side x))
    (hraw : ∀ x t payload res, ev = .encodeRaw x t payload → rawType t = true → J ((n.peers.encoded x (n.peers.rawDraft x t payload) res 0).side x))
    (hretransmit : ∀ x now, ev = .retransmit x now → J { n.peers.side x with sess := ((n.peers.sess x).drainRetransmits now).2 })
    (haccept : ∀ x i now y p, ev = .deliver x i now → n.accepts P x i = some y → y ∈ n.peers.log x → n.peers.accept x.peer y now = some p → J (p.side x.peer)) :
    ∀ x, J (n'.peers.side x) := by
  have hother : ∀ (p q : Peers) (x : Role), (∀ z, J (p.side z)) → J (q.side x) →
      (∀ z, z ≠ x → q.side z = p.side z) → ∀ z, J (q.side z) := by
    intro p q x hp hx hne z
    by_cases hz : z = x
    · exact hz ▸ hx
    · rw [hne z hz]
      exact hp z
  refine step_peers hP hw h (fun q => ∀ z, J (q.side z)) hJ ?_ ?_ ?_ ?_ ?_ ?_ ?_
  · intro x call s hev hcall
    refine hother _ _ x hJ ?_ fun z hz => Peers.side_setSess_of_ne _ s hz
    rw [Peers.side_setSess_self]
    exact happ x call s hev hcall
  · intro x id data hev
    exact hother _ _ x hJ (hsend x id data hev) fun z hz => Peers.side_send_of_ne _ id data hz
  · intro x id max p hev hp
    exact hother _ _ x hJ (hread x id max p hev hp) fun z hz => Peers.side_read_of_ne hp hz
  · intro x now order q em d res hev hq hd hseal
    exact hother _ _ x hq (hemit x now order q em d res hev (hq x) hd hseal)
      fun z hz => Peers.side_encoded_of_ne _ d res now hz
  · intro x t payload res hev ht
    exact hother _ _ x hJ (hraw x t payload res hev ht)
      fun z hz => Peers.side_encoded_of_ne _ _ res 0 hz
  · intro x now hev
    refine hother _ _ x hJ ?_ fun z hz => Peers.side_setSess_of_ne _ _ hz
    rw [Peers.side_setSess_self]
    exact hretransmit x now hev
  · intro x i now y p hev hy hlog _ hacc
    refine hother _ _ x.peer hJ (haccept x i now y p hev hy hlog hacc) fun z hz => ?_
    obtain ⟨⟨res, s⟩, -, rfl⟩ := map_eq_some_iff.mp hacc
    exact Peers.side_received_of_ne _ y res s hz

/-! ## The wire invariant -/

variable {p q : Peers} {s : Session}

theorem Tracked.update (h : Tracked P c p) {x : Role} (hs : q.sess = Function.update p.sess x s)
    (hlog : ∀ z, p.log z ⊆ q.log z) (hid : s.ident = (p.sess x).ident)
    (hfl : ∀ pn pkt, s.arq.inFlight.get? pn = some pkt → (∃ pkt', (p.sess x).arq.inFlight.get? pn = some pkt' ∧ pkt'.data = pkt.data) ∨ (∃ e ∈ q.log x, e.1 = .data ∧ e.2.1.toNat = pn ∧ e.2.2.length ≤ 16 + maxPayload ∧ SealedBy P c x e pkt.data)) :
    Tracked P c q := by
  have hold : ∀ z pn pkt, (p.sess z).arq.inFlight.get? pn = some pkt →
      ∃ e ∈ q.log z, e.1 = .data ∧ e.2.1.toNat = pn ∧ e.2.2.length ≤ 16 + maxPayload ∧
        SealedBy P c z e pkt.data := by
    intro z pn pkt hpkt
    obtain ⟨e, he, hrest⟩ := h.inFlight z pn pkt hpkt
    exact ⟨e, hlog z he, hrest⟩
  refine ⟨fun z => ?_, fun z pn pkt hpkt => ?_⟩
  · by_cases hz : z = x
    · rw [hs, hz, update_self, hid, h.ident]
    · rw [hs, update_of_ne hz, h.ident]
  · by_cases hz : z = x
    · subst hz
      rw [hs, update_self] at hpkt
      rcases hfl pn pkt hpkt with ⟨pkt', hpkt', hdata⟩ | hnew
      · obtain ⟨e, he, ht, hn, hlen, hseal⟩ := hold z pn pkt' hpkt'
        exact ⟨e, he, ht, hn, hlen, hdata ▸ hseal⟩
      · exact hnew
    · rw [hs, update_of_ne hz] at hpkt
      exact hold z pn pkt hpkt

theorem Tracked.update_of_arq (h : Tracked P c p) {x : Role}
    (hs : q.sess = Function.update p.sess x s) (hlog : ∀ z, p.log z ⊆ q.log z)
    (hid : s.ident = (p.sess x).ident) (harq : s.arq = (p.sess x).arq) : Tracked P c q :=
  h.update hs hlog hid fun pn pkt hpkt => .inl ⟨pkt, by rw [← harq, hpkt], rfl⟩

theorem log_subset_encoded (p : Peers) (x : Role) (d : Draft) (res : Except SeamError Bytes)
    (now : Nat) (z : Role) : p.log z ⊆ (p.encoded x d res now).log z := by
  unfold Peers.encoded
  dsimp only
  by_cases hz : z = x
  · simp [hz]
  · rw [update_of_ne hz]
    exact List.Subset.refl _

theorem Tracked.encoded (h : Tracked P c p) {x : Role} {now : Nat} {em : Emission} {d : Draft}
    {res : Except SeamError Bytes} (hd : (p.sess x).draft now em = some d)
    (hseal : d.packet P = res) : Tracked P c (p.encoded x d res now) := by
  obtain ⟨_, _, _, _, _, _, hds⟩ := draft_eq hd
  have hid : d.sess.ident = (p.sess x).ident := by
    rw [hds]
    rfl
  cases res with
  | error e =>
    refine h.update_of_arq rfl (log_subset_encoded p x d _ now) ?_ ?_
    · exact hid
    · rw [hds]
      rfl
  | ok bytes =>
    refine h.update rfl (log_subset_encoded p x d _ now) ?_ fun pn pkt hpkt => ?_
    · exact hid
    · have harq : d.sess.arq = (p.sess x).arq := by
        rw [hds]
      by_cases htr : d.tracked = true
      · simp only [Draft.sent, htr, if_true, ArqTracker.onSent] at hpkt
        rw [SortedMap.get?_insert] at hpkt
        split_ifs at hpkt with heq
        · -- the packet just sent; only Data packets are tracked
          cases hpkt
          right
          obtain ⟨ht, hlen⟩ := draft_tracked hd htr
          exact ⟨(d.pktType, d.sess.encoder.nextPktNum, d.payload), by simp [Peers.encoded], ht,
            heq.symm, hlen, sealedBy_of_ident (hid.trans (h.ident x)) hseal⟩
        · exact .inl ⟨pkt, by rw [← harq]; exact hpkt, rfl⟩
      · simp only [Draft.sent, htr] at hpkt
        exact .inl ⟨pkt, by rw [← harq]; exact hpkt, rfl⟩

theorem tracked_step (hP : P.Lawful) (hw : Wired P c n) (h : n.step P ev = some n') :
    Tracked P c n'.peers := by
  have ht := hw.tracked
  refine step_packets hP hw h (Tracked P c) ht ?_ (fun x now q em d res hq => hq.encoded) ?_ ?_ ?_
  · intro q x _ _ _ _ _ _ hsess hlog _
    exact ht.update_of_arq hsess (fun _ => hlog ▸ List.Subset.refl _) rfl rfl
  · intro x t payload res _
    refine ht.update_of_arq rfl (log_subset_encoded _ _ _ _ _) ?_ ?_
    · cases res <;> rfl
    · cases res <;> rfl
  · intro x now
    refine ht.update rfl (fun _ => List.Subset.refl _) rfl fun pn pkt hpkt => .inl ?_
    have hdata := (n.peers.sess x).arq.drainExpired_data now pn
    have hpkt' : ((n.peers.sess x).arq.drainExpired now).2.inFlight.get? pn = some pkt := hpkt
    rw [hpkt', map_some, eq_comm, map_eq_some_iff] at hdata
    exact hdata
  · intro x i now y p _ _ _ _ hacc
    obtain ⟨⟨res, s⟩, hdisp, rfl⟩ := map_eq_some_iff.mp hacc
    refine ht.update rfl (fun _ => List.Subset.refl _) ?_ fun pn pkt hpkt => .inl ?_
    · obtain ⟨_, _, _, _, _, _, _, _, rfl⟩ := dispatch_eq hdisp
      rfl
    · rw [dispatch_inFlight hdisp] at hpkt
      split_ifs at hpkt
      exact ⟨pkt, hpkt, rfl⟩

theorem flushed_packets (hP : P.Lawful) {x : Role} (hs : s.ident = identOf c x) (now : Nat)
    (order : List Nat) : ∀ pkt ∈ (s.flushed P now order).packets,
      ∃ e ∈ (s.flushed P now order).log, SealedBy P c x e pkt.bytes := by
  refine (flush_invariant (fun f => f.sess.ident = identOf c x ∧ ∀ pkt ∈ f.packets, ∃ e ∈ f.log,
    SealedBy P c x e pkt.bytes) (fun f em hf => ?_) order ⟨hs, fun _ h => nomatch h⟩).2
  obtain ⟨hident, hpk⟩ := hf
  have hold : ∀ e, ∀ pkt ∈ f.packets, ∃ e' ∈ f.log ++ [e], SealedBy P c x e' pkt.bytes := by
    intro e pkt hpkt
    obtain ⟨e', he', hseal⟩ := hpk pkt hpkt
    exact ⟨e', mem_append_left _ he', hseal⟩
  rcases Flush.emit_cases hP now f em with hsame | ⟨-, d, hd, hcase⟩
  · rw [hsame]
    exact ⟨hident, hpk⟩
  · obtain ⟨_, _, _, _, _, _, hds⟩ := draft_eq hd
    have hid : d.sess.ident = identOf c x := by
      rw [hds]
      exact hident
    rcases hcase with ⟨e, -, heq⟩ | ⟨bytes, hseal, heq⟩
    · rw [heq]
      exact ⟨hid, hold _⟩
    · rw [heq]
      refine ⟨hid, fun pkt hpkt => ?_⟩
      rcases mem_append.mp hpkt with hpkt | hpkt
      · exact hold _ pkt hpkt
      · rw [mem_singleton.mp hpkt]
        exact ⟨_, mem_append_right _ (mem_singleton.mpr rfl), sealedBy_of_ident hid hseal⟩

theorem wire_transmit (h : ∀ x, ∀ bytes ∈ n.wire x, ∃ e ∈ n.peers.log x, SealedBy P c x e bytes)
    {x : Role} {packets : List Bytes} (hlog : ∀ z, n.peers.log z ⊆ p.log z)
    (hpk : ∀ bytes ∈ packets, ∃ e ∈ p.log x, SealedBy P c x e bytes) (z : Role) (bytes : Bytes)
    (hb : bytes ∈ (({ n with peers := p } : Network).transmit x packets).wire z) :
    ∃ e ∈ p.log z, SealedBy P c z e bytes := by
  have hold : ∀ z, ∀ bytes ∈ n.wire z, ∃ e ∈ p.log z, SealedBy P c z e bytes := by
    intro z bytes hb
    obtain ⟨e, he, hseal⟩ := h z bytes hb
    exact ⟨e, hlog z he, hseal⟩
  unfold transmit at hb
  dsimp only at hb
  by_cases hz : z = x
  · subst hz
    rw [update_self] at hb
    rcases mem_append.mp hb with hb | hb
    · exact hold z bytes hb
    · exact hpk bytes hb
  · rw [update_of_ne hz] at hb
    exact hold z bytes hb

theorem wired_step (hP : P.Lawful) (hw : Wired P c n) (h : n.step P ev = some n') : Wired P c n' := by
  refine ⟨tracked_step hP hw h, ?_⟩
  cases ev with
  | app x call =>
    obtain ⟨s, hcall, rfl⟩ := map_eq_some_iff.mp h
    exact hw.wire
  | send x id data =>
    cases h
    rw [(n.peers.send_frame x id data).2.1]
    exact hw.wire
  | read x id max =>
    obtain ⟨p, hp, rfl⟩ := map_eq_some_iff.mp h
    obtain ⟨⟨r, s⟩, hr, rfl⟩ := map_eq_some_iff.mp hp
    dsimp only
    split <;> exact hw.wire
  | flush x now order =>
    have hpk := flushed_packets hP (hw.tracked.ident x) now order
    set f := (n.peers.sess x).flushed P now order with hf
    have hgrow : ∀ z, n.peers.log z ⊆ (n.peers.during x f).log z := by
      intro z
      unfold Peers.during
      dsimp only
      by_cases hz : z = x
      · simp [hz]
      · rw [update_of_ne hz]
        exact List.Subset.refl _
    have hnew : ∀ bytes ∈ f.packets.map TaggedPacket.bytes,
        ∃ e ∈ (n.peers.during x f).log x, SealedBy P c x e bytes := by
      intro bytes hb
      obtain ⟨pkt, hpkt, rfl⟩ := mem_map.mp hb
      obtain ⟨e, he, hseal⟩ := hpk pkt hpkt
      refine ⟨e, ?_, hseal⟩
      unfold Peers.during
      dsimp only
      simpa using mem_append_right _ he
    rcases (flush_step_cases h).2 with ⟨e, -, rfl⟩ | ⟨-, rfl⟩
    · intro z bytes hb
      obtain ⟨e, he, hseal⟩ := hw.wire z bytes hb
      exact ⟨e, hgrow z he, hseal⟩
    · exact fun z bytes hb => wire_transmit hw.wire hgrow hnew z bytes hb
  | retransmit x now =>
    cases h
    refine fun z bytes hb => wire_transmit hw.wire (fun _ => List.Subset.refl _) ?_ z bytes hb
    intro bytes hb
    obtain ⟨e, he, rfl⟩ := mem_map.mp hb
    obtain ⟨pkt, hpkt, hdata⟩ := ArqTracker.mem_drainExpired he
    obtain ⟨e', he', -, -, -, hseal⟩ := hw.tracked.inFlight x e.1 pkt hpkt
    exact ⟨e', he', hdata ▸ hseal⟩
  | encodeRaw x t payload =>
    have hgrow := fun res => log_subset_encoded n.peers x (n.peers.rawDraft x t payload) res 0
    simp only [step] at h
    split at h
    · rw [encodePacket_eq hP] at h
      split at h
      · next bytes hseal =>
          cases h
          refine fun z b hb => wire_transmit hw.wire (hgrow _) ?_ z b hb
          intro b hb
          rw [mem_singleton.mp hb]
          exact ⟨(t, (n.peers.sess x).encoder.nextPktNum, payload),
            by simp [Peers.encoded, Peers.rawDraft], sealedBy_of_ident (hw.tracked.ident x) hseal⟩
      · cases h
        intro z bytes hb
        obtain ⟨e, he, hseal⟩ := hw.wire z bytes hb
        exact ⟨e, hgrow _ z he, hseal⟩
    · cases h
  | deliver x i now =>
    rcases hw.deliver_cases hP h with ⟨-, rfl⟩ | ⟨y, p, -, -, -, hacc, rfl⟩
    · exact hw.wire
    · obtain ⟨⟨res, s⟩, -, rfl⟩ := map_eq_some_iff.mp hacc
      exact hw.wire

/-- **Run rule.** In every run whose events meet a condition, the wire invariant holds, and every
property that holds at the start and is kept by each such event. -/
theorem run_invariant (hP : P.Lawful) (ok : Network → NetEvent → Prop) (I : Peers → Prop)
    (hinit : I (init c).peers)
    (hstep : ∀ n ev n', Wired P c n → I n.peers → ok n ev → n.step P ev = some n' → I n'.peers)
    {evs : List NetEvent} (hok : Meets (step P) ok (init c) evs)
    (hrun : exec (step P) (init c) evs = some n) : Wired P c n ∧ I n.peers :=
  exec_invariant_of_meets (fun n => Wired P c n ∧ I n.peers)
    (fun n ev n' hn hev hs => ⟨wired_step hP hn.1 hs, hstep n ev n' hn.1 hn.2 hev hs⟩)
    ⟨wired_init, hinit⟩ hok hrun

end Network

end SeamProtocol
