import SeamProtocol.Transport.Calls
import SeamProtocol.Network.System

/-! # Closing a connection

`close` only sets the phase: no packet is sent, incoming packets are ignored from then on, and what was
not acknowledged is sent again only as long as the closed connection is driven by `tick`. A session
reports the end of the connection when it receives a Close packet. -/

namespace SeamProtocol

open Lib Function List Option Session Connection

/-! ## Two connections -/

structure Duplex (X : Platform) where
  conn : Role → Connection X
  wire : Role → List Bytes
  sealed : Role → List Decoded

inductive DuplexEvent where
  | call (x : Role) (env : Env) (call : Connection.Call)
  | deliver (x : Role) (i : Nat) (env : Env)

namespace Duplex

variable {X : Platform}

/-- Two connections whose handshake is complete. Their addresses, controllers, clocks and traffic
settings are arbitrary. -/
def init (c : NetworkConfig) (base : Role → Connection X) : Duplex X where
  conn x := { base x with
    phase := .established
    session := some ((Network.init c).peers.sess x)
    events := [] }
  wire _ := []
  sealed _ := []

def after (d : Duplex X) (x : Role) (r : Reply X) (encoded : List Decoded) : Duplex X where
  conn := Function.update d.conn x r.conn
  wire := Function.update d.wire x (d.wire x ++ r.sent)
  sealed := Function.update d.sealed x (d.sealed x ++ encoded)

/-- What reaches the other side when datagram `i` of side `x` is delivered, after
`deobfuscate_incoming`, which no loop calls. -/
def arriving (d : Duplex X) (x : Role) (i : Nat) : Option Bytes :=
  (d.wire x)[i]?.map (d.conn x.peer).tar.maybeDeobfuscate

def step (d : Duplex X) : DuplexEvent → Option (Duplex X)
  | .call x env call =>
    ((d.conn x).call env call).map fun r => d.after x r ((d.conn x).encodes env call)
  | .deliver x i env =>
    (d.arriving x i).bind fun buf =>
      ((d.conn x.peer).onPacket env buf).map fun r =>
        d.after x.peer r ((d.conn x.peer).packetEncodes env buf)

/-- The condition on deliveries, the authenticity that the AEAD gives: what a session decodes was
encoded by the other side. -/
def authentic (d : Duplex X) : DuplexEvent → Prop
  | .call .. => True
  | .deliver x i _ => ∀ buf ∈ d.arriving x i, ∀ s ∈ (d.conn x.peer).session,
      ∀ y ∈ (s.decoder.decode X.P buf).1.toOption, y ∈ d.sealed x

instance (d : Duplex X) : ∀ ev, Decidable (d.authentic ev)
  | .call .. => isTrue trivial
  | .deliver x i _ => inferInstanceAs (Decidable (∀ buf ∈ d.arriving x i,
      ∀ s ∈ (d.conn x.peer).session, ∀ y ∈ (s.decoder.decode X.P buf).1.toOption, y ∈ d.sealed x))

end Duplex

/-! ## No Close packet is encoded -/

variable {s : Session} {now : Nat}

theorem Session.draft_ne_close {em : Emission} {d : Draft} (h : s.draft now em = some d) :
    d.pktType ≠ .close := by
  rcases draft_shape h with ⟨_, _, _, _, -, -, -, rfl⟩ | ⟨_, _, -, -, -, rfl⟩ | ⟨-, -, htype, -⟩
  · simp
  · simp
  · rintro hclose
    rw [hclose] at htype
    simp at htype

theorem Flush.emit_log (P : Primitives) (now : Nat) (f : Flush) (em : Emission) :
    (f.emit P now em).log = f.log ∨ ∃ d, f.sess.draft now em = some d ∧
      (f.emit P now em).log = f.log ++ [(d.pktType, d.sess.encoder.nextPktNum, d.payload)] := by
  unfold Flush.emit
  split
  · exact .inl rfl
  · split
    · exact .inl rfl
    · next d hd =>
        refine .inr ⟨d, hd, ?_⟩
        split <;> rfl

namespace Connection

variable {X : Platform} {env : Env} {c : Connection X} {e : Decoded}

theorem ne_close_of_mem_flushEncodes (he : e ∈ c.flushEncodes env) : e.1 ≠ .close := by
  unfold flushEncodes at he
  split at he
  · exact (not_mem_nil he).elim
  · refine flush_invariant (fun f => ∀ e : Decoded, e ∈ f.log → e.1 ≠ .close) (fun f em hf => ?_)
        env.order (fun e he => (not_mem_nil he).elim) e he
    rcases f.emit_log X.P env.now em with hlog | ⟨d, hd, hlog⟩
    · rw [hlog]
      exact hf
    · rw [hlog]
      intro e he
      rcases mem_append.mp he with hold | hnew
      · exact hf e hold
      · rw [mem_singleton.mp hnew]
        exact draft_ne_close hd

variable {call : Call}

theorem ne_close_of_mem_encodes (he : e ∈ c.encodes env call) : e.1 ≠ .close := by
  rw [encodes.eq_def] at he
  split at he
  · next path payload =>
      split at he
      · next pktType s htype hs =>
          rw [mem_singleton.mp he]
          cases path <;> cases htype <;> simp
      · exact (not_mem_nil he).elim
  · split at he
    · exact (not_mem_nil he).elim
    · exact ne_close_of_mem_flushEncodes he

variable {evs : List SessionEvent}

theorem ne_close_of_mem_eventsEncode (he : e ∈ eventsEncode env c evs) : e.1 ≠ .close := by
  induction evs generalizing env c with
  | nil => exact (not_mem_nil he).elim
  | cons ev rest ih =>
    rw [eventsEncode.eq_def] at he
    split at he
    · exact (not_mem_nil he).elim
    · next nonce rest' heq =>
        cases heq
        rcases mem_append.mp he with hfirst | hrest
        · split at hfirst
          · exact (not_mem_nil hfirst).elim
          · rw [mem_singleton.mp hfirst]
            simp
        · split at hrest
          · exact ih hrest
          · exact (not_mem_nil hrest).elim
    · next nonce rest' heq =>
        cases heq
        exact ih he
    · next ev' rest' _ _ heq =>
        cases heq
        exact ih he

theorem ne_close_of_mem_packetEncodes {buf : Bytes} (he : e ∈ c.packetEncodes env buf) :
    e.1 ≠ .close := by
  unfold packetEncodes at he
  split at he
  · exact (not_mem_nil he).elim
  · rcases mem_append.mp he with hevents | hflush
    · exact ne_close_of_mem_eventsEncode hevents
    · split at hflush
      · exact (not_mem_nil hflush).elim
      · exact ne_close_of_mem_flushEncodes hflush

/-! ## What calls report -/

def SameFront (c c' : Connection X) : Prop := c'.phase = c.phase ∧ c'.events = c.events

theorem SameFront.trans {c' c'' : Connection X} (h : c.SameFront c') (h' : c'.SameFront c'') :
    c.SameFront c'' := ⟨h'.1.trans h.1, h'.2.trans h.2⟩

theorem sameFront_flushLoop {c₀ : Connection X} (packets : List TaggedPacket) (env : Env)
    (hc : c₀.SameFront c) : c₀.SameFront (flushLoop env c packets).conn := by
  induction packets generalizing env c with
  | nil => exact hc
  | cons tp rest ih =>
    rw [flushLoop]
    split
    · exact andThen_conn (I := c₀.SameFront) (sendTo_conn ⟨hc.1, hc.2⟩ ⟨hc.1, hc.2⟩ _)
        fun c' hc' => ih _ hc'
    · split
      · exact hc
      · exact andThen_conn (I := c₀.SameFront) (sendTo_conn ⟨hc.1, hc.2⟩ ⟨hc.1, hc.2⟩ _)
          fun c' hc' => ih _ hc'

theorem sameFront_flush (env : Env) (c : Connection X) : c.SameFront (c.flush env).conn := by
  unfold flush
  split
  · exact ⟨rfl, rfl⟩
  · split
    · exact ⟨rfl, rfl⟩
    · exact sameFront_flushLoop _ env ⟨rfl, rfl⟩

theorem sameFront_retransmitExpired (env : Env) (c : Connection X) :
    c.SameFront (c.retransmitExpired env).conn := by
  have hloop : ∀ (due : List (Nat × Bytes)) (env : Env) (k : Connection X), c.SameFront k →
      c.SameFront (retransmitLoop env k due).conn := by
    intro due
    induction due with
    | nil => exact fun env k hk => hk
    | cons e rest ih =>
      intro env k hk
      exact andThen_conn (I := c.SameFront) (sendTo_conn ⟨hk.1, hk.2⟩ ⟨hk.1, hk.2⟩ _)
        fun c' hc' => ih _ c' hc'
  unfold retransmitExpired
  split
  · exact ⟨rfl, rfl⟩
  · exact hloop _ env _ ⟨rfl, rfl⟩

theorem call_front {r : Reply X} (h : c.call env call = some r) :
    r.conn.events = c.events ∧ (r.conn.phase = c.phase ∨ r.conn.phase = .draining) := by
  have hsame : c.SameFront r.conn → r.conn.events = c.events ∧
      (r.conn.phase = c.phase ∨ r.conn.phase = .draining) := fun hf => ⟨hf.2, .inl hf.1⟩
  cases call with
  | openStream =>
    obtain ⟨c', hc', rfl⟩ := map_eq_some_iff.mp h
    obtain ⟨s, -, hs⟩ := bind_eq_some_iff.mp hc'
    split at hs <;> cases hs
    exact hsame ⟨rfl, rfl⟩
  | write id data =>
    obtain ⟨s, -, rfl⟩ := map_eq_some_iff.mp h
    split
    · exact ⟨rfl, .inl rfl⟩
    · have hf := sameFront_flush env { c with session := some ‹Session› }
      exact ⟨hf.2, .inl hf.1⟩
  | sendDatagram data =>
    obtain ⟨s, -, hs⟩ := bind_eq_some_iff.mp h
    obtain ⟨⟨res, s'⟩, -, rfl⟩ := map_eq_some_iff.mp hs
    cases res with
    | error e => exact ⟨rfl, .inl rfl⟩
    | ok u =>
      have hf := sameFront_flush env { c with session := some s' }
      exact ⟨hf.2, .inl hf.1⟩
  | sendFin id =>
    cases h
    have hf := sameFront_flush env { c with session := c.session.map fun s => s.finishStream id }
    exact ⟨hf.2, .inl hf.1⟩
  | read id max =>
    obtain ⟨s, -, hs⟩ := bind_eq_some_iff.mp h
    obtain ⟨⟨res, s'⟩, -, rfl⟩ := map_eq_some_iff.mp hs
    cases res <;> exact ⟨rfl, .inl rfl⟩
  | recvDatagram =>
    cases h
    exact ⟨rfl, .inl rfl⟩
  | flush =>
    cases h
    exact hsame (sameFront_flush env c)
  | retransmitExpired =>
    cases h
    exact hsame (sameFront_retransmitExpired env c)
  | tick =>
    cases h
    refine hsame ?_
    have hping : c.SameFront (c.maybeQueuePing env) := by
      unfold maybeQueuePing
      split <;> exact ⟨rfl, rfl⟩
    exact andThen_conn (I := c.SameFront) (hping.trans (sameFront_flush env _))
      fun c' hc' => hc'.trans (sameFront_retransmitExpired _ c')
  | sendExtra path payload =>
    unfold call sendExtra at h
    dsimp only at h
    split at h
    · next pktType s _ _ =>
        have hraw : c.SameFront (c.encodeRaw s pktType payload).2 := ⟨rfl, rfl⟩
        cases h
        split
        · next e c' heq =>
            rw [heq] at hraw
            exact ⟨hraw.2, .inl hraw.1⟩
        · next packet c' heq =>
            rw [heq] at hraw
            have hsent : c.SameFront (c'.sendTo env (c'.tar.transform path packet).1 c').conn :=
              sendTo_conn hraw hraw _
            exact ⟨hsent.2, .inl hsent.1⟩
    · cases h
  | close =>
    cases h
    exact ⟨rfl, .inr rfl⟩

theorem sameFront_sendPathResponse (env : Env) (c : Connection X) (nonce : Nat) :
    c.SameFront (c.sendPathResponse env nonce).conn := by
  unfold sendPathResponse
  split
  · exact ⟨rfl, rfl⟩
  · next s _ =>
      have hraw : c.SameFront (c.encodeRaw s .pathResponse (leBytes 8 nonce)).2 := ⟨rfl, rfl⟩
      split
      · next e c' heq =>
          rw [heq] at hraw
          exact hraw
      · next packet c' heq =>
          rw [heq] at hraw
          exact sendTo_conn hraw hraw _

theorem closed_mem_handleEvents (h : .closed ∈ (handleEvents env c evs).conn.events) :
    .closed ∈ c.events ∨ .closed ∈ evs := by
  induction evs generalizing env c with
  | nil => exact .inl h
  | cons ev rest ih =>
    have hmono : (.closed ∈ c.events ∨ .closed ∈ rest) → .closed ∈ c.events ∨ .closed ∈ ev :: rest :=
      fun h => h.imp_right (mem_cons_of_mem _)
    rw [handleEvents.eq_def] at h
    dsimp only at h
    split at h
    · cases ‹_ = _›
    · next nonce rest' heq =>
        cases heq
        have hfront := sameFront_sendPathResponse env c nonce
        unfold Reply.andThen at h
        split at h
        · rw [hfront.2] at h
          exact .inl h
        · have hrest := ih h
          rw [hfront.2] at hrest
          exact hmono hrest
    · next nonce rest' heq =>
        cases heq
        exact hmono (ih h)
    · next ev' rest' _ _ heq =>
        cases heq
        rcases ih h with hold | hrest
        · rcases mem_append.mp hold with hold | hnew
          · exact .inl hold
          · exact .inr (mem_singleton.mp hnew ▸ mem_cons_self)
        · exact hmono (.inr hrest)

theorem sameFront_feedAck (env : Env) (c : Connection X) : c.SameFront (c.feedAck env) := by
  unfold feedAck
  split
  · exact ⟨rfl, rfl⟩
  · split <;> exact ⟨rfl, rfl⟩

end Connection

variable {s' : Session} {events : List SessionEvent}

theorem Session.closed_mem_dispatch {pktType : PktType} {payload : Bytes}
    (h : s.dispatch pktType payload now = some (.ok events, s')) (hmem : .closed ∈ events) :
    pktType = .close := by
  rcases dispatch_cases h with ⟨-, hframe⟩ | ⟨-, hr, -⟩ | ⟨-, -, hr, -⟩ | ⟨-, -, -, ⟨_, hr, hev⟩, -⟩
  · exfalso
    rcases s.handleDataFrame_cases payload with
      ⟨-, heq⟩ | ⟨f, e, -, -, -, heq⟩ | ⟨f, -, -, heq⟩
    · rw [heq] at hframe
      cases hframe
      exact not_mem_nil hmem
    · rw [heq] at hframe
      cases hframe
    · rw [heq] at hframe
      unfold deliverFrame at hframe
      dsimp only at hframe
      split at hframe
      · cases hframe
      · cases hframe
        split_ifs at hmem <;> simp at hmem
  · cases hr
    exact absurd hmem not_mem_nil
  · cases hr
    exact absurd hmem not_mem_nil
  · cases hr
    exact (hev _ hmem).2 rfl

theorem Session.closed_mem_receivePacket {P : Primitives} {buf : Bytes}
    (h : s.receivePacket P buf now = some (.ok events, s')) (hmem : .closed ∈ events) :
    ∃ y, (s.decoder.decode P buf).1 = .ok y ∧ y.1 = .close := by
  rcases s.receivePacket_cases P buf now with ⟨e, -, heq⟩ | ⟨y, hy, heq⟩
  · rw [heq] at h
    cases h
  · rw [heq] at h
    exact ⟨y, hy, closed_mem_dispatch h hmem⟩

namespace Connection

variable {X : Platform}

theorem onPacket_front {env : Env} {c : Connection X} {buf : Bytes} {r : Reply X}
    (hphase : c.phase = .established ∨ c.phase = .draining) (h : c.onPacket env buf = some r) :
    r.conn.phase = c.phase ∧ (.closed ∈ r.conn.events → .closed ∈ c.events ∨
      ∃ s y, c.session = some s ∧ (s.decoder.decode X.P buf).1 = .ok y ∧ y.1 = .close) := by
  by_cases hbuf : buf = []
  · rw [hbuf] at h
    cases h
    exact ⟨rfl, .inl⟩
  rcases hphase with hphase | hphase
  · rw [onPacket_of_established hphase hbuf] at h
    refine ⟨?_, fun hmem => ?_⟩
    · obtain ⟨session, cc, events, sendCounter, lastSend, tar, heq, -⟩ := evolves_onDataPacket h
      rw [heq]
    · unfold onDataPacket at h
      dsimp only at h
      split at h
      · cases h
        exact .inl hmem
      · next s hs =>
          obtain ⟨⟨res, s'⟩, hrecv, heq⟩ := map_eq_some_iff.mp h
          cases res with
          | error e =>
            cases heq
            exact .inl hmem
          | ok events =>
            cases heq
            -- feedback and the flush that may follow report nothing
            have hevents : .closed ∈ (handleEvents env
                { c with lastRecv := env.now, session := some s' } events).conn.events := by
              refine andThen_conn (I := fun k => .closed ∈ k.events → .closed ∈ (handleEvents env
                { c with lastRecv := env.now, session := some s' } events).conn.events) id
                (fun k hk hmem => ?_) hmem
              refine hk ?_
              rw [← (sameFront_feedAck env k).2]
              split at hmem
              · rwa [(sameFront_flush _ _).2] at hmem
              · exact hmem
            rcases closed_mem_handleEvents hevents with hold | hnew
            · exact .inl hold
            · obtain ⟨y, hy, hclose⟩ := closed_mem_receivePacket hrecv hnew
              exact .inr ⟨s, y, hs, hy, hclose⟩
  · unfold onPacket at h
    rw [if_neg (by rw [List.isEmpty_iff]; exact hbuf), hphase] at h
    cases h
    exact ⟨rfl, .inl⟩

end Connection

/-! ## No run reports a close -/

namespace Duplex

variable {X : Platform}

structure Unannounced (d : Duplex X) : Prop where
  phase : ∀ x, (d.conn x).phase = .established ∨ (d.conn x).phase = .draining
  events : ∀ x, .closed ∉ (d.conn x).events
  sealed : ∀ x, ∀ e ∈ d.sealed x, e.1 ≠ .close

theorem unannounced_init (c : NetworkConfig) (base : Role → Connection X) : (init c base).Unannounced :=
  ⟨fun _ => .inl rfl, fun _ => not_mem_nil, fun _ _ he => (not_mem_nil he).elim⟩

variable {d : Duplex X}

theorem Unannounced.after (h : d.Unannounced) {x : Role} {r : Reply X} {encoded : List Decoded}
    (hphase : r.conn.phase = .established ∨ r.conn.phase = .draining)
    (hevents : .closed ∉ r.conn.events) (hencoded : ∀ e ∈ encoded, e.1 ≠ .close) :
    (d.after x r encoded).Unannounced := by
  refine ⟨fun z => ?_, fun z => ?_, fun z e he => ?_⟩ <;> dsimp only [Duplex.after] at *
  · by_cases hz : z = x
    · simpa [hz] using hphase
    · rw [update_of_ne hz]
      exact h.phase z
  · by_cases hz : z = x
    · simpa [hz] using hevents
    · rw [update_of_ne hz]
      exact h.events z
  · by_cases hz : z = x
    · rw [hz, update_self] at he
      rcases mem_append.mp he with hold | hnew
      · exact h.sealed x e hold
      · exact hencoded e hnew
    · rw [update_of_ne hz] at he
      exact h.sealed z e he

theorem Unannounced.step {d' : Duplex X} {ev : DuplexEvent} (h : d.Unannounced) (hok : d.authentic ev)
    (hs : d.step ev = some d') : d'.Unannounced := by
  cases ev with
  | call x env call =>
    obtain ⟨r, hr, rfl⟩ := map_eq_some_iff.mp hs
    obtain ⟨hevents, hphase⟩ := call_front hr
    refine h.after ?_ (by rw [hevents]; exact h.events x)
      fun e he => ne_close_of_mem_encodes he
    rcases hphase with hsame | hclosed
    · rw [hsame]
      exact h.phase x
    · exact .inr hclosed
  | deliver x i env =>
    obtain ⟨buf, hbuf, hs⟩ := bind_eq_some_iff.mp hs
    obtain ⟨r, hr, rfl⟩ := map_eq_some_iff.mp hs
    obtain ⟨hphase, hevents⟩ := onPacket_front (h.phase x.peer) hr
    refine h.after (by rw [hphase]; exact h.phase x.peer) (fun hmem => ?_)
      fun e he => ne_close_of_mem_packetEncodes he
    rcases hevents hmem with hold | ⟨s, y, hsess, hy, hclose⟩
    · exact h.events x.peer hold
    · have hsealed := hok buf hbuf s hsess y (by rw [hy]; rfl)
      exact h.sealed x y hsealed hclose

end Duplex

theorem Duplex.Unannounced.run {X : Platform} {d d' : Duplex X} {evs : List DuplexEvent}
    (h : d.Unannounced) (hok : Meets Duplex.step Duplex.authentic d evs)
    (hrun : exec Duplex.step d evs = some d') : d'.Unannounced :=
  exec_invariant_of_meets Duplex.Unannounced (fun _ _ _ h hok hs => h.step hok hs) h hok hrun

/-- **A close is never announced.** In no run of two established connections does either side ever
report that the other one has closed, if the sessions decode only what the other side has encoded. -/
theorem close_never_announced {X : Platform} (c : NetworkConfig) (base : Role → Connection X)
    {evs : List DuplexEvent} {d : Duplex X}
    (hok : Meets Duplex.step Duplex.authentic (Duplex.init c base) evs)
    (hrun : exec Duplex.step (Duplex.init c base) evs = some d) (x : Role) :
    .closed ∉ (d.conn x).events :=
  ((Duplex.unannounced_init c base).run hok hrun).events x

/-! ## A close that nobody notices -/

def Session.isQuiet (s : Session) : Bool :=
  s.arq.inFlight.entries.isEmpty && s.datagrams.sendQueue.isEmpty && !s.ackRanges.ackPending
    && s.pendingMaxData.isNone && !s.pendingPong && !s.pendingPing
    && s.streams.entries.all fun e => e.2.sendBuf.isEmpty && !e.2.shouldSendFin

def oneStreamEnv : Env := { sampleEnv 0 with order := [1] }

def plainConnection (x : Role) : Connection samplePlatform :=
  Connection.newBaseWithTar samplePlatform (sampleAddr x.peer) .established .disabled 0

def closeOps : List DuplexEvent :=
  [.call .client oneStreamEnv .openStream, .call .client oneStreamEnv (.write 1 [7]),
    .deliver .client 0 oneStreamEnv, .call .server oneStreamEnv .tick,
    .deliver .server 0 oneStreamEnv, .call .client oneStreamEnv .close]

/-- The server is not told of the close. -/
theorem close_never_announced_one_byte :
    ∃ d, exec Duplex.step (Duplex.init Network.sampleConfig plainConnection) closeOps = some d ∧
      (d.conn .client).phase = .draining ∧ .closed ∉ (d.conn .server).events := by
  refine exists_exec_of (p := fun d => (d.conn .client).phase = .draining) (by decide +kernel) ?_
  intro d hrun hphase
  exact ⟨hphase, close_never_announced Network.sampleConfig plainConnection (by decide +kernel)
    hrun .server⟩

/-- **A graceful close is not noticed.** The byte is stored, nothing is in flight or waiting, the client
has closed; whatever happens from then on, the server is never told that the connection is closed. -/
theorem quiet_close_unreported :
    ∃ d, exec Duplex.step (Duplex.init Network.sampleConfig plainConnection) closeOps = some d ∧
      (d.conn .client).phase = .draining ∧
      (d.conn .client).session.any Session.isQuiet = true ∧
      (d.conn .server).session.any Session.isQuiet = true ∧
      (d.conn .server).session.any (fun s => (s.streams.get? 1).any fun stream =>
        stream.recvBuf.entries = [(0, [7])]) = true ∧
      (d.conn .server).events = [.newStream 1, .dataAvailable 1] ∧
      ∀ evs d', Meets Duplex.step Duplex.authentic d evs → exec Duplex.step d evs = some d' →
        .closed ∉ (d'.conn .server).events := by
  have hok : Meets Duplex.step Duplex.authentic
      (Duplex.init Network.sampleConfig plainConnection) closeOps := by decide +kernel
  let run := exec Duplex.step (Duplex.init Network.sampleConfig plainConnection) closeOps
  have hrun : run = some (run.get (by decide +kernel)) := (Option.some_get _).symm
  have hinv := (Duplex.unannounced_init _ _).run hok hrun
  exact ⟨_, hrun, by decide +kernel, by decide +kernel, by decide +kernel, by decide +kernel,
    by decide +kernel, fun evs d' hok' hrun' => (hinv.run hok' hrun').events .server⟩

end SeamProtocol
