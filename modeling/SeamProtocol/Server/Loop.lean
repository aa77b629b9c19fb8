import SeamProtocol.Transport.Phases
import Mathlib.Order.CompletePartialOrder

/-! # The receive loop of a server

One task owns three tables with the remote addresses as keys: the connections, the event receivers of
those not yet established, and the addresses passed on to the application. Between two locks of the loop
the application can call what it has been given. -/

namespace SeamProtocol

open Lib Function List Option Connection

/-! ## The loop -/

inductive LoopPoint where
  | select
  | received (remote : SocketAddr) (id : Nat) (buf : Bytes)
  /-- It is known whether the connection was established before. -/
  | checked (remote : SocketAddr) (id : Nat) (buf : Bytes) (wasEstablished : Bool)
  | processed (remote : SocketAddr) (id : Nat) (wasEstablished : Bool)
  /-- The connection was passed on, if it has just been established. -/
  | finishing (remote : SocketAddr) (id : Nat)

structure Accepted where
  conn : Nat
  events : Nat
  phase : ConnPhase

/-- The state of the loop. Connections are shared, so the tables have their numbers, in the order in
which they were created. -/
structure ServerLoop (X : Platform) where
  heap : List (Connection X)
  conns : SocketAddr → Option Nat
  /-- Event receivers, held until the connection is established. -/
  pendingEvents : SocketAddr → Option Nat
  delivered : SocketAddr → Bool
  point : LoopPoint
  accepted : List Accepted
  /-- History: the addresses from which an echo with a valid cookie was received. -/
  verified : List SocketAddr
  sent : List (SocketAddr × Bytes)

inductive LoopEvent where
  | datagram (env : Env) (remote : SocketAddr) (buf : Bytes)
  /-- The periodic sweep; each connection is looked at at a time of its own. -/
  | sweep (now : SocketAddr → Nat)
  | proceed (env : Env)
  | close (id : Nat)
  | flush (env : Env) (id : Nat)

def validEcho (X : Platform) (factory : CookieFactory) (env : Env) (remote : SocketAddr)
    (buf : Bytes) : Bool :=
  35 ≤ buf.length && buf.headD 0 = pktCookieEcho &&
    factory.verify X.B remote ((buf.drop 1).take 32) env.unixSecs

namespace ServerLoop

variable {X : Platform}

def start (X : Platform) : ServerLoop X where
  heap := []
  conns _ := none
  pendingEvents _ := none
  delivered _ := false
  point := .select
  accepted := []
  verified := []
  sent := []

def handles (s : ServerLoop X) : List Nat := s.accepted.map Accepted.conn

def note (factory : CookieFactory) (env : Env) (remote : SocketAddr) (buf : Bytes)
    (s : ServerLoop X) : ServerLoop X :=
  if validEcho X factory env remote buf then { s with verified := remote :: s.verified } else s

def enter (args : Connection.AcceptArgs X) (env : Env) (remote : SocketAddr) (s : ServerLoop X) :
    ServerLoop X :=
  match Connection.acceptChallenge env remote args with
  | (.error _, datagrams) => { s with sent := s.sent ++ datagrams.map (remote, ·) }
  | (.ok c, datagrams) =>
    { s with
      heap := s.heap ++ [c]
      pendingEvents := Function.update s.pendingEvents remote (some s.heap.length)
      conns := Function.update s.conns remote (some s.heap.length)
      sent := s.sent ++ datagrams.map (remote, ·) }

def evicts (s : ServerLoop X) (now : SocketAddr → Nat) (remote : SocketAddr) : Bool :=
  match (s.conns remote).bind (s.heap[·]?) with
  | some c => c.isClosed || c.isStale (now remote)
  | none => false

def sweep (now : SocketAddr → Nat) (s : ServerLoop X) : ServerLoop X :=
  { s with
    conns := fun remote => if s.evicts now remote then none else s.conns remote
    pendingEvents := fun remote => if s.evicts now remote then none else s.pendingEvents remote
    delivered := fun remote => !s.evicts now remote && s.delivered remote }

def deliver (remote : SocketAddr) (id : Nat) (wasEstablished : Bool) (c : Connection X)
    (s : ServerLoop X) : ServerLoop X :=
  if !wasEstablished && c.isEstablished && !s.delivered remote then
    let s := { s with delivered := Function.update s.delivered remote true }
    match s.pendingEvents remote with
    | some events =>
      { s with
        pendingEvents := Function.update s.pendingEvents remote none
        accepted := s.accepted ++ [⟨id, events, c.phase⟩] }
    | none => s
  else s

def finish (remote : SocketAddr) (c : Connection X) (s : ServerLoop X) : ServerLoop X :=
  if c.isClosed then
    { s with
      conns := Function.update s.conns remote none
      delivered := Function.update s.delivered remote false }
  else s

def proceed (args : Connection.AcceptArgs X) (env : Env) (s : ServerLoop X) : Option (ServerLoop X) :=
  match s.point with
  | .select => none
  | .received remote id buf =>
    (s.heap[id]?).map fun c => { s with point := .checked remote id buf c.isEstablished }
  | .checked remote id buf wasEstablished =>
    (s.heap[id]?).bind fun c => (c.onPacket env buf).map fun r =>
      { (s.note args.cookieFactory env remote buf) with
        heap := s.heap.set id r.conn
        point := .processed remote id wasEstablished
        sent := s.sent ++ r.sent.map (remote, ·) }
  | .processed remote id wasEstablished =>
    (s.heap[id]?).map fun c =>
      { (s.deliver remote id wasEstablished c) with point := .finishing remote id }
  | .finishing remote id =>
    (s.heap[id]?).map fun c => { (s.finish remote c) with point := .select }

/-- **One step**: of the loop, or of the application with a connection it has been given. `none` if the
step is not possible. -/
def step (args : Connection.AcceptArgs X) (s : ServerLoop X) : LoopEvent → Option (ServerLoop X)
  | .datagram env remote buf =>
    match s.point with
    | .select =>
      let s := s.note args.cookieFactory env remote buf
      match s.conns remote with
      | some id => some { s with point := .received remote id buf }
      | none => some (s.enter args env remote)
    | _ => none
  | .sweep now =>
    match s.point with
    | .select => some (s.sweep now)
    | _ => none
  | .proceed env => s.proceed args env
  | .close id =>
    if id ∈ s.handles then
      (s.heap[id]?).map fun c => { s with heap := s.heap.set id c.close }
    else none
  | .flush env id =>
    if id ∈ s.handles then
      (s.heap[id]?).map fun c =>
        let r := c.flush env
        { s with
          heap := s.heap.set id r.conn
          sent := s.sent ++ r.sent.map (c.remote, ·) }
    else none

/-! ## What a step does -/

theorem note_eq (factory : CookieFactory) (env : Env) (remote : SocketAddr) (buf : Bytes)
    (s : ServerLoop X) :
    s.note factory env remote buf
      = { s with verified := (s.note factory env remote buf).verified } := by
  unfold note
  split <;> rfl

section Note

variable (factory : CookieFactory) (env : Env) (remote : SocketAddr) (buf : Bytes) (s : ServerLoop X)

@[simp] theorem conns_note : (s.note factory env remote buf).conns = s.conns := by rw [note_eq]

@[simp] theorem heap_note : (s.note factory env remote buf).heap = s.heap := by rw [note_eq]

@[simp] theorem point_note : (s.note factory env remote buf).point = s.point := by rw [note_eq]

@[simp] theorem accepted_note : (s.note factory env remote buf).accepted = s.accepted := by rw [note_eq]

end Note

inductive Took (args : Connection.AcceptArgs X) (s : ServerLoop X) : LoopEvent → ServerLoop X → Prop
  | known {env : Env} {remote : SocketAddr} {buf : Bytes} {id : Nat} (hpoint : s.point = .select)
      (hconns : s.conns remote = some id) : Took args s (.datagram env remote buf)
        { (s.note args.cookieFactory env remote buf) with point := .received remote id buf }
  | unknown {env : Env} {remote : SocketAddr} {buf : Bytes} (hpoint : s.point = .select)
      (hconns : s.conns remote = none) : Took args s (.datagram env remote buf)
        ((s.note args.cookieFactory env remote buf).enter args env remote)
  | swept {now : SocketAddr → Nat} (hpoint : s.point = .select) :
      Took args s (.sweep now) (s.sweep now)
  | checked {env : Env} {remote : SocketAddr} {id : Nat} {buf : Bytes} {c : Connection X}
      (hpoint : s.point = .received remote id buf) (hc : s.heap[id]? = some c) :
      Took args s (.proceed env) { s with point := .checked remote id buf c.isEstablished }
  | handled {env : Env} {remote : SocketAddr} {id : Nat} {buf : Bytes} {wasEstablished : Bool}
      {c : Connection X} {r : Reply X} (hpoint : s.point = .checked remote id buf wasEstablished)
      (hc : s.heap[id]? = some c) (hr : c.onPacket env buf = some r) :
      Took args s (.proceed env) { (s.note args.cookieFactory env remote buf) with
        heap := s.heap.set id r.conn
        point := .processed remote id wasEstablished
        sent := s.sent ++ r.sent.map (remote, ·) }
  | delivered {env : Env} {remote : SocketAddr} {id : Nat} {wasEstablished : Bool} {c : Connection X}
      (hpoint : s.point = .processed remote id wasEstablished) (hc : s.heap[id]? = some c) :
      Took args s (.proceed env)
        { (s.deliver remote id wasEstablished c) with point := .finishing remote id }
  | finished {env : Env} {remote : SocketAddr} {id : Nat} {c : Connection X}
      (hpoint : s.point = .finishing remote id) (hc : s.heap[id]? = some c) :
      Took args s (.proceed env) { (s.finish remote c) with point := .select }
  | closed {id : Nat} {c : Connection X} (hid : id ∈ s.handles) (hc : s.heap[id]? = some c) :
      Took args s (.close id) { s with heap := s.heap.set id c.close }
  | flushed {env : Env} {id : Nat} {c : Connection X} (hid : id ∈ s.handles)
      (hc : s.heap[id]? = some c) : Took args s (.flush env id) { s with
        heap := s.heap.set id (c.flush env).conn
        sent := s.sent ++ (c.flush env).sent.map (c.remote, ·) }

theorem took {args : Connection.AcceptArgs X} {s s' : ServerLoop X} {e : LoopEvent}
    (h : s.step args e = some s') : s.Took args e s' := by
  cases e with
  | datagram env remote buf =>
    simp only [step] at h
    split at h
    · next hpoint =>
        split at h
        · next id hconns =>
            rw [conns_note] at hconns
            cases h
            exact .known hpoint hconns
        · next hconns =>
            rw [conns_note] at hconns
            cases h
            exact .unknown hpoint hconns
    · cases h
  | sweep now =>
    simp only [step] at h
    split at h
    · next hpoint =>
        cases h
        exact .swept hpoint
    · cases h
  | proceed env =>
    simp only [step, proceed] at h
    split at h
    · cases h
    · next hpoint =>
        obtain ⟨c, hc, rfl⟩ := map_eq_some_iff.mp h
        exact .checked hpoint hc
    · next hpoint =>
        obtain ⟨c, hc, h⟩ := bind_eq_some_iff.mp h
        obtain ⟨r, hr, rfl⟩ := map_eq_some_iff.mp h
        exact .handled hpoint hc hr
    · next hpoint =>
        obtain ⟨c, hc, rfl⟩ := map_eq_some_iff.mp h
        exact .delivered hpoint hc
    · next hpoint =>
        obtain ⟨c, hc, rfl⟩ := map_eq_some_iff.mp h
        exact .finished hpoint hc
  | close id =>
    simp only [step] at h
    split at h
    · next hid =>
        obtain ⟨c, hc, rfl⟩ := map_eq_some_iff.mp h
        exact .closed hid hc
    · cases h
  | flush env id =>
    simp only [step] at h
    split at h
    · next hid =>
        obtain ⟨c, hc, rfl⟩ := map_eq_some_iff.mp h
        exact .flushed hid hc
    · cases h

end ServerLoop

/-! ## The connections of a server -/

namespace Connection

variable {X : Platform}

structure Serving (factory : CookieFactory) (remote : SocketAddr) (c : Connection X) : Prop where
  remote_eq : c.remote = remote
  /-- Its phase; cookies are checked with the server's secret. -/
  phase : (c.phase = .serverWaitCookie ∧ c.cookieFactory = some factory) ∨ c.phase = .serverWaitMsg3 ∨
    c.phase = .established ∨ c.phase = .draining

inductive Moves (X : Platform) (factory : CookieFactory) (env : Env) (remote : SocketAddr)
    (buf : Bytes) : ConnPhase → ConnPhase → Prop
  | stay (phase : ConnPhase) : Moves X factory env remote buf phase phase
  | echo (h : validEcho X factory env remote buf = true) :
      Moves X factory env remote buf .serverWaitCookie .serverWaitMsg3
  | msg3 : Moves X factory env remote buf .serverWaitMsg3 .established

variable {factory : CookieFactory} {remote : SocketAddr} {c : Connection X} {env : Env} {buf : Bytes}
  {p q : ConnPhase}

theorem Moves.of_beyond (h : Moves X factory env remote buf p q)
    (hp : p = .established ∨ p = .draining) : q = .established ∨ q = .draining := by
  cases h with
  | stay => exact hp
  | echo => rcases hp with hp | hp <;> cases hp
  | msg3 => exact .inl rfl

theorem Moves.of_waiting (h : Moves X factory env remote buf p q)
    (hp : p = .serverWaitCookie ∨ p = .serverWaitMsg3) :
    q = .serverWaitCookie ∨ q = .serverWaitMsg3 ∨ q = .established := by
  cases h with
  | stay => exact hp.imp_right .inl
  | echo => exact .inr (.inl rfl)
  | msg3 => exact .inr (.inr rfl)

theorem serving_acceptChallenge {args : AcceptArgs X}
    (h : (acceptChallenge env remote args).1 = .ok c) :
    c.Serving args.cookieFactory remote ∧ c.phase = .serverWaitCookie := by
  unfold acceptChallenge at h
  split at h
  · cases h
  · cases h
    exact ⟨⟨rfl, .inl ⟨rfl, rfl⟩⟩, rfl⟩

theorem Serving.evolves {c' : Connection X} (hev : c.Evolves c') (h : c.remote = remote)
    (hphase : c.phase = .established) : c'.Serving factory remote ∧ c'.phase = .established := by
  obtain ⟨session, cc, events, sendCounter, lastSend, tar, rfl, -⟩ := hev
  exact ⟨⟨h, .inr (.inr (.inl hphase))⟩, hphase⟩

theorem Serving.close (h : c.Serving factory remote) : c.close.Serving factory remote :=
  ⟨h.remote_eq, .inr (.inr (.inr rfl))⟩

/-- **A datagram for a connection of the server**: the phases follow one another, and only a valid echo
leads beyond the first. -/
theorem Serving.onPacket (h : c.Serving factory remote) {r : Reply X}
    (hr : c.onPacket env buf = some r) :
    r.conn.Serving factory remote ∧ Moves X factory env remote buf c.phase r.conn.phase := by
  unfold Connection.onPacket at hr
  split at hr
  · cases hr
    exact ⟨h, .stay _⟩
  rcases h.phase with ⟨hphase, hfactory⟩ | hphase | hphase | hphase
  · rw [hphase] at hr
    cases hr
    rcases c.serverRxCookieEcho_cases env buf with
      ⟨e, suite, heq⟩ | ⟨identity, hs, suite, msg2, hs', htake, -, heq⟩
    · rw [heq]
      exact ⟨⟨h.remote_eq, h.phase⟩, .stay _⟩
    · obtain ⟨hlen, htype, ⟨factory', hfactory', hverify⟩, -⟩ := takeEcho_eq_ok htake
      rw [hfactory] at hfactory'
      cases hfactory'
      rw [h.remote_eq] at hverify
      have hvalid : validEcho X factory env remote buf = true := by
        rw [validEcho, hverify, htype, decide_eq_true hlen]
        rfl
      rw [heq, hphase]
      exact ⟨⟨h.remote_eq, .inr (.inl rfl)⟩, .echo hvalid⟩
  · rw [hphase] at hr
    rcases serverRxMsg3_cases hr with ⟨e, serverHs, -, rfl⟩ | ⟨result, -, hfinish⟩
    · exact ⟨⟨h.remote_eq, h.phase⟩, .stay _⟩
    · have hest : r.conn.Serving factory remote ∧ r.conn.phase = .established :=
        Serving.evolves (finishHandshake_cases hfinish).2 h.remote_eq rfl
      rw [hphase, hest.2]
      exact ⟨hest.1, .msg3⟩
  · rw [hphase] at hr
    have hest : r.conn.Serving factory remote ∧ r.conn.phase = .established :=
      Serving.evolves (evolves_onDataPacket hr) h.remote_eq hphase
    rw [hphase, hest.2]
    exact ⟨hest.1, .stay _⟩
  · rw [hphase] at hr
    cases hr
    exact ⟨h, .stay _⟩

end Connection

/-! ## The invariant -/

namespace ServerLoop

variable {X : Platform}

def pointOk (s : ServerLoop X) : LoopPoint → Prop
  | .select => True
  | .received remote id _ => s.conns remote = some id
  | .checked remote id _ wasEstablished =>
    s.conns remote = some id ∧ (wasEstablished = true → id ∈ s.handles)
  | .processed remote id wasEstablished =>
    s.conns remote = some id ∧ (wasEstablished = true → id ∈ s.handles)
  | .finishing remote id => s.conns remote = some id

inductive Entry (args : Connection.AcceptArgs X) (s : ServerLoop X) (a : SocketAddr) : Prop
  | absent (hconns : s.conns a = none) (hpending : s.pendingEvents a = none)
      (hdelivered : s.delivered a = false)
  /-- A connection that the application does not have, and its event receiver: it is not yet established,
  or will be passed on next. -/
  | waiting {id : Nat} {c : Connection X} (hconns : s.conns a = some id)
      (hpending : s.pendingEvents a = some id) (hdelivered : s.delivered a = false)
      (hid : id ∉ s.handles) (hc : s.heap[id]? = some c) (hserving : c.Serving args.cookieFactory a)
      (hphase : c.phase = .serverWaitCookie ∨ c.phase = .serverWaitMsg3 ∨
        (c.phase = .established ∧ s.point = .processed a id false))
  | passedOn {id : Nat} {c : Connection X} (hconns : s.conns a = some id)
      (hpending : s.pendingEvents a = none) (hdelivered : s.delivered a = true)
      (hid : id ∈ s.handles) (hc : s.heap[id]? = some c) (hserving : c.Serving args.cookieFactory a)

structure Inv (args : Connection.AcceptArgs X) (s : ServerLoop X) : Prop where
  entries : ∀ a, s.Entry args a
  channel : ∀ x ∈ s.accepted, x.conn < s.heap.length ∧ x.events = x.conn ∧ x.phase = .established
  once : s.handles.Nodup
  beyond : ∀ id ∈ s.handles, ∀ c, s.heap[id]? = some c →
    c.phase = .established ∨ c.phase = .draining
  point : s.pointOk s.point

variable {args : Connection.AcceptArgs X} {s : ServerLoop X} {a remote : SocketAddr} {id : Nat}
  {c : Connection X}

theorem inv_start : (start X).Inv args where
  entries _ := .absent rfl rfl rfl
  channel _ h := (not_mem_nil h).elim
  once := nodup_nil
  beyond _ h := (not_mem_nil h).elim
  point := trivial

variable {s' : ServerLoop X}

theorem Entry.frame (h : s.Entry args a) (hconns : s'.conns a = s.conns a)
    (hpending : s'.pendingEvents a = s.pendingEvents a) (hdelivered : s'.delivered a = s.delivered a)
    (hheap : ∀ id c, s.conns a = some id → s.heap[id]? = some c → s'.heap[id]? = some c)
    (hhandles : ∀ id, s.conns a = some id → (id ∈ s'.handles ↔ id ∈ s.handles))
    (hpoint : ∀ id c, s.heap[id]? = some c → id ∉ s.handles → c.phase = .established → s.point = .processed a id false → s'.point = .processed a id false) :
    s'.Entry args a := by
  cases h with
  | absent hc hp hd => exact .absent (hconns.trans hc) (hpending.trans hp) (hdelivered.trans hd)
  | @waiting id c ha hp hd hid hc hserving hphase =>
    refine .waiting (hconns.trans ha) (hpending.trans hp) (hdelivered.trans hd)
      (mt (hhandles id ha).mp hid) (hheap id c ha hc) hserving (hphase.imp_right ?_)
    exact Or.imp_right fun hlast => ⟨hlast.1, hpoint id c hc hid hlast.1 hlast.2⟩
  | @passedOn id c ha hp hd hid hc hserving =>
    exact .passedOn (hconns.trans ha) (hpending.trans hp) (hdelivered.trans hd)
      ((hhandles id ha).mpr hid) (hheap id c ha hc) hserving

section

variable (h : s.Inv args)
include h

theorem Inv.entry (ha : s.conns a = some id) :
    ∃ c, s.heap[id]? = some c ∧ c.Serving args.cookieFactory a ∧
      (id ∈ s.handles → s.delivered a = true ∧ s.pendingEvents a = none) ∧
      (id ∉ s.handles → s.delivered a = false ∧ s.pendingEvents a = some id ∧
        (c.phase = .serverWaitCookie ∨ c.phase = .serverWaitMsg3 ∨
          (c.phase = .established ∧ s.point = .processed a id false))) := by
  cases h.entries a with
  | absent hnone => cases ha.symm.trans hnone
  | @waiting id' c ha' hp hd hid hc hserving hphase =>
    cases ha.symm.trans ha'
    exact ⟨c, hc, hserving, (absurd · hid), fun _ => ⟨hd, hp, hphase⟩⟩
  | @passedOn id' c ha' hp hd hid hc hserving =>
    cases ha.symm.trans ha'
    exact ⟨c, hc, hserving, fun _ => ⟨hd, hp⟩, absurd hid⟩

theorem Inv.serving (ha : s.conns a = some id) (hc : s.heap[id]? = some c) :
    c.Serving args.cookieFactory a := by
  obtain ⟨c₀, hc₀, hserving, -⟩ := h.entry ha
  cases hc.symm.trans hc₀
  exact hserving

theorem Inv.waiting (ha : s.conns a = some id) (hc : s.heap[id]? = some c)
    (hid : id ∉ s.handles) : c.phase = .serverWaitCookie ∨ c.phase = .serverWaitMsg3 ∨
      (c.phase = .established ∧ s.point = .processed a id false) := by
  obtain ⟨c₀, hc₀, -, -, hfresh⟩ := h.entry ha
  cases hc.symm.trans hc₀
  exact (hfresh hid).2.2

theorem Inv.lt_length (ha : s.conns a = some id) : id < s.heap.length := by
  obtain ⟨c, hc, -⟩ := h.entry ha
  exact (List.getElem?_eq_some_iff.mp hc).1

theorem Inv.conns_inj (ha : s.conns a = some id) (hr : s.conns remote = some id) : a = remote := by
  obtain ⟨c, hc, hserving, -⟩ := h.entry ha
  exact hserving.remote_eq.symm.trans (h.serving hr hc).remote_eq

theorem Inv.handle_lt_length (hid : id ∈ s.handles) : id < s.heap.length := by
  obtain ⟨x, hx, rfl⟩ := mem_map.mp hid
  exact (h.channel x hx).1

theorem Inv.mem_handles_of_isClosed (ha : s.conns a = some id)
    (hc : s.heap[id]? = some c) (hclosed : c.isClosed = true) : id ∈ s.handles := by
  by_contra hid
  rcases h.waiting ha hc hid with hphase | hphase | ⟨hphase, -⟩ <;>
    · rw [isClosed, hphase] at hclosed
      cases hclosed

/-! ## Steps -/

theorem Inv.histories (verified : List SocketAddr) (sent : List (SocketAddr × Bytes)) :
    ({ s with verified, sent } : ServerLoop X).Inv args :=
  ⟨fun a => (h.entries a).frame rfl rfl rfl (fun _ _ _ hc => hc) (fun _ _ => Iff.rfl)
    fun _ _ _ _ _ hlast => hlast, h.channel, h.once, h.beyond, h.point⟩

variable {p : LoopPoint}

theorem Inv.move (hp : s.pointOk p)
    (hpoint : ∀ a id c, s.heap[id]? = some c → id ∉ s.handles → c.phase = .established → s.point ≠ .processed a id false) :
    ({ s with point := p } : ServerLoop X).Inv args where
  entries a := (h.entries a).frame rfl rfl rfl (fun _ _ _ hc => hc) (fun _ _ => Iff.rfl)
    fun id c hc hid hphase hlast => absurd hlast (hpoint a id c hc hid hphase)
  channel := h.channel
  once := h.once
  beyond := h.beyond
  point := hp

/-- **A connection changes**: it stays beyond the handshake, if the application has it; if not, it is
not yet established, or will be passed on. -/
theorem Inv.set (hc : s.heap[id]? = some c) {c' : Connection X}
    (hserving : ∀ a, c.Serving args.cookieFactory a → c'.Serving args.cookieFactory a)
    (hbeyond : id ∈ s.handles → c'.phase = .established ∨ c'.phase = .draining)
    (hwaiting : ∀ a, s.conns a = some id → id ∉ s.handles → c'.phase = .serverWaitCookie ∨ c'.phase = .serverWaitMsg3 ∨ (c'.phase = .established ∧ p = .processed a id false))
    (hpoint : p = s.point ∨ ∀ a id, s.point ≠ .processed a id false) (hp : s.pointOk p) :
    ({ s with heap := s.heap.set id c', point := p } : ServerLoop X).Inv args := by
  have hself : (s.heap.set id c')[id]? = some c' :=
    List.getElem?_set_self (List.getElem?_eq_some_iff.mp hc).1
  refine ⟨fun a => ?_, fun x hx => ?_, h.once, fun id' hid' c₀ hc₀ => ?_, hp⟩
  · by_cases ha : s.conns a = some id
    · cases h.entries a with
      | absent hnone => cases ha.symm.trans hnone
      | waiting ha' hpend hdel hid hc₀ hserving₀ =>
        cases ha.symm.trans ha'
        cases hc.symm.trans hc₀
        exact .waiting ha hpend hdel hid hself (hserving a hserving₀) (hwaiting a ha hid)
      | passedOn ha' hpend hdel hid hc₀ hserving₀ =>
        cases ha.symm.trans ha'
        cases hc.symm.trans hc₀
        exact .passedOn ha hpend hdel hid hself (hserving a hserving₀)
    · refine (h.entries a).frame rfl rfl rfl (fun id' c₀ ha' hc₀ => ?_) (fun _ _ => Iff.rfl) ?_
      · rw [← hc₀]
        refine List.getElem?_set_ne ?_
        rintro rfl
        exact ha ha'
      · intro id' _ _ _ _ hlast
        exact hpoint.elim (·.trans hlast) fun hne => absurd hlast (hne a id')
  · simpa using h.channel x hx
  · by_cases hid : id' = id
    · subst hid
      cases hself.symm.trans hc₀
      exact hbeyond hid'
    · rw [List.getElem?_set_ne (Ne.symm hid)] at hc₀
      exact h.beyond id' hid' c₀ hc₀

theorem Inv.enter (hnone : s.conns remote = none) (hpoint : s.point = .select)
    (env : Env) : (s.enter args env remote).Inv args := by
  unfold ServerLoop.enter
  split
  · exact h.histories _ _
  next c datagrams heq =>
    obtain ⟨hserving, hphase⟩ :=
      serving_acceptChallenge (congrArg Prod.fst heq : (_ : Except SeamError _) = .ok c)
    have hold : ∀ {id}, id < s.heap.length → (s.heap ++ [c])[id]? = s.heap[id]? :=
      fun hid => getElem?_append_left hid
    refine ⟨fun a => ?_, fun x hx => ?_, h.once, fun id hid c' hc' => ?_, ?_⟩
    · by_cases hra : a = remote
      · subst hra
        have hdelivered : s.delivered a = false := by
          cases h.entries a with
          | absent _ _ hd => exact hd
          | waiting ha | passedOn ha => cases ha.symm.trans hnone
        exact .waiting (update_self ..) (update_self ..) hdelivered
          (fun hid => (h.handle_lt_length hid).false) getElem?_concat_length hserving (.inl hphase)
      · -- the other addresses have older connections
        exact (h.entries a).frame (update_of_ne hra _ _) (update_of_ne hra _ _) rfl
          (fun id c' ha hc' => (hold (h.lt_length ha)).trans hc') (fun _ _ => Iff.rfl)
          fun _ _ _ _ _ hlast => hlast
    · obtain ⟨hlt, hrest⟩ := h.channel x hx
      exact ⟨by rw [length_append]; exact Nat.lt_add_right _ hlt, hrest⟩
    · exact h.beyond id hid c' ((hold (h.handle_lt_length hid)).symm.trans hc')
    · rw [hpoint]
      trivial

theorem Inv.sweep (hpoint : s.point = .select) (now : SocketAddr → Nat) :
    (s.sweep now).Inv args where
  entries a := by
    have hdelivered : (s.sweep now).delivered a = (!s.evicts now a && s.delivered a) := rfl
    by_cases hev : s.evicts now a = true
    · rw [hev] at hdelivered
      exact .absent (if_pos hev) (if_pos hev) hdelivered
    · rw [Bool.eq_false_iff.mpr hev] at hdelivered
      exact (h.entries a).frame (if_neg hev) (if_neg hev) hdelivered (fun _ _ _ hc => hc)
        (fun _ _ => Iff.rfl) fun _ _ _ _ _ hlast => hlast
  channel := h.channel
  once := h.once
  beyond := h.beyond
  point := by
    rw [show (s.sweep now).point = .select from hpoint]
    trivial

end

theorem update_none {f : SocketAddr → Option Nat} (h : Function.update f remote none a = some id) :
    a ≠ remote ∧ f a = some id := by
  by_cases hra : a = remote
  · subst hra
    rw [update_self] at h
    cases h
  · rw [update_of_ne hra] at h
    exact ⟨hra, h⟩

theorem deliver_eq (remote : SocketAddr) (id : Nat) (wasEstablished : Bool) (c : Connection X)
    (s : ServerLoop X) : ∃ delivered pendingEvents accepted,
    s.deliver remote id wasEstablished c = { s with delivered, pendingEvents, accepted } := by
  unfold deliver
  split
  · dsimp only
    split
    · exact ⟨_, _, _, rfl⟩
    · exact ⟨_, _, _, rfl⟩
  · exact ⟨_, _, _, rfl⟩

theorem finish_eq (remote : SocketAddr) (c : Connection X) (s : ServerLoop X) :
    ∃ conns delivered, s.finish remote c = { s with conns, delivered } ∧
      ∀ a, (conns a).isSome → (s.conns a).isSome := by
  unfold finish
  split
  · refine ⟨_, _, rfl, fun a ha => ?_⟩
    obtain ⟨id, ha⟩ := isSome_iff_exists.mp ha
    exact isSome_iff_exists.mpr ⟨id, (update_none ha).2⟩
  · exact ⟨_, _, rfl, fun a ha => ha⟩

theorem Inv.passOn (h : s.Inv args) (hremote : s.conns remote = some id) (hc : s.heap[id]? = some c)
    (hphase : c.phase = .established) (hid : id ∉ s.handles)
    (hpoint : ∀ a id', s.point = .processed a id' false → a = remote) :
    ({ s with
      delivered := Function.update s.delivered remote true
      pendingEvents := Function.update s.pendingEvents remote none
      accepted := s.accepted ++ [⟨id, id, c.phase⟩]
      point := .finishing remote id } : ServerLoop X).Inv args := by
  have hhandles : ∀ {id'}, id' ∈ (s.accepted ++ [(⟨id, id, c.phase⟩ : Accepted)]).map Accepted.conn ↔
      id' ∈ s.handles ∨ id' = id := by
    intro id'
    rw [map_append, mem_append]
    exact or_congr Iff.rfl mem_singleton
  refine ⟨fun a => ?_, fun x hx => ?_, ?_, fun id' hid' c' hc' => ?_, hremote⟩
  · by_cases hra : a = remote
    · subst hra
      exact .passedOn hremote (update_self ..) (update_self ..)
        (hhandles.mpr (.inr rfl)) hc (h.serving hremote hc)
    · refine (h.entries a).frame rfl (update_of_ne hra _ _) (update_of_ne hra _ _)
        (fun _ _ _ hc => hc) (fun id' ha => hhandles.trans (or_iff_left ?_)) ?_
      · rintro rfl
        exact hra (h.conns_inj ha hremote)
      · exact fun id' _ _ _ _ hlast => absurd (hpoint a id' hlast) hra
  · rcases mem_append.mp hx with hold | hnew
    · exact h.channel x hold
    · rw [mem_singleton.mp hnew]
      exact ⟨h.lt_length hremote, rfl, hphase⟩
  · unfold handles
    rw [map_append, map_singleton]
    exact nodup_append.mpr ⟨h.once, nodup_singleton id, by
      rintro x hx y hy rfl
      rw [mem_singleton.mp hy] at hx
      exact hid hx⟩
  · rcases hhandles.mp hid' with hold | rfl
    · exact h.beyond id' hold c' hc'
    · cases hc.symm.trans hc'
      exact .inl hphase

variable {wasEstablished : Bool}

theorem Inv.deliver (h : s.Inv args) (hpoint : s.point = .processed remote id wasEstablished)
    (hc : s.heap[id]? = some c) :
    ({ (s.deliver remote id wasEstablished c) with point := .finishing remote id } :
      ServerLoop X).Inv args := by
  obtain ⟨hremote, hwas⟩ : s.conns remote = some id ∧ (wasEstablished = true → id ∈ s.handles) := by
    have hp := h.point
    rwa [hpoint] at hp
  obtain ⟨c₀, -, -, hpassed, hfresh⟩ := h.entry hremote
  by_cases hid : id ∈ s.handles
  · -- the application has it: the address is marked as delivered
    have hcond : (!wasEstablished && c.isEstablished && !s.delivered remote) = false := by
      simp [(hpassed hid).1]
    rw [ServerLoop.deliver, hcond, if_neg Bool.false_ne_true]
    refine h.move hremote fun a id' c' _ hid' _ hlast => ?_
    cases hpoint.symm.trans hlast
    exact hid' hid
  obtain ⟨hdelivered, hpending, -⟩ := hfresh hid
  have hwas' : wasEstablished = false := Bool.eq_false_iff.mpr fun hw => hid (hwas hw)
  by_cases hest : c.isEstablished = true
  · have hphase : c.phase = .established := of_decide_eq_true hest
    have hcond : (!wasEstablished && c.isEstablished && !s.delivered remote) = true := by
      rw [hwas', hest, hdelivered]
      rfl
    rw [ServerLoop.deliver, if_pos hcond]
    dsimp only
    rw [hpending]
    refine h.passOn hremote hc hphase hid fun a id' hlast => ?_
    cases hpoint.symm.trans hlast
    rfl
  · have hcond : (!wasEstablished && c.isEstablished && !s.delivered remote) = false := by
      rw [Bool.eq_false_iff.mpr hest, Bool.and_false, Bool.false_and]
    rw [ServerLoop.deliver, hcond, if_neg Bool.false_ne_true]
    refine h.move hremote fun a id' c' hc' _ hphase hlast => ?_
    cases hpoint.symm.trans hlast
    cases hc.symm.trans hc'
    exact hest (decide_eq_true hphase)

theorem Inv.finish (h : s.Inv args) (hpoint : s.point = .finishing remote id)
    (hc : s.heap[id]? = some c) :
    ({ (s.finish remote c) with point := .select } : ServerLoop X).Inv args := by
  have hremote : s.conns remote = some id := by
    have hp := h.point
    rwa [hpoint] at hp
  have h' : ({ s with point := .select } : ServerLoop X).Inv args := by
    refine h.move trivial fun a id c _ _ _ hlast => ?_
    cases hpoint.symm.trans hlast
  unfold ServerLoop.finish
  split
  · next hclosed =>
      obtain ⟨c₀, -, -, hpassed, -⟩ := h.entry hremote
      have hpending := (hpassed (h.mem_handles_of_isClosed hremote hc hclosed)).2
      refine ⟨fun a => ?_, h.channel, h.once, h.beyond, trivial⟩
      by_cases hra : a = remote
      · subst hra
        exact .absent (update_self ..) hpending (update_self ..)
      · exact (h'.entries a).frame (update_of_ne hra _ _) rfl (update_of_ne hra _ _)
          (fun _ _ _ hc => hc) (fun _ _ => Iff.rfl) fun _ _ _ _ _ hlast => hlast
  · exact h'

variable {buf : Bytes}

theorem Inv.check (h : s.Inv args) (hpoint : s.point = .received remote id buf)
    (hc : s.heap[id]? = some c) :
    ({ s with point := .checked remote id buf c.isEstablished } : ServerLoop X).Inv args := by
  have hremote : s.conns remote = some id := by
    have hp := h.point
    rwa [hpoint] at hp
  have hlast : ∀ a id', s.point ≠ .processed a id' false := by
    intro a id' hlast
    cases hpoint.symm.trans hlast
  refine h.move ⟨hremote, fun hest => ?_⟩ fun a id' _ _ _ _ => hlast a id'
  by_contra hid
  rcases h.waiting hremote hc hid with hphase | hphase | ⟨-, hp⟩
  · rw [isEstablished, hphase] at hest
    cases hest
  · rw [isEstablished, hphase] at hest
    cases hest
  · exact hlast remote id hp

theorem Inv.handle (h : s.Inv args) {env : Env} {r : Reply X}
    (hpoint : s.point = .checked remote id buf wasEstablished) (hc : s.heap[id]? = some c)
    (hr : c.onPacket env buf = some r) :
    ({ s with
      heap := s.heap.set id r.conn
      point := .processed remote id wasEstablished } : ServerLoop X).Inv args := by
  obtain ⟨hremote, hwas⟩ : s.conns remote = some id ∧ (wasEstablished = true → id ∈ s.handles) := by
    have hp := h.point
    rwa [hpoint] at hp
  have hlast : ∀ a id', s.point ≠ .processed a id' false := by
    intro a id' hlast
    cases hpoint.symm.trans hlast
  have hmove := ((h.serving hremote hc).onPacket hr).2
  refine h.set hc (fun a ha => (ha.onPacket hr).1) (fun hid => hmove.of_beyond (h.beyond id hid c hc))
    (fun a ha hid => ?_) (.inr hlast) ⟨hremote, hwas⟩
  -- the application does not have it: it is on its way through the handshake
  cases h.conns_inj ha hremote
  have hwas' : wasEstablished = false := Bool.eq_false_iff.mpr fun hw => hid (hwas hw)
  have hphase : c.phase = .serverWaitCookie ∨ c.phase = .serverWaitMsg3 := by
    rcases h.waiting ha hc hid with hphase | hphase | ⟨-, hp⟩
    · exact .inl hphase
    · exact .inr hphase
    · exact (hlast remote id hp).elim
  rw [hwas']
  rcases hmove.of_waiting hphase with hq | hq | hq
  · exact .inl hq
  · exact .inr (.inl hq)
  · exact .inr (.inr ⟨hq, rfl⟩)

theorem Inv.step (h : s.Inv args) {e : LoopEvent} (hstep : s.step args e = some s') : s'.Inv args := by
  have hnote : ∀ env remote buf, (s.note args.cookieFactory env remote buf).Inv args := by
    intro env remote buf
    rw [note_eq]
    exact h.histories _ s.sent
  cases took hstep with
  | known hpoint hconns =>
    refine (hnote _ _ _).move (by rw [pointOk, conns_note]; exact hconns) fun a id' c _ _ _ hlast => ?_
    rw [point_note, hpoint] at hlast
    cases hlast
  | unknown hpoint hconns =>
    exact (hnote _ _ _).enter (by rw [conns_note]; exact hconns) (by rw [point_note]; exact hpoint) _
  | swept hpoint => exact h.sweep hpoint _
  | checked hpoint hc => exact h.check hpoint hc
  | handled hpoint hc hr =>
    rw [note_eq]
    exact (h.handle hpoint hc hr).histories _ _
  | delivered hpoint hc => exact h.deliver hpoint hc
  | finished hpoint hc => exact h.finish hpoint hc
  | closed hid hc =>
    exact h.set hc (fun a ha => ha.close) (fun _ => .inr rfl) (fun a _ hid' => (hid' hid).elim)
      (.inl rfl) h.point
  | @flushed env id c hid hc =>
    obtain ⟨session, cc, events, sendCounter, lastSend, tar, heq, -⟩ := c.evolves_flush env
    have hset : ({ s with heap := s.heap.set id (c.flush env).conn } : ServerLoop X).Inv args :=
      h.set hc (fun a ha => by rw [heq]; exact ⟨ha.remote_eq, ha.phase⟩)
        (fun _ => by rw [heq]; exact h.beyond id hid c hc) (fun a _ hid' => (hid' hid).elim)
        (.inl rfl) h.point
    exact hset.histories s.verified _

theorem inv_run {es : List LoopEvent} (hrun : exec (ServerLoop.step args) (start X) es = some s) :
    s.Inv args :=
  exec_invariant (Inv args) (fun _ _ _ h hstep => h.step hstep) inv_start hrun

end ServerLoop

/-! ## Accepting -/

/-- **Each connection is accepted exactly once.** After any datagrams, sweeps and calls of the
application: no connection was sent on the accept channel twice, and each was established at that moment
and comes with its own events; every established connection in the table was sent, or is about to be;
and the addresses in the table are those with an event receiver and those delivered, with no address in
both. -/
theorem accepted_exactly_once {X : Platform} {args : Connection.AcceptArgs X} {es : List LoopEvent}
    {s : ServerLoop X} (hrun : exec (ServerLoop.step args) (ServerLoop.start X) es = some s) :
    s.handles.Nodup ∧
    (∀ x ∈ s.accepted, x.phase = .established ∧ x.events = x.conn) ∧
    (∀ a id c, s.conns a = some id → s.heap[id]? = some c → c.isEstablished = true →
      id ∈ s.handles ∨ s.point = .processed a id false) ∧
    {a | (s.conns a).isSome} = {a | (s.pendingEvents a).isSome} ∪ {a | s.delivered a = true} ∧
    Disjoint {a | (s.pendingEvents a).isSome} {a | s.delivered a = true} := by
  have h := ServerLoop.inv_run hrun
  refine ⟨h.once, fun x hx => ?_, fun a id c ha hc hest => ?_, ?_, ?_⟩
  · obtain ⟨-, hevents, hphase⟩ := h.channel x hx
    exact ⟨hphase, hevents⟩
  · by_cases hid : id ∈ s.handles
    · exact .inl hid
    · have hphase : c.phase = .established := of_decide_eq_true hest
      rcases h.waiting ha hc hid with hwait | hwait | ⟨-, hlast⟩
      · rw [hphase] at hwait
        cases hwait
      · rw [hphase] at hwait
        cases hwait
      · exact .inr hlast
  · ext a
    cases h.entries a with
    | absent ha hp hd | waiting ha hp hd | passedOn ha hp hd => simp [ha, hp, hd]
  · rw [Set.disjoint_left]
    intro a hp hd
    cases h.entries a with
    | absent _ hp' | passedOn _ hp' => simp [hp'] at hp
    | waiting _ _ hd' => cases hd.symm.trans hd'

def sampleDatagram (buf : Bytes) : List LoopEvent :=
  .datagram (sampleEnv 0) (sampleAddr .client) buf :: List.replicate 4 (.proceed (sampleEnv 0))

def sampleVisit : List LoopEvent :=
  .datagram (sampleEnv 0) (sampleAddr .client) [pktCookieReq] ::
    (sampleDatagram ((sampleEcho .aes256Gcm).sent.headD []) ++
      sampleDatagram ((sampleMsg3 .aes256Gcm .aes256Gcm).sent.headD []))

/-- A client comes, the application closes the connection, and the client comes again. -/
theorem accepted_exactly_once_reconnect :
    ∃ s, exec (ServerLoop.step (sampleAcceptArgs .aes256Gcm)) (ServerLoop.start samplePlatform)
        (sampleVisit ++ .close 0 :: sampleDatagram [0] ++ sampleVisit) = some s ∧
      s.handles = [0, 1] ∧ s.handles.Nodup ∧ s.delivered (sampleAddr .client) = true := by
  refine exists_exec_of (p := fun s => s.handles = [0, 1] ∧ s.delivered (sampleAddr .client) = true)
    (by decide +kernel) ?_
  rintro s hs ⟨hhandles, hdelivered⟩
  exact ⟨hhandles, (accepted_exactly_once hs).1, hdelivered⟩

end SeamProtocol
