import SeamProtocol.Transport.Close

/-! # Accounting of bytes in flight

`flush` charges both congestion controllers for every packet that is not a control packet, and an
acknowledgement gives back what the retransmission tracker knows of the packets it covers. Datagrams are
charged and not tracked, and a padded packet is charged with its padded size and tracked with the one
before. The windows are computed in floating point; they are a parameter. -/

namespace SeamProtocol

open Lib List Option ArqTracker Session Connection TarState

/-! ## The controllers -/

structure Windows where
  State : Type
  new : State
  cwnd : State → Nat
  advisoryCwnd : State → Nat
  /-- An acknowledgement: the two counters after it, the bytes, the round-trip time and the time. -/
  onAck : State → Nat → Nat → Nat → Nat → Nat → State
  onTimeout : State → State

def minCwnd : Nat := 4 * 1400

structure Controllers (W : Windows) where
  bytesInFlight : Nat
  inflight : Nat
  windows : W.State

namespace Controllers

variable {W : Windows}

def onSend (k : Controllers W) (bytes : Nat) : Controllers W :=
  { k with
    bytesInFlight := saturatingAdd k.bytesInFlight bytes
    inflight := saturatingAdd k.inflight bytes }

def onAck (k : Controllers W) (bytes rtt now : Nat) : Controllers W where
  bytesInFlight := k.bytesInFlight - bytes
  inflight := k.inflight - bytes
  windows := W.onAck k.windows (k.bytesInFlight - bytes) (k.inflight - bytes) bytes rtt now

def onTimeout (k : Controllers W) : Controllers W :=
  { k with bytesInFlight := 0, windows := W.onTimeout k.windows }

def available (k : Controllers W) : Nat := W.cwnd k.windows - k.bytesInFlight

def shouldSend (k : Controllers W) : Bool := k.inflight < max (W.advisoryCwnd k.windows) minCwnd

end Controllers

def controllers (W : Windows) : Congestion where
  State := Controllers W
  new := ⟨0, 0, W.new⟩
  available := Controllers.available
  shouldSend := Controllers.shouldSend
  onSend := Controllers.onSend
  onAck := Controllers.onAck
  onTimeout := Controllers.onTimeout

def Platform.accounted (X : Platform) (W : Windows) : Platform := { X with C := controllers W }

def Connection.counters {X : Platform} {W : Windows} (c : Connection (X.accounted W)) :
    Controllers W := c.cc

/-! ## What is on the wire -/

namespace Connection

variable {X : Platform}

def flushPuts (env : Env) (c : Connection X) : List Nat :=
  ((c.flushEncodes env).take (c.flush env).sent.length).map fun e => e.2.1.toNat

def retransmitPuts (env : Env) (c : Connection X) : List Nat :=
  match c.session with
  | none => []
  | some s =>
    ((s.drainRetransmits env.now).1.take (c.retransmitExpired env).sent.length).map Prod.fst

/-- The numbers of the packets that a call puts on the wire, of those that can be in flight. -/
def puts (env : Env) (c : Connection X) (call : Call) : List Nat :=
  (match c.flushes env call with
    | none => []
    | some c => c.flushPuts env)
  ++ match call with
    | .retransmitExpired => c.retransmitPuts env
    | .tick =>
      let r := (c.maybeQueuePing env).flush env
      match r.result with
      | .ok () => r.conn.retransmitPuts (env.after r.sent.length)
      | .error _ => []
    | _ => []

def packetPuts (env : Env) (c : Connection X) (buf : Bytes) : List Nat :=
  match c.arrives env buf with
  | none => []
  | some (events, c) =>
    match c.eventsFlush env events with
    | none => []
    | some (env, c) => c.flushPuts env

def acks (c : Connection X) (buf : Bytes) (pktNum : Nat) : Bool :=
  match c.phase, c.session with
  | .established, some s =>
    match (s.decoder.decode X.P buf).1 with
    | .ok y => Session.acksNumber y.1 y.2.2 pktNum
    | .error _ => false
  | _, _ => false

end Connection

structure Ledger (X : Platform) (W : Windows) where
  conn : Connection (X.accounted W)
  encoded : Nat
  /-- History: the numbers put on the wire and not acknowledged since. -/
  unacked : Finset Nat

inductive LedgerEvent where
  | call (env : Env) (call : Connection.Call)
  | packet (env : Env) (buf : Bytes)

namespace Ledger

variable {X : Platform} {W : Windows}

def init (base : Connection (X.accounted W)) (result : HandshakeResult) (role : Role)
    (ticket : Bool) : Ledger X W where
  conn := { base with
    phase := .established
    session := some (if ticket then (result.session role).bumped else result.session role)
    cc := (controllers W).new }
  encoded := if ticket then 1 else 0
  unacked := ∅

def step (l : Ledger X W) : LedgerEvent → Option (Ledger X W)
  | .call env call =>
    (l.conn.call env call).map fun r =>
      { conn := r.conn
        encoded := l.encoded + (l.conn.encodes env call).length
        unacked := l.unacked ∪ (l.conn.puts env call).toFinset }
  | .packet env buf =>
    (l.conn.onPacket env buf).map fun r =>
      { conn := r.conn
        encoded := l.encoded + (l.conn.packetEncodes env buf).length
        unacked := l.unacked.filter (fun pn => l.conn.acks buf pn = false)
          ∪ (l.conn.packetPuts env buf).toFinset }

end Ledger

/-! ## What is tracked -/

namespace ArqTracker

def size (t : ArqTracker) (pktNum : Nat) : Nat :=
  match t.inFlight.get? pktNum with
  | none => 0
  | some pkt => pkt.data.length

def outstanding (t : ArqTracker) (pktNums : Finset Nat) : Nat := ∑ pn ∈ pktNums, t.size pn

theorem size_eq_of_data {t t' : ArqTracker} {pn : Nat}
    (h : (t'.inFlight.get? pn).map InFlight.data = (t.inFlight.get? pn).map InFlight.data) :
    t'.size pn = t.size pn := by
  unfold size
  cases h₁ : t'.inFlight.get? pn <;> cases h₂ : t.inFlight.get? pn <;> simp_all

variable {pktNums : Finset Nat}

open Finset

theorem outstanding_congr {t t' : ArqTracker} (h : ∀ pn ∈ pktNums, t'.size pn = t.size pn) :
    t'.outstanding pktNums = t.outstanding pktNums :=
  sum_congr rfl h

variable (t : ArqTracker)

theorem outstanding_mono {pktNums' : Finset Nat} (h : pktNums ⊆ pktNums') :
    t.outstanding pktNums ≤ t.outstanding pktNums' := sum_le_sum_of_subset h

theorem outstanding_insert {pn : Nat} (h : pn ∉ pktNums) :
    t.outstanding (insert pn pktNums) = t.size pn + t.outstanding pktNums := sum_insert h

theorem outstanding_filter {p : Nat → Prop} [DecidablePred p] (h : ∀ pn, ¬ p pn → t.size pn = 0) :
    t.outstanding (pktNums.filter p) = t.outstanding pktNums := by
  unfold outstanding
  rw [sum_filter]
  refine sum_congr rfl fun pn _ => ?_
  split_ifs with hp
  · rfl
  · exact (h pn hp).symm

end ArqTracker

namespace Session

namespace AckProgress

variable (now : Nat)

theorem outstanding_ackOne (p : AckProgress) (pn : Nat) (pktNums : Finset Nat) :
    p.totalBytes + p.arq.outstanding pktNums
      ≤ (p.ackOne now pn).totalBytes + (p.ackOne now pn).arq.outstanding pktNums := by
  have htotal : (p.ackOne now pn).totalBytes = p.totalBytes + p.arq.size pn := by
    unfold ackOne onAck size
    cases p.arq.inFlight.get? pn with
    | none => rfl
    | some pkt =>
      dsimp only
      split_ifs <;> rfl
  have hsize : ∀ k, (p.ackOne now pn).arq.size k = if k = pn then 0 else p.arq.size k := by
    intro k
    unfold size
    rw [ackOne_get?]
    split_ifs <;> rfl
  have hsum : p.arq.outstanding pktNums
      ≤ p.arq.size pn + (p.ackOne now pn).arq.outstanding pktNums := by
    by_cases hpn : pn ∈ pktNums
    · -- the number itself counts once, the others are unchanged
      rw [← Finset.insert_erase hpn, outstanding_insert _ (Finset.notMem_erase _ _),
        outstanding_insert _ (Finset.notMem_erase _ _), hsize, if_pos rfl, Nat.zero_add]
      refine Nat.add_le_add_left (le_of_eq (outstanding_congr fun k hk => ?_)) _
      rw [hsize, if_neg (Finset.ne_of_mem_erase hk)]
    · refine le_trans (le_of_eq (outstanding_congr fun k hk => ?_))
        (Nat.le_add_left _ _)
      rw [hsize, if_neg (ne_of_mem_of_not_mem hk hpn)]
  omega

theorem outstanding_foldl_ackOne (pns : List Nat) (p : AckProgress) (pktNums : Finset Nat) :
    p.totalBytes + p.arq.outstanding pktNums ≤ (pns.foldl (ackOne now) p).totalBytes
      + (pns.foldl (ackOne now) p).arq.outstanding pktNums := by
  induction pns generalizing p with
  | nil => exact le_refl _
  | cons pn rest ih => exact (outstanding_ackOne now p pn pktNums).trans (ih _)

theorem outstanding_foldl_ackRange (ranges : List (Nat × Nat)) (p : AckProgress)
    (pktNums : Finset Nat) :
    p.totalBytes + p.arq.outstanding pktNums ≤ (ranges.foldl (ackRange now) p).totalBytes
      + (ranges.foldl (ackRange now) p).arq.outstanding pktNums := by
  induction ranges generalizing p with
  | nil => exact le_refl _
  | cons r rest ih => exact (outstanding_foldl_ackOne now _ p pktNums).trans (ih _)

end AckProgress

/-! ## Sessions without datagrams -/

/-- A session without datagrams to send that has encoded `n` packets, between calls. -/
structure Tidy (s : Session) (n : Nat) : Prop where
  feedback : s.pendingCcAck = none
  datagrams : s.datagrams.sendQueue = []
  next : s.encoder.nextPktNum = UInt64.ofNat n
  below : ∀ pn pkt, s.arq.inFlight.get? pn = some pkt → pn < n

structure SameBooks (s s' : Session) : Prop where
  arq : s'.arq = s.arq
  feedback : s'.pendingCcAck = s.pendingCcAck
  datagrams : s'.datagrams.sendQueue = s.datagrams.sendQueue
  encoder : s'.encoder = s.encoder

variable {s : Session} {n : Nat}

theorem Tidy.congr {s' : Session} (h : s.Tidy n) (hsame : s.SameBooks s') : s'.Tidy n := by
  refine ⟨?_, ?_, ?_, ?_⟩
  · rw [hsame.feedback, h.feedback]
  · rw [hsame.datagrams, h.datagrams]
  · rw [hsame.encoder, h.next]
  · rw [hsame.arq]
    exact h.below

theorem Tidy.bumped (h : s.Tidy n) : s.bumped.Tidy (n + 1) := by
  refine ⟨h.feedback, h.datagrams, ?_, fun pn pkt hpkt => Nat.lt_succ_of_lt (h.below pn pkt hpkt)⟩
  show s.encoder.nextPktNum + 1 = UInt64.ofNat (n + 1)
  simp [h.next]

theorem Tidy.toNat_next (h : s.Tidy n) (hn : n < 2 ^ 64) : s.encoder.nextPktNum.toNat = n := by
  rw [h.next, UInt64.toNat_ofNat', Nat.mod_eq_of_lt hn]

theorem draft_books {now : Nat} {em : Emission} {d : Draft} (h : s.draft now em = some d)
    (hnone : s.datagrams.sendQueue = []) :
    s.SameBooks d.sess ∧ (d.isControl = false → d.tracked = true) := by
  have hcases := draft_cases h
  cases em with
  | data id =>
    obtain ⟨stream, seg, stream', -, -, rfl⟩ := hcases
    exact ⟨⟨rfl, rfl, rfl, rfl⟩, fun _ => rfl⟩
  | fin id =>
    obtain ⟨stream, -, -, rfl⟩ := hcases
    exact ⟨⟨rfl, rfl, rfl, rfl⟩, fun _ => rfl⟩
  | datagram =>
    obtain ⟨dg, datagrams, hpoll, -⟩ := hcases
    unfold DatagramQueue.pollSend at hpoll
    rw [hnone] at hpoll
    cases hpoll
  | ack =>
    obtain ⟨-, rfl⟩ := hcases
    exact ⟨⟨rfl, rfl, rfl, rfl⟩, nofun⟩
  | maxData =>
    obtain ⟨limit, -, rfl⟩ := hcases
    exact ⟨⟨rfl, rfl, rfl, rfl⟩, nofun⟩
  | pong | ping =>
    rw [hcases]
    exact ⟨⟨rfl, rfl, rfl, rfl⟩, nofun⟩

end Session

structure Flush.Counted (s : Session) (n : Nat) (f : Flush) : Prop where
  tidy : f.sess.Tidy (n + f.log.length)
  old : ∀ pn < n, f.sess.arq.inFlight.get? pn = s.arq.inFlight.get? pn
  numbers : f.log.map (fun e => e.2.1.toNat) = List.range' n f.log.length
  packets : f.error = none → f.packets.length = f.log.length
  /-- Packets that are charged are in flight, with their size. -/
  charged : ∀ i tp, f.packets[i]? = some tp → tp.isControl = false →
    f.sess.arq.size (n + i) = tp.bytes.length

variable {P : Primitives} {now n : Nat} {s : Session}

theorem Flush.Counted.emit (hP : P.Lawful) {f : Flush} (h : f.Counted s n) (em : Emission)
    (hn : n + (f.emit P now em).log.length ≤ 2 ^ 64) : (f.emit P now em).Counted s n := by
  rcases f.emit_cases hP now em with heq | ⟨hnone, d, hd, ⟨e, -, heq⟩ | ⟨bytes, -, heq⟩⟩
  · rw [heq]
    exact h
  · obtain ⟨hbooks, -⟩ := draft_books hd h.tidy.datagrams
    have htidy := h.tidy.congr hbooks
    rw [heq] at hn ⊢
    rw [length_append, length_singleton] at hn
    refine ⟨?_, fun pn hpn => ?_, ?_, nofun, fun i tp htp hc => ?_⟩
    · rw [length_append]
      exact htidy.bumped
    · show d.sess.arq.inFlight.get? pn = _
      rw [hbooks.arq, h.old pn hpn]
    · rw [map_append, h.numbers, length_append, length_singleton,
        List.range'_1_concat, map_singleton, htidy.toNat_next (by omega)]
    · show d.sess.arq.size _ = _
      rw [hbooks.arq]
      exact h.charged i tp htp hc
  · obtain ⟨hbooks, htracked⟩ := draft_books hd h.tidy.datagrams
    have htidy := h.tidy.congr hbooks
    rw [heq] at hn ⊢
    rw [length_append, length_singleton] at hn
    have hnum := htidy.toNat_next (by omega)
    -- the packet enters the tracker under its own number, or the tracker stays as it was
    have hget : ∀ k, k ≠ n + f.log.length →
        (d.sent d.sess.bumped d.sess.encoder.nextPktNum bytes now).arq.inFlight.get? k
          = f.sess.arq.inFlight.get? k := by
      intro k hk
      rw [← hbooks.arq]
      unfold Draft.sent
      split_ifs
      · rw [onSent, SortedMap.get?_insert_of_ne _ _ (by rw [hnum]; exact hk)]
        rfl
      · rfl
    have hsize : ∀ k, k ≠ n + f.log.length →
        (d.sent d.sess.bumped d.sess.encoder.nextPktNum bytes now).arq.size k
          = f.sess.arq.size k :=
      fun k hk => size_eq_of_data (by rw [hget k hk])
    have hpackets := h.packets hnone
    refine ⟨⟨htidy.feedback, htidy.datagrams, ?_, fun pn pkt hpkt => ?_⟩, fun pn hpn => ?_, ?_,
      fun _ => ?_, fun i tp htp hc => ?_⟩
    · rw [length_append]
      exact htidy.bumped.next
    · rw [length_append, length_singleton]
      by_cases hpn : pn = n + f.log.length
      · omega
      · rw [hget pn hpn] at hpkt
        have := h.tidy.below pn pkt hpkt
        omega
    · rw [hget pn (by omega), h.old pn hpn]
    · rw [map_append, h.numbers, length_append, length_singleton,
        List.range'_1_concat, map_singleton, hnum]
    · simp [hpackets]
    · rw [List.getElem?_append] at htp
      split_ifs at htp with hi
      · rw [hsize _ (by omega)]
        exact h.charged i tp htp hc
      · -- the packet just encoded
        obtain ⟨hi', rfl⟩ := List.getElem?_eq_some_iff.mp htp
        rw [length_singleton] at hi'
        have hi0 : i = f.log.length := by omega
        rw [getElem_singleton] at hc ⊢
        unfold size Draft.sent
        rw [if_pos (htracked hc), onSent, hnum, hi0, SortedMap.get?_insert_self]

theorem Session.Tidy.flushed (hP : P.Lawful) (h : s.Tidy n) (now : Nat) (order : List Nat)
    (hn : n + (s.flushed P now order).log.length ≤ 2 ^ 64) : (s.flushed P now order).Counted s n := by
  refine flush_invariant (fun f => n + f.log.length ≤ 2 ^ 64 → f.Counted s n)
    (fun f em hf hn => ?_) order (fun _ => ?_) hn
  · have hlog : f.log.length ≤ (f.emit P now em).log.length := by
      rcases f.emit_log P now em with hlog | ⟨d, -, hlog⟩ <;> rw [hlog]
      simp
    exact (hf (by omega)).emit hP em hn
  · exact ⟨h, fun _ _ => rfl, rfl, fun _ => rfl, nofun⟩

/-! ## Charges -/

theorem TarState.length_transform_flush {t : TarState} (h : t.config.noPadding = true)
    (packet : Bytes) : (t.transform .flush packet).1.length = packet.length := by
  have hconfig : t.jitterDelay.2.config.paddingEnabled = false := by
    rw [t.sameMask_jitterDelay.config_eq, TarConfig.paddingEnabled, h]
    rfl
  rw [transform]
  rw [maybePad, hconfig]
  unfold maybeObfuscate
  split
  · simp [obfuscateHeader]
  · rfl

namespace Connection

variable {X : Platform} {W : Windows}

/-- A connection with the given session, without padding, that is charged with at most what is in
flight under the given numbers. -/
structure Charged (c : Connection (X.accounted W)) (s : Session) (unacked : Finset Nat) : Prop where
  session : c.session = some s
  padding : c.tar.config.noPadding = true
  bytesInFlight : c.counters.bytesInFlight ≤ s.arq.outstanding unacked
  inflight : c.counters.inflight ≤ s.arq.outstanding unacked

variable {c : Connection (X.accounted W)} {s : Session} {unacked : Finset Nat}
  {c' : Connection (X.accounted W)}

theorem Charged.congr {s' : Session} (h : c.Charged s unacked) (hsession : c'.session = some s')
    (hconfig : c'.tar.config = c.tar.config) (hcc : c'.cc = c.cc)
    (hsize : ∀ pn ∈ unacked, s'.arq.size pn = s.arq.size pn) : c'.Charged s' unacked := by
  have hcounters : c'.counters = c.counters := hcc
  refine ⟨hsession, by rw [hconfig, h.padding], ?_, ?_⟩
  · rw [hcounters, outstanding_congr hsize]
    exact h.bytesInFlight
  · rw [hcounters, outstanding_congr hsize]
    exact h.inflight

theorem Charged.mono {unacked' : Finset Nat} (h : c.Charged s unacked) (hsub : unacked ⊆ unacked') :
    c.Charged s unacked' :=
  ⟨h.session, h.padding, h.bytesInFlight.trans (s.arq.outstanding_mono hsub),
    h.inflight.trans (s.arq.outstanding_mono hsub)⟩

theorem sendTo_andThen (env : Env) (c k : Connection X) (datagram : Bytes)
    (f : Connection X → Reply X) :
    (∃ e, (c.sendTo env datagram k).andThen f = .fail c e) ∨
    (c.sendTo env datagram k).andThen f = { f k with sent := datagram :: (f k).sent } := by
  unfold sendTo
  split
  · exact .inl ⟨_, rfl⟩
  · exact .inr rfl

/-- **What the loop of a flush does with its first packet**: it ends there with nothing sent, or it
sends the packet, with a charge unless it is a control packet, and goes on. -/
theorem flushLoop_cons (env : Env) (c : Connection X) (tp : TaggedPacket) (rest : List TaggedPacket) :
    ∃ c₁ : Connection X, c₁ = { c with
        lastSend := env.now, tar := (c.tar.transform .flush tp.bytes).2 } ∧
      ((flushLoop env c (tp :: rest)).conn = c₁ ∧ (flushLoop env c (tp :: rest)).sent = [] ∨
      ∃ k wire, flushLoop env c (tp :: rest) = { flushLoop (env.after 1) k rest with
          sent := wire :: (flushLoop (env.after 1) k rest).sent } ∧
        (k = { c₁ with sendCounter := c₁.sendCounter + 1 } ∨
        tp.isControl = false ∧ k = { c₁ with
          cc := X.C.onSend c₁.cc (c.tar.transform .flush tp.bytes).1.length
          tar := c₁.tar.onRealSend env.now
          sendCounter := c₁.sendCounter + 1 })) := by
  refine ⟨_, rfl, ?_⟩
  rw [flushLoop]
  split
  · rcases sendTo_andThen env _ _ _ _ with ⟨e, heq⟩ | heq
    · rw [heq]
      exact .inl ⟨rfl, rfl⟩
    · exact .inr ⟨_, _, heq, .inl rfl⟩
  · next hcontrol =>
      split
      · exact .inl ⟨rfl, rfl⟩
      · rcases sendTo_andThen env _ _ _ _ with ⟨e, heq⟩ | heq
        · rw [heq]
          exact .inl ⟨rfl, rfl⟩
        · exact .inr ⟨_, _, heq, .inr ⟨Bool.eq_false_of_not_eq_true hcontrol, rfl⟩⟩

variable {n : Nat}

theorem Charged.charge (h : c.Charged s unacked) (hn : n ∉ unacked) {tar : TarState}
    (hconfig : tar.config = c.tar.config) (sendCounter : Nat) : ({ c with
      cc := (X.accounted W).C.onSend c.cc (s.arq.size n)
      tar, sendCounter } : Connection (X.accounted W)).Charged s (insert n unacked) := by
  have hadd : ∀ a b : Nat, saturatingAdd a b ≤ a + b := fun a b => min_le_left _ _
  refine ⟨h.session, by rw [hconfig, h.padding], ?_, ?_⟩
  · rw [outstanding_insert _ hn, Nat.add_comm]
    exact (hadd _ _).trans (Nat.add_le_add_right h.bytesInFlight _)
  · rw [outstanding_insert _ hn, Nat.add_comm]
    exact (hadd _ _).trans (Nat.add_le_add_right h.inflight _)

theorem Charged.flushLoop (packets : List TaggedPacket) (env : Env) (h : c.Charged s unacked)
    (hbelow : ∀ pn ∈ unacked, pn < n) (hsize : ∀ i tp, packets[i]? = some tp → tp.isControl = false →
      s.arq.size (n + i) = tp.bytes.length) :
    (flushLoop env c packets).sent.length ≤ packets.length ∧
    (flushLoop env c packets).conn.Charged s (unacked
      ∪ (range' n (flushLoop env c packets).sent.length).toFinset) := by
  induction packets generalizing env c unacked n with
  | nil => exact ⟨le_refl _, h.mono Finset.subset_union_left⟩
  | cons tp rest ih =>
    obtain ⟨c₁, hc₁, hloop⟩ := flushLoop_cons env c tp rest
    have h₁ : c₁.Charged s unacked := by
      rw [hc₁]
      exact h.congr h.session (c.tar.sameMask_transform .flush tp.bytes).config_eq rfl
        fun _ _ => rfl
    rcases hloop with ⟨hconn, hsent⟩ | ⟨k, wire, heq, hk⟩
    · rw [hconn, hsent]
      exact ⟨Nat.zero_le _, h₁.mono Finset.subset_union_left⟩
    · have hfresh : n ∉ unacked := fun hn => absurd (hbelow n hn) (lt_irrefl n)
      have hcharged : k.Charged s (insert n unacked) := by
        rcases hk with rfl | ⟨hcontrol, rfl⟩
        · exact Charged.mono ⟨h₁.session, h₁.padding, h₁.bytesInFlight, h₁.inflight⟩
            (Finset.subset_insert _ _)
        · rw [length_transform_flush h.padding, ← hsize 0 tp rfl hcontrol]
          exact h₁.charge hfresh (sameMask_onRealSend _ _).config_eq _
      have hrest := ih (env.after 1) (n := n + 1) hcharged (fun pn hpn => ?_) fun i tp' htp' hc => ?_
      · rw [heq]
        refine ⟨Nat.succ_le_succ hrest.1, ?_⟩
        rw [length_cons, range'_succ, toFinset_cons, Finset.union_insert,
          ← Finset.insert_union]
        exact hrest.2
      · rcases Finset.mem_insert.mp hpn with rfl | hold
        · exact Nat.lt_succ_self _
        · exact Nat.lt_succ_of_lt (hbelow pn hold)
      · rw [← hsize (i + 1) tp' htp' hc]
        congr 1
        omega

/-! ## The invariant -/

/-- **The invariant**: the charges are covered by what is in flight under the numbers that are on the
wire and not acknowledged; `n` packets were encoded so far. -/
structure Balanced (c : Connection (X.accounted W)) (n : Nat) (unacked : Finset Nat) : Prop where
  session : ∃ s, c.Charged s unacked ∧ s.Tidy n
  below : ∀ pn ∈ unacked, pn < n

theorem Balanced.congr (h : c.Balanced n unacked) (hconfig : c'.tar.config = c.tar.config)
    (hcc : c'.cc = c.cc)
    (hsession : ∀ s, c.session = some s → ∃ s', c'.session = some s' ∧ s.SameBooks s') :
    c'.Balanced n unacked := by
  obtain ⟨s, hs, htidy⟩ := h.session
  obtain ⟨s', hs', hbooks⟩ := hsession s hs.session
  refine ⟨⟨s', hs.congr hs' hconfig hcc fun pn _ => ?_, htidy.congr hbooks⟩, h.below⟩
  rw [hbooks.arq]

theorem Balanced.flush (hX : X.P.Lawful) (h : c.Balanced n unacked) (env : Env)
    (hn : n + (c.flushEncodes env).length ≤ 2 ^ 64) :
    (c.flush env).conn.Balanced (n + (c.flushEncodes env).length)
      (unacked ∪ (c.flushPuts env).toFinset) := by
  obtain ⟨s, hs, htidy⟩ := h.session
  have hlog : c.flushEncodes env = (s.flushed X.P env.now env.order).log := by
    unfold flushEncodes
    rw [hs.session]
    rfl
  unfold flushPuts
  rw [hlog] at hn ⊢
  have hcounted := htidy.flushed hX env.now env.order hn
  -- what was on the wire before is in flight as it was
  have h₁ : ({ c with session := some (s.flushed X.P env.now env.order).sess } :
      Connection (X.accounted W)).Charged (s.flushed X.P env.now env.order).sess unacked := by
    refine hs.congr rfl rfl rfl fun pn hpn => size_eq_of_data ?_
    rw [hcounted.old pn (h.below pn hpn)]
  rcases s.flush_cases X.P env.now env.order with ⟨e, -, heq⟩ | ⟨herr, heq⟩
  · have hflush : c.flush env
        = .fail { c with session := some (s.flushed X.P env.now env.order).sess } e := by
      unfold Connection.flush
      rw [hs.session]
      dsimp only
      rw [show (X.accounted W).P = X.P from rfl, heq]
    rw [hflush]
    refine ⟨⟨_, h₁.mono Finset.subset_union_left, hcounted.tidy⟩, fun pn hpn => ?_⟩
    rcases Finset.mem_union.mp hpn with hold | hnew
    · exact Nat.lt_add_right _ (h.below pn hold)
    · simp [Reply.fail] at hnew
  · have hflush : c.flush env
        = flushLoop env { c with session := some (s.flushed X.P env.now env.order).sess }
          (s.flushed X.P env.now env.order).packets := by
      unfold Connection.flush
      rw [hs.session]
      dsimp only
      rw [show (X.accounted W).P = X.P from rfl, heq]
    rw [hflush]
    obtain ⟨hlen, hloop⟩ := h₁.flushLoop (s.flushed X.P env.now env.order).packets env h.below
      hcounted.charged
    rw [hcounted.packets herr] at hlen
    rw [map_take, hcounted.numbers, take_range'_of_length_ge hlen]
    refine ⟨⟨_, hloop, hcounted.tidy⟩, fun pn hpn => ?_⟩
    rcases Finset.mem_union.mp hpn with hold | hnew
    · exact Nat.lt_add_right _ (h.below pn hold)
    · rw [List.mem_toFinset, List.mem_range'_1] at hnew
      omega

theorem Balanced.retransmitExpired (h : c.Balanced n unacked) (env : Env) :
    (c.retransmitExpired env).conn.Balanced n (unacked ∪ (c.retransmitPuts env).toFinset) := by
  obtain ⟨s, hs, htidy⟩ := h.session
  have hsize : ∀ pn, (s.drainRetransmits env.now).2.arq.size pn = s.arq.size pn :=
    fun pn => size_eq_of_data (s.arq.drainExpired_data env.now pn)
  have hloop : ∀ (due : List (Nat × Bytes)) (env' : Env) (k : Connection (X.accounted W)),
      k.Charged (s.drainRetransmits env.now).2 unacked →
      (retransmitLoop env' k due).conn.Charged (s.drainRetransmits env.now).2 unacked := by
    intro due
    induction due with
    | nil => exact fun env' k hk => hk
    | cons e rest ih =>
      intro env' k hk
      have hconfig := (k.tar.sameMask_transform .retransmitExpired e.2).config_eq
      refine andThen_conn (I := fun k => k.Charged (s.drainRetransmits env.now).2 unacked)
        (sendTo_conn (I := fun k => k.Charged (s.drainRetransmits env.now).2 unacked) ?_ ?_ _)
        fun k' hk' => ih _ k' hk'
      · exact hk.congr hk.session hconfig rfl fun _ _ => rfl
      · exact hk.congr hk.session ((sameMask_onRealSend _ _).config_eq.trans hconfig) rfl
          fun _ _ => rfl
  have hstart : ({ c with
      session := some (s.drainRetransmits env.now).2
      cc := if (s.drainRetransmits env.now).1.isEmpty then c.cc
        else (X.accounted W).C.onTimeout c.cc } : Connection (X.accounted W)).Charged
        (s.drainRetransmits env.now).2 unacked := by
    split_ifs
    · exact hs.congr rfl rfl rfl fun pn _ => hsize pn
    · refine ⟨rfl, hs.padding, Nat.zero_le _, ?_⟩
      rw [outstanding_congr fun pn _ => hsize pn]
      exact hs.inflight
  have hconn : (c.retransmitExpired env).conn.Charged (s.drainRetransmits env.now).2 unacked := by
    unfold Connection.retransmitExpired
    rw [hs.session]
    exact hloop _ env _ hstart
  refine ⟨⟨_, hconn.mono Finset.subset_union_left, ⟨htidy.feedback, htidy.datagrams, htidy.next,
    fun pn pkt hpkt => ?_⟩⟩, fun pn hpn => ?_⟩
  · have hdata := s.arq.drainExpired_data env.now pn
    rw [show (s.arq.drainExpired env.now).2.inFlight.get? pn = some pkt from hpkt] at hdata
    obtain ⟨pkt', hpkt', -⟩ := map_eq_some_iff.mp hdata.symm
    exact htidy.below pn pkt' hpkt'
  · rcases Finset.mem_union.mp hpn with hold | hnew
    · exact h.below pn hold
    · unfold retransmitPuts at hnew
      rw [hs.session, List.mem_toFinset] at hnew
      obtain ⟨e, he, rfl⟩ := List.mem_map.mp hnew
      obtain ⟨pkt, hpkt, -⟩ := mem_drainExpired (List.mem_of_mem_take he)
      exact htidy.below e.1 pkt hpkt

theorem encodeRaw_conn (c : Connection X) (s : Session) (pktType : PktType) (payload : Bytes) :
    (c.encodeRaw s pktType payload).2 = { c with session := some s.bumped } := by
  have hsize : ¬ (replicate (32 + payload.length + 16) (0 : UInt8)).length
      < encodeBufLen payload.length := by
    simp [encodeBufLen, headerLen, tagLen]
  unfold encodeRaw Session.encodeRaw PacketEncoder.encode
  rw [if_neg hsize]
  split <;> rfl

theorem Balanced.encodeRaw (h : c.Balanced n unacked) (hs : c.session = some s) (pktType : PktType)
    (payload : Bytes) : (c.encodeRaw s pktType payload).2.Balanced (n + 1) unacked := by
  obtain ⟨s', hs', htidy⟩ := h.session
  cases hs.symm.trans hs'.session
  rw [encodeRaw_conn]
  exact ⟨⟨_, hs'.congr rfl rfl rfl fun _ _ => rfl, htidy.bumped⟩,
    fun pn hpn => Nat.lt_succ_of_lt (h.below pn hpn)⟩

theorem Balanced.sendPathResponse (h : c.Balanced n unacked) (env : Env) (nonce : Nat) :
    c.session.isSome = true ∧ (c.sendPathResponse env nonce).conn.Balanced (n + 1) unacked := by
  obtain ⟨s, hs, -⟩ := h.session
  have hraw := h.encodeRaw hs.session .pathResponse (leBytes 8 nonce)
  refine ⟨by rw [hs.session]; rfl, ?_⟩
  unfold Connection.sendPathResponse
  rw [hs.session]
  dsimp only
  split
  · next e c' heq =>
      rw [heq] at hraw
      exact hraw
  · next packet c' heq =>
      rw [heq] at hraw
      exact sendTo_conn (I := fun k => k.Balanced (n + 1) unacked) hraw hraw _

theorem Balanced.handleEvents (h : c.Balanced n unacked) (env : Env) (events : List SessionEvent) :
    (handleEvents env c events).conn.Balanced (n + (eventsEncode env c events).length) unacked := by
  induction events generalizing env c n with
  | nil => exact h
  | cons ev rest ih =>
    have hkeep : ∀ events,
        ({ c with events } : Connection (X.accounted W)).Balanced n unacked := fun events =>
      h.congr rfl rfl fun s hs => ⟨s, hs, rfl, rfl, rfl, rfl⟩
    cases ev with
    | pathChallengeReceived nonce =>
      obtain ⟨hsome, hresp⟩ := h.sendPathResponse env nonce
      obtain ⟨s, hs⟩ := isSome_iff_exists.mp hsome
      rw [handleEvents, eventsEncode, hs, length_append, ← Nat.add_assoc]
      unfold Reply.andThen
      cases hres : (c.sendPathResponse env nonce).result with
      | error e => exact hresp
      | ok u => exact ih hresp (env.after (c.sendPathResponse env nonce).sent.length)
    | pathResponseReceived nonce => exact ih h env
    | _ => exact ih (hkeep _) env

theorem Balanced.feedAck (h : c.Balanced n unacked) (env : Env) :
    (c.feedAck env).Balanced n unacked := by
  obtain ⟨s, hs, htidy⟩ := h.session
  have hdrain : s.drainCcAck = (none, { s with pendingCcAck := none }) := by
    rw [drainCcAck, htidy.feedback]
  unfold Connection.feedAck
  rw [hs.session]
  dsimp only
  rw [hdrain]
  refine h.congr rfl rfl fun s' hs' => ?_
  cases hs'.symm.trans hs.session
  exact ⟨_, rfl, rfl, htidy.feedback.symm, rfl, rfl⟩

end Connection

/-! ## Packets -/

theorem Session.sameBooks_dispatch {s' : Session} {pktType : PktType} {payload : Bytes}
    {r : Except SeamError (List SessionEvent)} (hne : pktType ≠ .ack)
    (h : s.dispatch pktType payload now = some (r, s')) : s.SameBooks s' := by
  rcases dispatch_cases h with ⟨-, heq⟩ | ⟨hack, -⟩ | ⟨-, -, -, rfl⟩ |
    ⟨-, -, -, -, _, _, rfl, hqueue⟩
  · obtain ⟨_, _, _, rfl⟩ := handleDataFrame_eq heq
    exact ⟨rfl, rfl, rfl, rfl⟩
  · exact absurd hack hne
  · exact ⟨rfl, rfl, rfl, rfl⟩
  · exact ⟨rfl, rfl, hqueue, rfl⟩

theorem Session.Tidy.handleAckFrame (h : s.Tidy n) (payload : Bytes) (now : Nat)
    (pktNums : Finset Nat) :
    ∃ arq feedback bytes, s.handleAckFrame payload now = { s with arq, pendingCcAck := feedback } ∧
      (feedback = none ∧ bytes = 0 ∨ ∃ rtt, feedback = some (bytes, rtt)) ∧
      s.arq.outstanding pktNums ≤ bytes + arq.outstanding pktNums := by
  unfold Session.handleAckFrame
  split
  · exact ⟨s.arq, s.pendingCcAck, 0, rfl, .inl ⟨h.feedback, rfl⟩, Nat.le_add_left _ _⟩
  · next ranges _ =>
      have hsum := AckProgress.outstanding_foldl_ackRange now ranges ⟨s.arq, 0, none⟩ pktNums
      rw [Nat.zero_add] at hsum
      dsimp only
      rw [h.feedback]
      split_ifs with htotal
      · exact ⟨_, _, _, rfl, .inr ⟨_, rfl⟩, hsum⟩
      · rw [Nat.eq_zero_of_not_pos htotal] at hsum
        exact ⟨_, _, 0, rfl, .inl ⟨rfl, rfl⟩, hsum⟩

namespace Connection

variable {X : Platform} {c c' : Connection (X.accounted W)} {n : Nat} {unacked : Finset Nat}
  {s : Session}

theorem Charged.ack (hs : c.Charged s unacked) (htidy : s.Tidy n) (payload : Bytes) (now : Nat)
    (env : Env) (hsession : c'.session = some (s.handleAckFrame payload now))
    (hconfig : c'.tar.config = c.tar.config) (hcc : c'.cc = c.cc) :
    ∃ s', (c'.feedAck env).Charged s'
      (unacked.filter fun pn => acksNumber .ack payload pn = false) ∧ s'.Tidy n := by
  have hcounters : c'.counters = c.counters := hcc
  have hget := dispatch_inFlight
    (show s.dispatch .ack payload now = some (.ok [], s.handleAckFrame payload now) from rfl)
  obtain ⟨arq, feedback, bytes, heq, hfeedback, hsum⟩ := htidy.handleAckFrame payload now unacked
  rw [heq] at hsession hget
  -- the numbers covered are no longer in flight
  have hfilter : arq.outstanding (unacked.filter fun pn => acksNumber .ack payload pn = false)
      = arq.outstanding unacked := by
    refine arq.outstanding_filter fun pn hpn => ?_
    have hnone := hget pn
    rw [if_pos (Bool.eq_true_of_not_eq_false hpn)] at hnone
    rw [size, hnone]
  have htidy' : ({ s with arq, pendingCcAck := none } : Session).Tidy n := by
    refine ⟨rfl, htidy.datagrams, htidy.next, fun pn pkt hpkt => ?_⟩
    have hpn := hget pn
    rw [hpkt] at hpn
    split_ifs at hpn
    exact htidy.below pn pkt hpn.symm
  refine ⟨{ s with arq, pendingCcAck := none }, ?_, htidy'⟩
  unfold feedAck drainCcAck
  rw [hsession]
  have hbytes := hs.bytesInFlight
  have hinflight := hs.inflight
  rw [← hcounters] at hbytes hinflight
  rcases hfeedback with ⟨rfl, rfl⟩ | ⟨rtt, rfl⟩
  · refine ⟨rfl, by rw [hconfig, hs.padding], ?_, ?_⟩
    · show c'.counters.bytesInFlight ≤ arq.outstanding _
      omega
    · show c'.counters.inflight ≤ arq.outstanding _
      omega
  · refine ⟨rfl, by rw [hconfig, hs.padding], ?_, ?_⟩
    · show c'.counters.bytesInFlight - bytes ≤ arq.outstanding _
      omega
    · show c'.counters.inflight - bytes ≤ arq.outstanding _
      omega

theorem Balanced.filter {p : Nat → Prop} [DecidablePred p] (h : c.Balanced n unacked)
    (hall : ∀ pn, p pn) : c.Balanced n (unacked.filter p) := by
  rw [Finset.filter_true_of_mem fun pn _ => hall pn]
  exact h

variable {buf : Bytes}

/-- **What the session makes of a packet**: the books stay as they are, or it is an acknowledgement,
balanced once the controllers are told. -/
theorem Balanced.receivePacket (h : c.Balanced n unacked) (env : Env) {s' : Session}
    {res : Except SeamError (List SessionEvent)} (hphase : c.phase = .established)
    (hs : c.session = some s) (hrecv : s.receivePacket X.P buf env.now = some (res, s'))
    (hc' : c' = { c with lastRecv := env.now, session := some s' }) :
    c'.Balanced n (unacked.filter fun pn => c.acks buf pn = false) ∨
    res = .ok [] ∧
      (c'.feedAck env).Balanced n (unacked.filter fun pn => c.acks buf pn = false) := by
  have hsame : s.SameBooks s' → c'.Balanced n unacked := fun hbooks => by
    rw [hc']
    refine h.congr rfl rfl fun s'' hs'' => ?_
    cases hs''.symm.trans hs
    exact ⟨s', rfl, hbooks⟩
  have hacks : ∀ y, (s.decoder.decode X.P buf).1 = .ok y →
      c.acks buf = acksNumber y.1 y.2.2 := by
    intro y hy
    unfold acks
    rw [hphase, hs]
    dsimp only
    rw [show (X.accounted W).P = X.P from rfl, hy]
  rcases s.receivePacket_cases X.P buf env.now with ⟨e, he, heq⟩ | ⟨y, hy, heq⟩
  · rw [heq] at hrecv
    cases hrecv
    refine .inl ((hsame ⟨rfl, rfl, rfl, rfl⟩).filter fun pn => ?_)
    unfold acks
    rw [hphase, hs]
    dsimp only
    rw [show (X.accounted W).P = X.P from rfl, he]
  · rw [heq] at hrecv
    rw [hacks y hy]
    by_cases hack : y.1 = .ack
    · -- an acknowledgement
      obtain ⟨s₀, hs₀, htidy⟩ := h.session
      cases hs.symm.trans hs₀.session
      rw [hack] at hrecv ⊢
      cases hrecv
      have hnoted : s.SameBooks (s.noted y env.now) := ⟨rfl, rfl, rfl, rfl⟩
      have hcharged : ({ c with session := some (s.noted y env.now) } :
          Connection (X.accounted W)).Charged (s.noted y env.now) unacked :=
        hs₀.congr rfl rfl rfl fun _ _ => rfl
      have hsession : c'.session = some ((s.noted y env.now).handleAckFrame y.2.2 env.now) := by
        rw [hc']
      obtain ⟨s'', hs'', htidy''⟩ := hcharged.ack (htidy.congr hnoted) y.2.2 env.now env hsession
        (by rw [hc']) (by rw [hc'])
      exact .inr ⟨rfl, ⟨s'', hs'', htidy''⟩,
        fun pn hpn => h.below pn (Finset.mem_of_mem_filter pn hpn)⟩
    · have hbooks := sameBooks_dispatch hack hrecv
      refine .inl ((hsame ⟨hbooks.arq, hbooks.feedback, hbooks.datagrams, hbooks.encoder⟩).filter
        fun pn => ?_)
      unfold acksNumber
      split
      · exact absurd ‹y.1 = .ack› hack
      · rfl

variable {env : Env}

theorem Balanced.of_not_arrives (h : c'.Balanced n unacked) (hnone : c.arrives env buf = none) :
    c'.Balanced (n + (c.packetEncodes env buf).length)
      (unacked ∪ (c.packetPuts env buf).toFinset) := by
  unfold packetEncodes packetPuts
  simpa [hnone, toFinset_nil] using h

theorem Balanced.of_arrives (hX : X.P.Lawful) {events : List SessionEvent}
    (harr : c.arrives env buf = some (events, c'))
    (h : c'.Balanced n unacked ∨ events = [] ∧ (c'.feedAck env).Balanced n unacked)
    (hn : n + (c.packetEncodes env buf).length ≤ 2 ^ 64) :
    ((Connection.handleEvents env c' events).andThen fun k =>
      let k := k.feedAck env
      if k.hasPendingMaxData then
        k.flush (env.after (Connection.handleEvents env c' events).sent.length)
      else .done k).conn.Balanced (n + (c.packetEncodes env buf).length)
        (unacked ∪ (c.packetPuts env buf).toFinset) := by
  unfold packetEncodes at hn ⊢
  unfold packetPuts
  rw [harr] at hn ⊢
  unfold eventsFlush at hn ⊢
  dsimp only at hn ⊢
  unfold Reply.andThen
  cases hres : (Connection.handleEvents env c' events).result with
  | error e =>
    rcases h with h | ⟨rfl, -⟩
    · simpa [toFinset_nil] using h.handleEvents env events
    · cases hres
  | ok u =>
    have hfed : ((Connection.handleEvents env c' events).conn.feedAck env).Balanced
        (n + (eventsEncode env c' events).length) unacked := by
      rcases h with h | ⟨rfl, h⟩
      · exact (h.handleEvents env events).feedAck env
      · exact h
    rw [hres] at hn
    dsimp only at hn ⊢
    split_ifs at hn ⊢
    · rw [length_append, ← Nat.add_assoc] at hn ⊢
      exact hfed.flush hX _ hn
    · rw [append_nil, toFinset_nil, Finset.union_empty]
      exact hfed

variable {r : Reply (X.accounted W)}

theorem Balanced.onPacket (hX : X.P.Lawful) (h : c.Balanced n unacked)
    (hphase : c.phase = .established ∨ c.phase = .draining) (hr : c.onPacket env buf = some r)
    (hn : n + (c.packetEncodes env buf).length ≤ 2 ^ 64) :
    r.conn.Balanced (n + (c.packetEncodes env buf).length)
      (unacked.filter (fun pn => c.acks buf pn = false) ∪ (c.packetPuts env buf).toFinset) := by
  rcases hphase with hphase | hphase
  · obtain ⟨s, hs, htidy⟩ := h.session
    by_cases hbuf : buf = []
    · -- nothing is done with an empty datagram, and the session would refuse it
      have hdecode : ∃ e, (s.decoder.decode X.P buf).1 = .error e := by
        rw [hbuf]
        exact ⟨_, rfl⟩
      obtain ⟨e, he⟩ := hdecode
      rw [hbuf] at hr
      cases hr
      refine Balanced.of_not_arrives (h.filter fun pn => ?_) ?_
      · unfold acks
        rw [hphase, hs.session]
        dsimp only
        rw [show (X.accounted W).P = X.P from rfl, he]
      · unfold arrives
        rw [hphase, hs.session]
        dsimp only
        rw [show (X.accounted W).P = X.P from rfl, receivePacket_of_error env.now he]
    · rw [onPacket_of_established hphase hbuf] at hr
      unfold onDataPacket at hr
      rw [hs.session] at hr
      obtain ⟨⟨res, s'⟩, hrecv, heq⟩ := map_eq_some_iff.mp hr
      have hreceived := h.receivePacket env hphase hs.session hrecv rfl
      cases res with
      | error e =>
        cases heq
        rcases hreceived with hreceived | ⟨hok, -⟩
        · refine hreceived.of_not_arrives ?_
          unfold arrives
          rw [hphase, hs.session]
          dsimp only
          rw [hrecv]
        · cases hok
      | ok events =>
        cases heq
        refine Balanced.of_arrives hX ?_ (hreceived.imp_right fun hack => ?_) hn
        · unfold arrives
          rw [hphase, hs.session]
          dsimp only
          rw [hrecv]
        · exact ⟨Except.ok.inj hack.1, hack.2⟩
  · have hdone : r = .done c := by
      unfold Connection.onPacket at hr
      split at hr
      · exact (Option.some.inj hr).symm
      · rw [hphase] at hr
        exact (Option.some.inj hr).symm
    rw [hdone]
    refine Balanced.of_not_arrives (h.filter fun pn => ?_) ?_
    · unfold acks
      rw [hphase]
    · unfold arrives
      rw [hphase]

theorem encodes_of_flushes {c c' : Connection X} {call : Call} (h : c.flushes env call = some c') :
    c.encodes env call = c'.flushEncodes env := by
  unfold encodes
  split
  · cases h
  · rw [h]

theorem Balanced.flushes (hX : X.P.Lawful) {call : Call} (hc' : c.flushes env call = some c')
    (h : c'.Balanced n unacked) (hn : n + (c.encodes env call).length ≤ 2 ^ 64) :
    (c'.flush env).conn.Balanced (n + (c.encodes env call).length)
      (unacked ∪ (c'.flushPuts env).toFinset) := by
  rw [encodes_of_flushes hc'] at hn ⊢
  exact h.flush hX env hn

theorem Balanced.call (hX : X.P.Lawful) (h : c.Balanced n unacked) {call : Call}
    (hcall : ∀ data, call ≠ .sendDatagram data) (hr : c.call env call = some r)
    (hn : n + (c.encodes env call).length ≤ 2 ^ 64) :
    r.conn.Balanced (n + (c.encodes env call).length)
      (unacked ∪ (c.puts env call).toFinset) := by
  obtain ⟨s, hs, htidy⟩ := h.session
  have hbooks : ∀ {c' : Connection (X.accounted W)} {s' : Session}, c'.session = some s' →
      c'.tar = c.tar → c'.cc = c.cc → s.SameBooks s' → c'.Balanced n unacked := by
    intro c' s' hs' htar hcc hbooks
    refine h.congr (by rw [htar]) hcc fun s'' hs'' => ?_
    cases hs''.symm.trans hs.session
    exact ⟨s', hs', hbooks⟩
  have hflush : ∀ {c' : Connection (X.accounted W)}, c.flushes env call = some c' →
      c'.Balanced n unacked → c.puts env call = c'.flushPuts env →
      (c'.flush env).conn.Balanced (n + (c.encodes env call).length)
        (unacked ∪ (c.puts env call).toFinset) := by
    intro c' hc' hbal hputs
    rw [hputs]
    exact Balanced.flushes hX hc' hbal hn
  have hnil : ∀ {m : Nat} {c' : Connection (X.accounted W)}, c'.Balanced m unacked →
      c'.Balanced m (unacked ∪ ([] : List Nat).toFinset) := by
    intro m c' hbal
    simpa [toFinset_nil] using hbal
  cases call with
  | sendDatagram data => exact absurd rfl (hcall data)
  | openStream =>
    obtain ⟨c', hc', rfl⟩ := map_eq_some_iff.mp hr
    obtain ⟨s', hs', hopen⟩ := bind_eq_some_iff.mp hc'
    cases hs'.symm.trans hs.session
    unfold tryOpenStreamWithPriority at hopen
    split_ifs at hopen
    cases hopen
    exact hnil (hbooks rfl rfl rfl ⟨rfl, rfl, rfl, rfl⟩)
  | read id max =>
    obtain ⟨s', hs', hmap⟩ := bind_eq_some_iff.mp hr
    cases hs'.symm.trans hs.session
    obtain ⟨⟨res, s'⟩, hread, rfl⟩ := map_eq_some_iff.mp hmap
    obtain ⟨streams, rfl⟩ := read_eq hread
    cases res <;> exact hnil (hbooks rfl rfl rfl ⟨rfl, rfl, rfl, rfl⟩)
  | recvDatagram =>
    cases hr
    have hqueue : s.SameBooks s.recvDatagram.2 := by
      refine ⟨rfl, rfl, ?_, rfl⟩
      show s.datagrams.recv.2.sendQueue = s.datagrams.sendQueue
      unfold DatagramQueue.recv
      split <;> rfl
    have hsession : c.recvDatagram.session = some s.recvDatagram.2 := by
      unfold Connection.recvDatagram
      rw [hs.session]
      rfl
    exact hnil (hbooks hsession rfl rfl hqueue)
  | close =>
    cases hr
    exact hnil (hbooks hs.session rfl rfl ⟨rfl, rfl, rfl, rfl⟩)
  | flush =>
    cases hr
    exact hflush rfl h (append_nil _)
  | sendFin id =>
    cases hr
    have hsession : c.session.map (fun s => s.finishStream id) = some (s.finishStream id) := by
      rw [hs.session]
      rfl
    have hsame : s.SameBooks (s.finishStream id) := by
      unfold finishStream
      split <;> exact ⟨rfl, rfl, rfl, rfl⟩
    exact hflush rfl (hbooks hsession rfl rfl hsame) (append_nil _)
  | write id data =>
    obtain ⟨s', hs', rfl⟩ := map_eq_some_iff.mp hr
    cases hs'.symm.trans hs.session
    obtain ⟨streams, sendWindow, hsend⟩ := s.send_eq id data
    have hsame : s.SameBooks (s.send id data).2 := by
      rw [hsend]
      exact ⟨rfl, rfl, rfl, rfl⟩
    cases hres : s.send id data with
    | mk res s' =>
      rw [hres] at hsame
      cases res with
      | error e =>
        have hflushes : c.flushes env (.write id data) = none := by
          simp [Connection.flushes, hs.session, hres]
        have hencodes : c.encodes env (.write id data) = [] := by
          simp only [encodes, hflushes]
        have hputs : c.puts env (.write id data) = [] := by
          simp [puts, hflushes]
        rw [hencodes, hputs]
        exact hnil (hbooks rfl rfl rfl hsame)
      | ok u =>
        have hflushes : c.flushes env (.write id data) = some { c with session := some s' } := by
          simp [Connection.flushes, hs.session, hres]
        refine hflush hflushes (hbooks rfl rfl rfl hsame) ?_
        simp [puts, hflushes]
  | retransmitExpired =>
    cases hr
    exact h.retransmitExpired env
  | tick =>
    cases hr
    have hping : (c.maybeQueuePing env).Balanced n unacked := by
      unfold maybeQueuePing
      split
      · have hsession : c.session.map ping = some s.ping := by
          rw [hs.session]
          rfl
        exact hbooks hsession rfl rfl ⟨rfl, rfl, rfl, rfl⟩
      · exact h
    have hfirst := hping.flush hX env hn
    unfold Connection.tick Reply.andThen puts
    dsimp only
    split
    · next e he =>
        rw [he, append_nil]
        exact hfirst
    · next hok =>
        rw [hok, toFinset_append, ← Finset.union_assoc]
        exact hfirst.retransmitExpired _
  | sendExtra path payload =>
    simp only [Connection.call, Connection.sendExtra] at hr
    split at hr
    · next pktType s' htype hs' =>
        cases hs'.symm.trans hs.session
        have hraw := h.encodeRaw hs.session pktType payload
        have hencodes : (c.encodes env (.sendExtra path payload)).length = 1 := by
          simp [encodes, htype, hs.session]
        rw [hencodes]
        cases hr
        split
        · next e c' heq =>
            rw [heq] at hraw
            exact hnil hraw
        · next packet c' heq =>
            rw [heq] at hraw
            exact hnil (sendTo_conn (I := fun k => k.Balanced (n + 1) unacked) hraw hraw _)
    · cases hr

end Connection

/-! ## Runs -/

namespace Ledger

variable {X : Platform} {W : Windows}

def noDatagram (_ : Ledger X W) : LedgerEvent → Prop
  | .call _ (.sendDatagram _) => False
  | _ => True

instance (l : Ledger X W) : ∀ ev, Decidable (l.noDatagram ev)
  | .call _ call => by
    cases call <;> first | exact isFalse id | exact isTrue trivial
  | .packet .. => isTrue trivial

/-- The invariant: the books are in balance, as long as packet numbers do not repeat. -/
structure Sound (l : Ledger X W) : Prop where
  phase : l.conn.phase = .established ∨ l.conn.phase = .draining
  balanced : l.encoded ≤ 2 ^ 64 → l.conn.Balanced l.encoded l.unacked

theorem sound_init {base : Connection (X.accounted W)} (hpad : base.tar.config.noPadding = true)
    (result : HandshakeResult) (role : Role) (ticket : Bool) :
    (init base result role ticket).Sound := by
  have htidy : (result.session role).Tidy 0 := ⟨rfl, rfl, rfl, nofun⟩
  refine ⟨.inl rfl, fun _ => ⟨⟨_, ⟨rfl, hpad, Nat.zero_le _, Nat.zero_le _⟩, ?_⟩,
    fun pn hpn => (Finset.notMem_empty pn hpn).elim⟩⟩
  cases ticket with
  | true => exact htidy.bumped
  | false => exact htidy

theorem Sound.step (hX : X.P.Lawful) {l l' : Ledger X W} {ev : LedgerEvent} (h : l.Sound)
    (hok : l.noDatagram ev) (hs : l.step ev = some l') : l'.Sound := by
  cases ev with
  | call env call =>
    obtain ⟨r, hr, rfl⟩ := map_eq_some_iff.mp hs
    refine ⟨?_, fun hn => (h.balanced (by dsimp only at hn; omega)).call hX ?_ hr hn⟩
    · rcases (call_front hr).2 with hphase | hphase
      · rw [hphase]
        exact h.phase
      · exact .inr hphase
    · rintro data rfl
      exact hok
  | packet env buf =>
    obtain ⟨r, hr, rfl⟩ := map_eq_some_iff.mp hs
    refine ⟨?_, fun hn => (h.balanced (by dsimp only at hn; omega)).onPacket hX h.phase hr hn⟩
    rw [(onPacket_front h.phase hr).1]
    exact h.phase

end Ledger

/-- **Nothing stays in flight.** In every run of an established connection without padding and datagrams
in which packet numbers do not repeat, once every number put on the wire is acknowledged both counters
are 0: the whole window is available and the advisory controller allows a packet. -/
theorem nothing_in_flight_of_all_acked {X : Platform} (hX : X.P.Lawful) {W : Windows}
    {base : Connection (X.accounted W)} (hpad : base.tar.config.noPadding = true)
    (result : HandshakeResult) (role : Role) (ticket : Bool) {evs : List LedgerEvent}
    {l : Ledger X W} (hok : Meets Ledger.step Ledger.noDatagram (.init base result role ticket) evs)
    (hrun : exec Ledger.step (.init base result role ticket) evs = some l)
    (hn : l.encoded ≤ 2 ^ 64) (hacked : l.unacked = ∅) :
    l.conn.counters.bytesInFlight = 0 ∧ l.conn.counters.inflight = 0 ∧
      l.conn.counters.available = W.cwnd l.conn.counters.windows ∧
      l.conn.counters.shouldSend = true := by
  have hsound : l.Sound := exec_invariant_of_meets Ledger.Sound
    (fun _ _ _ h hok hs => h.step hX hok hs) (Ledger.sound_init hpad result role ticket) hok hrun
  obtain ⟨s, hs, -⟩ := (hsound.balanced hn).session
  have hzero : s.arq.outstanding l.unacked = 0 := by
    rw [hacked]
    rfl
  have hbytes : l.conn.counters.bytesInFlight = 0 := Nat.le_zero.mp (hzero ▸ hs.bytesInFlight)
  have hinflight : l.conn.counters.inflight = 0 := Nat.le_zero.mp (hzero ▸ hs.inflight)
  refine ⟨hbytes, hinflight, ?_, ?_⟩
  · rw [Controllers.available, hbytes, Nat.sub_zero]
  · rw [Controllers.shouldSend, hinflight]
    exact decide_eq_true (lt_max_of_lt_right (by decide))

/-! ## Concrete runs -/

def slowStart : Windows where
  State := Nat
  new := 14000
  cwnd window := window
  advisoryCwnd _ := 16184
  onAck window _ _ bytes _ _ := window + bytes
  onTimeout _ := 1400

def sampleLedger : Ledger samplePlatform slowStart :=
  .init (Connection.newBaseWithTar _ (sampleAddr .server) .established .disabled 0) sampleResult
    .client false

def ackPacket (n : Nat) : Bytes :=
  let ackRanges := (List.range n).foldl (fun a pn => a.onReceived pn true 0) AckRanges.new
  match sealPacket checksumPrimitives zeroKeys 1 0 .ack (ackRanges.buildFrame 0).1 with
  | .ok packet => packet
  | .error _ => []

def ackedWrite : List LedgerEvent :=
  [.call oneStreamEnv .openStream, .call oneStreamEnv (.write 1 [7]),
    .packet oneStreamEnv (ackPacket 1)]

/-- Nothing is in flight after it. -/
theorem nothing_in_flight_after_ackedWrite :
    ∃ l, exec Ledger.step sampleLedger ackedWrite = some l ∧ l.encoded = 1 ∧ l.unacked = ∅ ∧
      l.conn.counters.bytesInFlight = 0 ∧ l.conn.counters.inflight = 0 ∧
      l.conn.counters.available = slowStart.cwnd l.conn.counters.windows ∧
      l.conn.counters.shouldSend = true := by
  refine exists_exec_of (p := fun l => l.encoded = 1 ∧ l.unacked = ∅) (by decide +kernel) ?_
  rintro l hrun ⟨hencoded, hacked⟩
  exact ⟨hencoded, hacked, nothing_in_flight_of_all_acked checksumPrimitives_lawful rfl _ _ _
    (by decide +kernel) hrun (by rw [hencoded]; decide) hacked⟩

def ackedDatagrams : List LedgerEvent :=
  List.replicate 11 (.call oneStreamEnv (.sendDatagram (List.replicate 1200 7)))
    ++ [.packet oneStreamEnv (ackPacket 11)]

/-- **Acknowledged datagrams stay in flight.** Every number is acknowledged, and both counters still
have every byte of the datagrams: 272 bytes of the window are left, and a packet with 1200 bytes of a
stream is not sent. -/
theorem acked_datagrams_stay_in_flight :
    ∃ l, exec Ledger.step sampleLedger ackedDatagrams = some l ∧ l.unacked = ∅ ∧
      l.conn.counters.bytesInFlight = 13728 ∧ l.conn.counters.inflight = 13728 ∧
      l.conn.counters.available = 272 ∧
      ((l.conn.openStream.bind fun c => c.write oneStreamEnv 1 (List.replicate 1200 7)).map
        fun r => r.sent) = some [] := by
  decide +kernel

end SeamProtocol
