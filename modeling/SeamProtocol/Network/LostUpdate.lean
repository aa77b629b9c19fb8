import SeamProtocol.Network.Progress
import SeamProtocol.Network.LostAck

/-! # Lost window updates

A receiver schedules a MaxData packet when half of the announced window is used, and raises its own
limit when the packet is emitted. Such packets are not kept for retransmission, and the next one is
scheduled only when more data arrives. -/

namespace SeamProtocol

open Lib List Option Network FlowWindow

/-! ## A blocked connection -/

structure Session.AtRest (s : Session) : Prop where
  idle : s.Idle
  inFlight : ∀ pn, s.arq.inFlight.get? pn = none
  streams : ∀ id stream, s.streams.get? id = some stream →
    stream.sendBuf = [] ∧ stream.shouldSendFin = false

/-- Byte `j` of a stream has reached side `x`: it was read, or lies in a stored segment. -/
def Peers.Has (p : Peers) (x : Role) (id j : Nat) : Prop :=
  j < (p.readOut x id).length ∨
    ∃ stream, (p.sess x).streams.get? id = some stream ∧
      ∃ e ∈ stream.recvBuf.entries, e.1 ≤ j ∧ j < e.1 + e.2.length

namespace Network

/-- **Side `x` is blocked**: both sides are at rest, all that was written has been received, and the
connection window refuses a single byte. -/
structure Blocked (n : Network) (x : Role) : Prop where
  atRest : ∀ y, (n.peers.sess y).AtRest
  received : ∀ id j, j < (n.peers.written x id).length → n.peers.Has x.peer id j
  refused : ∃ e, ((n.peers.sess x).sendWindow.reserve 1).1 = .error e

/-- The limit that the receiver counts with has reached side `x`: it is the initial one, or a MaxData
packet with this limit was accepted. -/
def UpdateArrived (n : Network) (x : Role) : Prop :=
  (n.peers.sess x.peer).recvWindow.limit = defaultWindow ∨
    ∃ e ∈ n.peers.accepted x, e.1 = .maxData ∧
      e.2.2 = beBytes 8 (n.peers.sess x.peer).recvWindow.limit

end Network

variable {x : Role}

theorem Network.Blocked.send_eq_error {n : Network} (h : n.Blocked x) (id : Nat) (b : UInt8) :
    ((n.peers.sess x).send id [b]).1 = .error (.flowControlBlocked 0 1) := by
  have hfull : (n.peers.sess x).sendWindow.limit < (n.peers.sess x).sendWindow.consumed + 1 := by
    obtain ⟨e, he⟩ := h.refused
    unfold reserve at he
    split_ifs at he with hlt
    exact hlt
  have hnone : (n.peers.sess x).sendWindow.available = 0 := by
    rw [available]
    omega
  simp only [Session.send, reserve, length_singleton, if_pos hfull, hnone]

/-! ## Bytes and segments -/

theorem card_le_of_covered {s : Finset Nat} {l : List (Nat × Bytes)}
    (h : ∀ j ∈ s, ∃ e ∈ l, e.1 ≤ j ∧ j < e.1 + e.2.length) :
    s.card ≤ (l.map fun e => e.2.length).sum := by
  induction l generalizing s with
  | nil =>
    have hempty : s = ∅ := Finset.eq_empty_of_forall_notMem fun j hj => by
      obtain ⟨e, he, -⟩ := h j hj
      exact not_mem_nil he
    simp [hempty]
  | cons e rest ih =>
    -- the positions of the first segment, and the others
    have hfirst : (s.filter (· ∈ Finset.Ico e.1 (e.1 + e.2.length))).card ≤ e.2.length := by
      refine (Finset.card_le_card fun j hj => (Finset.mem_filter.mp hj).2).trans ?_
      simp
    have hrest : (s.filter (· ∉ Finset.Ico e.1 (e.1 + e.2.length))).card
        ≤ (rest.map fun e => e.2.length).sum := by
      refine ih fun j hj => ?_
      obtain ⟨hj, hout⟩ := Finset.mem_filter.mp hj
      obtain ⟨d, hd, hin⟩ := h j hj
      rcases mem_cons.mp hd with rfl | hd
      · exact absurd (Finset.mem_Ico.mpr hin) hout
      · exact ⟨d, hd, hin⟩
    have hsplit := s.card_filter_add_card_filter_not (· ∈ Finset.Ico e.1 (e.1 + e.2.length))
    rw [map_cons, sum_cons]
    omega

theorem Peers.length_le_of_has {p : Peers} {id m : Nat} (h : ∀ j, j < m → p.Has x id j) :
    m ≤ (p.readOut x id).length + (p.sess x).storedOn id := by
  have hcard : (Finset.Ico (p.readOut x id).length m).card ≤ (p.sess x).storedOn id := by
    rw [Session.storedOn]
    cases hget : (p.sess x).streams.get? id with
    | none =>
      refine (Finset.card_eq_zero.mpr (Finset.eq_empty_of_forall_notMem fun j hj => ?_)).le
      obtain ⟨hlo, hhi⟩ := Finset.mem_Ico.mp hj
      rcases h j hhi with hread | ⟨stream, hstream, -⟩
      · omega
      · rw [hget] at hstream
        cases hstream
    | some stream =>
      refine card_le_of_covered fun j hj => ?_
      obtain ⟨hlo, hhi⟩ := Finset.mem_Ico.mp hj
      rcases h j hhi with hread | ⟨stream', hstream, hcovered⟩
      · omega
      · rw [hget] at hstream
        cases hstream
        exact hcovered
  rw [Nat.card_Ico] at hcard
  omega

/-! ## No lost update, no block -/

theorem Role.eq_or_eq_peer (x y : Role) : y = x ∨ y = x.peer := by
  cases x <;> cases y <;> simp [Role.peer]

namespace Network

variable {P : Primitives} {c : NetworkConfig} {n : Network} {x : Role} {id : Nat} {chunk : Bytes} {k : Nat}

theorem ChunksFlushed.acked {n' : Network} (h : ChunksFlushed x id chunk k n) {num : UInt64}
    {frame : Bytes}
    (hsess : n'.peers.sess x = ((n.peers.sess x).noted (.ack, num, frame) 0).handleAckFrame frame 0)
    (hlog : n'.peers.log x = n.peers.log x) (hwire : n'.wire x = n.wire x) :
    ChunksFlushed x id chunk k n' := by
  obtain ⟨arq, pendingCcAck, heq⟩ :=
    ((n.peers.sess x).noted (.ack, num, frame) 0).handleAckFrame_eq frame 0
  have hidle := h.wrote.idle
  refine ⟨?_, by rw [hlog, h.log], by rw [hwire, h.wire]⟩
  rw [hsess, heq]
  exact ⟨h.wrote.keys, h.wrote.stream, ⟨hidle.datagrams,
    (AckRanges.onReceived_ackPending _ _ _).trans hidle.ackPending, hidle.pendingMaxData,
    hidle.pendingPong, hidle.pendingPing⟩, h.wrote.consumed, h.wrote.limit⟩

/-- **The receiver's acknowledgement takes the packets of the last 8192 numbers out of flight.** -/
theorem ChunksTaken.inFlight_acked (ha : Accounted n.peers) (h : ChunksTaken x id chunk (k + 1) n)
    (hk : k + 1 ≤ 2 ^ 64) (s : Session) (j : Nat) :
    (s.handleAckFrame ((n.peers.sess x.peer).ackRanges.buildFrame 0).1 0).arq.inFlight.get? j
      = if k - ackRetainWindow ≤ j ∧ j ≤ k then none else s.arq.inFlight.get? j := by
  have hmem := h.mem_received ha hk
  have hne : (n.peers.sess x.peer).ackRanges.received.keys ≠ [] :=
    ne_nil_of_mem ((hmem k).mpr ⟨Nat.sub_le _ _, le_rfl⟩)
  have hlt : ∀ pn ∈ (n.peers.sess x.peer).ackRanges.received.keys, pn < 2 ^ 64 := by
    intro pn hpn
    have := (hmem pn).mp hpn
    omega
  obtain ⟨largest, delay, hparse, -⟩ := AckRanges.parseAckFrame_buildFrame hne hlt
    (by rw [h.length_ranges ha hk]; decide) 0
  rw [Session.handleAckFrame_get?, hparse]
  refine if_congr ?_ rfl rfl
  rw [AckRanges.ranges, AckRanges.covers_descendingRanges, mem_reverse, hmem]

/-- **An acknowledgement before half of the window is used** changes nothing but what is in flight.
-/
theorem ChunksTaken.ack (hP : P.Lawful) (hw : Wired P c n) (ha : Accounted n.peers)
    (h : ChunksTaken x id chunk (k + 1) n) (hk : k + 1 ≤ 2 ^ 64)
    (hhalf : 2 * ((k + 1) * chunk.length) ≤ defaultWindow)
    (hack : (n.peers.sess x.peer).ackRanges.ackPending = true)
    (hcount : (n.peers.log x.peer).length < 2 ^ 64) :
    ∃ n', exec (step P) n (ackRound x id (n.wire x.peer).length) = some n' ∧
      ChunksTaken x id chunk (k + 1) n' ∧
      (∀ j, (n'.peers.sess x).arq.inFlight.get? j = if k - ackRetainWindow ≤ j ∧ j ≤ k then none
        else (n.peers.sess x).arq.inFlight.get? j) ∧
      (n'.peers.sess x.peer).arq = (n.peers.sess x.peer).arq ∧
      (n'.peers.log x.peer).length = (n.peers.log x.peer).length + 1 ∧
      (n'.wire x.peer).length = (n.wire x.peer).length + 1 := by
  have hpending := h.took.pending
  rw [if_pos hhalf] at hpending
  have hframe := (h.length_frame ha hk).trans (by decide : 26 ≤ 16 + maxPayload)
  obtain ⟨b, hseal⟩ := sealPacket_eq_ok hP (hframe.trans (by decide))
  have hf := h.took.flushed_ack hP hack hpending hseal
  obtain ⟨n', hrun, hpeer, hsess, hlog, hlog', hwire, hwire', hacc, -, hwritten, hread⟩ :=
    exec_ackRound hP hw ha h.took.keys hf rfl rfl (hw.sealedBy hseal) hframe hcount
  refine ⟨n', hrun, ?_, fun j => ?_, ?_, ?_, ?_⟩
  · refine ⟨h.flushed.acked hsess hlog hwire, ?_, ?_, ?_⟩
    · rw [hpeer]
      exact ⟨h.took.streams, h.took.offset, h.took.buf, h.took.max, h.took.noData, h.took.consumed,
        h.took.limit, h.took.pending, h.took.control⟩
    · rw [hlog, hacc]
      exact h.processed
    · rw [hread, hwritten]
      exact h.read
  · rw [hsess]
    exact h.inFlight_acked ha hk _ j
  · rw [hpeer]
    rfl
  · simp [hlog']
  · simp [hwire']

/-- **An acknowledgement with a window update that is lost** leaves both sides at rest, if every packet
still in flight is acknowledged. -/
theorem ChunksTaken.lostUpdate (hP : P.Lawful) (hw : Wired P c n) (ha : Accounted n.peers)
    (h : ChunksTaken x id chunk (k + 1) n) (hk : k + 1 ≤ 2 ^ 64)
    (hfull : (k + 1) * chunk.length = defaultWindow)
    (hack : (n.peers.sess x.peer).ackRanges.ackPending = true)
    (hcount : (n.peers.log x.peer).length < 2 ^ 64)
    (hinFlight : ∀ j, j < k - ackRetainWindow → (n.peers.sess x).arq.inFlight.get? j = none)
    (harq : ∀ j, (n.peers.sess x.peer).arq.inFlight.get? j = none) :
    ∃ n', exec (step P) n (ackRound x id (n.wire x.peer).length) = some n' ∧ n'.Blocked x := by
  have hpending := h.took.pending
  rw [hfull, if_neg (by decide)] at hpending
  obtain ⟨limit, hlimit, -, -⟩ := hpending
  have hframe := (h.length_frame ha hk).trans (by decide : 26 ≤ 16 + maxPayload)
  obtain ⟨b1, b2, hseal1, -, hf⟩ := h.took.flushed_update hP hack hlimit (hframe.trans (by decide))
  obtain ⟨n', hrun, hpeer, hsess, hlog, -, hwire, -, -, -, hwritten, hread⟩ :=
    exec_ackRound hP hw ha h.took.keys hf rfl rfl (hw.sealedBy hseal1) hframe hcount
  have hflushed := h.flushed.acked hsess hlog hwire
  -- the sender
  have hrestx : (n'.peers.sess x).AtRest := by
    refine ⟨hflushed.wrote.idle, fun j => ?_, fun i stream hi => ?_⟩
    · rw [hsess, h.inFlight_acked ha hk]
      split_ifs with hcovered
      · rfl
      · by_cases hlow : j < k - ackRetainWindow
        · exact hinFlight j hlow
        · -- numbers that were not used
          cases hj : (n.peers.sess x).arq.inFlight.get? j with
          | none => exact hj
          | some pkt =>
            obtain ⟨e, he, -, hej, -, -⟩ := hw.tracked.inFlight x j pkt hj
            have := ha.number_lt (by rw [h.flushed.log]; exact hk) he
            rw [h.flushed.log] at this
            omega
    · obtain ⟨stream', hget', hbuf, hfin, -, -⟩ := hflushed.wrote.stream
      have hid : i = id := by
        have hmem : i ∈ (n'.peers.sess x).streams.keys := (SortedMap.mem_keys_iff _ _).mpr ⟨_, hi⟩
        rw [hflushed.wrote.keys] at hmem
        exact mem_singleton.mp hmem
      rw [hid, hget'] at hi
      cases hi
      exact ⟨hbuf, by rw [Stream.shouldSendFin, hfin]; rfl⟩
  -- the receiver
  have hresty : (n'.peers.sess x.peer).AtRest := by
    rw [hpeer]
    refine ⟨⟨h.took.control.1, rfl, rfl, h.took.control.2.1, h.took.control.2.2⟩, harq,
      fun i stream hi => ?_⟩
    have hi' : (n.peers.sess x.peer).streams.get? i = some stream := hi
    rw [h.took.get? i] at hi'
    split_ifs at hi' with hid
    cases hi'
    exact ⟨h.took.noData.1, by rw [Stream.shouldSendFin, h.took.noData.2]; rfl⟩
  refine ⟨n', hrun, fun y => ?_, fun i j hj => .inl ?_, ?_⟩
  · rcases Role.eq_or_eq_peer x y with rfl | rfl
    · exact hrestx
    · exact hresty
  · rw [hread, h.read, ← hwritten]
    exact hj
  · rw [reserve, hflushed.wrote.consumed, hflushed.wrote.limit, hfull, if_pos (Nat.lt_succ_self _)]
    exact ⟨_, rfl⟩

def fullRoundsFrom (x : Role) (id : Nat) (chunk : Bytes) (k : Nat) : Nat → List NetEvent
  | 0 => []
  | m + 1 => fullRoundsFrom x id chunk k m ++ fullRound x id chunk (k + m)

/-- **Further rounds**, as long as the windows allow: packets that are not in flight stay so, and the
receiver sends nothing. -/
theorem ChunksTaken.rounds (hP : P.Lawful) (hw : Wired P c n) (ha : Accounted n.peers)
    (h : ChunksTaken x id chunk k n) (hc : Sendable c x id chunk)
    (m : Nat) (hroom : (k + m) * chunk.length ≤ defaultWindow) :
    ∃ n', exec (step P) n (fullRoundsFrom x id chunk k m) = some n' ∧
      ChunksTaken x id chunk (k + m) n' ∧
      (0 < m → (n'.peers.sess x.peer).ackRanges.ackPending = true) ∧
      (∀ j, j < k → (n'.peers.sess x).arq.inFlight.get? j = (n.peers.sess x).arq.inFlight.get? j) ∧
      (n'.peers.sess x.peer).arq = (n.peers.sess x.peer).arq ∧
      n'.peers.log x.peer = n.peers.log x.peer ∧ n'.wire x.peer = n.wire x.peer := by
  induction m with
  | zero => exact ⟨n, rfl, h, fun h0 => absurd h0 (lt_irrefl 0), fun _ _ => rfl, rfl, rfl, rfl⟩
  | succ m ih =>
    have hle : (k + m) * chunk.length ≤ defaultWindow :=
      (Nat.mul_le_mul_right _ (Nat.le_succ (k + m))).trans hroom
    obtain ⟨n1, hrun1, h1, -, hold, harq, hlog, hwire⟩ := ih hle
    obtain ⟨hw1, ha1⟩ := wired_accounted hP hw ha hrun1
    obtain ⟨n2, hrun2, h2, hround⟩ := h1.round hP hw1 ha1 hc hroom
    obtain ⟨bytes, -, -, harq2⟩ := hround.packet
    refine ⟨n2, ?_, h2, fun _ => hround.ackPending, fun j hj => ?_, hround.arq.trans harq,
      hround.log.trans hlog, hround.wire.trans hwire⟩
    · rw [fullRoundsFrom, exec_append, hrun1, bind_some, hrun2]
    · rw [harq2, ← hold j hj, ArqTracker.onSent, SortedMap.get?_insert, if_neg (by omega)]

end Network

/-! ## A lost update -/

/-- The client writes 16384 chunks of 1024 bytes, all of which arrive and are read. The server
acknowledges after half of the chunks and after all of them; its MaxData packet, sent with the second
one, is lost. -/
def Network.lostUpdateOps : List NetEvent :=
  Network.transferOps 8192 ++ Network.ackRound .client 1 0
    ++ Network.fullRoundsFrom .client 1 (List.replicate 1024 7) 8192 8192
    ++ Network.ackRound .client 1 1

end SeamProtocol
