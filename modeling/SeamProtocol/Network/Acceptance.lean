import SeamProtocol.Network.System
import SeamProtocol.Session.AckFrame

/-! # Packet numbers and accepted packets

A side remembers what it has accepted twice, in the replay window and in the record for
acknowledgements. Both memories are images of one list, the history of accepted packets. -/

namespace SeamProtocol

open Lib Function List ReplayWindow Network Option Peers

def numbers (l : List Decoded) : List UInt64 := l.map fun y => y.2.1

@[simp] theorem numbers_cons (y : Decoded) (l : List Decoded) :
    numbers (y :: l) = y.2.1 :: numbers l := rfl

@[simp] theorem mem_numbers {k : UInt64} {l : List Decoded} :
    k ∈ numbers l ↔ ∃ y ∈ l, y.2.1 = k := mem_map

theorem ReplayWindow.maxSeq_mem {accepted : List UInt64} (hne : accepted ≠ []) :
    ∃ s ∈ accepted, s.toNat = maxSeq accepted :=
  mem_map.mp (AckRanges.isGreatest_foldr_max (mt map_eq_nil_iff.mp hne)).1

namespace Session

structure Remembers (s : Session) (accepted : List Decoded) : Prop where
  replay : ReplayWindow.Represents s.decoder.replay (numbers accepted)
  retains : s.ackRanges.Retains ((numbers accepted).map UInt64.toNat)

theorem remembers_nil (id : UInt64) (role : Role) (encoder : PacketEncoder) (keys : PacketKeys)
    (limits : SessionLimits) :
    (withLimits id role encoder (PacketDecoder.new keys) limits).Remembers [] :=
  ⟨represents_new, AckRanges.retains_new⟩

namespace Remembers

variable {s s' : Session} {accepted : List Decoded}

theorem congr (h : s.Remembers accepted) (hdec : s'.decoder = s.decoder)
    (hlargest : s'.ackRanges.largestReceived = s.ackRanges.largestReceived)
    (hrec : s'.ackRanges.received = s.ackRanges.received) : s'.Remembers accepted :=
  ⟨by rw [hdec]; exact h.replay, hlargest.trans h.retains.largest,
    fun k => by rw [hrec]; exact h.retains.received k⟩

theorem received (h : s.Remembers accepted) (k : Nat) : k ∈ s.ackRanges.received.keys ↔
    (∃ y ∈ accepted, y.2.1.toNat = k) ∧ ReplayWindow.maxSeq (numbers accepted) - ackRetainWindow ≤ k := by
  refine (h.retains.received k).trans (and_congr_left' ?_)
  simp [numbers]

theorem noted (h : s.Remembers accepted) {y : Decoded} (now : Nat)
    (hcheck : s.decoder.replay.check y.2.1 = .ok ()) : (s.noted y now).Remembers (y :: accepted) :=
  ⟨represents_commit h.replay (by rw [commit_fst, hcheck]),
    h.retains.onReceived _ _ _⟩

theorem check_eq_ok_iff (h : s.Remembers accepted) (k : UInt64) :
    s.decoder.replay.check k = .ok () ↔
      k ∉ numbers accepted ∧ ∀ y ∈ accepted, y.2.1.toNat ≤ k.toNat + 1023 := by
  rw [h.replay.check_eq]
  split_ifs with hold hmem
  · refine ⟨by rintro ⟨⟩, fun hc => ?_⟩
    -- the largest accepted number is itself one that was accepted
    have hne : numbers accepted ≠ [] := by
      intro hnil
      rw [hnil] at hold
      exact absurd hold (Nat.not_lt_zero _)
    obtain ⟨m, hm, hmax⟩ := maxSeq_mem hne
    obtain ⟨y, hy, rfl⟩ := mem_numbers.mp hm
    have := hc.2 y hy
    omega
  · exact ⟨by rintro ⟨⟩, fun hc => absurd hmem hc.1⟩
  · refine ⟨fun _ => ⟨hmem, fun y hy => ?_⟩, fun _ => rfl⟩
    have := toNat_le_maxSeq (mem_numbers.mpr ⟨y, hy, rfl⟩)
    omega

end Remembers

end Session

/-! ## Both sides -/

/-- Everything encoded is numbered in sequence, and each side remembers exactly what it has accepted,
which the other side has sent. -/
structure Accounted (p : Peers) : Prop where
  next : ∀ x, (p.sess x).encoder.nextPktNum = UInt64.ofNat (p.log x).length
  numbered : ∀ x, numbers (p.log x) = (List.range (p.log x).length).map UInt64.ofNat
  remembers : ∀ x, (p.sess x).Remembers (p.accepted x)
  sent : ∀ x, ∀ y ∈ p.accepted x.peer, y ∈ p.log x

namespace Accounted

variable {p q : Peers} {x : Role}

theorem update (h : Accounted p) {s : Session} (hs : q.sess = Function.update p.sess x s)
    (hlog : q.log = p.log) (hacc : q.accepted = p.accepted) (henc : s.encoder = (p.sess x).encoder)
    (hdec : s.decoder = (p.sess x).decoder) (hack : s.ackRanges = (p.sess x).ackRanges) :
    Accounted q := by
  refine ⟨fun z => ?_, fun z => ?_, fun z => ?_, fun z => ?_⟩
  · rw [hlog, hs, ← h.next z]
    by_cases hz : z = x
    · rw [hz, update_self, henc]
    · rw [update_of_ne hz]
  · rw [hlog]
    exact h.numbered z
  · rw [hacc, hs]
    by_cases hz : z = x
    · simpa [hz] using (h.remembers x).congr hdec (by rw [hack]) (by rw [hack])
    · rw [update_of_ne hz]
      exact h.remembers z
  · rw [hacc, hlog]
    exact h.sent z

theorem init (c : NetworkConfig) : Accounted (init c).peers := by
  refine ⟨fun x => rfl, fun x => rfl, fun x => Session.remembers_nil _ _ _ _ _, fun x y hy => ?_⟩
  cases hy

variable {now : Nat}

theorem encoded (h : Accounted p) {d : Draft} {res : Except SeamError Bytes}
    (henc : d.sess.encoder = (p.sess x).encoder) (hdec : d.sess.decoder = (p.sess x).decoder)
    (hlargest : d.sess.ackRanges.largestReceived = (p.sess x).ackRanges.largestReceived)
    (hrec : d.sess.ackRanges.received = (p.sess x).ackRanges.received) :
    Accounted (p.encoded x d res now) := by
  have hnum : d.sess.encoder.nextPktNum = UInt64.ofNat (p.log x).length := by
    rw [henc, h.next x]
  refine ⟨fun z => ?_, fun z => ?_, fun z => ?_, fun z y hy => ?_⟩
  · unfold Peers.encoded
    dsimp only
    by_cases hz : z = x
    · subst hz
      rw [update_self, update_self, length_append, length_singleton,
        UInt64.ofNat_add, ← hnum]
      cases res <;> rfl
    · rw [update_of_ne hz, update_of_ne hz]
      exact h.next z
  · unfold Peers.encoded
    dsimp only
    by_cases hz : z = x
    · subst hz
      have hold := h.numbered z
      unfold numbers at hold ⊢
      rw [update_self, length_append, length_singleton, range_succ,
        map_append, map_append, hold, map_singleton, map_singleton, hnum]
    · rw [update_of_ne hz]
      exact h.numbered z
  · unfold Peers.encoded
    dsimp only
    by_cases hz : z = x
    · subst hz
      rw [update_self]
      cases res with
      | ok bytes | error e => exact (h.remembers z).congr hdec hlargest hrec
    · rw [update_of_ne hz]
      exact h.remembers z
  · exact log_subset_encoded p x d res now z (h.sent z y hy)

theorem drafted (h : Accounted p) {em : Emission} {d : Draft} (hd : (p.sess x).draft now em = some d)
    (res : Except SeamError Bytes) : Accounted (p.encoded x d res now) := by
  obtain ⟨_, _, _, _, _, _, hds⟩ := Session.draft_eq hd
  exact h.encoded (by rw [hds]) (by rw [hds]) (by rw [hds]) (by rw [hds])

variable {y : Decoded}

theorem accept (h : Accounted p) (hy : y ∈ p.log x)
    (hcheck : (p.sess x.peer).decoder.replay.check y.2.1 = .ok ())
    (hacc : p.accept x.peer y now = some q) : Accounted q := by
  obtain ⟨⟨res, s⟩, hdisp, rfl⟩ := map_eq_some_iff.mp hacc
  have hnoted := (h.remembers x.peer).noted now hcheck
  obtain ⟨_, _, _, _, _, _, _, _, rfl⟩ := Session.dispatch_eq hdisp
  unfold received
  refine ⟨fun z => ?_, h.numbered, fun z => ?_, fun z w hw => ?_⟩
  · dsimp only
    rw [← h.next z]
    by_cases hz : z = x.peer
    · rw [hz, update_self]
      rfl
    · rw [update_of_ne hz]
  · dsimp only
    by_cases hz : z = x.peer
    · rw [hz, update_self, update_self]
      exact hnoted.congr rfl rfl rfl
    · rw [update_of_ne hz, update_of_ne hz]
      exact h.remembers z
  · dsimp only at hw ⊢
    by_cases hz : z.peer = x.peer
    · have hzx : z = x := by rw [← z.peer_peer, hz, x.peer_peer]
      subst hzx
      rw [update_self] at hw
      rcases mem_cons.mp hw with rfl | hw
      · exact hy
      · exact h.sent z w hw
    · rw [update_of_ne hz] at hw
      exact h.sent z w hw

theorem step {P : Primitives} {c : NetworkConfig} (hP : P.Lawful) {n n' : Network} {ev : NetEvent}
    (hw : Network.Wired P c n) (h : Accounted n.peers) (hs : n.step P ev = some n') :
    Accounted n'.peers := by
  refine step_packets hP hw hs Accounted h ?_ ?_ ?_ ?_ ?_
  · intro q x _ _ _ _ _ _ hsess hlog hacc
    exact h.update hsess hlog hacc rfl rfl rfl
  · intro x now q em d res hq hd _
    exact hq.drafted hd res
  · intro x t payload res _
    exact h.encoded rfl rfl rfl rfl
  · intro x now
    exact h.update rfl rfl rfl rfl rfl rfl
  · intro x i now y p _ _ hy hcheck hacc
    exact h.accept hy hcheck hacc

/-! ### Numbers without wrap-around -/

theorem number_getElem? (h : Accounted p) (hcount : (p.log x).length ≤ 2 ^ 64) {i : Nat}
    (hy : (p.log x)[i]? = some y) : y.2.1.toNat = i := by
  have hlt : i < (p.log x).length := (List.getElem?_eq_some_iff.mp hy).1
  have hnum : (numbers (p.log x))[i]? = some y.2.1 := by
    simp [numbers, hy]
  rw [h.numbered x, List.getElem?_map, List.getElem?_range hlt, map_some,
    some.injEq] at hnum
  rw [← hnum, UInt64.toNat_ofNat', Nat.mod_eq_of_lt (by omega)]

theorem number_lt (h : Accounted p) (hcount : (p.log x).length ≤ 2 ^ 64) (hy : y ∈ p.log x) :
    y.2.1.toNat < (p.log x).length := by
  obtain ⟨i, hi⟩ := mem_iff_getElem?.mp hy
  rw [h.number_getElem? hcount hi]
  exact (List.getElem?_eq_some_iff.mp hi).1

theorem check_of_lt (h : Accounted p) {num : UInt64}
    (hlt : ∀ y ∈ p.accepted x, y.2.1.toNat < num.toNat) :
    (p.sess x).decoder.replay.check num = .ok () := by
  refine ((h.remembers x).check_eq_ok_iff num).mpr ⟨fun hmem => ?_, fun y hy => ?_⟩
  · obtain ⟨y, hy, rfl⟩ := mem_numbers.mp hmem
    exact lt_irrefl _ (hlt y hy)
  · have := hlt y hy
    omega

theorem eq_of_number (h : Accounted p) (hcount : (p.log x).length ≤ 2 ^ 64) {z : Decoded}
    (hy : y ∈ p.log x) (hz : z ∈ p.log x) (hyz : y.2.1 = z.2.1) : y = z := by
  obtain ⟨i, hi⟩ := mem_iff_getElem?.mp hy
  obtain ⟨j, hj⟩ := mem_iff_getElem?.mp hz
  have hij : i = j := by
    rw [← h.number_getElem? hcount hi, ← h.number_getElem? hcount hj, hyz]
  rw [hij, hj] at hi
  exact (some.inj hi).symm

end Accounted

/-! ## Acknowledgements -/

/-- **What an ACK frame covers**: the numbers on record, if there are any. -/
theorem Session.Remembers.acksNumber_buildFrame {s : Session} {accepted : List Decoded}
    (h : s.Remembers accepted) (hne : accepted ≠ []) (now k : Nat) :
    acksNumber .ack (s.ackRanges.buildFrame now).1 k = true ↔ k ∈ s.ackRanges.received.keys := by
  have hlt : ∀ k ∈ s.ackRanges.received.keys, k < 2 ^ 64 ∧ k ≤ maxSeq (numbers accepted) := by
    intro k hk
    obtain ⟨⟨y, hy, rfl⟩, -⟩ := (h.received k).mp hk
    exact ⟨y.2.1.toNat_lt, toNat_le_maxSeq (mem_numbers.mpr ⟨y, hy, rfl⟩)⟩
  -- the largest number accepted is on record
  obtain ⟨m, hm, hmax⟩ := maxSeq_mem (mt map_eq_nil_iff.mp hne : numbers accepted ≠ [])
  obtain ⟨y, hy, rfl⟩ := mem_numbers.mp hm
  have hkey := (h.received _).mpr ⟨⟨y, hy, rfl⟩, hmax.symm ▸ Nat.sub_le _ _⟩
  obtain ⟨_, _, hparse, -⟩ := AckRanges.parseAckFrame_buildFrame (ne_nil_of_mem hkey)
    (fun k hk => (hlt k hk).1)
    ((AckRanges.length_ranges_le fun k hk => ⟨((h.received k).mp hk).2, (hlt k hk).2⟩).trans (by decide)) now
  unfold acksNumber
  rw [hparse]
  simp [AckRanges.ranges, AckRanges.covers_descendingRanges]

/-- A side accepts a number once, and acknowledges only what it has accepted. -/
structure Side.Answers (s : Side) : Prop where
  once : (numbers s.accepted).Nodup
  pending : s.sess.ackRanges.ackPending = true → s.accepted ≠ []
  acks : ∀ y ∈ s.log, ∀ k, Session.acksNumber y.1 y.2.2 k = true → ∃ z ∈ s.accepted, z.2.1.toNat = k

structure Answered (p : Peers) : Prop extends Accounted p where
  answers : ∀ x, (p.side x).Answers

namespace Answered

variable {p q : Peers} {x : Role} {P : Primitives} {c : NetworkConfig} {n n' : Network}

theorem update (h : Answered p) {s : Session} (hs : q.sess = Function.update p.sess x s)
    (hlog : q.log = p.log) (hacc : q.accepted = p.accepted) (henc : s.encoder = (p.sess x).encoder)
    (hdec : s.decoder = (p.sess x).decoder) (hack : s.ackRanges = (p.sess x).ackRanges) :
    Answered q := by
  refine ⟨h.toAccounted.update hs hlog hacc henc hdec hack, fun z => ?_⟩
  have hpend : (q.sess z).ackRanges = (p.sess z).ackRanges := by
    by_cases hz : z = x <;> simp [hs, hz, hack]
  obtain ⟨honce, hpending, hacks⟩ := h.answers z
  unfold side
  rw [hlog, hacc]
  exact ⟨honce, hpend ▸ hpending, hacks⟩

theorem encoded (h : Answered p) {d : Draft} {res : Except SeamError Bytes} {now : Nat}
    (ha : Accounted (p.encoded x d res now))
    (hpending : d.sess.ackRanges.ackPending = true → (p.sess x).ackRanges.ackPending = true)
    (hacks : ∀ k, Session.acksNumber d.pktType d.payload k = true →
      ∃ z ∈ p.accepted x, z.2.1.toNat = k) : Answered (p.encoded x d res now) := by
  refine ⟨ha, fun z => ?_⟩
  by_cases hz : z = x
  · subst hz
    rw [side_encoded_self]
    refine ⟨(h.answers z).once, fun hp => (h.answers z).pending (hpending ?_), fun y hy => ?_⟩
    · cases res <;> exact hp
    · rcases mem_append.mp hy with hy | hy
      · exact (h.answers z).acks y hy
      · rw [mem_singleton.mp hy]
        exact hacks
  · rw [side_encoded_of_ne _ d res now hz]
    exact h.answers z

theorem step (hP : P.Lawful) {ev : NetEvent} (hw : Wired P c n) (h : Answered n.peers)
    (hs : n.step P ev = some n') : Answered n'.peers := by
  refine step_packets hP hw hs Answered h ?_ ?_ ?_ ?_ ?_
  · intro q x _ _ _ _ _ _ hsess hlog hacc
    exact h.update hsess hlog hacc rfl rfl rfl
  · intro x now q em d res hq hd _
    rcases Session.draft_ack hd with ⟨hp, rfl⟩ | ⟨hack, htype⟩
    · refine hq.encoded (hq.drafted hd res) (fun hf => by cases hf) fun k hk => ?_
      have hkeys := ((hq.remembers x).acksNumber_buildFrame ((hq.answers x).pending hp) now k).mp hk
      exact (((hq.remembers x).received k).mp hkeys).1
    · exact hq.encoded (hq.drafted hd res) (hack ▸ id) fun k hk => by
        simp [Session.acksNumber, htype] at hk
  · intro x t payload res ht
    refine h.encoded (h.toAccounted.encoded rfl rfl rfl rfl) id fun k hk => ?_
    cases t <;> cases ht <;> cases hk
  · intro x now
    exact h.update rfl rfl rfl rfl rfl rfl
  · intro x i now y p _ _ hy hcheck hacc
    refine ⟨h.toAccounted.accept hy hcheck hacc, fun z => ?_⟩
    obtain ⟨⟨r, s⟩, -, rfl⟩ := map_eq_some_iff.mp hacc
    by_cases hz : z = x.peer
    · -- the replay window admits a number only once
      have hnew := (((h.remembers x.peer).check_eq_ok_iff y.2.1).mp hcheck).1
      obtain ⟨honce, -, hacks⟩ := h.answers x.peer
      rw [hz, side_received_self]
      refine ⟨nodup_cons.mpr ⟨hnew, honce⟩, fun _ => cons_ne_nil _ _, fun e he k hk => ?_⟩
      exact (hacks e he k hk).imp fun _ h => ⟨mem_cons_of_mem _ h.1, h.2⟩
    · rw [side_received_of_ne _ y r s hz]
      exact h.answers z

theorem run (hP : P.Lawful) {evs : List NetEvent}
    (hrun : exec (Network.step P) (Network.init c) evs = some n) : Wired P c n ∧ Answered n.peers := by
  refine exec_invariant (fun n => Wired P c n ∧ Answered n.peers)
    (fun _ _ _ h hs => ⟨wired_step hP h.1 hs, h.2.step hP h.1 hs⟩)
    ⟨wired_init, .init c, fun x => ⟨nodup_nil, fun hp => ?_, fun y hy => ?_⟩⟩ hrun
  · cases x <;> cases hp
  · cases hy

end Answered

/-- **Every packet is accepted at most once.** In every run, whatever the network drops, repeats or
reorders, the packets a side has accepted are packets of the other side, with distinct numbers. -/
theorem accepted_at_most_once {P : Primitives} (hP : P.Lawful) (c : NetworkConfig)
    {evs : List NetEvent} {n : Network} (hrun : exec (step P) (init c) evs = some n) (x : Role) :
    (numbers (n.peers.accepted x.peer)).Nodup ∧ n.peers.accepted x.peer ⊆ n.peers.log x := by
  obtain ⟨-, h⟩ := Answered.run hP hrun
  exact ⟨(h.answers x.peer).once, h.sent x⟩

/-- Delivered twice, accepted once. -/
theorem accepted_at_most_once_repeated :
    ∃ n, exec (step checksumPrimitives) (init sampleConfig)
        [.encodeRaw .client .pathChallenge [], .deliver .client 0 0, .deliver .client 0 0] = some n ∧
      numbers (n.peers.accepted .server) = [0] ∧ n.peers.accepted .server ⊆ n.peers.log .client :=
  exists_exec_of (p := fun n => numbers (n.peers.accepted .server) = [0]) (by decide +kernel)
    fun _ hrun h => ⟨h, (accepted_at_most_once checksumPrimitives_lawful _ hrun .client).2⟩

/-- **No false acknowledgement.** In every run, the numbers that an ACK packet of a side covers are
those of packets it has accepted; so when a packet leaves the other side's tracker because a packet
arrives, it was accepted. -/
theorem acknowledged_was_accepted {P : Primitives} (hP : P.Lawful) (c : NetworkConfig)
    {evs : List NetEvent} {n : Network} (hrun : exec (step P) (init c) evs = some n) (x : Role) :
    (∀ y ∈ n.peers.log x, ∀ k, Session.acksNumber y.1 y.2.2 k = true →
      ∃ z ∈ n.peers.accepted x, z.2.1.toNat = k) ∧
    ∀ i now n' k, n.step P (.deliver x i now) = some n' →
      (n.peers.sess x.peer).arq.inFlight.get? k ≠ none →
      (n'.peers.sess x.peer).arq.inFlight.get? k = none →
      ∃ z ∈ n.peers.accepted x, z.2.1.toNat = k := by
  obtain ⟨hw, h⟩ := Answered.run hP hrun
  have hacks := (h.answers x).acks
  refine ⟨hacks, fun i now n' k hs hin hout => ?_⟩
  rcases hw.deliver_cases hP hs with ⟨-, rfl⟩ | ⟨y, p, -, hlog, -, hacc, rfl⟩
  · exact absurd hout hin
  · obtain ⟨⟨r, s⟩, hdisp, rfl⟩ := map_eq_some_iff.mp hacc
    unfold received at hout
    dsimp only at hout
    rw [update_self, Session.dispatch_inFlight hdisp k] at hout
    split_ifs at hout with hack
    · exact hacks y hlog k hack
    · exact absurd hout hin

/-- The server accepts a Data packet and answers; the answer takes it out of flight. -/
theorem acknowledged_was_accepted_byte :
    ∃ n, exec (step checksumPrimitives) (init sampleConfig) [.app .client (.openStream 4),
        .send .client 1 [7], .flush .client 0 [1], .deliver .client 0 0, .flush .server 0 [1]] = some n ∧
      ∃ z ∈ n.peers.accepted .server, z.2.1.toNat = 0 := by
  refine exists_exec_of (p := fun n => (n.peers.sess .client).arq.inFlight.get? 0 ≠ none ∧
    ∃ n', n.step checksumPrimitives (.deliver .server 0 0) = some n' ∧
      (n'.peers.sess .client).arq.inFlight.get? 0 = none) (by decide +kernel) ?_
  rintro n hrun ⟨hin, n', hs, hout⟩
  exact (acknowledged_was_accepted checksumPrimitives_lawful _ hrun .server).2 0 0 n' 0 hs hin hout

end SeamProtocol
