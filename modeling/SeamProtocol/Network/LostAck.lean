import SeamProtocol.Network.Retransmit

/-! # Lost acknowledgements

If an acknowledgement is lost, the packet is sent again, but the decoder refuses the copy before
anything is noted for acknowledgement, so the copy alone brings no new acknowledgement about. -/

namespace SeamProtocol

open Lib Function List Option Flush Session AckRanges

/-! ## The acknowledgement in a flush -/

namespace Session

variable {s : Session} {now : Nat}

theorem draft_ackRanges {em : Emission} {d : Draft} (hne : em ≠ .ack) (h : s.draft now em = some d) :
    d.sess.ackRanges = s.ackRanges := by
  have hcases := draft_cases h
  cases em with
  | data id =>
    obtain ⟨stream, seg, stream', -, -, rfl⟩ := hcases
    rfl
  | fin id =>
    obtain ⟨stream, -, -, rfl⟩ := hcases
    rfl
  | datagram =>
    obtain ⟨dg, datagrams, -, rfl⟩ := hcases
    rfl
  | ack => exact absurd rfl hne
  | maxData =>
    obtain ⟨newLimit, -, rfl⟩ := hcases
    rfl
  | pong | ping =>
    dsimp only at hcases
    subst hcases
    rfl

variable {P : Primitives}

theorem foldl_emit_ackRanges (P : Primitives) (now : Nat) (ems : List Emission) (hne : .ack ∉ ems)
    (f : Flush) : (ems.foldl (emit P now) f).sess.ackRanges = f.sess.ackRanges := by
  refine foldl_emit_rel (fun s t => t.ackRanges = s.ackRanges) (fun _ => rfl)
    (fun _ _ _ h h' => h'.trans h) ?_ f
  rintro em hem s d hd _ ⟨_, _, _, rfl, -⟩
  exact draft_ackRanges (fun h => hne (h ▸ hem)) hd

theorem error_eq_none_of_foldl_emit (ems : List Emission) {f : Flush}
    (h : (ems.foldl (emit P now) f).error = none) : f.error = none := by
  induction ems generalizing f with
  | nil => exact h
  | cons em ems ih =>
    have hnext := ih h
    cases herr : f.error with
    | none => rfl
    | some e =>
      have hsame : f.emit P now em = f := by
        unfold emit
        rw [herr]
      rw [hsame, herr] at hnext
      cases hnext

theorem foldl_emit_log (hP : P.Lawful) (now : Nat) (ems : List Emission) (f : Flush) :
    ∃ post, (ems.foldl (emit P now) f).log = f.log ++ post ∧ post.length ≤ ems.length ∧
      f.packets ⊆ (ems.foldl (emit P now) f).packets := by
  induction ems generalizing f with
  | nil => exact ⟨[], (append_nil _).symm, le_rfl, List.Subset.refl _⟩
  | cons em ems ih =>
    rw [foldl_cons, length_cons]
    obtain ⟨post, hlog, hlen, hpk⟩ := ih (f.emit P now em)
    rw [hlog]
    rcases emit_cases hP now f em with hsame | ⟨-, d, -, ⟨e, -, heq⟩ | ⟨bytes, -, heq⟩⟩
    · rw [hsame] at hpk ⊢
      exact ⟨post, rfl, by omega, hpk⟩
    · rw [heq] at hpk ⊢
      exact ⟨_ :: post, append_assoc _ _ _, by rw [length_cons]; omega, hpk⟩
    · rw [heq] at hpk ⊢
      exact ⟨_ :: post, append_assoc _ _ _, by rw [length_cons]; omega,
        fun pkt hpkt => hpk (mem_append_left _ hpkt)⟩

theorem foldl_emit_ident (P : Primitives) (now : Nat) (ems : List Emission) (f : Flush) :
    (ems.foldl (emit P now) f).sess.ident = f.sess.ident := by
  refine foldl_emit_rel (fun s t => t.ident = s.ident) (fun _ => rfl)
    (fun _ _ _ h h' => h'.trans h) ?_ f
  rintro em - s d hd _ ⟨_, _, _, rfl, -⟩
  obtain ⟨_, _, _, _, _, _, heq⟩ := draft_eq hd
  exact heq ▸ rfl

/-- **A flush of a session that owes an acknowledgement** sends the frame of all retained numbers,
and at most three packets after it. -/
theorem flushed_ack (hP : P.Lawful) {order : List Nat} (hpend : s.ackRanges.ackPending = true)
    (herr : (s.flushed P now order).error = none) :
    ∃ pre num post bytes, (s.flushed P now order).log
        = pre ++ (.ack, num, (s.ackRanges.buildFrame now).1) :: post ∧ post.length ≤ 3 ∧
      sealPacket P s.encoder.keys s.encoder.sessionId num .ack (s.ackRanges.buildFrame now).1
        = .ok bytes ∧
      ∃ pkt ∈ (s.flushed P now order).packets, pkt.bytes = bytes := by
  -- the flush up to the ACK frame, the ACK frame, and the rest
  obtain ⟨ems, hems, hschedule⟩ : ∃ ems, Emission.ack ∉ ems ∧
      s.schedule order = ems ++ .ack :: [.maxData, .pong, .ping] := by
    refine ⟨_, ?_, rfl⟩
    simp [mem_flatMap, mem_replicate]
  rw [flushed, hschedule, foldl_append, foldl_cons] at herr ⊢
  have hack := foldl_emit_ackRanges P now ems hems ⟨s, [], none, []⟩
  have hid := foldl_emit_ident P now ems ⟨s, [], none, []⟩
  set f := ems.foldl (emit P now) ⟨s, [], none, []⟩ with hf
  have herr1 := error_eq_none_of_foldl_emit _ herr
  have herr0 := error_eq_none_of_foldl_emit [.ack] herr1
  obtain ⟨post, hlog, hlen, hpk⟩ := foldl_emit_log hP now [.maxData, .pong, .ping]
    (f.emit P now .ack)
  have hdraft : f.sess.draft now .ack = some ⟨.ack, (s.ackRanges.buildFrame now).1, true, false,
      none, { f.sess with ackRanges := { s.ackRanges with ackPending := false } }⟩ := by
    simp only [draft, hasPendingAck, hack, hpend]
    rfl
  rcases emit_cases hP now f .ack with hsame | ⟨-, d, hd, hcase⟩
  · -- the emission has something to send, so it is not without effect
    exfalso
    have hne : (f.emit P now .ack).log ≠ f.log := by
      unfold emit
      rw [herr0, hdraft]
      dsimp only
      split <;> simp
    exact hne (by rw [hsame])
  · rw [hdraft] at hd
    cases hd
    rcases hcase with ⟨e, -, heq⟩ | ⟨bytes, hseal, heq⟩
    · rw [heq] at herr1
      cases herr1
    · refine ⟨f.log, f.sess.encoder.nextPktNum, post, bytes, ?_, hlen, ?_, ⟨true, bytes⟩, ?_, rfl⟩
      · rw [hlog, heq]
        exact append_assoc _ _ _
      · simpa [← show f.sess.encoder.keys = s.encoder.keys from congrArg Ident.encKeys hid, ← show
          f.sess.encoder.sessionId = s.encoder.sessionId from congrArg Ident.sessionId hid] using hseal
      · refine hpk ?_
        rw [heq]
        exact mem_append_right _ (mem_singleton.mpr rfl)

end Session

/-! ## The copy and the acknowledgement -/

namespace Network

variable {P : Primitives} {c : NetworkConfig}

/-- **The copy of a packet that was accepted changes nothing**: the decoder refuses it. -/
theorem step_deliver_duplicate (hP : P.Lawful) {n : Network} (hw : Wired P c n)
    (ha : Accounted n.peers) {x : Role} {pn : Nat} {pkt : InFlight}
    (hpkt : (n.peers.sess x).arq.inFlight.get? pn = some pkt)
    (hacc : ∃ y ∈ n.peers.accepted x.peer, y.2.1.toNat = pn) {i : Nat}
    (hcopy : (n.wire x)[i]? = some pkt.data) (now : Nat) : n.step P (.deliver x i now) = some n := by
  obtain ⟨y, -, -, hy, hdec⟩ := decode_stored hP hw hpkt
  obtain ⟨z, hz, hzpn⟩ := hacc
  have hnum : z.2.1 = y.2.1 := UInt64.toNat_inj.mp (hzpn.trans hy.symm)
  have hrefused : ∃ e, (n.peers.sess x.peer).decoder.replay.check y.2.1 = .error e := by
    cases hchk : (n.peers.sess x.peer).decoder.replay.check y.2.1 with
    | error e => exact ⟨e, rfl⟩
    | ok u =>
      have hnew := (((ha.remembers x.peer).check_eq_ok_iff y.2.1).mp hchk).1
      exact absurd (mem_numbers.mpr ⟨z, hz, hnum⟩) hnew
  obtain ⟨e, he⟩ := hrefused
  rw [he] at hdec
  have herr : ((n.peers.sess x.peer).decoder.decode P pkt.data).1 = .error e := hdec
  simp only [step, hcopy, receivePacket_of_error now herr, map_some, herr,
    Peers.setSess, update_eq_self]

/-- While packets of the other side are delivered to side `x`: the history `log` of the other side
and its wire do not change, and once packet `a` is accepted, number `pn` is not in flight. -/
structure Acking (P : Primitives) (c : NetworkConfig) (x : Role) (log : List Decoded)
    (wire : List Bytes) (a : Decoded) (pn : Nat) (n : Network) : Prop where
  wired : Wired P c n
  accounted : Accounted n.peers
  log : n.peers.log x.peer = log
  wire : n.wire x.peer = wire
  acked : a ∈ n.peers.accepted x → (n.peers.sess x).arq.inFlight.get? pn = none

variable {x : Role} {log : List Decoded} {wire : List Bytes} {a : Decoded} {pn : Nat} {n n' : Network}
  {bytes : Bytes} {t : Nat} {ds : List (Nat × Nat)}

section

variable (hP : P.Lawful) (hcount : log.length ≤ 2 ^ 64)
  (ha : a ∈ log) (hacks : Session.acksNumber a.1 a.2.2 pn = true)
  (hrecent : log.length ≤ a.2.1.toNat + 1024) (hseal : SealedBy P c x.peer a bytes)
  (hlen : encodeBufLen a.2.2.length ≤ maxPacketLen)

include hP hcount ha hacks hrecent hseal hlen

/-- A delivery keeps `Acking`, if `a` is an acknowledgement of `pn`; accepted packets stay so, and one
that the replay window admits is accepted. -/
theorem Acking.step (h : Acking P c x log wire a pn n) {j : Nat}
    (hs : n.step P (.deliver x.peer j t) = some n') :
    Acking P c x log wire a pn n' ∧ (a ∈ n.peers.accepted x → a ∈ n'.peers.accepted x) ∧
      (wire[j]? = some bytes → a ∈ n'.peers.accepted x) := by
  have hw' := wired_step hP h.wired hs
  have hacc' := h.accounted.step hP h.wired hs
  have hlog := h.log
  rcases h.wired.deliver_cases hP hs with ⟨hnone, rfl⟩ | ⟨y, p, hy, hylog, -, hacc, rfl⟩
  · refine ⟨⟨hw', hacc', h.log, h.wire, h.acked⟩, id, fun hj => ?_⟩
    -- the packet was not admitted now, so it was accepted before
    by_contra hnot
    have hmem := h.accounted.sent x.peer
    rw [Role.peer_peer] at hmem
    have hcheck : (n'.peers.sess x.peer.peer).decoder.replay.check a.2.1 = .ok () := by
      rw [Role.peer_peer]
      refine ((h.accounted.remembers x).check_eq_ok_iff _).mpr ⟨fun hm => ?_, fun z hz => ?_⟩
      · obtain ⟨z, hz, hnum⟩ := mem_numbers.mp hm
        have hza := h.accounted.eq_of_number (by rw [hlog]; exact hcount) (hmem z hz)
          (by rw [hlog]; exact ha) hnum
        exact hnot (hza ▸ hz)
      · have hlt := h.accounted.number_lt (by rw [hlog]; exact hcount) (hmem z hz)
        rw [hlog] at hlt
        omega
    have hsome := (h.wired.accepts_eq_some_iff hP (by rw [h.wire, hj]) hseal hlen).mpr ⟨rfl, hcheck⟩
    rw [hnone] at hsome
    cases hsome
  · rw [Role.peer_peer] at hacc
    obtain ⟨⟨res, s⟩, hdisp, rfl⟩ := map_eq_some_iff.mp hacc
    have haccepted : (n.peers.received x y res s).accepted x = y :: n.peers.accepted x :=
      update_self _ _ _
    refine ⟨⟨hw', hacc', h.log, h.wire, fun hmem => ?_⟩, fun hmem => ?_, fun hj => ?_⟩
    · have hsess : (n.peers.received x y res s).sess x = s := update_self _ _ _
      rw [hsess, dispatch_inFlight hdisp]
      rw [haccepted] at hmem
      rcases mem_cons.mp hmem with rfl | hmem
      · rw [if_pos hacks]
      · split_ifs
        · rfl
        · exact h.acked hmem
    · rw [haccepted]
      exact mem_cons_of_mem _ hmem
    · obtain ⟨rfl, -⟩ := (h.wired.accepts_eq_some_iff hP (by rw [h.wire, hj]) hseal hlen).mp hy
      rw [haccepted]
      exact mem_cons_self

theorem Acking.run (h : Acking P c x log wire a pn n)
    (hrun : exec (Network.step P) n (ds.map fun d => .deliver x.peer d.1 d.2) = some n') :
    Acking P c x log wire a pn n' ∧ (a ∈ n.peers.accepted x → a ∈ n'.peers.accepted x) ∧
      ((∃ d ∈ ds, wire[d.1]? = some bytes) → a ∈ n'.peers.accepted x) := by
  induction ds generalizing n with
  | nil =>
    cases hrun
    exact ⟨h, id, fun ⟨d, hd, _⟩ => nomatch hd⟩
  | cons d ds ih =>
    rw [map_cons, exec_cons, bind_eq_some_iff] at hrun
    obtain ⟨n1, hs, hrun⟩ := hrun
    obtain ⟨h1, hkeep1, hnew1⟩ := h.step hP hcount ha hacks hrecent hseal hlen hs
    obtain ⟨h2, hkeep2, hnew2⟩ := ih h1 hrun
    refine ⟨h2, fun hmem => hkeep2 (hkeep1 hmem), ?_⟩
    rintro ⟨e, he, hbytes⟩
    rcases mem_cons.mp he with rfl | he
    · exact hkeep2 (hnew1 hbytes)
    · exact hnew2 ⟨e, he, hbytes⟩

end

theorem log_of_deliveries {z : Role}
    (hrun : exec (step P) n (ds.map fun d => .deliver z d.1 d.2) = some n') :
    n'.peers.log = n.peers.log := by
  induction ds generalizing n with
  | nil =>
    cases hrun
    rfl
  | cons d ds ih =>
    rw [map_cons, exec_cons, bind_eq_some_iff] at hrun
    obtain ⟨n1, hs, hrun⟩ := hrun
    rw [ih hrun]
    simp only [step] at hs
    split at hs
    · cases hs
    · obtain ⟨⟨res, s⟩, -, rfl⟩ := map_eq_some_iff.mp hs
      split <;> rfl

theorem acking_flush (hP : P.Lawful) (hw : Wired P c n) (ha : Accounted n.peers)
    (hpn : pn ∈ (n.peers.sess x.peer).ackRanges.received.keys)
    (hpend : (n.peers.sess x.peer).ackRanges.ackPending = true)
    (hranges : (n.peers.sess x.peer).ackRanges.ranges.length ≤ 4092) {order : List Nat}
    {packets : List TaggedPacket} (hflush : ((n.peers.sess x.peer).flush P t order).1 = .ok packets)
    (hs : n.step P (.flush x.peer t order) = some n')
    (hcount : (n'.peers.log x.peer).length ≤ 2 ^ 64) :
    ∃ a bytes j, Acking P c x (n'.peers.log x.peer) (n'.wire x.peer) a pn n' ∧
      a ∈ n'.peers.log x.peer ∧ acksNumber a.1 a.2.2 pn = true ∧
      (n'.peers.log x.peer).length ≤ a.2.1.toNat + 1024 ∧ SealedBy P c x.peer a bytes ∧
      encodeBufLen a.2.2.length ≤ maxPacketLen ∧ (n'.wire x.peer)[j]? = some bytes ∧
      (n.wire x.peer).length ≤ j ∧ j < (n.wire x.peer).length + packets.length := by
  set s := n.peers.sess x.peer with hsdef
  have hw' := wired_step hP hw hs
  have ha' := ha.step hP hw hs
  -- the flush succeeds
  obtain ⟨herr, hn'⟩ : (s.flushed P t order).error = none ∧
      n' = { n with peers := n.peers.during x.peer (s.flushed P t order) }.transmit x.peer
        ((s.flushed P t order).packets.map TaggedPacket.bytes) := by
    rcases (flush_step_cases hs).2 with ⟨e, he, -⟩ | h
    · rw [flush, he] at hflush
      cases hflush
    · exact h
  have hpackets : (s.flushed P t order).packets = packets := by
    rw [flush, herr] at hflush
    exact Except.ok.inj hflush
  obtain ⟨pre, num, post, bytes, hlog, hpost, hseal, pkt, hpkt, hbytes⟩ :=
    flushed_ack hP hpend herr
  have hlog' : n'.peers.log x.peer = n.peers.log x.peer ++ (s.flushed P t order).log := by
    rw [hn']
    exact update_self _ _ _
  have hwire' : n'.wire x.peer = n.wire x.peer ++ packets.map TaggedPacket.bytes := by
    rw [hn', hpackets]
    exact update_self _ _ _
  set a : Decoded := (.ack, num, (s.ackRanges.buildFrame t).1) with hadef
  -- its number is its place in the history
  have hnum : num.toNat = (n.peers.log x.peer).length + pre.length := by
    refine ha'.number_getElem? hcount (y := a) ?_
    simp [hlog', hlog]
  have hlen : (n'.peers.log x.peer).length
      = (n.peers.log x.peer).length + (pre.length + (post.length + 1)) := by
    simp [hlog', hlog]
  have hident := hw.tracked.ident x.peer
  have hsealed : SealedBy P c x.peer a bytes := by
    rw [SealedBy, ← show _ = c.keys x.peer from congrArg Session.Ident.encKeys hident,
      ← show _ = c.sessionId from congrArg Session.Ident.sessionId hident]
    exact hseal
  -- the other side cannot have accepted a number that was not used yet
  have hfresh : a ∉ n'.peers.accepted x := by
    intro hmem
    have hacc : n'.peers.accepted x = n.peers.accepted x := by
      rw [hn']
      rfl
    rw [hacc] at hmem
    have hsent := ha.sent x.peer
    rw [Role.peer_peer] at hsent
    have hlt := ha.number_lt (by omega) (hsent a hmem)
    rw [show a.2.1.toNat = _ from hnum] at hlt
    omega
  obtain ⟨j, hj⟩ := mem_iff_getElem?.mp (mem_map_of_mem (f := TaggedPacket.bytes) hpkt)
  rw [hpackets, hbytes] at hj
  have hjlt : j < packets.length := by
    have := (List.getElem?_eq_some_iff.mp hj).1
    rwa [length_map] at this
  refine ⟨a, bytes, (n.wire x.peer).length + j, ⟨hw', ha', rfl, rfl, fun h => absurd h hfresh⟩, ?_,
    ?_, ?_, hsealed, ?_, ?_, Nat.le_add_right _ _, by omega⟩
  · rw [hlog', hlog]
    exact mem_append_right _ (mem_append_right _ mem_cons_self)
  · obtain ⟨⟨y, hy, -⟩, -⟩ := ((ha.remembers x.peer).received pn).mp hpn
    exact ((ha.remembers x.peer).acksNumber_buildFrame (ne_nil_of_mem hy) t pn).mpr hpn
  · rw [hlen, show a.2.1.toNat = _ from hnum]
    omega
  · have hsize := s.ackRanges.length_buildFrame_le t
    have hbuf : encodeBufLen (s.ackRanges.buildFrame t).1.length ≤ maxPacketLen := by
      simp only [encodeBufLen, headerLen, tagLen, maxPacketLen]
      omega
    exact hbuf
  · rw [hwire', List.getElem?_append_right (Nat.le_add_right _ _), Nat.add_sub_cancel_left]
    exact hj

end Network

/-- **A lost acknowledgement is repaired if another one is due.** Packet `pn` is in flight although the
other side has accepted it, and retains its number. The copy changes nothing. If the other side owes an
acknowledgement and has at most 4092 ranges to report, then once all packets of its next flush are
delivered, in any order, `pn` is not in flight any more. -/
theorem lost_ack_repaired {P : Primitives} (hP : P.Lawful) (c : NetworkConfig)
    {evs : List NetEvent} {n : Network}
    (hrun : exec (Network.step P) (Network.init c) evs = some n) {x : Role} {pn : Nat}
    {pkt : InFlight} (hpkt : (n.peers.sess x).arq.inFlight.get? pn = some pkt)
    (hacc : ∃ y ∈ n.peers.accepted x.peer, y.2.1.toNat = pn)
    (hretained : (n.peers.sess x.peer).ackRanges.largestReceived ≤ pn + ackRetainWindow)
    (hpend : (n.peers.sess x.peer).ackRanges.ackPending = true)
    (hranges : (n.peers.sess x.peer).ackRanges.ranges.length ≤ 4092)
    {i t0 t1 : Nat} {order : List Nat} {packets : List TaggedPacket} {ds : List (Nat × Nat)}
    {n' : Network} (hcopy : (n.wire x)[i]? = some pkt.data)
    (hflush : ((n.peers.sess x.peer).flush P t1 order).1 = .ok packets)
    (hrun' : exec (Network.step P) n (.deliver x i t0 :: .flush x.peer t1 order ::
      ds.map fun d => .deliver x.peer d.1 d.2) = some n')
    (hall : ∀ j, (n.wire x.peer).length ≤ j → j < (n.wire x.peer).length + packets.length →
      ∃ d ∈ ds, d.1 = j)
    (hcount : (n'.peers.log x.peer).length ≤ 2 ^ 64) :
    (n'.peers.sess x).arq.inFlight.get? pn = none := by
  obtain ⟨hw, ha⟩ := Network.wired_accounted hP Network.wired_init (Accounted.init c) hrun
  have hpn : pn ∈ (n.peers.sess x.peer).ackRanges.received.keys := by
    refine ((ha.remembers x.peer).received pn).mpr ⟨hacc, ?_⟩
    exact Nat.sub_le_of_le_add ((ha.remembers x.peer).retains.largest.ge.trans hretained)
  rw [exec_cons, Network.step_deliver_duplicate hP hw ha hpkt hacc hcopy t0, bind_some,
    exec_cons, bind_eq_some_iff] at hrun'
  obtain ⟨n1, hs, hdeliver⟩ := hrun'
  rw [Network.log_of_deliveries hdeliver] at hcount
  obtain ⟨a, bytes, j, hacking, hmem, hacks, hrecent, hseal, hlen, hbytes, hle, hlt⟩ :=
    Network.acking_flush hP hw ha hpn hpend hranges hflush hs hcount
  obtain ⟨hdone, -, hreach⟩ :=
    hacking.run hP hcount hmem hacks hrecent hseal hlen hdeliver
  obtain ⟨d, hd, rfl⟩ := hall j hle hlt
  exact hdone.acked (hreach ⟨d, hd, hbytes⟩)

def secondPacketOps : List NetEvent :=
  [.app .client (.openStream 4), .send .client 1 [1], .flush .client 0 [1], .deliver .client 0 0,
    .flush .server 0 [1], .send .client 1 [2], .flush .client 0 [1], .deliver .client 1 0]

/-- After `secondPacketOps` the first packet is in flight; the copy of it, a flush of the server and
the delivery of its packet take it out of flight. -/
theorem lost_ack_repaired_second_packet :
    ∃ n n', exec (Network.step checksumPrimitives) (Network.init Network.sampleConfig)
        secondPacketOps = some n ∧
      ((n.peers.sess .client).arq.inFlight.get? 0).isSome = true ∧
      exec (Network.step checksumPrimitives) n
        [.deliver .client 0 0, .flush .server 0 [1], .deliver .server 1 0] = some n' ∧
      (n'.peers.sess .client).arq.inFlight.get? 0 = none := by
  obtain ⟨n, hn, hcopy, hsome, hacc, hret, hpend, hranges, hwire, hflush, n', hn', hcount⟩ :
      ∃ n, exec (Network.step checksumPrimitives) (Network.init Network.sampleConfig)
        secondPacketOps = some n ∧
      ((n.peers.sess .client).arq.inFlight.get? 0).map InFlight.data = (n.wire .client)[0]? ∧
      ((n.peers.sess .client).arq.inFlight.get? 0).isSome = true ∧
      (∃ y ∈ n.peers.accepted .server, y.2.1.toNat = 0) ∧
      (n.peers.sess .server).ackRanges.largestReceived ≤ 0 + ackRetainWindow ∧
      (n.peers.sess .server).ackRanges.ackPending = true ∧
      (n.peers.sess .server).ackRanges.ranges.length ≤ 4092 ∧ (n.wire .server).length = 1 ∧
      ((n.peers.sess .server).flush checksumPrimitives 0 [1]).1.toOption.map List.length = some 1 ∧
      ∃ n', exec (Network.step checksumPrimitives) n [.deliver .client 0 0, .flush .server 0 [1],
        .deliver .server 1 0] = some n' ∧ (n'.peers.log .server).length ≤ 2 ^ 64 := by
    decide +kernel
  obtain ⟨pkt, hpkt⟩ := isSome_iff_exists.mp hsome
  rw [hpkt, map_some] at hcopy
  cases hpk : ((n.peers.sess .server).flush checksumPrimitives 0 [1]).1 with
  | error e =>
    rw [hpk] at hflush
    cases hflush
  | ok packets =>
    rw [hpk] at hflush
    have hone : packets.length = 1 := Option.some.inj hflush
    refine ⟨n, n', hn, hsome, hn', ?_⟩
    have hdeliver : exec (Network.step checksumPrimitives) n (.deliver .client 0 0 ::
        .flush Role.client.peer 0 [1] ::
        [((1 : Nat), (0 : Nat))].map fun d => .deliver Role.client.peer d.1 d.2) = some n' := hn'
    have hwire' : (n.wire Role.client.peer).length = 1 := hwire
    exact lost_ack_repaired checksumPrimitives_lawful Network.sampleConfig hn hpkt hacc hret hpend
      hranges hcopy.symm hpk hdeliver
      (fun j hle hlt => ⟨(1, 0), mem_singleton.mpr rfl, by omega⟩)
      hcount

def resentPacketOps : List NetEvent :=
  [.app .client (.openStream 4), .send .client 1 [1], .flush .client 0 [1], .deliver .client 0 0,
    .flush .server 0 [1], .retransmit .client 1000000000]

/-- After `resentPacketOps` the packet is in flight although the server has accepted it. The copy
arrives, the server's next flush has nothing to send, and the packet is in flight as before. -/
theorem resent_packet_stays_in_flight :
    ∃ n n', exec (Network.step checksumPrimitives) (Network.init Network.sampleConfig)
        resentPacketOps = some n ∧
      ((n.peers.sess .client).arq.inFlight.get? 0).map InFlight.data = (n.wire .client)[1]? ∧
      (∃ y ∈ n.peers.accepted .server, y.2.1.toNat = 0) ∧
      (n.peers.sess .server).ackRanges.largestReceived ≤ 0 + ackRetainWindow ∧
      exec (Network.step checksumPrimitives) n [.deliver .client 1 0, .flush .server 0 [1]]
        = some n' ∧
      n'.wire .server = n.wire .server ∧
      ((n'.peers.sess .client).arq.inFlight.get? 0).isSome = true := by
  simp only [exists_and_left]
  decide +kernel

end SeamProtocol
