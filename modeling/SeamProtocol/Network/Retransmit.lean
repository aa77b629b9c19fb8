import SeamProtocol.Network.Transfer

/-! # Retransmission

A lost packet is sent again under its old number. Whether the copy is of use depends on the other side's
replay window, and on the acknowledgement that takes the packet out of flight. -/

namespace SeamProtocol

open Lib Function List Option SortedMap Network Peers

/-! ## The stored copy -/

variable {P : Primitives} {c : NetworkConfig} {n : Network} {x : Role}

/-- **The stored copy of a packet in flight is an authentic packet of the history**; the other side's
replay window alone decides about it. -/
theorem Network.decode_stored (hP : P.Lawful) (hw : Wired P c n) {pn : Nat} {pkt : InFlight}
    (hpkt : (n.peers.sess x).arq.inFlight.get? pn = some pkt) :
    ∃ y ∈ n.peers.log x, y.1 = .data ∧ y.2.1.toNat = pn ∧
      ((n.peers.sess x.peer).decoder.decode P pkt.data).1
        = ((n.peers.sess x.peer).decoder.replay.check y.2.1).map fun _ => y := by
  obtain ⟨y, hy, ht, hn, hlen, hseal⟩ := hw.tracked.inFlight x pn pkt hpkt
  refine ⟨y, hy, ht, hn, PacketDecoder.decode_of_authentic ?_⟩
  rw [hw.tracked.decKeys]
  exact authenticate_sealPacket hP hseal (encodeBufLen_le hlen)

/-! ## The span of the missing packets -/

namespace Peers

theorem accept_data (p : Peers) (x : Role) (pktNum : UInt64) (payload : Bytes) (now : Nat) :
    ∃ q, p.accept x (.data, pktNum, payload) now = some q ∧
      q.accepted x = (.data, pktNum, payload) :: p.accepted x ∧
      q.sess x.peer = p.sess x.peer :=
  ⟨_, rfl, update_self _ _ _, update_of_ne (Role.peer_ne x) _ _⟩

/-- Packet `pn` of side `x` is in flight and has not been accepted by the other side. -/
def Missing (p : Peers) (x : Role) (pn : Nat) : Prop :=
  pn ∈ (p.sess x).arq.inFlight.keys ∧ ∀ y ∈ p.accepted x.peer, y.2.1.toNat ≠ pn

instance (p : Peers) (x : Role) (pn : Nat) : Decidable (p.Missing x pn) :=
  inferInstanceAs (Decidable (_ ∧ _))

def WithinSpan (p : Peers) (x : Role) : Prop :=
  ∀ pn, p.Missing x pn → ∀ y ∈ p.accepted x.peer, y.2.1.toNat < pn + 1024

variable {p q : Peers} {x : Role}

theorem WithinSpan.of_subset (h : p.WithinSpan x) (hacc : q.accepted x.peer = p.accepted x.peer)
    (hfl : (q.sess x).arq.inFlight.keys ⊆ (p.sess x).arq.inFlight.keys) : q.WithinSpan x := by
  rintro pn ⟨hpn, hnew⟩ y hy
  rw [hacc] at hnew hy
  exact h pn ⟨hfl hpn, hnew⟩ y hy

variable {z : Role}

theorem WithinSpan.update (h : p.WithinSpan x) {s : Session}
    (hs : q.sess = Function.update p.sess z s) (hacc : q.accepted = p.accepted)
    (hfl : s.arq.inFlight.keys ⊆ (p.sess z).arq.inFlight.keys) : q.WithinSpan x := by
  refine h.of_subset (by rw [hacc]) ?_
  rw [hs]
  by_cases hx : x = z
  · simpa [hx] using hfl
  · rw [update_of_ne hx]
    exact List.Subset.refl _

variable {d : Draft} {res : Except SeamError Bytes} {now : Nat}

theorem inFlight_encoded (p : Peers) (z : Role) (harq : d.sess.arq = (p.sess z).arq) {pn : Nat}
    (hpn : pn ∈ ((p.encoded z d res now).sess z).arq.inFlight.keys) :
    pn ∈ (p.sess z).arq.inFlight.keys ∨ pn = d.sess.encoder.nextPktNum.toNat := by
  rw [← harq]
  unfold encoded at hpn
  dsimp only at hpn
  rw [update_self] at hpn
  cases res with
  | error e => exact .inl hpn
  | ok bytes =>
    simp only [Draft.sent] at hpn
    split at hpn
    · by_cases heq : pn = d.sess.encoder.nextPktNum.toNat
      · exact .inr heq
      · rw [ArqTracker.onSent, mem_keys_iff, get?_insert, if_neg heq,
          ← mem_keys_iff] at hpn
        exact .inl hpn
    · exact .inl hpn

theorem WithinSpan.encoded (h : (p.log x).length ≤ 2 ^ 64 → p.WithinSpan x) (ha : Accounted p)
    (henc : d.sess.encoder = (p.sess z).encoder) (harq : d.sess.arq = (p.sess z).arq)
    (hcount : ((p.encoded z d res now).log x).length ≤ 2 ^ 64) :
    (p.encoded z d res now).WithinSpan x := by
  by_cases hz : x = z
  · subst hz
    have hlen : (p.log x).length < 2 ^ 64 := by
      unfold Peers.encoded at hcount
      dsimp only at hcount
      rw [update_self, length_append, length_singleton] at hcount
      omega
    rintro pn ⟨hpn, hnew⟩ y hy
    rcases inFlight_encoded p x harq hpn with hold | hnext
    · exact h hlen.le pn ⟨hold, hnew⟩ y hy
    · rw [henc, ha.next x, UInt64.toNat_ofNat', Nat.mod_eq_of_lt hlen] at hnext
      have hlt := ha.number_lt hlen.le (ha.sent x y hy)
      omega
  · unfold Peers.encoded at hcount ⊢
    dsimp only at hcount
    rw [update_of_ne hz] at hcount
    refine (h hcount).of_subset rfl ?_
    dsimp only
    rw [update_of_ne hz]
    exact List.Subset.refl _

theorem WithinSpan.accept (h : p.WithinSpan x) {y : Decoded}
    (hy : z = x → ∀ pn, p.Missing x pn → y.2.1.toNat < pn + 1024)
    (hacc : p.accept z.peer y now = some q) : q.WithinSpan x := by
  obtain ⟨⟨res, s⟩, hdisp, rfl⟩ := map_eq_some_iff.mp hacc
  have hfl : ((p.received z.peer y res s).sess x).arq.inFlight.keys
      ⊆ (p.sess x).arq.inFlight.keys := by
    intro k hk
    unfold received at hk
    dsimp only at hk
    by_cases hx : x = z.peer
    · -- the packet may have been an acknowledgement
      subst hx
      rw [update_self, mem_keys_iff] at hk
      obtain ⟨pkt, hpkt⟩ := hk
      rw [Session.dispatch_inFlight hdisp] at hpkt
      split_ifs at hpkt
      exact (mem_keys_iff _ _).mpr ⟨pkt, hpkt⟩
    · rw [update_of_ne hx] at hk
      exact hk
  by_cases hz : z = x
  · subst hz
    rintro pn ⟨hpn, hnew⟩ w hw
    unfold received at hnew hw
    dsimp only at hnew hw
    rw [update_self] at hnew hw
    have hmissing : p.Missing z pn :=
      ⟨hfl hpn, fun v hv => hnew v (mem_cons_of_mem _ hv)⟩
    rcases mem_cons.mp hw with rfl | hw
    · exact hy rfl pn hmissing
    · exact h pn hmissing w hw
  · have hpeer : x.peer ≠ z.peer := by
      intro hc
      rw [← x.peer_peer, hc, z.peer_peer] at hz
      exact hz rfl
    exact h.of_subset (update_of_ne hpeer _ _) hfl

end Peers

/-- The condition on deliveries: the packet accepted now is less than 1024 ahead of every missing
packet. -/
def Network.keepsSpan (P : Primitives) (n : Network) : NetEvent → Prop
  | .deliver x i _ => ∀ y ∈ n.accepts P x i, ∀ pn ∈ (n.peers.sess x).arq.inFlight.keys,
      n.peers.Missing x pn → y.2.1.toNat < pn + 1024
  | _ => True

instance (P : Primitives) (n : Network) : ∀ ev, Decidable (n.keepsSpan P ev)
  | .deliver x i _ => inferInstanceAs (Decidable (∀ y ∈ n.accepts P x i,
      ∀ pn ∈ (n.peers.sess x).arq.inFlight.keys, n.peers.Missing x pn → y.2.1.toNat < pn + 1024))
  | .app .. | .send .. | .read .. | .flush .. | .retransmit .. | .encodeRaw .. => isTrue trivial

/-- **Every event that keeps the span leaves all missing packets within the window**, unless packet
numbers wrap around. -/
theorem Peers.WithinSpan.step (hP : P.Lawful) {n' : Network} {ev : NetEvent}
    (hw : Network.Wired P c n) (ha : Accounted n.peers)
    (h : (n.peers.log x).length ≤ 2 ^ 64 → n.peers.WithinSpan x) (hok : n.keepsSpan P ev)
    (hs : n.step P ev = some n') : (n'.peers.log x).length ≤ 2 ^ 64 → n'.peers.WithinSpan x := by
  refine (step_packets hP hw hs (fun q => Accounted q ∧
    ((q.log x).length ≤ 2 ^ 64 → q.WithinSpan x)) ⟨ha, h⟩ ?_ ?_ ?_ ?_ ?_).2
  · intro q z _ _ _ _ _ _ hsess hlog hacc
    refine ⟨ha.update hsess hlog hacc rfl rfl rfl, fun hc => ?_⟩
    exact (h (hlog ▸ hc)).update hsess hacc fun _ hk => hk
  · intro z now q em d res hq hd _
    obtain ⟨_, _, _, _, _, _, hds⟩ := Session.draft_eq hd
    refine ⟨hq.1.drafted hd res, fun hc => ?_⟩
    exact Peers.WithinSpan.encoded hq.2 hq.1 (by rw [hds]) (by rw [hds]) hc
  · intro z t payload res _
    exact ⟨ha.encoded rfl rfl rfl rfl, Peers.WithinSpan.encoded h ha rfl rfl⟩
  · intro z now
    refine ⟨ha.update rfl rfl rfl rfl rfl rfl, fun hc => (h hc).update rfl rfl fun k hk => ?_⟩
    have hdata := (n.peers.sess z).arq.drainExpired_data now k
    obtain ⟨pkt, hpkt⟩ := (mem_keys_iff _ _).mp hk
    have hpkt' : ((n.peers.sess z).arq.drainExpired now).2.inFlight.get? k = some pkt := hpkt
    rw [hpkt', map_some, eq_comm, map_eq_some_iff] at hdata
    obtain ⟨pkt', hold, -⟩ := hdata
    exact (mem_keys_iff _ _).mpr ⟨pkt', hold⟩
  · intro z i now y p hev hy hlog hcheck hacc
    refine ⟨ha.accept hlog hcheck hacc, fun hc => ?_⟩
    have hlog' : p.log = n.peers.log := by
      obtain ⟨⟨res, s⟩, -, rfl⟩ := map_eq_some_iff.mp hacc
      rfl
    rw [hlog'] at hc
    refine (h hc).accept (fun hz pn hpn => ?_) hacc
    subst hev hz
    exact hok y hy pn hpn.1 hpn

/-- **A missing packet can be repaired.** In every run in which no packet is accepted 1024 or more ahead
of a missing one (and no side sends more than `2 ^ 64` packets), the stored copy of every packet in
flight that the other side has not accepted passes its decoder, as the Data packet it was. -/
theorem stored_copy_accepted {P : Primitives} (hP : P.Lawful) (c : NetworkConfig)
    {evs : List NetEvent} {n : Network}
    (hok : Meets (Network.step P) (Network.keepsSpan P) (Network.init c) evs)
    (hrun : exec (Network.step P) (Network.init c) evs = some n) {x : Role}
    (hcount : (n.peers.log x).length ≤ 2 ^ 64) {pn : Nat} {pkt : InFlight}
    (hpkt : (n.peers.sess x).arq.inFlight.get? pn = some pkt)
    (hnew : ∀ y ∈ n.peers.accepted x.peer, y.2.1.toNat ≠ pn) :
    ∃ y ∈ n.peers.log x, y.1 = .data ∧ y.2.1.toNat = pn ∧
      ((n.peers.sess x.peer).decoder.decode P pkt.data).1 = .ok y := by
  obtain ⟨hw, ha, hspan⟩ := run_invariant hP (Network.keepsSpan P)
    (fun p => Accounted p ∧ ((p.log x).length ≤ 2 ^ 64 → p.WithinSpan x))
    ⟨Accounted.init c, fun _ pn hpn => nomatch hpn.1⟩
    (fun n ev n' hw h hok hs => ⟨h.1.step hP hw hs, Peers.WithinSpan.step hP hw h.1 h.2 hok hs⟩)
    hok hrun
  obtain ⟨y, hy, ht, hn, hdec⟩ := decode_stored hP hw hpkt
  refine ⟨y, hy, ht, hn, ?_⟩
  have hcheck : (n.peers.sess x.peer).decoder.replay.check y.2.1 = .ok () := by
    refine ((ha.remembers x.peer).check_eq_ok_iff y.2.1).mpr ⟨fun hmem => ?_, fun z hz => ?_⟩
    · obtain ⟨z, hz, hzy⟩ := mem_numbers.mp hmem
      exact hnew z hz (by rw [hzy, hn])
    · have := hspan hcount pn ⟨(mem_keys_iff _ _).mpr ⟨pkt, hpkt⟩, hnew⟩ z hz
      omega
  rw [hdec, hcheck]
  rfl

def secondArrivesOps : List NetEvent :=
  [.app .client (.openStream 4), .send .client 1 [1], .flush .client 0 [1], .send .client 1 [2],
    .flush .client 0 [1], .deliver .client 1 0]

/-- In the run of `secondArrivesOps` the first packet is missing, and its copy is accepted. -/
theorem stored_copy_accepted_second_first :
    ∃ n pkt y, exec (Network.step checksumPrimitives) (Network.init Network.sampleConfig)
        secondArrivesOps = some n ∧
      (n.peers.sess .client).arq.inFlight.get? 0 = some pkt ∧
      ((n.peers.sess .server).decoder.decode checksumPrimitives pkt.data).1 = .ok y := by
  obtain ⟨n, hn, hsome, hcount, hnew⟩ : ∃ n, exec (Network.step checksumPrimitives)
      (Network.init Network.sampleConfig) secondArrivesOps = some n ∧
      ((n.peers.sess .client).arq.inFlight.get? 0).isSome ∧ (n.peers.log .client).length ≤ 2 ^ 64 ∧
      ∀ y ∈ n.peers.accepted .server, y.2.1.toNat ≠ 0 := by decide +kernel
  obtain ⟨pkt, hpkt⟩ := isSome_iff_exists.mp hsome
  obtain ⟨y, -, -, -, hdec⟩ := stored_copy_accepted checksumPrimitives_lawful Network.sampleConfig
    (by decide +kernel) hn hcount hpkt hnew
  exact ⟨n, pkt, y, hn, hpkt, hdec⟩

def lastArrivesOps : List NetEvent :=
  .app .client (.openStream 4) :: Network.sendRounds .client 1 [7] 1025 ++ [.deliver .client 1024 0]

/-- In the run of `lastArrivesOps` the first packet is in flight and was not accepted, and its copy
is refused as too old. -/
theorem stored_copy_too_old :
    ∃ n pkt, exec (Network.step checksumPrimitives) (Network.init Network.sampleConfig)
        lastArrivesOps = some n ∧
      (n.peers.sess .client).arq.inFlight.get? 0 = some pkt ∧
      (∀ y ∈ n.peers.accepted .server, y.2.1.toNat ≠ 0) ∧
      (n.peers.sess .server).receivePacket checksumPrimitives pkt.data 0
        = some (.error (.tooOld 0), n.peers.sess .server) := by
  have hP := checksumPrimitives_lawful
  obtain ⟨n0, hopen, h0, hsess0, hacc0⟩ := @chunksSent_open checksumPrimitives
    Network.sampleConfig .client [7] (by decide) 4
  have hw0 := wired_step hP wired_init hopen
  have ha0 := (Accounted.init Network.sampleConfig).step hP wired_init hopen
  obtain ⟨n1, hrun1, h1, hsess1, hacc1⟩ := h0.rounds hP hw0 ha0 (by simp) (by decide) 1025
    (by decide)
  obtain ⟨hw1, ha1⟩ := wired_accounted hP hw0 ha0 hrun1
  -- the last packet arrives at a server that has accepted nothing yet
  obtain ⟨bytes, hbytes, hseal⟩ := h1.sealed 1024 (by decide)
  have hnone : n1.peers.accepted .server = [] := by
    rw [hacc1, hacc0]
  have hcheck : (n1.peers.sess .server).decoder.replay.check (UInt64.ofNat 1024) = .ok () := by
    refine ha1.check_of_lt fun y hy => ?_
    rw [hnone] at hy
    exact nomatch hy
  have hdeliver := step_deliver hP hw1 0 hbytes hseal (encodeBufLen_le (by decide)) hcheck
  obtain ⟨q, hq, hqacc, hqsess⟩ := n1.peers.accept_data .server
    (UInt64.ofNat 1024) (streamFrame false 1 (1024 * [(7 : UInt8)].length) [7]) 0
  have hstep : n1.step checksumPrimitives (.deliver .client 1024 0)
      = some { n1 with peers := q } := by
    rw [hdeliver]
    exact congrArg (Option.map _) hq
  have hw2 := wired_step hP hw1 hstep
  have ha2 := ha1.step hP hw1 hstep
  rw [hnone] at hqacc
  -- the first packet is still in flight
  have hclient : q.sess .client = n1.peers.sess .client := hqsess
  obtain ⟨pkt, hpkt⟩ := (mem_keys_iff _ _).mp (h1.inFlight 0 (by decide))
  rw [← hclient] at hpkt
  obtain ⟨y, -, -, hy, hdec⟩ := decode_stored hP hw2 hpkt
  have hy0 : y.2.1 = 0 := UInt64.toNat_inj.mp hy
  have htooOld : (q.sess .server).decoder.replay.check 0 = .error (.tooOld 0) := by
    rw [(ha2.remembers .server).replay.check_eq, hqacc]
    decide
  rw [hy0] at hdec
  refine ⟨{ n1 with peers := q }, pkt, ?_, hpkt, ?_, ?_⟩
  · have hrounds : exec (Network.step checksumPrimitives) n0
        (Network.sendRounds .client 1 [7] 1025) = some n1 := hrun1
    simp [lastArrivesOps, exec_cons, hopen, exec_append, hrounds, hstep]
  · intro z hz
    rw [hqacc, mem_singleton] at hz
    rw [hz]
    decide
  · exact Session.receivePacket_of_error 0 (hdec.trans (congrArg (Except.map _) htooOld))

end SeamProtocol
