import SeamProtocol.Handshake.Keys
import SeamProtocol.Network.Acceptance

/-! # No key is used twice with one nonce

Everything that two sessions of one handshake result encrypt. The directions have different keys, and
within a direction every packet takes the next number of one counter. -/

namespace SeamProtocol

open Lib

def HandshakeResult.config (r : HandshakeResult) : NetworkConfig :=
  ⟨r.sessionId, r.txKeys, fun _ => SessionLimits.default⟩

namespace Network

def established (r : HandshakeResult) : Network :=
  { peers :=
      { sess := r.session
        log := fun _ => []
        accepted := fun _ => []
        written := fun _ _ => []
        readOut := fun _ _ => []
        events := fun _ => [] }
    wire := fun _ => [] }

theorem established_eq (r : HandshakeResult) : established r = init r.config := by
  have hsess : r.session = (init r.config).peers.sess := by
    funext x
    cases x <;> rfl
  unfold established
  rw [hsess]
  rfl

def encryptionsOf (n : Network) (x : Role) : List (Key × Bytes) :=
  (n.peers.log x).map fun y =>
    ((n.peers.sess x).encoder.keys.encKey, (n.peers.sess x).encoder.keys.nonce y.2.1)

def encryptions (n : Network) : List (Key × Bytes) :=
  n.encryptionsOf .client ++ n.encryptionsOf .server

variable {n : Network} {x : Role}

theorem nodup_encryptionsOf (h : Accounted n.peers) (hcount : (n.peers.log x).length < 2 ^ 64) :
    (n.encryptionsOf x).Nodup := by
  have hnumbers : (numbers (n.peers.log x)).Nodup := by
    rw [h.numbered x]
    refine List.Nodup.map_on (fun i hi j hj heq => ?_) List.nodup_range
    -- numbers below the count are not reduced
    have hnat := congrArg UInt64.toNat heq
    rw [UInt64.toNat_ofNat', UInt64.toNat_ofNat',
      Nat.mod_eq_of_lt ((List.mem_range.mp hi).trans hcount),
      Nat.mod_eq_of_lt ((List.mem_range.mp hj).trans hcount)] at hnat
    exact hnat
  have hpairs : n.encryptionsOf x = (numbers (n.peers.log x)).map fun k =>
      ((n.peers.sess x).encoder.keys.encKey, (n.peers.sess x).encoder.keys.nonce k) := by
    simp [encryptionsOf, numbers]
  rw [hpairs]
  refine hnumbers.map fun k l heq => ?_
  exact PacketKeys.nonce_injective _ (congrArg Prod.snd heq)

/-- **A retransmission encrypts nothing**: what it sends was sealed before, under the same number. -/
theorem retransmit_stored {P : Primitives} {c : NetworkConfig} {n' : Network} {now : Nat}
    (hw : Wired P c n) (hs : n.step P (.retransmit x now) = some n') :
    n'.peers.log = n.peers.log ∧
    n'.wire x = n.wire x ++ ((n.peers.sess x).drainRetransmits now).1.map Prod.snd ∧
    ∀ pn bytes, (pn, bytes) ∈ ((n.peers.sess x).drainRetransmits now).1 →
      ∃ y ∈ n.peers.log x, y.2.1.toNat = pn ∧
        sealPacket P (c.keys x) c.sessionId y.2.1 y.1 y.2.2 = .ok bytes := by
  cases hs
  refine ⟨rfl, Function.update_self _ _ _, fun pn bytes hmem => ?_⟩
  obtain ⟨pkt, hpkt, hdata⟩ := ArqTracker.mem_drainExpired hmem
  obtain ⟨y, hy, -, hnum, -, hseal⟩ := hw.tracked.inFlight x pn pkt hpkt
  exact ⟨y, hy, hnum, hseal.trans (congrArg Except.ok hdata)⟩

end Network

/-- **No key and nonce are used together twice.** As long as each side has encrypted fewer than `2 ^ 64`
packets, the pairs of key and nonce of all encryptions of both sides are distinct; and a retransmission
sends bytes that were sealed before under the same number, and encrypts nothing. -/
theorem no_nonce_reuse {P : Primitives} (hP : P.Lawful) (B : Blake3) {hash : Bytes}
    {peerStatic kemShared : Key} {dhSplit : Key × Key} {suite : CipherSuite} {r : HandshakeResult}
    (hB : B.InjOn (keyInputs B hash kemShared dhSplit))
    (hr : finish B hash peerStatic kemShared dhSplit suite = some r)
    {evs : List NetEvent} {n : Network}
    (hrun : exec (Network.step P) (Network.established r) evs = some n)
    (hcount : ∀ x, (n.peers.log x).length < 2 ^ 64) :
    n.encryptions.Nodup ∧
    ∀ x now n', n.step P (.retransmit x now) = some n' →
      n'.encryptions = n.encryptions ∧
      n'.wire x = n.wire x ++ ((n.peers.sess x).drainRetransmits now).1.map Prod.snd ∧
      ∀ pn bytes, (pn, bytes) ∈ ((n.peers.sess x).drainRetransmits now).1 →
        ∃ y ∈ n.peers.log x, y.2.1.toNat = pn ∧
          sealPacket P (r.txKeys x) r.sessionId y.2.1 y.1 y.2.2 = .ok bytes := by
  rw [Network.established_eq] at hrun
  obtain ⟨hw, hacc⟩ : Network.Wired P r.config n ∧ Accounted n.peers :=
    exec_invariant (fun n => Network.Wired P r.config n ∧ Accounted n.peers)
      (fun n ev n' h hs => ⟨Network.wired_step hP h.1 hs, Accounted.step hP h.1 h.2 hs⟩)
      ⟨Network.wired_init, Accounted.init _⟩ hrun
  have hkeys : ∀ x, (n.peers.sess x).encoder.keys = r.txKeys x := fun x =>
    congrArg Session.Ident.encKeys (hw.tracked.ident x)
  refine ⟨?_, fun x now n' hs => ?_⟩
  · refine List.nodup_append.mpr ⟨Network.nodup_encryptionsOf hacc (hcount .client),
      Network.nodup_encryptionsOf hacc (hcount .server), ?_⟩
    -- the directions have different keys
    intro a ha b hb heq
    obtain ⟨y, -, rfl⟩ := List.mem_map.mp ha
    obtain ⟨z, -, rfl⟩ := List.mem_map.mp hb
    have hsame := congrArg Prod.fst heq
    rw [hkeys, hkeys] at hsame
    exact encKey_ne hB hr hsame
  · obtain ⟨hlog, hwire, hstored⟩ := Network.retransmit_stored hw hs
    have hkeys' : ∀ z, (n'.peers.sess z).encoder = (n.peers.sess z).encoder := by
      intro z
      cases hs
      dsimp only [Network.transmit, Peers.setSess]
      by_cases hz : z = x
      · rw [hz, Function.update_self]
        rfl
      · rw [Function.update_of_ne hz]
    refine ⟨?_, hwire, hstored⟩
    unfold Network.encryptions Network.encryptionsOf
    rw [hlog, hkeys', hkeys']

/-- One packet of each side, under the same number. -/
theorem no_nonce_reuse_two_packets :
    ∃ r n, finish lastByteBlake3 (List.replicate 32 5) zeroKeys.encKey zeroKeys.encKey
        (zeroKeys.encKey, zeroKeys.encKey) .aes256Gcm = some r ∧
      exec (Network.step checksumPrimitives) (Network.established r)
        [.encodeRaw .client .chaff [1], .encodeRaw .server .sessionTicket [2]] = some n ∧
      n.encryptions.length = 2 ∧ n.encryptions.Nodup := by
  obtain ⟨r, hr, n, hn, hlen, hclient, hserver⟩ : ∃ r, finish lastByteBlake3 (List.replicate 32 5)
        zeroKeys.encKey zeroKeys.encKey (zeroKeys.encKey, zeroKeys.encKey) .aes256Gcm = some r ∧
      ∃ n, exec (Network.step checksumPrimitives) (Network.established r)
        [.encodeRaw .client .chaff [1], .encodeRaw .server .sessionTicket [2]] = some n ∧
      n.encryptions.length = 2 ∧ (n.peers.log .client).length < 2 ^ 64 ∧
      (n.peers.log .server).length < 2 ^ 64 := by
    decide +kernel
  have hreuse := no_nonce_reuse checksumPrimitives_lawful lastByteBlake3
    (lastByteBlake3_injOn _ _ _) hr hn fun x => by
      cases x
      · exact hclient
      · exact hserver
  exact ⟨r, n, hr, hn, hlen, hreuse.1⟩

end SeamProtocol
