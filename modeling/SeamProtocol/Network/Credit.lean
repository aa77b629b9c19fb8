import SeamProtocol.Lib.Totals
import SeamProtocol.Network.System

/-! # The credit invariant

A side may accept as many bytes for sending as its limit says; the limit comes from the other side's
MaxData packets, which may be lost, late or overtaken. The 64-bit field of such a packet can only make a
limit smaller. -/

namespace SeamProtocol

open Lib Function Session Option FlowWindow

namespace Session

theorem consume_pending {s : Session} (hp : ∀ limit, s.pendingMaxData = some limit →
      limit ≤ s.recvConsumed + defaultWindow) (k limit : Nat)
    (h : (s.consume k).pendingMaxData = some limit) :
    limit ≤ (s.consume k).recvConsumed + defaultWindow := by
  unfold consume at h ⊢
  dsimp only at h ⊢
  split_ifs at h
  · cases h
    exact le_rfl
  · have := hp limit h
    omega

end Session

structure Credit (p : Peers) : Prop where
  /-- The bytes accepted by the streams, of any set of streams, are among those accounted for. -/
  accepted : ∀ x (ids : Finset Nat),
    ∑ id ∈ ids, (p.written x id).length ≤ (p.sess x).sendWindow.consumed
  used : ∀ x, (p.sess x).sendWindow.consumed ≤ (p.sess x).sendWindow.limit
  permitted : ∀ x, (p.sess x).sendWindow.limit ≤ (p.sess x.peer).recvConsumed + defaultWindow
  scheduled : ∀ x limit, (p.sess x).pendingMaxData = some limit →
    limit ≤ (p.sess x).recvConsumed + defaultWindow
  announced : ∀ x, ∀ e ∈ p.log x, e.1 = .maxData →
    beNat (e.2.2.take 8) ≤ (p.sess x).recvConsumed + defaultWindow

namespace Credit

variable {p q : Peers} {x : Role} {s : Session}

theorem update (h : Credit p) (hs : q.sess = Function.update p.sess x s)
    (hwritten : ∀ z, z ≠ x → q.written z = p.written z)
    (hacc : ∀ ids : Finset Nat, ∑ id ∈ ids, (q.written x id).length ≤ s.sendWindow.consumed)
    (hused : s.sendWindow.consumed ≤ s.sendWindow.limit)
    (hperm : s.sendWindow.limit ≤ (p.sess x.peer).recvConsumed + defaultWindow)
    (hcount : (p.sess x).recvConsumed ≤ s.recvConsumed)
    (hsched : ∀ limit, s.pendingMaxData = some limit → limit ≤ s.recvConsumed + defaultWindow)
    (hlog : ∀ z, ∀ e ∈ q.log z, e ∈ p.log z ∨ z = x ∧ (e.1 = .maxData → beNat (e.2.2.take 8) ≤ s.recvConsumed + defaultWindow)) :
    Credit q := by
  have hself : q.sess x = s := by
    rw [hs, update_self]
  have hother : ∀ z, z ≠ x → q.sess z = p.sess z := by
    intro z hz
    rw [hs, update_of_ne hz]
  have hgrow : ∀ z, (p.sess z).recvConsumed ≤ (q.sess z).recvConsumed := by
    intro z
    by_cases hz : z = x
    · rw [hz, hself]
      exact hcount
    · rw [hother z hz]
  refine ⟨fun z ids => ?_, fun z => ?_, fun z => ?_, fun z limit hl => ?_, fun z e he ht => ?_⟩
  · by_cases hz : z = x
    · rw [hz, hself]
      exact hacc ids
    · rw [hother z hz, hwritten z hz]
      exact h.accepted z ids
  · by_cases hz : z = x
    · rw [hz, hself]
      exact hused
    · rw [hother z hz]
      exact h.used z
  · have hpeer := hgrow z.peer
    by_cases hz : z = x
    · subst hz
      rw [hself]
      omega
    · rw [hother z hz]
      have := h.permitted z
      omega
  · by_cases hz : z = x
    · rw [hz, hself] at hl ⊢
      exact hsched limit hl
    · rw [hother z hz] at hl ⊢
      exact h.scheduled z limit hl
  · rcases hlog z e he with hold | ⟨rfl, hnew⟩
    · have := h.announced z e hold ht
      have := hgrow z
      omega
    · rw [hself]
      exact hnew ht

theorem update_of_eq (h : Credit p) (hs : q.sess = Function.update p.sess x s)
    (hwritten : q.written = p.written) (hlog : q.log = p.log)
    (hsend : s.sendWindow = (p.sess x).sendWindow) (hcount : s.recvConsumed = (p.sess x).recvConsumed)
    (hsched : s.pendingMaxData = (p.sess x).pendingMaxData) : Credit q := by
  refine h.update hs (fun z _ => by rw [hwritten]) ?_ ?_ ?_ hcount.ge ?_
    fun z e he => .inl (by rwa [hlog] at he)
  · rw [hwritten, hsend]
    exact h.accepted x
  · rw [hsend]
    exact h.used x
  · rw [hsend]
    exact h.permitted x
  · rw [hsched, hcount]
    exact h.scheduled x

theorem init (c : NetworkConfig) : Credit (Network.init c).peers := by
  refine ⟨fun x ids => ?_, fun x => Nat.zero_le _, fun x => Nat.le_add_left _ _,
    fun x limit h => ?_, fun x e he => ?_⟩
  · exact (Finset.sum_eq_zero fun _ _ => rfl).le
  · cases h
  · cases he

theorem send (h : Credit p) (x : Role) (id : Nat) (data : Bytes) : Credit (p.send x id data) := by
  have hperm := h.permitted x
  unfold Peers.send
  rcases (p.sess x).send_cases id data with
    ⟨e, heq, -⟩ | ⟨e, s', heq, hle, rfl, -⟩ | ⟨stream, -, -, -, hle, heq⟩
  · rw [heq]
    exact h.update_of_eq rfl rfl rfl rfl rfl rfl
  · -- the credit is gone although nothing was accepted
    rw [heq]
    refine h.update rfl (fun _ _ => rfl) (fun ids => ?_) hle hperm le_rfl (h.scheduled x)
      fun z e he => .inl he
    exact (h.accepted x ids).trans (Nat.le_add_right _ _)
  · rw [heq]
    refine h.update rfl (fun z hz => update_of_ne hz _ _) (fun ids => ?_) hle hperm le_rfl
      (h.scheduled x) fun z e he => .inl he
    dsimp only [Peers.setSess]
    rw [update_self]
    refine (sum_le_sum_add id ?_ (fun j hj => ?_) ids).trans
      (Nat.add_le_add_right (h.accepted x ids) data.length)
    · simp
    · rw [update_of_ne hj]

variable {d : Draft} {res : Except SeamError Bytes} {now : Nat}

theorem encoded (h : Credit p) (hsend : d.sess.sendWindow = (p.sess x).sendWindow)
    (hcount : d.sess.recvConsumed = (p.sess x).recvConsumed)
    (hsched : ∀ limit, d.sess.pendingMaxData = some limit → (p.sess x).pendingMaxData = some limit)
    (hnew : d.pktType = .maxData → beNat (d.payload.take 8) ≤ (p.sess x).recvConsumed + defaultWindow) :
    Credit (p.encoded x d res now) := by
  have hsess : ∃ s, (p.encoded x d res now).sess = Function.update p.sess x s ∧
      s.sendWindow = d.sess.sendWindow ∧ s.recvConsumed = d.sess.recvConsumed ∧
      s.pendingMaxData = d.sess.pendingMaxData := by
    cases res <;> exact ⟨_, rfl, rfl, rfl, rfl⟩
  obtain ⟨s, hs, hsend', hcount', hsched'⟩ := hsess
  refine h.update hs (fun _ _ => rfl) ?_ ?_ ?_ (by rw [hcount', hcount]) ?_ fun z e he => ?_
  · rw [hsend', hsend]
    exact h.accepted x
  · rw [hsend', hsend]
    exact h.used x
  · rw [hsend', hsend]
    exact h.permitted x
  · intro limit hl
    rw [hsched'] at hl
    rw [hcount', hcount]
    exact h.scheduled x limit (hsched limit hl)
  · unfold Peers.encoded at he
    dsimp only at he
    by_cases hz : z = x
    · rw [hz, update_self] at he
      rcases List.mem_append.mp he with he | he
      · exact .inl (hz ▸ he)
      · rw [List.mem_singleton.mp he]
        exact .inr ⟨hz, fun ht => by rw [hcount', hcount]; exact hnew ht⟩
    · rw [update_of_ne hz] at he
      exact .inl he

theorem emit (h : Credit p) {em : Emission} (hd : (p.sess x).draft now em = some d) :
    Credit (p.encoded x d res now) := by
  have hcases := draft_cases hd
  cases em with
  | data id =>
    obtain ⟨stream, seg, stream', -, -, rfl⟩ := hcases
    exact h.encoded rfl rfl (fun _ hl => hl) nofun
  | fin id =>
    obtain ⟨stream, -, -, rfl⟩ := hcases
    exact h.encoded rfl rfl (fun _ hl => hl) nofun
  | datagram =>
    obtain ⟨dg, datagrams, -, rfl⟩ := hcases
    exact h.encoded rfl rfl (fun _ hl => hl) nofun
  | ack =>
    obtain ⟨-, rfl⟩ := hcases
    exact h.encoded rfl rfl (fun _ hl => hl) nofun
  | maxData =>
    obtain ⟨newLimit, hpending, rfl⟩ := hcases
    refine h.encoded rfl rfl (fun _ hl => nomatch hl) fun _ => ?_
    -- the field holds the scheduled limit modulo `2 ^ 64`
    have hbound := h.scheduled x newLimit hpending
    have hfield : beNat ((beBytes 8 newLimit).take 8) = newLimit % 256 ^ 8 := by
      rw [List.take_of_length_le (by simp), beNat_beBytes]
    rw [hfield]
    exact (Nat.mod_le _ _).trans hbound
  | pong | ping =>
    dsimp only at hcases
    subst hcases
    exact h.encoded rfl rfl (fun _ hl => hl) nofun

theorem accept (h : Credit p) {y : Decoded} (hy : y ∈ p.log x)
    (hacc : p.accept x.peer y now = some q) : Credit q := by
  obtain ⟨⟨res, s⟩, hdisp, rfl⟩ := map_eq_some_iff.mp hacc
  have hused := h.used x.peer
  have hperm := h.permitted x.peer
  rw [Role.peer_peer] at hperm
  have hwin : s.sendWindow.consumed = (p.sess x.peer).sendWindow.consumed ∧
      s.sendWindow.consumed ≤ s.sendWindow.limit ∧
      s.sendWindow.limit ≤ (p.sess x).recvConsumed + defaultWindow := by
    have hlimit : ((p.sess x.peer).noted y now).sendWindow = (p.sess x.peer).sendWindow := rfl
    rw [dispatch_sendWindow hdisp, hlimit]
    split_ifs with ht
    · have hann := h.announced x y hy ht.1
      rw [updateLimit_consumed, updateLimit_limit]
      omega
    · exact ⟨rfl, hused, hperm⟩
  have hsched : ∀ limit, ((p.sess x.peer).noted y now).pendingMaxData = some limit →
      limit ≤ ((p.sess x.peer).noted y now).recvConsumed + defaultWindow := h.scheduled x.peer
  refine h.update rfl (fun _ _ => rfl) ?_ hwin.2.1 ?_ ?_ ?_ fun z e he => .inl he
  · rw [hwin.1]
    exact h.accepted x.peer
  · rw [Role.peer_peer]
    exact hwin.2.2
  · rcases dispatch_consume hdisp with ⟨hc, -⟩ | ⟨f, -, -, hc, -⟩
    · rw [hc]
      exact le_rfl
    · rw [hc]
      exact Nat.le_add_right _ _
  · intro limit hl
    rcases dispatch_consume hdisp with ⟨hc, hm⟩ | ⟨f, -, -, hc, hm⟩
    · rw [hc]
      exact hsched limit (hm ▸ hl)
    · rw [hc]
      exact consume_pending hsched _ limit (hm ▸ hl)

theorem step {P : Primitives} {c : NetworkConfig} (hP : P.Lawful) {n n' : Network} {ev : NetEvent}
    (hw : Network.Wired P c n) (h : Credit n.peers) (hs : n.step P ev = some n') : Credit n'.peers := by
  refine Network.step_peers hP hw hs Credit h ?_ ?_ ?_ ?_ ?_ ?_ ?_
  · intro x call s _ hcall
    obtain ⟨streams, nextStreamId, pendingPing, datagrams, pendingCcAck, rfl⟩ :=
      appCall_eq hcall
    exact h.update_of_eq rfl rfl rfl rfl rfl rfl
  · intro x id data _
    exact h.send x id data
  · intro x id max p _ hread
    obtain ⟨⟨r, s⟩, hr, rfl⟩ := map_eq_some_iff.mp hread
    obtain ⟨streams, rfl⟩ := read_eq hr
    dsimp only
    split <;> exact h.update_of_eq rfl rfl rfl rfl rfl rfl
  · intro x now order q em d res _ hq hd _
    exact hq.emit hd
  · intro x t payload res _ ht
    refine h.encoded rfl rfl (fun _ hl => hl) fun hmax => ?_
    rw [show t = .maxData from hmax] at ht
    cases ht
  · intro x now _
    exact h.update_of_eq rfl rfl rfl rfl rfl rfl
  · intro x i now y p _ _ hy _ hacc
    exact h.accept hy hacc

end Credit

/-! ## Growth -/

structure Session.Grows (s s' : Session) : Prop where
  sendLimit : s.sendWindow.limit ≤ s'.sendWindow.limit
  recvLimit : s.recvWindow.limit ≤ s'.recvWindow.limit
  recvConsumed : s.recvConsumed ≤ s'.recvConsumed

namespace Session

theorem Grows.refl (s : Session) : s.Grows s := ⟨le_rfl, le_rfl, le_rfl⟩

variable {s : Session}

theorem Grows.trans {t u : Session} (h : s.Grows t) (h' : t.Grows u) : s.Grows u :=
  ⟨h.sendLimit.trans h'.sendLimit, h.recvLimit.trans h'.recvLimit,
    h.recvConsumed.trans h'.recvConsumed⟩

theorem send_grows (s : Session) (id : Nat) (data : Bytes) : s.Grows (s.send id data).2 := by
  rcases s.send_cases id data with ⟨e, h, -⟩ | ⟨e, s', h, -, rfl, -⟩ | ⟨stream, -, -, -, -, h⟩
  · rw [h]
    exact Grows.refl s
  · rw [h]
    exact ⟨le_rfl, le_rfl, le_rfl⟩
  · rw [h]
    exact ⟨le_rfl, le_rfl, le_rfl⟩

variable {now : Nat}

theorem draft_grows {em : Emission} {d : Draft} (h : s.draft now em = some d) : s.Grows d.sess := by
  obtain ⟨_, _, _, _, _, _, hd⟩ := draft_eq h
  rw [hd]
  exact ⟨le_rfl, le_rfl, le_rfl⟩

theorem sent_grows (d : Draft) (pktNum : UInt64) (bytes : Bytes) (now : Nat) :
    d.sess.Grows (d.sent d.sess.bumped pktNum bytes now) := by
  refine ⟨le_rfl, ?_, le_rfl⟩
  unfold Draft.sent
  split
  · rw [updateLimit_limit]
    exact le_max_left _ _
  · exact le_rfl

theorem dispatch_grows {s' : Session} {pktType : PktType} {payload : Bytes}
    {r : Except SeamError (List SessionEvent)} (h : s.dispatch pktType payload now = some (r, s')) :
    s.Grows s' := by
  refine ⟨?_, ?_, ?_⟩
  · rw [dispatch_sendWindow h]
    split_ifs
    · rw [updateLimit_limit]
      exact le_max_left _ _
    · exact le_rfl
  · obtain ⟨_, _, _, _, _, _, _, _, rfl⟩ := dispatch_eq h
    exact le_rfl
  · rcases dispatch_consume h with ⟨hc, -⟩ | ⟨f, -, -, hc, -⟩
    · rw [hc]
    · rw [hc]
      exact Nat.le_add_right _ _

end Session

theorem Network.grows_step {P : Primitives} {c : NetworkConfig} (hP : P.Lawful) {n n' : Network}
    {ev : NetEvent} (hw : Wired P c n) (h : n.step P ev = some n') (x : Role) :
    (n.peers.sess x).Grows (n'.peers.sess x) := by
  -- it is enough to look at the session that changes
  have hupdate : ∀ (q : Peers) (z : Role) (s : Session) (sess' : Role → Session),
      (∀ x, (n.peers.sess x).Grows (q.sess x)) → sess' = Function.update q.sess z s →
      (q.sess z).Grows s → ∀ x, (n.peers.sess x).Grows (sess' x) := by
    intro q z s sess' hq hsess' hs x
    rw [hsess']
    by_cases hx : x = z
    · simpa [hx] using (hq z).trans hs
    · rw [update_of_ne hx]
      exact hq x
  have hrefl : ∀ x, (n.peers.sess x).Grows (n.peers.sess x) := fun x => Session.Grows.refl _
  refine step_peers hP hw h (fun q => ∀ x, (n.peers.sess x).Grows (q.sess x)) hrefl
    ?_ ?_ ?_ ?_ ?_ ?_ ?_ x
  · intro z call s _ hcall
    obtain ⟨streams, nextStreamId, pendingPing, datagrams, pendingCcAck, rfl⟩ :=
      appCall_eq hcall
    exact hupdate n.peers z _ _ hrefl rfl ⟨le_rfl, le_rfl, le_rfl⟩
  · intro z id data _
    exact hupdate n.peers z _ _ hrefl (n.peers.send_frame z id data).1 (send_grows _ _ _)
  · intro z id max p _ hread
    obtain ⟨⟨r, s⟩, hr, rfl⟩ := map_eq_some_iff.mp hread
    obtain ⟨streams, rfl⟩ := read_eq hr
    dsimp only
    split <;> exact hupdate n.peers z _ _ hrefl rfl ⟨le_rfl, le_rfl, le_rfl⟩
  · intro z now order q em d res _ hq hd _
    refine hupdate q z _ _ hq rfl ?_
    cases res with
    | ok bytes => exact (draft_grows hd).trans (sent_grows d _ bytes now)
    | error e => exact (draft_grows hd).trans ⟨le_rfl, le_rfl, le_rfl⟩
  · intro z t payload res _ _
    refine hupdate n.peers z _ _ hrefl rfl ?_
    cases res <;> exact ⟨le_rfl, le_rfl, le_rfl⟩
  · intro z now _
    exact hupdate n.peers z _ _ hrefl rfl ⟨le_rfl, le_rfl, le_rfl⟩
  · intro z i now y p _ _ _ _ hacc
    obtain ⟨⟨res, s⟩, hdisp, rfl⟩ := map_eq_some_iff.mp hacc
    have hnoted : (n.peers.sess z.peer).Grows ((n.peers.sess z.peer).noted y now) :=
      ⟨le_rfl, le_rfl, le_rfl⟩
    exact hupdate n.peers z.peer s _ hrefl rfl (hnoted.trans (dispatch_grows hdisp))

/-- **Credit bounds.** In every state that two sessions reach over any network: what a side has used
fits its limit, which is at most one window beyond what the other side has counted; so at most 16 MiB
that its streams have accepted are not counted there; and no event shrinks a limit or a count. -/
theorem credit_bounds {P : Primitives} (hP : P.Lawful) (c : NetworkConfig) {evs : List NetEvent}
    {n : Network} (hrun : exec (Network.step P) (Network.init c) evs = some n) (x : Role) :
    (n.peers.sess x).sendWindow.consumed ≤ (n.peers.sess x).sendWindow.limit ∧
    (n.peers.sess x).sendWindow.limit ≤ (n.peers.sess x.peer).recvConsumed + defaultWindow ∧
    (∀ ids : Finset Nat, ∑ id ∈ ids, (n.peers.written x id).length
      ≤ (n.peers.sess x.peer).recvConsumed + 16 * 2 ^ 20) ∧
    ∀ ev n', n.step P ev = some n' → (n.peers.sess x).Grows (n'.peers.sess x) := by
  obtain ⟨hw, hc⟩ := exec_invariant (fun n => Network.Wired P c n ∧ Credit n.peers)
    (fun n ev n' h hs => ⟨Network.wired_step hP h.1 hs, h.2.step hP h.1 hs⟩)
    ⟨Network.wired_init, Credit.init c⟩ hrun
  refine ⟨hc.used x, hc.permitted x, fun ids => ?_, fun ev n' hs => Network.grows_step hP hw hs x⟩
  exact (hc.accepted x ids).trans ((hc.used x).trans (hc.permitted x))

def threeBytesOps : List NetEvent :=
  [.app .client (.openStream 4), .send .client 1 [1, 2, 3], .flush .client 0 [1],
    .deliver .client 0 1, .deliver .client 0 2]

/-- The run of `threeBytesOps` uses three bytes of credit, and the server counts three. -/
theorem credit_bounds_three_bytes :
    ∃ n, exec (Network.step checksumPrimitives) (Network.init Network.sampleConfig) threeBytesOps
        = some n ∧
      (n.peers.sess .client).sendWindow.consumed = 3 ∧ (n.peers.sess .server).recvConsumed = 3 ∧
      (n.peers.sess .client).sendWindow.limit
        ≤ (n.peers.sess .server).recvConsumed + defaultWindow := by
  refine exists_exec_of (p := fun n => (n.peers.sess .client).sendWindow.consumed = 3 ∧
    (n.peers.sess .server).recvConsumed = 3) (by decide +kernel) ?_
  rintro n hn ⟨hclient, hserver⟩
  exact ⟨hclient, hserver, (credit_bounds checksumPrimitives_lawful Network.sampleConfig hn .client).2.1⟩

end SeamProtocol
