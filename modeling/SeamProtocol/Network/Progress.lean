import SeamProtocol.Lib.Totals
import SeamProtocol.Network.Transfer

/-! # Progress of flow control

Two windows guard a `send`: that of the connection, which the other side extends as bytes arrive, and
that of the stream, which nothing extends. -/

namespace SeamProtocol

open Lib Function List Option Peers Network SortedMap FlowWindow

/-! ## Bytes stored in a stream -/

namespace Stream

theorem sum_insertEntry_le (o : Nat) (d : Bytes) (l : List (Nat × Bytes)) :
    ((insertEntry o d l).map fun e => e.2.length).sum
      ≤ (l.map fun e => e.2.length).sum + d.length := by
  induction l with
  | nil => simp [insertEntry]
  | cons e rest ih =>
    rw [insertEntry]
    split_ifs
    · simp only [map_cons, sum_cons]
      omega
    · simp only [map_cons, sum_cons]
      omega
    · simp only [map_cons, sum_cons]
      omega

theorem receive_stored_le (s : Stream) (offset : Nat) (data : Bytes) (isFin : Bool) :
    (s.receive offset data isFin).2.stored ≤ s.stored + data.length := by
  have hinsert := sum_insertEntry_le offset data s.recvBuf.entries
  unfold receive
  cases isFin <;> dsimp only <;> split_ifs <;>
    first
      | exact Nat.le_add_right _ _
      | exact hinsert

theorem readLoop_length_le {recvOffset wanted : Nat} {l : List (Nat × Bytes)} {r : ReadLoop}
    (h : readLoop recvOffset wanted l = some r) :
    r.out.length + ((l.drop r.popped).map fun e => e.2.length).sum
      ≤ (l.map fun e => e.2.length).sum := by
  induction l generalizing recvOffset wanted r with
  | nil =>
    cases h
    simp
  | cons e rest ih =>
    rw [readLoop] at h
    split_ifs at h
    · cases h
      simp
    · cases h
      simp
    · obtain ⟨r', hr', rfl⟩ := map_eq_some_iff.mp h
      have hrest := ih hr'
      simp only [length_append, length_take, length_drop, drop_succ_cons,
        map_cons, sum_cons]
      omega

theorem read_stored_le {s s' : Stream} {maxBytes : Nat} {bytes : Bytes}
    (h : s.read maxBytes = some (bytes, s')) : bytes.length + s'.stored ≤ s.stored := by
  obtain ⟨r, hr, heq⟩ := map_eq_some_iff.mp h
  cases heq
  exact readLoop_length_le hr

end Stream

namespace Session

def storedOn (s : Session) (id : Nat) : Nat := ((s.streams.get? id).map Stream.stored).getD 0

theorem length_data_lt {frame : Bytes} {f : StreamFrame} (h : parseStreamFrame frame = some f) :
    f.data.length < 2 ^ 16 := by
  unfold parseStreamFrame at h
  dsimp only at h
  split_ifs at h
  cases h
  have hfield : leNat ((frame.drop 2).take 2) < 256 ^ 2 :=
    (leNat_lt _).trans_le (Nat.pow_le_pow_right (by decide) (length_take_le _ _))
  exact (length_take_le _ _).trans_lt hfield

variable {s s' : Session}

theorem SameRecv.storedOn_eq (h : s.SameRecv s') (id : Nat) : s'.storedOn id = s.storedOn id := by
  have hmap : ∀ o : Option Stream, o.map Stream.stored = (o.map Stream.recvSide).map
      fun r => (r.recvBuf.entries.map fun e => e.2.length).sum := by
    intro o
    cases o <;> rfl
  rw [storedOn, storedOn, hmap, hmap, h id]

theorem storedOn_insert (s : Session) (id : Nat) (stream : Stream) (id' : Nat) :
    { s with streams := s.streams.insert id stream }.storedOn id'
      = if id' = id then stream.stored else s.storedOn id' := by
  unfold storedOn
  rw [get?_insert]
  split_ifs <;> rfl

theorem appCall_storedOn_le {call : AppCall} (h : s.appCall call = some s') (id : Nat) :
    s'.storedOn id ≤ s.storedOn id := by
  rcases appCall_cases h with ⟨priority, -, -, rfl⟩ | ⟨id', stream, -, hget, rfl⟩ | ⟨_, _, _, rfl⟩
  · -- a new stream has nothing stored
    refine (storedOn_insert s s.nextStreamId _ id).le.trans ?_
    split_ifs
    · exact Nat.zero_le _
    · exact le_rfl
  · have hsame : s.SameRecv { s with streams := s.streams.insert id' stream.finish } :=
      .of_insert hget rfl rfl
    rw [hsame.storedOn_eq]
  · exact le_rfl

/-! ## Stream windows -/

def WindowsFixed (s : Session) : Prop :=
  ∀ id stream, s.streams.get? id = some stream → stream.sendMaxData = Stream.defaultWindow

namespace WindowsFixed

variable {s s' : Session} (h : s.WindowsFixed)
include h

variable {id : Nat}

theorem insert {stream : Stream} (hs' : s'.streams = s.streams.insert id stream)
    (hs : stream.sendMaxData = Stream.defaultWindow) : s'.WindowsFixed := by
  intro id' stream' hget
  rw [hs', get?_insert] at hget
  split_ifs at hget
  · cases hget
    exact hs
  · exact h id' stream' hget

theorem of_streams (hs : s'.streams = s.streams) : s'.WindowsFixed := by
  intro id stream hget
  rw [hs] at hget
  exact h id stream hget

theorem appCall {call : AppCall} (hcall : s.appCall call = some s') : s'.WindowsFixed := by
  rcases appCall_cases hcall with ⟨priority, -, -, rfl⟩ | ⟨id, stream, -, hget, rfl⟩ | ⟨_, _, _, rfl⟩
  · exact h.insert rfl rfl
  · exact h.insert rfl (h id stream hget)
  · exact h

variable {now : Nat}

theorem draft {em : Emission} {d : Draft} (hd : s.draft now em = some d) : d.sess.WindowsFixed := by
  rcases draft_streams hd with hsame | ⟨id, stream, stream', hget, hstreams, -, -, hmax⟩
  · exact h.of_streams hsame
  · exact h.insert hstreams (hmax.trans (h id stream hget))

theorem read {max : Nat} {r : Except SeamError Bytes} (hr : s.read id max = some (r, s')) :
    s'.WindowsFixed := by
  rcases read_cases hr with ⟨-, -, rfl⟩ | ⟨stream, bytes, stream', hget, hread, -, rfl⟩
  · exact h
  · obtain ⟨popped, rfl⟩ := Stream.read_eq_some hread
    exact h.insert rfl (h id stream hget)

theorem dispatch {pktType : PktType} {payload : Bytes} {r : Except SeamError (List SessionEvent)}
    (hd : s.dispatch pktType payload now = some (r, s')) : s'.WindowsFixed := by
  by_cases ht : pktType = .data
  · subst ht
    rcases handleDataFrame_snd (Option.some.inj hd) with rfl | ⟨f, stream, -, hstream, rfl⟩
    · exact h
    · refine h.insert rfl ?_
      have hside := congrArg Stream.SendSide.sendMaxData
        (stream.receive_sendSide f.offset f.data f.isFin)
      refine hside.trans ?_
      cases hget : s.streams.get? f.streamId with
      | none =>
        rw [hstream, hget]
        rfl
      | some st =>
        rw [hstream, hget]
        exact h f.streamId st hget
  · exact h.of_streams (dispatch_streams ht hd)

end WindowsFixed

end Session

/-! ## The sending side -/

structure Side.Spends (S : Side) : Prop where
  windows : S.sess.WindowsFixed
  /-- Credit was used only for bytes that streams have accepted. -/
  spent : ∃ ids : Finset Nat, S.sess.sendWindow.consumed ≤ ∑ id ∈ ids, (S.written id).length
  floor : defaultWindow ≤ S.sess.sendWindow.limit
  obeyed : ∀ e ∈ S.accepted, e.1 = .maxData → 8 ≤ e.2.2.length →
    beNat (e.2.2.take 8) ≤ S.sess.sendWindow.limit

namespace Side.Spends

variable {S S' : Side}

theorem congr (h : S.Spends) (hwindows : S'.sess.WindowsFixed)
    (hwin : S'.sess.sendWindow = S.sess.sendWindow) (hwritten : S'.written = S.written)
    (hacc : S'.accepted = S.accepted) : S'.Spends := by
  refine ⟨hwindows, ?_, ?_, ?_⟩
  · rw [hwin, hwritten]
    exact h.spent
  · rw [hwin]
    exact h.floor
  · rw [hwin, hacc]
    exact h.obeyed

variable {p : Peers} {x : Role}

theorem send {id : Nat} {data : Bytes} (h : (p.side x).Spends)
    (hok : (p.sess x).sendWindow.consumed + data.length ≤ (p.sess x).sendWindow.limit → ((p.sess x).send id data).1 = .ok ()) :
    ((p.send x id data).side x).Spends := by
  unfold Peers.send
  rcases (p.sess x).send_cases id data with
    ⟨e, heq, -⟩ | ⟨e, s', heq, hle, -, -⟩ | ⟨stream, hget, -, -, -, heq⟩
  · rw [heq]
    rw [Peers.side_setSess_self]
    exact h
  · have hres := hok hle
    rw [heq] at hres
    cases hres
  · rw [heq]
    obtain ⟨ids, hids⟩ := h.spent
    refine ⟨?_, ⟨insert id ids, ?_⟩, ?_, ?_⟩
    all_goals dsimp only [Peers.side, Peers.setSess]
    all_goals rw [update_self]
    · exact h.windows.insert rfl (h.windows id stream hget)
    · rw [update_self]
      have hgrow : ∑ j ∈ ids, (p.written x j).length ≤ ∑ j ∈ insert id ids, (p.written x j).length :=
        Finset.sum_le_sum_of_subset (Finset.subset_insert id ids)
      refine (Nat.add_le_add_right (hids.trans hgrow) data.length).trans
        (sum_add_le_sum ?_ (fun j hj => ?_) (Finset.mem_insert_self id ids))
      · simp
      · rw [update_of_ne hj]
    · exact h.floor
    · exact h.obeyed

theorem accept {q : Peers} {y : Decoded} {now : Nat} (h : (p.side x).Spends)
    (hacc : p.accept x y now = some q) : (q.side x).Spends := by
  obtain ⟨⟨res, s⟩, hdisp, rfl⟩ := map_eq_some_iff.mp hacc
  have hwin := Session.dispatch_sendWindow hdisp
  have hconsumed : s.sendWindow.consumed = (p.sess x).sendWindow.consumed := by
    rw [hwin]
    split_ifs
    · exact updateLimit_consumed _ _
    · rfl
  have hlimit : (p.sess x).sendWindow.limit ≤ s.sendWindow.limit := by
    rw [hwin]
    split_ifs
    · rw [updateLimit_limit]
      exact le_max_left _ _
    · exact le_rfl
  rw [side_received_self]
  refine ⟨?_, ?_, h.floor.trans hlimit, ?_⟩
  · have hnoted : ((p.sess x).noted y now).WindowsFixed := h.windows
    exact hnoted.dispatch hdisp
  · rw [hconsumed]
    exact h.spent
  · intro e he ht hlen
    rcases mem_cons.mp he with rfl | he
    · rw [hwin, if_pos ⟨ht, hlen⟩, updateLimit_limit]
      exact le_max_right _ _
    · exact (h.obeyed e he ht hlen).trans hlimit

end Side.Spends

/-! ## The receiving side -/

/-- The receiving side of flow control, if no Data packet is taken in while a window update is
waiting to be sent. -/
structure Side.Grants (S : Side) : Prop where
  /-- The bytes read or stored, on any set of streams, have been counted. -/
  counted : ∀ ids : Finset Nat,
    ∑ id ∈ ids, ((S.readOut id).length + S.sess.storedOn id) ≤ S.sess.recvConsumed
  floor : defaultWindow ≤ S.sess.recvWindow.limit
  cap : S.sess.recvWindow.limit ≤ S.sess.recvConsumed + defaultWindow
  /-- The limit waiting to be announced is one window beyond the bytes counted. -/
  scheduled : ∀ limit, S.sess.pendingMaxData = some limit →
    limit = S.sess.recvConsumed + defaultWindow
  /-- Half a window is left, or an update is waiting and one frame less is left. -/
  room : S.sess.recvConsumed + 8 * 2 ^ 20
    ≤ S.sess.recvWindow.limit + if S.sess.pendingMaxData = none then 0 else 2 ^ 16
  announced : S.sess.recvWindow.limit = defaultWindow ∨
    ∃ e ∈ S.log, e.1 = .maxData ∧ e.2.2 = beBytes 8 S.sess.recvWindow.limit

namespace Side.Grants

variable {S S' : Side}

theorem congr (h : S.Grants)
    (hread : ∀ id, (S'.readOut id).length + S'.sess.storedOn id
      ≤ (S.readOut id).length + S.sess.storedOn id)
    (hlog : S.log ⊆ S'.log) (hcount : S'.sess.recvConsumed = S.sess.recvConsumed)
    (hwin : S'.sess.recvWindow = S.sess.recvWindow)
    (hpend : S'.sess.pendingMaxData = S.sess.pendingMaxData) : S'.Grants := by
  refine ⟨fun ids => ?_, ?_, ?_, ?_, ?_, ?_⟩
  · rw [hcount]
    exact (Finset.sum_le_sum fun id _ => hread id).trans (h.counted ids)
  · rw [hwin]
    exact h.floor
  · rw [hwin, hcount]
    exact h.cap
  · rw [hpend, hcount]
    exact h.scheduled
  · rw [hpend, hcount, hwin]
    exact h.room
  · rw [hwin]
    rcases h.announced with hinit | ⟨e, he, hrest⟩
    · exact .inl hinit
    · exact .inr ⟨e, hlog he, hrest⟩

variable {q : Peers} {x : Role}

theorem read {p : Peers} {id max : Nat} (h : (p.side x).Grants) (hr : p.read x id max = some q) :
    (q.side x).Grants := by
  obtain ⟨⟨r, s⟩, hread, rfl⟩ := map_eq_some_iff.mp hr
  rcases Session.read_cases hread with
    ⟨-, rfl, rfl⟩ | ⟨stream, bytes, stream', hget, hrd, rfl, rfl⟩
  · rw [side_setSess_self]
    exact h
  · refine h.congr (fun id' => ?_) (List.Subset.refl _) ?_ ?_ ?_
    all_goals dsimp only [side, setSess]
    all_goals rw [update_self]
    · have hstored := Stream.read_stored_le hrd
      rw [update_self, Session.storedOn_insert]
      by_cases hid : id' = id
      · have hold : (p.sess x).storedOn id = stream.stored := by
          rw [Session.storedOn, hget]
          rfl
        rw [hid, update_self, if_pos rfl, hold, length_append]
        omega
      · simp [hid]

theorem consume (h : S.Grants) (hnone : S.sess.pendingMaxData = none) {f : StreamFrame}
    {stream : Stream} (hlen : f.data.length < 2 ^ 16)
    (hstream : stream = (S.sess.streams.get? f.streamId).getD (Stream.new f.streamId))
    (hread : S'.readOut = S.readOut) (hlog : S'.log = S.log)
    (hstored : ∀ id, S'.sess.storedOn id = if id = f.streamId then
      (stream.receive f.offset f.data f.isFin).2.stored else S.sess.storedOn id)
    (hcount : S'.sess.recvConsumed = S.sess.recvConsumed + f.data.length)
    (hwin : S'.sess.recvWindow = S.sess.recvWindow)
    (hpend : S'.sess.pendingMaxData = (S.sess.consume f.data.length).pendingMaxData) : S'.Grants := by
  have hroom := h.room
  have hfloor := h.floor
  unfold Session.consume at hpend
  dsimp only at hpend
  rw [hnone] at hpend
  refine ⟨fun ids => ?_, ?_, ?_, ?_, ?_, ?_⟩
  · rw [hcount]
    refine (sum_le_sum_add f.streamId ?_ (fun j hj => ?_) ids).trans
      (Nat.add_le_add_right (h.counted ids) f.data.length)
    · have hrecv := stream.receive_stored_le f.offset f.data f.isFin
      have hold : stream.stored = S.sess.storedOn f.streamId := by
        rw [hstream, Session.storedOn]
        cases S.sess.streams.get? f.streamId <;> rfl
      rw [hread, hstored, if_pos rfl]
      omega
    · rw [hread, hstored, if_neg hj]
  · rw [hwin]
    exact hfloor
  · rw [hwin, hcount]
    have := h.cap
    omega
  · intro limit hl
    rw [hpend] at hl
    split_ifs at hl
    cases hl
    rw [hcount]
  · unfold defaultWindow at hfloor
    split_ifs with hcond <;> simp_all <;> omega
  · rw [hwin, hlog]
    exact h.announced

variable {now : Nat} {em : Emission} {d : Draft}

theorem draft_grant_eq_none {s : Session} (hne : em ≠ .maxData) (hd : s.draft now em = some d) :
    d.grant = none ∧ d.sess.pendingMaxData = s.pendingMaxData ∧
      d.sess.recvWindow = s.recvWindow ∧ d.sess.recvConsumed = s.recvConsumed := by
  have hcases := Session.draft_cases hd
  cases em with
  | data id =>
    obtain ⟨stream, seg, stream', -, -, rfl⟩ := hcases
    exact ⟨rfl, rfl, rfl, rfl⟩
  | fin id =>
    obtain ⟨stream, -, -, rfl⟩ := hcases
    exact ⟨rfl, rfl, rfl, rfl⟩
  | datagram =>
    obtain ⟨dg, datagrams, -, rfl⟩ := hcases
    exact ⟨rfl, rfl, rfl, rfl⟩
  | ack =>
    obtain ⟨-, rfl⟩ := hcases
    exact ⟨rfl, rfl, rfl, rfl⟩
  | maxData => exact absurd rfl hne
  | pong | ping =>
    dsimp only at hcases
    subst hcases
    exact ⟨rfl, rfl, rfl, rfl⟩

variable {res : Except SeamError Bytes}

theorem encoded (h : (q.side x).Grants) (hgrant : d.grant = none)
    (hpend : d.sess.pendingMaxData = (q.sess x).pendingMaxData)
    (hwin : d.sess.recvWindow = (q.sess x).recvWindow)
    (hcount : d.sess.recvConsumed = (q.sess x).recvConsumed) (hrecv : (q.sess x).SameRecv d.sess) :
    ((q.encoded x d res now).side x).Grants := by
  rw [side_encoded_self]
  refine h.congr (fun id => ?_) (subset_append_left _ _) ?_ ?_ ?_
  · refine Nat.add_le_add_left (le_of_eq ?_) _
    refine Eq.trans ?_ (hrecv.storedOn_eq id)
    cases res <;> rfl
  · exact Eq.trans (by cases res <;> rfl) hcount
  · refine Eq.trans ?_ hwin
    cases res with
    | ok bytes =>
      simp only [Draft.sent, hgrant]
      rfl
    | error e => rfl
  · exact Eq.trans (by cases res <;> rfl) hpend

theorem announce (h : S.Grants) {limit : Nat} (hlimit : S.sess.pendingMaxData = some limit)
    {num : UInt64} (hread : ∀ id, (S'.readOut id).length + S'.sess.storedOn id
      = (S.readOut id).length + S.sess.storedOn id)
    (hlog : S'.log = S.log ++ [(.maxData, num, beBytes 8 limit)])
    (hcount : S'.sess.recvConsumed = S.sess.recvConsumed)
    (hwin : S'.sess.recvWindow = S.sess.recvWindow.updateLimit limit)
    (hpend : S'.sess.pendingMaxData = none) : S'.Grants := by
  have hval := h.scheduled limit hlimit
  have hmax : S'.sess.recvWindow.limit = max S.sess.recvWindow.limit limit := by
    rw [hwin, updateLimit_limit]
  refine ⟨fun ids => ?_, ?_, ?_, fun l hl => ?_, ?_, ?_⟩
  · rw [hcount, Finset.sum_congr rfl fun id _ => hread id]
    exact h.counted ids
  · rw [hmax]
    exact h.floor.trans (le_max_left _ _)
  · rw [hmax, hcount]
    exact max_le h.cap hval.le
  · rw [hpend] at hl
    cases hl
  · rw [hmax, hpend, if_pos rfl, hcount, hval]
    unfold defaultWindow
    omega
  · rw [hlog]
    -- the limit is the new one, or was already larger
    rcases le_total S.sess.recvWindow.limit limit with hle | hle
    · refine .inr ⟨_, mem_append_right _ (mem_singleton.mpr rfl), rfl, ?_⟩
      rw [hmax, max_eq_right hle]
    · rw [hmax, max_eq_left hle]
      rcases h.announced with hinit | ⟨e, he, hrest⟩
      · exact .inl hinit
      · exact .inr ⟨e, mem_append_left _ he, hrest⟩

theorem emit {P : Primitives} (hP : P.Lawful) (h : (q.side x).Grants)
    (hd : (q.sess x).draft now em = some d) (hseal : d.packet P = res) :
    ((q.encoded x d res now).side x).Grants := by
  by_cases hem : em = .maxData
  · subst hem
    obtain ⟨limit, hlimit, rfl⟩ := Session.draft_cases hd
    -- the eight bytes of the new limit can always be encoded
    obtain ⟨bytes, hok⟩ : ∃ bytes, sealPacket P (q.sess x).encoder.keys
        (q.sess x).encoder.sessionId (q.sess x).encoder.nextPktNum .maxData (beBytes 8 limit)
          = .ok bytes := by
      refine sealPacket_eq_ok hP ?_
      rw [length_beBytes]
      decide
    have hres : res = .ok bytes := hseal.symm.trans hok
    rw [hres, side_encoded_self]
    exact h.announce hlimit (fun _ => rfl) rfl rfl rfl rfl
  · obtain ⟨hgrant, hpend, hwin, hcount⟩ := draft_grant_eq_none hem hd
    exact h.encoded hgrant hpend hwin hcount (Session.draft_sameRecv hd)

end Side.Grants

/-! ## Both sides -/

namespace Network

/-- The condition on events: no Data packet is taken in while a window update is waiting to be sent,
and a `send` that the connection window admits is not refused afterwards. -/
def updatesPromptly (P : Primitives) (n : Network) : NetEvent → Prop
  | .deliver x i _ => ∀ y ∈ n.accepts P x i, y.1 = .data →
      (n.peers.sess x.peer).pendingMaxData = none
  | .send x id data =>
    (n.peers.sess x).sendWindow.consumed + data.length ≤ (n.peers.sess x).sendWindow.limit →
      ((n.peers.sess x).send id data).1 = .ok ()
  | _ => True

instance (P : Primitives) (n : Network) : ∀ ev, Decidable (n.updatesPromptly P ev)
  | .deliver x i _ => inferInstanceAs (Decidable (∀ y ∈ n.accepts P x i, y.1 = .data →
      (n.peers.sess x.peer).pendingMaxData = none))
  | .send x id data => inferInstanceAs (Decidable
      ((n.peers.sess x).sendWindow.consumed + data.length ≤ (n.peers.sess x).sendWindow.limit →
        ((n.peers.sess x).send id data).1 = .ok ()))
  | .app .. | .read .. | .flush .. | .retransmit .. | .encodeRaw .. => isTrue trivial

theorem grants_accept {p q : Peers} {x : Role} {y : Decoded} {now : Nat} (h : (p.side x).Grants)
    (hok : y.1 = .data → (p.sess x).pendingMaxData = none) (hacc : p.accept x y now = some q) :
    (q.side x).Grants := by
  obtain ⟨⟨res, s⟩, hdisp, rfl⟩ := map_eq_some_iff.mp hacc
  rw [side_received_self]
  by_cases ht : y.1 = .data
  · rw [ht] at hdisp
    rcases Session.handleDataFrame_snd (Option.some.inj hdisp) with rfl | ⟨f, stream, hparse, hstream, rfl⟩
    · exact h.congr (fun _ => le_rfl) (List.Subset.refl _) rfl rfl rfl
    · exact h.consume (hok ht) (Session.length_data_lt hparse) hstream rfl rfl
        (fun id => Session.storedOn_insert _ _ _ id) rfl rfl rfl
  · -- other packets touch neither streams nor counts
    have hstreams := Session.dispatch_streams ht hdisp
    have hcounts : s.recvConsumed = (p.sess x).recvConsumed ∧
        s.pendingMaxData = (p.sess x).pendingMaxData := by
      rcases Session.dispatch_consume hdisp with hsame | ⟨f, hdata, -⟩
      · exact hsame
      · exact absurd hdata ht
    obtain ⟨_, _, _, _, _, _, _, _, rfl⟩ := Session.dispatch_eq hdisp
    refine h.congr (fun id => ?_) (List.Subset.refl _) hcounts.1 rfl hcounts.2
    exact (Nat.add_le_add_left (le_of_eq (congrArg (fun m : SortedMap Nat Stream =>
      ((m.get? id).map Stream.stored).getD 0) hstreams)) _)

/-- **Every event that meets the condition keeps both sides of flow control.** -/
theorem flow_step {P : Primitives} {c : NetworkConfig} (hP : P.Lawful) {n n' : Network}
    {ev : NetEvent} (hw : Wired P c n)
    (h : ∀ x, (n.peers.side x).Spends ∧ (n.peers.side x).Grants) (hok : n.updatesPromptly P ev)
    (hs : n.step P ev = some n') : ∀ x, (n'.peers.side x).Spends ∧ (n'.peers.side x).Grants := by
  refine step_sides hP hw hs (fun S => S.Spends ∧ S.Grants) h ?_ ?_ ?_ ?_ ?_ ?_ ?_
  · intro x call s _ hcall
    have hwindows := (h x).1.windows.appCall hcall
    have hstored := Session.appCall_storedOn_le hcall
    obtain ⟨streams, nextStreamId, pendingPing, datagrams, pendingCcAck, rfl⟩ :=
      Session.appCall_eq hcall
    exact ⟨(h x).1.congr hwindows rfl rfl rfl,
      (h x).2.congr (fun id => Nat.add_le_add_left (hstored id) _) (List.Subset.refl _) rfl rfl rfl⟩
  · intro x id data hev
    subst hev
    refine ⟨(h x).1.send hok, ?_⟩
    have hrecv := (n.peers.sess x).send_sameRecv id data
    obtain ⟨streams, sendWindow, heq⟩ := (n.peers.sess x).send_eq id data
    unfold send
    dsimp only
    rw [heq] at hrecv ⊢
    split <;>
      exact (h x).2.congr (fun id => Nat.add_le_add_left (by
        dsimp only [side, setSess]
        rw [update_self]
        exact (hrecv.storedOn_eq id).le) _) (List.Subset.refl _)
        (by simp [side, setSess]) (by simp [side, setSess])
        (by simp [side, setSess])
  · intro x id max p _ hread
    refine ⟨?_, (h x).2.read hread⟩
    obtain ⟨⟨r, s⟩, hr, rfl⟩ := map_eq_some_iff.mp hread
    have hwindows := (h x).1.windows.read hr
    obtain ⟨streams, rfl⟩ := Session.read_eq hr
    dsimp only
    split <;> exact (h x).1.congr (by simpa [side, setSess] using hwindows)
      (by simp [side, setSess]) rfl rfl
  · intro x now order q em d res _ hq hd hseal
    refine ⟨?_, hq.2.emit hP hd hseal⟩
    have hwindows := hq.1.windows.draft hd
    obtain ⟨_, _, _, _, _, _, hds⟩ := Session.draft_eq hd
    have hwin : d.sess.sendWindow = (q.sess x).sendWindow := by
      rw [hds]
    rw [side_encoded_self]
    cases res with
    | ok bytes | error e => exact hq.1.congr hwindows hwin rfl rfl
  · intro x t payload res _ _
    refine ⟨?_, (h x).2.encoded rfl rfl rfl rfl (Session.SameRecv.refl _)⟩
    rw [side_encoded_self]
    cases res with
    | ok bytes | error e => exact (h x).1.congr (h x).1.windows rfl rfl rfl
  · intro x now _
    exact ⟨(h x).1.congr (h x).1.windows rfl rfl rfl,
      (h x).2.congr (fun _ => le_rfl) (List.Subset.refl _) rfl rfl rfl⟩
  · intro x i now y p hev hy _ hacc
    subst hev
    exact ⟨(h x.peer).1.accept hacc, grants_accept (h x.peer).2 (hok y hy) hacc⟩

end Network

theorem flow_init (c : NetworkConfig) (x : Role) :
    ((init c).peers.side x).Spends ∧ ((init c).peers.side x).Grants := by
  constructor
  · refine ⟨fun id stream h => ?_, ⟨∅, Nat.zero_le _⟩, le_rfl, fun e he => ?_⟩
    · cases h
    · cases he
  · refine ⟨fun ids => ?_, le_rfl, Nat.le_add_left _ _, fun l hl => ?_, ?_, .inl rfl⟩
    · exact (Finset.sum_eq_zero fun _ _ => rfl).le
    · cases hl
    · show 0 + 8 * 2 ^ 20 ≤ defaultWindow + 0
      decide

variable {p : Peers} {x : Role}

/-- **Credit is left when everything has arrived**: the bytes written were read or are stored, and
the limit announced last has reached the sender. -/
theorem credit_of_received (hsend : (p.side x).Spends) (hgrant : (p.side x.peer).Grants)
    (hreceived : ∀ id, (p.written x id).length ≤ (p.readOut x.peer id).length + (p.sess x.peer).storedOn id)
    (hlimit : (p.sess x.peer).recvWindow.limit ≤ (p.sess x).sendWindow.limit) :
    (p.sess x).sendWindow.consumed + 2 ^ 20 ≤ (p.sess x).sendWindow.limit := by
  -- what was used has been counted by the other side
  have hused : (p.sess x).sendWindow.consumed ≤ (p.sess x.peer).recvConsumed := by
    obtain ⟨ids, hids⟩ := hsend.spent
    exact hids.trans ((Finset.sum_le_sum fun i _ => hreceived i).trans (hgrant.counted ids))
  have hroom : (p.sess x.peer).recvConsumed + 8 * 2 ^ 20
      ≤ (p.sess x.peer).recvWindow.limit + 2 ^ 16 := by
    refine hgrant.room.trans (Nat.add_le_add_left ?_ _)
    split_ifs
    · exact Nat.zero_le _
    · exact le_rfl
  omega

theorem limit_of_announced (hsend : (p.side x).Spends) {limit : Nat} (h64 : limit < 2 ^ 64)
    {e : Decoded} (he : e ∈ p.accepted x) (ht : e.1 = .maxData) (hpayload : e.2.2 = beBytes 8 limit) :
    limit ≤ (p.sess x).sendWindow.limit := by
  have hfield : beNat (e.2.2.take 8) = limit := by
    rw [hpayload, take_of_length_le (by simp), beNat_beBytes]
    exact Nat.mod_eq_of_lt h64
  rw [← hfield]
  exact hsend.obeyed e he ht (by simp [hpayload])

/-- **When everything has been read and processed, the stream window alone decides.** In a run in which
window updates are sent before further data is taken in and no credit is lost to refused writes, a
`send` of at most 1 MiB on an open stream then succeeds exactly if it fits the stream's initial window
of 16 MiB. (Byte counts do not exceed 64 bits.) -/
theorem send_ok_iff_of_quiescent {P : Primitives} (hP : P.Lawful) (c : NetworkConfig)
    {evs : List NetEvent} {n : Network}
    (hok : Meets (Network.step P) (Network.updatesPromptly P) (Network.init c) evs)
    (hrun : exec (Network.step P) (Network.init c) evs = some n) {x : Role}
    (hread : ∀ id, n.peers.readOut x.peer id = n.peers.written x id)
    (hprocessed : ∀ e ∈ n.peers.log x.peer, e.1 = .maxData → e ∈ n.peers.accepted x)
    (hbytes : (n.peers.sess x.peer).recvConsumed + defaultWindow < 2 ^ 64) {id : Nat}
    {stream : Stream} (hget : (n.peers.sess x).streams.get? id = some stream)
    (hfin : stream.finSent = false) {data : Bytes} (hlen : data.length ≤ 2 ^ 20) :
    ((n.peers.sess x).send id data).1 = .ok () ↔
      stream.sendOffset + data.length ≤ 16 * 2 ^ 20 := by
  obtain ⟨hw, hflow⟩ := Network.run_invariant hP (Network.updatesPromptly P)
    (fun p => ∀ x, (p.side x).Spends ∧ (p.side x).Grants) (flow_init c)
    (fun n ev n' hw h hok hs => Network.flow_step hP hw h hok hs) hok hrun
  have hsend := (hflow x).1
  have hgrant := (hflow x.peer).2
  -- the limit announced last has arrived
  have hlimit : (n.peers.sess x.peer).recvWindow.limit ≤ (n.peers.sess x).sendWindow.limit := by
    rcases hgrant.announced with hinit | ⟨e, he, ht, hpayload⟩
    · rw [show (n.peers.sess x.peer).recvWindow.limit = _ from hinit]
      exact hsend.floor
    · exact limit_of_announced hsend (hgrant.cap.trans_lt hbytes) (hprocessed e he ht) ht hpayload
  have hcredit : (n.peers.sess x).sendWindow.consumed + data.length
      ≤ (n.peers.sess x).sendWindow.limit := by
    refine (Nat.add_le_add_left hlen _).trans (credit_of_received hsend hgrant (fun i => ?_) hlimit)
    rw [hread i]
    exact Nat.le_add_right _ _
  have hmax := hsend.windows id stream hget
  constructor
  · intro hres
    rcases (n.peers.sess x).send_cases id data with
      ⟨e, heq, -⟩ | ⟨e, s', heq, -, -, -⟩ | ⟨stream', hget', -, hle, -, -⟩
    · rw [heq] at hres
      cases hres
    · rw [heq] at hres
      cases hres
    · rw [hget] at hget'
      cases hget'
      rw [hmax, saturatingAdd] at hle
      unfold Stream.defaultWindow at hle
      omega
  · intro hle
    have hroom' : saturatingAdd stream.sendOffset data.length ≤ stream.sendMaxData := by
      rw [hmax, saturatingAdd]
      unfold Stream.defaultWindow
      omega
    rw [Session.send_eq_ok hget hfin hroom' hcredit]

theorem Network.sampleConfig_sendable :
    Sendable sampleConfig .client 1 (replicate 1024 7) := by
  have hlen : (replicate 1024 (7 : UInt8)).length = 1024 := length_replicate
  refine ⟨ne_nil_of_length_pos (by rw [hlen]; decide), by rw [hlen]; decide, by decide,
    fun s hident hnone => ?_⟩
  have hrole : s.role = .server := congrArg Session.Ident.role hident
  have hlimits : s.limits = SessionLimits.default := congrArg Session.Ident.limits hident
  rw [Session.refuseNewStream, hrole, hlimits, hnone]
  rfl

def Network.transferOps (k : Nat) : List NetEvent :=
  .app .client (.openStream 4) :: Network.fullRounds .client 1 (List.replicate 1024 7) k

theorem Network.exec_transferOps (k : Nat) (hroom : k * 1024 ≤ defaultWindow) :
    ∃ n, exec (step checksumPrimitives) (init sampleConfig)
        (transferOps k) = some n ∧
      Wired checksumPrimitives sampleConfig n ∧ Accounted n.peers ∧
      ChunksRead checksumPrimitives sampleConfig .client 1 (replicate 1024 7) k n := by
  have hP := checksumPrimitives_lawful
  have hlen : (replicate 1024 (7 : UInt8)).length = 1024 := length_replicate
  obtain ⟨n0, hopen, h0⟩ := @chunksRead_open checksumPrimitives sampleConfig .client
    (replicate 1024 7) (by decide) 4
  have hw0 := wired_step hP wired_init hopen
  have ha0 := (Accounted.init sampleConfig).step hP wired_init hopen
  obtain ⟨n1, hrun, h1⟩ := h0.rounds hP hw0 ha0 sampleConfig_sendable k (by rw [hlen]; exact hroom)
  obtain ⟨hw1, ha1⟩ := wired_accounted hP hw0 ha0 hrun
  exact ⟨n1, by rw [transferOps, exec_cons, hopen, bind_some]; exact hrun, hw1, ha1, h1⟩

/-- After one chunk was read, a second one may be written. -/
theorem send_ok_iff_of_quiescent_one_chunk :
    ∃ n stream, exec (Network.step checksumPrimitives) (Network.init Network.sampleConfig)
        (Network.transferOps 1) = some n ∧
      (n.peers.sess .client).streams.get? 1 = some stream ∧ stream.sendOffset = 1024 ∧
      (∀ id, n.peers.readOut .server id = n.peers.written .client id) ∧
      ((n.peers.sess .client).send 1 (List.replicate 1024 7)).1 = .ok () := by
  obtain ⟨n, hrun, -, -, h⟩ := Network.exec_transferOps 1 (by decide)
  have hlen : (List.replicate 1024 (7 : UInt8)).length = 1024 := length_replicate
  obtain ⟨stream, hget, -, hfin, hoff, -⟩ := h.sent.wrote.stream
  have hconsumed := h.took.consumed
  rw [hlen] at hoff hconsumed
  have hsilent : n.peers.log Role.client.peer = [] := h.silent.1
  have hmeets : Meets (Network.step checksumPrimitives)
      (Network.updatesPromptly checksumPrimitives) (Network.init Network.sampleConfig)
      (Network.transferOps 1) := by decide +kernel
  refine ⟨n, stream, hrun, hget, hoff, h.read, ?_⟩
  refine (send_ok_iff_of_quiescent checksumPrimitives_lawful Network.sampleConfig
    hmeets hrun h.read ?_ ?_ hget hfin ?_).mpr ?_
  · rw [hsilent]
    exact fun e he => (not_mem_nil he).elim
  · rw [hconsumed]
    decide
  · rw [hlen]
    decide
  · rw [hoff, hlen]
    decide

/-- **A stream carries 16 MiB and no more.** The client writes 16384 chunks of 1024 bytes, all delivered
and read; all packets are processed, the connection grants more than 8 MiB, the stream is open, and a
`send` of a single byte is refused for good. -/
theorem stream_window_never_extended :
    ∃ n stream, exec (Network.step checksumPrimitives) (Network.init Network.sampleConfig)
        (Network.transferOps 16384 ++ Network.updateRound .client 1) = some n ∧
      Network.Quiescent .client n ∧
      (n.peers.sess .client).streams.get? 1 = some stream ∧ stream.finSent = false ∧
      (n.peers.sess .client).sendWindow.consumed + 2 ^ 23 < (n.peers.sess .client).sendWindow.limit ∧
      ((n.peers.sess .client).send 1 [0]).1 = .error (.flowControlBlocked 0 1) := by
  have hP := checksumPrimitives_lawful
  have hlen : (List.replicate 1024 (7 : UInt8)).length = 1024 := length_replicate
  obtain ⟨n1, hrun, hw, ha, h⟩ := Network.exec_transferOps 16384 (by decide)
  obtain ⟨n, hupdate, hquiet, hstreams, hconsumed, hlimit⟩ :=
    Network.ChunksRead.update (k := 16383) hP hw ha h (by decide)
      (by rw [hlen]; decide)
  obtain ⟨stream, hget, -, hfin, hoff, hmax⟩ := h.sent.wrote.stream
  have hused := h.sent.wrote.consumed
  rw [hlen] at hoff hused
  rw [← hstreams] at hget
  have hcredit : (n.peers.sess .client).sendWindow.consumed + 2 ^ 23
      < (n.peers.sess .client).sendWindow.limit := by omega
  refine ⟨n, stream, by rw [exec_append, hrun, bind_some, hupdate], hquiet, hget, hfin,
    hcredit, ?_⟩
  -- the connection admits the byte, the stream does not
  have hreserve : ¬ (n.peers.sess .client).sendWindow.limit
      < (n.peers.sess .client).sendWindow.consumed + [(0 : UInt8)].length := by
    rw [length_singleton]
    omega
  have hfull : stream.sendMaxData < saturatingAdd stream.sendOffset [(0 : UInt8)].length := by
    rw [hmax, hoff]
    decide
  have hwrite : stream.write [0] = (.error (.flowControlBlocked 0 1), stream) := by
    rw [Stream.write, hfin, if_neg Bool.false_ne_true, if_pos hfull, hmax, hoff]
    rfl
  simp only [Session.send, FlowWindow.reserve, if_neg hreserve, hget, hwrite]

end SeamProtocol
