import SeamProtocol.Network.EndOfStream

/-! # Stream slots

A session counts every stream it holds towards `max_streams`, and it never lets go of one. -/

namespace SeamProtocol

open Lib Function List Option SortedMap Session Peers

/-! ## Ids -/

def Role.firstStreamId : Role → Nat
  | .client => 1
  | .server => 2

variable (x : Role)

@[simp] theorem Role.firstStreamId_mod : x.firstStreamId % 2 = x.localParity := by
  cases x <;> rfl

theorem Role.localParity_peer : x.peer.localParity = 1 - x.localParity := by
  cases x <;> rfl

theorem Role.localParity_le : x.localParity ≤ 1 := by
  cases x <;> decide

theorem Role.firstStreamId_le : x.firstStreamId ≤ 2 := by
  cases x <;> decide

theorem streamId_of_parse_streamFrame {isFin : Bool} {id offset : Nat} {data : Bytes} {f : StreamFrame}
    (h : parseStreamFrame (streamFrame isFin id offset data) = some f) : f.streamId = id % 2 ^ 32 := by
  have h4 : ((streamFrame isFin id offset data).drop 4).take 4 = leBytes 4 id := by
    simp [streamFrame]
  unfold parseStreamFrame at h
  dsimp only at h
  split_ifs at h
  cases h
  rw [h4, leNat_leBytes]
  rfl

namespace Peers

def opened (p : Peers) (x : Role) : Nat := ((p.sess x).nextStreamId - x.firstStreamId) / 2

def openedIds (p : Peers) (x : Role) : List Nat :=
  (List.range (p.opened x)).map fun i => x.firstStreamId + 2 * i

@[simp] theorem length_openedIds (p : Peers) (x : Role) : (p.openedIds x).length = p.opened x := by
  simp [openedIds]

/-- A side numbers its streams in sequence, a session holds what it has opened itself and what the peer
has opened; frames are sent for streams that the sender holds. -/
structure Numbered (c : NetworkConfig) (p : Peers) : Prop where
  parity : ∀ x, (p.sess x).nextStreamId % 2 = x.localParity
  first : ∀ x, x.firstStreamId ≤ (p.sess x).nextStreamId
  bound : ∀ x, p.opened x ≤ (c.limits x).maxStreams
  own : ∀ x id, id % 2 = x.localParity → ((p.sess x).streams.get? id ≠ none ↔
    x.firstStreamId ≤ id ∧ id < (p.sess x).nextStreamId)
  remote : ∀ x id, id % 2 ≠ x.localParity → (p.sess x).streams.get? id ≠ none →
    (p.sess x.peer).streams.get? id ≠ none
  sent : ∀ x, ∀ e ∈ p.log x, ∀ f, frameOf e = some f → (p.sess x).streams.get? f.streamId ≠ none

namespace Numbered

variable {c : NetworkConfig} {p q : Peers}

section

variable (h : p.Numbered c)
include h

variable (x : Role)

theorem mem_openedIds (id : Nat) : id ∈ p.openedIds x ↔
    id % 2 = x.localParity ∧ x.firstStreamId ≤ id ∧ id < (p.sess x).nextStreamId := by
  have hpar := h.parity x
  have hmod := x.firstStreamId_mod
  rw [openedIds, List.mem_map]
  constructor
  · rintro ⟨i, hi, rfl⟩
    rw [List.mem_range, opened] at hi
    omega
  · rintro ⟨hid, hle, hlt⟩
    refine ⟨(id - x.firstStreamId) / 2, ?_, by omega⟩
    rw [List.mem_range, opened]
    omega

theorem keys_subset : (p.sess x).streams.keys ⊆ p.openedIds x ++ p.openedIds x.peer := by
  intro id hid
  rw [mem_keys_iff, ← ne_none_iff_exists'] at hid
  rw [mem_append, h.mem_openedIds, h.mem_openedIds]
  by_cases hpar : id % 2 = x.localParity
  · exact .inl ⟨hpar, (h.own x id hpar).mp hid⟩
  · have hpeer : id % 2 = x.peer.localParity := by
      have hle := x.localParity_le
      rw [x.localParity_peer]
      omega
    exact .inr ⟨hpeer, (h.own x.peer id hpeer).mp (h.remote x id hpar hid)⟩

theorem size_le : (p.sess x).streams.size ≤ p.opened x + p.opened x.peer := by
  have hlen := (subperm_of_subset (p.sess x).streams.nodup_keys (h.keys_subset x)).length_le
  simpa [SortedMap.keys, size] using hlen

theorem opened_le : p.opened x ≤ (p.sess x).streams.size := by
  have hsub : p.openedIds x ⊆ (p.sess x).streams.keys := by
    intro id hid
    obtain ⟨hpar, hrange⟩ := (h.mem_openedIds x id).mp hid
    rw [mem_keys_iff, ← ne_none_iff_exists']
    exact (h.own x id hpar).mpr hrange
  have hnodup : (p.openedIds x).Nodup := by
    refine List.Nodup.map (fun i j hij => ?_) nodup_range
    omega
  have hlen := (subperm_of_subset hnodup hsub).length_le
  simpa [SortedMap.keys, size] using hlen

variable {x : Role} {id : Nat}

theorem size_lt (hid : id ∈ p.openedIds x) (hnone : (p.sess x.peer).streams.get? id = none) :
    (p.sess x.peer).streams.size < p.opened x + p.opened x.peer := by
  have hsub : id :: (p.sess x.peer).streams.keys ⊆ p.openedIds x.peer ++ p.openedIds x := by
    intro j hj
    rcases mem_cons.mp hj with rfl | hj
    · exact mem_append_right _ hid
    · have hkeys := h.keys_subset x.peer hj
      rwa [Role.peer_peer] at hkeys
  have hnodup : (id :: (p.sess x.peer).streams.keys).Nodup := by
    refine nodup_cons.mpr ⟨?_, (p.sess x.peer).streams.nodup_keys⟩
    rw [mem_keys_iff, hnone]
    simp
  have hlen := (subperm_of_subset hnodup hsub).length_le
  simp only [length_cons, SortedMap.keys, length_map, length_append,
    length_openedIds] at hlen
  rw [size]
  omega

variable {z : Role} {s : Session}

theorem update (hs : q.sess = Function.update p.sess z s)
    (hkeep : ∀ id, (p.sess z).streams.get? id ≠ none → s.streams.get? id ≠ none)
    (hparity : s.nextStreamId % 2 = z.localParity) (hfirst : z.firstStreamId ≤ s.nextStreamId)
    (hbound : (s.nextStreamId - z.firstStreamId) / 2 ≤ (c.limits z).maxStreams)
    (hown : ∀ id, id % 2 = z.localParity → (s.streams.get? id ≠ none ↔ z.firstStreamId ≤ id ∧ id < s.nextStreamId))
    (hremote : ∀ id, id % 2 ≠ z.localParity → s.streams.get? id ≠ none → (p.sess z.peer).streams.get? id ≠ none)
    (hlog : ∀ x, ∀ e ∈ q.log x, e ∈ p.log x ∨ ∀ f, frameOf e = some f → (p.sess x).streams.get? f.streamId ≠ none) :
    q.Numbered c := by
  have hself : q.sess z = s := by rw [hs, update_self]
  have hother : ∀ x, x ≠ z → q.sess x = p.sess x := fun x hx => by rw [hs, update_of_ne hx]
  -- what was held before is held after
  have hheld : ∀ x id, (p.sess x).streams.get? id ≠ none → (q.sess x).streams.get? id ≠ none := by
    intro x id hid
    by_cases hx : x = z
    · subst hx
      rw [hself]
      exact hkeep id hid
    · rw [hother x hx]
      exact hid
  refine ⟨fun x => ?_, fun x => ?_, fun x => ?_, fun x id hid => ?_, fun x id hid hx => ?_,
    fun x e he f hf => ?_⟩
  · by_cases hx : x = z
    · rw [hx, hself, hparity]
    · rw [hother x hx, h.parity]
  · by_cases hx : x = z
    · rw [hx, hself]
      exact hfirst
    · rw [hother x hx]
      exact h.first x
  · by_cases hx : x = z
    · rw [hx, opened, hself]
      exact hbound
    · rw [opened, hother x hx]
      exact h.bound x
  · by_cases hx : x = z
    · subst hx
      rw [hself]
      exact hown id hid
    · rw [hother x hx]
      exact h.own x id hid
  · apply hheld
    by_cases hxz : x = z
    · subst hxz
      rw [hself] at hx
      exact hremote id hid hx
    · rw [hother x hxz] at hx
      exact h.remote x id hid hx
  · apply hheld
    exact (hlog x e he).elim (fun hold => h.sent x e hold f hf) fun hnew => hnew f hf

theorem congr_sess (hs : q.sess = Function.update p.sess z s)
    (hget : ∀ id, s.streams.get? id = none ↔ (p.sess z).streams.get? id = none)
    (hnext : s.nextStreamId = (p.sess z).nextStreamId)
    (hlog : ∀ x, ∀ e ∈ q.log x, e ∈ p.log x ∨ ∀ f, frameOf e = some f → (p.sess x).streams.get? f.streamId ≠ none) :
    q.Numbered c := by
  refine h.update hs (fun id => mt (hget id).mp) (hnext ▸ h.parity z) (hnext ▸ h.first z)
    (hnext ▸ h.bound z) (fun id hid => ?_) (fun id hid hx => ?_) hlog
  · rw [ne_eq, hget, hnext]
    exact h.own z id hid
  · exact h.remote z id hid (mt (hget id).mpr hx)

theorem openStream (hlimits : ∀ x, (c.limits x).maxStreams < 2 ^ 31 - 2)
    (hlim : (p.sess z).limits = c.limits z) (priority : Nat) :
    (p.setSess z ((p.sess z).tryOpenStreamWithPriority priority).2).Numbered c := by
  unfold tryOpenStreamWithPriority
  split_ifs with hfull
  · exact h.congr_sess rfl (fun _ => Iff.rfl) rfl fun _ _ he => .inl he
  · rw [hlim] at hfull
    have hsize := h.size_le z
    have hopened := h.opened_le z
    have hbound := h.bound z
    have hboundPeer := h.bound z.peer
    have hmax := hlimits z
    have hmaxPeer := hlimits z.peer
    have hpar := h.parity z
    have hfirst := h.first z
    have hmod := z.firstStreamId_mod
    have hle := z.firstStreamId_le
    set next := (p.sess z).nextStreamId with hnext
    have hcount : next = z.firstStreamId + 2 * p.opened z := by
      rw [opened, ← hnext]
      omega
    have hwrap : (next + 2) % 2 ^ 32 = next + 2 := Nat.mod_eq_of_lt (by omega)
    set s : Session := { p.sess z with
      nextStreamId := (next + 2) % 2 ^ 32
      streams := (p.sess z).streams.insert next { Stream.new next with priority } } with hs
    have hget : ∀ id, s.streams.get? id = none ↔ id ≠ next ∧ (p.sess z).streams.get? id = none := by
      intro id
      rw [hs, get?_insert]
      by_cases hid : id = next <;> simp [hid]
    have hsnext : s.nextStreamId = next + 2 := hwrap
    refine h.update (s := s) rfl (fun id hid => ?_) ?_ ?_ ?_ (fun id hid => ?_) (fun id hid hx => ?_)
      fun _ _ he => .inl he
    · rw [ne_eq, hget]
      exact fun hc => hid hc.2
    · omega
    · omega
    · omega
    · have hown := h.own z id hid
      rw [hsnext, ne_eq, hget, not_and_or, not_not]
      constructor
      · rintro (rfl | hheld)
        · exact ⟨hfirst, by omega⟩
        · have := hown.mp hheld
          exact ⟨this.1, by omega⟩
      · rintro ⟨hge, hlt⟩
        by_cases heq : id = next
        · exact .inl heq
        · exact .inr (hown.mpr ⟨hge, by omega⟩)
    · rw [ne_eq, hget, not_and_or, not_not] at hx
      rcases hx with rfl | hheld
      · exact absurd hpar hid
      · exact h.remote z id hid hheld

theorem deliver {f : StreamFrame} {stream : Stream} (hs : q.sess = Function.update p.sess z s)
    (hlog : q.log = p.log) (hstreams : s.streams = (p.sess z).streams.insert f.streamId stream)
    (hnext : s.nextStreamId = (p.sess z).nextStreamId)
    (hpeer : (p.sess z.peer).streams.get? f.streamId ≠ none)
    (hnew : (p.sess z).streams.get? f.streamId = none → f.streamId % 2 ≠ z.localParity) :
    q.Numbered c := by
  have hget : ∀ id, s.streams.get? id ≠ none ↔
      id = f.streamId ∨ (p.sess z).streams.get? id ≠ none := by
    intro id
    rw [hstreams, get?_insert]
    by_cases hid : id = f.streamId <;> simp [hid]
  refine h.update hs (fun id hid => (hget id).mpr (.inr hid)) (hnext ▸ h.parity z)
    (hnext ▸ h.first z) (hnext ▸ h.bound z) (fun id hid => ?_) (fun id hid hx => ?_)
    fun x e he => .inl (hlog ▸ he)
  · -- a new stream is none of the session's own
    rw [hget, hnext, ← h.own z id hid]
    refine or_iff_right_of_imp ?_
    rintro rfl hnone
    exact hnew hnone hid
  · rcases (hget id).mp hx with rfl | hx
    · exact hpeer
    · exact h.remote z id hid hx

theorem id_lt (hlimits : ∀ x, (c.limits x).maxStreams < 2 ^ 31 - 2)
    (hid : (p.sess x).streams.get? id ≠ none) : id < 2 ^ 32 := by
  have hsmall : ∀ y, (p.sess y).nextStreamId < 2 ^ 32 := by
    intro y
    have hle := y.firstStreamId_le
    have hmax := hlimits y
    have hbound := h.bound y
    rw [opened] at hbound
    omega
  by_cases hpar : id % 2 = x.localParity
  · exact ((h.own x id hpar).mp hid).2.trans (hsmall x)
  · have hpeer : id % 2 = x.peer.localParity := by
      have hle := x.localParity_le
      rw [x.localParity_peer]
      omega
    exact ((h.own x.peer id hpeer).mp (h.remote x id hpar hid)).2.trans (hsmall x.peer)

variable {now : Nat}

/-- **A packet of a flush.** Data packets carry frames of held streams. -/
theorem encoded (hlimits : ∀ x, (c.limits x).maxStreams < 2 ^ 31 - 2) {em : Emission} {d : Draft}
    (res : Except SeamError Bytes) (hd : (p.sess z).draft now em = some d) :
    (p.encoded z d res now).Numbered c := by
  obtain ⟨s, hs, hstreams, hnext⟩ := p.encoded_sess z d res now
  have hsame := draft_sameRecv hd
  have hdnext : d.sess.nextStreamId = (p.sess z).nextStreamId := by
    obtain ⟨_, _, _, _, _, _, hds⟩ := draft_eq hd
    rw [hds]
  refine h.congr_sess hs (fun id => ?_) (hnext.trans hdnext) fun x e he => ?_
  · rw [hstreams]
    exact hsame.get?_eq_none_iff id
  · by_cases hx : x = z
    · subst hx
      have hmem : e ∈ p.log x ++ [(d.pktType, d.sess.encoder.nextPktNum, d.payload)] := by
        simpa [Peers.encoded] using he
      rcases mem_append.mp hmem with hold | hnew
      · exact .inl hold
      · right
        intro f hf
        rw [mem_singleton.mp hnew, frameOf] at hf
        split_ifs at hf with htype
        have hframe : ∀ {id : Nat} {stream : Stream} {isFin : Bool} {offset : Nat} {data : Bytes},
            (p.sess x).streams.get? id = some stream →
            parseStreamFrame (streamFrame isFin id offset data) = some f →
            (p.sess x).streams.get? f.streamId ≠ none := by
          intro id stream isFin offset data hget hparse
          have hheld : (p.sess x).streams.get? id ≠ none := by simp [hget]
          rw [streamId_of_parse_streamFrame hparse, Nat.mod_eq_of_lt (h.id_lt hlimits hheld)]
          exact hheld
        rcases draft_shape hd with ⟨id, stream, seg, stream', -, hget, -, rfl⟩ |
          ⟨id, stream, -, hget, -, rfl⟩ | ⟨-, -, hother, -⟩
        · exact hframe hget hf
        · exact hframe hget hf
        · rw [show d.pktType = .data from htype] at hother
          simp at hother
    · left
      simpa [Peers.encoded, hx] using he

theorem accept {y : Decoded} (hrole : (p.sess z).role = z) (hmem : y ∈ p.log z.peer)
    (hacc : p.accept z y now = some q) : q.Numbered c := by
  obtain ⟨⟨res, s⟩, hdisp, rfl⟩ := map_eq_some_iff.mp hacc
  have hnext : s.nextStreamId = (p.sess z).nextStreamId := by
    obtain ⟨_, _, _, _, _, _, _, _, rfl⟩ := dispatch_eq hdisp
    rfl
  by_cases htype : y.1 = .data
  · rw [htype] at hdisp
    have hs : s = (((p.sess z).noted y now).handleDataFrame y.2.2).2 :=
      (congrArg Prod.snd (Option.some.inj hdisp)).symm
    rcases ((p.sess z).noted y now).handleDataFrame_cases y.2.2 with
      ⟨-, heq⟩ | ⟨f, e, -, -, -, heq⟩ | ⟨f, hparse, hadmit, heq⟩
    · rw [heq] at hs
      subst hs
      exact h.congr_sess rfl (fun _ => Iff.rfl) hnext fun _ _ he => .inl he
    · rw [heq] at hs
      subst hs
      exact h.congr_sess rfl (fun _ => Iff.rfl) hnext fun _ _ he => .inl he
    · have hframe : frameOf y = some f := by rw [frameOf, if_pos htype, hparse]
      have hstreams : ∃ stream, s.streams = (p.sess z).streams.insert f.streamId stream := by
        rw [hs, heq]
        unfold deliverFrame
        dsimp only
        split <;> exact ⟨_, rfl⟩
      obtain ⟨stream, hstreams⟩ := hstreams
      refine h.deliver rfl rfl hstreams hnext (h.sent z.peer y hmem f hframe) ?_
      intro hnone hpar
      have hrefuse := hadmit hnone
      rw [refuseNewStream, if_pos] at hrefuse
      · cases hrefuse
      · show f.streamId % 2 = (p.sess z).role.localParity
        rw [hrole]
        exact hpar
  · refine h.congr_sess rfl (fun id => ?_) hnext fun _ _ he => .inl he
    rw [dispatch_streams htype hdisp]
    rfl

end

theorem appCall_of_ne {s s' : Session} {call : AppCall} (hne : ∀ priority, call ≠ .openStream priority)
    (hcall : s.appCall call = some s') :
    (∀ id, s'.streams.get? id = none ↔ s.streams.get? id = none) ∧
      s'.nextStreamId = s.nextStreamId := by
  rcases appCall_cases hcall with ⟨p, hp, -⟩ | ⟨id, stream, -, hget, rfl⟩ | ⟨_, _, _, rfl⟩
  · exact absurd hp (hne p)
  · exact ⟨(appCall_sameRecv hne hcall).get?_eq_none_iff, rfl⟩
  · exact ⟨fun _ => Iff.rfl, rfl⟩

end Numbered

end Peers

namespace Network

theorem numbered_init (c : NetworkConfig) : (init c).peers.Numbered c := by
  have hnext : ∀ x : Role, ((init c).peers.sess x).nextStreamId = x.firstStreamId := by
    intro x
    cases x <;> rfl
  have hnone : ∀ (x : Role) (id : Nat), ((init c).peers.sess x).streams.get? id = none :=
    fun _ _ => rfl
  refine ⟨fun x => ?_, fun x => ?_, fun x => ?_, fun x id _ => ?_, fun x id _ hx => ?_,
    fun x e he => (not_mem_nil he).elim⟩
  · rw [hnext, x.firstStreamId_mod]
  · rw [hnext]
  · simp [opened, hnext]
  · rw [hnone, hnext]
    simp
  · exact absurd (hnone x id) hx

variable {P : Primitives} {c : NetworkConfig} {n : Network}

theorem numbered_step (hP : P.Lawful) (hlimits : ∀ x, (c.limits x).maxStreams < 2 ^ 31 - 2)
    {n' : Network} {ev : NetEvent} (hw : Wired P c n) (h : n.peers.Numbered c)
    (hs : n.step P ev = some n') : n'.peers.Numbered c := by
  have hlim : ∀ x, (n.peers.sess x).limits = c.limits x :=
    fun x => congrArg Session.Ident.limits (hw.tracked.ident x)
  have hrole : ∀ x, (n.peers.sess x).role = x :=
    fun x => congrArg Session.Ident.role (hw.tracked.ident x)
  refine step_peers hP hw hs (Peers.Numbered c) h ?_ ?_ ?_ ?_ ?_ ?_ ?_
  · intro x call s _ hcall
    by_cases hopen : ∃ priority, call = .openStream priority
    · obtain ⟨priority, rfl⟩ := hopen
      cases hcall
      exact h.openStream hlimits (hlim x) priority
    · obtain ⟨hget, hnext⟩ := Peers.Numbered.appCall_of_ne (fun priority he => hopen ⟨priority, he⟩) hcall
      exact h.congr_sess rfl hget hnext fun _ _ he => .inl he
  · intro x id data _
    have hsame := (n.peers.sess x).send_sameRecv id data
    obtain ⟨streams, sendWindow, heq⟩ := (n.peers.sess x).send_eq id data
    have hnext : ((n.peers.sess x).send id data).2.nextStreamId = (n.peers.sess x).nextStreamId := by
      rw [heq]
    obtain ⟨hsess, hlog, -⟩ := n.peers.send_frame x id data
    exact h.congr_sess hsess hsame.get?_eq_none_iff hnext fun z e he => .inl (hlog ▸ he)
  · intro x id max p _ hread
    obtain ⟨⟨r, s⟩, hr, rfl⟩ := map_eq_some_iff.mp hread
    have hget : ∀ id', s.streams.get? id' = none ↔ (n.peers.sess x).streams.get? id' = none := by
      intro id'
      rcases read_cases hr with ⟨-, -, rfl⟩ | ⟨stream, bytes, stream', hheld, -, -, rfl⟩
      · rfl
      · rw [get?_insert]
        by_cases hid : id' = id
        · simp [hid, hheld]
        · simp [hid]
    obtain ⟨streams, rfl⟩ := read_eq hr
    dsimp only
    split <;> exact h.congr_sess rfl hget rfl fun _ _ he => .inl he
  · intro x now order q em d res _ hq hd _
    exact hq.encoded hlimits res hd
  · intro x t payload res _ ht
    obtain ⟨s, hsess, hstreams, hnext⟩ :=
      n.peers.encoded_sess x (n.peers.rawDraft x t payload) res 0
    refine h.congr_sess hsess (fun id => by rw [hstreams]; rfl) (by rw [hnext]; rfl) ?_
    intro z e he
    by_cases hz : z = x
    · subst hz
      have hmem : e ∈ n.peers.log z ++ [(t, (n.peers.sess z).encoder.nextPktNum, payload)] := by
        simpa [encoded, rawDraft] using he
      rcases mem_append.mp hmem with hold | hnew
      · exact .inl hold
      · right
        intro f hf
        rw [mem_singleton.mp hnew, frameOf] at hf
        split_ifs at hf with htype
        dsimp only at htype
        rw [htype] at ht
        cases ht
    · left
      simpa [encoded, hz] using he
  · intro x now _
    exact h.congr_sess rfl (fun _ => Iff.rfl) rfl fun _ _ he => .inl he
  · intro x i now y p _ _ hlog _ hacc
    exact h.accept (hrole x.peer) (by rw [Role.peer_peer]; exact hlog) hacc

theorem numbered_run (hP : P.Lawful) (hlimits : ∀ x, (c.limits x).maxStreams < 2 ^ 31 - 2)
    {evs : List NetEvent} (hrun : exec (step P) (init c) evs = some n) :
    n.Wired P c ∧ n.peers.Numbered c :=
  exec_invariant (fun n => n.Wired P c ∧ n.peers.Numbered c)
    (fun _ _ _ hn hs => ⟨wired_step hP hn.1 hs, numbered_step hP hlimits hn.1 hn.2 hs⟩)
    ⟨wired_init, numbered_init c⟩ hrun

end Network

/-! ## The limit -/

namespace Session

/-- A stream is finished in both directions: the FIN is sent, nothing is in flight, and the peer's bytes
are read up to its FIN. -/
def drained (s : Session) (stream : Stream) : Bool :=
  stream.finFlushed && stream.sendBuf.isEmpty && s.arq.inFlight.entries.isEmpty &&
    stream.isRecvFinished && stream.recvBuf.entries.isEmpty

def liveStreams (s : Session) : Nat := s.streams.entries.countP fun e => !s.drained e.2

def CountsLive (s : Session) : Prop :=
  s.limits.maxStreams ≤ s.streams.size % 2 ^ 32 → s.limits.maxStreams ≤ s.liveStreams

instance (s : Session) : Decidable s.CountsLive := inferInstanceAs (Decidable (_ → _))

end Session

/-- **Streams below the limit.** In every run: if fewer streams have been opened by both sides than a
side's limit, that side opens the next one and no finished stream counts; and if not more than the
peer's limit, the peer takes the first frame of a stream that is new to it. -/
theorem streams_open_below_limit {P : Primitives} (hP : P.Lawful) (c : NetworkConfig)
    (hlimits : ∀ x, (c.limits x).maxStreams < 2 ^ 31 - 2) {evs : List NetEvent} {n : Network}
    (hrun : exec (Network.step P) (Network.init c) evs = some n) (x : Role) :
    (n.peers.opened x + n.peers.opened x.peer < (c.limits x).maxStreams →
      (∀ priority, ∃ s, (n.peers.sess x).tryOpenStreamWithPriority priority
        = (some (n.peers.sess x).nextStreamId, s)) ∧ (n.peers.sess x).CountsLive) ∧
    (n.peers.opened x + n.peers.opened x.peer ≤ (c.limits x.peer).maxStreams →
      ∀ id ∈ n.peers.openedIds x, (n.peers.sess x.peer).streams.get? id = none →
      ∀ data : Bytes, data.length ≤ maxPayload → ∃ events s,
        (n.peers.sess x.peer).handleDataFrame (streamFrame false id 0 data) = (.ok events, s) ∧
        .newStream id ∈ events) := by
  obtain ⟨hw, h⟩ := Network.numbered_run hP hlimits hrun
  have hlim : ∀ y, (n.peers.sess y).limits = c.limits y :=
    fun y => congrArg Session.Ident.limits (hw.tracked.ident y)
  constructor
  · intro hbelow
    have hfull : ¬ (c.limits x).maxStreams ≤ (n.peers.sess x).streams.size % 2 ^ 32 := by
      have hsize := h.size_le x
      omega
    constructor
    · intro priority
      rw [Session.tryOpenStreamWithPriority, hlim, if_neg hfull]
      exact ⟨_, rfl⟩
    · intro hreached
      rw [hlim] at hreached
      exact absurd hreached hfull
  · intro hbelow id hid hnone data hlen
    obtain ⟨hpar, hrange⟩ := (h.mem_openedIds x id).mp hid
    have hheld := (h.own x id hpar).mpr hrange
    have hparse : parseStreamFrame (streamFrame false id 0 data) = some ⟨id, 0, data, false⟩ :=
      parseStreamFrame_streamFrame (h.id_lt hlimits hheld) (by decide)
        (hlen.trans_lt (by decide))
    have hrefuse : (n.peers.sess x.peer).refuseNewStream id = none := by
      have hrole : (n.peers.sess x.peer).role = x.peer :=
        congrArg Session.Ident.role (hw.tracked.ident x.peer)
      have hsize := h.size_lt hid hnone
      have hparity : id % 2 ≠ x.peer.localParity := by
        rw [x.localParity_peer]
        omega
      rw [Session.refuseNewStream, hrole, hlim, if_neg hparity, if_neg (by omega)]
    have hok : (((n.peers.sess x.peer).streamFor id).receive 0 data false).1 = .ok () := by
      rw [Session.streamFor, hnone]
      refine (Stream.receive_of_le false fun _ => ⟨?_, ?_⟩).1
      · show 0 + data.length ≤ Stream.defaultWindow
        exact (Nat.zero_add _).le.trans (hlen.trans (by decide))
      · exact (Nat.zero_add _).le.trans_lt (hlen.trans_lt (by decide))
    rw [Session.handleDataFrame, hparse]
    dsimp only
    rw [hnone, hrefuse]
    dsimp only
    rw [deliverFrame_of_ok hok]
    exact ⟨_, _, rfl, by simp [Session.frameEvents]⟩

/-- **Slots are used up for good.** In every run, a side that has opened as many streams as its limit
allows opens no other, whatever has become of them. -/
theorem opened_limit_is_final {P : Primitives} (hP : P.Lawful) (c : NetworkConfig)
    (hlimits : ∀ x, (c.limits x).maxStreams < 2 ^ 31 - 2) {evs : List NetEvent} {n : Network}
    (hrun : exec (Network.step P) (Network.init c) evs = some n) {x : Role}
    (hopened : (c.limits x).maxStreams ≤ n.peers.opened x) (priority : Nat) :
    ((n.peers.sess x).tryOpenStreamWithPriority priority).1 = none := by
  obtain ⟨hw, h⟩ := Network.numbered_run hP hlimits hrun
  have hlim : (n.peers.sess x).limits = c.limits x :=
    congrArg Session.Ident.limits (hw.tracked.ident x)
  have hle := h.opened_le x
  have hsize := h.size_le x
  have hbound := h.bound x
  have hboundPeer := h.bound x.peer
  have hmax := hlimits x
  have hmaxPeer := hlimits x.peer
  rw [tryOpenStreamWithPriority, hlim, if_pos]
  omega

def oneStreamOps : List NetEvent :=
  [.app .client (.openStream 4), .send .client 1 [7], .app .client (.finish 1), .flush .client 0 [1],
    .deliver .client 0 0, .deliver .client 1 0, .read .server 1 64,
    .send .server 1 [8], .app .server (.finish 1), .flush .server 0 [1],
    .deliver .server 0 0, .deliver .server 1 0, .deliver .server 2 0, .read .client 1 64,
    .flush .client 0 [1], .deliver .client 2 0]

/-- After one stream the client opens another. -/
theorem streams_open_below_limit_second :
    ∃ n s, exec (Network.step checksumPrimitives) (Network.init Network.sampleConfig) oneStreamOps
        = some n ∧
      (n.peers.sess .client).tryOpenStreamWithPriority 4 = (some 3, s) := by
  obtain ⟨n, hn, hbelow, hnext⟩ : ∃ n, exec (Network.step checksumPrimitives)
      (Network.init Network.sampleConfig) oneStreamOps = some n ∧
      n.peers.opened .client + n.peers.opened .server < 1024 ∧
      (n.peers.sess .client).nextStreamId = 3 := by
    decide +kernel
  have hlimits : ∀ x, (Network.sampleConfig.limits x).maxStreams < 2 ^ 31 - 2 :=
    fun _ => show 1024 < 2 ^ 31 - 2 by decide
  obtain ⟨s, hs⟩ := ((streams_open_below_limit checksumPrimitives_lawful Network.sampleConfig hlimits
    hn .client).1 hbelow).1 4
  rw [hnext] at hs
  exact ⟨n, s, hn, hs⟩

def oneStreamConfig : NetworkConfig :=
  { Network.sampleConfig with limits := fun _ => { SessionLimits.default with maxStreams := 1 } }

/-- **A finished stream keeps its slot.** With a limit of one stream, after it has been written,
finished, acknowledged and read in both directions, the client cannot open another, and the server would
refuse it; and so after 1024 streams with the default limit. -/
theorem finished_stream_keeps_slot :
    ∃ n, exec (Network.step checksumPrimitives) (Network.init oneStreamConfig) oneStreamOps = some n ∧
      (∀ x, (n.peers.sess x).liveStreams = 0 ∧ ¬ (n.peers.sess x).CountsLive) ∧
      ((n.peers.sess .client).tryOpenStreamWithPriority 4).1 = none ∧
      ((n.peers.sess .server).refuseNewStream 3).isSome = true ∧
      ∀ evs n, exec (Network.step checksumPrimitives) (Network.init Network.sampleConfig) evs = some n →
        n.peers.opened .client = 1024 →
        ((n.peers.sess .client).tryOpenStreamWithPriority 4).1 = none := by
  obtain ⟨n, hn, hclient, hserver, hopen, hrefuse⟩ : ∃ n, exec (Network.step checksumPrimitives)
      (Network.init oneStreamConfig) oneStreamOps = some n ∧
      ((n.peers.sess .client).liveStreams = 0 ∧ ¬ (n.peers.sess .client).CountsLive) ∧
      ((n.peers.sess .server).liveStreams = 0 ∧ ¬ (n.peers.sess .server).CountsLive) ∧
      ((n.peers.sess .client).tryOpenStreamWithPriority 4).1 = none ∧
      ((n.peers.sess .server).refuseNewStream 3).isSome = true := by
    decide +kernel
  refine ⟨n, hn, ?_, hopen, hrefuse, ?_⟩
  · intro x
    cases x
    · exact hclient
    · exact hserver
  · intro evs n' hn' hopened
    exact opened_limit_is_final checksumPrimitives_lawful Network.sampleConfig
      (fun _ => show 1024 < 2 ^ 31 - 2 by decide) hn' hopened.ge 4

end SeamProtocol
