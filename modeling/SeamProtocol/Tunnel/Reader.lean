import SeamProtocol.Tunnel.Mux

/-! # The receiving side of a multiplexed stream

The session stores frames and gives events, the event loop reads and fills the data channel, the
application empties it. -/

namespace SeamProtocol

open Lib List Option SortedMap Session

/-! ## Events of one stream -/

inductive Phase where
  | absent
  | live
  | ended
  deriving DecidableEq

/-- What an event does to the data channel of stream `id`; `none` if it comes at the wrong time. -/
def Phase.on (id : Nat) (ph : Phase) : SessionEvent → Option Phase
  | .newStream i => if i ≠ id then some ph else if ph = .absent then some .live else none
  | .dataAvailable i => if i ≠ id then some ph else if ph = .absent then none else some ph
  | .streamFinished i => if i ≠ id then some ph else if ph = .absent then none else some .ended
  | _ => some ph

def phaseOf : Option MuxStream → Phase
  | none => .absent
  | some m => if m.dataTx then .live else .ended

variable {id : Nat} {ev : SessionEvent}

open Phase

theorem Phase.on_of_ne (h : ev.streamId? ≠ some id) (ph : Phase) : on id ph ev = some ph := by
  cases ev with
  | newStream i | dataAvailable i | streamFinished i =>
    have hne : i ≠ id := fun heq => h (by rw [heq]; rfl)
    simp [on, hne]
  | _ => rfl

variable {q : List SessionEvent}

def eventsOn (id : Nat) (q : List SessionEvent) : List SessionEvent :=
  q.filter fun ev => ev.streamId? = some id

theorem mem_eventsOn (h : ev.streamId? = some id) : ev ∈ eventsOn id q ↔ ev ∈ q := by
  simp [eventsOn, h]

theorem eventsOn_eq_nil (h : ∀ ev ∈ q, ev.streamId? ≠ some id) : eventsOn id q = [] := by
  simpa [eventsOn] using h

theorem Phase.exec_eventsOn (ph : Phase) :
    exec (on id) ph (eventsOn id q) = exec (on id) ph q := by
  induction q generalizing ph with
  | nil => rfl
  | cons ev q ih =>
    by_cases hev : ev.streamId? = some id
    · rw [eventsOn, filter_cons_of_pos (by simpa using hev), exec_cons, exec_cons]
      exact congrArg (Option.bind _) (funext fun ph' => ih ph')
    · rw [eventsOn, filter_cons_of_neg (by simpa using hev), exec_cons, on_of_ne hev]
      exact ih ph

variable {ph ph' : Phase}

theorem Phase.on_ne_absent (hne : ph ≠ .absent) (h : on id ph ev = some ph') : ph' ≠ .absent := by
  unfold on at h
  split at h <;> (try split_ifs at h) <;> cases h <;> first | exact hne | decide

theorem Phase.exec_ne_absent (hne : ph ≠ .absent) (h : exec (on id) ph q = some ph') :
    ph' ≠ .absent :=
  exec_invariant (· ≠ .absent) (fun _ _ _ hne hon => on_ne_absent hne hon) hne h

theorem phaseOf_eq_absent_iff {o : Option MuxStream} : phaseOf o = .absent ↔ o = none := by
  cases o with
  | none => simp [phaseOf]
  | some m => cases h : m.dataTx <;> simp [phaseOf, h]

theorem Phase.eventsOn_of_exec_absent (h : exec (on id) .absent q = some .absent) :
    eventsOn id q = [] := by
  rw [← exec_eventsOn] at h
  cases hq : eventsOn id q with
  | nil => rfl
  | cons ev rest =>
    -- the first event about the stream would have to create the channel
    have hmem : ev ∈ eventsOn id q := hq ▸ mem_cons_self
    have hid : ev.streamId? = some id := by simpa using (mem_filter.mp hmem).2
    rw [hq] at h
    obtain ⟨ph, hon, hrest⟩ := bind_eq_some_iff.mp h
    have hne : ph ≠ .absent := by
      cases ev with
      | newStream i | dataAvailable i | streamFinished i =>
        cases hid
        cases ph <;> simp [on] at hon ⊢
      | _ => cases hid
    exact absurd rfl (exec_ne_absent hne hrest)

/-- The first announcement of the end of stream `id`, if any, comes after one of data. -/
def AfterData (id : Nat) : List SessionEvent → Prop
  | [] => True
  | ev :: q => ev ≠ .streamFinished id ∧ (ev = .dataAvailable id ∨ AfterData id q)

theorem AfterData.of_not_mem (h : .streamFinished id ∉ q) : AfterData id q := by
  induction q with
  | nil => trivial
  | cons ev q ih =>
    exact ⟨fun heq => h (heq ▸ mem_cons_self),
      .inr (ih fun hmem => h (mem_cons_of_mem _ hmem))⟩

theorem AfterData.append {q' : List SessionEvent} (h : AfterData id q) (h' : AfterData id q') :
    AfterData id (q ++ q') := by
  induction q with
  | nil => exact h'
  | cons ev q ih => exact ⟨h.1, h.2.imp_right ih⟩

theorem AfterData.eventsOn_iff : AfterData id (eventsOn id q) ↔ AfterData id q := by
  induction q with
  | nil => rfl
  | cons ev q ih =>
    by_cases hev : ev.streamId? = some id
    · rw [eventsOn, filter_cons_of_pos (by simpa using hev), AfterData, AfterData]
      exact and_congr_right fun _ => or_congr_right ih
    · have hfin : ev ≠ .streamFinished id := fun heq => hev (heq ▸ rfl)
      have hdata : ev ≠ .dataAvailable id := fun heq => hev (heq ▸ rfl)
      rw [eventsOn, filter_cons_of_neg (by simpa using hev)]
      exact ih.trans (by simp [AfterData, hfin, hdata])

theorem AfterData.frameEvents (id : Nat) (isNew finished : Bool) (id' : Nat) :
    AfterData id (Session.frameEvents isNew finished id') := by
  by_cases hid : id' = id
  · subst hid
    cases isNew <;> simp [Session.frameEvents, AfterData]
  · refine AfterData.of_not_mem fun hmem => hid ?_
    exact (streamFinished_mem_frameEvents.mp hmem).1.symm

theorem Phase.exec_frameEvents (id : Nat) (isNew finished : Bool)
    (hnew : isNew = true ↔ ph = .absent) :
    ∃ ph', exec (on id) ph (frameEvents isNew finished id) = some ph' ∧
      ph' ≠ .absent := by
  cases isNew <;> cases finished <;> cases ph <;>
    simp [frameEvents, exec, on] at hnew ⊢

/-! ## Reading everything -/

namespace Stream

def Drained (s : Stream) : Prop := ∀ e ∈ s.recvBuf.entries, s.recvOffset < e.1

instance (s : Stream) : Decidable s.Drained :=
  inferInstanceAs (Decidable (∀ e ∈ s.recvBuf.entries, s.recvOffset < e.1))

/-- A read of `max` bytes takes all that can be read, and stops inside no segment. -/
def ReadsAll (s : Stream) (max : Nat) : Prop :=
  s.cutsSegment max = false ∧ ∀ r ∈ s.read max, r.2.Drained

instance (s : Stream) (max : Nat) : Decidable (s.ReadsAll max) :=
  inferInstanceAs (Decidable (s.cutsSegment max = false ∧ ∀ r ∈ s.read max, r.2.Drained))

variable {s : Stream}

theorem Drained.le_recvOffset {w : Bytes} {n : Nat} {segs : List (Nat × Bytes)} (h : s.Drained)
    (ht : Tiles w n segs) (hall : s.Holds segs) : n ≤ s.recvOffset := by
  by_contra hlt
  obtain ⟨f, hf, hlo, hhi⟩ := ht.cover s.recvOffset (Nat.lt_of_not_le hlt)
  rcases hall f hf with hnil | hpast | ⟨d, hd, -⟩
  · rw [hnil, length_nil] at hhi
    omega
  · omega
  · have hgap := h (f.1, d) ((mem_entries_iff _ _ _).mpr hd)
    omega

variable {s' : Stream}

theorem Drained.of_recvSide (h : s.Drained) (hrecv : s'.recvSide = s.recvSide) : s'.Drained := by
  unfold Drained
  rw [show s'.recvOffset = _ from congrArg RecvSide.recvOffset hrecv,
    show s'.recvBuf = _ from congrArg RecvSide.recvBuf hrecv]
  exact h

end Stream

theorem Channel.holds_receive {snd rcv : Stream} {w out : Bytes} {frames : List StreamFrame}
    (h : Channel snd rcv w out frames) {f : StreamFrame} (hf : f ∈ frames)
    {acc : List (Nat × Bytes)} (hacc : rcv.Holds acc) :
    (rcv.receive f.offset f.data f.isFin).2.Holds ((f.offset, f.data) :: acc) := by
  refine hacc.receive f.isFin (fun _ => h.frame_fits hf) fun hne d hd => ?_
  obtain ⟨hmem, hdne, -⟩ := h.receiving.stored f.offset d hd
  cases hfin : f.isFin with
  | true => exact absurd (h.ends f hf hfin).1 hne
  | false =>
    have heq := h.sending.tiles.eq_of_offset_eq hmem (mem_segments hf hfin) hdne hne
    rw [heq]

/-! ## One side of the tunnel -/

structure TunnelSide where
  sess : Session
  accepted : List Decoded
  written : Nat → Bytes
  readOut : Nat → Bytes
  events : List SessionEvent
  mux : Mux
  put : Nat → Bytes
  got : Nat → Bytes
  eof : Nat → Bool

def TunnelSide.queue (R : TunnelSide) : List SessionEvent := R.events.drop R.mux.handled

def Tunnel.side (t : Tunnel) (x : Role) : TunnelSide :=
  ⟨t.net.peers.sess x, t.net.peers.accepted x, t.net.peers.written x, t.net.peers.readOut x,
    t.net.peers.events x, t.mux x, t.put x, t.got x, t.eof x⟩

def unread : Option MuxStream → Bytes
  | none => []
  | some m => m.readBuf ++ m.dataRx.flatten

structure Delivers (S R : TunnelSide) (id : Nat) : Prop where
  handled : R.mux.handled ≤ R.events.length
  read : R.readOut id = R.got id ++ unread (R.mux.streams id)
  /-- The events to come suit the data channel, and leave one exactly if there is a stream. -/
  phase : ∃ last, exec (Phase.on id) (phaseOf (R.mux.streams id)) R.queue = some last ∧
    (last = .absent ↔ R.sess.streams.get? id = none)
  held : (R.sess.streamFor id).Holds (segments (framesOn id R.accepted))
  ending : .streamFinished id ∈ R.events → (S.sess.streamFor id).finSent = true ∧
    ∃ segs, Tiles (S.written id) (S.written id).length segs ∧ (R.sess.streamFor id).Holds segs
  available : .dataAvailable id ∈ R.queue ∨ (R.sess.streamFor id).Drained
  finished : .streamFinished id ∈ R.queue →
    AfterData id R.queue ∨ R.readOut id = S.written id
  ended : phaseOf (R.mux.streams id) = .ended →
    .streamFinished id ∈ R.events ∧ R.readOut id = S.written id
  eof : R.eof id = true → phaseOf (R.mux.streams id) = .ended ∧ unread (R.mux.streams id) = []

/-- The receiving side of stream `id` has not moved, but for what the reader has taken out of the data
channel. -/
structure SameReading (R R' : TunnelSide) (id : Nat) : Prop where
  recv : (R'.sess.streamFor id).recvSide = (R.sess.streamFor id).recvSide
  known : R'.sess.streams.get? id = none ↔ R.sess.streams.get? id = none
  frames : framesOn id R'.accepted = framesOn id R.accepted
  handled : R.mux.handled ≤ R.events.length → R'.mux.handled ≤ R'.events.length
  events : eventsOn id R'.events = eventsOn id R.events
  queue : eventsOn id R'.queue = eventsOn id R.queue
  readOut : R'.readOut id = R.readOut id
  phase : phaseOf (R'.mux.streams id) = phaseOf (R.mux.streams id)
  got : R'.got id ++ unread (R'.mux.streams id) = R.got id ++ unread (R.mux.streams id)

namespace Delivers

variable {S S' R R' : TunnelSide} {id : Nat}

theorem of_sender (h : Delivers S R id)
    (hsnd : (S.sess.streamFor id).finSent = true →
      (S'.sess.streamFor id).finSent = true ∧ S'.written id = S.written id) : Delivers S' R id := by
  have hfinal : .streamFinished id ∈ R.events →
      (S'.sess.streamFor id).finSent = true ∧ S'.written id = S.written id :=
    fun hmem => hsnd (h.ending hmem).1
  refine ⟨h.handled, h.read, h.phase, h.held, fun hmem => ?_, h.available, fun hmem => ?_,
    fun hended => ?_, h.eof⟩
  · obtain ⟨hfin, hw⟩ := hfinal hmem
    rw [hw]
    exact ⟨hfin, (h.ending hmem).2⟩
  · rw [(hfinal (mem_of_mem_drop hmem)).2]
    exact h.finished hmem
  · obtain ⟨hmem, hread⟩ := h.ended hended
    rw [(hfinal hmem).2]
    exact ⟨hmem, hread⟩

theorem congr (h : Delivers S R id) (hs : SameReading R R' id) (heof : R'.eof id = true →
      phaseOf (R'.mux.streams id) = .ended ∧ unread (R'.mux.streams id) = []) : Delivers S R' id := by
  have hevents : .streamFinished id ∈ R'.events ↔ .streamFinished id ∈ R.events := by
    rw [← mem_eventsOn rfl, hs.events, mem_eventsOn rfl]
  have hqueue : ∀ ev : SessionEvent, ev.streamId? = some id → (ev ∈ R'.queue ↔ ev ∈ R.queue) := by
    intro ev hev
    rw [← mem_eventsOn hev, hs.queue, mem_eventsOn hev]
  refine ⟨hs.handled h.handled, ?_, ?_, ?_, fun hmem => ?_, ?_, fun hmem => ?_, fun hended => ?_, heof⟩
  · rw [hs.readOut, h.read, hs.got]
  · obtain ⟨last, hexec, hlast⟩ := h.phase
    refine ⟨last, ?_, hlast.trans hs.known.symm⟩
    rw [← exec_eventsOn, hs.queue, exec_eventsOn, hs.phase, hexec]
  · rw [hs.frames]
    exact h.held.of_recvSide hs.recv
  · obtain ⟨hfin, segs, ht, hall⟩ := h.ending (hevents.mp hmem)
    exact ⟨hfin, segs, ht, hall.of_recvSide hs.recv⟩
  · rw [hqueue _ rfl]
    exact h.available.imp_right fun hdrained => hdrained.of_recvSide hs.recv
  · rw [← AfterData.eventsOn_iff, hs.queue, AfterData.eventsOn_iff, hs.readOut]
    exact h.finished ((hqueue _ rfl).mp hmem)
  · rw [hs.phase] at hended
    rw [hevents, hs.readOut]
    exact h.ended hended

variable {frames : List StreamFrame} {rcv' : Stream}

open TunnelSide

theorem received (h : Delivers S R id) {f : StreamFrame}
    (hch : Channel (S.sess.streamFor id) (R.sess.streamFor id) (S.written id) (R.readOut id) frames)
    (hf : f ∈ frames) (hlast : f.isFin = true → (R.sess.streamFor id).Holds (segments frames))
    (hrcv' : rcv' = ((R.sess.streamFor id).receive f.offset f.data f.isFin).2)
    (hstreams : R'.sess.streams = R.sess.streams.insert id rcv')
    (hacc : framesOn id R'.accepted = f :: framesOn id R.accepted)
    (hevents : R'.events = R.events ++ frameEvents (R.sess.streams.get? id).isNone (f.isFin || rcv'.isRecvFinished) id)
    (hmux : R'.mux = R.mux) (hreadOut : R'.readOut id = R.readOut id) (hgot : R'.got id = R.got id)
    (heof : R'.eof id = R.eof id) : Delivers S R' id := by
  set evs := frameEvents (R.sess.streams.get? id).isNone (f.isFin || rcv'.isRecvFinished) id
  have hget : R'.sess.streams.get? id = some rcv' := by
    rw [hstreams, get?_insert_self]
  have hrcv : R'.sess.streamFor id = rcv' := streamFor_of_get? hget
  have hqueue : R'.queue = R.queue ++ evs := by
    rw [queue, hevents, hmux, drop_append_of_le_length h.handled]
    rfl
  have hholds : ∀ acc, (R.sess.streamFor id).Holds acc → rcv'.Holds ((f.offset, f.data) :: acc) := by
    intro acc hacc
    rw [hrcv']
    exact hch.holds_receive hf hacc
  refine ⟨?_, ?_, ?_, ?_, fun hmem => ?_, ?_, fun hmem => ?_, fun hended => ?_, ?_⟩
  · simpa [hmux, hevents] using h.handled.trans (Nat.le_add_right _ _)
  · rw [hreadOut, hgot, hmux]
    exact h.read
  · -- the channel is there when the events have been handled
    obtain ⟨last, hexec, hlast'⟩ := h.phase
    obtain ⟨ph', hexec', hne⟩ := exec_frameEvents id
      (R.sess.streams.get? id).isNone (f.isFin || rcv'.isRecvFinished)
      (by rw [isNone_iff_eq_none]; exact hlast'.symm)
    refine ⟨ph', ?_, ?_⟩
    · simpa [hqueue, hmux, exec_append, hexec] using hexec'
    · rw [hget]
      exact ⟨fun heq => absurd heq hne, fun heq => by cases heq⟩
  · rw [hrcv, hacc]
    intro g hg
    refine hholds _ h.held g ?_
    obtain ⟨f', hf', rfl⟩ := mem_map.mp hg
    obtain ⟨hmem, hdata⟩ := mem_filter.mp hf'
    rcases mem_cons.mp hmem with rfl | hmem
    · exact mem_cons_self
    · exact mem_cons_of_mem _ (mem_map.mpr ⟨f', mem_filter.mpr ⟨hmem, hdata⟩, rfl⟩)
  · rw [hrcv]
    rw [hevents] at hmem
    rcases mem_append.mp hmem with hold | hnew
    · obtain ⟨hfin, segs, ht, hall⟩ := h.ending hold
      exact ⟨hfin, segs, ht, fun g hg => hholds segs hall g (mem_cons_of_mem _ hg)⟩
    · have hcause := (streamFinished_mem_frameEvents.mp hnew).2
      obtain ⟨-, hfin, hbuf, hall⟩ := hch.complete_of_finished hf hlast hrcv' hcause
      have ht := hch.sending.tiles
      rw [hbuf, length_nil, Nat.sub_zero] at ht
      exact ⟨hfin, _, ht, hall⟩
  · left
    rw [hqueue]
    refine mem_append_right _ ?_
    show SessionEvent.dataAvailable id ∈ frameEvents _ _ id
    unfold frameEvents
    simp
  · rw [hqueue, hreadOut]
    by_cases hold : .streamFinished id ∈ R.queue
    · exact (h.finished hold).imp_left fun hafter => hafter.append (AfterData.frameEvents id _ _ id)
    · exact .inl ((AfterData.of_not_mem hold).append (AfterData.frameEvents id _ _ id))
  · rw [hmux] at hended
    obtain ⟨hmem, hread⟩ := h.ended hended
    rw [hevents, hreadOut]
    exact ⟨mem_append_left _ hmem, hread⟩
  · rw [heof, hmux]
    exact h.eof

variable {ev : SessionEvent}

theorem queue_cons (hev : R.events[R.mux.handled]? = some ev) :
    R.queue = ev :: R.events.drop (R.mux.handled + 1) := by
  obtain ⟨hlt, rfl⟩ := List.getElem?_eq_some_iff.mp hev
  exact drop_eq_getElem_cons hlt

variable (h : Delivers S R id)
include h

theorem take (hev : R.events[R.mux.handled]? = some ev) :
    R.mux.handled + 1 ≤ R.events.length ∧
    (∃ ph last, on id (phaseOf (R.mux.streams id)) ev = some ph ∧
      exec (on id) ph (R.events.drop (R.mux.handled + 1)) = some last ∧
      (last = .absent ↔ R.sess.streams.get? id = none)) ∧
    (ev ≠ .dataAvailable id → .dataAvailable id ∈ R.events.drop (R.mux.handled + 1) ∨
      (R.sess.streamFor id).Drained) ∧
    (ev ≠ .dataAvailable id → .streamFinished id ∈ R.events.drop (R.mux.handled + 1) →
      AfterData id (R.events.drop (R.mux.handled + 1)) ∨ R.readOut id = S.written id) := by
  have hqueue := queue_cons hev
  refine ⟨(List.getElem?_eq_some_iff.mp hev).1, ?_, fun hne => ?_, fun hne hmem => ?_⟩
  · obtain ⟨last, hexec, hlast⟩ := h.phase
    rw [hqueue] at hexec
    obtain ⟨ph, hon, hrest⟩ := bind_eq_some_iff.mp hexec
    exact ⟨ph, last, hon, hrest, hlast⟩
  · refine h.available.imp_left fun hmem => ?_
    rw [hqueue] at hmem
    exact (mem_cons.mp hmem).resolve_left hne.symm
  · have hafter := h.finished (by rw [hqueue]; exact mem_cons_of_mem _ hmem)
    rw [hqueue] at hafter
    exact hafter.imp_left fun hafter => hafter.2.resolve_left hne

variable {m : Mux}

theorem newStream (hev : R.events[R.mux.handled]? = some (.newStream id))
    (hhandled : m.handled = R.mux.handled + 1) (hstream : m.streams id = some .announced) :
    R.mux.streams id = none ∧ Delivers S { R with mux := m } id := by
  obtain ⟨hlt, ⟨ph, last, hon, hexec, hlast⟩, havailable, hfinished⟩ := h.take hev
  have hqueue : queue { R with mux := m } = R.events.drop (R.mux.handled + 1) := by
    rw [queue, hhandled]
  -- there was none before
  have habsent : phaseOf (R.mux.streams id) = .absent := by
    by_contra hne
    simp [on, hne] at hon
  have hnone := phaseOf_eq_absent_iff.mp habsent
  have hlive : ph = .live := by simpa [on, habsent] using hon.symm
  have hread := h.read
  rw [hnone] at hread
  refine ⟨hnone, hhandled.trans_le hlt, ?_, ⟨last, ?_, hlast⟩, h.held, h.ending, ?_, ?_,
    fun hended => ?_, fun heof => ?_⟩
  · rw [hstream]
    exact hread
  · rw [hqueue, hstream, ← hexec, hlive]
    rfl
  · rw [hqueue]
    exact havailable nofun
  · rw [hqueue]
    exact hfinished nofun
  · rw [hstream] at hended
    cases hended
  · have hended := (h.eof heof).1
    rw [habsent] at hended
    cases hended

variable {s : Session} {ms : MuxStream}

theorem dataAvailable (hev : R.events[R.mux.handled]? = some (.dataAvailable id)) {max : Nat}
    {data : Bytes}
    (hch : Channel (S.sess.streamFor id) (R.sess.streamFor id) (S.written id) (R.readOut id) frames)
    (hall : (R.sess.streamFor id).ReadsAll max)
    (hread : (R.sess.streamFor id).read max = some (data, rcv')) {out : Nat → Bytes}
    (hget : R.sess.streams.get? id ≠ none) (hstreams : s.streams = R.sess.streams.insert id rcv')
    (hout : out id = R.readOut id ++ data) (hms : R.mux.streams id = some ms)
    (hhandled : m.handled = R.mux.handled + 1)
    (hstream : m.streams id = some (if data ≠ [] ∧ ms.dataTx then { ms with dataRx := ms.dataRx ++ [data] } else ms)) :
    Delivers S { R with sess := s, readOut := out, mux := m } id := by
  obtain ⟨hlt, ⟨ph, last, hon, hexec, hlast⟩, -, -⟩ := h.take hev
  have hqueue : queue { R with sess := s, readOut := out, mux := m }
      = R.events.drop (R.mux.handled + 1) := by
    rw [queue, hhandled]
  have hget' : s.streams.get? id = some rcv' := by
    rw [hstreams, get?_insert_self]
  have hrcv : s.streamFor id = rcv' := streamFor_of_get? hget'
  have hch' := hch.read hread
  have hholds : ∀ acc, (R.sess.streamFor id).Holds acc → rcv'.Holds acc :=
    fun acc hacc => hacc.read hread hall.1
  -- a stream announced as finished is read to its end now
  have hend : .streamFinished id ∈ R.events → out id = S.written id := by
    intro hmem
    obtain ⟨-, segs, ht, hsegs⟩ := h.ending hmem
    have hle := (hall.2 _ hread).le_recvOffset ht (hholds segs hsegs)
    rw [hout, hch'.receiving.out_eq, take_of_length_le hle]
  have hphase : phaseOf (m.streams id) = phaseOf (R.mux.streams id) := by
    rw [hstream, hms]
    split_ifs <;> rfl
  have hsame : ph = phaseOf (R.mux.streams id) := by
    unfold on at hon
    dsimp only at hon
    split_ifs at hon
    · exact absurd rfl ‹_›
    · exact (Option.some.inj hon).symm
  refine ⟨hhandled.trans_le hlt, ?_, ⟨last, ?_, ?_⟩, ?_, fun hmem => ?_, ?_, fun hmem => ?_,
    fun hended => ?_, fun heof => ?_⟩
  · have hold := h.read
    rw [hms] at hold
    dsimp only
    rw [hout, hold, hstream]
    split_ifs with hgive
    · simp [unread]
    · -- the channel is closed only after everything was read
      have hnil : data = [] := by
        by_contra hne
        have htx : ms.dataTx = false := by
          simpa [hne] using hgive
        have hended := h.ended (by rw [hms, phaseOf, htx]; rfl)
        have hsame := hend hended.1
        rw [hout, hended.2] at hsame
        exact hne (append_right_eq_self.mp hsame)
      rw [hnil, append_nil]
  · rw [hqueue, hphase, ← hsame, hexec]
  · rw [hget']
    exact ⟨fun heq => absurd (hlast.mp heq) hget, fun heq => by cases heq⟩
  · rw [hrcv]
    exact hholds _ h.held
  · obtain ⟨hfin, segs, ht, hsegs⟩ := h.ending hmem
    rw [hrcv]
    exact ⟨hfin, segs, ht, hholds segs hsegs⟩
  · right
    rw [hrcv]
    exact hall.2 _ hread
  · exact .inr (hend (mem_of_mem_drop hmem))
  · rw [hphase] at hended
    have hmem := (h.ended hended).1
    exact ⟨hmem, hend hmem⟩
  · obtain ⟨hended, hunread⟩ := h.eof heof
    rw [hphase]
    refine ⟨hended, ?_⟩
    rw [hms] at hended hunread
    have htx : ms.dataTx ≠ true := by
      intro htx
      rw [phaseOf, if_pos htx] at hended
      cases hended
    rw [hstream, if_neg fun hgive => htx hgive.2]
    exact hunread

theorem streamFinished (hev : R.events[R.mux.handled]? = some (.streamFinished id))
    (hhandled : m.handled = R.mux.handled + 1) (hms : R.mux.streams id = some ms)
    (hstream : m.streams id = some { ms with dataTx := false }) :
    Delivers S { R with mux := m } id := by
  obtain ⟨hlt, ⟨ph, last, hon, hexec, hlast⟩, havailable, -⟩ := h.take hev
  have hqueue : queue { R with mux := m } = R.events.drop (R.mux.handled + 1) := by
    rw [queue, hhandled]
  have hmem : .streamFinished id ∈ R.events := mem_of_getElem? hev
  have hall : R.readOut id = S.written id := by
    refine (h.finished (by rw [queue_cons hev]; exact mem_cons_self)).resolve_left ?_
    rw [queue_cons hev]
    exact fun hafter => hafter.1 rfl
  have hended : ph = .ended := by
    unfold on at hon
    dsimp only at hon
    split_ifs at hon
    · exact absurd rfl ‹_›
    · exact (Option.some.inj hon).symm
  have hread := h.read
  rw [hms] at hread
  refine ⟨hhandled.trans_le hlt, ?_, ⟨last, ?_, hlast⟩, h.held, h.ending, ?_, fun _ => .inr hall,
    fun _ => ⟨hmem, hall⟩, fun heof => ?_⟩
  · rw [hstream]
    exact hread
  · rw [hqueue, hstream, ← hexec, hended]
    rfl
  · rw [hqueue]
    exact havailable nofun
  · have hunread := (h.eof heof).2
    rw [hms] at hunread
    rw [hstream]
    exact ⟨rfl, hunread⟩

theorem exists_stream (hev : R.events[R.mux.handled]? = some ev)
    (hkind : ev = .dataAvailable id ∨ ev = .streamFinished id) : ∃ ms, R.mux.streams id = some ms := by
  obtain ⟨last, hexec, -⟩ := h.phase
  rw [queue_cons hev, exec_cons] at hexec
  cases hms : R.mux.streams id with
  | some ms => exact ⟨ms, rfl⟩
  | none =>
    rw [hms] at hexec
    rcases hkind with rfl | rfl <;> simp [on, phaseOf] at hexec

theorem known (hms : R.mux.streams id = some ms) : R.sess.streams.get? id ≠ none := by
  obtain ⟨last, hexec, hlast⟩ := h.phase
  have hne : phaseOf (R.mux.streams id) ≠ .absent := by
    rw [hms, phaseOf]
    split_ifs <;> nofun
  exact fun hnone => exec_ne_absent hne hexec (hlast.mpr hnone)

theorem opened (hnone : R.sess.streams.get? id = none)
    (hrecv : (s.streamFor id).recvSide = (R.sess.streamFor id).recvSide)
    (hknown : s.streams.get? id ≠ none) (hhandled : m.handled = R.mux.handled)
    (hstream : m.streams id = some .opened) (put : Nat → Bytes) :
    R.mux.streams id = none ∧ Delivers S { R with sess := s, mux := m, put := put } id := by
  obtain ⟨last, hexec, hlast⟩ := h.phase
  obtain rfl := hlast.mpr hnone
  have habsent : phaseOf (R.mux.streams id) = .absent := by
    by_contra hne
    exact exec_ne_absent hne hexec rfl
  have hms := phaseOf_eq_absent_iff.mp habsent
  rw [habsent] at hexec
  have hothers := eventsOn_of_exec_absent hexec
  have hqueue : queue { R with sess := s, mux := m, put := put } = R.queue := by
    rw [queue, hhandled]
    rfl
  have hread := h.read
  rw [hms] at hread
  refine ⟨hms, hhandled.trans_le h.handled, ?_, ⟨.live, ?_, ?_⟩, h.held.of_recvSide hrecv,
    fun hmem => ?_, ?_, fun hmem => ?_, fun hended => ?_, fun heof => ?_⟩
  · rw [hstream]
    exact hread
  · rw [hqueue, hstream, ← exec_eventsOn, hothers]
    rfl
  · exact ⟨nofun, fun heq => absurd heq hknown⟩
  · obtain ⟨hfin, segs, ht, hsegs⟩ := h.ending hmem
    exact ⟨hfin, segs, ht, hsegs.of_recvSide hrecv⟩
  · rw [hqueue]
    exact h.available.imp_right fun hdrained => hdrained.of_recvSide hrecv
  · rw [hqueue, ← mem_eventsOn rfl, hothers] at hmem
    cases hmem
  · rw [hstream] at hended
    cases hended
  · have hended := (h.eof heof).1
    rw [habsent] at hended
    cases hended

end Delivers

end SeamProtocol
