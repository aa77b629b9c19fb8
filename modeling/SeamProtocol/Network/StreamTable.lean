import SeamProtocol.Network.Slots
import SeamProtocol.Session.History

/-! # The two id spaces of a connection

Two sessions of opposite roles, each with any calls and any packets. Streams come into a table by
opening them and by a frame of the peer; the parity of an id is looked at only for frames whose id is
not in the table. -/

namespace SeamProtocol

open Lib SortedMap List

/-! ## One side -/

def Role.streamId (x : Role) (i : Nat) : Nat := (x.firstStreamId + 2 * i) % 2 ^ 32

theorem Role.streamId_mod (x : Role) (i : Nat) : x.streamId i % 2 = x.localParity := by
  rw [streamId, ← x.firstStreamId_mod]
  omega

theorem Role.streamId_succ (x : Role) (i : Nat) : (x.streamId i + 2) % 2 ^ 32 = x.streamId (i + 1) := by
  rw [streamId, streamId]
  omega

theorem Role.streamId_lt {x : Role} {i j : Nat} (hij : i < j) (hj : x.firstStreamId + 2 * j < 2 ^ 32) :
    x.streamId i < x.streamId j := by
  rw [streamId, streamId, Nat.mod_eq_of_lt hj, Nat.mod_eq_of_lt (by omega)]
  omega

namespace LoggedSession

structure Table (x : Role) (limits : SessionLimits) (r : LoggedSession) : Prop where
  role : r.sess.role = x
  sameLimits : r.sess.limits = limits
  size : r.sess.streams.size ≤ limits.maxStreams
  opened : r.opened = (List.range r.opened.length).map x.streamId
  next : r.sess.nextStreamId = x.streamId r.opened.length
  created : ∀ id ∈ r.created, id % 2 ≠ x.localParity
  own : ∀ id, r.sess.streams.get? id ≠ none → id % 2 = x.localParity → id ∈ r.opened
  /-- Unless ids can wrap around, there are as many streams as were opened. -/
  unwrapped : limits.maxStreams < 2 ^ 31 - 1 → r.opened.length ≤ r.sess.streams.size

variable {P : Primitives} {x : Role} {limits : SessionLimits} {r r' : LoggedSession} {call : SessionCall}

theorem table_new (id : UInt64) (x : Role) (encoder : PacketEncoder) (decoder : PacketDecoder)
    (limits : SessionLimits) :
    (LoggedSession.new (Session.withLimits id x encoder decoder limits)).Table x limits where
  role := rfl
  sameLimits := rfl
  size := Nat.zero_le _
  opened := rfl
  next := by cases x <;> rfl
  created := fun _ h => nomatch h
  own := fun _ h => absurd rfl h
  unwrapped := fun _ => Nat.le_refl 0

theorem Table.mem_opened (h : r.Table x limits) {id : Nat} (hid : id ∈ r.opened) :
    id % 2 = x.localParity ∧ id < 2 ^ 32 := by
  rw [h.opened] at hid
  obtain ⟨i, -, rfl⟩ := mem_map.mp hid
  exact ⟨x.streamId_mod i, Nat.mod_lt _ (by decide)⟩

theorem Table.opened_lt (h : r.Table x limits) {i j : Nat} (hij : i < j) (hj : j < r.opened.length)
    (hwrap : x.firstStreamId + 2 * j < 2 ^ 32) : r.opened.getD i 0 < r.opened.getD j 0 := by
  have hget : ∀ k, k < r.opened.length → r.opened.getD k 0 = x.streamId k := by
    intro k hk
    rw [h.opened, getD_eq_getElem?_getD, getElem?_map, getElem?_range hk]
    rfl
  rw [hget i (hij.trans hj), hget j hj]
  exact Role.streamId_lt hij hwrap

theorem Table.next_free (h : r.Table x limits) (hsmall : limits.maxStreams < 2 ^ 31 - 1) :
    r.sess.streams.get? r.sess.nextStreamId = none := by
  have hsize := h.size
  have hopened := h.unwrapped hsmall
  have hfirst := x.firstStreamId_le
  by_contra hne
  have hmem := h.own _ hne (by rw [h.next]; exact x.streamId_mod _)
  rw [h.next, h.opened] at hmem
  obtain ⟨i, hi, heq⟩ := mem_map.mp hmem
  have hlt : i < r.opened.length := mem_range.mp hi
  have hlen : ((List.range r.opened.length).map x.streamId).length = r.opened.length := by simp
  rw [hlen] at heq
  have hless := Role.streamId_lt (x := x) hlt (by omega)
  omega

theorem Table.turn (h : r.Table x limits) (hlimits : limits.maxStreams < 2 ^ 32)
    (ht : Turn P r call r') : r'.Table x limits := by
  have hsize := h.size
  cases ht with
  | quiet hframe hsame hevents =>
    exact
      { role := hsame.role.trans h.role
        sameLimits := hsame.limits.trans h.sameLimits
        size := hsame.size_eq.trans_le h.size
        opened := h.opened
        next := hsame.next.trans h.next
        created := h.created
        own := fun id hid => h.own id fun hnone => hid ((hsame.get?_eq_none_iff id).mpr hnone)
        unwrapped := fun hsmall => (h.unwrapped hsmall).trans_eq hsame.size_eq.symm }
  | opens priority hframe hroom =>
    rw [h.sameLimits] at hroom
    have hlen : (r.opened ++ [r.sess.nextStreamId]).length = r.opened.length + 1 := by simp
    refine ⟨h.role, h.sameLimits, ?_, ?_, ?_, h.created, ?_, ?_⟩
    · exact (size_insert_le _ _ _).trans (by omega)
    · rw [hlen, range_succ, map_append, ← h.opened, h.next]
      rfl
    · rw [hlen, ← x.streamId_succ, h.next]
    · intro id hid hpar
      rw [get?_insert] at hid
      by_cases heq : id = r.sess.nextStreamId
      · rw [heq]
        exact mem_append_right _ mem_cons_self
      · rw [if_neg heq] at hid
        exact mem_append_left _ (h.own id hid hpar)
    · intro hsmall
      rw [hlen, size_insert_of_get?_eq_none _ _ (h.next_free hsmall)]
      exact Nat.succ_le_succ (h.unwrapped hsmall)
  | @receives f sess res hframe hallow hstreams hnext hrole hlimits' hres =>
    have hparity : r.sess.streams.get? f.streamId = none → f.streamId % 2 ≠ x.localParity := by
      intro hnone
      rw [← h.role]
      exact Session.parity_of_refuseNewStream (hallow hnone)
    have hkeep : r.sess.streams.size ≤ sess.streams.size ∧ sess.streams.size ≤ limits.maxStreams := by
      rw [hstreams]
      cases hget : r.sess.streams.get? f.streamId with
      | some stream =>
        rw [size_insert_of_get?_eq_some _ _ hget]
        exact ⟨Nat.le_refl _, h.size⟩
      | none =>
        have hroom := Session.room_of_refuseNewStream (hallow hget)
        rw [h.sameLimits] at hroom
        rw [size_insert_of_get?_eq_none _ _ hget]
        omega
    refine ⟨hrole.trans h.role, hlimits'.trans h.sameLimits, hkeep.2, h.opened, hnext.trans h.next, ?_, ?_,
      fun hsmall => (h.unwrapped hsmall).trans hkeep.1⟩
    · intro id hid
      rcases mem_append.mp hid with hid | hid
      · exact h.created id hid
      · obtain ⟨hold, hnew⟩ := mem_newKeys.mp hid
        by_cases heq : id = f.streamId
        · rw [heq]
          exact hparity (heq ▸ hold)
        · rw [hstreams, get?_insert_of_ne _ _ heq] at hnew
          exact absurd hold hnew
    · intro id hid hpar
      by_cases hold : r.sess.streams.get? id = none
      · by_cases heq : id = f.streamId
        · exact absurd (heq ▸ hpar) (hparity (heq ▸ hold))
        · rw [received, hstreams, get?_insert_of_ne _ _ heq] at hid
          exact absurd hold hid
      · exact h.own id hold hpar

end LoggedSession

/-! ## Both sides -/

structure SessionPair where
  side : Role → LoggedSession

namespace SessionPair

def new (id : UInt64) (encoder : Role → PacketEncoder) (decoder : Role → PacketDecoder)
    (limits : Role → SessionLimits) : SessionPair :=
  ⟨fun x => .new (Session.withLimits id x (encoder x) (decoder x) (limits x))⟩

def step (P : Primitives) (p : SessionPair) (ev : Role × SessionCall) : Option SessionPair :=
  ((p.side ev.1).step P ev.2).map fun r => ⟨Function.update p.side ev.1 r⟩

theorem exec_table {P : Primitives} {limits : Role → SessionLimits} {p p' : SessionPair}
    {evs : List (Role × SessionCall)} (hlimits : ∀ x, (limits x).maxStreams < 2 ^ 32)
    (h : ∀ x, (p.side x).Table x (limits x)) (hrun : exec (step P) p evs = some p') :
    ∀ x, (p'.side x).Table x (limits x) := by
  refine exec_invariant (fun p : SessionPair => ∀ x, (p.side x).Table x (limits x)) ?_ h hrun
  rintro p ⟨y, call⟩ p' h hstep x
  obtain ⟨r, hr, rfl⟩ := Option.map_eq_some_iff.mp hstep
  by_cases hxy : x = y
  · subst hxy
    dsimp only
    simpa using (h x).turn (hlimits x) (LoggedSession.turn_of_step hr)
  · dsimp only
    rw [Function.update_of_ne hxy]
    exact h x

end SessionPair

/-- **The table of streams.** In every run, on each side: there are at most `max_streams` streams; the
ids that were opened are the numbers of the side's parity in order, increasing below `2 ^ 32`, all of
them if the limit is below `2 ^ 31 - 1`; and none is that of a stream that the peer has created here by
a frame or has opened itself. -/
theorem stream_table_invariant (P : Primitives) (id : UInt64) (encoder : Role → PacketEncoder)
    (decoder : Role → PacketDecoder) (limits : Role → SessionLimits)
    (hlimits : ∀ x, (limits x).maxStreams < 2 ^ 32) (evs : List (Role × SessionCall)) (p : SessionPair)
    (hrun : exec (SessionPair.step P) (.new id encoder decoder limits) evs = some p) (x : Role) :
    (p.side x).sess.streams.size ≤ (limits x).maxStreams ∧
    (∀ id ∈ (p.side x).opened, id % 2 = x.localParity ∧ id < 2 ^ 32) ∧
    (∀ i j, i < j → j < (p.side x).opened.length →
      (x.firstStreamId + 2 * j < 2 ^ 32 ∨ (limits x).maxStreams < 2 ^ 31 - 1) →
      (p.side x).opened.getD i 0 < (p.side x).opened.getD j 0) ∧
    (∀ id ∈ (p.side x).opened, id ∉ (p.side x).created ∧ id ∉ (p.side x.peer).opened) := by
  have htable := SessionPair.exec_table hlimits (fun x => LoggedSession.table_new id x _ _ _) hrun
  have hx := htable x
  refine ⟨hx.size, fun id hid => hx.mem_opened hid, ?_, fun id hid => ⟨fun hcreated => ?_, fun hpeer => ?_⟩⟩
  · intro i j hij hj hwrap
    refine hx.opened_lt hij hj (hwrap.elim (fun h => h) fun hsmall => ?_)
    have hfirst := x.firstStreamId_le
    have hopened := hx.unwrapped hsmall
    have hsize := hx.size
    omega
  · exact hx.created id hcreated (hx.mem_opened hid).1
  · have hpar := (hx.mem_opened hid).1
    have hparPeer := ((htable x.peer).mem_opened hpeer).1
    rw [x.localParity_peer] at hparPeer
    omega

def crossedOpens : List (Role × SessionCall) :=
  [(.client, .op (.app (.openStream 4))), (.client, .op (.app (.openStream 4))),
    (.server, .packet (.data, 0, streamFrame false 1 0 [7]) 0),
    (.server, .packet (.data, 1, streamFrame false 2 0 [7]) 0),
    (.server, .op (.app (.openStream 4)))]

/-- A frame with an id of the receiver's own parity does not create a stream. -/
theorem stream_table_crossed_opens :
    ∃ p, exec (SessionPair.step checksumPrimitives)
        (.new 1 (fun _ => PacketEncoder.new zeroKeys 1) (fun _ => PacketDecoder.new zeroKeys)
          fun _ => ⟨3, 1200, 64⟩) crossedOpens = some p ∧
      (p.side .client).opened = [1, 3] ∧ (p.side .server).created = [1] ∧
      (p.side .server).opened = [2] ∧
      (∀ id ∈ (p.side .server).opened, id ∉ (p.side .server).created ∧ id ∉ (p.side .client).opened) :=
  ⟨_, rfl, by decide +kernel, by decide +kernel, by decide +kernel,
    (stream_table_invariant checksumPrimitives 1 (fun _ => PacketEncoder.new zeroKeys 1)
      (fun _ => PacketDecoder.new zeroKeys) (fun _ => ⟨3, 1200, 64⟩) (fun _ => by decide) crossedOpens _ rfl
      .server).2.2.2⟩

end SeamProtocol
