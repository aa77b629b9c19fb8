import SeamProtocol.Session.PacketSizes

/-! # The order of the Data packets of a flush

`flush` lists the streams in the order of a hash map, sorts them by priority, and sends everything that
one stream has before it turns to the next. -/

namespace SeamProtocol

open Lib List Session

def dataStreams (log : List Decoded) : List Nat :=
  (log.filter fun x => x.1 = .data).map fun x => leNat ((x.2.2.drop 4).take 4)

/-- **The documented order**: by priority, and in rounds for each priority. A round serves streams in
the order in which they were opened, and only streams that had a packet in every round before. -/
def RoundRobin (priority : Nat → Nat) (opened served : List Nat) : Prop :=
  served.Pairwise (fun i j => priority i ≤ priority j) ∧
  ∀ p, ∃ rounds : List (List Nat), served.filter (fun i => priority i = p) = rounds.flatten ∧
    (∀ round ∈ rounds, round.Sublist opened) ∧ rounds.Pairwise fun round later => later ⊆ round

/-- The streams of a list are served one after the other, with at least one packet for each that has
something to send. -/
inductive Drained (pending : Nat → Prop) : List Nat → List Nat → Prop where
  | nil : Drained pending [] []
  | cons {id : Nat} {ids served : List Nat} (n : Nat) : (0 < n ↔ pending id) →
      Drained pending ids served → Drained pending (id :: ids) (List.replicate n id ++ served)

theorem not_sublist_swap {l : List Nat} {i j : Nat} (hnodup : l.Nodup) (h : [i, j].Sublist l) :
    ¬ [j, i].Sublist l := by
  induction l with
  | nil => cases h
  | cons a l ih =>
    grind

namespace Drained

variable {pending : Nat → Prop} {ids served : List Nat} (h : Drained pending ids served)
include h

theorem mem_iff (id : Nat) : id ∈ served ↔ id ∈ ids ∧ pending id := by
  induction h with
  | nil => simp
  | cons n hn _ ih =>
    rw [mem_append, mem_replicate, ih, mem_cons, ← Nat.pos_iff_ne_zero, hn]
    constructor
    · rintro (⟨hid, rfl⟩ | ⟨hmem, hid⟩)
      · exact ⟨.inl rfl, hid⟩
      · exact ⟨.inr hmem, hid⟩
    · rintro ⟨rfl | hmem, hid⟩
      · exact .inl ⟨hid, rfl⟩
      · exact .inr ⟨hmem, hid⟩

theorem ordered : served.Pairwise fun i j => i = j ∨ [i, j].Sublist ids := by
  induction h with
  | nil => exact .nil
  | cons n _ h ih =>
    refine pairwise_append.mpr ⟨pairwise_replicate.mpr (.inr (.inl rfl)), ?_, ?_⟩
    · exact ih.imp fun hij => hij.imp_right fun hsub => hsub.cons _
    · intro i hi j hj
      rw [eq_of_mem_replicate hi]
      exact .inr ((singleton_sublist.mpr ((h.mem_iff j).mp hj).1).cons_cons _)

variable {priority : Nat → Nat} {opened : List Nat}

theorem roundRobin (hsorted : ids.Pairwise fun i j => priority i ≤ priority j) (hsub : ids ⊆ opened)
    (hone : ∀ i j, pending i → pending j → priority i = priority j → i = j) :
    RoundRobin priority opened served := by
  refine ⟨h.ordered.imp fun hij => ?_, fun p => ?_⟩
  · rcases hij with rfl | hij
    · exact Nat.le_refl _
    · exact pairwise_iff_forall_sublist.mp hsorted hij
  · -- all packets of the priority are of one stream
    cases hclass : served.filter fun i => priority i = p with
    | nil => exact ⟨[], rfl, nofun, .nil⟩
    | cons id rest =>
      have hmem : ∀ i ∈ id :: rest, (i ∈ ids ∧ pending i) ∧ priority i = p := fun i hi => by
        rw [← hclass, mem_filter, h.mem_iff, decide_eq_true_eq] at hi
        exact hi
      obtain ⟨⟨hid, hpid⟩, hprio⟩ := hmem id mem_cons_self
      have hall : id :: rest = replicate (rest.length + 1) id :=
        eq_replicate_iff.mpr ⟨rfl, fun i hi =>
          hone i id (hmem i hi).1.2 hpid ((hmem i hi).2.trans hprio.symm)⟩
      refine ⟨replicate (rest.length + 1) [id], ?_, fun round hr => ?_, ?_⟩
      · rw [hall]
        simp
      · rw [eq_of_mem_replicate hr]
        exact singleton_sublist.mpr (hsub hid)
      · exact pairwise_replicate.mpr (.inr fun _ hi => hi)

theorem opened_of_roundRobin {i j : Nat} (hnodup : ids.Nodup) (hij : [i, j].Sublist ids)
    (hi : pending i) (hj : pending j) (hprio : priority i = priority j)
    (hrr : RoundRobin priority opened served) : [i, j].Sublist opened := by
  obtain ⟨rounds, hclass, hrounds, hlater⟩ := hrr.2 (priority j)
  have hserved : ∀ k ∈ [i, j], pending k → priority k = priority j → ∃ r ∈ rounds, k ∈ r := by
    intro k hk hp hprio
    rw [← mem_flatten, ← hclass, mem_filter, decide_eq_true_eq, h.mem_iff]
    exact ⟨⟨hij.subset hk, hp⟩, hprio⟩
  obtain ⟨ri, hri, hiri⟩ := hserved i (by simp) hi hprio
  obtain ⟨rj, hrj, hjrj⟩ := hserved j (by simp) hj rfl
  -- both have a packet in the first round
  obtain ⟨first, rest, rfl⟩ := exists_cons_of_ne_nil (ne_nil_of_mem hri)
  have hfirst : ∀ r ∈ first :: rest, r ⊆ first := by
    intro r hr
    rcases mem_cons.mp hr with rfl | hr
    · exact fun _ hk => hk
    · exact (pairwise_cons.mp hlater).1 r hr
  have hsub : first.Sublist served := by
    refine (sublist_append_left first rest.flatten).trans ?_
    rw [← flatten_cons, ← hclass]
    exact filter_sublist
  have hne : i ≠ j := by
    rintro rfl
    exact absurd (hij.nodup hnodup) (by simp)
  have : Std.Symm fun a b => [a, b].Sublist first ∨ [b, a].Sublist first := ⟨fun _ _ => Or.symm⟩
  have htotal := List.Pairwise.forall (l := first)
    (R := fun a b => [a, b].Sublist first ∨ [b, a].Sublist first)
    (pairwise_iff_forall_sublist.mpr .inl) (hfirst ri hri hiri) (hfirst rj hrj hjrj) hne
  rcases htotal with hfij | hfji
  · exact hfij.trans (hrounds first mem_cons_self)
  · rcases pairwise_iff_forall_sublist.mp h.ordered (hfji.trans hsub) with heq | hji
    · exact absurd heq.symm hne
    · exact absurd hji (not_sublist_swap hnodup hij)

end Drained

/-! ## One flush -/

namespace Session

variable {s : Session} {id : Nat}

def Pending (s : Session) (id : Nat) : Prop :=
  s.unsent id ≠ [] ∨ ∃ stream, s.streams.get? id = some stream ∧ stream.shouldSendFin = true

theorem Pending.mem_keys (h : s.Pending id) : id ∈ s.streams.keys := by
  rw [SortedMap.mem_keys_iff]
  rcases h with hunsent | ⟨stream, hget, -⟩
  · unfold unsent at hunsent
    split at hunsent
    · next stream hget => exact ⟨stream, hget⟩
    · exact absurd rfl hunsent
  · exact ⟨stream, hget⟩

def streamEmissions (s : Session) (id : Nat) : List Emission :=
  List.replicate (s.unsent id).length (.data id) ++ [.fin id]

theorem forall_draft_eq_none_iff (s : Session) (now id : Nat) :
    (∀ em ∈ s.streamEmissions id, s.draft now em = none) ↔ ¬ s.Pending id := by
  have hfin : s.draft now (.fin id) = none ↔
      ¬∃ stream, s.streams.get? id = some stream ∧ stream.shouldSendFin = true := by
    cases hget : s.streams.get? id <;> simp [draft, hget, guard]
  have hdata : (∀ em ∈ replicate (s.unsent id).length (Emission.data id), s.draft now em = none) ↔
      s.unsent id = [] := by
    constructor
    · intro h
      by_contra hne
      exact hne (unsent_of_draft_eq_none (h _ (mem_replicate.mpr ⟨by simpa using hne, rfl⟩)))
    · intro h
      simp [h]
  rw [Pending, not_or, not_not, streamEmissions, forall_mem_append, hdata,
    forall_mem_singleton, hfin]

end Session

namespace Flush

variable {P : Primitives} (hP : P.Lawful) (now : Nat) {id : Nat} {f : Flush} {em : Emission}
include hP

theorem emit_stream (hid : id < 2 ^ 32) (herr : f.error = none) (hem : em = .data id ∨ em = .fin id) :
    f.sess.draft now em = none ∧ f.emit P now em = f ∨
    f.sess.draft now em ≠ none ∧ (f.emit P now em).error = none ∧
      dataStreams (f.emit P now em).log = dataStreams f.log ++ [id] ∧
      ∀ j, j ≠ id → (f.emit P now em).sess.streams.get? j = f.sess.streams.get? j := by
  cases hd : f.sess.draft now em with
  | none => exact .inl ⟨rfl, by rw [emit, herr, hd]⟩
  | some d =>
    obtain ⟨htype, ⟨isFin, offset, data, hpayload⟩, stream', hstreams⟩ : d.pktType = .data ∧
        (∃ isFin offset data, d.payload = streamFrame isFin id offset data) ∧
        ∃ stream', d.sess.streams = f.sess.streams.insert id stream' := by
      have hcases := draft_cases hd
      rcases hem with rfl | rfl
      · obtain ⟨_, _, _, -, -, rfl⟩ := hcases
        exact ⟨rfl, ⟨_, _, _, rfl⟩, _, rfl⟩
      · obtain ⟨_, -, -, rfl⟩ := hcases
        exact ⟨rfl, ⟨_, _, _, rfl⟩, _, rfl⟩
    have hlen : d.payload.length ≤ 2 ^ 30 :=
      (draft_data_le hd htype).trans (by decide)
    obtain ⟨bytes, hseal⟩ : ∃ bytes, d.packet P = .ok bytes := sealPacket_eq_ok hP hlen
    refine .inr ⟨nofun, ?_⟩
    simp only [emit, herr, hd, encodePacket_eq hP, hseal]
    refine ⟨trivial, ?_, fun j hj => ?_⟩
    · simpa [dataStreams, htype, hpayload, streamFrame, leNat_leBytes] using hid
    · rw [Draft.sent, bumped, hstreams, SortedMap.get?_insert, if_neg hj]

variable {ems : List Emission}

theorem foldl_emit_stream (hid : id < 2 ^ 32) (hems : ∀ em ∈ ems, em = .data id ∨ em = .fin id)
    (herr : f.error = none) :
    ∃ n, (n = 0 ↔ ∀ em ∈ ems, f.sess.draft now em = none) ∧
      (ems.foldl (emit P now) f).error = none ∧
      dataStreams (ems.foldl (emit P now) f).log = dataStreams f.log ++ replicate n id ∧
      ∀ j, j ≠ id → (ems.foldl (emit P now) f).sess.streams.get? j = f.sess.streams.get? j := by
  induction ems generalizing f with
  | nil => exact ⟨0, by simp, herr, by simp, fun _ _ => rfl⟩
  | cons em ems ih =>
    obtain ⟨hem, hems⟩ := forall_mem_cons.mp hems
    rw [foldl_cons, forall_mem_cons]
    rcases emit_stream hP now hid herr hem with ⟨hd, hsame⟩ | ⟨hd, herr', hlog, hother⟩
    · rw [hsame, hd]
      simpa using ih hems herr
    · obtain ⟨n, -, herr₂, hlog₂, hother₂⟩ := ih hems herr'
      refine ⟨n + 1, by simp [hd], herr₂, ?_, fun j hj => (hother₂ j hj).trans (hother j hj)⟩
      rw [hlog₂, hlog, append_assoc, replicate_succ, singleton_append]

theorem drained_foldl {s : Session} {ids : List Nat} (hids : ∀ id ∈ ids, id < 2 ^ 32)
    (hnodup : ids.Nodup) (hsame : ∀ id ∈ ids, f.sess.streams.get? id = s.streams.get? id)
    (herr : f.error = none) :
    ∃ served, Drained s.Pending ids served ∧
      dataStreams ((ids.flatMap s.streamEmissions).foldl (emit P now) f).log
        = dataStreams f.log ++ served := by
  induction ids generalizing f with
  | nil => exact ⟨[], .nil, by simp⟩
  | cons id ids ih =>
    obtain ⟨hid, hids⟩ := forall_mem_cons.mp hids
    obtain ⟨hget, hsame⟩ := forall_mem_cons.mp hsame
    rw [nodup_cons] at hnodup
    rw [flatMap_cons, foldl_append]
    have hems : ∀ em ∈ s.streamEmissions id, em = .data id ∨ em = .fin id := by
      simp +contextual [streamEmissions, or_imp]
    obtain ⟨n, hn, herr', hlog, hother⟩ := foldl_emit_stream hP now hid hems herr
    obtain ⟨served, hserved, hlog'⟩ := ih hids hnodup.2 (fun j hj =>
      (hother j (ne_of_mem_of_not_mem hj hnodup.1)).trans (hsame j hj)) herr'
    refine ⟨replicate n id ++ served, .cons n ?_ hserved, by simp [hlog', hlog]⟩
    -- whether there is something to send depends on the stream only, which is as it was
    have hpending : f.sess.Pending id ↔ s.Pending id := by
      simp only [Session.Pending, unsent, hget]
    have hblock : s.streamEmissions id = f.sess.streamEmissions id := by
      simp only [streamEmissions, unsent, hget]
    rw [hblock, forall_draft_eq_none_iff, hpending] at hn
    rw [Nat.pos_iff_ne_zero, Ne, hn, not_not]

theorem dataStreams_foldl (hems : ∀ em ∈ ems, ∀ id, em ≠ .data id ∧ em ≠ .fin id) (f : Flush) :
    dataStreams (ems.foldl (emit P now) f).log = dataStreams f.log := by
  refine foldlRecOn (motive := fun g : Flush => dataStreams g.log = dataStreams f.log) _ _ rfl
    fun g hg em hem => ?_
  rcases emit_cases hP now g em with hsame | ⟨-, d, hd, hemit⟩
  · rwa [hsame]
  · have htype : d.pktType ≠ .data := by
      rcases draft_shape hd with ⟨id, _, _, _, heq, -⟩ | ⟨id, _, heq, -⟩ | ⟨-, -, htype, -⟩
      · exact absurd heq (hems em hem id).1
      · exact absurd heq (hems em hem id).2
      · rintro hdata
        simp [hdata] at htype
    rcases hemit with ⟨e, -, heq⟩ | ⟨bytes, -, heq⟩
    all_goals
      rw [heq]
      simpa [dataStreams, htype] using hg

end Flush

variable {order : List Nat}

theorem Session.sorted_perm (s : Session) (hperm : order.Perm s.streams.keys) :
    (order.insertionSort fun i j => s.priorityOf i ≤ s.priorityOf j).Perm s.streams.keys :=
  (perm_insertionSort _ order).trans hperm

theorem Session.drained_flushed {P : Primitives} (hP : P.Lawful) {s : Session} (now : Nat)
    (hids : ∀ id ∈ s.streams.keys, id < 2 ^ 32) (hperm : order.Perm s.streams.keys) :
    Drained s.Pending (order.insertionSort fun i j => s.priorityOf i ≤ s.priorityOf j)
      (dataStreams (s.flushed P now order).log) := by
  have hsort := s.sorted_perm hperm
  obtain ⟨served, hserved, hlog⟩ := Flush.drained_foldl hP now (f := ⟨s, [], none, []⟩)
    (fun id hid => hids id (hsort.mem_iff.mp hid)) (hsort.nodup_iff.mpr s.streams.nodup_keys)
    (fun _ _ => rfl) rfl
  rw [flushed, schedule, append_assoc, foldl_append,
    Flush.dataStreams_foldl hP now (by simp +contextual [or_imp])]
  exact hlog ▸ hserved

end SeamProtocol
