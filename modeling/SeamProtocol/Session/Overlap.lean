import SeamProtocol.Session.Delivery

/-! # Overlapping segments

Segments from a peer that cuts them as it likes are stored by their start offset alone, and `read` takes
them out in that order. One that lies inside an earlier one is passed before it is taken out, and the
index into it is out of range. -/

namespace SeamProtocol

open Lib SortedMap SeamProtocol.Stream List

namespace Stream

/-! ## The read loop over overlapping segments -/

variable {es : List (Nat × Bytes)} {off : Nat}

theorem readLoop_total (wanted : Nat)
    (hends : es.Pairwise fun p q => p.1 + p.2.length ≤ q.1 + q.2.length)
    (hahead : ∀ f ∈ es, off ≤ f.1 + f.2.length) :
    ∃ r, readLoop off wanted es = some r ∧
      ∀ f ∈ es.drop r.popped, r.recvOffset ≤ f.1 + f.2.length := by
  induction es generalizing off wanted with
  | nil => exact ⟨⟨[], off, 0⟩, rfl, nofun⟩
  | cons e rest ih =>
    obtain ⟨o, d⟩ := e
    have hfirst : off ≤ o + d.length := hahead (o, d) mem_cons_self
    rw [pairwise_cons] at hends
    rw [readLoop]
    split_ifs with hw hgap hidx
    · exact ⟨_, rfl, hahead⟩
    · exact ⟨_, rfl, hahead⟩
    · omega
    · -- the segment is read to its end at most, and the later ones end there or beyond
      have hrest : ∀ f ∈ rest,
          off + min (d.drop (off - o)).length wanted ≤ f.1 + f.2.length := by
        intro f hf
        have hle := hends.1 f hf
        rw [length_drop]
        dsimp only at hle
        omega
      obtain ⟨r, hr, hleft⟩ :=
        ih (wanted - min (d.drop (off - o)).length wanted) hends.2 hrest
      dsimp only
      rw [hr]
      exact ⟨_, rfl, hleft⟩

variable {wanted : Nat} {r : ReadLoop}

theorem readLoop_isPrefix {w : Bytes} (h : readLoop off wanted es = some r)
    (hslice : ∀ f ∈ es, f.2 <+: w.drop f.1) : r.out <+: w.drop off := by
  induction es generalizing off wanted r with
  | nil =>
    cases h
    exact nil_prefix
  | cons e rest ih =>
    obtain ⟨o, d⟩ := e
    rw [readLoop] at h
    split_ifs at h with hw hgap hidx
    · cases h
      exact nil_prefix
    · cases h
      exact nil_prefix
    · obtain ⟨r', hr', rfl⟩ := Option.map_eq_some_iff.mp h
      have hpiece : (d.drop (off - o)).take (min (d.drop (off - o)).length wanted)
          <+: w.drop off := by
        have hskip := drop_isPrefix_drop (hslice (o, d) mem_cons_self) (off - o)
        rw [show o + (off - o) = off by omega] at hskip
        exact (List.take_prefix _ _).trans hskip
      have hnext := ih hr' fun f hf => hslice f (mem_cons_of_mem _ hf)
      obtain ⟨t, ht⟩ := hpiece
      have hlen : ((d.drop (off - o)).take (min (d.drop (off - o)).length wanted)).length
          = min (d.drop (off - o)).length wanted := by
        simp
      rw [← hlen, ← drop_drop, ← ht, drop_left] at hnext
      rw [← ht]
      exact (prefix_append_right_inj _).mpr hnext

theorem not_readCuts_of_short (h : readLoop off wanted es = some r) (hshort : r.out.length < wanted) :
    readCuts off wanted es = false := by
  induction es generalizing off wanted r with
  | nil => rfl
  | cons e rest ih =>
    obtain ⟨o, d⟩ := e
    rw [readLoop] at h
    rw [readCuts]
    split_ifs at h with hw hgap hidx
    · rw [if_pos (.inl hw)]
    · rw [if_pos (.inr hgap)]
    · obtain ⟨r', hr', rfl⟩ := Option.map_eq_some_iff.mp h
      simp only [length_append, length_take, length_drop] at hshort hr'
      have hgo : ¬ (wanted = 0 ∨ off < o) := by omega
      have hwhole : ¬ wanted < d.length - (off - o) := by omega
      rw [if_neg hgo]
      rw [if_neg hwhole]
      rw [min_eq_left (by omega)] at hr'
      exact ih hr' (by omega)

theorem readLoop_gap (h : readLoop off wanted es = some r)
    (hsorted : es.Pairwise fun p q => p.1 < q.1) (hshort : r.out.length < wanted) :
    ∀ f ∈ es.drop r.popped, r.recvOffset < f.1 := by
  induction es generalizing off wanted r with
  | nil => simp
  | cons e rest ih =>
    rw [pairwise_cons] at hsorted
    rw [readLoop] at h
    split_ifs at h with hw hgap hidx
    · omega
    · cases h
      intro f hf
      rcases mem_cons.mp hf with rfl | hf
      · exact hgap
      · exact hgap.trans (hsorted.1 f hf)
    · obtain ⟨r', hr', rfl⟩ := Option.map_eq_some_iff.mp h
      simp only [length_append, length_take, length_drop] at hshort hr'
      intro f hf
      exact ih hr' hsorted.2 (by omega) f hf

/-! ## Storing -/

/-- A segment is stored: it is not empty, not read already, and within the receive limit. -/
def Stores (s : Stream) (offset : Nat) (data : Bytes) : Prop :=
  data ≠ [] ∧ s.recvOffset < offset + data.length ∧ offset + data.length ≤ s.recvMaxData

instance (s : Stream) (offset : Nat) (data : Bytes) : Decidable (s.Stores offset data) :=
  inferInstanceAs (Decidable (_ ∧ _ ∧ _))

theorem receive_spec (s : Stream) {o : Nat} {d : Bytes} (fin : Bool) (h : o + d.length < 2 ^ 64) :
    (s.receive o d fin).2.recvOffset = s.recvOffset ∧
      (s.receive o d fin).2.recvBuf = (if s.Stores o d then s.recvBuf.insert o d else s.recvBuf) ∧
      ((s.receive o d fin).1 = .ok () →
        s.Stores o d ∨ d = [] ∨ o + d.length ≤ s.recvOffset) := by
  unfold receive Stores
  rw [Nat.mod_eq_of_lt h]
  by_cases hd : d = []
  · cases fin <;> simp [hd]
  · by_cases hold : o + d.length ≤ s.recvOffset
    · cases fin <;> simp [hd, hold, Nat.not_lt.mpr hold]
    · by_cases hmax : s.recvMaxData < o + d.length
      · cases fin <;> simp [hd, hold, hmax, Nat.not_le.mpr hmax]
      · cases fin <;> simp [hd, hold, hmax, Nat.not_lt.mp hmax, Nat.not_le.mp hold]

end Stream

/-! ## Runs -/

structure Reception where
  stream : Stream
  out : Bytes
  accepted : List (Nat × Bytes)

inductive ReceiveCall where
  | receive (offset : Nat) (data : Bytes) (isFin : Bool)
  | read (maxBytes : Nat)

def ReceiveCall.IsSlice (w : Bytes) : ReceiveCall → Prop
  | .receive offset data _ => data <+: w.drop offset
  | .read _ => True

namespace Reception

def new (id recvLimit : Nat) : Reception := ⟨(Stream.new id).setRecvLimit recvLimit, [], []⟩

def step (s : Reception) : ReceiveCall → Option Reception
  | .receive offset data isFin =>
    let r := s.stream.receive offset data isFin
    some { s with
      stream := r.2
      accepted := match r.1 with
        | .ok () => s.accepted ++ [(offset, data)]
        | .error _ => s.accepted }
  | .read maxBytes =>
    (s.stream.read maxBytes).map fun (bytes, stream) => { s with stream, out := s.out ++ bytes }

/-- A segment does not overflow the offsets, and if it is stored then it neither lies inside a stored
one nor the other way round; a stored one with the same start is not longer. A read does not end inside
a segment. -/
def Harmless (s : Reception) : ReceiveCall → Prop
  | .receive offset data _ =>
    offset + data.length < 2 ^ 64 ∧
      (s.stream.Stores offset data → ∀ e ∈ s.stream.recvBuf.entries,
        (offset < e.1 → offset + data.length ≤ e.1 + e.2.length) ∧
        (e.1 ≤ offset → e.1 + e.2.length ≤ offset + data.length))
  | .read maxBytes => s.stream.cutsSegment maxBytes = false

instance (s : Reception) : (call : ReceiveCall) → Decidable (s.Harmless call)
  | .receive _ _ _ => inferInstanceAs (Decidable (_ ∧ (_ → _)))
  | .read _ => inferInstanceAs (Decidable (_ = _))

def Reaches (s : Reception) (p : Nat) : Prop :=
  p < s.stream.recvOffset ∨ ∃ e ∈ s.stream.recvBuf.entries, e.1 ≤ p ∧ p < e.1 + e.2.length

def Covers (s : Reception) (n : Nat) : Prop :=
  ∀ p < n, ∃ f ∈ s.accepted, f.1 ≤ p ∧ p < f.1 + f.2.length

/-- The invariant: stored segments end in the order in which they start and not before the read
offset, and no position of an accepted segment is lost. -/
structure Orderly (s : Reception) : Prop where
  ends : ∀ e ∈ s.stream.recvBuf.entries, ∀ f ∈ s.stream.recvBuf.entries, e.1 < f.1 →
    e.1 + e.2.length ≤ f.1 + f.2.length
  ahead : ∀ e ∈ s.stream.recvBuf.entries, s.stream.recvOffset ≤ e.1 + e.2.length
  kept : ∀ f ∈ s.accepted, ∀ p, f.1 ≤ p → p < f.1 + f.2.length → s.Reaches p

structure Reading (w : Bytes) (s : Reception) : Prop where
  out_eq : s.out = w.take s.stream.recvOffset
  offset_le : s.stream.recvOffset ≤ w.length
  slice : ∀ e ∈ s.stream.recvBuf.entries, e.2 <+: w.drop e.1

theorem orderly_new (id recvLimit : Nat) : (new id recvLimit).Orderly :=
  ⟨nofun, nofun, nofun⟩

theorem reading_new (w : Bytes) (id recvLimit : Nat) : (new id recvLimit).Reading w :=
  ⟨rfl, Nat.zero_le _, nofun⟩

variable {m : SortedMap Nat Bytes} {o : Nat} {d : Bytes}

theorem mem_entries_insert {e : Nat × Bytes} (h : e ∈ (m.insert o d).entries) :
    e = (o, d) ∨ e ∈ m.entries :=
  mem_insertEntry h

theorem reaches_insert (hlong : ∀ e ∈ m.entries, e.1 ≤ o → e.1 + e.2.length ≤ o + d.length) {p : Nat}
    (h : ∃ e ∈ m.entries, e.1 ≤ p ∧ p < e.1 + e.2.length) :
    ∃ e ∈ (m.insert o d).entries, e.1 ≤ p ∧ p < e.1 + e.2.length := by
  obtain ⟨⟨a, b⟩, he, hle, hlt⟩ := h
  by_cases hao : a = o
  · refine ⟨(o, d), (mem_entries_iff _ o d).mpr (get?_insert_self m o d), ?_, ?_⟩
    · exact hao ▸ hle
    · exact hlt.trans_le (hlong (a, b) he hao.le)
  · refine ⟨(a, b), (mem_entries_iff _ a b).mpr ?_, hle, hlt⟩
    rw [get?_insert_of_ne m d hao]
    exact (mem_entries_iff m a b).mp he

variable {s : Reception}

theorem Orderly.receive (h : s.Orderly) {fin : Bool} (hok : s.Harmless (.receive o d fin)) :
    ∃ s', s.step (.receive o d fin) = some s' ∧ s'.Orderly := by
  obtain ⟨hsum, hnest⟩ := hok
  obtain ⟨hoff, hbuf, hacc⟩ := s.stream.receive_spec fin hsum
  refine ⟨_, rfl, ?_⟩
  by_cases hst : s.stream.Stores o d
  · have hn := hnest hst
    rw [if_pos hst] at hbuf
    have hkept : ∀ p, s.Reaches p → p < s.stream.recvOffset ∨
        ∃ e ∈ (s.stream.recvBuf.insert o d).entries, e.1 ≤ p ∧ p < e.1 + e.2.length :=
      fun p hp => hp.imp_right (reaches_insert fun e he => (hn e he).2)
    constructor
    · rw [hbuf]
      intro e he f hf hlt
      rcases mem_entries_insert he with rfl | he <;> rcases mem_entries_insert hf with rfl | hf
      · exact absurd hlt (lt_irrefl _)
      · exact (hn f hf).1 hlt
      · exact (hn e he).2 hlt.le
      · exact h.ends e he f hf hlt
    · rw [hbuf, hoff]
      intro e he
      rcases mem_entries_insert he with rfl | he
      · exact hst.2.1.le
      · exact h.ahead e he
    · intro f hf p hle hlt
      show p < (s.stream.receive o d fin).2.recvOffset ∨
        ∃ e ∈ (s.stream.receive o d fin).2.recvBuf.entries, e.1 ≤ p ∧ p < e.1 + e.2.length
      rw [hbuf, hoff]
      have hcases : f = (o, d) ∨ f ∈ s.accepted := by
        split at hf
        · simpa [or_comm] using hf
        · exact .inr hf
      rcases hcases with rfl | hf
      · have hmem := (mem_entries_iff _ o d).mpr
          (get?_insert_self s.stream.recvBuf o d)
        exact .inr ⟨(o, d), hmem, hle, hlt⟩
      · exact hkept p (h.kept f hf p hle hlt)
  · rw [if_neg hst] at hbuf
    constructor
    · rw [hbuf]
      exact h.ends
    · rw [hbuf, hoff]
      exact h.ahead
    · intro f hf p hle hlt
      show p < (s.stream.receive o d fin).2.recvOffset ∨
        ∃ e ∈ (s.stream.receive o d fin).2.recvBuf.entries, e.1 ≤ p ∧ p < e.1 + e.2.length
      rw [hbuf, hoff]
      split at hf
      · next hres =>
          rcases mem_append.mp hf with hf | hf
          · exact h.kept f hf p hle hlt
          · -- accepted without being stored: empty, or read already
            obtain rfl := mem_singleton.mp hf
            rcases hacc hres with hst' | rfl | hold
            · exact absurd hst' hst
            · simp only [length_nil] at hlt
              omega
            · exact .inl (hlt.trans_le hold)
      · exact h.kept f hf p hle hlt

theorem Orderly.read (h : s.Orderly) (maxBytes : Nat) (hok : s.Harmless (.read maxBytes)) :
    ∃ s', s.step (.read maxBytes) = some s' ∧ s'.Orderly := by
  have hends : s.stream.recvBuf.entries.Pairwise
      fun p q => p.1 + p.2.length ≤ q.1 + q.2.length :=
    s.stream.recvBuf.sorted.imp_of_mem fun he hf hlt => h.ends _ he _ hf hlt
  obtain ⟨r, hr, hleft⟩ := readLoop_total maxBytes hends h.ahead
  have hpopped := readLoop_popped_of_not_cuts hr hok
  refine ⟨⟨{ s.stream with
      recvOffset := r.recvOffset
      recvBuf := s.stream.recvBuf.dropFirst r.popped }, s.out ++ r.out, s.accepted⟩, ?_, ?_⟩
  · simp [step, Stream.read, hr]
  · constructor
    · intro e he f hf hlt
      exact h.ends e (mem_of_mem_drop he) f (mem_of_mem_drop hf) hlt
    · exact hleft
    · intro f hf p hle hlt
      have hgrow := (readLoop_recvOffset hr).1
      rcases h.kept f hf p hle hlt with hp | ⟨e, he, hep⟩
      · exact .inl (by dsimp only; omega)
      · rw [← take_append_drop r.popped s.stream.recvBuf.entries, mem_append] at he
        rcases he with he | he
        · exact .inl (hep.2.trans_le (hpopped e he))
        · exact .inr ⟨e, he, hep⟩

variable {call : ReceiveCall}

theorem Orderly.step (h : s.Orderly) (hok : s.Harmless call) :
    ∃ s', s.step call = some s' ∧ s'.Orderly := by
  cases call with
  | receive o d fin => exact h.receive hok
  | read maxBytes => exact h.read maxBytes hok

variable {w : Bytes}

theorem Reading.step {s' : Reception} (h : s.Reading w) (hok : s.Harmless call)
    (hslice : call.IsSlice w) (hstep : s.step call = some s') : s'.Reading w := by
  cases call with
  | receive o d fin =>
    obtain ⟨hoff, hbuf, -⟩ := s.stream.receive_spec fin hok.1
    cases hstep
    refine ⟨?_, ?_, ?_⟩
    · rw [hoff]
      exact h.out_eq
    · rw [hoff]
      exact h.offset_le
    · rw [hbuf]
      intro e he
      split_ifs at he
      · rcases mem_entries_insert he with rfl | he
        · exact hslice
        · exact h.slice e he
      · exact h.slice e he
  | read maxBytes =>
    obtain ⟨⟨bytes, stream⟩, hread, rfl⟩ := Option.map_eq_some_iff.mp hstep
    obtain ⟨r, hr, hpair⟩ := Option.map_eq_some_iff.mp hread
    cases hpair
    have hpre := readLoop_isPrefix hr h.slice
    have hgrow := (readLoop_recvOffset hr).1
    have hlen := hpre.length_le
    rw [length_drop] at hlen
    have hle := h.offset_le
    refine ⟨?_, ?_, fun e he => h.slice e (mem_of_mem_drop he)⟩
    · show s.out ++ r.out = w.take r.recvOffset
      rw [h.out_eq, take_append_of_isPrefix_drop hpre, hgrow]
    · show r.recvOffset ≤ w.length
      omega

/-- **Reading to exhaustion.** A read of more bytes than there are reaches the end of what is
covered. -/
theorem Orderly.read_all (h : s.Orderly) (hw : s.Reading w) {n maxBytes : Nat} (hcover : s.Covers n)
    (hmax : w.length < maxBytes) :
    ∃ bytes stream, s.stream.read maxBytes = some (bytes, stream) ∧ w.take n <+: s.out ++ bytes := by
  have hends : s.stream.recvBuf.entries.Pairwise
      fun p q => p.1 + p.2.length ≤ q.1 + q.2.length :=
    s.stream.recvBuf.sorted.imp_of_mem fun he hf hlt => h.ends _ he _ hf hlt
  obtain ⟨r, hr, -⟩ := readLoop_total maxBytes hends h.ahead
  refine ⟨r.out, _, by rw [Stream.read, hr]; rfl, ?_⟩
  have hpre := readLoop_isPrefix hr hw.slice
  have hgrow := (readLoop_recvOffset hr).1
  have hshort : r.out.length < maxBytes := by
    have hlen := hpre.length_le
    rw [length_drop] at hlen
    omega
  have hpopped := readLoop_popped_of_not_cuts hr (not_readCuts_of_short hr hshort)
  have hgap := readLoop_gap hr s.stream.recvBuf.sorted hshort
  -- the position at which the read stops is not covered
  have hn : n ≤ r.recvOffset := by
    by_contra hlt
    obtain ⟨f, hf, hle, hend⟩ := hcover r.recvOffset (by omega)
    rcases h.kept f hf r.recvOffset hle hend with hp | ⟨e, he, hep⟩
    · omega
    · rw [← take_append_drop r.popped s.stream.recvBuf.entries, mem_append] at he
      rcases he with he | he
      · have := hpopped e he
        omega
      · have := hgap e he
        omega
  rw [hw.out_eq, take_append_of_isPrefix_drop hpre, ← hgrow]
  exact take_prefix_take_left hn

end Reception

/-- **Overlapping segments do no harm**, if each call is harmless: every call returns; and if all
segments are slices of one byte string, then what is read is a prefix of it, and once the accepted
segments cover its first `n` bytes, reading to exhaustion returns at least those. -/
theorem overlapping_segments_harmless (id recvLimit : Nat) (calls : List ReceiveCall)
    (hok : Meets Reception.step Reception.Harmless (Reception.new id recvLimit) calls) :
    ∃ s, exec Reception.step (Reception.new id recvLimit) calls = some s ∧
      ∀ w, (∀ call ∈ calls, call.IsSlice w) →
        s.out <+: w ∧
        ∀ n maxBytes, s.Covers n → w.length < maxBytes →
          ∃ bytes stream, s.stream.read maxBytes = some (bytes, stream) ∧
            w.take n <+: s.out ++ bytes := by
  obtain ⟨s, hrun, hs⟩ := exec_total_of_meets Reception.Orderly
    (fun _ _ h hcall => h.step hcall) (Reception.orderly_new id recvLimit) hok
  refine ⟨s, hrun, ?_⟩
  intro w hslice
  have hw : s.Reading w := exec_invariant_of_meets (Reception.Reading w)
    (fun _ _ _ h hcall hstep => h.step hcall.1 hcall.2 hstep) (Reception.reading_new w id recvLimit)
    (hok.and_forall hslice) hrun
  constructor
  · rw [hw.out_eq]
    exact List.take_prefix _ _
  · intro n maxBytes hcover hmax
    exact hs.read_all hw hcover hmax

def overlappingCalls : List ReceiveCall :=
  [.receive 1 [2, 3] false, .receive 0 [1, 2] false, .receive 1 [2, 3, 4] false, .read 64,
    .receive 3 [4, 5] true]

/-- Those calls do no harm: the rest is read. -/
theorem overlapping_segments_harmless_five :
    ∃ s, exec Reception.step (Reception.new 1 100) overlappingCalls = some s ∧
      s.out <+: [1, 2, 3, 4, 5] ∧
      ∃ bytes stream, s.stream.read 64 = some (bytes, stream) ∧
        [1, 2, 3, 4, 5] <+: s.out ++ bytes := by
  obtain ⟨s, hrun, hs⟩ := overlapping_segments_harmless 1 100 overlappingCalls (by decide +kernel)
  obtain ⟨hpre, hall⟩ := hs [1, 2, 3, 4, 5] (by simp [overlappingCalls, ReceiveCall.IsSlice])
  have hacc : (exec Reception.step (Reception.new 1 100) overlappingCalls).map Reception.accepted
      = some [(1, [2, 3]), (0, [1, 2]), (1, [2, 3, 4]), (3, [4, 5])] := by
    decide +kernel
  rw [hrun, Option.map_some, Option.some.injEq] at hacc
  have hcover : s.Covers 5 := by
    unfold Reception.Covers
    rw [hacc]
    decide
  exact ⟨s, hrun, hpre, hall 5 64 hcover (by decide)⟩

/-- **A segment inside another one.** Both are accepted, and the next read panics. An offset near the
largest one overflows, so that the segment counts as read already. A read of one byte out of two loses
the second, and so does a shorter segment that replaces a longer one. -/
theorem nested_segment_panics :
    exec Reception.step (Reception.new 1 100)
        [.receive 0 [1, 2, 3, 4] false, .receive 1 [2] false, .read 64] = none ∧
      ((Stream.new 1).receive (2 ^ 64 - 1) [1, 2] true).2.finReceived = some 1 ∧
      (exec Reception.step (Reception.new 1 100)
        [.receive 0 [1, 2] false, .read 1, .read 64]).map Reception.out = some [1] ∧
      (exec Reception.step (Reception.new 1 100)
        [.receive 0 [1, 2] false, .receive 0 [1] false, .read 64]).map Reception.out = some [1] := by
  decide +kernel

end SeamProtocol
