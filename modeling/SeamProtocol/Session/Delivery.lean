import SeamProtocol.Session.Stream
import SeamProtocol.Lib.Reassembly
import SeamProtocol.Lib.Run

/-! # Delivery of one stream -/

namespace SeamProtocol

open Lib SortedMap List Option

namespace Stream

/-! ## The read loop -/

/-- Does the byte limit of the read loop fall strictly inside a segment it takes out? -/
def readCuts : Nat → Nat → List (Nat × Bytes) → Bool
  | _, _, [] => false
  | recvOffset, wanted, (offset, data) :: rest =>
    if wanted = 0 ∨ recvOffset < offset then false
    else
      let left := data.length - (recvOffset - offset)
      if wanted < left then true else readCuts (recvOffset + left) (wanted - left) rest

def cutsSegment (s : Stream) (maxBytes : Nat) : Bool :=
  readCuts s.recvOffset maxBytes s.recvBuf.entries

variable {es : List (Nat × Bytes)} {off wanted : Nat} {r : ReadLoop}

theorem readLoop_recvOffset (h : readLoop off wanted es = some r) :
    r.recvOffset = off + r.out.length ∧ r.out.length ≤ wanted := by
  induction es generalizing off wanted r with
  | nil =>
    cases h
    exact ⟨rfl, Nat.zero_le _⟩
  | cons e rest ih =>
    rw [readLoop] at h
    split_ifs at h
    · cases h
      exact ⟨rfl, Nat.zero_le _⟩
    · cases h
      exact ⟨rfl, Nat.zero_le _⟩
    · obtain ⟨r', hr', rfl⟩ := map_eq_some_iff.mp h
      obtain ⟨hoff, hle⟩ := ih hr'
      simp only [length_append, length_take, length_drop] at hoff hle ⊢
      omega

theorem readLoop_popped_of_not_cuts (h : readLoop off wanted es = some r)
    (hcut : readCuts off wanted es = false) :
    ∀ f ∈ es.take r.popped, f.1 + f.2.length ≤ r.recvOffset := by
  induction es generalizing off wanted r with
  | nil => simp
  | cons e rest ih =>
    obtain ⟨o, d⟩ := e
    rw [readLoop] at h
    rw [readCuts] at hcut
    split_ifs at h with hw hgap hidx
    · cases h
      simp
    · cases h
      simp
    · obtain ⟨r', hr', rfl⟩ := map_eq_some_iff.mp h
      have hgo : ¬ (wanted = 0 ∨ off < o) := by tauto
      dsimp only at hcut
      split_ifs at hcut with hin
      have htake : min (d.drop (off - o)).length wanted = d.length - (off - o) := by
        rw [length_drop]
        omega
      rw [htake] at hr'
      have hnext := (readLoop_recvOffset hr').1
      intro f hf
      rcases mem_cons.mp hf with rfl | hf
      · dsimp only at hnext ⊢
        omega
      · exact ih hr' hcut f hf

variable {w : Bytes} {n : Nat} {segs : List (Nat × Bytes)}

theorem readLoop_spec (ht : Tiles w n segs) (hsorted : es.Pairwise fun p q => p.1 < q.1)
    (hoff : off ≤ n) (hes : ∀ f ∈ es, f ∈ segs ∧ f.2 ≠ [] ∧ off < f.1 + f.2.length) :
    ∃ r, readLoop off wanted es = some r ∧ r.out <+: w.drop off ∧ r.recvOffset ≤ n ∧
      ∀ f ∈ es.drop r.popped, r.recvOffset < f.1 + f.2.length := by
  induction es generalizing off wanted with
  | nil => exact ⟨⟨[], off, 0⟩, rfl, nil_prefix, hoff, fun f hf => nomatch hf⟩
  | cons e rest ih =>
    obtain ⟨o, d⟩ := e
    obtain ⟨hmem, hne, hahead⟩ := hes (o, d) mem_cons_self
    rw [pairwise_cons] at hsorted
    rw [readLoop]
    split_ifs with hw hgap hidx
    · exact ⟨_, rfl, nil_prefix, hoff, fun f hf => (hes f hf).2.2⟩
    · exact ⟨_, rfl, nil_prefix, hoff, fun f hf => (hes f hf).2.2⟩
    · -- the index is in range, since reading has not passed the segment
      exact absurd hidx (by dsimp only at hahead; omega)
    · dsimp only
      set piece := (d.drop (off - o)).take (min (d.drop (off - o)).length wanted) with hpiece
      have hplen : piece.length = min (d.drop (off - o)).length wanted := by
        simp [hpiece]
      have hpre : piece <+: w.drop off := by
        have hslice := drop_isPrefix_drop (ht.slice (o, d) hmem) (off - o)
        rw [show o + (off - o) = off by omega] at hslice
        exact (List.take_prefix _ _).trans hslice
      have hend : off + piece.length ≤ o + d.length := by
        rw [hplen, length_drop]
        omega
      -- later segments start at the end of this one or beyond
      have hrest : ∀ f ∈ rest, f ∈ segs ∧ f.2 ≠ [] ∧ off + piece.length < f.1 + f.2.length := by
        intro f hf
        obtain ⟨hfm, hfne, -⟩ := hes f (mem_cons_of_mem _ hf)
        have hlt := hsorted.1 f hf
        have hpos := length_pos_of_ne_nil hfne
        have hle := ht.add_length_le hmem hfm hne hfne hlt
        exact ⟨hfm, hfne, by dsimp only at hle; omega⟩
      obtain ⟨r, hr, hrpre, hrn, hrahead⟩ := @ih (off + piece.length) (wanted - piece.length)
        hsorted.2 (hend.trans (ht.bound (o, d) hmem)) hrest
      rw [← hplen, hr]
      refine ⟨_, rfl, ?_, hrn, hrahead⟩
      obtain ⟨t, ht'⟩ := hpre
      rw [← drop_drop, ← ht', drop_left] at hrpre
      rw [← ht']
      exact (prefix_append_right_inj piece).mpr hrpre

@[simp] theorem readLoop_zero (off : Nat) (es : List (Nat × Bytes)) :
    readLoop off 0 es = some ⟨[], off, 0⟩ := by
  cases es <;> rfl

theorem readLoop_complete (ht : Tiles w n segs) (hsorted : es.Pairwise fun p q => p.1 < q.1)
    (hoff : off ≤ n) (hes : ∀ f ∈ es, f ∈ segs ∧ f.2 ≠ [] ∧ off < f.1 + f.2.length)
    (hcover : ∀ p, off ≤ p → p < n → ∃ f ∈ es, f.1 ≤ p ∧ p < f.1 + f.2.length)
    (hr : readLoop off wanted es = some r) : r.recvOffset = min n (off + wanted) := by
  induction es generalizing off wanted r with
  | nil =>
    cases hr
    have hend : off = n := by
      by_contra hne
      obtain ⟨f, hf, -⟩ := hcover off le_rfl (lt_of_le_of_ne hoff hne)
      cases hf
    dsimp only
    omega
  | cons e rest ih =>
    obtain ⟨o, d⟩ := e
    obtain ⟨hmem, hne, hahead⟩ := hes (o, d) mem_cons_self
    have hend := ht.bound (o, d) hmem
    rw [pairwise_cons] at hsorted
    dsimp only at hahead hend hsorted
    by_cases hw : wanted = 0
    · rw [hw, readLoop_zero] at hr
      cases hr
      dsimp only
      omega
    -- the next byte is stored, so the first segment starts at or below it
    have hstart : o ≤ off := by
      obtain ⟨f, hf, hle, -⟩ := hcover off le_rfl (by omega)
      rcases mem_cons.mp hf with rfl | hf
      · exact hle
      · exact (hsorted.1 f hf).le.trans hle
    rw [readLoop, if_neg hw, if_neg (by omega), if_neg (by omega)] at hr
    obtain ⟨r', hr', rfl⟩ := map_eq_some_iff.mp hr
    show r'.recvOffset = _
    rw [length_drop] at hr'
    by_cases hcut : wanted ≤ d.length - (off - o)
    · -- the last segment needed
      rw [min_eq_right hcut, Nat.sub_self, readLoop_zero] at hr'
      cases hr'
      dsimp only
      omega
    · have hnext : off + (d.length - (off - o)) = o + d.length := by omega
      rw [min_eq_left (by omega), hnext] at hr'
      have hrec : r'.recvOffset
          = min n (o + d.length + (wanted - (d.length - (off - o)))) := by
        refine ih hsorted.2 hend (fun f hf => ?_) (fun p hp hpn => ?_) hr'
        · obtain ⟨hfm, hfne, -⟩ := hes f (mem_cons_of_mem _ hf)
          have hle := ht.add_length_le hmem hfm hne hfne (hsorted.1 f hf)
          have hpos := length_pos_of_ne_nil hfne
          exact ⟨hfm, hfne, by dsimp only at hle; omega⟩
        · obtain ⟨f, hf, hfp⟩ := hcover p (by omega) hpn
          rcases mem_cons.mp hf with rfl | hf
          · dsimp only at hfp
            omega
          · exact ⟨f, hf, hfp⟩
      omega

/-! ## What the receiver has read and what it holds -/

/-- The stream `s` receives the bytes `w`, cut into the segments `segs` up to `n`, and has returned
`out`: what `w` has below the read offset; every stored segment is one of `segs` that reading has not
passed. -/
structure Receiving (s : Stream) (w : Bytes) (n : Nat) (segs : List (Nat × Bytes)) (out : Bytes) :
    Prop where
  out_eq : out = w.take s.recvOffset
  offset_le : s.recvOffset ≤ n
  /-- Stored segments are genuine and still ahead of the read offset. -/
  stored : ∀ o d, s.recvBuf.get? o = some d →
    (o, d) ∈ segs ∧ d ≠ [] ∧ s.recvOffset < o + d.length

/-- Every segment of `acc` is empty, was read, or is stored (perhaps as the front of a longer one). -/
def Holds (s : Stream) (acc : List (Nat × Bytes)) : Prop :=
  ∀ f ∈ acc, f.2 = [] ∨ f.1 + f.2.length ≤ s.recvOffset ∨
    ∃ d, s.recvBuf.get? f.1 = some d ∧ f.2 <+: d

theorem receive_of_le {s : Stream} {o : Nat} {d : Bytes} (fin : Bool)
    (hmax : d ≠ [] → o + d.length ≤ s.recvMaxData ∧ o + d.length < 2 ^ 64) :
    (s.receive o d fin).1 = .ok () ∧ (s.receive o d fin).2.recvOffset = s.recvOffset ∧
      (s.receive o d fin).2.recvMaxData = s.recvMaxData ∧
      (s.receive o d fin).2.recvBuf =
        if d = [] ∨ o + d.length ≤ s.recvOffset then s.recvBuf else s.recvBuf.insert o d := by
  unfold receive
  by_cases hd : d = []
  · cases fin <;> simp [hd]
  · obtain ⟨hle, h64⟩ := hmax hd
    rw [Nat.mod_eq_of_lt h64]
    by_cases hold : o + d.length ≤ s.recvOffset
    · cases fin <;> simp [hd, hold]
    · cases fin <;> simp [hd, hold, Nat.not_lt.mpr hle]

section Receiver

variable {s : Stream} {w : Bytes} {n : Nat} {segs acc : List (Nat × Bytes)} {out : Bytes}

theorem Receiving.of_empty (hoff : s.recvOffset = 0) (hbuf : s.recvBuf = ∅) :
    s.Receiving w n segs [] := by
  refine ⟨by simp [hoff], by omega, fun o d h => ?_⟩
  rw [hbuf, get?_empty] at h
  cases h

section

variable (h : s.Receiving w n segs out)
include h

theorem Receiving.mono (hn : n ≤ w.length) (x : Bytes) {n' : Nat}
    (hn' : n ≤ n') {segs' : List (Nat × Bytes)} (hsegs : segs ⊆ segs') :
    s.Receiving (w ++ x) n' segs' out := by
  refine ⟨?_, h.offset_le.trans hn', fun o d hd => ?_⟩
  · rw [h.out_eq, take_append_of_le_length (h.offset_le.trans hn)]
  · obtain ⟨hmem, hrest⟩ := h.stored o d hd
    exact ⟨hsegs hmem, hrest⟩

/-- **Receiving a genuine segment** that the limit admits succeeds and keeps the invariant. -/
theorem Receiving.receive {o : Nat} {d : Bytes} (fin : Bool)
    (hmem : (o, d) ∈ segs) (hmax : d ≠ [] → o + d.length ≤ s.recvMaxData ∧ o + d.length < 2 ^ 64) :
    (s.receive o d fin).2.Receiving w n segs out := by
  obtain ⟨-, hoff, -, hbuf⟩ := receive_of_le fin hmax
  refine ⟨by rw [hoff, h.out_eq], by rw [hoff]; exact h.offset_le, fun o' d' hd' => ?_⟩
  rw [hbuf] at hd'
  rw [hoff]
  split_ifs at hd' with hdrop
  · exact h.stored o' d' hd'
  · rw [get?_insert] at hd'
    split_ifs at hd' with heq
    · cases hd'
      subst heq
      exact ⟨hmem, fun hnil => hdrop (.inl hnil), Nat.lt_of_not_le fun hle => hdrop (.inr hle)⟩
    · exact h.stored o' d' hd'

theorem Receiving.entries :
    ∀ f ∈ s.recvBuf.entries, f ∈ segs ∧ f.2 ≠ [] ∧ s.recvOffset < f.1 + f.2.length :=
  fun f hf => h.stored f.1 f.2 ((s.recvBuf.mem_entries_iff f.1 f.2).mp hf)

theorem Receiving.read (ht : Tiles w n segs) (maxBytes : Nat) :
    ∃ bytes s', s.read maxBytes = some (bytes, s') ∧ s'.Receiving w n segs (out ++ bytes) ∧
      bytes.length ≤ maxBytes := by
  obtain ⟨r, hr, hpre, hrn, hahead⟩ :=
    readLoop_spec ht s.recvBuf.sorted h.offset_le h.entries
  obtain ⟨hoff, hlen⟩ := readLoop_recvOffset hr
  refine ⟨r.out, _, by rw [Stream.read, hr]; rfl, ⟨?_, hrn, fun o d hd => ?_⟩, hlen⟩
  · rw [hoff, h.out_eq, take_append_of_isPrefix_drop hpre]
  · obtain ⟨hmem, hne, -⟩ := h.stored o d (get?_of_get?_dropFirst hd)
    exact ⟨hmem, hne, hahead (o, d) ((mem_entries_iff _ o d).mpr hd)⟩

end

theorem Holds.receive (h : s.Holds acc) {o : Nat} {d : Bytes} (fin : Bool)
    (hmax : d ≠ [] → o + d.length ≤ s.recvMaxData ∧ o + d.length < 2 ^ 64)
    (hover : d ≠ [] → ∀ d', s.recvBuf.get? o = some d' → d' <+: d) :
    (s.receive o d fin).2.Holds ((o, d) :: acc) := by
  obtain ⟨-, hoff, -, hbuf⟩ := receive_of_le fin hmax
  intro f hf
  rw [hoff, hbuf]
  by_cases hdrop : d = [] ∨ o + d.length ≤ s.recvOffset
  · rw [if_pos hdrop]
    rcases mem_cons.mp hf with rfl | hf
    · exact hdrop.imp_right .inl
    · exact h f hf
  · rw [if_neg hdrop]
    rcases mem_cons.mp hf with rfl | hf
    · exact .inr (.inr ⟨d, get?_insert_self _ _ _, prefix_refl d⟩)
    · refine (h f hf).imp_right (Or.imp_right ?_)
      rintro ⟨d', hd', hpre⟩
      by_cases heq : f.1 = o
      · rw [heq] at hd' ⊢
        exact ⟨d, get?_insert_self _ _ _,
          hpre.trans (hover (fun hnil => hdrop (.inl hnil)) d' hd')⟩
      · exact ⟨d', by rw [get?_insert_of_ne _ _ heq, hd'], hpre⟩

variable {maxBytes : Nat} {s' : Stream}

theorem Holds.read (h : s.Holds acc) (hread : s.read maxBytes = some (bytes, s'))
    (hcut : s.cutsSegment maxBytes = false) : s'.Holds acc := by
  obtain ⟨r, hr, heq⟩ := map_eq_some_iff.mp hread
  cases heq
  have hoff := (readLoop_recvOffset hr).1
  intro f hf
  rcases h f hf with hnil | hpast | ⟨d, hd, hpre⟩
  · exact .inl hnil
  · dsimp only
    omega
  · rcases mem_take_or_get?_dropFirst r.popped hd with hgone | hkept
    · have hend := readLoop_popped_of_not_cuts hr hcut _ hgone
      have hlen := hpre.length_le
      dsimp only at hend ⊢
      omega
    · exact .inr (.inr ⟨d, hkept, hpre⟩)

/-- **Nothing is missing**: if all segments are held, a read returns the next `maxBytes` bytes of
what was sent, or all that is left of it. -/
theorem Receiving.read_all (h : s.Receiving w n segs out) (ht : Tiles w n segs) (hall : s.Holds segs)
    (hread : s.read maxBytes = some (bytes, s')) :
    out ++ bytes = w.take (min n (s.recvOffset + maxBytes)) := by
  obtain ⟨r, hr, heq⟩ := map_eq_some_iff.mp hread
  cases heq
  obtain ⟨r', hr', hpre, -, -⟩ :=
    readLoop_spec ht s.recvBuf.sorted h.offset_le h.entries
  rw [hr] at hr'
  cases hr'
  have hcover : ∀ p, s.recvOffset ≤ p → p < n →
      ∃ f ∈ s.recvBuf.entries, f.1 ≤ p ∧ p < f.1 + f.2.length := by
    intro p hp hpn
    obtain ⟨f, hf, hlo, hhi⟩ := ht.cover p hpn
    rcases hall f hf with hnil | hpast | ⟨d, hd, hpred⟩
    · rw [hnil, length_nil] at hhi
      omega
    · omega
    · exact ⟨(f.1, d), (mem_entries_iff _ _ _).mpr hd, hlo,
        hhi.trans_le (Nat.add_le_add_left hpred.length_le _)⟩
  have hend := readLoop_complete ht s.recvBuf.sorted h.offset_le h.entries hcover hr
  rw [h.out_eq, take_append_of_isPrefix_drop hpre, ← (readLoop_recvOffset hr).1, hend]

end Receiver

/-! ## What the sender has cut off -/

/-- The stream `s` has accepted the bytes `w` and cut all but its send buffer into `segs`. -/
structure Sending (s : Stream) (w : Bytes) (segs : List (Nat × Bytes)) : Prop where
  offset_eq : s.sendOffset = w.length
  buf_suffix : s.sendBuf <:+ w
  tiles : Tiles w (w.length - s.sendBuf.length) segs

section Sender

variable {s : Stream} {w : Bytes} {segs : List (Nat × Bytes)}

theorem Sending.of_empty (hoff : s.sendOffset = 0) (hbuf : s.sendBuf = []) : s.Sending [] [] := by
  refine ⟨by simp [hoff], by rw [hbuf], ?_⟩
  rw [hbuf]
  exact Tiles.nil []

theorem write_cases (s : Stream) (data : Bytes) :
    (∃ e, s.write data = (.error e, s)) ∨
    (s.finSent = false ∧ saturatingAdd s.sendOffset data.length ≤ s.sendMaxData ∧
      s.write data = (.ok s.sendOffset,
        { s with sendBuf := s.sendBuf ++ data, sendOffset := s.sendOffset + data.length })) := by
  unfold write
  split_ifs with hfin hmax
  · exact .inl ⟨_, rfl⟩
  · exact .inl ⟨_, rfl⟩
  · exact .inr ⟨by simpa using hfin, Nat.not_lt.mp hmax, rfl⟩

theorem Sending.append (h : s.Sending w segs) (data : Bytes) :
    Sending { s with sendBuf := s.sendBuf ++ data, sendOffset := s.sendOffset + data.length }
      (w ++ data) segs := by
  obtain ⟨t, ht⟩ := h.buf_suffix
  refine ⟨?_, ⟨t, ?_⟩, ?_⟩
  · simp [← h.offset_eq]
  · rw [← append_assoc, ht]
  · have hlen : (w ++ data).length - (s.sendBuf ++ data).length
        = w.length - s.sendBuf.length := by
      rw [length_append, length_append]
      omega
    rw [hlen]
    exact h.tiles.write data

theorem Sending.pollSend (h : s.Sending w segs) {maxBytes : Nat} {seg : Nat × Bytes} {s' : Stream}
    (hpoll : s.pollSend maxBytes = some (seg, s')) : s'.Sending w (segs ++ [seg]) := by
  unfold Stream.pollSend at hpoll
  split at hpoll
  · cases hpoll
  · cases hpoll
    have hle := h.buf_suffix.length_le
    have hbuf := suffix_iff_eq_drop.mp h.buf_suffix
    set k := min s.sendBuf.length maxBytes with hk
    have hklen : (s.sendBuf.take k).length = k := by
      rw [length_take]
      omega
    refine ⟨h.offset_eq, (drop_suffix k _).trans h.buf_suffix, ?_⟩
    have hcut : s.sendBuf.take k <+: w.drop (w.length - s.sendBuf.length) := by
      rw [← hbuf]
      exact take_prefix k _
    have hsnoc := h.tiles.snoc hcut
    have hlen : w.length - s.sendBuf.length + (s.sendBuf.take k).length
        = w.length - (s.sendBuf.drop k).length := by
      rw [hklen, length_drop]
      omega
    rw [hlen] at hsnoc
    rw [h.offset_eq]
    exact hsnoc

end Sender

end Stream

/-! ## A sending and a receiving stream -/

structure Link where
  snd : Stream
  rcv : Stream
  written : Bytes
  segs : List (Nat × Bytes)
  delivered : List (Nat × Bytes)
  out : Bytes

inductive LinkOp where
  | write (data : Bytes)
  | pollSend (maxBytes : Nat)
  /-- Deliver the segment with this index, perhaps again, to the receiver. -/
  | deliver (i : Nat)
  | read (maxBytes : Nat)

namespace Link

def new (id sendLimit : Nat) (recvLimit : UInt64) : Link :=
  { snd := (Stream.new id).extendSendWindow sendLimit
    rcv := (Stream.new id).setRecvLimit recvLimit.toNat
    written := []
    segs := []
    delivered := []
    out := [] }

def step (l : Link) : LinkOp → Option Link
  | .write data =>
    match l.snd.write data with
    | (.ok _, snd) => some { l with snd, written := l.written ++ data }
    | (.error _, snd) => some { l with snd }
  | .pollSend maxBytes =>
    match l.snd.pollSend maxBytes with
    | some (seg, snd) => some { l with snd, segs := l.segs ++ [seg] }
    | none => some l
  | .deliver i =>
    match l.segs[i]? with
    | some (offset, data) => some { l with
        rcv := (l.rcv.receive offset data false).2
        delivered := (offset, data) :: l.delivered }
    | none => none
  | .read maxBytes =>
    match l.rcv.read maxBytes with
    | some (bytes, rcv) => some { l with rcv, out := l.out ++ bytes }
    | none => none

def sentLen (l : Link) : Nat := l.written.length - l.snd.sendBuf.length

def readsWhole (l : Link) : LinkOp → Bool
  | .read maxBytes => !l.rcv.cutsSegment maxBytes
  | _ => true

structure Inv (recvLimit : UInt64) (l : Link) : Prop where
  sending : l.snd.Sending l.written l.segs
  receiving : l.rcv.Receiving l.written l.sentLen l.segs l.out
  limit : l.rcv.recvMaxData = recvLimit.toNat
  delivered : l.delivered ⊆ l.segs

theorem inv_new (id sendLimit : Nat) (recvLimit : UInt64) :
    Inv recvLimit (new id sendLimit recvLimit) := by
  have hsnd : (new id sendLimit recvLimit).snd.sendOffset = 0 ∧
      (new id sendLimit recvLimit).snd.sendBuf = [] := by
    unfold new Stream.extendSendWindow
    split <;> exact ⟨rfl, rfl⟩
  exact ⟨Stream.Sending.of_empty hsnd.1 hsnd.2, Stream.Receiving.of_empty rfl rfl, rfl,
    nil_subset _⟩

variable {l l' : Link} {op : LinkOp}

theorem length_written_le (h : l.step op = some l') : l.written.length ≤ l'.written.length := by
  unfold step at h
  split at h <;> split at h <;> cases h <;> simp

variable {recvLimit : UInt64}

theorem Inv.seg_fits (h : Inv recvLimit l) (hfit : l.written.length ≤ recvLimit.toNat) {o : Nat}
    {d : Bytes} (hmem : (o, d) ∈ l.segs) :
    o + d.length ≤ l.rcv.recvMaxData ∧ o + d.length < 2 ^ 64 := by
  have hlt := recvLimit.toNat_lt
  have hle : o + d.length ≤ _ := h.sending.tiles.bound (o, d) hmem
  rw [h.limit]
  omega

theorem inv_step (hi : Inv recvLimit l) (hfit : l.written.length ≤ recvLimit.toNat)
    (h : l.step op = some l') : Inv recvLimit l' := by
  cases op with
  | write data =>
    rcases l.snd.write_cases data with ⟨e, hw⟩ | ⟨-, -, hw⟩
    · rw [step, hw] at h
      cases h
      exact hi
    · rw [step, hw] at h
      cases h
      have hsend := hi.sending.append data
      have hsent : l.sentLen ≤ (l.written ++ data).length - (l.snd.sendBuf ++ data).length := by
        rw [sentLen, length_append, length_append]
        omega
      exact ⟨hsend, hi.receiving.mono (Nat.sub_le _ _) data hsent (List.Subset.refl _), hi.limit,
        hi.delivered⟩
  | pollSend maxBytes =>
    rw [step] at h
    split at h
    · next seg snd hpoll =>
        cases h
        have hsend := hi.sending.pollSend hpoll
        have hsent : l.sentLen ≤ l.written.length - snd.sendBuf.length := by
          unfold Stream.pollSend at hpoll
          split at hpoll
          · cases hpoll
          · cases hpoll
            rw [sentLen, length_drop]
            omega
        have hrcv := hi.receiving.mono (Nat.sub_le _ _) [] hsent
          (subset_append_left l.segs [seg])
        rw [append_nil] at hrcv
        exact ⟨hsend, hrcv, hi.limit, List.Subset.trans hi.delivered
          (subset_append_left _ _)⟩
    · cases h
      exact hi
  | deliver i =>
    rw [step] at h
    split at h
    · next o d hseg =>
        cases h
        have hmem : (o, d) ∈ l.segs := mem_of_getElem? hseg
        have hmax := hi.seg_fits hfit hmem
        refine ⟨hi.sending, hi.receiving.receive false hmem fun _ => hmax, ?_,
          cons_subset.mpr ⟨hmem, hi.delivered⟩⟩
        exact (Stream.receive_of_le false fun _ => hmax).2.2.1.trans hi.limit
    · cases h
  | read maxBytes =>
    obtain ⟨bytes, rcv, hread, hrcv, -⟩ := hi.receiving.read hi.sending.tiles maxBytes
    rw [step, hread] at h
    cases h
    refine ⟨hi.sending, hrcv, ?_, hi.delivered⟩
    obtain ⟨r, -, heq⟩ := map_eq_some_iff.mp hread
    cases heq
    exact hi.limit

theorem holds_step (hi : Inv recvLimit l) (hfit : l.written.length ≤ recvLimit.toNat)
    (hh : l.rcv.Holds l.delivered) (hok : l.readsWhole op = true) (h : l.step op = some l') :
    l'.rcv.Holds l'.delivered := by
  cases op with
  | write data | pollSend maxBytes =>
    rw [step] at h
    split at h <;> cases h <;> exact hh
  | deliver i =>
    rw [step] at h
    split at h
    · next o d hseg =>
        cases h
        have hmem : (o, d) ∈ l.segs := mem_of_getElem? hseg
        refine hh.receive false (fun _ => hi.seg_fits hfit hmem) fun hd d' hd' => ?_
        obtain ⟨hmem', hne', -⟩ := hi.receiving.stored o d' hd'
        rw [hi.sending.tiles.eq_of_offset_eq hmem' hmem hne' hd]
    · cases h
  | read maxBytes =>
    rw [step] at h
    split at h
    · next bytes rcv hread =>
        cases h
        exact hh.read hread (by simpa [readsWhole] using hok)
    · cases h

variable {id sendLimit : Nat} {ops : List LinkOp}

theorem inv_run (hrun : exec step (new id sendLimit recvLimit) ops = some l)
    (hfit : l.written.length ≤ recvLimit.toNat) : Inv recvLimit l := by
  refine exec_invariant (fun l => l.written.length ≤ recvLimit.toNat → Inv recvLimit l) ?_
    (fun _ => inv_new id sendLimit recvLimit) hrun hfit
  intro l op l' hi hstep hfit'
  have hle := (length_written_le hstep).trans hfit'
  exact inv_step (hi hle) hle hstep

theorem holds_run (hrun : exec step (new id sendLimit recvLimit) ops = some l)
    (hok : Meets step (fun l op => l.readsWhole op = true) (new id sendLimit recvLimit) ops)
    (hfit : l.written.length ≤ recvLimit.toNat) : l.rcv.Holds l.delivered := by
  refine (exec_invariant_of_meets
    (fun l => l.written.length ≤ recvLimit.toNat → Inv recvLimit l ∧ l.rcv.Holds l.delivered) ?_
    (fun _ => ⟨inv_new id sendLimit recvLimit, fun f hf => nomatch hf⟩) hok hrun hfit).2
  intro l op l' hi hop hstep hfit'
  have hle := (length_written_le hstep).trans hfit'
  exact ⟨inv_step (hi hle).1 hle hstep, holds_step (hi hle).1 hle (hi hle).2 hop hstep⟩

end Link

/-- **Delivery of one stream.** In every run whose written bytes fit the receive limit, every read
returns, and what was returned is a prefix of what was written. If no read stops inside a stored
segment, then once all segments have been delivered, every read returns the next bytes of what was sent,
up to its limit. -/
theorem linkRun_delivery (id sendLimit : Nat) (recvLimit : UInt64) (ops : List LinkOp) (l : Link)
    (hrun : exec Link.step (Link.new id sendLimit recvLimit) ops = some l)
    (hfit : l.written.length ≤ recvLimit.toNat) :
    l.out <+: l.written ∧
    (∀ maxBytes, ∃ bytes rcv, l.rcv.read maxBytes = some (bytes, rcv) ∧
      l.out ++ bytes <+: l.written) ∧
    (Meets Link.step (fun l op => l.readsWhole op = true) (Link.new id sendLimit recvLimit) ops →
      (∀ seg ∈ l.segs, seg ∈ l.delivered) →
      ∀ maxBytes, ∃ rcv, l.rcv.read maxBytes =
        some (((l.written.take l.sentLen).drop l.out.length).take maxBytes, rcv)) := by
  have hi := Link.inv_run hrun hfit
  refine ⟨?_, fun maxBytes => ?_, fun hok hall maxBytes => ?_⟩
  · rw [hi.receiving.out_eq]
    exact List.take_prefix _ _
  · obtain ⟨bytes, rcv, hread, hrcv, -⟩ := hi.receiving.read hi.sending.tiles maxBytes
    refine ⟨bytes, rcv, hread, ?_⟩
    rw [hrcv.out_eq]
    exact List.take_prefix _ _
  · obtain ⟨bytes, rcv, hread, -, -⟩ := hi.receiving.read hi.sending.tiles maxBytes
    have hheld : l.rcv.Holds l.segs := fun seg hseg =>
      Link.holds_run hrun hok hfit seg (hall seg hseg)
    have hcat := hi.receiving.read_all hi.sending.tiles hheld hread
    have hlen : l.out.length = l.rcv.recvOffset := by
      have hle := hi.receiving.offset_le
      rw [hi.receiving.out_eq, List.length_take]
      unfold Link.sentLen at hle
      omega
    have hbytes : bytes = ((l.written.take l.sentLen).drop l.out.length).take maxBytes := by
      rw [List.take_drop, List.take_take, hlen, min_comm, ← hcat, ← hlen, List.drop_left]
    exact ⟨rcv, by rw [hread, hbytes]⟩

def outOfOrderOps : List LinkOp :=
  [.write [1, 2, 3], .pollSend 2, .pollSend 2, .deliver 1, .deliver 0, .read 2, .deliver 1]

/-- The run of `outOfOrderOps` meets the conditions, and the next read returns the rest. -/
theorem linkRun_delivery_out_of_order :
    ∃ l, exec Link.step (Link.new 1 0 100) outOfOrderOps = some l ∧
      l.written.length ≤ (100 : UInt64).toNat ∧ l.out = [1, 2] ∧
      ∃ rcv, l.rcv.read 7 = some ([3], rcv) :=
  ⟨_, rfl, by decide, by decide,
    (linkRun_delivery 1 0 100 outOfOrderOps _ rfl (by decide)).2.2 (by decide) (by decide) 7⟩

/-- A read that stops inside a segment drops the rest of it: of the two bytes written, sent and
delivered, the first read returns one, and every later read returns nothing. -/
theorem read_inside_segment_loses_bytes :
    ∃ l, exec Link.step (Link.new 1 0 100) [.write [1, 2], .pollSend 2, .deliver 0, .read 1]
        = some l ∧ (∀ seg ∈ l.segs, seg ∈ l.delivered) ∧ l.written = [1, 2] ∧ l.out = [1] ∧
      ∀ maxBytes, ∃ rcv, l.rcv.read maxBytes = some ([], rcv) :=
  ⟨_, rfl, by decide, rfl, rfl, fun maxBytes => ⟨_, rfl⟩⟩

end SeamProtocol
