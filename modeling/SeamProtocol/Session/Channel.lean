import SeamProtocol.Session.Calls

/-! # One direction of a stream

A stream of the sending session and that of the same id of the receiving one. The frames between them
may arrive in any order, any number of times or never. -/

namespace SeamProtocol

open Lib List

def segments (frames : List StreamFrame) : List (Nat × Bytes) :=
  (frames.filter fun f => !f.isFin).map fun f => (f.offset, f.data)

theorem mem_segments {frames : List StreamFrame} {f : StreamFrame} (hf : f ∈ frames)
    (hfin : f.isFin = false) : (f.offset, f.data) ∈ segments frames :=
  mem_map.mpr ⟨f, mem_filter.mpr ⟨hf, by rw [hfin]; rfl⟩, rfl⟩

variable (frames : List StreamFrame)

theorem segments_snoc_data (id offset : Nat) (data : Bytes) :
    segments (frames ++ [⟨id, offset, data, false⟩]) = segments frames ++ [(offset, data)] := by
  simp [segments]

theorem segments_snoc_fin (id offset : Nat) (data : Bytes) :
    segments (frames ++ [⟨id, offset, data, true⟩]) = segments frames := by
  simp [segments]

namespace Stream

variable {s s' : Stream} {w : Bytes} {segs : List (Nat × Bytes)}

theorem Sending.congr (h : s.Sending w segs) (hoff : s'.sendOffset = s.sendOffset)
    (hbuf : s'.sendBuf = s.sendBuf) : s'.Sending w segs :=
  ⟨hoff ▸ h.offset_eq, hbuf ▸ h.buf_suffix, hbuf ▸ h.tiles⟩

theorem Receiving.congr {out : Bytes} {n : Nat} (h : s.Receiving w n segs out)
    (hoff : s'.recvOffset = s.recvOffset) (hbuf : s'.recvBuf = s.recvBuf) : s'.Receiving w n segs out :=
  ⟨hoff ▸ h.out_eq, hoff ▸ h.offset_le, fun o d hd => hoff ▸ h.stored o d (hbuf ▸ hd)⟩

instance (s : Stream) (acc : List (Nat × Bytes)) : Decidable (s.Holds acc) :=
  decidable_of_iff (∀ f ∈ acc, f.2 = [] ∨ f.1 + f.2.length ≤ s.recvOffset ∨
      ∃ d ∈ s.recvBuf.get? f.1, f.2 <+: d) Iff.rfl

theorem receive_finReceived (s : Stream) (offset : Nat) (data : Bytes) (isFin : Bool) :
    (s.receive offset data isFin).2.finReceived =
      if isFin then some ((offset + data.length) % 2 ^ 64) else s.finReceived := by
  unfold receive
  cases isFin <;> dsimp only <;> split_ifs <;> rfl

end Stream

/-- One direction of a stream: `snd` has accepted the bytes `w` and sent the frames `frames`, and from
`rcv` the bytes `out` have been read. -/
structure Channel (snd rcv : Stream) (w out : Bytes) (frames : List StreamFrame) : Prop where
  /-- The data frames cut up what was written, up to the send buffer. -/
  sending : snd.Sending w (segments frames)
  window : snd.sendMaxData = Stream.defaultWindow ∧ w.length ≤ Stream.defaultWindow
  /-- A FIN frame stands at the end of all that will ever be written. -/
  ends : ∀ f ∈ frames, f.isFin = true →
    f.data = [] ∧ f.offset = w.length ∧ snd.finSent = true ∧ snd.sendBuf = []
  /-- The receiver has returned the front of what was written, and stores segments of it. -/
  receiving : rcv.Receiving w (w.length - snd.sendBuf.length) (segments frames) out
  limit : rcv.recvMaxData = Stream.defaultWindow
  noted : ∀ off, rcv.finReceived = some off → ∃ f ∈ frames, f.isFin = true ∧ f.offset = off

namespace Channel

variable {snd rcv snd' rcv' : Stream} {w out : Bytes} {frames : List StreamFrame}

theorem new (id id' : Nat) : Channel (Stream.new id) (Stream.new id') [] [] [] := by
  refine ⟨Stream.Sending.of_empty rfl rfl, ⟨rfl, Nat.zero_le _⟩, fun f hf => ?_,
    Stream.Receiving.of_empty rfl rfl, rfl, fun off h => ?_⟩
  · exact (not_mem_nil hf).elim
  · cases h

variable (h : Channel snd rcv w out frames)
include h

theorem congr (hsnd : snd'.sendSide = snd.sendSide)
    (hrcv : rcv'.recvSide = rcv.recvSide) : Channel snd' rcv' w out frames := by
  have hoff : snd'.sendOffset = snd.sendOffset := congrArg Stream.SendSide.sendOffset hsnd
  have hbuf : snd'.sendBuf = snd.sendBuf := congrArg Stream.SendSide.sendBuf hsnd
  have hmax : snd'.sendMaxData = snd.sendMaxData := congrArg Stream.SendSide.sendMaxData hsnd
  have hfin : snd'.finSent = snd.finSent := congrArg Stream.SendSide.finSent hsnd
  have hlimit : rcv'.recvMaxData = rcv.recvMaxData := congrArg Stream.RecvSide.recvMaxData hrcv
  have hnoted : rcv'.finReceived = rcv.finReceived := congrArg Stream.RecvSide.finReceived hrcv
  refine ⟨h.sending.congr hoff hbuf, hmax ▸ h.window, ?_, ?_, hlimit ▸ h.limit, hnoted ▸ h.noted⟩
  · rw [hbuf, hfin]
    exact h.ends
  · rw [hbuf]
    exact h.receiving.congr (congrArg Stream.RecvSide.recvOffset hrcv)
      (congrArg Stream.RecvSide.recvBuf hrcv)

theorem write {data : Bytes} (hfin : snd.finSent = false)
    (hmax : saturatingAdd snd.sendOffset data.length ≤ snd.sendMaxData) :
    Channel { snd with sendBuf := snd.sendBuf ++ data, sendOffset := snd.sendOffset + data.length }
      rcv (w ++ data) out frames := by
  have hlen : (w ++ data).length - (snd.sendBuf ++ data).length
      = w.length - snd.sendBuf.length := by
    rw [length_append, length_append]
    omega
  refine ⟨h.sending.append data, ⟨h.window.1, ?_⟩, fun f hf hisFin => ?_, ?_, h.limit, h.noted⟩
  · rw [h.window.1, saturatingAdd, h.sending.offset_eq] at hmax
    unfold Stream.defaultWindow at hmax ⊢
    rw [length_append]
    omega
  · have hend := h.ends f hf hisFin
    rw [hfin] at hend
    exact absurd hend.2.2.1 Bool.false_ne_true
  · rw [hlen]
    exact h.receiving.mono (Nat.sub_le _ _) data le_rfl (List.Subset.refl _)

theorem finish : Channel snd.finish rcv w out frames := by
  refine ⟨h.sending.congr rfl rfl, h.window, fun f hf hisFin => ?_, h.receiving, h.limit, h.noted⟩
  obtain ⟨hdata, hoff, -, hbuf⟩ := h.ends f hf hisFin
  exact ⟨hdata, hoff, rfl, hbuf⟩

variable {maxBytes : Nat}

theorem pollSend {seg : Nat × Bytes} (hpoll : snd.pollSend maxBytes = some (seg, snd')) (id : Nat) :
    Channel snd' rcv w out (frames ++ [⟨id, seg.1, seg.2, false⟩]) := by
  have hsending := h.sending.pollSend hpoll
  -- only the send buffer changes, and it was not empty
  obtain ⟨hne, buf, rfl, hlen⟩ : snd.sendBuf ≠ [] ∧ ∃ buf, snd' = { snd with sendBuf := buf } ∧
      buf.length ≤ snd.sendBuf.length := by
    unfold Stream.pollSend at hpoll
    split at hpoll
    · cases hpoll
    · next hempty =>
        cases hpoll
        exact ⟨fun hnil => hempty (by rw [hnil]; rfl), _, rfl, (drop_sublist _ _).length_le⟩
  rw [← segments_snoc_data frames id] at hsending
  refine ⟨hsending, h.window, fun f hf hisFin => ?_, ?_, h.limit, fun off hoff => ?_⟩
  · rcases mem_append.mp hf with hf | hf
    · exact absurd (h.ends f hf hisFin).2.2.2 hne
    · rw [mem_singleton.mp hf] at hisFin
      cases hisFin
  · have hmono : rcv.Receiving (w ++ []) (w.length - buf.length)
        (segments (frames ++ [⟨id, seg.1, seg.2, false⟩])) out :=
      h.receiving.mono (Nat.sub_le _ _) [] (by omega)
        (by rw [segments_snoc_data]; exact subset_append_left _ _)
    rwa [append_nil] at hmono
  · obtain ⟨f, hf, hrest⟩ := h.noted off hoff
    exact ⟨f, mem_append_left _ hf, hrest⟩

theorem sendFin (hshould : snd.shouldSendFin = true) (id : Nat) :
    Channel snd.markFinFlushed rcv w out (frames ++ [⟨id, snd.sendOffset, [], true⟩]) := by
  obtain ⟨⟨hfin, -⟩, hempty⟩ : (snd.finSent = true ∧ (!snd.finFlushed) = true) ∧
      snd.sendBuf.isEmpty = true := by
    simpa [Stream.shouldSendFin] using hshould
  have hbuf : snd.sendBuf = [] := isEmpty_iff.mp hempty
  have hsegs : segments (frames ++ [⟨id, snd.sendOffset, [], true⟩]) = segments frames :=
    segments_snoc_fin _ _ _ _
  refine ⟨?_, h.window, fun f hf hisFin => ?_, ?_, h.limit, fun off hoff => ?_⟩
  · rw [hsegs]
    exact h.sending.congr rfl rfl
  · rcases mem_append.mp hf with hf | hf
    · exact h.ends f hf hisFin
    · rw [mem_singleton.mp hf]
      exact ⟨rfl, h.sending.offset_eq, hfin, hbuf⟩
  · rw [hsegs]
    exact h.receiving
  · obtain ⟨f, hf, hrest⟩ := h.noted off hoff
    exact ⟨f, mem_append_left _ hf, hrest⟩

variable {f : StreamFrame}

theorem frame_le (hf : f ∈ frames) : f.offset + f.data.length ≤ w.length := by
  cases hfin : f.isFin with
  | true =>
    obtain ⟨hdata, hoff, -, -⟩ := h.ends f hf hfin
    simp [hdata, hoff]
  | false => exact (h.sending.tiles.bound _ (mem_segments hf hfin)).trans (Nat.sub_le _ _)

theorem frame_fits (hf : f ∈ frames) :
    f.offset + f.data.length ≤ rcv.recvMaxData ∧ f.offset + f.data.length < 2 ^ 64 := by
  have hle := h.frame_le hf
  have hwindow := h.window.2
  rw [h.limit]
  unfold Stream.defaultWindow at hwindow ⊢
  omega

theorem receive (hf : f ∈ frames) :
    (rcv.receive f.offset f.data f.isFin).1 = .ok () ∧
      Channel snd (rcv.receive f.offset f.data f.isFin).2 w out frames := by
  have hfits := h.frame_fits hf
  obtain ⟨hok, hoff, hmax, hbuf⟩ := Stream.receive_of_le (s := rcv) f.isFin fun _ => hfits
  refine ⟨hok, h.sending, h.window, h.ends, ?_, hmax.trans h.limit, fun off hnoted => ?_⟩
  · cases hfin : f.isFin with
    | true =>
      -- a FIN frame carries no data
      obtain ⟨hdata, -⟩ := h.ends f hf hfin
      rw [hdata, hfin] at hoff hbuf
      rw [hdata]
      exact h.receiving.congr hoff (hbuf.trans (if_pos (.inl rfl)))
    | false => exact h.receiving.receive false (mem_segments hf hfin) fun _ => hfits
  · rw [Stream.receive_finReceived] at hnoted
    cases hfin : f.isFin with
    | true =>
      rw [hfin, if_pos rfl, Nat.mod_eq_of_lt hfits.2, (h.ends f hf hfin).1] at hnoted
      exact ⟨f, hf, hfin, Option.some.inj hnoted⟩
    | false =>
      rw [hfin, if_neg Bool.false_ne_true] at hnoted
      exact h.noted off hnoted

theorem read {bytes : Bytes} (hread : rcv.read maxBytes = some (bytes, rcv')) :
    Channel snd rcv' w (out ++ bytes) frames := by
  obtain ⟨bytes', s, hs, hreceiving, -⟩ := h.receiving.read h.sending.tiles maxBytes
  rw [hread] at hs
  cases hs
  obtain ⟨popped, rfl⟩ := Stream.read_eq_some hread
  exact ⟨h.sending, h.window, h.ends, hreceiving, h.limit, h.noted⟩

theorem noted_eq {off : Nat} (hoff : rcv.finReceived = some off) :
    off = w.length ∧ snd.finSent = true ∧ snd.sendBuf = [] := by
  obtain ⟨f, hf, hfin, rfl⟩ := h.noted off hoff
  exact (h.ends f hf hfin).2

theorem read_rest (hbuf : snd.sendBuf = [])
    (hall : rcv.Holds (segments frames)) :
    ∃ rest rcv', rcv.read w.length = some (rest, rcv') ∧ out ++ rest = w := by
  obtain ⟨rest, rcv', hread, -, -⟩ := h.receiving.read h.sending.tiles w.length
  refine ⟨rest, rcv', hread, ?_⟩
  simp [h.receiving.read_all h.sending.tiles hall hread, hbuf]

/-- **A stream that is announced as finished has everything**, if the FIN does not overtake data. -/
theorem complete_of_finished (hf : f ∈ frames) (hlast : f.isFin = true → rcv.Holds (segments frames))
    (hrcv' : rcv' = (rcv.receive f.offset f.data f.isFin).2)
    (hcause : (f.isFin || rcv'.isRecvFinished) = true) :
    rcv'.finReceived = some w.length ∧ snd.finSent = true ∧ snd.sendBuf = [] ∧
      rcv'.Holds (segments frames) := by
  have hreceived := (h.receive hf).2
  rw [← hrcv'] at hreceived
  -- the end was noted, now or before
  obtain ⟨off, hoff⟩ : ∃ off, rcv'.finReceived = some off := by
    rcases Bool.or_eq_true_iff.mp hcause with hisFin | hdone
    · exact ⟨_, by rw [hrcv', Stream.receive_finReceived, if_pos hisFin]⟩
    · unfold Stream.isRecvFinished at hdone
      split at hdone
      · next off hoff => exact ⟨off, hoff⟩
      · cases hdone
  obtain ⟨rfl, hfin, hbuf⟩ := hreceived.noted_eq hoff
  refine ⟨hoff, hfin, hbuf, ?_⟩
  rcases Bool.or_eq_true_iff.mp hcause with hisFin | hdone
  · have hdata := (h.ends f hf hisFin).1
    have hheld := (hlast hisFin).receive f.isFin (fun _ => h.frame_fits hf)
      fun hne => absurd hdata hne
    rw [← hrcv'] at hheld
    exact fun g hg => hheld g (mem_cons_of_mem _ hg)
  · -- everything was read
    rw [Stream.isRecvFinished, hoff] at hdone
    have hread := of_decide_eq_true hdone
    exact fun g hg => .inr (.inl (((hreceived.sending.tiles.bound g hg).trans
      (Nat.sub_le _ _)).trans hread))

end Channel

end SeamProtocol
