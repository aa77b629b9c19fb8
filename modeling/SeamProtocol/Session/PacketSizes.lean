import SeamProtocol.Session.Atomic

/-! # The sizes of the packets of a flush

Stream data is cut into chunks of `MAX_PAYLOAD - 14` bytes, but the header of a stream frame has 16; and
neither an ACK frame nor a datagram is measured before it is sealed. -/

namespace SeamProtocol

open Lib List

/-- The wire size of a Data packet with a chunk of the largest size. -/
def largestDataPacket : Nat := encodeBufLen (16 + (maxPayload - 14))

namespace Session

variable {s : Session} {now : Nat} {em : Emission} {d : Draft}

theorem draft_data_le (h : s.draft now em = some d) (hdata : d.pktType = .data) :
    d.payload.length ≤ 16 + (maxPayload - 14) := by
  rcases draft_shape h with
    ⟨id, stream, seg, stream', -, -, hpoll, rfl⟩ | ⟨id, stream, -, -, -, rfl⟩ | ⟨-, -, htype, -⟩
  · simpa using Stream.pollSend_length_le hpoll
  · simp
  · simp [hdata] at htype

structure Compact (s : Session) : Prop where
  streams : ∀ id, 16 + (s.unsent id).length ≤ maxPayload
  datagrams : ∀ dg ∈ s.datagrams.sendQueue, encodeBufLen dg.length ≤ maxPacketLen
  /-- A range after the first takes 16 bytes of an ACK frame. -/
  ack : s.ackRanges.ackPending = true →
    encodeBufLen (26 + 16 * (s.ackRanges.ranges.length - 1)) ≤ maxPacketLen

def Fits (pktType : PktType) (payload : Bytes) : Prop :=
  (pktType = .data → payload.length ≤ maxPayload) ∧ encodeBufLen payload.length ≤ maxPacketLen

theorem draft_fits (h : s.draft now em = some d) (hs : s.Compact) :
    d.sess.Compact ∧ Fits d.pktType d.payload := by
  have hstreams : ∀ id, 16 + (d.sess.unsent id).length ≤ maxPayload := fun id => by
    have hle := draft_unsent_le h id
    have hold := hs.streams id
    omega
  have hcases := draft_cases h
  cases em with
  | data id =>
    obtain ⟨stream, seg, stream', hget, hpoll, rfl⟩ := hcases
    have hseg : seg.2.length ≤ (s.unsent id).length := by
      simp only [unsent, hget]
      unfold Stream.pollSend at hpoll
      split at hpoll
      · cases hpoll
      · cases hpoll
        exact length_take_le' _ _
    have hid := hs.streams id
    refine ⟨⟨hstreams, hs.datagrams, hs.ack⟩, fun _ => ?_, ?_⟩
    · simp only [length_streamFrame]
      omega
    · simp only [length_streamFrame, encodeBufLen, headerLen, tagLen, maxPacketLen, maxPayload] at hid ⊢
      omega
  | fin id =>
    obtain ⟨stream, -, -, rfl⟩ := hcases
    refine ⟨⟨hstreams, hs.datagrams, hs.ack⟩, ?_⟩
    simp [Fits, encodeBufLen, headerLen, tagLen, maxPacketLen, maxPayload]
  | datagram =>
    obtain ⟨dg, datagrams, hpoll, rfl⟩ := hcases
    unfold DatagramQueue.pollSend at hpoll
    split at hpoll
    · cases hpoll
    · next data rest hqueue =>
        cases hpoll
        have hall := hs.datagrams
        rw [hqueue, forall_mem_cons] at hall
        exact ⟨⟨hstreams, hall.2, hs.ack⟩, by simp, hall.1⟩
  | ack =>
    obtain ⟨hpending, rfl⟩ := hcases
    have hlen := s.ackRanges.length_buildFrame_le now
    have hack := hs.ack hpending
    refine ⟨⟨hstreams, hs.datagrams, by simp⟩, by simp, ?_⟩
    simp only [encodeBufLen] at hack ⊢
    omega
  | maxData =>
    obtain ⟨newLimit, -, rfl⟩ := hcases
    refine ⟨⟨hstreams, hs.datagrams, hs.ack⟩, by simp, ?_⟩
    simp [encodeBufLen, headerLen, tagLen, maxPacketLen]
  | pong | ping =>
    dsimp only at hcases
    subst hcases
    refine ⟨⟨hstreams, hs.datagrams, hs.ack⟩, by simp, ?_⟩
    simp [encodeBufLen, headerLen, tagLen, maxPacketLen]

end Session

structure Flush.Within (f : Flush) : Prop where
  compact : f.sess.Compact
  log : ∀ x ∈ f.log, Session.Fits x.1 x.2.2
  packets : ∀ p ∈ f.packets, p.bytes.length ≤ maxPacketLen

theorem Flush.Within.emit {P : Primitives} (hP : P.Lawful) {f : Flush} (h : f.Within) (now : Nat)
    (em : Emission) : (f.emit P now em).Within := by
  rcases emit_cases hP now f em with hsame | ⟨-, d, hd, ⟨e, -, heq⟩ | ⟨bytes, hbytes, heq⟩⟩
  · rwa [hsame]
  all_goals
    obtain ⟨hcompact, hfits⟩ := Session.draft_fits hd h.compact
    rw [heq]
    refine ⟨⟨hcompact.1, hcompact.2, hcompact.3⟩, ?_, ?_⟩
    · exact forall_mem_append.mpr ⟨h.log, forall_mem_singleton.mpr hfits⟩
  · exact h.packets
  · refine forall_mem_append.mpr ⟨h.packets, forall_mem_singleton.mpr ?_⟩
    exact (length_sealPacket hP hbytes).trans_le hfits.2

/-- **The packets of a flush are within their limits** if no stream has more than 1384 bytes to send, no
datagram fills more than a packet, and a pending ACK has at most 4092 ranges: stream data has at most
`MAX_PAYLOAD` bytes, and no packet of any kind is longer than `MAX_PACKET_LEN`. -/
theorem flush_sizes {P : Primitives} (hP : P.Lawful) {s : Session} (hs : s.Compact) (now : Nat)
    (order : List Nat) :
    (∀ x ∈ (s.flushed P now order).log, x.1 = .data → x.2.2.length ≤ maxPayload) ∧
    ∀ packets, (s.flush P now order).1 = .ok packets →
      ∀ p ∈ packets, p.bytes.length ≤ maxPacketLen := by
  have hwithin : (s.flushed P now order).Within :=
    flush_invariant Flush.Within (fun f em h => h.emit hP now em) order ⟨hs, nofun, nofun⟩
  refine ⟨fun x hx => (hwithin.log x hx).1, fun packets hpackets => ?_⟩
  rcases s.flush_cases P now order with ⟨e, -, heq⟩ | ⟨-, heq⟩
  · rw [heq] at hpackets
    cases hpackets
  · rw [heq] at hpackets
    cases hpackets
    exact hwithin.packets

def wroteTo (data : Bytes) : List SessionCall := [.op (.app (.openStream 4)), .op (.send 1 data)]

theorem flush_sizes_three_bytes :
    ∃ r, exec (LoggedSession.step checksumPrimitives) (.new sampleClient.sess) (wroteTo [1, 2, 3])
        = some r ∧
      ∀ x ∈ (r.sess.flushed checksumPrimitives 0 [1]).log, x.1 = .data → x.2.2.length ≤ maxPayload := by
  refine exists_exec_of (p := fun r => r.sess.streams.keys = [1] ∧ r.sess.unsent 1 = [1, 2, 3] ∧
    r.sess.datagrams.sendQueue = [] ∧ r.sess.ackRanges.ackPending = false) (by decide +kernel) ?_
  rintro r - ⟨hkeys, hunsent, hqueue, hpending⟩
  refine (flush_sizes checksumPrimitives_lawful ⟨fun id => ?_, ?_, ?_⟩ 0 [1]).1
  · by_cases hid : id = 1
    · simp [hid, hunsent, maxPayload]
    · have hget : ¬∃ stream, r.sess.streams.get? id = some stream := by
        rw [← SortedMap.mem_keys_iff, hkeys, List.mem_singleton]
        exact hid
      rw [Session.unsent, Option.eq_none_iff_forall_ne_some.mpr (not_exists.mp hget)]
      decide
  · simp [hqueue]
  · simp [hpending]

/-- **A chunk of the largest size does not fit**: its frame has 1402 bytes. -/
theorem data_frame_too_long :
    ∃ r, exec (LoggedSession.step checksumPrimitives) (.new sampleClient.sess)
        (wroteTo (List.replicate 1386 7)) = some r ∧
      ∃ x ∈ (r.sess.flushed checksumPrimitives 0 [1]).log, x.1 = .data ∧ x.2.2.length = 1402 := by
  decide +kernel

end SeamProtocol
