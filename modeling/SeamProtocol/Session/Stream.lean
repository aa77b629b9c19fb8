import SeamProtocol.Error
import SeamProtocol.Lib.Bytes
import SeamProtocol.Lib.SortedMap

/-! # Streams

One reliable ordered byte stream: a send buffer that is cut into segments, and a map of received
segments from which contiguous bytes are read. The end of a segment whose offset the peer chose is taken
modulo `2 ^ 64`. `read` is partial: it indexes past the end of a segment that lies wholly below the read
offset, and the source panics there. -/

namespace SeamProtocol

open Lib

def saturatingAdd (a b : Nat) : Nat := min (a + b) (2 ^ 64 - 1)

def priorityDefault : Nat := 4

structure Stream where
  id : Nat
  priority : Nat
  sendBuf : Bytes
  sendOffset : Nat
  sendUnackedOffset : Nat
  sendMaxData : Nat
  recvOffset : Nat
  recvBuf : SortedMap Nat Bytes
  recvMaxData : Nat
  recvBuffered : Nat
  finReceived : Option Nat
  finSent : Bool
  finFlushed : Bool
  deriving DecidableEq

namespace Stream

def defaultWindow : Nat := 16 * 1024 * 1024

def new (id : Nat) : Stream :=
  { id
    priority := priorityDefault
    sendBuf := []
    sendOffset := 0
    sendUnackedOffset := 0
    sendMaxData := defaultWindow
    recvOffset := 0
    recvBuf := ∅
    recvMaxData := defaultWindow
    recvBuffered := 0
    finReceived := none
    finSent := false
    finFlushed := false }

def extendSendWindow (s : Stream) (newLimit : Nat) : Stream :=
  if s.sendMaxData < newLimit then { s with sendMaxData := newLimit } else s

def sendWindowRemaining (s : Stream) : Nat := s.sendMaxData - s.sendOffset

def setRecvLimit (s : Stream) (limit : Nat) : Stream := { s with recvMaxData := limit }

/-! ## Sending -/

def write (s : Stream) (data : Bytes) : Except SeamError Nat × Stream :=
  if s.finSent then (.error (.streamFinished s.id), s)
  else if s.sendMaxData < saturatingAdd s.sendOffset data.length then
    (.error (.flowControlBlocked (s.sendMaxData - s.sendOffset) data.length), s)
  else
    (.ok s.sendOffset,
      { s with sendBuf := s.sendBuf ++ data, sendOffset := s.sendOffset + data.length })

def finish (s : Stream) : Stream := { s with finSent := true }

def shouldSendFin (s : Stream) : Bool := s.finSent && !s.finFlushed && s.sendBuf.isEmpty

def markFinFlushed (s : Stream) : Stream := { s with finFlushed := true }

def pollSend (s : Stream) (maxBytes : Nat) : Option ((Nat × Bytes) × Stream) :=
  if s.sendBuf.isEmpty then none
  else
    let take := min s.sendBuf.length maxBytes
    some ((s.sendOffset - s.sendBuf.length, s.sendBuf.take take),
      { s with sendBuf := s.sendBuf.drop take })

theorem pollSend_length_le {s s' : Stream} {maxBytes : Nat} {seg : Nat × Bytes}
    (h : s.pollSend maxBytes = some (seg, s')) : seg.2.length ≤ maxBytes := by
  unfold pollSend at h
  split at h
  · cases h
  · cases h
    rw [List.length_take]
    omega

def onAck (s : Stream) (ackedOffset : Nat) : Stream :=
  if s.sendUnackedOffset < ackedOffset then { s with sendUnackedOffset := ackedOffset } else s

def isSendFinished (s : Stream) : Bool := s.finSent && s.sendOffset ≤ s.sendUnackedOffset

/-! ## Receiving -/

/-- Take in a segment. The end of the stream is noted first, even if the segment is then refused. -/
def receive (s : Stream) (offset : Nat) (data : Bytes) (isFin : Bool) :
    Except SeamError Unit × Stream :=
  let highOffset := (offset + data.length) % 2 ^ 64
  let s := if isFin then { s with finReceived := some highOffset } else s
  if data.isEmpty then (.ok (), s)
  else if highOffset ≤ s.recvOffset then (.ok (), s)
  else if s.recvMaxData < highOffset then
    (.error (.flowControlBlocked (s.recvMaxData - s.recvOffset) (highOffset - s.recvOffset)), s)
  else
    (.ok (), { s with
      recvBuffered := saturatingAdd s.recvBuffered data.length
      recvBuf := s.recvBuf.insert offset data })

/-- **What `receive` does**: the segment is dropped, refused or stored; the end of the stream is noted in
all three cases. -/
theorem receive_cases (s : Stream) (offset : Nat) (data : Bytes) (isFin : Bool) :
    ∃ finReceived,
      ((data = [] ∨ (offset + data.length) % 2 ^ 64 ≤ s.recvOffset) ∧
        s.receive offset data isFin = (.ok (), { s with finReceived })) ∨
      (data ≠ [] ∧ s.recvOffset < (offset + data.length) % 2 ^ 64 ∧
        s.recvMaxData < (offset + data.length) % 2 ^ 64 ∧
        ∃ e, s.receive offset data isFin = (.error e, { s with finReceived })) ∨
      (data ≠ [] ∧ s.recvOffset < (offset + data.length) % 2 ^ 64 ∧
        (offset + data.length) % 2 ^ 64 ≤ s.recvMaxData ∧
        s.receive offset data isFin = (.ok (), { s with
          finReceived
          recvBuffered := saturatingAdd s.recvBuffered data.length
          recvBuf := s.recvBuf.insert offset data })) := by
  have hnoted : (if isFin then { s with finReceived := some ((offset + data.length) % 2 ^ 64) } else s)
      = { s with finReceived :=
            if isFin then some ((offset + data.length) % 2 ^ 64) else s.finReceived } := by
    cases isFin <;> rfl
  refine ⟨if isFin then some ((offset + data.length) % 2 ^ 64) else s.finReceived, ?_⟩
  unfold receive
  dsimp only
  rw [hnoted]
  by_cases hnil : data.isEmpty = true
  · exact .inl ⟨.inl (List.isEmpty_iff.mp hnil), if_pos hnil⟩
  · have hne : data ≠ [] := fun h => hnil (List.isEmpty_iff.mpr h)
    rw [if_neg hnil]
    by_cases hold : (offset + data.length) % 2 ^ 64 ≤ s.recvOffset
    · exact .inl ⟨.inr hold, if_pos hold⟩
    · rw [if_neg hold]
      by_cases hbig : s.recvMaxData < (offset + data.length) % 2 ^ 64
      · exact .inr (.inl ⟨hne, Nat.not_le.mp hold, hbig, _, if_pos hbig⟩)
      · exact .inr (.inr ⟨hne, Nat.not_le.mp hold, Nat.not_lt.mp hbig, if_neg hbig⟩)

/-- What the loop of `read` has done: bytes returned, read offset, number of segments removed. -/
structure ReadLoop where
  out : Bytes
  recvOffset : Nat
  popped : Nat
  deriving DecidableEq

/-- The loop of `read`, with the bytes still wanted. Each round takes the first segment out of the map,
also when only its front is wanted. -/
def readLoop : Nat → Nat → List (Nat × Bytes) → Option ReadLoop
  | recvOffset, _, [] => some ⟨[], recvOffset, 0⟩
  | recvOffset, wanted, (offset, data) :: rest =>
    if wanted = 0 then some ⟨[], recvOffset, 0⟩
    else if recvOffset < offset then some ⟨[], recvOffset, 0⟩   -- gap
    else if data.length < recvOffset - offset then none   -- slice index out of range
    else
      let slice := data.drop (recvOffset - offset)
      let take := min slice.length wanted
      (readLoop (recvOffset + take) (wanted - take) rest).map fun r =>
        { r with out := slice.take take ++ r.out, popped := r.popped + 1 }

/-- Read up to `maxBytes` contiguous bytes; `none` if the call panics. -/
def read (s : Stream) (maxBytes : Nat) : Option (Bytes × Stream) :=
  (readLoop s.recvOffset maxBytes s.recvBuf.entries).map fun r =>
    (r.out, { s with recvOffset := r.recvOffset, recvBuf := s.recvBuf.dropFirst r.popped })

def isRecvFinished (s : Stream) : Bool :=
  match s.finReceived with
  | some finOff => finOff ≤ s.recvOffset
  | none => false

end Stream

end SeamProtocol
