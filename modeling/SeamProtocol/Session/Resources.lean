import SeamProtocol.Error
import SeamProtocol.Lib.Bytes
import SeamProtocol.Lib.SortedMap

/-! # Flow windows, datagram queues and retransmission

Times are natural numbers of nanoseconds; a call that reads the clock takes the current time as `now`. -/

namespace SeamProtocol

open Lib SortedMap

/-! ## Flow windows -/

structure FlowWindow where
  limit : Nat
  consumed : Nat
  deriving DecidableEq

namespace FlowWindow

def new (initialLimit : Nat) : FlowWindow := ⟨initialLimit, 0⟩

def available (w : FlowWindow) : Nat := w.limit - w.consumed

def reserve (w : FlowWindow) (n : Nat) : Except SeamError Unit × FlowWindow :=
  if w.limit < w.consumed + n then (.error (.flowControlBlocked w.available n), w)
  else (.ok (), { w with consumed := w.consumed + n })

def updateLimit (w : FlowWindow) (newLimit : Nat) : FlowWindow :=
  if w.limit < newLimit then { w with limit := newLimit } else w

variable (w : FlowWindow)

@[simp] theorem updateLimit_limit (newLimit : Nat) :
    (w.updateLimit newLimit).limit = max w.limit newLimit := by
  unfold updateLimit
  split
  · next h => exact (max_eq_right h.le).symm
  · next h => exact (max_eq_left (Nat.not_lt.mp h)).symm

@[simp] theorem updateLimit_consumed (newLimit : Nat) :
    (w.updateLimit newLimit).consumed = w.consumed := by
  unfold updateLimit
  split <;> rfl

theorem reserve_cases (n : Nat) :
    (w.limit < w.consumed + n ∧ w.reserve n = (.error (.flowControlBlocked w.available n), w)) ∨
    (w.consumed + n ≤ w.limit ∧
      w.reserve n = (.ok (), { w with consumed := w.consumed + n })) := by
  unfold reserve
  split
  · next h => exact .inl ⟨h, rfl⟩
  · next h => exact .inr ⟨Nat.not_lt.mp h, rfl⟩

end FlowWindow

/-! ## Datagram queues -/

structure DatagramQueue where
  sendQueue : List Bytes
  recvQueue : List Bytes
  maxSize : Nat
  maxQueueDepth : Nat
  dropped : Nat
  deriving DecidableEq

namespace DatagramQueue

def withLimits (maxSize maxQueueDepth : Nat) : DatagramQueue := ⟨[], [], maxSize, maxQueueDepth, 0⟩

/-- The loop that drops the oldest datagrams: what is left, and how many were dropped. With depth 0 it
does not end. -/
def makeRoom (depth : Nat) (queue : List Bytes) : Option (List Bytes × Nat) :=
  if depth = 0 then none
  else some (queue.drop (queue.length + 1 - depth), queue.length + 1 - depth)

/-- Queue a datagram for sending; the error is the size of one that is too large. `none` if the call
does not return. -/
def send (q : DatagramQueue) (data : Bytes) : Option (Except Nat Unit × DatagramQueue) :=
  if q.maxSize < data.length then some (.error data.length, q)
  else (makeRoom q.maxQueueDepth q.sendQueue).map fun (queue, n) =>
    (.ok (), { q with sendQueue := queue ++ [data], dropped := q.dropped + n })

def pollSend (q : DatagramQueue) : Option (Bytes × DatagramQueue) :=
  match q.sendQueue with
  | [] => none
  | data :: rest => some (data, { q with sendQueue := rest })

/-- Queue a received datagram; one that is too large is dropped. `none` if the call does not
return. -/
def receive (q : DatagramQueue) (data : Bytes) : Option DatagramQueue :=
  if q.maxSize < data.length then some q
  else (makeRoom q.maxQueueDepth q.recvQueue).map fun (queue, n) =>
    { q with recvQueue := queue ++ [data], dropped := q.dropped + n }

def recv (q : DatagramQueue) : Option Bytes × DatagramQueue :=
  match q.recvQueue with
  | [] => (none, q)
  | data :: rest => (some data, { q with recvQueue := rest })

theorem sendQueue_receive {q q' : DatagramQueue} {data : Bytes} (h : q.receive data = some q') :
    q'.sendQueue = q.sendQueue := by
  unfold receive at h
  split at h
  · cases h
    rfl
  · obtain ⟨r, -, rfl⟩ := Option.map_eq_some_iff.mp h
    rfl

end DatagramQueue

/-! ## Packets in flight -/

structure InFlight where
  data : Bytes
  sentAt : Nat
  retransmits : Nat
  deriving DecidableEq

structure ArqTracker where
  inFlight : SortedMap Nat InFlight
  rto : Nat
  srttUs : Nat
  rttvarUs : Nat
  deriving DecidableEq

namespace ArqTracker

def new : ArqTracker := ⟨∅, 300000000, 0, 0⟩

def onSent (t : ArqTracker) (pktNum : Nat) (data : Bytes) (now : Nat) : ArqTracker :=
  { t with inFlight := t.inFlight.insert pktNum ⟨data, now, 0⟩ }

def updateRtt (t : ArqTracker) (rtt : Nat) : ArqTracker :=
  let rttUs := rtt / 1000
  let srttUs := if t.srttUs = 0 then rttUs else 7 * t.srttUs / 8 + rttUs / 8
  let rttvarUs := if t.srttUs = 0 then rttUs / 2
    else 3 * t.rttvarUs / 4 + (max t.srttUs rttUs - min t.srttUs rttUs) / 4
  { t with
    srttUs
    rttvarUs
    rto := min (max ((srttUs + 4 * rttvarUs) * 1000) 200000000) 60000000000 }

/-- A packet was acknowledged: its round-trip time (zero if it was retransmitted) and its length, or
nothing if it is not in flight. -/
def onAck (t : ArqTracker) (pktNum now : Nat) : Option (Nat × Nat) × ArqTracker :=
  match t.inFlight.get? pktNum with
  | none => (none, t)
  | some pkt =>
    let t := { t with inFlight := t.inFlight.erase pktNum }
    if pkt.retransmits = 0 then
      (some (now - pkt.sentAt, pkt.data.length), t.updateRtt (now - pkt.sentAt))
    else (some (0, pkt.data.length), t)

def expired (t : ArqTracker) (now : Nat) (pkt : InFlight) : Bool := t.rto ≤ now - pkt.sentAt

/-- The packets that are due for retransmission, marked as sent again; the timeout doubles, up to
60 s, if there are any. -/
def drainExpired (t : ArqTracker) (now : Nat) : List (Nat × Bytes) × ArqTracker :=
  let due := (t.inFlight.entries.filter fun e => t.expired now e.2).map fun e => (e.1, e.2.data)
  (due,
    { t with
      inFlight := t.inFlight.mapVal fun _ pkt =>
        if t.expired now pkt then ⟨pkt.data, now, pkt.retransmits + 1⟩ else pkt
      rto := if due.isEmpty then t.rto else min (t.rto * 2) 60000000000 })

variable (t : ArqTracker)

@[simp] theorem updateRtt_inFlight (rtt : Nat) : (t.updateRtt rtt).inFlight = t.inFlight := rfl

@[simp] theorem onAck_inFlight_get? (pktNum now k : Nat) :
    (t.onAck pktNum now).2.inFlight.get? k
      = if k = pktNum then none else t.inFlight.get? k := by
  unfold onAck
  split
  · next h =>
      split_ifs with hk
      · rw [hk, h]
      · rfl
  · split_ifs <;> simp_all [get?_erase]

theorem drainExpired_data (now k : Nat) :
    ((t.drainExpired now).2.inFlight.get? k).map InFlight.data
      = (t.inFlight.get? k).map InFlight.data := by
  unfold drainExpired
  rw [get?_mapVal, Option.map_map]
  congr 1
  funext pkt
  simp only [Function.comp_apply]
  split <;> rfl

theorem mem_drainExpired {t : ArqTracker} {now : Nat} {e : Nat × Bytes}
    (h : e ∈ (t.drainExpired now).1) : ∃ pkt, t.inFlight.get? e.1 = some pkt ∧ pkt.data = e.2 := by
  obtain ⟨⟨k, pkt⟩, hmem, rfl⟩ := List.mem_map.mp h
  exact ⟨pkt, (mem_entries_iff _ _ _).mp (List.mem_of_mem_filter hmem), rfl⟩

end ArqTracker

end SeamProtocol
