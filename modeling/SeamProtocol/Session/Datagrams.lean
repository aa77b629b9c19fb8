import SeamProtocol.Lib.Run
import SeamProtocol.Session.Resources

/-! # Datagram queues

The two queues under any sequence of calls, with the history of what they accepted and what was taken
out. A full queue drops its oldest datagrams; the loop that does so ends only if the depth is positive. -/

namespace SeamProtocol

open Lib List Option DatagramQueue

structure Flow where
  accepted : List Bytes
  taken : List Bytes

/-- **First in, first out.** A queue of bounded length holds the latest of the accepted datagrams. What
was taken out are some of those before them, in order; the others were dropped, oldest first. -/
structure Flow.InOrder (f : Flow) (queue : List Bytes) (depth dropped : Nat) : Prop where
  short : queue.length ≤ depth
  /-- The order, and the number of datagrams that are missing. -/
  order : ∃ gone, f.accepted = gone ++ queue ∧ f.taken.Sublist gone ∧
    gone.length = f.taken.length + dropped

namespace Flow.InOrder

variable {f : Flow} {queue : List Bytes} {depth dropped : Nat}

theorem accept (h : f.InOrder queue depth dropped) (hpos : 0 < depth) (data : Bytes) :
    ∃ rest n, makeRoom depth queue = some (rest, n) ∧
      InOrder ⟨f.accepted ++ [data], f.taken⟩ (rest ++ [data]) depth (dropped + n) := by
  obtain ⟨hshort, gone, heq, hsub, hlen⟩ := h
  refine ⟨_, _, if_neg hpos.ne', ?_, gone ++ queue.take (queue.length + 1 - depth), ?_,
    hsub.trans (sublist_append_left _ _), ?_⟩
  · rw [length_append, length_drop, length_singleton]
    omega
  · rw [heq, append_assoc, append_assoc, ← append_assoc (List.take _ _),
      take_append_drop]
  · rw [length_append, length_take, hlen, Nat.min_eq_left (by omega), Nat.add_assoc]

theorem take (h : f.InOrder (data :: queue) depth dropped) :
    InOrder ⟨f.accepted, f.taken ++ [data]⟩ queue depth dropped := by
  obtain ⟨hshort, gone, heq, hsub, hlen⟩ := h
  refine ⟨(Nat.le_succ _).trans hshort, gone ++ [data], ?_, hsub.append_right _, ?_⟩
  · simp [heq]
  · rw [length_append, length_append, hlen, Nat.add_right_comm]

end Flow.InOrder

inductive DatagramCall where
  | send (data : Bytes)
  | pollSend
  | receive (data : Bytes)
  | recv

def DatagramCall.offers (maxSize : Nat) : DatagramCall → Prop
  | .send data | .receive data => data.length ≤ maxSize
  | .pollSend | .recv => False

structure DatagramLog where
  queue : DatagramQueue
  sent : Flow
  received : Flow

namespace DatagramLog

def start (maxSize depth : Nat) : DatagramLog := ⟨.withLimits maxSize depth, ⟨[], []⟩, ⟨[], []⟩⟩

def step (s : DatagramLog) : DatagramCall → Option DatagramLog
  | .send data =>
    (s.queue.send data).map fun (res, queue) =>
      match res with
      | .ok () => { s with queue, sent := ⟨s.sent.accepted ++ [data], s.sent.taken⟩ }
      | .error _ => { s with queue }
  | .pollSend =>
    match s.queue.pollSend with
    | some (data, queue) => some { s with queue, sent := ⟨s.sent.accepted, s.sent.taken ++ [data]⟩ }
    | none => some s
  | .receive data =>
    (s.queue.receive data).map fun queue =>
      if s.queue.maxSize < data.length then { s with queue }
      else { s with queue, received := ⟨s.received.accepted ++ [data], s.received.taken⟩ }
  | .recv =>
    match s.queue.recv with
    | (some data, queue) =>
      some { s with queue, received := ⟨s.received.accepted, s.received.taken ++ [data]⟩ }
    | (none, queue) => some { s with queue }

/-- **What the queues should keep**, with the limits they were given. -/
structure Sound (s : DatagramLog) (maxSize depth : Nat) : Prop where
  limits : s.queue.maxSize = maxSize ∧ s.queue.maxQueueDepth = depth
  /-- Both directions; every datagram that is missing was counted. -/
  order : ∃ m n, s.sent.InOrder s.queue.sendQueue depth m ∧
    s.received.InOrder s.queue.recvQueue depth n ∧ s.queue.dropped = m + n

variable {s : DatagramLog} {maxSize depth : Nat} {c : DatagramCall}

open DatagramLog

/-- **Every call returns**, and keeps what the queues should keep, unless it waits for room in a queue
without any. -/
theorem Sound.step (h : s.Sound maxSize depth) (hok : 0 < depth ∨ ¬ c.offers maxSize) :
    ∃ s', s.step c = some s' ∧ s'.Sound maxSize depth := by
  have hsame : ∃ s', some s = some s' ∧ s'.Sound maxSize depth := ⟨s, rfl, h⟩
  obtain ⟨⟨hmax, hdepth⟩, m, n, hsent, hreceived, hdropped⟩ := h
  cases c with
  | send data =>
    rw [step, send, hmax, hdepth]
    by_cases hlarge : maxSize < data.length
    · rw [if_pos hlarge]
      exact hsame
    · have hpos : 0 < depth := hok.resolve_right fun hc => hc (Nat.not_lt.mp hlarge)
      obtain ⟨rest, k, hroom, hsent⟩ := hsent.accept hpos data
      rw [if_neg hlarge, hroom]
      exact ⟨_, rfl, ⟨rfl, rfl⟩, m + k, n, hsent, hreceived, by dsimp only; omega⟩
  | pollSend =>
    rw [step, pollSend]
    cases hqueue : s.queue.sendQueue with
    | nil => exact hsame
    | cons data rest =>
      rw [hqueue] at hsent
      exact ⟨_, rfl, ⟨hmax, hdepth⟩, m, n, hsent.take, hreceived, hdropped⟩
  | receive data =>
    rw [step, receive, hmax, hdepth]
    by_cases hlarge : maxSize < data.length
    · rw [if_pos hlarge, map_some, if_pos hlarge]
      exact hsame
    · have hpos : 0 < depth := hok.resolve_right fun hc => hc (Nat.not_lt.mp hlarge)
      obtain ⟨rest, k, hroom, hreceived⟩ := hreceived.accept hpos data
      rw [if_neg hlarge, hroom, map_some, map_some, if_neg hlarge]
      exact ⟨_, rfl, ⟨rfl, rfl⟩, m, n + k, hsent, hreceived, by dsimp only; omega⟩
  | recv =>
    rw [step, recv]
    cases hqueue : s.queue.recvQueue with
    | nil => exact hsame
    | cons data rest =>
      rw [hqueue] at hreceived
      exact ⟨_, rfl, ⟨hmax, hdepth⟩, m, n, hsent, hreceived.take, hdropped⟩

theorem Sound.step_eq_none (h : s.Sound maxSize 0) (hc : c.offers maxSize) : s.step c = none := by
  cases c with
  | send data =>
    rw [DatagramLog.step, send, h.limits.1, h.limits.2, if_neg (Nat.not_lt.mpr hc)]
    rfl
  | receive data =>
    rw [DatagramLog.step, receive, h.limits.1, h.limits.2, if_neg (Nat.not_lt.mpr hc)]
    rfl
  | pollSend | recv => cases hc

theorem Sound.run_iff (h : s.Sound maxSize depth) (calls : List DatagramCall) :
    (∃ s', exec DatagramLog.step s calls = some s' ∧ s'.Sound maxSize depth) ↔
      0 < depth ∨ ∀ c ∈ calls, ¬ c.offers maxSize := by
  induction calls generalizing s with
  | nil => exact iff_of_true ⟨s, rfl, h⟩ (.inr nofun)
  | cons c calls ih =>
    rw [forall_mem_cons, exec_cons]
    by_cases hok : 0 < depth ∨ ¬ c.offers maxSize
    · obtain ⟨s₁, hstep, h₁⟩ := h.step hok
      rw [hstep, bind_some, ih h₁]
      tauto
    · obtain ⟨hzero, hc⟩ := not_or.mp hok
      obtain rfl : depth = 0 := Nat.eq_zero_of_not_pos hzero
      rw [h.step_eq_none (not_not.mp hc)]
      simp [not_not.mp hc]

end DatagramLog

/-- **Datagram queues of any size and depth.** Every call returns, neither queue is longer than its
depth, datagrams are taken out in the order in which they were accepted, what is missing was dropped
oldest first, and every datagram is accounted for: exactly if the depth is positive, or no datagram of
admissible size is offered. -/
theorem datagrams_sound_iff (maxSize depth : Nat) (calls : List DatagramCall) :
    (∃ s, exec DatagramLog.step (.start maxSize depth) calls = some s ∧ s.Sound maxSize depth) ↔
      0 < depth ∨ ∀ c ∈ calls, ¬ c.offers maxSize :=
  DatagramLog.Sound.run_iff ⟨⟨rfl, rfl⟩, 0, 0, ⟨Nat.zero_le _, [], rfl, .slnil, rfl⟩,
    ⟨Nat.zero_le _, [], rfl, .slnil, rfl⟩, rfl⟩ calls

/-- **With depth 0 the first `send` does not return.** -/
theorem datagram_never_queued : ¬∃ s, exec DatagramLog.step (.start 1200 0) [.send [1]] = some s ∧
    s.Sound 1200 0 := by
  rintro ⟨s, hrun, -⟩
  cases hrun

end SeamProtocol
