import SeamProtocol.Transport.Connection
import SeamProtocol.Tunnel.Mux

/-! # Control packets and the congestion window

A flush of the session lists its control packets last, and has by then recorded them as sent.
`Connection.flush` stops at the first data packet for which there is no room, so control packets after
it are lost. -/

namespace SeamProtocol

open Lib List

/-! ## What a flush records as sent -/

namespace Session

/-- Between two states of a session, a control frame of this type was recorded as sent. -/
def Settles (s s' : Session) : PktType → Prop
  | .ack => s.ackRanges.ackPending = true ∧ s'.ackRanges.ackPending = false
  | .maxData => s'.recvWindow ≠ s.recvWindow
  | .pong => s.pendingPong = true ∧ s'.pendingPong = false
  | .ping => s.pendingPing = true ∧ s'.pendingPing = false
  | _ => False

variable {s : Session} {now : Nat} {pktType : PktType}

theorem draft_settles {s₀ : Session} {pktNum : UInt64} {em : Emission} {d : Draft} {bytes : Bytes}
    (h : s.draft now em = some d)
    (hset : s₀.Settles (d.sent d.sess.bumped pktNum bytes now) pktType) :
    s₀.Settles s pktType ∨ d.pktType = pktType ∧ d.isControl = true := by
  have hd := draft_cases h
  cases em with
  | data id =>
    obtain ⟨stream, seg, stream', -, -, rfl⟩ := hd
    cases pktType <;> exact .inl hset
  | fin id =>
    obtain ⟨stream, -, -, rfl⟩ := hd
    cases pktType <;> exact .inl hset
  | datagram =>
    obtain ⟨dg, datagrams, -, rfl⟩ := hd
    cases pktType <;> exact .inl hset
  | ack =>
    obtain ⟨-, rfl⟩ := hd
    cases pktType with
    | ack => exact .inr ⟨rfl, rfl⟩
    | _ => exact .inl hset
  | maxData =>
    obtain ⟨newLimit, -, rfl⟩ := hd
    cases pktType with
    | maxData => exact .inr ⟨rfl, rfl⟩
    | _ => exact .inl hset
  | pong =>
    dsimp only at hd
    subst hd
    cases pktType with
    | pong => exact .inr ⟨rfl, rfl⟩
    | _ => exact .inl hset
  | ping =>
    dsimp only at hd
    subst hd
    cases pktType with
    | ping => exact .inr ⟨rfl, rfl⟩
    | _ => exact .inl hset

theorem flush_settles {P : Primitives} (hP : P.Lawful) {s' : Session} {order : List Nat}
    {packets : List TaggedPacket} (h : s.flush P now order = (.ok packets, s'))
    (hset : s.Settles s' pktType) :
    ∃ tp ∈ packets, tp.isControl = true ∧ ∃ pktNum payload,
      sealPacket P s.encoder.keys s.encoder.sessionId pktNum pktType payload = .ok tp.bytes := by
  -- the invariant of the emissions, while none has failed
  have hinv : (s.flushed P now order).sess.ident = s.ident ∧
      ((s.flushed P now order).error = none →
        ∀ pktType, s.Settles (s.flushed P now order).sess pktType →
          ∃ tp ∈ (s.flushed P now order).packets, tp.isControl = true ∧ ∃ pktNum payload,
            sealPacket P s.encoder.keys s.encoder.sessionId pktNum pktType payload
              = .ok tp.bytes) := by
    refine flush_invariant (fun f => f.sess.ident = s.ident ∧ (f.error = none →
      ∀ pktType, s.Settles f.sess pktType → ∃ tp ∈ f.packets, tp.isControl = true ∧
        ∃ pktNum payload, sealPacket P s.encoder.keys s.encoder.sessionId pktNum pktType payload
          = .ok tp.bytes)) (fun f em hf => ?_) order ⟨rfl, fun _ t ht => ?_⟩
    · obtain ⟨hident, hold⟩ := hf
      rcases Flush.emit_cases hP now f em with hsame | ⟨herr, d, hd, hcase⟩
      · rw [hsame]
        exact ⟨hident, hold⟩
      · obtain ⟨_, _, _, _, _, _, hds⟩ := Session.draft_eq hd
        have hid : d.sess.ident = s.ident := by
          rw [hds]
          exact hident
        rcases hcase with ⟨e, -, heq⟩ | ⟨bytes, hseal, heq⟩
        · rw [heq]
          exact ⟨hid, nofun⟩
        · rw [heq]
          refine ⟨hid, fun _ t ht => ?_⟩
          rcases draft_settles hd ht with ht | ⟨rfl, hcontrol⟩
          · obtain ⟨tp, htp, hrest⟩ := hold herr t ht
            exact ⟨tp, mem_append_left _ htp, hrest⟩
          · have hkeys : d.sess.encoder.keys = s.encoder.keys := congrArg Ident.encKeys hid
            have hsid : d.sess.encoder.sessionId = s.encoder.sessionId :=
              congrArg Ident.sessionId hid
            rw [Draft.packet, hkeys, hsid] at hseal
            exact ⟨_, mem_append_right _ (mem_singleton.mpr rfl), hcontrol, _, _, hseal⟩
    · cases t with
      | ack | pong | ping =>
        obtain ⟨htrue, hfalse⟩ := ht
        rw [htrue] at hfalse
        cases hfalse
      | maxData => exact absurd rfl ht
      | _ => exact ht.elim
  rcases s.flush_cases P now order with ⟨e, -, heq⟩ | ⟨herr, heq⟩
  · rw [heq] at h
    cases h
  · rw [heq] at h
    cases h
    exact hinv.2 herr pktType hset

end Session

/-! ## The loop of a flush -/

namespace Connection

variable {X : Platform} {env : Env}

theorem sendTo_of_ok (h : env.sendError 0 = none) (c k : Connection X) (datagram : Bytes) :
    c.sendTo env datagram k = ⟨.ok (), k, [datagram]⟩ := by
  simp [sendTo, h]

def full (X : Platform) (cc : X.C.State) (size : Nat) : Bool :=
  decide (X.C.available cc < size) || !X.C.shouldSend cc

def afterSend (env : Env) (c : Connection X) (tp : TaggedPacket) : Connection X :=
  let wire := c.tar.transform .flush tp.bytes
  { c with
    lastSend := env.now
    cc := if tp.isControl then c.cc else X.C.onSend c.cc wire.1.length
    tar := if tp.isControl then wire.2 else wire.2.onRealSend env.now
    sendCounter := c.sendCounter + 1 }

section Loop

variable {env : Env} {c : Connection X} {rest : List TaggedPacket}

theorem flushLoop_cons_of_room (hsend : env.sendError 0 = none)
    (hroom : tp.isControl = true ∨
      full X c.cc (c.tar.transform .flush tp.bytes).1.length = false) :
    flushLoop env c (tp :: rest)
      = { flushLoop (env.after 1) (c.afterSend env tp) rest with
          sent := (c.tar.transform .flush tp.bytes).1
            :: (flushLoop (env.after 1) (c.afterSend env tp) rest).sent } := by
  rw [flushLoop]
  cases hcontrol : tp.isControl with
  | true =>
    rw [if_pos rfl, sendTo_of_ok hsend]
    simp only [afterSend, hcontrol, if_true]
    rfl
  | false =>
    have hfull : ¬ (X.C.available c.cc < (c.tar.transform .flush tp.bytes).1.length ∨
        X.C.shouldSend c.cc = false) := by
      simpa [full, hcontrol] using hroom
    rw [if_neg Bool.false_ne_true, if_neg hfull, sendTo_of_ok hsend]
    simp only [afterSend, hcontrol, Bool.false_eq_true, if_false]
    rfl

theorem flushLoop_cons_of_full (hdata : tp.isControl = false)
    (hfull : full X c.cc (c.tar.transform .flush tp.bytes).1.length = true) :
    (flushLoop env c (tp :: rest)).result = .ok () ∧ (flushLoop env c (tp :: rest)).sent = [] := by
  have hcond : X.C.available c.cc < (c.tar.transform .flush tp.bytes).1.length ∨
      X.C.shouldSend c.cc = false := by
    simpa [full] using hfull
  rw [flushLoop]
  rw [hdata, if_neg Bool.false_ne_true, if_pos hcond]
  exact ⟨rfl, rfl⟩

end Loop

/-! ## Room for the data packets -/

def roomForControl (env : Env) (c : Connection X) : List TaggedPacket → Bool
  | [] => true
  | tp :: rest =>
    if tp.isControl = false ∧ full X c.cc (c.tar.transform .flush tp.bytes).1.length = true then
      rest.all fun tp => !tp.isControl
    else roomForControl (env.after 1) (c.afterSend env tp) rest

theorem sameMask_afterSend (env : Env) (c : Connection X) (tp : TaggedPacket) :
    c.tar.SameMask (c.afterSend env tp).tar := by
  have htransform := c.tar.sameMask_transform .flush tp.bytes
  unfold afterSend
  split
  · exact htransform
  · exact htransform.trans (TarState.sameMask_onRealSend _ _)

theorem control_mem_flushLoop (packets : List TaggedPacket) (c : Connection X)
    (hsend : ∀ i < packets.length, env.sendError i = none)
    (hroom : roomForControl env c packets = true) :
    (flushLoop env c packets).result = .ok () ∧
    ∀ tp ∈ packets, tp.isControl = true → ∃ t, c.tar.SameMask t ∧
      (t.transform .flush tp.bytes).1 ∈ (flushLoop env c packets).sent := by
  induction packets generalizing env c with
  | nil => exact ⟨rfl, fun tp htp => (not_mem_nil htp).elim⟩
  | cons tp rest ih =>
    rw [roomForControl] at hroom
    by_cases hfull : tp.isControl = false ∧
        full X c.cc (c.tar.transform .flush tp.bytes).1.length = true
    · -- the loop ends here, and only data packets are left
      rw [if_pos hfull] at hroom
      refine ⟨(flushLoop_cons_of_full hfull.1 hfull.2).1, fun tp' htp' hcontrol => ?_⟩
      rcases mem_cons.mp htp' with rfl | hrest
      · rw [hfull.1] at hcontrol
        cases hcontrol
      · have hdata := all_eq_true.mp hroom tp' hrest
        rw [hcontrol] at hdata
        cases hdata
    · rw [if_neg hfull] at hroom
      have hlater : ∀ i < rest.length, (env.after 1).sendError i = none :=
        fun i hi => hsend (i + 1) (Nat.succ_lt_succ hi)
      obtain ⟨hok, hmem⟩ := ih (c.afterSend env tp) hlater hroom
      have hfits : tp.isControl = true ∨
          full X c.cc (c.tar.transform .flush tp.bytes).1.length = false := by
        rcases Bool.eq_false_or_eq_true tp.isControl with h | h
        · exact .inl h
        · exact .inr (Bool.eq_false_iff.mpr fun hf => hfull ⟨h, hf⟩)
      rw [flushLoop_cons_of_room (hsend 0 (Nat.succ_pos _)) hfits]
      refine ⟨hok, fun tp' htp' hcontrol => ?_⟩
      rcases mem_cons.mp htp' with rfl | hrest
      · exact ⟨c.tar, TarState.SameMask.refl _, mem_cons_self⟩
      · obtain ⟨t, hsame, hsent⟩ := hmem tp' hrest hcontrol
        exact ⟨t, (sameMask_afterSend env c tp).trans hsame, mem_cons_of_mem _ hsent⟩

end Connection

def busySession : Session :=
  let s := sampleResult.session .client
  let s := (s.tryOpenStreamWithPriority priorityDefault).2
  let s := (s.send 1 [7, 7, 7]).2
  { s with ackRanges := s.ackRanges.onReceived 0 true 0 }

def busyConnection (window : Nat) : Connection samplePlatform :=
  { Connection.newBaseWithTar samplePlatform [] .established .disabled 0 with
    session := some busySession
    cc := window }

def busyEnv : Env := { sampleEnv 0 with order := [1] }

def busyFlush : Except SeamError (List TaggedPacket) × Session :=
  busySession.flush checksumPrimitives busyEnv.now busyEnv.order

end SeamProtocol
