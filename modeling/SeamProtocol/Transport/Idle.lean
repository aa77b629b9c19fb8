import SeamProtocol.Lib.Erasure
import SeamProtocol.Transport.Phases

/-! # Keepalive and unauthenticated datagrams

The time of every datagram is noted before it is decoded, so datagrams that fail to decode keep a dead
connection alive. -/

namespace SeamProtocol

open Lib Option Connection

namespace Connection

variable {X : Platform}

def receive (c : Connection X) (ev : Env × Bytes) : Option (Connection X) :=
  (c.onPacket ev.1 ev.2).map Reply.conn

def decodes (c : Connection X) (ev : Env × Bytes) : Bool :=
  match c.session with
  | some s => (s.decoder.decode X.P ev.2).1.toBool
  | none => false

def SameButTime (c c' : Connection X) : Prop := ∃ lastRecv, c' = { c with lastRecv }

variable {c : Connection X} {ev : Env × Bytes}

theorem ne_nil_of_decodes (h : c.decodes ev = true) : ev.2 ≠ [] := by
  intro hnil
  unfold decodes at h
  split at h
  · rw [hnil] at h
    cases h
  · cases h

variable {env : Env} {buf : Bytes}

/-- **A datagram that does not decode** changes the time of the last arrival, and nothing else. -/
theorem onPacket_of_undecodable {r : Reply X} (hphase : c.phase = .established)
    (hun : c.decodes (env, buf) = false) (h : c.onPacket env buf = some r) : c.SameButTime r.conn := by
  unfold onPacket at h
  rw [hphase] at h
  split at h
  · cases h
    exact ⟨_, rfl⟩
  · unfold onDataPacket at h
    rcases eq_none_or_eq_some c.session with hs | ⟨s, hs⟩
    · rw [hs] at h
      cases h
      exact ⟨env.now, by rw [Reply.fail, hs]⟩
    · rw [decodes, hs] at hun
      rw [hs] at h
      dsimp only at hun h
      cases hdec : (s.decoder.decode X.P buf).1 with
      | ok x =>
        rw [hdec] at hun
        cases hun
      | error e =>
        -- the decoder is as it was, so the session is
        have hsame : (s.decoder.decode X.P buf).2 = s.decoder :=
          PacketDecoder.decode_snd_of_error hdec
        have hrecv : s.receivePacket X.P buf env.now = some (.error e, s) := by
          unfold Session.receivePacket
          dsimp only
          rw [hdec, hsame]
        rw [hrecv] at h
        cases h
        have hconn : ({ c with lastRecv := env.now, session := some s } : Connection X)
            = { c with lastRecv := env.now } := by
          rw [← hs]
        exact ⟨env.now, hconn⟩

variable {c' : Connection X}

theorem onPacket_of_sameButTime (hphase : c.phase = .established) (hsame : c.SameButTime c')
    (hne : buf ≠ []) : c.onPacket env buf = c'.onPacket env buf := by
  obtain ⟨lastRecv, rfl⟩ := hsame
  have hphase' : ({ c with lastRecv } : Connection X).phase = .established := hphase
  rw [onPacket_of_established hphase hne, onPacket_of_established hphase' hne]
  rfl

theorem established_receive (hphase : c.phase = .established) (h : c.receive ev = some c') :
    c'.phase = .established := by
  obtain ⟨r, hr, rfl⟩ := map_eq_some_iff.mp h
  unfold onPacket at hr
  rw [hphase] at hr
  split at hr
  · cases hr
    exact hphase
  · obtain ⟨session, cc, events, sendCounter, lastSend, tar, heq, -⟩ := evolves_onDataPacket hr
    rw [heq]
    exact hphase

theorem decodes_of_sameButTime (h : c.SameButTime c') (ev : Env × Bytes) :
    c.decodes ev = c'.decodes ev := by
  obtain ⟨lastRecv, rfl⟩ := h
  rfl

theorem unwinding_decodes :
    Unwinding (receive (X := X)) decodes (fun c => c.phase = .established) SameButTime where
  invariant := established_receive
  refl c := ⟨_, rfl⟩
  trans := by
    rintro c _ _ ⟨x, rfl⟩ ⟨y, rfl⟩
    exact ⟨y, rfl⟩
  hidden := by
    intro c ev c' hphase hun h
    obtain ⟨r, hr, rfl⟩ := map_eq_some_iff.mp h
    exact onPacket_of_undecodable hphase hun hr
  visible_eq h := decodes_of_sameButTime h _
  step_eq hphase hsame hdec :=
    congrArg (Option.map Reply.conn) (onPacket_of_sameButTime hphase hsame (ne_nil_of_decodes hdec))

end Connection

/-- **Liveness bookkeeping depends on authenticated traffic only**, once an authentic datagram has come
last: for any two sequences of datagrams that differ only in ones that fail to decode, both ending with
one that decodes, the verdicts of `isIdle` and `isStale` are equal at all times. -/
theorem verdicts_ignore_undecodable {X : Platform} {c c₁ c₂ : Connection X}
    (hphase : c.phase = .established) {es₁ es₂ : List (Env × Bytes)}
    (h₁ : exec Connection.receive c es₁ = some c₁) (h₂ : exec Connection.receive c es₂ = some c₂)
    (hvis : visibles Connection.receive Connection.decodes c es₁
      = visibles Connection.receive Connection.decodes c es₂)
    (hend₁ : endsVisible Connection.receive Connection.decodes c es₁ = true)
    (hend₂ : endsVisible Connection.receive Connection.decodes c es₂ = true) (now : Nat) :
    c₁.isIdle now = c₂.isIdle now ∧ c₁.isStale now = c₂.isStale now := by
  have heq : c₁ = c₂ :=
    exec_eq_of_visibles_eq Connection.unwinding_decodes hphase h₁ h₂ hvis hend₁ hend₂
  rw [heq]
  exact ⟨rfl, rfl⟩

/-! ## Concrete datagrams -/

def quietConnection : Connection samplePlatform :=
  { Connection.newBaseWithTar samplePlatform [] .established .disabled 0 with
    session := some (sampleResult.session .server) }

def pingPacket : Bytes :=
  match sealPacket checksumPrimitives zeroKeys 1 0 .ping [] with
  | .ok packet => packet
  | .error _ => []

def pingOnly : List (Env × Bytes) := [(sampleEnv (Connection.secs 20), pingPacket)]

def garbageAndPing : List (Env × Bytes) := (sampleEnv (Connection.secs 10), [0]) :: pingOnly

theorem visibles_garbageAndPing :
    visibles receive decodes quietConnection pingOnly = pingOnly ∧
    visibles receive decodes quietConnection garbageAndPing = pingOnly := by
  -- a connection that decodes the Ping sees it
  have hsees : ∀ c : Connection samplePlatform,
      (c.decodes (sampleEnv (secs 20), pingPacket)
        && (c.receive (sampleEnv (secs 20), pingPacket)).isSome) = true →
      visibles receive decodes c pingOnly = pingOnly := by
    intro c hc
    rw [Bool.and_eq_true] at hc
    obtain ⟨c', hstep⟩ := isSome_iff_exists.mp hc.2
    exact visibles_cons_of_visible [] hstep hc.1
  have hgarbage : ((quietConnection.receive (sampleEnv (secs 10), [0])).any fun c =>
      c.decodes (sampleEnv (secs 20), pingPacket)
        && (c.receive (sampleEnv (secs 20), pingPacket)).isSome) = true := by
    decide +kernel
  obtain ⟨c, hstep, hc⟩ := (any_eq_true _ _).mp hgarbage
  refine ⟨hsees _ (by decide +kernel), ?_⟩
  rw [garbageAndPing, visibles_cons_of_hidden _ hstep (by decide +kernel)]
  exact hsees c hc

/-- Garbage before a Ping makes no difference. -/
theorem verdicts_ignore_undecodable_before_ping :
    ∃ c₁ c₂, exec Connection.receive quietConnection pingOnly = some c₁ ∧
      exec Connection.receive quietConnection garbageAndPing = some c₂ ∧
      ∀ now, c₁.isIdle now = c₂.isIdle now := by
  obtain ⟨c₁, h₁, -⟩ : ∃ c, exec Connection.receive quietConnection pingOnly = some c ∧ True := by
    decide +kernel
  obtain ⟨c₂, h₂, -⟩ : ∃ c, exec Connection.receive quietConnection garbageAndPing = some c ∧ True := by
    decide +kernel
  obtain ⟨hvis₁, hvis₂⟩ := visibles_garbageAndPing
  exact ⟨c₁, c₂, h₁, h₂, fun now => (verdicts_ignore_undecodable rfl h₁ h₂ (hvis₁.trans hvis₂.symm)
    (by decide +kernel) (by decide +kernel) now).1⟩

/-- **Garbage keeps a dead connection alive**: 35 seconds after the handshake, in which nothing decoded
arrived, the connection is idle and stale, but not if one byte of garbage has arrived after 20
seconds. -/
theorem garbage_keeps_alive :
    quietConnection.decodes (sampleEnv (Connection.secs 20), [0]) = false ∧
    quietConnection.isIdle (Connection.secs 35) = true ∧
    quietConnection.isStale (Connection.secs 35) = true ∧
    ((exec Connection.receive quietConnection [(sampleEnv (Connection.secs 20), [0])]).all fun c =>
      !c.isIdle (Connection.secs 35) && !c.isStale (Connection.secs 35)) = true ∧
    (exec Connection.receive quietConnection [(sampleEnv (Connection.secs 20), [0])]).isSome := by
  decide +kernel

end SeamProtocol
