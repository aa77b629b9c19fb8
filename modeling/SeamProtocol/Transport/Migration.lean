import SeamProtocol.Transport.Probe

/-! # Migration to another path

When probes keep timing out, the client sends a challenge from a socket on each local address, and moves
to the one whose challenge is answered. Its receive loop has captured the first socket, and the server
keeps sending to the address that it has stored. -/

namespace SeamProtocol

open Lib List

structure MigratingClient where
  prober : PathProber
  migrationEnabled : Bool
  established : Bool
  /-- The socket of each outstanding challenge, by nonce. -/
  migrationSockets : List (Nat × Nat)
  socket : Nat
  loopSocket : Nat
  serverRemote : Nat
  serverTable : List Nat

namespace MigratingClient

def maybeMigrate (s : MigratingClient) (bound : List (Nat × Nat)) : List (Nat × Nat) × MigratingClient :=
  if !s.migrationEnabled || !s.established then ([], s)
  else if !s.prober.shouldMigrate then ([], s)
  else if s.migrationSockets ≠ [] then ([], s)
  else
    (bound, { s with migrationSockets := bound.foldl (fun m b => b :: m.filter (·.1 ≠ b.1)) [] })

def onPathResponse (s : MigratingClient) (nonce : Nat) : MigratingClient :=
  match s.migrationSockets.lookup nonce with
  | none => s
  | some sock =>
    { s with
      socket := sock
      migrationSockets := []
      prober := { s.prober with consecutiveTimeouts := 0 } }

end MigratingClient

/-! ## Dead paths -/

def PathProber.deadRounds (p : PathProber) (now : Nat) : Nat → PathProber
  | 0 => p
  | n + 1 =>
    ((p.buildProbe now).expireTimeouts (now + probeTimeout)).deadRounds (now + probeInterval) n

namespace MigratingClient

/-- After so many lost probes the client sends challenges, and can do so again. -/
def LeavesDeadPath (s : MigratingClient) : Prop :=
  ∃ lost, ∀ now, (s.prober.deadRounds now lost).shouldMigrate = true ∧
    ∀ bound ≠ [], ∃ s',
      ({ s with prober := s.prober.deadRounds now lost } : MigratingClient).maybeMigrate bound = (bound, s') ∧
      ∃ lost', ∀ now', ∀ bound' ≠ [],
        (({ s' with prober := s'.prober.deadRounds now' lost' } : MigratingClient).maybeMigrate bound').1 ≠ []

theorem maybeMigrate_of_outstanding {s : MigratingClient} (h : s.migrationSockets ≠ [])
    (bound : List (Nat × Nat)) : (s.maybeMigrate bound).1 = [] := by
  unfold maybeMigrate
  split_ifs <;> rfl

end MigratingClient

/-- **Challenges that are not answered end migration**: there is no state from which the client leaves a
dead path and can try again. -/
theorem dead_path_not_retried (s : MigratingClient) : ¬ s.LeavesDeadPath := by
  rintro ⟨lost, h⟩
  obtain ⟨s', hs', lost', hagain⟩ := (h 0).2 [(0, 0)] (by simp)
  refine hagain 0 [(0, 0)] (by simp) (MigratingClient.maybeMigrate_of_outstanding ?_ _)
  -- the challenge that was sent is still outstanding
  unfold MigratingClient.maybeMigrate at hs'
  split_ifs at hs'
  all_goals
    rw [Prod.mk.injEq] at hs'
    simp [← hs'.2] at hs' ⊢

structure PathProber.Quiet (p : PathProber) : Prop where
  probing : p.probingMtu = true
  timeouts : p.consecutiveTimeouts = 0
  pending : p.pending = []
  lo : probeHdr < p.mtuLo
  lo_le_hi : p.mtuLo ≤ p.mtuHi

theorem PathProber.Quiet.round {p : PathProber} (h : p.Quiet) (now : Nat) :
    ((p.buildProbe now).expireTimeouts (now + probeTimeout)).Quiet := by
  obtain ⟨hon, htimeouts, hpending, hlo, hle⟩ := h
  have hsize : p.probeSize = (p.mtuLo + p.mtuHi) / 2 := if_pos hon
  have hlarge : probeHdr < p.probeSize := by omega
  refine ⟨hon, ?_, ?_, hlo, ?_⟩
  all_goals simp [expireTimeouts, buildProbe, hpending, isExpired, hon, htimeouts, hlarge]
  omega

/-- **A path that dies during the MTU search is never given up**: lost probes of the search do not count,
and without an echo the search does not end. -/
theorem dead_search_never_migrates :
    ∀ t now lost, ((PathProber.new t).deadRounds now lost).shouldMigrate = false := by
  intro t
  have hquiet : ∀ lost (p : PathProber) now, p.Quiet → (p.deadRounds now lost).Quiet := by
    intro lost
    induction lost with
    | zero => exact fun p now h => h
    | succ lost ih => exact fun p now h => ih _ _ (h.round now)
  intro now lost
  have h := hquiet lost (.new t) now ⟨rfl, rfl, rfl, show probeHdr < minMtu by decide,
    show minMtu ≤ maxMtu by decide⟩
  rw [PathProber.shouldMigrate, h.timeouts]
  rfl

/-- A new prober on a dead path. -/
theorem new_prober_never_migrates :
    ¬ ∃ lost, ((PathProber.new 0).deadRounds 0 lost).shouldMigrate = true := by
  rintro ⟨lost, h⟩
  simp [dead_search_never_migrates] at h

/-! ## The two directions -/

inductive MigrationEvent where
  | migrate (bound : List (Nat × Nat))
  /-- A challenge that the receive loop reads is answered on the current socket. -/
  | challenge (nonce : Nat)
  | response (nonce : Nat)
  | challengeAtServer (remote nonce : Nat)

namespace MigratingClient

def step (s : MigratingClient) : MigrationEvent → Option MigratingClient
  | .migrate bound => some (s.maybeMigrate bound).2
  | .challenge _ => some s
  | .response nonce => some (s.onPathResponse nonce)
  | .challengeAtServer remote _ =>
    some { s with serverTable := if remote ∈ s.serverTable then s.serverTable else remote :: s.serverTable }

def Unanswered (s : MigratingClient) : MigrationEvent → Prop
  | .response nonce => s.migrationSockets.lookup nonce = none
  | _ => True

def TwoWay (s : MigratingClient) : Prop := s.socket = s.loopSocket ∧ s.serverRemote = s.socket

def Moves (s s' : MigratingClient) (e : MigrationEvent) : Prop :=
  s'.socket ≠ s.socket →
    ∃ nonce, e = .response nonce ∧ (nonce, s'.socket) ∈ s.migrationSockets ∧ s.loopSocket = s'.socket

theorem step_unanswered {s s' : MigratingClient} {e : MigrationEvent} (hok : s.Unanswered e)
    (hstep : s.step e = some s') :
    s'.socket = s.socket ∧ s'.loopSocket = s.loopSocket ∧ s'.serverRemote = s.serverRemote := by
  cases e with
  | migrate bound =>
    cases hstep
    unfold maybeMigrate
    split_ifs <;> exact ⟨rfl, rfl, rfl⟩
  | challenge | challengeAtServer => cases hstep; exact ⟨rfl, rfl, rfl⟩
  | response nonce =>
    cases hstep
    rw [onPathResponse, show s.migrationSockets.lookup nonce = none from hok]
    exact ⟨rfl, rfl, rfl⟩

end MigratingClient

open MigratingClient

/-- **Migration keeps the connection two-way** in every run in which no outstanding challenge is answered:
then the socket never changes. -/
theorem migration_two_way {s s' : MigratingClient} {es : List MigrationEvent} (hs : s.TwoWay)
    (hok : Meets step Unanswered s es) (hrun : exec step s es = some s') :
    s'.TwoWay ∧ ∀ e s'', s'.Unanswered e → s'.step e = some s'' → Moves s' s'' e := by
  refine ⟨exec_invariant_of_meets TwoWay (fun s e s' h hok hstep => ?_) hs hok hrun, ?_⟩
  · obtain ⟨hsocket, hloop, hremote⟩ := step_unanswered hok hstep
    exact ⟨hsocket.trans (h.1.trans hloop.symm), hremote.trans (h.2.trans hsocket.symm)⟩
  · intro e s'' hok hstep hne
    exact absurd (step_unanswered hok hstep).1 hne

def strandedClient : MigratingClient where
  prober := { PathProber.new 0 with consecutiveTimeouts := 3 }
  migrationEnabled := true
  established := true
  migrationSockets := []
  socket := 1
  loopSocket := 1
  serverRemote := 1
  serverTable := [1]

theorem migration_two_way_unanswered :
    ∃ s', exec step strandedClient [.migrate [(7, 2)], .response 8] = some s' ∧ s'.TwoWay := by
  have hok : Meets step Unanswered strandedClient [.migrate [(7, 2)], .response 8] :=
    ⟨trivial, fun _ h => by cases h; exact ⟨rfl, fun _ _ => trivial⟩⟩
  exact ⟨_, rfl, (migration_two_way ⟨rfl, rfl⟩ hok rfl).1⟩

/-- **An answered challenge breaks the connection**: the client sends on socket 2, which no loop reads and
on which nothing was received, and the server sends to socket 1. -/
theorem answered_challenge_one_way :
    ∃ s', exec step strandedClient [.migrate [(7, 2)], .response 7] = some s' ∧
      s'.socket = 2 ∧ s'.loopSocket = 1 ∧ s'.serverRemote = 1 ∧ ¬ s'.TwoWay :=
  ⟨_, rfl, rfl, rfl, rfl, fun h => absurd h.1 (by decide)⟩

end SeamProtocol
