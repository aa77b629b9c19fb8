import SeamProtocol.Transport.Phases

/-! # Agreement

A client, a server and an adversary: any datagram can arrive at either side at any time. Messages 2 and
3 of Noise are read only if the other side has written them over the same transcript; message 1 can be
altered. -/

namespace SeamProtocol

open Lib List Option Connection ClientHandshake

/-! ## Transcripts -/

section Noise

variable {N : Noise} (hN : N.Lawful) {s s' : N.State} {bytes msg : Bytes} {seed : Nat}

include hN

theorem transcript_writeNoise_ok (h : writeNoise N s bytes seed = (.ok msg, s')) :
    N.transcript s' = N.transcript s ++ [(bytes, msg)] :=
  hN.transcript_write (writeNoise_eq_ok.mp h)

theorem transcript_writeNoise_error (h : writeNoise N s bytes seed = (.error e, s')) :
    N.transcript s' = N.transcript s := by
  unfold writeNoise at h
  rcases hw : N.writeMessage s bytes seed with ⟨e | m, t⟩
  · rw [hw] at h
    cases h
    exact hN.transcript_write_error hw
  · rw [hw] at h
    cases h

theorem transcript_readNoise_ok (h : readNoise N s msg = (.ok bytes, s')) :
    N.transcript s' = N.transcript s ++ [(bytes, msg)] :=
  hN.transcript_read (readNoise_eq_ok.mp h)

theorem readNoise_error (h : readNoise N s msg = (.error e, s')) : s' = s := by
  unfold readNoise at h
  rcases hr : N.readMessage s msg with ⟨e | p, t⟩
  · rw [hr] at h
    cases h
    exact hN.read_error hr
  · rw [hr] at h
    cases h

end Noise

def succeeded (N : Noise) (r : Except SeamError Bytes × N.State) : List Transcript :=
  match r.1 with
  | .ok _ => [N.transcript r.2]
  | .error _ => []

variable {N : Noise} {B : Blake3} {kemShared : Key} {suite : CipherSuite} {r : HandshakeResult}
    {s : N.State}

theorem conclude_eq_ok (h : conclude N B s kemShared suite = some (.ok r)) :
    ∃ peerStatic,
      finish B (N.getHandshakeHash s) peerStatic kemShared (N.rawSplit s) suite = some r := by
  unfold conclude at h
  split at h
  · cases h
  · split at h
    · cases h
    · next peerStatic _ =>
        obtain ⟨r', hr', heq⟩ := map_eq_some_iff.mp h
        cases heq
        exact ⟨peerStatic, hr'⟩

theorem conclude_eq (hN : N.Lawful) {s' : N.State} {r' : HandshakeResult}
    (htr : N.transcript s = N.transcript s') (h : conclude N B s kemShared suite = some (.ok r))
    (h' : conclude N B s' kemShared suite = some (.ok r')) :
    r' = { r with peerStaticPubkey := r'.peerStaticPubkey } := by
  obtain ⟨p, hr⟩ := conclude_eq_ok h
  obtain ⟨p', hr'⟩ := conclude_eq_ok h'
  rw [← hN.hash_eq htr, ← hN.split_eq htr] at hr'
  unfold finish at hr hr'
  split at hr
  · cases hr
  · next hlen =>
      rw [if_neg hlen] at hr'
      cases hr
      cases hr'
      rfl

theorem conclude_cipherSuite (h : conclude N B s kemShared suite = some (.ok r)) :
    r.keysC2s.cipherSuite = suite ∧ r.keysS2c.cipherSuite = suite := by
  obtain ⟨p, hr⟩ := conclude_eq_ok h
  unfold finish at hr
  split at hr
  · cases hr
  · cases hr
    exact ⟨rfl, rfl⟩

/-! ## Two connections -/

namespace Connection

variable {X : Platform}

def wrote (env : Env) (c : Connection X) (buf : Bytes) : List Transcript :=
  match c.phase with
  | .clientWaitMsg2 =>
    match (c.takeMsg2 buf).1 with
    | .ok (hs, pk, _) =>
      succeeded X.N (writeNoise X.N hs.noise (ClientHandshake.msg3Payload X.K pk env.kemSeed)
        env.noiseSeed)
    | .error _ => []
  | .serverWaitCookie =>
    match c.takeEcho env buf with
    | .ok (identity, hs, suite) =>
      succeeded X.N (writeNoise X.N hs.noise (ServerHandshake.msg2Payload X.K identity.kemPk suite)
        env.noiseSeed)
    | .error _ => []
  | _ => []

def heard (c : Connection X) (buf : Bytes) : List Transcript :=
  match stripType buf pktHandshakeMsg, c.phase with
  | .ok payload, .clientWaitMsg2 =>
    match c.clientHs with
    | some hs => succeeded X.N (readNoise X.N hs.noise payload)
    | none => []
  | .ok payload, .serverWaitMsg3 =>
    match c.serverHs with
    | some hs => succeeded X.N (readNoise X.N hs.noise payload)
    | none => []
  | _, _ => []

end Connection

structure Duo (X : Platform) where
  conn : Role → Connection X
  /-- History: the transcripts after each message 2 of the server and each message 3 of the client. -/
  wrote : Role → List Transcript

structure Incoming where
  side : Role
  env : Env
  buf : Bytes

namespace Duo

variable {X : Platform}

def start (client server : Connection X) : Duo X :=
  ⟨fun x => match x with
    | .client => client
    | .server => server, fun _ => []⟩

def step (d : Duo X) (a : Incoming) : Option (Duo X) :=
  ((d.conn a.side).onPacket a.env a.buf).map fun r =>
    { conn := Function.update d.conn a.side r.conn
      wrote := Function.update d.wrote a.side
        (d.wrote a.side ++ (d.conn a.side).wrote a.env a.buf) }

/-- **What is assumed of Noise**: a message 2 or 3 that is read is one the other side has written, over
the same transcript. -/
def authentic (d : Duo X) (a : Incoming) : Prop :=
  ∀ tr ∈ (d.conn a.side).heard a.buf, tr ∈ d.wrote a.side.peer

instance (d : Duo X) (a : Incoming) : Decidable (d.authentic a) :=
  inferInstanceAs (Decidable (∀ tr ∈ _, _))

end Duo

/-! ## What each side knows -/

section Invariants

variable {X : Platform} (cArgs : Connection.ConnectArgs X) (sArgs : Connection.AcceptArgs X)

def msg1Of : Bytes := ClientHandshake.msg1Payload X.K cArgs.serverKemPk cArgs.preferredCipher

def suiteFor (payload : Bytes) : CipherSuite :=
  negotiate sArgs.preferredCipher (flagToCipher (clientFlag payload))

def ServerWrote (tr : Transcript) : Prop :=
  ∃ p₁ m₁ m₂, tr = [(p₁, m₁),
    (ServerHandshake.msg2Payload X.K sArgs.serverIdentity.kemPk (suiteFor sArgs p₁), m₂)]

/-- A transcript of the client after message 3: it starts with the client's own message 1, and the secret
is for the server. -/
def ClientWrote (seed : Nat) (tr : Transcript) : Prop :=
  ∃ m₁ p₂ m₂ m₃, tr = [(msg1Of cArgs, m₁), (p₂, m₂),
    (ClientHandshake.msg3Payload X.K sArgs.serverIdentity.kemPk seed, m₃)]

def Derived (x : Role) (c : Connection X) (tr : Transcript) (kemShared : Key) (suite : CipherSuite) :
    Prop :=
  ∃ noise result, X.N.transcript noise = tr ∧
    conclude X.N X.B noise kemShared suite = some (.ok result) ∧
    c.session.map Session.tag = some (result.session x).tag

structure ClientInv (c : Connection X) (wrote : List Transcript) : Prop where
  identity : c.serverIdentity = none
  waiting : ∀ hs, c.clientHs = some hs → wrote = [] ∧
    hs.preferredCipher = cArgs.preferredCipher ∧ ∀ e ∈ X.N.transcript hs.noise, e.1 = msg1Of cArgs
  phase : (c.phase = .clientWaitChallenge ∧ c.serverKemPk = some cArgs.serverKemPk) ∨
    c.phase = .clientWaitMsg2 ∨
    (c.phase = .established ∧ c.clientHs = none ∧ ∃ seed, ∃ tr ∈ wrote,
      Derived .client c tr (X.K.encapsulate sArgs.serverIdentity.kemPk seed).2
        (negotiate sArgs.preferredCipher cArgs.preferredCipher) ∧
      ClientWrote cArgs sArgs seed tr)
  once : wrote.length ≤ 1

structure ServerInv (c : Connection X) (clientWrote : List Transcript) : Prop where
  preferred : c.serverPreferredCipher = sArgs.preferredCipher
  phase : (c.phase = .serverWaitCookie ∧ c.serverIdentity = some sArgs.serverIdentity) ∨
    (c.phase = .serverWaitMsg3 ∧ c.serverIdentity = some sArgs.serverIdentity ∧
      ∀ hs, c.serverHs = some hs → ∃ p₁ m₁ e₂, X.N.transcript hs.noise = [(p₁, m₁), e₂] ∧
        c.agreedCipher = suiteFor sArgs p₁) ∨
    (c.phase = .established ∧ ∃ p₁ m₁ e₂ p₃ m₃ kemShared, [(p₁, m₁), e₂, (p₃, m₃)] ∈ clientWrote ∧
      ServerHandshake.openMsg3 X.K sArgs.serverIdentity.kemSk p₃ = .ok kemShared ∧
      Derived .server c [(p₁, m₁), e₂, (p₃, m₃)] kemShared (suiteFor sArgs p₁))

variable {cArgs sArgs}

/-! ## The client -/

theorem suiteFor_msg1Of (hX : X.Lawful) :
    suiteFor sArgs (msg1Of cArgs) = negotiate sArgs.preferredCipher cArgs.preferredCipher := by
  rw [suiteFor, msg1Of, clientFlag_msg1Payload hX.kem]

theorem msg2_agreed (hX : X.Lawful) {noise noise' : X.N.State} {payload msg : Bytes}
    (hmsg1 : ∀ e ∈ X.N.transcript noise, e.1 = msg1Of cArgs)
    (hread : readNoise X.N noise msg = (.ok payload, noise'))
    (hwrote : ServerWrote sArgs (X.N.transcript noise')) :
    (∃ m₁, X.N.transcript noise' = [(msg1Of cArgs, m₁), (payload, msg)]) ∧
    payload = ServerHandshake.msg2Payload X.K sArgs.serverIdentity.kemPk
      (negotiate sArgs.preferredCipher cArgs.preferredCipher) := by
  obtain ⟨p₁, m₁, m₂, htr⟩ := hwrote
  have happend : [(p₁, m₁)] ++ [(_, m₂)] = X.N.transcript noise ++ [(payload, msg)] :=
    htr.symm.trans (transcript_readNoise_ok hX.noise hread)
  obtain ⟨hfirst, hsecond⟩ := append_inj' happend rfl
  have hp₁ : p₁ = msg1Of cArgs := hmsg1 (p₁, m₁) (by rw [← hfirst]; exact mem_singleton.mpr rfl)
  cases hsecond
  subst hp₁
  rw [suiteFor_msg1Of hX] at htr ⊢
  exact ⟨⟨m₁, htr⟩, rfl⟩

variable {c : Connection X} {wrote : List Transcript} {env : Env} {buf : Bytes}

theorem ClientInv.waitChallenge (h : ClientInv cArgs sArgs c wrote)
    (hphase : c.phase = .clientWaitChallenge) : c.serverKemPk = some cArgs.serverKemPk := by
  rcases h.phase with ⟨-, hpk⟩ | hother | ⟨hother, -⟩
  · exact hpk
  · rw [hphase] at hother
    cases hother
  · rw [hphase] at hother
    cases hother

theorem ClientInv.clientRxChallenge (hX : X.Lawful) (h : ClientInv cArgs sArgs c wrote)
    (hphase : c.phase = .clientWaitChallenge) :
    ClientInv cArgs sArgs (c.clientRxChallenge env buf).conn wrote := by
  have hpk := h.waitChallenge hphase
  unfold Connection.clientRxChallenge
  cases htake : c.takeChallenge buf with
  | error e => exact h
  | ok x =>
    obtain ⟨cookie, hs, kemPk⟩ := x
    obtain ⟨-, -, -, hhs, hpk'⟩ := takeChallenge_eq_ok htake
    rw [hpk] at hpk'
    cases hpk'
    obtain ⟨hnone, hpref, hmsg1⟩ := h.waiting hs hhs
    have hpayload : msg1Payload X.K cArgs.serverKemPk hs.preferredCipher
        = msg1Of cArgs := by
      rw [hpref, msg1Of]
    -- whatever Noise has written, it has written with this payload
    have hnext : ∀ phase hs', hs'.preferredCipher = hs.preferredCipher →
        (∀ e ∈ X.N.transcript hs'.noise, e.1 = msg1Of cArgs) →
        phase = .clientWaitChallenge ∨ phase = .clientWaitMsg2 →
        ClientInv cArgs sArgs { c with clientHs := some hs', phase } wrote := by
      intro phase hs' hpref' hmsg1' hphases
      refine ⟨h.identity, fun hs'' hhs'' => ?_, ?_, h.once⟩
      · cases hhs''
        exact ⟨hnone, hpref'.trans hpref, hmsg1'⟩
      · rcases hphases with rfl | rfl
        · exact .inl ⟨rfl, hpk⟩
        · exact .inr (.inl rfl)
    dsimp only
    unfold writeMsg1
    rw [hpayload]
    rcases hwrite : writeNoise X.N hs.noise (msg1Of cArgs) env.noiseSeed with ⟨e | msg1, noise⟩
    · have htr := transcript_writeNoise_error hX.noise hwrite
      exact hnext c.phase { hs with noise } rfl (htr ▸ hmsg1) (.inl hphase)
    · have htr := transcript_writeNoise_ok hX.noise hwrite
      have hmsg1' : ∀ e ∈ X.N.transcript noise, e.1 = msg1Of cArgs := by
        intro e he
        rw [htr] at he
        rcases mem_append.mp he with he | he
        · exact hmsg1 e he
        · rw [mem_singleton.mp he]
      unfold Connection.sendTo
      dsimp only
      split
      · exact hnext c.phase { hs with noise } rfl hmsg1' (.inl hphase)
      · exact hnext .clientWaitMsg2 { hs with noise } rfl hmsg1' (.inr rfl)

theorem ClientInv.consumed (h : ClientInv cArgs sArgs c wrote) (hphase : c.phase = .clientWaitMsg2)
    {wrote' : List Transcript} (honce : wrote'.length ≤ 1) :
    ClientInv cArgs sArgs { c with clientHs := none } wrote' :=
  ⟨h.identity, fun _ hhs => (some_ne_none _ hhs.symm).elim, .inr (.inl hphase), honce⟩

variable {r : Reply X}

section

variable (h : ClientInv cArgs sArgs c wrote)
include h

theorem ClientInv.finishHandshake {result : HandshakeResult}
    (hr : ({ c with clientHs := none } : Connection X).finishHandshake env result = some r)
    {tr : Transcript} {seed : Nat} {noise : X.N.State} (htr : X.N.transcript noise = tr)
    (hwrote : ClientWrote cArgs sArgs seed tr)
    (hresult : conclude X.N X.B noise (X.K.encapsulate sArgs.serverIdentity.kemPk seed).2
      (negotiate sArgs.preferredCipher cArgs.preferredCipher) = some (.ok result)) :
    ClientInv cArgs sArgs r.conn [tr] := by
  obtain ⟨session, cc, events, sendCounter, lastSend, tar, heq, htag⟩ :=
    (finishHandshake_cases hr).2
  have hrole : ({ c with clientHs := none } : Connection X).role = .client := by
    simp [role, h.identity]
  rw [heq]
  refine ⟨rfl, fun _ hhs => (some_ne_none _ hhs.symm).elim,
    .inr (.inr ⟨rfl, rfl, seed, tr, mem_singleton.mpr rfl, ?_, hwrote⟩), le_rfl⟩
  refine ⟨noise, result, htr, hresult, ?_⟩
  rw [established, hrole] at htag
  exact htag

/-- **What the client makes of message 2**: it refuses the message and stays as it is; or the message is
the server's, with the server's key and the cipher both prefer. -/
theorem ClientInv.takeMsg2 (hX : X.Lawful)
    (hphase : c.phase = .clientWaitMsg2) (hauth : ∀ tr ∈ c.heard buf, ServerWrote sArgs tr) :
    (∃ e, c.takeMsg2 buf = (.error e, c)) ∨
    (wrote = [] ∧ ∃ hs m₁ e₂, X.N.transcript hs.noise = [(msg1Of cArgs, m₁), e₂] ∧
      c.takeMsg2 buf = (.ok (hs, sArgs.serverIdentity.kemPk,
        negotiate sArgs.preferredCipher cArgs.preferredCipher), { c with clientHs := none })) := by
  rcases c.takeMsg2_cases buf with htake | ⟨payload, hs, hstrip, hhs, hcase⟩
  · exact .inl htake
  obtain ⟨hnone, hpref, hmsg1⟩ := h.waiting hs hhs
  unfold readMsg2 at hcase
  rcases hread : readNoise X.N hs.noise payload with ⟨e | bytes, noise⟩
  · -- Noise refuses the message
    rw [hread] at hcase
    cases readNoise_error hX.noise hread
    rcases hcase with ⟨e', -, htake⟩ | ⟨pk, suite, hok, -⟩
    · have hsame : ({ c with clientHs := some hs } : Connection X) = c := by rw [← hhs]
      exact .inl ⟨e', by rw [htake, hsame]⟩
    · cases hok
  · -- Noise accepts it, so it is a message of the server
    have hheard : X.N.transcript noise ∈ c.heard buf := by
      simp [heard, hstrip, hphase, hhs, hread, succeeded]
    obtain ⟨⟨m₁, htr⟩, hbytes⟩ := msg2_agreed hX hmsg1 hread (hauth _ hheard)
    have hparse : (Except.ok bytes : Except SeamError Bytes).bind (parseMsg2 X.K)
        = .ok (sArgs.serverIdentity.kemPk,
          negotiate sArgs.preferredCipher cArgs.preferredCipher) := by
      rw [hbytes]
      exact parseMsg2_msg2Payload hX.kem _ _
    rw [hread] at hcase
    dsimp only at hcase
    rw [hparse] at hcase
    rcases hcase with ⟨e, herr, -⟩ | ⟨pk, suite, hok, htake⟩
    · cases herr
    · cases hok
      exact .inr ⟨hnone, _, m₁, _, htr, htake⟩

theorem ClientInv.clientRxMsg2 (hX : X.Lawful)
    (hphase : c.phase = .clientWaitMsg2) (hauth : ∀ tr ∈ c.heard buf, ServerWrote sArgs tr)
    (hr : c.clientRxMsg2 env buf = some r) :
    ClientInv cArgs sArgs r.conn (wrote ++ c.wrote env buf) := by
  unfold Connection.clientRxMsg2 at hr
  unfold Connection.wrote
  rw [hphase]
  rcases h.takeMsg2 hX hphase hauth with ⟨e, htake⟩ | ⟨hnone, hs, m₁, ⟨p₂, m₂⟩, htr, htake⟩
  · rw [htake] at hr ⊢
    cases hr
    rw [append_nil]
    exact h
  rw [htake] at hr ⊢
  dsimp only at hr ⊢
  unfold writeMsg3AndFinish at hr
  rw [hnone, nil_append]
  rcases hwrite : writeNoise X.N hs.noise (msg3Payload X.K
      sArgs.serverIdentity.kemPk env.kemSeed) env.noiseSeed with ⟨e | msg3, noise⟩
  · rw [hwrite] at hr
    cases hr
    exact h.consumed hphase (Nat.zero_le _)
  -- message 3 is written; what can still fail leaves the client without a handshake
  have htr₃ := transcript_writeNoise_ok hX.noise hwrite
  have hlost : ClientInv cArgs sArgs { c with clientHs := none } [X.N.transcript noise] :=
    h.consumed hphase le_rfl
  rw [hwrite] at hr
  dsimp only [succeeded] at hr ⊢
  rcases hconc : conclude X.N X.B noise (X.K.encapsulate sArgs.serverIdentity.kemPk env.kemSeed).2
      (negotiate sArgs.preferredCipher cArgs.preferredCipher) with _ | e | result
  · rw [hconc] at hr
    cases hr
  · rw [hconc] at hr
    cases hr
    exact hlost
  · rw [hconc] at hr
    dsimp only [map_some, Except.map] at hr
    split at hr
    · cases hr
      exact hlost
    · obtain ⟨r', hfin, rfl⟩ := map_eq_some_iff.mp hr
      refine h.finishHandshake hfin rfl ?_ hconc
      rw [htr₃, htr]
      exact ⟨m₁, p₂, m₂, msg3, rfl⟩

theorem ClientInv.evolves (hphase : c.phase = .established)
    {now : Nat} {c' : Connection X}
    (hev : ({ c with lastRecv := now } : Connection X).Evolves c') :
    ClientInv cArgs sArgs c' wrote := by
  obtain ⟨session, cc, events, sendCounter, lastSend, tar, rfl, htag⟩ := hev
  rcases h.phase with ⟨hother, -⟩ | hother | ⟨-, hnone, seed, tr, htr, hderived, hwrote⟩
  · rw [hphase] at hother
    cases hother
  · rw [hphase] at hother
    cases hother
  · obtain ⟨noise, result, hnoise, hresult, hsess⟩ := hderived
    exact ⟨h.identity, h.waiting, .inr (.inr ⟨hphase, hnone, seed, tr, htr,
      ⟨noise, result, hnoise, hresult, htag.trans hsess⟩, hwrote⟩), h.once⟩

end

theorem wrote_eq_nil (hclient : c.phase ≠ .clientWaitMsg2) (hserver : c.phase ≠ .serverWaitCookie) :
    c.wrote env buf = [] := by
  unfold wrote
  split
  · next h => exact absurd h hclient
  · next h => exact absurd h hserver
  · rfl

theorem wrote_nil (env : Env) (c : Connection X) : c.wrote env [] = [] := by
  unfold wrote
  split
  · rfl
  · rfl
  · rfl

theorem ClientInv.step (hX : X.Lawful) (h : ClientInv cArgs sArgs c wrote)
    (hauth : ∀ tr ∈ c.heard buf, ServerWrote sArgs tr) (hr : c.onPacket env buf = some r) :
    ClientInv cArgs sArgs r.conn (wrote ++ c.wrote env buf) := by
  by_cases hne : buf = []
  · subst hne
    cases hr
    rw [wrote_nil, append_nil]
    exact h
  have hempty : buf.isEmpty = false := isEmpty_eq_false_iff.mpr hne
  unfold onPacket at hr
  rw [hempty, if_neg Bool.false_ne_true] at hr
  rcases h.phase with ⟨hphase, -⟩ | hphase | ⟨hphase, -⟩
  · rw [wrote_eq_nil (by rw [hphase]; nofun) (by rw [hphase]; nofun), append_nil]
    rw [hphase] at hr
    cases hr
    exact h.clientRxChallenge hX hphase
  · rw [hphase] at hr
    exact h.clientRxMsg2 hX hphase hauth hr
  · rw [wrote_eq_nil (by rw [hphase]; nofun) (by rw [hphase]; nofun), append_nil]
    rw [hphase] at hr
    exact h.evolves hphase (evolves_onDataPacket hr)

/-! ## The server -/

theorem transcript_readMsg1 (hX : X.Lawful) {sk : Key} {hs hs' : ServerHandshake X.N} {msg1 : Bytes}
    {suite : CipherSuite}
    (hnew : ServerHandshake.newWithCipher X.N sk sArgs.preferredCipher = .ok hs)
    (hread : hs.readMsg1 msg1 = (.ok suite, hs')) :
    ∃ p₁, X.N.transcript hs'.noise = [(p₁, msg1)] ∧ suite = suiteFor sArgs p₁ := by
  obtain ⟨hbuild, hpreferred⟩ := ServerHandshake.newWithCipher_eq_ok hnew
  obtain ⟨p₁, hmessage, hsuite⟩ := ServerHandshake.readMsg1_eq_ok hread
  refine ⟨p₁, ?_, by rw [hsuite, hpreferred, suiteFor]⟩
  rw [hX.noise.transcript_read hmessage, hX.noise.transcript_responder hbuild]
  rfl

variable {clientWrote : List Transcript}

section

variable (h : ServerInv sArgs c clientWrote)
include h

theorem ServerInv.waitCookie
    (hphase : c.phase = .serverWaitCookie) : c.serverIdentity = some sArgs.serverIdentity := by
  rcases h.phase with ⟨-, hid⟩ | ⟨-, hid, -⟩ | ⟨hother, -⟩
  · exact hid
  · exact hid
  · rw [hphase] at hother
    cases hother

theorem ServerInv.waitMsg3 (hphase : c.phase = .serverWaitMsg3) :
    c.serverIdentity = some sArgs.serverIdentity ∧
      ∀ hs, c.serverHs = some hs → ∃ p₁ m₁ e₂, X.N.transcript hs.noise = [(p₁, m₁), e₂] ∧
        c.agreedCipher = suiteFor sArgs p₁ := by
  rcases h.phase with ⟨hother, -⟩ | ⟨-, hid, hwait⟩ | ⟨hother, -⟩
  · rw [hphase] at hother
    cases hother
  · exact ⟨hid, hwait⟩
  · rw [hphase] at hother
    cases hother

theorem ServerInv.takeEcho (hX : X.Lawful)
    (hphase : c.phase = .serverWaitCookie) {identity : IdentityKeypair X.K} {hs : ServerHandshake X.N}
    {suite : CipherSuite} (htake : c.takeEcho env buf = .ok (identity, hs, suite)) :
    identity = sArgs.serverIdentity ∧
      ∃ p₁ m₁, X.N.transcript hs.noise = [(p₁, m₁)] ∧ suite = suiteFor sArgs p₁ := by
  obtain ⟨-, -, -, hid, hs₀, hnew, hread⟩ := takeEcho_eq_ok htake
  rw [h.waitCookie hphase] at hid
  rw [h.preferred] at hnew
  obtain ⟨p₁, htr, hsuite⟩ := transcript_readMsg1 hX hnew hread
  exact ⟨(Option.some.inj hid).symm, p₁, _, htr, hsuite⟩

theorem ServerInv.serverWrote (hX : X.Lawful)
    (hphase : c.phase = .serverWaitCookie) : ∀ tr ∈ c.wrote env buf, ServerWrote sArgs tr := by
  unfold wrote
  rw [hphase]
  cases htake : c.takeEcho env buf with
  | error e => exact fun _ htr => (not_mem_nil htr).elim
  | ok x =>
    obtain ⟨identity, hs, suite⟩ := x
    obtain ⟨rfl, p₁, m₁, htr, rfl⟩ := h.takeEcho hX hphase htake
    dsimp only
    rcases hwrite : writeNoise X.N hs.noise (ServerHandshake.msg2Payload X.K
        sArgs.serverIdentity.kemPk (suiteFor sArgs p₁)) env.noiseSeed with ⟨e | msg2, noise⟩
    · exact fun _ htr => (not_mem_nil htr).elim
    · intro tr hmem
      rw [mem_singleton.mp hmem, transcript_writeNoise_ok hX.noise hwrite, htr]
      exact ⟨p₁, m₁, msg2, rfl⟩

theorem ServerInv.serverRxCookieEcho (hX : X.Lawful)
    (hphase : c.phase = .serverWaitCookie) :
    ServerInv sArgs (c.serverRxCookieEcho env buf).conn clientWrote := by
  have hid := h.waitCookie hphase
  rcases c.serverRxCookieEcho_cases env buf with
    ⟨e, suite, heq⟩ | ⟨identity, hs, suite, msg2, hs', htake, hwrite, heq⟩
  · rw [heq]
    exact ⟨h.preferred, .inl ⟨hphase, hid⟩⟩
  · obtain ⟨-, p₁, m₁, htr, hsuite⟩ := h.takeEcho hX hphase htake
    have htr₂ := hX.noise.transcript_write (ServerHandshake.writeMsg2_eq_ok hwrite)
    rw [htr] at htr₂
    rw [heq]
    refine ⟨h.preferred, .inr (.inl ⟨rfl, hid, fun hs'' hhs'' => ?_⟩)⟩
    cases hhs''
    exact ⟨p₁, m₁, _, htr₂, hsuite⟩

theorem ServerInv.serverRxMsg3 (hX : X.Lawful)
    (hphase : c.phase = .serverWaitMsg3) (hauth : ∀ tr ∈ c.heard buf, tr ∈ clientWrote)
    (hr : c.serverRxMsg3 env buf = some r) : ServerInv sArgs r.conn clientWrote := by
  obtain ⟨hid, hwait⟩ := h.waitMsg3 hphase
  rcases serverRxMsg3_cases hr with ⟨e, serverHs, hhs, rfl⟩ | ⟨result, htake, hfinish⟩
  · -- the handshake is the same, or gone
    refine ⟨h.preferred, .inr (.inl ⟨hphase, hid, fun hs hs' => ?_⟩)⟩
    rcases hhs with rfl | rfl
    · cases hs'
    · exact hwait hs hs'
  · obtain ⟨msg, hs, identity, p₃, noise, kemShared, hstrip, hhs, hid', hread, hopen, hconc⟩ :=
      takeMsg3_eq_ok htake
    rw [hid] at hid'
    cases hid'
    obtain ⟨p₁, m₁, e₂, htr, hagreed⟩ := hwait hs hhs
    have htr₃ := transcript_readNoise_ok hX.noise hread
    rw [htr] at htr₃
    -- Noise has read it, so the client has written it
    have hheard : X.N.transcript noise ∈ c.heard buf := by
      simp [heard, hstrip, hphase, hhs, hread, succeeded]
    have hwrote := hauth _ hheard
    rw [htr₃] at hwrote
    obtain ⟨session, cc, events, sendCounter, lastSend, tar, heq, htag⟩ :=
      (finishHandshake_cases hfinish).2
    have hrole : ({ c with serverHs := none } : Connection X).role = .server := by
      simp [role, hid]
    rw [established, hrole] at htag
    rw [hagreed] at hconc
    rw [heq]
    exact ⟨h.preferred, .inr (.inr ⟨rfl, p₁, m₁, e₂, p₃, msg, kemShared, hwrote, hopen, noise,
      result, htr₃, hconc, htag⟩)⟩

theorem ServerInv.evolves (hphase : c.phase = .established)
    {now : Nat} {c' : Connection X} (hev : ({ c with lastRecv := now } : Connection X).Evolves c') :
    ServerInv sArgs c' clientWrote := by
  obtain ⟨session, cc, events, sendCounter, lastSend, tar, rfl, htag⟩ := hev
  rcases h.phase with ⟨hother, -⟩ | ⟨hother, -⟩ |
    ⟨-, p₁, m₁, e₂, p₃, m₃, kemShared, hmem, hopen, noise, result, htr, hresult, hsess⟩
  · rw [hphase] at hother
    cases hother
  · rw [hphase] at hother
    cases hother
  · exact ⟨h.preferred, .inr (.inr ⟨hphase, p₁, m₁, e₂, p₃, m₃, kemShared, hmem, hopen, noise,
      result, htr, hresult, htag.trans hsess⟩)⟩

theorem ServerInv.mono {clientWrote' : List Transcript}
    (hsub : clientWrote ⊆ clientWrote') : ServerInv sArgs c clientWrote' := by
  refine ⟨h.preferred, ?_⟩
  rcases h.phase with hcookie | hmsg3 |
    ⟨hphase, p₁, m₁, e₂, p₃, m₃, kemShared, hmem, hrest⟩
  · exact .inl hcookie
  · exact .inr (.inl hmsg3)
  · exact .inr (.inr ⟨hphase, p₁, m₁, e₂, p₃, m₃, kemShared, hsub hmem, hrest⟩)

theorem ServerInv.step (hX : X.Lawful)
    (hauth : ∀ tr ∈ c.heard buf, tr ∈ clientWrote) (hr : c.onPacket env buf = some r) :
    ServerInv sArgs r.conn clientWrote ∧ ∀ tr ∈ c.wrote env buf, ServerWrote sArgs tr := by
  by_cases hne : buf = []
  · subst hne
    cases hr
    rw [wrote_nil]
    exact ⟨h, fun _ htr => (not_mem_nil htr).elim⟩
  have hempty : buf.isEmpty = false := isEmpty_eq_false_iff.mpr hne
  unfold onPacket at hr
  rw [hempty, if_neg Bool.false_ne_true] at hr
  rcases h.phase with ⟨hphase, -⟩ | ⟨hphase, -⟩ | ⟨hphase, -⟩
  · rw [hphase] at hr
    cases hr
    exact ⟨h.serverRxCookieEcho hX hphase, h.serverWrote hX hphase⟩
  · rw [wrote_eq_nil (by rw [hphase]; nofun) (by rw [hphase]; nofun)]
    rw [hphase] at hr
    exact ⟨h.serverRxMsg3 hX hphase hauth hr, fun _ htr => (not_mem_nil htr).elim⟩
  · rw [wrote_eq_nil (by rw [hphase]; nofun) (by rw [hphase]; nofun)]
    rw [hphase] at hr
    exact ⟨h.evolves hphase (evolves_onDataPacket hr),
      fun _ htr => (not_mem_nil htr).elim⟩

end

/-! ## Both -/

structure Duo.Inv (cArgs : Connection.ConnectArgs X) (sArgs : Connection.AcceptArgs X) (d : Duo X) :
    Prop where
  client : ClientInv cArgs sArgs (d.conn .client) (d.wrote .client)
  server : ServerInv sArgs (d.conn .server) (d.wrote .client)
  serverWrote : ∀ tr ∈ d.wrote .server, ServerWrote sArgs tr

variable {d : Duo X}

theorem Duo.Inv.step (hX : X.Lawful) {d' : Duo X} {a : Incoming} (h : d.Inv cArgs sArgs)
    (hauth : d.authentic a) (hstep : d.step a = some d') : d'.Inv cArgs sArgs := by
  obtain ⟨x, env, buf⟩ := a
  obtain ⟨r, hr, rfl⟩ := map_eq_some_iff.mp hstep
  cases x with
  | client =>
    have hclient := h.client.step hX (fun tr htr => h.serverWrote tr (hauth tr htr)) hr
    exact ⟨hclient, h.server.mono (subset_append_left _ _), h.serverWrote⟩
  | server =>
    obtain ⟨hserver, hwrote⟩ := h.server.step hX hauth hr
    refine ⟨h.client, hserver, fun tr htr => ?_⟩
    rcases mem_append.mp htr with hold | hnew
    · exact h.serverWrote tr hold
    · exact hwrote tr hnew

variable {remote : SocketAddr}

theorem clientInv_connect (hX : X.Lawful) (h : (connect env remote cArgs).1 = .ok c) :
    ClientInv cArgs sArgs c [] := by
  unfold connect at h
  split at h
  · cases h
  · split at h
    · cases h
    · next hs hnew =>
        cases h
        unfold newWithCipher at hnew
        split at hnew
        · cases hnew
        · next noise hbuild =>
            cases hnew
            refine ⟨rfl, fun hs hhs => ?_, .inl ⟨rfl, rfl⟩, Nat.zero_le _⟩
            cases hhs
            refine ⟨rfl, rfl, fun e he => ?_⟩
            rw [hX.noise.transcript_initiator hbuild] at he
            exact (not_mem_nil he).elim

theorem serverInv_acceptChallenge (h : (acceptChallenge env remote sArgs).1 = .ok c) :
    ServerInv sArgs c [] := by
  unfold acceptChallenge at h
  split at h
  · cases h
  · cases h
    exact ⟨rfl, .inl ⟨rfl, rfl⟩⟩

theorem Duo.Inv.results (hX : X.Lawful) (h : d.Inv cArgs sArgs)
    (hclient : (d.conn .client).phase = .established)
    (hserver : (d.conn .server).phase = .established) :
    ∃ (result : HandshakeResult) (peerStatic : Key),
      (d.conn .client).session.map Session.tag = some (result.session .client).tag ∧
      (d.conn .server).session.map Session.tag
        = some (({ result with peerStaticPubkey := peerStatic } : HandshakeResult).session
            .server).tag ∧
      result.keysC2s.cipherSuite = negotiate sArgs.preferredCipher cArgs.preferredCipher ∧
      result.keysS2c.cipherSuite = negotiate sArgs.preferredCipher cArgs.preferredCipher := by
  rcases h.client.phase with ⟨hother, -⟩ | hother | ⟨-, -, seed, tr, htr, hderived, hwrote⟩
  · rw [hclient] at hother
    cases hother
  · rw [hclient] at hother
    cases hother
  rcases h.server.phase with ⟨hother, -⟩ | ⟨hother, -⟩ |
    ⟨-, p₁, m₁, e₂, p₃, m₃, kemShared, hmem, hopen, hderived'⟩
  · rw [hserver] at hother
    cases hother
  · rw [hserver] at hother
    cases hother
  -- the client has written one message 3, so both transcripts are the same
  have hone : [(p₁, m₁), e₂, (p₃, m₃)] = tr := by
    obtain ⟨i, hi, hget⟩ := getElem_of_mem hmem
    obtain ⟨j, hj, hget'⟩ := getElem_of_mem htr
    have honce := h.client.once
    have hij : i = j := by omega
    subst hij
    rw [← hget, ← hget']
  obtain ⟨m₁', p₂, m₂, m₃', htr'⟩ := hwrote
  rw [← hone] at htr'
  cases htr'
  rw [openMsg3_msg3Payload hX.kem sArgs.serverIdentity.isPair] at hopen
  cases hopen
  rw [suiteFor_msg1Of hX] at hderived'
  obtain ⟨noise, result, hnoise, hresult, hsess⟩ := hderived
  obtain ⟨noise', result', hnoise', hresult', hsess'⟩ := hderived'
  have heq := conclude_eq hX.noise (hnoise.trans (hone.symm.trans hnoise'.symm)) hresult hresult'
  have hsuites := conclude_cipherSuite hresult
  rw [heq] at hsess'
  exact ⟨result, _, hsess, hsess', hsuites.1, hsuites.2⟩

theorem Duo.Inv.run (hX : X.Lawful) {client server : Connection X} {evs : List Incoming}
    (hclient : ClientInv cArgs sArgs client []) (hserver : ServerInv sArgs server [])
    (hauth : Meets Duo.step Duo.authentic (Duo.start client server) evs)
    (hrun : exec Duo.step (Duo.start client server) evs = some d) : d.Inv cArgs sArgs := by
  have hstart : (Duo.start client server).Inv cArgs sArgs :=
    ⟨hclient, hserver, fun _ htr => (not_mem_nil htr).elim⟩
  exact exec_invariant_of_meets (Duo.Inv cArgs sArgs) (fun _ _ _ h ha hstep => h.step hX ha hstep)
    hstart hauth hrun

/-- **Both sides of a handshake agree, and nobody can lower the cipher.** Whatever datagrams arrive, if
a message 2 or 3 that is read was written by the other side over the same transcript: once both are
established, they have the same session id, each sends with the keys the other receives with, and they
use AES-256-GCM exactly if both prefer it. -/
theorem handshake_agreement (hX : X.Lawful) {env₁ env₂ : Env} {addr₁ addr₂ : SocketAddr}
    {client server : Connection X} {evs : List Incoming} {d : Duo X}
    (hconnect : (Connection.connect env₁ addr₁ cArgs).1 = .ok client)
    (haccept : (Connection.acceptChallenge env₂ addr₂ sArgs).1 = .ok server)
    (hauth : Meets Duo.step Duo.authentic (Duo.start client server) evs)
    (hrun : exec Duo.step (Duo.start client server) evs = some d)
    (hclient : (d.conn .client).phase = .established)
    (hserver : (d.conn .server).phase = .established) :
    ∃ sc ss, (d.conn .client).session = some sc ∧ (d.conn .server).session = some ss ∧
      sc.role = .client ∧ ss.role = .server ∧
      sc.id = ss.id ∧ sc.encoder.sessionId = sc.id ∧ ss.encoder.sessionId = ss.id ∧
      sc.encoder.keys = ss.decoder.keys ∧ ss.encoder.keys = sc.decoder.keys ∧
      sc.encoder.keys.cipherSuite = sc.decoder.keys.cipherSuite ∧
      (sc.encoder.keys.cipherSuite = .aes256Gcm ↔
        cArgs.preferredCipher = .aes256Gcm ∧ sArgs.preferredCipher = .aes256Gcm) := by
  have hinv : d.Inv cArgs sArgs :=
    Duo.Inv.run hX (clientInv_connect hX hconnect) (serverInv_acceptChallenge haccept) hauth hrun
  obtain ⟨result, peerStatic, hc, hs, hc2s, hs2c⟩ := hinv.results hX hclient hserver
  obtain ⟨sc, hsc, htagc⟩ := map_eq_some_iff.mp hc
  obtain ⟨ss, hss, htags⟩ := map_eq_some_iff.mp hs
  -- the fields of a session that a tag shows
  simp only [Session.tag, Session.ident, Prod.mk.injEq, Session.Ident.mk.injEq] at htagc htags
  obtain ⟨hidc, hrolec, hencc, hsidc, hdecc, -⟩ := htagc
  obtain ⟨hids, hroles, hencs, hsids, hdecs, -⟩ := htags
  refine ⟨sc, ss, hsc, hss, hrolec, hroles, hidc.trans hids.symm, hsidc.trans hidc.symm,
    hsids.trans hids.symm, hencc.trans hdecs.symm, hencs.trans hdecc.symm, ?_, ?_⟩
  · rw [hencc, hdecc]
    exact hc2s.trans hs2c.symm
  · rw [hencc]
    have hsuite : (result.session .client).encoder.keys.cipherSuite
        = negotiate sArgs.preferredCipher cArgs.preferredCipher := hc2s
    rw [hsuite, negotiate_eq_aes256Gcm]
    exact and_comm

end Invariants

/-! ## A run -/

def sampleHandshake : List Incoming :=
  [⟨.client, sampleEnv 0, sampleChallenge⟩,
    ⟨.server, sampleEnv 0, [pktCookieEcho, 0, 1]⟩,
    ⟨.server, sampleEnv 0, (sampleEcho .aes256Gcm).sent.headD []⟩,
    ⟨.client, sampleEnv 0, (sampleMsg2 .aes256Gcm .aes256Gcm).sent.headD []⟩,
    ⟨.client, sampleEnv 0, sampleChallenge⟩,
    ⟨.server, sampleEnv 0, (sampleMsg3 .aes256Gcm .aes256Gcm).sent.headD []⟩]

theorem handshake_agreement_sample :
    ∃ d, exec Duo.step (Duo.start (sampleConnecting .aes256Gcm) (sampleAccepting .aes256Gcm))
        sampleHandshake = some d ∧
      ∃ sc ss, (d.conn .client).session = some sc ∧ (d.conn .server).session = some ss ∧
        sc.encoder.keys = ss.decoder.keys ∧ ss.encoder.keys = sc.decoder.keys ∧
        sc.encoder.keys.cipherSuite = .aes256Gcm := by
  refine exists_exec_of (p := fun d => (d.conn .client).phase = .established ∧
    (d.conn .server).phase = .established) (by decide +kernel) ?_
  rintro d hd ⟨hclient, hserver⟩
  have hconnect : (Connection.connect (sampleEnv 0) (sampleAddr .server)
      (sampleConnectArgs .aes256Gcm)).1 = .ok (sampleConnecting .aes256Gcm) := rfl
  have haccept : (Connection.acceptChallenge (sampleEnv 0) (sampleAddr .client)
      (sampleAcceptArgs .aes256Gcm)).1 = .ok (sampleAccepting .aes256Gcm) := rfl
  obtain ⟨sc, ss, hsc, hss, -, -, -, -, -, hkeys, hkeys', -, hsuite⟩ :=
    handshake_agreement samplePlatform_lawful hconnect haccept (by decide +kernel) hd hclient hserver
  exact ⟨sc, ss, hsc, hss, hkeys, hkeys', hsuite.mpr ⟨rfl, rfl⟩⟩

end SeamProtocol
