import SeamProtocol.Client.Connect

/-! # Handshakes that complete

Nobody repeats a message of the handshake. So a client can be left alone with its connection, and an
attempt can fail although the answer is on its way; neither happens if the network spares the handshake. -/

namespace SeamProtocol

open Lib List Option Connection Dial

variable {X : Platform}

theorem Dial.giveUp_cases (n : Nat) (e : SeamError) :
    (∃ m, (giveUp n e : Dial X) = .pausing m) ∨ (giveUp n e : Dial X) = .failed e := by
  unfold giveUp
  split
  · exact .inl ⟨_, rfl⟩
  · exact .inr rfl

namespace Contact

variable {X : Platform} {p : Setup X} {l l' : Contact X} {env : Env} {i : Nat} {buf : Bytes}

/-! ## The invariant -/

def resting (l : Contact X) : Prop := (∃ n, l.client = .pausing n) ∨ ∃ e, l.client = .failed e

structure Before (p : Setup X) (l : Contact X) : Prop where
  server : ServerOk p l.server
  notServed : l.server.accepted = []
  single : l.toServer.length + l.toClient.length ≤ 1
  client : l.resting ∨
    ∃ n c, l.client = .trying n c ∧ (c.Asking p ∨ ∃ msg₁, c.Echoing p msg₁)
  /-- On the way to the server there is a request, or an echo; the client has written what is in it. -/
  toServer : ∀ buf ∈ l.toServer, buf = [pktCookieReq] ∨
    ∃ cookie msg₁, cookie.length = 32 ∧ buf = Connection.cookieEcho cookie msg₁ ∧
      ∀ n c, l.client = .trying n c → c.Echoing p msg₁
  toClient : ∀ buf ∈ l.toClient, ∀ n c msg₂, l.client = .trying n c → c.phase = .clientWaitMsg2 →
    Connection.stripType buf pktHandshakeMsg = .ok msg₂ →
    ∃ cs, l.entry p = some cs ∧ c.Answering cs msg₂

/-- **The client is connected**, and message 3 is the next datagram for the server, which will accept
it. -/
structure Finishing (p : Setup X) (l : Contact X) : Prop where
  server : ServerOk p l.server
  notServed : l.server.accepted = []
  ready : ∃ msg₃ rest cs, l.toServer = (pktHandshakeMsg :: msg₃) :: rest ∧ l.entry p = some cs ∧
    cs.Ready msg₃

def Inv (p : Setup X) (l : Contact X) : Prop :=
  l.Before p ∨ ∃ c, l.client = .connected c ∧ (l.served ∨ l.Finishing p)

theorem inv_start : (start X).Inv p :=
  .inl ⟨⟨ServerLoop.inv_start, rfl⟩, rfl, Nat.zero_le 1, .inl (.inl ⟨0, rfl⟩),
    fun _ h => (not_mem_nil h).elim, fun _ h => (not_mem_nil h).elim⟩

/-! ## Before the client is connected -/

theorem Before.silent (hserver : ServerOk p l.server) (hnone : l.server.accepted = [])
    (hclient : l.resting ∨ ∃ n c, l.client = .trying n c ∧ (c.Asking p ∨ ∃ msg₁, c.Echoing p msg₁))
    (hto : l.toServer = []) (hfrom : l.toClient = []) : l.Before p where
  server := hserver
  notServed := hnone
  single := by rw [hto, hfrom]; exact Nat.zero_le 1
  client := hclient
  toServer buf h := by
    rw [hto] at h
    exact (not_mem_nil h).elim
  toClient buf h := by
    rw [hfrom] at h
    exact (not_mem_nil h).elim

theorem resting.ne_trying (h : l.resting) (n : Nat) (c : Connection X) : l.client ≠ .trying n c := by
  rcases h with ⟨m, hm⟩ | ⟨e, he⟩
  · rw [hm]
    nofun
  · rw [he]
    nofun

theorem Before.giveUp (h : l.Before p) (n : Nat) (e : SeamError) :
    ({ l with client := .giveUp n e } : Contact X).Before p := by
  have hrest : ({ l with client := .giveUp n e } : Contact X).resting := by
    rcases giveUp_cases n e with ⟨m, hm⟩ | he
    · exact .inl ⟨m, hm⟩
    · exact .inr ⟨e, he⟩
  refine ⟨h.server, h.notServed, h.single, .inl hrest, fun buf hbuf => ?_, ?_⟩
  · refine (h.toServer buf hbuf).imp_right ?_
    rintro ⟨cookie, msg₁, hcookie, heq, -⟩
    exact ⟨cookie, msg₁, hcookie, heq, fun n' c hc => (hrest.ne_trying n' c hc).elim⟩
  · exact fun buf _ n' c _ hc => (hrest.ne_trying n' c hc).elim

theorem Before.attempt (h : l.Before p) (hto : l.toServer = []) (hfrom : l.toClient = [])
    (hstep : l.step p (.attempt env) = some l') : l'.Before p := by
  -- a request is on its way, if anything is
  have hone : ∀ client sent, (sent = [] ∨ sent = [[pktCookieReq]]) →
      (({ l with client, toServer := l.toServer ++ sent } : Contact X).resting ∨
        ∃ c n, client = .trying n c ∧ c.Asking p) →
      ({ l with client, toServer := l.toServer ++ sent } : Contact X).Before p := by
    intro client sent hsent hclient
    rw [hto, nil_append] at hclient ⊢
    refine ⟨h.server, h.notServed, ?_, hclient.imp_right ?_, fun buf hbuf => ?_, ?_⟩
    · rw [hfrom]
      rcases hsent with rfl | rfl
      · exact Nat.zero_le 1
      · exact Nat.le_refl 1
    · rintro ⟨c, n, hc, hasking⟩
      exact ⟨n, c, hc, .inl hasking⟩
    · rcases hsent with rfl | rfl
      · exact (not_mem_nil hbuf).elim
      · exact .inl (mem_singleton.mp hbuf)
    · intro buf hbuf
      rw [show ({ l with client, toServer := sent } : Contact X).toClient = [] from hfrom] at hbuf
      exact (not_mem_nil hbuf).elim
  simp only [step] at hstep
  split at hstep
  · split at hstep
    · next n _ _ e sent hconnect =>
        cases hstep
        refine hone _ _ ?_ (.inl ?_)
        · unfold connect at hconnect
          split at hconnect
          · cases hconnect
            exact .inl rfl
          · split at hconnect
            · cases hconnect
              exact .inr rfl
            · cases hconnect
        · rcases giveUp_cases n e with ⟨m, hm⟩ | he
          · exact .inl ⟨m, hm⟩
          · exact .inr ⟨e, he⟩
    · next n _ _ c sent hconnect =>
        cases hstep
        obtain ⟨hasking, hsent⟩ := asking_connect hconnect
        exact hone _ _ (.inr hsent) (.inr ⟨c, n, rfl, hasking⟩)
  · cases hstep

theorem Before.of_toClient (h : l.Before p) (hbuf : l.toClient[i]? = some buf) :
    l.toServer = [] ∧ l.toClient.eraseIdx i = [] := by
  have hsingle := h.single
  have hlt : i < l.toClient.length := (List.getElem?_eq_some_iff.mp hbuf).1
  constructor
  · exact eq_nil_of_length_eq_zero (by omega)
  · refine eq_nil_of_length_eq_zero ?_
    rw [length_eraseIdx_of_lt hlt]
    omega

theorem Before.of_toServer (h : l.Before p) (hbuf : l.toServer[i]? = some buf) :
    l.toServer.eraseIdx i = [] ∧ l.toClient = [] := by
  have hsingle := h.single
  have hlt : i < l.toServer.length := (List.getElem?_eq_some_iff.mp hbuf).1
  constructor
  · refine eq_nil_of_length_eq_zero ?_
    rw [length_eraseIdx_of_lt hlt]
    omega
  · exact eq_nil_of_length_eq_zero (by omega)

variable {n : Nat} {r : Reply X}

theorem tried_of_not_established (hok : r.result = .ok ()) (hphase : r.conn.phase ≠ .established) :
    tried n r = .trying n r.conn := by
  have hest : r.conn.isEstablished = false := decide_eq_false hphase
  rw [tried, hok]
  rw [hest, if_neg Bool.false_ne_true]

theorem tried_of_established (hok : r.result = .ok ()) (hphase : r.conn.phase = .established) :
    tried n r = .connected r.conn := by
  have hest : r.conn.isEstablished = true := decide_eq_true hphase
  rw [tried, hok]
  rw [if_pos hest]

/-- **The client gets a datagram** in an attempt, which goes on; or fails, and nothing is on its way; or
the client is connected, and its message 3 will be accepted. -/
theorem Before.clientGets (hX : X.Completes) (h : l.Before p)
    (hstep : l.step p (.clientGets i env) = some l') :
    (l'.Before p ∧ (l'.resting → l'.toServer = [] ∧ l'.toClient = [])) ∨
    ∃ c, l'.client = .connected c ∧ l'.Finishing p := by
  obtain ⟨buf, hbuf, hstep⟩ := bind_eq_some_iff.mp hstep
  obtain ⟨hto, hfrom⟩ := h.of_toClient hbuf
  rcases h.client with hrest | ⟨n, c, hc, hstage⟩
  · rcases hrest with ⟨m, hm⟩ | ⟨e, he⟩
    · rw [hm] at hstep
      cases hstep
    · rw [he] at hstep
      cases hstep
  rw [hc] at hstep
  obtain ⟨r, hr, rfl⟩ := map_eq_some_iff.mp hstep
  rw [hto, hfrom, nil_append]
  -- the client sends nothing and is where it was, or has given up
  have hstay : r.sent = [] → r.conn.phase ≠ .established → (r.result = .ok () → r.conn = c) →
      ({ l with client := tried n r, toClient := [], toServer := r.sent } : Contact X).Before p ∧
        r.sent = [] ∧ [] = ([] : List Bytes) := by
    intro hsent hphase hsame
    refine ⟨Before.silent h.server h.notServed ?_ hsent rfl, hsent, rfl⟩
    rcases hresult : r.result with e | u
    · left
      have htried : tried n r = .giveUp n e := by rw [tried, hresult]
      rcases giveUp_cases n e with ⟨m, hm⟩ | he
      · exact .inl ⟨m, htried.trans hm⟩
      · exact .inr ⟨e, htried.trans he⟩
    · right
      have htried : tried n r = .trying n r.conn := tried_of_not_established hresult hphase
      exact ⟨n, c, by rw [← hsame hresult]; exact htried, hstage⟩
  rcases hstage with hasking | ⟨msg₁, hechoing⟩
  · rcases hasking.onPacket hX hr with
      ⟨hsent, hphase, hsame⟩ | ⟨cookie, msg₁, hcookie, hok, hecho, hsent⟩
    · obtain ⟨hbefore, hnil⟩ := hstay hsent hphase hsame
      exact .inl ⟨hbefore, fun _ => hnil⟩
    · -- the echo is on its way
      have htried : tried n r = .trying n r.conn :=
        tried_of_not_established hok (by rw [hecho.1]; nofun)
      rw [htried, hsent]
      refine .inl ⟨⟨h.server, h.notServed, Nat.le_refl 1, .inr ⟨n, _, rfl, .inr ⟨_, hecho⟩⟩,
        fun buf hmem => .inr ⟨cookie, msg₁, hcookie, mem_singleton.mp hmem, ?_⟩,
        fun _ hmem => (not_mem_nil hmem).elim⟩, fun hrest => (hrest.ne_trying n _ rfl).elim⟩
      intro n' c' hc'
      cases hc'
      exact hecho
  · rcases hechoing.onPacket hX hr with
      ⟨hsent, hphase, hsame⟩ | ⟨msg₂, msg₃, rest, hstrip, hok, hphase, hsent, hready⟩
    · obtain ⟨hbefore, hnil⟩ := hstay hsent hphase hsame
      exact .inl ⟨hbefore, fun _ => hnil⟩
    · -- the server has answered this client, so it will accept message 3
      obtain ⟨cs, hentry, hanswering⟩ :=
        h.toClient buf (mem_of_getElem? hbuf) n c msg₂ hc hechoing.1 hstrip
      exact .inr ⟨r.conn, tried_of_established hok hphase,
        ⟨h.server, h.notServed, msg₃, rest, cs, hsent, hentry, hready cs hanswering⟩⟩

theorem Before.head_toServer (h : l.Before p) (hbuf : l.toServer[i]? = some buf) :
    buf.headD 0 ≠ pktHandshakeMsg := by
  rcases h.toServer buf (mem_of_getElem? hbuf) with rfl | ⟨cookie, msg₁, -, rfl, -⟩
  · decide
  · exact show pktCookieEcho ≠ pktHandshakeMsg by decide

/-- **The server gets a datagram** before the client is connected: it enters the client, answers its echo
or ignores it. -/
theorem Before.serverGets (h : l.Before p) (hstep : l.step p (.serverGets i env) = some l') :
    l'.Before p := by
  obtain ⟨buf, hbuf, -⟩ := bind_eq_some_iff.mp hstep
  obtain ⟨hto, hfrom⟩ := h.of_toServer hbuf
  rcases eq_none_or_eq_some (l.server.conns p.clientAddr) with hconns | ⟨id, hconns⟩
  · -- the client is not in the table: nothing is sent, or a challenge
    obtain ⟨s, datagrams, hstep', hserver, haccepted, hdatagrams⟩ :=
      serverGets_unknown env h.server hbuf hconns
    rw [hstep] at hstep'
    cases hstep'
    rw [hto, hfrom, nil_append]
    rcases hdatagrams with rfl | rfl
    · exact Before.silent hserver (haccepted.trans h.notServed) h.client rfl rfl
    · refine ⟨hserver, haccepted.trans h.notServed, Nat.le_refl 1, h.client,
        fun _ hmem => (not_mem_nil hmem).elim, fun buf hmem n c msg₂ _ _ hstrip => ?_⟩
      rw [mem_singleton.mp hmem] at hstrip
      cases hstrip
  · obtain ⟨cs, hcs, -⟩ := h.server.inv.entry hconns
    have hentry : l.entry p = some cs := by rw [entry, hconns, bind_some, hcs]
    -- nothing is accepted, and what is sent is an answer to the client
    have hnext : ∀ r, cs.onPacket env buf = some r →
        (r.conn.phase = .serverWaitCookie ∨ r.conn.phase = .serverWaitMsg3) → r.sent.length ≤ 1 →
        (∀ d ∈ r.sent, ∀ n c msg₂, l.client = .trying n c → c.phase = .clientWaitMsg2 →
          stripType d pktHandshakeMsg = .ok msg₂ → c.Answering r.conn msg₂) →
        l'.Before p := by
      intro r hr hphase hlen hanswer
      have hclosed : r.conn.isClosed = false ∧ r.conn.isEstablished = false := by
        rw [isClosed, isEstablished]
        rcases hphase with hphase | hphase <;> rw [hphase] <;> exact ⟨rfl, rfl⟩
      obtain ⟨s, hstep', hserver, hentry', haccepted, -⟩ :=
        serverGets_known h.server hbuf hentry hr hclosed.1
      rw [hstep] at hstep'
      cases hstep'
      rw [hto, hfrom, nil_append]
      refine ⟨hserver, (haccepted hclosed.2).trans h.notServed, ?_, h.client,
        fun _ hmem => (not_mem_nil hmem).elim, fun d hmem n c msg₂ hc hwait hstrip => ?_⟩
      · simpa using hlen
      · exact ⟨r.conn, hentry' _ rfl, hanswer d hmem n c msg₂ hc hwait hstrip⟩
    rcases h.server.entry_phase h.notServed hentry with hphase | hphase
    · obtain ⟨r, hr⟩ : ∃ r, cs.onPacket env buf = some r := by
        unfold onPacket
        rw [hphase]
        split
        · exact ⟨_, rfl⟩
        · exact ⟨_, rfl⟩
      obtain ⟨hphase', hlen, hignored⟩ := onPacket_of_waitCookie hphase hr
      refine hnext r hr hphase' hlen fun d hmem n c msg₂ hc _ hstrip => ?_
      rcases h.toServer buf (mem_of_getElem? hbuf) with rfl | ⟨cookie, msg₁, hcookie, rfl, hecho⟩
      · rw [hignored (by decide)] at hmem
        exact (not_mem_nil hmem).elim
      · rcases (hecho n c hc).answer hcookie hphase hr with hnil | ⟨msg₂', hsent, hanswering⟩
        · rw [hnil] at hmem
          exact (not_mem_nil hmem).elim
        · rw [hsent] at hmem
          rw [mem_singleton.mp hmem, stripType, if_pos rfl] at hstrip
          cases hstrip
          exact hanswering
    · obtain ⟨r, hr, hconn, hsent⟩ :=
        onPacket_of_not_msg3 env hphase (h.head_toServer hbuf)
      refine hnext r hr (.inr (hconn ▸ hphase)) (by rw [hsent]; exact Nat.zero_le 1) ?_
      intro d hmem
      rw [hsent] at hmem
      exact (not_mem_nil hmem).elim

theorem Before.lose (h : l.Before p) {toServer toClient : List Bytes}
    (hto : toServer.Sublist l.toServer) (hfrom : toClient.Sublist l.toClient) :
    ({ l with toServer, toClient } : Contact X).Before p where
  server := h.server
  notServed := h.notServed
  single := le_trans (Nat.add_le_add hto.length_le hfrom.length_le) h.single
  client := h.client
  toServer buf hmem := h.toServer buf (hto.subset hmem)
  toClient buf hmem := h.toClient buf (hfrom.subset hmem)

theorem Before.sweep (h : l.Before p) {now : SocketAddr → Nat}
    (hspares : l.server.evicts now p.clientAddr = false ∨ (l.toServer = [] ∧ l.toClient = []))
    (hstep : l.step p (.sweep now) = some l') : l'.Before p := by
  obtain ⟨s, hstep', hserver, haccepted, hentry⟩ := sweep_eq h.server now
  rw [hstep] at hstep'
  cases hstep'
  rcases hspares with hev | ⟨hto, hfrom⟩
  · refine ⟨hserver, haccepted.trans h.notServed, h.single, h.client, h.toServer,
      fun buf hmem n c msg₂ hc hwait hstrip => ?_⟩
    rw [hentry hev _ rfl]
    exact h.toClient buf hmem n c msg₂ hc hwait hstrip
  · exact Before.silent hserver (haccepted.trans h.notServed) h.client hto hfrom

/-! ## After the client is connected -/

theorem served_serve {es : List LoopEvent} (h : l.served) (hstep : l.serve p es = some l') :
    l'.served := by
  obtain ⟨s, hexec, rfl⟩ := map_eq_some_iff.mp hstep
  exact exec_invariant (fun s : ServerLoop X => s.accepted ≠ [])
    (fun _ _ _ h hstep => ServerLoop.accepted_ne_nil_step h hstep) h hexec

variable {c : Connection X} {e : ContactEvent}

theorem connected_step (hc : l.client = .connected c) (hstep : l.step p e = some l') :
    (∃ c' toClient sent,
      l' = { l with client := .connected c', toClient, toServer := l.toServer ++ sent }) ∨
    (l'.client = .connected c ∧ ((∃ i env, e = .serverGets i env) ∨ (∃ now, e = .sweep now) ∨
      (∃ i, e = .lose .server i) ∨ ∃ i, e = .duplicate .server i)) := by
  cases e with
  | attempt env | abort e =>
    simp only [step, hc] at hstep
    cases hstep
  | clientGets i env =>
    simp only [step, hc] at hstep
    obtain ⟨buf, -, hstep⟩ := bind_eq_some_iff.mp hstep
    split at hstep
    · cases hstep
    · obtain ⟨r, -, rfl⟩ := map_eq_some_iff.mp hstep
      exact .inl ⟨r.conn, _, r.sent, rfl⟩
  | serverGets i env =>
    obtain ⟨buf, -, hstep⟩ := bind_eq_some_iff.mp hstep
    obtain ⟨s, -, rfl⟩ := map_eq_some_iff.mp hstep
    exact .inr ⟨hc, .inl ⟨i, env, rfl⟩⟩
  | lose side i =>
    cases side with
    | server =>
      cases hstep
      exact .inr ⟨hc, .inr (.inr (.inl ⟨i, rfl⟩))⟩
    | client =>
      cases hstep
      exact .inl ⟨c, _, [], by rw [append_nil, ← hc]⟩
  | duplicate side i =>
    cases side with
    | server =>
      obtain ⟨buf, -, rfl⟩ := map_eq_some_iff.mp hstep
      exact .inr ⟨hc, .inr (.inr (.inr ⟨i, rfl⟩))⟩
    | client =>
      obtain ⟨buf, -, rfl⟩ := map_eq_some_iff.mp hstep
      exact .inl ⟨c, _, [], by rw [append_nil, ← hc]⟩
  | sweep now =>
    obtain ⟨s, -, rfl⟩ := map_eq_some_iff.mp hstep
    exact .inr ⟨hc, .inr (.inl ⟨now, rfl⟩)⟩
  | write env streamId data =>
    simp only [step, hc] at hstep
    obtain ⟨r, -, rfl⟩ := map_eq_some_iff.mp hstep
    exact .inl ⟨r.conn, _, r.sent, rfl⟩

theorem served_step (hc : l.client = .connected c) (h : l.served) (hstep : l.step p e = some l') :
    (∃ c', l'.client = .connected c') ∧ l'.served := by
  rcases connected_step hc hstep with ⟨c', toClient, sent, rfl⟩ |
    ⟨hc', ⟨i, env, rfl⟩ | ⟨now, rfl⟩ | ⟨i, rfl⟩ | ⟨i, rfl⟩⟩
  · exact ⟨⟨c', rfl⟩, h⟩
  · obtain ⟨buf, -, hstep⟩ := bind_eq_some_iff.mp hstep
    exact ⟨⟨c, hc'⟩, served_serve (l := { l with toServer := l.toServer.eraseIdx i }) h hstep⟩
  · exact ⟨⟨c, hc'⟩, served_serve h hstep⟩
  · cases hstep
    exact ⟨⟨c, hc'⟩, h⟩
  · obtain ⟨buf, -, rfl⟩ := map_eq_some_iff.mp hstep
    exact ⟨⟨c, hc'⟩, h⟩

theorem Finishing.completes (hX : X.Completes) (h : l.Finishing p) (env : Env) :
    ∃ l', l.step p (.serverGets 0 env) = some l' ∧ l'.served := by
  obtain ⟨msg₃, rest, cs, hto, hentry, hready⟩ := h.ready
  obtain ⟨r, hr, hphase⟩ := hready.onPacket hX env
  have hbuf : l.toServer[0]? = some (pktHandshakeMsg :: msg₃) := by rw [hto]; rfl
  have hclosed : r.conn.isClosed = false := by
    rw [isClosed, hphase]
    rfl
  obtain ⟨s, hstep, -, -, -, haccepted⟩ := serverGets_known h.server hbuf hentry hr hclosed
  exact ⟨_, hstep, haccepted (decide_eq_true hphase)⟩

theorem Finishing.step (hX : X.Completes) (h : l.Finishing p) (hc : l.client = .connected c)
    (hspares : l.spares p e) (hstep : l.step p e = some l') :
    ∃ c', l'.client = .connected c' ∧ (l'.served ∨ l'.Finishing p) := by
  obtain ⟨msg₃, rest, cs, hto, hentry, hready⟩ := h.ready
  rcases connected_step hc hstep with ⟨c', toClient, sent, rfl⟩ |
    ⟨hc', ⟨i, env, rfl⟩ | ⟨now, rfl⟩ | ⟨i, rfl⟩ | ⟨i, rfl⟩⟩
  · exact ⟨c', rfl, .inr ⟨h.server, h.notServed, msg₃, rest ++ sent, cs, by rw [hto]; rfl, hentry,
      hready⟩⟩
  · refine ⟨c, hc', ?_⟩
    cases i with
    | zero =>
      obtain ⟨l'', hstep', hserved⟩ := h.completes hX env
      rw [hstep] at hstep'
      cases hstep'
      exact .inl hserved
    | succ j =>
      -- the server ignores it, as it is not message 3
      obtain ⟨buf, hbuf, -⟩ := bind_eq_some_iff.mp hstep
      have hhead : buf.headD 0 ≠ pktHandshakeMsg := by
        have hspared := hspares.resolve_left (Nat.succ_ne_zero j)
        rwa [getD_eq_getElem?_getD, hbuf, getD_some] at hspared
      obtain ⟨r, hr, rfl, hsent⟩ := onPacket_of_not_msg3 env hready.1 hhead
      have hwait : r.conn.isClosed = false ∧ r.conn.isEstablished = false := by
        rw [isClosed, isEstablished, hready.1]
        exact ⟨rfl, rfl⟩
      obtain ⟨s, hstep', hserver, hentry', haccepted, -⟩ :=
        serverGets_known h.server hbuf hentry hr hwait.1
      rw [hstep] at hstep'
      cases hstep'
      exact .inr ⟨hserver, (haccepted hwait.2).trans h.notServed, msg₃, rest.eraseIdx j, r.conn,
        by rw [hto]; rfl, hentry' _ rfl, hready⟩
  · obtain ⟨s, hstep', hserver, haccepted, hentry'⟩ := sweep_eq h.server now
    rw [hstep] at hstep'
    cases hstep'
    have hev : l.server.evicts now p.clientAddr = false := by
      refine hspares.resolve_right fun hnil => ?_
      rw [hto] at hnil
      cases hnil.1
    exact ⟨c, hc', .inr ⟨hserver, haccepted.trans h.notServed, msg₃, rest, cs, hto,
      (hentry' hev _ rfl).trans hentry, hready⟩⟩
  · cases i with
    | zero =>
      have hspared := hspares rfl
      rw [hto] at hspared
      exact (hspared rfl).elim
    | succ j =>
      cases hstep
      exact ⟨c, hc', .inr ⟨h.server, h.notServed, msg₃, rest.eraseIdx j, cs, by rw [hto]; rfl,
        hentry, hready⟩⟩
  · exact hspares.elim

/-! ## Whole runs -/

open Contact

theorem Inv.step (hX : X.Completes) (h : l.Inv p) (hcalm : l.calm p e)
    (hstep : l.step p e = some l') : l'.Inv p := by
  rcases h with hbefore | ⟨c, hc, hserved | hfinishing⟩
  · have hspares : l.spares p e := hcalm.resolve_left fun hserved => hserved hbefore.notServed
    cases e with
    | attempt env => exact .inl (hbefore.attempt hspares.1 hspares.2 hstep)
    | abort e =>
      simp only [step] at hstep
      split at hstep
      · cases hstep
        exact .inl (hbefore.giveUp _ _)
      · cases hstep
    | clientGets i env =>
      rcases hbefore.clientGets hX hstep with ⟨hbefore', -⟩ | ⟨c, hc, hfinishing⟩
      · exact .inl hbefore'
      · exact .inr ⟨c, hc, .inr hfinishing⟩
    | serverGets i env => exact .inl (hbefore.serverGets hstep)
    | lose side i =>
      cases side with
      | server =>
        cases hstep
        exact .inl (hbefore.lose (eraseIdx_sublist _ _) (List.Sublist.refl _))
      | client =>
        cases hstep
        exact .inl (hbefore.lose (List.Sublist.refl _) (eraseIdx_sublist _ _))
    | duplicate side i => exact hspares.elim
    | sweep now => exact .inl (hbefore.sweep hspares hstep)
    | write env streamId data =>
      rcases hbefore.client with (⟨n, hn⟩ | ⟨e, he⟩) | ⟨n, c, hc, -⟩
      · simp only [step, hn] at hstep
        cases hstep
      · simp only [step, he] at hstep
        cases hstep
      · simp only [step, hc] at hstep
        cases hstep
  · obtain ⟨⟨c', hc'⟩, hserved'⟩ := served_step hc hserved hstep
    exact .inr ⟨c', hc', .inl hserved'⟩
  · rcases hcalm with hserved | hspares
    · exact (hserved hfinishing.notServed).elim
    · obtain ⟨c', hc', hnext⟩ := hfinishing.step hX hc hspares hstep
      exact .inr ⟨c', hc', hnext⟩

theorem inv_run (hX : X.Completes) {es : List ContactEvent}
    (hcalm : Meets (step p) (calm p) (start X) es)
    (hrun : exec (step p) (start X) es = some l) : l.Inv p :=
  exec_invariant_of_meets (Inv p) (fun _ _ _ h hc hstep => h.step hX hc hstep) inv_start hcalm hrun

end Contact

/-- **The handshake over a network that spares it.** In every run of calm steps: if the client is
connected, the server has passed its connection on, or message 3 is the next datagram for the server,
which then does so; and a datagram makes an attempt fail only when nothing is on its way. -/
theorem handshake_completes {X : Platform} (hX : X.Completes) {p : Setup X} {es : List ContactEvent}
    {l : Contact X} (hcalm : Meets (Contact.step p) (Contact.calm p) (Contact.start X) es)
    (hrun : exec (Contact.step p) (Contact.start X) es = some l) :
    (∀ c, l.client = .connected c → l.served ∨
      ∀ env, ∃ l', l.step p (.serverGets 0 env) = some l' ∧ l'.served) ∧
    (∀ i env n c l', l.client = .trying n c → l.step p (.clientGets i env) = some l' →
      l'.resting → l'.toServer = [] ∧ l'.toClient = []) := by
  have hinv : l.Inv p := Contact.inv_run hX hcalm hrun
  constructor
  · intro c hc
    rcases hinv with hbefore | ⟨-, -, hserved | hfinishing⟩
    · rcases hbefore.client with (⟨n, hn⟩ | ⟨e, he⟩) | ⟨n, c', hc', -⟩
      · rw [hc] at hn
        cases hn
      · rw [hc] at he
        cases he
      · rw [hc] at hc'
        cases hc'
    · exact .inl hserved
    · exact .inr (hfinishing.completes hX)
  · intro i env n c l' hc hstep hrest
    rcases hinv with hbefore | ⟨c', hc', -⟩
    · rcases hbefore.clientGets hX hstep with ⟨-, hnil⟩ | ⟨c', hc', -⟩
      · exact hnil hrest
      · rcases hrest with ⟨m, hm⟩ | ⟨e, he⟩
        · rw [hc'] at hm
          cases hm
        · rw [hc'] at he
          cases he
    · rw [hc] at hc'
      cases hc'

/-! ## Concrete runs -/

theorem samplePlatform_completes : samplePlatform.Completes where
  toLawful := samplePlatform_lawful
  completes := plainNoise_completes
  length_kemPk _ := show 1 ≤ 1184 by decide

def sampleSetup : Setup samplePlatform :=
  ⟨sampleAddr .client, sampleAddr .server, sampleConnectArgs .aes256Gcm, sampleAcceptArgs .aes256Gcm⟩

def sampleAttempt (now : Nat) : List ContactEvent :=
  [.attempt (sampleEnv now), .serverGets 0 (sampleEnv now), .clientGets 0 (sampleEnv now),
    .serverGets 0 (sampleEnv now), .clientGets 0 (sampleEnv now)]

def Dial.isConnected {X : Platform} : Dial X → Bool
  | .connected c => c.isEstablished
  | _ => false

def Dial.isPausing {X : Platform} (attempt : Nat) : Dial X → Bool
  | .pausing n => n == attempt
  | _ => false

theorem Dial.exists_of_isConnected {d : Dial X} (h : d.isConnected = true) :
    ∃ c, d = .connected c ∧ c.phase = .established := by
  cases d with
  | connected c => exact ⟨c, rfl, of_decide_eq_true h⟩
  | pausing n | trying n c | failed e => cases h

/-- The challenge of the first attempt is lost, the server forgets the client, and the second attempt
goes through. -/
theorem handshake_completes_second_attempt :
    ∃ l c l', exec (Contact.step sampleSetup) (Contact.start samplePlatform)
        ([.attempt (sampleEnv 0), .serverGets 0 (sampleEnv 0), .lose .client 0,
          .abort "handshake timed out", .sweep (fun _ => Connection.secs 40)]
          ++ sampleAttempt (Connection.secs 40)) = some l ∧ l.client = .connected c ∧
      l.step sampleSetup (.serverGets 0 (sampleEnv (Connection.secs 40))) = some l' ∧ l'.served := by
  obtain ⟨l, hl, hconnected, hnone⟩ : ∃ l, exec (Contact.step sampleSetup)
      (Contact.start samplePlatform) ([.attempt (sampleEnv 0), .serverGets 0 (sampleEnv 0),
        .lose .client 0, .abort "handshake timed out", .sweep (fun _ => Connection.secs 40)]
        ++ sampleAttempt (Connection.secs 40)) = some l ∧
      l.client.isConnected = true ∧ l.server.accepted = [] := by
    decide +kernel
  obtain ⟨c, hc, -⟩ := Dial.exists_of_isConnected hconnected
  obtain ⟨l', hstep, hserved⟩ :=
    ((handshake_completes samplePlatform_completes (by decide +kernel) hl).1 c hc).resolve_left
      (fun hserved => hserved hnone) (sampleEnv (Connection.secs 40))
  exact ⟨l, c, l', hl, hc, hstep, hserved⟩

/-! ## Stranded clients -/

namespace Contact

variable {X : Platform} {p : Setup X} {l l' : Contact X}

structure Stranded (p : Setup X) (l : Contact X) : Prop where
  server : ServerOk p l.server
  notServed : l.server.accepted = []
  toServer : l.toServer = []
  toClient : l.toClient = []
  client : ∃ c, l.client = .connected c

def isCall : ContactEvent → Bool
  | .write _ _ _ => true
  | _ => false

theorem Stranded.step {e : ContactEvent} (h : l.Stranded p) (he : isCall e = false)
    (hstep : l.step p e = some l') : l'.Stranded p := by
  obtain ⟨c, hc⟩ := h.client
  cases e with
  | attempt env | abort e =>
    simp only [Contact.step, hc] at hstep
    cases hstep
  | clientGets i env =>
    simp only [Contact.step, h.toClient] at hstep
    cases hstep
  | serverGets i env =>
    simp only [Contact.step, h.toServer] at hstep
    cases hstep
  | lose side i =>
    cases side with
    | server =>
      cases hstep
      exact ⟨h.server, h.notServed, by rw [h.toServer]; rfl, h.toClient, h.client⟩
    | client =>
      cases hstep
      exact ⟨h.server, h.notServed, h.toServer, by rw [h.toClient]; rfl, h.client⟩
  | duplicate side i =>
    cases side with
    | server =>
      simp only [Contact.step, h.toServer] at hstep
      cases hstep
    | client =>
      simp only [Contact.step, h.toClient] at hstep
      cases hstep
  | sweep now =>
    obtain ⟨s, hstep', hserver, haccepted, -⟩ := sweep_eq h.server now
    rw [hstep] at hstep'
    cases hstep'
    exact ⟨hserver, haccepted.trans h.notServed, h.toServer, h.toClient, h.client⟩
  | write env streamId data => cases he

/-- **A stranded client stays so**, whatever the network, the timers and the tasks do. -/
theorem Stranded.run {es : List ContactEvent} (h : l.Stranded p) (hes : ∀ e ∈ es, isCall e = false)
    (hrun : exec (Contact.step p) l es = some l') : l'.Stranded p := by
  induction es generalizing l with
  | nil =>
    cases hrun
    exact h
  | cons e es ih =>
    obtain ⟨l₁, hstep, hrest⟩ := bind_eq_some_iff.mp hrun
    exact ih (h.step (hes e mem_cons_self) hstep)
      (fun e' he' => hes e' (mem_cons_of_mem e he')) hrest

end Contact

/-- **Message 3 is lost**: the client is connected, the server is not, and without a call of the
application nothing is ever sent that could change this. -/
theorem lost_msg3_strands_client :
    ∃ l c, exec (Contact.step sampleSetup) (Contact.start samplePlatform)
        (sampleAttempt 0 ++ [.lose .server 0]) = some l ∧
      l.client = .connected c ∧ c.phase = .established ∧ ¬l.served ∧ l.toServer = [] ∧ l.toClient = [] ∧
      ∀ es l', (∀ e ∈ es, Contact.isCall e = false) →
        exec (Contact.step sampleSetup) l es = some l' → ¬l'.served := by
  obtain ⟨l, hl, hconnected, hnone, hlen, hfrom⟩ : ∃ l, exec (Contact.step sampleSetup)
      (Contact.start samplePlatform) (sampleAttempt 0) = some l ∧ l.client.isConnected = true ∧
      l.server.accepted = [] ∧ l.toServer.length = 1 ∧ l.toClient = [] := by
    decide +kernel
  obtain ⟨c, hc, hphase⟩ := Dial.exists_of_isConnected hconnected
  -- up to here the run was calm
  have hserver : Contact.ServerOk sampleSetup l.server := by
    rcases Contact.inv_run samplePlatform_completes (by decide +kernel) hl with
      hbefore | ⟨-, -, hserved | hfinishing⟩
    · exact hbefore.server
    · exact (hserved hnone).elim
    · exact hfinishing.server
  have hto : l.toServer.eraseIdx 0 = [] := by
    refine eq_nil_of_length_eq_zero ?_
    rw [length_eraseIdx_of_lt (by omega), hlen]
  have hstranded : ({ l with toServer := l.toServer.eraseIdx 0 } : Contact samplePlatform).Stranded
      sampleSetup := ⟨hserver, hnone, hto, hfrom, c, hc⟩
  refine ⟨{ l with toServer := l.toServer.eraseIdx 0 }, c, ?_, hc, hphase,
    fun hserved => hserved hnone, hto, hfrom, fun es l' hes hexec hserved => ?_⟩
  · rw [exec_append, hl, bind_some]
    rfl
  · exact hserved (hstranded.run hes hexec).notServed

/-- **A second copy of the challenge** makes the attempt fail while message 2 is on its way, with which
it would have succeeded. -/
theorem second_challenge_aborts :
    ((exec (Contact.step sampleSetup) (Contact.start samplePlatform)
      [.attempt (sampleEnv 0), .serverGets 0 (sampleEnv 0), .duplicate .client 0,
        .clientGets 0 (sampleEnv 0), .serverGets 0 (sampleEnv 0)]).any fun l =>
      ((l.step sampleSetup (.clientGets 0 (sampleEnv 0))).any fun l' =>
        l'.client.isPausing 1 && l'.toClient == [l.toClient.getD 1 []]) &&
      ((l.step sampleSetup (.clientGets 1 (sampleEnv 0))).any fun l' => l'.client.isConnected))
      = true := by
  decide +kernel

end SeamProtocol
