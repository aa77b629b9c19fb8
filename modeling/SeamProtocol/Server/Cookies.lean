import SeamProtocol.Server.Loop

/-! # State before the cookie

A server is meant to keep nothing about an address until it has echoed a cookie. The loop enters a
connection into its tables for any datagram from an unknown address, when it sends the challenge; what
the cookie protects is everything after that. -/

namespace SeamProtocol

open Lib List

namespace ServerLoop

variable {X : Platform} {args : Connection.AcceptArgs X} {s s' : ServerLoop X} {e : LoopEvent}

/-! ## One step -/

theorem verified_subset_note (factory : CookieFactory) (env : Env) (remote : SocketAddr) (buf : Bytes)
    (s : ServerLoop X) : s.verified ⊆ (s.note factory env remote buf).verified := by
  unfold note
  split
  · exact subset_cons_self _ _
  · exact List.Subset.refl _

variable {env : Env} {remote : SocketAddr} {buf : Bytes}

theorem mem_verified_note {factory : CookieFactory} (h : validEcho X factory env remote buf = true)
    (s : ServerLoop X) : remote ∈ (s.note factory env remote buf).verified := by
  rw [note, if_pos h]
  exact mem_cons_self

theorem enter_conns (args : Connection.AcceptArgs X) (env : Env) (remote : SocketAddr)
    (s : ServerLoop X) :
    (s.enter args env remote).verified = s.verified ∧
      ∀ a, ((s.enter args env remote).conns a).isSome → (s.conns a).isSome ∨ a = remote := by
  unfold enter
  split
  · exact ⟨rfl, fun a ha => .inl ha⟩
  · refine ⟨rfl, fun a ha => ?_⟩
    by_cases hra : a = remote
    · exact .inr hra
    · dsimp only at ha
      rw [Function.update_of_ne hra] at ha
      exact .inl ha

theorem verified_step (hstep : s.step args e = some s') : s.verified ⊆ s'.verified := by
  cases took hstep with
  | known | handled => exact verified_subset_note _ _ _ _ s
  | @unknown env remote =>
    rw [(enter_conns args env remote _).1]
    exact verified_subset_note _ _ _ _ s
  | swept | checked | closed | flushed => exact List.Subset.refl _
  | @delivered env remote id wasEstablished c =>
    obtain ⟨delivered, pendingEvents, accepted, heq⟩ := s.deliver_eq remote id wasEstablished c
    rw [heq]
    exact List.Subset.refl _
  | @finished env remote id c =>
    obtain ⟨conns, delivered, heq, -⟩ := s.finish_eq remote c
    rw [heq]
    exact List.Subset.refl _

theorem conns_step (hstep : s.step args e = some s') (a : SocketAddr) (ha : (s'.conns a).isSome) :
    (s.conns a).isSome ∨ ∃ env buf, e = .datagram env a buf ∧ s.conns a = none ∧
      s'.verified = (s.note args.cookieFactory env a buf).verified := by
  cases took hstep with
  | known | handled =>
    left
    rwa [conns_note] at ha
  | @unknown env remote buf hpoint hconns =>
    obtain ⟨hverified, hentered⟩ := enter_conns args env remote
      (s.note args.cookieFactory env remote buf)
    rcases hentered a ha with hold | rfl
    · rw [conns_note] at hold
      exact .inl hold
    · exact .inr ⟨env, buf, rfl, hconns, hverified⟩
  | swept =>
    left
    simp only [sweep] at ha
    split at ha
    · cases ha
    · exact ha
  | checked | closed | flushed => exact .inl ha
  | @delivered env remote id wasEstablished c =>
    obtain ⟨delivered, pendingEvents, accepted, heq⟩ := s.deliver_eq remote id wasEstablished c
    rw [heq] at ha
    exact .inl ha
  | @finished env remote id c =>
    obtain ⟨conns, delivered, heq, hsub⟩ := s.finish_eq remote c
    rw [heq] at ha
    exact .inl (hsub a ha)

/-! ## Beyond the first phase -/

def Verified (s : ServerLoop X) : Prop :=
  ∀ (id : Nat) (c : Connection X), s.heap[id]? = some c →
    c.phase = .serverWaitCookie ∨ c.remote ∈ s.verified

variable {id : Nat} {c : Connection X}

theorem Verified.set (h : s.Verified) {verified : List SocketAddr} (hsub : s.verified ⊆ verified)
    (hc : c.phase = .serverWaitCookie ∨ c.remote ∈ verified) :
    ∀ (id' : Nat) (c' : Connection X), (s.heap.set id c)[id']? = some c' →
      c'.phase = .serverWaitCookie ∨ c'.remote ∈ verified := by
  intro id' c' hc'
  rcases mem_or_eq_of_mem_set (mem_of_getElem? hc') with hold | rfl
  · obtain ⟨i, hi⟩ := mem_iff_getElem?.mp hold
    exact (h i c' hi).imp_right fun hmem => hsub hmem
  · exact hc

theorem Verified.onPacket (h : s.Verified) (hinv : s.Inv args) {r : Reply X}
    (hremote : s.conns remote = some id) (hc : s.heap[id]? = some c)
    (hr : c.onPacket env buf = some r) :
    r.conn.phase = .serverWaitCookie ∨
      r.conn.remote ∈ (s.note args.cookieFactory env remote buf).verified := by
  have hserving := hinv.serving hremote hc
  obtain ⟨hserving', hmoves⟩ := hserving.onPacket hr
  have hold : c.phase ≠ .serverWaitCookie →
      remote ∈ (s.note args.cookieFactory env remote buf).verified := by
    intro hphase
    have hmem := (h id c hc).resolve_left hphase
    rw [hserving.remote_eq] at hmem
    exact verified_subset_note args.cookieFactory env remote buf s hmem
  rw [hserving'.remote_eq]
  generalize c.phase = p, r.conn.phase = q at hmoves hold
  cases hmoves with
  | stay => exact or_iff_not_imp_left.mpr hold
  | echo hvalid => exact .inr (mem_verified_note hvalid s)
  | msg3 => exact .inr (hold nofun)

theorem Verified.step (h : s.Verified) (hinv : s.Inv args) (hstep : s.step args e = some s') :
    s'.Verified := by
  have hnote : ∀ env remote buf, (s.note args.cookieFactory env remote buf).Verified := by
    intro env remote buf id c hc
    rw [heap_note] at hc
    exact (h id c hc).imp_right fun hmem => verified_subset_note _ _ _ _ s hmem
  cases took hstep with
  | known => exact hnote _ _ _
  | unknown =>
    unfold enter
    split
    · exact hnote _ _ _
    · next c datagrams heq =>
        have hphase : c.phase = .serverWaitCookie :=
          (Connection.serving_acceptChallenge (congrArg Prod.fst heq)).2
        intro id c' hc'
        rcases mem_append.mp (mem_of_getElem? hc') with hold | hnew
        · obtain ⟨i, hi⟩ := mem_iff_getElem?.mp hold
          exact hnote _ _ _ i c' hi
        · rw [mem_singleton.mp hnew]
          exact .inl hphase
  | swept | checked => exact h
  | handled hpoint hc hr =>
    have hp := hinv.point
    rw [hpoint] at hp
    exact h.set (verified_subset_note _ _ _ _ s) (h.onPacket hinv hp.1 hc hr)
  | @delivered env remote id wasEstablished c =>
    obtain ⟨delivered, pendingEvents, accepted, heq⟩ := s.deliver_eq remote id wasEstablished c
    rw [heq]
    exact h
  | @finished env remote id c =>
    obtain ⟨conns, delivered, heq, -⟩ := s.finish_eq remote c
    rw [heq]
    exact h
  | @closed id c hid hc =>
    have hmem : c.remote ∈ s.verified := by
      refine (h id c hc).resolve_left fun hphase => ?_
      rcases hinv.beyond id hid c hc with hp | hp <;> rw [hphase] at hp <;> cases hp
    exact h.set (List.Subset.refl _) (.inr hmem)
  | @flushed env id c hid hc =>
    obtain ⟨session, cc, events, sendCounter, lastSend, tar, heq, -⟩ := c.evolves_flush env
    refine h.set (List.Subset.refl _) ?_
    rw [heq]
    exact h id c hc

/-- **What the cookie protects**: in every run, a connection that has left its first phase is for an
address that has echoed a valid cookie. -/
theorem past_cookie_verified {es : List LoopEvent}
    (hrun : exec (ServerLoop.step args) (start X) es = some s) : s.Verified := by
  have hstart : (start X).Inv args ∧ (start X).Verified :=
    ⟨inv_start, fun _ _ h => (Option.some_ne_none _ (h.symm.trans getElem?_nil)).elim⟩
  exact (exec_invariant (fun s => s.Inv args ∧ s.Verified)
    (fun _ _ _ h hstep => ⟨h.1.step hstep, h.2.step h.1 hstep⟩) hstart hrun).2

theorem past_cookie_verified_visit :
    ∃ s, exec (ServerLoop.step (sampleAcceptArgs .aes256Gcm)) (start samplePlatform) sampleVisit = some s
      ∧ sampleAddr .client ∈ s.verified := by
  refine exists_exec_of (p := fun s => ∃ c ∈ s.heap[0]?, c.phase = .established ∧
    c.remote = sampleAddr .client) (by decide +kernel) ?_
  rintro s hs ⟨c, hc, hphase, hremote⟩
  exact hremote ▸ (past_cookie_verified hs 0 c hc).resolve_left (by rw [hphase]; rintro ⟨⟩)

/-! ## The tables -/

def opensWithEcho (factory : CookieFactory) (s : ServerLoop X) : LoopEvent → Prop
  | .datagram env remote buf => s.conns remote = none →
    remote ∈ s.verified ∨ validEcho X factory env remote buf = true
  | _ => True

instance (factory : CookieFactory) (s : ServerLoop X) : DecidablePred (s.opensWithEcho factory)
  | .datagram _ _ _ => inferInstanceAs (Decidable (_ → _))
  | .sweep _ | .proceed _ | .close _ | .flush _ _ => isTrue trivial

end ServerLoop

open ServerLoop

/-- **No state before the cookie**, if datagrams from addresses that are not in the table come with a
valid cookie: then every address with a connection or an event receiver has echoed one. -/
theorem table_verified {X : Platform} {args : Connection.AcceptArgs X} {es : List LoopEvent}
    {s : ServerLoop X} (hopens : Meets (ServerLoop.step args) (opensWithEcho args.cookieFactory)
      (start X) es) (hrun : exec (ServerLoop.step args) (start X) es = some s) (a : SocketAddr)
    (ha : (s.conns a).isSome ∨ (s.pendingEvents a).isSome) : a ∈ s.verified := by
  have htable : ∀ a, (s.conns a).isSome → a ∈ s.verified := by
    refine exec_invariant_of_meets (fun s => ∀ a, (s.conns a).isSome → a ∈ s.verified) ?_
      (fun a ha => ?_) hopens hrun
    · intro s e s' h hok hstep a ha
      have hsub := verified_step hstep
      rcases conns_step hstep a ha with hold | ⟨env, buf, rfl, hnone, hverified⟩
      · exact hsub (h a hold)
      · rcases hok hnone with hmem | hvalid
        · exact hsub hmem
        · rw [hverified]
          exact mem_verified_note hvalid s
    · cases ha
  rcases ha with ha | hp
  · exact htable a ha
  · cases (inv_run hrun).entries a with
    | absent _ hp' => simp [hp'] at hp
    | waiting hconns | passedOn hconns => exact htable a (hconns ▸ rfl)

/-- A client that still has a valid cookie. -/
theorem table_verified_echo :
    ∃ s, exec (ServerLoop.step (sampleAcceptArgs .aes256Gcm)) (ServerLoop.start samplePlatform)
        [.datagram (sampleEnv 0) (sampleAddr .client) ((sampleEcho .aes256Gcm).sent.headD [])]
        = some s ∧ (s.conns (sampleAddr .client)).isSome ∧ sampleAddr .client ∈ s.verified := by
  refine exists_exec_of (p := fun s => (s.conns (sampleAddr .client)).isSome) (by decide +kernel) ?_
  intro s hs hsome
  exact ⟨hsome, table_verified (by decide +kernel) hs _ (.inl hsome)⟩

/-- **A request for a cookie is enough** to get a connection and an event receiver into the tables. -/
theorem entry_without_cookie :
    ((exec (ServerLoop.step (sampleAcceptArgs .aes256Gcm)) (ServerLoop.start samplePlatform)
      [.datagram (sampleEnv 0) (sampleAddr .client) [pktCookieReq]]).any fun s =>
        (s.conns (sampleAddr .client)).isSome && (s.pendingEvents (sampleAddr .client)).isSome
          && s.verified.isEmpty) = true := by
  decide +kernel

end SeamProtocol
