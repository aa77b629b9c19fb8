import SeamProtocol.Files.Copy

/-! # Sharing

`seam share` allows a number of downloads. The tasks of its connections take them from a counter, at
which the loop looks before it accepts. When the loop ends, the program does, and with it the tasks. -/

namespace SeamProtocol

open Lib List ShareConn

/-! ## One connection -/

structure ShareConfig where
  tools : Tools
  zstd : Bool
  fips : Bool
  token : Bytes
  files : List SourceFile

inductive ShareLog where
  | received (f : Frame)
  | sent (f : Frame)
  deriving DecidableEq

structure ShareHandler where
  state : ShareConn
  slot : Bool
  log : List ShareLog

inductive ShareConnEvent where
  | stream (sid : Nat)
  | frame (f : Frame)
  | go
  /-- The connection is lost, or the task fails for another reason. -/
  | lost

def ShareConn.serving : ShareConn → Bool
  | .push _ _ => true
  | _ => false

namespace ShareHandler

def accepted : ShareHandler := ⟨.start, false, []⟩

def serving (h : ShareHandler) : Bool := h.state.serving

def presented (C : ShareConfig) (h : ShareHandler) : Bool :=
  decide (ShareLog.received (.token C.token) ∈ h.log)

def act (C : ShareConfig) (remaining : Nat) (h : ShareHandler) :
    Act ShareConn Frame (Except TransferError Unit) :=
  handleShareConn C.tools C.zstd C.fips C.token remaining C.files h.state

/-- One step of a task. The token is compared and the download taken in one step, as nothing that others
can see happens between them. -/
def step (C : ShareConfig) (remaining : Nat) (h : ShareHandler) :
    ShareConnEvent → Option ShareHandler
  | .stream sid =>
    match h.act C remaining with
    | .accept k => some { h with state := k sid }
    | _ => none
  | .frame f =>
    match h.act C remaining with
    | .recv _ k => some ⟨k f, h.slot || (k f).serving, .received f :: h.log⟩
    | _ => none
  | .go =>
    match h.act C remaining with
    | .tau s => some { h with state := s }
    | .send _ f s => some { h with state := s, log := .sent f :: h.log }
    | _ => none
  | .lost =>
    match h.act C remaining with
    | .done _ => none
    | _ => some { h with state := .returned (.error .closed) }

end ShareHandler

/-! ## The loop -/

inductive ShareEnd where
  | exhausted
  | expired
  | stopped
  deriving DecidableEq

inductive ShareLoop where
  | check
  | accepting
  | left (reason : ShareEnd)
  deriving DecidableEq

structure ShareServer where
  remaining : Nat
  conns : List ShareHandler
  loop : ShareLoop

inductive ShareEvent where
  | check (expired : Bool)
  | accept
  | timeout
  | stop
  | conn (i : Nat) (e : ShareConnEvent)

namespace ShareServer

def start (times : Nat) : ShareServer := ⟨times, [], .check⟩

def update (s : ShareServer) (i : Nat) (h h' : ShareHandler) : ShareServer :=
  { s with
    remaining := if !h.serving && h'.serving then s.remaining - 1 else s.remaining
    conns := s.conns.set i h' }

def step (C : ShareConfig) (s : ShareServer) (e : ShareEvent) : Option ShareServer :=
  match s.loop, e with
  | .check, .check expired =>
    if s.remaining = 0 then some { s with loop := .left .exhausted }
    else if expired then some { s with loop := .left .expired }
    else some { s with loop := .accepting }
  | .accepting, .accept => some { s with conns := s.conns ++ [.accepted], loop := .check }
  | .accepting, .timeout => some { s with loop := .check }
  | .accepting, .stop => some { s with loop := .left .stopped }
  -- the tasks end with the program
  | .left _, _ => none
  | _, .conn i e =>
    s.conns[i]?.bind fun h => (h.step C s.remaining e).map fun h' => s.update i h h'
  | _, _ => none

end ShareServer

/-! ## What a connection keeps -/

def SentAfter (token : Bytes) : List ShareLog → Prop
  | [] => True
  | .received _ :: log => SentAfter token log
  | .sent _ :: log => .received (.token token) ∈ log ∧ SentAfter token log

namespace ShareHandler

structure Honest (C : ShareConfig) (h : ShareHandler) : Prop where
  sentAfter : SentAfter C.token h.log
  slot_of_sent : ∀ f, ShareLog.sent f ∈ h.log → h.slot = true
  slot_of_serving : h.serving = true → h.slot = true
  presented_of_slot : h.slot = true → h.presented C = true
  fresh : h.state = .start ∨ (∃ sid, h.state = .awaitToken sid) → h.slot = false

variable {C : ShareConfig} {remaining : Nat} {h h' : ShareHandler} {e : ShareConnEvent}

theorem honest_accepted : (accepted).Honest C :=
  ⟨trivial, fun _ hf => (nomatch hf), fun hs => hs, fun hs => (nomatch hs), fun _ => rfl⟩

/-- **What a step of a task can be.** Before the token it only waits or ends; the right token takes a
download, if one remains; after that the task can send, receive and end. -/
inductive Moves (C : ShareConfig) (remaining : Nat) (h : ShareHandler) : ShareHandler → Prop
  | streams (sid : Nat) : h.state = .start → Moves C remaining h { h with state := .awaitToken sid }
  /-- It has sent something else than the token, or no download remains. -/
  | refuses (f : Frame) (res : Except TransferError Unit) :
      Moves C remaining h ⟨.returned res, h.slot, .received f :: h.log⟩
  | takes (sid : Nat) : remaining ≠ 0 → h.state = .awaitToken sid →
      Moves C remaining h ⟨.push sid .hello, true, .received (.token C.token) :: h.log⟩
  | receives (f : Frame) (sid : Nat) (s : PushFiles) : h.serving = true →
      Moves C remaining h ⟨.push sid s, h.slot, .received f :: h.log⟩
  | sends (f : Frame) (sid : Nat) (s : PushFiles) : h.serving = true →
      Moves C remaining h ⟨.push sid s, h.slot, .sent f :: h.log⟩
  | continues (sid : Nat) (s : PushFiles) : h.serving = true →
      Moves C remaining h { h with state := .push sid s }
  | returns (res : Except TransferError Unit) : Moves C remaining h { h with state := .returned res }

variable {sid : Nat} {slot : Bool} {log : List ShareLog}

theorem moves_token (f : Frame)
    (hstep : step C remaining ⟨.awaitToken sid, slot, log⟩ (.frame f) = some h') :
    Moves C remaining ⟨.awaitToken sid, slot, log⟩ h' := by
  have hrefuse : ∀ res, Moves C remaining ⟨.awaitToken sid, slot, log⟩
      ⟨.returned res, slot || (ShareConn.returned res).serving, .received f :: log⟩ := by
    intro res
    have hslot : (slot || (ShareConn.returned res).serving) = slot := Bool.or_false slot
    rw [hslot]
    exact .refuses f res
  cases f with
  | token provided =>
    cases hstep
    dsimp only
    by_cases htoken : provided = C.token
    · subst htoken
      rw [if_neg (not_not_intro rfl)]
      by_cases hzero : remaining = 0
      · rw [if_pos hzero]
        exact hrefuse _
      · simpa [hzero, ShareConn.serving] using .takes sid hzero rfl
    · rw [if_pos htoken]
      exact hrefuse _
  | _ =>
    cases hstep
    exact hrefuse _

variable {s : PushFiles}

theorem moves_push (hslot : slot = true)
    (hstep : step C remaining ⟨.push sid s, slot, log⟩ e = some h') :
    Moves C remaining ⟨.push sid s, slot, log⟩ h' := by
  have hact : act C remaining ⟨.push sid s, slot, log⟩
      = (pushFiles C.tools ⟨sid, C.zstd, C.fips⟩ false C.files s).call (.push sid) .returned := rfl
  cases hpush : pushFiles C.tools ⟨sid, C.zstd, C.fips⟩ false C.files s <;>
    rw [hpush, Act.call] at hact <;>
    cases e <;> rw [step, hact] at hstep <;> cases hstep
  case tau.go => exact .continues sid _ rfl
  case send.go => exact .sends _ sid _ rfl
  case recv.frame =>
    simpa [hslot] using .receives _ sid _ rfl
  case accept.stream => exact .continues sid _ rfl
  case done.go => exact .returns _
  all_goals exact .returns _

theorem moves_of_step (hslot : h.serving = true → h.slot = true)
    (hstep : h.step C remaining e = some h') : Moves C remaining h h' := by
  obtain ⟨state, slot, log⟩ := h
  cases state with
  | start =>
    cases e with
    | stream sid =>
      cases hstep
      exact .streams sid rfl
    | frame f | go => cases hstep
    | lost =>
      cases hstep
      exact .returns _
  | awaitToken sid =>
    cases e with
    | stream sid | go => cases hstep
    | frame f => exact moves_token f hstep
    | lost =>
      cases hstep
      exact .returns _
  | push sid s => exact moves_push (hslot rfl) hstep
  | returned res => cases e <;> cases hstep

theorem presented_cons {x : ShareLog} {state : ShareConn} (hp : h.presented C = true) :
    presented C ⟨state, slot, x :: h.log⟩ = true :=
  decide_eq_true (mem_cons_of_mem x (of_decide_eq_true hp))

theorem sent_mem_of_received {f g : Frame} (hmem : ShareLog.sent f ∈ ShareLog.received g :: log) :
    ShareLog.sent f ∈ log :=
  (mem_cons.mp hmem).resolve_left nofun

variable {P : Prop}

theorem not_fresh_push
    (hfresh : push sid s = .start ∨ ∃ sid', push sid s = .awaitToken sid') : P := by
  rcases hfresh with hstart | ⟨_, hawait⟩
  · cases hstart
  · cases hawait

theorem not_fresh_returned {res : Except TransferError Unit}
    (hfresh : returned res = .start ∨ ∃ sid, returned res = .awaitToken sid) :
    P := by
  rcases hfresh with hstart | ⟨_, hawait⟩
  · cases hstart
  · cases hawait

theorem Honest.moves (hh : h.Honest C) (hmove : Moves C remaining h h') : h'.Honest C := by
  cases hmove with
  | streams sid hstart =>
    exact ⟨hh.sentAfter, hh.slot_of_sent, nofun, hh.presented_of_slot,
      fun _ => hh.fresh (.inl hstart)⟩
  | refuses f res =>
    refine ⟨hh.sentAfter, ?_, nofun, fun hs => presented_cons (hh.presented_of_slot hs),
      not_fresh_returned⟩
    intro g hg
    exact hh.slot_of_sent g (sent_mem_of_received hg)
  | takes sid hne hawait =>
    exact ⟨hh.sentAfter, fun _ _ => rfl, fun _ => rfl, fun _ => decide_eq_true mem_cons_self,
      not_fresh_push⟩
  | receives f sid s hserve =>
    have hslot := hh.slot_of_serving hserve
    exact ⟨hh.sentAfter, fun _ _ => hslot, fun _ => hslot,
      fun hs => presented_cons (hh.presented_of_slot hs), not_fresh_push⟩
  | sends f sid s hserve =>
    have hslot := hh.slot_of_serving hserve
    exact ⟨⟨of_decide_eq_true (hh.presented_of_slot hslot), hh.sentAfter⟩, fun _ _ => hslot,
      fun _ => hslot, fun hs => presented_cons (hh.presented_of_slot hs), not_fresh_push⟩
  | continues sid s hserve =>
    exact ⟨hh.sentAfter, hh.slot_of_sent, fun _ => hh.slot_of_serving hserve, hh.presented_of_slot,
      not_fresh_push⟩
  | returns res =>
    exact ⟨hh.sentAfter, hh.slot_of_sent, nofun, hh.presented_of_slot, not_fresh_returned⟩

theorem Honest.slot_moves (hh : h.Honest C) (hmove : Moves C remaining h h') :
    if !h.serving && h'.serving then remaining ≠ 0 ∧ h.slot = false ∧ h'.slot = true
    else h'.slot = h.slot := by
  cases hmove with
  | takes sid hne hawait =>
    have hserving : h.serving = false := by rw [serving, hawait]; rfl
    rw [hserving]
    exact ⟨hne, hh.fresh (.inr ⟨sid, hawait⟩), rfl⟩
  | receives f sid s hserve | sends f sid s hserve | continues sid s hserve =>
    rw [hserve]
    rfl
  | streams sid hstart | refuses f res | returns res =>
    rw [if_neg]
    exact fun hc => (nomatch (Bool.and_eq_true_iff.mp hc).2)

end ShareHandler

/-! ## What the program keeps -/

namespace ShareServer

/-- **At any time**: the token came first on every connection on which something was sent, and only so
many connections are served as there are downloads. -/
structure Kept (C : ShareConfig) (times : Nat) (s : ShareServer) : Prop where
  sentAfter : ∀ h ∈ s.conns, SentAfter C.token h.log
  slot_of_served : ∀ h ∈ s.conns, h.serving = true ∨ (∃ f, ShareLog.sent f ∈ h.log) → h.slot = true
  slots_le : s.conns.countP ShareHandler.slot ≤ times

def Finished (s : ShareServer) : Prop :=
  s.loop = .left .exhausted → ∀ h ∈ s.conns, h.serving = false

/-- **When the loop looks at the counter**, no download is under way, or the token has been presented on
fewer connections than downloads are allowed. -/
def unhurried (C : ShareConfig) (times : Nat) (s : ShareServer) : ShareEvent → Prop
  | .check _ => (∀ h ∈ s.conns, h.serving = false) ∨ s.conns.countP (·.presented C) < times
  | _ => True

instance (C : ShareConfig) (times : Nat) (s : ShareServer) :
    ∀ e, Decidable (s.unhurried C times e)
  | .check _ => inferInstanceAs (Decidable (_ ∨ _))
  | .accept => isTrue trivial
  | .timeout => isTrue trivial
  | .stop => isTrue trivial
  | .conn _ _ => isTrue trivial

structure Counted (C : ShareConfig) (times : Nat) (s : ShareServer) : Prop where
  honest : ∀ h ∈ s.conns, h.Honest C
  count : s.remaining + s.conns.countP ShareHandler.slot = times

variable {C : ShareConfig} {times : Nat} {s s' : ShareServer} {e : ShareEvent}

theorem counted_start : (start times).Counted C times := ⟨fun _ hh => (nomatch hh), rfl⟩

variable {i : Nat}

open ShareHandler

theorem Counted.update (hs : s.Counted C times) {h h' : ShareHandler} (hi : s.conns[i]? = some h)
    (hmove : h.Moves C s.remaining h') : (s.update i h h').Counted C times := by
  have hh : h.Honest C := hs.honest h (mem_of_getElem? hi)
  obtain ⟨hlt, hget⟩ := List.getElem?_eq_some_iff.mp hi
  refine ⟨?_, ?_⟩
  · intro h₁ hmem
    rcases mem_or_eq_of_mem_set hmem with hold | rfl
    · exact hs.honest h₁ hold
    · exact hh.moves hmove
  · have hcount := hs.count
    have hpos : h.slot = true → 0 < s.conns.countP slot := by
      intro hslot
      exact countP_pos_iff.mpr ⟨h, mem_of_getElem? hi, hslot⟩
    have hmoves := hh.slot_moves hmove
    show (if (!h.serving && h'.serving) = true then s.remaining - 1 else s.remaining)
      + (s.conns.set i h').countP slot = times
    rw [countP_set hlt, hget]
    by_cases htake : (!h.serving && h'.serving) = true
    · rw [if_pos htake] at hmoves ⊢
      obtain ⟨hne, hfree, htaken⟩ := hmoves
      rw [hfree, htaken, if_neg Bool.false_ne_true, if_pos rfl]
      omega
    · rw [if_neg htake] at hmoves ⊢
      rw [hmoves]
      split_ifs with hslot
      · have := hpos hslot
        omega
      · omega

theorem step_conn {e : ShareConnEvent}
    (hstep : (s.conns[i]?.bind fun h => (h.step C s.remaining e).map fun h' => s.update i h h') = some s') :
    ∃ h h', s.conns[i]? = some h ∧ h.step C s.remaining e = some h' ∧ s' = s.update i h h' := by
  obtain ⟨h, hi, hstep⟩ := Option.bind_eq_some_iff.mp hstep
  obtain ⟨h', hh', rfl⟩ := Option.map_eq_some_iff.mp hstep
  exact ⟨h, h', hi, hh', rfl⟩

/-- **What a step of the program can be**: the loop runs out of downloads, goes on or ends for another
reason, or a connection is accepted or goes on. -/
theorem step_cases (hstep : s.step C e = some s') :
    (∃ expired, e = .check expired ∧ s.remaining = 0 ∧ s' = { s with loop := .left .exhausted })
    ∨ (∃ l, l ≠ .left .exhausted ∧ s' = { s with loop := l })
    ∨ s' = { s with conns := s.conns ++ [.accepted], loop := .check }
    ∨ (s.loop ≠ .left .exhausted ∧ ∃ i h e' h', s.conns[i]? = some h
        ∧ h.step C s.remaining e' = some h' ∧ s' = s.update i h h') := by
  unfold step at hstep
  cases hloop : s.loop with
  | check =>
    rw [hloop] at hstep
    cases e with
    | check expired =>
      dsimp only at hstep
      split_ifs at hstep with hzero hexp
      · cases hstep
        exact .inl ⟨expired, rfl, hzero, rfl⟩
      · cases hstep
        exact .inr (.inl ⟨.left .expired, nofun, rfl⟩)
      · cases hstep
        exact .inr (.inl ⟨.accepting, nofun, rfl⟩)
    | conn i e =>
      obtain ⟨h, h', hi, hh', rfl⟩ := step_conn hstep
      exact .inr (.inr (.inr ⟨nofun, i, h, e, h', hi, hh', rfl⟩))
    | accept | timeout | stop => cases hstep
  | accepting =>
    rw [hloop] at hstep
    cases e with
    | check expired => cases hstep
    | conn i e =>
      obtain ⟨h, h', hi, hh', rfl⟩ := step_conn hstep
      exact .inr (.inr (.inr ⟨nofun, i, h, e, h', hi, hh', rfl⟩))
    | accept =>
      cases hstep
      exact .inr (.inr (.inl rfl))
    | timeout =>
      cases hstep
      exact .inr (.inl ⟨.check, nofun, rfl⟩)
    | stop =>
      cases hstep
      exact .inr (.inl ⟨.left .stopped, nofun, rfl⟩)
  | left reason =>
    rw [hloop] at hstep
    cases hstep

theorem Counted.step (hs : s.Counted C times) (hstep : s.step C e = some s') : s'.Counted C times := by
  rcases step_cases hstep with ⟨_, _, _, rfl⟩ | ⟨_, _, rfl⟩ | rfl | ⟨_, i, h, e', h', hi, hh', rfl⟩
  · exact ⟨hs.honest, hs.count⟩
  · exact ⟨hs.honest, hs.count⟩
  · refine ⟨?_, ?_⟩
    · intro h hh
      rcases mem_append.mp hh with hold | hnew
      · exact hs.honest h hold
      · rw [mem_singleton.mp hnew]
        exact honest_accepted
    · rw [← hs.count, countP_append]
      rfl
  · have hh := hs.honest h (mem_of_getElem? hi)
    exact hs.update hi (moves_of_step hh.slot_of_serving hh')

theorem Counted.kept (hs : s.Counted C times) : s.Kept C times := by
  refine ⟨fun h hh => (hs.honest h hh).sentAfter, ?_, ?_⟩
  · intro h hh hserved
    rcases hserved with hserving | ⟨f, hf⟩
    · exact (hs.honest h hh).slot_of_serving hserving
    · exact (hs.honest h hh).slot_of_sent f hf
  · have := hs.count
    omega

theorem Counted.presented (hs : s.Counted C times) (hzero : s.remaining = 0) :
    times ≤ s.conns.countP (·.presented C) := by
  have hle : s.conns.countP slot ≤ s.conns.countP (·.presented C) :=
    countP_mono_left fun h hh => (hs.honest h hh).presented_of_slot
  have := hs.count
  omega

/-- **An unhurried step finishes the downloads**: the loop runs out of them only when the token was
presented often enough, and then none is under way. -/
theorem Counted.finished (hs : s.Counted C times) (hok : s.unhurried C times e)
    (hstep : s.step C e = some s') : s'.Finished := by
  intro hleft
  rcases step_cases hstep with
    ⟨expired, rfl, hzero, rfl⟩ | ⟨l, hl, rfl⟩ | rfl | ⟨hloop, _, _, _, _, _, _, rfl⟩
  · rcases hok with hnone | hfew
    · exact hnone
    · exact absurd (hs.presented hzero) (Nat.not_le_of_lt hfew)
  · exact absurd hleft hl
  · cases hleft
  · exact absurd hleft hloop

end ShareServer

/-! ## The share -/

open ShareServer

/-- **Whatever happens, only who presents the token is served, and at most as many times as allowed; in
an unhurried run, the program also does not end for want of downloads while one is under way.** -/
theorem share_keeps (C : ShareConfig) (times : Nat) (es : List ShareEvent) (s : ShareServer)
    (hrun : exec (ShareServer.step C) (start times) es = some s) :
    s.Kept C times
      ∧ (Meets (ShareServer.step C) (unhurried C times) (start times) es → s.Finished) := by
  have hkept : s.Counted C times :=
    exec_invariant (Counted C times) (fun _ _ _ hs hstep => hs.step hstep) counted_start hrun
  refine ⟨hkept.kept, ?_⟩
  intro hok
  -- the last step is the one that counts, but it needs the count before it
  have hboth : s.Counted C times ∧ s.Finished :=
    exec_invariant_of_meets (fun s => s.Counted C times ∧ s.Finished)
      (fun _ _ _ hs hok hstep => ⟨hs.1.step hstep, hs.1.finished hok hstep⟩)
      ⟨counted_start, nofun⟩ hok hrun
  exact hboth.2

def nothingShared : ShareConfig := ⟨Tools.small, false, false, [116], []⟩

def tokenPresented : List ShareEvent :=
  [.check false, .accept, .conn 0 (.stream 1), .conn 0 (.frame (.token [116]))]

def downloaded : List ShareEvent :=
  [.conn 0 .go, .conn 0 (.frame .ack), .conn 0 .go, .conn 0 .go, .conn 0 .go]

/-- The only download is complete before the loop looks at the counter. -/
theorem one_download_finishes :
    ∃ s, exec (ShareServer.step nothingShared) (start 1)
          (tokenPresented ++ downloaded ++ [.check false]) = some s
      ∧ Meets (ShareServer.step nothingShared) (unhurried nothingShared 1) (start 1)
          (tokenPresented ++ downloaded ++ [.check false])
      ∧ s.loop = .left .exhausted ∧ s.Kept nothingShared 1 ∧ s.Finished := by
  refine exists_exec_of (p := fun s => Meets (ShareServer.step nothingShared)
    (unhurried nothingShared 1) (start 1) (tokenPresented ++ downloaded ++ [.check false])
    ∧ s.loop = .left .exhausted) (by decide +kernel) ?_
  rintro s hrun ⟨hok, hloop⟩
  obtain ⟨hkept, hfinished⟩ := share_keeps nothingShared 1 _ s hrun
  exact ⟨hok, hloop, hkept, hfinished hok⟩

/-- **The last download ends with the program.** One download is allowed and the token is presented; at
its next turn the loop finds that none remain, and HELLO has not even been sent. -/
theorem last_download_cut :
    ∃ s, exec (ShareServer.step nothingShared) (start 1) (tokenPresented ++ [.check false]) = some s
      ∧ ¬ s.Finished := by
  refine exists_exec_of (p := fun s => s.loop = .left .exhausted ∧ ∃ h ∈ s.conns, h.serving = true)
    (by decide +kernel) ?_
  rintro s - ⟨hloop, h, hmem, hh⟩ hfin
  rw [hfin hloop h hmem] at hh
  cases hh

end SeamProtocol
