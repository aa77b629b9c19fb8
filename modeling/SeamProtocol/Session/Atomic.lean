import SeamProtocol.Session.History

/-! # Calls that fail halfway

`send` reserves connection credit before the stream is asked, and nothing gives it back if the stream
refuses. `handle_data_frame` creates the stream, counts the bytes and schedules a window update before
that, and the events collected so far are lost if the stream refuses. -/

namespace SeamProtocol

open Lib List Option SortedMap LoggedSession SessionCall FlowWindow

/-! ## Sending -/

def Stream.takesWrite (stream : Stream) (data : Bytes) : Bool :=
  !stream.finSent && saturatingAdd stream.sendOffset data.length ≤ stream.sendMaxData

/-- The data is empty, or exceeds the connection window, or is taken by its stream. -/
def Session.sendSafe (s : Session) (streamId : Nat) (data : Bytes) : Bool :=
  data.isEmpty || s.sendWindow.limit < s.sendWindow.consumed + data.length ||
    (s.streams.get? streamId).any (·.takesWrite data)

/-- **What `send` does**: it is refused by the connection and changes nothing; it is refused by the stream
and the credit stays used; or it is taken. -/
theorem Session.send_outcome (s : Session) (id : Nat) (data : Bytes) :
    (s.sendSafe id data = true ∧ ∃ e, s.send id data = (.error e, s)) ∨
    (s.sendSafe id data = false ∧ data ≠ [] ∧
      s.sendWindow.consumed + data.length ≤ s.sendWindow.limit ∧ ∃ e, s.send id data = (.error e, { s with
        sendWindow := { s.sendWindow with consumed := s.sendWindow.consumed + data.length } })) ∨
    (s.sendSafe id data = true ∧ ∃ s', s.send id data = (.ok (), s') ∧
      s'.sendWindow = { s.sendWindow with consumed := s.sendWindow.consumed + data.length }) := by
  rcases s.send_cases id data with ⟨e, h, hlt⟩ | ⟨e, s', h, hle, rfl, hrefused⟩ |
    ⟨stream, hget, hfin, hmax, hle, h⟩
  · refine .inl ⟨?_, e, h⟩
    simp [sendSafe, hlt]
  · have hany : (s.streams.get? id).any (·.takesWrite data) = false := by
      cases hget : s.streams.get? id with
      | none => rfl
      | some stream =>
        obtain ⟨e', hwrite⟩ := hrefused stream hget
        rw [any_some, Stream.takesWrite]
        unfold Stream.write at hwrite
        split_ifs at hwrite with hfin hmax
        · rw [hfin]
          rfl
        · rw [decide_eq_false (Nat.not_le.mpr hmax), Bool.and_false]
        · cases hwrite
    by_cases hnil : data = []
    · subst hnil
      exact .inl ⟨rfl, e, h⟩
    · refine .inr (.inl ⟨?_, hnil, hle, e, h⟩)
      rw [sendSafe, hany, isEmpty_eq_false_iff.mpr hnil, decide_eq_false (Nat.not_lt.mpr hle)]
      rfl
  · refine .inr (.inr ⟨?_, _, h, rfl⟩)
    rw [sendSafe, hget, any_some, Stream.takesWrite, hfin, decide_eq_true hmax]
    simp

theorem Session.send_unchanged_iff (s : Session) (id : Nat) (data : Bytes) :
    (∀ e, (s.send id data).1 = .error e → (s.send id data).2 = s) ↔ s.sendSafe id data = true := by
  rcases s.send_outcome id data with ⟨hsafe, e, h⟩ | ⟨hsafe, hne, -, e, h⟩ | ⟨hsafe, s', h, -⟩
  · rw [h, hsafe]
    exact ⟨fun _ => rfl, fun _ _ _ => rfl⟩
  · rw [h, hsafe]
    refine ⟨fun hall => ?_, nofun⟩
    have hcredit := congrArg (·.sendWindow.consumed) (hall e rfl)
    dsimp only at hcredit
    have hlen := length_pos_of_ne_nil hne
    omega
  · rw [h, hsafe]
    exact ⟨fun _ => rfl, fun _ _ => nofun⟩

/-! ## Credit over runs -/

def SessionCall.sendSafe (s : Session) : SessionCall → Bool
  | .op (.send streamId data) => s.sendSafe streamId data
  | _ => true

variable {s s' : Session}

theorem Session.dispatch_consumed {pktType : PktType} {payload : Bytes} {now : Nat}
    {res : Except SeamError (List SessionEvent)}
    (h : s.dispatch pktType payload now = some (res, s')) :
    s'.sendWindow.consumed = s.sendWindow.consumed := by
  rw [dispatch_sendWindow h]
  split_ifs
  · exact updateLimit_consumed _ _
  · rfl

theorem Session.Does.consumed {P : Primitives} {call : SessionCall} (h : s.Does P call s')
    (hcall : ∀ id data, call ≠ .op (.send id data)) :
    s'.sendWindow.consumed = s.sendWindow.consumed := by
  cases h with
  | packet _ h => exact (dispatch_consumed h).trans rfl
  | send id data => exact absurd rfl (hcall id data)
  | app h =>
    obtain ⟨_, _, _, _, _, rfl⟩ := appCall_eq h
    rfl
  | read h =>
    obtain ⟨_, rfl⟩ := read_eq h
    rfl
  | flush => exact congrArg consumed (s.flushed_sendWindow P _ _)
  | refused | drain | encode => rfl

namespace LoggedSession

variable {P : Primitives} {r r' : LoggedSession}

theorem sent_credit (r : LoggedSession) (id : Nat) (data : Bytes) :
    ((r.sent data (r.sess.send id data)).sess.sendWindow.consumed + r.accepted
        = r.sess.sendWindow.consumed + (r.sent data (r.sess.send id data)).accepted ∧
      r.sess.sendSafe id data = true) ∨
    ((r.sent data (r.sess.send id data)).accepted = r.accepted ∧
      r.sess.sendWindow.consumed < (r.sent data (r.sess.send id data)).sess.sendWindow.consumed ∧
      r.sess.sendSafe id data = false) := by
  rcases r.sess.send_outcome id data with ⟨hsafe, e, h⟩ | ⟨hsafe, hne, -, e, h⟩ | ⟨hsafe, s', h, hw⟩
  · rw [h]
    exact .inl ⟨rfl, hsafe⟩
  · have hlen := length_pos_of_ne_nil hne
    rw [h]
    refine .inr ⟨rfl, ?_, hsafe⟩
    show r.sess.sendWindow.consumed < r.sess.sendWindow.consumed + data.length
    omega
  · rw [h]
    refine .inl ⟨?_, hsafe⟩
    show s'.sendWindow.consumed + r.accepted = r.sess.sendWindow.consumed + (r.accepted + data.length)
    rw [hw]
    dsimp only
    omega

variable {call : SessionCall}

theorem step_accepted (h : r.step P call = some r') (hcall : ∀ id data, call ≠ .op (.send id data)) :
    r'.accepted = r.accepted := by
  cases call with
  | packet x now =>
    obtain ⟨res, -, rfl⟩ := map_eq_some_iff.mp h
    rfl
  | op o =>
    cases o with
    | send id data => exact absurd rfl (hcall id data)
    | receivePacket buf now | read id max =>
      obtain ⟨res, -, rfl⟩ := map_eq_some_iff.mp h
      rfl
    | app call =>
      cases call with
      | openStream p =>
        cases h
        rfl
      | _ =>
        dsimp only [step] at h
        obtain ⟨s', -, rfl⟩ := map_eq_some_iff.mp h
        rfl
    | flush now order =>
      rw [step, ite_none_right_eq_some] at h
      cases h.2
      rfl
    | drainRetransmits now | encodeRaw pktType payload out =>
      cases h
      rfl

theorem step_credit_iff (hle : r.accepted ≤ r.sess.sendWindow.consumed)
    (h : r.step P call = some r') :
    r'.accepted ≤ r'.sess.sendWindow.consumed ∧ (r'.sess.sendWindow.consumed = r'.accepted ↔
      r.sess.sendWindow.consumed = r.accepted ∧ call.sendSafe r.sess = true) := by
  by_cases hcall : ∃ id data, call = .op (.send id data)
  · obtain ⟨id, data, rfl⟩ := hcall
    cases h
    have hcall : (op (.send id data)).sendSafe r.sess = r.sess.sendSafe id data := rfl
    rw [hcall]
    rcases r.sent_credit id data with ⟨hboth, hsafe⟩ | ⟨hsame, hlt, hsafe⟩
    · rw [hsafe]
      exact ⟨by omega, ⟨fun heq => ⟨by omega, rfl⟩, fun ⟨heq, _⟩ => by omega⟩⟩
    · rw [hsafe]
      exact ⟨by omega, ⟨fun heq => by omega, nofun⟩⟩
  · have hne : ∀ id data, call ≠ .op (.send id data) := fun id data heq => hcall ⟨id, data, heq⟩
    have hsafe : call.sendSafe r.sess = true := by
      unfold sendSafe
      split
      · exact absurd rfl (hne _ _)
      · rfl
    rw [(does_of_step h).consumed hne, step_accepted h hne, hsafe]
    exact ⟨hle, (and_iff_left rfl).symm⟩

end LoggedSession

/-! ## The retries of `send_frame` -/

structure SendFrame where
  log : LoggedSession
  done : Bool
  /-- History: by how much the failed attempts have reduced the credit available to all streams. -/
  lost : Nat

inductive SendFrameEvent where
  | attempt
  /-- Another call: the flush after a write that succeeds, other tasks, received packets. -/
  | other (call : SessionCall)

def lengthFramed (payload : Bytes) : Bytes := beBytes 4 payload.length ++ payload

namespace SendFrame

/-- **The loop of `send_frame`**: it tries again as long as flow control blocks it, and returns any other
result. A write that fails returns before the connection is flushed. -/
def step (P : Primitives) (streamId : Nat) (payload : Bytes) (w : SendFrame) :
    SendFrameEvent → Option SendFrame
  | .other call => (w.log.step P call).map fun log => { w with log }
  | .attempt =>
    if w.done then none
    else
      let frame := lengthFramed payload
      let res := w.log.sess.send streamId frame
      let log := w.log.sent frame res
      let lost := w.lost + (w.log.sess.sendWindow.available - res.2.sendWindow.available)
      match res.1 with
      | .ok () => some { w with log, done := true }
      | .error (.flowControlBlocked _ _) => some { w with log, lost }
      | .error _ => some { log, lost, done := true }

def attemptSafe (streamId : Nat) (payload : Bytes) (w : SendFrame) : SendFrameEvent → Bool
  | .other _ => true
  | .attempt => w.log.sess.sendSafe streamId (lengthFramed payload)

theorem step_lost_iff {P : Primitives} {streamId : Nat} {payload : Bytes} {w w' : SendFrame}
    {ev : SendFrameEvent} (h : w.step P streamId payload ev = some w') :
    w'.lost = 0 ↔ w.lost = 0 ∧ w.attemptSafe streamId payload ev = true := by
  cases ev with
  | other call =>
    obtain ⟨log, -, rfl⟩ := map_eq_some_iff.mp h
    exact (and_iff_left rfl).symm
  | attempt =>
    rw [step, ite_none_left_eq_some] at h
    obtain ⟨-, h⟩ := h
    dsimp only at h
    have hsafeAt : w.attemptSafe streamId payload .attempt
        = w.log.sess.sendSafe streamId (lengthFramed payload) := rfl
    rw [hsafeAt]
    rcases w.log.sess.send_outcome streamId (lengthFramed payload) with
      ⟨hsafe, e, hsend⟩ | ⟨hsafe, hne, hle, e, hsend⟩ | ⟨hsafe, s', hsend, -⟩
    · rw [hsend] at h
      rw [Nat.sub_self, Nat.add_zero] at h
      rw [hsafe]
      split at h <;> cases h <;> exact (and_iff_left rfl).symm
    · have hlen := length_pos_of_ne_nil hne
      have hlost : w'.lost = w.lost + (lengthFramed payload).length := by
        rw [hsend] at h
        dsimp only [available] at h
        have hdiff : w.log.sess.sendWindow.limit - w.log.sess.sendWindow.consumed
            - (w.log.sess.sendWindow.limit
              - (w.log.sess.sendWindow.consumed + (lengthFramed payload).length))
            = (lengthFramed payload).length := by omega
        rw [hdiff] at h
        split at h
        · next heq => cases heq
        · cases h
          rfl
        · cases h
          rfl
      rw [hsafe, hlost]
      exact ⟨fun h0 => by omega, nofun⟩
    · rw [hsend] at h
      cases h
      rw [hsafe]
      exact (and_iff_left rfl).symm

end SendFrame

/-! ## Result for sending -/

/-- **A failed `send` changes nothing exactly if it is safe**: the data is empty, exceeds the connection
window, or is taken by the stream. Over a run, the credit used is the number of bytes accepted exactly
if every `send` was safe; and the retries of `send_frame` leave the credit of other streams exactly if
every attempt was. -/
theorem send_atomic_iff (P : Primitives) :
    (∀ (s : Session) (streamId : Nat) (data : Bytes),
      (∀ e, (s.send streamId data).1 = .error e → (s.send streamId data).2 = s) ↔
        s.sendSafe streamId data = true) ∧
    (∀ (id : UInt64) (role : Role) (encoder : PacketEncoder) (decoder : PacketDecoder)
        (limits : SessionLimits) (calls : List SessionCall) (r : LoggedSession),
      exec (LoggedSession.step P) (.new (Session.withLimits id role encoder decoder limits)) calls = some r →
      (r.sess.sendWindow.consumed = r.accepted ↔
        Meets (LoggedSession.step P) (fun r call => call.sendSafe r.sess = true)
          (.new (Session.withLimits id role encoder decoder limits)) calls)) ∧
    (∀ (log : LoggedSession) (streamId : Nat) (payload : Bytes) (events : List SendFrameEvent)
        (w : SendFrame), exec (SendFrame.step P streamId payload) ⟨log, false, 0⟩ events = some w →
      (w.lost = 0 ↔ Meets (SendFrame.step P streamId payload)
        (fun w ev => w.attemptSafe streamId payload ev = true) ⟨log, false, 0⟩ events)) := by
  refine ⟨Session.send_unchanged_iff, ?_, ?_⟩
  · intro id role encoder decoder limits calls r hrun
    have hiff := exec_iff_meets (fun r : LoggedSession => r.accepted ≤ r.sess.sendWindow.consumed)
      (fun r => r.sess.sendWindow.consumed = r.accepted)
      (fun _ _ _ hle h => (step_credit_iff hle h).1)
      (fun _ _ _ hle h => (step_credit_iff hle h).2) (Nat.zero_le _) hrun
    exact hiff.trans (and_iff_right rfl)
  · intro log streamId payload events w hrun
    have hiff := exec_iff_meets (fun _ => True) (fun w : SendFrame => w.lost = 0)
      (fun _ _ _ _ _ => trivial) (fun _ _ _ _ h => SendFrame.step_lost_iff h) trivial hrun
    exact hiff.trans (and_iff_right rfl)

def blockedStream : LoggedSession :=
  { LoggedSession.new sampleClient.sess with
    sess := { sampleClient.sess with
      streams := SortedMap.insert ∅ 1 { Stream.new 1 with sendOffset := Stream.defaultWindow }
      nextStreamId := 3
      sendWindow := ⟨2 * defaultWindow, defaultWindow⟩ }
    accepted := defaultWindow }

/-- A write to a finished stream fails and uses credit, so that more is used than was accepted; and each
retry of `send_frame` on a stream without a window costs the connection the length of the frame. -/
theorem failed_sends_charged :
    (∃ r, exec (LoggedSession.step checksumPrimitives) (.new sampleClient.sess)
        [.op (.app (.openStream 4)), .op (.send 1 [1, 2, 3]), .op (.app (.finish 1)),
          .op (.send 1 [9])] = some r ∧ r.accepted = 3 ∧ r.sess.sendWindow.consumed = 4) ∧
    (∃ w, exec (SendFrame.step checksumPrimitives 1 []) ⟨blockedStream, false, 0⟩
        [.attempt, .attempt] = some w ∧ w.done = false ∧ w.lost = 8) :=
  ⟨⟨_, rfl, by decide +kernel, by decide +kernel⟩, ⟨_, rfl, by decide +kernel, by decide +kernel⟩⟩

/-! ## Receiving -/

/-- Does the stream take this frame? It has no data, or ends below what was read, or within the limit. -/
def Stream.takesFrame (stream : Stream) (f : StreamFrame) : Bool :=
  f.data.isEmpty || (f.offset + f.data.length) % 2 ^ 64 ≤ stream.recvOffset ||
    (f.offset + f.data.length) % 2 ^ 64 ≤ stream.recvMaxData

theorem Stream.receive_fst (stream : Stream) (f : StreamFrame) :
    (stream.takesFrame f = true ∧ (stream.receive f.offset f.data f.isFin).1 = .ok ()) ∨
    (stream.takesFrame f = false ∧ f.data ≠ [] ∧
      ∃ e, (stream.receive f.offset f.data f.isFin).1 = .error e) := by
  obtain ⟨finReceived, ⟨hdrop, h⟩ | ⟨hne, hnew, hbig, e, h⟩ | ⟨-, -, hle, h⟩⟩ :=
    stream.receive_cases f.offset f.data f.isFin
  · refine .inl ⟨?_, by rw [h]⟩
    rcases hdrop with hnil | hold
    · rw [takesFrame, hnil]
      rfl
    · rw [takesFrame, decide_eq_true hold, Bool.or_true, Bool.true_or]
  · refine .inr ⟨?_, hne, e, by rw [h]⟩
    rw [takesFrame, isEmpty_eq_false_iff.mpr hne, decide_eq_false (Nat.not_le.mpr hnew),
      decide_eq_false (Nat.not_le.mpr hbig)]
    rfl
  · refine .inl ⟨?_, by rw [h]⟩
    rw [takesFrame, decide_eq_true hle, Bool.or_true]

def Session.frameSafe (s : Session) (payload : Bytes) : Bool :=
  match parseStreamFrame payload with
  | none => true
  | some f => ((s.streams.get? f.streamId).isNone && (s.refuseNewStream f.streamId).isSome) ||
      (s.streamFor f.streamId).takesFrame f

theorem Session.handleDataFrame_unchanged_iff (s : Session) (payload : Bytes) :
    (∀ e, (s.handleDataFrame payload).1 = .error e →
      (s.handleDataFrame payload).2.streams = s.streams ∧
      (s.handleDataFrame payload).2.recvConsumed = s.recvConsumed ∧
      (s.handleDataFrame payload).2.pendingMaxData = s.pendingMaxData) ↔
      s.frameSafe payload = true := by
  unfold frameSafe
  rcases s.handleDataFrame_cases payload with
    ⟨hparse, heq⟩ | ⟨f, e, hparse, hget, hrefused, heq⟩ | ⟨f, hparse, hallow, heq⟩
  · rw [heq, hparse]
    exact ⟨fun _ => rfl, fun _ _ => nofun⟩
  · rw [heq, hparse]
    dsimp only
    rw [hget, hrefused]
    exact ⟨fun _ => rfl, fun _ _ _ => ⟨rfl, rfl, rfl⟩⟩
  · obtain ⟨res, hdeliver, hres⟩ := s.deliverFrame_eq (s.streams.get? f.streamId).isNone f
    have hallowed : ((s.streams.get? f.streamId).isNone && (s.refuseNewStream f.streamId).isSome) = false := by
      cases hget : s.streams.get? f.streamId with
      | some stream => rfl
      | none =>
        rw [hallow hget]
        rfl
    rw [heq, hparse, hdeliver]
    dsimp only
    rw [hallowed, Bool.false_or]
    rcases (s.streamFor f.streamId).receive_fst f with ⟨htakes, hok⟩ | ⟨htakes, hne, e, herr⟩
    · rw [htakes]
      refine ⟨fun _ => rfl, fun _ e he => ?_⟩
      rcases hres with ⟨e', herr, -⟩ | ⟨finished, -, rfl⟩
      · rw [hok] at herr
        cases herr
      · cases he
    · rw [htakes]
      refine ⟨fun hall => ?_, nofun⟩
      rcases hres with ⟨e', -, rfl⟩ | ⟨finished, hok, -⟩
      · have hcount := (hall e' rfl).2.1
        have hlen := length_pos_of_ne_nil hne
        dsimp only [consume] at hcount
        omega
      · rw [herr] at hok
        cases hok

/-! ## Announcements -/

def AnnouncedIn (events : List SessionEvent) (id : Nat) : Prop :=
  events.count (.newStream id) = 1 ∧
    ∀ before after, events = before ++ .dataAvailable id :: after → .newStream id ∈ before

variable {events more : List SessionEvent} {id : Nat}

theorem announcedIn_append_iff (hno : .newStream id ∉ more) :
    AnnouncedIn (events ++ more) id ↔ AnnouncedIn events id := by
  have hcount : (events ++ more).count (.newStream id) = events.count (.newStream id) := by
    rw [count_append, count_eq_zero_of_not_mem hno, Nat.add_zero]
  unfold AnnouncedIn
  rw [hcount]
  refine and_congr_right fun hone => ⟨fun h before after heq => ?_, fun h before after heq => ?_⟩
  · apply h before (after ++ more)
    simp [heq]
  · rcases append_eq_append_iff.mp heq with ⟨m, rfl, -⟩ | ⟨m, rfl, hm⟩
    · exact mem_append_left _ (count_pos_iff.mp (by omega))
    · cases m with
      | nil =>
        rw [append_nil] at hone
        exact count_pos_iff.mp (by omega)
      | cons ev m =>
        obtain ⟨rfl, -⟩ := hm
        exact h before m rfl

theorem announcedIn_append_first (hno : ∀ ev ∈ events, ev.streamId? ≠ some id)
    (hmore : .newStream id ∉ more) : AnnouncedIn (events ++ .newStream id :: more) id := by
  have hnew : .newStream id ∉ events := fun h => hno _ h rfl
  have hone : AnnouncedIn (events ++ [.newStream id]) id := by
    refine ⟨?_, fun before after heq => ?_⟩
    · rw [count_append, count_eq_zero_of_not_mem hnew]
      simp
    · have hmem : .dataAvailable id ∈ events ++ [.newStream id] := by
        rw [heq]
        simp
      rcases mem_append.mp hmem with h | h
      · exact absurd rfl (hno _ h)
      · cases mem_singleton.mp h
  simpa using (announcedIn_append_iff hmore).mpr hone

theorem newStream_not_mem_frameEvents {finished : Bool} {id' : Nat} :
    .newStream id' ∉ Session.frameEvents false finished id := by
  cases finished <;> simp [Session.frameEvents]

def SessionCall.createsTaken (P : Primitives) (s : Session) (call : SessionCall) : Bool :=
  match call.frame? P s with
  | none => true
  | some f => (s.streams.get? f.streamId).isSome || (s.refuseNewStream f.streamId).isSome ||
      (Stream.new f.streamId).takesFrame f

namespace LoggedSession

variable {P : Primitives} {r r' : LoggedSession} {call : SessionCall}

def Announced (r : LoggedSession) : Prop :=
  ∀ id, r.sess.streams.get? id ≠ none → id % 2 ≠ r.sess.role.localParity → AnnouncedIn r.events id

structure Orderly (r : LoggedSession) : Prop where
  parity : r.sess.nextStreamId % 2 = r.sess.role.localParity
  silent : ∀ id, r.sess.streams.get? id = none → ∀ ev ∈ r.events, ev.streamId? ≠ some id

theorem orderly_new (id : UInt64) (role : Role) (encoder : PacketEncoder) (decoder : PacketDecoder)
    (limits : SessionLimits) :
    (LoggedSession.new (Session.withLimits id role encoder decoder limits)).Orderly := by
  refine ⟨?_, fun _ _ _ hev => nomatch hev⟩
  cases role with
  | client => exact (by decide : 1 % 2 = 1)
  | server => exact (by decide : 2 % 2 = 0)

theorem createsTaken_of_frame {f : StreamFrame} (hframe : call.frame? P r.sess = some f)
    (hget : r.sess.streams.get? f.streamId = none) (hallow : r.sess.refuseNewStream f.streamId = none) :
    call.createsTaken P r.sess = (r.sess.streamFor f.streamId).takesFrame f := by
  rw [createsTaken, hframe, Session.streamFor]
  dsimp only
  rw [hget, hallow]
  rfl

/-- **A step** keeps order, and keeps every stream of the peer announced exactly if a frame that creates
a stream is taken by it. -/
theorem Orderly.turn (h : r.Orderly) (ht : Turn P r call r') :
    r'.Orderly ∧ (r'.Announced ↔ r.Announced ∧ call.createsTaken P r.sess = true) := by
  cases ht with
  | @quiet sess accepted events hframe hsame hevents =>
    have hsafe : call.createsTaken P r.sess = true := by
      unfold createsTaken
      cases hf : call.frame? P r.sess with
      | none => rfl
      | some f => simp [isSome_iff_ne_none.mpr (hframe f hf).2]
    refine ⟨⟨?_, fun id hid ev hev => ?_⟩, ?_⟩
    · rw [hsame.next, hsame.role]
      exact h.parity
    · rcases mem_append.mp hev with hev | hev
      · exact h.silent id ((hsame.get?_eq_none_iff id).mp hid) ev hev
      · rw [hevents ev hev]
        simp
    · rw [hsafe, and_iff_left rfl]
      unfold Announced
      rw [hsame.role]
      refine forall_congr' fun id => ?_
      rw [Ne, hsame.get?_eq_none_iff id, announcedIn_append_iff fun hev => by cases hevents _ hev]
  | opens priority hframe hroom =>
    have hsafe : call.createsTaken P r.sess = true := by
      rw [createsTaken, hframe]
    refine ⟨⟨?_, fun id hid => ?_⟩, ?_⟩
    · have hpar := h.parity
      dsimp only
      omega
    · rw [get?_insert] at hid
      split_ifs at hid
      exact h.silent id hid
    · rw [hsafe, and_iff_left rfl]
      -- the new stream is not one of the peer's
      have hother : ∀ id, id % 2 ≠ r.sess.role.localParity → id ≠ r.sess.nextStreamId :=
        fun id hid heq => hid (heq ▸ h.parity)
      refine forall_congr' fun id => ?_
      constructor
      · intro hann hget hid
        rw [get?_insert_of_ne _ _ (hother id hid)] at hann
        exact hann hget hid
      · intro hann hget hid
        rw [get?_insert_of_ne _ _ (hother id hid)] at hget
        exact hann hget hid
  | @receives f sess res hframe hallow hstreams hnext hrole hlimits hres =>
    have hget : ∀ id, id ≠ f.streamId → sess.streams.get? id = r.sess.streams.get? id := by
      intro id hne
      rw [hstreams, get?_insert_of_ne _ _ hne]
    have hevents : ∀ ev ∈ eventsOf res, ev.streamId? = some f.streamId := by
      rcases hres with ⟨e, -, rfl⟩ | ⟨finished, -, rfl⟩
      · simp [eventsOf]
      · exact fun ev hev => Session.streamId?_of_mem_frameEvents hev
    refine ⟨⟨?_, fun id hid ev hev => ?_⟩, ?_⟩
    · show sess.nextStreamId % 2 = sess.role.localParity
      rw [hnext, hrole]
      exact h.parity
    · have hne : id ≠ f.streamId := by
        rintro rfl
        rw [received, hstreams, get?_insert_self] at hid
        cases hid
      rcases mem_append.mp hev with hev | hev
      · exact h.silent id ((hget id hne).symm.trans hid) ev hev
      · simpa [hevents ev hev, Ne] using hne.symm
    · have hrole' : (r.received (res, sess)).sess.role = r.sess.role := hrole
      unfold Announced
      rw [hrole']
      have hother : ∀ id, id ≠ f.streamId →
          (AnnouncedIn (r.events ++ eventsOf res) id ↔ AnnouncedIn r.events id) := by
        intro id hne
        apply announcedIn_append_iff
        intro hev
        exact hne (Option.some.inj (hevents _ hev))
      cases hold : r.sess.streams.get? f.streamId with
      | some stream =>
        -- a frame for a stream that is there announces nothing
        have hsafe : call.createsTaken P r.sess = true := by
          rw [createsTaken, hframe]
          dsimp only
          rw [hold]
          rfl
        have hnone : ∀ id, .newStream id ∉ eventsOf res := by
          rw [hold] at hres
          rcases hres with ⟨e, -, rfl⟩ | ⟨finished, -, rfl⟩
          · exact fun _ => not_mem_nil
          · exact fun id => newStream_not_mem_frameEvents
        rw [hsafe, and_iff_left rfl]
        refine forall_congr' fun id => imp_congr ?_ (imp_congr_right fun _ =>
          announcedIn_append_iff (hnone id))
        by_cases hid : id = f.streamId
        · subst hid
          rw [received, hstreams, get?_insert_self, hold]
          simp
        · rw [received, hget id hid]
      | none =>
        have hpar := Session.parity_of_refuseNewStream (hallow hold)
        rw [createsTaken_of_frame hframe hold (hallow hold)]
        have hhere : AnnouncedIn (r.events ++ eventsOf res) f.streamId ↔
            (r.sess.streamFor f.streamId).takesFrame f = true := by
          rw [hold] at hres
          rcases (r.sess.streamFor f.streamId).receive_fst f with ⟨htakes, hok⟩ | ⟨htakes, -, e, herr⟩
          · rw [htakes]
            rcases hres with ⟨e, herr, -⟩ | ⟨finished, -, rfl⟩
            · rw [hok] at herr
              cases herr
            · exact iff_of_true (announcedIn_append_first (h.silent _ hold)
                newStream_not_mem_frameEvents) rfl
          · rw [htakes]
            rcases hres with ⟨e', -, rfl⟩ | ⟨finished, hok, -⟩
            · -- the stream is there, and its announcement was lost
              refine iff_of_false (fun hann => ?_) Bool.false_ne_true
              have hmem := count_pos_iff.mp (hann.1 ▸ Nat.one_pos)
              rw [eventsOf, append_nil] at hmem
              exact h.silent _ hold _ hmem rfl
            · rw [herr] at hok
              cases hok
        rw [← hhere]
        constructor
        · intro hann
          refine ⟨fun id hid hidpar => ?_, ?_⟩
          · have hne : id ≠ f.streamId := fun heq => hid (heq ▸ hold)
            rw [← hother id hne]
            exact hann id (by rw [received, hget id hne]; exact hid) hidpar
          · exact hann f.streamId (by rw [received, hstreams, get?_insert_self]; simp) hpar
        · rintro ⟨hann, hnew⟩ id hid hidpar
          by_cases heq : id = f.streamId
          · rw [heq]
            exact hnew
          · rw [received, hget id heq] at hid
            exact (hother id heq).mpr (hann id hid hidpar)

end LoggedSession

/-! ## Result for receiving -/

/-- **A refused frame changes nothing exactly if it is refused before its stream is asked**: it reaches
no stream, or its stream takes it. Over a run, every stream of the peer in the table was announced once
and before its data exactly if every frame that created a stream was taken by it. -/
theorem refused_frame_iff (P : Primitives) :
    (∀ (s : Session) (payload : Bytes),
      (∀ e, (s.handleDataFrame payload).1 = .error e →
        (s.handleDataFrame payload).2.streams = s.streams ∧
        (s.handleDataFrame payload).2.recvConsumed = s.recvConsumed ∧
        (s.handleDataFrame payload).2.pendingMaxData = s.pendingMaxData) ↔
        s.frameSafe payload = true) ∧
    (∀ (id : UInt64) (role : Role) (encoder : PacketEncoder) (decoder : PacketDecoder)
        (limits : SessionLimits) (calls : List SessionCall) (r : LoggedSession),
      exec (LoggedSession.step P) (.new (Session.withLimits id role encoder decoder limits)) calls = some r →
      (r.Announced ↔ Meets (LoggedSession.step P) (fun r call => call.createsTaken P r.sess = true)
        (.new (Session.withLimits id role encoder decoder limits)) calls)) := by
  refine ⟨Session.handleDataFrame_unchanged_iff, ?_⟩
  intro id role encoder decoder limits calls r hrun
  have hiff := exec_iff_meets LoggedSession.Orderly LoggedSession.Announced
    (fun _ _ _ h hstep => (h.turn (turn_of_step hstep)).1)
    (fun _ _ _ h hstep => (h.turn (turn_of_step hstep)).2)
    (orderly_new id role encoder decoder limits) hrun
  exact hiff.trans (and_iff_right fun _ hget => absurd rfl hget)

/-- A frame beyond the limit of the stream it creates: the call fails, the stream stays, its byte is
counted, and the data that follows is reported for a stream that was never announced. -/
theorem refused_frame_creates_stream :
    (sampleClient.sess.handleDataFrame (streamFrame false 2 Stream.defaultWindow [7])).1
        = .error (.flowControlBlocked Stream.defaultWindow (Stream.defaultWindow + 1)) ∧
    ∃ r r', exec (LoggedSession.step checksumPrimitives) (.new sampleClient.sess)
        [.packet (.data, 0, streamFrame false 2 Stream.defaultWindow [7]) 0] = some r ∧
      r.sess.streams.keys = [2] ∧ r.sess.recvConsumed = 1 ∧ r.events = [] ∧
      exec (LoggedSession.step checksumPrimitives) r
        [.packet (.data, 1, streamFrame false 2 0 [7]) 0] = some r' ∧
      r'.events = [.dataAvailable 2] :=
  ⟨rfl, _, _, rfl, by decide +kernel, by decide +kernel, by decide +kernel, rfl, by decide +kernel⟩

end SeamProtocol
