import SeamProtocol.Relay.Bridge

/-! # Relayed connections that are like direct ones

An invariant of the runs in which the ends do only what is allowed: each direction is sound, and the
relays are where the ends have brought them. If the relays wait, then all of their loops are stuck, or
nobody has said anything. -/

namespace SeamProtocol

open Lib Function List Option Copier Line

namespace Relayed

/-! ## Lines -/

theorem line_setLine_self (s : Relayed) (side : Side) (l : Line UInt8) :
    (s.setLine side l).line side = l := by
  cases side <;> rfl

theorem line_setLine_of_ne (s : Relayed) {side side' : Side} (l : Line UInt8) (hne : side' ≠ side) :
    (s.setLine side l).line side' = s.line side' := by
  cases side <;> cases side' <;> first | rfl | exact absurd rfl hne

theorem view_setLine (s : Relayed) (side : Side) (l : Line UInt8) :
    (s.setLine side l).view = Function.update s.view side l.view := by
  funext side'
  by_cases heq : side' = side
  · rw [heq, update_self, view, line_setLine_self]
  · rw [update_of_ne heq, view, line_setLine_of_ne s l heq, view]

end Relayed

/-! ## Work -/

def ListenerPhase.work : ListenerPhase → Nat
  | .header => 3
  | .response => 2
  | .bridging => 1
  | .ended => 0

def DialerPhase.work : DialerPhase → Nat
  | .waiting => 2
  | .bridging => 1
  | .ended => 0

namespace Relayed

variable {c : Carrier} {s s' : Relayed}

def work (s : Relayed) : Nat := s.out.work + s.back.work + s.listener.work + s.dialer.work

variable {n : Nat}

theorem work_readHeader (hphase : s.listener = .header) (hmove : s.readHeader c n = some s') :
    s'.work < s.work := by
  cases n with
  | zero =>
    obtain ⟨-, hs⟩ := ite_none_right_eq_some.mp hmove
    cases hs
    have hback : s.back.closeLast.work = s.back.work := rfl
    simp only [work, hphase, hback, ListenerPhase.work]
    omega
  | succ n =>
    obtain ⟨-, hs⟩ := ite_none_right_eq_some.mp hmove
    cases hs
    have hout := s.out.work_passNear (n + 1)
    have hnext : (if c.inspects = true then ListenerPhase.response else .bridging).work ≤ 2 := by
      cases c.inspects <;> decide
    simp only [work, hphase, ListenerPhase.work] at hnext ⊢
    omega

theorem work_readResponse (hphase : s.listener = .response) (hmove : s.readResponse n = some s') :
    s'.work < s.work := by
  cases n with
  | zero =>
    obtain ⟨-, hs⟩ := ite_none_right_eq_some.mp hmove
    cases hs
    simp only [work, hphase, ListenerPhase.work]
    omega
  | succ n =>
    obtain ⟨-, hs⟩ := ite_none_right_eq_some.mp hmove
    cases hs
    have hback := s.back.work_passFar (n + 1)
    simp only [work, hphase, ListenerPhase.work]
    omega

theorem work_accepted (hphase : s.dialer = .waiting) : (s.accepted c).work < s.work := by
  have hback : s.back.closeMiddle.work = s.back.work := rfl
  cases c with
  | fwd =>
    simp only [accepted, work, hphase, DialerPhase.work]
    omega
  | tunnel mode direct =>
    unfold accepted
    cases hqueue : s.out.middle.queue with
    | nil =>
      simp only [work, hphase, hback, DialerPhase.work]
      omega
    | cons b rest =>
      have hout := s.out.work_passFar 1
      have hskip : (skipByte s.out).work + 2 = s.out.work := by
        simp only [skipByte, Line.work, hqueue, tail_cons, length_cons]
        omega
      have hanswer : (answerClose s.back).work = s.back.work + 2 := by
        simp only [answerClose, Line.work, length_append, length_singleton]
        omega
      dsimp only
      by_cases htag : b = tunnelCloseTag
      · rw [if_pos htag]
        simp only [work, hphase, hanswer, DialerPhase.work]
        omega
      · rw [if_neg htag]
        cases direct with
        | true =>
          simp only [if_true, work, hphase, DialerPhase.work]
          omega
        | false =>
          simp only [Bool.false_eq_true, if_false, work, hphase, hback, DialerPhase.work]
          omega

theorem work_setLine {side : Side} {l : Line UInt8} (hlt : l.work < (s.line side).work) :
    (s.setLine side l).work < s.work := by
  cases side with
  | left =>
    have hlt' : l.work < s.out.work := hlt
    simp only [work, setLine]
    omega
  | right =>
    have hlt' : l.work < s.back.work := hlt
    simp only [work, setLine]
    omega

theorem work_move {m : RelayMove} (hmove : s.move c m = some s') : s'.work < s.work := by
  cases m with
  | header n =>
    obtain ⟨hphase, hread⟩ := ite_none_right_eq_some.mp hmove
    exact work_readHeader hphase hread
  | response n =>
    obtain ⟨hphase, hread⟩ := ite_none_right_eq_some.mp hmove
    exact work_readResponse hphase hread
  | accept =>
    obtain ⟨⟨hphase, -⟩, hs⟩ := ite_none_right_eq_some.mp hmove
    cases hs
    exact work_accepted hphase
  | copy relay side m =>
    obtain ⟨-, hcopy⟩ := ite_none_right_eq_some.mp hmove
    obtain ⟨l, hline, rfl⟩ := map_eq_some_iff.mp hcopy
    apply work_setLine
    unfold copyLine at hline
    by_cases heq : relay = side
    · rw [if_pos heq] at hline
      exact work_copyNear hline
    · rw [if_neg heq] at hline
      exact work_copyFar hline
  | drop relay =>
    obtain ⟨⟨hbridges, -⟩, hs⟩ := ite_none_right_eq_some.mp hmove
    cases hs
    cases relay with
    | left =>
      have hphase : s.listener = .bridging := of_decide_eq_true hbridges
      have hout : s.out.closeMiddle.work = s.out.work := rfl
      have hback : s.back.closeLast.work = s.back.work := rfl
      simp only [work, setEnded, setLine, line, Side.other, hout, hback, hphase, ListenerPhase.work]
      omega
    | right =>
      have hphase : s.dialer = .bridging := of_decide_eq_true hbridges
      have hout : s.out.closeLast.work = s.out.work := rfl
      have hback : s.back.closeMiddle.work = s.back.work := rfl
      simp only [work, setEnded, setLine, line, Side.other, hout, hback, hphase, DialerPhase.work]
      omega

end Relayed

/-! ## What the ends have done -/

namespace Relayed

variable {c : Carrier} {s s' : Relayed} {m : RelayMove}

theorem sent_move (hmove : s.move c m = some s') (side : Side) :
    (s'.line side).sent = (s.line side).sent ∧ (s'.line side).first.closed = (s.line side).first.closed := by
  cases m with
  | header n | response n =>
    obtain ⟨-, hread⟩ := ite_none_right_eq_some.mp hmove
    cases n <;> obtain ⟨-, hs⟩ := ite_none_right_eq_some.mp hread <;> cases hs <;>
      cases side <;> exact ⟨rfl, rfl⟩
  | accept =>
    obtain ⟨-, hs⟩ := ite_none_right_eq_some.mp hmove
    cases hs
    unfold accepted
    split
    · cases side <;> exact ⟨rfl, rfl⟩
    · split
      · cases side <;> exact ⟨rfl, rfl⟩
      · split_ifs <;> cases side <;> exact ⟨rfl, rfl⟩
  | copy relay side' m =>
    obtain ⟨-, hcopy⟩ := ite_none_right_eq_some.mp hmove
    obtain ⟨l, hline, rfl⟩ := map_eq_some_iff.mp hcopy
    by_cases hside : side = side'
    · subst hside
      rw [line_setLine_self]
      unfold copyLine at hline
      by_cases hrelay : relay = side
      · rw [if_pos hrelay] at hline
        obtain ⟨hsent, hclosed, -⟩ := copyNear_frame hline
        exact ⟨hsent, hclosed⟩
      · rw [if_neg hrelay] at hline
        obtain ⟨hsent, hfirst, -⟩ := copyFar_frame hline
        exact ⟨hsent, congrArg Pipe.closed hfirst⟩
    · rw [line_setLine_of_ne s l hside]
      exact ⟨rfl, rfl⟩
  | drop relay =>
    obtain ⟨-, hs⟩ := ite_none_right_eq_some.mp hmove
    cases hs
    cases relay <;> cases side <;> exact ⟨rfl, rfl⟩

structure Asked (c : Carrier) (s : Relayed) : Prop where
  spoken : s.back.sent ≠ [] ∨ s.back.first.closed = true → s.out.sent ≠ [] ∨ s.out.first.closed = true
  unclosed : c ≠ .fwd → ∀ side, (s.line side).first.closed = false
  untagged : c ≠ .fwd → s.out.sent.head? ≠ some tunnelCloseTag
  targeted : ∀ mode, c = .tunnel mode false → s.out.sent = []

theorem Asked.move (h : Asked c s) (hmove : s.move c m = some s') : Asked c s' := by
  obtain ⟨hout, hclosed⟩ := sent_move hmove .left
  obtain ⟨hback, hclosed'⟩ := sent_move hmove .right
  change s'.out.sent = s.out.sent at hout
  change s'.back.sent = s.back.sent at hback
  change s'.out.first.closed = s.out.first.closed at hclosed
  change s'.back.first.closed = s.back.first.closed at hclosed'
  constructor
  · rw [hout, hback, hclosed, hclosed']
    exact h.spoken
  · intro hne side
    rw [(sent_move hmove side).2]
    exact h.unclosed hne side
  · rw [hout]
    exact h.untagged
  · rw [hout]
    exact h.targeted

variable {side : Side}

theorem Asked.act (h : Asked c s) {e : EndEvent UInt8} (hok : c.Allows s (.act side e)) :
    Asked c (s.setLine side ((s.line side).put e)) := by
  cases side with
  | left =>
    cases e with
    | send data =>
      refine ⟨?_, ?_, ?_, ?_⟩
      · intro hback
        rcases h.spoken hback with hsent | hclosed
        · exact .inl (append_ne_nil_of_left_ne_nil hsent data)
        · exact .inr hclosed
      · intro hne side
        cases side with
        | left => exact h.unclosed hne .left
        | right => exact h.unclosed hne .right
      · intro hne
        cases c with
        | fwd => exact absurd rfl hne
        | tunnel mode direct =>
          change (s.out.sent ++ data).head? ≠ some tunnelCloseTag
          cases hsent : s.out.sent with
          | nil => exact hok.2.1 hsent
          | cons b rest =>
            have htag := h.untagged hne
            rw [hsent] at htag
            exact htag
      · intro mode hc
        rw [hc] at hok
        cases hok.1
    | close =>
      have hc : c = .fwd := hok
      exact ⟨fun _ => .inr rfl, fun hne => absurd hc hne, fun hne => absurd hc hne,
        fun mode hmode => Carrier.noConfusion (hc.symm.trans hmode)⟩
  | right =>
    have hspoken : s.out.sent ≠ [] ∨ s.out.first.closed = true := hok.1
    refine ⟨fun _ => hspoken, ?_, h.untagged, h.targeted⟩
    intro hne side
    cases side with
    | left => exact h.unclosed hne .left
    | right =>
      cases e with
      | send data => exact h.unclosed hne .right
      | close => exact absurd (hok.2 rfl) hne

/-! ## The invariant -/

/-- **Each direction is sound, and the relays are where the ends have brought them.** -/
structure Carried (c : Carrier) (s : Relayed) : Prop where
  asked : Asked c s
  sound : ∀ side, (s.line side).Sound
  /-- The listening relay does not copy before it has read the beginning, and of the answer. -/
  opening : s.listener = .header ∨ s.listener = .response →
    c ≠ .fwd ∧ s.out.near = .fresh ∧ s.back.far = .fresh ∧ s.back.last.queue = []
  header : s.listener = .header → s.dialer = .waiting ∧ s.out.middle.queue = []
  /-- Before it has read of the answer, there is a stream, and nothing else to answer. -/
  response : s.listener = .response → c.inspects = true ∧
    (s.dialer = .waiting → s.out.middle.queue ≠ []) ∧ (s.out.first.queue = [] ∨ s.back.sent ≠ [])
  waiting : s.dialer = .waiting → s.out.far = .fresh ∧ s.out.last.queue = [] ∧ s.back.near = .fresh
  listenerEnded : s.listener = .ended → s.out.near.ended = true ∧ s.back.far.ended = true
  dialerEnded : s.dialer = .ended → s.out.far.ended = true ∧ s.back.near.ended = true

theorem carried_start (c : Carrier) : Carried c (start c) where
  asked := ⟨fun hback => (hback.elim (absurd rfl) nofun), fun _ side => by cases side <;> rfl, nofun,
    fun _ _ => rfl⟩
  sound := fun side => by cases side <;> exact sound_start
  opening := by
    rintro hphase
    refine ⟨?_, rfl, rfl, rfl⟩
    rintro rfl
    rcases hphase with hheader | hresponse
    · cases hheader
    · cases hresponse
  header := fun _ => ⟨rfl, rfl⟩
  response := by
    intro hphase
    cases c with
    | fwd => cases hphase
    | tunnel mode direct => cases mode <;> cases hphase
  waiting := fun _ => ⟨rfl, rfl, rfl⟩
  listenerEnded := by
    intro hphase
    cases c with
    | fwd => cases hphase
    | tunnel mode direct => cases mode <;> cases hphase
  dialerEnded := nofun

theorem sound_setLine (h : ∀ side, (s.line side).Sound) {l : Line UInt8} (hl : l.Sound)
    (side' : Side) : ((s.setLine side l).line side').Sound := by
  by_cases heq : side' = side
  · rw [heq, line_setLine_self]
    exact hl
  · rw [line_setLine_of_ne s l heq]
    exact h side'

namespace Carried

section

variable (h : Carried c s)
include h

theorem shuts (relay side : Side) :
    (c.mode relay side).shuts = true ∨ (s.line side).first.closed = false := by
  cases c with
  | fwd => exact .inl rfl
  | tunnel mode direct => exact .inr (h.asked.unclosed nofun side)

theorem middle_open (hne : c ≠ .fwd) (side : Side) : (s.line side).middle.closed = false := by
  by_contra hclosed
  rw [Bool.not_eq_false, (h.sound side).middle_closed] at hclosed
  cases ((h.sound side).near_ended hclosed).1.symm.trans (h.asked.unclosed hne side)

variable {side : Side} {l : Line UInt8}

theorem act {e : EndEvent UInt8} (hok : c.Allows s (.act side e))
    (hact : (s.line side).act e = some l) :
    Carried c (s.setLine side l) ∧ (s.view side).step (.act e) = some l.view := by
  obtain ⟨hsound, hstep⟩ := (h.sound side).act hact
  obtain ⟨-, hput⟩ := ite_none_left_eq_some.mp hact
  cases hput
  refine ⟨?_, hstep⟩
  cases side with
  | left =>
    cases e with
    | send data =>
      refine ⟨h.asked.act hok, sound_setLine h.sound hsound, h.opening, h.header, ?_, h.waiting,
        h.listenerEnded, h.dialerEnded⟩
      intro hphase
      obtain ⟨hinspects, hstream, -⟩ := h.response hphase
      refine ⟨hinspects, hstream, .inr ?_⟩
      -- what is sent after the beginning waits for the answer
      cases c with
      | fwd => cases hinspects
      | tunnel mode direct =>
        refine (hok.2.2 hinspects).resolve_left ?_
        intro hheader
        cases hheader.symm.trans hphase
    | close =>
      exact ⟨h.asked.act hok, sound_setLine h.sound hsound, h.opening, h.header, h.response, h.waiting,
        h.listenerEnded, h.dialerEnded⟩
  | right =>
    cases e with
    | send data =>
      refine ⟨h.asked.act hok, sound_setLine h.sound hsound, h.opening, h.header, ?_, h.waiting,
        h.listenerEnded, h.dialerEnded⟩
      intro hphase
      obtain ⟨hinspects, hstream, hfirst⟩ := h.response hphase
      exact ⟨hinspects, hstream, hfirst.imp_right fun hsent =>
        append_ne_nil_of_left_ne_nil hsent data⟩
    | close =>
      exact ⟨h.asked.act hok, sound_setLine h.sound hsound, h.opening, h.header, h.response, h.waiting,
        h.listenerEnded, h.dialerEnded⟩

variable {m : CopyMove}

theorem copyListener (hlistener : s.listener = .bridging) (hasked : Asked c (s.setLine side l))
    (hline : s.copyLine c .left side m = some l) :
    Carried c (s.setLine side l) ∧ (s.view side).Delivers l.view := by
  have hheader : s.listener ≠ .header := ne_of_eq_of_ne hlistener nofun
  have hresponse : s.listener ≠ .response := ne_of_eq_of_ne hlistener nofun
  have hended : s.listener ≠ .ended := ne_of_eq_of_ne hlistener nofun
  cases side with
  | left =>
    obtain ⟨hsound, hview⟩ := (h.sound .left).copyNear (h.shuts .left .left) hline
    obtain ⟨hsent, hclosed, hfar, hlast⟩ := copyNear_frame hline
    refine ⟨⟨hasked, sound_setLine h.sound hsound, fun hp => (hp.elim hheader hresponse).elim,
      fun hp => absurd hp hheader, fun hp => absurd hp hresponse, ?_, fun hp => absurd hp hended, ?_⟩, ?_⟩
    · intro hp
      obtain ⟨hfresh, hqueue, hnear⟩ := h.waiting hp
      exact ⟨hfar.trans hfresh, (congrArg Pipe.queue hlast).trans hqueue, hnear⟩
    · intro hp
      obtain ⟨hended', hnear⟩ := h.dialerEnded hp
      exact ⟨(congrArg ended hfar).trans hended', hnear⟩
    · exact hview ▸ .stays
  | right =>
    obtain ⟨hsound, hdel⟩ := (h.sound .right).copyFar (h.shuts .left .right) hline
    obtain ⟨hsent, hfirst, hnear⟩ := copyFar_frame hline
    refine ⟨⟨hasked, sound_setLine h.sound hsound, fun hp => (hp.elim hheader hresponse).elim,
      fun hp => absurd hp hheader, fun hp => absurd hp hresponse, ?_, fun hp => absurd hp hended, ?_⟩, hdel⟩
    · intro hp
      obtain ⟨hfresh, hqueue, hfresh'⟩ := h.waiting hp
      exact ⟨hfresh, hqueue, hnear.trans hfresh'⟩
    · intro hp
      obtain ⟨hfar, hended'⟩ := h.dialerEnded hp
      exact ⟨hfar, (congrArg ended hnear).trans hended'⟩

theorem copyDialer (hdialer : s.dialer = .bridging) (hasked : Asked c (s.setLine side l))
    (hline : s.copyLine c .right side m = some l) :
    Carried c (s.setLine side l) ∧ (s.view side).Delivers l.view := by
  have hwaiting : s.dialer ≠ .waiting := ne_of_eq_of_ne hdialer nofun
  have hended : s.dialer ≠ .ended := ne_of_eq_of_ne hdialer nofun
  have hheader : s.listener ≠ .header := fun hp => hwaiting (h.header hp).1
  cases side with
  | left =>
    obtain ⟨hsound, hdel⟩ := (h.sound .left).copyFar (h.shuts .right .left) hline
    obtain ⟨hsent, hfirst, hnear⟩ := copyFar_frame hline
    refine ⟨⟨hasked, sound_setLine h.sound hsound, ?_, fun hp => absurd hp hheader, ?_,
      fun hp => absurd hp hwaiting, ?_, fun hp => absurd hp hended⟩, hdel⟩
    · intro hp
      obtain ⟨hne, hfresh, hrest⟩ := h.opening hp
      exact ⟨hne, hnear.trans hfresh, hrest⟩
    · intro hp
      obtain ⟨hinspects, -, hqueue⟩ := h.response hp
      refine ⟨hinspects, fun hp => absurd hp hwaiting, ?_⟩
      exact hqueue.imp_left (congrArg Pipe.queue hfirst).trans
    · intro hp
      obtain ⟨hended', hfar⟩ := h.listenerEnded hp
      exact ⟨(congrArg ended hnear).trans hended', hfar⟩
  | right =>
    obtain ⟨hsound, hview⟩ := (h.sound .right).copyNear (h.shuts .right .right) hline
    obtain ⟨hsent, hclosed, hfar, hlast⟩ := copyNear_frame hline
    refine ⟨⟨hasked, sound_setLine h.sound hsound, ?_, fun hp => absurd hp hheader, ?_,
      fun hp => absurd hp hwaiting, ?_, fun hp => absurd hp hended⟩, ?_⟩
    · intro hp
      obtain ⟨hne, hnear, hfresh, hqueue⟩ := h.opening hp
      exact ⟨hne, hnear, hfar.trans hfresh, (congrArg Pipe.queue hlast).trans hqueue⟩
    · intro hp
      obtain ⟨hinspects, -, hqueue⟩ := h.response hp
      refine ⟨hinspects, fun hp => absurd hp hwaiting, ?_⟩
      exact hqueue.imp_right fun hne heq => hne (hsent.symm.trans heq)
    · intro hp
      obtain ⟨hnear, hended'⟩ := h.listenerEnded hp
      exact ⟨hnear, (congrArg ended hfar).trans hended'⟩
    · exact hview ▸ .stays

variable {n : Nat}

theorem readHeader (hlistener : s.listener = .header) (hok : c.Allows s (.relay (.header n)))
    (hasked : Asked c s') (hread : s.readHeader c n = some s') : Carried c s' ∧ s'.view = s.view := by
  obtain ⟨hne, hnear, hfar, hlast⟩ := h.opening (.inl hlistener)
  cases n with
  | zero =>
    -- nothing is closed in a tunnel
    obtain ⟨⟨-, hclosed⟩, -⟩ := ite_none_right_eq_some.mp hread
    cases hclosed.symm.trans (h.asked.unclosed hne .left)
  | succ n =>
    obtain ⟨⟨-, hle⟩, hs⟩ := ite_none_right_eq_some.mp hread
    cases hs
    have hsound : (s.out.passNear (n + 1)).Sound := (h.sound .left).passNear hnear (n + 1)
    have hview : ({ s with
        out := s.out.passNear (n + 1)
        listener := if c.inspects then .response else .bridging } : Relayed).view = s.view := by
      funext side
      cases side <;> rfl
    refine ⟨⟨hasked, ?_, fun _ => ⟨hne, hnear, hfar, hlast⟩, ?_, ?_, h.waiting, ?_, h.dialerEnded⟩, hview⟩
    · intro side
      cases side with
      | left => exact hsound
      | right => exact h.sound .right
    · intro hp
      split at hp <;> cases hp
    · intro hp
      have hinspects : c.inspects = true := by
        by_contra hfalse
        rw [if_neg hfalse] at hp
        cases hp
      refine ⟨hinspects, ?_, ?_⟩
      · exact fun _ => append_ne_nil_of_right_ne_nil _ (take_ne_nil n.succ_pos hle)
      · exact (hok hinspects).imp_left fun hlength => drop_eq_nil_of_le hlength.ge
    · intro hp
      split at hp <;> cases hp

theorem readResponse (hlistener : s.listener = .response) (hasked : Asked c s')
    (hread : s.readResponse n = some s') :
    Carried c s' ∧ (s.view .right).Delivers (s'.view .right) ∧ s'.view .left = s.view .left := by
  obtain ⟨hne, hnear, hfar, hlast⟩ := h.opening (.inr hlistener)
  cases n with
  | zero =>
    -- nothing is closed in a tunnel
    obtain ⟨⟨-, hclosed⟩, -⟩ := ite_none_right_eq_some.mp hread
    cases hclosed.symm.trans (h.middle_open hne .right)
  | succ n =>
    obtain ⟨⟨-, hle⟩, hs⟩ := ite_none_right_eq_some.mp hread
    cases hs
    obtain ⟨hsound, hdel⟩ := (h.sound .right).passFar hfar (Nat.succ_pos n) hle
    refine ⟨⟨hasked, ?_, fun hp => hp.elim nofun nofun, nofun, nofun, h.waiting, nofun,
      h.dialerEnded⟩, hdel, rfl⟩
    intro side
    cases side with
    | left => exact h.sound .left
    | right => exact hsound

theorem sent_of_waiting (hdialer : s.dialer = .waiting) :
    s.out.middle.queue ++ (s.out.near.held ++ s.out.first.queue) = s.out.sent := by
  obtain ⟨hfar, hlast, -⟩ := h.waiting hdialer
  have hconserved := (h.sound .left).conserved
  change s.out.last.queue ++ (s.out.far.held ++ _) = s.out.sent at hconserved
  rw [hlast, hfar] at hconserved
  exact hconserved

theorem accepted (hdialer : s.dialer = .waiting)
    (hvisible : s.out.middle.queue ≠ [] ∨ s.out.middle.closed = true) (hasked : Asked c (s.accepted c)) :
    Carried c (s.accepted c) ∧ (s.view .left).Delivers ((s.accepted c).view .left) ∧
      (s.accepted c).view .right = s.view .right := by
  obtain ⟨hfar, hlast, hnear⟩ := h.waiting hdialer
  cases c with
  | fwd =>
    refine ⟨⟨hasked, h.sound, h.opening, ?_, ?_, nofun, h.listenerEnded, nofun⟩, .stays, rfl⟩
    · exact fun hp => absurd rfl (h.opening (.inl hp)).1
    · exact fun hp => absurd rfl (h.opening (.inr hp)).1
  | tunnel mode direct =>
    have hstream : s.out.middle.queue ≠ [] := by
      refine hvisible.resolve_right fun hclosed => ?_
      cases hclosed.symm.trans (h.middle_open nofun .left)
    obtain ⟨b, rest, hqueue⟩ := exists_cons_of_ne_nil hstream
    have hsent := h.sent_of_waiting hdialer
    rw [hqueue, cons_append] at hsent
    have htag : b ≠ tunnelCloseTag := by
      rintro rfl
      exact h.asked.untagged nofun (by rw [← hsent]; rfl)
    have hdirect : direct = true := by
      by_contra hfalse
      rw [Bool.not_eq_true] at hfalse
      rw [h.asked.targeted mode (hfalse ▸ rfl)] at hsent
      cases hsent
    have haccepted : s.accepted (.tunnel mode direct)
        = { s with out := s.out.passFar 1, dialer := .bridging } := by
      unfold Relayed.accepted
      rw [hqueue]
      dsimp only
      rw [if_neg htag, if_pos hdirect]
    rw [haccepted] at hasked ⊢
    have hle : 1 ≤ s.out.middle.queue.length := length_pos_iff.mpr hstream
    obtain ⟨hsound, hdel⟩ := (h.sound .left).passFar hfar one_pos hle
    refine ⟨⟨hasked, ?_, h.opening, ?_, ?_, nofun, h.listenerEnded, nofun⟩, hdel, rfl⟩
    · intro side
      cases side with
      | left => exact hsound
      | right => exact h.sound .right
    · exact fun hp => absurd (h.header hp).2 hstream
    · intro hp
      obtain ⟨hinspects, -, hfirst⟩ := h.response hp
      exact ⟨hinspects, nofun, hfirst⟩

theorem drop {relay : Side} (hbridges : s.bridges relay = true)
    (hnear : (s.line relay).near.ended = true) (hfar : (s.line relay.other).far.ended = true)
    (hasked : Asked c (s.setEnded relay)) : Carried c (s.setEnded relay) := by
  cases relay with
  | left =>
    exact ⟨hasked, h.sound, fun hp => hp.elim nofun nofun, nofun, nofun, h.waiting,
      fun _ => ⟨hnear, hfar⟩, h.dialerEnded⟩
  | right =>
    have hdialer : s.dialer = .bridging := of_decide_eq_true hbridges
    have hwaiting : s.dialer ≠ .waiting := ne_of_eq_of_ne hdialer nofun
    refine ⟨hasked, h.sound, h.opening, fun hp => absurd (h.header hp).1 hwaiting, ?_, nofun,
      h.listenerEnded, fun _ => ⟨hfar, hnear⟩⟩
    intro hp
    obtain ⟨hinspects, -, hfirst⟩ := h.response hp
    exact ⟨hinspects, nofun, hfirst⟩

theorem move {m : RelayMove} (hok : c.Allows s (.relay m))
    (hmove : s.move c m = some s') :
    Carried c s' ∧ ∃ side f, (s.view side).Delivers f ∧ s'.view = Function.update s.view side f := by
  have hasked : Asked c s' := h.asked.move hmove
  cases m with
  | header n =>
    obtain ⟨hphase, hread⟩ := ite_none_right_eq_some.mp hmove
    obtain ⟨hcarried, hview⟩ := h.readHeader hphase hok hasked hread
    exact ⟨hcarried, .left, _, .stays, hview.trans (update_eq_self _ _).symm⟩
  | response n =>
    obtain ⟨hphase, hread⟩ := ite_none_right_eq_some.mp hmove
    obtain ⟨hcarried, hdel, hleft⟩ := h.readResponse hphase hasked hread
    refine ⟨hcarried, .right, _, hdel, funext fun side => ?_⟩
    cases side with
    | left => exact hleft
    | right => rfl
  | accept =>
    obtain ⟨⟨hphase, hvisible⟩, hs⟩ := ite_none_right_eq_some.mp hmove
    cases hs
    obtain ⟨hcarried, hdel, hright⟩ := h.accepted hphase hvisible hasked
    refine ⟨hcarried, .left, _, hdel, funext fun side => ?_⟩
    cases side with
    | left => rfl
    | right => exact hright
  | copy relay side m =>
    obtain ⟨hbridges, hcopy⟩ := ite_none_right_eq_some.mp hmove
    obtain ⟨l, hline, rfl⟩ := map_eq_some_iff.mp hcopy
    have hstep : Carried c (s.setLine side l) ∧ (s.view side).Delivers l.view := by
      cases relay with
      | left => exact h.copyListener (of_decide_eq_true hbridges) hasked hline
      | right => exact h.copyDialer (of_decide_eq_true hbridges) hasked hline
    exact ⟨hstep.1, side, _, hstep.2, view_setLine s side l⟩
  | drop relay =>
    obtain ⟨⟨hbridges, hnear, hfar⟩, hs⟩ := ite_none_right_eq_some.mp hmove
    cases hs
    -- the loops have passed the ends on, so that there is nothing left to close
    have hlines : (s.setLine relay (s.line relay).closeMiddle).setLine relay.other
        (s.line relay.other).closeLast = s := by
      rw [(h.sound relay).closeMiddle_eq hnear, (h.sound relay.other).closeLast_eq hfar]
      cases relay <;> rfl
    rw [hlines] at hasked ⊢
    refine ⟨h.drop hbridges hnear hfar hasked, .left, _, .stays, ?_⟩
    rw [update_eq_self]
    cases relay <;> rfl

/-- **What happens keeps the invariant, and may happen to a direct connection**, with the same actions of
its ends. -/
theorem step {e : RelayedEvent} (hok : c.Allows s e) (hstep : s.step c e = some s') :
    Carried c s' ∧ ∃ es, exec Duplex.step s.view es = some s'.view ∧ es.flatMap Duplex.acts = e.acts := by
  cases e with
  | act side e =>
    obtain ⟨l, hact, rfl⟩ := map_eq_some_iff.mp hstep
    obtain ⟨hcarried, hflow⟩ := h.act hok hact
    refine ⟨hcarried, [(side, .act e)], ?_, rfl⟩
    rw [exec_cons, Duplex.step_side hflow, s.view_setLine]
    rfl
  | relay m =>
    obtain ⟨hcarried, side, f, hdel, hview⟩ := h.move hok hstep
    obtain ⟨es, hexec, hacts⟩ := Duplex.exec_delivers s.view side hdel
    exact ⟨hcarried, es, hview ▸ hexec, hacts⟩

end

variable (hfinal : Final (Relayed.move c) s)
include hfinal

/-! ## Relays that wait -/

theorem stuck_near (side : Side) (hbridges : s.bridges side = true) :
    Copier.Stuck (s.line side).first (s.line side).near := by
  rw [← stuck_iff (c.mode side side) _ _ (s.line side).middle]
  intro m
  have hnone := hfinal (.copy side side m)
  rw [Relayed.move, if_pos hbridges, map_eq_none_iff, copyLine, if_pos rfl] at hnone
  exact map_eq_none_iff.mp hnone

theorem stuck_far (relay side : Side) (hne : relay ≠ side)
    (hbridges : s.bridges relay = true) : Copier.Stuck (s.line side).middle (s.line side).far := by
  rw [← stuck_iff (c.mode relay side) _ _ (s.line side).last]
  intro m
  have hnone := hfinal (.copy relay side m)
  rw [Relayed.move, if_pos hbridges, map_eq_none_iff, copyLine, if_neg hne] at hnone
  exact map_eq_none_iff.mp hnone

theorem stuck_header (h : Carried c s) (hphase : s.listener = .header) :
    Copier.Stuck s.out.first s.out.near := by
  obtain ⟨hne, hnear, -⟩ := h.opening (.inl hphase)
  refine .inr ⟨congrArg held hnear, ?_, h.asked.unclosed hne .left⟩
  by_contra hqueue
  have hnone := hfinal (.header 1)
  have hle : 0 + 1 ≤ s.out.first.queue.length := length_pos_iff.mpr hqueue
  rw [Relayed.move, if_pos hphase, Relayed.readHeader, if_pos ⟨by decide, hle⟩] at hnone
  cases hnone

theorem stuck_response (h : Carried c s)
    (hphase : s.listener = .response) : Copier.Stuck s.back.middle s.back.far := by
  obtain ⟨hne, -, hfar, -⟩ := h.opening (.inr hphase)
  have hqueue : s.back.middle.queue = [] := by
    by_contra hqueue
    have hnone := hfinal (.response 1)
    have hle : 0 + 1 ≤ s.back.middle.queue.length := length_pos_iff.mpr hqueue
    rw [Relayed.move, if_pos hphase, Relayed.readResponse, if_pos ⟨by decide, hle⟩] at hnone
    cases hnone
  exact .inr ⟨congrArg held hfar, hqueue, h.middle_open hne .right⟩

theorem silent_of_waiting (hphase : s.dialer = .waiting) :
    s.out.middle.queue = [] ∧ s.out.middle.closed = false := by
  have hnone := hfinal .accept
  rw [Relayed.move] at hnone
  have hinvisible : ¬ (s.out.middle.queue ≠ [] ∨ s.out.middle.closed = true) := by
    intro hvisible
    rw [if_pos ⟨hphase, hvisible⟩] at hnone
    cases hnone
  rw [not_or, not_not, Bool.not_eq_true] at hinvisible
  exact hinvisible

theorem complete_of_waiting (h : Carried c s)
    (hphase : s.dialer = .waiting) (side : Side) : (s.view side).Complete := by
  obtain ⟨hfar, hlast, -⟩ := h.waiting hphase
  obtain ⟨hqueue, hopen⟩ := silent_of_waiting hfinal hphase
  have hnear : Copier.Stuck s.out.first s.out.near := by
    cases hlistener : s.listener with
    | header => exact h.stuck_header hfinal hlistener
    | response => exact absurd hqueue ((h.response hlistener).2.1 hphase)
    | bridging => exact stuck_near hfinal .left (decide_eq_true hlistener)
    | ended => exact .inl (h.listenerEnded hlistener).1
  have hout : s.out.view.Complete :=
    (h.sound .left).complete hnear (.inr ⟨congrArg held hfar, hqueue, hopen⟩)
  cases side with
  | left => exact hout
  | right =>
    have hsent : s.out.sent = [] := hout.1.symm.trans hlast
    have hclosed : s.out.first.closed = false := by
      refine hout.2.symm.trans ((h.sound .left).last_closed.trans ?_)
      exact congrArg ended hfar
    have hsilent : ¬ (s.back.sent ≠ [] ∨ s.back.first.closed = true) := by
      intro hback
      rcases h.asked.spoken hback with hne | htrue
      · exact hne hsent
      · cases hclosed.symm.trans htrue
    rw [not_or, not_not, Bool.not_eq_true] at hsilent
    exact (h.sound .right).complete_of_silent hsilent.1 hsilent.2

/-- **If both relays wait, everything has been received.** -/
theorem complete (h : Carried c s) (side : Side) : (s.view side).Complete := by
  by_cases hphase : s.dialer = .waiting
  · exact h.complete_of_waiting hfinal hphase side
  · have hdialer : Copier.Stuck s.out.middle s.out.far ∧ Copier.Stuck s.back.first s.back.near := by
      cases hdialer : s.dialer with
      | waiting => exact absurd hdialer hphase
      | bridging =>
        have hbridges : s.bridges .right = true := decide_eq_true hdialer
        exact ⟨stuck_far hfinal .right .left nofun hbridges, stuck_near hfinal .right hbridges⟩
      | ended => exact (h.dialerEnded hdialer).imp .inl .inl
    have hlistener : Copier.Stuck s.out.first s.out.near ∧ Copier.Stuck s.back.middle s.back.far := by
      cases hlistener : s.listener with
      | header => exact absurd (h.header hlistener).1 hphase
      | response =>
        -- the answer has not come, so that there is none, and nothing else was sent
        have hstuck := h.stuck_response hfinal hlistener
        obtain ⟨hne, hnear, -, hlast⟩ := h.opening (.inr hlistener)
        have hback : s.back.view.Complete := (h.sound .right).complete hdialer.2 hstuck
        have hfirst : s.out.first.queue = [] :=
          (h.response hlistener).2.2.resolve_right (not_not_intro (hback.1.symm.trans hlast))
        exact ⟨.inr ⟨congrArg held hnear, hfirst, h.asked.unclosed hne .left⟩, hstuck⟩
      | bridging =>
        have hbridges : s.bridges .left = true := decide_eq_true hlistener
        exact ⟨stuck_near hfinal .left hbridges, stuck_far hfinal .left .right nofun hbridges⟩
      | ended => exact (h.listenerEnded hlistener).imp .inl .inl
    cases side with
    | left => exact (h.sound .left).complete hlistener.1 hdialer.1
    | right => exact (h.sound .right).complete hdialer.2 hlistener.2

end Carried

end Relayed

/-! ## Like a direct connection -/

/-- **A connection that `seam tunnel` or `seam fwd` carries is like a direct one**, if its ends do what is
allowed: it refines a direct connection, what is sent is received in order, each direction ends when it is
closed, and when both relays wait, everything has been received. -/
theorem like_direct (c : Carrier) {events : List RelayedEvent} {s : Relayed}
    (hmeets : Meets (Relayed.step c) c.Allows (Relayed.start c) events)
    (hrun : exec (Relayed.step c) (Relayed.start c) events = some s) : s.LikeDirect c events := by
  have hstart : Relayed.Carried c (.start c) ∧ (fun _ => Flow.start) = (Relayed.start c).view := by
    refine ⟨Relayed.carried_start c, ?_⟩
    funext side
    cases side <;> rfl
  have hmatch : ∀ s e s' d, Relayed.Carried c s ∧ d = s.view → c.Allows s e → s.step c e = some s' →
      ∃ es d', exec Duplex.step d es = some d' ∧ es.flatMap Duplex.acts = e.acts ∧
        Relayed.Carried c s' ∧ d' = s'.view := by
    rintro s e s' d ⟨hcarried, rfl⟩ hok hstep
    obtain ⟨hcarried', es, hexec, hacts⟩ := hcarried.step hok hstep
    exact ⟨es, _, hexec, hacts, hcarried', rfl⟩
  obtain ⟨es, d, hexec, hacts, hcarried, rfl⟩ :=
    exec_simulation_of_meets RelayedEvent.acts Duplex.acts _ hmatch hstart hmeets hrun
  exact {
    refines := ⟨es, hexec, hacts⟩
    inOrder := fun side => (hcarried.sound side).received_of_sound
    ends := fun side => (hcarried.sound side).closed_of_ended
    settles := ⟨s.work, fun moves s' => exec_length_le Relayed.work fun _ _ _ => Relayed.work_move⟩
    forwarded := hcarried.complete }

def halfClosed : List RelayedEvent :=
  [.act .left (.send [1, 2]), .relay (.copy .left .left (.read 2)), .relay (.copy .left .left (.write 2)),
    .relay .accept, .relay (.copy .right .left (.read 2)), .act .left .close,
    .relay (.copy .right .left (.write 2)), .relay (.copy .left .left .finish),
    .relay (.copy .right .left .finish), .act .right (.send [9]),
    .relay (.copy .right .right (.read 1)), .relay (.copy .right .right (.write 1)),
    .relay (.copy .left .right (.read 1)), .relay (.copy .left .right (.write 1))]

/-- The left end has closed, and the right end goes on. -/
theorem like_direct_half_closed :
    ∃ s, exec (Relayed.step .fwd) (.start .fwd) halfClosed = some s ∧ s.LikeDirect .fwd halfClosed ∧
      s.view .left = ⟨[1, 2], true, [1, 2], true⟩ ∧ s.view .right = ⟨[9], false, [9], false⟩ := by
  refine exists_exec_of (p := fun s => s.view .left = ⟨[1, 2], true, [1, 2], true⟩ ∧
    s.view .right = ⟨[9], false, [9], false⟩) (by decide +kernel) ?_
  intro s hrun hview
  exact ⟨like_direct .fwd (by decide +kernel) hrun, hview⟩

/-! ## Unlike a direct connection -/

namespace Relayed

variable {c : Carrier} {s : Relayed}

theorem final_of_stuck (hlistener : s.listener = .bridging)
    (hwaiting : s.dialer = .waiting → s.out.middle = ⟨[], false⟩)
    (hcopy : ∀ relay side m, s.bridges relay = true → s.copyLine c relay side m = none)
    (hdrop : ∀ relay, s.bridges relay = true → (s.line relay.other).far.ended = false) :
    Final (move c) s := by
  intro m
  cases m with
  | header n =>
    apply if_neg
    intro hheader
    cases hlistener.symm.trans hheader
  | response n =>
    apply if_neg
    intro hresponse
    cases hlistener.symm.trans hresponse
  | accept =>
    apply if_neg
    rintro ⟨hphase, hvisible⟩
    rw [hwaiting hphase] at hvisible
    rcases hvisible with hqueue | hclosed
    · exact hqueue rfl
    · cases hclosed
  | copy relay side m =>
    by_cases hbridges : s.bridges relay = true
    · simp [move, hbridges, hcopy relay side m hbridges]
    · exact if_neg hbridges
  | drop relay =>
    apply if_neg
    rintro ⟨hbridges, -, hfar⟩
    rw [hdrop relay hbridges] at hfar
    cases hfar

theorem copyLine_of_stuck {relay side : Side} (hnear : relay = side →
      Copier.Stuck (s.line side).first (s.line side).near)
    (hfar : relay ≠ side → Copier.Stuck (s.line side).middle (s.line side).far) (m : CopyMove) :
    s.copyLine c relay side m = none := by
  unfold copyLine
  by_cases heq : relay = side
  · rw [if_pos heq]
    exact map_eq_none_iff.mpr ((stuck_iff _ _ _ _).mpr (hnear heq) m)
  · rw [if_neg heq]
    exact map_eq_none_iff.mpr ((stuck_iff _ _ _ _).mpr (hfar heq) m)

def greeting : Relayed := (start .fwd).setLine .right (Line.start.put (.send [9]))

/-- **A target that speaks first is not heard**: nothing connects to it. -/
theorem final_greeting : Final (move .fwd) greeting := by
  refine final_of_stuck rfl (fun _ => rfl) ?_ ?_
  · intro relay side m hbridges
    cases relay with
    | left =>
      have hnear : Copier.Stuck greeting.out.first greeting.out.near := .inr ⟨rfl, rfl, rfl⟩
      have hfar : Copier.Stuck greeting.back.middle greeting.back.far := .inr ⟨rfl, rfl, rfl⟩
      cases side with
      | left =>
        apply copyLine_of_stuck
        · exact fun _ => hnear
        · exact absurd rfl
      | right =>
        apply copyLine_of_stuck
        · nofun
        · exact fun _ => hfar
    | right => cases hbridges
  · intro relay hbridges
    cases relay with
    | left => rfl
    | right => cases hbridges

def halfCloses : List RelayedEvent :=
  [.act .left (.send [5]), .relay (.copy .left .left (.read 1)), .relay (.copy .left .left (.write 1)),
    .relay .accept, .act .left .close, .relay (.copy .left .left .finish)]

def halfOpen : Relayed where
  out := ⟨[5], ⟨[], true⟩, ⟨[], true⟩, ⟨[], false⟩, .fresh, ⟨[5], false⟩⟩
  back := .start
  listener := .bridging
  dialer := .bridging

/-- **A direction that is closed in a tunnel does not end**: the first relay waits for the second, and the
second for the first. -/
theorem final_halfOpen : Final (move (.tunnel .tcp true)) halfOpen := by
  refine final_of_stuck rfl nofun ?_ ?_
  · intro relay side m _
    refine copyLine_of_stuck (fun _ => ?_) (fun _ => ?_) m
    · cases side with
      | left => exact .inl rfl
      | right => exact .inr ⟨rfl, rfl, rfl⟩
    · cases side <;> exact .inr ⟨rfl, rfl, rfl⟩
  · intro relay _
    cases relay <;> rfl

end Relayed

/-- **Connections that are not like direct ones**: a target that speaks first through `seam fwd`; a
direction that is closed in a tunnel; a first byte that a tunnel takes for its own, and answers; and a
tunnel whose dialing relay was started without a target. -/
theorem unlike_direct :
    (∃ s, exec (Relayed.step .fwd) (.start .fwd) [.act .right (.send [9])] = some s ∧
      ¬ s.LikeDirect .fwd [.act .right (.send [9])]) ∧
    (∃ s, exec (Relayed.step (.tunnel .tcp true)) (.start (.tunnel .tcp true)) Relayed.halfCloses = some s ∧
      ¬ s.LikeDirect (.tunnel .tcp true) Relayed.halfCloses) ∧
    (∃ events s, exec (Relayed.step (.tunnel .tcp true)) (.start (.tunnel .tcp true))
        (.act .left (.send [tunnelCloseTag]) :: events) = some s ∧
      ¬ s.LikeDirect (.tunnel .tcp true) (.act .left (.send [tunnelCloseTag]) :: events)) ∧
    ∃ events s, exec (Relayed.step (.tunnel .tcp false)) (.start (.tunnel .tcp false))
        (.act .left (.send [5]) :: events) = some s ∧
      ¬ s.LikeDirect (.tunnel .tcp false) (.act .left (.send [5]) :: events) := by
  refine ⟨⟨Relayed.greeting, rfl, ?_⟩, ⟨Relayed.halfOpen, by decide +kernel, ?_⟩, ?_, ?_⟩
  · intro hlike
    cases (hlike.forwarded Relayed.final_greeting .right).1
  · intro hlike
    cases (hlike.forwarded Relayed.final_halfOpen .left).2
  · obtain ⟨s, hrun, hview⟩ : ∃ s, exec (Relayed.step (.tunnel .tcp true)) (.start (.tunnel .tcp true))
        [.act .left (.send [tunnelCloseTag]), .relay (.copy .left .left (.read 1)),
          .relay (.copy .left .left (.write 1)), .relay .accept, .relay (.copy .left .right (.read 1)),
          .relay (.copy .left .right (.write 1))] = some s ∧
        s.view .right = ⟨[], false, [tunnelCloseAckTag], false⟩ := by
      decide +kernel
    refine ⟨_, s, hrun, ?_⟩
    intro hlike
    have horder := hlike.inOrder .right
    rw [hview] at horder
    cases prefix_nil.mp horder
  · obtain ⟨s, hrun, hview⟩ : ∃ s, exec (Relayed.step (.tunnel .tcp false)) (.start (.tunnel .tcp false))
        [.act .left (.send [5]), .relay (.copy .left .left (.read 1)),
          .relay (.copy .left .left (.write 1)), .relay .accept,
          .relay (.copy .left .right .finish)] = some s ∧ s.view .right = ⟨[], false, [], true⟩ := by
      decide +kernel
    refine ⟨_, s, hrun, ?_⟩
    intro hlike
    have hends := hlike.ends .right
    rw [hview] at hends
    cases (hends rfl).1

end SeamProtocol
