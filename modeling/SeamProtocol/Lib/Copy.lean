import SeamProtocol.Lib.Dialogue

/-! # Copying from stream to stream

A direct connection has a flow in each direction: what was sent, and what of it was received. A relayed
one has two relays in between, which copy from one stream to the next, with a buffer. -/

namespace Lib

open List Option

/-! ## A direct connection -/

def Side.other : Side → Side
  | .left => .right
  | .right => .left

variable {α : Type*}

inductive EndEvent (α : Type*) where
  | send (data : List α)
  | close
  deriving DecidableEq

structure Flow (α : Type*) where
  sent : List α
  closed : Bool
  received : List α
  ended : Bool
  deriving DecidableEq

inductive FlowEvent (α : Type*) where
  | act (e : EndEvent α)
  | receive (n : Nat)
  | finish

namespace Flow

def start : Flow α := ⟨[], false, [], false⟩

def put (f : Flow α) : EndEvent α → Flow α
  | .send data => { f with sent := f.sent ++ data }
  | .close => { f with closed := true }

/-- **One direction of a direct connection**: what is sent is received in order, and then the end. -/
def step (f : Flow α) : FlowEvent α → Option (Flow α)
  | .act e => if f.closed = true then none else some (f.put e)
  | .receive n =>
    if 0 < n ∧ f.received.length + n ≤ f.sent.length then
      some { f with received := f.sent.take (f.received.length + n) }
    else none
  | .finish =>
    if f.closed = true ∧ f.received.length = f.sent.length ∧ f.ended = false then
      some { f with ended := true }
    else none

theorem step_receive (f : Flow α) {data rest : List α} (hne : data ≠ [])
    (hsent : f.received ++ data ++ rest = f.sent) :
    f.step (.receive data.length) = some { f with received := f.received ++ data } := by
  have hlength : (f.received ++ data).length = f.received.length + data.length := length_append
  have htake : f.sent.take (f.received.length + data.length) = f.received ++ data := by
    rw [← hsent, ← hlength, take_left']
    rfl
  have hle : f.received.length + data.length ≤ f.sent.length := by
    simp [← hsent]
  rw [step, if_pos ⟨length_pos_iff.mpr hne, hle⟩, htake]

inductive Delivers (f : Flow α) : Flow α → Prop where
  | stays : Delivers f f
  | receives (n : Nat) {f' : Flow α} : f.step (.receive n) = some f' → Delivers f f'
  | finishes {f' : Flow α} : f.step .finish = some f' → Delivers f f'

def Complete (f : Flow α) : Prop := f.received = f.sent ∧ f.ended = f.closed

end Flow

namespace Duplex

/-- **Both directions of a direct connection**, by the side that sends. -/
def step (d : Side → Flow α) (e : Side × FlowEvent α) : Option (Side → Flow α) :=
  ((d e.1).step e.2).map (Function.update d e.1)

variable {f : Flow α}

theorem step_side {d : Side → Flow α} {side : Side} {e : FlowEvent α}
    (hstep : (d side).step e = some f) : step d (side, e) = some (Function.update d side f) :=
  congrArg (Option.map (Function.update d side)) hstep

def acts : Side × FlowEvent α → List (Side × EndEvent α)
  | (side, .act e) => [(side, e)]
  | _ => []

theorem exec_delivers (d : Side → Flow α) (side : Side) (hdel : (d side).Delivers f) :
    ∃ es, exec step d es = some (Function.update d side f) ∧ es.flatMap acts = [] := by
  cases hdel with
  | stays =>
    refine ⟨[], ?_, rfl⟩
    simp
  | receives n hstep =>
    refine ⟨[(side, .receive n)], ?_, rfl⟩
    rw [exec_cons, step_side hstep]
    rfl
  | finishes hstep =>
    refine ⟨[(side, .finish)], ?_, rfl⟩
    rw [exec_cons, step_side hstep]
    rfl

end Duplex

/-! ## Copying -/

structure Pipe (α : Type*) where
  queue : List α
  closed : Bool
  deriving DecidableEq

structure Copier (α : Type*) where
  held : List α
  ended : Bool
  deriving DecidableEq

structure CopyMode where
  cap : Nat
  cap_pos : 0 < cap
  refill : Bool
  shuts : Bool

inductive CopyMove where
  | read (n : Nat)
  | write (n : Nat)
  | finish

namespace Copier

def fresh : Copier α := ⟨[], false⟩

/-- **A loop that copies**, between two streams. -/
def step (mode : CopyMode) (src : Pipe α) (c : Copier α) (dst : Pipe α) :
    CopyMove → Option (Pipe α × Copier α × Pipe α)
  | .read n =>
    if c.ended = false ∧ 0 < n ∧ n ≤ src.queue.length ∧ c.held.length + n ≤ mode.cap ∧
        (c.held = [] ∨ mode.refill = true) then
      some ({ src with queue := src.queue.drop n }, { c with held := c.held ++ src.queue.take n }, dst)
    else none
  | .write n =>
    if c.ended = false ∧ 0 < n ∧ n ≤ c.held.length then
      some (src, { c with held := c.held.drop n }, { dst with queue := dst.queue ++ c.held.take n })
    else none
  | .finish =>
    if c.ended = false ∧ c.held = [] ∧ src.queue = [] ∧ src.closed = true then
      some (src, { c with ended := true }, { dst with closed := dst.closed || mode.shuts })
    else none

inductive Moves (mode : CopyMode) (src : Pipe α) (c : Copier α) (dst : Pipe α) :
    Pipe α × Copier α × Pipe α → Prop where
  | read (n : Nat) : c.ended = false → 0 < n → n ≤ src.queue.length →
      Moves mode src c dst
        ({ src with queue := src.queue.drop n }, { c with held := c.held ++ src.queue.take n }, dst)
  | write (n : Nat) : c.ended = false → 0 < n → n ≤ c.held.length →
      Moves mode src c dst
        (src, { c with held := c.held.drop n }, { dst with queue := dst.queue ++ c.held.take n })
  | finish : c.ended = false → c.held = [] → src.queue = [] → src.closed = true →
      Moves mode src c dst
        (src, { c with ended := true }, { dst with closed := dst.closed || mode.shuts })

theorem moves_of_step {mode : CopyMode} {src dst : Pipe α} {c : Copier α} {m : CopyMove}
    {r : Pipe α × Copier α × Pipe α} (hstep : step mode src c dst m = some r) :
    Moves mode src c dst r := by
  cases m with
  | read n =>
    obtain ⟨⟨hrun, hpos, hle, -⟩, hr⟩ := ite_none_right_eq_some.mp hstep
    cases hr
    exact .read n hrun hpos hle
  | write n =>
    obtain ⟨⟨hrun, hpos, hle⟩, hr⟩ := ite_none_right_eq_some.mp hstep
    cases hr
    exact .write n hrun hpos hle
  | finish =>
    obtain ⟨⟨hrun, hheld, hqueue, hclosed⟩, hr⟩ := ite_none_right_eq_some.mp hstep
    cases hr
    exact .finish hrun hheld hqueue hclosed

def Stuck (src : Pipe α) (c : Copier α) : Prop :=
  c.ended = true ∨ c.held = [] ∧ src.queue = [] ∧ src.closed = false

theorem stuck_iff (mode : CopyMode) (src : Pipe α) (c : Copier α) (dst : Pipe α) :
    (∀ m, step mode src c dst m = none) ↔ Stuck src c := by
  constructor
  · intro hnone
    by_cases hended : c.ended = true
    · exact .inl hended
    · rw [Bool.not_eq_true] at hended
      have hheld : c.held = [] := by
        by_contra hne
        have hstep := hnone (.write c.held.length)
        rw [step, if_pos ⟨hended, length_pos_iff.mpr hne, le_refl _⟩] at hstep
        cases hstep
      have hqueue : src.queue = [] := by
        by_contra hne
        have hstep := hnone (.read 1)
        have hcap : c.held.length + 1 ≤ mode.cap := by
          rw [hheld]
          exact mode.cap_pos
        rw [step, if_pos ⟨hended, one_pos, length_pos_iff.mpr hne, hcap, .inl hheld⟩] at hstep
        cases hstep
      have hclosed : src.closed = false := by
        by_contra hne
        rw [Bool.not_eq_false] at hne
        have hstep := hnone .finish
        rw [step, if_pos ⟨hended, hheld, hqueue, hne⟩] at hstep
        cases hstep
      exact .inr ⟨hheld, hqueue, hclosed⟩
  · rintro (hended | ⟨hheld, hqueue, hopen⟩) m
    · cases m <;> simp [step, hended]
    · cases m with
      | read n =>
        apply if_neg
        rintro ⟨-, hpos, hle, -⟩
        rw [hqueue] at hle
        exact absurd hpos (Nat.not_lt.mpr hle)
      | write n =>
        apply if_neg
        rintro ⟨-, hpos, hle⟩
        rw [hheld] at hle
        exact absurd hpos (Nat.not_lt.mpr hle)
      | finish =>
        apply if_neg
        rintro ⟨-, -, -, hclosed⟩
        cases hopen.symm.trans hclosed

end Copier

/-! ## One direction of a relayed connection -/

/-- One direction of a relayed connection: three streams, and the loops of two relays. -/
structure Line (α : Type*) where
  sent : List α
  first : Pipe α
  near : Copier α
  middle : Pipe α
  far : Copier α
  last : Pipe α
  deriving DecidableEq

namespace Line

def start : Line α := ⟨[], ⟨[], false⟩, .fresh, ⟨[], false⟩, .fresh, ⟨[], false⟩⟩

def view (l : Line α) : Flow α := ⟨l.sent, l.first.closed, l.last.queue, l.last.closed⟩

def put (l : Line α) : EndEvent α → Line α
  | .send data =>
    { l with sent := l.sent ++ data, first := { l.first with queue := l.first.queue ++ data } }
  | .close => { l with first := { l.first with closed := true } }

def act (l : Line α) (e : EndEvent α) : Option (Line α) :=
  if l.first.closed = true then none else some (l.put e)

def copyNear (mode : CopyMode) (l : Line α) (m : CopyMove) : Option (Line α) :=
  (Copier.step mode l.first l.near l.middle m).map fun r =>
    { l with first := r.1, near := r.2.1, middle := r.2.2 }

def copyFar (mode : CopyMode) (l : Line α) (m : CopyMove) : Option (Line α) :=
  (Copier.step mode l.middle l.far l.last m).map fun r =>
    { l with middle := r.1, far := r.2.1, last := r.2.2 }

def passNear (l : Line α) (n : Nat) : Line α :=
  { l with
    first := { l.first with queue := l.first.queue.drop n }
    middle := { l.middle with queue := l.middle.queue ++ l.first.queue.take n } }

def passFar (l : Line α) (n : Nat) : Line α :=
  { l with
    middle := { l.middle with queue := l.middle.queue.drop n }
    last := { l.last with queue := l.last.queue ++ l.middle.queue.take n } }

def closeMiddle (l : Line α) : Line α := { l with middle := { l.middle with closed := true } }

def closeLast (l : Line α) : Line α := { l with last := { l.last with closed := true } }

variable {l l' : Line α} {mode : CopyMode} {m : CopyMove}

open Copier

theorem copyNear_frame (hcopy : l.copyNear mode m = some l') :
    l'.sent = l.sent ∧ l'.first.closed = l.first.closed ∧ l'.far = l.far ∧ l'.last = l.last := by
  obtain ⟨r, hstep, rfl⟩ := map_eq_some_iff.mp hcopy
  refine ⟨rfl, ?_, rfl, rfl⟩
  cases moves_of_step hstep <;> rfl

theorem copyFar_frame (hcopy : l.copyFar mode m = some l') :
    l'.sent = l.sent ∧ l'.first = l.first ∧ l'.near = l.near := by
  obtain ⟨r, hstep, rfl⟩ := map_eq_some_iff.mp hcopy
  exact ⟨rfl, rfl, rfl⟩

/-- **Nothing is lost on the way, and an end is passed on in its turn.** -/
structure Sound (l : Line α) : Prop where
  conserved : l.last.queue ++ (l.far.held ++ (l.middle.queue ++ (l.near.held ++ l.first.queue))) = l.sent
  near_ended : l.near.ended = true → l.first.closed = true ∧ l.first.queue = [] ∧ l.near.held = []
  middle_closed : l.middle.closed = l.near.ended
  far_ended : l.far.ended = true → l.middle.closed = true ∧ l.middle.queue = [] ∧ l.far.held = []
  last_closed : l.last.closed = l.far.ended

theorem sound_start : (start : Line α).Sound := ⟨rfl, nofun, rfl, nofun, rfl⟩

/-- What is left to do on a line: each item is read and written twice, and each loop ends. -/
def work (l : Line α) : Nat :=
  4 * l.first.queue.length + 3 * l.near.held.length + 2 * l.middle.queue.length + l.far.held.length
    + (!l.near.ended).toNat + (!l.far.ended).toNat

theorem take_ne_nil {items : List α} {n : Nat} (hpos : 0 < n) (hle : n ≤ items.length) :
    items.take n ≠ [] := by
  rw [← length_pos_iff, length_take]
  exact lt_min hpos (hpos.trans_le hle)

namespace Sound

variable {l l' : Line α}

theorem received_of_sound (h : l.Sound) : l.view.received <+: l.view.sent := ⟨_, h.conserved⟩

theorem received_of_empty (h : l.Sound) (hfirst : l.first.queue = []) (hnear : l.near.held = [])
    (hmiddle : l.middle.queue = []) (hfar : l.far.held = []) : l.last.queue = l.sent := by
  simpa [hfirst, hnear, hmiddle, hfar] using h.conserved

theorem closed_of_ended (h : l.Sound) (hended : l.view.ended = true) :
    l.view.closed = true ∧ l.view.received = l.view.sent := by
  have hfar : l.far.ended = true := h.last_closed.symm.trans hended
  obtain ⟨hclosed, hmiddle, hheld⟩ := h.far_ended hfar
  obtain ⟨hfirst, hqueue, hnear⟩ := h.near_ended (h.middle_closed.symm.trans hclosed)
  exact ⟨hfirst, h.received_of_empty hqueue hnear hmiddle hheld⟩

theorem empty_of_stuck {src : Pipe α} {c : Copier α} (hstuck : Copier.Stuck src c)
    (hended : c.ended = true → src.closed = true ∧ src.queue = [] ∧ c.held = []) :
    c.held = [] ∧ src.queue = [] ∧ src.closed = c.ended := by
  rcases hstuck with hend | ⟨hheld, hqueue, hopen⟩
  · obtain ⟨hclosed, hqueue, hheld⟩ := hended hend
    exact ⟨hheld, hqueue, hclosed.trans hend.symm⟩
  · refine ⟨hheld, hqueue, ?_⟩
    by_contra hne
    have hend : c.ended = true := by
      rw [hopen] at hne
      exact Bool.not_eq_false _ ▸ Ne.symm hne
    rw [(hended hend).1] at hopen
    cases hopen

variable (h : l.Sound)
include h

theorem complete (hnear : Copier.Stuck l.first l.near) (hfar : Copier.Stuck l.middle l.far) :
    l.view.Complete := by
  obtain ⟨hheld, hqueue, hclosed⟩ := empty_of_stuck hnear h.near_ended
  obtain ⟨hheld', hqueue', hclosed'⟩ := empty_of_stuck hfar h.far_ended
  refine ⟨h.received_of_empty hqueue hheld hqueue' hheld', ?_⟩
  calc l.last.closed = l.far.ended := h.last_closed
    _ = l.middle.closed := hclosed'.symm
    _ = l.near.ended := h.middle_closed
    _ = l.first.closed := hclosed.symm

theorem complete_of_silent (hsent : l.sent = []) (hopen : l.first.closed = false) :
    l.view.Complete := by
  have hconserved := h.conserved
  rw [hsent, append_eq_nil_iff] at hconserved
  refine ⟨hconserved.1.trans hsent.symm, ?_⟩
  by_contra hne
  have hended : l.view.ended = true := by
    have hclosed : l.view.closed = false := hopen
    rw [hclosed] at hne
    exact Bool.not_eq_false _ ▸ hne
  rw [show l.first.closed = true from (h.closed_of_ended hended).1] at hopen
  cases hopen

theorem act {e : EndEvent α} (hact : l.act e = some l') :
    l'.Sound ∧ l.view.step (.act e) = some l'.view := by
  obtain ⟨hopen, hput⟩ := ite_none_left_eq_some.mp hact
  cases hput
  have hstep : l.view.step (.act e) = some (l.view.put e) := if_neg hopen
  cases e with
  | send data =>
    refine ⟨⟨?_, ?_, h.middle_closed, h.far_ended, h.last_closed⟩, hstep⟩
    · simp [put, ← h.conserved]
    · exact fun hended => absurd (h.near_ended hended).1 hopen
  | close =>
    refine ⟨⟨h.conserved, ?_, h.middle_closed, h.far_ended, h.last_closed⟩, hstep⟩
    exact fun hended => ⟨rfl, (h.near_ended hended).2⟩

variable {mode : CopyMode} {m : CopyMove}

/-- **What the first relay does is not seen.** Its loop has to pass the end on, unless there is none. -/
theorem copyNear (hmode : mode.shuts = true ∨ l.first.closed = false)
    (hcopy : l.copyNear mode m = some l') : l'.Sound ∧ l'.view = l.view := by
  obtain ⟨r, hstep, rfl⟩ := map_eq_some_iff.mp hcopy
  cases moves_of_step hstep with
  | read n hrun hpos hle =>
    refine ⟨⟨?_, ?_, h.middle_closed, h.far_ended, h.last_closed⟩, rfl⟩
    · simpa using h.conserved
    · exact fun hended => absurd hended (ne_true_of_eq_false hrun)
  | write n hrun hpos hle =>
    have hmiddle : l.middle.closed = false := h.middle_closed.trans hrun
    refine ⟨⟨?_, ?_, h.middle_closed, ?_, h.last_closed⟩, rfl⟩
    · have hsplit : l.near.held.take n ++ l.near.held.drop n = l.near.held := take_append_drop n _
      rw [← h.conserved, append_assoc, ← append_assoc (l.near.held.take n), hsplit]
    · exact fun hended => absurd hended (ne_true_of_eq_false hrun)
    · exact fun hended => absurd (h.far_ended hended).1 (ne_true_of_eq_false hmiddle)
  | finish hrun hheld hqueue hclosed =>
    have hshuts : mode.shuts = true := hmode.resolve_right (Bool.not_eq_false _ ▸ hclosed)
    refine ⟨⟨h.conserved, fun _ => ⟨hclosed, hqueue, hheld⟩, ?_, ?_, h.last_closed⟩, rfl⟩
    · rw [hshuts, Bool.or_true]
    · intro hended
      obtain ⟨_, hempty⟩ := h.far_ended hended
      exact ⟨by simp [hshuts], hempty⟩

theorem copyFar (hmode : mode.shuts = true ∨ l.first.closed = false)
    (hcopy : l.copyFar mode m = some l') : l'.Sound ∧ l.view.Delivers l'.view := by
  obtain ⟨r, hstep, rfl⟩ := map_eq_some_iff.mp hcopy
  cases moves_of_step hstep with
  | read n hrun hpos hle =>
    refine ⟨⟨?_, h.near_ended, h.middle_closed, ?_, h.last_closed⟩, .stays⟩
    · rw [← h.conserved, append_assoc, ← append_assoc (l.middle.queue.take n),
        take_append_drop]
    · exact fun hended => absurd hended (ne_true_of_eq_false hrun)
  | write n hrun hpos hle =>
    have hsplit : l.far.held.take n ++ l.far.held.drop n = l.far.held := take_append_drop n _
    have hconserved : l.last.queue ++ l.far.held.take n
        ++ (l.far.held.drop n ++ (l.middle.queue ++ (l.near.held ++ l.first.queue))) = l.sent := by
      rw [← h.conserved, append_assoc, ← append_assoc (l.far.held.take n), hsplit]
    refine ⟨⟨hconserved, h.near_ended, h.middle_closed, ?_, h.last_closed⟩, ?_⟩
    · exact fun hended => absurd hended (ne_true_of_eq_false hrun)
    · exact .receives _ (l.view.step_receive (take_ne_nil hpos hle) hconserved)
  | finish hrun hheld hqueue hclosed =>
    obtain ⟨hfirst, hempty, hnear⟩ := h.near_ended (h.middle_closed.symm.trans hclosed)
    have hshuts : mode.shuts = true := hmode.resolve_right (Bool.not_eq_false _ ▸ hfirst)
    refine ⟨⟨h.conserved, h.near_ended, h.middle_closed, fun _ => ⟨hclosed, hqueue, hheld⟩, ?_⟩, ?_⟩
    · rw [hshuts, Bool.or_true]
    · have hreceived := h.received_of_empty hempty hnear hqueue hheld
      have hopen : l.last.closed = false := h.last_closed.trans hrun
      refine .finishes ?_
      rw [Flow.step, if_pos ⟨hfirst, congrArg List.length hreceived, hopen⟩]
      unfold view
      rw [hshuts, Bool.or_true]

theorem passNear (hnear : l.near = .fresh) (n : Nat) : (l.passNear n).Sound := by
  have hheld : l.near.held = [] := congrArg held hnear
  have hrun : l.near.ended = false := congrArg ended hnear
  have hmiddle : l.middle.closed = false := h.middle_closed.trans hrun
  refine ⟨?_, ?_, h.middle_closed, ?_, h.last_closed⟩
  · have hconserved := h.conserved
    rw [hheld, nil_append] at hconserved
    unfold Line.passNear
    simp [← hconserved, hheld]
  · exact fun hended => absurd hended (ne_true_of_eq_false hrun)
  · exact fun hended => absurd (h.far_ended hended).1 (ne_true_of_eq_false hmiddle)

theorem passFar (hfar : l.far = .fresh) {n : Nat} (hpos : 0 < n)
    (hle : n ≤ l.middle.queue.length) : (l.passFar n).Sound ∧ l.view.Delivers (l.passFar n).view := by
  have hheld : l.far.held = [] := congrArg held hfar
  have hrun : l.far.ended = false := congrArg ended hfar
  have hconserved : l.last.queue ++ l.middle.queue.take n
      ++ (l.middle.queue.drop n ++ (l.near.held ++ l.first.queue)) = l.sent := by
    rw [← h.conserved, hheld, nil_append, append_assoc,
      ← append_assoc (l.middle.queue.take n), take_append_drop]
  refine ⟨⟨?_, h.near_ended, h.middle_closed, ?_, h.last_closed⟩, ?_⟩
  · unfold Line.passFar
    rw [hheld]
    exact hconserved
  · exact fun hended => absurd hended (ne_true_of_eq_false hrun)
  · exact .receives _ (l.view.step_receive (take_ne_nil hpos hle) hconserved)

theorem closeMiddle_eq (hended : l.near.ended = true) : l.closeMiddle = l := by
  have hclosed : l.middle.closed = true := h.middle_closed.trans hended
  unfold closeMiddle
  rw [← hclosed]

theorem closeLast_eq (hended : l.far.ended = true) : l.closeLast = l := by
  have hclosed : l.last.closed = true := h.last_closed.trans hended
  unfold closeLast
  rw [← hclosed]

end Sound

/-! ## Work -/

section Work

variable {l l' : Line α} {mode : CopyMode} {m : CopyMove}

theorem work_copyNear (hcopy : l.copyNear mode m = some l') : l'.work < l.work := by
  obtain ⟨r, hstep, rfl⟩ := map_eq_some_iff.mp hcopy
  cases moves_of_step hstep with
  | read n hrun hpos hle | write n hrun hpos hle =>
    simp only [work, length_append, length_take, length_drop]
    omega
  | finish hrun hheld hqueue hclosed =>
    simp only [work, hrun, Bool.not_true, Bool.not_false, Bool.toNat_true, Bool.toNat_false]
    omega

theorem work_copyFar (hcopy : l.copyFar mode m = some l') : l'.work < l.work := by
  obtain ⟨r, hstep, rfl⟩ := map_eq_some_iff.mp hcopy
  cases moves_of_step hstep with
  | read n hrun hpos hle =>
    simp only [work, length_append, length_take, length_drop]
    omega
  | write n hrun hpos hle =>
    simp only [work, length_drop]
    omega
  | finish hrun hheld hqueue hclosed =>
    simp only [work, hrun, Bool.not_true, Bool.not_false, Bool.toNat_true, Bool.toNat_false]
    omega

theorem work_passNear (l : Line α) (n : Nat) : (l.passNear n).work ≤ l.work := by
  simp only [work, passNear, length_append, length_take, length_drop]
  omega

theorem work_passFar (l : Line α) (n : Nat) : (l.passFar n).work ≤ l.work := by
  simp only [work, passFar, length_drop]
  omega

end Work

end Line

end Lib
