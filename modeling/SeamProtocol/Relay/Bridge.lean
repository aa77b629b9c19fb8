import SeamProtocol.Lib.Bytes
import SeamProtocol.Lib.Copy

/-! # Connections through `seam tunnel` and `seam fwd`

A TCP connection is carried over one stream. The listening relay accepts it, and opens the stream; the
dialing relay accepts the stream when there is something on it, or its end, and connects to the target.
Then each copies in both directions, by `copy_bidirectional` or by loops of its own. The left end
connects to the listening relay, and the right end is the target. The streams are reliable, and the
buffers of sockets are not bounded. -/

namespace SeamProtocol

open Lib

/-! ## Commands -/

def tunnelCloseTag : UInt8 := 0x21

def tunnelCloseAckTag : UInt8 := 0x22

inductive TunnelMode where
  | tcp
  /-- Read the beginning first, and look at the beginning of the answer or not. -/
  | http (inspect : Bool)
  deriving DecidableEq

inductive Carrier where
  | fwd
  /-- `seam tunnel`; the dialing relay has a target if it was not started by `connect_mux`, which asks for
  port 0. -/
  | tunnel (mode : TunnelMode) (direct : Bool)
  deriving DecidableEq

def copyBidirectional : CopyMode := ⟨8192, by decide, true, true⟩

/-- A loop of `bridge_counted` or `bridge_recv`, that may shut down what it writes to. -/
def bufferedCopy (shuts : Bool) : CopyMode := ⟨65536, by decide, false, shuts⟩

namespace Carrier

def mode : Carrier → (relay side : Side) → CopyMode
  | .fwd, _, _ => copyBidirectional
  | .tunnel (.http _) _, .left, _ => copyBidirectional
  -- `bridge_counted`
  | .tunnel .tcp _, .left, .left => bufferedCopy false
  | .tunnel .tcp _, .left, .right => bufferedCopy true
  -- `bridge_recv`
  | .tunnel _ _, .right, _ => bufferedCopy false

def inspects : Carrier → Bool
  | .tunnel (.http inspect) _ => inspect
  | _ => false

end Carrier

/-! ## Relays -/

inductive ListenerPhase where
  | header
  | response
  | bridging
  | ended
  deriving DecidableEq

inductive DialerPhase where
  | waiting
  | bridging
  | ended
  deriving DecidableEq

structure Relayed where
  out : Line UInt8
  back : Line UInt8
  listener : ListenerPhase
  dialer : DialerPhase
  deriving DecidableEq

inductive RelayMove where
  | header (n : Nat)
  | response (n : Nat)
  | accept
  | copy (relay side : Side) (m : CopyMove)
  | drop (relay : Side)

inductive RelayedEvent where
  | act (side : Side) (e : EndEvent UInt8)
  | relay (m : RelayMove)

namespace Relayed

def start (c : Carrier) : Relayed where
  out := .start
  back := .start
  listener := match c with
    | .tunnel (.http _) _ => .header
    | _ => .bridging
  dialer := .waiting

def line (s : Relayed) : Side → Line UInt8
  | .left => s.out
  | .right => s.back

def setLine (s : Relayed) : Side → Line UInt8 → Relayed
  | .left, l => { s with out := l }
  | .right, l => { s with back := l }

def bridges (s : Relayed) : Side → Bool
  | .left => s.listener = .bridging
  | .right => s.dialer = .bridging

def setEnded (s : Relayed) : Side → Relayed
  | .left => { s with listener := .ended }
  | .right => { s with dialer := .ended }

/-- **`bridge_http`**: read the beginning, open the stream and write it there. A connection without a
beginning is dropped. -/
def readHeader (c : Carrier) (s : Relayed) : Nat → Option Relayed
  | 0 =>
    if s.out.first.queue = [] ∧ s.out.first.closed = true then
      some { s with back := s.back.closeLast, listener := .ended }
    else none
  | n + 1 =>
    if n + 1 ≤ 4096 ∧ n + 1 ≤ s.out.first.queue.length then
      some { s with
        out := s.out.passNear (n + 1)
        listener := if c.inspects then .response else .bridging }
    else none

def readResponse (s : Relayed) : Nat → Option Relayed
  | 0 =>
    if s.back.middle.queue = [] ∧ s.back.middle.closed = true then some { s with listener := .bridging }
    else none
  | n + 1 =>
    if n + 1 ≤ 4096 ∧ n + 1 ≤ s.back.middle.queue.length then
      some { s with back := s.back.passFar (n + 1), listener := .bridging }
    else none

def skipByte (l : Line UInt8) : Line UInt8 :=
  { l with middle := { l.middle with queue := l.middle.queue.tail } }

def answerClose (l : Line UInt8) : Line UInt8 :=
  { l with middle := ⟨l.middle.queue ++ [tunnelCloseAckTag], true⟩ }

/-- **The dialing relay accepts the stream.** That of a tunnel is `handle_recv_stream`: it reads one byte
before it connects. -/
def accepted (s : Relayed) : Carrier → Relayed
  | .fwd => { s with dialer := .bridging }
  | .tunnel _ direct =>
    match s.out.middle.queue with
    | [] => { s with back := s.back.closeMiddle, dialer := .ended }
    | b :: _ =>
      if b = tunnelCloseTag then
        { s with out := skipByte s.out, back := answerClose s.back, dialer := .ended }
      else if direct = true then
        { s with out := s.out.passFar 1, dialer := .bridging }
      else
        -- nobody listens on port 0
        { s with out := skipByte s.out, back := s.back.closeMiddle, dialer := .ended }

def copyLine (c : Carrier) (s : Relayed) (relay side : Side) (m : CopyMove) : Option (Line UInt8) :=
  if relay = side then (s.line side).copyNear (c.mode relay side) m
  else (s.line side).copyFar (c.mode relay side) m

def move (c : Carrier) (s : Relayed) : RelayMove → Option Relayed
  | .header n => if s.listener = .header then s.readHeader c n else none
  | .response n => if s.listener = .response then s.readResponse n else none
  | .accept =>
    if s.dialer = .waiting ∧ (s.out.middle.queue ≠ [] ∨ s.out.middle.closed = true) then
      some (s.accepted c)
    else none
  | .copy relay side m =>
    if s.bridges relay = true then (s.copyLine c relay side m).map (s.setLine side) else none
  | .drop relay =>
    if s.bridges relay = true ∧ (s.line relay).near.ended = true ∧
        (s.line relay.other).far.ended = true then
      some (((s.setLine relay (s.line relay).closeMiddle).setLine relay.other
        (s.line relay.other).closeLast).setEnded relay)
    else none

def step (c : Carrier) (s : Relayed) : RelayedEvent → Option Relayed
  | .act side e => ((s.line side).act e).map (s.setLine side)
  | .relay m => s.move c m

end Relayed

/-! ## Like a direct connection -/

def RelayedEvent.acts : RelayedEvent → List (Side × EndEvent UInt8)
  | .act side e => [(side, e)]
  | .relay _ => []

namespace Relayed

def view (s : Relayed) (side : Side) : Flow UInt8 := (s.line side).view

structure LikeDirect (c : Carrier) (events : List RelayedEvent) (s : Relayed) : Prop where
  /-- It could have come to the same, with the same actions of its ends. -/
  refines : ∃ es, exec Duplex.step (fun _ => .start) es = some s.view ∧
    es.flatMap Duplex.acts = events.flatMap RelayedEvent.acts
  inOrder : ∀ side, (s.view side).received <+: (s.view side).sent
  /-- The end of a direction is received if that direction was closed, after everything else. -/
  ends : ∀ side, (s.view side).ended = true →
    (s.view side).closed = true ∧ (s.view side).received = (s.view side).sent
  settles : ∃ n, ∀ moves s', exec (move c) s moves = some s' → moves.length ≤ n
  /-- **If both wait, everything has been received.** -/
  forwarded : Final (move c) s → ∀ side, (s.view side).Complete

end Relayed

/-! ## Conditions -/

/-- **Connections that are carried well.** The target does not do anything before the left end does; and
in a tunnel, neither end closes its direction, the dialing relay has a target, the first byte is not the
one that asks it to close, and a tunnel that waits for an answer has read all there is to answer. -/
def Carrier.Allows (c : Carrier) (s : Relayed) : RelayedEvent → Prop
  | .act .left (.send data) =>
    match c with
    | .fwd => True
    | .tunnel _ direct => direct = true ∧ (s.out.sent = [] → data.head? ≠ some tunnelCloseTag) ∧
      (c.inspects = true → s.listener = .header ∨ s.back.sent ≠ [])
  | .act .left .close => c = .fwd
  | .act .right e =>
    (s.out.sent ≠ [] ∨ s.out.first.closed = true) ∧ (e = .close → c = .fwd)
  | .relay (.header n) =>
    c.inspects = true → n = s.out.first.queue.length ∨ s.back.sent ≠ []
  | .relay _ => True

instance (c : Carrier) (s : Relayed) : ∀ e, Decidable (c.Allows s e)
  | .act .left (.send _) =>
    match c with
    | .fwd => isTrue trivial
    | .tunnel _ _ => inferInstanceAs (Decidable (_ ∧ _ ∧ _))
  | .act .left .close => inferInstanceAs (Decidable (_ = _))
  | .act .right _ => inferInstanceAs (Decidable (_ ∧ _))
  | .relay (.header _) => inferInstanceAs (Decidable (_ → _))
  | .relay (.response _) => isTrue trivial
  | .relay .accept => isTrue trivial
  | .relay (.copy _ _ _) => isTrue trivial
  | .relay (.drop _) => isTrue trivial

end SeamProtocol
