import SeamProtocol.Lib.Run

/-! # The connection counter of the tunnel client

Each bridge task adds one to `connections_active` and takes one off when it is done. The status frames
of the server overwrite the same counter. -/

namespace SeamProtocol

open Lib Option

/-- The bridge tasks of `serve_loop` by how far they have come, and the counter that they share. -/
structure BridgeTasks where
  /-- accepted, not yet counted -/
  starting : Nat := 0
  bridging : Nat := 0
  /-- no longer counted, not yet gone -/
  ending : Nat := 0
  connectionsActive : UInt32 := 0

inductive BridgeEvent where
  | accept
  | fetchAdd
  | fetchSub
  | exit
  | status (connectionsActive : UInt32)

namespace BridgeTasks

/-- A task holds a socket, and descriptors are non-negative 32-bit numbers. -/
def step (s : BridgeTasks) : BridgeEvent → Option BridgeTasks
  | .accept =>
    if s.starting + s.bridging + s.ending < 2 ^ 31 then some { s with starting := s.starting + 1 }
    else none
  | .fetchAdd =>
    if 0 < s.starting then
      some { s with
        starting := s.starting - 1, bridging := s.bridging + 1
        connectionsActive := s.connectionsActive + 1 }
    else none
  | .fetchSub =>
    if 0 < s.bridging then
      some { s with
        bridging := s.bridging - 1, ending := s.ending + 1
        connectionsActive := s.connectionsActive - 1 }
    else none
  | .exit => if 0 < s.ending then some { s with ending := s.ending - 1 } else none
  -- `drain_control_streams` stores what the server says.
  | .status n => some { s with connectionsActive := n }

def current (s : BridgeTasks) : BridgeEvent → Bool
  | .status n => n.toNat = s.bridging
  | _ => true

structure Counted (s : BridgeTasks) : Prop where
  counter : s.connectionsActive.toNat = s.bridging
  tasks : s.starting + s.bridging + s.ending ≤ 2 ^ 31

variable {s s' : BridgeTasks} {e : BridgeEvent}

theorem Counted.fetchSub (h : s.Counted) (hstep : s.step .fetchSub = some s') :
    s'.connectionsActive.toNat + 1 = s.connectionsActive.toNat := by
  have hc := h.counter
  simp only [BridgeTasks.step, ite_none_right_eq_some, some.injEq] at hstep
  obtain ⟨hb, rfl⟩ := hstep
  have hle : (1 : UInt32) ≤ s.connectionsActive := by
    rw [UInt32.le_iff_toNat_le, hc]
    exact hb
  rw [UInt32.toNat_sub_of_le _ _ hle, UInt32.toNat_one]
  omega

theorem Counted.step (h : s.Counted) (hcur : s.current e) (hstep : s.step e = some s') :
    s'.Counted := by
  have hc := h.counter
  have ht := h.tasks
  have hsub : s.step .fetchSub = some s' → _ := h.fetchSub
  cases e <;>
    simp only [BridgeTasks.step, ite_none_right_eq_some, some.injEq] at hstep hsub
  case accept =>
    obtain ⟨hlt, rfl⟩ := hstep
    exact ⟨hc, by simp only; omega⟩
  case fetchAdd =>
    obtain ⟨hs, rfl⟩ := hstep
    refine ⟨?_, by simp only; omega⟩
    rw [UInt32.toNat_add, hc, UInt32.toNat_one, Nat.mod_eq_of_lt (by omega)]
  case fetchSub =>
    specialize hsub hstep
    obtain ⟨hb, rfl⟩ := hstep
    exact ⟨by simp only at hsub ⊢; omega, by simp only; omega⟩
  case exit =>
    obtain ⟨he, rfl⟩ := hstep
    exact ⟨hc, by simp only; omega⟩
  case status n =>
    subst hstep
    exact ⟨of_decide_eq_true hcur, ht⟩

end BridgeTasks

end SeamProtocol
