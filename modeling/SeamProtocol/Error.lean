import Mathlib.Tactic

/-! # Errors -/

namespace SeamProtocol

/-- The library's error type. Sizes, stream ids and byte counts are natural numbers; packet numbers
keep their 64-bit type. -/
inductive SeamError where
  | authFailed
  | replay (seq : UInt64)
  | tooOld (seq : UInt64)
  | bufferTooSmall (need held : Nat)
  | invalidPktType (value : UInt8)
  | handshakeFailed (message : String)
  | flowControlBlocked (available requested : Nat)
  | unknownStream (id : Nat)
  | streamFinished (id : Nat)
  | protocolViolation (message : String)
  | packetTooLarge (held max : Nat)
  deriving DecidableEq, Repr

end SeamProtocol
