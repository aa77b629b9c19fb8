import SeamProtocol.Error

/-! # Packet types and sizes

A packet is a 32-byte header, the payload and a 16-byte tag. -/

namespace SeamProtocol

def headerLen : Nat := 32

def tagLen : Nat := 16

def minPacketLen : Nat := headerLen + tagLen

def maxPacketLen : Nat := 65535

def encodeBufLen (plaintextLen : Nat) : Nat := headerLen + plaintextLen + tagLen

inductive PktType where
  | initial | handshake | data | ack | fecRepair | chaff | pathProbe | close | datagram
  | keyUpdate | maxData | ping | pong | sessionTicket | svcResume | svcResumeOk
  | pathChallenge | pathResponse
  deriving DecidableEq, Repr

namespace PktType

def toByte : PktType → UInt8
  | initial => 0x00 | handshake => 0x01 | data => 0x02 | ack => 0x03 | fecRepair => 0x04
  | chaff => 0x05 | pathProbe => 0x06 | close => 0x07 | datagram => 0x08 | keyUpdate => 0x09
  | maxData => 0x0A | ping => 0x0B | pong => 0x0C | sessionTicket => 0x0D | svcResume => 0x0E
  | svcResumeOk => 0x0F | pathChallenge => 0x10 | pathResponse => 0x11

def tryFrom (v : UInt8) : Except SeamError PktType :=
  match v with
  | 0x00 => .ok initial | 0x01 => .ok handshake | 0x02 => .ok data | 0x03 => .ok ack
  | 0x04 => .ok fecRepair | 0x05 => .ok chaff | 0x06 => .ok pathProbe | 0x07 => .ok close
  | 0x08 => .ok datagram | 0x09 => .ok keyUpdate | 0x0A => .ok maxData | 0x0B => .ok ping
  | 0x0C => .ok pong | 0x0D => .ok sessionTicket | 0x0E => .ok svcResume
  | 0x0F => .ok svcResumeOk | 0x10 => .ok pathChallenge | 0x11 => .ok pathResponse
  | other => .error (.invalidPktType other)

@[simp] theorem tryFrom_toByte (t : PktType) : tryFrom t.toByte = .ok t := by
  cases t <;> rfl

end PktType

end SeamProtocol
