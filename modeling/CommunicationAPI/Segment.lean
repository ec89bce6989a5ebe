import CommunicationAPI.Octets

/-!
# Segments
-/

namespace CommunicationAPI
open Octets

inductive MsgType
  | control | teds | ptp | group
  deriving DecidableEq, Repr

def MsgType.code : MsgType → UInt8
  | .control => 0
  | .teds => 1
  | .ptp => 2
  | .group => 3

def segmentHeaderSize : ℕ := 9

structure Segment where
  type : MsgType
  timestamp : UInt64
  payload : List UInt8

namespace Segment
variable (s : Segment)

def getBytes : List UInt8 := s.type.code :: (encode 8 s.timestamp.toNat ++ s.payload)

@[simp] theorem length_getBytes : s.getBytes.length = segmentHeaderSize + s.payload.length := by
  simp [getBytes, segmentHeaderSize]
  omega

theorem head_getBytes : s.getBytes.head? = some s.type.code := rfl

end Segment
end CommunicationAPI
