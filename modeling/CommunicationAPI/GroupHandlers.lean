import CommunicationAPI.SystemMessages

/-!
# Group messages

Members join the group of the leader of their quadrant, the leader answers with
its session key and tells the members which clients have left. The payloads are
read and written as the structs of the source lie in memory.
-/

namespace CommunicationAPI
open Octets ShmEngine

inductive GroupType
  | joinRequest | keyDistribution | notifyLeft
  deriving DecidableEq, Repr

def GroupType.code : GroupType → UInt8
  | .joinRequest => 0
  | .keyDistribution => 1
  | .notifyLeft => 2

namespace GroupPayload

def keyDistributionSize : ℕ := 9

/-- `sizeof(NotifyLeftPayload)`: the address is aligned to two octets. -/
def notifyLeftSize : ℕ := 10

def memberOffset : ℕ := 2

def joinRequest : List UInt8 := [GroupType.joinRequest.code]

def keyDistribution (key : SessionKey) : List UInt8 :=
  GroupType.keyDistribution.code :: encode 8 key.toNat

def address (a : Address) : List UInt8 := a.paddr.addr.toList ++ encode 2 a.port.toNat

def key (payload : Memory) : SessionKey := UInt64.ofNat (decode (load payload 1 8))

def member (payload : Memory) : Address where
  paddr := ⟨Vector.ofFn fun i => payload (memberOffset + i)⟩
  port := UInt16.ofNat (decode (load payload (memberOffset + 6) 2))

end GroupPayload

namespace Gateway
variable (g : Gateway)

def setSessionKey (key : SessionKey) : Gateway := { g with shared.sessionKey := key }

def unregisterNearbyEntity (addr : MAC) : Gateway :=
  { g with shared.nearby := g.shared.nearby.unregister addr }

end Gateway

namespace GroupMemberHandler

def handleGroupMessage (g : Gateway) (payload : Memory) (size : ℕ) : Gateway :=
  if payload 0 = GroupType.keyDistribution.code then
    if size < GroupPayload.keyDistributionSize then g
    else g.setSessionKey (GroupPayload.key payload)
  else if payload 0 = GroupType.notifyLeft.code then
    if size < GroupPayload.notifyLeftSize then g
    else g.unregisterNearbyEntity (GroupPayload.member payload).paddr
  else g

def notifyLocationChange (g : Gateway) (timestamp : UInt64) : Option Output :=
  g.send g.externalAddress ⟨broadcastAddr, 0⟩
    (Segment.getBytes ⟨.group, timestamp, GroupPayload.joinRequest⟩)

end GroupMemberHandler

structure GroupLeaderHandler where
  sessionKey : SessionKey

namespace GroupLeaderHandler
variable (h : GroupLeaderHandler)

/-- The constructor stores the generated key in the shared block. No initializer
and no statement writes `_session_key`, which keeps the value its memory had. -/
def construct (g : Gateway) (uninitialized generated : SessionKey) :
    Gateway × GroupLeaderHandler :=
  (g.setSessionKey generated, ⟨uninitialized⟩)

def sendKey (g : Gateway) (timestamp : UInt64) (member : Address) : Option Output :=
  g.send g.externalAddress member
    (Segment.getBytes ⟨.group, timestamp, GroupPayload.keyDistribution h.sessionKey⟩)

/-- `GroupLeaderHandler::handle_group_message`: the client whose heartbeat is
updated, and the answer. -/
def handleGroupMessage (g : Gateway) (timestamp : UInt64) (payload : Memory) (source : Address) :
    Option (Address × Option Output) :=
  if payload 0 = GroupType.joinRequest.code then some (source, h.sendKey g timestamp source)
  else none

/-- `NotifyLeftSegment` in memory. The payload is aligned to two octets, so one
octet of padding comes before it and one inside it. The address is constructed
by default; `send_notify_left` does not assign it. -/
def notifyLeftSegment (timestamp : UInt64) (padding padding' : UInt8) : Segment where
  type := .group
  timestamp := timestamp
  payload := padding :: GroupType.notifyLeft.code :: padding' :: GroupPayload.address {}

def sendNotifyLeft (g : Gateway) (timestamp : UInt64) (padding padding' : UInt8)
    (_client : Address) : Option Output :=
  g.send g.externalAddress ⟨broadcastAddr, 0⟩
    (notifyLeftSegment timestamp padding padding').getBytes

end GroupLeaderHandler
end CommunicationAPI
