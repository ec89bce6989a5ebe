import CommunicationAPI.Communicator

/-!
# Destinations outside the vehicle

`Protocol::send` of a gateway and the local branch of `update` each decide for
themselves which frames leave the vehicle.
-/

namespace CommunicationAPI
open Octets ShmEngine

namespace Gateway
variable (g : Gateway)

def IsExternal (paddr : MAC) : Prop := paddr ≠ g.address.1 ∧ paddr ≠ localAddr

instance (paddr : MAC) : Decidable (g.IsExternal paddr) :=
  inferInstanceAs (Decidable (paddr ≠ g.address.1 ∧ paddr ≠ localAddr))

def linkFrame (src dst : Address) (segment : List UInt8) : WireFrame where
  header := ⟨dst.paddr, g.address.1, htons ethernetProtocolNumber⟩
  data := Packet.octets g.quadrant src.port dst.port segment g.shared.sessionKey

variable {g} {src dst : Address} {segment : List UInt8}

theorem isExternal_broadcastAddr : g.IsExternal broadcastAddr :=
  ⟨g.address.2.symm, localAddr_ne_broadcastAddr.symm⟩

/-- The local branch of `update` forwards nothing but broadcasts. -/
theorem receiveLocal_unicast {c : SendCall} (rest : Memory)
    (hc : c.protocol = ethernetProtocolNumber) (hdst : c.dstMac ≠ broadcastAddr) :
    outputLinks (g.receiveLocal rest c) = [] := by
  have hdhost : (busFrame rest c).header.dhost ≠ broadcastAddr := hdst
  have hlocal : g.updateLocal (busFrame rest c) = [.notify (Packet.dport (busFrame rest c).data)] :=
    updateLocal_unicast (some g) hdhost
  rw [receiveLocal_eq rest hc, hlocal]
  rfl

end Gateway

/-- A frame `c` on the bus, with a segment from `src` to `dst`, means to everyone who
reads it what its address means to `send`: the gateway takes it to the link or leaves
it, and the processes keep it from their port listeners or deliver it. -/
structure OneMeaning (g : Gateway) (src dst : Address) (segment : List UInt8) (c : SendCall) :
    Prop where
  forwarded : g.IsExternal dst.paddr → ∀ rest,
    outputLinks (g.receiveLocal rest c) = [g.linkFrame src dst segment]
  hidden : g.IsExternal dst.paddr → ∀ rest external (e : Endpoints),
    e.portRecipients external (busFrame rest c) = []
  kept : ¬ g.IsExternal dst.paddr → ∀ rest, outputLinks (g.receiveLocal rest c) = []
  delivered : ¬ g.IsExternal dst.paddr → ∀ rest external (e : Endpoints),
    e.recipients external (busFrame rest c) = e.listeners dst.port (busFrame rest c)

section
variable {g : Gateway} {loc : Quadrant} {key : SessionKey} {src dst : Address}
  {segment : List UInt8} (h : packetHeaderSize + segment.length + macSize ≤ mtu)

theorem oneMeaning_broadcast (hdst : dst.paddr = broadcastAddr) :
    OneMeaning g src dst segment (packetCall loc key src dst segment h) where
  forwarded _ rest := (Gateway.outputs_broadcast loc key src rest hdst h).2
  hidden _ _ _ _ := Endpoints.portRecipients_broadcast hdst
  kept hinternal := by
    rw [hdst] at hinternal
    exact absurd Gateway.isExternal_broadcastAddr hinternal
  delivered hinternal := by
    rw [hdst] at hinternal
    exact absurd Gateway.isExternal_broadcastAddr hinternal

theorem oneMeaning_internal (hdst : ¬ g.IsExternal dst.paddr) :
    OneMeaning g src dst segment (packetCall loc key src dst segment h) := by
  have hunicast : dst.paddr ≠ broadcastAddr := by
    intro heq
    rw [heq] at hdst
    exact hdst Gateway.isExternal_broadcastAddr
  constructor
  · intro hexternal
    exact absurd hexternal hdst
  · intro hexternal
    exact absurd hexternal hdst
  · intro _ rest
    exact Gateway.receiveLocal_unicast rest rfl hunicast
  · intro _ rest external e
    rw [Endpoints.recipients_unicast hunicast, (busFrame_packetCall_holds h rest).dport_eq]

end

/-- The two decisions agree on the broadcast address and on the two internal addresses,
and on no other. -/
theorem oneMeaning_iff (g : Gateway) {shared : SharedInfo} {src dst : Address}
    {segment : List UInt8} {c : SendCall} (hsend : shared.send src dst segment = some c) :
    OneMeaning g src dst segment c ↔
      dst.paddr = broadcastAddr ∨ dst.paddr = localAddr ∨ dst.paddr = g.address.1 := by
  unfold SharedInfo.send at hsend
  rw [call_sendFrame] at hsend
  split_ifs at hsend with h
  cases hsend
  constructor
  · intro hmeaning
    by_contra hdst
    obtain ⟨hbroadcast, hlocal, haddress⟩ : dst.paddr ≠ broadcastAddr ∧
        dst.paddr ≠ localAddr ∧ dst.paddr ≠ g.address.1 := by simpa using hdst
    have hforwarded := hmeaning.forwarded ⟨haddress, hlocal⟩ fun _ => 0
    rw [Gateway.receiveLocal_unicast _ rfl hbroadcast] at hforwarded
    cases hforwarded
  · rintro (hbroadcast | hlocal | haddress)
    · exact oneMeaning_broadcast h hbroadcast
    · exact oneMeaning_internal h fun hexternal => hexternal.2 hlocal
    · exact oneMeaning_internal h fun hexternal => hexternal.1 haddress

theorem oneMeaning_of_broadcast :
    ∃ c, (northGateway 1 7).shared.send ⟨localAddr, 5⟩ ⟨broadcastAddr, 9⟩ [0] = some c ∧
      OneMeaning (northGateway 1 7) ⟨localAddr, 5⟩ ⟨broadcastAddr, 9⟩ [0] c := by
  have hsend : (northGateway 1 7).shared.send ⟨localAddr, 5⟩ ⟨broadcastAddr, 9⟩ [0] =
      some (packetCall .north 7 ⟨localAddr, 5⟩ ⟨broadcastAddr, 9⟩ [0] (by decide)) :=
    call_sendFrame _ _ _ _ _
  exact ⟨_, hsend, (oneMeaning_iff (northGateway 1 7) hsend).mpr (.inl rfl)⟩

/-- The address of another vehicle is not forwarded. -/
theorem not_oneMeaning_unicast :
    ¬ ∀ (g : Gateway) (shared : SharedInfo) (src dst : Address) (segment : List UInt8)
        (c : SendCall), shared.send src dst segment = some c → OneMeaning g src dst segment c := by
  intro h
  have hsend : (northGateway 1 7).shared.send ⟨localAddr, 5⟩ (northGateway 2 7).externalAddress
      [0] = some (packetCall .north 7 ⟨localAddr, 5⟩ (northGateway 2 7).externalAddress [0]
        (by decide)) := call_sendFrame _ _ _ _ _
  have hforwarded := (h (northGateway 1 7) _ _ _ _ _ hsend).forwarded (by decide) fun _ => 0
  rw [Gateway.receiveLocal_unicast _ rfl (by decide)] at hforwarded
  cases hforwarded

end CommunicationAPI
