import CommunicationAPI.GroupHandlers

/-!
# Departure notices

The notice is written with the padding of a plain struct and read at the offset
of a packed one, and the departed client is never written into it.
-/

namespace CommunicationAPI.NotifyLeft
open Octets ShmEngine

/-- A payload in memory is recognised as the notice for client `c`, and handling
it removes exactly that client. -/
structure Names (c : Address) (g : Gateway) (payload : Memory) (size : ℕ) : Prop where
  recognised : payload 0 = GroupType.notifyLeft.code ∧ GroupPayload.notifyLeftSize ≤ size
  member : GroupPayload.member payload = c
  removed : ∀ addr,
    addr ∈ (GroupMemberHandler.handleGroupMessage g payload size).shared.nearby.entries ↔
      addr ∈ g.shared.nearby.entries ∧ addr ≠ c.paddr

/-- The gateway passes the frame to its group handler as the notice for client `c`. -/
def Noticed (c : Address) (g : Gateway) (rest : Memory) (f : WireFrame) : Prop :=
  ∃ payload size source, outputGroup (g.handleReceive rest f).2 = some (payload, size, source) ∧
    Names c (g.handleReceive rest f).1 payload size

/-- The notice that the octets on the link happen to spell: the padding of the
payload and the cleared address, one octet further on than the reader assumes. -/
def spelled (padding' : UInt8) : Address := ⟨⟨#v[padding', 0, 0, 0, 0, 0]⟩, 0⟩

theorem names_iff {c : Address} {g : Gateway} {payload : Memory} {size : ℕ} :
    Names c g payload size ↔ payload 0 = GroupType.notifyLeft.code ∧
      GroupPayload.notifyLeftSize ≤ size ∧ GroupPayload.member payload = c := by
  constructor
  · intro h
    exact ⟨h.recognised.1, h.recognised.2, h.member⟩
  · rintro ⟨htype, hsize, hmember⟩
    constructor
    · exact ⟨htype, hsize⟩
    · exact hmember
    · intro addr
      have hno : GroupType.notifyLeft.code ≠ GroupType.keyDistribution.code := by decide
      unfold GroupMemberHandler.handleGroupMessage
      rw [htype, if_neg hno, if_pos rfl, if_neg (Nat.not_lt.mpr hsize), hmember]
      exact NearbyEntities.mem_unregister _ _ _

section
variable {f : WireFrame} {sp dp : Port} {timestamp : UInt64} {padding padding' : UInt8}

/-- What the reader finds at its own offsets. -/
theorem payload_notice
    (h : f.Has sp dp (GroupLeaderHandler.notifyLeftSegment timestamp padding padding'))
    (rest : Memory) :
    f.payload rest 0 = padding ∧ GroupPayload.member (f.payload rest) = spelled padding' := by
  have hload : load (f.payload rest) 0 11 =
      [padding, 2, padding', 0, 0, 0, 0, 0, 0, 0, 0] := h.load_payload rest
  have hsplit : ∀ m : Memory, load m 0 11 =
      [m 0, m 1, m 2, m 3, m 4, m 5, m 6, m 7, m 8, m 9, m 10] := fun _ => rfl
  have hmember : ∀ m : Memory, GroupPayload.member m =
      ⟨⟨#v[m 2, m 3, m 4, m 5, m 6, m 7]⟩, UInt16.ofNat (decode [m 8, m 9])⟩ := fun _ => rfl
  rw [hsplit] at hload
  simp only [List.cons.injEq] at hload
  obtain ⟨h0, -, h2, h3, h4, h5, h6, h7, h8, h9, -⟩ := hload
  rw [hmember, h0, h2, h3, h4, h5, h6, h7, h8, h9]
  exact ⟨rfl, rfl⟩

/-- The size is that of the packed payload and one octet more. -/
theorem payloadSize_notice
    (h : f.Has sp dp (GroupLeaderHandler.notifyLeftSegment timestamp padding padding'))
    (hsize : f.data.length ≤ mtu) : f.payloadSize = 11 := h.payloadSize_eq hsize

theorem noticed_iff_spelled {leader member : Gateway} {src dst c : Address} (rest : Memory)
    (hsent : leader.Sent src dst
      (GroupLeaderHandler.notifyLeftSegment timestamp padding padding') f)
    (haccepts : member.Accepts f) :
    Noticed c member rest f ↔
      padding = GroupType.notifyLeft.code ∧ c = spelled padding' := by
  obtain ⟨htype, hmember⟩ := payload_notice hsent.has rest
  have hreceived := (Gateway.system_received rest haccepts hsent.has).1 rfl
  have hsize : f.payloadSize = 11 := payloadSize_notice hsent.has hsent.length_le
  unfold Noticed
  rw [hreceived]
  constructor
  · rintro ⟨payload, size, source, hsome, hnames⟩
    rw [Option.some.injEq, Prod.mk.injEq, Prod.mk.injEq] at hsome
    obtain ⟨rfl, rfl, rfl⟩ := hsome
    obtain ⟨hcode, -, hc⟩ := names_iff.mp hnames
    rw [htype] at hcode
    rw [hmember] at hc
    exact ⟨hcode, hc.symm⟩
  · rintro ⟨hcode, hc⟩
    refine ⟨_, _, _, rfl, names_iff.mpr ⟨?_, ?_, ?_⟩⟩
    · rw [htype, hcode]
    · rw [hsize]
      decide
    · rw [hmember, hc]

end

/-- The leader puts one frame on the link, which every member of the quadrant accepts. -/
theorem sendNotifyLeft_accepted (leader : Gateway) (timestamp : UInt64) (padding padding' : UInt8)
    (c : Address) : ∃ f,
      outputLinks (GroupLeaderHandler.sendNotifyLeft leader timestamp padding padding' c).toList =
        [f] ∧
      leader.Sent leader.externalAddress ⟨broadcastAddr, 0⟩
        (GroupLeaderHandler.notifyLeftSegment timestamp padding padding') f ∧
      ∀ member : Gateway, leader.address ≠ member.address → member.quadrant = leader.quadrant →
        member.Accepts f := by
  have hsize : overhead +
      (GroupLeaderHandler.notifyLeftSegment timestamp padding padding').payload.length ≤ mtu := by
    change 33 ≤ 1500
    decide
  obtain ⟨f, hf, hsent⟩ := leader.outputLinks_send leader.externalAddress ⟨broadcastAddr, 0⟩
    leader.address.2.symm localAddr_ne_broadcastAddr.symm hsize
  refine ⟨f, hf, hsent, fun member haddress hquadrant => ⟨?_, ?_, .inr hsent.dhost⟩⟩
  · rw [hsent.shost]
    exact fun heq => haddress (Subtype.ext heq)
  · rw [hsent.stamp, hquadrant]

/-- A member notices the departure of client `c` only if the octet of padding
before the payload happens to be the code of a notice, and `c` happens to have
the address that the other padding and the cleared address spell. -/
theorem noticed_iff (leader member : Gateway) (c : Address) (timestamp : UInt64)
    (padding padding' : UInt8) (rest : Memory) (haddress : leader.address ≠ member.address)
    (hquadrant : member.quadrant = leader.quadrant) :
    ∃ f, outputLinks
        (GroupLeaderHandler.sendNotifyLeft leader timestamp padding padding' c).toList = [f] ∧
      (Noticed c member rest f ↔ padding = GroupType.notifyLeft.code ∧ c = spelled padding') := by
  obtain ⟨f, hf, hsent, haccepts⟩ := sendNotifyLeft_accepted leader timestamp padding padding' c
  exact ⟨f, hf, noticed_iff_spelled rest hsent (haccepts member haddress hquadrant)⟩

theorem noticed_iff_of_two_gateways :
    ∃ f, outputLinks (GroupLeaderHandler.sendNotifyLeft (northGateway 1 7) 0 2 3
        ⟨⟨#v[3, 0, 0, 0, 0, 0]⟩, 0⟩).toList = [f] ∧
      (Noticed ⟨⟨#v[3, 0, 0, 0, 0, 0]⟩, 0⟩ (northGateway 2 7) (fun _ => 0) f ↔
        (2 : UInt8) = GroupType.notifyLeft.code ∧
          (⟨⟨#v[3, 0, 0, 0, 0, 0]⟩, 0⟩ : Address) = spelled 3) :=
  noticed_iff (northGateway 1 7) (northGateway 2 7) ⟨⟨#v[3, 0, 0, 0, 0, 0]⟩, 0⟩ 0 2 3 (fun _ => 0)
    (northGateway_address_inj.not.mpr (by decide)) rfl

/-- Even if the padding is that of a notice, the departed vehicle is not named. -/
theorem not_noticed_vehicle :
    ∃ f, outputLinks (GroupLeaderHandler.sendNotifyLeft (northGateway 1 7) 0 2 0
        ⟨(northGateway 3 7).address.1, 0⟩).toList = [f] ∧
      ¬ Noticed ⟨(northGateway 3 7).address.1, 0⟩ (northGateway 2 7) (fun _ => 0) f := by
  obtain ⟨f, hf, hsent, haccepts⟩ := sendNotifyLeft_accepted (northGateway 1 7) 0 2 0
    ⟨(northGateway 3 7).address.1, 0⟩
  refine ⟨f, hf, fun hnoticed => ?_⟩
  have hspelled := (noticed_iff_spelled (fun _ => 0) hsent
    (haccepts (northGateway 2 7) (northGateway_address_inj.not.mpr (by decide)) rfl)).mp hnoticed
  exact absurd hspelled.2 (by decide)

end CommunicationAPI.NotifyLeft
