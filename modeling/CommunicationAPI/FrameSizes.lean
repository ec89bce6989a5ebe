import CommunicationAPI.DiscardedFrames
import CommunicationAPI.PubSub

/-!
# The sizes computed from a frame

`Protocol::update` subtracts the sizes of the headers and of the authentication code
from the length of a frame, all unsigned. It has checked no more than that the length
covers the packet header and the code.
-/

namespace CommunicationAPI
open Octets ShmEngine

inductive SizeKind
  | segment | systemPayload | checked | relayed | routing
  deriving DecidableEq, Repr

def SizeKind.excluded : SizeKind → ℕ
  | .checked => macSize
  | .segment | .relayed => packetHeaderSize + macSize
  | .systemPayload | .routing => packetHeaderSize + macSize + segmentHeaderSize

/-- The length up to which a frame fits the message of `receiver_loop`. -/
def receivableLength : ℕ := packetHeaderSize + messageCapacity + macSize

namespace Frame
variable (frame : Frame)

def segmentSize : ℕ := (frame.dataLength + 2 ^ 64 - (packetHeaderSize + macSize)) % 2 ^ 64

/-- `data_to_check_size`. -/
def checkedSize : ℕ := (frame.dataLength + uint32 - macSize) % uint32

/-- The argument `size` of the last call of `send`. -/
def relayedSize : ℕ := frame.segmentSize % uint32

/-- `seg_payload_size`. -/
def routingSize : ℕ :=
  (frame.dataLength + uint32 - (packetHeaderSize + macSize + segmentHeaderSize)) % uint32

def Counts (p : SizeKind × ℕ) : Prop := (p.2 : ℤ) = frame.dataLength - p.1.excluded

end Frame

/-- The sizes that `update` computes for the external NIC. -/
def Gateway.sizes (g : Gateway) (frame : Frame) : List (SizeKind × ℕ) :=
  if frame.dataLength < packetHeaderSize + macSize then []
  else (if g.Addressed frame then
      [(.segment, frame.segmentSize), (.systemPayload, frame.systemPayloadSize)] else []) ++
    if (g.filterSystemMessages frame frame.source frame.dest).isSome then []
    else (.checked, frame.checkedSize) ::
      if g.verifies frame then [(.relayed, frame.relayedSize)] else []

/-- The sizes that `notify_communicator` computes when the local NIC calls `update`. -/
def localSizes (external : Option Gateway) (frame : Frame) : List (SizeKind × ℕ) :=
  (outputNotifies (updateLocal external frame)).flatMap fun port =>
    if port = typeBasedRoutingPort then [(.routing, frame.routingSize)] else []

def systemSizes (l : List Output) : List ℕ :=
  l.filterMap fun o => match o with
    | .ptp _ size _ _ => some size
    | .group _ size _ => some size
    | _ => none

/-- All sizes that a reader of a bus computes are true, and those with which a segment is
examined or handled as a TEDS message. -/
structure ReadTrue (external : Option Gateway) (frame : Frame) : Prop where
  computed : ∀ p ∈ localSizes external frame, frame.Counts p
  handled : ∀ m, receiveMessage frame = some m → m.type = MsgType.teds.code →
    frame.Counts (.routing, m.payload.length)
  short : frame.dataLength < packetHeaderSize + macSize + segmentHeaderSize →
    (typeBasedRoutingPort ∈ outputNotifies (updateLocal external frame) →
      frameType frame = Teds.invalid) ∧ receiveMessage frame = none

/-- All sizes computed from a frame of the link are true, by the gateway and by the readers
of the bus to which it may be relayed. -/
structure LengthsTrue (g : Gateway) (frame : Frame) : Prop where
  computed : ∀ p ∈ g.sizes frame, frame.Counts p
  handled : ∀ size ∈ systemSizes (g.updateExternal frame).2, frame.Counts (.systemPayload, size)
  short : frame.dataLength < packetHeaderSize + macSize + segmentHeaderSize →
    systemSizes (g.updateExternal frame).2 = []
  read : ∀ c ∈ outputBuses (g.updateExternal frame).2, ∀ rest external,
    ReadTrue external (busFrame rest c)

/-- Without room for a segment header, a frame that is not dropped is for somebody else and
for a port. Without room in the message of the receiver, it is no TEDS message. -/
structure Sized (g : Gateway) (frame : Frame) : Prop where
  short : packetHeaderSize + macSize ≤ frame.dataLength →
    frame.dataLength < packetHeaderSize + macSize + segmentHeaderSize →
      ¬ g.Addressed frame ∧
        (g.verifies frame = true → Packet.dport frame.data ≠ typeBasedRoutingPort)
  long : receivableLength < frame.dataLength → frame.segmentType = MsgType.teds.code →
    g.verifies frame = false

def Frame.Readable (frame : Frame) : Prop :=
  (Packet.dport frame.data = typeBasedRoutingPort →
    packetHeaderSize + macSize + segmentHeaderSize ≤ frame.dataLength) ∧
  (receivableLength < frame.dataLength → frame.segmentType ≠ MsgType.teds.code)

theorem wrap_eq_iff {n k w : ℕ} (hn : n < w) : (((n + w - k) % w : ℕ) : ℤ) = n - k ↔ k ≤ n := by
  constructor
  · intro heq
    have hnonneg : (0 : ℤ) ≤ n - k := by
      rw [← heq]
      exact Int.natCast_nonneg _
    omega
  · intro hle
    have hsum : n + w - k = n - k + w := by omega
    rw [hsum, Nat.add_mod_right, Nat.mod_eq_of_lt (by omega), Nat.cast_sub hle]

namespace Frame
variable {frame : Frame} (hsize : frame.dataLength ≤ mtu)
include hsize

theorem counts_segment (hlength : packetHeaderSize + macSize ≤ frame.dataLength) :
    frame.Counts (.segment, frame.segmentSize) :=
  (wrap_eq_iff (hsize.trans_lt (by decide))).mpr hlength

theorem counts_checked (hlength : packetHeaderSize + macSize ≤ frame.dataLength) :
    frame.Counts (.checked, frame.checkedSize) :=
  (wrap_eq_iff (hsize.trans_lt (by decide))).mpr ((Nat.le_add_left _ _).trans hlength)

theorem counts_relayed (hlength : packetHeaderSize + macSize ≤ frame.dataLength) :
    frame.Counts (.relayed, frame.relayedSize) := by
  have hsegment := counts_segment hsize hlength
  have hlt : frame.segmentSize < uint32 := by
    change (frame.segmentSize : ℤ) = _ at hsegment
    unfold mtu at hsize
    unfold uint32
    omega
  unfold relayedSize
  rw [Nat.mod_eq_of_lt hlt]
  exact hsegment

theorem counts_systemPayload_iff : frame.Counts (.systemPayload, frame.systemPayloadSize) ↔
    packetHeaderSize + macSize + segmentHeaderSize ≤ frame.dataLength :=
  wrap_eq_iff (hsize.trans_lt (by decide))

theorem counts_routing_iff : frame.Counts (.routing, frame.routingSize) ↔
    packetHeaderSize + macSize + segmentHeaderSize ≤ frame.dataLength :=
  wrap_eq_iff (hsize.trans_lt (by decide))

end Frame

section
variable {frame : Frame} {external : Option Gateway}

theorem receiveMessage_of_lt (hlength : packetHeaderSize + macSize ≤ frame.dataLength)
    (hshort : frame.dataLength < packetHeaderSize + macSize + segmentHeaderSize) :
    receiveMessage frame = none := by
  have hdata : (frame.dataLength + uint32 - (packetHeaderSize + macSize)) % uint32 <
      segmentHeaderSize := by
    unfold packetHeaderSize macSize segmentHeaderSize at *
    unfold uint32
    omega
  unfold receiveMessage
  exact if_pos ((min_le_right _ _).trans_lt hdata)

theorem receiveMessage_of_le
    (hlength : packetHeaderSize + macSize + segmentHeaderSize ≤ frame.dataLength)
    (hsize : frame.dataLength ≤ mtu) :
    ∃ m, receiveMessage frame = some m ∧ m.type = frame.segmentType ∧
      (frame.Counts (.routing, m.payload.length) ↔ frame.dataLength ≤ receivableLength) := by
  have hdata : (frame.dataLength + uint32 - (packetHeaderSize + macSize)) % uint32 =
      frame.dataLength - (packetHeaderSize + macSize) := by
    unfold packetHeaderSize macSize segmentHeaderSize mtu uint32 at *
    omega
  have hlong : ¬ min messageCapacity (frame.dataLength - (packetHeaderSize + macSize)) <
      segmentHeaderSize := by
    unfold packetHeaderSize macSize segmentHeaderSize messageCapacity at *
    omega
  unfold receiveMessage
  simp only [hdata]
  rw [if_neg hlong]
  refine ⟨_, rfl, rfl, ?_⟩
  simp only [Frame.Counts, SizeKind.excluded, length_load]
  unfold receivableLength packetHeaderSize macSize segmentHeaderSize messageCapacity at *
  omega

theorem mem_localSizes {p : SizeKind × ℕ} : p ∈ localSizes external frame ↔
    typeBasedRoutingPort ∈ outputNotifies (updateLocal external frame) ∧
      p = (.routing, frame.routingSize) := by
  unfold localSizes
  rw [List.mem_flatMap]
  constructor
  · rintro ⟨port, hport, hp⟩
    split_ifs at hp with hrouting
    · exact ⟨hrouting ▸ hport, List.mem_singleton.mp hp⟩
    · cases hp
  · rintro ⟨hport, rfl⟩
    exact ⟨typeBasedRoutingPort, hport, by simp⟩

/-- What a reader makes of a frame that the gateway may have relayed. -/
theorem readTrue_iff (hdhost : frame.header.dhost ≠ broadcastAddr)
    (hlength : packetHeaderSize + macSize ≤ frame.dataLength) (hsize : frame.dataLength ≤ mtu) :
    ReadTrue external frame ↔ frame.Readable := by
  have hnotifies : typeBasedRoutingPort ∈ outputNotifies (updateLocal external frame) ↔
      Packet.dport frame.data = typeBasedRoutingPort := by
    rw [updateLocal_unicast external hdhost]
    simp [outputNotifies, eq_comm]
  have hreceivable : packetHeaderSize + macSize + segmentHeaderSize ≤ receivableLength := by decide
  constructor
  · refine fun htrue => ⟨fun hport => ?_, fun hlong htype => ?_⟩
    · exact (Frame.counts_routing_iff hsize).mp
        (htrue.computed _ (mem_localSizes.mpr ⟨hnotifies.mpr hport, rfl⟩))
    · obtain ⟨m, hm, hmtype, hcounts⟩ :=
        receiveMessage_of_le (hreceivable.trans hlong.le) hsize
      exact Nat.not_lt.mpr (hcounts.mp (htrue.handled m hm (hmtype.trans htype))) hlong
  · rintro ⟨hshort, hlong⟩
    refine ⟨fun p hp => ?_, fun m hm htype => ?_, fun hlt => ⟨fun hport => ?_, ?_⟩⟩
    · obtain ⟨hport, rfl⟩ := mem_localSizes.mp hp
      exact (Frame.counts_routing_iff hsize).mpr (hshort (hnotifies.mp hport))
    · rcases Nat.lt_or_ge frame.dataLength (packetHeaderSize + macSize + segmentHeaderSize)
        with hlt | hle
      · rw [receiveMessage_of_lt hlength hlt] at hm
        cases hm
      · obtain ⟨m', hm', hmtype, hcounts⟩ := receiveMessage_of_le hle hsize
        cases hm.symm.trans hm'
        refine hcounts.mpr (Nat.not_lt.mp fun hgt => hlong hgt (hmtype.symm.trans htype))
    · exact absurd (hshort (hnotifies.mp hport)) (Nat.not_le.mpr hlt)
    · exact receiveMessage_of_lt hlength hlt

end

structure RelayedAs (frame : Frame) (c : SendCall) (rest : Memory) : Prop where
  dhost : (busFrame rest c).header.dhost ≠ broadcastAddr
  dataLength : (busFrame rest c).dataLength = frame.dataLength
  dport : Packet.dport (busFrame rest c).data = Packet.dport frame.data
  segmentType : packetHeaderSize + macSize < frame.dataLength →
    (busFrame rest c).segmentType = frame.segmentType

theorem RelayedAs.readTrue_iff {frame : Frame} {c : SendCall} {rest : Memory}
    {external : Option Gateway} (h : RelayedAs frame c rest)
    (hlength : packetHeaderSize + macSize ≤ frame.dataLength) (hsize : frame.dataLength ≤ mtu) :
    ReadTrue external (busFrame rest c) ↔ frame.Readable := by
  have hreceivable : packetHeaderSize + macSize < receivableLength := by decide
  rw [CommunicationAPI.readTrue_iff h.dhost (h.dataLength ▸ hlength) (h.dataLength ▸ hsize)]
  unfold Frame.Readable
  rw [h.dport, h.dataLength]
  refine and_congr_right fun _ => forall_congr' fun hlong => ?_
  rw [h.segmentType (hreceivable.trans hlong)]

namespace Gateway
variable {g : Gateway} {frame : Frame}

theorem systemSizes_updateExternal : systemSizes (g.updateExternal frame).2 =
    if packetHeaderSize + macSize ≤ frame.dataLength ∧ g.Addressed frame ∧ frame.IsSystem then
      [frame.systemPayloadSize]
    else [] := by
  rw [updateExternal_outputs]
  by_cases hsmall : frame.dataLength < packetHeaderSize + macSize
  · have hno : ¬ (packetHeaderSize + macSize ≤ frame.dataLength ∧ g.Addressed frame ∧
        frame.IsSystem) := fun h => Nat.not_le.mpr hsmall h.1
    rw [if_pos hsmall, if_neg hno]
    rfl
  rw [if_neg hsmall]
  by_cases hsystem : g.Addressed frame ∧ frame.IsSystem
  · have hentered : packetHeaderSize + macSize ≤ frame.dataLength ∧ g.Addressed frame ∧
        frame.IsSystem := ⟨Nat.not_lt.mp hsmall, hsystem⟩
    rw [if_pos hentered, filterSystemMessages_eq, if_pos hsystem.1]
    rcases hsystem.2 with htype | htype
    · rw [if_pos htype]
      rfl
    · have hother : frame.segmentType ≠ MsgType.ptp.code := by
        rw [htype]
        decide
      rw [if_neg hother, if_pos htype]
      rfl
  · have hno : ¬ (packetHeaderSize + macSize ≤ frame.dataLength ∧ g.Addressed frame ∧
        frame.IsSystem) := fun h => hsystem h.2
    have hnone : g.filterSystemMessages frame frame.source frame.dest = none :=
      filterSystemMessages_eq_none.mpr fun haddressed htype => hsystem ⟨haddressed, htype⟩
    rw [hnone, if_neg hno, Option.elim_none, send_local rfl, sendFrame_eq]
    split_ifs <;> rfl

/-- A frame with the segment of another one, for the same port, holds what that one does. -/
theorem relayedAs_packetCall {loc : Quadrant} {key : SessionKey} {src : Address} {port : Port}
    {segment : List UInt8} (h : packetHeaderSize + segment.length + macSize ≤ mtu)
    (hport : port = Packet.dport frame.data)
    (hsegment : segment = load frame.data packetHeaderSize
      (frame.dataLength - packetHeaderSize - macSize))
    (hlength : packetHeaderSize + macSize ≤ frame.dataLength) (rest : Memory) :
    RelayedAs frame (packetCall loc key src ⟨localAddr, port⟩ segment h) rest := by
  have hholds : Packet.Holds (busFrame rest (packetCall loc key src ⟨localAddr, port⟩ segment
      h)).data loc src.port port segment key := busFrame_packetCall_holds h rest
  refine ⟨localAddr_ne_broadcastAddr, ?_, hholds.dport_eq.trans hport, fun hlong => ?_⟩
  · change (packetCall loc key src ⟨localAddr, port⟩ segment h).data.length = _
    rw [length_packetCall, hsegment, length_load]
    omega
  · refine hholds.type_eq ?_
    obtain ⟨n, hn⟩ : ∃ n, frame.dataLength - packetHeaderSize - macSize = n + 1 :=
      ⟨frame.dataLength - packetHeaderSize - macSize - 1, by omega⟩
    rw [hsegment, hn, Nat.add_comm, load_append]
    rfl

/-- The gateway relays a frame as it is, to its own bus, or not at all. -/
theorem outputBuses_updateExternal (hsize : frame.dataLength ≤ mtu) :
    (outputBuses (g.updateExternal frame).2 ≠ [] ↔
        packetHeaderSize + macSize ≤ frame.dataLength ∧
          (g.Addressed frame → ¬ frame.IsSystem) ∧ g.verifies frame = true) ∧
      ∀ c ∈ outputBuses (g.updateExternal frame).2, ∀ rest, RelayedAs frame c rest := by
  rw [updateExternal_outputs]
  by_cases hsmall : frame.dataLength < packetHeaderSize + macSize
  · rw [if_pos hsmall]
    exact ⟨⟨fun hne => absurd rfl hne, fun h => absurd hsmall (Nat.not_lt.mpr h.1)⟩,
      fun c hc => by cases hc⟩
  rw [if_neg hsmall]
  have hlength := Nat.not_lt.mp hsmall
  have hfits : packetHeaderSize + (load frame.data packetHeaderSize
      (frame.dataLength - packetHeaderSize - macSize)).length + macSize ≤ mtu := by
    rw [length_load]
    omega
  by_cases hnone : g.filterSystemMessages frame frame.source frame.dest = none
  · have hdata := filterSystemMessages_eq_none.mp hnone
    rw [hnone, Option.elim_none, send_local rfl, sendFrame_eq, dif_pos hfits]
    cases hmac : g.verifies frame with
    | false =>
      exact ⟨⟨fun hne => absurd rfl hne, fun h => by cases h.2.2⟩, fun c hc => by cases hc⟩
    | true =>
      refine ⟨⟨fun _ => ⟨hlength, hdata, rfl⟩, fun _ hnil => by cases hnil⟩, fun c hc rest => ?_⟩
      cases List.mem_singleton.mp hc
      exact relayedAs_packetCall hfits rfl rfl hlength rest
  · obtain ⟨message, hmessage⟩ := Option.ne_none_iff_exists'.mp hnone
    have hnobus : outputBuses [message] = [] := by
      rw [filterSystemMessages_eq] at hmessage
      split_ifs at hmessage <;> cases hmessage <;> rfl
    rw [hmessage, Option.elim_some, hnobus]
    exact ⟨⟨fun hne => absurd rfl hne,
      fun h => absurd (filterSystemMessages_eq_none.mpr h.2.1) hnone⟩, fun c hc => by cases hc⟩

/-- The filter alone computes a size that the first check does not cover. -/
theorem sizes_count_iff (hsize : frame.dataLength ≤ mtu) :
    (∀ p ∈ g.sizes frame, frame.Counts p) ↔
      (packetHeaderSize + macSize ≤ frame.dataLength → g.Addressed frame →
        packetHeaderSize + macSize + segmentHeaderSize ≤ frame.dataLength) := by
  unfold sizes
  by_cases hsmall : frame.dataLength < packetHeaderSize + macSize
  · rw [if_pos hsmall]
    exact ⟨fun _ hlength => absurd hsmall (Nat.not_lt.mpr hlength), fun _ p hp => by cases hp⟩
  have hlength := Nat.not_lt.mp hsmall
  have hchecked : ∀ p ∈ (if (g.filterSystemMessages frame frame.source frame.dest).isSome then []
      else (SizeKind.checked, frame.checkedSize) ::
        if g.verifies frame then [(SizeKind.relayed, frame.relayedSize)] else []),
      frame.Counts p := by
    intro p hp
    split_ifs at hp
    · cases hp
    · rcases List.mem_cons.mp hp with rfl | hp
      · exact Frame.counts_checked hsize hlength
      · cases List.mem_singleton.mp hp
        exact Frame.counts_relayed hsize hlength
    · cases List.mem_singleton.mp hp
      exact Frame.counts_checked hsize hlength
  rw [if_neg hsmall, List.forall_mem_append]
  constructor
  · rintro ⟨hfilter, -⟩ - haddressed
    rw [if_pos haddressed] at hfilter
    exact (Frame.counts_systemPayload_iff hsize).mp (hfilter _ (by simp))
  · refine fun hheader => ⟨fun p hp => ?_, hchecked⟩
    split_ifs at hp with haddressed
    · rcases List.mem_cons.mp hp with rfl | hp
      · exact Frame.counts_segment hsize hlength
      · cases List.mem_singleton.mp hp
        exact (Frame.counts_systemPayload_iff hsize).mpr (hheader hlength haddressed)
    · cases hp

theorem read_relayed_iff (hsize : frame.dataLength ≤ mtu) :
    (∀ c ∈ outputBuses (g.updateExternal frame).2, ∀ rest external,
        ReadTrue external (busFrame rest c)) ↔
      (packetHeaderSize + macSize ≤ frame.dataLength → (g.Addressed frame → ¬ frame.IsSystem) →
        g.verifies frame = true → frame.Readable) := by
  obtain ⟨hrelays, hrelayed⟩ := outputBuses_updateExternal (g := g) hsize
  constructor
  · intro hread hlength hdata hmac
    obtain ⟨c, hc⟩ := List.exists_mem_of_ne_nil _ (hrelays.mpr ⟨hlength, hdata, hmac⟩)
    exact ((hrelayed c hc fun _ => 0).readTrue_iff hlength hsize).mp (hread c hc _ none)
  · intro hreadable c hc rest external
    obtain ⟨hlength, hdata, hmac⟩ := hrelays.mp (List.ne_nil_of_mem hc)
    exact ((hrelayed c hc rest).readTrue_iff hlength hsize).mpr (hreadable hlength hdata hmac)

/-- The sizes computed from a frame are those of what is there if and only if a frame
that gets past the first check without a segment header is not looked into, and a frame
longer than the message of the receiver is no TEDS message. -/
theorem lengthsTrue_iff (g : Gateway) (frame : Frame) (hsize : frame.dataLength ≤ mtu) :
    LengthsTrue g frame ↔ Sized g frame := by
  constructor
  · intro htrue
    have hheader := (sizes_count_iff hsize).mp htrue.computed
    have hreadable := (read_relayed_iff hsize).mp htrue.read
    refine ⟨fun hlength hlt => ?_, fun hlong htype => ?_⟩
    · have hforeign : ¬ g.Addressed frame := fun haddressed =>
        Nat.not_le.mpr hlt (hheader hlength haddressed)
      refine ⟨hforeign, fun hmac hport => Nat.not_le.mpr hlt ?_⟩
      exact (hreadable hlength (fun haddressed => absurd haddressed hforeign) hmac).1 hport
    · have hreceivable : packetHeaderSize + macSize ≤ receivableLength := by decide
      have hdata : ¬ frame.IsSystem := by
        unfold Frame.IsSystem
        rw [htype]
        decide
      by_contra hmac
      exact (hreadable (hreceivable.trans hlong.le) (fun _ => hdata)
        (Bool.eq_true_of_not_eq_false hmac)).2 hlong htype
  · intro hsized
    have hheader : packetHeaderSize + macSize ≤ frame.dataLength → g.Addressed frame →
        packetHeaderSize + macSize + segmentHeaderSize ≤ frame.dataLength := by
      intro hlength haddressed
      by_contra hlt
      exact (hsized.short hlength (Nat.not_le.mp hlt)).1 haddressed
    refine ⟨(sizes_count_iff hsize).mpr hheader, fun size hmem => ?_, fun hlt => ?_,
      (read_relayed_iff hsize).mpr fun hlength _ hmac => ⟨fun hport => ?_, fun hlong htype => ?_⟩⟩
    · rw [systemSizes_updateExternal] at hmem
      split_ifs at hmem with hentered
      · rw [List.mem_singleton.mp hmem]
        exact (Frame.counts_systemPayload_iff hsize).mpr (hheader hentered.1 hentered.2.1)
      · cases hmem
    · rw [systemSizes_updateExternal, if_neg]
      rintro ⟨hlength, haddressed, -⟩
      exact Nat.not_le.mpr hlt (hheader hlength haddressed)
    · by_contra hlt
      exact (hsized.short hlength (Nat.not_le.mp hlt)).2 hmac hport
    · exact absurd hmac (by simp [hsized.long hlong htype])

/-- A complete SYNC. -/
theorem lengthsTrue_sync : LengthsTrue (northGateway 1 7) (ProtocolState.syncFrame 31) := by
  refine (lengthsTrue_iff (northGateway 1 7) (ProtocolState.syncFrame 31) (by decide)).mpr
    ⟨fun _ hlt => absurd hlt (by decide), fun hlong => absurd hlong (by decide)⟩

/-- A broadcast that ends after the place of the authentication code. -/
theorem not_lengthsTrue_short :
    ∃ (g : Gateway) (frame : Frame), frame.dataLength ≤ mtu ∧ ¬ LengthsTrue g frame := by
  refine ⟨northGateway 1 7, ProtocolState.syncFrame 13, by decide, fun htrue => ?_⟩
  exact absurd (htrue.short (by decide)) (by decide +kernel)

end Gateway

end CommunicationAPI
