import CommunicationAPI.DiscardedFrames

/-!
# What comes from the link to the bus

A frame is put on the bus unless the filter takes it or its authentication code is
wrong. The filter looks at the destination, and what the filter does not take is not
asked for it again. Handlers answer to the source of a message, wherever that is.
-/

namespace CommunicationAPI
open Octets ShmEngine

/-- Broadcast or for the gateway, no message for a handler, and authentic. -/
structure Gateway.Admissible (g : Gateway) (frame : Frame) : Prop where
  addressed : g.Addressed frame
  data : ¬ frame.IsSystem
  length : packetHeaderSize + macSize ≤ frame.dataLength
  authentic : g.verifies frame = true

def Gateway.HandsUp (g : Gateway) (rest : Memory) (f : WireFrame) : Prop :=
  f.header.shost ≠ g.address.1 ∧ g.filterLocation (receivedFrame rest f) = false ∧
    ntohs f.header.type = ethernetProtocolNumber

instance (g : Gateway) (rest : Memory) (f : WireFrame) : Decidable (g.HandsUp rest f) :=
  inferInstanceAs (Decidable (_ ∧ _))

def Synchronizer.Answers (sync : Synchronizer) (payload : Memory) (size : ℕ) : Prop :=
  match sync with
  | .slave h => h.state = .awaitingSync ∧ payload 0 = SyncType.sync.code ∧
      TimePayload.stampedSize ≤ size
  | .master => TimePayload.headerSize ≤ size ∧
      (payload 0 = SyncType.start.code ∨ payload 0 = SyncType.delayRequest.code)

def GroupHandler.Answers (handler : GroupHandler) (payload : Memory) : Prop :=
  match handler with
  | .member => False
  | .leader _ _ => payload 0 = GroupType.joinRequest.code

def ToBus (o : Option Output) : Prop := outputBuses o.toList ≠ []

theorem toBus_send {g : Gateway} {src dst : Address} {data : List UInt8} :
    ToBus (g.send src dst data) ↔ (dst.paddr = g.address.1 ∨ dst.paddr = localAddr) ∧
      packetHeaderSize + data.length + macSize ≤ mtu := by
  unfold ToBus Gateway.send
  by_cases hdst : dst.paddr ≠ g.address.1 ∧ dst.paddr ≠ localAddr
  · rw [if_pos hdst, outputBuses_link]
    have hno : ¬ (dst.paddr = g.address.1 ∨ dst.paddr = localAddr) := by
      rintro (howner | hlocal)
      · exact hdst.1 howner
      · exact hdst.2 hlocal
    simp [hno]
  · rw [if_neg hdst, outputBuses_bus, call_sendFrame]
    have hyes : dst.paddr = g.address.1 ∨ dst.paddr = localAddr := by
      by_contra hno
      exact hdst ⟨fun howner => hno (.inl howner), fun hlocal => hno (.inr hlocal)⟩
    split_ifs with hsize
    · simp [hyes, hsize]
    · simp [hsize]

/-- A short message to `dst` is put on the bus if that is where `dst` is. -/
theorem toBus_answer {g : Gateway} {src dst : Address} {s : Segment}
    (hsize : s.payload.length ≤ TimePayload.stampedSize) :
    ToBus (g.send src dst s.getBytes) ↔ dst.paddr = g.address.1 ∨ dst.paddr = localAddr := by
  rw [toBus_send, Segment.length_getBytes]
  unfold TimePayload.stampedSize at hsize
  have hfits : packetHeaderSize + (segmentHeaderSize + s.payload.length) + macSize ≤ mtu := by
    unfold packetHeaderSize segmentHeaderSize macSize mtu
    omega
  exact ⟨And.left, fun hdst => ⟨hdst, hfits⟩⟩

/-- A call that sends nothing agrees with a condition that does not hold. -/
theorem toBus_none_iff {o : Option Output} {p q : Prop} (ho : o = none) (hp : ¬ p) :
    ToBus o ↔ p ∧ q := by
  rw [ho]
  exact ⟨fun hbus => absurd rfl hbus, fun hpq => absurd hpq.1 hp⟩

section
variable {g : Gateway} {clock : SystemClock} {payload : Memory} {size : ℕ} {source dest : Address}

theorem SlaveSynchronizer.toBus_iff {h : SlaveSynchronizer} :
    ToBus (h.handlePtpMessage g clock payload size source dest).sent ↔
      (Synchronizer.slave h).Answers payload size ∧
        (source.paddr = g.address.1 ∨ source.paddr = localAddr) := by
  unfold handlePtpMessage
  split_ifs with hsize htype hshort htype' hshort' hignored
  · refine toBus_none_iff rfl fun hanswers => ?_
    have hstamped := hanswers.2.2
    unfold TimePayload.headerSize at hsize
    unfold TimePayload.stampedSize at hstamped
    omega
  · exact toBus_none_iff rfl fun hanswers => Nat.not_le.mpr hshort hanswers.2.2
  · unfold receiveSync
    split_ifs with hstate
    · exact toBus_none_iff rfl fun hanswers => hstate hanswers.1
    · have hshown : (Synchronizer.slave h).Answers payload size :=
        ⟨not_not.mp hstate, htype, Nat.not_lt.mp hshort⟩
      refine (toBus_answer ?_).trans ⟨fun hsource => ⟨hshown, hsource⟩, And.right⟩
      simp [TimePayload.plain, TimePayload.stampedSize]
  · exact toBus_none_iff rfl fun hanswers => htype hanswers.2.1
  · exact toBus_none_iff (receiveDelayResp_sent h clock) fun hanswers => htype hanswers.2.1
  · exact toBus_none_iff rfl fun hanswers => htype hanswers.2.1
  · exact toBus_none_iff rfl fun hanswers => htype hanswers.2.1

theorem MasterSynchronizer.toBus_iff :
    ToBus (handlePtpMessage g clock payload size source).sent ↔
      Synchronizer.master.Answers payload size ∧
        (source.paddr = g.address.1 ∨ source.paddr = localAddr) := by
  have hanswer : ∀ type, ToBus (answer g clock type source).sent ↔
      source.paddr = g.address.1 ∨ source.paddr = localAddr := by
    intro type
    refine toBus_answer ?_
    simp [TimePayload.stamped, TimePayload.stampedSize]
  unfold handlePtpMessage Synchronizer.Answers
  by_cases hsize : size < TimePayload.headerSize
  · rw [if_pos hsize]
    exact toBus_none_iff rfl fun hanswers => Nat.not_lt.mpr hanswers.1 hsize
  have hsize' := Nat.not_lt.mp hsize
  rw [if_neg hsize, if_neg hsize, if_neg hsize]
  split_ifs with hstart hdelay hignored
  · rw [hanswer]
    exact ⟨fun hsource => ⟨⟨hsize', .inl hstart⟩, hsource⟩, And.right⟩
  · rw [hanswer]
    exact ⟨fun hsource => ⟨⟨hsize', .inr hdelay⟩, hsource⟩, And.right⟩
  all_goals
    refine toBus_none_iff rfl ?_
    rintro ⟨-, hstart' | hdelay'⟩
    · exact hstart hstart'
    · exact hdelay hdelay'

theorem GroupLeaderHandler.toBus_iff {h : GroupLeaderHandler} {timestamp : UInt64} :
    ToBus (h.sendKey g timestamp source) ↔
      source.paddr = g.address.1 ∨ source.paddr = localAddr := by
  refine toBus_answer ?_
  simp [GroupPayload.keyDistribution, TimePayload.stampedSize]

end

namespace ProtocolState

def Answered (s : ProtocolState) (frame : Frame) : Prop :=
  frame.segmentType = MsgType.ptp.code ∧
      s.synchronizer.Answers frame.systemPayload frame.systemPayloadSize ∨
    frame.segmentType = MsgType.group.code ∧ s.groupHandler.Answers frame.systemPayload

/-- The code of no complete frame for somebody else is right, and no frame that the
handlers answer says that it is of the bus. -/
structure Screened (s : ProtocolState) (frame : Frame) : Prop where
  foreign : packetHeaderSize + macSize ≤ frame.dataLength → ¬ s.gateway.Addressed frame →
    s.gateway.verifies frame = false
  answered : packetHeaderSize + macSize ≤ frame.dataLength → s.gateway.Addressed frame →
    s.Answered frame → frame.header.shost ≠ localAddr

variable {s : ProtocolState} {t : Moment} {frame : Frame}

theorem emit_bus_ne {o : Option Output} : (s.emit o).bus ≠ s.bus ↔ ToBus o := by
  unfold emit ToBus
  simp

theorem handle_ptp_bus {payload : Memory} {size : ℕ} {source dest : Address} :
    (s.handle t (.ptp payload size source dest)).state.bus ≠ s.bus ↔
      s.synchronizer.Answers payload size ∧
        (source.paddr = s.gateway.address.1 ∨ source.paddr = localAddr) := by
  unfold handle
  cases hsync : s.synchronizer with
  | slave h =>
    simp only
    exact (emit_bus_ne (s := { s with synchronizer := _ })).trans SlaveSynchronizer.toBus_iff
  | master => exact emit_bus_ne.trans MasterSynchronizer.toBus_iff

theorem handle_group_bus {payload : Memory} {size : ℕ} {source : Address} :
    (s.handle t (.group payload size source)).state.bus ≠ s.bus ↔
      s.groupHandler.Answers payload ∧
        (source.paddr = s.gateway.address.1 ∨ source.paddr = localAddr) := by
  unfold handle
  cases hgroup : s.groupHandler with
  | member => exact (emit_bus_ne (s := { s with gateway := _ })).trans (toBus_none_iff rfl id)
  | leader h membership =>
    simp only
    unfold GroupLeaderHandler.handleGroupMessage GroupHandler.Answers
    by_cases htype : payload 0 = GroupType.joinRequest.code
    · rw [if_pos htype]
      refine (emit_bus_ne (s := { s with groupHandler := _ })).trans ?_
      rw [GroupLeaderHandler.toBus_iff]
      exact ⟨fun hsource => ⟨htype, hsource⟩, And.right⟩
    · rw [if_neg htype]
      exact emit_bus_ne.trans (toBus_none_iff rfl htype)

theorem relay_toBus (hlength : packetHeaderSize + macSize ≤ frame.dataLength)
    (hsize : frame.dataLength ≤ mtu) : ToBus (s.relay frame) := by
  unfold relay
  rw [toBus_send, length_load]
  refine ⟨.inr rfl, ?_⟩
  omega

/-- What puts a frame on the bus. -/
theorem update_bus (hsize : frame.dataLength ≤ mtu) :
    (s.update t frame).state.bus ≠ s.bus ↔ packetHeaderSize + macSize ≤ frame.dataLength ∧
      ((s.gateway.Addressed frame → ¬ frame.IsSystem) ∧ s.gateway.verifies frame = true ∨
        s.gateway.Addressed frame ∧ s.Answered frame ∧
          (frame.header.shost = s.gateway.address.1 ∨ frame.header.shost = localAddr)) := by
  have hother : MsgType.ptp.code ≠ MsgType.group.code := by decide
  have hcase := update_case s t frame
  generalize s.update t frame = outcome at hcase
  cases hcase with
  | small hsmall =>
    exact ⟨fun hne => absurd rfl hne, fun hbus => absurd hsmall (Nat.not_lt.mpr hbus.1)⟩
  | ptp hlength haddressed htype =>
    refine handle_ptp_bus.trans ⟨fun hanswers => ?_, ?_⟩
    · exact ⟨hlength, .inr ⟨haddressed, .inl ⟨htype, hanswers.1⟩, hanswers.2⟩⟩
    · rintro ⟨-, ⟨hnone, -⟩ | ⟨-, ⟨-, hanswers⟩ | ⟨htype', -⟩, hsource⟩⟩
      · exact absurd (.inl htype) (hnone haddressed)
      · exact ⟨hanswers, hsource⟩
      · exact absurd (htype.symm.trans htype') hother
  | group hlength haddressed htype =>
    refine handle_group_bus.trans ⟨fun hanswers => ?_, ?_⟩
    · exact ⟨hlength, .inr ⟨haddressed, .inr ⟨htype, hanswers.1⟩, hanswers.2⟩⟩
    · rintro ⟨-, ⟨hnone, -⟩ | ⟨-, ⟨htype', -⟩ | ⟨-, hanswers⟩, hsource⟩⟩
      · exact absurd (.inr htype) (hnone haddressed)
      · exact absurd (htype'.symm.trans htype) hother
      · exact ⟨hanswers, hsource⟩
  | relayed hlength hnone hmac =>
    exact (emit_bus_ne (s := s.register _)).trans
      ⟨fun _ => ⟨hlength, .inl ⟨hnone, hmac⟩⟩, fun _ => relay_toBus hlength hsize⟩
  | wrongMac hlength hnone hmac =>
    refine ⟨fun hne => absurd rfl hne, ?_⟩
    rintro ⟨-, ⟨-, hright⟩ | ⟨haddressed, hanswered, -⟩⟩
    · exact absurd hright (by simp [hmac])
    · refine absurd ?_ (hnone haddressed)
      rcases hanswered with ⟨htype, -⟩ | ⟨htype, -⟩
      · exact .inl htype
      · exact .inr htype

theorem Answered.isSystem (h : s.Answered frame) : frame.IsSystem := by
  rcases h with ⟨htype, -⟩ | ⟨htype, -⟩
  · exact .inl htype
  · exact .inr htype

theorem handleReceive_state {rest : Memory} {f : WireFrame} :
    (s.handleReceive t rest f).state =
      if s.gateway.HandsUp rest f then (s.update t (Gateway.receivedFrame rest f)).state
      else s := by
  unfold handleReceive
  by_cases hshost : f.header.shost = s.gateway.address.1
  · have hdropped : ¬ s.gateway.HandsUp rest f := fun hup => hup.1 hshost
    rw [if_pos hshost, if_neg hdropped]
  rw [if_neg hshost]
  by_cases hlocation : s.gateway.filterLocation (Gateway.receivedFrame rest f) = true
  · have hdropped : ¬ s.gateway.HandsUp rest f := fun hup => by simp [hup.2.1] at hlocation
    rw [if_pos hlocation, if_neg hdropped]
  rw [if_neg hlocation]
  by_cases htype : ntohs f.header.type = ethernetProtocolNumber
  · have hup : s.gateway.HandsUp rest f :=
      ⟨hshost, Bool.eq_false_of_not_eq_true hlocation, htype⟩
    rw [if_pos hup]
    exact congrArg UpdateOutcome.state (if_pos htype)
  · have hdropped : ¬ s.gateway.HandsUp rest f := fun hup => htype hup.2.2
    rw [if_neg hdropped]
    exact congrArg UpdateOutcome.state (if_neg htype)

/-- Nothing but admissible frames gets from the link to the bus if and only if a frame
for somebody else cannot pass for authentic and no answered message claims to be local. -/
theorem admitted_iff_screened (s : ProtocolState) (t : Moment) (rest : Memory) (f : WireFrame)
    (hsize : f.data.length ≤ mtu) :
    ((s.handleReceive t rest f).state.bus ≠ s.bus →
        s.gateway.Admissible (Gateway.receivedFrame rest f)) ↔
      (s.gateway.HandsUp rest f → s.Screened (Gateway.receivedFrame rest f)) := by
  rw [handleReceive_state]
  by_cases hup : s.gateway.HandsUp rest f
  · rw [if_pos hup, update_bus hsize]
    simp only [hup, forall_const]
    constructor
    · refine fun hadmits => ⟨fun hlength hforeign => ?_,
        fun hlength haddressed hanswered hlocal => ?_⟩
      · by_contra hverifies
        have hright := Bool.eq_true_of_not_eq_false hverifies
        exact hforeign (hadmits ⟨hlength, .inl ⟨fun haddressed => absurd haddressed hforeign,
          hright⟩⟩).addressed
      · exact (hadmits ⟨hlength, .inr ⟨haddressed, hanswered, .inr hlocal⟩⟩).data
          hanswered.isSystem
    · rintro hscreened ⟨hlength, ⟨hnone, hright⟩ | ⟨haddressed, hanswered, howner | hlocal⟩⟩
      · have haddressed : s.gateway.Addressed (Gateway.receivedFrame rest f) := by
          by_contra hforeign
          exact absurd (hscreened.foreign hlength hforeign) (by simp [hright])
        exact ⟨haddressed, hnone haddressed, hlength, hright⟩
      · exact absurd howner hup.1
      · exact absurd hlocal (hscreened.answered hlength haddressed hanswered)
  · rw [if_neg hup]
    exact ⟨fun _ hup' => absurd hup' hup, fun _ hne => absurd rfl hne⟩

def frameFor (dst : MAC) (segment : Segment) : WireFrame where
  header := ⟨dst, (northGateway 2 7).address.1, htons ethernetProtocolNumber⟩
  data := Packet.octets .north 0 0 segment.getBytes 7

/-- A broadcast of data gets to the bus. -/
theorem admitted_broadcast :
    let f := frameFor broadcastAddr ⟨.teds, 0, []⟩
    (vehicle.handleReceive quietMoment (fun _ => 0) f).state.bus ≠ vehicle.bus ∧
      vehicle.gateway.Admissible (Gateway.receivedFrame (fun _ => 0) f) := by
  have hchanges : (vehicle.handleReceive quietMoment (fun _ => 0)
      (frameFor broadcastAddr ⟨.teds, 0, []⟩)).state.bus ≠ vehicle.bus := by
    intro hsame
    exact absurd (congrArg List.length hsame) (by decide +kernel)
  refine ⟨hchanges, (admitted_iff_screened vehicle quietMoment (fun _ => 0)
    (frameFor broadcastAddr ⟨.teds, 0, []⟩) (by decide)).mpr (fun _ => ⟨?_, ?_⟩) hchanges⟩
  · exact fun _ hforeign => absurd (.inr rfl) hforeign
  · exact fun _ _ _ => by decide

/-- A DELAY_REQUEST of one vehicle for another gets to the bus of a third. -/
theorem not_admitted_foreign : ∃ s t rest f, f.data.length ≤ mtu ∧
    (handleReceive s t rest f).state.bus ≠ s.bus ∧
      ¬ s.gateway.Admissible (Gateway.receivedFrame rest f) := by
  refine ⟨vehicle, quietMoment, fun _ => 0,
    frameFor (northGateway 3 7).address.1 ⟨.ptp, 0, TimePayload.plain .delayRequest⟩, by decide,
    fun hsame => ?_, fun hadmissible => absurd hadmissible.addressed (by decide)⟩
  exact absurd (congrArg List.length hsame) (by decide +kernel)

end ProtocolState
end CommunicationAPI
