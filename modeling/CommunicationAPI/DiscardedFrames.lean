import CommunicationAPI.ProtocolUpdate

/-!
# Discarded frames

A frame is discarded because it is too short, because a handler throws, or for its
authentication code. Its source has been registered by then, and a slave that cannot
set its clock has cleared its timestamps.
-/

namespace CommunicationAPI
open Octets ShmEngine

theorem NearbyEntities.register_eq_iff {l : NearbyEntities} {addr : MAC} :
    l.register addr = l ↔ addr ∈ l.entries ∨ maxNearbyEntities ≤ l.entries.length := by
  constructor
  · intro heq
    by_contra hno
    obtain ⟨hnew, hroom⟩ := not_or.mp hno
    have hmem : addr ∈ (l.register addr).entries :=
      (l.mem_register addr addr).mpr (.inr ⟨rfl, hnew, Nat.not_le.mp hroom⟩)
    rw [heq] at hmem
    exact hnew hmem
  · intro hknown
    unfold NearbyEntities.register
    rw [dif_neg]
    rintro ⟨hnew, hroom⟩
    rcases hknown with hmem | hfull
    · exact hnew hmem
    · exact Nat.not_le.mpr hroom hfull

namespace SlaveSynchronizer
variable (h : SlaveSynchronizer)

/-- The slave after the first statement of `synchronize` that stores anything. -/
def cleared : SlaveSynchronizer := { h with t1 := 0, t2 := 0, t3 := 0, t4 := 0 }

def Aborts (clock : SystemClock) (payload : Memory) (size : ℕ) : Prop :=
  h.state = .awaitingDelayResp ∧ payload 0 = SyncType.delayResponse.code ∧
    TimePayload.stampedSize ≤ size ∧ clock.settable = false

variable {h} {g : Gateway} {clock : SystemClock} {payload : Memory} {size : ℕ}
  {source dest : Address}

theorem cleared_eq_iff : h.cleared = h ↔ h.t1 = 0 ∧ h.t2 = 0 ∧ h.t3 = 0 ∧ h.t4 = 0 := by
  cases h
  simp [cleared, eq_comm]

theorem receiveSync_error
    (herror : (h.receiveSync g clock payload source dest).error.isSome = true) :
    (h.receiveSync g clock payload source dest).sent = none ∧
      (h.receiveSync g clock payload source dest).state = h := by
  unfold receiveSync at herror ⊢
  split_ifs at herror ⊢
  · exact ⟨rfl, rfl⟩
  · cases herror

theorem receiveDelayResp_error
    (herror : (h.receiveDelayResp clock payload).error.isSome = true) :
    (h.receiveDelayResp clock payload).sent = none ∧
      (h.receiveDelayResp clock payload).state =
        if h.state = .awaitingDelayResp ∧ clock.settable = false then h.cleared else h := by
  unfold receiveDelayResp at herror ⊢
  by_cases hstate : h.state = .awaitingDelayResp
  · simp only [hstate, ne_eq, not_true_eq_false, if_false, true_and] at herror ⊢
    cases hset : clock.settable with
    | true => simp [synchronize, hset] at herror
    | false => simp [synchronize, hset, cleared, hstate]
  · simp only [hstate, ne_eq, not_false_eq_true, if_true, false_and, if_false]
    exact ⟨rfl, rfl⟩

/-- A slave that throws has sent nothing, and has changed nothing unless it aborts. -/
theorem handlePtpMessage_error
    (herror : (h.handlePtpMessage g clock payload size source dest).error.isSome = true) :
    (h.handlePtpMessage g clock payload size source dest).sent = none ∧
      (h.Aborts clock payload size ∧
          (h.handlePtpMessage g clock payload size source dest).state = h.cleared ∨
        ¬ h.Aborts clock payload size ∧
          (h.handlePtpMessage g clock payload size source dest).state = h) := by
  have hsync : SyncType.sync.code ≠ SyncType.delayResponse.code := by decide
  unfold handlePtpMessage at herror ⊢
  unfold Aborts
  split_ifs at herror ⊢ with hsize htype hshort htype' hshort' hignored
  · unfold TimePayload.headerSize at hsize
    unfold TimePayload.stampedSize
    exact ⟨rfl, .inr ⟨fun habort => by omega, rfl⟩⟩
  · exact ⟨rfl, .inr ⟨fun habort => absurd hshort (Nat.not_lt.mpr habort.2.2.1), rfl⟩⟩
  · obtain ⟨hsent, hstate⟩ := receiveSync_error herror
    exact ⟨hsent, .inr ⟨fun habort => hsync (htype.symm.trans habort.2.1), hstate⟩⟩
  · exact ⟨rfl, .inr ⟨fun habort => absurd hshort' (Nat.not_lt.mpr habort.2.2.1), rfl⟩⟩
  · obtain ⟨hsent, hstate⟩ := receiveDelayResp_error herror
    refine ⟨hsent, ?_⟩
    rw [hstate]
    split_ifs with habort
    · exact .inl ⟨⟨habort.1, htype', Nat.not_lt.mp hshort', habort.2⟩, rfl⟩
    · exact .inr ⟨fun haborts => habort ⟨haborts.1, haborts.2.2.2⟩, rfl⟩
  · cases herror
  · exact ⟨rfl, .inr ⟨fun habort => htype' habort.2.1, rfl⟩⟩

end SlaveSynchronizer

theorem MasterSynchronizer.handlePtpMessage_error {g : Gateway} {clock : SystemClock}
    {payload : Memory} {size : ℕ} {source : Address}
    (herror : (handlePtpMessage g clock payload size source).error.isSome = true) :
    (handlePtpMessage g clock payload size source).sent = none := by
  unfold handlePtpMessage at herror ⊢
  split_ifs at herror ⊢ <;> first | rfl | cases herror

namespace ProtocolState

def Known (s : ProtocolState) (frame : Frame) : Prop :=
  frame.header.shost ∈ s.gateway.shared.nearby.entries ∨
    maxNearbyEntities ≤ s.gateway.shared.nearby.entries.length

instance (s : ProtocolState) (frame : Frame) : Decidable (s.Known frame) :=
  inferInstanceAs (Decidable (_ ∨ _))

/-- The frame makes the slave clear timestamps that are not zero, and then throw. -/
def LosesStamps (s : ProtocolState) (t : Moment) (frame : Frame) : Prop :=
  ∃ h, s.synchronizer = .slave h ∧ ¬ (h.t1 = 0 ∧ h.t2 = 0 ∧ h.t3 = 0 ∧ h.t4 = 0) ∧
    packetHeaderSize + macSize ≤ frame.dataLength ∧ s.gateway.Addressed frame ∧
    frame.segmentType = MsgType.ptp.code ∧
    h.Aborts t.clock frame.systemPayload frame.systemPayloadSize

variable {s : ProtocolState} {t : Moment} {frame : Frame}

theorem register_eq_iff : s.register frame.header.shost = s ↔ s.Known frame := by
  constructor
  · intro heq
    have hnearby := congrArg (fun s : ProtocolState => s.gateway.shared.nearby) heq
    exact NearbyEntities.register_eq_iff.mp hnearby
  · intro hknown
    unfold register
    rw [NearbyEntities.register_eq_iff.mpr hknown]

theorem register_synchronizer_eq_iff {sync : Synchronizer} :
    { s.register frame.header.shost with synchronizer := sync } = s ↔
      s.Known frame ∧ sync = s.synchronizer := by
  constructor
  · intro heq
    have hnearby := congrArg (fun s : ProtocolState => s.gateway.shared.nearby) heq
    exact ⟨NearbyEntities.register_eq_iff.mp hnearby, congrArg synchronizer heq⟩
  · rintro ⟨hknown, rfl⟩
    exact register_eq_iff.mpr hknown

/-- A slave that throws leaves the list of nearby vehicles and its timestamps behind. -/
theorem handle_slave_discard {h : SlaveSynchronizer} (hsync : s.synchronizer = .slave h)
    (hlength : packetHeaderSize + macSize ≤ frame.dataLength)
    (haddressed : s.gateway.Addressed frame) (htype : frame.segmentType = MsgType.ptp.code)
    (hdiscard : ((s.register frame.header.shost).handle t (.ptp frame.systemPayload
      frame.systemPayloadSize frame.source frame.dest)).discard.isSome = true) :
    ((s.register frame.header.shost).handle t (.ptp frame.systemPayload
        frame.systemPayloadSize frame.source frame.dest)).state = s ↔
      s.Known frame ∧ ¬ s.LosesStamps t frame := by
  have hregister : (s.register frame.header.shost).synchronizer = .slave h := hsync
  unfold handle at hdiscard ⊢
  simp only [hregister, answered, Option.isSome_map] at hdiscard ⊢
  obtain ⟨hsent, hstate⟩ := SlaveSynchronizer.handlePtpMessage_error hdiscard
  rw [hsent, emit_none, register_synchronizer_eq_iff, hsync]
  have hloses : s.LosesStamps t frame ↔ h.cleared ≠ h ∧
      h.Aborts t.clock frame.systemPayload frame.systemPayloadSize := by
    rw [ne_eq, SlaveSynchronizer.cleared_eq_iff]
    constructor
    · rintro ⟨h', hsync', hstamped, -, -, -, haborts⟩
      cases hsync.symm.trans hsync'
      exact ⟨hstamped, haborts⟩
    · rintro ⟨hstamped, haborts⟩
      exact ⟨h, hsync, hstamped, hlength, haddressed, htype, haborts⟩
  rw [hloses]
  rcases hstate with ⟨haborts, hstate⟩ | ⟨haborts, hstate⟩
  · rw [hstate]
    simp [haborts]
  · rw [hstate]
    simp [haborts]

/-- A discarded frame leaves no trace if and only if its source is not new and it does not
cost a slave its timestamps. -/
theorem discarded_traceless_iff (s : ProtocolState) (t : Moment) (frame : Frame)
    (hdiscard : (s.update t frame).discard.isSome = true) :
    (s.update t frame).state = s ↔ s.Known frame ∧ ¬ s.LosesStamps t frame := by
  have hcase := update_case s t frame
  generalize s.update t frame = outcome at hcase hdiscard
  cases hcase with
  | small hsmall =>
    have hkeeps : ¬ s.LosesStamps t frame := by
      rintro ⟨h, -, -, hlength, -⟩
      exact Nat.not_le.mpr hsmall hlength
    exact register_eq_iff.trans (and_iff_left hkeeps).symm
  | wrongMac hlength hnone hmac =>
    have hkeeps : ¬ s.LosesStamps t frame := by
      rintro ⟨h, -, -, -, haddressed, htype, -⟩
      exact hnone haddressed (.inl htype)
    exact register_eq_iff.trans (and_iff_left hkeeps).symm
  | relayed => cases hdiscard
  | group hlength haddressed htype =>
    unfold handle at hdiscard
    simp only at hdiscard
    split at hdiscard
    · cases hdiscard
    · split at hdiscard <;> cases hdiscard
  | ptp hlength haddressed htype =>
    cases hsync : s.synchronizer with
    | slave h => exact handle_slave_discard hsync hlength haddressed htype hdiscard
    | master =>
      have hregister : (s.register frame.header.shost).synchronizer = .master := hsync
      have hkeeps : ¬ s.LosesStamps t frame := by
        rintro ⟨h, hslave, -⟩
        cases hsync.symm.trans hslave
      unfold handle at hdiscard ⊢
      simp only [hregister, answered, Option.isSome_map] at hdiscard ⊢
      rw [MasterSynchronizer.handlePtpMessage_error hdiscard, emit_none]
      exact register_eq_iff.trans (and_iff_left hkeeps).symm

def vehicle : ProtocolState := ⟨northGateway 1 7, .slave .construct, .member, []⟩

def quietMoment : Moment := ⟨⟨fun _ => 0, true⟩, 0, 0⟩

def syncFrame (n : ℕ) : Frame where
  header := ⟨broadcastAddr, (northGateway 2 7).address.1, htons ethernetProtocolNumber⟩
  data := fun i => if i = packetHeaderSize then MsgType.ptp.code else 0
  dataLength := n

/-- A SYNC that the slave does not wait for, of a vehicle that is listed. -/
theorem discarded_traceless_sync :
    ((vehicle.register (northGateway 2 7).address.1).update quietMoment (syncFrame 31)).state =
      vehicle.register (northGateway 2 7).address.1 := by
  have hkeeps : ¬ (vehicle.register (northGateway 2 7).address.1).LosesStamps quietMoment
      (syncFrame 31) := by
    rintro ⟨h, hsync, hstamped, -⟩
    cases hsync
    exact hstamped ⟨rfl, rfl, rfl, rfl⟩
  exact (discarded_traceless_iff _ quietMoment (syncFrame 31) (by decide +kernel)).mpr
    ⟨by decide +kernel, hkeeps⟩

/-- A frame without data, of a vehicle that is not listed. -/
theorem not_discarded_traceless : ∃ s t frame, (update s t frame).discard.isSome = true ∧
    (update s t frame).state ≠ s := by
  refine ⟨vehicle, quietMoment, syncFrame 0, by decide +kernel, fun hsame => ?_⟩
  have hnearby := congrArg (fun s : ProtocolState => s.gateway.shared.nearby.entries) hsame
  exact absurd hnearby (by decide +kernel)

end ProtocolState
end CommunicationAPI
