import CommunicationAPI.GroupHandlers
import CommunicationAPI.Membership

/-!
# Traffic and membership

The gateway of a leader: the messages that its filter handles, and the departures
that its monitor announces. The steady clock never goes back.
-/

namespace CommunicationAPI.MemberTraffic
open Octets TransitionSystem CommunicationAPI.Membership

/-- A message handled by `filter_system_messages`: its source, when it was handled, and
whether it was a JOIN_REQUEST. -/
structure Handled where
  client : Address
  time : Timepoint
  joined : Bool
  deriving DecidableEq

/-- An announced departure: the client, the monitor's reading of the clock, and the
messages handled so far. -/
structure Departure where
  client : Address
  now : Timepoint
  handled : List Handled

structure State where
  gateway : Gateway
  handler : GroupLeaderHandler
  membership : Membership.State
  clock : Timepoint
  handled : List Handled
  departures : List Departure

/-- The raw NIC receives a frame of the link; the other two are steps of the monitor. -/
inductive Action
  | receive (f : WireFrame) (rest : Memory) (timestamp : UInt64) (now : Timepoint)
  | timeout (now : Timepoint)
  | relock

/-- The source of a frame that `filter_system_messages` finds addressed to the gateway or
to everyone, if the frame gets so far. -/
def filteredSource (g : Gateway) (rest : Memory) (f : WireFrame) : Option Address :=
  let frame := Gateway.receivedFrame rest f
  if f.header.shost ≠ g.address.1 ∧ g.filterLocation frame = false ∧
      ntohs f.header.type = ethernetProtocolNumber ∧
      packetHeaderSize + macSize ≤ frame.dataLength ∧
      (g.address.1 = f.header.dhost ∨ broadcastAddr = f.header.dhost) then
    some ⟨f.header.shost, Packet.sport frame.data⟩
  else none

namespace State
variable (s : State)

/-- The client whose heartbeat a frame updates: the call at the end of
`filter_system_messages` is never reached, that of the group handler is. -/
def joiner (rest : Memory) (f : WireFrame) (timestamp : UInt64) : Option Address :=
  (outputGroup (s.gateway.handleReceive rest f).2).bind fun (payload, _, source) =>
    (s.handler.handleGroupMessage s.gateway timestamp payload source).map Prod.fst

def refresh (now : Timepoint) : Option Address → Membership.State
  | some client => s.membership.heartbeatUpdate client now
  | none => s.membership

def record (now : Timepoint) (joined : Bool) : Option Address → List Handled
  | some client => ⟨client, now, joined⟩ :: s.handled
  | none => s.handled

def announce (m : Membership.State) (clock : Timepoint) : State :=
  { s with
    membership := m
    clock := clock
    departures := match m.monitor with
      | .notifying _ client now => ⟨client, now, s.handled⟩ :: s.departures
      | .waiting => s.departures }

def step : Action → Option State
  | .receive f rest timestamp now =>
    if s.clock ≤ now then
      some { s with
        gateway := (s.gateway.handleReceive rest f).1
        membership := s.refresh now (s.joiner rest f timestamp)
        clock := now
        handled := s.record now (s.joiner rest f timestamp).isSome
          (filteredSource s.gateway rest f) }
    else none
  | .timeout now =>
    if s.clock ≤ now then
      (s.membership.step (.timeout now)).map fun m => s.announce m now
    else none
  | .relock => (s.membership.step .relock).map fun m => s.announce m s.clock

end State

def leader : Machine State Action where
  init s := ∃ gateway handler, s = ⟨gateway, handler, Membership.initial, 0, [], []⟩
  step := State.step

def Recent (now : Timepoint) (m : Handled) : Prop :=
  m.time ≤ now ∧ now < m.time + timeoutDuration

instance (now : Timepoint) (m : Handled) : Decidable (Recent now m) :=
  inferInstanceAs (Decidable (m.time ≤ now ∧ now < m.time + timeoutDuration))

/-- Clients are announced as departed and dropped only when they have been silent. -/
structure KeptAlive (s : State) : Prop where
  silent : ∀ d ∈ s.departures, ∀ m ∈ d.handled, m.client = d.client → ¬ Recent d.now m
  announced : ∀ x ∈ s.membership.drops, ∃ d ∈ s.departures, d.client = x.client ∧ d.now = x.now

def reading (s : State) : Action → Option Timepoint
  | .receive .. => none
  | .timeout now => some now
  | .relock =>
    match s.membership.monitor with
    | .notifying _ _ now => some now
    | .waiting => none

/-- No client joins while its own departure is being announced, and a member that sends
anything keeps sending JOIN_REQUESTs as well. -/
structure Rejoining (s : State) (a : Action) (_ : State) : Prop where
  noReturn : ∀ f rest timestamp now, a = .receive f rest timestamp now →
    ∀ client, s.joiner rest f timestamp = some client →
      ∀ it now', s.membership.monitor ≠ .notifying it client now'
  refreshed : ∀ now, reading s a = some now → ∀ m ∈ s.handled, Recent now m →
    (s.membership.clientLookup m.client).isSome →
      ∃ j ∈ s.handled, j.client = m.client ∧ j.joined = true ∧ Recent now j

section
variable {g : Gateway} {rest : Memory} {f : WireFrame} {source : Address}

theorem outputGroup_send (src dst : Address) (data : List UInt8) :
    outputGroup (g.send src dst data).toList = none := by
  unfold Gateway.send
  split_ifs
  · cases sendFrame g.quadrant g.shared.sessionKey src dst data <;> rfl
  · cases sendFrame g.shared.location g.shared.sessionKey src dst data <;> rfl

/-- What the filter passes to the group handler comes from the source it is given. -/
theorem filterSystemMessages_source {frame : Frame} {dest : Address} {payload : Memory} {size : ℕ}
    {source' : Address}
    (h : g.filterSystemMessages frame source dest = some (.group payload size source')) :
    source' = source := by
  unfold Gateway.filterSystemMessages at h
  dsimp only at h
  split_ifs at h
  · cases h
  · cases h
    rfl

theorem updateExternal_source {frame : Frame} {payload : Memory} {size : ℕ}
    (h : outputGroup (g.updateExternal frame).2 = some (payload, size, source)) :
    packetHeaderSize + macSize ≤ frame.dataLength ∧
      (g.address.1 = frame.header.dhost ∨ broadcastAddr = frame.header.dhost) ∧
      source = ⟨frame.header.shost, Packet.sport frame.data⟩ := by
  have hdest : g.address.1 = frame.header.dhost ∨ broadcastAddr = frame.header.dhost := by
    by_contra hno
    rw [(Gateway.updateExternal_noMessage hno).group] at h
    cases h
  unfold Gateway.updateExternal at h
  dsimp only at h
  by_cases hsize : frame.dataLength < packetHeaderSize + macSize
  · rw [if_pos hsize] at h
    cases h
  rw [if_neg hsize] at h
  refine ⟨Nat.not_lt.mp hsize, hdest, ?_⟩
  split at h
  · rename_i message hmessage
    cases message with
    | group payload' size' source' =>
        cases h
        exact filterSystemMessages_source hmessage
    | bus | link | notify | ptp | overrun => cases h
  · split_ifs at h
    · cases h
    · rw [outputGroup_send] at h
      cases h

/-- A message for the group handler is one that the filter handles, and comes from its
source. -/
theorem outputGroup_source {payload : Memory} {size : ℕ}
    (h : outputGroup (g.handleReceive rest f).2 = some (payload, size, source)) :
    filteredSource g rest f = some source := by
  unfold filteredSource
  by_cases hown : f.header.shost = g.address.1
  · rw [Gateway.handleReceive_own rest hown] at h
    cases h
  unfold Gateway.handleReceive at h
  rw [if_neg hown] at h
  dsimp only at h
  split_ifs at h with hlocation htype
  · cases h
  · obtain ⟨hsize, hdest, rfl⟩ := updateExternal_source h
    exact if_pos ⟨hown, eq_false_of_ne_true hlocation, htype, hsize, hdest⟩
  · cases h

end

theorem joiner_source {s : State} {rest : Memory} {f : WireFrame} {timestamp : UInt64}
    {client : Address} (h : s.joiner rest f timestamp = some client) :
    filteredSource s.gateway rest f = some client := by
  obtain ⟨⟨payload, size, source⟩, hgroup, h⟩ := Option.bind_eq_some_iff.mp h
  have hsource := outputGroup_source hgroup
  unfold GroupLeaderHandler.handleGroupMessage at h
  dsimp only at h
  split_ifs at h
  · cases h
    exact hsource
  · cases h

/-- Every JOIN_REQUEST handled is covered by its client's last heartbeat. -/
structure Inv (s : State) : Prop where
  membership : Membership.Inv s.membership
  timed : ∀ m ∈ s.handled, m.time ≤ s.clock
  joins : ∀ m ∈ s.handled, m.joined = true → m.time ≤ s.membership.lastHeartbeat m.client
  departing : ∀ it client now, s.membership.monitor = .notifying it client now →
    ∃ d ∈ s.departures, d.client = client ∧ d.now = now
  kept : KeptAlive s

section
variable {m : Membership.State} {client : Address} {now : Timepoint}

theorem eraseTimeout_frame (m : Membership.State) (it : ℕ) :
    (m.eraseTimeout it).lastHeartbeat = m.lastHeartbeat ∧ (m.eraseTimeout it).drops = m.drops ∧
      (m.eraseTimeout it).monitor = m.monitor ∧
      (m.eraseTimeout it).clientLookup = m.clientLookup := by
  unfold Membership.State.eraseTimeout
  split <;> exact ⟨rfl, rfl, rfl, rfl⟩

theorem heartbeatUpdate_frame (m : Membership.State) (client : Address) (now : Timepoint) :
    (m.heartbeatUpdate client now).lastHeartbeat = Function.update m.lastHeartbeat client now ∧
      (m.heartbeatUpdate client now).drops = m.drops ∧
      (m.heartbeatUpdate client now).monitor = m.monitor := by
  unfold Membership.State.heartbeatUpdate
  cases m.clientLookup client with
  | none => exact ⟨rfl, rfl, rfl⟩
  | some it =>
      obtain ⟨hlast, hdrops, hmonitor, -⟩ := eraseTimeout_frame m it
      dsimp only
      exact ⟨by rw [hlast], hdrops, hmonitor⟩

theorem expire_frame (m : Membership.State) (now : Timepoint) :
    (m.expire now).lastHeartbeat = m.lastHeartbeat ∧ (m.expire now).drops = m.drops ∧
      (m.expire now).clientLookup = m.clientLookup := by
  unfold Membership.State.expire
  split
  · split_ifs <;> exact ⟨rfl, rfl, rfl⟩
  · exact ⟨rfl, rfl, rfl⟩

theorem expire_now {it : ℕ} {now' : Timepoint}
    (h : (m.expire now).monitor = .notifying it client now') : now' = now := by
  unfold Membership.State.expire at h
  split at h
  · split_ifs at h
    cases h
    rfl
  · cases h

end

variable {s s' : State} {a : Action}

/-- The monitor announces only clients without a recent JOIN_REQUEST. -/
theorem Inv.announce (h : Inv s) {m : Membership.State} {now clock : Timepoint}
    (hm : Membership.Inv m) (hlast : m.lastHeartbeat = s.membership.lastHeartbeat)
    (hlookup : ∀ c, (m.clientLookup c).isSome → (s.membership.clientLookup c).isSome)
    (hdrops : ∀ x ∈ m.drops, ∃ d ∈ s.departures, d.client = x.client ∧ d.now = x.now)
    (hnow : ∀ it client now', m.monitor = .notifying it client now' → now' = now)
    (hrefreshed : ∀ x ∈ s.handled, Recent now x → (s.membership.clientLookup x.client).isSome →
      ∃ j ∈ s.handled, j.client = x.client ∧ j.joined = true ∧ Recent now j)
    (hclock : s.clock ≤ clock) : Inv (s.announce m clock) := by
  have htimed : ∀ x ∈ s.handled, x.time ≤ clock := fun x hx => (h.timed x hx).trans hclock
  have hjoins : ∀ x ∈ s.handled, x.joined = true → x.time ≤ m.lastHeartbeat x.client := by
    rw [hlast]
    exact h.joins
  cases hmonitor : m.monitor with
  | waiting =>
      have hsame : (s.announce m clock).departures = s.departures := by
        simp [State.announce, hmonitor]
      refine ⟨hm, htimed, hjoins, ?_, ?_, ?_⟩
      · intro it client now' heq
        rw [show (s.announce m clock).membership = m from rfl, hmonitor] at heq
        cases heq
      · rw [hsame]
        exact h.kept.silent
      · rw [hsame]
        exact hdrops
  | notifying it client now' =>
      have hdepartures : (s.announce m clock).departures =
          ⟨client, now', s.handled⟩ :: s.departures := by
        simp [State.announce, hmonitor]
      obtain rfl := hnow it client now' hmonitor
      obtain ⟨n, hn, -, hvalue, hle⟩ := hm.departing it client now' hmonitor
      refine ⟨hm, htimed, hjoins, ?_, ?_, ?_⟩
      · intro it' client' now'' heq
        rw [show (s.announce m clock).membership = m from rfl, hmonitor] at heq
        cases heq
        rw [hdepartures]
        exact ⟨_, List.mem_cons_self, rfl, rfl⟩
      · rw [hdepartures]
        intro d hd x hx hclient hrecent
        rcases List.mem_cons.mp hd with rfl | hd
        · -- the timer runs from the last heartbeat, which covers a recent JOIN_REQUEST
          have hregistered : (s.membership.clientLookup x.client).isSome := by
            apply hlookup
            rw [hclient, ← hvalue, hm.sound.indexed.of_mem hn]
            rfl
          obtain ⟨j, hj, hjclient, hjoined, -, hlt⟩ := hrefreshed x hx hrecent hregistered
          have hcovered := hjoins j hj hjoined
          rw [hjclient, hclient] at hcovered
          rw [hm.sound.fresh n hn, hvalue] at hle
          exact hlt.not_ge ((Nat.add_le_add_right hcovered _).trans hle)
        · exact h.kept.silent d hd x hx hclient hrecent
      · intro x hx
        obtain ⟨d, hd, heq⟩ := hdrops x hx
        rw [hdepartures]
        exact ⟨d, List.mem_cons_of_mem _ hd, heq⟩

theorem refresh_frame (s : State) (now : Timepoint) (joiner : Option Address) :
    (s.refresh now joiner).drops = s.membership.drops ∧
      (s.refresh now joiner).monitor = s.membership.monitor := by
  cases joiner with
  | none => exact ⟨rfl, rfl⟩
  | some client => exact (heartbeatUpdate_frame s.membership client now).2

theorem refresh_lastHeartbeat (s : State) {now : Timepoint} {joiner : Option Address} {x : Handled}
    (hold : x.time ≤ s.membership.lastHeartbeat x.client) (hnow : x.time ≤ now) :
    x.time ≤ (s.refresh now joiner).lastHeartbeat x.client := by
  cases joiner with
  | none => exact hold
  | some client =>
      unfold State.refresh
      rw [(heartbeatUpdate_frame s.membership client now).1]
      by_cases heq : x.client = client
      · rwa [heq, Function.update_self]
      · rwa [Function.update_of_ne heq]

theorem mem_record {now : Timepoint} {joined : Bool} {source : Option Address} {x : Handled}
    (hx : x ∈ s.record now joined source) :
    x ∈ s.handled ∨ ∃ client, source = some client ∧ x = ⟨client, now, joined⟩ := by
  cases source with
  | none => exact .inl hx
  | some client =>
      rcases List.mem_cons.mp hx with rfl | hx
      · exact .inr ⟨client, rfl, rfl⟩
      · exact .inl hx

/-- A frame of the link: the one JOIN_REQUEST it may hold refreshes its client. -/
theorem Inv.receive (h : Inv s) {f : WireFrame} {rest : Memory} {timestamp : UInt64}
    {now : Timepoint} (hclock : s.clock ≤ now)
    (hno : ∀ client, s.joiner rest f timestamp = some client →
      ∀ it now', s.membership.monitor ≠ .notifying it client now') :
    Inv { s with
      gateway := (s.gateway.handleReceive rest f).1
      membership := s.refresh now (s.joiner rest f timestamp)
      clock := now
      handled := s.record now (s.joiner rest f timestamp).isSome
        (filteredSource s.gateway rest f) } := by
  obtain ⟨hdrops, hmonitor⟩ := refresh_frame s now (s.joiner rest f timestamp)
  constructor
  · cases hjoiner : s.joiner rest f timestamp with
    | none => exact h.membership
    | some client => exact h.membership.heartbeatUpdate now (hno client hjoiner)
  · intro x hx
    rcases mem_record hx with hold | ⟨client, -, rfl⟩
    · exact (h.timed x hold).trans hclock
    · exact le_rfl
  · intro x hx hjoined
    rcases mem_record hx with hold | ⟨client, hclient, rfl⟩
    · exact refresh_lastHeartbeat s (h.joins x hold hjoined) ((h.timed x hold).trans hclock)
    · obtain ⟨client', hjoiner⟩ := Option.isSome_iff_exists.mp hjoined
      have heq := joiner_source hjoiner
      rw [hclient] at heq
      cases heq
      dsimp only
      rw [hjoiner]
      unfold State.refresh
      rw [(heartbeatUpdate_frame s.membership client now).1, Function.update_self]
  · intro it client now' heq
    rw [hmonitor] at heq
    exact h.departing it client now' heq
  · refine ⟨h.kept.silent, ?_⟩
    dsimp only
    rw [hdrops]
    exact h.kept.announced

theorem Inv.step (h : Inv s) (hs : leader.step s a = some s') (hok : Rejoining s a s') :
    Inv s' := by
  cases a with
  | receive f rest timestamp now =>
      simp only [leader, State.step] at hs
      split_ifs at hs with hclock
      cases hs
      exact h.receive hclock (hok.noReturn f rest timestamp now rfl)
  | timeout now =>
      simp only [leader, State.step] at hs
      split_ifs at hs with hclock
      obtain ⟨m, hm, rfl⟩ := Option.map_eq_some_iff.mp hs
      have hstep : Membership.leader.step s.membership (.timeout now) = some m := hm
      have hinv : Membership.Inv m := h.membership.step hstep fun _ _ heq => by cases heq
      simp only [Membership.State.step] at hm
      split_ifs at hm
      cases hm
      obtain ⟨hlast, hdrops, hlookup⟩ := expire_frame s.membership now
      apply h.announce hinv hlast _ _ (fun _ _ _ => expire_now) (hok.refreshed now rfl) hclock
      · intro c hc
        rwa [hlookup] at hc
      · rw [hdrops]
        exact h.kept.announced
  | relock =>
      simp only [leader, State.step] at hs
      obtain ⟨m, hm, rfl⟩ := Option.map_eq_some_iff.mp hs
      have hstep : Membership.leader.step s.membership .relock = some m := hm
      have hinv : Membership.Inv m := h.membership.step hstep fun _ _ heq => by cases heq
      simp only [Membership.State.step] at hm
      split at hm
      · cases hm
      · rename_i it client now hmonitor
        cases hm
        have hreading : reading s .relock = some now := by
          unfold reading
          rw [hmonitor]
        obtain ⟨hlast, hdrops, hlookup⟩ := expire_frame (s.membership.cleanUp it client now) now
        have hlast' := (eraseTimeout_frame s.membership it).1
        apply h.announce hinv (hlast.trans hlast') _ _ (fun _ _ _ => expire_now)
          (hok.refreshed now hreading) le_rfl
        · intro c hc
          rw [hlookup] at hc
          unfold Membership.State.cleanUp at hc
          dsimp only at hc
          by_cases heq : c = client
          · rw [heq, Function.update_self] at hc
            cases hc
          · rwa [Function.update_of_ne heq] at hc
        · rw [hdrops]
          intro x hx
          rcases List.mem_cons.mp hx with rfl | hx
          · exact h.departing it client now hmonitor
          · exact h.kept.announced x hx

theorem inv_init (hs : leader.init s) : Inv s := by
  obtain ⟨gateway, handler, rfl⟩ := hs
  constructor
  · exact inv_initial
  · intro m hm
    cases hm
  · intro m hm
    cases hm
  · intro it client now hmonitor
    cases hmonitor
  · constructor
    · intro d hd
      cases hd
    · intro x hx
      cases hx

/-- No member is announced as departed or dropped that was heard of within the last ten
milliseconds, as long as what refreshes the members is the JOIN_REQUESTs. -/
theorem keptAlive (hs : leader.Reaches Rejoining s) : KeptAlive s := by
  have h : Inv s := by
    apply hs.invariant
    · exact fun _ => inv_init
    · exact fun _ _ _ _ hinv hstep hok => hinv.step hstep hok
  exact h.kept

def rejoining (s : State) (a : Action) (_ : State) : Bool :=
  (match a, s.membership.monitor with
    | .receive f rest timestamp _, .notifying _ client _ =>
      decide (s.joiner rest f timestamp ≠ some client)
    | _, _ => true) &&
  (match reading s a with
    | some now => s.handled.all fun m =>
        decide (Recent now m ∧ (s.membership.clientLookup m.client).isSome →
          ∃ j ∈ s.handled, j.client = m.client ∧ j.joined = true ∧ Recent now j)
    | none => true)

theorem rejoining_sound (s : State) (a : Action) (s' : State) (h : rejoining s a s' = true) :
    Rejoining s a s' := by
  obtain ⟨hno, hrefreshed⟩ := Bool.and_eq_true_iff.mp h
  constructor
  · rintro f rest timestamp now rfl client hjoiner it now' hmonitor
    simp [hmonitor, hjoiner] at hno
  · intro now hreading m hm hrecent hregistered
    rw [hreading] at hrefreshed
    exact of_decide_eq_true (List.all_eq_true.mp hrefreshed m hm) ⟨hrecent, hregistered⟩

def memberFrame (type : MsgType) : WireFrame :=
  rawSend (northGateway 2 7).address (packetCall .north 7 (northGateway 2 7).externalAddress
    ⟨broadcastAddr, 1⟩ (Segment.getBytes ⟨type, 0, GroupPayload.joinRequest⟩)
    (by cases type <;> decide))

def start : State := ⟨northGateway 1 7, ⟨7⟩, Membership.initial, 0, [], []⟩

theorem start_init : leader.init start := ⟨_, _, rfl⟩

def trafficRun (type : MsgType) (rest : Memory) : List Action :=
  [.receive (memberFrame .group) rest 0 0,
    .receive (memberFrame type) rest 0 (9 * 10 ^ 6), .timeout (10 * 10 ^ 6)]

theorem keptAlive_of_trafficRun :
    ∃ s, leader.execIf rejoining start (trafficRun .group fun _ => 0) = some s ∧
      s.handled.length = 2 ∧ KeptAlive s := by
  have hrun : (leader.execIf rejoining start (trafficRun .group fun _ => 0)).any
      (fun s => s.handled.length = 2) = true := by decide +kernel
  obtain ⟨s, hs, hgoal⟩ := (Option.any_eq_true _ _).mp hrun
  have hreach := Machine.Reaches.execIf rejoining_sound (.init start_init) hs
  exact ⟨s, hs, of_decide_eq_true hgoal, keptAlive hreach⟩

/-- A control message does not keep its sender in the group. -/
theorem not_keptAlive_trafficRun : ¬ ∀ s, leader.Reachable s → KeptAlive s := by
  intro h
  obtain ⟨s, -, hs, hgoal⟩ := Machine.Reachable.exec_any (M := leader) (.init start_init)
    (trafficRun .control fun _ => 0)
    (fun s => s.departures.any fun d => d.handled.any fun m =>
      decide (m.client = d.client ∧ Recent d.now m)) (by decide +kernel)
  obtain ⟨d, hd, hany⟩ := List.any_eq_true.mp hgoal
  obtain ⟨m, hm, hmd⟩ := List.any_eq_true.mp hany
  obtain ⟨hclient, hrecent⟩ := of_decide_eq_true hmd
  exact (h s hs).silent d hd m hm hclient hrecent

end CommunicationAPI.MemberTraffic
