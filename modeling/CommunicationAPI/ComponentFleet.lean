import CommunicationAPI.FleetMessages
import CommunicationAPI.LatencyPackets

/-!
# Components in a fleet

The components of any number of vehicles, with all of their threads, over the
buses, the gateways and the link. Reading a frame, handling its message and
sending the answer is one step of the receiver thread: the frame is in the log
of the bus, and nobody else moves the cursor of the reader. A pass of the cleanup
thread is one step as well. The source does not see to that, as the handler takes
no lock: the runs are those in which no pass overlaps a call of the handler of
the same component.
-/

namespace CommunicationAPI.ComponentFleet
open Octets ShmEngine TransitionSystem Relay

def tedsType (s : Segment) : TedsType :=
  Teds.extractType (store (fun _ => 0) 0 s.getBytes) s.payload.length

theorem extractType_congr {m m' : Memory} {n : ℕ}
    (h : load m 0 (segmentHeaderSize + n) = load m' 0 (segmentHeaderSize + n)) :
    Teds.extractType m n = Teds.extractType m' n := by
  have hfirst : m 0 = m' 0 := by
    have hm := headD_load m 0 (by unfold segmentHeaderSize; omega : 0 < segmentHeaderSize + n) 0
    have hm' := headD_load m' 0 (by unfold segmentHeaderSize; omega : 0 < segmentHeaderSize + n) 0
    rw [← hm, ← hm', h]
  unfold Teds.extractType
  rw [hfirst]
  split_ifs with htype hsize
  · rfl
  · rfl
  · unfold Teds.headerSize at hsize
    have hheader : ∀ m : Memory, load (fun i => m (segmentHeaderSize + i)) 0 Teds.headerSize =
        ((load m 0 (segmentHeaderSize + n)).drop segmentHeaderSize).take Teds.headerSize := by
      intro m
      unfold Teds.headerSize
      rw [load_shift, load_drop, load_take, min_eq_left (by omega), Nat.zero_add, Nat.add_zero]
    unfold Teds.headerType
    rw [hheader m, hheader m', h]

theorem frameType_framed {c : SendCall} {src dst : Address} {segment : Segment}
    (hc : Framed c src dst segment) (rest : Memory) :
    frameType (busFrame rest c) = tedsType segment := by
  obtain ⟨loc, key, hsize, rfl⟩ := hc
  have hlength : (busFrame rest (packetCall loc key src dst segment.getBytes hsize)).dataLength =
      packetHeaderSize + segment.getBytes.length + macSize := length_packetCall hsize
  have hpayload : (busFrame rest (packetCall loc key src dst segment.getBytes hsize)).dataLength +
      uint32 - (packetHeaderSize + macSize + segmentHeaderSize) =
        segment.payload.length + uint32 := by
    rw [hlength, Segment.length_getBytes]
    omega
  have hlt : segment.payload.length < uint32 := by
    rw [Segment.length_getBytes] at hsize
    unfold mtu at hsize
    unfold uint32
    omega
  unfold frameType tedsType
  rw [hpayload, Nat.add_mod_right, Nat.mod_eq_of_lt hlt]
  apply extractType_congr
  rw [← Segment.length_getBytes, load_shift, Nat.add_zero,
    (busFrame_packetCall_holds hsize rest).segment_eq, load_store]

/-- `TransducerType`, with the type of the transducer and, for an actuator, the interval. -/
inductive Role
  | actuator (unitTag : TedsType) (interval : Period)
  | sensor (unitTag : TedsType)

structure Station (ι : Type*) where
  vehicle : ι
  port : Port
  role : Role
  senderId : UInt64

namespace Station
variable {ι : Type*} (c : Station ι)

def address : Address := ⟨localAddr, c.port⟩

/-- The type that `subscribe_to_responses` or `subscribe_to_requests` listens for. -/
def listens : TedsType :=
  match c.role with
  | .actuator unitTag _ => Teds.makeResponseType (Teds.getBaseType unitTag)
  | .sensor unitTag => Teds.makeRequestType (Teds.getBaseType unitTag)

def endpoints : Endpoints :=
  { Endpoints.empty with portObserved := [(0, c.port)], typeObserved := [(0, c.listens)] }

def Hears (frame : Frame) : Prop := c.endpoints.recipients none frame ≠ []

instance (frame : Frame) : Decidable (c.Hears frame) := inferInstanceAs (Decidable (_ ≠ []))

variable {c}

/-- A segment to a port reaches the Communicator by its port, or by its type. -/
def Receives (c : Station ι) (port : Port) (segment : Segment) : Prop :=
  if port = typeBasedRoutingPort then tedsType segment = c.listens else port = c.port

theorem receives_of_hears {call : SendCall} {src dst : Address} {segment : Segment} {rest : Memory}
    (hc : Framed call src dst segment) (h : c.Hears (busFrame rest call)) :
    c.Receives dst.port segment := by
  have hport : Packet.dport (busFrame rest call).data = dst.port := by
    obtain ⟨loc, key, hsize, rfl⟩ := hc
    exact (busFrame_packetCall_holds hsize rest).dport_eq
  obtain ⟨o, ho⟩ := List.exists_mem_of_ne_nil _ h
  obtain ⟨port, hnotified, ho⟩ := List.mem_flatMap.mp ho
  have hsame : port = dst.port := by
    change port ∈ outputNotifies (componentUpdateLocal (busFrame rest call)) at hnotified
    unfold componentUpdateLocal at hnotified
    simp only [hport] at hnotified
    split_ifs at hnotified
    · exact List.mem_singleton.mp hnotified
    · cases hnotified
    · exact List.mem_singleton.mp hnotified
  subst hsame
  unfold Endpoints.listeners at ho
  rw [frameType_framed hc] at ho
  unfold Receives
  split_ifs at ho ⊢
  · exact (Prod.ext_iff.mp (List.mem_singleton.mp (Observed.mem_notify.mp ho))).2
  · cases ho
  · exact (Prod.ext_iff.mp (List.mem_singleton.mp (Observed.mem_notify.mp ho))).2

end Station

/-- Where a component sends from: `active_send`, the answer to entry `read` of its bus,
`subscribe_to_responses` or `response_thread`. -/
inductive Cause
  | ping
  | echo (read : ℕ)
  | interest
  | response
  deriving DecidableEq

/-- What a component has sent, and the entry of its bus at which it lies. -/
structure Sent (κ : Type*) where
  station : κ
  entry : ℕ
  cause : Cause
  dst : Address
  segment : Segment

/-- A message for which a component has called its handler, the entry of the bus that it was
copied from, and what the handler did at what time. -/
structure Handled (κ : Type*) where
  station : κ
  read : ℕ
  now : UInt64
  message : MessageObject
  effect : Option CommunicationAPI.Effect

structure State (ι κ : Type*) where
  fleet : Relay.State ι
  next : κ → ℕ
  clock : ι → UInt64
  process : κ → TedsHandler
  sent : List (Sent κ)
  handled : List (Handled κ)

structure Context where
  rest : Memory
  memory : Memory
  heap : Memory
  uninitialized : UInt64
  padding : Vector UInt8 4
  location : Quadrant
  key : SessionKey

/-- Entries that a component does not get to see are skipped by its next `receive`. The clock of
a vehicle is its `steady_clock`, which is never set back; a reading and its timestamp may be any.
A `cleanup` is a whole pass, before or after a call of the handler. -/
inductive Action (ι κ : Type*)
  | traffic (a : Relay.Action ι)
  | tick (i : ι) (now : UInt64)
  | sendPing (c : κ) (external : Bool) (x : Context)
  | sendInterest (c : κ) (x : Context)
  | sendResponse (c : κ) (timestamp : UInt64) (value : Reading) (x : Context)
  | cleanup (c : κ) (nearby : Address → Bool)
  | receive (c : κ) (p : ℕ) (x : Context)

def Foreign {ι : Type*} : Relay.Action ι → Prop
  | .component .. => False
  | _ => True

instance {ι : Type*} : DecidablePred (Foreign (ι := ι))
  | .component .. => isFalse not_false
  | .readBus .. | .receive .. | .system .. | .environment .. => isTrue trivial

section
variable {ι κ : Type*} [DecidableEq ι] [DecidableEq κ] (station : κ → Station ι)

namespace State
variable (s : State ι κ)

def busLength (c : κ) : ℕ := (s.fleet.bus (station c).vehicle).length

def send (c : κ) (x : Context) (cause : Cause) (dst : Address) (segment : Segment) :
    State ι κ :=
  match s.fleet.step (.component (station c).vehicle x.location x.key (station c).address dst
    segment) with
  | some fleet =>
    { s with fleet, sent := s.sent ++ [⟨c, s.busLength station c, cause, dst, segment⟩] }
  | none => s

def readTo (c : κ) (p : ℕ) : State ι κ :=
  { s with next := Function.update s.next c (p + 1) }

def handle (c : κ) (p : ℕ) (m : MessageObject) (effect : Option CommunicationAPI.Effect) :
    State ι κ :=
  { s with
    process := Function.update s.process c ((s.process c).after effect)
    handled := s.handled ++ [⟨c, p, s.clock (station c).vehicle, m, effect⟩] }

def answer (c : κ) (p : ℕ) (x : Context) : Option CommunicationAPI.Effect → State ι κ
  | some (.sendEcho dst timestamp senderId) =>
    s.send station c x (.echo p) dst
      (LatencyTest.Packet.segment ⟨.echo, x.padding, senderId, timestamp⟩)
  | _ => s

def dispatch (c : κ) (p : ℕ) (x : Context) (m : MessageObject) : State ι κ :=
  let effect := (receiverDispatch (station c).senderId x.heap m).effect
  (s.handle station c p m effect).answer station c p x effect

def step (s : State ι κ) : Action ι κ → Option (State ι κ)
  | .traffic a =>
    if Foreign a then (s.fleet.step a).map fun fleet => { s with fleet } else none
  | .tick i now =>
    if s.clock i ≤ now then some { s with clock := Function.update s.clock i now } else none
  | .sendPing c external x =>
    if (s.process c).component.terminated then none
    else some (s.send station c x .ping ⟨if external then broadcastAddr else localAddr, 1000⟩
      (LatencyTest.Packet.segment
        ⟨.ping, x.padding, (station c).senderId, s.clock (station c).vehicle⟩))
  | .sendInterest c x =>
    if (s.process c).component.terminated then none
    else match (station c).role with
      | .actuator unitTag interval =>
        some (s.send station c x .interest ⟨broadcastAddr, typeBasedRoutingPort⟩
          (interestSegment (Teds.getBaseType unitTag) interval))
      | .sensor _ => none
  | .sendResponse c timestamp value x =>
    if (s.process c).component.terminated ∨ ¬ (s.process c).component.joinable then none
    else if value.isTrue then
      some (s.send station c x .response ⟨broadcastAddr, typeBasedRoutingPort⟩
        (responseSegment timestamp (s.process c).component.responseType value))
    else some s
  | .cleanup c nearby =>
    if (s.process c).component.terminated then none
    else some { s with
      process := Function.update s.process c
        (TedsHandler.cleanup nearby (s.process c).component (s.process c).subscribers) }
  | .receive c p x =>
    if (s.process c).component.terminated ∨ p < s.next c then none
    else (s.fleet.bus (station c).vehicle)[p]?.map fun b =>
      let frame := busFrame x.rest b.call
      if (station c).Hears frame then
        let m := (MessageObject.ofSize x.memory x.uninitialized messageCapacity).receive frame
        if m.1 then (s.readTo c p).dispatch station c p x m.2 else s.readTo c p
      else s.readTo c p

end State

/-- The components may start to read anywhere, and the clocks may show any time. -/
def machine : Machine (State ι κ) (Action ι κ) where
  init s := (network ι).init s.fleet ∧ s.sent = [] ∧ s.handled = [] ∧
    ∀ c, ∃ uninitialized, s.process c = ⟨.construct uninitialized, []⟩
  step := State.step station

end

section Buses
variable {ι : Type*} [DecidableEq ι] {s s' : Relay.State ι} {i j : ι} {k : ℕ} {b : BusEntry}

theorem emit_entry {origin : BusOrigin} (l : LinkOrigin) {outputs : List Output}
    (h : ((s.emit i origin l outputs).bus j)[k]? = some b) :
    (s.bus j)[k]? = some b ∨ b.origin = origin := by
  unfold State.emit at h
  rw [append_bus, List.getElem?_append] at h
  split_ifs at h with hk hj
  · exact .inl h
  · right
    obtain ⟨c, -, rfl⟩ := List.mem_map.mp (List.mem_of_getElem? h)
    rfl
  · simp at h

/-- A component that sends adds one frame at the end of its bus. -/
theorem component_entry {loc : Quadrant} {key : SessionKey} {src dst : Address}
    {segment : Segment} (hs : s.step (.component i loc key src dst segment) = some s')
    (h : (s'.bus j)[k]? = some b) : (s.bus j)[k]? = some b ∨
      j = i ∧ k = (s.bus i).length ∧ Framed b.call src dst segment := by
  simp only [Relay.State.step] at hs
  split_ifs at hs
  obtain ⟨c, hc, rfl⟩ := Option.map_eq_some_iff.mp hs
  unfold State.emit at h
  rw [append_bus, List.getElem?_append] at h
  split_ifs at h with hk hj
  · exact .inl h
  · subst hj
    have hone : ([⟨c, .component⟩] : List BusEntry)[k - (s.bus j).length]? = some b := h
    rw [List.getElem?_singleton] at hone
    split_ifs at hone
    cases hone
    exact .inr ⟨rfl, by omega, framed_sendFrame hc⟩
  · simp at h

theorem component_length {loc : Quadrant} {key : SessionKey} {src dst : Address}
    {segment : Segment} (hs : s.step (.component i loc key src dst segment) = some s') :
    (s.bus i).length < (s'.bus i).length := by
  simp only [Relay.State.step] at hs
  split_ifs at hs
  obtain ⟨c, -, rfl⟩ := Option.map_eq_some_iff.mp hs
  unfold State.emit
  rw [append_bus, if_pos rfl, List.length_append]
  exact Nat.lt_add_of_pos_right Nat.zero_lt_one

/-- Nobody else puts a frame of a component on a bus. -/
theorem foreign_entry {a : Relay.Action ι} (ha : Foreign a) (hs : s.step a = some s')
    (h : (s'.bus j)[k]? = some b) (horigin : b.origin = .component) :
    (s.bus j)[k]? = some b := by
  have hnew : ∀ {origin : BusOrigin}, b.origin = origin → origin ≠ .component → False :=
    fun heq hne => hne (heq.symm.trans horigin)
  cases a with
  | component i loc key src dst segment => exact ha.elim
  | readBus i rest =>
    obtain ⟨b', -, rfl⟩ := Option.map_eq_some_iff.mp hs
    exact (emit_entry (.forward (s.cursor i)) h).resolve_right fun heq => hnew heq (by simp)
  | receive i n rest =>
    simp only [Relay.State.step] at hs
    split_ifs at hs
    obtain ⟨e, -, rfl⟩ := Option.map_eq_some_iff.mp hs
    exact (emit_entry .system h).resolve_right fun heq => hnew heq (by simp)
  | system i src dst segment =>
    simp only [Relay.State.step] at hs
    split_ifs at hs
    cases hs
    exact (emit_entry .system h).resolve_right fun heq => hnew heq (by simp)
  | environment i quadrant shared =>
    cases hs
    exact h

end Buses

/-- Whoever `f` names comes in the order of `g`, and has not come to `next` yet. -/
structure InOrder {α β : Type*} (next : β → ℕ) (f : α → β) (g : α → ℕ) (l : List α) : Prop where
  lt : ∀ a ∈ l, g a < next (f a)
  order : l.Pairwise fun a b => f a = f b → g a < g b

namespace InOrder
variable {α β : Type*} {next next' : β → ℕ} {f : α → β} {g : α → ℕ} {l : List α} {a b : α}

theorem mono (h : InOrder next f g l) (hle : ∀ c, next c ≤ next' c) : InOrder next' f g l :=
  ⟨fun a ha => (h.lt a ha).trans_le (hle _), h.order⟩

theorem append (h : InOrder next f g l) (hle : ∀ c, next c ≤ next' c)
    (ha : next (f a) ≤ g a) (hlt : g a < next' (f a)) : InOrder next' f g (l ++ [a]) := by
  constructor
  · intro b hb
    rcases List.mem_append.mp hb with hold | hnew
    · exact (h.lt b hold).trans_le (hle _)
    · rwa [List.mem_singleton.mp hnew]
  · refine List.pairwise_append.mpr ⟨h.order, List.pairwise_singleton _ _, fun b hb c hc heq => ?_⟩
    rw [List.mem_singleton.mp hc] at heq ⊢
    have hlt := h.lt b hb
    rw [heq] at hlt
    omega

theorem unique (h : InOrder next f g l) (ha : a ∈ l) (hb : b ∈ l) (hf : f a = f b)
    (hg : g a = g b) : a = b := by
  have hnodup : (l.map fun a => (f a, g a)).Nodup := by
    unfold List.Nodup
    rw [List.pairwise_map]
    apply h.order.imp
    intro a b hlt heq
    obtain ⟨hf, hg⟩ := Prod.ext_iff.mp heq
    exact (hlt hf).ne hg
  exact List.inj_on_of_nodup_map hnodup ha hb (Prod.ext hf hg)

end InOrder

section Records
variable {ι κ : Type*} (station : κ → Station ι)

structure Sent.At (x : Sent κ) (j : ι) (k : ℕ) (src dst : Address) (segment : Segment) : Prop where
  vehicle : (station x.station).vehicle = j
  entry : x.entry = k
  address : (station x.station).address = src
  dst : x.dst = dst
  segment : x.segment = segment

/-- The handled message is a copy of a message that was sent. -/
structure Handled.Copy (fleet : Relay.State ι) (h : Handled κ) (x : Sent κ) : Prop where
  original : original fleet (station h.station).vehicle h.read =
    some ((station x.station).vehicle, x.entry)
  message : Copies h.message messageCapacity x.segment
  received : (station h.station).Receives x.dst.port x.segment
  own : (station h.station).vehicle = (station x.station).vehicle →
    h.message.source = (station x.station).address
  other : (station h.station).vehicle ≠ (station x.station).vehicle →
    h.message.source = ⟨(fleet.gateway (station x.station).vehicle).address.1,
      (station x.station).port⟩ ∧ x.dst.paddr = broadcastAddr

/-- The records are complete, and every entry of a bus comes once in each of them. -/
structure Recorded [DecidableEq ι] (s : State ι κ) : Prop where
  fleet : (network ι).Reachable s.fleet
  sent : ∀ j k src dst segment, FromComponent s.fleet j k src dst segment →
    ∃ x ∈ s.sent, x.At station j k src dst segment
  copy : ∀ h ∈ s.handled,
    h.message.type = MsgType.control.code ∨ h.message.type = MsgType.teds.code →
      ∃ x ∈ s.sent, h.Copy station s.fleet x
  sentOrder : InOrder (fun i => (s.fleet.bus i).length) (fun x => (station x.station).vehicle)
    Sent.entry s.sent
  readOrder : InOrder s.next Handled.station Handled.read s.handled

variable {station} {s s' : State ι κ}

structure Grows (s s' : State ι κ) : Prop where
  fleet : Extends s.fleet s'.fleet
  clock : ∀ i, s.clock i ≤ s'.clock i
  next : ∀ c, s.next c ≤ s'.next c
  sent : s.sent <+: s'.sent
  handled : s.handled <+: s'.handled

theorem Grows.refl (s : State ι κ) : Grows s s :=
  ⟨⟨fun _ => List.prefix_rfl, List.prefix_rfl, fun _ => rfl⟩, fun _ => UInt64.le_refl _,
    fun _ => le_rfl, List.prefix_rfl, List.prefix_rfl⟩

theorem Grows.trans {s'' : State ι κ} (h : Grows s s') (h' : Grows s' s'') : Grows s s'' :=
  ⟨⟨fun i => (h.fleet.bus i).trans (h'.fleet.bus i), h.fleet.link.trans h'.fleet.link,
    fun i => (h'.fleet.address i).trans (h.fleet.address i)⟩,
    fun i => UInt64.le_trans (h.clock i) (h'.clock i), fun c => (h.next c).trans (h'.next c),
    h.sent.trans h'.sent, h.handled.trans h'.handled⟩

theorem Grows.copy (h : Grows s s') {x : Handled κ} {y : Sent κ}
    (hcopy : x.Copy station s.fleet y) : x.Copy station s'.fleet y := by
  obtain ⟨horiginal, hmessage, hreceived, hown, hother⟩ := hcopy
  refine ⟨h.fleet.original horiginal, hmessage, hreceived, hown, fun hne => ?_⟩
  rw [h.fleet.address]
  exact hother hne

variable [DecidableEq ι] {c : κ} {p : ℕ} {x : Context} {cause : Cause} {dst : Address}
  {segment : Segment}

theorem send_cases (s : State ι κ) (c : κ) (x : Context) (cause : Cause) (dst : Address)
    (segment : Segment) : s.send station c x cause dst segment = s ∨
      ∃ fleet, s.fleet.step (.component (station c).vehicle x.location x.key (station c).address
          dst segment) = some fleet ∧
        s.send station c x cause dst segment =
          { s with
            fleet
            sent := s.sent ++ [⟨c, s.busLength station c, cause, dst, segment⟩] } := by
  unfold State.send
  cases hfleet : s.fleet.step (.component (station c).vehicle x.location x.key (station c).address
      dst segment) with
  | none => exact .inl rfl
  | some fleet => exact .inr ⟨fleet, rfl, rfl⟩

variable (station) in
def State.Hears (s : State ι κ) (c : κ) (p : ℕ) (m : MessageObject) : Prop :=
  ∃ b rest memory uninitialized, (s.fleet.bus (station c).vehicle)[p]? = some b ∧
    (station c).Hears (busFrame rest b.call) ∧
    (MessageObject.ofSize memory uninitialized messageCapacity).receive (busFrame rest b.call) =
      (true, m)

variable [Fintype ι]

theorem Recorded.grows_fleet (h : Recorded station s) {a : Relay.Action ι} {fleet : Relay.State ι}
    (hfleet : s.fleet.step a = some fleet) : Extends s.fleet fleet :=
  (inv_of_reachable h.fleet).extends hfleet

theorem Recorded.grows_send (h : Recorded station s) :
    Grows s (s.send station c x cause dst segment) := by
  rcases send_cases s c x cause dst segment with heq | ⟨fleet, hfleet, heq⟩
  · rw [heq]
    exact .refl s
  · rw [heq]
    exact { Grows.refl s with
      fleet := h.grows_fleet hfleet
      sent := List.prefix_append _ _ }

omit [Fintype ι] in
theorem Recorded.reachable (h : Recorded station s) {a : Relay.Action ι} {fleet : Relay.State ι}
    (hfleet : s.fleet.step a = some fleet) : (network ι).Reachable fleet :=
  Machine.Reaches.step (M := network ι) h.fleet hfleet trivial

theorem Recorded.send (h : Recorded station s) :
    Recorded station (s.send station c x cause dst segment) := by
  rcases send_cases s c x cause dst segment with heq | ⟨fleet, hfleet, heq⟩
  · rw [heq]
    exact h
  have hextends := h.grows_fleet hfleet
  rw [heq]
  refine ⟨h.reachable hfleet, ?_, ?_, ?_, h.readOrder⟩
  · rintro j k src dst' segment' ⟨b, hb, horigin, hdata, hframed⟩
    rcases component_entry hfleet hb with hold | ⟨rfl, rfl, hframed'⟩
    · obtain ⟨y, hy, hat⟩ := h.sent j k src dst' segment' ⟨b, hold, horigin, hdata, hframed⟩
      exact ⟨y, List.mem_append_left _ hy, hat⟩
    · obtain ⟨rfl, rfl, rfl⟩ := hframed.unique hframed'
      exact ⟨_, List.mem_append_right _ List.mem_cons_self, rfl, rfl, rfl, rfl, rfl⟩
  · intro y hy htype
    obtain ⟨z, hz, hcopy⟩ := h.copy y hy htype
    have hgrows : Grows s { s with fleet } := { Grows.refl s with fleet := hextends }
    exact ⟨z, List.mem_append_left _ hz, hgrows.copy hcopy⟩
  · exact h.sentOrder.append (fun i => (hextends.bus i).length_le) le_rfl
      (component_length hfleet)

/-- A control or TEDS message that a component hears was sent by one. -/
theorem Recorded.copy_of_hears (h : Recorded station s) {m : MessageObject}
    (hm : s.Hears station c p m)
    (htype : m.type = MsgType.control.code ∨ m.type = MsgType.teds.code) (now : UInt64)
    (effect : Option CommunicationAPI.Effect) :
    ∃ y ∈ s.sent, Handled.Copy station s.fleet ⟨c, p, now, m, effect⟩ y := by
  obtain ⟨b, rest, memory, uninitialized, hb, hhears, hreceive⟩ := hm
  have htraced := traced_of_reachable h.fleet
  obtain ⟨src', dst', segment, hframed⟩ := htraced.framed hb
  obtain ⟨hsource, -, hcopies⟩ := receive_framed hframed (by decide) hreceive
  rw [hcopies.type, code_isData] at htype
  obtain ⟨j, k, src, dst, horiginal, hcopy⟩ :=
    htraced.provenance (inv_of_reachable h.fleet) hb hframed htype
  obtain ⟨y, hy, rfl, rfl, rfl, rfl, rfl⟩ := h.sent j k src dst segment hcopy.sent
  have hreceived := Station.receives_of_hears hframed hhears
  rw [hcopy.port] at hreceived
  refine ⟨y, hy, horiginal, hcopies, hreceived, fun heq => ?_, fun hne => ?_⟩
  · exact hsource.trans (Prod.ext_iff.mp (hcopy.own heq)).1
  · obtain ⟨hother, hbroadcast⟩ := hcopy.other hne
    exact ⟨hsource.trans hother, hbroadcast⟩

theorem Recorded.answer (h : Recorded station s) (effect : Option CommunicationAPI.Effect) :
    Recorded station (s.answer station c p x effect) := by
  unfold State.answer
  split
  · exact h.send
  · exact h

theorem length_le_card {α β : Type*} [DecidableEq β] {l : List α} {f : α → β} {S : Finset β}
    (hnodup : (l.map f).Nodup) (hmem : ∀ a ∈ l, f a ∈ S) : l.length ≤ S.card := by
  calc l.length = (l.map f).toFinset.card := by
        rw [List.toFinset_card_of_nodup hnodup, List.length_map]
    _ ≤ S.card := by
        apply Finset.card_le_card
        intro b hb
        obtain ⟨a, ha, rfl⟩ := List.mem_map.mp (List.mem_toFinset.mp hb)
        exact hmem a ha

/-- Each of a set of components handles at most one copy of each message. -/
theorem Recorded.length_le [DecidableEq κ] (h : Recorded station s) {l : List (Handled κ)}
    {sent : List (Sent κ)} {S : Finset κ} (hl : l.Sublist s.handled)
    (hcopy : ∀ y ∈ l, y.station ∈ S ∧ ∃ z ∈ sent, y.Copy station s.fleet z) :
    l.length ≤ S.card * sent.length := by
  set places := (sent.map fun z => some ((station z.station).vehicle, z.entry)).toFinset
  have hnodup : (l.map fun y =>
      (y.station, original s.fleet (station y.station).vehicle y.read)).Nodup := by
    unfold List.Nodup
    rw [List.pairwise_map]
    apply (h.readOrder.order.sublist hl).imp_of_mem
    intro y y' hy hy' hlt heq
    obtain ⟨hstation, horiginal⟩ := Prod.ext_iff.mp heq
    obtain ⟨-, z, -, hz⟩ := hcopy y hy
    have hy : original s.fleet (station y'.station).vehicle y.read = some _ :=
      (congrArg (fun c => original s.fleet (station c).vehicle y.read) hstation).symm.trans
        hz.original
    have hy' := horiginal.symm.trans hz.original
    exact (hlt hstation).ne ((faithful_of_reachable h.fleet).once _ _ _ _ hy hy')
  calc l.length ≤ (S ×ˢ places).card := by
        refine length_le_card hnodup fun y hy => ?_
        obtain ⟨hstation, z, hz, hy⟩ := hcopy y hy
        rw [Finset.mem_product, hy.original, List.mem_toFinset]
        exact ⟨hstation, List.mem_map.mpr ⟨z, hz, rfl⟩⟩
    _ ≤ S.card * sent.length := by
        rw [Finset.card_product]
        apply Nat.mul_le_mul_left
        exact (List.toFinset_card_le _).trans_eq (List.length_map _)

variable [DecidableEq κ]

variable (station) in
inductive Change (s : State ι κ) : State ι κ → Prop
  | traffic (a : Relay.Action ι) (fleet : Relay.State ι) (ha : Foreign a)
      (hfleet : s.fleet.step a = some fleet) : Change s { s with fleet }
  | tick (i : ι) (now : UInt64) (hnow : s.clock i ≤ now) :
      Change s { s with clock := Function.update s.clock i now }
  | ping (c : κ) (x : Context) (dst : Address) (hport : dst.port = 1000) :
      Change s (s.send station c x .ping dst (LatencyTest.Packet.segment
        ⟨.ping, x.padding, (station c).senderId, s.clock (station c).vehicle⟩))
  | interest (c : κ) (x : Context) (unitTag : TedsType) (interval : Period)
      (hrole : (station c).role = .actuator unitTag interval) :
      Change s (s.send station c x .interest ⟨broadcastAddr, typeBasedRoutingPort⟩
        (interestSegment (Teds.getBaseType unitTag) interval))
  | response (c : κ) (x : Context) (timestamp : UInt64) (value : Reading)
      (hjoinable : (s.process c).component.joinable = true) (hvalue : value.isTrue = true) :
      Change s (s.send station c x .response ⟨broadcastAddr, typeBasedRoutingPort⟩
        (responseSegment timestamp (s.process c).component.responseType value))
  | cleanup (c : κ) (nearby : Address → Bool)
      (hlive : (s.process c).component.terminated = false) : Change s { s with
        process := Function.update s.process c
          (TedsHandler.cleanup nearby (s.process c).component (s.process c).subscribers) }
  | same : Change s s
  | read (c : κ) (p : ℕ) (hp : s.next c ≤ p) : Change s (s.readTo c p)
  | dispatch (c : κ) (p : ℕ) (x : Context) (m : MessageObject) (hp : s.next c ≤ p)
      (hlive : (s.process c).component.terminated = false) (hm : s.Hears station c p m) :
      Change s ((s.readTo c p).dispatch station c p x m)

omit [Fintype ι] in
theorem step_change {a : Action ι κ} (hs : s.step station a = some s') :
    Change station s s' := by
  cases a with
  | traffic a =>
    simp only [State.step] at hs
    split_ifs at hs with ha
    obtain ⟨fleet, hfleet, rfl⟩ := Option.map_eq_some_iff.mp hs
    exact .traffic a fleet ha hfleet
  | tick i now =>
    simp only [State.step] at hs
    split_ifs at hs with hnow
    cases hs
    exact .tick i now hnow
  | sendPing c external x =>
    simp only [State.step] at hs
    split_ifs at hs <;> cases hs <;> exact .ping c x _ rfl
  | sendInterest c x =>
    simp only [State.step] at hs
    split_ifs at hs
    cases hrole : (station c).role with
    | sensor =>
      rw [hrole] at hs
      cases hs
    | actuator unitTag interval =>
      rw [hrole] at hs
      cases hs
      exact .interest c x unitTag interval hrole
  | sendResponse c timestamp value x =>
    simp only [State.step] at hs
    split_ifs at hs with hguard hvalue
    · cases hs
      have hjoinable := not_not.mp (not_or.mp hguard).2
      exact .response c x timestamp value hjoinable hvalue
    · cases hs
      exact .same
  | cleanup c nearby =>
    simp only [State.step] at hs
    split_ifs at hs with hlive
    cases hs
    exact .cleanup c nearby (Bool.eq_false_iff.mpr hlive)
  | receive c p x =>
    simp only [State.step] at hs
    split_ifs at hs with hguard
    have hlive := Bool.eq_false_iff.mpr (not_or.mp hguard).1
    have hp : s.next c ≤ p := Nat.le_of_not_lt (not_or.mp hguard).2
    obtain ⟨b, hb, rfl⟩ := Option.map_eq_some_iff.mp hs
    split_ifs with hhears hok
    · rcases hm : (MessageObject.ofSize x.memory x.uninitialized messageCapacity).receive
        (busFrame x.rest b.call) with ⟨ok, m⟩
      rw [hm] at hok
      obtain rfl : ok = true := hok
      exact .dispatch c p x m hp hlive ⟨b, x.rest, x.memory, x.uninitialized, hb, hhears, hm⟩
    · exact .read c p hp
    · exact .read c p hp

omit [DecidableEq ι] [Fintype ι] in
theorem next_le_update {next : κ → ℕ} (h : next c ≤ p) (d : κ) :
    next d ≤ Function.update next c (p + 1) d := by
  rcases eq_or_ne d c with rfl | hne
  · rw [Function.update_self]
    omega
  · rw [Function.update_of_ne hne]

omit [Fintype ι] in
theorem Recorded.readTo (h : Recorded station s) (hp : s.next c ≤ p) :
    Recorded station (s.readTo c p) :=
  ⟨h.fleet, h.sent, h.copy, h.sentOrder, h.readOrder.mono (next_le_update hp)⟩

theorem Recorded.handle (h : Recorded station s) (hp : s.next c ≤ p) {m : MessageObject}
    (hm : s.Hears station c p m) (effect : Option CommunicationAPI.Effect) :
    Recorded station ((s.readTo c p).handle station c p m effect) := by
  refine ⟨h.fleet, h.sent, fun y hy htype => ?_, h.sentOrder, ?_⟩
  · rcases List.mem_append.mp hy with hold | hnew
    · exact h.copy y hold htype
    · rw [List.mem_singleton.mp hnew] at htype ⊢
      exact h.copy_of_hears hm htype _ effect
  · apply h.readOrder.append (next_le_update hp) hp
    change p < Function.update s.next c (p + 1) c
    rw [Function.update_self]
    exact Nat.lt_succ_self p

theorem Recorded.change (h : Recorded station s) (hchange : Change station s s') :
    Recorded station s' := by
  cases hchange with
  | traffic a fleet ha hfleet =>
    have hextends := h.grows_fleet hfleet
    refine ⟨h.reachable hfleet, ?_, ?_,
      h.sentOrder.mono fun i => (hextends.bus i).length_le, h.readOrder⟩
    · rintro j k src dst segment ⟨b, hb, horigin, hdata, hframed⟩
      exact h.sent j k src dst segment
        ⟨b, foreign_entry ha hfleet hb horigin, horigin, hdata, hframed⟩
    · intro y hy htype
      obtain ⟨z, hz, hcopy⟩ := h.copy y hy htype
      have hgrows : Grows s { s with fleet } := { Grows.refl s with fleet := hextends }
      exact ⟨z, hz, hgrows.copy hcopy⟩
  | tick | cleanup => exact ⟨h.fleet, h.sent, h.copy, h.sentOrder, h.readOrder⟩
  | ping | interest | response => exact h.send
  | same => exact h
  | read c p hp => exact h.readTo hp
  | dispatch c p x m hp hlive hm => exact (h.handle hp hm _).answer _

theorem recorded_of_reachable (hs : (machine station).Reachable s) : Recorded station s := by
  refine hs.invariant ?_ fun _ _ _ _ h hstep _ => h.change (step_change hstep)
  intro s hinit
  obtain ⟨hfleet, hsent, hhandled, -⟩ := hinit
  refine ⟨.init hfleet, ?_, ?_, ?_, ?_⟩
  · rintro j k src dst segment ⟨b, hb, -⟩
    rw [(hfleet.1 j).1] at hb
    cases hb
  · rw [hhandled]
    exact nofun
  · rw [hsent]
    exact ⟨nofun, .nil⟩
  · rw [hhandled]
    exact ⟨nofun, .nil⟩

variable (station) in
inductive Sent.New (s s' : State ι κ) (y : Sent κ) : Prop
  | ping (x : Context) (hcause : y.cause = .ping) (hport : y.dst.port = 1000)
      (hsegment : y.segment = LatencyTest.Packet.segment ⟨.ping, x.padding,
        (station y.station).senderId, s.clock (station y.station).vehicle⟩)
  | interest (unitTag : TedsType) (interval : Period) (hcause : y.cause = .interest)
      (hrole : (station y.station).role = .actuator unitTag interval)
      (hport : y.dst.port = typeBasedRoutingPort)
      (hsegment : y.segment = interestSegment (Teds.getBaseType unitTag) interval)
  | response (timestamp : UInt64) (value : Reading) (hcause : y.cause = .response)
      (hjoinable : (s.process y.station).component.joinable = true)
      (hvalue : value.isTrue = true) (hport : y.dst.port = typeBasedRoutingPort)
      (hsegment : y.segment =
        responseSegment timestamp (s.process y.station).component.responseType value)
  | echo (h : Handled κ) (hh : h ∈ s'.handled) (x : Context) (timestamp senderId : UInt64)
      (hstation : y.station = h.station) (hcause : y.cause = .echo h.read)
      (heffect : h.effect = some (.sendEcho y.dst timestamp senderId))
      (hsegment : y.segment =
        LatencyTest.Packet.segment ⟨.echo, x.padding, senderId, timestamp⟩)

variable (station) in
structure Handled.New (s : State ι κ) (h : Handled κ) : Prop where
  hears : s.Hears station h.station h.read h.message
  now : h.now = s.clock (station h.station).vehicle
  effect : ∃ heap, h.effect =
    (receiverDispatch (station h.station).senderId heap h.message).effect

omit [DecidableEq κ] [Fintype ι] in
theorem mem_send {s' : State ι κ} {y : Sent κ}
    (hy : y ∈ (s.send station c x cause dst segment).sent)
    (hnew : ∀ entry, Sent.New station s s' ⟨c, entry, cause, dst, segment⟩) :
    y ∈ s.sent ∨ y.New station s s' := by
  rcases send_cases s c x cause dst segment with heq | ⟨fleet, -, heq⟩
  · rw [heq] at hy
    exact .inl hy
  · rw [heq] at hy
    rcases List.mem_append.mp hy with hold | hone
    · exact .inl hold
    · rw [List.mem_singleton.mp hone]
      exact .inr (hnew _)

omit [DecidableEq κ] [Fintype ι] in
@[simp] theorem send_handled :
    (s.send station c x cause dst segment).handled = s.handled := by
  rcases send_cases s c x cause dst segment with heq | ⟨fleet, -, heq⟩ <;> rw [heq]

omit [DecidableEq κ] [Fintype ι] in
@[simp] theorem answer_handled (effect : Option CommunicationAPI.Effect) :
    (s.answer station c p x effect).handled = s.handled := by
  unfold State.answer
  split
  · exact send_handled
  · rfl

omit [DecidableEq κ] [Fintype ι] in
@[simp] theorem send_process :
    (s.send station c x cause dst segment).process = s.process := by
  rcases send_cases s c x cause dst segment with heq | ⟨fleet, -, heq⟩ <;> rw [heq]

omit [DecidableEq κ] [Fintype ι] in
@[simp] theorem answer_process (effect : Option CommunicationAPI.Effect) :
    (s.answer station c p x effect).process = s.process := by
  unfold State.answer
  split
  · exact send_process
  · rfl

omit [Fintype ι] in
/-- What becomes of a process. -/
theorem Change.process (hchange : Change station s s') (d : κ) : s'.process d = s.process d ∨
    (s.process d).component.terminated = false ∧
      ((∃ nearby, s'.process d =
        TedsHandler.cleanup nearby (s.process d).component (s.process d).subscribers) ∨
      ∃ h ∈ s'.handled, h.station = d ∧ s'.process d = (s.process d).after h.effect) := by
  cases hchange with
  | traffic | tick | same | read => exact .inl rfl
  | ping | interest | response => exact .inl (congrFun send_process d)
  | cleanup c nearby hlive =>
    rcases eq_or_ne d c with rfl | hne
    · exact .inr ⟨hlive, .inl ⟨nearby, Function.update_self ..⟩⟩
    · exact .inl (Function.update_of_ne hne ..)
  | dispatch c p x m hp hlive hm =>
    rw [State.dispatch, answer_process, answer_handled]
    rcases eq_or_ne d c with rfl | hne
    · exact .inr ⟨hlive, .inr ⟨_, List.mem_append_right _ List.mem_cons_self, rfl,
        Function.update_self ..⟩⟩
    · exact .inl (Function.update_of_ne hne ..)

omit [Fintype ι] in
theorem Change.sent (hchange : Change station s s') {y : Sent κ} (hy : y ∈ s'.sent) :
    y ∈ s.sent ∨ y.New station s s' := by
  cases hchange with
  | traffic | tick | cleanup | same | read => exact .inl hy
  | ping c x dst hport => exact mem_send hy fun _ => .ping x rfl hport rfl
  | interest c x unitTag interval hrole =>
    exact mem_send hy fun _ => .interest unitTag interval rfl hrole rfl rfl
  | response c x timestamp value hjoinable hvalue =>
    exact mem_send hy fun _ => .response timestamp value rfl hjoinable hvalue rfl rfl
  | dispatch c p x m hp hlive hm =>
    rw [State.dispatch] at hy ⊢
    set effect := (receiverDispatch (station c).senderId x.heap m).effect with heffect
    clear_value effect
    set h : Handled κ := ⟨c, p, s.clock (station c).vehicle, m, effect⟩
    set mid := (s.readTo c p).handle station c p m effect
    have hmem : h ∈ (mid.answer station c p x effect).handled := by
      rw [answer_handled]
      exact List.mem_append_right _ List.mem_cons_self
    unfold State.answer at hy
    split at hy
    · rename_i dst timestamp senderId
      rcases send_cases mid c x (.echo p) dst _ with heq | ⟨fleet, -, heq⟩
      · rw [heq] at hy
        exact .inl hy
      · rw [heq] at hy
        rcases List.mem_append.mp hy with hold | hone
        · exact .inl hold
        · rw [List.mem_singleton.mp hone]
          exact .inr (.echo h hmem x timestamp senderId rfl rfl rfl rfl)
    · exact .inl hy

omit [Fintype ι] in
theorem Change.handled (hchange : Change station s s') {h : Handled κ} (hh : h ∈ s'.handled) :
    h ∈ s.handled ∨ h.New station s := by
  cases hchange with
  | traffic | tick | cleanup | same | read => exact .inl hh
  | ping | interest | response =>
    rw [send_handled] at hh
    exact .inl hh
  | dispatch c p x m hp hlive hm =>
    rw [State.dispatch, answer_handled] at hh
    rcases List.mem_append.mp hh with hold | hone
    · exact .inl hold
    · rw [List.mem_singleton.mp hone]
      exact .inr ⟨hm, rfl, x.heap, rfl⟩

omit [DecidableEq κ] in
theorem Recorded.grows_answer (h : Recorded station s) {effect : Option CommunicationAPI.Effect} :
    Grows s (s.answer station c p x effect) := by
  unfold State.answer
  split
  · exact h.grows_send
  · exact Grows.refl s

theorem Recorded.grows (h : Recorded station s) (hchange : Change station s s') :
    Grows s s' := by
  cases hchange with
  | traffic a fleet ha hfleet => exact { Grows.refl s with fleet := h.grows_fleet hfleet }
  | tick i now hnow =>
    refine { Grows.refl s with clock := fun j => ?_ }
    rcases eq_or_ne j i with rfl | hne
    · simpa using hnow
    · simp [hne]
  | ping | interest | response => exact h.grows_send
  | cleanup => exact { Grows.refl s with }
  | same => exact Grows.refl s
  | read c p hp => exact { Grows.refl s with next := next_le_update hp }
  | dispatch c p x m hp hlive hm =>
    have hmid (effect : Option CommunicationAPI.Effect) :
        Grows s ((s.readTo c p).handle station c p m effect) :=
      { Grows.refl s with next := next_le_update hp, handled := List.prefix_append _ _ }
    exact (hmid _).trans (h.handle hp hm _).grows_answer

/-- What is handled is justified by what was sent before, and what is sent by what has been
handled. -/
theorem records_of_reachable {P : State ι κ → Sent κ → Prop} {Q : State ι κ → Handled κ → Prop}
    (hP : ∀ {s s' x}, Grows s s' → P s x → P s' x) (hQ : ∀ {s s' h}, Grows s s' → Q s h → Q s' h)
    (hhandled : ∀ {s h}, (machine station).Reachable s → (∀ x ∈ s.sent, P s x) →
      h.New station s → Q s h)
    (hsent : ∀ {s s' x}, (machine station).Reachable s → Grows s s' → (∀ h ∈ s'.handled, Q s' h) →
      x.New station s s' → P s' x)
    (hs : (machine station).Reachable s) : (∀ x ∈ s.sent, P s x) ∧ ∀ h ∈ s.handled, Q s h := by
  refine hs.invariant (P := fun s => (∀ x ∈ s.sent, P s x) ∧ ∀ h ∈ s.handled, Q s h) ?_ ?_
  · intro s hinit
    obtain ⟨-, hsent, hhandled, -⟩ := hinit
    rw [hsent, hhandled]
    exact ⟨nofun, nofun⟩
  intro s a s' hreach ⟨hold, holdHandled⟩ hstep _
  have hchange := step_change hstep
  have hgrows := (recorded_of_reachable hreach).grows hchange
  have hnew : ∀ h ∈ s'.handled, Q s' h := by
    intro h hh
    rcases hchange.handled hh with hh | hh
    · exact hQ hgrows (holdHandled h hh)
    · exact hQ hgrows (hhandled hreach hold hh)
  refine ⟨fun x hx => ?_, hnew⟩
  rcases hchange.sent hx with hx | hx
  · exact hP hgrows (hold x hx)
  · exact hsent hreach hgrows hnew hx

end Records

end CommunicationAPI.ComponentFleet
