import CommunicationAPI.EndToEnd
import CommunicationAPI.Machine
import Mathlib.Algebra.BigOperators.Fin
import Mathlib.Algebra.Order.BigOperators.Group.Finset

/-!
# Vehicles on one link

Every vehicle has its own bus, which its gateway reads in order. The link
hands each frame to each station at most once, also to the one that sent it.
Entries of the two kinds of log are marked with what put them there.
-/

namespace CommunicationAPI.Relay
open Octets ShmEngine TransitionSystem
variable {ι : Type*}

/-- What put a frame on a bus: a component, the external branch of `update` for
frame `n` of the link, or a handler of system messages. -/
inductive BusOrigin
  | component
  | relay (n : ℕ)
  | system
  deriving DecidableEq

/-- What put a frame on the link: the local branch of `update` for entry `k` of
the sender's bus, or a handler of system messages. -/
inductive LinkOrigin
  | forward (k : ℕ)
  | system
  deriving DecidableEq

structure BusEntry where
  call : SendCall
  origin : BusOrigin

structure LinkEntry (ι : Type*) where
  frame : WireFrame
  sender : ι
  origin : LinkOrigin

structure State (ι : Type*) where
  gateway : ι → Gateway
  bus : ι → List BusEntry
  cursor : ι → ℕ
  link : List (LinkEntry ι)
  received : ι → Finset ℕ

/-- A component sends with a location and a key that it has read from the shared
block some time before. Handlers send their messages whenever they like, and
the keys, locations and lists of a vehicle change at any time. A segment so long that
`_send_frame` overruns its frame puts nothing on a bus or the link. -/
inductive Action (ι : Type*)
  | component (i : ι) (location : Quadrant) (key : SessionKey) (src dst : Address) (s : Segment)
  | readBus (i : ι) (rest : Memory)
  | receive (i : ι) (n : ℕ) (rest : Memory)
  | system (i : ι) (src dst : Address) (s : Segment)
  | environment (i : ι) (quadrant : Quadrant) (shared : SharedInfo)

namespace State
variable [DecidableEq ι]

def append (s : State ι) (i : ι) (bs : List BusEntry) (ls : List (LinkEntry ι)) : State ι :=
  { s with bus := Function.update s.bus i (s.bus i ++ bs), link := s.link ++ ls }

def emit (s : State ι) (i : ι) (b : BusOrigin) (l : LinkOrigin) (outputs : List Output) :
    State ι :=
  s.append i ((outputBuses outputs).map fun c => ⟨c, b⟩)
    ((outputLinks outputs).map fun f => ⟨f, i, l⟩)

def setGateway (s : State ι) (i : ι) (g : Gateway) : State ι :=
  { s with gateway := Function.update s.gateway i g }

def advance (s : State ι) (i : ι) : State ι :=
  { s with cursor := Function.update s.cursor i (s.cursor i + 1) }

def markReceived (s : State ι) (i : ι) (n : ℕ) : State ι :=
  { s with received := Function.update s.received i (insert n (s.received i)) }

def step (s : State ι) : Action ι → Option (State ι)
  | .component i location key src dst segment =>
    if segment.type.IsData then
      (sendFrame location key src dst segment.getBytes).call.map fun c =>
        s.emit i .component .system [.bus c]
    else none
  | .readBus i rest =>
    (s.bus i)[s.cursor i]?.map fun b =>
      (s.emit i .system (.forward (s.cursor i)) ((s.gateway i).receiveLocal rest b.call)).advance i
  | .receive i n rest =>
    if n ∈ s.received i then none
    else s.link[n]?.map fun e =>
      let (g, outputs) := (s.gateway i).handleReceive rest e.frame
      ((s.emit i (.relay n) .system outputs).setGateway i g).markReceived i n
  | .system i src dst segment =>
    if segment.type.IsData then none
    else some (s.emit i .system .system ((s.gateway i).send src dst segment.getBytes).toList)
  | .environment i quadrant shared =>
    some (s.setGateway i ⟨(s.gateway i).address, quadrant, shared⟩)

end State

/-- The vehicles start with empty logs, whatever the state of their gateways. -/
def network (ι : Type*) [DecidableEq ι] : Machine (State ι) (Action ι) where
  init s := (∀ i, s.bus i = [] ∧ s.cursor i = 0 ∧ s.received i = ∅) ∧ s.link = []
  step := State.step

def isData (f : WireFrame) : Bool :=
  f.data[packetHeaderSize]? = some MsgType.control.code ∨
    f.data[packetHeaderSize]? = some MsgType.teds.code

def BusEntry.isBroadcast (b : BusEntry) : Bool :=
  b.origin = .component ∧ b.call.dstMac = broadcastAddr

/-- How often the frame at entry `k` of the bus of vehicle `i` was put on the link. -/
def transmissions [DecidableEq ι] (s : State ι) (i : ι) (k : ℕ) : ℕ :=
  s.link.countP fun e => e.sender = i ∧ e.origin = .forward k

/-- How many frames on the bus of vehicle `i` stem from frame `n` of the link. -/
def relays (s : State ι) (i : ι) (n : ℕ) : ℕ :=
  (s.bus i).countP fun b => b.origin = .relay n

/-- A frame of a component is a data packet; no other frame on a bus is a broadcast. -/
inductive BusEntry.Sound : BusEntry → Prop
  | component (loc : Quadrant) (key : SessionKey) (src dst : Address) (segment : Segment)
      (htype : segment.type.IsData)
      (h : packetHeaderSize + segment.getBytes.length + macSize ≤ mtu) :
      Sound ⟨packetCall loc key src dst segment.getBytes h, .component⟩
  | internal (b : BusEntry) (horigin : b.origin ≠ .component)
      (hdst : b.call.dstMac ≠ broadcastAddr) : Sound b

/-- A packet without a control or TEDS segment. -/
theorem isData_octets {loc : Quadrant} {sp dp : Port} {key : SessionKey} {s : Segment}
    (hs : ¬ s.type.IsData) {f : WireFrame}
    (hf : f.data = Packet.octets loc sp dp s.getBytes key) : isData f = false := by
  have hat : f.data[packetHeaderSize]? = some s.type.code := by
    rw [hf]
    rfl
  unfold isData
  rw [hat]
  unfold MsgType.IsData at hs
  cases htype : s.type with
  | control => exact absurd (Or.inl htype) hs
  | teds => exact absurd (Or.inr htype) hs
  | ptp => rfl
  | group => rfl

section
variable {g : Gateway}

/-- Nothing that is not a broadcast leaves the bus. -/
theorem receiveLocal_internal (rest : Memory) {c : SendCall} (hc : c.dstMac ≠ broadcastAddr) :
    outputBuses (g.receiveLocal rest c) = [] ∧ outputLinks (g.receiveLocal rest c) = [] := by
  have hdhost : (busFrame rest c).header.dhost ≠ broadcastAddr := hc
  unfold Gateway.receiveLocal Gateway.updateLocal
  simp only [if_neg hdhost]
  split_ifs <;> exact ⟨rfl, rfl⟩

structure RelaysOnly (g : Gateway) (r : Gateway × List Output) : Prop where
  address : r.1.address = g.address
  links : outputLinks r.2 = []
  buses : outputBuses r.2 = [] ∨ ∃ c, outputBuses r.2 = [c] ∧ c.dstMac ≠ broadcastAddr

theorem RelaysOnly.quiet {g' : Gateway} {outputs : List Output} (haddress : g'.address = g.address)
    (hlinks : outputLinks outputs = []) (hbuses : outputBuses outputs = []) :
    RelaysOnly g (g', outputs) := ⟨haddress, hlinks, .inl hbuses⟩

theorem filterSystemMessages_quiet {frame : Frame} {source dest : Address} {o : Output}
    (h : g.filterSystemMessages frame source dest = some o) :
    outputLinks [o] = [] ∧ outputBuses [o] = [] := by
  unfold Gateway.filterSystemMessages at h
  simp only at h
  split_ifs at h <;> cases h <;> exact ⟨rfl, rfl⟩

theorem updateExternal_relaysOnly (frame : Frame) : RelaysOnly g (g.updateExternal frame) := by
  unfold Gateway.updateExternal
  simp only
  by_cases hsize : frame.dataLength < packetHeaderSize + macSize
  · rw [if_pos hsize]
    exact .quiet rfl rfl rfl
  · rw [if_neg hsize]
    split
    · rename_i message hmessage
      obtain ⟨hlinks, hbuses⟩ := filterSystemMessages_quiet hmessage
      exact .quiet rfl hlinks hbuses
    · split_ifs with hmac
      · exact .quiet rfl rfl rfl
      · rw [Gateway.send_local rfl]
        refine ⟨rfl, outputLinks_bus _, ?_⟩
        dsimp only
        rw [outputBuses_bus, call_sendFrame]
        split_ifs with h
        · exact .inr ⟨_, rfl, localAddr_ne_broadcastAddr⟩
        · exact .inl rfl

theorem handleReceive_relaysOnly (rest : Memory) (f : WireFrame) :
    RelaysOnly g (g.handleReceive rest f) := by
  unfold Gateway.handleReceive
  simp only
  split_ifs
  · exact .quiet rfl rfl rfl
  · exact .quiet rfl rfl rfl
  · exact updateExternal_relaysOnly _
  · exact .quiet rfl rfl rfl

end

inductive Effect [DecidableEq ι] (s : State ι) (i : ι) : State ι → Prop
  | gateway (g : Gateway) (hg : g.address = (s.gateway i).address) : Effect s i (s.setGateway i g)
  | emit (bs : List BusEntry) (ls : List (LinkEntry ι))
      (hbs : ∀ b ∈ bs, b.Sound ∧ ∀ n, b.origin ≠ .relay n)
      (hls : ∀ e ∈ ls, e.origin = .system ∧ e.frame.header.shost = (s.gateway e.sender).address.1 ∧
        isData e.frame = false) : Effect s i (s.append i bs ls)
  | skip (b : BusEntry) (hb : (s.bus i)[s.cursor i]? = some b) (hno : b.isBroadcast = false) :
      Effect s i (s.advance i)
  | forward (b : BusEntry) (f : WireFrame) (hb : (s.bus i)[s.cursor i]? = some b)
      (hyes : b.isBroadcast = true) (hf : f.header.shost = (s.gateway i).address.1) :
      Effect s i ((s.append i [] [⟨f, i, .forward (s.cursor i)⟩]).advance i)
  | receive (n : ℕ) (e : LinkEntry ι) (bs : List BusEntry) (g : Gateway)
      (hn : n ∉ s.received i) (he : s.link[n]? = some e) (hown : e.sender = i → bs = [])
      (hone : bs.length ≤ 1) (hbs : ∀ b ∈ bs, b.Sound ∧ b.origin = .relay n)
      (hg : g.address = (s.gateway i).address) :
      Effect s i (((s.append i bs []).setGateway i g).markReceived i n)

variable [DecidableEq ι] {s s' : State ι}

theorem append_nil (s : State ι) (i : ι) : s.append i [] [] = s := by
  simp [State.append]

theorem send_effect (i : ι) (src dst : Address) (segment : Segment) (ht : ¬ segment.type.IsData) :
    Effect s i (s.emit i .system .system
      ((s.gateway i).send src dst segment.getBytes).toList) := by
  unfold State.emit Gateway.send
  by_cases hdst : dst.paddr ≠ (s.gateway i).address.1 ∧ dst.paddr ≠ localAddr
  · rw [if_pos hdst, outputBuses_link, outputLinks_link, call_sendFrame]
    split_ifs
    · apply Effect.emit
      · simp
      · simp only [Option.toList_some, List.map_cons, List.map_nil, List.mem_singleton]
        rintro e rfl
        exact ⟨rfl, rfl, isData_octets ht rfl⟩
    · exact .emit [] [] (by simp) (by simp)
  · rw [if_neg hdst, outputBuses_bus, outputLinks_bus, call_sendFrame]
    split_ifs
    · apply Effect.emit
      · simp only [Option.toList_some, List.map_cons, List.map_nil, List.mem_singleton]
        rintro b rfl
        have hinternal : dst.paddr ≠ broadcastAddr := by
          intro hbroadcast
          rw [hbroadcast] at hdst
          exact hdst ⟨(s.gateway i).address.2.symm, localAddr_ne_broadcastAddr.symm⟩
        exact ⟨.internal _ (by simp) hinternal, by simp⟩
      · simp
    · exact .emit [] [] (by simp) (by simp)

theorem readBus_effect (i : ι) (rest : Memory) {b : BusEntry}
    (hb : (s.bus i)[s.cursor i]? = some b) (hsound : b.Sound) :
    Effect s i ((s.emit i .system (.forward (s.cursor i))
      ((s.gateway i).receiveLocal rest b.call)).advance i) := by
  unfold State.emit
  by_cases hdst : b.call.dstMac = broadcastAddr
  · cases hsound with
    | internal _ _ hno => exact absurd hdst hno
    | component loc key src dst segment htype h =>
      obtain ⟨hbuses, hlinks⟩ := Gateway.outputs_broadcast (g := s.gateway i) loc key src rest
        hdst h
      rw [hbuses, hlinks, List.map_nil, List.map_cons, List.map_nil]
      exact .forward _ _ hb (by simpa [BusEntry.isBroadcast] using hdst) rfl
  · obtain ⟨hbuses, hlinks⟩ := receiveLocal_internal (g := s.gateway i) rest hdst
    rw [hbuses, hlinks, List.map_nil, List.map_nil, append_nil]
    exact .skip b hb (by simp [BusEntry.isBroadcast, hdst])

theorem receive_effect (i : ι) (n : ℕ) (rest : Memory) {e : LinkEntry ι}
    (hn : n ∉ s.received i) (he : s.link[n]? = some e)
    (hsource : e.frame.header.shost = (s.gateway e.sender).address.1) :
    Effect s i (((s.emit i (.relay n) .system ((s.gateway i).handleReceive rest e.frame).2).setGateway
      i ((s.gateway i).handleReceive rest e.frame).1).markReceived i n) := by
  obtain ⟨haddress, hlinks, hbuses⟩ := handleReceive_relaysOnly (g := s.gateway i) rest e.frame
  unfold State.emit
  rw [hlinks, List.map_nil]
  apply Effect.receive n e _ _ hn he _ _ _ haddress
  · intro hown
    rw [hown] at hsource
    rw [Gateway.handleReceive_own rest hsource]
    rfl
  · rcases hbuses with h | ⟨c, h, -⟩ <;> simp [h]
  · rcases hbuses with h | ⟨c, h, hc⟩
    · simp [h]
    · simp only [h, List.map_cons, List.map_nil, List.mem_singleton]
      rintro b rfl
      exact ⟨.internal _ (by simp) hc, rfl⟩

theorem step_effect {a : Action ι} (hsound : ∀ i, ∀ b ∈ s.bus i, b.Sound)
    (hsource : ∀ e ∈ s.link, e.frame.header.shost = (s.gateway e.sender).address.1)
    (hs : s.step a = some s') : ∃ i, Effect s i s' := by
  cases a with
  | component i loc key src dst segment =>
    simp only [State.step] at hs
    split_ifs at hs with ht
    rw [call_sendFrame] at hs
    split_ifs at hs with h
    · cases hs
      use i
      apply Effect.emit
      · simp only [outputBuses, List.filterMap_cons, List.filterMap_nil, List.map_cons,
          List.map_nil, List.mem_singleton]
        rintro b rfl
        exact ⟨.component loc key src dst segment ht h, by simp⟩
      · simp [outputLinks]
    · cases hs
  | readBus i rest =>
    obtain ⟨b, hb, rfl⟩ := Option.map_eq_some_iff.mp hs
    exact ⟨i, readBus_effect i rest hb (hsound i b (List.mem_of_getElem? hb))⟩
  | receive i n rest =>
    simp only [State.step] at hs
    split_ifs at hs with hn
    obtain ⟨e, he, rfl⟩ := Option.map_eq_some_iff.mp hs
    exact ⟨i, receive_effect i n rest hn he (hsource e (List.mem_of_getElem? he))⟩
  | system i src dst segment =>
    simp only [State.step] at hs
    split_ifs at hs with ht
    cases hs
    exact ⟨i, send_effect i src dst segment ht⟩
  | environment i quadrant shared =>
    cases hs
    exact ⟨i, .gateway _ rfl⟩

end CommunicationAPI.Relay
