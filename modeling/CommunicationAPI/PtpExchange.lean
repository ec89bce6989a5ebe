import CommunicationAPI.Machine
import CommunicationAPI.PtpSynchronizers

/-!
# A slave and its masters

One slave and `n` masters on a link that delivers the copies of each frame in
any order and may lose them. The slave's timer thread requests synchronization
again and again.
-/

namespace CommunicationAPI.PtpExchange
open Octets ShmEngine TransitionSystem
variable {n : ℕ}

inductive Station (n : ℕ)
  | slave
  | master (i : Fin n)
  deriving DecidableEq

def stations (n : ℕ) : List (Station n) := .slave :: (List.finRange n).map .master

structure Copy (n : ℕ) where
  dest : Station n
  frame : WireFrame

/-- `starting` holds while the timer thread has changed the state of the slave and
not yet sent its START. -/
structure State (n : ℕ) where
  gateway : Station n → Gateway
  sync : SlaveSynchronizer
  starting : Bool
  flight : List (Copy n)

inductive Action (n : ℕ)
  | request
  | sendStart (clock : SystemClock)
  | deliver (k : ℕ) (rest : Memory) (clock : SystemClock)
  | lose (k : ℕ)
  | move (st : Station n) (quadrant : Quadrant) (shared : SharedInfo)

namespace State
variable (s : State n)

/-- The copies of a frame: one for each other station it is addressed to. -/
def copies (sender : Station n) (f : WireFrame) : List (Copy n) :=
  ((stations n).filter fun st => st ≠ sender ∧
    (f.header.dhost = (s.gateway st).address.1 ∨ f.header.dhost = broadcastAddr)).map fun st => ⟨st, f⟩

def transmit (sender : Station n) (o : Option Output) : State n :=
  { s with flight := s.flight ++ (outputLinks o.toList).flatMap (s.copies sender) }

def setGateway (st : Station n) (g : Gateway) : State n :=
  { s with gateway := Function.update s.gateway st g }

def handle (st : Station n) (clock : SystemClock) (payload : Memory) (size : ℕ)
    (source dest : Address) : State n :=
  match st with
  | .slave =>
    let outcome := s.sync.handlePtpMessage (s.gateway .slave) clock payload size source dest
    { s with sync := outcome.state }.transmit .slave outcome.sent
  | .master i => s.transmit (.master i)
      (MasterSynchronizer.handlePtpMessage (s.gateway (.master i)) clock payload size source).sent

def receive (st : Station n) (f : WireFrame) (rest : Memory) (clock : SystemClock) : State n :=
  let (g, outputs) := (s.gateway st).handleReceive rest f
  let s := s.setGateway st g
  match outputPtp outputs with
  | some (payload, size, source, dest) => s.handle st clock payload size source dest
  | none => s

def dropCopy (k : ℕ) : State n := { s with flight := s.flight.eraseIdx k }

def step : Action n → Option (State n)
  | .request =>
    if s.starting then none
    else if s.sync.state = .synchronized then
      some { s with sync.state := .awaitingSync, starting := true }
    else some s
  | .sendStart clock =>
    if s.starting then
      some ({ s with starting := false }.transmit .slave
        (SlaveSynchronizer.sendStart (s.gateway .slave) clock (s.gateway .slave).externalAddress))
    else none
  | .deliver k rest clock =>
    s.flight[k]?.map fun c => (s.dropCopy k).receive c.dest c.frame rest clock
  | .lose k => s.flight[k]?.map fun _ => s.dropCopy k
  | .move st quadrant shared =>
    some (s.setGateway st ⟨(s.gateway st).address, quadrant, shared⟩)

end State

/-- The slave has just been constructed. No two interfaces of the exchange share
an address, and none has the address of the local bus. -/
def ptp (n : ℕ) : Machine (State n) (Action n) where
  init s := (∀ st, (s.gateway st).address.1 ≠ localAddr) ∧
    (∀ i, (s.gateway (.master i)).address ≠ (s.gateway .slave).address) ∧
    s.sync = .construct ∧ s.starting = false ∧ s.flight = []
  step := State.step

/-- A request and the START that follows it are a call of `request_synchronization`. -/
theorem request_sendStart {s : State n} (hstarting : s.starting = false)
    (hstate : s.sync.state = .synchronized) (clock : SystemClock) :
    (s.step .request).bind (fun t => t.step (.sendStart clock)) =
      let outcome := s.sync.requestSynchronization (s.gateway .slave) clock
        (s.gateway .slave).externalAddress
      some ({ s with sync := outcome.state }.transmit .slave outcome.sent) := by
  unfold SlaveSynchronizer.requestSynchronization
  simp only [State.step, hstarting, hstate, if_true]
  rfl

/-- The next call of `request_synchronization` sends a START. -/
def RequestSends (s : State n) : Prop :=
  ∀ clock, ∃ f, outputLinks (s.sync.requestSynchronization (s.gateway .slave) clock
      (s.gateway .slave).externalAddress).sent.toList = [f] ∧
    f.header.dhost = broadcastAddr ∧
    f.Has 0 0 ⟨.ptp, clock.reading 0, TimePayload.plain .start⟩

/-- The slave does not wait for a reply that can not arrive any more. -/
def NotWedged (s : State n) : Prop := s.flight = [] → s.starting = false → RequestSends s

def syncType (f : WireFrame) : Option UInt8 := f.data[packetHeaderSize + segmentHeaderSize]?

/-- The copy belongs to the leg of the exchange that the slave waits for: a request to
a master or its reply. -/
def awaited (state : SlaveState) (c : Copy n) : Bool :=
  match state, c.dest with
  | .synchronized, _ => false
  | .awaitingSync, .master _ => syncType c.frame = some SyncType.start.code
  | .awaitingSync, .slave => syncType c.frame = some SyncType.sync.code
  | .awaitingDelayResp, .master _ => syncType c.frame = some SyncType.delayRequest.code
  | .awaitingDelayResp, .slave => syncType c.frame = some SyncType.delayResponse.code

def Starting (s : State n) : Prop := s.starting = true ∧ s.sync.state = .awaitingSync

/-- If copy `k` is awaited, another awaited copy is in flight or a START still to come. -/
def Spare (s : State n) (k : ℕ) : Prop :=
  ∀ c, s.flight[k]? = some c → awaited s.sync.state c = true →
    Starting s ∨ ∃ c' ∈ s.flight.eraseIdx k, awaited s.sync.state c' = true

/-- The station of copy `k` accepts it, and a DELAY_RESPONSE finds a clock that can be set. -/
def Served (s : State n) (k : ℕ) (clock : SystemClock) : Prop :=
  ∀ c, s.flight[k]? = some c → (s.gateway c.dest).Accepts c.frame ∧
    (syncType c.frame = some SyncType.delayResponse.code → clock.settable = true)

/-- No leg of the exchange is lost for good: a START meets a master, and a copy is lost,
filtered out or fails to set the clock only while another one of its leg is in flight. -/
def LegKept : StepCondition (State n) (Action n) := fun s a _ =>
  match a with
  | .sendStart _ => 0 < n ∨ ∃ c ∈ s.flight, awaited s.sync.state c = true
  | .lose k => Spare s k
  | .deliver k _ clock => Served s k clock ∨ Spare s k
  | .request | .move .. => True

variable {s s' : State n} {c : Copy n} {f : WireFrame} {st : Station n}

theorem mem_stations (st : Station n) : st ∈ stations n := by
  cases st with
  | slave => simp [stations]
  | master i => simp [stations]

theorem mem_copies {sender : Station n} : c ∈ s.copies sender f ↔ c.dest ≠ sender ∧
    (f.header.dhost = (s.gateway c.dest).address.1 ∨ f.header.dhost = broadcastAddr) ∧
    c.frame = f := by
  unfold State.copies
  rw [List.mem_map]
  constructor
  · rintro ⟨st, hst, rfl⟩
    have hfilter := of_decide_eq_true (List.mem_filter.mp hst).2
    exact ⟨hfilter.1, hfilter.2, rfl⟩
  · rintro ⟨hsender, hdest, rfl⟩
    exact ⟨c.dest, List.mem_filter.mpr ⟨mem_stations _, decide_eq_true ⟨hsender, hdest⟩⟩, rfl⟩

theorem mem_transmit {sender : Station n} {o : Option Output} :
    c ∈ (s.transmit sender o).flight ↔
      c ∈ s.flight ∨ ∃ f ∈ outputLinks o.toList, c ∈ s.copies sender f := by
  unfold State.transmit
  rw [List.mem_append, List.mem_flatMap]

theorem address_setGateway {g : Gateway} (hg : g.address = (s.gateway st).address)
    (st' : Station n) : ((s.setGateway st g).gateway st').address = (s.gateway st').address := by
  unfold State.setGateway
  by_cases hst : st' = st
  · subst st'
    simpa using hg
  · simp [hst]

/-- A copy is a request of the slave or the answer of a master. -/
inductive Expected (s : State n) : Copy n → Prop
  | toMaster (i : Fin n) (f : WireFrame) (type : SyncType) (sp dp : Port) (stamp : UInt64)
      (htype : type = .start ∨ type = .delayRequest)
      (hsize : f.data.length ≤ mtu) (hfrom : f.header.shost = (s.gateway .slave).address.1)
      (hhas : f.Has sp dp ⟨.ptp, stamp, TimePayload.plain type⟩) : Expected s ⟨.master i, f⟩
  | toSlave (i : Fin n) (f : WireFrame) (type : SyncType) (sp dp : Port) (stamp t : UInt64)
      (htype : type = .sync ∨ type = .delayResponse)
      (hsize : f.data.length ≤ mtu) (hfrom : f.header.shost = (s.gateway (.master i)).address.1)
      (hhas : f.Has sp dp ⟨.ptp, stamp, TimePayload.stamped type t⟩) : Expected s ⟨.slave, f⟩

theorem Expected.congr (h : Expected s c)
    (ha : ∀ st, (s'.gateway st).address = (s.gateway st).address) : Expected s' c := by
  cases h with
  | toMaster i f type sp dp stamp htype hsize hfrom hhas =>
    exact .toMaster i f type sp dp stamp htype hsize (by rw [ha, hfrom]) hhas
  | toSlave i f type sp dp stamp t htype hsize hfrom hhas =>
    exact .toSlave i f type sp dp stamp t htype hsize (by rw [ha, hfrom]) hhas

/-- The addresses are as they were, and only expected copies are in flight. -/
structure Sound (s : State n) : Prop where
  external : ∀ st, (s.gateway st).address.1 ≠ localAddr
  distinct : ∀ i, (s.gateway (.master i)).address ≠ (s.gateway .slave).address
  expected : ∀ c ∈ s.flight, Expected s c

theorem Sound.congr (h : Sound s) (ha : ∀ st, (s'.gateway st).address = (s.gateway st).address)
    (hf : ∀ c ∈ s'.flight, c ∈ s.flight ∨ Expected s c) : Sound s' where
  external st := by
    rw [ha]
    exact h.external st
  distinct i := by
    rw [ha, ha]
    exact h.distinct i
  expected c hc := by
    rcases hf c hc with hold | hnew
    · exact (h.expected c hold).congr ha
    · exact hnew.congr ha

/-- A master's frame to the slave gives one copy. -/
theorem Sound.copies_master (h : Sound s) {i : Fin n}
    (hdhost : f.header.dhost = (s.gateway .slave).address.1) :
    c ∈ s.copies (.master i) f ↔ c = ⟨.slave, f⟩ := by
  rw [mem_copies]
  constructor
  · rintro ⟨hsender, hdest, rfl⟩
    rw [hdhost] at hdest
    have hslave : c.dest = .slave := by
      rcases hdest with hdest | hbroadcast
      · cases hd : c.dest with
        | slave => rfl
        | master j =>
            rw [hd] at hdest
            exact absurd (Subtype.ext hdest.symm) (h.distinct j)
      · exact absurd hbroadcast (s.gateway .slave).address.2
    rw [← hslave]
  · rintro rfl
    exact ⟨by simp, .inl hdhost, rfl⟩

/-- The slave's frames go to masters. -/
theorem copies_slave (hc : c ∈ s.copies .slave f) : ∃ i, c = ⟨.master i, f⟩ := by
  obtain ⟨hsender, -, rfl⟩ := mem_copies.mp hc
  cases hd : c.dest with
  | slave => exact absurd hd hsender
  | master i =>
      use i
      rw [← hd]

theorem syncType_of_has {sp dp : Port} {segment : Segment} {code : UInt8}
    (h : f.Has sp dp segment) (hcode : segment.payload.head? = some code) :
    syncType f = some code := by
  have hpos : 0 < segment.payload.length := by
    cases hp : segment.payload with
    | nil => simp [hp] at hcode
    | cons => simp
  have hat := h.getElem?_data hpos
  rw [← List.head?_eq_getElem?, hcode] at hat
  exact hat

/-- The slave waits for its own START, or for an awaited copy. -/
def Leg (s : State n) : Prop :=
  s.sync.state ≠ .synchronized → Starting s ∨ ∃ c ∈ s.flight, awaited s.sync.state c = true

theorem Leg.erase {k : ℕ} (h : Leg s) (hspare : Spare s k) : Leg (s.dropCopy k) := by
  intro hstate
  rcases h hstate with hstarting | ⟨c, hc, hawaited⟩
  · exact .inl hstarting
  · obtain ⟨j, hj⟩ := List.mem_iff_getElem?.mp hc
    by_cases hjk : j = k
    · subst j
      exact hspare c hj hawaited
    · exact .inr ⟨c, List.mem_eraseIdx_iff_getElem?.mpr ⟨j, hjk, hj⟩, hawaited⟩

theorem Leg.erase_of_not_awaited {k : ℕ} (h : Leg s) (hk : s.flight[k]? = some c)
    (hc : awaited s.sync.state c = false) : Leg (s.dropCopy k) := by
  apply h.erase
  intro c' hk' hc'
  rw [hk] at hk'
  cases hk'
  rw [hc] at hc'
  cases hc'

/-- More copies do no harm. -/
theorem Leg.grow (h : Leg s) (hsync : s'.sync.state = s.sync.state)
    (hstarting : s'.starting = s.starting) (hf : ∀ c ∈ s.flight, c ∈ s'.flight) : Leg s' := by
  unfold Leg Starting
  rw [hsync, hstarting]
  intro hstate
  rcases h hstate with hs | ⟨c, hc, hawaited⟩
  · exact .inl hs
  · exact .inr ⟨c, hf c hc, hawaited⟩

end CommunicationAPI.PtpExchange
