import CommunicationAPI.Ethernet
import CommunicationAPI.Machine
import Mathlib.Data.Fintype.Basic
import Mathlib.Data.Finset.Card
import Mathlib.Logic.Function.Basic

/-!
# The shared-memory ring of `ShmEngine`

Every access to the shared block and every `semop` is one step of one thread.
Threads are numbered: any number of sending threads, any number of processes
(each with the receiver thread of its NIC), and any number of threads inside
`release_frame`. A `semop` may also fail, with or without `EINTR`.

The 64-bit counters are natural numbers: no run draws 2^64 tickets. Engines are
destroyed during a run but no process terminates, so the kernel never applies
the adjustments recorded for `SEM_UNDO`.
-/

namespace CommunicationAPI.ShmEngine

abbrev maxClients : ℕ := 16
abbrev bufferSlots : ℕ := 32

abbrev ClientSlot := Fin maxClients
abbrev RingSlot := Fin bufferSlots

def ringSlot (sequenceId : ℕ) : RingSlot :=
  ⟨sequenceId % bufferSlots, Nat.mod_lt _ (by decide)⟩

structure MessageSlot where
  sequenceId : ℕ
  frame : Frame

structure ClientState where
  isActive : Bool
  processId : ℕ
  lastReadSequenceId : ℕ

structure SharedBlock where
  claimSequenceId : ℕ
  publishSequenceId : ℕ
  clientRegistry : ClientSlot → ClientState
  buffer : RingSlot → MessageSlot
  writerIsBlocked : Bool

structure Semaphores where
  registry : ℕ
  claim : ℕ
  writerWait : ℕ
  client : ClientSlot → ℕ

/-- The result the kernel gives a `semop`. -/
inductive Outcome
  | ok | eintr | failed
  deriving DecidableEq, Repr

/-- The arguments of `ShmEngine::send`. Its callers pass at most `mtu` octets,
the limit checked by `NIC::alloc`. -/
structure SendCall where
  srcMac : Option MAC
  dstMac : MAC
  protocol : UInt16
  data : List UInt8
  size_le : data.length ≤ mtu

/-- One store of step 3 or 4 of `send`. -/
inductive SlotStore
  | shost (m : MAC)
  | dhost (m : MAC)
  | type (t : UInt16)
  | dataLength (n : ℕ)
  | byte (i : ℕ) (b : UInt8)
  | sequenceId (t : ℕ)

def SlotStore.apply (slot : MessageSlot) : SlotStore → MessageSlot
  | .shost m => { slot with frame.header.shost := m }
  | .dhost m => { slot with frame.header.dhost := m }
  | .type t => { slot with frame.header.type := t }
  | .dataLength n => { slot with frame.dataLength := n }
  | .byte i b => { slot with frame.data := Function.update slot.frame.data i b }
  | .sequenceId t => { slot with sequenceId := t }

namespace SendCall
variable (c : SendCall)

def copyStores : List SlotStore :=
  c.data.mapIdx fun i b => .byte i b

def stores (ticket : ℕ) : List SlotStore :=
  [.shost (c.srcMac.getD localAddr), .dhost c.dstMac, .type (htons c.protocol),
    .dataLength c.data.length] ++ c.copyStores ++ [.sequenceId ticket]

end SendCall

/-- Where a sending thread stands in `send`. The loops carry the registry
entries they still have to visit, the writing phase the stores still to do. -/
inductive SendPc
  | idle
  | acquireClaim (c : SendCall)
  | readClaim (c : SendCall)
  | writeClaim (c : SendCall) (ticket : ℕ)
  | releaseClaim (c : SendCall) (ticket : ℕ)
  | scanActive (c : SendCall) (ticket : ℕ) (todo : List ClientSlot) (slowest : ℕ)
      (readersActive : Bool)
  | scanLastRead (c : SendCall) (ticket : ℕ) (i : ClientSlot) (todo : List ClientSlot)
      (slowest : ℕ)
  | waitWriter (c : SendCall) (ticket : ℕ)
  | giveUp (c : SendCall) (ticket : ℕ)
  | write (c : SendCall) (ticket : ℕ) (todo : List SlotStore)
  | notifyScan (c : SendCall) (ticket : ℕ) (todo : List ClientSlot) (ops : List ClientSlot)

/-- A zero-copy view: `FrameBuffer(&slot->frame, slot->sequence_id)`, handed up
with the protocol number read from the frame. -/
structure View where
  slot : RingSlot
  sequenceId : ℕ
  protocol : UInt16
  deriving DecidableEq

inductive EnginePc
  | unattached
  | regAcquire
  | regScan (todo : List ClientSlot)
  | regActivate (i : ClientSlot)
  | regProcessId (i : ClientSlot)
  | regLoad (i : ClientSlot)
  | regStore (i : ClientSlot) (published : ℕ)
  | regRelease (i : ClientSlot)
  | regFail
  | running (i : ClientSlot)
  | deregAcquire (i : ClientSlot)
  | deregClear (i : ClientSlot)
  | deregRelease
  | gone

/-- `NIC::_receiver_thread`. -/
inductive ReceiverPc
  | loop
  | wait
  | check
  | readType
  | handUp (protocol : UInt16)
  | stopped

/-- A call of `release_frame` in progress, on behalf of the client's own process. -/
inductive ReleasePc
  | testBlocked (v : View)
  | readMine (v : View)
  | scanActive (v : View) (mine : ℕ) (todo : List ClientSlot) (slowest : ℕ)
  | scanLastRead (v : View) (mine : ℕ) (j : ClientSlot) (todo : List ClientSlot) (slowest : ℕ)
  | store (v : View) (iAmTheSlowest : Bool)
  | signal
  deriving DecidableEq

structure Process where
  engine : EnginePc := .unattached
  receiver : ReceiverPc := .loop
  isRunning : Bool := true
  nextSequenceToRead : ℕ := 1
  /-- Views handed up and not yet passed to `release_frame`. -/
  held : List View := []
  /-- The calls of `release_frame` its threads are inside of. -/
  releasing : List ReleasePc := []

/-- What has happened so far; no step of the code reads it. -/
structure History where
  /-- The send that drew a ticket. -/
  drawn : ℕ → Option SendCall := fun _ => none
  /-- The tickets whose notification posted a client semaphore. -/
  posted : ClientSlot → Finset ℕ := fun _ => ∅
  /-- The successful waits of a process on its client semaphore. -/
  waits : ℕ → ℕ := fun _ => 0
  handedUp : ℕ → List View := fun _ => []
  /-- The sequence ids a process has stored as acknowledgement. -/
  released : ℕ → List ℕ := fun _ => []
  /-- The publish counter a process stored when it registered. -/
  joinedAt : ℕ → ℕ := fun _ => 0

structure State where
  block : SharedBlock
  sem : Semaphores
  sender : ℕ → SendPc
  process : ℕ → Process
  history : History

/-- The state left by `bootstrapIPC`, in a segment the kernel filled with zeros. -/
def initial : State where
  block :=
    { claimSequenceId := 1
      publishSequenceId := 0
      clientRegistry := fun _ => ⟨false, 0, 0⟩
      buffer := fun _ => ⟨0, ⟨⟨localAddr, localAddr, 0⟩, fun _ => 0, 0⟩⟩
      writerIsBlocked := false }
  sem := { registry := 1, claim := 1, writerWait := 0, client := fun _ => 0 }
  sender := fun _ => .idle
  process := fun _ => {}
  history := {}

namespace State
variable (s : State)

def isActive (i : ClientSlot) : Bool := (s.block.clientRegistry i).isActive

def lastRead (i : ClientSlot) : ℕ := (s.block.clientRegistry i).lastReadSequenceId

def setSender (w : ℕ) (pc : SendPc) : State :=
  { s with sender := Function.update s.sender w pc }

def setProcess (p : ℕ) (x : Process) : State :=
  { s with process := Function.update s.process p x }

def setEngine (p : ℕ) (pc : EnginePc) : State :=
  s.setProcess p { s.process p with engine := pc }

def setReceiver (p : ℕ) (pc : ReceiverPc) : State :=
  s.setProcess p { s.process p with receiver := pc }

def setReleasing (p : ℕ) (x : ReleasePc) (x' : Option ReleasePc) : State :=
  s.setProcess p { s.process p with
    releasing := x'.toList ++ (s.process p).releasing.erase x }

def setClient (i : ClientSlot) (x : ClientState) : State :=
  { s with block.clientRegistry := Function.update s.block.clientRegistry i x }

def setBlocked (b : Bool) : State :=
  { s with block.writerIsBlocked := b }

end State

/-- `BUFFER_SLOTS`-check of `send`: no reader, or the slowest one close enough. -/
def hasRoom (ticket slowest : ℕ) (readersActive : Bool) : Bool :=
  !readersActive || decide (ticket - slowest < bufferSlots)

def allClients : List ClientSlot := List.finRange maxClients

def startScan (c : SendCall) (ticket : ℕ) : SendPc :=
  .scanActive c ticket allClients ticket false

/-- The next step of sending thread `w`. `none` where it blocks or is idle. -/
def senderStep (s : State) (w : ℕ) (o : Outcome) : Option State :=
  match s.sender w with
  | .idle => none
  | .acquireClaim c =>
    if o = .ok then
      if 0 < s.sem.claim then
        some ({ s with sem.claim := s.sem.claim - 1 }.setSender w (.readClaim c))
      else none
    else some (s.setSender w .idle)
  | .readClaim c => some (s.setSender w (.writeClaim c s.block.claimSequenceId))
  | .writeClaim c t =>
    some ({ s with
      block.claimSequenceId := t + 1
      history.drawn := Function.update s.history.drawn t (some c) }.setSender w
        (.releaseClaim c t))
  | .releaseClaim c t =>
    if o = .ok then
      some ({ s with sem.claim := s.sem.claim + 1 }.setSender w (startScan c t))
    else some (s.setSender w .idle)
  | .scanActive c t (i :: todo) slowest any =>
    some (s.setSender w
      (if s.isActive i then .scanLastRead c t i todo slowest
       else .scanActive c t todo slowest any))
  | .scanLastRead c t i todo slowest =>
    some (s.setSender w (.scanActive c t todo (min slowest (s.lastRead i)) true))
  | .scanActive c t [] slowest any =>
    if hasRoom t slowest any then some ((s.setBlocked false).setSender w (.write c t (c.stores t)))
    else some ((s.setBlocked true).setSender w (.waitWriter c t))
  | .waitWriter c t =>
    match o with
    | .ok =>
      if 0 < s.sem.writerWait then
        some ({ s with sem.writerWait := s.sem.writerWait - 1 }.setSender w (startScan c t))
      else none
    | .eintr => some (s.setSender w (startScan c t))
    | .failed => some (s.setSender w (.giveUp c t))
  | .giveUp _ _ => some ((s.setBlocked false).setSender w .idle)
  | .write c t (st :: todo) =>
    some ({ s with
      block.buffer := Function.update s.block.buffer (ringSlot t)
        (st.apply (s.block.buffer (ringSlot t))) }.setSender w (.write c t todo))
  | .write c t [] =>
    -- the compare-and-swap loop: `compare_exchange_weak` may also fail spuriously
    if o = .ok ∧ s.block.publishSequenceId = t - 1 then
      some ({ s with block.publishSequenceId := t }.setSender w (.notifyScan c t allClients []))
    else some s
  | .notifyScan c t (i :: todo) ops =>
    some (s.setSender w (.notifyScan c t todo (if s.isActive i then ops ++ [i] else ops)))
  | .notifyScan _ t [] ops =>
    if o = .ok then
      some ({ s with
        sem.client := fun i => if i ∈ ops then s.sem.client i + 1 else s.sem.client i
        history.posted := fun i =>
          if i ∈ ops then insert t (s.history.posted i) else s.history.posted i }.setSender w .idle)
    else some (s.setSender w .idle)

/-- The next step of the constructor or destructor of process `p`. -/
def engineStep (s : State) (p : ℕ) (o : Outcome) : Option State :=
  match (s.process p).engine with
  | .unattached | .running _ | .gone => none
  | .regAcquire =>
    if o = .ok then
      if 0 < s.sem.registry then
        some ({ s with sem.registry := s.sem.registry - 1 }.setEngine p (.regScan allClients))
      else none
    else some (s.setEngine p .gone)
  | .regScan (i :: todo) =>
    some (s.setEngine p (if s.isActive i then .regScan todo else .regActivate i))
  | .regScan [] => some (s.setEngine p .regFail)
  | .regActivate i =>
    some ((s.setClient i { s.block.clientRegistry i with isActive := true }).setEngine p
      (.regProcessId i))
  | .regProcessId i =>
    some ((s.setClient i { s.block.clientRegistry i with processId := p }).setEngine p (.regLoad i))
  | .regLoad i => some (s.setEngine p (.regStore i s.block.publishSequenceId))
  | .regStore i v =>
    some ({ s.setClient i { s.block.clientRegistry i with lastReadSequenceId := v } with
      history.joinedAt := Function.update s.history.joinedAt p v }.setEngine p (.regRelease i))
  | .regRelease i =>
    if o = .ok then
      some ({ s with sem.registry := s.sem.registry + 1 }.setEngine p (.running i))
    else some (s.setEngine p .gone)
  | .regFail =>
    if o = .ok then some ({ s with sem.registry := s.sem.registry + 1 }.setEngine p .gone)
    else some (s.setEngine p .gone)
  | .deregAcquire i =>
    if o = .ok then
      if 0 < s.sem.registry then
        some ({ s with sem.registry := s.sem.registry - 1 }.setEngine p (.deregClear i))
      else none
    else some (s.setEngine p .gone)
  | .deregClear i =>
    some ((s.setClient i { s.block.clientRegistry i with isActive := false }).setEngine p
      .deregRelease)
  | .deregRelease =>
    if o = .ok then some ({ s with sem.registry := s.sem.registry + 1 }.setEngine p .gone)
    else some (s.setEngine p .gone)

/-- The next step of the receiver thread of process `p`: the loop of
`_receiver_thread` with `receive_zerocopy` inlined. -/
def receiverStep (s : State) (p : ℕ) (o : Outcome) : Option State :=
  match (s.process p).engine with
  | .running i =>
    let next := (s.process p).nextSequenceToRead
    let slot := s.block.buffer (ringSlot next)
    match (s.process p).receiver with
    | .loop => some (s.setReceiver p (if (s.process p).isRunning then .wait else .stopped))
    | .wait =>
      if o = .ok then
        if 0 < s.sem.client i then
          some ({ s with
            sem.client := Function.update s.sem.client i (s.sem.client i - 1)
            history.waits := Function.update s.history.waits p (s.history.waits p + 1) }.setReceiver p
              .check)
        else none
      else some (s.setReceiver p .loop)
    | .check =>
      -- the mismatch branch prints CRITICAL and returns a null slot
      some (s.setReceiver p (if slot.sequenceId = next then .readType else .loop))
    | .readType => some (s.setReceiver p (.handUp (ntohs slot.frame.header.type)))
    | .handUp protocol =>
      let v : View := ⟨ringSlot next, slot.sequenceId, protocol⟩
      some ({ s with
        history.handedUp := Function.update s.history.handedUp p
          (s.history.handedUp p ++ [v]) }.setProcess p
            { s.process p with
              receiver := .loop, nextSequenceToRead := next + 1, held := v :: (s.process p).held })
    | .stopped => none
  | _ => none

def releaserStep (s : State) (p : ℕ) (x : ReleasePc) (o : Outcome) : Option State :=
  match (s.process p).engine with
  | .running i =>
    if x ∈ (s.process p).releasing then
      match x with
      | .testBlocked v =>
        some (s.setReleasing p x (some
          (if s.block.writerIsBlocked then .readMine v else .store v false)))
      | .readMine v =>
        some (s.setReleasing p x (some (.scanActive v (s.lastRead i) (allClients.filter (· ≠ i))
          (s.lastRead i + 1))))
      | .scanActive v mine (j :: todo) slowest =>
        some (s.setReleasing p x (some
          (if s.isActive j then .scanLastRead v mine j todo slowest
           else .scanActive v mine todo slowest)))
      | .scanLastRead v mine j todo slowest =>
        some (s.setReleasing p x (some (.scanActive v mine todo (min slowest (s.lastRead j)))))
      | .scanActive v mine [] slowest =>
        some (s.setReleasing p x (some (.store v (decide (mine ≤ slowest)))))
      | .store v iAmTheSlowest =>
        some ({ s.setClient i
            { s.block.clientRegistry i with lastReadSequenceId := v.sequenceId } with
          history.released := Function.update s.history.released p
            (s.history.released p ++ [v.sequenceId]) }.setReleasing p x
              (if iAmTheSlowest then some .signal else none))
      | .signal =>
        if o = .ok then
          some ({ s with sem.writerWait := s.sem.writerWait + 1 }.setReleasing p x none)
        else some (s.setReleasing p x none)
    else none
  | _ => none

inductive Action
  /-- Thread `w` calls `send`. -/
  | send (w : ℕ) (c : SendCall)
  | sender (w : ℕ) (o : Outcome)
  /-- Process `p` constructs its engine. -/
  | construct (p : ℕ)
  /-- The NIC of process `p` is told to stop. -/
  | stop (p : ℕ)
  /-- The receiver thread has been joined and the engine of `p` is destroyed. -/
  | destroy (p : ℕ)
  | engine (p : ℕ) (o : Outcome)
  | receiver (p : ℕ) (o : Outcome)
  /-- A thread of process `p` calls `release_frame` on a view that `p` holds. -/
  | release (p : ℕ) (v : View)
  | releaser (p : ℕ) (x : ReleasePc) (o : Outcome)

def step (s : State) : Action → Option State
  | .send w c =>
    match s.sender w with
    | .idle => some (s.setSender w (.acquireClaim c))
    | _ => none
  | .sender w o => senderStep s w o
  | .construct p =>
    match (s.process p).engine with
    | .unattached => some (s.setEngine p .regAcquire)
    | _ => none
  | .stop p => some (s.setProcess p { s.process p with isRunning := false })
  | .destroy p =>
    match (s.process p).engine, (s.process p).receiver, (s.process p).releasing with
    | .running i, .stopped, [] => some (s.setEngine p (.deregAcquire i))
    | _, _, _ => none
  | .engine p o => engineStep s p o
  | .receiver p o => receiverStep s p o
  | .release p v =>
    match (s.process p).engine with
    | .running _ =>
      if v ∈ (s.process p).held then
        some (s.setProcess p { s.process p with
          held := (s.process p).held.erase v
          releasing := .testBlocked v :: (s.process p).releasing })
      else none
    | _ => none
  | .releaser p x o => releaserStep s p x o

def machine : TransitionSystem.Machine State Action where
  init s := s = initial
  step := step

end CommunicationAPI.ShmEngine
