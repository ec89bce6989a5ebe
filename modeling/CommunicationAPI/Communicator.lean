import CommunicationAPI.EndToEnd
import CommunicationAPI.Observed
import CommunicationAPI.Teds

/-!
# Communicators

The endpoints of one process: its Communicators, and the two registries through
which `Protocol` passes them the frames that the local NIC hands up.
-/

namespace CommunicationAPI
open Octets ShmEngine

/-- A buffer of the local NIC. Every buffer has a number of its own. -/
structure Buffer where
  id : ℕ
  frame : Frame

inductive BufferEvent
  | use (id : ℕ)
  | free (id : ℕ)
  deriving DecidableEq, Repr

/-- The queue holds pointers: one buffer may be in it more than once. -/
structure Communicator where
  address : Address
  subscribedTypes : List TedsType
  data : List Buffer

/-- A Communicator is known by its storage, which a later one may use again. -/
structure Endpoints where
  portObserved : Observed ℕ Port
  typeObserved : Observed ℕ TedsType
  communicator : ℕ → Option Communicator
  log : List BufferEvent

def componentUpdateLocal (frame : Frame) : List Output :=
  let dport := Packet.dport frame.data
  if frame.header.dhost = broadcastAddr then
    if dport = typeBasedRoutingPort then [.notify dport] else []
  else [.notify dport]

/-- `Protocol::update` by its instantiation, with or without an external NIC. -/
def updateLocal (external : Option Gateway) (frame : Frame) : List Output :=
  match external with
  | some g => g.updateLocal frame
  | none => componentUpdateLocal frame

def outputNotifies (l : List Output) : List Port :=
  l.filterMap fun o => match o with
    | .notify port => some port
    | _ => none

def outputOverruns (l : List Output) : Bool :=
  l.any fun o => match o with
    | .overrun => true
    | _ => false

def frameType (frame : Frame) : TedsType :=
  Teds.extractType (fun i => frame.data (packetHeaderSize + i))
    ((frame.dataLength + uint32 - (packetHeaderSize + macSize + segmentHeaderSize)) % uint32)

namespace Endpoints

def empty : Endpoints := ⟨[], [], fun _ => none, []⟩

variable (e : Endpoints)

def listeners (port : Port) (frame : Frame) : List ℕ :=
  if port = typeBasedRoutingPort then
    if frameType frame ≠ Teds.invalid then e.typeObserved.notify (frameType frame) else []
  else e.portObserved.notify port

def recipients (external : Option Gateway) (frame : Frame) : List ℕ :=
  (outputNotifies (updateLocal external frame)).flatMap fun port => e.listeners port frame

def portRecipients (external : Option Gateway) (frame : Frame) : List ℕ :=
  (outputNotifies (updateLocal external frame)).flatMap fun port =>
    if port = typeBasedRoutingPort then [] else e.portObserved.notify port

def record (events : List BufferEvent) : Endpoints := { e with log := e.log ++ events }

def queueIncomingBuffer (buf : Buffer) (o : ℕ) : Endpoints :=
  { e with
    communicator := Function.update e.communicator o
      ((e.communicator o).map fun c => { c with data := c.data ++ [buf] }) }

/-- `update` reads the buffer and passes it to the observers, or else frees it, unless a write
leaves a frame before. -/
def update (external : Option Gateway) (buf : Buffer) : Option Endpoints :=
  if outputOverruns (updateLocal external buf.frame) then none
  else
    let e := e.record [.use buf.id]
    match e.recipients external buf.frame with
    | [] => some (e.record [.free buf.id])
    | observers => some (observers.foldl (fun e o => e.queueIncomingBuffer buf o) e)

def construct (o : ℕ) (address : Address) : Endpoints :=
  { e with
    portObserved := e.portObserved.attach o address.port
    communicator := Function.update e.communicator o (some ⟨address, [], []⟩) }

def subscribeToType (o : ℕ) (c : Communicator) (type : TedsType) : Endpoints :=
  { e with
    typeObserved := e.typeObserved.attach o type
    communicator := Function.update e.communicator o
      (some { c with subscribedTypes := c.subscribedTypes.insert type }) }

/-- The destructor. The buffers that are still queued are not freed. -/
def destroy (o : ℕ) (c : Communicator) : Endpoints :=
  { e with
    portObserved := e.portObserved.detach o c.address.port
    typeObserved := c.subscribedTypes.foldl (fun r type => Observed.detach r o type) e.typeObserved
    communicator := Function.update e.communicator o none }

def receive (o : ℕ) (c : Communicator) (buf : Buffer) : Endpoints :=
  { e with
    communicator := Function.update e.communicator o (some { c with data := c.data.tail })
    log := e.log ++ [.use buf.id, .free buf.id] }

section
variable (o : ℕ) (c : Communicator) (buf : Buffer) (address : Address) (type : TedsType)

theorem queueIncomingBuffer_communicator :
    (e.queueIncomingBuffer buf o).communicator = Function.update e.communicator o
      ((e.communicator o).map fun c => { c with data := c.data ++ [buf] }) := rfl

theorem construct_communicator : (e.construct o address).communicator =
    Function.update e.communicator o (some ⟨address, [], []⟩) := rfl

theorem subscribeToType_communicator : (e.subscribeToType o c type).communicator =
    Function.update e.communicator o
      (some { c with subscribedTypes := c.subscribedTypes.insert type }) := rfl

theorem destroy_communicator :
    (e.destroy o c).communicator = Function.update e.communicator o none := rfl

theorem receive_communicator : (e.receive o c buf).communicator =
    Function.update e.communicator o (some { c with data := c.data.tail }) := rfl

end

end Endpoints

section
variable {g : Gateway} {external : Option Gateway} {frame : Frame} {e : Endpoints}

theorem updateLocal_unicast (external : Option Gateway) (h : frame.header.dhost ≠ broadcastAddr) :
    updateLocal external frame = [.notify (Packet.dport frame.data)] := by
  cases external with
  | none =>
      unfold updateLocal componentUpdateLocal
      simp only [if_neg h]
  | some g =>
      unfold updateLocal Gateway.updateLocal
      simp only [if_neg h]

/-- A broadcast is offered to the type listeners at most. -/
theorem outputNotifies_broadcast (h : frame.header.dhost = broadcastAddr) :
    outputNotifies (updateLocal external frame) =
      if Packet.dport frame.data = typeBasedRoutingPort then [typeBasedRoutingPort] else [] := by
  cases external with
  | none =>
      unfold updateLocal componentUpdateLocal outputNotifies
      simp only [if_pos h]
      split_ifs with hport
      · rw [hport]
        rfl
      · rfl
  | some g =>
      unfold updateLocal Gateway.updateLocal outputNotifies
      simp only [if_pos h, List.filterMap_append]
      have hquiet : ∀ x : Sending, ∀ o ∈ (x.output fun c => .link (rawSend g.address c)).toList,
          (match o with
            | .notify port => some port
            | _ => none : Option Port) = none := by
        intro x o ho
        cases x with
        | refused => cases ho
        | sent | overrun =>
          cases List.mem_singleton.mp ho
          rfl
      rw [Gateway.send_broadcast h, List.filterMap_eq_nil_iff.mpr (hquiet _), List.nil_append]
      split_ifs with hport
      · rw [hport]
        rfl
      · rfl

theorem overruns_send_broadcast {src dst : Address} {data : List UInt8}
    (hdst : dst.paddr = broadcastAddr) (hsize : data.length < uint32) :
    outputOverruns (g.send src dst data).toList = true ↔
      uint32 ≤ packetHeaderSize + data.length + macSize := by
  rw [Gateway.send_broadcast hdst,
    ← sendFrame_overrun_iff hsize g.quadrant g.shared.sessionKey src dst]
  cases sendFrame g.quadrant g.shared.sessionKey src dst data <;>
    simp [Sending.output, outputOverruns]

/-- A gateway that relays a broadcast shorter than a packet without segment computes a size that
wraps, and so does the total. -/
theorem overruns_iff (hsize : frame.dataLength < uint32) :
    outputOverruns (updateLocal external frame) = true ↔
      external.isSome = true ∧ frame.header.dhost = broadcastAddr ∧
        frame.dataLength < packetHeaderSize + macSize := by
  by_cases hdst : frame.header.dhost = broadcastAddr
  · have hnotify : outputOverruns (if Packet.dport frame.data = typeBasedRoutingPort then
        [.notify (Packet.dport frame.data)] else []) = false := by
      split_ifs <;> rfl
    cases external with
    | none =>
      have hquiet : outputOverruns (updateLocal none frame) = false := by
        unfold updateLocal componentUpdateLocal
        simp only [if_pos hdst]
        exact hnotify
      rw [hquiet]
      exact iff_of_false Bool.false_ne_true fun h => Bool.false_ne_true h.1
    | some g =>
      have hlt : (frame.dataLength + uint32 - (packetHeaderSize + macSize)) % uint32 < uint32 :=
        Nat.mod_lt _ (by decide)
      unfold outputOverruns at hnotify
      unfold updateLocal Gateway.updateLocal outputOverruns
      simp only [if_pos hdst]
      rw [List.any_append, hnotify, Bool.or_false]
      refine (overruns_send_broadcast hdst (by rwa [length_load])).trans ?_
      rw [length_load]
      simp only [Option.isSome_some, hdst, true_and]
      unfold packetHeaderSize macSize
      unfold uint32 at *
      omega
  · rw [updateLocal_unicast external hdst]
    exact iff_of_false Bool.false_ne_true fun h => hdst h.2.1

namespace Endpoints

theorem recipients_unicast (h : frame.header.dhost ≠ broadcastAddr) :
    e.recipients external frame = e.listeners (Packet.dport frame.data) frame := by
  unfold recipients
  rw [updateLocal_unicast external h]
  exact List.append_nil _

theorem portRecipients_broadcast (h : frame.header.dhost = broadcastAddr) :
    e.portRecipients external frame = [] := by
  unfold portRecipients
  rw [outputNotifies_broadcast h]
  split_ifs <;> rfl

end Endpoints
end

end CommunicationAPI
