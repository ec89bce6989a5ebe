import CommunicationAPI.EndToEnd
import Mathlib.Data.Finset.Card

/-!
# Sizes and buffers on the send path

`_send_frame` computes the length of a packet in 32 bits from a size chosen by
its caller, has the NIC allocate a buffer and hands it to the engine. A write is
a range of offsets in one of the 1500-octet data areas on the way.
-/

namespace CommunicationAPI.SendPath

/-- Where the octets go: the frame of the buffer, and the slot of the ring or the
link frame that the engine copies it to. -/
inductive Area
  | buffer | slot | linkFrame
  deriving DecidableEq, Repr

structure Write where
  area : Area
  offset : ℕ
  length : ℕ
  deriving DecidableEq, Repr

def Write.Within (w : Write) : Prop := w.offset + w.length ≤ mtu

inductive Engine
  | shm | rawSocket
  deriving DecidableEq, Repr

/-- The `FrameBuffer` objects that have been allocated and not deleted. -/
structure FrameBuffers where
  live : Finset ℕ
  next : ℕ
  lt_next : ∀ buf ∈ live, buf < next

namespace FrameBuffers

def new (b : FrameBuffers) : FrameBuffers where
  live := insert b.next b.live
  next := b.next + 1
  lt_next buf hbuf := by
    rcases Finset.mem_insert.mp hbuf with rfl | hold
    · exact Nat.lt_succ_self _
    · exact (b.lt_next buf hold).trans (Nat.lt_succ_self _)

theorem next_notMem (b : FrameBuffers) : b.next ∉ b.live :=
  fun h => Nat.lt_irrefl _ (b.lt_next _ h)

theorem live_new_ne (b : FrameBuffers) : b.new.live ≠ b.live := by
  intro h
  exact b.next_notMem (h ▸ Finset.mem_insert_self b.next b.live)

theorem card_new (b : FrameBuffers) : b.new.live.card = b.live.card + 1 :=
  Finset.card_insert_of_notMem b.next_notMem

end FrameBuffers

/-- The arguments of `_send_frame` that sizes and buffers depend on, with what the
engine will do: whether its semaphores or its socket accept the frame. -/
structure Call where
  nic : Option Engine
  size : UInt32
  accepted : Bool

structure Outcome where
  returned : ℤ
  writes : List Write
  dataLength : Option UInt32
  buffers : FrameBuffers

def totalSize (size : UInt32) : UInt32 :=
  UInt32.ofNat packetHeaderSize + size + UInt32.ofNat macSize

def alloc (size : UInt32) (b : FrameBuffers) : Option (UInt32 × FrameBuffers) :=
  if mtu < size.toNat then none else some (size, b.new)

/-- `ShmEngine::send` and `RawSocketEngine::send`. -/
def engineSend (engine : Engine) (accepted : Bool) (size : ℕ) : ℤ × List Write :=
  match engine with
  | .shm => if accepted then (14 + size, [⟨.slot, 0, size⟩]) else (-1, [])
  | .rawSocket =>
    if mtu < size then (-1, [])
    else (if accepted then 14 + size else -1, [⟨.linkFrame, 0, size⟩])

/-- The header, the segment and the code, as `_send_frame` places them. -/
def packetWrites (size : ℕ) : List Write :=
  [⟨.buffer, 0, packetHeaderSize⟩, ⟨.buffer, packetHeaderSize, size⟩,
    ⟨.buffer, packetHeaderSize + size, macSize⟩]

/-- `_send_frame`. The NIC's `send` does not take the buffer over. -/
def sendFrame (b : FrameBuffers) (call : Call) : Outcome :=
  match call.nic with
  | none => ⟨-1, [], none, b⟩
  | some engine =>
    if mtu < (totalSize call.size).toNat then ⟨-1, [], none, b⟩
    else match alloc (totalSize call.size) b with
      | none => ⟨-1, [], none, b⟩
      | some (dataLength, b) =>
        let sent := engineSend engine call.accepted dataLength.toNat
        ⟨sent.1, packetWrites call.size.toNat ++ sent.2, some dataLength, b⟩

def Call.Rejected (call : Call) : Prop :=
  call.nic = none ∨ mtu < (totalSize call.size).toNat

theorem toNat_totalSize (size : UInt32) :
    (totalSize size).toNat = (packetHeaderSize + macSize + size.toNat) % uint32 := by
  unfold totalSize
  rw [UInt32.toNat_add, UInt32.toNat_add]
  change ((packetHeaderSize + size.toNat) % uint32 + macSize) % uint32 = _
  rw [Nat.mod_add_mod]
  congr 1
  omega

theorem sendFrame_rejected (b : FrameBuffers) {call : Call} (h : call.Rejected) :
    sendFrame b call = ⟨-1, [], none, b⟩ := by
  unfold sendFrame
  cases hnic : call.nic with
  | none => rfl
  | some engine =>
    have hlarge := h.resolve_left (by rw [hnic]; exact Option.some_ne_none engine)
    exact if_pos hlarge

theorem sendFrame_allocates (b : FrameBuffers) {call : Call} (h : ¬ call.Rejected) :
    ∃ engine, call.nic = some engine ∧
      sendFrame b call =
        ⟨(engineSend engine call.accepted (totalSize call.size).toNat).1,
          packetWrites call.size.toNat ++
            (engineSend engine call.accepted (totalSize call.size).toNat).2,
          some (totalSize call.size), b.new⟩ := by
  unfold Call.Rejected at h
  rw [not_or] at h
  obtain ⟨engine, hnic⟩ := Option.ne_none_iff_exists'.mp h.1
  refine ⟨engine, hnic, ?_⟩
  unfold sendFrame alloc
  rw [hnic]
  simp only [if_neg h.2]

/-- Nothing was written, or the packet fits and every write stays in its data area. -/
def Outcome.Bounded (o : Outcome) (size : ℕ) : Prop :=
  (o.returned = -1 ∧ o.writes = []) ∨
    (packetHeaderSize + macSize + size ≤ mtu ∧ (∀ w ∈ o.writes, w.Within) ∧
      o.dataLength.map UInt32.toNat = some (packetHeaderSize + macSize + size))

theorem packetWrites_within {size : ℕ} (h : packetHeaderSize + macSize + size ≤ mtu) :
    ∀ w ∈ packetWrites size, w.Within := by
  unfold packetWrites Write.Within
  intro w hw
  rcases List.mem_cons.mp hw with rfl | hw
  · change 0 + packetHeaderSize ≤ mtu
    omega
  rcases List.mem_cons.mp hw with rfl | hw
  · change packetHeaderSize + size ≤ mtu
    omega
  · cases List.mem_singleton.mp hw
    change packetHeaderSize + size + macSize ≤ mtu
    omega

theorem engineSend_within (engine : Engine) (accepted : Bool) {size : ℕ} (h : size ≤ mtu) :
    ∀ w ∈ (engineSend engine accepted size).2, w.Within := by
  have hcopy : ∀ area, Write.Within ⟨area, 0, size⟩ := fun _ => by
    unfold Write.Within
    rwa [Nat.zero_add]
  intro w hw
  cases engine with
  | shm =>
    cases accepted with
    | false => cases hw
    | true =>
      cases List.mem_singleton.mp hw
      exact hcopy .slot
  | rawSocket =>
    unfold engineSend at hw
    dsimp only at hw
    rw [if_neg (Nat.not_lt.mpr h)] at hw
    cases List.mem_singleton.mp hw
    exact hcopy .linkFrame

/-- A total that wraps passes the check. -/
theorem totalSize_wraps {size : UInt32} (h : uint32 ≤ packetHeaderSize + macSize + size.toNat) :
    (totalSize size).toNat ≤ mtu := by
  have hlt : size.toNat < uint32 := size.toNat_lt
  rw [toNat_totalSize, Nat.mod_eq_sub_mod h]
  refine (Nat.mod_le _ _).trans ?_
  unfold packetHeaderSize macSize mtu
  unfold uint32 at *
  omega

/-- The check bounds what is written exactly for the sizes whose total does not wrap. -/
theorem sendFrame_bounded_iff (b : FrameBuffers) (call : Call) :
    (sendFrame b call).Bounded call.size.toNat ↔
      call.nic = none ∨ packetHeaderSize + macSize + call.size.toNat < uint32 := by
  by_cases hrejected : call.Rejected
  · rw [sendFrame_rejected b hrejected]
    refine ⟨fun _ => ?_, fun _ => .inl ⟨rfl, rfl⟩⟩
    refine hrejected.imp_right fun hlarge => ?_
    by_contra hwraps
    exact Nat.not_lt.mpr (totalSize_wraps (Nat.not_lt.mp hwraps)) hlarge
  · obtain ⟨engine, hnic, heq⟩ := sendFrame_allocates b hrejected
    have hsmall : (totalSize call.size).toNat ≤ mtu :=
      Nat.not_lt.mp fun hlarge => hrejected (.inr hlarge)
    rw [heq, hnic]
    constructor
    · rintro (⟨-, hnone⟩ | ⟨hfits, -, -⟩)
      · exact absurd hnone (List.cons_ne_nil _ _)
      · right
        unfold mtu at hfits
        unfold uint32
        omega
    · intro hrange
      have htotal : (totalSize call.size).toNat = packetHeaderSize + macSize + call.size.toNat := by
        rw [toNat_totalSize]
        exact Nat.mod_eq_of_lt (hrange.resolve_left (Option.some_ne_none engine))
      have hfits := htotal ▸ hsmall
      refine .inr ⟨hfits, fun w hw => ?_, congrArg some htotal⟩
      rcases List.mem_append.mp hw with hpacket | hcopy
      · exact packetWrites_within hfits w hpacket
      · exact engineSend_within engine call.accepted hsmall w hcopy

def noBuffers : FrameBuffers := ⟨∅, 0, fun _ h => absurd h (Finset.notMem_empty _)⟩

/-- A size near the top of the range whose total wraps to zero: the frame is sent as
empty, after the whole segment has been copied into it. -/
theorem wrapped_size_overruns :
    ¬ (sendFrame noBuffers ⟨some .shm, 4294967283, true⟩).Bounded 4294967283 ∧
      (sendFrame noBuffers ⟨some .shm, 4294967283, true⟩).returned = 14 ∧
      (sendFrame noBuffers ⟨some .shm, 4294967283, true⟩).dataLength = some 0 ∧
      ⟨.buffer, packetHeaderSize, 4294967283⟩ ∈
        (sendFrame noBuffers ⟨some .shm, 4294967283, true⟩).writes := by
  refine ⟨?_, by decide, by decide, by decide⟩
  rintro (⟨-, hnone⟩ | ⟨hfits, -, -⟩)
  · exact absurd hnone (by decide)
  · exact absurd hfits (by decide)

instance (call : Call) : Decidable call.Rejected := inferInstanceAs (Decidable (_ ∨ _))

/-- The buffers after calls of `send` in any order: local ones, remote ones and those
by which `update` relays a frame. -/
def run (b : FrameBuffers) (calls : List Call) : FrameBuffers :=
  calls.foldl (fun b call => (sendFrame b call).buffers) b

/-- Every call of the sequence leaves the set of live buffers as it finds it. -/
def Preserves : FrameBuffers → List Call → Prop
  | _, [] => True
  | b, call :: calls => (sendFrame b call).buffers.live = b.live ∧
      Preserves (sendFrame b call).buffers calls

theorem buffers_sendFrame (b : FrameBuffers) (call : Call) :
    (sendFrame b call).buffers = if call.Rejected then b else b.new := by
  split_ifs with hrejected
  · rw [sendFrame_rejected b hrejected]
  · obtain ⟨engine, -, heq⟩ := sendFrame_allocates b hrejected
    rw [heq]

/-- A call keeps the set of live buffers if and only if it allocates none, whatever the
engine answers. -/
theorem live_sendFrame_iff (b : FrameBuffers) (call : Call) :
    (sendFrame b call).buffers.live = b.live ↔ call.Rejected := by
  rw [buffers_sendFrame]
  split_ifs with hrejected
  · exact ⟨fun _ => hrejected, fun _ => rfl⟩
  · exact ⟨fun h => absurd h b.live_new_ne, fun h => absurd h hrejected⟩

/-- A sequence of sends accumulates no buffer if and only if all of them are turned down. -/
theorem preserves_iff (b : FrameBuffers) (calls : List Call) :
    Preserves b calls ↔ ∀ call ∈ calls, call.Rejected := by
  induction calls generalizing b with
  | nil => exact ⟨fun _ _ hcall => absurd hcall List.not_mem_nil, fun _ => trivial⟩
  | cons call calls ih =>
    unfold Preserves
    rw [live_sendFrame_iff, ih, List.forall_mem_cons]

/-- Every accepted call adds one buffer for good. -/
theorem card_live_run (b : FrameBuffers) (calls : List Call) :
    (run b calls).live.card = b.live.card + calls.countP fun call => ¬ call.Rejected := by
  induction calls generalizing b with
  | nil => rfl
  | cons call calls ih =>
    have hstep : run b (call :: calls) = run (sendFrame b call).buffers calls := rfl
    rw [hstep, ih, buffers_sendFrame]
    by_cases hrejected : call.Rejected
    · rw [if_pos hrejected, List.countP_cons_of_neg (by simpa using hrejected)]
    · rw [if_neg hrejected, List.countP_cons_of_pos (by simpa using hrejected),
        FrameBuffers.card_new]
      omega

/-- One local send that succeeds, and one remote send that fails. -/
theorem accepted_send_leaks :
    ¬ Preserves noBuffers [⟨some .shm, 20, true⟩] ∧
      ¬ Preserves noBuffers [⟨some .rawSocket, 20, false⟩] := by
  have hleaks : ∀ call : Call, ¬ call.Rejected → ¬ Preserves noBuffers [call] := by
    rintro call haccepted ⟨hlive, -⟩
    exact haccepted ((live_sendFrame_iff noBuffers call).mp hlive)
  exact ⟨hleaks _ (by decide), hleaks _ (by decide)⟩

/-- The protocol's copy leaves the frame exactly where the writes are not bounded. -/
theorem overrun_iff_not_bounded (b : FrameBuffers) {call : Call} {data : List UInt8}
    (hnic : call.nic ≠ none) (hsize : call.size.toNat = data.length) (loc : Quadrant)
    (key : SessionKey) (src dst : Address) :
    CommunicationAPI.sendFrame loc key src dst data = .overrun ↔
      ¬ (sendFrame b call).Bounded data.length := by
  have hlt : data.length < uint32 := by
    rw [← hsize]
    exact call.size.toNat_lt
  rw [sendFrame_overrun_iff hlt, ← hsize, sendFrame_bounded_iff, not_or, Nat.not_lt, hsize,
    Nat.add_right_comm]
  exact (and_iff_right hnic).symm

/-- For a segment in memory the length of the frame is that of the packet which the
protocol hands to the engine. -/
theorem dataLength_eq_sendFrame (b : FrameBuffers) {call : Call} {data : List UInt8}
    (hnic : call.nic ≠ none) (hsize : call.size.toNat = data.length)
    (hrange : packetHeaderSize + macSize + data.length < uint32) (loc : Quadrant)
    (key : SessionKey) (src dst : Address) :
    (sendFrame b call).dataLength.map UInt32.toNat =
      (CommunicationAPI.sendFrame loc key src dst data).call.map fun c => c.data.length := by
  have htotal : (totalSize call.size).toNat = packetHeaderSize + data.length + macSize := by
    rw [toNat_totalSize, hsize, Nat.mod_eq_of_lt hrange]
    omega
  rw [call_sendFrame]
  by_cases hrejected : call.Rejected
  · have hlarge := hrejected.resolve_left hnic
    rw [htotal] at hlarge
    rw [sendFrame_rejected b hrejected, dif_neg (by omega)]
    rfl
  · obtain ⟨engine, -, heq⟩ := sendFrame_allocates b hrejected
    have hsmall : ¬ mtu < (totalSize call.size).toNat := fun hlarge => hrejected (.inr hlarge)
    rw [htotal] at hsmall
    rw [heq, dif_pos (Nat.not_lt.mp hsmall), Option.map_some, Option.map_some, htotal,
      length_packetCall]

end CommunicationAPI.SendPath
