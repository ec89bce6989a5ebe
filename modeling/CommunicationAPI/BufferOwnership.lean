import CommunicationAPI.Communicator
import CommunicationAPI.Machine
import Mathlib.Algebra.BigOperators.Group.Finset.Basic

/-!
# Who frees a buffer

The runs of one process: its Communicators come and go while its receiver thread
hands up frames.
-/

namespace CommunicationAPI.BufferOwnership
open ShmEngine TransitionSystem

/-- `frames` holds what was handed up so far, with the gateway of the process if it is one. Their
places are the numbers of the buffers. `matching` counts the attachments that a frame matched, and
`lost` the entries for it in the queues of Communicators that were destroyed. -/
structure State where
  endpoints : Endpoints
  frames : List (Option Gateway × Frame)
  matching : ℕ → ℕ
  lost : ℕ → ℕ
  /-- A write has left a frame. The memory may hold anything, and the run ends. -/
  overrun : Bool

def State.handed (s : State) : ℕ := s.frames.length

/-- The gateway of the process, if it is one, may change between two frames. -/
inductive Action
  | construct (o : ℕ) (address : Address)
  | subscribe (o : ℕ) (type : TedsType)
  | destroy (o : ℕ)
  | handUp (external : Option Gateway) (frame : Frame)
  | receive (o : ℕ)

def entries (c : Communicator) (n : ℕ) : ℕ := c.data.countP fun buf => buf.id = n

def State.handUp (s : State) (external : Option Gateway) (frame : Frame) : State :=
  let s' := { s with
    frames := s.frames ++ [(external, frame)]
    matching := Function.update s.matching s.handed
      (s.endpoints.recipients external frame).length }
  match s.endpoints.update external ⟨s.handed, frame⟩ with
  | some endpoints => { s' with endpoints }
  | none => { s' with overrun := true }

def State.act (s : State) : Action → Option State
  | .construct o address =>
    if (s.endpoints.communicator o).isNone then
      some { s with endpoints := s.endpoints.construct o address }
    else none
  | .subscribe o type =>
    (s.endpoints.communicator o).map fun c =>
      { s with endpoints := s.endpoints.subscribeToType o c type }
  | .destroy o =>
    (s.endpoints.communicator o).map fun c =>
      { s with
        endpoints := s.endpoints.destroy o c
        lost := fun n => s.lost n + entries c n }
  | .handUp external frame =>
    if frame.dataLength < uint32 then some (s.handUp external frame) else none
  | .receive o =>
    (s.endpoints.communicator o).bind fun c =>
      c.data.head?.map fun buf => { s with endpoints := s.endpoints.receive o c buf }

def step (s : State) (a : Action) : Option State := if s.overrun then none else s.act a

def start : State := ⟨.empty, [], fun _ => 0, fun _ => 0, false⟩

def machine : Machine State Action where
  init s := s = start
  step := step

def State.Drained (s : State) : Prop :=
  ∀ o c, s.endpoints.communicator o = some c → c.data = []

def NoUseAfterFree (log : List BufferEvent) (n : ℕ) : Prop :=
  log.Pairwise fun a b => ¬ (a = .free n ∧ b = .use n)

/-- Buffer `n` is freed once and not used any more. Where a write has left a frame, nothing is
known of any buffer. -/
structure ReleasedOnce (s : State) (n : ℕ) : Prop where
  contained : s.overrun = false
  once : s.endpoints.log.count (.free n) = 1
  noUseAfterFree : NoUseAfterFree s.endpoints.log n

/-- The process is a gateway, and the frame is a broadcast shorter than a packet without segment. -/
def Short (x : Option Gateway × Frame) : Prop :=
  x.1.isSome = true ∧ x.2.header.dhost = broadcastAddr ∧
    x.2.dataLength < packetHeaderSize + macSize

def entriesAt (c : Option Communicator) (n : ℕ) : ℕ := c.elim 0 fun c => entries c n

def queued (e : Endpoints) (live : Finset ℕ) (n : ℕ) : ℕ :=
  ∑ o ∈ live, entriesAt (e.communicator o) n

section
variable {e e' : Endpoints} {live : Finset ℕ} {n o : ℕ} {c c' : Communicator} {buf : Buffer}
  {x : Option Communicator}

theorem queued_update (ho : o ∈ live)
    (he : e'.communicator = Function.update e.communicator o x) :
    queued e' live n + entriesAt (e.communicator o) n = queued e live n + entriesAt x n := by
  have hrest : ∑ o' ∈ live.erase o, entriesAt (e'.communicator o') n =
      ∑ o' ∈ live.erase o, entriesAt (e.communicator o') n := by
    apply Finset.sum_congr rfl
    intro o' ho'
    rw [he, Function.update_of_ne (Finset.ne_of_mem_erase ho')]
  unfold queued
  rw [← Finset.add_sum_erase live _ ho, ← Finset.add_sum_erase live _ ho, hrest, he,
    Function.update_self]
  omega

/-- A Communicator that does not exist has no queue. -/
theorem queued_insert (hnew : e.communicator o = none) :
    queued e (insert o live) n = queued e live n := by
  apply Finset.sum_insert_of_eq_zero_if_notMem
  intro _
  rw [hnew]
  rfl

theorem queued_queueIncomingBuffer (ho : o ∈ live) (hc : e.communicator o = some c) :
    queued (e.queueIncomingBuffer buf o) live n =
      queued e live n + if buf.id = n then 1 else 0 := by
  have h := queued_update (n := n) ho (e.queueIncomingBuffer_communicator o buf)
  rw [hc] at h
  simp only [entriesAt, Option.map_some, Option.elim_some, entries, List.countP_append,
    List.countP_singleton, decide_eq_true_eq] at h
  omega

theorem queued_foldl {observers : List ℕ}
    (h : ∀ o ∈ observers, o ∈ live ∧ (e.communicator o).isSome) :
    queued (observers.foldl (fun e o => e.queueIncomingBuffer buf o) e) live n =
      queued e live n + if buf.id = n then observers.length else 0 := by
  induction observers generalizing e with
  | nil => simp
  | cons o observers ih =>
      obtain ⟨ho, hsome⟩ := h o List.mem_cons_self
      obtain ⟨c, hc⟩ := Option.isSome_iff_exists.mp hsome
      have hrest : ∀ o' ∈ observers,
          o' ∈ live ∧ ((e.queueIncomingBuffer buf o).communicator o').isSome := by
        intro o' ho'
        obtain ⟨hlive, hsome'⟩ := h o' (List.mem_cons_of_mem _ ho')
        refine ⟨hlive, ?_⟩
        rw [Endpoints.queueIncomingBuffer_communicator]
        by_cases heq : o' = o
        · rw [heq, Function.update_self, hc]
          rfl
        · rwa [Function.update_of_ne heq]
      rw [List.foldl_cons, ih hrest, queued_queueIncomingBuffer ho hc, List.length_cons]
      split_ifs <;> omega

end

/-- `update` queues the buffer for every recipient, and frees it if there is none. -/
theorem update_cases {e e' : Endpoints} {external : Option Gateway} {buf : Buffer}
    (h : e.update external buf = some e') :
    e.recipients external buf.frame = [] ∧
        e' = (e.record [.use buf.id]).record [.free buf.id] ∨
      e.recipients external buf.frame ≠ [] ∧
        e' = (e.recipients external buf.frame).foldl (fun e o => e.queueIncomingBuffer buf o)
          (e.record [.use buf.id]) := by
  have hrecipients : (e.record [.use buf.id]).recipients external buf.frame =
      e.recipients external buf.frame := rfl
  unfold Endpoints.update at h
  split_ifs at h
  dsimp only at h
  rw [hrecipients] at h
  cases hobservers : e.recipients external buf.frame with
  | nil =>
    rw [hobservers] at h
    cases h
    exact .inl ⟨rfl, rfl⟩
  | cons o observers =>
    rw [hobservers] at h
    cases h
    exact .inr ⟨List.cons_ne_nil o observers, rfl⟩

/-- It returns unless a gateway gets a short broadcast. -/
theorem update_eq_none {e : Endpoints} {external : Option Gateway} {buf : Buffer}
    (hsize : buf.frame.dataLength < uint32) :
    e.update external buf = none ↔ Short (external, buf.frame) := by
  refine Iff.trans ?_ (overruns_iff hsize)
  unfold Endpoints.update
  dsimp only
  split_ifs with hoverruns
  · exact iff_of_true rfl hoverruns
  · refine iff_of_false ?_ hoverruns
    split <;> exact Option.some_ne_none _

structure Attached (e : Endpoints) : Prop where
  ports : ∀ o p, (o, p) ∈ e.portObserved →
    ∃ c, e.communicator o = some c ∧ c.address.port = p
  types : ∀ o t, (o, t) ∈ e.typeObserved →
    ∃ c, e.communicator o = some c ∧ t ∈ c.subscribedTypes

/-- `e'` has the registries of `e`, and its Communicators but for their queues. -/
structure SameAttachments (e e' : Endpoints) : Prop where
  ports : e'.portObserved = e.portObserved
  types : e'.typeObserved = e.typeObserved
  communicator : ∀ o, (e'.communicator o).map (fun c => (c.address, c.subscribedTypes)) =
    (e.communicator o).map fun c => (c.address, c.subscribedTypes)

namespace SameAttachments
variable {e e' : Endpoints} {o : ℕ} {c : Communicator}

theorem exists_of_some (h : SameAttachments e e') (hc : e.communicator o = some c) :
    ∃ c', e'.communicator o = some c' ∧ c'.address = c.address ∧
      c'.subscribedTypes = c.subscribedTypes := by
  have hmap := h.communicator o
  rw [hc, Option.map_some, Option.map_eq_some_iff] at hmap
  obtain ⟨c', hc', heq⟩ := hmap
  exact ⟨c', hc', congrArg Prod.fst heq, congrArg Prod.snd heq⟩

theorem none_of_none (h : SameAttachments e e') (hc : e.communicator o = none) :
    e'.communicator o = none := by
  have hmap := h.communicator o
  rwa [hc, Option.map_none, Option.map_eq_none_iff] at hmap

theorem attached (h : SameAttachments e e') (ha : Attached e) : Attached e' := by
  constructor
  · intro o p hmem
    rw [h.ports] at hmem
    obtain ⟨c, hc, hport⟩ := ha.ports o p hmem
    obtain ⟨c', hc', haddress, -⟩ := h.exists_of_some hc
    exact ⟨c', hc', by rw [haddress, hport]⟩
  · intro o t hmem
    rw [h.types] at hmem
    obtain ⟨c, hc, htype⟩ := ha.types o t hmem
    obtain ⟨c', hc', -, htypes⟩ := h.exists_of_some hc
    exact ⟨c', hc', by rwa [htypes]⟩

theorem refl (e : Endpoints) : SameAttachments e e := ⟨rfl, rfl, fun _ => rfl⟩

theorem trans {e'' : Endpoints} (h : SameAttachments e e') (h' : SameAttachments e' e'') :
    SameAttachments e e'' where
  ports := h'.ports.trans h.ports
  types := h'.types.trans h.types
  communicator o := (h'.communicator o).trans (h.communicator o)

theorem record (e : Endpoints) (events : List BufferEvent) : SameAttachments e (e.record events) :=
  ⟨rfl, rfl, fun _ => rfl⟩

theorem queueIncomingBuffer (e : Endpoints) (buf : Buffer) (o : ℕ) :
    SameAttachments e (e.queueIncomingBuffer buf o) := by
  refine ⟨rfl, rfl, fun o' => ?_⟩
  rw [Endpoints.queueIncomingBuffer_communicator]
  by_cases heq : o' = o
  · rw [heq, Function.update_self, Option.map_map]
    rfl
  · rw [Function.update_of_ne heq]

theorem foldl (observers : List ℕ) (buf : Buffer) :
    SameAttachments e (observers.foldl (fun e o => e.queueIncomingBuffer buf o) e) := by
  induction observers generalizing e with
  | nil => exact .refl e
  | cons o observers ih => exact (queueIncomingBuffer e buf o).trans ih

theorem update {external : Option Gateway} {buf : Buffer} (h : e.update external buf = some e') :
    SameAttachments e e' := by
  rcases update_cases h with ⟨-, rfl⟩ | ⟨-, rfl⟩
  · exact (record e _).trans (record _ _)
  · exact (record e _).trans (foldl _ buf)

theorem receive (hc : e.communicator o = some c) (buf : Buffer) :
    SameAttachments e (e.receive o c buf) := by
  refine ⟨rfl, rfl, fun o' => ?_⟩
  rw [Endpoints.receive_communicator]
  by_cases heq : o' = o
  · rw [heq, Function.update_self, hc]
    rfl
  · rw [Function.update_of_ne heq]

end SameAttachments

namespace Attached
variable {e : Endpoints} {o : ℕ} {c : Communicator}

theorem construct (ha : Attached e) (hnew : e.communicator o = none) (address : Address) :
    Attached (e.construct o address) := by
  have hother : ∀ {o' c'}, e.communicator o' = some c' → o' ≠ o := by
    rintro o' c' hc' rfl
    rw [hnew] at hc'
    cases hc'
  constructor
  · intro o' p hmem
    rcases List.mem_cons.mp hmem with heq | hmem
    · cases heq
      exact ⟨⟨address, [], []⟩, Function.update_self .., rfl⟩
    · obtain ⟨c', hc', hport⟩ := ha.ports o' p hmem
      exact ⟨c', by rwa [e.construct_communicator, Function.update_of_ne (hother hc')], hport⟩
  · intro o' t hmem
    obtain ⟨c', hc', htype⟩ := ha.types o' t hmem
    exact ⟨c', by rwa [e.construct_communicator, Function.update_of_ne (hother hc')], htype⟩

theorem subscribeToType (ha : Attached e) (hc : e.communicator o = some c) (type : TedsType) :
    Attached (e.subscribeToType o c type) := by
  constructor
  · intro o' p hmem
    obtain ⟨c', hc', hport⟩ := ha.ports o' p hmem
    by_cases heq : o' = o
    · rw [heq, hc] at hc'
      cases hc'
      refine ⟨{ c with subscribedTypes := c.subscribedTypes.insert type }, ?_, hport⟩
      rw [heq, e.subscribeToType_communicator, Function.update_self]
    · exact ⟨c', by rwa [e.subscribeToType_communicator, Function.update_of_ne heq], hport⟩
  · intro o' t hmem
    rcases List.mem_cons.mp hmem with heq | hmem
    · cases heq
      exact ⟨_, Function.update_self .., List.mem_insert_self⟩
    · obtain ⟨c', hc', htype⟩ := ha.types o' t hmem
      by_cases heq : o' = o
      · rw [heq, hc] at hc'
        cases hc'
        exact ⟨_, by rw [heq, e.subscribeToType_communicator, Function.update_self],
          List.mem_insert_of_mem htype⟩
      · exact ⟨c', by rwa [e.subscribeToType_communicator, Function.update_of_ne heq], htype⟩

/-- A destructor leaves no entry of its Communicator behind. -/
theorem destroy (ha : Attached e) (hc : e.communicator o = some c) :
    Attached (e.destroy o c) := by
  constructor
  · intro o' p hmem
    obtain ⟨hmem, hkept⟩ := Observed.mem_detach.mp hmem
    obtain ⟨c', hc', hport⟩ := ha.ports o' p hmem
    have hne : o' ≠ o := by
      rintro rfl
      rw [hc] at hc'
      cases hc'
      exact hkept ⟨rfl, hport.symm⟩
    exact ⟨c', by rwa [e.destroy_communicator, Function.update_of_ne hne], hport⟩
  · intro o' t hmem
    obtain ⟨hmem, hkept⟩ := Observed.mem_foldl_detach.mp hmem
    obtain ⟨c', hc', htype⟩ := ha.types o' t hmem
    have hne : o' ≠ o := by
      rintro rfl
      rw [hc] at hc'
      cases hc'
      exact hkept ⟨rfl, htype⟩
    exact ⟨c', by rwa [e.destroy_communicator, Function.update_of_ne hne], htype⟩

theorem isSome_of_mem_listeners (ha : Attached e) {port : Port} {frame : Frame}
    (h : o ∈ e.listeners port frame) : (e.communicator o).isSome := by
  unfold Endpoints.listeners at h
  split_ifs at h
  · obtain ⟨c, hc, -⟩ := ha.types o _ (Observed.mem_notify.mp h)
    rw [hc]
    rfl
  · cases h
  · obtain ⟨c, hc, -⟩ := ha.ports o _ (Observed.mem_notify.mp h)
    rw [hc]
    rfl

theorem isSome_of_mem_recipients (ha : Attached e) {external : Option Gateway} {frame : Frame}
    (h : o ∈ e.recipients external frame) : (e.communicator o).isSome := by
  unfold Endpoints.recipients at h
  obtain ⟨port, -, h⟩ := List.mem_flatMap.mp h
  exact ha.isSome_of_mem_listeners h

end Attached

end CommunicationAPI.BufferOwnership
