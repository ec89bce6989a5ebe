import CommunicationAPI.ShmTickets

/-!
# Slots that no sender may overwrite

`Guarded s i a` says that the active client `i` keeps every slot with a
sequence id above `a`: no sender in its writing phase has a ticket above
`a + bufferSlots`, no sender can leave its scan with such a ticket, and every
published slot above `a` carries the frame of the send that drew its ticket.
The bound `a` may grow, and must stay above the client's acknowledgement.
-/

namespace CommunicationAPI.ShmEngine

/-- The slot holds ticket `t` and exactly the header, length and data of `c`. -/
structure MessageSlot.Carries (slot : MessageSlot) (c : SendCall) (t : ℕ) : Prop where
  sequenceId : slot.sequenceId = t
  header : slot.frame.header = ⟨c.dstMac, c.srcMac.getD localAddr, htons c.protocol⟩
  dataLength : slot.frame.dataLength = c.data.length
  data : ∀ i (hi : i < c.data.length), slot.frame.data i = c.data[i]

theorem foldl_bytes (l : List UInt8) (k : ℕ) (slot : MessageSlot) :
    ∃ m, (l.mapIdx fun i b => SlotStore.byte (k + i) b).foldl SlotStore.apply slot =
        { slot with frame.data := m } ∧
      (∀ i (hi : i < l.length), m (k + i) = l[i]) ∧ ∀ i, i < k → m i = slot.frame.data i := by
  induction l generalizing k slot with
  | nil => exact ⟨slot.frame.data, rfl, by simp, fun _ _ => rfl⟩
  | cons b l ih =>
    obtain ⟨m, hm, hin, hout⟩ := ih (k + 1)
      { slot with frame.data := Function.update slot.frame.data k b }
    refine ⟨m, ?_, ?_, ?_⟩
    · have hshift : (fun i b => SlotStore.byte (k + (i + 1)) b) =
          fun i b => SlotStore.byte (k + 1 + i) b := by
        funext i b
        rw [Nat.add_assoc, Nat.add_comm 1 i]
      rw [List.mapIdx_cons, List.foldl_cons, hshift]
      exact hm
    · intro i hi
      cases i with
      | zero => simpa using hout k (Nat.lt_succ_self k)
      | succ i =>
        have := hin i (by simpa using hi)
        simpa [Nat.add_assoc, Nat.add_comm 1 i] using this
    · intro i hi
      rw [hout i (by omega)]
      exact Function.update_of_ne (by omega) _ _

/-- The stores of `send`, in their order, leave the whole message in the slot. -/
theorem stores_carries (slot : MessageSlot) (c : SendCall) (t : ℕ) :
    ((c.stores t).foldl SlotStore.apply slot).Carries c t := by
  obtain ⟨m, hm, hdata, -⟩ := foldl_bytes c.data 0
    { slot with frame := ⟨⟨c.dstMac, c.srcMac.getD localAddr, htons c.protocol⟩, slot.frame.data,
      c.data.length⟩ }
  have hfold : (c.stores t).foldl SlotStore.apply slot =
      { sequenceId := t
        frame := ⟨⟨c.dstMac, c.srcMac.getD localAddr, htons c.protocol⟩, m, c.data.length⟩ } := by
    simp only [Nat.zero_add] at hm
    simp only [SendCall.stores, SendCall.copyStores, List.foldl_append, List.foldl_cons,
      List.foldl_nil, SlotStore.apply]
    rw [hm]
  rw [hfold]
  exact ⟨rfl, rfl, rfl, by simpa using hdata⟩

/-- Two sequence ids within one window of the ring have different slots. -/
theorem ringSlot_ne {a k t : ℕ} (hk : a < k) (hlt : k < t) (ht : t ≤ a + bufferSlots) :
    ringSlot k ≠ ringSlot t := by
  intro h
  have hmod : k % 32 = t % 32 := congrArg Fin.val h
  simp only [bufferSlots] at ht
  omega

structure Intact (s : State) (a : ℕ) : Prop where
  written : ∀ w c t todo, s.sender w = .write c t todo →
    (todo.foldl SlotStore.apply (s.block.buffer (ringSlot t))).Carries c t
  published : ∀ k, a < k → k ≤ s.block.publishSequenceId →
    ∃ c, s.history.drawn k = some c ∧ (s.block.buffer (ringSlot k)).Carries c k

theorem Intact.mono {s : State} {a a' : ℕ} (h : Intact s a) (ha : a ≤ a') : Intact s a' :=
  ⟨h.written, fun k hk => h.published k (by omega)⟩

theorem Intact.side {s s' : State} {a : ℕ} (h : Intact s a) (hs : SenderSide s s') :
    Intact s' a where
  written := by rw [hs.sender, hs.buffer]; exact h.written
  published := by rw [hs.publish, hs.drawn, hs.buffer]; exact h.published

/-- While every writing sender stays within one window above `a ≤ publish`, no
two of them share a slot and none touches a published slot above `a`. -/
theorem Intact.effect {s s' : State} {a w : ℕ} (h : Intact s a) (ht : Tickets s)
    (ha : a ≤ s.block.publishSequenceId)
    (hbound : ∀ w c t todo, s.sender w = .write c t todo → t ≤ a + bufferSlots)
    (he : SenderEffect s w s') : Intact s' a := by
  have others (pc' : SendPc) (hpc' : ∀ c t todo, pc' = .write c t todo →
        (todo.foldl SlotStore.apply (s.block.buffer (ringSlot t))).Carries c t) :
      ∀ v c t todo, Function.update s.sender w pc' v = .write c t todo →
        (todo.foldl SlotStore.apply (s.block.buffer (ringSlot t))).Carries c t := by
    intro v c t todo hv
    by_cases hvw : v = w
    · subst v
      exact hpc' c t todo (by simpa using hv)
    · exact h.written v c t todo (by simpa [hvw] using hv)
  cases he with
  | stutter => exact h
  | move pc' b hm =>
    refine ⟨others pc' ?_, h.published⟩
    rintro c t todo rfl
    generalize s.sender w = pc at hm
    cases hm with
    | pass => exact stores_carries _ c t
  | acquire c hpc hs => exact ⟨others _ (by simp), h.published⟩
  | draw c t hpc =>
    refine ⟨others _ (by simp), fun k hk hkp => ?_⟩
    obtain ⟨d, hd, hcar⟩ := h.published k hk hkp
    have hkt : k ≠ t := by
      have := ht.writeClaim w c t hpc
      have := ht.publish_lt
      change k ≤ s.block.publishSequenceId at hkp
      omega
    exact ⟨d, by simpa [hkt] using hd, hcar⟩
  | release c t hpc => exact ⟨others _ (by simp [startScan]), h.published⟩
  | wake c t hpc hs => exact ⟨others _ (by simp [startScan]), h.published⟩
  | store c t st todo hpc =>
    obtain ⟨hlt, -, -⟩ := ht.live w t c (by simp [hpc, SendPc.live])
    have hta := hbound w c t _ hpc
    constructor
    · intro v d u todo' hv
      by_cases hvw : v = w
      · subst v
        have hv' : SendPc.write c t todo = .write d u todo' := by simpa using hv
        cases hv'
        simpa using h.written w c t (st :: todo) hpc
      · have hv' : s.sender v = .write d u todo' := by simpa [hvw] using hv
        have hut : ringSlot u ≠ ringSlot t := by
          obtain ⟨hul, -, -⟩ := ht.live v u d (by simp [hv', SendPc.live])
          have hua := hbound v d u _ hv'
          have hne : u ≠ t := by
            rintro rfl
            exact hvw (ht.live_unique v w u d c (by simp [hv', SendPc.live])
              (by simp [hpc, SendPc.live]))
          rcases Nat.lt_or_gt_of_ne hne with hlt' | hgt
          · exact ringSlot_ne (lt_of_le_of_lt ha hul) hlt' hta
          · exact (ringSlot_ne (lt_of_le_of_lt ha hlt) hgt hua).symm
        simpa [hut] using h.written v d u todo' hv'
    · intro k hk hkp
      have hkt : ringSlot k ≠ ringSlot t :=
        ringSlot_ne hk (lt_of_le_of_lt (show k ≤ s.block.publishSequenceId from hkp) hlt) hta
      simpa [hkt] using h.published k hk hkp
  | publish c t hpc hp =>
    obtain ⟨hlt, -, hdrawn⟩ := ht.live w t c (by simp [hpc, SendPc.live])
    refine ⟨others _ (by simp), fun k hk hkp => ?_⟩
    by_cases hkt : k = t
    · subst k
      exact ⟨c, hdrawn, h.written w c t [] hpc⟩
    · exact h.published k hk (by change k ≤ t at hkp; omega)
  | notify c t ops hpc => exact ⟨others _ (by simp), h.published⟩

/-- What a sender may still do, when client `i` has acknowledged at most `a`. -/
def SendPc.Saw (i : ClientSlot) (a : ℕ) : SendPc → Prop
  | .scanActive _ t todo slowest any =>
    i ∈ todo ∨ t ≤ bufferSlots ∨ any = true ∧ slowest ≤ a
  | .scanLastRead _ t j todo slowest => i ∈ todo ∨ i = j ∨ t ≤ bufferSlots ∨ slowest ≤ a
  | .write _ t _ => t ≤ a + bufferSlots
  | _ => True

theorem SendPc.Saw.mono {i : ClientSlot} {a a' : ℕ} {pc : SendPc} (h : pc.Saw i a) (ha : a ≤ a') :
    pc.Saw i a' := by
  cases pc with
  | scanActive => exact h.imp id (Or.imp id (And.imp id fun hle => hle.trans ha))
  | scanLastRead => exact h.imp id (Or.imp id (Or.imp id fun hle => hle.trans ha))
  | write => exact le_trans h (Nat.add_le_add_right ha _)
  | _ => trivial

theorem mem_allClients (i : ClientSlot) : i ∈ allClients := List.mem_finRange i

theorem startScan_saw (c : SendCall) (t : ℕ) (i : ClientSlot) (a : ℕ) :
    (startScan c t).Saw i a := .inl (mem_allClients i)

theorem LocalMove.saw {s : State} {pc pc' : SendPc} {i : ClientSlot} {a : ℕ}
    (h : LocalMove s pc pc') (hs : pc.Saw i a) (hactive : s.isActive i = true)
    (hread : s.lastRead i ≤ a) : pc'.Saw i a := by
  cases h with
  | scanSkip c t j todo slowest any hj =>
    have hij : i ≠ j := by rintro rfl; rw [hactive] at hj; cases hj
    simpa [SendPc.Saw, hij] using hs
  | scanHit c t j todo slowest any hj =>
    simp only [SendPc.Saw, List.mem_cons] at hs ⊢
    tauto
  | scanRead c t j todo slowest =>
    simp only [SendPc.Saw] at hs ⊢
    rcases hs with hm | rfl | hle | hle
    · exact .inl hm
    · exact .inr (.inr ⟨trivial, (min_le_right _ _).trans hread⟩)
    · exact .inr (.inl hle)
    · exact .inr (.inr ⟨trivial, (min_le_left _ _).trans hle⟩)
  | pass c t slowest any hr =>
    simp only [SendPc.Saw, List.not_mem_nil, false_or] at hs ⊢
    rcases hs with hle | ⟨rfl, hle⟩
    · omega
    · simp only [hasRoom, Bool.not_true, Bool.false_or, decide_eq_true_eq] at hr
      omega
  | interrupt c t => exact startScan_saw c t i a
  | _ => trivial

structure Guarded (s : State) (i : ClientSlot) (a : ℕ) : Prop where
  active : s.isActive i = true
  lastRead_le : s.lastRead i ≤ a
  le_publish : a ≤ s.block.publishSequenceId
  saw : ∀ w, (s.sender w).Saw i a
  intact : Intact s a

namespace Guarded
variable {s s' : State} {i : ClientSlot} {a a' : ℕ}

theorem bound (h : Guarded s i a) (w : ℕ) (c : SendCall) (t : ℕ) (todo : List SlotStore)
    (hpc : s.sender w = .write c t todo) : t ≤ a + bufferSlots := by
  simpa [hpc, SendPc.Saw] using h.saw w

theorem raise (h : Guarded s i a) (ha : a ≤ a') (hp : a' ≤ s.block.publishSequenceId) :
    Guarded s i a' :=
  ⟨h.active, h.lastRead_le.trans ha, hp, fun w => (h.saw w).mono ha, h.intact.mono ha⟩

theorem side (h : Guarded s i a) (hs : SenderSide s s') (hactive : s'.isActive i = true)
    (hread : s'.lastRead i ≤ a) : Guarded s' i a :=
  ⟨hactive, hread, hs.publish ▸ h.le_publish, hs.sender ▸ h.saw, h.intact.side hs⟩

theorem effect (h : Guarded s i a) (ht : Tickets s) {w : ℕ} (he : SenderEffect s w s') :
    Guarded s' i a := by
  have hside := he.readerSide
  have hpublish : s.block.publishSequenceId ≤ s'.block.publishSequenceId := by
    cases he with
    | publish c t hpc hp =>
      have := (ht.live w t c (by simp [hpc, SendPc.live])).1
      show s.block.publishSequenceId ≤ t
      omega
    | _ => exact le_rfl
  have hsaw (pc' : SendPc) (hpc' : pc'.Saw i a) (v : ℕ) :
      (Function.update s.sender w pc' v).Saw i a := by
    by_cases hvw : v = w
    · subst v
      simpa using hpc'
    · simpa [hvw] using h.saw v
  refine ⟨?_, ?_, h.le_publish.trans hpublish, ?_, h.intact.effect ht h.le_publish h.bound he⟩
  · simpa [hside.registry] using h.active
  · simpa [hside.registry] using h.lastRead_le
  · cases he with
    | stutter => exact h.saw
    | move pc' b hm => exact hsaw pc' (hm.saw (h.saw w) h.active h.lastRead_le)
    | release c t _ | wake c t _ => exact hsaw _ (startScan_saw c t i a)
    | store c t st todo hpc => exact hsaw _ (h.bound w c t _ hpc)
    | _ => exact hsaw _ trivial

end Guarded

/-- Before anything is published, senders whose tickets fit in one turn of the
ring write to different slots. -/
def Dawn (s : State) : Prop :=
  s.block.publishSequenceId = 0 →
    (∀ w c t todo, s.sender w = .write c t todo → t ≤ bufferSlots) → Intact s 0

theorem dawn_initial : Dawn initial :=
  fun _ _ => ⟨by simp [initial], fun k hk hp => by
    have : k ≤ 0 := hp
    omega⟩

theorem Dawn.effect {s s' : State} {w : ℕ} (h : Dawn s) (ht : Tickets s)
    (he : SenderEffect s w s') : Dawn s' := by
  intro hp hbound
  have hzero : s.block.publishSequenceId = 0 := by
    cases he with
    | publish c t hpc hp' =>
      have := (ht.live w t c (by simp [hpc, SendPc.live])).1
      change t = 0 at hp
      omega
    | _ => exact hp
  have hbound' : ∀ v c t todo, s.sender v = .write c t todo → t ≤ bufferSlots := by
    intro v c t todo hv
    by_cases hvw : v = w
    · subst v
      cases he with
      | stutter => exact hbound w c t todo hv
      | move pc' b hm => rw [hv] at hm; cases hm
      | store d u st todo' hpc =>
        rw [hv] at hpc
        cases hpc
        exact hbound w c t todo' (by simp)
      | publish d u hpc hp' =>
        have := (ht.live w u d (by simp [hpc, SendPc.live])).1
        change u = 0 at hp
        omega
      | acquire d hpc | draw d u hpc | release d u hpc | wake d u hpc | notify d u ops hpc =>
        rw [hv] at hpc; cases hpc
    · refine hbound v c t todo ?_
      cases he with
      | stutter => exact hv
      | _ => simpa [hvw] using hv
  exact (h hzero hbound').effect ht (by omega) (by simpa using hbound') he

theorem Dawn.side {s s' : State} (h : Dawn s) (hs : SenderSide s s') : Dawn s' := by
  intro hp hbound
  rw [hs.publish] at hp
  rw [hs.sender] at hbound
  exact (h hp hbound).side hs

theorem dawn_of_reaches {ok : TransitionSystem.StepCondition State Action} {s : State}
    (h : machine.Reaches ok s) : Dawn s := by
  refine h.invariant (fun _ hi => hi ▸ dawn_initial) fun s a s' hr hd hs _ => ?_
  rcases (step_effect hs).sender_or_side with ⟨w, he⟩ | hside
  · exact hd.effect (tickets_of_reaches hr) he
  · exact hd.side hside

end CommunicationAPI.ShmEngine
