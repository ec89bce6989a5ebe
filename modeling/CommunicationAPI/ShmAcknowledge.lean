import CommunicationAPI.ShmRuns

/-!
# Cumulative acknowledgement

The writers look at one number per reader, the last acknowledgement stored. It
stands for all earlier frames only as long as a client acknowledges its frames
in the order in which it received them.
-/

namespace CommunicationAPI.ShmEngine
open TransitionSystem

/-- `release_frame` stores an acknowledgement only when every earlier frame of
the same client is already acknowledged. -/
def InOrder (p : ℕ) : StepCondition State Action := fun s a _ =>
  ∀ v slowest o, a = .releaser p (.store v slowest) o →
    ∀ k, s.history.joinedAt p < k → k < v.sequenceId → k ∈ s.history.released p

/-- Client `i` of process `p` has acknowledged a prefix of the tickets, and
nothing above that prefix has been overwritten. -/
structure Acknowledged (s : State) (p : ℕ) (i : ClientSlot) : Prop where
  released : s.history.released p = List.range' 1 (s.lastRead i)
  guarded : Guarded s i (s.lastRead i)

namespace Reader
variable {s s' : State} {p : ℕ} {i : ClientSlot}

theorem ledger_seq (h : Reader s p i) :
    (s.history.released p ++ (s.process p).unreleased.map View.sequenceId).Perm
      (List.range' 1 ((s.process p).nextSequenceToRead - 1)) := by
  obtain ⟨done, hdone, hperm⟩ := h.ledger
  have := hperm.map View.sequenceId
  rwa [List.map_append, hdone, h.handedUp] at this

theorem not_mem_released (h : Reader s p i) {v : View} (hv : v ∈ (s.process p).unreleased) :
    v.sequenceId ∉ s.history.released p := by
  have hnodup : (s.history.released p ++
      (s.process p).unreleased.map View.sequenceId).Nodup :=
    h.ledger_seq.nodup_iff.mpr List.nodup_range'
  intro hmem
  exact (List.nodup_append.mp hnodup).2.2 _ hmem _ (List.mem_map_of_mem hv) rfl

end Reader

theorem ReleasePc.unreleased_of_store {x : Process} {v : View} {slowest : Bool}
    (h : ReleasePc.store v slowest ∈ x.releasing) : v ∈ x.unreleased :=
  List.mem_append_right _ (List.mem_filterMap.mpr ⟨_, h, rfl⟩)

/-- In order, the next frame acknowledged is the one after the last. -/
theorem Acknowledged.next {s : State} {p : ℕ} {i : ClientSlot} {v : View}
    (h : Acknowledged s p i) (hr : Reader s p i) (hv : v ∈ (s.process p).unreleased)
    (horder : ∀ k, s.history.joinedAt p < k → k < v.sequenceId → k ∈ s.history.released p) :
    v.sequenceId = s.lastRead i + 1 := by
  have hnew := hr.not_mem_released hv
  have hone := (hr.seq_bounds (hr.handedUp_of_unreleased hv)).1
  rw [h.released, List.mem_range'_1] at hnew
  rw [hr.joinedAt, h.released] at horder
  by_contra hne
  have := List.mem_range'_1.mp (horder (v.sequenceId - 1) (by omega) (by omega))
  omega

theorem Acknowledged.step {s s' : State} {p : ℕ} {i : ClientSlot} {a : Action}
    (h : Acknowledged s p i) (hreg : Registry s) (ht : Tickets s) (hr : Reader s p i)
    (hr' : Reader s' p i) (hj : (s.process p).engine.owned = some i)
    (hf : (s.process p).engine.constructing = true → Fresh s p) (he : StepEffect s a s')
    (horder : InOrder p s a s') : Acknowledged s' p i := by
  have keep (hs : SenderSide s s') (hreleased : s'.history.released p = s.history.released p)
      (hread : s'.lastRead i = s.lastRead i) : Acknowledged s' p i :=
    ⟨by rw [hreleased, hread]; exact h.released,
      hread ▸ h.guarded.side hs hr'.guarded.active hread.le⟩
  by_cases ha : a.process = some p
  · have hs := he.senderSide ha
    cases he with
    | send | sender => cases ha
    | construct _ he | destroy _ he | engine he =>
      cases ha
      refine keep hs (he.sameWork p).released ?_
      cases he with
      | move | lock | unlock => rfl
      | activate j | processId j | clear j =>
        by_cases hij : i = j
        · subst i
          simp
        · simp [hij]
      | store j v hpc =>
        obtain rfl : j = i := by simpa [hpc, EnginePc.owned] using hj
        -- registration stores zero, and nothing has been acknowledged yet
        have hzero : s.lastRead j = 0 := by
          have := h.released
          rw [(hf (by rw [hpc]; rfl)).released] at this
          exact List.range'_eq_nil_iff.mp this.symm
        have hv := hr.stored v hpc
        rw [hzero]
        simpa using hv
    | stop =>
      cases ha
      exact keep hs rfl rfl
    | receiver _ he =>
      cases ha
      cases he <;> exact keep hs rfl rfl
    | release =>
      cases ha
      exact keep hs rfl rfl
    | @releaser q x o j _ hpc hx he =>
      cases ha
      obtain rfl : i = j := by simpa [hpc, EnginePc.owned, eq_comm] using hj
      rcases he.acknowledges with ⟨v, slowest, rfl, hreleased, hread⟩ | ⟨-, hreleased, hread⟩
      · have hmem := ReleasePc.unreleased_of_store hx
        have hseq := h.next hr hmem (horder v slowest _ rfl)
        have hbound := (hr.seq_bounds (hr.handedUp_of_unreleased hmem)).2
        have hpublish := hr.guarded.le_publish
        have hraise := h.guarded.raise (Nat.le_succ _) (by omega)
        refine ⟨?_, ?_⟩
        · rw [hreleased, hread, hseq, h.released, List.range'_concat]
          simp [Nat.add_comm]
        · rw [hread, hseq]
          exact hraise.side hs hr'.guarded.active (by rw [hread, hseq])
      · exact keep hs (by rw [hreleased]) (by simp [hread])
  · have hw := he.sameWork ha
    cases hq : a.process with
    | none =>
      obtain ⟨w, he⟩ := he.sender_of_none hq
      have hside := he.readerSide
      have hread : s'.lastRead i = s.lastRead i := by simp [hside.registry]
      exact ⟨by rw [hw.released, hread]; exact h.released, hread ▸ h.guarded.effect ht he⟩
    | some q =>
      have hentry := (he.entry hreg hq (fun hqp => ha (by rw [hq, hqp])) hj).1
      exact keep (he.senderSide hq) hw.released (by simp [hentry])

theorem acknowledged_of_reaches {p : ℕ} {s : State}
    (h : machine.Reaches (fun s a s' => JoinsEarly p s a s' ∧ InOrder p s a s') s)
    {i : ClientSlot} (hi : (s.process p).engine.owned = some i) : Acknowledged s p i := by
  refine h.invariant (P := fun s => ∀ i, (s.process p).engine.owned = some i → Acknowledged s p i)
    (fun s hs => ?_) (fun s a s' hr ih hs hok i hi => ?_) i hi
  · cases hs
    simp [initial, EnginePc.owned]
  have he := step_effect hs
  have hjoin : machine.Reaches (JoinsEarly p) s := hr.mono fun _ _ _ _ h => h.1
  have hreader := reader_of_reaches (hjoin.step hs hok.1) hi
  rcases he.owned hi with hold | ⟨o, rfl, hpc, rfl⟩
  · exact (ih i hold).step (registry_of_reaches hr) (tickets_of_reaches hr)
      (reader_of_reaches hjoin hold) hreader hold (fresh_of_constructing hr) he hok.2
  · have hearly : s.block.publishSequenceId = 0 ∧ ∀ w, (s.sender w).Saw i 0 := by
      simpa [hpc] using hok.1 o rfl
    have hreleased : s.history.released p = [] :=
      (fresh_of_constructing hr (by rw [hpc]; rfl)).released
    have hnext : (s.process p).nextSequenceToRead = 1 :=
      (fresh_of_constructing hr (by rw [hpc]; rfl)).next
    have hzero : s.lastRead i = 0 := (early_of_reaches hr hearly.1).lastRead i
    refine ⟨?_, ?_⟩
    · simp only [State.lastRead] at hzero
      simp [hreleased, hzero]
    · have := hreader.guarded
      simp only [State.lastRead] at hzero
      simpa [hnext, hzero] using this

/-- What the acknowledgements of client `i` promise to the holder of its views. -/
structure CumulativeAck (s : State) (p : ℕ) (i : ClientSlot) : Prop where
  covered : ∀ k, 1 ≤ k → k ≤ s.lastRead i → k ∈ s.history.released p
  kept : ∀ v ∈ (s.process p).unreleased, ∃ c, s.history.drawn v.sequenceId = some c ∧
    (s.block.buffer v.slot).Carries c v.sequenceId

theorem Acknowledged.cumulativeAck {s : State} {p : ℕ} {i : ClientSlot} (h : Acknowledged s p i)
    (hr : Reader s p i) : CumulativeAck s p i := by
  refine ⟨fun k h1 hk => ?_, fun v hv => ?_⟩
  · rw [h.released, List.mem_range'_1]
    omega
  · have hmem := hr.handedUp_of_unreleased hv
    have hnew := hr.not_mem_released hv
    obtain ⟨hone, hle⟩ := hr.seq_bounds hmem
    have hpublish := hr.guarded.le_publish
    rw [h.released, List.mem_range'_1] at hnew
    rw [(hr.genuine v hmem).slot]
    exact h.guarded.intact.published v.sequenceId (by omega) (by omega)

theorem StepEffect.released {s s' : State} {a : Action} (h : StepEffect s a s') (p : ℕ) :
    (s.history.released p).length ≤ (s'.history.released p).length := by
  by_cases ha : a.process = some p
  · cases h with
    | send | sender => cases ha
    | construct _ he | destroy _ he | engine he => rw [(he.sameWork p).released]
    | stop | release => exact le_rfl
    | receiver _ he => cases he <;> exact le_rfl
    | releaser _ _ he =>
      cases ha
      rcases he.acknowledges with ⟨v, slowest, -, hreleased, -⟩ | ⟨-, hreleased, -⟩
      · simp [hreleased]
      · rw [hreleased]
  · rw [(h.sameWork ha).released]

/-- In a run whose acknowledgements are in order so far, the next step keeps
the promise exactly if it is in order too. -/
theorem cumulativeAck_iff_inOrder {p : ℕ} {s : State}
    (h : machine.Reaches (fun s a s' => JoinsEarly p s a s' ∧ InOrder p s a s') s)
    {i : ClientSlot} (hi : (s.process p).engine.owned = some i) :
    CumulativeAck s p i ∧ ∀ a s', machine.step s a = some s' → JoinsEarly p s a s' →
      (s'.process p).engine.owned = some i →
        (CumulativeAck s' p i ∧ s.lastRead i ≤ s'.lastRead i ↔ InOrder p s a s') := by
  have hjoin : machine.Reaches (JoinsEarly p) s := h.mono fun _ _ _ _ h => h.1
  have hreader := reader_of_reaches hjoin hi
  have hack := acknowledged_of_reaches h hi
  refine ⟨hack.cumulativeAck hreader, fun a s' hs hja hi' => ⟨?_, fun horder => ⟨?_, ?_⟩⟩⟩
  · rintro ⟨hc, -⟩ v slowest o rfl k hk hkv
    cases step_effect hs with
    | @releaser _ _ _ j _ hpc _ he =>
      obtain rfl : i = j := by simpa [hpc, EnginePc.owned, eq_comm] using hi
      rcases he.acknowledges with ⟨v', slowest', hv', hreleased, hread⟩ | ⟨hne, -⟩
      · cases hv'
        have := hc.covered k (by omega) (by omega)
        rw [hreleased, List.mem_append, List.mem_singleton] at this
        exact this.resolve_right (by omega)
      · exact absurd rfl (hne v slowest)
  · have hstep : machine.Reaches (fun s a s' => JoinsEarly p s a s' ∧ InOrder p s a s') s' :=
      h.step hs ⟨hja, horder⟩
    exact (acknowledged_of_reaches hstep hi').cumulativeAck
      (reader_of_reaches (hjoin.step hs hja) hi')
  · have hack' := acknowledged_of_reaches (h.step hs ⟨hja, horder⟩) hi'
    have hlen := (step_effect hs).released p
    simpa [hack.released, hack'.released] using hlen

def inOrderTest (p : ℕ) (s : State) (a : Action) (_ : State) : Bool :=
  match a with
  | .engine q _ => decide (q ≠ p)
  | .releaser q (.store v _) _ =>
    decide (q ≠ p) || (List.range v.sequenceId).all fun k =>
      decide (k ≤ s.history.joinedAt p ∨ k ∈ s.history.released p)
  | _ => true

theorem inOrderTest_ok {p : ℕ} {s s' : State} {a : Action} (h : inOrderTest p s a s' = true) :
    JoinsEarly p s a s' ∧ InOrder p s a s' := by
  refine ⟨?_, ?_⟩
  · rintro o rfl
    simp [inOrderTest] at h
  · rintro v slowest o rfl k hk hkv
    simp only [inOrderTest, ne_eq, not_true_eq_false, decide_false, Bool.false_or,
      List.all_eq_true, List.mem_range, decide_eq_true_eq] at h
    exact (h k hkv).resolve_left (by omega)

theorem joinsEarly_inOrder_of_quiet {p : ℕ} {s s' : State} {a : Action} (h : Quiet s)
    (ha : a.registers = true) : JoinsEarly p s a s' ∧ InOrder p s a s' := by
  refine ⟨h.joinsEarly s' p, ?_⟩
  rintro v slowest o rfl
  cases ha

/-- Two frames are received, the first one is released, the second one is held. -/
theorem cumulativeAck_of_one_release : ∃ s, (s.process 0).engine.owned = some 0 ∧
    s.lastRead 0 = 1 ∧ viewAt 2 ∈ (s.process 0).held ∧ CumulativeAck s 0 0 := by
  obtain ⟨s, hs, hgoal⟩ := reaches_after_registration
    (fun s a s' => JoinsEarly 0 s a s' ∧ InOrder 0 s a s') (inOrderTest 0) (registerActions 0 0)
    (sendActions 1 46 (byteCall 1) ++ sendActions 1 46 (byteCall 2) ++
      receiveActions 0 ++ receiveActions 0 ++ releaseActions 0 1)
    (fun s => decide ((s.process 0).engine.owned = some 0 ∧ s.lastRead 0 = 1 ∧
      viewAt 2 ∈ (s.process 0).held))
    (fun _ _ _ => joinsEarly_inOrder_of_quiet) (fun _ _ _ => inOrderTest_ok) (by decide)
    (by decide +kernel)
  obtain ⟨hi, hread, hheld⟩ := of_decide_eq_true hgoal
  exact ⟨s, hi, hread, hheld, (cumulativeAck_iff_inOrder hs hi).1⟩

def outOfOrderRun : List Action :=
  registerActions 0 0 ++ sendActions 1 46 (byteCall 1) ++ sendActions 1 46 (byteCall 2) ++
    receiveActions 0 ++ receiveActions 0 ++ releaseActions 0 2 ++
    (List.replicate 31 (sendActions 1 46 (byteCall 3))).flatten

/-- The frame of the view still held has been overwritten. -/
theorem not_cumulativeAck_outOfOrderRun : ∃ s, machine.exec initial outOfOrderRun = some s ∧
    machine.Reachable s ∧ (s.process 0).engine.owned = some 0 ∧
    viewAt 1 ∈ (s.process 0).held ∧ (s.block.buffer (viewAt 1).slot).sequenceId = 33 ∧
    s.lastRead 0 = 2 ∧ s.history.released 0 = [2] ∧ ¬ CumulativeAck s 0 0 := by
  obtain ⟨s, hexec, hs, hgoal⟩ := reachable_initial.exec_any outOfOrderRun
    (fun s => decide ((s.process 0).engine.owned = some 0 ∧
      viewAt 1 ∈ (s.process 0).held ∧ (s.block.buffer (viewAt 1).slot).sequenceId = 33 ∧
      s.lastRead 0 = 2 ∧ s.history.released 0 = [2])) (by decide +kernel)
  obtain ⟨hi, hheld, hslot, hread, hreleased⟩ := of_decide_eq_true hgoal
  refine ⟨s, hexec, hs, hi, hheld, hslot, hread, hreleased, fun h => ?_⟩
  have := h.covered 1 le_rfl (by omega)
  simp [hreleased] at this

end CommunicationAPI.ShmEngine
