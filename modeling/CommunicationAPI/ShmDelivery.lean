import CommunicationAPI.ShmAcknowledge

/-!
# Ordered delivery on the bus

A reader that registers before the first send and releases each frame before
it waits for the next one acknowledges in order. It sees the frames in ticket
order, each as its sender wrote it, whatever the other readers do.
-/

namespace CommunicationAPI.ShmEngine
open TransitionSystem

/-- Process `p` registers before the first send and does not exit. -/
def RegistersFirst (p : ℕ) : StepCondition State Action := fun s a _ =>
  ∀ o, a = .engine p o → Quiet s

/-- Process `p` has passed every frame to `release_frame` when it waits again. -/
def OneAtATime (p : ℕ) : StepCondition State Action := fun s a _ =>
  ∀ o, a = .receiver p o → (s.process p).receiver = .wait → (s.process p).unreleased = []

def outstanding (s : State) (p : ℕ) : ℕ :=
  (s.process p).unreleased.length + (s.process p).receiver.taken

theorem SameWork.outstanding {s s' : State} {p : ℕ} (h : SameWork s s' p) :
    outstanding s' p = outstanding s p := by
  simp only [ShmEngine.outstanding, h.unreleased, h.receiver]

theorem outstanding_step {s s' : State} {p : ℕ} {a : Action} (h : outstanding s p ≤ 1)
    (he : StepEffect s a s') (hone : OneAtATime p s a s') : outstanding s' p ≤ 1 := by
  by_cases ha : a.process = some p
  · cases he with
    | send | sender => cases ha
    | construct _ he | destroy _ he | engine he => rw [(he.sameWork p).outstanding]; exact h
    | stop =>
      cases ha
      simpa [outstanding, Process.unreleased] using h
    | receiver _ he =>
      cases ha
      cases he with
      | move pc' hm =>
        have htaken : pc'.taken ≤ (s.process p).receiver.taken := by
          generalize s.process p = x at hm
          cases hm <;> simp_all [ReceiverPc.taken]
        have hsame : ((s.setReceiver p pc').process p).unreleased = (s.process p).unreleased := by
          simp [Process.unreleased]
        simp only [outstanding, hsame] at h ⊢
        simp only [State.setReceiver, State.setProcess, Function.update_self]
        omega
      | wait hpc =>
        have hempty := hone _ rfl hpc
        simp only [Process.unreleased, List.append_eq_nil_iff] at hempty
        simp [outstanding, Process.unreleased, ReceiverPc.taken, hempty]
      | handUp protocol hpc =>
        simp only [outstanding, Process.unreleased, hpc, ReceiverPc.taken] at h
        simp [outstanding, Process.unreleased, ReceiverPc.taken] at h ⊢
        omega
    | release _ hv =>
      cases ha
      have hlen := (List.perm_cons_erase hv).length_eq
      simp only [outstanding, Process.unreleased, List.length_append] at h
      simp only [List.length_cons] at hlen
      simp [outstanding, Process.unreleased, ReleasePc.pending]
      omega
    | releaser _ hx he =>
      cases ha
      have hle := he.unreleased_le hx
      simp only [outstanding, he.receiver] at h ⊢
      omega
  · rw [(he.sameWork ha).outstanding]
    exact h

theorem RegistersFirst.joinsEarly {s s' : State} {a : Action} {p : ℕ}
    (h : RegistersFirst p s a s') : JoinsEarly p s a s' :=
  fun o ho => (h o ho).joinsEarly s' p o ho

/-- With one frame outstanding, an acknowledgement has no earlier one to wait for. -/
theorem inOrder_of_outstanding {s s' : State} {a : Action} {p : ℕ} {i : ClientSlot}
    (hr : Reader s p i) (he : StepEffect s a s') (hone : outstanding s p ≤ 1) :
    InOrder p s a s' := by
  rintro v slowest o rfl k hk hkv
  cases he with
  | releaser _ hx _ =>
    have hmem := ReleasePc.unreleased_of_store hx
    have hsingle : (s.process p).unreleased = [v] := by
      simp only [outstanding] at hone
      obtain ⟨u, hu⟩ := List.length_eq_one_iff.mp
        (Nat.le_antisymm (by omega) (List.length_pos_of_mem hmem))
      rw [hu, List.mem_singleton] at hmem
      rw [hu, hmem]
    have hledger := hr.ledger_seq
    rw [hsingle, List.map_singleton] at hledger
    have hbound := hr.seq_bounds (hr.handedUp_of_unreleased hmem)
    have hmemk : k ∈ List.range' 1 ((s.process p).nextSequenceToRead - 1) :=
      List.mem_range'_1.mpr (by omega)
    rcases List.mem_append.mp (hledger.mem_iff.mpr hmemk) with hk' | hk'
    · exact hk'
    · exact absurd (List.mem_singleton.mp hk') (by omega)

theorem acknowledges_inOrder {p : ℕ} {s : State}
    (h : machine.Reaches (fun s a s' => RegistersFirst p s a s' ∧ OneAtATime p s a s') s) :
    machine.Reaches (fun s a s' => JoinsEarly p s a s' ∧ InOrder p s a s') s := by
  refine (h.strengthen (P := fun s => outstanding s p ≤ 1) ?_ ?_ ?_).1
  · rintro s rfl
    exact Nat.zero_le 1
  · intro s a s' hr hone hs hok
    have he := step_effect hs
    refine ⟨hok.1.joinsEarly, ?_⟩
    rintro v slowest o rfl
    have hrun := he
    cases hrun with
    | releaser hpc _ _ =>
      have hreader := reader_of_reaches (hr.mono fun _ _ _ _ h => h.1) (by rw [hpc]; rfl)
      exact inOrder_of_outstanding hreader he hone v slowest o rfl
  · exact fun s a s' _ hone hs hok => outstanding_step hone (step_effect hs) hok.2

/-- What reader `p` sees of the bus. Its `k`-th wait is for frame `k`. -/
structure Delivered (s : State) (p : ℕ) : Prop where
  handedUp : (s.history.handedUp p).map View.sequenceId =
    List.range' 1 (s.history.handedUp p).length
  genuine : ∀ v ∈ s.history.handedUp p, v.Genuine s
  wait : s.history.waits p = (s.history.handedUp p).length + (s.process p).receiver.taken
  next : (s.process p).nextSequenceToRead = (s.history.handedUp p).length + 1
  published : s.history.waits p ≤ s.block.publishSequenceId
  noMismatch : (s.process p).receiver = .check →
    (s.block.buffer (ringSlot (s.process p).nextSequenceToRead)).sequenceId =
      (s.process p).nextSequenceToRead
  slot : ∀ k, 1 ≤ k → k ≤ s.history.waits p → k ∉ s.history.released p →
    ∃ c, s.history.drawn k = some c ∧ (s.block.buffer (ringSlot k)).Carries c k

theorem delivered {p : ℕ} {s : State}
    (h : machine.Reaches (fun s a s' => RegistersFirst p s a s' ∧ OneAtATime p s a s') s)
    {i : ClientSlot} (hi : (s.process p).engine = .running i) : Delivered s p := by
  have horder := acknowledges_inOrder h
  have howned : (s.process p).engine.owned = some i := by rw [hi]; rfl
  have hr := reader_of_reaches (horder.mono fun _ _ _ _ h => h.1) howned
  have hack := acknowledged_of_reaches horder howned
  have hlen : (s.history.handedUp p).length = (s.process p).nextSequenceToRead - 1 := by
    have := congrArg List.length hr.handedUp
    simpa using this
  have hone := hr.one_le
  have hnext := hr.next
  have htokens := hr.tokens
  have hcard := (tickets_of_reaches horder).card_posted_le i
  refine ⟨by rw [hlen]; exact hr.handedUp, hr.genuine, by omega, by omega, by omega, ?_, ?_⟩
  · intro hpc
    obtain ⟨c, -, hcar⟩ := hr.slot (tickets_of_reaches horder) (by rw [hpc]; rfl)
    exact hcar.sequenceId
  · intro k h1 hk hnew
    rw [hack.released, List.mem_range'_1] at hnew
    exact hack.guarded.intact.published k (by omega) (by omega)

def oneAtATimeTest (p : ℕ) (s : State) (a : Action) (_ : State) : Bool :=
  match a with
  | .engine q _ => decide (q ≠ p)
  | .receiver q _ => decide (q ≠ p) || match (s.process p).receiver with
    | .wait => (s.process p).unreleased.isEmpty
    | _ => true
  | _ => true

theorem oneAtATimeTest_ok {p : ℕ} {s s' : State} {a : Action}
    (h : oneAtATimeTest p s a s' = true) : RegistersFirst p s a s' ∧ OneAtATime p s a s' := by
  refine ⟨?_, ?_⟩
  · rintro o rfl
    simp [oneAtATimeTest] at h
  · rintro o rfl hpc
    simpa [oneAtATimeTest, hpc] using h

theorem registersFirst_of_quiet {p : ℕ} {s s' : State} {a : Action} (h : Quiet s)
    (ha : a.registers = true) : RegistersFirst p s a s' ∧ OneAtATime p s a s' := by
  refine ⟨fun _ _ => h, ?_⟩
  rintro o rfl
  cases ha

/-- Two readers are registered. Threads 1 and 2 draw tickets 1 and 2, and
thread 2 is the first to fill its slot. -/
theorem delivered_of_two_writers : ∃ s, (s.process 0).engine.owned = some 0 ∧
    (s.history.handedUp 0).map View.sequenceId = [1, 2] ∧
    (s.block.buffer 1).frame.data 0 = 7 ∧ (s.block.buffer 2).frame.data 0 = 9 ∧
    Delivered s 0 := by
  obtain ⟨s, hs, hgoal⟩ := reaches_after_registration
    (fun s a s' => RegistersFirst 0 s a s' ∧ OneAtATime 0 s a s') (oneAtATimeTest 0)
    (registerActions 0 0 ++ registerActions 1 1)
    (sendActions 1 4 (byteCall 7) ++ sendActions 2 30 (byteCall 9) ++
      List.replicate 43 (.sender 1 .ok) ++ List.replicate 18 (.sender 2 .ok) ++
      receiveActions 0 ++ releaseActions 0 1 ++ receiveActions 0)
    (fun s => (s.process 0).engine.runsIn 0 &&
      decide ((s.history.handedUp 0).map View.sequenceId = [1, 2] ∧
        (s.block.buffer 1).frame.data 0 = 7 ∧ (s.block.buffer 2).frame.data 0 = 9))
    (fun _ _ _ => registersFirst_of_quiet) (fun _ _ _ => oneAtATimeTest_ok) (by decide)
    (by decide +kernel)
  rw [Bool.and_eq_true, EnginePc.runsIn_iff] at hgoal
  obtain ⟨hengine, hgoal⟩ := hgoal
  obtain ⟨hseq, hfirst, hsecond⟩ := of_decide_eq_true hgoal
  exact ⟨s, by rw [hengine]; rfl, hseq, hfirst, hsecond, delivered hs hengine⟩

end CommunicationAPI.ShmEngine
