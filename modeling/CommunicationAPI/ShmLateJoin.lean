import CommunicationAPI.ShmRuns

/-!
# Joining a running stream

Registration stores the publish counter as the client's acknowledgement, but
the receiver thread of the NIC always starts at ticket 1. The two agree for a
client that registers before the first publication only.
-/

namespace CommunicationAPI.ShmEngine
open TransitionSystem

/-- Process `p` receives the stream that begins after its registration. -/
structure StreamsFromJoin (s : State) (p : ℕ) : Prop where
  handedUp : (s.history.handedUp p).map View.sequenceId =
    List.range' (s.history.joinedAt p + 1) (s.history.handedUp p).length
  noMismatch : ∀ i, (s.process p).engine = .running i → (s.process p).receiver = .check →
    (s.block.buffer (ringSlot (s.process p).nextSequenceToRead)).sequenceId =
      (s.process p).nextSequenceToRead
  floor : ∀ i, (s.process p).engine.owned = some i → s.history.joinedAt p ≤ s.lastRead i

theorem Reader.streamsFromJoin {s : State} {p : ℕ} {i : ClientSlot} (h : Reader s p i)
    (ht : Tickets s) : StreamsFromJoin s p := by
  refine ⟨?_, fun j _ hpc => ?_, fun j _ => ?_⟩
  · have hlen := congrArg List.length h.handedUp
    rw [List.length_map, List.length_range'] at hlen
    rw [h.joinedAt, hlen]
    exact h.handedUp
  · obtain ⟨c, -, hcar⟩ := h.slot ht (by rw [hpc]; rfl)
    exact hcar.sequenceId
  · rw [h.joinedAt]
    exact Nat.zero_le _

/-- A process without an entry neither receives nor registers in the step
that leaves it without one. -/
theorem StepEffect.unowned {s s' : State} {a : Action} (h : StepEffect s a s') {p : ℕ}
    (hp : (s'.process p).engine.owned = none) :
    s'.history.handedUp p = s.history.handedUp p ∧
      s'.history.joinedAt p = s.history.joinedAt p := by
  by_cases ha : a.process = some p
  · cases h with
    | send | sender => cases ha
    | construct _ he | destroy _ he | engine he =>
      cases ha
      refine ⟨(he.sameWork p).handedUp, ?_⟩
      cases he with
      | store => simp [EnginePc.owned] at hp
      | _ => rfl
    | stop | release =>
      cases ha
      exact ⟨rfl, rfl⟩
    | receiver hj he =>
      cases ha
      rw [he.engineSide.engine, hj] at hp
      cases hp
    | releaser hj _ he =>
      cases ha
      rw [he.engineSide.engine, hj] at hp
      cases hp
  · exact ⟨(h.sameWork ha).handedUp, (h.engine_eq ha).2⟩

theorem streamsFromJoin_of_joinsEarly {p : ℕ} {s : State}
    (h : machine.Reaches (JoinsEarly p) s) : StreamsFromJoin s p := by
  induction h with
  | init hi =>
    cases hi
    exact ⟨rfl, by simp [initial], by simp [initial, EnginePc.owned]⟩
  | @step s s' a hr hs hjoin ih =>
    have hr' := hr.step hs hjoin
    cases hi : (s'.process p).engine.owned with
    | some i => exact (reader_of_reaches hr' hi).streamsFromJoin (tickets_of_reaches hr')
    | none =>
      obtain ⟨hhanded, hjoined⟩ := (step_effect hs).unowned hi
      refine ⟨?_, fun i hrun => ?_, fun i hrun => ?_⟩
      · rw [hhanded, hjoined]
        exact ih.handedUp
      · rw [hrun] at hi
        cases hi
      · rw [hi] at hrun
        cases hrun

def joinsEarlyTest (p : ℕ) (_ : State) (a : Action) (_ : State) : Bool :=
  match a with
  | .engine q _ => decide (q ≠ p)
  | _ => true

theorem joinsEarlyTest_ok {p : ℕ} {s s' : State} {a : Action}
    (h : joinsEarlyTest p s a s' = true) : JoinsEarly p s a s' := by
  rintro o rfl
  simp [joinsEarlyTest] at h

theorem streamsFromJoin_of_two_sends : ∃ s,
    (s.history.handedUp 0).map View.sequenceId = [1, 2] ∧ StreamsFromJoin s 0 := by
  obtain ⟨s, hs, hgoal⟩ := reaches_after_registration
    (JoinsEarly 0) (joinsEarlyTest 0) (registerActions 0 0)
    (sendActions 1 46 (byteCall 7) ++ sendActions 2 46 (byteCall 9) ++
      receiveActions 0 ++ receiveActions 0)
    (fun s => decide ((s.history.handedUp 0).map View.sequenceId = [1, 2]))
    (fun _ _ s' h _ => h.joinsEarly s' 0) (fun _ _ _ => joinsEarlyTest_ok) (by decide)
    (by decide +kernel)
  exact ⟨s, of_decide_eq_true hgoal, streamsFromJoin_of_joinsEarly hs⟩

def lateJoinRun : List Action :=
  sendActions 1 45 (byteCall 7) ++ registerActions 0 0 ++ sendActions 1 46 (byteCall 9) ++
    receiveActions 0

/-- The client that joined at 1 is handed frame 1. -/
theorem not_streamsFromJoin_lateJoinRun : ∃ s, machine.exec initial lateJoinRun = some s ∧
    machine.Reachable s ∧ s.history.joinedAt 0 = 1 ∧
    (s.history.handedUp 0).map View.sequenceId = [1] ∧ ¬ StreamsFromJoin s 0 := by
  obtain ⟨s, hexec, hs, hgoal⟩ := reachable_initial.exec_any lateJoinRun
    (fun s => decide (s.history.joinedAt 0 = 1 ∧
      (s.history.handedUp 0).map View.sequenceId = [1])) (by decide +kernel)
  obtain ⟨hjoined, hseq⟩ := of_decide_eq_true hgoal
  refine ⟨s, hexec, hs, hjoined, hseq, fun h => ?_⟩
  have hlen := congrArg List.length hseq
  rw [List.length_map] at hlen
  have := h.handedUp
  rw [hseq, hjoined, hlen] at this
  simp at this

end CommunicationAPI.ShmEngine
