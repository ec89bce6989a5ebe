import CommunicationAPI.ShmRuns

/-!
# Waking a blocked writer

`send` scans the readers, then sets the flag, then sleeps, while
`release_frame` tests the flag before it stores. A parked writer is safe as
long as some active client has yet to compare its acknowledgement for the
newest frame: of those clients the last one to compare finds itself slowest.
-/

namespace CommunicationAPI.ShmEngine
open TransitionSystem

def Parked (s : State) (w : ℕ) : Prop := ∃ c t, s.sender w = .waitWriter c t

/-- A writer sleeps and every active client has released all published frames
and waits for the next one. -/
def Stuck (s : State) : Prop :=
  (∃ w, Parked s w) ∧ s.sem.writerWait = 0 ∧
    ∀ i, s.isActive i = true → ∃ p, (s.process p).engine = .running i ∧
      (s.process p).receiver = .wait ∧ s.sem.client i = 0 ∧ (s.process p).releasing = [] ∧
      ∀ k, s.history.joinedAt p < k → k ≤ s.block.publishSequenceId → k ∈ s.history.released p

namespace ReleasePc

def compared : ReleasePc → Option View
  | .scanActive v _ _ _ | .scanLastRead v _ _ _ _ | .store v _ => some v
  | .testBlocked _ | .readMine _ | .signal => none

def mine : ReleasePc → Option ℕ
  | .scanActive _ m _ _ | .scanLastRead _ m _ _ _ => some m
  | _ => none

theorem pending_of_compared {x : ReleasePc} {v : View} (h : x.compared = some v) :
    x.pending = some v := by
  cases x <;> simp_all [compared, pending]

end ReleasePc

structure Untested (s : State) (p : ℕ) (i : ClientSlot) : Prop where
  running : (s.process p).engine = .running i
  behind : s.lastRead i < s.block.publishSequenceId
  compared : ∀ x ∈ (s.process p).releasing, ∀ v, x.compared = some v →
    v.sequenceId ≠ s.block.publishSequenceId

/-- Writer `w` ends its scan, or gives up, while no writer is parked, and goes
to sleep only if a release is still to come. -/
def DecidesAlone (s : State) (w : ℕ) : Prop :=
  match s.sender w with
  | .scanActive _ t [] slowest any =>
    (∀ v, ¬ Parked s v) ∧ (hasRoom t slowest any = false → ∃ p i, Untested s p i)
  | .giveUp _ _ => ∀ v, ¬ Parked s v
  | _ => True

/-- The conditions under which no wake-up is lost. Frames are released one at a
time and in order, and no client comes or goes while a writer is parked. -/
def KeepsWakeups : StepCondition State Action := fun s a _ =>
  match a with
  | .sender w _ => DecidesAlone s w
  | .engine _ _ => ∀ v, ¬ Parked s v
  | .release p v => (s.process p).releasing = [] ∧
      ∀ i, (s.process p).engine = .running i →
        v.sequenceId = s.lastRead i + 1 ∧ v.sequenceId ≤ s.block.publishSequenceId
  | .releaser _ .signal o => o = .ok
  | _ => True

structure Orderly (s : State) (p : ℕ) : Prop where
  stored : ∀ i v, (s.process p).engine = .regStore i v → v ≤ s.block.publishSequenceId
  settled : ∀ i, (s.process p).engine = .regRelease i ∨ (s.process p).engine = .running i →
    s.history.joinedAt p ≤ s.lastRead i ∧ s.lastRead i ≤ s.block.publishSequenceId ∧
      ∀ k ∈ s.history.released p, k ≤ s.lastRead i
  single : (s.process p).releasing = [] ∨ ∃ x, (s.process p).releasing = [x]
  calls : ∀ i, (s.process p).engine = .running i → ∀ x ∈ (s.process p).releasing,
    (∀ v, x.pending = some v →
      v.sequenceId = s.lastRead i + 1 ∧ v.sequenceId ≤ s.block.publishSequenceId) ∧
    ∀ m, x.mine = some m → m = s.lastRead i

theorem orderly_initial (p : ℕ) : Orderly initial p :=
  ⟨by simp [initial], by simp [initial], .inl rfl, by simp [initial]⟩

theorem ReleaseMove.mine_eq {s : State} {i : ClientSlot} {x x' : ReleasePc}
    (hm : ReleaseMove s i x x') {m : ℕ} (h : x'.mine = some m) :
    x.mine = some m ∨ m = s.lastRead i := by
  cases hm <;> simp_all [ReleasePc.mine]

namespace Orderly
variable {s s' : State} {p : ℕ}

/-- A step elsewhere on the bus. -/
theorem frame (h : Orderly s p) (hw : SameWork s s' p)
    (hengine : (s'.process p).engine = (s.process p).engine)
    (hjoined : s'.history.joinedAt p = s.history.joinedAt p)
    (hread : ∀ i, (s.process p).engine.owned = some i → s'.lastRead i = s.lastRead i)
    (hpublish : s.block.publishSequenceId ≤ s'.block.publishSequenceId) : Orderly s' p := by
  constructor
  · rw [hengine]
    exact fun i v hv => (h.stored i v hv).trans hpublish
  · rw [hengine, hjoined, hw.released]
    intro i hi
    obtain ⟨hj, hp, hk⟩ := h.settled i hi
    rw [hread i (by rcases hi with hi | hi <;> rw [hi] <;> rfl)]
    exact ⟨hj, hp.trans hpublish, hk⟩
  · rw [hw.releasing]
    exact h.single
  · rw [hengine, hw.releasing]
    intro i hi x hx
    rw [hread i (by rw [hi]; rfl)]
    obtain ⟨hv, hm⟩ := h.calls i hi x hx
    exact ⟨fun v hx => ⟨(hv v hx).1, (hv v hx).2.trans hpublish⟩, hm⟩

theorem engine (h : Orderly s p) (hf : (s.process p).engine.constructing = true → Fresh s p)
    (he : EngineEffect s p s') : Orderly s' p := by
  have hreleasing := (he.sameWork p).releasing
  have hsingle : (s'.process p).releasing = [] ∨ ∃ x, (s'.process p).releasing = [x] := by
    rw [hreleasing]
    exact h.single
  cases he with
  | move pc' hm =>
    refine ⟨fun i v hv => ?_, fun i hi => ?_, hsingle, fun i hi => ?_⟩
    · have hpc : pc' = .regStore i v := by simpa using hv
      subst hpc
      generalize s.process p = x at hm
      cases hm
      exact le_rfl
    · have hpc : pc' = .regRelease i ∨ pc' = .running i := by simpa using hi
      rcases hpc with rfl | rfl <;> cases hm
    · have hpc : pc' = .running i := by simpa using hi
      subst hpc
      cases hm
  | lock pc' hpc =>
    refine ⟨fun i v hv => ?_, fun i hi => ?_, hsingle, fun i hi => ?_⟩ <;>
      rcases hpc with ⟨-, rfl⟩ | ⟨j, -, rfl⟩ <;> simp_all
  | unlock pc' hpc =>
    rcases hpc with ⟨i, hpc, rfl⟩ | ⟨hpc, rfl⟩ | ⟨hpc, rfl⟩
    · have hfresh := hf (by rw [hpc]; rfl)
      refine ⟨by simp, fun j hj => ?_, hsingle, fun j hj x hx => ?_⟩
      · have hji : i = j := by simpa using hj
        subst j
        exact h.settled i (.inl hpc)
      · rw [hreleasing, hfresh.releasing] at hx
        cases hx
    · exact ⟨by simp, by simp, hsingle, by simp⟩
    · exact ⟨by simp, by simp, hsingle, by simp⟩
  | activate i | processId i | clear i => exact ⟨by simp, by simp, hsingle, by simp⟩
  | store i v hpc =>
    have hfresh := hf (by rw [hpc]; rfl)
    refine ⟨by simp, fun j hj => ?_, hsingle, by simp⟩
    have hji : i = j := by simpa using hj
    subst j
    simpa [hfresh.released] using h.stored i v hpc

theorem receiver (h : Orderly s p) {i : ClientSlot} (he : ReceiverEffect s p i s') :
    Orderly s' p := by
  cases he with
  | move | wait | handUp =>
    exact ⟨by simpa using h.stored, by simpa using h.settled, by simpa using h.single,
      by simpa using h.calls⟩

theorem release (h : Orderly s p) {v : View} (hempty : (s.process p).releasing = [])
    (hv : ∀ i, (s.process p).engine = .running i →
      v.sequenceId = s.lastRead i + 1 ∧ v.sequenceId ≤ s.block.publishSequenceId) :
    Orderly (s.setProcess p { s.process p with
      held := (s.process p).held.erase v
      releasing := .testBlocked v :: (s.process p).releasing }) p := by
  refine ⟨by simpa using h.stored, by simpa using h.settled, .inr ⟨.testBlocked v, by
    simp [hempty]⟩, fun i hi x hx => ?_⟩
  have hi' : (s.process p).engine = .running i := by simpa using hi
  have hx' : x = .testBlocked v := by simpa [hempty] using hx
  subst hx'
  refine ⟨fun u hu => ?_, fun m hm => by cases hm⟩
  cases hu
  exact hv i hi'

theorem releaser (h : Orderly s p) {i : ClientSlot} (hi : (s.process p).engine = .running i)
    {x : ReleasePc} (hx : x ∈ (s.process p).releasing) (he : ReleaseEffect s p i x s') :
    Orderly s' p := by
  have hlist : (s.process p).releasing = [x] := by
    rcases h.single with hs | ⟨y, hs⟩
    · rw [hs] at hx
      cases hx
    · rw [hs, List.mem_singleton] at hx
      rw [hs, hx]
  obtain ⟨hpending, hmine⟩ := h.calls i hi x hx
  obtain ⟨hjoined, hpublish, hreleased⟩ := h.settled i (.inr hi)
  have hsame (j : ClientSlot) (hj : (s'.process p).engine = .running j) : j = i := by
    rw [he.engineSide.engine, hi] at hj
    cases hj
    rfl
  cases he with
  | move x' hm =>
    refine ⟨by simp [hi], by simpa using h.settled, .inr ⟨x', by simp [hlist]⟩, ?_⟩
    intro j hj y hy
    obtain rfl := hsame j hj
    have hyx : y = x' := by simpa [hlist] using hy
    subst hyx
    refine ⟨fun v hv => hpending v (hm.pending ▸ hv), fun m hv => ?_⟩
    rcases hm.mine_eq hv with hv | hv
    · exact hmine m hv
    · exact hv
  | store v slowest hv =>
    subst hv
    obtain ⟨hseq, hle⟩ := hpending v rfl
    refine ⟨by simp [hi], fun j hj => ?_, ?_, fun j hj y hy => ?_⟩
    · have hji : i = j := by simpa [hi] using hj
      subst j
      refine ⟨by simp; omega, by simpa using hle, fun k hk => ?_⟩
      simp only [State.setReleasing, State.setProcess, Function.update_self, List.mem_append,
        List.mem_singleton] at hk
      have hlast : k ≤ v.sequenceId := by
        rcases hk with hk | rfl
        · have := hreleased k hk
          omega
        · exact le_rfl
      simpa using hlast
    · cases slowest <;> simp [hlist]
    · have hy' : y = .signal := by
        cases slowest with
        | false => simp [hlist] at hy
        | true => simpa [hlist] using hy
      subst hy'
      simp [ReleasePc.pending, ReleasePc.mine]
  | signal hv | signalFail hv =>
    subst hv
    exact ⟨by simp [hi], by simpa using h.settled, by simp [hlist], by simp [hlist]⟩

end Orderly

theorem orderly_of_reaches {s : State} (h : machine.Reaches KeepsWakeups s) (p : ℕ) :
    Orderly s p := by
  refine h.invariant (P := fun s => Orderly s p) (fun s hs => ?_) fun s a s' hr ih hs hok => ?_
  · cases hs
    exact orderly_initial p
  have he := step_effect hs
  by_cases ha : a.process = some p
  · cases he with
    | send | sender => cases ha
    | construct _ he | destroy _ he | engine he =>
      cases ha
      exact ih.engine (fresh_of_constructing hr) he
    | stop =>
      cases ha
      exact ⟨by simpa using ih.stored, by simpa using ih.settled, by simpa using ih.single,
        by simpa using ih.calls⟩
    | receiver _ he =>
      cases ha
      exact ih.receiver he
    | release =>
      cases ha
      exact ih.release hok.1 hok.2
    | releaser hi hx he =>
      cases ha
      exact ih.releaser hi hx he
  · obtain ⟨hengine, hjoined⟩ := he.engine_eq ha
    have hw := he.sameWork ha
    cases hq : a.process with
    | none =>
      obtain ⟨w, he⟩ := he.sender_of_none hq
      exact ih.frame hw hengine hjoined (fun i _ => by simp [he.readerSide.registry])
        (he.publish_mono (tickets_of_reaches hr))
    | some q =>
      refine ih.frame hw hengine hjoined (fun i hi => ?_) (he.senderSide hq).publish.ge
      have := (he.entry (registry_of_reaches hr) hq (fun hqp => ha (by rw [hq, hqp])) hi).1
      simp [this]

end CommunicationAPI.ShmEngine
