import CommunicationAPI.ShmWindow

/-!
# The client registry

The registration lock gives every active entry at most one owner, and an entry
about to be activated is inactive.
-/

namespace CommunicationAPI.ShmEngine
open BinarySemaphore

namespace EnginePc

def owned : EnginePc → Option ClientSlot
  | .regProcessId i | .regLoad i | .regStore i _ | .regRelease i | .running i
  | .deregAcquire i | .deregClear i => some i
  | _ => none

/-- The process is inside the section guarded by `REGISTRY_SEM`. -/
def locks : EnginePc → Bool
  | .regScan _ | .regActivate _ | .regProcessId _ | .regLoad _ | .regStore _ _ | .regRelease _
  | .regFail | .deregClear _ | .deregRelease => true
  | _ => false

def constructing : EnginePc → Bool
  | .unattached | .regAcquire | .regScan _ | .regActivate _ | .regProcessId _ | .regLoad _
  | .regStore _ _ | .regRelease _ | .regFail => true
  | _ => false

end EnginePc

namespace EngineMove
variable {s : State} {x : Process} {pc' : EnginePc}

theorem owned (h : EngineMove s x pc') : pc'.owned = x.engine.owned ∨ pc'.owned = none := by
  cases h <;> simp_all [EnginePc.owned]

theorem locks (h : EngineMove s x pc') : pc'.locks = true → x.engine.locks = true := by
  cases h <;> simp_all [EnginePc.locks]

theorem constructing (h : EngineMove s x pc') :
    pc'.constructing = true → x.engine.constructing = true := by
  cases h <;> simp_all [EnginePc.constructing]

theorem found (h : EngineMove s x pc') {i : ClientSlot} (hpc : pc' = .regActivate i) :
    s.isActive i = false := by
  cases h <;> cases hpc
  assumption

end EngineMove

structure Registry (s : State) : Prop where
  exclusive : Exclusive s.sem.registry fun p => (s.process p).engine.locks = true
  active : ∀ p i, (s.process p).engine.owned = some i → s.isActive i = true
  unique : ∀ p q i, (s.process p).engine.owned = some i →
    (s.process q).engine.owned = some i → p = q
  found : ∀ p i, (s.process p).engine = .regActivate i → s.isActive i = false

theorem registry_initial : Registry initial where
  exclusive := .start (by simp [initial, EnginePc.locks])
  active := by simp [initial, EnginePc.owned]
  unique := by simp [initial, EnginePc.owned]
  found := by simp [initial]

structure EngineSide (s s' : State) : Prop where
  engine : ∀ p, (s'.process p).engine = (s.process p).engine
  isActive : ∀ i, s'.isActive i = s.isActive i
  registrySem : s'.sem.registry = s.sem.registry

theorem ReaderSide.engineSide {s s' : State} (h : ReaderSide s s') : EngineSide s s' :=
  ⟨fun p => by rw [h.process], fun i => by simp [h.registry], h.registrySem⟩

theorem engineSide_setProcess (s : State) (p : ℕ) (x : Process)
    (hx : x.engine = (s.process p).engine) : EngineSide s (s.setProcess p x) := by
  refine ⟨fun q => ?_, fun _ => rfl, rfl⟩
  by_cases hqp : q = p
  · subst q
    simpa using hx
  · simp [hqp]

theorem ReceiverEffect.engineSide {s s' : State} {p : ℕ} {i : ClientSlot}
    (h : ReceiverEffect s p i s') : EngineSide s s' := by
  cases h with
  | move pc' => exact engineSide_setProcess s p _ rfl
  | wait => exact { engineSide_setProcess s p { s.process p with receiver := .check } rfl with }
  | handUp protocol =>
    exact { engineSide_setProcess s p { s.process p with
      receiver := .loop
      nextSequenceToRead := (s.process p).nextSequenceToRead + 1
      held := viewOf s (s.process p) protocol :: (s.process p).held } rfl with }

theorem ReleaseEffect.engineSide {s s' : State} {p : ℕ} {i : ClientSlot} {x : ReleasePc}
    (h : ReleaseEffect s p i x s') : EngineSide s s' := by
  have other (x' : Option ReleasePc) : EngineSide s (s.setReleasing p x x') :=
    engineSide_setProcess s p _ rfl
  cases h with
  | move x' => exact other _
  | signal => exact { other none with }
  | signalFail => exact other none
  | store v slowest =>
    refine { other (if slowest then some .signal else none) with isActive := fun j => ?_ }
    by_cases hji : j = i
    · subst j
      simp
    · simp [hji]

theorem Registry.side {s s' : State} (h : Registry s) (hs : EngineSide s s') : Registry s' where
  exclusive := by
    rw [hs.registrySem]
    exact h.exclusive.shrink fun p hp => by rwa [hs.engine] at hp
  active p i hp := by rw [hs.isActive]; exact h.active p i (hs.engine p ▸ hp)
  unique p q i hp hq := h.unique p q i (hs.engine p ▸ hp) (hs.engine q ▸ hq)
  found p i hp := by rw [hs.isActive]; exact h.found p i (hs.engine p ▸ hp)

theorem engine_setEngine (s : State) (p q : ℕ) (pc : EnginePc) :
    ((s.setEngine p pc).process q).engine = if q = p then pc else (s.process q).engine := by
  by_cases hqp : q = p
  · subst q
    simp
  · simp [hqp]

/-- A process that moves without taking over or clearing an entry. -/
theorem Registry.relabel {s : State} (h : Registry s) (p n : ℕ) (pc : EnginePc)
    (howned : pc.owned = (s.process p).engine.owned ∨ pc.owned = none)
    (hfound : ∀ i, pc = .regActivate i → s.isActive i = false)
    (hexcl : Exclusive n fun q =>
      (if q = p then pc else (s.process q).engine).locks = true) :
    Registry ({ s with sem.registry := n }.setEngine p pc) := by
  have hown (q : ℕ) (i : ClientSlot)
      (hq : (if q = p then pc else (s.process q).engine).owned = some i) :
      (s.process q).engine.owned = some i := by
    split_ifs at hq with hqp
    · subst q
      rcases howned with he | he <;> rw [he] at hq
      · exact hq
      · cases hq
    · exact hq
  constructor
  · refine hexcl.shrink fun q hq => ?_
    rwa [engine_setEngine] at hq
  · intro q i hq
    rw [engine_setEngine] at hq
    exact h.active q i (hown q i hq)
  · intro q q' i hq hq'
    rw [engine_setEngine] at hq hq'
    exact h.unique q q' i (hown q i hq) (hown q' i hq')
  · intro q i hq
    rw [engine_setEngine] at hq
    split_ifs at hq with hqp
    · exact hfound i hq
    · exact h.found q i hq

theorem isActive_setClient (s : State) (i j : ClientSlot) (c : ClientState) :
    (s.setClient i c).isActive j = if j = i then c.isActive else s.isActive j := by
  by_cases hji : j = i
  · subst j
    simp
  · simp [hji]

/-- The lock passes to no one when a process moves on inside its section. -/
theorem Registry.exclusive_setEngine {s t : State} (h : Registry s) {p : ℕ} {pc : EnginePc}
    (ht : t.process = s.process) (hsem : t.sem.registry = s.sem.registry)
    (hpc : pc.locks = true → (s.process p).engine.locks = true) :
    Exclusive (t.setEngine p pc).sem.registry fun q =>
      ((t.setEngine p pc).process q).engine.locks = true := by
  change Exclusive t.sem.registry _
  rw [hsem]
  refine h.exclusive.shrink fun q hq => ?_
  rw [engine_setEngine, ht] at hq
  split_ifs at hq with hqp
  · exact hqp ▸ hpc hq
  · exact hq

theorem Registry.activate {s : State} (h : Registry s) {p : ℕ} {i : ClientSlot}
    (hpc : (s.process p).engine = .regActivate i) :
    Registry ((s.setClient i { s.block.clientRegistry i with isActive := true }).setEngine p
      (.regProcessId i)) := by
  have hlock : (s.process p).engine.locks = true := by simp [hpc, EnginePc.locks]
  have hinactive := h.found p i hpc
  have hisActive (j : ClientSlot) : ((s.setClient i { s.block.clientRegistry i with
      isActive := true }).setEngine p (.regProcessId i)).isActive j =
        if j = i then true else s.isActive j := isActive_setClient s i j _
  have hown (q : ℕ) (j : ClientSlot) (hq : (if q = p then EnginePc.regProcessId i
      else (s.process q).engine).owned = some j) :
      q = p ∧ j = i ∨ q ≠ p ∧ j ≠ i ∧ (s.process q).engine.owned = some j := by
    split_ifs at hq with hqp
    · exact .inl ⟨hqp, by simpa [EnginePc.owned, eq_comm] using hq⟩
    · refine .inr ⟨hqp, ?_, hq⟩
      rintro rfl
      have := h.active q j hq
      rw [hinactive] at this
      cases this
  constructor
  · exact h.exclusive_setEngine rfl rfl fun _ => hlock
  · intro q j hq
    rw [engine_setEngine] at hq
    rw [hisActive]
    rcases hown q j hq with ⟨-, rfl⟩ | ⟨-, hji, hq⟩
    · simp
    · rw [if_neg hji]
      exact h.active q j hq
  · intro q q' j hq hq'
    rw [engine_setEngine] at hq hq'
    rcases hown q j hq with ⟨rfl, rfl⟩ | ⟨-, hji, hq⟩ <;>
      rcases hown q' _ hq' with ⟨rfl, hj⟩ | ⟨-, hji', hq'⟩
    · rfl
    · exact absurd rfl hji'
    · exact absurd hj hji
    · exact h.unique q q' j hq hq'
  · intro q j hq
    rw [engine_setEngine] at hq
    split_ifs at hq with hqp
    -- the lock excludes a second process that is about to activate an entry
    change (s.process q).engine = .regActivate j at hq
    exact absurd (h.exclusive.unique q p (by simp [hq, EnginePc.locks]) hlock) hqp

theorem Registry.clear {s : State} (h : Registry s) {p : ℕ} {i : ClientSlot}
    (hpc : (s.process p).engine = .deregClear i) :
    Registry ((s.setClient i { s.block.clientRegistry i with isActive := false }).setEngine p
      .deregRelease) := by
  have hisActive (j : ClientSlot) : ((s.setClient i { s.block.clientRegistry i with
      isActive := false }).setEngine p .deregRelease).isActive j =
        if j = i then false else s.isActive j := isActive_setClient s i j _
  have hown (q : ℕ) (j : ClientSlot) (hq : (if q = p then EnginePc.deregRelease
      else (s.process q).engine).owned = some j) :
      q ≠ p ∧ (s.process q).engine.owned = some j := by
    split_ifs at hq with hqp
    · cases hq
    · exact ⟨hqp, hq⟩
  constructor
  · exact h.exclusive_setEngine rfl rfl fun _ => by simp [hpc, EnginePc.locks]
  · intro q j hq
    rw [engine_setEngine] at hq
    obtain ⟨hqp, hold⟩ := hown q j hq
    have hji : j ≠ i := by
      rintro rfl
      exact hqp (h.unique q p j hold (by rw [hpc]; rfl))
    rw [hisActive, if_neg hji]
    exact h.active q j hold
  · intro q q' j hq hq'
    rw [engine_setEngine] at hq hq'
    exact h.unique q q' j (hown q j hq).2 (hown q' j hq').2
  · intro q j hq
    rw [engine_setEngine] at hq
    rw [hisActive]
    split_ifs at hq ⊢
    · rfl
    · exact h.found q j hq

theorem Registry.effect {s s' : State} (h : Registry s) {p : ℕ} (he : EngineEffect s p s') :
    Registry s' := by
  have others (pc : EnginePc) (hpc : pc.locks = true → (s.process p).engine.locks = true) (q : ℕ)
      (hq : (if q = p then pc else (s.process q).engine).locks = true) :
      (s.process q).engine.locks = true := by
    split_ifs at hq with hqp
    · exact hqp ▸ hpc hq
    · exact hq
  have keep (pc : EnginePc) (howned : pc.owned = (s.process p).engine.owned)
      (hlocks : (s.process p).engine.locks = true) (hpc : ∀ i, pc ≠ .regActivate i) :
      Registry (s.setEngine p pc) :=
    h.relabel p _ pc (.inl howned) (fun i hi => absurd hi (hpc i))
      (h.exclusive.shrink (others pc fun _ => hlocks))
  cases he with
  | move pc' hm =>
    exact h.relabel p _ pc' hm.owned (fun i hi => hm.found hi)
      (h.exclusive.shrink (others pc' hm.locks))
  | lock pc' hpc hs =>
    refine h.relabel p _ pc' ?_ ?_ (h.exclusive.acquire hs p fun q hq => ?_)
    · rcases hpc with ⟨-, rfl⟩ | ⟨i, hi, rfl⟩
      · exact .inr rfl
      · exact .inl (by rw [hi]; rfl)
    · rcases hpc with ⟨-, rfl⟩ | ⟨i, -, rfl⟩ <;> simp
    · by_contra hqp
      exact h.exclusive.free hs q (by simpa [hqp] using hq)
  | unlock pc' hpc =>
    have hlocks : pc'.locks = false ∧ (s.process p).engine.locks = true ∧
        (pc'.owned = (s.process p).engine.owned ∨ pc'.owned = none) ∧
        ∀ i, pc' ≠ .regActivate i := by
      rcases hpc with ⟨i, hi, rfl⟩ | ⟨hi, rfl⟩ | ⟨hi, rfl⟩ <;>
        simp [hi, EnginePc.locks, EnginePc.owned]
    refine h.relabel p _ pc' hlocks.2.2.1 (fun i hi => absurd hi (hlocks.2.2.2 i))
      (h.exclusive.release (x := p) hlocks.2.1 fun q hq => ?_)
    split_ifs at hq with hqp
    · simp [hlocks.1] at hq
    · exact ⟨hq, hqp⟩
  | processId i hpc =>
    have hbase := keep (.regLoad i) (by rw [hpc]; rfl) (by simp [hpc, EnginePc.locks]) (by simp)
    refine hbase.side ⟨fun q => rfl, fun j => ?_, rfl⟩
    exact (isActive_setClient s i j _).trans (by split_ifs with hji <;> simp [hji])
  | store i v hpc =>
    have hbase := keep (.regRelease i) (by rw [hpc]; rfl) (by simp [hpc, EnginePc.locks]) (by simp)
    refine hbase.side ⟨fun q => rfl, fun j => ?_, rfl⟩
    exact (isActive_setClient s i j _).trans (by split_ifs with hji <;> simp [hji])
  | activate i hpc => exact h.activate hpc
  | clear i hpc => exact h.clear hpc

/-- What a step does to the registry. -/
theorem StepEffect.engine_or_side {s s' : State} {a : Action} (h : StepEffect s a s') :
    (∃ p, EngineEffect s p s') ∨ EngineSide s s' := by
  cases h with
  | send _ he | sender he => exact .inr he.readerSide.engineSide
  | construct _ he | destroy _ he | engine he => exact .inl ⟨_, he⟩
  | receiver _ he => exact .inr he.engineSide
  | releaser _ _ he => exact .inr he.engineSide
  | stop => exact .inr (engineSide_setProcess _ _ _ rfl)
  | release => exact .inr (engineSide_setProcess _ _ _ rfl)

theorem Registry.step {s s' : State} {a : Action} (h : Registry s) (hs : StepEffect s a s') :
    Registry s' := by
  rcases hs.engine_or_side with ⟨p, he⟩ | hside
  · exact h.effect he
  · exact h.side hside

theorem registry_of_reaches {ok : TransitionSystem.StepCondition State Action} {s : State}
    (h : machine.Reaches ok s) : Registry s := by
  apply h.invariant
  · exact fun _ hi => hi ▸ registry_initial
  · exact fun _ _ _ _ hr hs _ => hr.step (step_effect hs)

end CommunicationAPI.ShmEngine
