import CommunicationAPI.ShmEngine

/-!
# What one step of the ring can do

Each kind of step is inverted once. Later modules only use the cases listed
here and never unfold the step function.
-/

namespace CommunicationAPI.ShmEngine

attribute [simp] State.isActive State.lastRead State.setSender State.setProcess State.setEngine
  State.setReceiver State.setReleasing State.setClient State.setBlocked

/-- Steps of `send` that change nothing but the thread's own position and the
blocked flag. -/
inductive LocalMove (s : State) : SendPc → SendPc → Prop
  | call (c) : LocalMove s .idle (.acquireClaim c)
  | acquireFail (c) : LocalMove s (.acquireClaim c) .idle
  | read (c) : LocalMove s (.readClaim c) (.writeClaim c s.block.claimSequenceId)
  | releaseFail (c t) : LocalMove s (.releaseClaim c t) .idle
  | scanSkip (c t i todo slowest any) : s.isActive i = false →
      LocalMove s (.scanActive c t (i :: todo) slowest any) (.scanActive c t todo slowest any)
  | scanHit (c t i todo slowest any) : s.isActive i = true →
      LocalMove s (.scanActive c t (i :: todo) slowest any) (.scanLastRead c t i todo slowest)
  | scanRead (c t i todo slowest) :
      LocalMove s (.scanLastRead c t i todo slowest)
        (.scanActive c t todo (min slowest (s.lastRead i)) true)
  | pass (c t slowest any) : hasRoom t slowest any = true →
      LocalMove s (.scanActive c t [] slowest any) (.write c t (c.stores t))
  | block (c t slowest any) : hasRoom t slowest any = false →
      LocalMove s (.scanActive c t [] slowest any) (.waitWriter c t)
  | interrupt (c t) : LocalMove s (.waitWriter c t) (startScan c t)
  | waitFail (c t) : LocalMove s (.waitWriter c t) (.giveUp c t)
  | giveUp (c t) : LocalMove s (.giveUp c t) .idle
  | notifySkip (c t i todo ops) : s.isActive i = false →
      LocalMove s (.notifyScan c t (i :: todo) ops) (.notifyScan c t todo ops)
  | notifyHit (c t i todo ops) : s.isActive i = true →
      LocalMove s (.notifyScan c t (i :: todo) ops) (.notifyScan c t todo (ops ++ [i]))
  | notifyFail (c t ops) : LocalMove s (.notifyScan c t [] ops) .idle

def SendPc.flagAfter (blocked : Bool) : SendPc → SendPc → Bool
  | .scanActive _ _ [] _ _, .write _ _ _ => false
  | .scanActive _ _ [] _ _, .waitWriter _ _ => true
  | .giveUp _ _, _ => false
  | _, _ => blocked

inductive SenderEffect (s : State) (w : ℕ) : State → Prop
  | stutter : SenderEffect s w s
  | move (pc') (b : Bool) : LocalMove s (s.sender w) pc' →
      b = (s.sender w).flagAfter s.block.writerIsBlocked pc' →
      SenderEffect s w ((s.setBlocked b).setSender w pc')
  | acquire (c) : s.sender w = .acquireClaim c → 0 < s.sem.claim →
      SenderEffect s w ({ s with sem.claim := s.sem.claim - 1 }.setSender w (.readClaim c))
  | draw (c t) : s.sender w = .writeClaim c t →
      SenderEffect s w ({ s with
        block.claimSequenceId := t + 1
        history.drawn := Function.update s.history.drawn t (some c) }.setSender w
          (.releaseClaim c t))
  | release (c t) : s.sender w = .releaseClaim c t →
      SenderEffect s w ({ s with sem.claim := s.sem.claim + 1 }.setSender w (startScan c t))
  | wake (c t) : s.sender w = .waitWriter c t → 0 < s.sem.writerWait →
      SenderEffect s w
        ({ s with sem.writerWait := s.sem.writerWait - 1 }.setSender w (startScan c t))
  | store (c t st todo) : s.sender w = .write c t (st :: todo) →
      SenderEffect s w ({ s with
        block.buffer := Function.update s.block.buffer (ringSlot t)
          (st.apply (s.block.buffer (ringSlot t))) }.setSender w (.write c t todo))
  | publish (c t) : s.sender w = .write c t [] → s.block.publishSequenceId = t - 1 →
      SenderEffect s w
        ({ s with block.publishSequenceId := t }.setSender w (.notifyScan c t allClients []))
  | notify (c t ops) : s.sender w = .notifyScan c t [] ops →
      SenderEffect s w ({ s with
        sem.client := fun i => if i ∈ ops then s.sem.client i + 1 else s.sem.client i
        history.posted := fun i =>
          if i ∈ ops then insert t (s.history.posted i) else s.history.posted i }.setSender w .idle)

theorem senderStep_effect {s s' : State} {w : ℕ} {o : Outcome} (h : senderStep s w o = some s') :
    SenderEffect s w s' := by
  have local_move (pc pc' : SendPc) (hpc : s.sender w = pc) (hm : LocalMove s pc pc')
      (hb : s.block.writerIsBlocked = pc.flagAfter s.block.writerIsBlocked pc') :
      SenderEffect s w (s.setSender w pc') :=
    .move pc' s.block.writerIsBlocked (hpc ▸ hm) (hpc ▸ hb)
  cases hpc : s.sender w with
  | idle => simp [senderStep, hpc] at h
  | acquireClaim c =>
    simp only [senderStep, hpc] at h
    split_ifs at h with ho hs <;> cases h
    · exact .acquire c hpc hs
    · exact local_move _ _ hpc (.acquireFail c) rfl
  | readClaim c =>
    simp only [senderStep, hpc] at h
    cases h
    exact local_move _ _ hpc (.read c) rfl
  | writeClaim c t =>
    simp only [senderStep, hpc] at h
    cases h
    exact .draw c t hpc
  | releaseClaim c t =>
    simp only [senderStep, hpc] at h
    split_ifs at h <;> cases h
    · exact .release c t hpc
    · exact local_move _ _ hpc (.releaseFail c t) rfl
  | scanActive c t todo slowest any =>
    cases todo with
    | nil =>
      simp only [senderStep, hpc] at h
      split_ifs at h with hr <;> cases h
      · exact .move _ false (hpc ▸ .pass c t slowest any hr) (by rw [hpc]; rfl)
      · exact .move _ true (hpc ▸ .block c t slowest any (by simpa using hr)) (by rw [hpc]; rfl)
    | cons i todo =>
      simp only [senderStep, hpc] at h
      split_ifs at h with ha <;> cases h
      · exact local_move _ _ hpc (.scanHit c t i todo slowest any ha) rfl
      · exact local_move _ _ hpc (.scanSkip c t i todo slowest any (by simpa using ha)) rfl
  | scanLastRead c t i todo slowest =>
    simp only [senderStep, hpc] at h
    cases h
    exact local_move _ _ hpc (.scanRead c t i todo slowest) rfl
  | waitWriter c t =>
    cases o <;> simp only [senderStep, hpc] at h
    · split_ifs at h with hs
      cases h
      exact .wake c t hpc hs
    · cases h
      exact local_move _ _ hpc (.interrupt c t) rfl
    · cases h
      exact local_move _ _ hpc (.waitFail c t) rfl
  | giveUp c t =>
    simp only [senderStep, hpc] at h
    cases h
    exact .move _ false (hpc ▸ .giveUp c t) (by rw [hpc]; rfl)
  | write c t todo =>
    cases todo with
    | nil =>
      simp only [senderStep, hpc] at h
      split_ifs at h with hc <;> cases h
      · exact .publish c t hpc hc.2
      · exact .stutter
    | cons st todo =>
      simp only [senderStep, hpc] at h
      cases h
      exact .store c t st todo hpc
  | notifyScan c t todo ops =>
    cases todo with
    | nil =>
      simp only [senderStep, hpc] at h
      split_ifs at h <;> cases h
      · exact .notify c t ops hpc
      · exact local_move _ _ hpc (.notifyFail c t ops) rfl
    | cons i todo =>
      simp only [senderStep, hpc] at h
      split_ifs at h with ha <;> cases h
      · exact local_move _ _ hpc (.notifyHit c t i todo ops ha) rfl
      · exact local_move _ _ hpc (.notifySkip c t i todo ops (by simpa using ha)) rfl

/-- Steps of the engine's constructor and destructor that touch only the
process itself. -/
inductive EngineMove (s : State) (x : Process) : EnginePc → Prop
  | construct : x.engine = .unattached → EngineMove s x .regAcquire
  | acquireFail : x.engine = .regAcquire → EngineMove s x .gone
  | scanSkip (i todo) : x.engine = .regScan (i :: todo) → s.isActive i = true →
      EngineMove s x (.regScan todo)
  | scanFound (i todo) : x.engine = .regScan (i :: todo) → s.isActive i = false →
      EngineMove s x (.regActivate i)
  | scanNone : x.engine = .regScan [] → EngineMove s x .regFail
  | load (i) : x.engine = .regLoad i → EngineMove s x (.regStore i s.block.publishSequenceId)
  | releaseFail (i) : x.engine = .regRelease i → EngineMove s x .gone
  | failFail : x.engine = .regFail → EngineMove s x .gone
  | destroy (i) : x.engine = .running i → x.receiver = .stopped → x.releasing = [] →
      EngineMove s x (.deregAcquire i)
  | deregFail (i) : x.engine = .deregAcquire i → EngineMove s x .gone
  | clearFail : x.engine = .deregRelease → EngineMove s x .gone

inductive EngineEffect (s : State) (p : ℕ) : State → Prop
  | move (pc') : EngineMove s (s.process p) pc' → EngineEffect s p (s.setEngine p pc')
  | lock (pc') : (s.process p).engine = .regAcquire ∧ pc' = .regScan allClients ∨
      (∃ i, (s.process p).engine = .deregAcquire i ∧ pc' = .deregClear i) → 0 < s.sem.registry →
      EngineEffect s p ({ s with sem.registry := s.sem.registry - 1 }.setEngine p pc')
  | unlock (pc') : (∃ i, (s.process p).engine = .regRelease i ∧ pc' = .running i) ∨
      (s.process p).engine = .regFail ∧ pc' = .gone ∨
      (s.process p).engine = .deregRelease ∧ pc' = .gone →
      EngineEffect s p ({ s with sem.registry := s.sem.registry + 1 }.setEngine p pc')
  | activate (i) : (s.process p).engine = .regActivate i →
      EngineEffect s p ((s.setClient i { s.block.clientRegistry i with isActive := true }).setEngine p
        (.regProcessId i))
  | processId (i) : (s.process p).engine = .regProcessId i →
      EngineEffect s p ((s.setClient i { s.block.clientRegistry i with processId := p }).setEngine p
        (.regLoad i))
  | store (i v) : (s.process p).engine = .regStore i v →
      EngineEffect s p ({ s.setClient i
          { s.block.clientRegistry i with lastReadSequenceId := v } with
        history.joinedAt := Function.update s.history.joinedAt p v }.setEngine p (.regRelease i))
  | clear (i) : (s.process p).engine = .deregClear i →
      EngineEffect s p ((s.setClient i { s.block.clientRegistry i with isActive := false }).setEngine
        p .deregRelease)

theorem engineStep_effect {s s' : State} {p : ℕ} {o : Outcome} (h : engineStep s p o = some s') :
    EngineEffect s p s' := by
  cases hpc : (s.process p).engine with
  | unattached | gone => simp [engineStep, hpc] at h
  | running i => simp [engineStep, hpc] at h
  | regAcquire =>
    simp only [engineStep, hpc] at h
    split_ifs at h with ho hs <;> cases h
    · exact .lock _ (.inl ⟨hpc, rfl⟩) hs
    · exact .move _ (.acquireFail hpc)
  | regScan todo =>
    cases todo with
    | nil =>
      simp only [engineStep, hpc] at h
      cases h
      exact .move _ (.scanNone hpc)
    | cons i todo =>
      simp only [engineStep, hpc] at h
      split_ifs at h with ha <;> cases h
      · exact .move _ (.scanSkip i todo hpc ha)
      · exact .move _ (.scanFound i todo hpc (by simpa using ha))
  | regActivate i =>
    simp only [engineStep, hpc] at h
    cases h
    exact .activate i hpc
  | regProcessId i =>
    simp only [engineStep, hpc] at h
    cases h
    exact .processId i hpc
  | regLoad i =>
    simp only [engineStep, hpc] at h
    cases h
    exact .move _ (.load i hpc)
  | regStore i v =>
    simp only [engineStep, hpc] at h
    cases h
    exact .store i v hpc
  | regRelease i =>
    simp only [engineStep, hpc] at h
    split_ifs at h <;> cases h
    · exact .unlock _ (.inl ⟨i, hpc, rfl⟩)
    · exact .move _ (.releaseFail i hpc)
  | regFail =>
    simp only [engineStep, hpc] at h
    split_ifs at h <;> cases h
    · exact .unlock _ (.inr (.inl ⟨hpc, rfl⟩))
    · exact .move _ (.failFail hpc)
  | deregAcquire i =>
    simp only [engineStep, hpc] at h
    split_ifs at h with ho hs <;> cases h
    · exact .lock _ (.inr ⟨i, hpc, rfl⟩) hs
    · exact .move _ (.deregFail i hpc)
  | deregClear i =>
    simp only [engineStep, hpc] at h
    cases h
    exact .clear i hpc
  | deregRelease =>
    simp only [engineStep, hpc] at h
    split_ifs at h <;> cases h
    · exact .unlock _ (.inr (.inr ⟨hpc, rfl⟩))
    · exact .move _ (.clearFail hpc)

inductive ReceiverMove (s : State) (x : Process) : ReceiverPc → Prop
  | enter : x.receiver = .loop → x.isRunning = true → ReceiverMove s x .wait
  | leave : x.receiver = .loop → x.isRunning = false → ReceiverMove s x .stopped
  | waitFail : x.receiver = .wait → ReceiverMove s x .loop
  | accept : x.receiver = .check →
      (s.block.buffer (ringSlot x.nextSequenceToRead)).sequenceId = x.nextSequenceToRead →
      ReceiverMove s x .readType
  | mismatch : x.receiver = .check →
      (s.block.buffer (ringSlot x.nextSequenceToRead)).sequenceId ≠ x.nextSequenceToRead →
      ReceiverMove s x .loop
  | readType : x.receiver = .readType → ReceiverMove s x
      (.handUp (ntohs (s.block.buffer (ringSlot x.nextSequenceToRead)).frame.header.type))

def viewOf (s : State) (x : Process) (protocol : UInt16) : View :=
  ⟨ringSlot x.nextSequenceToRead, (s.block.buffer (ringSlot x.nextSequenceToRead)).sequenceId,
    protocol⟩

inductive ReceiverEffect (s : State) (p : ℕ) (i : ClientSlot) : State → Prop
  | move (pc') : ReceiverMove s (s.process p) pc' → ReceiverEffect s p i (s.setReceiver p pc')
  | wait : (s.process p).receiver = .wait → 0 < s.sem.client i →
      ReceiverEffect s p i ({ s with
        sem.client := Function.update s.sem.client i (s.sem.client i - 1)
        history.waits := Function.update s.history.waits p (s.history.waits p + 1) }.setReceiver p
          .check)
  | handUp (protocol) : (s.process p).receiver = .handUp protocol →
      ReceiverEffect s p i ({ s with
        history.handedUp := Function.update s.history.handedUp p
          (s.history.handedUp p ++ [viewOf s (s.process p) protocol]) }.setProcess p
            { s.process p with
              receiver := .loop
              nextSequenceToRead := (s.process p).nextSequenceToRead + 1
              held := viewOf s (s.process p) protocol :: (s.process p).held })

theorem receiverStep_effect {s s' : State} {p : ℕ} {o : Outcome}
    (h : receiverStep s p o = some s') :
    ∃ i, (s.process p).engine = .running i ∧ ReceiverEffect s p i s' := by
  cases he : (s.process p).engine with
  | running i =>
    refine ⟨i, rfl, ?_⟩
    cases hpc : (s.process p).receiver with
    | loop =>
      simp only [receiverStep, he, hpc] at h
      split_ifs at h with hr <;> cases h
      · exact .move _ (.enter hpc hr)
      · exact .move _ (.leave hpc (by simpa using hr))
    | wait =>
      simp only [receiverStep, he, hpc] at h
      split_ifs at h with ho hs <;> cases h
      · exact .wait hpc hs
      · exact .move _ (.waitFail hpc)
    | check =>
      simp only [receiverStep, he, hpc] at h
      split_ifs at h with hm <;> cases h
      · exact .move _ (.accept hpc hm)
      · exact .move _ (.mismatch hpc hm)
    | readType =>
      simp only [receiverStep, he, hpc] at h
      cases h
      exact .move _ (.readType hpc)
    | handUp protocol =>
      simp only [receiverStep, he, hpc] at h
      cases h
      rw [← he]
      exact .handUp protocol hpc
    | stopped => simp [receiverStep, he, hpc] at h
  | _ => simp [receiverStep, he] at h

inductive ReleaseMove (s : State) (i : ClientSlot) : ReleasePc → ReleasePc → Prop
  | blocked (v) : s.block.writerIsBlocked = true →
      ReleaseMove s i (.testBlocked v) (.readMine v)
  | free (v) : s.block.writerIsBlocked = false →
      ReleaseMove s i (.testBlocked v) (.store v false)
  | readMine (v) : ReleaseMove s i (.readMine v)
      (.scanActive v (s.lastRead i) (allClients.filter (· ≠ i)) (s.lastRead i + 1))
  | scanHit (v mine j todo slowest) : s.isActive j = true →
      ReleaseMove s i (.scanActive v mine (j :: todo) slowest) (.scanLastRead v mine j todo slowest)
  | scanSkip (v mine j todo slowest) : s.isActive j = false →
      ReleaseMove s i (.scanActive v mine (j :: todo) slowest) (.scanActive v mine todo slowest)
  | scanRead (v mine j todo slowest) :
      ReleaseMove s i (.scanLastRead v mine j todo slowest)
        (.scanActive v mine todo (min slowest (s.lastRead j)))
  | decide (v mine slowest) :
      ReleaseMove s i (.scanActive v mine [] slowest) (.store v (decide (mine ≤ slowest)))

inductive ReleaseEffect (s : State) (p : ℕ) (i : ClientSlot) (x : ReleasePc) : State → Prop
  | move (x') : ReleaseMove s i x x' → ReleaseEffect s p i x (s.setReleasing p x (some x'))
  | store (v slowest) : x = .store v slowest →
      ReleaseEffect s p i x ({ s.setClient i
          { s.block.clientRegistry i with lastReadSequenceId := v.sequenceId } with
        history.released := Function.update s.history.released p
          (s.history.released p ++ [v.sequenceId]) }.setReleasing p x
            (if slowest then some .signal else none))
  | signal : x = .signal →
      ReleaseEffect s p i x
        ({ s with sem.writerWait := s.sem.writerWait + 1 }.setReleasing p x none)
  | signalFail : x = .signal → ReleaseEffect s p i x (s.setReleasing p x none)

theorem releaserStep_effect {s s' : State} {p : ℕ} {x : ReleasePc} {o : Outcome}
    (h : releaserStep s p x o = some s') :
    ∃ i, (s.process p).engine = .running i ∧ x ∈ (s.process p).releasing ∧
      ReleaseEffect s p i x s' := by
  cases he : (s.process p).engine with
  | running i =>
    by_cases hx : x ∈ (s.process p).releasing
    · refine ⟨i, rfl, hx, ?_⟩
      cases x with
      | testBlocked v =>
        simp only [releaserStep, he, if_pos hx] at h
        split_ifs at h with hb <;> cases h
        · exact .move _ (.blocked v hb)
        · exact .move _ (.free v (by simpa using hb))
      | readMine v =>
        simp only [releaserStep, he, if_pos hx] at h
        cases h
        exact .move _ (.readMine v)
      | scanActive v mine todo slowest =>
        cases todo with
        | nil =>
          simp only [releaserStep, he, if_pos hx] at h
          cases h
          exact .move _ (.decide v mine slowest)
        | cons j todo =>
          simp only [releaserStep, he, if_pos hx] at h
          split_ifs at h with ha <;> cases h
          · exact .move _ (.scanHit v mine j todo slowest ha)
          · exact .move _ (.scanSkip v mine j todo slowest (by simpa using ha))
      | scanLastRead v mine j todo slowest =>
        simp only [releaserStep, he, if_pos hx] at h
        cases h
        exact .move _ (.scanRead v mine j todo slowest)
      | store v slowest =>
        simp only [releaserStep, he, if_pos hx] at h
        cases h
        exact .store v slowest rfl
      | signal =>
        simp only [releaserStep, he, if_pos hx] at h
        split_ifs at h <;> cases h
        · exact .signal rfl
        · exact .signalFail rfl
    · simp [releaserStep, he, hx] at h
  | _ => simp [releaserStep, he] at h

/-- The effect of an action, by the thread that takes the step. -/
inductive StepEffect (s : State) : Action → State → Prop
  | send {w c s'} : s.sender w = .idle → SenderEffect s w s' → StepEffect s (.send w c) s'
  | sender {w o s'} : SenderEffect s w s' → StepEffect s (.sender w o) s'
  | construct {p s'} : (s.process p).engine = .unattached → EngineEffect s p s' →
      StepEffect s (.construct p) s'
  | destroy {p i s'} : (s.process p).engine = .running i → EngineEffect s p s' →
      StepEffect s (.destroy p) s'
  | engine {p o s'} : EngineEffect s p s' → StepEffect s (.engine p o) s'
  | stop {p} : StepEffect s (.stop p) (s.setProcess p { s.process p with isRunning := false })
  | receiver {p o i s'} : (s.process p).engine = .running i → ReceiverEffect s p i s' →
      StepEffect s (.receiver p o) s'
  | release {p v i} : (s.process p).engine = .running i → v ∈ (s.process p).held →
      StepEffect s (.release p v) (s.setProcess p { s.process p with
        held := (s.process p).held.erase v
        releasing := .testBlocked v :: (s.process p).releasing })
  | releaser {p x o i s'} : (s.process p).engine = .running i → x ∈ (s.process p).releasing →
      ReleaseEffect s p i x s' →
      (x = .signal → o = .ok → s'.sem.writerWait = s.sem.writerWait + 1) →
      StepEffect s (.releaser p x o) s'

theorem step_effect {s s' : State} {a : Action} (h : machine.step s a = some s') :
    StepEffect s a s' := by
  cases a with
  | send w c =>
    simp only [machine, step] at h
    split at h <;> cases h
    rename_i hpc
    exact .send hpc (.move _ s.block.writerIsBlocked (hpc ▸ .call c) (by rw [hpc]; rfl))
  | sender w o => exact .sender (senderStep_effect h)
  | construct p =>
    simp only [machine, step] at h
    split at h <;> cases h
    rename_i hpc
    exact .construct hpc (.move _ (.construct hpc))
  | stop p => cases h; exact .stop
  | destroy p =>
    simp only [machine, step] at h
    split at h <;> cases h
    rename_i i he hr hl
    exact .destroy he (.move _ (.destroy i he hr hl))
  | engine p o => exact .engine (engineStep_effect h)
  | receiver p o =>
    obtain ⟨i, he, hr⟩ := receiverStep_effect h
    exact .receiver he hr
  | release p v =>
    simp only [machine, step] at h
    split at h
    · rename_i i he
      split_ifs at h with hv
      cases h
      exact .release he hv
    · cases h
  | releaser p x o =>
    obtain ⟨i, he, hx, hr⟩ := releaserStep_effect h
    refine .releaser he hx hr ?_
    rintro rfl rfl
    change releaserStep s p .signal .ok = some s' at h
    simp only [releaserStep, he, if_pos hx, if_true, Option.some.injEq] at h
    rw [← h]
    rfl

end CommunicationAPI.ShmEngine
