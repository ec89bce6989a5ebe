import CommunicationAPI.ShmRegistry
import Mathlib.Data.List.Range
import Mathlib.Order.Interval.Finset.Nat

/-!
# Clients and their tokens

A step of one thread leaves the receiving side of every other process alone.
Client semaphores never hold more tokens than tickets posted to them, so
nothing has been received before the first publication.
-/

namespace CommunicationAPI.ShmEngine
open TransitionSystem

def Action.process : Action → Option ℕ
  | .send _ _ | .sender _ _ => none
  | .construct p | .stop p | .destroy p | .engine p _ | .receiver p _ | .release p _
  | .releaser p _ _ => some p

theorem StepEffect.sender_of_none {s s' : State} {a : Action} (h : StepEffect s a s')
    (ha : a.process = none) : ∃ w, SenderEffect s w s' := by
  cases h with
  | send _ he | sender he => exact ⟨_, he⟩
  | _ => cases ha

theorem StepEffect.senderSide {s s' : State} {a : Action} (h : StepEffect s a s') {p : ℕ}
    (ha : a.process = some p) : SenderSide s s' := by
  cases h with
  | send | sender => cases ha
  | construct _ he | destroy _ he | engine he => exact he.senderSide
  | receiver _ he => exact he.senderSide
  | releaser _ _ he => exact he.senderSide
  | stop | release => exact ⟨rfl, rfl, rfl, rfl, rfl, rfl, rfl⟩

def ReleasePc.pending : ReleasePc → Option View
  | .testBlocked v | .readMine v | .scanActive v _ _ _ | .scanLastRead v _ _ _ _ | .store v _ =>
    some v
  | .signal => none

/-- Views handed up to process `x` and not yet acknowledged. -/
def Process.unreleased (x : Process) : List View :=
  x.held ++ x.releasing.filterMap ReleasePc.pending

/-- A call that moves on, or returns, keeps the other views of its process. -/
theorem Process.unreleased_call {x : Process} {c : ReleasePc} (hc : c ∈ x.releasing)
    (c' : Option ReleasePc) :
    (c.pending.toList ++
      ({ x with releasing := c'.toList ++ x.releasing.erase c } : Process).unreleased).Perm
        ((c'.bind ReleasePc.pending).toList ++ x.unreleased) := by
  have hcall : (x.releasing.filterMap ReleasePc.pending).Perm
      (c.pending.toList ++ (x.releasing.erase c).filterMap ReleasePc.pending) := by
    have := (List.perm_cons_erase hc).filterMap ReleasePc.pending
    rw [List.filterMap_cons] at this
    cases hp : c.pending <;> simpa [hp] using this
  have hhead : c'.toList.filterMap ReleasePc.pending = (c'.bind ReleasePc.pending).toList := by
    cases c' with
    | none => rfl
    | some c' => cases hp : c'.pending <;> simp [hp]
  simp only [Process.unreleased, List.filterMap_append, hhead]
  refine List.Perm.trans ?_ ((hcall.append_left x.held).append_left _).symm
  simp only [← Multiset.coe_eq_coe, ← Multiset.coe_add]
  ac_rfl

theorem ReleaseMove.pending {s : State} {i : ClientSlot} {x x' : ReleasePc}
    (h : ReleaseMove s i x x') : x'.pending = x.pending := by
  cases h <;> rfl

theorem ReleaseEffect.receiver {s s' : State} {p : ℕ} {i : ClientSlot} {x : ReleasePc}
    (h : ReleaseEffect s p i x s') : (s'.process p).receiver = (s.process p).receiver := by
  cases h <;> simp

theorem ReleaseEffect.unreleased_le {s s' : State} {p : ℕ} {i : ClientSlot} {x : ReleasePc}
    (h : ReleaseEffect s p i x s') (hx : x ∈ (s.process p).releasing) :
    (s'.process p).unreleased.length ≤ (s.process p).unreleased.length := by
  have call (c' : Option ReleasePc) := (Process.unreleased_call hx c').length_eq
  cases h with
  | move x' hm =>
    have := call (some x')
    simp only [Option.bind_some, hm.pending, List.length_append] at this
    simp only [State.setReleasing, State.setProcess, Function.update_self]
    omega
  | store v slowest hv =>
    subst hv
    have := call (if slowest then some .signal else none)
    simp only [List.length_append] at this
    simp only [State.setReleasing, State.setProcess, Function.update_self]
    cases slowest <;> simp [ReleasePc.pending] at this ⊢ <;> omega
  | signal hv | signalFail hv =>
    subst hv
    have := call none
    simp only [Option.bind_none, List.length_append] at this
    simp only [State.setReleasing, State.setProcess, Function.update_self]
    simp [ReleasePc.pending] at this ⊢
    omega

theorem ReleaseEffect.acknowledges {s s' : State} {p : ℕ} {i : ClientSlot} {x : ReleasePc}
    (h : ReleaseEffect s p i x s') :
    (∃ v slowest, x = .store v slowest ∧
      s'.history.released p = s.history.released p ++ [v.sequenceId] ∧
      s'.lastRead i = v.sequenceId) ∨
    (∀ v slowest, x ≠ .store v slowest) ∧ s'.history.released = s.history.released ∧
      s'.block.clientRegistry = s.block.clientRegistry := by
  cases h with
  | store v slowest hx => exact .inl ⟨v, slowest, hx, by simp, by simp⟩
  | move x' hm =>
    refine .inr ⟨fun v slowest hx => ?_, rfl, rfl⟩
    subst hx
    cases hm
  | signal hx | signalFail hx => exact .inr ⟨by simp [hx], rfl, rfl⟩

def ReceiverPc.taken : ReceiverPc → ℕ
  | .check | .readType | .handUp _ => 1
  | .loop | .wait | .stopped => 0

/-- The receiving side of process `p` stands still; its engine may move. -/
structure SameWork (s s' : State) (p : ℕ) : Prop where
  receiver : (s'.process p).receiver = (s.process p).receiver
  next : (s'.process p).nextSequenceToRead = (s.process p).nextSequenceToRead
  held : (s'.process p).held = (s.process p).held
  releasing : (s'.process p).releasing = (s.process p).releasing
  waits : s'.history.waits p = s.history.waits p
  handedUp : s'.history.handedUp p = s.history.handedUp p
  released : s'.history.released p = s.history.released p

theorem SameWork.unreleased {s s' : State} {p : ℕ} (h : SameWork s s' p) :
    (s'.process p).unreleased = (s.process p).unreleased := by
  simp only [Process.unreleased, h.held, h.releasing]

theorem ReaderSide.sameWork {s s' : State} (h : ReaderSide s s') (p : ℕ) : SameWork s s' p := by
  constructor <;> simp only [h.process, h.waits, h.handedUp, h.released]

theorem sameWork_setProcess (s : State) (p q : ℕ) (x : Process)
    (hx : p = q → x.receiver = (s.process q).receiver ∧
      x.nextSequenceToRead = (s.process q).nextSequenceToRead ∧ x.held = (s.process q).held ∧
      x.releasing = (s.process q).releasing) : SameWork s (s.setProcess q x) p := by
  by_cases hpq : p = q
  · obtain ⟨hr, hn, hh, hl⟩ := hx hpq
    subst p
    constructor <;> simp [hr, hn, hh, hl]
  · constructor <;> simp [hpq]

theorem EngineEffect.sameWork {s s' : State} {q : ℕ} (h : EngineEffect s q s') (p : ℕ) :
    SameWork s s' p := by
  have base (pc : EnginePc) : SameWork s (s.setEngine q pc) p :=
    sameWork_setProcess s p q _ (by simp)
  cases h with
  | move pc' => exact base pc'
  | lock pc' | unlock pc' => exact { base pc' with }
  | activate i => exact { base (.regProcessId i) with }
  | processId i => exact { base (.regLoad i) with }
  | store i v => exact { base (.regRelease i) with }
  | clear i => exact { base .deregRelease with }

theorem StepEffect.sameWork {s s' : State} {a : Action} (h : StepEffect s a s') {p : ℕ}
    (hp : a.process ≠ some p) : SameWork s s' p := by
  have other {q : ℕ} (hq : some q ≠ some p) : p ≠ q := fun hpq => hq (by rw [hpq])
  cases h with
  | send _ he | sender he => exact he.readerSide.sameWork p
  | construct _ he | destroy _ he | engine he => exact he.sameWork p
  | stop => exact sameWork_setProcess s p _ _ (by simp)
  | receiver _ he =>
    have hpq := other hp
    cases he <;> constructor <;> simp [hpq]
  | release =>
    have hpq := other hp
    exact sameWork_setProcess s p _ _ (fun h => absurd h hpq)
  | releaser _ _ he =>
    have hpq := other hp
    cases he <;> constructor <;> simp [hpq]

theorem StepEffect.engine_eq {s s' : State} {a : Action} (h : StepEffect s a s') {p : ℕ}
    (hp : a.process ≠ some p) : (s'.process p).engine = (s.process p).engine ∧
      s'.history.joinedAt p = s.history.joinedAt p := by
  have other {q : ℕ} (hq : some q ≠ some p) : p ≠ q := fun hpq => hq (by rw [hpq])
  cases h with
  | send _ he | sender he => exact ⟨by rw [he.readerSide.process], by rw [he.readerSide.joinedAt]⟩
  | construct _ he | destroy _ he | engine he =>
    have hpq := other hp
    cases he <;> simp [hpq]
  | stop | release =>
    have hpq := other hp
    simp [hpq]
  | receiver _ he =>
    have hpq := other hp
    cases he <;> simp [hpq]
  | releaser _ _ he =>
    have hpq := other hp
    cases he <;> simp [hpq]

/-- A step of another process leaves the entry of a client alone. -/
theorem StepEffect.entry {s s' : State} {a : Action} (h : StepEffect s a s') (hr : Registry s)
    {p q : ℕ} {i : ClientSlot} (hq : a.process = some q) (hqp : q ≠ p)
    (hp : (s.process p).engine.owned = some i) :
    s'.block.clientRegistry i = s.block.clientRegistry i ∧ s'.sem.client i = s.sem.client i := by
  have hne (j : ClientSlot) (hj : (s.process q).engine.owned = some j) : i ≠ j := by
    rintro rfl
    exact hqp (hr.unique q p i hj hp)
  have hne' (j : ClientSlot) (hj : (s.process q).engine = .regActivate j) : i ≠ j := by
    rintro rfl
    have hactive := hr.active p i hp
    rw [hr.found q i hj] at hactive
    cases hactive
  cases h with
  | send | sender => cases hq
  | construct _ he | destroy _ he | engine he =>
    cases hq
    cases he with
    | move | lock | unlock => exact ⟨rfl, rfl⟩
    | activate j hj => simp [hne' j hj]
    | processId j hj => simp [hne j (by rw [hj]; rfl)]
    | store j v hj => simp [hne j (by rw [hj]; rfl)]
    | clear j hj => simp [hne j (by rw [hj]; rfl)]
  | stop | release => exact ⟨rfl, rfl⟩
  | receiver hj he =>
    cases hq
    have := hne _ (by rw [hj]; rfl)
    cases he <;> simp [this]
  | releaser hj _ he =>
    cases hq
    have := hne _ (by rw [hj]; rfl)
    cases he <;> simp [this]

theorem SenderEffect.posts {s s' : State} {w : ℕ} (he : SenderEffect s w s') (ht : Tickets s)
    (i : ClientSlot) :
    s'.sem.client i + (s.history.posted i).card = s.sem.client i + (s'.history.posted i).card := by
  cases he with
  | notify c t ops hpc =>
    have hnew := (ht.notifying w t (by simp [hpc, SendPc.notifying])).2.2 i
    by_cases hi : i ∈ ops
    · simp only [State.setSender, if_pos hi, Finset.card_insert_of_notMem hnew]
      omega
    · simp [hi]
  | _ => rfl

theorem SenderEffect.drawn_mono {s s' : State} {w : ℕ} (he : SenderEffect s w s') (ht : Tickets s)
    {k : ℕ} {c : SendCall} (hk : s.history.drawn k = some c) : s'.history.drawn k = some c := by
  cases he with
  | draw d t hpc =>
    have hkt : k ≠ t := by
      have := (ht.drawn k c hk).2
      have := ht.writeClaim w d t hpc
      omega
    simpa [hkt] using hk
  | _ => exact hk

theorem SenderEffect.publish_mono {s s' : State} {w : ℕ} (he : SenderEffect s w s')
    (ht : Tickets s) : s.block.publishSequenceId ≤ s'.block.publishSequenceId := by
  cases he with
  | publish c t hpc hp =>
    have := (ht.live w t c (by simp [hpc, SendPc.live])).1
    show s.block.publishSequenceId ≤ t
    omega
  | _ => exact le_rfl

theorem Tickets.card_posted_le {s : State} (h : Tickets s) (i : ClientSlot) :
    (s.history.posted i).card ≤ s.block.publishSequenceId := by
  have hsub : s.history.posted i ⊆ Finset.Icc 1 s.block.publishSequenceId :=
    fun t ht => Finset.mem_Icc.mpr (h.posted i t ht)
  calc (s.history.posted i).card
      ≤ (Finset.Icc 1 s.block.publishSequenceId).card := Finset.card_le_card hsub
    _ = s.block.publishSequenceId := by simp

theorem tokens_of_reaches {ok : StepCondition State Action} {s : State}
    (h : machine.Reaches ok s) (i : ClientSlot) : s.sem.client i ≤ (s.history.posted i).card := by
  refine h.invariant (P := fun s => s.sem.client i ≤ (s.history.posted i).card)
    (fun _ hi => hi ▸ Nat.zero_le _) fun s a s' hr ih hs _ => ?_
  have he := step_effect hs
  rcases he.sender_or_side with ⟨w, he⟩ | hside
  · have := he.posts (tickets_of_reaches hr) i
    omega
  · rw [hside.posted]
    refine le_trans ?_ ih
    cases he with
    | send _ he | sender he =>
      have := he.posts (tickets_of_reaches hr) i
      rw [hside.posted] at this
      omega
    | construct _ he | destroy _ he | engine he => cases he <;> exact le_rfl
    | stop | release => exact le_rfl
    | @receiver p o j _ _ he =>
      cases he with
      | move | handUp => exact le_rfl
      | wait =>
        by_cases hij : i = j
        · subst i
          simp
        · simp [hij]
    | releaser _ _ he => cases he <;> exact le_rfl

structure Fresh (s : State) (p : ℕ) : Prop where
  receiver : (s.process p).receiver = .loop ∨ (s.process p).receiver = .wait ∨
    (s.process p).receiver = .stopped
  next : (s.process p).nextSequenceToRead = 1
  held : (s.process p).held = []
  releasing : (s.process p).releasing = []
  waits : s.history.waits p = 0
  handedUp : s.history.handedUp p = []
  released : s.history.released p = []

theorem fresh_initial (p : ℕ) : Fresh initial p :=
  ⟨.inl rfl, rfl, rfl, rfl, rfl, rfl, rfl⟩

theorem Fresh.sameWork {s s' : State} {p : ℕ} (h : Fresh s p) (hs : SameWork s s' p) :
    Fresh s' p where
  receiver := by rw [hs.receiver]; exact h.receiver
  next := by rw [hs.next]; exact h.next
  held := by rw [hs.held]; exact h.held
  releasing := by rw [hs.releasing]; exact h.releasing
  waits := by rw [hs.waits]; exact h.waits
  handedUp := by rw [hs.handedUp]; exact h.handedUp
  released := by rw [hs.released]; exact h.released

theorem StepEffect.constructing {s s' : State} {a : Action} (h : StepEffect s a s') {p : ℕ}
    (hp : (s'.process p).engine.constructing = true) :
    (s.process p).engine.constructing = true ∧ SameWork s s' p := by
  by_cases ha : a.process = some p
  · cases h with
    | send | sender => cases ha
    | construct _ he | destroy _ he | engine he =>
      cases ha
      refine ⟨?_, he.sameWork p⟩
      cases he with
      | move pc' hm => exact hm.constructing (by simpa using hp)
      | lock pc' hpc =>
        rcases hpc with ⟨hpc, rfl⟩ | ⟨i, hpc, rfl⟩
        · simp [hpc, EnginePc.constructing]
        · simp [EnginePc.constructing] at hp
      | unlock pc' hpc =>
        rcases hpc with ⟨i, hpc, rfl⟩ | ⟨hpc, rfl⟩ | ⟨hpc, rfl⟩ <;>
          simp [EnginePc.constructing] at hp
      | activate i hpc | processId i hpc | store i v hpc => simp [hpc, EnginePc.constructing]
      | clear => simp [EnginePc.constructing] at hp
    | stop =>
      cases ha
      exact ⟨by simpa using hp, sameWork_setProcess s p p _ (by simp)⟩
    | receiver hj he =>
      cases ha
      rw [he.engineSide.engine, hj] at hp
      cases hp
    | release hj =>
      cases ha
      simp [hj, EnginePc.constructing] at hp
    | releaser hj _ he =>
      cases ha
      rw [he.engineSide.engine, hj] at hp
      cases hp
  · exact ⟨by rw [(h.engine_eq ha).1] at hp; exact hp, h.sameWork ha⟩

theorem fresh_of_constructing {ok : StepCondition State Action} {s : State}
    (h : machine.Reaches ok s) {p : ℕ} (hp : (s.process p).engine.constructing = true) :
    Fresh s p := by
  refine h.invariant (P := fun s => (s.process p).engine.constructing = true → Fresh s p)
    (fun s hi _ => ?_) (fun s a s' _ ih hs _ hp => ?_) hp
  · cases hi
    exact fresh_initial p
  · obtain ⟨hc, hw⟩ := (step_effect hs).constructing hp
    exact (ih hc).sameWork hw

structure Early (s : State) : Prop where
  fresh : ∀ p, Fresh s p
  lastRead : ∀ i, s.lastRead i = 0
  stored : ∀ p i v, (s.process p).engine = .regStore i v → v = 0
  joinedAt : ∀ p, s.history.joinedAt p = 0

theorem early_initial : Early initial :=
  ⟨fresh_initial, fun _ => rfl, by simp [initial], fun _ => rfl⟩

theorem Early.engine {s s' : State} {q : ℕ} (h : Early s) (he : EngineEffect s q s')
    (hp : s.block.publishSequenceId = 0) : Early s' := by
  have entry (i j : ClientSlot) (c : ClientState) (hc : c.lastReadSequenceId = 0) :
      (s.setClient i c).lastRead j = 0 := by
    by_cases hji : j = i
    · subst j
      simpa using hc
    · simpa [hji] using h.lastRead j
  have stored (pc : EnginePc) (hpc : ∀ i v, pc = .regStore i v → v = 0) (p : ℕ)
      (i : ClientSlot) (v : ℕ) (hv : ((s.setEngine q pc).process p).engine = .regStore i v) :
      v = 0 := by
    rw [engine_setEngine] at hv
    split_ifs at hv
    · exact hpc i v hv
    · exact h.stored p i v hv
  have hfresh := fun p => (h.fresh p).sameWork (he.sameWork p)
  cases he with
  | move pc' hm =>
    refine ⟨hfresh, h.lastRead, stored pc' ?_, h.joinedAt⟩
    rintro i v rfl
    generalize s.process q = x at hm
    cases hm
    exact hp
  | lock pc' hpc =>
    refine ⟨hfresh, h.lastRead, stored pc' ?_, h.joinedAt⟩
    rcases hpc with ⟨-, rfl⟩ | ⟨i, -, rfl⟩ <;> simp
  | unlock pc' hpc =>
    refine ⟨hfresh, h.lastRead, stored pc' ?_, h.joinedAt⟩
    rcases hpc with ⟨i, -, rfl⟩ | ⟨-, rfl⟩ | ⟨-, rfl⟩ <;> simp
  | activate i | processId i | clear i =>
    exact ⟨hfresh, fun j => entry i j _ (h.lastRead i), stored _ (by simp), h.joinedAt⟩
  | store i v hpc =>
    have hv := h.stored q i v hpc
    refine ⟨hfresh, fun j => entry i j _ hv, stored _ (by simp), fun p => ?_⟩
    by_cases hpq : p = q
    · subst p
      simpa using hv
    · simpa [hpq] using h.joinedAt p

theorem Early.step {s s' : State} {a : Action} (h : Early s) (he : StepEffect s a s')
    (hp : s.block.publishSequenceId = 0) (htokens : ∀ i, s.sem.client i = 0) : Early s' := by
  cases he with
  | send _ he | sender he =>
    have hs := he.readerSide
    refine ⟨fun p => (h.fresh p).sameWork (hs.sameWork p), fun i => ?_, ?_, ?_⟩
    · simpa [hs.registry] using h.lastRead i
    · rw [hs.process]
      exact h.stored
    · rw [hs.joinedAt]
      exact h.joinedAt
  | construct _ he | destroy _ he | engine he => exact h.engine he hp
  | @stop q =>
    have hside := engineSide_setProcess s q { s.process q with isRunning := false } rfl
    exact ⟨fun p => (h.fresh p).sameWork (sameWork_setProcess s p _ _ (by simp)), h.lastRead,
      fun p i v hv => h.stored p i v (by rwa [hside.engine] at hv), h.joinedAt⟩
  | @receiver q o i _ hj he =>
    have hside := he.engineSide
    cases he with
    | move pc' hm =>
      refine ⟨fun p => ?_, h.lastRead, fun p i v hv => h.stored p i v (by rwa [hside.engine] at hv),
        h.joinedAt⟩
      have hold := h.fresh p
      by_cases hpq : p = q
      · subst p
        have hpc : pc' = .loop ∨ pc' = .wait ∨ pc' = .stopped := by
          have := hold.receiver
          generalize s.process q = x at hm this
          cases hm <;> simp_all
        exact ⟨by simpa using hpc, by simpa using hold.next, by simpa using hold.held,
          by simpa using hold.releasing, hold.waits, hold.handedUp, hold.released⟩
      · exact hold.sameWork (sameWork_setProcess s p q _ fun h => absurd h hpq)
    | wait _ hs =>
      rw [htokens i] at hs
      exact absurd hs (Nat.lt_irrefl 0)
    | handUp protocol hpc =>
      have := (h.fresh q).receiver
      simp [hpc] at this
  | @release q v i hj hv =>
    rw [(h.fresh q).held] at hv
    cases hv
  | @releaser q x o i _ hj hx he =>
    rw [(h.fresh q).releasing] at hx
    cases hx

theorem early_of_reaches {ok : StepCondition State Action} {s : State}
    (h : machine.Reaches ok s) (hp : s.block.publishSequenceId = 0) : Early s := by
  refine h.invariant (P := fun s => s.block.publishSequenceId = 0 → Early s)
    (fun s hi _ => ?_) (fun s a s' hr ih hs _ hp => ?_) hp
  · cases hi
    exact early_initial
  have he := step_effect hs
  have ht := tickets_of_reaches hr
  have hzero : s.block.publishSequenceId = 0 := by
    rcases he.sender_or_side with ⟨w, he⟩ | hside
    · have := he.publish_mono ht
      omega
    · rw [← hside.publish]
      exact hp
  refine (ih hzero).step he hzero fun i => ?_
  have := tokens_of_reaches hr i
  have := ht.card_posted_le i
  omega

end CommunicationAPI.ShmEngine
