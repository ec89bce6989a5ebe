import CommunicationAPI.ShmClients

/-!
# What a reader has received

A process that joins before the first publication receives the tickets 1, 2, …
in order: its semaphore counts the posted and not yet consumed tickets, its
receiver has handed up exactly the tickets below its private counter, and all
that is published above them stays intact.
-/

namespace CommunicationAPI.ShmEngine
open TransitionSystem

/-- Process `p` registers before the first publication, while no send with a
ticket of a later turn of the ring has gone past its entry. -/
def JoinsEarly (p : ℕ) : StepCondition State Action := fun s a _ =>
  ∀ o, a = .engine p o →
    match (s.process p).engine with
    | .regActivate i => s.block.publishSequenceId = 0 ∧ ∀ w, (s.sender w).Saw i 0
    | .regLoad _ => s.block.publishSequenceId = 0
    | _ => True

/-- The view shows the slot of a drawn ticket and the protocol its sender gave. -/
structure View.Genuine (s : State) (v : View) : Prop where
  slot : v.slot = ringSlot v.sequenceId
  drawn : ∃ c, s.history.drawn v.sequenceId = some c ∧ v.protocol = c.protocol

theorem View.Genuine.mono {s s' : State} {v : View} (h : v.Genuine s)
    (hdrawn : ∀ k c, s.history.drawn k = some c → s'.history.drawn k = some c) : v.Genuine s' := by
  obtain ⟨hslot, c, hc, hproto⟩ := h
  exact ⟨hslot, c, hdrawn _ c hc, hproto⟩

structure Reader (s : State) (p : ℕ) (i : ClientSlot) : Prop where
  one_le : 1 ≤ (s.process p).nextSequenceToRead
  tokens : s.sem.client i + s.history.waits p = (s.history.posted i).card
  next : s.history.waits p + 1 =
    (s.process p).nextSequenceToRead + (s.process p).receiver.taken
  handedUp : (s.history.handedUp p).map View.sequenceId =
    List.range' 1 ((s.process p).nextSequenceToRead - 1)
  genuine : ∀ v ∈ s.history.handedUp p, v.Genuine s
  ledger : ∃ done : List View, done.map View.sequenceId = s.history.released p ∧
    (done ++ (s.process p).unreleased).Perm (s.history.handedUp p)
  protocol : ∀ protocol, (s.process p).receiver = .handUp protocol →
    ∃ c, s.history.drawn (s.process p).nextSequenceToRead = some c ∧ protocol = c.protocol
  guarded : Guarded s i ((s.process p).nextSequenceToRead - 1)
  stored : ∀ v, (s.process p).engine = .regStore i v → v = 0
  joinedAt : s.history.joinedAt p = 0

namespace Reader
variable {s s' : State} {p : ℕ} {i : ClientSlot}

theorem seq_bounds (h : Reader s p i) {v : View} (hv : v ∈ s.history.handedUp p) :
    1 ≤ v.sequenceId ∧ v.sequenceId ≤ (s.process p).nextSequenceToRead - 1 := by
  have hmem : v.sequenceId ∈ (s.history.handedUp p).map View.sequenceId :=
    List.mem_map_of_mem hv
  rw [h.handedUp, List.mem_range'_1] at hmem
  omega

theorem handedUp_of_unreleased (h : Reader s p i) {v : View}
    (hv : v ∈ (s.process p).unreleased) : v ∈ s.history.handedUp p := by
  obtain ⟨done, -, hperm⟩ := h.ledger
  exact hperm.mem_iff.mp (List.mem_append_right _ hv)

/-- The slot a receiver is about to read holds the frame it waits for. -/
theorem slot (h : Reader s p i) (ht : Tickets s) (htaken : (s.process p).receiver.taken = 1) :
    ∃ c, s.history.drawn (s.process p).nextSequenceToRead = some c ∧
      (s.block.buffer (ringSlot (s.process p).nextSequenceToRead)).Carries c
        (s.process p).nextSequenceToRead := by
  have hone := h.one_le
  have hnext := h.next
  have htokens := h.tokens
  have hcard := ht.card_posted_le i
  exact h.guarded.intact.published _ (by omega) (by omega)

theorem initial (hr : ∀ w, (s.sender w).Saw i 0) (ht : Tickets s) (hd : Dawn s) (he : Early s)
    (hp : s.block.publishSequenceId = 0) (htokens : s.sem.client i = 0)
    (hs : SenderSide s s') (hw : SameWork s s' p) (hsem : s'.sem.client i = s.sem.client i)
    (hactive : s'.isActive i = true) (hread : s'.lastRead i = s.lastRead i)
    (hstored : ∀ v, (s'.process p).engine ≠ .regStore i v)
    (hjoined : s'.history.joinedAt p = s.history.joinedAt p) : Reader s' p i := by
  have hf := (he.fresh p).sameWork hw
  have hposted : s.history.posted i = ∅ := by
    have := ht.card_posted_le i
    exact Finset.card_eq_zero.mp (by omega)
  have htaken : (s'.process p).receiver.taken = 0 := by
    rcases hf.receiver with h | h | h <;> rw [h] <;> rfl
  have hintact : Intact s 0 := hd hp fun w c t todo hpc => by
    have := hr w
    rw [hpc] at this
    exact this.trans_eq (Nat.zero_add _)
  constructor
  · rw [hf.next]
  · rw [hsem, htokens, hf.waits, hs.posted, hposted]
    rfl
  · rw [hf.waits, hf.next, htaken]
  · rw [hf.handedUp, hf.next]
    rfl
  · simp [hf.handedUp]
  · exact ⟨[], by simp [hf.released], by simp [hf.handedUp, hf.held, hf.releasing,
      Process.unreleased]⟩
  · intro protocol hpc
    simp [hpc, ReceiverPc.taken] at htaken
  · rw [hf.next]
    refine ⟨hactive, ?_, Nat.zero_le _, ?_, hintact.side hs⟩
    · rw [hread, he.lastRead]
    · rw [hs.sender]
      exact hr
  · exact fun v hv => absurd hv (hstored v)
  · rw [hjoined, he.joinedAt]

theorem transfer (h : Reader s p i) (hw : SameWork s s' p)
    (hposts : s'.sem.client i + (s.history.posted i).card =
      s.sem.client i + (s'.history.posted i).card)
    (hdrawn : ∀ k c, s.history.drawn k = some c → s'.history.drawn k = some c)
    (hguarded : Guarded s' i ((s.process p).nextSequenceToRead - 1))
    (hstored : ∀ v, (s'.process p).engine = .regStore i v → v = 0)
    (hjoined : s'.history.joinedAt p = 0) : Reader s' p i := by
  have htokens := h.tokens
  constructor
  · rw [hw.next]
    exact h.one_le
  · rw [hw.waits]
    omega
  · rw [hw.waits, hw.next, hw.receiver]
    exact h.next
  · rw [hw.handedUp, hw.next]
    exact h.handedUp
  · rw [hw.handedUp]
    exact fun v hv => (h.genuine v hv).mono hdrawn
  · rw [hw.released, hw.unreleased, hw.handedUp]
    exact h.ledger
  · rw [hw.receiver, hw.next]
    intro protocol hpc
    obtain ⟨c, hc, hproto⟩ := h.protocol protocol hpc
    exact ⟨c, hdrawn _ c hc, hproto⟩
  · rw [hw.next]
    exact hguarded
  · exact hstored
  · exact hjoined

theorem sender (h : Reader s p i) (ht : Tickets s) {w : ℕ} (he : SenderEffect s w s') :
    Reader s' p i := by
  have hs := he.readerSide
  refine h.transfer (hs.sameWork p) (he.posts ht i) (fun k c hk => he.drawn_mono ht hk)
    (h.guarded.effect ht he) ?_ ?_
  · rw [hs.process]
    exact h.stored
  · rw [hs.joinedAt]
    exact h.joinedAt

theorem side (h : Reader s p i) (hw : SameWork s s' p) (hs : SenderSide s s')
    (hsem : s'.sem.client i = s.sem.client i) (hactive : s'.isActive i = true)
    (hread : s'.lastRead i ≤ (s.process p).nextSequenceToRead - 1)
    (hstored : ∀ v, (s'.process p).engine = .regStore i v → v = 0)
    (hjoined : s'.history.joinedAt p = 0) : Reader s' p i :=
  h.transfer hw (by rw [hsem, hs.posted]) (fun k c hk => by rwa [hs.drawn])
    (h.guarded.side hs hactive hread) hstored hjoined

theorem receiver (h : Reader s p i) (ht : Tickets s) (hj : (s.process p).engine = .running i)
    (he : ReceiverEffect s p i s') : Reader s' p i := by
  have hs := he.senderSide
  have hone := h.one_le
  have htokens := h.tokens
  have hnext := h.next
  have hdrawn : ∀ k c, s.history.drawn k = some c → s'.history.drawn k = some c :=
    fun k c hk => by rwa [hs.drawn]
  cases he with
  | move pc' hm =>
    have hlocal : pc'.taken = (s.process p).receiver.taken ∧
        ∀ protocol, pc' = .handUp protocol →
          ∃ c, s.history.drawn (s.process p).nextSequenceToRead = some c ∧
            protocol = c.protocol := by
      have hslot := h.slot ht
      generalize s.process p = x at hm hslot
      cases hm with
      | mismatch hpc hne =>
        obtain ⟨c, -, hcar⟩ := hslot (by rw [hpc]; rfl)
        exact absurd hcar.sequenceId hne
      | readType hpc =>
        obtain ⟨c, hc, hcar⟩ := hslot (by rw [hpc]; rfl)
        refine ⟨by rw [hpc]; rfl, fun protocol hp => ⟨c, hc, ?_⟩⟩
        cases hp
        simp [hcar.header]
      | enter hpc | leave hpc | waitFail hpc | accept hpc => simp [hpc, ReceiverPc.taken]
    refine ⟨by simpa using hone, htokens, by simpa [hlocal.1] using hnext,
      by simpa using h.handedUp, fun v hv => (h.genuine v hv).mono hdrawn,
      by simpa [Process.unreleased] using h.ledger, by simpa using hlocal.2, ?_, by simp [hj],
      h.joinedAt⟩
    simpa using h.guarded.side hs h.guarded.active h.guarded.lastRead_le
  | wait hpc hpos =>
    have htaken : (s.process p).receiver.taken = 0 := by rw [hpc]; rfl
    refine ⟨by simpa using hone, ?_, ?_, by simpa using h.handedUp,
      fun v hv => (h.genuine v hv).mono hdrawn, by simpa [Process.unreleased] using h.ledger,
      by simp, ?_, by simp [hj], h.joinedAt⟩
    · simp only [State.setReceiver, State.setProcess, Function.update_self]
      omega
    · simp only [State.setReceiver, State.setProcess, Function.update_self, ReceiverPc.taken]
      omega
    · simpa using h.guarded.side hs h.guarded.active h.guarded.lastRead_le
  | handUp protocol hpc =>
    have htaken : (s.process p).receiver.taken = 1 := by rw [hpc]; rfl
    have hcard := ht.card_posted_le i
    obtain ⟨c, hc, hcar⟩ := h.slot ht htaken
    have hseq : (viewOf s (s.process p) protocol).sequenceId = (s.process p).nextSequenceToRead :=
      hcar.sequenceId
    refine ⟨by simp, htokens, ?_, ?_, ?_, ?_, by simp, ?_, by simp [hj], h.joinedAt⟩
    · simp only [State.setProcess, Function.update_self, ReceiverPc.taken]
      omega
    · have hsucc : (s.process p).nextSequenceToRead + 1 - 1 =
          (s.process p).nextSequenceToRead - 1 + 1 := by omega
      simp only [State.setProcess, Function.update_self, List.map_append, h.handedUp, hseq,
        List.map_cons, List.map_nil]
      rw [hsucc, List.range'_concat]
      congr 2
      omega
    · intro v hv
      simp only [State.setProcess, Function.update_self, List.mem_append, List.mem_singleton] at hv
      rcases hv with hv | rfl
      · exact (h.genuine v hv).mono hdrawn
      · obtain ⟨d, hd, hproto⟩ := h.protocol protocol hpc
        refine ⟨by rw [hseq]; rfl, d, ?_, hproto⟩
        rw [hseq]
        exact hd
    · obtain ⟨done, hdone, hperm⟩ := h.ledger
      refine ⟨done, hdone, ?_⟩
      simp only [State.setProcess, Function.update_self, Process.unreleased, List.cons_append]
      exact List.perm_middle.trans ((hperm.cons _).trans (List.perm_append_singleton _ _).symm)
    · have hguarded := h.guarded.side hs h.guarded.active h.guarded.lastRead_le
      have hpublish : (s.process p).nextSequenceToRead ≤ s.block.publishSequenceId := by omega
      have hraise := hguarded.raise (Nat.sub_le _ 1) hpublish
      simpa using hraise

theorem stop (h : Reader s p i) :
    Reader (s.setProcess p { s.process p with isRunning := false }) p i :=
  h.side (sameWork_setProcess s p p _ (by simp)) ⟨rfl, rfl, rfl, rfl, rfl, rfl, rfl⟩ rfl
    h.guarded.active h.guarded.lastRead_le (by simpa using h.stored) h.joinedAt

theorem release (h : Reader s p i) {v : View} (hv : v ∈ (s.process p).held) :
    Reader (s.setProcess p { s.process p with
      held := (s.process p).held.erase v
      releasing := .testBlocked v :: (s.process p).releasing }) p i := by
  refine ⟨by simpa using h.one_le, h.tokens, by simpa using h.next, by simpa using h.handedUp,
    fun v hv => (h.genuine v hv).mono fun _ _ hk => hk, ?_, by simpa using h.protocol, ?_,
    by simpa using h.stored, h.joinedAt⟩
  · obtain ⟨done, hdone, hperm⟩ := h.ledger
    refine ⟨done, hdone, ?_⟩
    simp only [State.setProcess, Function.update_self, Process.unreleased, List.filterMap_cons,
      ReleasePc.pending]
    have hmove : ((s.process p).held.erase v ++
        v :: (s.process p).releasing.filterMap ReleasePc.pending).Perm (s.process p).unreleased :=
      List.perm_middle.trans ((List.perm_cons_erase hv).symm.append_right _)
    exact (hmove.append_left done).trans hperm
  · have hside : SenderSide s (s.setProcess p { s.process p with
        held := (s.process p).held.erase v
        releasing := .testBlocked v :: (s.process p).releasing }) :=
      ⟨rfl, rfl, rfl, rfl, rfl, rfl, rfl⟩
    simpa using h.guarded.side hside h.guarded.active h.guarded.lastRead_le

theorem releaser (h : Reader s p i) (hj : (s.process p).engine = .running i) {x : ReleasePc}
    (hx : x ∈ (s.process p).releasing) (he : ReleaseEffect s p i x s') : Reader s' p i := by
  have hs := he.senderSide
  obtain ⟨done, hdone, hperm⟩ := h.ledger
  have hdrawn : ∀ k c, s.history.drawn k = some c → s'.history.drawn k = some c :=
    fun k c hk => by rwa [hs.drawn]
  cases he with
  | move x' hm =>
    have hpending : x'.pending = x.pending ∧ x.pending.isSome := by
      cases hm <;> simp [ReleasePc.pending]
    refine ⟨by simpa using h.one_le, h.tokens, by simpa using h.next, by simpa using h.handedUp,
      fun v hv => (h.genuine v hv).mono hdrawn, ⟨done, hdone, ?_⟩, by simpa using h.protocol, ?_,
      by simp [hj], h.joinedAt⟩
    · have hcall := Process.unreleased_call hx (some x')
      simp only [Option.bind_some, hpending.1, List.perm_append_left_iff] at hcall
      simpa using (hcall.append_left done).trans hperm
    · simpa using h.guarded.side hs h.guarded.active h.guarded.lastRead_le
  | store v slowest hpc =>
    subst x
    have hcall : (v :: ({ s.process p with releasing := (if slowest then some .signal
        else none : Option ReleasePc).toList ++ (s.process p).releasing.erase (.store v slowest) }
          : Process).unreleased).Perm (s.process p).unreleased := by
      have := Process.unreleased_call hx (if slowest then some .signal else none)
      cases slowest <;> simpa [ReleasePc.pending] using this
    have hmem : v ∈ (s.process p).unreleased := hcall.mem_iff.mp List.mem_cons_self
    refine ⟨by simpa using h.one_le, h.tokens, by simpa using h.next, by simpa using h.handedUp,
      fun v hv => (h.genuine v hv).mono hdrawn, ⟨done ++ [v], by simp [hdone], ?_⟩,
      by simpa using h.protocol, ?_, by simp [hj], h.joinedAt⟩
    · have := (hcall.append_left done).trans hperm
      simpa using this
    · have hseq := (h.seq_bounds (h.handedUp_of_unreleased hmem)).2
      simpa using h.guarded.side hs (by simpa using h.guarded.active) (by simpa using hseq)
  | signal hpc | signalFail hpc =>
    subst x
    have hcall := Process.unreleased_call hx none
    refine ⟨by simpa using h.one_le, h.tokens, by simpa using h.next, by simpa using h.handedUp,
      fun v hv => (h.genuine v hv).mono hdrawn, ⟨done, hdone, ?_⟩, by simpa using h.protocol, ?_,
      by simp [hj], h.joinedAt⟩
    · simp only [ReleasePc.pending, Option.toList_none, List.nil_append, Option.bind_none] at hcall
      simpa using (hcall.append_left done).trans hperm
    · simpa using h.guarded.side hs h.guarded.active h.guarded.lastRead_le

/-- The engine of the reader's own process moves while it owns the entry. -/
theorem engine (h : Reader s p i) (hj : (s.process p).engine.owned = some i)
    (hload : (∃ j, (s.process p).engine = .regLoad j) → s.block.publishSequenceId = 0)
    (he : EngineEffect s p s') (hj' : (s'.process p).engine.owned = some i) : Reader s' p i := by
  have hs := he.senderSide
  have hw := he.sameWork p
  have hactive := h.guarded.active
  have hread := h.guarded.lastRead_le
  cases he with
  | move pc' hm =>
    refine h.side hw hs rfl hactive hread (fun v hv => ?_) h.joinedAt
    have hpc : pc' = .regStore i v := by simpa using hv
    subst hpc
    generalize hx : s.process p = x at hm hload
    cases hm with
    | load _ hpc => exact hload ⟨i, hpc⟩
  | lock pc' hpc | unlock pc' hpc =>
    refine h.side hw hs rfl hactive hread (fun v hv => ?_) h.joinedAt
    have hpc' : pc' = .regStore i v := by simpa using hv
    subst hpc'
    simp at hpc
  | activate j hpc =>
    rw [hpc] at hj
    cases hj
  | processId j hpc =>
    have hij : j = i := by simpa [hpc, EnginePc.owned] using hj
    subst j
    exact h.side hw hs rfl (by simpa using hactive) (by simpa using hread) (by simp) h.joinedAt
  | store j v hpc =>
    have hij : j = i := by simpa [hpc, EnginePc.owned] using hj
    subst j
    have hv := h.stored v hpc
    subst hv
    exact h.side hw hs rfl (by simpa using hactive) (by simp) (by simp) (by simp)
  | clear j =>
    simp [EnginePc.owned] at hj'

theorem step {a : Action} (hr : Registry s) (ht : Tickets s) (h : Reader s p i)
    (hj : (s.process p).engine.owned = some i) (hj' : (s'.process p).engine.owned = some i)
    (he : StepEffect s a s') (hjoin : JoinsEarly p s a s') : Reader s' p i := by
  have hload : ∀ o, a = .engine p o → (∃ j, (s.process p).engine = .regLoad j) →
      s.block.publishSequenceId = 0 := by
    rintro o rfl ⟨j, hpc⟩
    simpa [hpc] using hjoin o rfl
  by_cases ha : a.process = some p
  · cases he with
    | send | sender => cases ha
    | construct hpc =>
      cases ha
      rw [hpc] at hj
      cases hj
    | destroy hpc he =>
      cases ha
      exact h.engine hj (by simp [hpc]) he hj'
    | engine he =>
      cases ha
      exact h.engine hj (hload _ rfl) he hj'
    | stop =>
      cases ha
      exact h.stop
    | receiver hpc he =>
      cases ha
      obtain rfl : _ = i := by simpa [hpc, EnginePc.owned] using hj
      exact h.receiver ht hpc he
    | release _ hv =>
      cases ha
      exact h.release hv
    | releaser hpc hx he =>
      cases ha
      obtain rfl : _ = i := by simpa [hpc, EnginePc.owned] using hj
      exact h.releaser hpc hx he
  · have hw := he.sameWork ha
    obtain ⟨hengine, hjoined⟩ := he.engine_eq ha
    cases hq : a.process with
    | none =>
      obtain ⟨w, he⟩ := he.sender_of_none hq
      exact h.sender ht he
    | some q =>
      obtain ⟨hentry, hsem⟩ := he.entry hr hq (fun hqp => ha (by rw [hq, hqp])) hj
      refine h.side hw (he.senderSide hq) hsem ?_ ?_ (fun v hv => h.stored v (hengine ▸ hv))
        (hjoined ▸ h.joinedAt)
      · simpa [hentry] using h.guarded.active
      · simpa [hentry] using h.guarded.lastRead_le

end Reader

/-- An entry is owned as before, or taken over by an activation. -/
theorem StepEffect.owned {s s' : State} {a : Action} (h : StepEffect s a s') {p : ℕ}
    {i : ClientSlot} (hp : (s'.process p).engine.owned = some i) :
    (s.process p).engine.owned = some i ∨
      ∃ o, a = .engine p o ∧ (s.process p).engine = .regActivate i ∧
        s' = (s.setClient i { s.block.clientRegistry i with isActive := true }).setEngine p
          (.regProcessId i) := by
  by_cases ha : a.process = some p
  · have engine (he : EngineEffect s p s') : (s.process p).engine.owned = some i ∨
        (s.process p).engine = .regActivate i ∧ s' = (s.setClient i
          { s.block.clientRegistry i with isActive := true }).setEngine p (.regProcessId i) := by
      cases he with
      | move pc' hm =>
        rcases hm.owned with ho | ho
        · exact .inl (ho ▸ by simpa using hp)
        · simp [ho] at hp
      | lock pc' hpc =>
        rcases hpc with ⟨-, rfl⟩ | ⟨j, hpc, rfl⟩
        · simp [EnginePc.owned] at hp
        · exact .inl (by simpa [hpc, EnginePc.owned] using hp)
      | unlock pc' hpc =>
        rcases hpc with ⟨j, hpc, rfl⟩ | ⟨-, rfl⟩ | ⟨-, rfl⟩
        · exact .inl (by simpa [hpc, EnginePc.owned] using hp)
        · simp [EnginePc.owned] at hp
        · simp [EnginePc.owned] at hp
      | activate j hpc =>
        obtain rfl : j = i := by simpa [EnginePc.owned] using hp
        exact .inr ⟨hpc, rfl⟩
      | processId j hpc | store j v hpc =>
        exact .inl (by simpa [hpc, EnginePc.owned] using hp)
      | clear j => simp [EnginePc.owned] at hp
    cases h with
    | send | sender => cases ha
    | construct hpc he | destroy hpc he =>
      cases ha
      rcases engine he with h | ⟨h, -⟩
      · exact .inl h
      · simp [hpc] at h
    | engine he =>
      cases ha
      rcases engine he with h | ⟨h, h'⟩
      · exact .inl h
      · exact .inr ⟨_, rfl, h, h'⟩
    | stop | release =>
      cases ha
      exact .inl (by simpa using hp)
    | receiver _ he =>
      cases ha
      exact .inl (by rwa [he.engineSide.engine] at hp)
    | releaser _ _ he =>
      cases ha
      exact .inl (by rwa [he.engineSide.engine] at hp)
  · rw [(h.engine_eq ha).1] at hp
    exact .inl hp

theorem reader_of_reaches {p : ℕ} {s : State} (h : machine.Reaches (JoinsEarly p) s)
    {i : ClientSlot} (hi : (s.process p).engine.owned = some i) : Reader s p i := by
  refine h.invariant (P := fun s => ∀ i, (s.process p).engine.owned = some i → Reader s p i)
    (fun s hs => ?_) (fun s a s' hr ih hs hjoin i hi => ?_) i hi
  · cases hs
    simp [initial, EnginePc.owned]
  have he := step_effect hs
  have ht := tickets_of_reaches hr
  rcases he.owned hi with hold | ⟨o, rfl, hpc, rfl⟩
  · exact (ih i hold).step (registry_of_reaches hr) ht hold hi he hjoin
  · have hearly : s.block.publishSequenceId = 0 ∧ ∀ w, (s.sender w).Saw i 0 := by
      simpa [hpc] using hjoin o rfl
    have htokens : s.sem.client i = 0 := by
      have := tokens_of_reaches hr i
      have := ht.card_posted_le i
      omega
    have hengine : EngineEffect s p _ := .activate i hpc
    exact .initial hearly.2 ht (dawn_of_reaches hr) (early_of_reaches hr hearly.1) hearly.1 htokens
      hengine.senderSide (hengine.sameWork p) rfl (by simp) (by simp) (by simp) rfl

end CommunicationAPI.ShmEngine
