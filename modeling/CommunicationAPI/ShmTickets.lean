import CommunicationAPI.Exclusive
import CommunicationAPI.ShmSteps

/-!
# Tickets

Every ticket is drawn once, by the one sender inside the claim section, and is
published by the sender that drew it. The tickets of the senders between the
draw and the publication are pairwise distinct and lie strictly between the
publish counter and the claim counter; a published ticket is posted at most
once to each client semaphore.
-/

namespace CommunicationAPI.ShmEngine
open BinarySemaphore

structure SenderSide (s s' : State) : Prop where
  sender : s'.sender = s.sender
  claim : s'.block.claimSequenceId = s.block.claimSequenceId
  publish : s'.block.publishSequenceId = s.block.publishSequenceId
  buffer : s'.block.buffer = s.block.buffer
  drawn : s'.history.drawn = s.history.drawn
  posted : s'.history.posted = s.history.posted
  claimSem : s'.sem.claim = s.sem.claim

/-- The part of the state that `send` leaves alone. -/
structure ReaderSide (s s' : State) : Prop where
  process : s'.process = s.process
  registry : s'.block.clientRegistry = s.block.clientRegistry
  registrySem : s'.sem.registry = s.sem.registry
  waits : s'.history.waits = s.history.waits
  handedUp : s'.history.handedUp = s.history.handedUp
  released : s'.history.released = s.history.released
  joinedAt : s'.history.joinedAt = s.history.joinedAt

theorem SenderEffect.readerSide {s s' : State} {w : ℕ} (h : SenderEffect s w s') :
    ReaderSide s s' := by
  cases h <;> constructor <;> rfl

theorem EngineEffect.senderSide {s s' : State} {p : ℕ} (h : EngineEffect s p s') :
    SenderSide s s' := by
  cases h <;> constructor <;> rfl

theorem ReceiverEffect.senderSide {s s' : State} {p : ℕ} {i : ClientSlot}
    (h : ReceiverEffect s p i s') : SenderSide s s' := by
  cases h <;> constructor <;> rfl

theorem ReleaseEffect.senderSide {s s' : State} {p : ℕ} {i : ClientSlot} {x : ReleasePc}
    (h : ReleaseEffect s p i x s') : SenderSide s s' := by
  cases h <;> constructor <;> rfl

theorem StepEffect.sender_or_side {s s' : State} {a : Action} (h : StepEffect s a s') :
    (∃ w, SenderEffect s w s') ∨ SenderSide s s' := by
  cases h with
  | send _ he | sender he => exact .inl ⟨_, he⟩
  | construct _ he | destroy _ he | engine he => exact .inr he.senderSide
  | receiver _ he => exact .inr he.senderSide
  | releaser _ _ he => exact .inr he.senderSide
  | stop | release => exact .inr ⟨rfl, rfl, rfl, rfl, rfl, rfl, rfl⟩

namespace SendPc

/-- The ticket and call of a sender that has drawn and not yet published. -/
def live : SendPc → Option (ℕ × SendCall)
  | .releaseClaim c t | .scanActive c t _ _ _ | .scanLastRead c t _ _ _ | .waitWriter c t
  | .giveUp c t | .write c t _ => some (t, c)
  | _ => none

def notifying : SendPc → Option ℕ
  | .notifyScan _ t _ _ => some t
  | _ => none

def claims : SendPc → Bool
  | .readClaim _ | .writeClaim _ _ | .releaseClaim _ _ => true
  | _ => false

end SendPc

namespace LocalMove
variable {s : State} {pc pc' : SendPc}

theorem live (h : LocalMove s pc pc') : pc'.live = pc.live ∨ pc'.live = none := by
  cases h <;> simp [SendPc.live, startScan]

theorem notifying (h : LocalMove s pc pc') :
    pc'.notifying = pc.notifying ∨ pc'.notifying = none := by
  cases h <;> simp [SendPc.notifying, startScan]

theorem claims (h : LocalMove s pc pc') : pc'.claims = true → pc.claims = true := by
  cases h <;> simp [SendPc.claims, startScan]

theorem writeClaim (h : LocalMove s pc pc') {c : SendCall} {t : ℕ}
    (hpc : pc' = .writeClaim c t) : t = s.block.claimSequenceId := by
  cases h <;> simp [startScan] at hpc
  exact hpc.2.symm

end LocalMove

structure Tickets (s : State) : Prop where
  publish_lt : s.block.publishSequenceId < s.block.claimSequenceId
  drawn : ∀ t c, s.history.drawn t = some c → 1 ≤ t ∧ t < s.block.claimSequenceId
  live : ∀ w t c, (s.sender w).live = some (t, c) → s.block.publishSequenceId < t ∧
    t < s.block.claimSequenceId ∧ s.history.drawn t = some c
  live_unique : ∀ w w' t c c', (s.sender w).live = some (t, c) →
    (s.sender w').live = some (t, c') → w = w'
  notifying : ∀ w t, (s.sender w).notifying = some t → 1 ≤ t ∧ t ≤ s.block.publishSequenceId ∧
    ∀ i, t ∉ s.history.posted i
  notifying_unique : ∀ w w' t, (s.sender w).notifying = some t →
    (s.sender w').notifying = some t → w = w'
  posted : ∀ i t, t ∈ s.history.posted i → 1 ≤ t ∧ t ≤ s.block.publishSequenceId
  writeClaim : ∀ w c t, s.sender w = .writeClaim c t → t = s.block.claimSequenceId
  exclusive : Exclusive s.sem.claim fun w => (s.sender w).claims = true

theorem tickets_initial : Tickets initial where
  publish_lt := by decide
  drawn := by simp [initial]
  live := by simp [initial, SendPc.live]
  live_unique := by simp [initial, SendPc.live]
  notifying := by simp [initial, SendPc.notifying]
  notifying_unique := by simp [initial, SendPc.notifying]
  posted := by simp [initial]
  writeClaim := by simp [initial]
  exclusive := .start (by simp [initial, SendPc.claims])

theorem Tickets.side {s s' : State} (h : Tickets s) (hs : SenderSide s s') : Tickets s' where
  publish_lt := by rw [hs.publish, hs.claim]; exact h.publish_lt
  drawn := by rw [hs.drawn, hs.claim]; exact h.drawn
  live := by rw [hs.sender, hs.publish, hs.claim, hs.drawn]; exact h.live
  live_unique := by rw [hs.sender]; exact h.live_unique
  notifying := by rw [hs.sender, hs.publish, hs.posted]; exact h.notifying
  notifying_unique := by rw [hs.sender]; exact h.notifying_unique
  posted := by rw [hs.posted, hs.publish]; exact h.posted
  writeClaim := by rw [hs.sender, hs.claim]; exact h.writeClaim
  exclusive := by rw [hs.sender, hs.claimSem]; exact h.exclusive

/-- A sender that moves without drawing, publishing or posting. -/
theorem Tickets.relabel {s : State} (h : Tickets s) (w : ℕ) (pc : SendPc) (n : ℕ)
    (hlive : pc.live = (s.sender w).live ∨ pc.live = none)
    (hnotifying : pc.notifying = (s.sender w).notifying ∨ pc.notifying = none)
    (hwrite : ∀ c t, pc = .writeClaim c t → t = s.block.claimSequenceId)
    (hexcl : Exclusive n fun v => (Function.update s.sender w pc v).claims = true) :
    Tickets ({ s with sem.claim := n }.setSender w pc) := by
  have hlive' : ∀ v t c, (Function.update s.sender w pc v).live = some (t, c) →
      (s.sender v).live = some (t, c) := by
    intro v t c hv
    by_cases hvw : v = w
    · subst v
      rw [Function.update_self] at hv
      rcases hlive with he | he <;> rw [he] at hv
      · exact hv
      · cases hv
    · rwa [Function.update_of_ne hvw] at hv
  have hnot' : ∀ v t, (Function.update s.sender w pc v).notifying = some t →
      (s.sender v).notifying = some t := by
    intro v t hv
    by_cases hvw : v = w
    · subst v
      rw [Function.update_self] at hv
      rcases hnotifying with he | he <;> rw [he] at hv
      · exact hv
      · cases hv
    · rwa [Function.update_of_ne hvw] at hv
  refine ⟨h.publish_lt, h.drawn, fun v t c hv => h.live v t c (hlive' v t c hv), ?_,
    fun v t hv => h.notifying v t (hnot' v t hv), ?_, h.posted, ?_, hexcl⟩
  · exact fun v v' t c c' hv hv' => h.live_unique v v' t c c' (hlive' v t c hv) (hlive' v' t c' hv')
  · exact fun v v' t hv hv' => h.notifying_unique v v' t (hnot' v t hv) (hnot' v' t hv')
  · intro v c t hv
    by_cases hvw : v = w
    · subst v
      exact hwrite c t (by simpa using hv)
    · exact h.writeClaim v c t (by simpa [hvw] using hv)

theorem Tickets.draw {s : State} (h : Tickets s) {w t : ℕ} {c : SendCall}
    (hpc : s.sender w = .writeClaim c t) :
    Tickets ({ s with
      block.claimSequenceId := t + 1
      history.drawn := Function.update s.history.drawn t (some c) }.setSender w
        (.releaseClaim c t)) := by
  have ht : t = s.block.claimSequenceId := h.writeClaim w c t hpc
  have hpub := h.publish_lt
  have hclaims : (s.sender w).claims = true := by simp [hpc, SendPc.claims]
  have hlive : ∀ v u d, (Function.update s.sender w (.releaseClaim c t) v).live = some (u, d) →
      v = w ∧ u = t ∧ d = c ∨ v ≠ w ∧ (s.sender v).live = some (u, d) := by
    intro v u d hv
    by_cases hvw : v = w
    · subst v
      simp only [Function.update_self, SendPc.live, Option.some.injEq, Prod.mk.injEq] at hv
      exact .inl ⟨rfl, hv.1.symm, hv.2.symm⟩
    · exact .inr ⟨hvw, by simpa [hvw] using hv⟩
  have hnot : ∀ v u, (Function.update s.sender w (.releaseClaim c t) v).notifying = some u →
      (s.sender v).notifying = some u := by
    intro v u hv
    by_cases hvw : v = w
    · subst v; simp [SendPc.notifying] at hv
    · simpa [hvw] using hv
  constructor
  · show s.block.publishSequenceId < t + 1
    omega
  · intro u d hu
    show 1 ≤ u ∧ u < t + 1
    by_cases hut : u = t
    · omega
    · have := h.drawn u d (by simpa [hut] using hu)
      omega
  · intro v u d hv
    show s.block.publishSequenceId < u ∧ u < t + 1 ∧
      Function.update s.history.drawn t (some c) u = some d
    rcases hlive v u d hv with ⟨-, rfl, rfl⟩ | ⟨-, hv⟩
    · exact ⟨by omega, by omega, by simp⟩
    · obtain ⟨hl, hc, hd⟩ := h.live v u d hv
      exact ⟨hl, by omega, by rw [Function.update_of_ne (by omega)]; exact hd⟩
  · intro v v' u d d' hv hv'
    rcases hlive v u d hv with ⟨rfl, rfl, -⟩ | ⟨-, hold⟩ <;>
      rcases hlive v' _ d' hv' with ⟨rfl, hu, -⟩ | ⟨-, hold'⟩
    · rfl
    · have := (h.live v' _ d' hold').2.1
      omega
    · have := (h.live v u d hold).2.1
      omega
    · exact h.live_unique v v' u d d' hold hold'
  · exact fun v u hv => h.notifying v u (hnot v u hv)
  · exact fun v v' u hv hv' => h.notifying_unique v v' u (hnot v u hv) (hnot v' u hv')
  · exact h.posted
  · intro v d u hv
    by_cases hvw : v = w
    · subst v; simp at hv
    · -- a second sender inside the claim section is impossible
      have hv' : s.sender v = .writeClaim d u := by simpa [hvw] using hv
      exact absurd (h.exclusive.unique v w (by simp [hv', SendPc.claims]) hclaims) hvw
  · refine h.exclusive.shrink fun v hv => ?_
    by_cases hvw : v = w
    · subst v; exact hclaims
    · simpa [hvw] using hv

theorem Tickets.publish {s : State} (h : Tickets s) {w t : ℕ} {c : SendCall}
    (hpc : s.sender w = .write c t []) (hpub : s.block.publishSequenceId = t - 1) :
    Tickets ({ s with block.publishSequenceId := t }.setSender w (.notifyScan c t allClients [])) := by
  obtain ⟨hlt, hclaim, -⟩ := h.live w t c (by simp [hpc, SendPc.live])
  have hlive : ∀ v u d,
      (Function.update s.sender w (.notifyScan c t allClients []) v).live = some (u, d) →
      v ≠ w ∧ (s.sender v).live = some (u, d) := by
    intro v u d hv
    by_cases hvw : v = w
    · subst v; simp [SendPc.live] at hv
    · exact ⟨hvw, by simpa [hvw] using hv⟩
  have hnot : ∀ v u,
      (Function.update s.sender w (.notifyScan c t allClients []) v).notifying = some u →
      v = w ∧ u = t ∨ v ≠ w ∧ (s.sender v).notifying = some u := by
    intro v u hv
    by_cases hvw : v = w
    · subst v
      exact .inl ⟨rfl, by simpa [SendPc.notifying, eq_comm] using hv⟩
    · exact .inr ⟨hvw, by simpa [hvw] using hv⟩
  constructor
  · exact hclaim
  · exact h.drawn
  · intro v u d hv
    obtain ⟨hvw, hold⟩ := hlive v u d hv
    obtain ⟨hl, hc, hd⟩ := h.live v u d hold
    have hne : u ≠ t := by
      rintro rfl
      exact hvw (h.live_unique v w u d c hold (by simp [hpc, SendPc.live]))
    exact ⟨by show t < u; omega, hc, hd⟩
  · exact fun v v' u d d' hv hv' =>
      h.live_unique v v' u d d' (hlive v u d hv).2 (hlive v' u d' hv').2
  · intro v u hv
    show 1 ≤ u ∧ u ≤ t ∧ _
    rcases hnot v u hv with ⟨-, rfl⟩ | ⟨-, hv⟩
    · refine ⟨by omega, le_rfl, fun i hi => ?_⟩
      have := (h.posted i u hi).2
      omega
    · obtain ⟨hone, hle, hp⟩ := h.notifying v u hv
      exact ⟨hone, by omega, hp⟩
  · intro v v' u hv hv'
    rcases hnot v u hv with ⟨rfl, rfl⟩ | ⟨-, hold⟩ <;>
      rcases hnot v' _ hv' with ⟨rfl, hu⟩ | ⟨-, hold'⟩
    · rfl
    · have := (h.notifying v' _ hold').2.1
      omega
    · have := (h.notifying v u hold).2.1
      omega
    · exact h.notifying_unique v v' u hold hold'
  · intro i u hi
    have := h.posted i u hi
    exact ⟨this.1, by show u ≤ t; omega⟩
  · intro v d u hv
    by_cases hvw : v = w
    · subst v; simp at hv
    · exact h.writeClaim v d u (by simpa [hvw] using hv)
  · refine h.exclusive.shrink fun v hv => ?_
    by_cases hvw : v = w
    · subst v; simp [SendPc.claims] at hv
    · simpa [hvw] using hv

theorem Tickets.notify {s : State} (h : Tickets s) {w t : ℕ} {c : SendCall}
    {ops : List ClientSlot} (hpc : s.sender w = .notifyScan c t [] ops) :
    Tickets ({ s with
      sem.client := fun i => if i ∈ ops then s.sem.client i + 1 else s.sem.client i
      history.posted := fun i =>
        if i ∈ ops then insert t (s.history.posted i) else s.history.posted i }.setSender w
          .idle) := by
  obtain ⟨hone, hle, hnew⟩ := h.notifying w t (by simp [hpc, SendPc.notifying])
  have hposted : ∀ i u, u ∈ (if i ∈ ops then insert t (s.history.posted i)
      else s.history.posted i) → u = t ∨ u ∈ s.history.posted i := by
    intro i u hu
    split_ifs at hu
    · exact Finset.mem_insert.mp hu
    · exact .inr hu
  have hbase := h.relabel w .idle s.sem.claim (.inr rfl) (.inr rfl) (by simp)
    (h.exclusive.shrink fun v hv => by
      by_cases hvw : v = w
      · subst v; simp [SendPc.claims] at hv
      · simpa [hvw] using hv)
  refine { hbase with notifying := ?_, posted := ?_ }
  · intro v u hv
    have hvw : v ≠ w := by rintro rfl; simp [SendPc.notifying] at hv
    have hv' : (s.sender v).notifying = some u := by simpa [hvw] using hv
    obtain ⟨h1, h2, h3⟩ := h.notifying v u hv'
    refine ⟨h1, h2, fun i hi => ?_⟩
    rcases hposted i u hi with rfl | hi
    · exact hvw (h.notifying_unique v w u hv' (by simp [hpc, SendPc.notifying]))
    · exact h3 i hi
  · intro i u hi
    rcases hposted i u hi with rfl | hi
    · exact ⟨hone, hle⟩
    · exact h.posted i u hi

theorem Tickets.effect {s s' : State} (h : Tickets s) {w : ℕ} (he : SenderEffect s w s') :
    Tickets s' := by
  have others (pc' : SendPc) (hc : pc'.claims = true → (s.sender w).claims = true) (v : ℕ)
      (hv : (Function.update s.sender w pc' v).claims = true) : (s.sender v).claims = true := by
    by_cases hvw : v = w
    · subst v
      exact hc (by simpa using hv)
    · simpa [hvw] using hv
  cases he with
  | stutter => exact h
  | move pc' b hm =>
    have hr := h.relabel w pc' s.sem.claim hm.live hm.notifying (fun c t hp => hm.writeClaim hp)
      (h.exclusive.shrink (others pc' hm.claims))
    exact { hr with }
  | acquire c hpc hs =>
    refine h.relabel w _ _ (.inr rfl) (.inr rfl) (by simp) (h.exclusive.acquire hs w ?_)
    intro v hv
    by_contra hvw
    exact h.exclusive.free hs v (by simpa [hvw] using hv)
  | draw c t hpc => exact h.draw hpc
  | release c t hpc =>
    refine h.relabel w _ _ (.inl (by simp [hpc, SendPc.live, startScan])) (.inr rfl)
      (by simp [startScan]) (h.exclusive.release (x := w) (by simp [hpc, SendPc.claims]) ?_)
    intro v hv
    have hvw : v ≠ w := by rintro rfl; simp [SendPc.claims, startScan] at hv
    exact ⟨by simpa [hvw] using hv, hvw⟩
  | wake c t hpc hs =>
    have hr := h.relabel w (startScan c t) s.sem.claim
      (.inl (by simp [hpc, SendPc.live, startScan])) (.inr rfl) (by simp [startScan])
      (h.exclusive.shrink (others _ (by simp [SendPc.claims, startScan])))
    exact { hr with }
  | store c t st todo hpc =>
    have hr := h.relabel w (.write c t todo) s.sem.claim (.inl (by simp [hpc, SendPc.live]))
      (.inr rfl) (by simp) (h.exclusive.shrink (others _ (by simp [SendPc.claims])))
    exact { hr with }
  | publish c t hpc hp => exact h.publish hpc hp
  | notify c t ops hpc => exact h.notify hpc

theorem Tickets.step {s s' : State} {a : Action} (h : Tickets s) (hs : machine.step s a = some s') :
    Tickets s' := by
  rcases (step_effect hs).sender_or_side with ⟨w, he⟩ | hside
  · exact h.effect he
  · exact h.side hside

theorem tickets_of_reaches {ok : TransitionSystem.StepCondition State Action} {s : State}
    (h : machine.Reaches ok s) : Tickets s :=
  h.invariant (fun _ hi => hi ▸ tickets_initial) fun _ _ _ _ hp hs _ => hp.step hs

end CommunicationAPI.ShmEngine
