import CommunicationAPI.ShmRuns

/-!
# Abandoned tickets

A ticket is drawn before two calls that can fail: the `semop` that gives
`CLAIM_SEM` back and the wait on `WRITER_WAIT_SEM`. A `send` that returns at
one of them abandons its ticket, and the publish counter never passes it.
-/

namespace CommunicationAPI.ShmEngine
open TransitionSystem

/-- Every ticket drawn is published or belongs to a `send` still executing. -/
def NoHole (s : State) : Prop :=
  ∀ t < s.block.claimSequenceId, t ≤ s.block.publishSequenceId ∨
    ∃ w c, (s.sender w).live = some (t, c)

/-- A `send` that has not published waits only for others that will. -/
def CanPublish (s : State) : Prop :=
  ∀ w t c, (s.sender w).live = some (t, c) → ∀ u, s.block.publishSequenceId < u → u < t →
    ∃ v d, (s.sender v).live = some (u, d)

/-- Ticket `t` is drawn, not published and no longer anyone's. -/
structure Stranded (t : ℕ) (s : State) : Prop where
  unpublished : s.block.publishSequenceId < t
  drawn : t < s.block.claimSequenceId
  nobodys : ∀ w c, (s.sender w).live ≠ some (t, c)

/-- The step returns -1 from a `send` that has drawn a ticket: the release of
`CLAIM_SEM` fails, or the wait on `WRITER_WAIT_SEM` has failed. -/
def strands (s : State) : Action → Bool
  | .sender w o =>
    match s.sender w with
    | .releaseClaim _ _ => decide (o ≠ .ok)
    | .giveUp _ _ => true
    | _ => false
  | _ => false

theorem NoHole.canPublish {s : State} (h : NoHole s) (ht : Tickets s) : CanPublish s := by
  intro w t c hw u hpub hu
  rcases h u (lt_trans hu (ht.live w t c hw).2.1) with hle | howner
  · omega
  · exact howner

theorem Stranded.hole {t : ℕ} {s : State} (h : Stranded t s) : ¬ NoHole s := by
  intro hn
  rcases hn t h.drawn with hle | ⟨w, c, hw⟩
  · exact absurd h.unpublished (by omega)
  · exact h.nobodys w c hw

/-- What a step does to the tickets: they are all where they were, one is
drawn, one is published or one is abandoned. -/
inductive TicketEffect (s : State) (a : Action) (s' : State) : Prop
  | keep : s'.block.claimSequenceId = s.block.claimSequenceId →
      s'.block.publishSequenceId = s.block.publishSequenceId →
      (∀ v, (s'.sender v).live = (s.sender v).live) → strands s a = false → TicketEffect s a s'
  | draw (w c) : (s.sender w).live = none →
      s'.block.claimSequenceId = s.block.claimSequenceId + 1 →
      s'.block.publishSequenceId = s.block.publishSequenceId →
      (s'.sender w).live = some (s.block.claimSequenceId, c) →
      (∀ v ≠ w, s'.sender v = s.sender v) → strands s a = false → TicketEffect s a s'
  | publish (w t c) : (s.sender w).live = some (t, c) →
      s'.block.claimSequenceId = s.block.claimSequenceId →
      s.block.publishSequenceId = t - 1 → s'.block.publishSequenceId = t →
      (s'.sender w).live = none →
      (∀ v ≠ w, s'.sender v = s.sender v) → strands s a = false → TicketEffect s a s'
  | strand (w t c) : (s.sender w).live = some (t, c) →
      s'.block.claimSequenceId = s.block.claimSequenceId →
      s'.block.publishSequenceId = s.block.publishSequenceId →
      (s'.sender w).live = none →
      (∀ v ≠ w, s'.sender v = s.sender v) → strands s a = true → TicketEffect s a s'

theorem setSender_live {s : State} {w : ℕ} {pc : SendPc} (h : pc.live = (s.sender w).live) (v : ℕ) :
    (Function.update s.sender w pc v).live = (s.sender v).live := by
  by_cases hvw : v = w
  · subst v; simpa using h
  · simp [hvw]

/-- A step of `send` that abandons its ticket. -/
theorem senderStep_strands {s s' : State} {w : ℕ} {o : Outcome}
    (h : senderStep s w o = some s') (hs : strands s (.sender w o) = true) :
    TicketEffect s (.sender w o) s' := by
  have hidle : ∀ v ≠ w, Function.update s.sender w .idle v = s.sender v :=
    fun v hv => Function.update_of_ne hv _ _
  cases hpc : s.sender w with
  | releaseClaim c t =>
    have ho : o ≠ .ok := by simpa [strands, hpc] using hs
    simp only [senderStep, hpc, if_neg ho] at h
    cases h
    exact .strand w t c (by rw [hpc]; rfl) rfl rfl (by simp [SendPc.live]) hidle hs
  | giveUp c t =>
    simp only [senderStep, hpc] at h
    cases h
    exact .strand w t c (by rw [hpc]; rfl) rfl rfl (by simp [SendPc.live]) hidle hs
  | _ => simp [strands, hpc] at hs

/-- A move of `send` that abandons nothing leaves the tickets where they are. -/
theorem senderStep_live {s s' : State} {w : ℕ} {o : Outcome} {pc : SendPc}
    (h : senderStep s w o = some s') (hs : strands s (.sender w o) = false)
    (hm : LocalMove s (s.sender w) pc) (hpc : s'.sender w = pc) :
    pc.live = (s.sender w).live := by
  cases hw : s.sender w with
  | releaseClaim c t =>
    have ho : o = .ok := by simpa [strands, hw] using hs
    simp only [senderStep, hw, if_pos ho] at h
    cases h
    rw [← hpc]
    simp [SendPc.live, startScan]
  | giveUp c t => simp [strands, hw] at hs
  | _ => rw [hw] at hm; cases hm <;> rfl

theorem senderStep_tickets {s s' : State} {w : ℕ} {o : Outcome} (ht : Tickets s)
    (h : senderStep s w o = some s') : TicketEffect s (.sender w o) s' := by
  cases hs : strands s (.sender w o) with
  | true => exact senderStep_strands h hs
  | false =>
    cases senderStep_effect h with
    | stutter => exact .keep rfl rfl (fun _ => rfl) hs
    | move pc b hm =>
      exact .keep rfl rfl (setSender_live (s := s) (senderStep_live h hs hm (by simp))) hs
    | acquire c hpc => exact .keep rfl rfl (setSender_live (by rw [hpc]; rfl)) hs
    | draw c t hpc =>
      obtain rfl := ht.writeClaim w c t hpc
      exact .draw w c (by rw [hpc]; rfl) rfl rfl (by simp [SendPc.live])
        (fun v hv => Function.update_of_ne hv _ _) hs
    | release c t hpc => exact .keep rfl rfl (setSender_live (by rw [hpc]; rfl)) hs
    | wake c t hpc => exact .keep rfl rfl (setSender_live (by rw [hpc]; rfl)) hs
    | store c t st todo hpc => exact .keep rfl rfl (setSender_live (by rw [hpc]; rfl)) hs
    | publish c t hpc hpub =>
      exact .publish w t c (by rw [hpc]; rfl) rfl hpub rfl (by simp [SendPc.live])
        (fun v hv => Function.update_of_ne hv _ _) hs
    | notify c t ops hpc => exact .keep rfl rfl (setSender_live (by rw [hpc]; rfl)) hs

theorem step_tickets {s s' : State} {a : Action} (ht : Tickets s)
    (h : machine.step s a = some s') : TicketEffect s a s' := by
  have side (hside : SenderSide s s') (hs : strands s a = false) : TicketEffect s a s' :=
    .keep hside.claim hside.publish (fun v => by rw [hside.sender]) hs
  cases step_effect h with
  | send hidle he =>
    simp only [machine, step, hidle, Option.some.injEq] at h
    subst h
    exact .keep rfl rfl (setSender_live (by rw [hidle]; rfl)) rfl
  | sender he => exact senderStep_tickets ht h
  | construct _ he | destroy _ he | engine he => exact side he.senderSide rfl
  | receiver _ he => exact side he.senderSide rfl
  | releaser _ _ he => exact side he.senderSide rfl
  | stop | release => exact side ⟨rfl, rfl, rfl, rfl, rfl, rfl, rfl⟩ rfl

theorem noHole_initial : NoHole initial := by
  intro t ht
  exact .inl (Nat.le_of_lt_succ ht)

/-- A step that abandons no ticket leaves no hole. -/
theorem NoHole.step {s s' : State} {a : Action} (h : NoHole s) (ht : Tickets s)
    (hs : machine.step s a = some s') (hok : strands s a = false) : NoHole s' := by
  -- the owner of `u` is not `w`, so the step has left it alone
  have other {w : ℕ} {u : ℕ} {v : ℕ} {d : SendCall} (hsame : ∀ v ≠ w, s'.sender v = s.sender v)
      (hvw : v ≠ w) (hv : (s.sender v).live = some (u, d)) :
      ∃ v d, (s'.sender v).live = some (u, d) := ⟨v, d, by rw [hsame v hvw]; exact hv⟩
  intro u hu
  cases step_tickets ht hs with
  | keep hclaim hpub hlive _ =>
    rw [hpub]
    rcases h u (hclaim ▸ hu) with hle | ⟨v, d, hv⟩
    · exact .inl hle
    · exact .inr ⟨v, d, (hlive v).trans hv⟩
  | draw w c hw hclaim hpub hnew hsame _ =>
    rw [hpub]
    rcases Nat.lt_succ_iff_lt_or_eq.mp (hclaim ▸ hu) with hlt | rfl
    · rcases h u hlt with hle | ⟨v, d, hv⟩
      · exact .inl hle
      · have hvw : v ≠ w := by rintro rfl; rw [hw] at hv; cases hv
        exact .inr (other hsame hvw hv)
    · exact .inr ⟨w, c, hnew⟩
  | publish w t c hw hclaim hprev hpub _ hsame _ =>
    rw [hpub]
    rcases h u (hclaim ▸ hu) with hle | ⟨v, d, hv⟩
    · exact .inl (by omega)
    · by_cases hvw : v = w
      · subst v
        rw [hw] at hv
        cases hv
        exact .inl (Nat.le_refl u)
      · exact .inr (other hsame hvw hv)
  | strand w t c _ _ _ _ _ hstrands => rw [hok] at hstrands; cases hstrands

/-- The ticket that a step abandons is stranded. -/
theorem stranded_of_strands {s s' : State} {a : Action} (ht : Tickets s)
    (hs : machine.step s a = some s') (hstrands : strands s a = true) : ∃ t, Stranded t s' := by
  cases step_tickets ht hs with
  | strand w t c hw hclaim hpub hnone hsame _ =>
    obtain ⟨hlt, hdrawn, -⟩ := ht.live w t c hw
    refine ⟨t, by rw [hpub]; exact hlt, by rw [hclaim]; exact hdrawn, fun v d hv => ?_⟩
    by_cases hvw : v = w
    · subst v
      rw [hnone] at hv
      cases hv
    · rw [hsame v hvw] at hv
      exact hvw (ht.live_unique v w t d c hv hw)
  | keep _ _ _ h | draw _ _ _ _ _ _ _ h | publish _ _ _ _ _ _ _ _ _ h =>
    rw [hstrands] at h; cases h

/-- A stranded ticket stays stranded: to pass it the publish counter would have
to step on it, and nobody is left to publish it. -/
theorem Stranded.step {t : ℕ} {s s' : State} {a : Action} (h : Stranded t s) (ht : Tickets s)
    (hs : machine.step s a = some s') : Stranded t s' := by
  obtain ⟨hlt, hdrawn, hnobody⟩ := h
  have rest {w : ℕ} (hsame : ∀ v ≠ w, s'.sender v = s.sender v) (v : ℕ) (d : SendCall)
      (hvw : v ≠ w) : (s'.sender v).live ≠ some (t, d) := by
    rw [hsame v hvw]
    exact hnobody v d
  cases step_tickets ht hs with
  | keep hclaim hpub hlive _ =>
    exact ⟨by rwa [hpub], by rwa [hclaim], fun v d => by rw [hlive v]; exact hnobody v d⟩
  | draw w c _ hclaim hpub hnew hsame _ =>
    refine ⟨by rwa [hpub], by omega, fun v d hv => ?_⟩
    by_cases hvw : v = w
    · subst v
      simp only [hnew, Option.some.injEq, Prod.mk.injEq] at hv
      omega
    · exact rest hsame v d hvw hv
  | publish w u c hw hclaim hprev hpub hnone hsame _ =>
    have hne : u ≠ t := by rintro rfl; exact hnobody w c hw
    refine ⟨by omega, by rwa [hclaim], fun v d hv => ?_⟩
    by_cases hvw : v = w
    · subst v
      rw [hnone] at hv
      cases hv
    · exact rest hsame v d hvw hv
  | strand w u c _ hclaim hpub hnone hsame _ =>
    refine ⟨by rwa [hpub], by rwa [hclaim], fun v d hv => ?_⟩
    by_cases hvw : v = w
    · subst v
      rw [hnone] at hv
      cases hv
    · exact rest hsame v d hvw hv

/-- From an abandoned ticket on, in every run, the publish counter stays below it. -/
theorem Stranded.exec {t : ℕ} {s s' : State} {as : List Action} (h : Stranded t s)
    (ht : Tickets s) (he : machine.exec s as = some s') : Stranded t s' := by
  induction as generalizing s with
  | nil => cases he; exact h
  | cons a as ih =>
    obtain ⟨r, hstep, he⟩ := Option.bind_eq_some_iff.mp he
    exact ih (h.step ht hstep) (ht.step hstep) he

/-- In a run that abandons no ticket there is no hole, and the first step that
abandons one leaves one. -/
theorem noHole_iff_keeps {s : State} (hs : machine.Reaches (fun s a _ => strands s a = false) s) :
    (NoHole s ∧ CanPublish s) ∧
      ∀ a s', machine.step s a = some s' → (NoHole s' ∧ CanPublish s' ↔ strands s a = false) := by
  refine hs.exact (P := fun s => NoHole s ∧ CanPublish s) (I := fun s => Tickets s ∧ NoHole s)
    ?_ ?_ ?_ ?_
  · rintro s rfl
    exact ⟨tickets_initial, noHole_initial⟩
  · exact fun s h => ⟨h.2, h.2.canPublish h.1⟩
  · exact fun s a s' h hstep hok => ⟨h.1.step hstep, h.2.step h.1 hstep hok⟩
  · intro s a s' h hstep hP
    by_contra hstrands
    obtain ⟨t, ht⟩ := stranded_of_strands h.1 hstep (by simpa using hstrands)
    exact ht.hole hP.1

/-- A `send` that failed before it drew a ticket, and one that waits for the other. -/
theorem noHole_iff_keeps_acquireFailed : ∃ s,
    machine.Reaches (fun s a _ => strands s a = false) s ∧
      (s.sender 2).live.map Prod.fst = some 2 ∧ NoHole s ∧ CanPublish s := by
  have hrun : (machine.execIf (fun s a _ => !strands s a) initial
      (sendActions 0 4 emptyCall ++ [.send 1 emptyCall, .sender 1 .failed] ++
        sendActions 2 4 emptyCall)).any
      (fun s => (s.sender 2).live.map Prod.fst = some 2) = true := by decide +kernel
  obtain ⟨s, hs, hwaits⟩ := (Option.any_eq_true _ _).mp hrun
  have hreach : machine.Reaches (fun s a _ => strands s a = false) s :=
    Machine.Reaches.execIf (fun _ _ _ h => by simpa using h) (.init rfl) hs
  exact ⟨s, hreach, by simpa using hwaits, (noHole_iff_keeps hreach).1⟩

/-- The release of `CLAIM_SEM` fails: ticket 1 is drawn, not published and no
one's, and in every run from there the publish counter stays below it. -/
theorem not_noHole_releaseFailed : ∃ s, machine.Reachable s ∧ (s.sender 0).live = none ∧
    ¬ NoHole s ∧ ∀ as s', machine.exec s as = some s' → ¬ NoHole s' ∧
      s'.block.publishSequenceId = 0 := by
  have hrun : (machine.exec initial (sendActions 0 3 emptyCall)).any (fun s =>
      strands s (.sender 0 .failed) && (machine.step s (.sender 0 .failed)).any fun s' =>
        s'.block.claimSequenceId = 2 ∧ (s'.sender 0).live.map Prod.fst = none) = true := by
    decide +kernel
  obtain ⟨s, -, hs, hgoal⟩ := reachable_initial.exec_any _ _ hrun
  obtain ⟨hstrands, hnext⟩ := Bool.and_eq_true_iff.mp hgoal
  obtain ⟨s', hstep, hs'⟩ := (Option.any_eq_true _ _).mp hnext
  obtain ⟨hclaim, hlive⟩ := of_decide_eq_true hs'
  have ht : Tickets s := tickets_of_reaches hs
  obtain ⟨t, hstranded⟩ := stranded_of_strands ht hstep hstrands
  have ht1 : t < 2 := hclaim ▸ hstranded.drawn
  refine ⟨s', hs.step hstep trivial, by simpa using hlive, hstranded.hole, fun as r hr => ?_⟩
  have hafter : Stranded t r := hstranded.exec (ht.step hstep) hr
  have hunpublished := hafter.unpublished
  exact ⟨hafter.hole, by omega⟩

end CommunicationAPI.ShmEngine
