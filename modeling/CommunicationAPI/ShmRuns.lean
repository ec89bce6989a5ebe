import CommunicationAPI.ShmReader

/-!
# Executing the ring

Lists of actions for whole calls, used to exhibit runs. Registrations that
take place before anything is sent satisfy every condition on joining readers.
-/

namespace CommunicationAPI.ShmEngine
open TransitionSystem

def Quiet (s : State) : Prop :=
  (∀ w, s.sender w = .idle) ∧ s.block.claimSequenceId = 1 ∧ s.block.publishSequenceId = 0

theorem quiet_initial : Quiet initial := ⟨fun _ => rfl, rfl, rfl⟩

theorem Quiet.side {s s' : State} (h : Quiet s) (hs : SenderSide s s') : Quiet s' := by
  obtain ⟨hidle, hclaim, hpublish⟩ := h
  exact ⟨by rwa [hs.sender], by rwa [hs.claim], by rwa [hs.publish]⟩

theorem Quiet.joinsEarly {s : State} {a : Action} (h : Quiet s) (s' : State) (p : ℕ) :
    JoinsEarly p s a s' := by
  intro o _
  cases (s.process p).engine with
  | regActivate i => exact ⟨h.2.2, fun w => by rw [h.1 w]; trivial⟩
  | regLoad i => exact h.2.2
  | _ => trivial

def Action.registers : Action → Bool
  | .construct _ | .engine _ _ => true
  | _ => false

theorem Action.process_of_registers {a : Action} (h : a.registers = true) :
    ∃ p, a.process = some p := by
  cases a <;> first | exact ⟨_, rfl⟩ | cases h

theorem Quiet.exec {ok : StepCondition State Action}
    (hok : ∀ s a s', Quiet s → a.registers = true → ok s a s') {as : List Action}
    (has : ∀ a ∈ as, a.registers = true) {s t : State} (hs : machine.Reaches ok s)
    (hq : Quiet s) (he : machine.exec s as = some t) : machine.Reaches ok t := by
  induction as generalizing s with
  | nil => cases he; exact hs
  | cons a as ih =>
    obtain ⟨s', hstep, he⟩ := Option.bind_eq_some_iff.mp he
    have ha := has a List.mem_cons_self
    obtain ⟨p, hp⟩ := Action.process_of_registers ha
    exact ih (fun b hb => has b (List.mem_cons_of_mem a hb)) (hs.step hstep (hok _ _ _ hq ha))
      (hq.side ((step_effect hstep).senderSide hp)) he

/-- A run of registrations, followed by a run that is tested step by step. -/
theorem reaches_after_registration (ok : StepCondition State Action)
    (test : State → Action → State → Bool) (registrations rest : List Action) (goal : State → Bool)
    (hok : ∀ s a s', Quiet s → a.registers = true → ok s a s')
    (htest : ∀ s a s', test s a s' = true → ok s a s')
    (has : ∀ a ∈ registrations, a.registers = true)
    (he : ((machine.exec initial registrations).bind fun s =>
      machine.execIf test s rest).any goal = true) :
    ∃ t, machine.Reaches ok t ∧ goal t = true := by
  obtain ⟨t, ht, hgoal⟩ := (Option.any_eq_true goal _).mp he
  obtain ⟨s, hs, ht⟩ := Option.bind_eq_some_iff.mp ht
  exact ⟨t, (Quiet.exec hok has (.init rfl) quiet_initial hs).execIf htest ht, hgoal⟩

theorem reachable_initial : machine.Reachable initial := .init rfl

def EnginePc.runsIn (i : ClientSlot) : EnginePc → Bool
  | .running j => decide (j = i)
  | _ => false

theorem EnginePc.runsIn_iff {i : ClientSlot} {pc : EnginePc} :
    pc.runsIn i = true ↔ pc = .running i := by
  cases pc <;> simp [EnginePc.runsIn]

def emptyCall : SendCall := ⟨none, broadcastAddr, 0x88B5, [], by decide⟩

def byteCall (b : UInt8) : SendCall := ⟨none, broadcastAddr, 0x88B5, [b], by simp [mtu]⟩

/-- Thread `w` calls `send` and takes `n` steps. -/
def sendActions (w n : ℕ) (c : SendCall) : List Action :=
  .send w c :: List.replicate n (.sender w .ok)

/-- Process `p` constructs its engine in the first inactive entry, entry `i`. -/
def registerActions (p i : ℕ) : List Action :=
  .construct p :: List.replicate (i + 7) (.engine p .ok)

def receiveActions (p : ℕ) : List Action := List.replicate 5 (.receiver p .ok)

def viewAt (k : ℕ) : View := ⟨ringSlot k, k, 0x88B5⟩

/-- Process `p` releases frame `k` while no writer is blocked. -/
def releaseActions (p k : ℕ) : List Action :=
  [.release p (viewAt k), .releaser p (.testBlocked (viewAt k)) .ok,
    .releaser p (.store (viewAt k) false) .ok]

end CommunicationAPI.ShmEngine
