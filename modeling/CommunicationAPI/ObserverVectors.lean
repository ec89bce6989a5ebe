import CommunicationAPI.IndexLoop
import CommunicationAPI.Observed
import Mathlib.Data.List.InsertIdx
import Mathlib.Data.List.ReduceOption

/-!
# The vectors behind the observer registries

Both registries keep their observers and their conditions in two vectors, edited
at the same index. A history of calls leaves in them what it leaves in one list
of pairs.
-/

namespace CommunicationAPI
open IndexLoop

/-- The members `_observers` and `_conditions`. An observer is a pointer, which may be null. -/
structure ObserverVectors (ω γ : Type*) where
  observers : List (Option ω)
  conditions : List γ

inductive RegistryCall (ω γ : Type*)
  | attach (o : ω) (c : γ)
  | detach (o : ω) (c : γ)

namespace ObserverVectors
variable {ω γ δ σ : Type*} [DecidableEq ω] [DecidableEq γ] (r : ObserverVectors ω γ)

def empty : ObserverVectors ω γ := ⟨[], []⟩

def attach (o : Option ω) (c : γ) : ObserverVectors ω γ :=
  ⟨o :: r.observers, c :: r.conditions⟩

def eraseAt (o : Option ω) (c : γ) (i : ℕ) : ObserverVectors ω γ :=
  if r.observers[i]? = some o ∧ r.conditions[i]? = some c then
    ⟨r.observers.eraseIdx i, r.conditions.eraseIdx i⟩
  else r

def detachBelow (o : Option ω) (c : γ) : ℕ → ObserverVectors ω γ → ObserverVectors ω γ
  | 0, r => r
  | i + 1, r => detachBelow o c i (r.eraseAt o c i)

def detach (o : Option ω) (c : γ) : ObserverVectors ω γ :=
  detachBelow o c r.observers.length r

/-- One turn of the loop of `notify`: the flag it returns, and the program after the
update of the observer at index `i`. -/
def visit (update : ω → γ → δ → σ → σ) (c : γ) (d : δ) (s : Bool × σ) (i : ℕ) : Bool × σ :=
  if r.conditions[i]? = some c then
    r.observers[i]?.join.elim s fun o => (true, update o c d s.2)
  else s

def notify (update : ω → γ → δ → σ → σ) (c : γ) (d : δ) (s : σ) : Bool × σ :=
  (List.range r.observers.length).foldl (r.visit update c d) (false, s)

end ObserverVectors

/-- The address of an object. What is there may be changed by an update. -/
abbrev DataPointer := ℕ

/-- `Conditionally_Data_Observed`: each update gets the same pointer. -/
structure ConditionallyDataObserved (ω γ : Type*) where
  vectors : ObserverVectors ω γ

/-- `Value_Conditionally_Data_Observed`: each update gets a copy of the data. -/
structure ValueConditionallyDataObserved (ω γ : Type*) where
  vectors : ObserverVectors ω γ

namespace ConditionallyDataObserved
variable {ω γ σ : Type*} [DecidableEq ω] [DecidableEq γ] (r : ConditionallyDataObserved ω γ)

def attach (o : Option ω) (c : γ) : ConditionallyDataObserved ω γ := ⟨r.vectors.attach o c⟩

def detach (o : Option ω) (c : γ) : ConditionallyDataObserved ω γ := ⟨r.vectors.detach o c⟩

def notify (update : ω → γ → DataPointer → σ → σ) (c : γ) (d : DataPointer) (s : σ) : Bool × σ :=
  r.vectors.notify update c d s

def exec : RegistryCall (Option ω) γ → ConditionallyDataObserved ω γ
  | .attach o c => r.attach o c
  | .detach o c => r.detach o c

def run (calls : List (RegistryCall (Option ω) γ)) : ConditionallyDataObserved ω γ :=
  calls.foldl exec ⟨.empty⟩

end ConditionallyDataObserved

namespace ValueConditionallyDataObserved
variable {ω γ δ σ : Type*} [DecidableEq ω] [DecidableEq γ]
  (r : ValueConditionallyDataObserved ω γ)

def attach (o : Option ω) (c : γ) : ValueConditionallyDataObserved ω γ :=
  ⟨r.vectors.attach o c⟩

def detach (o : Option ω) (c : γ) : ValueConditionallyDataObserved ω γ :=
  ⟨r.vectors.detach o c⟩

def notify (update : ω → γ → δ → σ → σ) (c : γ) (d : δ) (s : σ) : Bool × σ :=
  r.vectors.notify update c d s

def exec : RegistryCall (Option ω) γ → ValueConditionallyDataObserved ω γ
  | .attach o c => r.attach o c
  | .detach o c => r.detach o c

def run (calls : List (RegistryCall (Option ω) γ)) : ValueConditionallyDataObserved ω γ :=
  calls.foldl exec ⟨.empty⟩

end ValueConditionallyDataObserved

namespace Observed
variable {ω γ : Type*} [DecidableEq ω] [DecidableEq γ]

def exec (r : Observed ω γ) : RegistryCall ω γ → Observed ω γ
  | .attach o c => r.attach o c
  | .detach o c => r.detach o c

def run (calls : List (RegistryCall ω γ)) : Observed ω γ := calls.foldl exec []

end Observed

namespace ObserverVectors
variable {ω γ δ σ : Type*} {r : ObserverVectors ω γ} {l : Observed (Option ω) γ}

/-- The vectors hold the observers and the conditions of the pairs, index by index. -/
structure Holds (r : ObserverVectors ω γ) (l : Observed (Option ω) γ) : Prop where
  observers : r.observers = l.map Prod.fst
  conditions : r.conditions = l.map Prod.snd

def visitPair [DecidableEq γ] (update : ω → γ → δ → σ → σ) (c : γ) (d : δ) (s : Bool × σ)
    (e : Option ω × γ) : Bool × σ :=
  if e.2 = c then e.1.elim s fun o => (true, update o c d s.2) else s

/-- The flag is set by the first observer that is not null and is never reset. -/
theorem foldl_visitPair [DecidableEq γ] (update : ω → γ → δ → σ → σ) (c : γ) (d : δ) (b : Bool)
    (s : σ) : l.foldl (visitPair update c d) (b, s) =
      (b || !(l.notify c).reduceOption.isEmpty,
        (l.notify c).reduceOption.foldl (fun s o => update o c d s) s) := by
  induction l generalizing b s with
  | nil => simp [Observed.notify]
  | cons e l ih =>
    obtain ⟨o, c'⟩ := e
    rw [List.foldl_cons]
    by_cases hc : c' = c
    · have hnotify : Observed.notify ((o, c') :: l) c = o :: Observed.notify l c := by
        simp [Observed.notify, hc]
      cases o with
      | none =>
        rw [hnotify, List.reduceOption_cons_of_none]
        simp only [visitPair, hc, if_true, Option.elim_none]
        exact ih b s
      | some o =>
        rw [hnotify, List.reduceOption_cons_of_some]
        simp only [visitPair, hc, if_true, Option.elim_some]
        rw [ih]
        simp
    · have hnotify : Observed.notify ((o, c') :: l) c = Observed.notify l c := by
        simp [Observed.notify, hc]
      rw [hnotify]
      simp only [visitPair, if_neg hc]
      exact ih b s

theorem holds_empty : Holds (ObserverVectors.empty : ObserverVectors ω γ) [] := ⟨rfl, rfl⟩

namespace Holds

theorem length_observers (h : r.Holds l) : r.observers.length = l.length := by
  rw [h.observers, List.length_map]

theorem length_eq (h : r.Holds l) : r.observers.length = r.conditions.length := by
  rw [h.length_observers, h.conditions, List.length_map]

/-- The vectors are aligned. -/
theorem getElem?_eq_some_iff (h : r.Holds l) (i : ℕ) (o : Option ω) (c : γ) :
    l[i]? = some (o, c) ↔ r.observers[i]? = some o ∧ r.conditions[i]? = some c := by
  rw [h.observers, h.conditions, List.getElem?_map, List.getElem?_map]
  cases l[i]? with
  | none => simp
  | some e => simp [Prod.ext_iff]

theorem attach (h : r.Holds l) (o : Option ω) (c : γ) : (r.attach o c).Holds (l.attach o c) where
  observers := congrArg (o :: ·) h.observers
  conditions := congrArg (c :: ·) h.conditions

variable [DecidableEq ω] [DecidableEq γ]

/-- One turn of the loop erases one pair from the list or none. -/
theorem eraseAt (h : r.Holds l) (o : Option ω) (c : γ) (i : ℕ) :
    (r.eraseAt o c i).Holds
      (if l[i]?.any (fun e => decide (e = (o, c))) then l.eraseIdx i else l) := by
  have hmatches : l[i]?.any (fun e => decide (e = (o, c))) = true ↔
      r.observers[i]? = some o ∧ r.conditions[i]? = some c := by
    rw [← h.getElem?_eq_some_iff]
    cases l[i]? <;> simp
  unfold ObserverVectors.eraseAt
  by_cases hat : r.observers[i]? = some o ∧ r.conditions[i]? = some c
  · rw [if_pos hat, if_pos (hmatches.mpr hat)]
    refine ⟨?_, ?_⟩
    · change r.observers.eraseIdx i = (l.eraseIdx i).map Prod.fst
      rw [h.observers, List.eraseIdx_map]
    · change r.conditions.eraseIdx i = (l.eraseIdx i).map Prod.snd
      rw [h.conditions, List.eraseIdx_map]
  · rw [if_neg hat, if_neg (hmatches.not.mpr hat)]
    exact h

theorem detachBelow (h : r.Holds l) (o : Option ω) (c : γ) (n : ℕ) :
    (ObserverVectors.detachBelow o c n r).Holds
      (eraseDown (fun e => decide (e = (o, c))) n l) := by
  induction n generalizing r l with
  | zero => exact h
  | succ i ih => exact ih (h.eraseAt o c i)

theorem detach (h : r.Holds l) (o : Option ω) (c : γ) : (r.detach o c).Holds (l.detach o c) := by
  have hloop := h.detachBelow o c r.observers.length
  rw [h.length_observers, eraseDown_length] at hloop
  unfold ObserverVectors.detach Observed.detach
  rw [h.length_observers]
  simpa using hloop

omit [DecidableEq ω] in
theorem visit_eq (h : r.Holds l) (update : ω → γ → δ → σ → σ) (c : γ) (d : δ) (s : Bool × σ)
    (i : ℕ) : r.visit update c d s i = l[i]?.elim s (visitPair update c d s) := by
  unfold ObserverVectors.visit
  rw [h.observers, h.conditions, List.getElem?_map, List.getElem?_map]
  cases l[i]? with
  | none => rfl
  | some e => simp [visitPair]

omit [DecidableEq ω] in
/-- The loop updates the observers attached for the condition, in the order of the list. -/
theorem notify_eq (h : r.Holds l) (update : ω → γ → δ → σ → σ) (c : γ) (d : δ) (s : σ) :
    r.notify update c d s =
      (!(l.notify c).reduceOption.isEmpty,
        (l.notify c).reduceOption.foldl (fun s o => update o c d s) s) := by
  have hloop : r.notify update c d s = visitUp (visitPair update c d) l (false, s) := by
    unfold ObserverVectors.notify visitUp
    rw [h.length_observers]
    exact List.foldl_ext _ _ _ fun s i _ => h.visit_eq update c d s i
  rw [hloop, visitUp_eq_foldl, foldl_visitPair, Bool.false_or]

end Holds

/-- A registry that is the list of pairs `l`: the vectors are aligned, `detach` removes
the pairs equal to its arguments and keeps the order of the others, and `notify` updates
the observers attached for the condition that are not null, one after the other. -/
structure Refines [DecidableEq ω] [DecidableEq γ] (v : ObserverVectors ω γ)
    (detach : Option ω → γ → ObserverVectors ω γ)
    (notify : (ω → γ → δ → σ → σ) → γ → δ → σ → Bool × σ)
    (l : Observed (Option ω) γ) : Prop where
  length_eq : v.observers.length = v.conditions.length
  aligned : ∀ (i : ℕ) (o : Option ω) (c : γ),
    l[i]? = some (o, c) ↔ v.observers[i]? = some o ∧ v.conditions[i]? = some c
  detached : ∀ o c, (detach o c).Holds (l.filter fun e => e ≠ (o, c))
  updated : ∀ update c d s,
    (notify update c d s).2 = (l.notify c).reduceOption.foldl (fun s o => update o c d s) s
  returned : ∀ update c d s, (notify update c d s).1 = true ↔ ∃ o, (some o, c) ∈ l

theorem Holds.refines [DecidableEq ω] [DecidableEq γ] (h : r.Holds l) :
    Refines r r.detach (fun update : ω → γ → δ → σ → σ => r.notify update) l where
  length_eq := h.length_eq
  aligned := h.getElem?_eq_some_iff
  detached := h.detach
  updated update c d s := by rw [h.notify_eq]
  returned update c d s := by
    rw [h.notify_eq, Bool.not_eq_true', List.isEmpty_eq_false_iff_exists_mem]
    simp only [List.reduceOption_mem_iff, Observed.mem_notify]

end ObserverVectors

section
variable {ω γ δ σ : Type*} [DecidableEq ω] [DecidableEq γ]

/-- A registry whose calls edit its vectors as `attach` and `detach` do holds what the
history leaves, by induction on the calls. -/
theorem ObserverVectors.Holds.foldl_exec {ρ : Type*} (vectors : ρ → ObserverVectors ω γ)
    {exec : ρ → RegistryCall (Option ω) γ → ρ}
    (hattach : ∀ v o c, vectors (exec v (.attach o c)) = (vectors v).attach o c)
    (hdetach : ∀ v o c, vectors (exec v (.detach o c)) = (vectors v).detach o c)
    (calls : List (RegistryCall (Option ω) γ)) {v : ρ} {l : Observed (Option ω) γ}
    (h : (vectors v).Holds l) :
    (vectors (calls.foldl exec v)).Holds (calls.foldl Observed.exec l) := by
  induction calls generalizing v l with
  | nil => exact h
  | cons call calls ih =>
    refine ih ?_
    cases call with
    | attach o c =>
      rw [hattach]
      exact h.attach o c
    | detach o c =>
      rw [hdetach]
      exact h.detach o c

theorem ConditionallyDataObserved.run_holds (calls : List (RegistryCall (Option ω) γ)) :
    (ConditionallyDataObserved.run calls).vectors.Holds (Observed.run calls) :=
  ObserverVectors.Holds.foldl_exec vectors (fun _ _ _ => rfl) (fun _ _ _ => rfl) calls
    ObserverVectors.holds_empty

theorem ValueConditionallyDataObserved.run_holds (calls : List (RegistryCall (Option ω) γ)) :
    (ValueConditionallyDataObserved.run calls).vectors.Holds (Observed.run calls) :=
  ObserverVectors.Holds.foldl_exec vectors (fun _ _ _ => rfl) (fun _ _ _ => rfl) calls
    ObserverVectors.holds_empty

/-- After every history of calls both registries are the list of pairs that the history
leaves. -/
theorem registries_refine (calls : List (RegistryCall (Option ω) γ)) :
    ObserverVectors.Refines (ConditionallyDataObserved.run calls).vectors
        (fun o c => ((ConditionallyDataObserved.run calls).detach o c).vectors)
        (fun update : ω → γ → DataPointer → σ → σ =>
          (ConditionallyDataObserved.run calls).notify update)
        (Observed.run calls) ∧
      ObserverVectors.Refines (ValueConditionallyDataObserved.run calls).vectors
        (fun o c => ((ValueConditionallyDataObserved.run calls).detach o c).vectors)
        (fun update : ω → γ → δ → σ → σ =>
          (ValueConditionallyDataObserved.run calls).notify update)
        (Observed.run calls) :=
  ⟨(ConditionallyDataObserved.run_holds calls).refines,
    (ValueConditionallyDataObserved.run_holds calls).refines⟩

def RegistryCall.map {ω' : Type*} (f : ω → ω') : RegistryCall ω γ → RegistryCall ω' γ
  | .attach o c => .attach (f o) c
  | .detach o c => .detach (f o) c

theorem Observed.run_map_some (calls : List (RegistryCall ω γ)) :
    Observed.run (calls.map (.map some)) =
      (Observed.run calls).map fun e => (some e.1, e.2) := by
  unfold Observed.run
  rw [List.foldl_map]
  refine List.foldl_rel
    (r := fun (l : Observed (Option ω) γ) (l' : Observed ω γ) =>
      l = l'.map fun e => (some e.1, e.2)) rfl ?_
  rintro call - _ l rfl
  cases call with
  | attach o c => rfl
  | detach o c =>
    change (l.map fun e => (some e.1, e.2)).filter _ = (l.filter _).map _
    rw [List.filter_map]
    congr 1
    refine List.filter_congr fun e _ => ?_
    simp [Prod.ext_iff]

omit [DecidableEq ω] in
theorem Observed.reduceOption_notify_map (l : Observed ω γ) (c : γ) :
    (Observed.notify (l.map fun e => (some e.1, e.2)) c).reduceOption = l.notify c := by
  unfold Observed.notify List.reduceOption
  rw [List.filter_map, List.map_map, List.filterMap_map]
  exact congrFun List.filterMap_eq_map' _

/-- Where no observer is null the registry does what the endpoints take it to do. -/
theorem ConditionallyDataObserved.notify_nonNull (calls : List (RegistryCall ω γ))
    (update : ω → γ → DataPointer → σ → σ) (c : γ) (d : DataPointer) (s : σ) :
    (run (calls.map (.map some))).notify update c d s =
      (!((Observed.run calls).notify c).isEmpty,
        ((Observed.run calls).notify c).foldl (fun s o => update o c d s) s) := by
  have hholds := run_holds (calls.map (.map some))
  rw [Observed.run_map_some] at hholds
  unfold notify
  rw [hholds.notify_eq, Observed.reduceOption_notify_map]

end
end CommunicationAPI
