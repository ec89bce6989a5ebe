import CommunicationAPI.Component
import CommunicationAPI.Ethernet
import Mathlib.Algebra.GCDMonoid.Multiset
import Mathlib.Algebra.GCDMonoid.Nat

/-!
# The TEDS handler of a component

The handler keeps the subscribers of each type with their periods, and tells its
component how often to respond.
-/

namespace CommunicationAPI
open Octets

structure SubscriberInfo where
  address : Address
  period : Period
  deriving DecidableEq

abbrev Subscribers := List (TedsType × List SubscriberInfo)

namespace Subscribers

def get (m : Subscribers) (type : TedsType) : List SubscriberInfo := (m.lookup type).getD []

def set (type : TedsType) (list : List SubscriberInfo) : Subscribers → Subscribers
  | [] => [(type, list)]
  | (type', list') :: m =>
    if type < type' then (type, list) :: (type', list') :: m
    else if type = type' then (type, list) :: m
    else (type', list') :: set type list m

end Subscribers

/-- A new period for a known subscriber, or a new subscriber. -/
def subscribe (source : Address) (period : Period) : List SubscriberInfo → List SubscriberInfo
  | [] => [⟨source, period⟩]
  | sub :: list =>
    if sub.address = source then { sub with period := period } :: list
    else sub :: subscribe source period list

/-- `new_gcd` of `cleanup_loop`, for a list that is not empty. -/
def newGcd : List SubscriberInfo → Period
  | [] => 0
  | sub :: list => list.foldl (fun g sub => gcd g sub.period) sub.period

structure TedsHandler where
  component : Component
  subscribers : Subscribers

namespace TedsHandler

/-- `TEDSHandler::handleTEDSMessage`. A response only changes the actuator. -/
def handleTedsMessage (h : TedsHandler) (source : Address) (payload : Memory) : TedsHandler :=
  let type := Teds.headerType payload
  if Teds.isRequest type then
    let period := Teds.intervalMs payload
    { component := h.component.notifyInterestRequest period type false
      subscribers := h.subscribers.set type (subscribe source period (h.subscribers.get type)) }
  else h

def notifyRemaining (c : Component) (type : TedsType) (list : List SubscriberInfo) : Component :=
  if list.isEmpty then c.notifyInterestRequest 0 type true
  else c.notifyInterestRequest (newGcd list) type true

/-- One pass of `cleanup_loop`. -/
def cleanup (nearby : Address → Bool) (c : Component) : Subscribers → TedsHandler
  | [] => ⟨c, []⟩
  | (type, list) :: m =>
    let remaining := list.filter fun sub => nearby sub.address
    let c := if remaining.length ≠ list.length then notifyRemaining c type remaining else c
    let h := cleanup nearby c m
    if remaining.isEmpty then h else { h with subscribers := (type, remaining) :: h.subscribers }

end TedsHandler

def periodGcd (list : List SubscriberInfo) : ℕ :=
  (Multiset.map (fun sub : SubscriberInfo => sub.period.toNat) list).gcd

theorem dvd_periodGcd {list : List SubscriberInfo} {d : ℕ} :
    d ∣ periodGcd list ↔ ∀ sub ∈ list, d ∣ sub.period.toNat := by
  unfold periodGcd
  rw [Multiset.dvd_gcd]
  simp

theorem periodGcd_cons (sub : SubscriberInfo) (list : List SubscriberInfo) :
    periodGcd (sub :: list) = Nat.gcd sub.period.toNat (periodGcd list) := by
  unfold periodGcd
  rw [← Multiset.cons_coe, Multiset.map_cons, Multiset.gcd_cons]
  rfl

theorem toNat_foldl_gcd (list : List SubscriberInfo) (g : Period) :
    (list.foldl (fun g sub => gcd g sub.period) g).toNat = Nat.gcd g.toNat (periodGcd list) := by
  induction list generalizing g with
  | nil => simp [periodGcd]
  | cons sub list ih =>
      rw [List.foldl_cons, ih, toNat_gcd, periodGcd_cons, Nat.gcd_assoc]

theorem toNat_newGcd (list : List SubscriberInfo) : (newGcd list).toNat = periodGcd list := by
  cases list with
  | nil => simp [newGcd, periodGcd]
  | cons sub list =>
      unfold newGcd
      rw [toNat_foldl_gcd, periodGcd_cons]

section
variable {source : Address} {period : Period} {sub : SubscriberInfo} {list : List SubscriberInfo}

theorem subscribe_ne_nil : subscribe source period list ≠ [] := by
  cases list with
  | nil => simp [subscribe]
  | cons sub list =>
      unfold subscribe
      split_ifs <;> simp

theorem exists_mem_subscribe (source : Address) (period : Period) (list : List SubscriberInfo) :
    ∃ sub ∈ subscribe source period list, sub.period = period := by
  induction list with
  | nil => exact ⟨⟨source, period⟩, List.mem_singleton_self _, rfl⟩
  | cons sub list ih =>
      unfold subscribe
      split_ifs with h
      · exact ⟨_, List.mem_cons_self, rfl⟩
      · obtain ⟨sub', hmem, hperiod⟩ := ih
        exact ⟨sub', List.mem_cons_of_mem _ hmem, hperiod⟩

theorem mem_of_mem_subscribe (h : sub ∈ subscribe source period list) :
    sub.period = period ∨ sub ∈ list := by
  induction list with
  | nil =>
      rw [List.mem_singleton.mp h]
      exact .inl rfl
  | cons sub' list ih =>
      unfold subscribe at h
      split_ifs at h with hsource
      · rcases List.mem_cons.mp h with rfl | h
        · exact .inl rfl
        · exact .inr (List.mem_cons_of_mem _ h)
      · rcases List.mem_cons.mp h with rfl | h
        · exact .inr List.mem_cons_self
        · exact (ih h).imp_right (List.mem_cons_of_mem _)

/-- Only the entry of the source is lost. -/
theorem mem_subscribe_of_mem (h : sub ∈ list) :
    sub ∈ subscribe source period list ∨
      list.find? (fun sub => sub.address = source) = some sub := by
  induction list with
  | nil => cases h
  | cons sub' list ih =>
      unfold subscribe
      split_ifs with hsource
      · rcases List.mem_cons.mp h with rfl | h
        · right
          simp [hsource]
        · exact .inl (List.mem_cons_of_mem _ h)
      · rcases List.mem_cons.mp h with rfl | h
        · exact .inl List.mem_cons_self
        · rcases ih h with hmem | hfind
          · exact .inl (List.mem_cons_of_mem _ hmem)
          · right
            simpa [hsource] using hfind

/-- A request takes the interval from the gcd of the old list to that of the new one,
if and only if the latter divides the period that it replaces. -/
theorem gcd_periodGcd_iff :
    Nat.gcd (periodGcd list) period.toNat = periodGcd (subscribe source period list) ↔
      ∀ sub, list.find? (fun sub => sub.address = source) = some sub →
        periodGcd (subscribe source period list) ∣ sub.period.toNat := by
  constructor
  · intro h sub hsub
    rw [← h]
    exact (Nat.gcd_dvd_left _ _).trans
      (dvd_periodGcd.mp dvd_rfl sub (List.mem_of_find?_eq_some hsub))
  · intro h
    have hnew : ∀ sub ∈ subscribe source period list,
        periodGcd (subscribe source period list) ∣ sub.period.toNat := dvd_periodGcd.mp dvd_rfl
    apply Nat.dvd_antisymm
    · rw [dvd_periodGcd]
      intro sub hsub
      rcases mem_of_mem_subscribe hsub with hperiod | hmem
      · rw [hperiod]
        exact Nat.gcd_dvd_right _ _
      · exact (Nat.gcd_dvd_left _ _).trans (dvd_periodGcd.mp dvd_rfl sub hmem)
    · apply Nat.dvd_gcd
      · rw [dvd_periodGcd]
        intro sub hsub
        rcases mem_subscribe_of_mem hsub with hmem | hfind
        · exact hnew sub hmem
        · exact h sub hfind
      · obtain ⟨sub, hmem, hperiod⟩ := exists_mem_subscribe source period list
        have hdvd := hnew sub hmem
        rwa [hperiod] at hdvd

end

end CommunicationAPI
