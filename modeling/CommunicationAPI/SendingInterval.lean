import CommunicationAPI.Machine
import CommunicationAPI.TedsHandler

/-!
# The sending interval and the periods of the subscribers

Requests for one type and cleanup passes, one at a time. The interval that the
component maintains is compared with the one computed anew from the list.
-/

namespace CommunicationAPI.SendingInterval
open Octets TransitionSystem
variable {type : TedsType}

/-- A pass of the cleanup thread sees some addresses nearby and others not. -/
inductive Action
  | interest (source : Address) (payload : Memory)
  | cleanup (nearby : Address → Bool)

def step (type : TedsType) (h : TedsHandler) (a : Action) : Option TedsHandler :=
  if h.component.terminated then none
  else match a with
    | .interest source payload =>
      if Teds.headerType payload = type ∧ Teds.isRequest type then
        some (h.handleTedsMessage source payload)
      else none
    | .cleanup nearby => some (TedsHandler.cleanup nearby h.component h.subscribers)

def requests (type : TedsType) : Machine TedsHandler Action where
  init h := ∃ uninitialized, h = ⟨.construct uninitialized, []⟩
  step := step type

/-- The response loop is enabled if and only if there are subscribers, and then runs at
the gcd of their periods. -/
structure Agrees (type : TedsType) (h : TedsHandler) : Prop where
  alive : h.component.terminated = false
  enabled : h.component.responseRunning = true ↔ h.subscribers.get type ≠ []
  interval : h.subscribers.get type ≠ [] →
    h.component.responsesInterval.toNat = periodGcd (h.subscribers.get type)

/-- No request has period 0, a period that is replaced is a multiple of the gcd of the new
list, and nobody subscribes after the last subscriber was removed. -/
def Steady (type : TedsType) : StepCondition TedsHandler Action := fun h a _ =>
  match a with
  | .cleanup _ => True
  | .interest source payload =>
    let list := h.subscribers.get type
    let period := Teds.intervalMs payload
    period ≠ 0 ∧
      (∀ sub, list.find? (fun sub => sub.address = source) = some sub →
        periodGcd (subscribe source period list) ∣ sub.period.toNat) ∧
      (list = [] → h.component.joinable = false)

structure Inv (type : TedsType) (h : TedsHandler) : Prop where
  agrees : Agrees type h
  table : h.subscribers = [] ∨ ∃ list, list ≠ [] ∧ h.subscribers = [(type, list)]
  idle : h.subscribers.get type = [] → h.component.responsesInterval = 0
  positive : ∀ sub ∈ h.subscribers.get type, sub.period ≠ 0

variable {h h' : TedsHandler}

theorem get_singleton (list : List SubscriberInfo) :
    Subscribers.get [(type, list)] type = list := by
  simp [Subscribers.get]

theorem Inv.set (hinv : Inv type h) (list : List SubscriberInfo) :
    h.subscribers.set type list = [(type, list)] := by
  rcases hinv.table with hempty | ⟨list', -, hsingle⟩
  · rw [hempty]
    rfl
  · rw [hsingle]
    simp [Subscribers.set]

/-- A request that does not reset takes the gcd. -/
theorem toNat_nextInterval (c : Component) (period : Period) :
    (c.nextInterval period false).toNat = Nat.gcd c.responsesInterval.toNat period.toNat := by
  unfold Component.nextInterval
  rw [if_neg (by simp)]
  split_ifs with hne
  · exact toNat_gcd _ _
  · rw [not_not.mp hne, Nat.gcd_self]

def requested (type : TedsType) (h : TedsHandler) (source : Address) (period : Period) :
    TedsHandler where
  component := h.component.notifyInterestRequest period type false
  subscribers := [(type, subscribe source period (h.subscribers.get type))]

theorem Inv.interest_eq (hinv : Inv type h) {source : Address} {payload : Memory}
    (hs : step type h (.interest source payload) = some h') :
    h' = requested type h source (Teds.intervalMs payload) := by
  unfold step at hs
  rw [if_neg (by simp [hinv.agrees.alive])] at hs
  simp only at hs
  split_ifs at hs with htype
  obtain ⟨htype, hrequest⟩ := htype
  cases hs
  unfold TedsHandler.handleTedsMessage requested
  simp only [htype, hrequest, if_true, hinv.set]

section
variable {source : Address} {period : Period}

theorem get_requested : (requested type h source period).subscribers.get type =
    subscribe source period (h.subscribers.get type) := get_singleton _

/-- Period 0 disables the loop although there is a subscriber. -/
theorem Inv.requested_zero (hinv : Inv type h) (hzero : period = 0) :
    ¬ Agrees type (requested type h source period) := by
  intro hagrees
  have hrunning := hagrees.enabled.mpr (by rw [get_requested]; exact subscribe_ne_nil)
  unfold requested Component.notifyInterestRequest at hrunning
  rw [if_neg (by simp [hinv.agrees.alive]), Component.setInterest_stop hzero] at hrunning
  cases hrunning

theorem Inv.requested_pos (hinv : Inv type h) (hpos : period ≠ 0)
    (hnonempty : h.subscribers.get type ≠ []) :
    requested type h source period =
      ⟨h.component.enable period type false,
        [(type, subscribe source period (h.subscribers.get type))]⟩ := by
  have hrunning := hinv.agrees.enabled.mpr hnonempty
  unfold requested Component.notifyInterestRequest
  rw [if_neg (by simp [hinv.agrees.alive]), Component.setInterest_start hpos]
  simp [hrunning]

/-- The loop keeps running. -/
theorem Inv.requested_iff (hinv : Inv type h) (hpos : period ≠ 0)
    (hnonempty : h.subscribers.get type ≠ []) :
    Agrees type (requested type h source period) ↔
      ∀ sub, (h.subscribers.get type).find? (fun sub => sub.address = source) = some sub →
        periodGcd (subscribe source period (h.subscribers.get type)) ∣ sub.period.toNat := by
  have hrunning := hinv.agrees.enabled.mpr hnonempty
  rw [← gcd_periodGcd_iff, ← hinv.agrees.interval hnonempty, ← toNat_nextInterval]
  constructor
  · intro hagrees
    have hinterval := hagrees.interval (by rw [get_requested]; exact subscribe_ne_nil)
    rw [get_requested, hinv.requested_pos hpos hnonempty] at hinterval
    exact hinterval
  · intro hinterval
    rw [hinv.requested_pos hpos hnonempty]
    refine ⟨hinv.agrees.alive, ?_, ?_⟩
    · rw [get_singleton]
      exact ⟨fun _ => subscribe_ne_nil, fun _ => rfl⟩
    · rw [get_singleton]
      exact fun _ => hinterval

/-- The loop is started, unless the thread was there before. -/
theorem Inv.requested_first (hinv : Inv type h) (hpos : period ≠ 0)
    (hempty : h.subscribers.get type = []) :
    Agrees type (requested type h source period) ↔ h.component.joinable = false := by
  have hrunning : h.component.responseRunning = false := by
    rw [← Bool.not_eq_true, hinv.agrees.enabled, hempty]
    simp
  have hrequested : (requested type h source period).component =
      (h.component.enable period type false).assignThread := by
    unfold requested Component.notifyInterestRequest
    rw [if_neg (by simp [hinv.agrees.alive]), Component.setInterest_start hpos]
    simp [hrunning]
  cases hhandle : h.component.joinable with
  | true =>
    rw [Component.assignThread_of_joinable (c := h.component.enable period type false) hhandle]
      at hrequested
    constructor
    · intro hagrees
      have halive := hagrees.alive
      rw [hrequested] at halive
      cases halive
    · rintro ⟨⟩
  | false =>
    rw [Component.assignThread_of_not_joinable (c := h.component.enable period type false) hhandle]
      at hrequested
    refine ⟨fun _ => rfl, fun _ => ⟨?_, ?_, ?_⟩⟩
    · rw [hrequested]
      exact hinv.agrees.alive
    · rw [hrequested, get_requested]
      exact ⟨fun _ => subscribe_ne_nil, fun _ => rfl⟩
    · intro _
      rw [hrequested, get_requested]
      change (h.component.nextInterval period false).toNat = _
      rw [toNat_nextInterval, hinv.idle hempty, hempty]
      simp [subscribe, periodGcd]

/-- A request keeps the two in agreement if and only if it is steady. -/
theorem Inv.interest_iff (hinv : Inv type h) {payload : Memory}
    (hs : step type h (.interest source payload) = some h') :
    Agrees type h' ↔ Steady type h (.interest source payload) h' := by
  rw [hinv.interest_eq hs]
  unfold Steady
  by_cases hzero : Teds.intervalMs payload = 0
  · exact ⟨fun hagrees => absurd hagrees (hinv.requested_zero hzero),
      fun hsteady => absurd hzero hsteady.1⟩
  by_cases hempty : h.subscribers.get type = []
  · rw [hinv.requested_first hzero hempty]
    constructor
    · intro hhandle
      refine ⟨hzero, ?_, fun _ => hhandle⟩
      intro sub hsub
      rw [hempty] at hsub
      cases hsub
    · exact fun hsteady => hsteady.2.2 hempty
  · rw [hinv.requested_iff hzero hempty]
    exact ⟨fun hdvd => ⟨hzero, hdvd, fun hno => absurd hno hempty⟩, fun hsteady => hsteady.2.1⟩

end

/-- The component after a pass that has changed the list. -/
theorem Inv.notifyRemaining (hinv : Inv type h) (hsome : h.subscribers.get type ≠ [])
    {list : List SubscriberInfo} (hpos : list ≠ [] → newGcd list ≠ 0) :
    TedsHandler.notifyRemaining h.component type list =
      if list = [] then { h.component with responseRunning := false, responsesInterval := 0 }
      else h.component.enable (newGcd list) type true := by
  have hrunning := hinv.agrees.enabled.mpr hsome
  have halive : ¬ h.component.terminated = true := by simp [hinv.agrees.alive]
  unfold TedsHandler.notifyRemaining Component.notifyInterestRequest
  simp only [if_neg halive]
  cases list with
  | nil => simp [Component.setInterest_stop]
  | cons sub list => simp [Component.setInterest_start (hpos (by simp)), hrunning]

theorem cleanup_singleton (nearby : Address → Bool) (c : Component) (list : List SubscriberInfo) :
    TedsHandler.cleanup nearby c [(type, list)] =
      ⟨if list.filter (fun sub => nearby sub.address) = list then c
        else TedsHandler.notifyRemaining c type (list.filter fun sub => nearby sub.address),
        if list.filter (fun sub => nearby sub.address) = [] then []
        else [(type, list.filter fun sub => nearby sub.address)]⟩ := by
  have hlength : (list.filter fun sub => nearby sub.address).length ≠ list.length ↔
      ¬ list.filter (fun sub => nearby sub.address) = list := by
    rw [ne_eq, List.filter_sublist.length_eq]
  unfold TedsHandler.cleanup
  simp only [hlength, List.isEmpty_iff, TedsHandler.cleanup, ite_not]
  split_ifs <;> rfl

theorem Inv.newGcd_ne_zero (hinv : Inv type h) {list : List SubscriberInfo} (hne : list ≠ [])
    (hsub : ∀ sub ∈ list, sub ∈ h.subscribers.get type) : newGcd list ≠ 0 := by
  intro hzero
  obtain ⟨sub, hmem⟩ := List.exists_mem_of_ne_nil list hne
  have hdvd := dvd_periodGcd.mp dvd_rfl sub hmem
  rw [← toNat_newGcd, hzero] at hdvd
  exact hinv.positive sub (hsub sub hmem) (UInt32.toNat_inj.mp (Nat.eq_zero_of_zero_dvd hdvd))

/-- A pass recomputes what it changes. -/
theorem Inv.cleanup (hinv : Inv type h) (nearby : Address → Bool) :
    Inv type (TedsHandler.cleanup nearby h.component h.subscribers) := by
  rcases hinv.table with hempty | ⟨list, hlist, hsingle⟩
  · have hsame : TedsHandler.cleanup nearby h.component h.subscribers = h := by
      rw [hempty]
      cases h
      cases hempty
      rfl
    rwa [hsame]
  · have hget : h.subscribers.get type = list := by rw [hsingle, get_singleton]
    have hsome : h.subscribers.get type ≠ [] := by rwa [hget]
    rw [hsingle, cleanup_singleton]
    obtain ⟨remaining, hremaining⟩ : ∃ remaining,
        list.filter (fun sub => nearby sub.address) = remaining := ⟨_, rfl⟩
    rw [hremaining]
    have hsub : ∀ sub ∈ remaining, sub ∈ h.subscribers.get type := by
      intro sub hmem
      rw [← hremaining] at hmem
      rw [hget]
      exact List.mem_of_mem_filter hmem
    by_cases hkept : remaining = list
    · rw [if_pos hkept, hkept, if_neg hlist, ← hsingle]
      exact hinv
    rw [if_neg hkept, hinv.notifyRemaining hsome fun hne => hinv.newGcd_ne_zero hne hsub]
    by_cases hne : remaining = []
    · rw [if_pos hne, if_pos hne]
      refine ⟨⟨hinv.agrees.alive, ?_, ?_⟩, .inl rfl, fun _ => rfl, ?_⟩
      · simp [Subscribers.get]
      · exact fun hno => absurd rfl hno
      · intro sub hmem
        cases hmem
    · rw [if_neg hne, if_neg hne]
      refine ⟨⟨hinv.agrees.alive, ?_, ?_⟩, .inr ⟨remaining, hne, rfl⟩, ?_, ?_⟩
      · rw [get_singleton]
        exact ⟨fun _ => hne, fun _ => rfl⟩
      · rw [get_singleton]
        exact fun _ => toNat_newGcd remaining
      · rw [get_singleton]
        exact fun hno => absurd hno hne
      · rw [get_singleton]
        exact fun sub hmem => hinv.positive sub (hsub sub hmem)

theorem inv_construct (uninitialized : TedsType) : Inv type ⟨.construct uninitialized, []⟩ := by
  refine ⟨⟨rfl, ?_, ?_⟩, .inl rfl, fun _ => rfl, ?_⟩
  · simp [Subscribers.get, Component.construct]
  · exact fun hno => absurd rfl hno
  · intro sub hsub
    cases hsub

theorem Inv.interest (hinv : Inv type h) {source : Address} {payload : Memory}
    (hs : step type h (.interest source payload) = some h')
    (hok : Steady type h (.interest source payload) h') : Inv type h' := by
  have hagrees := (hinv.interest_iff hs).mpr hok
  have heq := hinv.interest_eq hs
  have hget : h'.subscribers.get type = subscribe source (Teds.intervalMs payload)
      (h.subscribers.get type) := by
    rw [heq]
    exact get_requested
  have htable : h'.subscribers = [(type, subscribe source (Teds.intervalMs payload)
      (h.subscribers.get type))] := by
    rw [heq]
    rfl
  refine ⟨hagrees, .inr ⟨_, subscribe_ne_nil, htable⟩, ?_, ?_⟩
  · rw [hget]
    exact fun hno => absurd hno subscribe_ne_nil
  · rw [hget]
    intro sub hsub
    rcases mem_of_mem_subscribe hsub with hperiod | hmem
    · rw [hperiod]
      exact hok.1
    · exact hinv.positive sub hmem

theorem Inv.step_iff (hinv : Inv type h) {a : Action} (hs : step type h a = some h') :
    (Agrees type h' ↔ Steady type h a h') ∧ (Steady type h a h' → Inv type h') := by
  cases a with
  | interest source payload => exact ⟨hinv.interest_iff hs, hinv.interest hs⟩
  | cleanup nearby =>
    unfold step at hs
    rw [if_neg (by simp [hinv.agrees.alive])] at hs
    cases hs
    have hcleaned := hinv.cleanup nearby
    exact ⟨⟨fun _ => trivial, fun _ => hcleaned.agrees⟩, fun _ => hcleaned⟩

/-- The interval maintained request by request is the gcd of the current periods as long
as every request is steady, and no longer. -/
theorem agrees_iff_steady (hs : (requests type).Reaches (Steady type) h) :
    Agrees type h ∧ ∀ a h', (requests type).step h a = some h' →
      (Agrees type h' ↔ Steady type h a h') := by
  apply hs.exact (I := Inv type)
  · rintro h ⟨uninitialized, rfl⟩
    exact inv_construct uninitialized
  · exact fun _ hinv => hinv.agrees
  · exact fun _ _ _ hinv hstep => (hinv.step_iff hstep).2
  · exact fun _ _ _ hinv hstep => (hinv.step_iff hstep).1.mp

def steady (type : TedsType) (h : TedsHandler) (a : Action) (_ : TedsHandler) : Bool :=
  match a with
  | .cleanup _ => true
  | .interest source payload =>
    let list := h.subscribers.get type
    let period := Teds.intervalMs payload
    period ≠ 0 && (list.find? (fun sub => sub.address = source)).all
      (fun sub => periodGcd (subscribe source period list) ∣ sub.period.toNat) &&
        (!list.isEmpty || !h.component.joinable)

theorem steady_sound (h : TedsHandler) (a : Action) (h' : TedsHandler)
    (htest : steady type h a h' = true) : Steady type h a h' := by
  cases a with
  | cleanup => trivial
  | interest source payload =>
    simp only [steady, Bool.and_eq_true, Option.all_eq_true, decide_eq_true_eq,
      Bool.or_eq_true] at htest
    obtain ⟨⟨hperiod, hdvd⟩, hfirst⟩ := htest
    refine ⟨hperiod, hdvd, fun hempty => ?_⟩
    rw [hempty] at hfirst
    simpa using hfirst

def request (port : Port) (type : TedsType) (period : Period) : Action :=
  .interest ⟨localAddr, port⟩ (store (fun _ => 0) 0 (Teds.createRequestPayload type period))

def departureRun : List Action :=
  [request 1000 1 6, request 1001 1 2, request 1002 1 3, request 1001 1 4,
    .cleanup fun a => a.port ≠ 1002]

theorem agrees_of_departureRun :
    ∃ h, (requests 1).execIf (steady 1) ⟨.construct 0, []⟩ departureRun = some h ∧
      h.component.responsesInterval = 2 ∧ Agrees 1 h ∧
        ∀ a h', (requests 1).step h a = some h' → (Agrees 1 h' ↔ Steady 1 h a h') := by
  have hrun : ((requests 1).execIf (steady 1) ⟨.construct 0, []⟩ departureRun).any
      (fun h => h.component.responsesInterval = 2) = true := by decide +kernel
  obtain ⟨h, hh, hgoal⟩ := (Option.any_eq_true _ _).mp hrun
  have hinit : (requests 1).Reaches (Steady 1) ⟨.construct 0, []⟩ := .init ⟨0, rfl⟩
  have hreach := hinit.execIf steady_sound hh
  exact ⟨h, hh, of_decide_eq_true hgoal, agrees_iff_steady hreach⟩

def changeRun : List Action := [request 1000 1 4, request 1000 1 6]

theorem not_agrees_changeRun :
    ∃ h, (requests 1).exec ⟨.construct 0, []⟩ changeRun = some h ∧ (requests 1).Reachable h ∧
      ¬ Agrees 1 h := by
  obtain ⟨h, hexec, hh, hgoal⟩ := Machine.Reachable.exec_any (M := requests 1) (.init ⟨0, rfl⟩)
    changeRun (fun h => h.component.responsesInterval = 2 ∧
      h.subscribers.get 1 = [⟨⟨localAddr, 1000⟩, 6⟩]) (by decide +kernel)
  obtain ⟨hinterval, hlist⟩ := of_decide_eq_true hgoal
  refine ⟨h, hexec, hh, fun hagrees => ?_⟩
  have hgcd := hagrees.interval (by simp [hlist])
  rw [hinterval, hlist] at hgcd
  exact absurd hgcd (by decide)

end CommunicationAPI.SendingInterval
