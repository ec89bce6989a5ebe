import CommunicationAPI.NearbyEntities
import CommunicationAPI.TedsHandler

/-!
# One pass of the cleanup thread

The pass asks the shared list of nearby vehicles for each subscriber. Vehicles
enter that list when a frame of theirs comes from the link, so a component of
the same vehicle, whose address is the local one, is not in it.
-/

namespace CommunicationAPI

def NearbyEntities.isEntityNearby (l : NearbyEntities) (addr : MAC) : Bool :=
  l.entries.contains addr

/-- A subscriber of the same vehicle, or of a vehicle in the list. -/
def reachable (l : NearbyEntities) (a : Address) : Bool :=
  decide (a.paddr = localAddr) || l.isEntityNearby a.paddr

def Subscribers.Ordered (m : Subscribers) : Prop := m.Pairwise fun x y => x.1 < y.1

/-- The subscribers for which the test holds, without the types that have none left. -/
def Subscribers.sweep (keep : Address → Bool) (m : Subscribers) : Subscribers :=
  (m.map fun x => (x.1, x.2.filter fun sub => keep sub.address)).filter fun x => !x.2.isEmpty

section
variable {keep : Address → Bool} {m : Subscribers} {type : TedsType} {list : List SubscriberInfo}

theorem Subscribers.mem_sweep : (type, list) ∈ m.sweep keep ↔
    list ≠ [] ∧ ∃ all, (type, all) ∈ m ∧ all.filter (fun sub => keep sub.address) = list := by
  unfold sweep
  rw [List.mem_filter, List.mem_map]
  constructor
  · rintro ⟨⟨⟨type', all⟩, hmem, heq⟩, hne⟩
    cases heq
    exact ⟨by simpa using hne, all, hmem, rfl⟩
  · rintro ⟨hne, all, hmem, rfl⟩
    exact ⟨⟨(type, all), hmem, rfl⟩, by simpa using hne⟩

theorem Subscribers.Ordered.unique (h : m.Ordered) {list' : List SubscriberInfo}
    (hmem : (type, list) ∈ m) (hmem' : (type, list') ∈ m) : list = list' := by
  induction m with
  | nil => cases hmem
  | cons x m ih =>
    obtain ⟨hhead, htail⟩ := List.pairwise_cons.mp h
    rcases List.mem_cons.mp hmem with rfl | hmem <;> rcases List.mem_cons.mp hmem' with heq | hmem'
    · cases heq
      rfl
    · exact absurd (hhead _ hmem') (UInt32.lt_irrefl _)
    · rw [← heq] at hhead
      exact absurd (hhead _ hmem) (UInt32.lt_irrefl _)
    · exact ih htail hmem hmem'

theorem Subscribers.Ordered.sweep (h : m.Ordered) (keep : Address → Bool) :
    (m.sweep keep).Ordered :=
  List.Pairwise.sublist List.filter_sublist (List.pairwise_map.mpr h)

theorem Subscribers.mem_set {x : TedsType × List SubscriberInfo} (h : x ∈ m.set type list) :
    x = (type, list) ∨ x ∈ m := by
  induction m with
  | nil => exact .inl (List.mem_singleton.mp h)
  | cons y m ih =>
    unfold Subscribers.set at h
    split_ifs at h
    · exact List.mem_cons.mp h
    · exact (List.mem_cons.mp h).imp_right (List.mem_cons_of_mem y)
    · rcases List.mem_cons.mp h with rfl | h
      · exact .inr List.mem_cons_self
      · exact (ih h).imp_right (List.mem_cons_of_mem y)

/-- The table stays a map when a request enters it. -/
theorem Subscribers.Ordered.set (h : m.Ordered) : (m.set type list).Ordered := by
  induction m with
  | nil => exact List.pairwise_singleton _ _
  | cons y m ih =>
    obtain ⟨hhead, htail⟩ := List.pairwise_cons.mp h
    unfold Subscribers.set
    split_ifs with hlt heq
    · refine List.pairwise_cons.mpr ⟨fun x hx => ?_, h⟩
      rcases List.mem_cons.mp hx with rfl | hx
      · exact hlt
      · exact UInt32.lt_trans hlt (hhead x hx)
    · subst heq
      exact List.pairwise_cons.mpr ⟨hhead, htail⟩
    · refine List.pairwise_cons.mpr ⟨fun x hx => ?_, ih htail⟩
      rcases Subscribers.mem_set hx with rfl | hx
      · exact UInt32.lt_of_le_of_ne (UInt32.not_lt.mp hlt) (Ne.symm heq)
      · exact hhead x hx

/-- Two sweeps agree if they keep the same subscribers. -/
theorem Subscribers.Ordered.sweep_eq_iff (h : m.Ordered) {keep' : Address → Bool}
    (hle : ∀ a, keep a = true → keep' a = true) : m.sweep keep = m.sweep keep' ↔
      ∀ type list, (type, list) ∈ m → ∀ sub ∈ list,
        keep' sub.address = true → keep sub.address = true := by
  constructor
  · intro heq type list hmem sub hsub hkeep'
    have hin : sub ∈ list.filter (fun sub => keep' sub.address) :=
      List.mem_filter.mpr ⟨hsub, hkeep'⟩
    have hswept : (type, list.filter fun sub => keep' sub.address) ∈ m.sweep keep' :=
      Subscribers.mem_sweep.mpr ⟨List.ne_nil_of_mem hin, list, hmem, rfl⟩
    rw [← heq] at hswept
    obtain ⟨-, all, hall, hfilter⟩ := Subscribers.mem_sweep.mp hswept
    rw [h.unique hall hmem] at hfilter
    rw [← hfilter] at hin
    exact (List.mem_filter.mp hin).2
  · intro hall
    unfold Subscribers.sweep
    congr 1
    refine List.map_congr_left fun x hx => ?_
    have hfilter : x.2.filter (fun sub => keep sub.address) =
        x.2.filter (fun sub => keep' sub.address) :=
      List.filter_congr fun sub hsub => by
        rw [Bool.eq_iff_iff]
        exact ⟨hle _, hall x.1 x.2 hx sub hsub⟩
    rw [hfilter]

end

namespace TedsHandler

/-- The calls of `notify_interest_request` that a pass makes, in order: a period and a type. -/
def calls (nearby : Address → Bool) (m : Subscribers) : List (Period × TedsType) :=
  m.filterMap fun x =>
    let remaining := x.2.filter fun sub => nearby sub.address
    if remaining.length ≠ x.2.length then some (newGcd remaining, x.1) else none

def notifyAll (c : Component) (calls : List (Period × TedsType)) : Component :=
  calls.foldl (fun c call => c.notifyInterestRequest call.1 call.2 true) c

section
variable {nearby : Address → Bool} {m : Subscribers} {c : Component}

/-- The list that is empty has the period 0. -/
theorem notifyRemaining_eq (type : TedsType) (list : List SubscriberInfo) :
    notifyRemaining c type list = c.notifyInterestRequest (newGcd list) type true := by
  cases list <;> rfl

/-- A pass sweeps the table and makes its calls. -/
theorem cleanup_eq (nearby : Address → Bool) (c : Component) (m : Subscribers) :
    cleanup nearby c m = ⟨notifyAll c (calls nearby m), m.sweep nearby⟩ := by
  induction m generalizing c with
  | nil => rfl
  | cons x m ih =>
    obtain ⟨type, list⟩ := x
    obtain ⟨remaining, hremaining⟩ : ∃ remaining,
        list.filter (fun sub => nearby sub.address) = remaining := ⟨_, rfl⟩
    have hcalls : calls nearby ((type, list) :: m) =
        if remaining.length ≠ list.length then (newGcd remaining, type) :: calls nearby m
        else calls nearby m := by
      unfold calls
      simp only [List.filterMap_cons, hremaining]
      split_ifs <;> rfl
    have hsweep : Subscribers.sweep nearby ((type, list) :: m) =
        if remaining.isEmpty then Subscribers.sweep nearby m
        else (type, remaining) :: Subscribers.sweep nearby m := by
      unfold Subscribers.sweep
      simp only [List.map_cons, List.filter_cons, hremaining]
      cases remaining <;> rfl
    unfold cleanup
    simp only [ih, notifyRemaining_eq, hremaining, hcalls, hsweep]
    split_ifs <;> rfl

theorem mem_calls {period : Period} {type : TedsType} : (period, type) ∈ calls nearby m ↔
    ∃ list, (type, list) ∈ m ∧ (∃ sub ∈ list, nearby sub.address = false) ∧
      newGcd (list.filter fun sub => nearby sub.address) = period := by
  have hshrinks (list : List SubscriberInfo) :
      (list.filter fun sub => nearby sub.address).length ≠ list.length ↔
        ∃ sub ∈ list, nearby sub.address = false := by
    rw [ne_eq, List.length_filter_eq_length_iff]
    simp
  unfold calls
  rw [List.mem_filterMap]
  constructor
  · rintro ⟨⟨type', list⟩, hmem, hcall⟩
    simp only at hcall
    split_ifs at hcall with hlength
    cases hcall
    exact ⟨list, hmem, (hshrinks list).mp hlength, rfl⟩
  · rintro ⟨list, hmem, hsome, rfl⟩
    exact ⟨(type, list), hmem, by simp only [if_pos ((hshrinks list).mpr hsome)]⟩

/-- A type is called for once at most. -/
theorem calls_pairwise (h : m.Ordered) : (calls nearby m).Pairwise fun x y => x.2 ≠ y.2 := by
  refine h.filterMap _ fun x y hlt call hcall call' hcall' heq => ?_
  simp only at hcall hcall'
  split_ifs at hcall with hx
  split_ifs at hcall' with hy
  cases hcall
  cases hcall'
  rw [show x.1 = y.1 from heq] at hlt
  exact UInt32.lt_irrefl _ hlt

end

def starts (running : Bool) : List Bool → ℕ
  | [] => 0
  | asks :: l => (if asks && !running then 1 else 0) + starts asks l

def keepsAsking (nearby : Address → Bool) (m : Subscribers) : List Bool :=
  (m.filter fun x => x.2.any fun sub => !nearby sub.address).map fun x =>
    x.2.any fun sub => nearby sub.address && decide (sub.period ≠ 0)

section
variable {nearby : Address → Bool} {m : Subscribers} {c : Component}

theorem newGcd_ne_zero_iff (list : List SubscriberInfo) :
    newGcd list ≠ 0 ↔ ∃ sub ∈ list, sub.period ≠ 0 := by
  have hzero (p : Period) : p = 0 ↔ p.toNat = 0 := UInt32.toNat_inj.symm
  rw [← not_iff_not, not_not, hzero, toNat_newGcd, ← Nat.zero_dvd, dvd_periodGcd]
  simp [hzero]

theorem map_calls (nearby : Address → Bool) (m : Subscribers) :
    (calls nearby m).map (fun call => decide (call.1 ≠ 0)) = keepsAsking nearby m := by
  induction m with
  | nil => rfl
  | cons x m ih =>
    have hasks : decide (newGcd (x.2.filter fun sub => nearby sub.address) ≠ 0) =
        x.2.any fun sub => nearby sub.address && decide (sub.period ≠ 0) := by
      rw [Bool.eq_iff_iff, decide_eq_true_eq, newGcd_ne_zero_iff]
      simp [and_assoc]
    have hshrinks : (x.2.filter fun sub => nearby sub.address).length ≠ x.2.length ↔
        x.2.any (fun sub => !nearby sub.address) = true := by
      rw [ne_eq, List.length_filter_eq_length_iff]
      simp
    unfold calls keepsAsking at ih ⊢
    simp only [List.filterMap_cons, List.filter_cons, hshrinks]
    split_ifs
    · simp only [List.map_cons, hasks, ih]
    · exact ih

/-- Nothing happens in a process that has been terminated. -/
theorem notifyAll_terminated (h : c.terminated = true) (calls : List (Period × TedsType)) :
    notifyAll c calls = c := by
  induction calls with
  | nil => rfl
  | cons call calls ih =>
    have hsame : c.notifyInterestRequest call.1 call.2 true = c := by
      unfold Component.notifyInterestRequest
      rw [if_pos h]
    unfold notifyAll at ih ⊢
    rw [List.foldl_cons, hsame, ih]

theorem alive_of_notifyAll {calls : List (Period × TedsType)}
    (h : (notifyAll c calls).terminated = false) : c.terminated = false := by
  by_contra hterminated
  rw [notifyAll_terminated (by simpa using hterminated)] at h
  exact hterminated h

theorem notify_zero (h : c.terminated = false) (type : TedsType) :
    c.notifyInterestRequest 0 type true =
      { c with responseRunning := false, responsesInterval := 0 } := by
  unfold Component.notifyInterestRequest
  rw [if_neg (by simp [h]), Component.setInterest_stop rfl]
  rfl

theorem notify_running (h : c.terminated = false) (hrunning : c.responseRunning = true)
    {period : Period} (hpos : period ≠ 0) (type : TedsType) :
    c.notifyInterestRequest period type true = c.enable period type true := by
  unfold Component.notifyInterestRequest
  rw [if_neg (by simp [h]), Component.setInterest_start hpos]
  simp [hrunning]

theorem notify_idle (h : c.terminated = false) (hrunning : c.responseRunning = false)
    {period : Period} (hpos : period ≠ 0) (type : TedsType) :
    c.notifyInterestRequest period type true = (c.enable period type true).assignThread := by
  unfold Component.notifyInterestRequest
  rw [if_neg (by simp [h]), Component.setInterest_start hpos]
  simp [hrunning]

/-- The calls leave the process alive as long as they start no second thread. -/
theorem notifyAll_alive_iff (h : c.terminated = false) (calls : List (Period × TedsType)) :
    (notifyAll c calls).terminated = false ↔
      starts c.responseRunning (calls.map fun call => decide (call.1 ≠ 0)) ≤
        if c.joinable then 0 else 1 := by
  induction calls generalizing c with
  | nil => simp [notifyAll, starts, h]
  | cons call calls ih =>
    have hcons : notifyAll c (call :: calls) =
        notifyAll (c.notifyInterestRequest call.1 call.2 true) calls := rfl
    rw [hcons]
    by_cases hzero : call.1 = 0
    · rw [hzero, notify_zero h]
      refine Iff.trans (ih h) ?_
      simp [starts, hzero]
    cases hrunning : c.responseRunning with
    | true =>
      rw [notify_running h hrunning hzero]
      refine Iff.trans (ih h) ?_
      simp [starts, hzero]
      rfl
    | false =>
      rw [notify_idle h hrunning hzero]
      cases hhandle : c.joinable with
      | true =>
        rw [Component.assignThread_of_joinable (c := c.enable _ _ _) hhandle,
          notifyAll_terminated rfl]
        simp [starts, hzero]
      | false =>
        rw [Component.assignThread_of_not_joinable (c := c.enable _ _ _) hhandle]
        refine Iff.trans (ih h) ?_
        simp [starts, hzero]

/-- The component sends no responses of the type. -/
def Silent (type : TedsType) (c : Component) : Prop :=
  ¬ (c.responseRunning = true ∧ c.responseType = type)

theorem Silent.notify {type type' : TedsType} (h : Silent type c) (hne : type' ≠ type)
    (period : Period) : Silent type (c.notifyInterestRequest period type' true) := by
  cases hterminated : c.terminated with
  | true =>
    unfold Component.notifyInterestRequest
    rwa [if_pos hterminated]
  | false =>
    by_cases hzero : period = 0
    · rw [hzero, notify_zero hterminated]
      rintro ⟨hrunning, -⟩
      cases hrunning
    cases hrunning : c.responseRunning with
    | true =>
      rw [notify_running hterminated hrunning hzero]
      exact fun hresponds => hne hresponds.2
    | false =>
      rw [notify_idle hterminated hrunning hzero]
      unfold Component.assignThread
      split_ifs
      · exact fun hresponds => hne hresponds.2
      · exact fun hresponds => hne hresponds.2

theorem Silent.notifyAll {type : TedsType} (h : Silent type c) {calls : List (Period × TedsType)}
    (hne : ∀ call ∈ calls, call.2 ≠ type) : Silent type (notifyAll c calls) := by
  induction calls generalizing c with
  | nil => exact h
  | cons call calls ih =>
    exact ih (h.notify (hne call List.mem_cons_self) call.1)
      fun call' hmem => hne call' (List.mem_cons_of_mem call hmem)

/-- A type for which the period 0 is passed is silent from then on. -/
theorem silent_of_mem {type : TedsType} {calls : List (Period × TedsType)}
    (hmem : (0, type) ∈ calls) (hdistinct : calls.Pairwise fun x y => x.2 ≠ y.2)
    (halive : (notifyAll c calls).terminated = false) : Silent type (notifyAll c calls) := by
  induction calls generalizing c with
  | nil => cases hmem
  | cons call calls ih =>
    obtain ⟨hhead, htail⟩ := List.pairwise_cons.mp hdistinct
    rcases List.mem_cons.mp hmem with rfl | hmem
    · have hc : c.terminated = false := alive_of_notifyAll halive
      have hstopped : Silent type (c.notifyInterestRequest 0 type true) := by
        rw [notify_zero hc]
        rintro ⟨hrunning, -⟩
        cases hrunning
      exact hstopped.notifyAll fun call hcall => Ne.symm (hhead call hcall)
    · exact ih hmem htail halive

end
end TedsHandler

def TedsHandler.pass (l : NearbyEntities) (h : TedsHandler) : TedsHandler :=
  cleanup (fun a => l.isEntityNearby a.paddr) h.component h.subscribers

namespace SubscriberCleanup
open Octets TedsHandler

/-- The pass returns, and has kept exactly the reachable subscribers. -/
structure Exact (l : NearbyEntities) (h : TedsHandler) : Prop where
  returns : (h.pass l).component.terminated = false
  table : (h.pass l).subscribers = h.subscribers.sweep (reachable l)
  stopped : ∀ type list, (type, list) ∈ h.subscribers → list ≠ [] →
    (∀ sub ∈ list, reachable l sub.address = false) → Silent type (h.pass l).component
  quiet : ∀ type list, (type, list) ∈ h.subscribers →
    (∀ sub ∈ list, reachable l sub.address = true) →
      ∀ period, (period, type) ∉ calls (fun a => l.isEntityNearby a.paddr) h.subscribers

/-- A subscriber of the same vehicle finds its address in the list, and the pass starts no
thread while the handle of one is joinable. -/
structure Sees (l : NearbyEntities) (h : TedsHandler) : Prop where
  listed : ∀ type list, (type, list) ∈ h.subscribers → ∀ sub ∈ list,
    sub.address.paddr = localAddr → l.isEntityNearby localAddr = true
  starts : starts h.component.responseRunning
    (keepsAsking (fun a => l.isEntityNearby a.paddr) h.subscribers) ≤
      if h.component.joinable then 0 else 1

variable {l : NearbyEntities} {h : TedsHandler}

theorem pass_eq : h.pass l =
    ⟨notifyAll h.component (calls (fun a => l.isEntityNearby a.paddr) h.subscribers),
      h.subscribers.sweep fun a => l.isEntityNearby a.paddr⟩ :=
  cleanup_eq _ _ _

theorem reachable_of_nearby {a : Address} (ha : l.isEntityNearby a.paddr = true) :
    reachable l a = true := by
  unfold reachable
  rw [ha, Bool.or_true]

theorem returns_iff (halive : h.component.terminated = false) :
    (h.pass l).component.terminated = false ↔
      TedsHandler.starts h.component.responseRunning
        (keepsAsking (fun a => l.isEntityNearby a.paddr) h.subscribers) ≤
          if h.component.joinable then 0 else 1 := by
  rw [pass_eq, ← map_calls]
  exact notifyAll_alive_iff halive _

theorem table_iff (hordered : h.subscribers.Ordered) :
    (h.pass l).subscribers = h.subscribers.sweep (reachable l) ↔
      ∀ type list, (type, list) ∈ h.subscribers → ∀ sub ∈ list,
        sub.address.paddr = localAddr → l.isEntityNearby localAddr = true := by
  have hle : ∀ a : Address, l.isEntityNearby a.paddr = true → reachable l a = true :=
    fun _ => reachable_of_nearby
  rw [pass_eq]
  refine (hordered.sweep_eq_iff hle).trans ?_
  constructor
  · intro hseen type list hmem sub hsub hlocal
    rw [← hlocal]
    exact hseen type list hmem sub hsub (by simp [reachable, hlocal])
  · intro hlisted type list hmem sub hsub hreach
    rcases Bool.or_eq_true_iff.mp hreach with hlocal | hnearby
    · rw [of_decide_eq_true hlocal]
      exact hlisted type list hmem sub hsub (of_decide_eq_true hlocal)
    · exact hnearby

/-- Messages and passes leave a table in key order. -/
theorem ordered_handleTedsMessage (hordered : h.subscribers.Ordered) (source : Address)
    (payload : Memory) : (h.handleTedsMessage source payload).subscribers.Ordered := by
  unfold TedsHandler.handleTedsMessage
  simp only
  split_ifs
  · exact hordered.set
  · exact hordered

theorem ordered_pass (hordered : h.subscribers.Ordered) : (h.pass l).subscribers.Ordered := by
  rw [pass_eq]
  exact Subscribers.Ordered.sweep hordered fun a => l.isEntityNearby a.paddr

/-- A pass drops exactly the unreachable subscribers if and only if no subscriber of the same
vehicle is missing from the list and no thread is assigned to a joinable handle. -/
theorem pass_exact_iff (hordered : h.subscribers.Ordered)
    (halive : h.component.terminated = false) : Exact l h ↔ Sees l h := by
  constructor
  · exact fun hexact =>
      ⟨(table_iff hordered).mp hexact.table, (returns_iff halive).mp hexact.returns⟩
  · intro hsees
    have hreturns := (returns_iff halive).mpr hsees.starts
    refine ⟨hreturns, (table_iff hordered).mpr hsees.listed, ?_, ?_⟩
    · intro type list hmem hne hnone
      have hunseen : ∀ sub ∈ list, l.isEntityNearby sub.address.paddr = false := by
        intro sub hsub
        by_contra hseen
        have hreach := reachable_of_nearby (a := sub.address) (by simpa using hseen)
        rw [hnone sub hsub] at hreach
        cases hreach
      have hempty : list.filter (fun sub => l.isEntityNearby sub.address.paddr) = [] := by
        rw [List.filter_eq_nil_iff]
        exact fun sub hsub => by simp [hunseen sub hsub]
      obtain ⟨sub, hsub⟩ := List.exists_mem_of_ne_nil list hne
      have hcall : (0, type) ∈ calls (fun a => l.isEntityNearby a.paddr) h.subscribers :=
        mem_calls.mpr ⟨list, hmem, ⟨sub, hsub, hunseen sub hsub⟩, by rw [hempty]; rfl⟩
      rw [pass_eq] at hreturns ⊢
      exact silent_of_mem hcall (calls_pairwise hordered) hreturns
    · intro type list hmem hall period hcall
      obtain ⟨list', hmem', ⟨sub, hsub, hunseen⟩, -⟩ := mem_calls.mp hcall
      rw [hordered.unique hmem' hmem] at hsub
      rcases Bool.or_eq_true_iff.mp (hall sub hsub) with hlocal | hnearby
      · have hlisted := hsees.listed type list hmem sub hsub (of_decide_eq_true hlocal)
        rw [of_decide_eq_true hlocal, hlisted] at hunseen
        cases hunseen
      · rw [hnearby] at hunseen
        cases hunseen

def oneLeft : TedsHandler where
  component := ⟨true, 100, 1, true, false⟩
  subscribers :=
    [(1, [⟨⟨⟨#v[2, 0, 0, 0, 0, 1]⟩, 1000⟩, 300⟩, ⟨⟨⟨#v[2, 0, 0, 0, 0, 2]⟩, 1000⟩, 200⟩]),
      (2, [⟨⟨⟨#v[2, 0, 0, 0, 0, 2]⟩, 1001⟩, 100⟩])]

def onlyFirst : NearbyEntities := NearbyEntities.empty.register ⟨#v[2, 0, 0, 0, 0, 1]⟩

theorem pass_exact_oneLeft : (oneLeft.pass onlyFirst).subscribers =
    [(1, [⟨⟨⟨#v[2, 0, 0, 0, 0, 1]⟩, 1000⟩, 300⟩])] ∧ Exact onlyFirst oneLeft := by
  have hordered : oneLeft.subscribers.Ordered := by
    unfold oneLeft Subscribers.Ordered
    simp
  refine ⟨by decide +kernel, (pass_exact_iff hordered rfl).mpr ⟨?_, by decide +kernel⟩⟩
  have hremote : ∀ x ∈ oneLeft.subscribers, ∀ sub ∈ x.2, sub.address.paddr ≠ localAddr := by
    decide +kernel
  exact fun type list hmem sub hsub hlocal => absurd hlocal (hremote (type, list) hmem sub hsub)

def ownSubscriber : TedsHandler :=
  TedsHandler.handleTedsMessage ⟨.construct 0, []⟩ ⟨localAddr, 1000⟩
    (store (fun _ => 0) 0 (Teds.createRequestPayload 1 100))

/-- The pass removes it, as no frame from the link has its address. -/
theorem not_exact_ownSubscriber : ¬ Exact NearbyEntities.empty ownSubscriber := by
  intro hexact
  have htable : (ownSubscriber.pass NearbyEntities.empty).subscribers ≠
      ownSubscriber.subscribers.sweep (reachable NearbyEntities.empty) := by decide +kernel
  exact htable hexact.table

end SubscriberCleanup
end CommunicationAPI
