import CommunicationAPI.HandlerReads
import CommunicationAPI.SubscriberCleanup

/-!
# A process that serves one type

All requests that reach a sensor are for its own type. Then its table has one
key at most, the thread runs while there are subscribers, and the interval
divides the period of each of them, as long as no request is handled during a
pass of the cleanup thread.
-/

namespace CommunicationAPI
open Octets

section
variable {c : Component} {period : Period}

/-- A component that is alive turns to the request. -/
theorem notifyInterestRequest_start (type : TedsType) (reset : Bool)
    (hlive : c.terminated = false) (hperiod : period ≠ 0) :
    (c.notifyInterestRequest period type reset).responseRunning = true ∧
      (c.notifyInterestRequest period type reset).responseType = type ∧
      (c.notifyInterestRequest period type reset).responsesInterval =
        c.nextInterval period reset := by
  unfold Component.notifyInterestRequest
  rw [if_neg (by simp [hlive]), Component.setInterest_start hperiod]
  unfold Component.assignThread
  dsimp only
  split_ifs <;> exact ⟨rfl, rfl, rfl⟩

theorem toNat_nextInterval :
    (c.nextInterval period false).toNat = Nat.gcd c.responsesInterval.toNat period.toNat := by
  unfold Component.nextInterval
  rw [if_neg Bool.false_ne_true]
  split_ifs with hne
  · exact toNat_gcd _ _
  · rw [not_not.mp hne, Nat.gcd_self]

end

theorem eq_of_mem_subscribe {source : Address} {period : Period} {sub : SubscriberInfo}
    {list : List SubscriberInfo} (h : sub ∈ subscribe source period list) :
    sub = ⟨source, period⟩ ∨ sub ∈ list := by
  induction list with
  | nil => exact .inl (List.mem_singleton.mp h)
  | cons sub' list ih =>
    unfold subscribe at h
    split_ifs at h with hsource
    · refine (List.mem_cons.mp h).imp (fun heq => ?_) (List.mem_cons_of_mem sub')
      rw [heq, hsource]
    · rcases List.mem_cons.mp h with rfl | h
      · exact .inr List.mem_cons_self
      · exact (ih h).imp_right (List.mem_cons_of_mem sub')

namespace TedsHandler

/-- The thread serves every subscriber of the type, and there are no others. -/
inductive Serves (type : TedsType) (h : TedsHandler) : Prop
  | idle (htable : h.subscribers = []) (hrunning : h.component.responseRunning = false)
      (hinterval : h.component.responsesInterval = 0)
  | active (list : List SubscriberInfo) (hne : list ≠ []) (htable : h.subscribers = [(type, list)])
      (hrunning : h.component.responseRunning = true)
      (htype : h.component.responseType = type)
      (hinterval : h.component.responsesInterval ≠ 0)
      (hperiods : ∀ sub ∈ list,
        sub.period ≠ 0 ∧ h.component.responsesInterval.toNat ∣ sub.period.toNat)

variable {h : TedsHandler} {type : TedsType} {period : Period} {source : Address}

theorem Serves.get_eq (hserves : Serves type h) :
    h.subscribers.set type (subscribe source period (h.subscribers.get type)) =
      [(type, subscribe source period (h.subscribers.get type))] := by
  cases hserves with
  | idle htable =>
    rw [htable]
    rfl
  | active list hne htable =>
    rw [htable]
    simp [Subscribers.set]

/-- A request of a subscriber, old or new. -/
theorem Serves.after (hserves : Serves type h) (hlive : h.component.terminated = false)
    (hperiod : period ≠ 0) : Serves type (h.after (some (.interest type period source))) := by
  obtain ⟨hrunning, htype, hinterval⟩ :=
    notifyInterestRequest_start type false hlive hperiod
  have hzero (p : Period) : p = 0 ↔ p.toNat = 0 := UInt32.toNat_inj.symm
  have hgcd := congrArg UInt32.toNat hinterval
  rw [toNat_nextInterval] at hgcd
  have hdvd : (h.component.notifyInterestRequest period type false).responsesInterval.toNat ∣
      period.toNat := by
    rw [hgcd]
    exact Nat.gcd_dvd_right _ _
  refine .active _ subscribe_ne_nil hserves.get_eq hrunning htype ?_ fun sub hsub => ?_
  · change (h.component.notifyInterestRequest period type false).responsesInterval ≠ 0
    rw [Ne, hzero, hgcd]
    exact fun h => hperiod ((hzero _).mpr (Nat.eq_zero_of_gcd_eq_zero_right h))
  · rcases eq_of_mem_subscribe hsub with rfl | hold
    · exact ⟨hperiod, hdvd⟩
    · cases hserves with
      | idle htable =>
        rw [htable] at hold
        cases hold
      | active list hne htable _ _ _ hperiods =>
        rw [htable] at hold
        obtain ⟨hpos, hold⟩ := hperiods sub (by simpa [Subscribers.get] using hold)
        refine ⟨hpos, ?_⟩
        change (h.component.notifyInterestRequest period type false).responsesInterval.toNat ∣ _
        rw [hgcd]
        exact (Nat.gcd_dvd_left _ _).trans hold

/-- A pass of the cleanup thread. -/
theorem Serves.cleanup (hserves : Serves type h) (hlive : h.component.terminated = false)
    (nearby : Address → Bool) :
    Serves type (TedsHandler.cleanup nearby h.component h.subscribers) := by
  cases hserves with
  | idle htable hrunning hinterval =>
    rw [htable]
    exact .idle rfl hrunning hinterval
  | active list hne htable hrunning htype hinterval hperiods =>
    set remaining := list.filter fun sub => nearby sub.address with hremaining
    have hsub : ∀ sub ∈ remaining, sub ∈ list := fun sub hmem => (List.mem_filter.mp hmem).1
    have hsweep : Subscribers.sweep nearby [(type, list)] =
        if remaining.isEmpty then [] else [(type, remaining)] := by
      unfold Subscribers.sweep
      simp only [List.map_cons, List.map_nil, List.filter_cons, List.filter_nil, ← hremaining]
      cases remaining <;> rfl
    have hcalls : calls nearby [(type, list)] =
        if remaining.length ≠ list.length then [(newGcd remaining, type)] else [] := by
      unfold calls
      simp only [List.filterMap_cons, List.filterMap_nil, ← hremaining]
      split_ifs <;> rfl
    rw [htable, cleanup_eq, hsweep, hcalls]
    by_cases hempty : remaining = []
    · have hlength : remaining.length ≠ list.length := by
        rw [hempty]
        exact fun h => hne (List.length_eq_zero_iff.mp h.symm)
      rw [if_pos hlength, if_pos (List.isEmpty_iff.mpr hempty), hempty]
      have hstop : notifyAll h.component [(newGcd [], type)] =
          { h.component with responseRunning := false, responsesInterval := 0 } :=
        notify_zero hlive type
      rw [hstop]
      exact .idle rfl rfl rfl
    · have hsome : ¬ remaining.isEmpty = true := fun h => hempty (List.isEmpty_iff.mp h)
      rw [if_neg hsome]
      split_ifs with hlength
      · have hpos : newGcd remaining ≠ 0 := by
          obtain ⟨sub, hmem⟩ := List.exists_mem_of_ne_nil _ hempty
          exact (newGcd_ne_zero_iff _).mpr ⟨sub, hmem, (hperiods sub (hsub sub hmem)).1⟩
        obtain ⟨hrunning', htype', hinterval'⟩ :=
          notifyInterestRequest_start type true hlive hpos
        refine .active remaining hempty rfl hrunning' htype' ?_ fun sub hmem => ?_
        · change (h.component.notifyInterestRequest _ type true).responsesInterval ≠ 0
          rw [hinterval']
          exact hpos
        · refine ⟨(hperiods sub (hsub sub hmem)).1, ?_⟩
          change (h.component.notifyInterestRequest _ type true).responsesInterval.toNat ∣ _
          rw [hinterval']
          change (newGcd remaining).toNat ∣ _
          rw [toNat_newGcd]
          exact dvd_periodGcd.mp dvd_rfl sub hmem
      · exact .active remaining hempty rfl hrunning htype hinterval fun sub hmem =>
          hperiods sub (hsub sub hmem)

/-- The type of the responses is that of a request, and so is every entry of the table. -/
structure Asked (asked : TedsType → Period → Address → Prop) (h : TedsHandler) : Prop where
  responseType : h.component.joinable = true →
    ∃ period source, asked h.component.responseType period source
  table : ∀ x ∈ h.subscribers, x.2 ≠ [] ∧ ∀ sub ∈ x.2, asked x.1 sub.period sub.address

variable {asked asked' : TedsType → Period → Address → Prop}

theorem Asked.mono (ha : Asked asked h)
    (hle : ∀ type period source, asked type period source → asked' type period source) :
    Asked asked' h := by
  refine ⟨fun hjoinable => ?_, fun x hx => ?_⟩
  · obtain ⟨period, source, hasked⟩ := ha.responseType hjoinable
    exact ⟨period, source, hle _ _ _ hasked⟩
  · obtain ⟨hne, hsubs⟩ := ha.table x hx
    exact ⟨hne, fun sub hsub => hle _ _ _ (hsubs sub hsub)⟩

theorem joinable_notify {c : Component} {reset : Bool}
    (hjoinable : (c.notifyInterestRequest period type reset).joinable = true) :
    (c.notifyInterestRequest period type reset).responseType = type ∨ c.joinable = true ∧
      (c.notifyInterestRequest period type reset).responseType = c.responseType := by
  cases hlive : c.terminated with
  | true =>
    unfold Component.notifyInterestRequest at hjoinable ⊢
    rw [if_pos hlive] at hjoinable ⊢
    exact .inr ⟨hjoinable, rfl⟩
  | false =>
    by_cases hperiod : period = 0
    · have hstop : c.notifyInterestRequest period type reset =
          { c with responseRunning := false, responsesInterval := 0 } := by
        unfold Component.notifyInterestRequest
        rw [if_neg (by simp [hlive]), Component.setInterest_stop hperiod]
        rfl
      rw [hstop] at hjoinable ⊢
      exact .inr ⟨hjoinable, rfl⟩
    · exact .inl (notifyInterestRequest_start type reset hlive hperiod).2.1

theorem joinable_notifyAll {c : Component} {calls : List (Period × TedsType)}
    (hjoinable : (notifyAll c calls).joinable = true) :
    (∃ call ∈ calls, (notifyAll c calls).responseType = call.2) ∨
      c.joinable = true ∧ (notifyAll c calls).responseType = c.responseType := by
  induction calls generalizing c with
  | nil => exact .inr ⟨hjoinable, rfl⟩
  | cons call calls ih =>
    rcases ih (c := c.notifyInterestRequest call.1 call.2 true) hjoinable with
      ⟨later, hlater, htype⟩ | ⟨hfirst, htype⟩
    · exact .inl ⟨later, List.mem_cons_of_mem _ hlater, htype⟩
    · rcases joinable_notify hfirst with hown | ⟨hbefore, hsame⟩
      · exact .inl ⟨call, List.mem_cons_self, htype.trans hown⟩
      · exact .inr ⟨hbefore, htype.trans hsame⟩

theorem mem_of_mem_get {m : Subscribers} {sub : SubscriberInfo} (hsub : sub ∈ m.get type) :
    ∃ list, (type, list) ∈ m ∧ sub ∈ list := by
  unfold Subscribers.get at hsub
  cases hlookup : m.lookup type with
  | none =>
    rw [hlookup] at hsub
    cases hsub
  | some list =>
    rw [hlookup] at hsub
    obtain ⟨before, after, rfl, -⟩ := List.lookup_eq_some_iff.mp hlookup
    exact ⟨list, List.mem_append_right _ List.mem_cons_self, hsub⟩

theorem Asked.after (ha : Asked asked h) {effect : Option Effect}
    (hnew : ∀ type period source, effect = some (.interest type period source) →
      asked type period source) : Asked asked (h.after effect) := by
  cases effect with
  | none => exact ha
  | some effect =>
    cases effect with
    | apply | sendEcho | computeRtt => exact ha
    | interest type period source =>
      have hasked := hnew type period source rfl
      refine ⟨fun hjoinable => ?_, fun x hx => ?_⟩
      · change ∃ period' source', asked
          (h.component.notifyInterestRequest period type false).responseType period' source'
        rcases joinable_notify hjoinable with htype | ⟨hbefore, htype⟩
        · rw [htype]
          exact ⟨period, source, hasked⟩
        · rw [htype]
          exact ha.responseType hbefore
      · rcases Subscribers.mem_set hx with rfl | hold
        · refine ⟨subscribe_ne_nil, fun sub hsub => ?_⟩
          rcases eq_of_mem_subscribe hsub with rfl | hsub
          · exact hasked
          · obtain ⟨list, hlist, hmem⟩ := mem_of_mem_get hsub
            exact (ha.table _ hlist).2 sub hmem
        · exact ha.table x hold

theorem Asked.cleanup (ha : Asked asked h) (nearby : Address → Bool) :
    Asked asked (TedsHandler.cleanup nearby h.component h.subscribers) := by
  rw [cleanup_eq]
  refine ⟨fun hjoinable => ?_, fun x hx => ?_⟩
  · rcases joinable_notifyAll hjoinable with ⟨⟨period, type⟩, hcall, htype⟩ | ⟨hbefore, htype⟩
    · obtain ⟨list, hlist, ⟨sub, hsub, -⟩, -⟩ := mem_calls.mp hcall
      rw [htype]
      exact ⟨sub.period, sub.address, (ha.table _ hlist).2 sub hsub⟩
    · rw [htype]
      exact ha.responseType hbefore
  · obtain ⟨hne, all, hall, hfilter⟩ := Subscribers.mem_sweep.mp hx
    refine ⟨hne, fun sub hsub => ?_⟩
    rw [← hfilter] at hsub
    exact (ha.table _ hall).2 sub (List.mem_filter.mp hsub).1

end TedsHandler

end CommunicationAPI
