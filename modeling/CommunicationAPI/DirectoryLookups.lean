import CommunicationAPI.DirectoryThreads

/-!
# Lookups without the lock

A lookup reads the entries one after the other while registrations write them.
It may find the name or the port of an entry half written, and it may miss the
services whose registration it overlaps.
-/

namespace CommunicationAPI.ServiceDirectory
open CString TransitionSystem

/-- What a lookup in a directory at rest finds. -/
def Query.Matches (r : Registration) : Query → Prop
  | .byName name => storedName r.name = cString name
  | .byType typeId => r.typeId = typeId

/-- What a lookup may take for a match while the entry is written. -/
def Query.Resembles (r : Registration) : Query → Prop
  | .byName name => cString name <+: storedName r.name
  | .byType typeId => typeId = 0 ∨ r.typeId = typeId

theorem nameOf_full (r : Registration) (k : ℕ) :
    (DirectoryThreads.nameOf r ∅).getD k 0 =
      (storedName r.name).getD k 0 := by
  rw [DirectoryThreads.nameOf_getD]
  unfold DirectoryThreads.nameOctet storedName
  rw [List.getD_eq_getElem?_getD, List.getD_eq_getElem?_getD, List.getElem?_take]
  by_cases hk : k < nameSize - 1
  · rw [if_pos ⟨Finset.notMem_empty k, hk⟩, if_pos hk]
  · rw [if_neg fun h => hk h.2, if_neg hk]
    rfl

/-- A string ends at its first zero. -/
theorem length_le_of_getD_eq_zero {l : List UInt8} (hl : ∀ b ∈ l, b ≠ 0) {k : ℕ}
    (h : l.getD k 0 = 0) : l.length ≤ k := by
  by_contra hlt
  have hk : k < l.length := Nat.lt_of_not_le hlt
  rw [List.getD_eq_getElem?_getD, List.getElem?_eq_getElem hk, Option.getD_some] at h
  exact hl _ (List.getElem_mem hk) h

theorem prefix_of_agree {l l' : List UInt8}
    (hl : ∀ k < l.length, l'.getD k 0 = l.getD k 0) (hne : ∀ b ∈ l, b ≠ 0) : l <+: l' := by
  have hlength : l.length ≤ l'.length := by
    by_contra hlt
    have hk : l'.length < l.length := Nat.lt_of_not_le hlt
    have hzero := hl l'.length hk
    rw [List.getD_eq_getElem?_getD, List.getElem?_eq_none le_rfl, Option.getD_none] at hzero
    exact absurd (length_le_of_getD_eq_zero hne hzero.symm) (Nat.not_le_of_lt hk)
  refine List.prefix_iff_getElem.mpr ⟨hlength, fun k hk => ?_⟩
  have hoctet := hl k hk
  rw [List.getD_eq_getElem?_getD, List.getD_eq_getElem?_getD, List.getElem?_eq_getElem hk,
    List.getElem?_eq_getElem (hk.trans_le hlength)] at hoctet
  exact hoctet.symm

namespace DirectoryThreads

variable {ι : Type*} {s s' : State ι} {t : ι} {r : Registration} {x : Phase}
  {q : Query} {known : ℕ} {y : Cursor}

structure RegisterEffect [DecidableEq ι] (s : State ι) (t : ι) (r : Registration) (x : Phase)
    (s' : State ι) : Prop where
  pc : s'.pc = Function.update s.pc t .idle ∨
    ∃ x', s'.pc = Function.update s.pc t (.registering r x') ∧
      (x'.Holds → x.Holds ∨ r.locks = true)
  services : s'.services = s.services ∨ s'.services = s.services ++ [r] ∧ x.Holds
  committed : s.committed ≤ s'.committed
  answers : s'.answers = s.answers

theorem registerStep_effect [DecidableEq ι] {k : ℕ} (hs : s.registerStep t r k x = some s') :
    RegisterEffect s t r x s' := by
  cases x with
  | enter =>
    simp only [State.registerStep] at hs
    split_ifs at hs with hlocks hlocked
    · cases hs
      exact ⟨.inr ⟨_, rfl, fun _ => .inr hlocks⟩, .inl rfl, le_rfl, rfl⟩
    · cases hs
      exact ⟨.inl rfl, .inl rfl, le_rfl, rfl⟩
  | scan i =>
    simp only [State.registerStep] at hs
    split_ifs at hs <;> cases hs <;>
      exact ⟨.inr ⟨_, rfl, fun _ => .inl trivial⟩, .inl rfl, le_rfl, rfl⟩
  | activate i =>
    cases hs
    exact ⟨.inr ⟨_, rfl, fun _ => .inl trivial⟩, .inr ⟨rfl, trivial⟩, le_rfl, rfl⟩
  | copyName i left =>
    simp only [State.registerStep] at hs
    split_ifs at hs <;> cases hs <;>
      exact ⟨.inr ⟨_, rfl, fun _ => .inl trivial⟩, .inl rfl, le_rfl, rfl⟩
  | unlock i =>
    cases hs
    exact ⟨.inr ⟨_, rfl, fun h => absurd h not_false⟩, .inl rfl, Nat.le_succ _, rfl⟩
  | unlockFull | finish i =>
    cases hs
    exact ⟨.inl rfl, .inl rfl, le_rfl, rfl⟩
  | _ =>
    cases hs
    exact ⟨.inr ⟨_, rfl, fun _ => .inl trivial⟩, .inl rfl, le_rfl, rfl⟩

theorem copyTerminated_blank (r : Registration) :
    copyTerminated (List.replicate nameSize 0) r.name = nameOf r ∅ := by
  have hcopied : ∀ c : List UInt8, c.take 63 ++ List.replicate (63 - c.length) 0 =
      (List.range 63).map fun k => c.getD k 0 := by
    intro c
    refine List.ext_getElem (by simp; omega) fun j _ hj => ?_
    rw [List.length_map, List.length_range] at hj
    rw [List.getElem_map, List.getElem_range, List.getElem_append, List.getD_eq_getElem?_getD]
    split_ifs with hlt
    · rw [List.length_take] at hlt
      rw [List.getElem_take, List.getElem?_eq_getElem (by omega), Option.getD_some]
    · rw [List.length_take] at hlt
      rw [List.getElem_replicate, List.getElem?_eq_none (by omega), Option.getD_none]
  have hfield : nameOf r ∅ =
      (List.range 63).map (fun k => (cString r.name).getD k 0) ++ [0] := by
    have hsplit : List.range nameSize = List.range 63 ++ [63] := List.range_succ
    unfold nameOf
    rw [hsplit, List.map_append]
    refine congrArg (· ++ [0]) ?_
    refine List.map_congr_left fun k hk => ?_
    have hk63 : k < 63 := List.mem_range.mp hk
    exact if_pos ⟨Finset.notMem_empty k, hk63⟩
  have hlast : (List.replicate nameSize (0 : UInt8)).drop 63 = [0] := rfl
  have hsize : nameSize - 1 = 63 := rfl
  unfold copyTerminated strncpy
  rw [List.length_replicate, hsize, hfield, ← hcopied, hlast,
    List.set_append_right _ _ (length_strncpy_take r.name 63).le, length_strncpy_take]
  rfl

theorem findIdx?_laidOut {front : List Registration} (hlt : front.length < maxClients) :
    (laidOut front).entries.findIdx? (fun e => !e.isActive) = some front.length := by
  have hentry : ∀ i (hi : i < (laidOut front).entries.length),
      (laidOut front).entries[i] = (front[i]?).elim blank (finished i) := by
    intro i hi
    simp only [laidOut, List.getElem_map, List.getElem_range]
  refine List.findIdx?_eq_some_iff_getElem.mpr ⟨by rwa [length_laidOut], ?_, fun j hj => ?_⟩
  · rw [hentry, List.getElem?_eq_none le_rfl]
    rfl
  · rw [hentry, List.getElem?_eq_getElem hj]
    exact Bool.false_ne_true

theorem directory_run (services : List Registration) (hlocks : ∀ r ∈ services, r.locks = true)
    (hbound : services.length ≤ maxClients) : (run services).directory = laidOut services := by
  induction services using List.reverseRecOn with
  | nil => rfl
  | append_singleton front r ih =>
    have hlt : front.length < maxClients := by
      rw [List.length_append] at hbound
      exact hbound
    have hfront := ih (fun r hr => hlocks r (List.mem_append_left _ hr)) hlt.le
    have hrun : (run (front ++ [r])).directory = ((laidOut front).registerService r).1 := by
      rw [← hfront]
      unfold run
      rw [List.foldl_append]
      rfl
    rw [hrun, ← during_unlock (i := 0)]
    unfold ComponentDirectory.registerService
    rw [if_pos (hlocks r (List.mem_append_right _ List.mem_cons_self)), findIdx?_laidOut hlt]
    have hnext : portOf front.length + 1 = portOf (front.length + 1) :=
      (UInt16.ofNat_add _ 1).symm
    have hentries : (laidOut front).entries.modify front.length ((laidOut front).fill · r) =
        (laidOut front).entries.set front.length (finished front.length r) := by
      refine List.ext_getElem (by simp) fun j hj _ => ?_
      rw [List.getElem_modify, List.getElem_set]
      split_ifs with heq
      · subst heq
        simp only [laidOut, List.getElem_map, List.getElem_range, List.getElem?_eq_none le_rfl,
          Option.elim_none, ComponentDirectory.fill, blank, copyTerminated_blank]
        rfl
      · rfl
    simp only [during, hentries, Phase.ahead, ← hnext]
    rfl

/-- None of the services that were known when the lookup began and that it has passed matches. -/
def Passed (s : State ι) (q : Query) (known i : ℕ) : Prop :=
  ∀ j < i, j < known → ∀ r, s.services[j]? = some r → ¬ q.Matches r

def AgreeBelow (s : State ι) (q : Query) (i k : ℕ) : Prop :=
  ∀ name, q = .byName name → ∀ r, s.services[i]? = some r → ∀ j < k,
    (cString name).getD j 0 ≠ 0 ∧ (storedName r.name).getD j 0 = (cString name).getD j 0

def Cursor.Sound (s : State ι) (q : Query) (known : ℕ) : Cursor → Prop
  | check i => Passed s q known i
  | compareType i => Passed s q known i ∧ i < s.services.length
  | compareName i k => Passed s q known i ∧ i < s.services.length ∧ AgreeBelow s q i k
  | loadPort i => Passed s q known i ∧ ∃ r, s.services[i]? = some r ∧ q.Resembles r

/-- What a lookup may answer: a port of a service that resembles what it asked for, and 0 only if
no service known at its beginning matches. -/
structure Answer.Sound (s : State ι) (a : Answer) : Prop where
  known : a.known ≤ s.committed
  found : a.port = 0 ∨ ∃ i r, s.services[i]? = some r ∧ a.port = portOf i ∧ a.query.Resembles r
  first : ∀ j r, j < a.known → s.services[j]? = some r → a.query.Matches r →
    a.port ≠ 0 ∧ a.port ≤ portOf j

structure Sound (s : State ι) : Prop where
  locks : ∀ r ∈ s.services, r.locks = true
  holder : ∀ t r x, s.pc t = .registering r x → x.Holds → r.locks = true
  looking : ∀ t q known y, s.pc t = .looking q known y →
    known ≤ s.committed ∧ y.Sound s q known
  answers : ∀ a ∈ s.answers, a.Sound s

structure Grows (s s' : State ι) : Prop where
  services : s.services <+: s'.services
  committed : s.committed ≤ s'.committed

theorem Grows.service_iff (h : Grows s s') {i : ℕ} (hi : i < s.services.length)
    (r : Registration) : s'.services[i]? = some r ↔ s.services[i]? = some r := by
  obtain ⟨rest, hrest⟩ := h.services
  rw [← hrest, List.getElem?_append_left hi]

theorem Grows.passed (h : Grows s s') (hlength : known ≤ s.services.length) {i : ℕ}
    (hi : Passed s q known i) : Passed s' q known i := by
  intro j hj hknown r hr
  exact hi j hj hknown r ((h.service_iff (hknown.trans_le hlength) r).mp hr)

theorem Grows.cursor (h : Grows s s') (hlength : known ≤ s.services.length)
    (hy : y.Sound s q known) : y.Sound s' q known := by
  have hle := h.services.length_le
  cases y with
  | check i => exact h.passed hlength hy
  | compareType i => exact ⟨h.passed hlength hy.1, hy.2.trans_le hle⟩
  | compareName i k =>
    obtain ⟨hpassed, hi, hagree⟩ := hy
    refine ⟨h.passed hlength hpassed, hi.trans_le hle, fun name hq r hr => ?_⟩
    exact hagree name hq r ((h.service_iff hi r).mp hr)
  | loadPort i =>
    obtain ⟨hpassed, r, hr, hresembles⟩ := hy
    exact ⟨h.passed hlength hpassed, r, getElem?_mono h.services hr, hresembles⟩

theorem Grows.answer (h : Grows s s') (hlength : s.committed ≤ s.services.length) {a : Answer}
    (ha : a.Sound s) : a.Sound s' := by
  refine ⟨ha.known.trans h.committed, ha.found.imp_right ?_, fun j r hj hr hmatch => ?_⟩
  · rintro ⟨i, r, hr, hport, hresembles⟩
    exact ⟨i, r, getElem?_mono h.services hr, hport, hresembles⟩
  · have hlt : j < s.services.length := (hj.trans_le ha.known).trans_le hlength
    exact ha.first j r hj ((h.service_iff hlt r).mp hr) hmatch

theorem passed_succ {i : ℕ} (h : Passed s q known i)
    (hi : i < known → ∀ r, s.services[i]? = some r → ¬ q.Matches r) :
    Passed s q known (i + 1) := by
  intro j hj
  rcases Nat.lt_succ_iff_lt_or_eq.mp hj with hlt | rfl
  · exact h j hlt
  · exact hi

section Lookup

variable (hview : View s) (hknown : known ≤ s.committed)
include hview

theorem service_of_used {i : ℕ} (hi : i < s.services.length) {r : Registration}
    (hr : s.services[i]? = some r) : Glimpse i r (s.directory.entry i) := by
  obtain ⟨r', hr', hglimpse⟩ := hview.used i hi
  cases Option.some.inj (hr'.symm.trans hr)
  exact hglimpse

theorem entry_of_committed {i : ℕ} (hi : i < s.committed) {r : Registration}
    (hr : s.services[i]? = some r) : s.directory.entry i = finished i r := by
  obtain ⟨r', hr', heq⟩ := hview.done i hi
  cases Option.some.inj (hr'.symm.trans hr)
  exact heq

theorem used_of_isActive {i : ℕ} (h : (s.directory.entry i).isActive = true) :
    i < s.services.length := by
  by_contra hge
  rw [hview.unused i (Nat.le_of_not_lt hge)] at h
  exact Bool.false_ne_true h

include hknown

theorem passed_inactive {i : ℕ} (hi : Passed s q known i)
    (hinactive : ¬ (s.directory.entry i).isActive = true) : Passed s q known (i + 1) := by
  refine passed_succ hi fun hlt r hr => ?_
  rw [entry_of_committed hview (hlt.trans_le hknown) hr] at hinactive
  exact absurd rfl hinactive

theorem passed_type {i : ℕ} {typeId : UInt32} (hi : Passed s (.byType typeId) known i)
    (hne : (s.directory.entry i).componentTypeId ≠ typeId) :
    Passed s (.byType typeId) known (i + 1) := by
  refine passed_succ hi fun hlt r hr => ?_
  rw [entry_of_committed hview (hlt.trans_le hknown) hr] at hne
  exact hne

theorem passed_name {i k : ℕ} {name : List UInt8} (hi : Passed s (.byName name) known i)
    (hne : (s.directory.entry i).componentName.getD k 0 ≠ (cString name).getD k 0) :
    Passed s (.byName name) known (i + 1) := by
  refine passed_succ hi fun hlt r hr hmatch => hne ?_
  rw [entry_of_committed hview (hlt.trans_le hknown) hr, ← hmatch]
  exact nameOf_full r k

omit hknown

theorem resembles_type {i : ℕ} {typeId : UInt32} (hi : i < s.services.length)
    (heq : (s.directory.entry i).componentTypeId = typeId) :
    ∃ r, s.services[i]? = some r ∧ (Query.byType typeId).Resembles r := by
  obtain ⟨r, hr, hglimpse⟩ := hview.used i hi
  refine ⟨r, hr, hglimpse.typeId.imp ?_ ?_⟩
  · exact fun hzero => heq.symm.trans hzero
  · exact fun htype => htype.symm.trans heq

theorem agree_succ {i k : ℕ} {name : List UInt8} (hi : i < s.services.length)
    (hk : AgreeBelow s (.byName name) i k)
    (heq : (s.directory.entry i).componentName.getD k 0 = (cString name).getD k 0)
    (hne : (cString name).getD k 0 ≠ 0) : AgreeBelow s (.byName name) i (k + 1) := by
  rintro _ ⟨⟩ r hr j hj
  rcases Nat.lt_succ_iff_lt_or_eq.mp hj with hlt | rfl
  · exact hk name rfl r hr j hlt
  · refine ⟨hne, ?_⟩
    -- the octet read is no zero, so it is the one that stays
    rcases (service_of_used hview hi hr).octet j with hzero | hfinal
    · exact absurd (heq.symm.trans hzero) hne
    · rw [← nameOf_full, ← hfinal, heq]

theorem resembles_name {i k : ℕ} {name : List UInt8} (hi : i < s.services.length)
    (hk : AgreeBelow s (.byName name) i k) (hzero : (cString name).getD k 0 = 0) :
    ∃ r, s.services[i]? = some r ∧ (Query.byName name).Resembles r := by
  obtain ⟨r, hr, -⟩ := hview.used i hi
  have hoctets : ∀ b ∈ cString name, b ≠ 0 := fun b => ne_zero_of_mem_cString
  refine ⟨r, hr, prefix_of_agree (fun j hj => ?_) hoctets⟩
  exact (hk name rfl r hr j (hj.trans_le (length_le_of_getD_eq_zero hoctets hzero))).2

end Lookup

variable [DecidableEq ι]

/-- An access leaves a lookup sound or ends it with a sound answer. -/
theorem lookupStep_cases (h : Ordered s) (hknown : known ≤ s.committed)
    (hy : y.Sound s q known) :
    (∃ y', s.lookupStep t q known y = s.move t (.looking q known y') ∧ y'.Sound s q known) ∨
      (∃ p, s.lookupStep t q known y = s.answer t q known p ∧ Answer.Sound s ⟨q, known, p⟩) ∨
      s.lookupStep t q known y = s := by
  have hview := h.view
  cases y with
  | check i =>
    simp only [State.lookupStep]
    split_ifs with hlt hactive
    · have hused := used_of_isActive hview hactive
      cases q with
      | byType typeId => exact .inl ⟨.compareType i, rfl, hy, hused⟩
      | byName name =>
        exact .inl ⟨.compareName i 0, rfl, hy, hused, fun _ _ _ _ j hj => absurd hj j.not_lt_zero⟩
    · exact .inl ⟨.check (i + 1), rfl, passed_inactive hview hknown hy hactive⟩
    · refine .inr (.inl ⟨0, rfl, hknown, .inl rfl, fun j r hj hr hmatch => ?_⟩)
      have hbound := h.bound
      have hle := hview.committed_le
      have hj' : j < known := hj
      exact absurd hmatch (hy j (by omega) hj r hr)
  | compareType i =>
    obtain ⟨hpassed, hused⟩ := hy
    cases q with
    | byName name => exact .inr (.inr rfl)
    | byType typeId =>
      simp only [State.lookupStep]
      split_ifs with heq
      · exact .inl ⟨.loadPort i, rfl, hpassed, resembles_type hview hused heq⟩
      · exact .inl ⟨.check (i + 1), rfl, passed_type hview hknown hpassed heq⟩
  | compareName i k =>
    obtain ⟨hpassed, hused, hagree⟩ := hy
    cases q with
    | byType typeId => exact .inr (.inr rfl)
    | byName name =>
      simp only [State.lookupStep]
      split_ifs with hne hzero
      · exact .inl ⟨.check (i + 1), rfl, passed_name hview hknown hpassed hne⟩
      · exact .inl ⟨.loadPort i, rfl, hpassed, resembles_name hview hused hagree hzero⟩
      · have heq := not_not.mp hne
        exact .inl ⟨.compareName i (k + 1), rfl, hpassed, hused,
          agree_succ hview hused hagree heq hzero⟩
  | loadPort i =>
    obtain ⟨hpassed, r, hr, hresembles⟩ := hy
    have hused : i < s.services.length := (List.getElem?_eq_some_iff.mp hr).1
    refine .inr (.inl ⟨_, rfl, hknown, ?_, fun j r' hj hr' hmatch => ?_⟩)
    · exact (service_of_used hview hused hr).port.imp_right fun hp => ⟨i, r, hr, hp, hresembles⟩
    · have hij : i ≤ j := by
        by_contra hlt
        exact hpassed j (Nat.lt_of_not_le hlt) hj r' hr' hmatch
      have hj' : j < s.committed := Nat.lt_of_lt_of_le hj hknown
      have hjlt : j < maxClients := hj'.trans_le (hview.committed_le.trans h.bound)
      have hport : (s.directory.entry i).assignedPort = portOf i := by
        rw [entry_of_committed hview (hij.trans_lt hj') hr]
        rfl
      change (s.directory.entry i).assignedPort ≠ 0 ∧ (s.directory.entry i).assignedPort ≤ portOf j
      rw [hport]
      refine ⟨port_ne_zero (hij.trans_lt hjlt), UInt16.le_iff_toNat_le.mpr ?_⟩
      unfold portOf
      rw [toNat_port hjlt, toNat_port (hij.trans_lt hjlt)]
      omega

/-- A thread that is where it was is as sound as before. -/
theorem Sound.step (h : Sound s) (hordered : Ordered s) (hgrows : Grows s s') (t : ι) {z : Pc}
    (hpc : s'.pc = Function.update s.pc t z)
    (hservices : ∀ r ∈ s'.services, r.locks = true)
    (hholder : ∀ r x, z = .registering r x → x.Holds → r.locks = true)
    (hlooking : ∀ q known y, z = .looking q known y → known ≤ s'.committed ∧ y.Sound s' q known)
    (hanswers : ∀ a ∈ s'.answers, a ∈ s.answers ∨ a.Sound s') : Sound s' := by
  have hle := hordered.view.committed_le
  refine ⟨hservices, fun u r x hu hx => ?_, fun u q known y hu => ?_, fun a ha => ?_⟩
  · rw [hpc] at hu
    rcases eq_or_ne u t with rfl | hne
    · rw [Function.update_self] at hu
      exact hholder r x hu hx
    · rw [Function.update_of_ne hne] at hu
      exact h.holder u r x hu hx
  · rw [hpc] at hu
    rcases eq_or_ne u t with rfl | hne
    · rw [Function.update_self] at hu
      exact hlooking q known y hu
    · rw [Function.update_of_ne hne] at hu
      obtain ⟨hknown, hy⟩ := h.looking u q known y hu
      exact ⟨hknown.trans hgrows.committed, hgrows.cursor (hknown.trans hle) hy⟩
  · rcases hanswers a ha with hold | hnew
    · exact hgrows.answer hle (h.answers a hold)
    · exact hnew

omit [DecidableEq ι] in
theorem grows_of_eq (hservices : s'.services = s.services)
    (hcommitted : s'.committed = s.committed) : Grows s s' :=
  ⟨hservices ▸ List.prefix_rfl, hcommitted.ge⟩

theorem Sound.registerStep {k : ℕ} (h : Sound s) (hordered : Ordered s)
    (hpc : s.pc t = .registering r x) (hs : s.registerStep t r k x = some s') : Sound s' := by
  have heffect := registerStep_effect hs
  have hgrows : Grows s s' := by
    refine ⟨?_, heffect.committed⟩
    rcases heffect.services with hsame | ⟨hmore, -⟩
    · rw [hsame]
    · rw [hmore]
      exact List.prefix_append _ _
  have hservices : ∀ r' ∈ s'.services, r'.locks = true := by
    intro r' hr'
    rcases heffect.services with hsame | ⟨hmore, hx⟩
    · exact h.locks r' (hsame ▸ hr')
    · rw [hmore] at hr'
      rcases List.mem_append.mp hr' with hr' | hr'
      · exact h.locks r' hr'
      · cases List.mem_singleton.mp hr'
        exact h.holder t r x hpc hx
  have hanswers : ∀ a ∈ s'.answers, a ∈ s.answers ∨ a.Sound s' :=
    fun a ha => .inl (heffect.answers ▸ ha)
  rcases heffect.pc with hidle | ⟨x', hx', hholds⟩
  · exact h.step hordered hgrows t hidle hservices nofun nofun hanswers
  · refine h.step hordered hgrows t hx' hservices (fun r' x'' heq hx'' => ?_) nofun hanswers
    cases heq
    rcases hholds hx'' with hx | hlocks
    · exact h.holder t r x hpc hx
    · exact hlocks

theorem Sound.lookupStep (h : Sound s) (hordered : Ordered s)
    (hpc : s.pc t = .looking q known y) : Sound (s.lookupStep t q known y) := by
  obtain ⟨hknown, hy⟩ := h.looking t q known y hpc
  rcases lookupStep_cases (t := t) hordered hknown hy with
    ⟨y', heq, hy'⟩ | ⟨p, heq, ha⟩ | heq
  · rw [heq]
    have hgrows : Grows s (s.move t (.looking q known y')) := grows_of_eq rfl rfl
    refine h.step hordered hgrows t rfl h.locks nofun (fun q' known' y'' heq => ?_)
      fun a ha => .inl ha
    cases heq
    exact ⟨hknown, hgrows.cursor (hknown.trans hordered.view.committed_le) hy'⟩
  · rw [heq]
    have hgrows : Grows s (s.answer t q known p) := grows_of_eq rfl rfl
    refine h.step hordered hgrows t rfl h.locks nofun nofun fun a hmem => ?_
    rcases List.mem_append.mp hmem with hmem | hmem
    · exact .inl hmem
    · cases List.mem_singleton.mp hmem
      exact .inr (hgrows.answer hordered.view.committed_le ha)
  · rw [heq]
    exact h

theorem Ordered.lookupStep (h : Ordered s) (hpc : s.pc t = .looking q known y) (hs : Sound s) :
    Ordered (s.lookupStep t q known y) := by
  have hidle : ¬ (s.pc t).Holds := by
    rw [hpc]
    exact not_false
  obtain ⟨hknown, hy⟩ := hs.looking t q known y hpc
  rcases lookupStep_cases (t := t) h hknown hy with ⟨y', heq, -⟩ | ⟨p, heq, -⟩ | heq
  · rw [heq]
    exact h.pass hidle (.looking q known y') not_false nofun s.returned h.returned s.answers
  · rw [heq]
    exact h.pass hidle .idle not_false nofun s.returned h.returned _
  · rw [heq]
    exact h

theorem ordered_sound_step (h : Ordered s ∧ Sound s) {a : Action ι} (hs : s.step a = some s') :
    Ordered s' ∧ Sound s' := by
  obtain ⟨hordered, hsound⟩ := h
  cases a with
  | register t r =>
    simp only [State.step] at hs
    split at hs
    · rename_i hpc
      cases hs
      have hidle : ¬ (s.pc t).Holds := by
        rw [hpc]
        exact not_false
      refine ⟨hordered.pass hidle (.registering r .enter) not_false nofun s.returned
        hordered.returned s.answers, ?_⟩
      exact hsound.step hordered (grows_of_eq rfl rfl) t rfl hsound.locks
        (fun r' x heq hx => by cases heq; exact absurd hx not_false) nofun fun a ha => .inl ha
    · cases hs
  | lookup t q =>
    simp only [State.step] at hs
    split at hs
    · rename_i hpc
      cases hs
      have hidle : ¬ (s.pc t).Holds := by
        rw [hpc]
        exact not_false
      refine ⟨hordered.pass hidle (.looking q _ _) not_false nofun s.returned hordered.returned
        s.answers, ?_⟩
      refine hsound.step hordered (grows_of_eq rfl rfl) t rfl hsound.locks nofun
        (fun q' known y heq => ?_) fun a ha => .inl ha
      cases heq
      exact ⟨le_rfl, fun j hj => absurd hj j.not_lt_zero⟩
    · cases hs
  | access t k =>
    simp only [State.step] at hs
    split at hs
    · exact ⟨hordered.registerStep ‹_› hs, hsound.registerStep hordered ‹_› hs⟩
    · cases hs
      exact ⟨hordered.lookupStep ‹_› hsound, hsound.lookupStep hordered ‹_›⟩
    · cases hs

omit [DecidableEq ι] in
theorem sound_start : Sound (State.start : State ι) where
  locks _ h := nomatch h
  holder _ _ _ h := nomatch h
  looking _ _ _ _ h := nomatch h
  answers _ h := nomatch h

theorem ordered_sound_of_reachable (hs : (machine ι).Reachable s) : Ordered s ∧ Sound s :=
  hs.invariant (P := fun s => Ordered s ∧ Sound s)
    (fun _ hi => hi ▸ ⟨ordered_start, sound_start⟩)
    fun _ _ _ _ h hstep _ => ordered_sound_step h hstep

def halfNameRun : List (Action Bool) :=
  [.register false ⟨[97, 98], 7, 1, true⟩] ++ List.replicate 4 (.access false 0) ++
    [.lookup true (.byName [97])] ++ List.replicate 3 (.access true 0) ++
    (List.range 62).map (fun k => .access false (k + 1)) ++ List.replicate 9 (.access false 0) ++
    [.access true 0]

end DirectoryThreads
end CommunicationAPI.ServiceDirectory
