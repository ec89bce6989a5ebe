import CommunicationAPI.ServiceDirectory
import CommunicationAPI.Monitor

/-!
# Threads at the directory of services

`registerService` works under the directory's semaphore, the two lookups take no
lock. Every access to the directory is one step of one thread, so a lookup may
meet an entry that is half written. This module follows the registrations: the
directory is at any time what the services so far make of it, with at most one
entry under way.
-/

namespace CommunicationAPI.ServiceDirectory
open CString TransitionSystem

def blank : DirectoryEntry := ⟨false, List.replicate nameSize 0, 0, 0, 0⟩

def ComponentDirectory.entry (d : ComponentDirectory) (i : ℕ) : DirectoryEntry :=
  d.entries.getD i blank

def ComponentDirectory.write (d : ComponentDirectory) (i : ℕ)
    (f : DirectoryEntry → DirectoryEntry) : ComponentDirectory :=
  { d with entries := d.entries.set i (f (d.entry i)) }

inductive Query
  | byName (name : List UInt8)
  | byType (typeId : UInt32)

namespace DirectoryThreads

/-- Where a thread is in `registerService`, before its next access. -/
inductive Phase
  | enter
  | scan (i : ℕ)
  | activate (i : ℕ)
  /-- `strncpy` has yet to write the octets in `left`, in any order. -/
  | copyName (i : ℕ) (left : Finset ℕ)
  | terminate (i : ℕ)
  | setType (i : ℕ)
  | setPid (i : ℕ)
  | loadPort (i : ℕ)
  | storeNext (i : ℕ) (port : UInt16)
  | storePort (i : ℕ) (port : UInt16)
  | unlock (i : ℕ)
  | unlockFull
  /-- The lock is given back, and the port is read for the caller. -/
  | finish (i : ℕ)

inductive Cursor
  | check (i : ℕ)
  | compareType (i : ℕ)
  | compareName (i k : ℕ)
  | loadPort (i : ℕ)

/-- `known` is the number of services whose registration was over when the lookup began. -/
inductive Pc
  | idle
  | registering (r : Registration) (x : Phase)
  | looking (q : Query) (known : ℕ) (y : Cursor)

structure Answer where
  query : Query
  known : ℕ
  port : UInt16

/-- `services` are the registrations that have taken an entry, in order; the first `committed` of
them have given the lock back. -/
structure State (ι : Type*) where
  directory : ComponentDirectory
  locked : Bool
  pc : ι → Pc
  services : List Registration
  committed : ℕ
  returned : List (Registration × UInt16)
  answers : List Answer

inductive Action (ι : Type*)
  | register (t : ι) (r : Registration)
  | lookup (t : ι) (q : Query)
  /-- The next access of a thread; a copy goes on with octet `k`. -/
  | access (t : ι) (k : ℕ)

variable {ι : Type*}

def nameOctet (r : Registration) (k : ℕ) : UInt8 := (cString r.name).getD k 0

namespace State

variable [DecidableEq ι]

def move (s : State ι) (t : ι) (x : Pc) : State ι := { s with pc := Function.update s.pc t x }

def write (s : State ι) (i : ℕ) (f : DirectoryEntry → DirectoryEntry) : State ι :=
  { s with directory := s.directory.write i f }

def answer (s : State ι) (t : ι) (q : Query) (known : ℕ) (port : UInt16) : State ι :=
  { s.move t .idle with answers := s.answers ++ [⟨q, known, port⟩] }

def return_ (s : State ι) (t : ι) (r : Registration) (port : UInt16) : State ι :=
  { s.move t .idle with returned := s.returned ++ [(r, port)] }

def registerStep (s : State ι) (t : ι) (r : Registration) (k : ℕ) : Phase → Option (State ι)
  | .enter =>
    if r.locks then
      if s.locked then none else some { s.move t (.registering r (.scan 0)) with locked := true }
    else some (s.return_ t r 0)
  | .scan i =>
    if i < maxClients then
      if (s.directory.entry i).isActive then some (s.move t (.registering r (.scan (i + 1))))
      else some (s.move t (.registering r (.activate i)))
    else some (s.move t (.registering r .unlockFull))
  | .activate i =>
    some { (s.write i fun e => { e with isActive := true }).move t
      (.registering r (.copyName i (Finset.range (nameSize - 1)))) with
      services := s.services ++ [r] }
  | .copyName i left =>
    if left = ∅ then some (s.move t (.registering r (.terminate i)))
    else if k ∈ left then
      some ((s.write i fun e =>
          { e with componentName := e.componentName.set k (nameOctet r k) }).move t
        (.registering r (.copyName i (left.erase k))))
    else none
  | .terminate i =>
    some ((s.write i fun e =>
        { e with componentName := e.componentName.set (nameSize - 1) 0 }).move t
      (.registering r (.setType i)))
  | .setType i =>
    some ((s.write i fun e => { e with componentTypeId := r.typeId }).move t
      (.registering r (.setPid i)))
  | .setPid i =>
    some ((s.write i fun e => { e with ownerPid := r.pid }).move t (.registering r (.loadPort i)))
  | .loadPort i =>
    some (s.move t (.registering r (.storeNext i s.directory.nextPortToAssign)))
  | .storeNext i port =>
    some { s.move t (.registering r (.storePort i port)) with
      directory := { s.directory with nextPortToAssign := port + 1 } }
  | .storePort i port =>
    some ((s.write i fun e => { e with assignedPort := port }).move t (.registering r (.unlock i)))
  | .unlock i =>
    some { s.move t (.registering r (.finish i)) with
      locked := false
      committed := s.committed + 1 }
  | .unlockFull => some { s.return_ t r 0 with locked := false }
  | .finish i => some (s.return_ t r (s.directory.entry i).assignedPort)

def lookupStep (s : State ι) (t : ι) (q : Query) (known : ℕ) : Cursor → State ι
  | .check i =>
    if i < maxClients then
      if (s.directory.entry i).isActive then
        match q with
        | .byType _ => s.move t (.looking q known (.compareType i))
        | .byName _ => s.move t (.looking q known (.compareName i 0))
      else s.move t (.looking q known (.check (i + 1)))
    else s.answer t q known 0
  | .compareType i =>
    match q with
    | .byType typeId =>
      if (s.directory.entry i).componentTypeId = typeId then
        s.move t (.looking q known (.loadPort i))
      else s.move t (.looking q known (.check (i + 1)))
    | .byName _ => s
  | .compareName i k =>
    match q with
    | .byName name =>
      if (s.directory.entry i).componentName.getD k 0 ≠ (cString name).getD k 0 then
        s.move t (.looking q known (.check (i + 1)))
      else if (cString name).getD k 0 = 0 then s.move t (.looking q known (.loadPort i))
      else s.move t (.looking q known (.compareName i (k + 1)))
    | .byType _ => s
  | .loadPort i => s.answer t q known (s.directory.entry i).assignedPort

def step (s : State ι) : Action ι → Option (State ι)
  | .register t r =>
    match s.pc t with
    | .idle => some (s.move t (.registering r .enter))
    | _ => none
  | .lookup t q =>
    match s.pc t with
    | .idle => some (s.move t (.looking q s.committed (.check 0)))
    | _ => none
  | .access t k =>
    match s.pc t with
    | .registering r x => s.registerStep t r k x
    | .looking q known y => some (s.lookupStep t q known y)
    | .idle => none

def start : State ι := ⟨.initial, false, fun _ => .idle, [], 0, [], []⟩

end State

def machine (ι : Type*) [DecidableEq ι] : Machine (State ι) (Action ι) where
  init s := s = .start
  step := State.step

def portOf (i : ℕ) : UInt16 := UInt16.ofNat (basePort + i)

def nameOf (r : Registration) (left : Finset ℕ) : List UInt8 :=
  (List.range nameSize).map fun k =>
    if k ∉ left ∧ k < nameSize - 1 then nameOctet r k else 0

def finished (i : ℕ) (r : Registration) : DirectoryEntry :=
  ⟨true, nameOf r ∅, r.typeId, portOf i, r.pid⟩

def laidOut (services : List Registration) : ComponentDirectory where
  nextPortToAssign := portOf services.length
  entries := (List.range maxClients).map fun i => (services[i]?).elim blank (finished i)

namespace Phase

def Holds : Phase → Prop
  | enter | finish _ => False
  | _ => True

def Builds (i : ℕ) : Phase → Prop
  | copyName j left => j = i ∧ left ⊆ Finset.range (nameSize - 1)
  | terminate j | setType j | setPid j | loadPort j | unlock j => j = i
  | storeNext j port | storePort j port => j = i ∧ port = portOf i
  | _ => False

def mid (i : ℕ) (r : Registration) : Phase → DirectoryEntry
  | copyName _ left => ⟨true, nameOf r left, 0, 0, 0⟩
  | terminate _ | setType _ => ⟨true, nameOf r ∅, 0, 0, 0⟩
  | setPid _ => ⟨true, nameOf r ∅, r.typeId, 0, 0⟩
  | loadPort _ | storeNext _ _ | storePort _ _ =>
    ⟨true, nameOf r ∅, r.typeId, 0, r.pid⟩
  | _ => finished i r

def ahead : Phase → ℕ
  | storePort _ _ | unlock _ => 1
  | _ => 0

end Phase

def during (front : List Registration) (r : Registration) (x : Phase) : ComponentDirectory where
  nextPortToAssign := portOf (front.length + x.ahead)
  entries := (laidOut front).entries.set front.length (x.mid front.length r)

section Layout
variable {front services : List Registration} {r : Registration} {x x' : Phase} {i : ℕ}

theorem length_laidOut : (laidOut services).entries.length = maxClients := by
  unfold laidOut
  rw [List.length_map, List.length_range]

theorem entry_laidOut (hlength : services.length ≤ maxClients) (i : ℕ) :
    (laidOut services).entry i = (services[i]?).elim blank (finished i) := by
  unfold ComponentDirectory.entry
  rw [List.getD_eq_getElem?_getD]
  by_cases hi : i < maxClients
  · rw [List.getElem?_eq_getElem (by rwa [length_laidOut])]
    simp only [laidOut, List.getElem_map, List.getElem_range, Option.getD_some]
  · have hnone : services[i]? = none := List.getElem?_eq_none (by omega)
    rw [List.getElem?_eq_none (by rw [length_laidOut]; omega), hnone]
    rfl

theorem entry_during (hlength : front.length < maxClients) :
    (during front r x).entry front.length = x.mid front.length r := by
  unfold ComponentDirectory.entry during
  rw [List.getD_eq_getElem?_getD, List.getElem?_set_self (by rwa [length_laidOut]),
    Option.getD_some]

theorem entry_during_of_ne (hi : i ≠ front.length) :
    (during front r x).entry i = (laidOut front).entry i := by
  unfold ComponentDirectory.entry during
  rw [List.getD_eq_getElem?_getD, List.getD_eq_getElem?_getD, List.getElem?_set_ne hi.symm]

/-- One write to the entry under way. -/
theorem write_during (hlength : front.length < maxClients) {f : DirectoryEntry → DirectoryEntry}
    (hf : f (x.mid front.length r) = x'.mid front.length r) (hahead : x'.ahead = x.ahead) :
    (during front r x).write front.length f = during front r x' := by
  unfold ComponentDirectory.write
  rw [entry_during hlength, hf]
  unfold during
  rw [List.set_set, hahead]

theorem write_laidOut (hlength : front.length < maxClients) {f : DirectoryEntry → DirectoryEntry}
    (hf : f blank = x.mid front.length r) (hahead : x.ahead = 0) :
    (laidOut front).write front.length f = during front r x := by
  unfold ComponentDirectory.write during
  rw [entry_laidOut hlength.le, List.getElem?_eq_none le_rfl, Option.elim_none, hf, hahead]
  rfl

/-- The last write makes the entry one of the finished ones. -/
theorem during_unlock : during front r (.unlock i) = laidOut (front ++ [r]) := by
  unfold during laidOut
  rw [List.length_append, List.length_singleton]
  congr 1
  refine List.ext_getElem (by simp) fun j hj _ => ?_
  have hjlt : j < maxClients := by simpa using hj
  rw [List.getElem_set, List.getElem_map, List.getElem_map, List.getElem_range]
  split_ifs with heq
  · subst heq
    rw [List.getElem?_concat_length]
    rfl
  · by_cases hj : j < front.length
    · rw [List.getElem?_append_left hj]
    · rw [List.getElem?_eq_none (by omega), List.getElem?_eq_none (by simp; omega)]

theorem set_nameOf (left : Finset ℕ) {k : ℕ} (hk : k < nameSize - 1) :
    (nameOf r left).set k (nameOctet r k) = nameOf r (left.erase k) := by
  unfold nameOf
  refine List.ext_getElem (by simp) fun j hj _ => ?_
  rw [List.getElem_set, List.getElem_map, List.getElem_map, List.getElem_range]
  rcases eq_or_ne k j with rfl | hne
  · rw [if_pos rfl, if_pos ⟨Finset.notMem_erase k left, hk⟩]
  · simp only [if_neg hne, Finset.mem_erase, ne_eq, hne.symm, not_false_eq_true, true_and]

theorem set_last_nameOf (left : Finset ℕ) :
    (nameOf r left).set (nameSize - 1) 0 = nameOf r left := by
  unfold nameOf
  refine List.ext_getElem (by simp) fun j hj _ => ?_
  rw [List.getElem_set, List.getElem_map, List.getElem_range]
  split_ifs with h₁ h₂ <;> first | rfl | omega

end Layout

def Pc.Holds : Pc → Prop
  | .registering _ x => x.Holds
  | _ => False

/-- What the thread that holds the lock in phase `x` has made of the directory. -/
inductive Explains (d : ComponentDirectory) (services : List Registration) (committed : ℕ)
    (r : Registration) : Phase → Prop
  | scan {i} (hd : d = laidOut services) (hlength : services.length = committed)
    (hi : i ≤ committed) : Explains d services committed r (.scan i)
  | activate {i} (hd : d = laidOut services) (hlength : services.length = committed)
    (hi : i = committed) (hlt : i < maxClients) : Explains d services committed r (.activate i)
  | unlockFull (hd : d = laidOut services) (hlength : services.length = committed) :
    Explains d services committed r .unlockFull
  | building {x front} (hservices : services = front ++ [r]) (hlength : front.length = committed)
    (hlt : committed < maxClients) (hx : x.Builds committed) (hd : d = during front r x) :
    Explains d services committed r x

structure Ordered (s : State ι) : Prop where
  lock : ∃ owner, s.locked = Option.isSome owner ∧ ∀ t, (s.pc t).Holds ↔ owner = some t
  bound : s.services.length ≤ maxClients
  free : s.locked = false → s.directory = laidOut s.services ∧ s.services.length = s.committed
  inside : ∀ t r x, s.pc t = .registering r x → x.Holds →
    Explains s.directory s.services s.committed r x
  finishing : ∀ t r i, s.pc t = .registering r (.finish i) →
    i < s.committed ∧ s.services[i]? = some r
  returned : ∀ e ∈ s.returned, e.2 ≠ 0 →
    ∃ i < s.committed, s.services[i]? = some e.1 ∧ e.2 = portOf i

theorem ordered_start : Ordered (State.start : State ι) where
  lock := ⟨none, rfl, fun _ => iff_of_false not_false nofun⟩
  bound := Nat.zero_le _
  free _ := ⟨rfl, rfl⟩
  inside _ _ _ h := nomatch h
  finishing _ _ _ h := nomatch h
  returned _ h := nomatch h

/-- An entry under way or done: every field is what it was or what it will be. -/
structure Glimpse (i : ℕ) (r : Registration) (e : DirectoryEntry) : Prop where
  isActive : e.isActive = true
  octet : ∀ k, e.componentName.getD k 0 = 0 ∨
    e.componentName.getD k 0 = (nameOf r ∅).getD k 0
  typeId : e.componentTypeId = 0 ∨ e.componentTypeId = r.typeId
  port : e.assignedPort = 0 ∨ e.assignedPort = portOf i

/-- The entries as any thread may find them. -/
structure View (s : State ι) : Prop where
  committed_le : s.committed ≤ s.services.length
  done : ∀ i < s.committed, ∃ r, s.services[i]? = some r ∧ s.directory.entry i = finished i r
  used : ∀ i < s.services.length, ∃ r, s.services[i]? = some r ∧ Glimpse i r (s.directory.entry i)
  unused : ∀ i, s.services.length ≤ i → s.directory.entry i = blank

theorem nameOf_getD (r : Registration) (left : Finset ℕ) (k : ℕ) :
    (nameOf r left).getD k 0 = if k ∉ left ∧ k < nameSize - 1 then nameOctet r k else 0 := by
  unfold nameOf
  rw [List.getD_eq_getElem?_getD, List.getElem?_map]
  by_cases hk : k < nameSize
  · rw [List.getElem?_range hk]
    rfl
  · rw [List.getElem?_eq_none (by rw [List.length_range]; omega), if_neg (by omega)]
    rfl

theorem glimpse_mid (i : ℕ) (r : Registration) (x : Phase) : Glimpse i r (x.mid i r) := by
  have hpartly : ∀ left : Finset ℕ, ∀ k, (nameOf r left).getD k 0 = 0 ∨
      (nameOf r left).getD k 0 = (nameOf r ∅).getD k 0 := by
    intro left k
    rw [nameOf_getD, nameOf_getD]
    split_ifs with hk hall
    · exact .inr rfl
    · exact absurd ⟨Finset.notMem_empty k, hk.2⟩ hall
    · exact .inl rfl
    · exact .inl rfl
  cases x with
  | copyName j left => exact ⟨rfl, hpartly left, .inl rfl, .inl rfl⟩
  | terminate | setType => exact ⟨rfl, fun _ => .inr rfl, .inl rfl, .inl rfl⟩
  | setPid | loadPort | storeNext | storePort =>
    exact ⟨rfl, fun _ => .inr rfl, .inr rfl, .inl rfl⟩
  | _ => exact ⟨rfl, fun _ => .inr rfl, .inr rfl, .inr rfl⟩

theorem glimpse_finished (i : ℕ) (r : Registration) : Glimpse i r (finished i r) :=
  glimpse_mid i r .enter

theorem view_laidOut {s : State ι} (hd : s.directory = laidOut s.services)
    (hbound : s.services.length ≤ maxClients) (hlength : s.services.length = s.committed) :
    View s := by
  have hentry := entry_laidOut hbound
  rw [← hd] at hentry
  have hfinished : ∀ i < s.services.length, ∃ r,
      s.services[i]? = some r ∧ s.directory.entry i = finished i r := by
    intro i hi
    have hr : s.services[i]? = some s.services[i] := List.getElem?_eq_getElem hi
    refine ⟨_, hr, ?_⟩
    rw [hentry, hr, Option.elim_some]
  refine ⟨hlength.ge, fun i hi => hfinished i (hlength ▸ hi), fun i hi => ?_, fun i hi => ?_⟩
  · obtain ⟨r, hr, heq⟩ := hfinished i hi
    exact ⟨r, hr, heq ▸ glimpse_finished i r⟩
  · rw [hentry, List.getElem?_eq_none hi, Option.elim_none]

theorem view_during {s : State ι} {front : List Registration} {r : Registration} {x : Phase}
    (hservices : s.services = front ++ [r]) (hlength : front.length = s.committed)
    (hlt : s.committed < maxClients) (hd : s.directory = during front r x) : View s := by
  have hmore : s.services.length = s.committed + 1 := by
    rw [hservices, List.length_append, hlength]
    rfl
  have hentry : ∀ i, (laidOut front).entry i = (front[i]?).elim blank (finished i) :=
    entry_laidOut (by omega)
  have hother : ∀ i, i ≠ s.committed →
      s.directory.entry i = (front[i]?).elim blank (finished i) := by
    intro i hi
    rw [hd, entry_during_of_ne (by omega), hentry]
  have hdone : ∀ i < s.committed, ∃ r,
      s.services[i]? = some r ∧ s.directory.entry i = finished i r := by
    intro i hi
    have hmem : i < front.length := by omega
    have hr : front[i]? = some front[i] := List.getElem?_eq_getElem hmem
    refine ⟨_, by rw [hservices]; exact getElem?_mono (List.prefix_append _ _) hr, ?_⟩
    rw [hother i hi.ne, hr, Option.elim_some]
  refine ⟨by omega, hdone, fun i hi => ?_, fun i hi => ?_⟩
  · rcases Nat.lt_or_ge i s.committed with hlt' | hge
    · obtain ⟨r, hr, heq⟩ := hdone i hlt'
      exact ⟨r, hr, heq ▸ glimpse_finished i r⟩
    · have hi : i = front.length := by omega
      subst hi
      refine ⟨r, by rw [hservices]; exact List.getElem?_concat_length, ?_⟩
      rw [hd, entry_during (by omega)]
      exact glimpse_mid _ r x
  · rw [hother i (by omega), List.getElem?_eq_none (by omega), Option.elim_none]

theorem Ordered.view {s : State ι} (h : Ordered s) : View s := by
  cases hlocked : s.locked with
  | false =>
    obtain ⟨hd, hlength⟩ := h.free hlocked
    exact view_laidOut hd h.bound hlength
  | true =>
    obtain ⟨owner, howner, hpc⟩ := h.lock
    obtain ⟨t, rfl⟩ := Option.isSome_iff_exists.mp (howner.symm.trans hlocked)
    have ht := (hpc t).mpr rfl
    cases hp : s.pc t with
    | registering r x =>
      rw [hp] at ht
      cases h.inside t r x hp ht with
      | scan hd hlength | activate hd hlength | unlockFull hd hlength =>
        exact view_laidOut hd h.bound hlength
      | building hservices hlength hlt hx hd => exact view_during hservices hlength hlt hd
    | _ =>
      rw [hp] at ht
      exact absurd ht not_false

section Step

variable {s s' : State ι} {t : ι} {r : Registration}

theorem Ordered.eq_of_holds (h : Ordered s) {u : ι} (ht : (s.pc t).Holds) (hu : (s.pc u).Holds) :
    u = t := by
  obtain ⟨owner, -, hpc⟩ := h.lock
  exact Option.some.inj (((hpc u).mp hu).symm.trans ((hpc t).mp ht))

theorem Ordered.locked_of_holds (h : Ordered s) (ht : (s.pc t).Holds) : s.locked = true := by
  obtain ⟨owner, hlocked, hpc⟩ := h.lock
  rw [hlocked, (hpc t).mp ht]
  rfl

theorem Ordered.not_holds (h : Ordered s) (hfree : s.locked = false) (u : ι) :
    ¬ (s.pc u).Holds := by
  intro hu
  cases hfree.symm.trans (h.locked_of_holds hu)

variable [DecidableEq ι]

/-- The thread with the lock goes from one phase to the next. -/
theorem Ordered.build (h : Ordered s) (ht : (s.pc t).Holds) (x : Phase) (hx : x.Holds)
    (d : ComponentDirectory) (services : List Registration)
    (hd : Explains d services s.committed r x) (hservices : s.services <+: services)
    (hbound : services.length ≤ maxClients) :
    Ordered { s.move t (.registering r x) with directory := d, services := services } := by
  obtain ⟨owner, hlocked, hpc⟩ := h.lock
  refine ⟨⟨owner, hlocked, Monitor.holds_update hpc (iff_of_true hx ht)⟩, hbound,
    fun hfree => ?_, fun u r' x' hu hx' => ?_, fun u r' i hu => ?_, fun e he hne => ?_⟩
  · cases hfree.symm.trans (h.locked_of_holds ht)
  · change Function.update s.pc t _ u = _ at hu
    rcases eq_or_ne u t with rfl | hne
    · rw [Function.update_self] at hu
      cases hu
      exact hd
    · rw [Function.update_of_ne hne] at hu
      exact absurd (h.eq_of_holds ht (by rw [hu]; exact hx')) hne
  · have hold := Monitor.eq_of_update hu fun heq => by cases heq; exact hx
    obtain ⟨hi, hr⟩ := h.finishing u r' i hold
    exact ⟨hi, getElem?_mono hservices hr⟩
  · obtain ⟨i, hi, hr, hp⟩ := h.returned e he hne
    exact ⟨i, hi, getElem?_mono hservices hr, hp⟩

/-- A thread that has nothing to do with the lock goes on. -/
theorem Ordered.pass (h : Ordered s) (ht : ¬ (s.pc t).Holds) (x : Pc) (hx : ¬ x.Holds)
    (hfinish : ∀ r i, x = .registering r (.finish i) → s.pc t = .registering r (.finish i))
    (returned : List (Registration × UInt16))
    (hreturned : ∀ e ∈ returned, e.2 ≠ 0 →
      ∃ i < s.committed, s.services[i]? = some e.1 ∧ e.2 = portOf i)
    (answers : List Answer) :
    Ordered { s.move t x with returned := returned, answers := answers } := by
  obtain ⟨owner, hlocked, hpc⟩ := h.lock
  refine ⟨⟨owner, hlocked, Monitor.holds_update hpc (iff_of_false hx ht)⟩, h.bound, h.free,
    fun u r x' hu hx' => ?_, fun u r i hu => ?_, hreturned⟩
  · change Function.update s.pc t _ u = _ at hu
    rcases eq_or_ne u t with rfl | hne
    · rw [Function.update_self] at hu
      rw [hu] at hx
      exact absurd hx' hx
    · rw [Function.update_of_ne hne] at hu
      exact h.inside u r x' hu hx'
  · change Function.update s.pc t _ u = _ at hu
    rcases eq_or_ne u t with rfl | hne
    · rw [Function.update_self] at hu
      exact h.finishing u r i (hfinish r i hu)
    · rw [Function.update_of_ne hne] at hu
      exact h.finishing u r i hu

theorem Ordered.acquire (h : Ordered s) (hfree : s.locked = false) (t : ι) (r : Registration) :
    Ordered { s.move t (.registering r (.scan 0)) with locked := true } := by
  obtain ⟨owner, hlocked, hpc⟩ := h.lock
  obtain ⟨hd, hlength⟩ := h.free hfree
  have hnone : owner = none := by
    rw [hlocked] at hfree
    exact Option.isNone_iff_eq_none.mp (by rw [← Option.not_isSome, hfree]; rfl)
  refine ⟨⟨some t, rfl, Monitor.holds_update_acquire hpc hnone trivial⟩, h.bound, nofun,
    fun u r' x hu hx => ?_, fun u r' i hu => ?_, h.returned⟩
  · change Function.update s.pc t _ u = _ at hu
    rcases eq_or_ne u t with rfl | hne
    · rw [Function.update_self] at hu
      cases hu
      exact .scan hd hlength (Nat.zero_le _)
    · rw [Function.update_of_ne hne] at hu
      exact absurd (by rw [hu]; exact hx) (h.not_holds hfree u)
  · exact h.finishing u r' i (Monitor.eq_of_update hu nofun)

/-- The lock is given back with the directory in order. -/
theorem Ordered.release (h : Ordered s) (ht : (s.pc t).Holds) (x : Pc) (hx : ¬ x.Holds) (n : ℕ)
    (hcommitted : s.committed ≤ n) (hd : s.directory = laidOut s.services)
    (hlength : s.services.length = n)
    (hfinish : ∀ r i, x = .registering r (.finish i) → i < n ∧ s.services[i]? = some r)
    (returned : List (Registration × UInt16))
    (hreturned : ∀ e ∈ returned, e.2 ≠ 0 → e ∈ s.returned) :
    Ordered { s.move t x with locked := false, committed := n, returned := returned } := by
  obtain ⟨owner, hlocked, hpc⟩ := h.lock
  refine ⟨⟨none, rfl, Monitor.holds_update_release hpc ht hx⟩, h.bound, fun _ => ⟨hd, hlength⟩,
    fun u r x' hu hx' => ?_, fun u r i hu => ?_, fun e he hne => ?_⟩
  · change Function.update s.pc t _ u = _ at hu
    rcases eq_or_ne u t with rfl | hne
    · rw [Function.update_self] at hu
      rw [hu] at hx
      exact absurd hx' hx
    · rw [Function.update_of_ne hne] at hu
      exact absurd (h.eq_of_holds ht (by rw [hu]; exact hx')) hne
  · change Function.update s.pc t _ u = _ at hu
    rcases eq_or_ne u t with rfl | hne
    · rw [Function.update_self] at hu
      exact hfinish r i hu
    · rw [Function.update_of_ne hne] at hu
      obtain ⟨hi, hr⟩ := h.finishing u r i hu
      exact ⟨hi.trans_le hcommitted, hr⟩
  · obtain ⟨i, hi, hr, hp⟩ := h.returned e (hreturned e he hne) hne
    exact ⟨i, hi.trans_le hcommitted, hr, hp⟩

variable {x : Phase} {front : List Registration}

/-- One write to the entry under way, as a step of the thread that builds it. -/
theorem Ordered.writes (h : Ordered s) (hpc : s.pc t = .registering r x) (hx : x.Holds)
    (hservices : s.services = front ++ [r]) (hlength : front.length = s.committed)
    (hlt : s.committed < maxClients) (hd : s.directory = during front r x) (x' : Phase)
    (hx' : x'.Holds) (hbuilds : x'.Builds s.committed) {f : DirectoryEntry → DirectoryEntry}
    (hf : f (x.mid s.committed r) = x'.mid s.committed r) (hahead : x'.ahead = x.ahead) :
    Ordered ((s.write s.committed f).move t (.registering r x')) := by
  refine h.build (by rw [hpc]; exact hx) x' hx' (s.directory.write s.committed f) s.services ?_
    List.prefix_rfl h.bound
  refine .building hservices hlength hlt hbuilds ?_
  rw [hd, ← hlength]
  exact write_during (hlength ▸ hlt) (hlength ▸ hf) hahead

theorem nameOf_range (r : Registration) :
    nameOf r (Finset.range (nameSize - 1)) = List.replicate nameSize 0 := by
  unfold nameOf
  simp only [Finset.mem_range, not_and_self, if_false, List.map_const', List.length_range]

theorem Ordered.registerStep {k : ℕ} (h : Ordered s) (hpc : s.pc t = .registering r x)
    (hs : s.registerStep t r k x = some s') : Ordered s' := by
  have hholds : (s.pc t).Holds ↔ x.Holds := by rw [hpc]; exact Iff.rfl
  have hexp : x.Holds → Explains s.directory s.services s.committed r x := h.inside t r x hpc
  cases x with
  | enter =>
    simp only [State.registerStep] at hs
    split_ifs at hs with hlocks hlocked
    · cases hs
      exact h.acquire (Bool.eq_false_iff.mpr hlocked) t r
    · cases hs
      refine h.pass (hholds.not.mpr not_false) .idle not_false nofun _ (fun e he hne => ?_)
        s.answers
      rcases List.mem_append.mp he with he | he
      · exact h.returned e he hne
      · cases List.mem_singleton.mp he
        exact absurd rfl hne
  | scan i =>
    have ht : (s.pc t).Holds := hholds.mpr trivial
    cases hexp trivial with
    | building _ _ _ hx => exact absurd hx not_false
    | scan hd hlength hi =>
      have hentry := entry_laidOut h.bound i
      rw [← hd] at hentry
      simp only [State.registerStep] at hs
      split_ifs at hs with hlt hactive <;> cases hs
      · refine h.build ht (.scan (i + 1)) trivial s.directory s.services
          (.scan hd hlength ?_) List.prefix_rfl h.bound
        by_contra hgt
        rw [hentry, List.getElem?_eq_none (by omega)] at hactive
        cases hactive
      · refine h.build ht (.activate i) trivial s.directory s.services
          (.activate hd hlength ?_ hlt) List.prefix_rfl h.bound
        by_contra hne
        have hmem : i < s.services.length := by omega
        have hused : s.services[i]? = some s.services[i] := List.getElem?_eq_getElem hmem
        rw [hentry, hused] at hactive
        exact hactive rfl
      · exact h.build ht .unlockFull trivial s.directory s.services (.unlockFull hd hlength)
          List.prefix_rfl h.bound
  | activate i =>
    cases hexp trivial with
    | building _ _ _ hx => exact absurd hx not_false
    | activate hd hlength hi hlt =>
      cases hs
      subst hi
      refine h.build (hholds.mpr trivial) (.copyName s.committed (Finset.range (nameSize - 1))) trivial
        (s.directory.write s.committed fun e => { e with isActive := true }) (s.services ++ [r])
        (.building rfl hlength hlt ⟨rfl, Finset.Subset.refl _⟩ ?_) (List.prefix_append _ _)
        (by rw [List.length_append, hlength]; exact hlt)
      rw [hd, ← hlength]
      refine write_laidOut (hlength ▸ hlt) ?_ rfl
      rw [Phase.mid, nameOf_range]
      rfl
  | copyName i left =>
    cases hexp trivial with
    | building hservices hlength hlt hx hd =>
      obtain ⟨rfl, hleft⟩ := hx
      simp only [State.registerStep] at hs
      split_ifs at hs with hdone hk
      · cases hs
        refine h.build (hholds.mpr trivial) (.terminate _) trivial s.directory s.services
          (.building hservices hlength hlt rfl ?_) List.prefix_rfl h.bound
        rw [hd, hdone]
        rfl
      · cases hs
        refine h.writes hpc trivial hservices hlength hlt hd (.copyName _ (left.erase k))
          trivial ⟨rfl, fun j hj => hleft (Finset.erase_subset k left hj)⟩ ?_ rfl
        simp only [Phase.mid, set_nameOf left (Finset.mem_range.mp (hleft hk))]
  | terminate i =>
    cases hexp trivial with
    | building hservices hlength hlt hx hd =>
      cases hx
      cases hs
      refine h.writes hpc trivial hservices hlength hlt hd (.setType _) trivial rfl ?_ rfl
      simp only [Phase.mid, set_last_nameOf]
  | setType i =>
    cases hexp trivial with
    | building hservices hlength hlt hx hd =>
      cases hx
      cases hs
      exact h.writes hpc trivial hservices hlength hlt hd (.setPid _) trivial rfl rfl rfl
  | setPid i =>
    cases hexp trivial with
    | building hservices hlength hlt hx hd =>
      cases hx
      cases hs
      exact h.writes hpc trivial hservices hlength hlt hd (.loadPort _) trivial rfl rfl rfl
  | loadPort i =>
    cases hexp trivial with
    | building hservices hlength hlt hx hd =>
      cases hx
      cases hs
      refine h.build (hholds.mpr trivial) (.storeNext _ _) trivial s.directory s.services
        (.building hservices hlength hlt ⟨rfl, ?_⟩ hd) List.prefix_rfl h.bound
      rw [hd, ← hlength]
      rfl
  | storeNext i port =>
    cases hexp trivial with
    | building hservices hlength hlt hx hd =>
      obtain ⟨rfl, rfl⟩ := hx
      cases hs
      refine h.build (hholds.mpr trivial) (.storePort _ _) trivial
        { s.directory with nextPortToAssign := portOf s.committed + 1 } s.services
        (.building hservices hlength hlt ⟨rfl, rfl⟩ ?_) List.prefix_rfl h.bound
      rw [hd, ← hlength]
      have hnext : ∀ n, portOf n + 1 = portOf (n + 1) := fun n => (UInt16.ofNat_add _ 1).symm
      simp only [during, Phase.ahead, Phase.mid, hnext, Nat.add_zero]
  | storePort i port =>
    cases hexp trivial with
    | building hservices hlength hlt hx hd =>
      obtain ⟨rfl, rfl⟩ := hx
      cases hs
      exact h.writes hpc trivial hservices hlength hlt hd (.unlock _) trivial rfl rfl rfl
  | unlock i =>
    cases hexp trivial with
    | building hservices hlength hlt hx hd =>
      cases hx
      cases hs
      refine h.release (hholds.mpr trivial) (.registering r (.finish _)) not_false
        (s.committed + 1) (Nat.le_succ _) ?_ ?_ (fun r' j hj => ?_) s.returned fun e he _ => he
      · rw [hd, during_unlock, hservices]
      · rw [hservices, List.length_append, hlength]
        rfl
      · cases hj
        refine ⟨Nat.lt_succ_self _, ?_⟩
        rw [hservices, ← hlength, List.getElem?_concat_length]
  | unlockFull =>
    cases hexp trivial with
    | building _ _ _ hx => exact absurd hx not_false
    | unlockFull hd hlength =>
      cases hs
      refine h.release (hholds.mpr trivial) .idle not_false s.committed le_rfl hd hlength nofun _
        fun e he hne => ?_
      rcases List.mem_append.mp he with he | he
      · exact he
      · cases List.mem_singleton.mp he
        exact absurd rfl hne
  | finish i =>
    cases hs
    refine h.pass (hholds.not.mpr not_false) .idle not_false nofun _ (fun e he hne => ?_) s.answers
    rcases List.mem_append.mp he with he | he
    · exact h.returned e he hne
    · cases List.mem_singleton.mp he
      obtain ⟨hi, hr⟩ := h.finishing t r i hpc
      obtain ⟨r', hr', heq⟩ := h.view.done i hi
      refine ⟨i, hi, hr, ?_⟩
      rw [heq]
      rfl

end Step

end DirectoryThreads
end CommunicationAPI.ServiceDirectory
