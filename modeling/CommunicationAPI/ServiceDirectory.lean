import CommunicationAPI.CString

/-!
# The directory of services

`registerService` takes the first free entry under the directory's semaphore and
nothing frees one. Names are cut to the field of an entry when they are stored,
and compared in full when they are looked up.
-/

namespace CommunicationAPI.ServiceDirectory
open CString

def maxClients : ℕ := 16

def basePort : ℕ := 1000

def nameSize : ℕ := 64

structure DirectoryEntry where
  isActive : Bool
  componentName : List UInt8
  componentTypeId : UInt32
  assignedPort : UInt16
  ownerPid : ℕ
  deriving DecidableEq, Repr

structure ComponentDirectory where
  nextPortToAssign : UInt16
  entries : List DirectoryEntry

/-- A call of `registerService`: its arguments, the process that makes it and whether
it gets hold of the semaphore. -/
structure Registration where
  name : List UInt8
  typeId : UInt32
  pid : ℕ
  locks : Bool

namespace ComponentDirectory

def initial : ComponentDirectory where
  nextPortToAssign := UInt16.ofNat basePort
  entries := List.replicate maxClients ⟨false, List.replicate nameSize 0, 0, 0, 0⟩

variable (d : ComponentDirectory)

def fill (entry : DirectoryEntry) (r : Registration) : DirectoryEntry where
  isActive := true
  componentName := copyTerminated entry.componentName r.name
  componentTypeId := r.typeId
  assignedPort := d.nextPortToAssign
  ownerPid := r.pid

def registerService (r : Registration) : ComponentDirectory × UInt16 :=
  if r.locks then
    match d.entries.findIdx? fun entry => !entry.isActive with
    | some i =>
      ({ nextPortToAssign := d.nextPortToAssign + 1
         entries := d.entries.modify i fun entry => d.fill entry r }, d.nextPortToAssign)
    | none => (d, 0)
  else (d, 0)

def lookupService (name : List UInt8) : UInt16 :=
  (d.entries.find? fun entry => entry.isActive && equal entry.componentName name).elim 0
    DirectoryEntry.assignedPort

def lookupServiceByType (typeId : UInt32) : UInt16 :=
  (d.entries.find? fun entry => entry.isActive && entry.componentTypeId == typeId).elim 0
    DirectoryEntry.assignedPort

end ComponentDirectory

structure History where
  directory : ComponentDirectory
  successes : List (Registration × UInt16)

def History.register (h : History) (r : Registration) : History where
  directory := (h.directory.registerService r).1
  successes :=
    if (h.directory.registerService r).2 = 0 then h.successes
    else h.successes ++ [(r, (h.directory.registerService r).2)]

def start : History := ⟨.initial, []⟩

/-- The registrations in the order in which they got hold of the semaphore. -/
def run (calls : List Registration) : History := calls.foldl History.register start

section First

variable {α : Type*}

/-- At or before every element with `p` there is one with `q`. -/
def Precedes (q p : α → Bool) (l : List α) : Prop :=
  ∀ i x, l[i]? = some x → p x = true → ∃ y ∈ l.take (i + 1), q y = true

theorem precedes_cons {q p : α → Bool} {a : α} {l : List α} :
    Precedes q p (a :: l) ↔ (p a = true → q a = true) ∧ (q a = true ∨ Precedes q p l) := by
  constructor
  · intro h
    refine ⟨fun hp => ?_, or_iff_not_imp_left.mpr fun hq i x hx hp => ?_⟩
    · obtain ⟨y, hy, hqy⟩ := h 0 a rfl hp
      cases List.mem_singleton.mp hy
      exact hqy
    · obtain ⟨y, hy, hqy⟩ := h (i + 1) x hx hp
      rcases List.mem_cons.mp hy with rfl | hy
      · exact absurd hqy hq
      · exact ⟨y, hy, hqy⟩
  · rintro ⟨hhead, htail⟩ i x hx hp
    cases i with
    | zero =>
      cases hx
      exact ⟨a, List.mem_singleton_self a, hhead hp⟩
    | succ i =>
      rcases htail with hq | htail
      · exact ⟨a, List.mem_cons_self, hq⟩
      · obtain ⟨y, hy, hqy⟩ := htail i x hx hp
        exact ⟨y, List.mem_cons_of_mem a hy, hqy⟩

/-- The first elements of two kinds are at the same place if each kind precedes the other. -/
theorem findIdx?_eq_iff {p q : α → Bool} {l : List α} :
    l.findIdx? p = l.findIdx? q ↔ Precedes q p l ∧ Precedes p q l := by
  induction l with
  | nil =>
    refine ⟨fun _ => ⟨?_, ?_⟩, fun _ => rfl⟩ <;> exact fun i x hx => absurd hx (by simp)
  | cons a l ih =>
    rw [precedes_cons, precedes_cons, List.findIdx?_cons, List.findIdx?_cons]
    cases hp : p a <;> cases hq : q a
    · have hinj : ∀ u v : Option ℕ, u.map (· + 1) = v.map (· + 1) ↔ u = v := fun u v =>
        (Option.map_injective fun _ _ h => Nat.add_right_cancel h).eq_iff
      simp only [Bool.false_eq_true, if_false, hinj, ih, false_or, imp_self, true_and]
    · simp
    · simp
    · simp

end First

def storedName (name : List UInt8) : List UInt8 := (cString name).take (nameSize - 1)

structure Holds (entry : DirectoryEntry) (s : Registration × UInt16) : Prop where
  isActive : entry.isActive = true
  name : cString entry.componentName = storedName s.1.name
  typeId : entry.componentTypeId = s.1.typeId
  port : entry.assignedPort = s.2

structure Free (entry : DirectoryEntry) : Prop where
  isActive : entry.isActive = false
  name : entry.componentName.length = nameSize

/-- The first entries hold the successful registrations, whose ports are counted up from
the base, and the rest are free. -/
structure Recorded (h : History) : Prop where
  entries : ∃ used free, h.directory.entries = used ++ free ∧
    List.Forall₂ Holds used h.successes ∧ ∀ entry ∈ free, Free entry
  length : h.directory.entries.length = maxClients
  next : h.directory.nextPortToAssign = UInt16.ofNat (basePort + h.successes.length)
  ports : h.successes.map Prod.snd =
    (List.range h.successes.length).map fun i => UInt16.ofNat (basePort + i)

theorem recorded_start : Recorded start := by
  refine ⟨⟨[], start.directory.entries, rfl, .nil, fun entry hentry => ?_⟩, rfl, rfl, rfl⟩
  rw [List.eq_of_mem_replicate hentry]
  exact ⟨rfl, rfl⟩

theorem Free.fill {entry : DirectoryEntry} (h : Free entry) (d : ComponentDirectory)
    (r : Registration) : Holds (d.fill entry r) (r, d.nextPortToAssign) :=
  ⟨rfl, cString_copyTerminated r.name h.name, rfl, rfl⟩

theorem findIdx?_free {used free : List DirectoryEntry} {successes : List (Registration × UInt16)}
    (hused : List.Forall₂ Holds used successes) (hfree : ∀ entry ∈ free, Free entry) :
    (used ++ free).findIdx? (fun entry => !entry.isActive) =
      if free = [] then none else some used.length := by
  induction hused with
  | nil =>
    cases free with
    | nil => rfl
    | cons entry free =>
      have hactive := (hfree entry List.mem_cons_self).isActive
      rw [List.nil_append, List.findIdx?_cons, hactive, if_neg (List.cons_ne_nil _ _)]
      rfl
  | cons hhead _ ih =>
    rw [List.cons_append, List.findIdx?_cons, hhead.isActive, ih, List.length_cons,
      Bool.not_true, if_neg Bool.false_ne_true]
    split_ifs <;> rfl

theorem modify_length_append (f : DirectoryEntry → DirectoryEntry) (used : List DirectoryEntry)
    (entry : DirectoryEntry) (free : List DirectoryEntry) :
    (used ++ entry :: free).modify used.length f = used ++ f entry :: free := by
  induction used with
  | nil => rfl
  | cons b used ih => exact congrArg (b :: ·) ih

/-- What a successful registration does. -/
theorem registerService_eq {d : ComponentDirectory} {r : Registration}
    {used free : List DirectoryEntry} {successes : List (Registration × UInt16)}
    (hentries : d.entries = used ++ free) (hused : List.Forall₂ Holds used successes)
    (hfree : ∀ entry ∈ free, Free entry) (hlocks : r.locks = true) :
    d.registerService r = free.head?.elim (d, 0) fun entry =>
      (⟨d.nextPortToAssign + 1, used ++ d.fill entry r :: free.tail⟩, d.nextPortToAssign) := by
  unfold ComponentDirectory.registerService
  rw [if_pos hlocks, hentries, findIdx?_free hused hfree]
  cases free with
  | nil => rfl
  | cons entry free =>
    rw [if_neg (List.cons_ne_nil entry free)]
    dsimp only
    rw [modify_length_append]
    rfl

theorem toNat_port {i : ℕ} (hi : i < maxClients) :
    (UInt16.ofNat (basePort + i)).toNat = basePort + i := by
  unfold maxClients at hi
  rw [UInt16.toNat_ofNat']
  unfold basePort
  omega

theorem port_inj {i j : ℕ} (hi : i < maxClients) (hj : j < maxClients)
    (h : UInt16.ofNat (basePort + i) = UInt16.ofNat (basePort + j)) : i = j := by
  have hnat := congrArg UInt16.toNat h
  rw [toNat_port hi, toNat_port hj] at hnat
  exact Nat.add_left_cancel hnat

theorem port_ne_zero {i : ℕ} (hi : i < maxClients) : UInt16.ofNat (basePort + i) ≠ 0 := by
  intro h
  have hnat := congrArg UInt16.toNat h
  rw [toNat_port hi] at hnat
  exact absurd hnat (by unfold basePort; simp)

namespace Recorded
variable {h : History}

theorem length_le (hh : Recorded h) : h.successes.length ≤ maxClients := by
  obtain ⟨used, free, hentries, hused, -⟩ := hh.entries
  have hlength := hh.length
  rw [hentries, List.length_append, hused.length_eq] at hlength
  omega

/-- The first free entry takes the registration. -/
theorem registers (hh : Recorded h) {r : Registration} {used free : List DirectoryEntry}
    {entry : DirectoryEntry} (hentries : h.directory.entries = used ++ entry :: free)
    (hused : List.Forall₂ Holds used h.successes) (hfree : ∀ e ∈ entry :: free, Free e)
    (hlocks : r.locks = true) :
    (h.directory.registerService r).2 ≠ 0 ∧ Recorded (h.register r) := by
  have heq := registerService_eq hentries hused hfree hlocks
  rw [List.head?_cons, Option.elim_some, List.tail_cons] at heq
  have hlength := hh.length
  rw [hentries, List.length_append, List.length_cons, hused.length_eq] at hlength
  have hport : h.directory.nextPortToAssign ≠ 0 := by
    rw [hh.next]
    exact port_ne_zero (by omega)
  have hregister : h.register r = ⟨⟨h.directory.nextPortToAssign + 1,
      used ++ h.directory.fill entry r :: free⟩,
      h.successes ++ [(r, h.directory.nextPortToAssign)]⟩ := by
    unfold History.register
    rw [heq, if_neg hport]
  rw [hregister, heq]
  refine ⟨hport, ⟨used ++ [h.directory.fill entry r], free, ?_, ?_,
    fun e he => hfree e (List.mem_cons_of_mem entry he)⟩, ?_, ?_, ?_⟩
  · rw [List.append_assoc]
    rfl
  · exact List.rel_append hused (.cons ((hfree entry List.mem_cons_self).fill _ r) .nil)
  · rw [List.length_append, List.length_cons, hused.length_eq]
    exact hlength
  · rw [List.length_append, List.length_singleton, ← Nat.add_assoc, UInt16.ofNat_add _ 1, hh.next]
    rfl
  · rw [List.map_append, List.length_append, List.length_singleton, List.range_succ,
      List.map_append, hh.ports, List.map_singleton, List.map_singleton, hh.next]

/-- A registration takes a free entry or leaves everything as it is. -/
theorem register (hh : Recorded h) (r : Registration) :
    (h.directory.registerService r = (h.directory, 0) ∧ h.register r = h) ∨
      ((h.directory.registerService r).2 ≠ 0 ∧ Recorded (h.register r)) := by
  have hunchanged : h.directory.registerService r = (h.directory, 0) →
      h.directory.registerService r = (h.directory, 0) ∧ h.register r = h := by
    intro heq
    refine ⟨heq, ?_⟩
    unfold History.register
    rw [heq, if_pos rfl]
  obtain ⟨used, free, hentries, hused, hfree⟩ := hh.entries
  cases hlocks : r.locks with
  | false =>
    refine .inl (hunchanged ?_)
    unfold ComponentDirectory.registerService
    rw [hlocks, if_neg Bool.false_ne_true]
  | true =>
    cases free with
    | nil => exact .inl (hunchanged (registerService_eq hentries hused hfree hlocks))
    | cons entry free => exact .inr (hh.registers hentries hused hfree hlocks)

end Recorded

theorem recorded_run (calls : List Registration) : Recorded (run calls) := by
  induction calls using List.reverseRecOn with
  | nil => exact recorded_start
  | append_singleton calls r ih =>
    have hrun : run (calls ++ [r]) = (run calls).register r := by
      unfold run
      rw [List.foldl_append]
      rfl
    rw [hrun]
    rcases ih.register r with ⟨-, hsame⟩ | ⟨-, hnext⟩
    · rw [hsame]
      exact ih
    · exact hnext

def firstPort (p : Registration × UInt16 → Bool) (successes : List (Registration × UInt16)) :
    UInt16 :=
  (successes.find? p).elim 0 Prod.snd

/-- A search of the active entries is one of the successful registrations. -/
theorem find?_entries {used free : List DirectoryEntry}
    {successes : List (Registration × UInt16)} (hused : List.Forall₂ Holds used successes)
    (hfree : ∀ entry ∈ free, Free entry) {matching : DirectoryEntry → Bool}
    {p : Registration × UInt16 → Bool}
    (hmatching : ∀ entry s, Holds entry s → matching entry = p s) :
    ((used ++ free).find? fun entry => entry.isActive && matching entry).elim 0
        DirectoryEntry.assignedPort = firstPort p successes := by
  have hnone : (free.find? fun entry => entry.isActive && matching entry) = none := by
    rw [List.find?_eq_none]
    intro entry hentry
    rw [(hfree entry hentry).isActive, Bool.false_and]
    exact Bool.false_ne_true
  unfold firstPort
  rw [List.find?_append, hnone, Option.or_none]
  induction hused with
  | nil => rfl
  | cons hhead _ ih =>
    rw [List.find?_cons, List.find?_cons, hhead.isActive, hmatching _ _ hhead, Bool.true_and]
    split
    · exact hhead.port
    · exact ih

section Recorded

variable {h : History}

theorem Recorded.lookupService_eq (hh : Recorded h) (name : List UInt8) :
    h.directory.lookupService name =
      firstPort (fun s => storedName s.1.name == cString name) h.successes := by
  obtain ⟨used, free, hentries, hused, hfree⟩ := hh.entries
  unfold ComponentDirectory.lookupService
  rw [hentries]
  refine find?_entries hused hfree fun entry s hholds => ?_
  rw [equal, hholds.name]

theorem Recorded.lookupServiceByType_eq (hh : Recorded h) (typeId : UInt32) :
    h.directory.lookupServiceByType typeId =
      firstPort (fun s => s.1.typeId == typeId) h.successes := by
  obtain ⟨used, free, hentries, hused, hfree⟩ := hh.entries
  unfold ComponentDirectory.lookupServiceByType
  rw [hentries]
  refine find?_entries hused hfree fun entry s hholds => ?_
  rw [hholds.typeId]

theorem Recorded.port_at (hh : Recorded h) {i : ℕ} (hi : i < h.successes.length) :
    h.successes[i].2 = UInt16.ofNat (basePort + i) := by
  have hport := congrArg (·[i]?) hh.ports
  simpa [hi] using hport

/-- The first port of a kind tells the place of the first registration of that kind. -/
theorem Recorded.firstPort_eq (hh : Recorded h) (p : Registration × UInt16 → Bool) :
    firstPort p h.successes =
      (h.successes.findIdx? p).elim 0 fun i => UInt16.ofNat (basePort + i) := by
  unfold firstPort
  cases hfirst : h.successes.findIdx? p with
  | none =>
    have hnone : h.successes.find? p = none :=
      List.find?_eq_none.mpr fun s hs => by
        rw [List.findIdx?_eq_none_iff.mp hfirst s hs]
        exact Bool.false_ne_true
    rw [hnone]
    rfl
  | some i =>
    obtain ⟨hi, hp, hbefore⟩ := List.findIdx?_eq_some_iff_getElem.mp hfirst
    have hsome : h.successes.find? p = some h.successes[i] :=
      List.find?_eq_some_iff_getElem.mpr ⟨hp, i, hi, rfl, fun j hj => by
        rw [Bool.eq_false_iff.mpr (hbefore j hj)]
        rfl⟩
    rw [hsome]
    exact hh.port_at hi

theorem Recorded.firstPort_inj (hh : Recorded h) (p q : Registration × UInt16 → Bool) :
    firstPort p h.successes = firstPort q h.successes ↔
      h.successes.findIdx? p = h.successes.findIdx? q := by
  rw [hh.firstPort_eq, hh.firstPort_eq]
  refine ⟨fun heq => ?_, fun heq => by rw [heq]⟩
  have hbound : ∀ {p : Registration × UInt16 → Bool} {i : ℕ},
      h.successes.findIdx? p = some i → i < maxClients := fun hi =>
    (List.findIdx?_eq_some_iff_getElem.mp hi).1.trans_le hh.length_le
  cases hp : h.successes.findIdx? p with
  | none =>
    cases hq : h.successes.findIdx? q with
    | none => rfl
    | some j =>
      rw [hp, hq] at heq
      exact absurd heq.symm (port_ne_zero (hbound hq))
  | some i =>
    cases hq : h.successes.findIdx? q with
    | none =>
      rw [hp, hq] at heq
      exact absurd heq (port_ne_zero (hbound hp))
    | some j =>
      rw [hp, hq] at heq
      exact congrArg some (port_inj (hbound hp) (hbound hq) heq)

/-- The name is found again if it was registered, and no registration is kept under it
that comes before the first one made under it. -/
def Distinguished (successes : List (Registration × UInt16)) (name : List UInt8) : Prop :=
  (∀ s ∈ successes, s.1.name = name → (cString name).length < nameSize) ∧
    Precedes (fun s => s.1.name == name) (fun s => storedName s.1.name == cString name) successes

/-- A lookup by name finds the first registration under exactly that name if and only if
the stored names distinguish it. -/
theorem Recorded.lookupService_iff (hh : Recorded h) (name : List UInt8) :
    h.directory.lookupService name = firstPort (fun s => s.1.name == name) h.successes ↔
      Distinguished h.successes name := by
  rw [hh.lookupService_eq, hh.firstPort_inj, findIdx?_eq_iff]
  unfold Distinguished
  rw [and_comm (a := ∀ s ∈ _, _)]
  refine and_congr_right fun _ => ?_
  constructor
  · intro hstored s hs hname
    obtain ⟨i, hi, rfl⟩ := List.getElem_of_mem hs
    obtain ⟨y, -, hy⟩ := hstored i _ (List.getElem?_eq_getElem hi) (beq_iff_eq.mpr hname)
    rw [← beq_iff_eq.mp hy, storedName, List.length_take]
    unfold nameSize
    omega
  · intro hshort i s hs hname
    refine ⟨s, List.mem_of_getElem? ((List.getElem?_take_of_lt (Nat.lt_succ_self i)).trans hs), ?_⟩
    have heq := beq_iff_eq.mp hname
    have hlength := hshort s (List.mem_of_getElem? hs) heq
    unfold nameSize at hlength
    rw [beq_iff_eq, storedName, heq]
    exact List.take_of_length_le (Nat.le_sub_one_of_lt hlength)

end Recorded

/-- After any registrations of any processes the ports are distinct and not zero, a lookup
by type and a failing registration do what a map does, and a lookup by name does if and
only if the stored names distinguish the name. -/
theorem directory_is_map_iff (calls : List Registration) (name : List UInt8) (typeId : UInt32) :
    (((run calls).successes.map Prod.snd).Nodup ∧ (∀ s ∈ (run calls).successes, s.2 ≠ 0) ∧
      (run calls).directory.lookupService name =
        firstPort (fun s => s.1.name == name) (run calls).successes ∧
      (run calls).directory.lookupServiceByType typeId =
        firstPort (fun s => s.1.typeId == typeId) (run calls).successes ∧
      ∀ r, ((run calls).directory.registerService r).2 = 0 →
        ((run calls).directory.registerService r).1 = (run calls).directory) ↔
      Distinguished (run calls).successes name := by
  have hh := recorded_run calls
  rw [← hh.lookupService_iff]
  refine ⟨fun hall => hall.2.2.1, fun hname => ⟨?_, fun s hs => ?_, hname,
    hh.lookupServiceByType_eq typeId, fun r hzero => ?_⟩⟩
  · rw [hh.ports]
    refine List.Nodup.map_on (fun i hi j hj heq => ?_) List.nodup_range
    rw [List.mem_range] at hi hj
    exact port_inj (hi.trans_le hh.length_le) (hj.trans_le hh.length_le) heq
  · obtain ⟨i, hi, rfl⟩ := List.getElem_of_mem hs
    rw [hh.port_at hi]
    exact port_ne_zero (hi.trans_le hh.length_le)
  · rcases hh.register r with ⟨hsame, -⟩ | ⟨hne, -⟩
    · rw [hsame]
    · exact absurd hzero hne

def letters (n : ℕ) : List UInt8 := List.replicate n 97

def longNameRun : List Registration := [⟨letters 64, 5, 100, true⟩]

/-- A name of 64 letters is not found under itself, and is found under its first 63. -/
theorem long_name_is_cut :
    (run longNameRun).directory.lookupService (letters 64) = 0 ∧
      firstPort (fun s => s.1.name == letters 64) (run longNameRun).successes = 1000 ∧
      (run longNameRun).directory.lookupService (letters 63) = 1000 ∧
      firstPort (fun s => s.1.name == letters 63) (run longNameRun).successes = 0 := by
  decide +kernel

end CommunicationAPI.ServiceDirectory
