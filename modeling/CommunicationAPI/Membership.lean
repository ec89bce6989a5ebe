import CommunicationAPI.Ethernet
import CommunicationAPI.Machine
import CommunicationAPI.Multimap

/-!
# The membership of a group

The leader keeps one timer for each client and finds it again through a lookup
table. The monitor gives the mutex up while it announces a departure.
-/

namespace CommunicationAPI.Membership
open TransitionSystem

abbrev Timepoint := ℕ

def timeoutDuration : ℕ := 10 * 10 ^ 6

/-- The monitor waits on the condition variable, or it has the mutex released
around `send_notify_left` for a client that had expired at time `now`. -/
inductive Monitor
  | waiting
  | notifying (it : ℕ) (client : Address) (now : Timepoint)
  deriving DecidableEq

/-- A client dropped from the membership: when the monitor had read its clock, and
the client's last heartbeat. -/
structure Drop where
  client : Address
  now : Timepoint
  heartbeat : Timepoint
  deriving DecidableEq

/-- The containers of the leader, the monitor, and what has happened so far.
`deadErase` is set by an erase through an iterator that denotes no entry. -/
structure State where
  clientsTimeout : Multimap Timepoint Address
  clientLookup : Address → Option ℕ
  monitor : Monitor
  lastHeartbeat : Address → Timepoint
  drops : List Drop
  deadErase : Bool

inductive Action
  | heartbeatUpdate (client : Address) (now : Timepoint)
  | timeout (now : Timepoint)
  | relock

namespace State
variable (s : State)

def eraseTimeout (it : ℕ) : State :=
  match s.clientsTimeout.erase it with
  | some timers => { s with clientsTimeout := timers }
  | none => { s with deadErase := true }

def heartbeatUpdate (client : Address) (now : Timepoint) : State :=
  let s := match s.clientLookup client with
    | some it => s.eraseTimeout it
    | none => s
  { s with
    clientsTimeout := s.clientsTimeout.emplace (now + timeoutDuration) client
    clientLookup := Function.update s.clientLookup client (some s.clientsTimeout.nextIterator)
    lastHeartbeat := Function.update s.lastHeartbeat client now }

/-- The loop of the monitor over expired clients, up to where it releases the mutex. -/
def expire (now : Timepoint) : State :=
  match s.clientsTimeout.begin with
  | some n =>
    if n.key ≤ now then { s with monitor := .notifying n.iterator n.value now }
    else { s with monitor := .waiting }
  | none => { s with monitor := .waiting }

/-- The monitor has the mutex again and cleans up the maps. -/
def cleanUp (it : ℕ) (client : Address) (now : Timepoint) : State :=
  { (s.eraseTimeout it) with
    clientLookup := Function.update s.clientLookup client none
    drops := ⟨client, now, s.lastHeartbeat client⟩ :: s.drops }

def step : Action → Option State
  | .heartbeatUpdate client now => some (s.heartbeatUpdate client now)
  | .timeout now => if s.monitor = .waiting then some (s.expire now) else none
  | .relock =>
    match s.monitor with
    | .waiting => none
    | .notifying it client now => some ((s.cleanUp it client now).expire now)

end State

def initial : State where
  clientsTimeout := .empty
  clientLookup _ := none
  monitor := .waiting
  lastHeartbeat _ := 0
  drops := []
  deadErase := false

def leader : Machine State Action where
  init s := s = initial
  step := State.step

/-- What the two containers promise each other. -/
structure Consistent (s : State) : Prop where
  /-- The lookup of each registered client denotes the one live entry for it. -/
  registered : s.monitor = .waiting → ∀ client it, s.clientLookup client = some it →
    (∃ n ∈ s.clientsTimeout.nodes, n.iterator = it ∧ n.value = client) ∧
      ∃! n, n ∈ s.clientsTimeout.nodes ∧ n.value = client
  /-- Each entry has its lookup. -/
  indexed : s.monitor = .waiting → ∀ n ∈ s.clientsTimeout.nodes,
    s.clientLookup n.value = some n.iterator
  live : s.deadErase = false
  expired : ∀ d ∈ s.drops, d.heartbeat + timeoutDuration ≤ d.now

/-- No client sends a heartbeat while its own departure is being announced. -/
def NoReturn : StepCondition State Action := fun s a _ =>
  ∀ client now, a = .heartbeatUpdate client now → ∀ it now', s.monitor ≠ .notifying it client now'

/-- The containers are each other's inverse, and each timer runs from the last heartbeat. -/
structure Sound (s : State) : Prop where
  indexed : s.clientsTimeout.Indexed s.clientLookup
  fresh : ∀ n ∈ s.clientsTimeout.nodes, n.key = s.lastHeartbeat n.value + timeoutDuration
  live : s.deadErase = false
  expired : ∀ d ∈ s.drops, d.heartbeat + timeoutDuration ≤ d.now

/-- The client whose departure is being announced is still registered, and has expired. -/
structure Inv (s : State) : Prop where
  sound : Sound s
  departing : ∀ it client now, s.monitor = .notifying it client now →
    ∃ n ∈ s.clientsTimeout.nodes, n.iterator = it ∧ n.value = client ∧ n.key ≤ now

variable {s s' : State} {client : Address} {now : Timepoint} {it : ℕ}

theorem Sound.setMonitor (h : Sound s) (monitor : Monitor) : Sound { s with monitor := monitor } :=
  ⟨h.indexed, h.fresh, h.live, h.expired⟩

theorem Sound.expire (h : Sound s) (now : Timepoint) : Inv (s.expire now) := by
  have hwaiting : Inv { s with monitor := .waiting } := by
    constructor
    · exact h.setMonitor _
    · intro it client now hmonitor
      cases hmonitor
  unfold State.expire
  split
  · rename_i n hn
    split_ifs with hle
    · constructor
      · exact h.setMonitor _
      · intro it client now' hmonitor
        cases hmonitor
        exact ⟨n, Multimap.mem_of_begin hn, rfl, rfl, hle⟩
    · exact hwaiting
  · exact hwaiting

theorem Sound.cleanUp (h : Sound s) {n : Multimap.Node Timepoint Address}
    (hn : n ∈ s.clientsTimeout.nodes) (hle : n.key ≤ now) :
    Sound (s.cleanUp n.iterator n.value now) := by
  obtain ⟨m', hm', hindexed⟩ := h.indexed.erase (h.indexed.of_mem hn)
  unfold State.cleanUp State.eraseTimeout
  rw [hm']
  constructor
  · exact hindexed
  · intro n' hn'
    exact h.fresh n' ((Multimap.mem_erase hm').mp hn').1
  · exact h.live
  · intro d hd
    rcases List.mem_cons.mp hd with rfl | hd
    · rw [← h.fresh n hn]
      exact hle
    · exact h.expired d hd

/-- A heartbeat of a client without an entry. -/
theorem Inv.enter (h : Inv s) (client : Address) (hnone : s.clientLookup client = none)
    (now : Timepoint) :
    Inv { s with
      clientsTimeout := s.clientsTimeout.emplace (now + timeoutDuration) client
      clientLookup := Function.update s.clientLookup client (some s.clientsTimeout.nextIterator)
      lastHeartbeat := Function.update s.lastHeartbeat client now } := by
  constructor
  · constructor
    · exact h.sound.indexed.emplace hnone _
    · intro n hn
      rcases Multimap.mem_emplace.mp hn with rfl | hn
      · simp
      · have hne : n.value ≠ client := by
          intro heq
          have hsome := h.sound.indexed.of_mem hn
          rw [heq, hnone] at hsome
          cases hsome
        have hold := h.sound.fresh n hn
        simpa [hne] using hold
    · exact h.sound.live
    · exact h.sound.expired
  · intro it c now' hmonitor
    obtain ⟨n, hn, hrest⟩ := h.departing it c now' hmonitor
    exact ⟨n, Multimap.mem_emplace.mpr (.inr hn), hrest⟩

/-- The first half of a heartbeat of a registered client that is not departing. -/
theorem Inv.leave (h : Inv s) (hsome : s.clientLookup client = some it)
    (hno : ∀ it now', s.monitor ≠ .notifying it client now') :
    ∃ m', s.clientsTimeout.erase it = some m' ∧
      Inv { s with
        clientsTimeout := m'
        clientLookup := Function.update s.clientLookup client none } := by
  obtain ⟨m', hm', hindexed⟩ := h.sound.indexed.erase hsome
  refine ⟨m', hm', ?_, ?_⟩
  · constructor
    · exact hindexed
    · intro n hn
      exact h.sound.fresh n ((Multimap.mem_erase hm').mp hn).1
    · exact h.sound.live
    · exact h.sound.expired
  · intro it' c now' hmonitor
    obtain ⟨n, hn, hit, hvalue, hle⟩ := h.departing it' c now' hmonitor
    have hne : n.iterator ≠ it := by
      intro heq
      have hclient := h.sound.indexed.of_mem hn
      obtain ⟨n', hn', hit', hvalue'⟩ := (h.sound.indexed client it).mp hsome
      rw [Multimap.eq_of_iterator_eq hn hn' (heq.trans hit'.symm), hvalue'] at hvalue
      rw [← hvalue] at hmonitor
      exact hno it' now' hmonitor
    exact ⟨n, (Multimap.mem_erase hm').mpr ⟨hn, hne⟩, hit, hvalue, hle⟩

theorem Inv.heartbeatUpdate (h : Inv s) (now : Timepoint)
    (hno : ∀ it now', s.monitor ≠ .notifying it client now') :
    Inv (s.heartbeatUpdate client now) := by
  unfold State.heartbeatUpdate
  cases hlookup : s.clientLookup client with
  | none => exact h.enter client hlookup now
  | some it =>
    obtain ⟨m', hm', hleft⟩ := h.leave hlookup hno
    have hentered := hleft.enter client (by simp) now
    simp only [Function.update_idem] at hentered
    simp only [State.eraseTimeout, hm']
    exact hentered

theorem Inv.step {a : Action} (h : Inv s) (hs : leader.step s a = some s')
    (hok : NoReturn s a s') : Inv s' := by
  cases a with
  | heartbeatUpdate client now =>
    cases hs
    exact h.heartbeatUpdate now (hok client now rfl)
  | timeout now =>
    simp only [leader, State.step] at hs
    split_ifs at hs
    cases hs
    exact h.sound.expire now
  | relock =>
    simp only [leader, State.step] at hs
    split at hs
    · cases hs
    · rename_i it client now hmonitor
      obtain ⟨n, hn, rfl, rfl, hle⟩ := h.departing it client now hmonitor
      cases hs
      exact (h.sound.cleanUp hn hle).expire now

theorem inv_initial : Inv initial := by
  constructor
  · constructor
    · intro client it
      simp [initial, Multimap.empty]
    · intro n hn
      cases hn
    · rfl
    · intro d hd
      cases hd
  · intro it client now hmonitor
    cases hmonitor

/-- The containers stay consistent as long as no client comes back while its own
departure is being announced. Any other heartbeat may come at any time. -/
theorem consistent (hs : leader.Reaches NoReturn s) : Consistent s := by
  have h : Inv s := by
    apply hs.invariant
    · rintro s rfl
      exact inv_initial
    · exact fun _ _ _ _ hinv hstep hok => hinv.step hstep hok
  constructor
  · intro _ client it hlookup
    exact ⟨(h.sound.indexed client it).mp hlookup, h.sound.indexed.unique hlookup⟩
  · exact fun _ n hn => h.sound.indexed.of_mem hn
  · exact h.sound.live
  · exact h.sound.expired

def noReturn (s : State) (a : Action) (_ : State) : Bool :=
  match a, s.monitor with
  | .heartbeatUpdate client _, .notifying _ departing _ => client ≠ departing
  | _, _ => true

theorem noReturn_sound (s : State) (a : Action) (s' : State) (h : noReturn s a s' = true) :
    NoReturn s a s' := by
  rintro client now rfl it now' hmonitor
  simp [noReturn, hmonitor] at h

def portClient (port : Port) : Address := ⟨localAddr, port⟩

def departureRun : List Action :=
  [.heartbeatUpdate (portClient 1) 0, .heartbeatUpdate (portClient 2) 5, .timeout timeoutDuration,
    .heartbeatUpdate (portClient 2) 7, .relock]

theorem consistent_of_departureRun :
    ∃ s, leader.execIf noReturn initial departureRun = some s ∧ s.drops.length = 1 ∧
      Consistent s := by
  have hrun : (leader.execIf noReturn initial departureRun).any (fun s => s.drops.length = 1) =
      true := by decide +kernel
  obtain ⟨s, hs, hgoal⟩ := (Option.any_eq_true _ _).mp hrun
  have hreach := Machine.Reaches.execIf noReturn_sound (.init rfl) hs
  exact ⟨s, hs, of_decide_eq_true hgoal, consistent hreach⟩

def returnRun : List Action :=
  [.heartbeatUpdate (portClient 1) 0, .timeout timeoutDuration,
    .heartbeatUpdate (portClient 1) timeoutDuration, .relock]

theorem not_consistent_returnRun :
    ∃ s, leader.exec initial returnRun = some s ∧ leader.Reachable s ∧ ¬ Consistent s := by
  obtain ⟨s, hexec, hs, hgoal⟩ := Machine.Reachable.exec_any (M := leader) (.init rfl) returnRun
    (fun s => s.deadErase) (by decide +kernel)
  refine ⟨s, hexec, hs, fun hconsistent => ?_⟩
  rw [hconsistent.live] at hgoal
  cases hgoal

end CommunicationAPI.Membership
