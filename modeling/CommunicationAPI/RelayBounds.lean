import CommunicationAPI.Relay

/-!
# No relay loop and no amplification

Only broadcasts of components are forwarded, each when its own gateway reads
it. What a gateway relays from the link stays on its bus.
-/

namespace CommunicationAPI.Relay
open Octets TransitionSystem
variable {ι : Type*} [DecidableEq ι] {s s' : State ι} {i : ι}

theorem append_bus (s : State ι) (i j : ι) (bs : List BusEntry) (ls : List (LinkEntry ι)) :
    (s.append i bs ls).bus j = s.bus j ++ if j = i then bs else [] := by
  unfold State.append
  by_cases hj : j = i
  · subst j
    simp
  · simp [hj]

theorem append_link (s : State ι) (i : ι) (bs : List BusEntry) (ls : List (LinkEntry ι)) :
    (s.append i bs ls).link = s.link ++ ls := rfl

@[simp] theorem append_cursor (s : State ι) (i : ι) (bs : List BusEntry) (ls : List (LinkEntry ι)) :
    (s.append i bs ls).cursor = s.cursor := rfl

theorem advance_cursor (s : State ι) (i j : ι) :
    (s.advance i).cursor j = s.cursor j + if j = i then 1 else 0 := by
  unfold State.advance
  by_cases hj : j = i
  · subst j
    simp
  · simp [hj]

theorem Effect.address (he : Effect s i s') (j : ι) :
    (s'.gateway j).address = (s.gateway j).address := by
  have hset : ∀ g : Gateway, g.address = (s.gateway i).address →
      (Function.update s.gateway i g j).address = (s.gateway j).address := by
    intro g hg
    by_cases hj : j = i
    · subst j
      simpa using hg
    · simp [hj]
  cases he with
  | gateway g hg => exact hset g hg
  | receive n e bs g _ _ _ _ _ hg => exact hset g hg
  | emit | skip | forward => rfl

def SoundBuses (s : State ι) : Prop := ∀ i, ∀ b ∈ s.bus i, b.Sound

theorem SoundBuses.append (h : SoundBuses s) {bs : List BusEntry} (ls : List (LinkEntry ι))
    (hbs : ∀ b ∈ bs, b.Sound) : SoundBuses (s.append i bs ls) := by
  intro j b hb
  rw [append_bus, List.mem_append] at hb
  rcases hb with hb | hb
  · exact h j b hb
  · split_ifs at hb
    · exact hbs b hb
    · cases hb

theorem SoundBuses.effect (h : SoundBuses s) (he : Effect s i s') : SoundBuses s' := by
  cases he with
  | gateway | skip => exact h
  | emit bs ls hbs => exact h.append _ fun b hb => (hbs b hb).1
  | forward b f => exact h.append [⟨f, i, .forward (s.cursor i)⟩] (by simp)
  | receive n e bs g _ _ _ _ hbs => exact h.append [] fun b hb => (hbs b hb).1

def SoundLink (s : State ι) : Prop :=
  ∀ e ∈ s.link, e.frame.header.shost = (s.gateway e.sender).address.1 ∧
    (isData e.frame = true → ∃ k, e.origin = .forward k)

theorem SoundLink.effect (h : SoundLink s) (he : Effect s i s') : SoundLink s' := by
  have haddress := he.address
  suffices hlink : ∀ e ∈ s'.link, e ∈ s.link ∨
      (e.frame.header.shost = (s.gateway e.sender).address.1 ∧
        (isData e.frame = true → ∃ k, e.origin = .forward k)) by
    intro e hmem
    rw [haddress]
    rcases hlink e hmem with hold | hnew
    · exact h e hold
    · exact hnew
  cases he with
  | gateway | skip => exact fun e hmem => .inl hmem
  | emit bs ls hbs hls =>
    intro e hmem
    rcases List.mem_append.mp hmem with hold | hnew
    · exact .inl hold
    · obtain ⟨-, hsource, hdata⟩ := hls e hnew
      exact .inr ⟨hsource, by simp [hdata]⟩
  | forward b f hb hyes hf =>
    intro e hmem
    rcases List.mem_append.mp hmem with hold | hnew
    · exact .inl hold
    · rw [List.mem_singleton] at hnew
      subst e
      exact .inr ⟨hf, fun _ => ⟨_, rfl⟩⟩
  | receive => exact fun e hmem => .inl (by
    simpa [State.append, State.setGateway, State.markReceived] using hmem)

def CursorInBus (s : State ι) : Prop := ∀ i, s.cursor i ≤ (s.bus i).length

theorem CursorInBus.advance (h : CursorInBus s) {b : BusEntry}
    (hb : (s.bus i)[s.cursor i]? = some b) : CursorInBus (s.advance i) := by
  intro j
  rw [advance_cursor]
  have hj := h j
  split_ifs with hji
  · subst j
    have := (List.getElem?_eq_some_iff.mp hb).1
    exact this
  · exact hj

theorem CursorInBus.append (h : CursorInBus s) (bs : List BusEntry) (ls : List (LinkEntry ι)) :
    CursorInBus (s.append i bs ls) := by
  intro j
  have hj : s.cursor j ≤ (s.bus j).length := h j
  rw [append_bus, List.length_append]
  exact Nat.le_add_right_of_le hj

theorem CursorInBus.effect (h : CursorInBus s) (he : Effect s i s') : CursorInBus s' := by
  cases he with
  | gateway => exact h
  | emit bs ls => exact h.append bs ls
  | skip b hb => exact h.advance hb
  | forward b f hb => exact (h.append [] _).advance (b := b) (by simpa [append_bus] using hb)
  | receive n e bs => exact h.append bs []

/-- The frames already read at entry `k` of bus `i` that had to be forwarded. -/
def due (s : State ι) (i : ι) (k : ℕ) : ℕ :=
  if k < s.cursor i ∧ (s.bus i)[k]?.any BusEntry.isBroadcast then 1 else 0

theorem due_append (h : CursorInBus s) (bs : List BusEntry) (ls : List (LinkEntry ι)) (j : ι)
    (k : ℕ) : due (s.append i bs ls) j k = due s j k := by
  unfold due
  rw [append_cursor, append_bus]
  by_cases hk : k < s.cursor j
  · rw [List.getElem?_append_left (hk.trans_le (h j))]
  · simp [hk]

theorem due_advance {b : BusEntry} (hb : (s.bus i)[s.cursor i]? = some b) (j : ι) (k : ℕ) :
    due (s.advance i) j k =
      due s j k + if j = i ∧ k = s.cursor i ∧ b.isBroadcast = true then 1 else 0 := by
  unfold due
  have hbus : (s.advance i).bus = s.bus := rfl
  rw [hbus, advance_cursor]
  by_cases hj : j = i
  · subst j
    by_cases hk : k = s.cursor i
    · subst k
      simp [hb]
    · have hlt : k < s.cursor i + 1 ↔ k < s.cursor i := by omega
      simp [hk, hlt]
  · simp [hj]

theorem transmissions_append (s : State ι) (i j : ι) (bs : List BusEntry)
    (ls : List (LinkEntry ι)) (k : ℕ) :
    transmissions (s.append i bs ls) j k =
      transmissions s j k + ls.countP fun e => e.sender = j ∧ e.origin = .forward k := by
  unfold transmissions State.append
  rw [List.countP_append]

/-- The link holds each broadcast read so far once, and forwards nothing else. -/
def ForwardedOnce (s : State ι) : Prop := ∀ i k, transmissions s i k = due s i k

theorem ForwardedOnce.effect (h : ForwardedOnce s) (hc : CursorInBus s) (he : Effect s i s') :
    ForwardedOnce s' := by
  intro j k
  cases he with
  | gateway => exact h j k
  | emit bs ls hbs hls =>
    have hnone : (ls.countP fun e => e.sender = j ∧ e.origin = .forward k) = 0 := by
      rw [List.countP_eq_zero]
      intro e hmem
      simp [(hls e hmem).1]
    rw [transmissions_append, due_append hc, hnone, h j k, Nat.add_zero]
  | skip b hb hno =>
    have hlink : transmissions (s.advance i) j k = transmissions s j k := rfl
    rw [hlink, h j k, due_advance hb, hno]
    simp
  | forward b f hb hyes hf =>
    have hone : ([⟨f, i, .forward (s.cursor i)⟩] : List (LinkEntry ι)).countP
        (fun e => e.sender = j ∧ e.origin = .forward k) =
          if j = i ∧ k = s.cursor i ∧ b.isBroadcast = true then 1 else 0 := by
      simp only [List.countP_singleton, hyes, decide_eq_true_eq, LinkOrigin.forward.injEq, and_true,
        eq_comm (a := j), eq_comm (a := k)]
    have hread : ((s.append i [] [⟨f, i, .forward (s.cursor i)⟩]).bus i)[s.cursor i]? = some b := by
      simpa [append_bus] using hb
    have htransmitted := transmissions_append s i j [] [⟨f, i, .forward (s.cursor i)⟩] k
    rw [due_advance hread, due_append hc]
    rw [hone, h j k] at htransmitted
    exact htransmitted
  | receive n e bs g =>
    have hdue := due_append (i := i) hc bs [] j k
    have htransmitted := transmissions_append s i j bs [] k
    rw [List.countP_nil, h j k, ← hdue] at htransmitted
    exact htransmitted

def Handed (s : State ι) (i : ι) (n : ℕ) : Prop :=
  n ∈ s.received i ∧ ∀ e, s.link[n]? = some e → e.sender ≠ i

/-- A bus holds no frame of the link twice, none that was not handed to its own
gateway and none that this gateway sent. -/
structure RelayedOnce (s : State ι) : Prop where
  received_lt : ∀ i, ∀ n ∈ s.received i, n < s.link.length
  relays_le : ∀ i n, relays s i n ≤ 1
  handed : ∀ i n, relays s i n ≠ 0 → Handed s i n

theorem relays_append (s : State ι) (i j : ι) (bs : List BusEntry) (ls : List (LinkEntry ι))
    (n : ℕ) : relays (s.append i bs ls) j n =
      relays s j n + if j = i then bs.countP fun b => b.origin = .relay n else 0 := by
  unfold relays
  rw [append_bus, List.countP_append]
  split_ifs <;> simp

theorem Handed.append {j : ι} {n : ℕ} (h : Handed s j n) (hn : n < s.link.length)
    (bs : List BusEntry) (ls : List (LinkEntry ι)) : Handed (s.append i bs ls) j n := by
  constructor
  · exact h.1
  · rw [append_link, List.getElem?_append_left hn]
    exact h.2

/-- Frames that are not relayed do not matter. -/
theorem RelayedOnce.append (h : RelayedOnce s) (bs : List BusEntry) (ls : List (LinkEntry ι))
    (hbs : ∀ b ∈ bs, ∀ n, b.origin ≠ .relay n) : RelayedOnce (s.append i bs ls) := by
  have hsame : ∀ j n, relays (s.append i bs ls) j n = relays s j n := by
    intro j n
    have hnone : (bs.countP fun b => b.origin = .relay n) = 0 := by
      rw [List.countP_eq_zero]
      intro b hb
      simpa using hbs b hb n
    rw [relays_append, hnone, ite_self, Nat.add_zero]
  constructor
  · intro j n hn
    have hlt := h.received_lt j n hn
    rw [append_link, List.length_append]
    omega
  · intro j n
    rw [hsame]
    exact h.relays_le j n
  · intro j n hn
    rw [hsame] at hn
    have hhanded := h.handed j n hn
    exact hhanded.append (h.received_lt j n hhanded.1) bs ls

theorem RelayedOnce.receive (h : RelayedOnce s) {n : ℕ} {e : LinkEntry ι} {bs : List BusEntry}
    {g : Gateway} (hn : n ∉ s.received i) (he : s.link[n]? = some e)
    (hown : e.sender = i → bs = []) (hone : bs.length ≤ 1) (hbs : ∀ b ∈ bs, b.origin = .relay n) :
    RelayedOnce (((s.append i bs []).setGateway i g).markReceived i n) := by
  set t := ((s.append i bs []).setGateway i g).markReceived i n with ht
  have hlink : t.link = s.link := List.append_nil s.link
  have hreceived : ∀ j m, m ∈ t.received j ↔ m ∈ s.received j ∨ (j = i ∧ m = n) := by
    intro j m
    by_cases hj : j = i
    · subst j
      simp [ht, State.markReceived, State.setGateway, State.append, or_comm]
    · simp [ht, State.markReceived, State.setGateway, State.append, hj]
  have hrelays : ∀ j m, relays t j m = relays s j m + if j = i ∧ m = n then bs.length else 0 := by
    intro j m
    have hcount : (bs.countP fun b => b.origin = .relay m) = if m = n then bs.length else 0 := by
      split_ifs with hm
      · rw [List.countP_eq_length]
        intro b hb
        simp [hbs b hb, hm]
      · rw [List.countP_eq_zero]
        intro b hb
        simp [hbs b hb, Ne.symm hm]
    have happend := relays_append s i j bs [] m
    rw [hcount, ← ite_and] at happend
    exact happend
  have hfresh : relays s i n = 0 := by
    by_contra hne
    exact hn (h.handed i n hne).1
  have hlt := (List.getElem?_eq_some_iff.mp he).1
  constructor
  · intro j m hm
    rw [hlink]
    rcases (hreceived j m).mp hm with hold | ⟨-, rfl⟩
    · exact h.received_lt j m hold
    · exact hlt
  · intro j m
    rw [hrelays]
    split_ifs with hnew
    · obtain ⟨rfl, rfl⟩ := hnew
      omega
    · exact h.relays_le j m
  · intro j m hm
    rw [hrelays] at hm
    unfold Handed
    rw [hreceived, hlink]
    by_cases hnew : j = i ∧ m = n
    · constructor
      · exact .inr hnew
      · obtain ⟨rfl, rfl⟩ := hnew
        rw [he]
        rintro _ ⟨⟩ hsender
        rw [hfresh, hown hsender] at hm
        simp at hm
    · rw [if_neg hnew] at hm
      obtain ⟨hold, hsender⟩ := h.handed j m hm
      exact ⟨.inl hold, hsender⟩

theorem RelayedOnce.effect (h : RelayedOnce s) (he : Effect s i s') : RelayedOnce s' := by
  cases he with
  | gateway | skip => exact ⟨h.received_lt, h.relays_le, h.handed⟩
  | emit bs ls hbs => exact h.append bs ls fun b hb => (hbs b hb).2
  | forward b f =>
    obtain ⟨hlt, hle, hhanded⟩ := h.append (i := i) [] [⟨f, i, .forward (s.cursor i)⟩]
      (by simp)
    exact ⟨hlt, hle, hhanded⟩
  | receive n e bs g hn he hown hone hbs =>
    exact h.receive hn he hown hone fun b hb => (hbs b hb).2

def readBroadcasts (s : State ι) (i : ι) : ℕ :=
  ((s.bus i).take (s.cursor i)).countP BusEntry.isBroadcast

theorem readBroadcasts_append (h : CursorInBus s) (bs : List BusEntry) (ls : List (LinkEntry ι))
    (j : ι) : readBroadcasts (s.append i bs ls) j = readBroadcasts s j := by
  unfold readBroadcasts
  rw [append_cursor, append_bus, List.take_append_of_le_length (h j)]

theorem readBroadcasts_advance {b : BusEntry} (hb : (s.bus i)[s.cursor i]? = some b) (j : ι) :
    readBroadcasts (s.advance i) j =
      readBroadcasts s j + if j = i then if b.isBroadcast then 1 else 0 else 0 := by
  unfold readBroadcasts
  have hbus : (s.advance i).bus = s.bus := rfl
  rw [hbus, advance_cursor]
  by_cases hj : j = i
  · subst j
    rw [if_pos rfl, if_pos rfl, List.take_add_one, hb, List.countP_append]
    simp [List.countP_singleton]
  · simp [hj]

variable [Fintype ι]

def DataBounded (s : State ι) : Prop :=
  (s.link.countP fun e => isData e.frame) ≤ ∑ i, readBroadcasts s i

theorem DataBounded.effect (h : DataBounded s) (hc : CursorInBus s) (he : Effect s i s') :
    DataBounded s' := by
  unfold DataBounded at h ⊢
  cases he with
  | gateway => exact h
  | emit bs ls hbs hls =>
    have hnone : (ls.countP fun e => isData e.frame) = 0 := by
      rw [List.countP_eq_zero]
      intro e hmem
      simp [(hls e hmem).2.2]
    simp only [readBroadcasts_append hc]
    rw [append_link, List.countP_append, hnone]
    exact h
  | skip b hb hno =>
    have hlink : (s.advance i).link = s.link := rfl
    simp only [readBroadcasts_advance hb, hno, hlink]
    simpa using h
  | forward b f hb hyes hf =>
    have hread : ((s.append i [] [⟨f, i, .forward (s.cursor i)⟩]).bus i)[s.cursor i]? = some b := by
      simpa [append_bus] using hb
    have hlink : ((s.append i [] [⟨f, i, .forward (s.cursor i)⟩]).advance i).link =
        s.link ++ [⟨f, i, .forward (s.cursor i)⟩] := rfl
    have hone := List.countP_le_length (p := fun e : LinkEntry ι => isData e.frame)
      (l := [⟨f, i, .forward (s.cursor i)⟩])
    simp only [readBroadcasts_advance hread, readBroadcasts_append hc, hyes, if_true]
    rw [hlink, List.countP_append, Finset.sum_add_distrib, Finset.sum_ite_eq' Finset.univ i,
      if_pos (Finset.mem_univ i)]
    exact Nat.add_le_add h hone
  | receive n e bs g =>
    have hlink : (((s.append i bs []).setGateway i g).markReceived i n).link = s.link :=
      List.append_nil s.link
    have hread : ∀ j, readBroadcasts (((s.append i bs []).setGateway i g).markReceived i n) j =
        readBroadcasts s j := readBroadcasts_append hc bs []
    rw [hlink]
    simp only [hread]
    exact h

/-- No relay loop and no amplification. -/
structure NoAmplification (s : State ι) : Prop where
  /-- What the external branch put on a bus is not put on the link. -/
  relayed_stays : ∀ i k b n, (s.bus i)[k]? = some b → b.origin = .relay n → transmissions s i k = 0
  /-- A component's broadcast is on the link once, from the moment its gateway reads it. -/
  broadcast_once : ∀ i k b, (s.bus i)[k]? = some b → b.isBroadcast = true →
    transmissions s i k = if k < s.cursor i then 1 else 0
  /-- A frame of the link is on each other bus at most once, and on the sender's never. -/
  relayed_once : ∀ (n : ℕ) e i, s.link[n]? = some e → relays s i n ≤ if i = e.sender then 0 else 1
  /-- Every data frame of the link is a component's broadcast that its gateway has read. -/
  data_forwarded : ∀ e ∈ s.link, isData e.frame = true → ∃ k b, e.origin = .forward k ∧
    (s.bus e.sender)[k]? = some b ∧ b.isBroadcast = true
  bounded : (s.link.countP fun e => isData e.frame) ≤ ∑ i, (s.bus i).countP BusEntry.isBroadcast

structure Inv (s : State ι) : Prop where
  buses : SoundBuses s
  link : SoundLink s
  cursor : CursorInBus s
  forwarded : ForwardedOnce s
  relayed : RelayedOnce s
  bounded : DataBounded s

theorem Inv.init (h : (network ι).init s) : Inv s := by
  obtain ⟨hstart, hlink⟩ := h
  constructor
  · intro i b hb
    rw [(hstart i).1] at hb
    cases hb
  · intro e he
    rw [hlink] at he
    cases he
  · intro i
    rw [(hstart i).2.1]
    exact Nat.zero_le _
  · intro i k
    unfold transmissions due
    rw [hlink, (hstart i).2.1]
    simp
  · constructor
    · intro i n hn
      rw [(hstart i).2.2] at hn
      cases hn
    · intro i n
      unfold relays
      rw [(hstart i).1]
      exact Nat.zero_le _
    · intro i n hn
      unfold relays at hn
      rw [(hstart i).1] at hn
      exact absurd rfl hn
  · unfold DataBounded
    rw [hlink]
    exact Nat.zero_le _

theorem Inv.step {a : Action ι} (h : Inv s) (hs : (network ι).step s a = some s') : Inv s' := by
  obtain ⟨i, he⟩ := step_effect h.buses (fun e hmem => (h.link e hmem).1) hs
  exact ⟨h.buses.effect he, h.link.effect he, h.cursor.effect he, h.forwarded.effect h.cursor he,
    h.relayed.effect he, h.bounded.effect h.cursor he⟩

theorem inv_of_reachable (hs : (network ι).Reachable s) : Inv s :=
  hs.invariant (fun _ => Inv.init) fun _ _ _ _ h hstep _ => h.step hstep

theorem Inv.bounds (h : Inv s) : NoAmplification s := by
  constructor
  · intro i k b n hb hrelay
    rw [h.forwarded i k]
    unfold due
    simp [hb, BusEntry.isBroadcast, hrelay]
  · intro i k b hb hyes
    rw [h.forwarded i k]
    unfold due
    simp [hb, hyes]
  · intro n e i he
    split_ifs with hi
    · by_contra hne
      have hhanded := h.relayed.handed i n (by omega)
      exact hhanded.2 e he hi.symm
    · exact h.relayed.relays_le i n
  · intro e he hdata
    obtain ⟨k, hk⟩ := (h.link e he).2 hdata
    have hpos : 0 < transmissions s e.sender k := by
      unfold transmissions
      rw [List.countP_pos_iff]
      exact ⟨e, he, by simp [hk]⟩
    rw [h.forwarded e.sender k] at hpos
    unfold due at hpos
    split_ifs at hpos with hdue
    · obtain ⟨b, hb, hyes⟩ := (Option.any_eq_true _ _).mp hdue.2
      exact ⟨k, b, hk, hb, hyes⟩
    · exact absurd hpos (lt_irrefl 0)
  · apply h.bounded.trans
    apply Finset.sum_le_sum
    intro i _
    exact (List.take_sublist _ _).countP_le

/-- Whatever the components, the gateways and the link do, and in any order. The
addresses of the gateways need not even be distinct. -/
theorem noAmplification (hs : (network ι).Reachable s) : NoAmplification s :=
  (inv_of_reachable hs).bounds

def twoVehicles : State Bool where
  gateway i := northGateway (if i then 1 else 2) 7
  bus _ := []
  cursor _ := 0
  link := []
  received _ := ∅

def oneBroadcast : List (Action Bool) :=
  [.component true .north 7 ⟨localAddr, 5⟩ ⟨broadcastAddr, 3⟩ ⟨.control, 0, [1]⟩,
    .readBus true fun _ => 0, .receive false 0 fun _ => 0, .receive true 0 fun _ => 0,
    .readBus false fun _ => 0]

theorem noAmplification_of_oneBroadcast :
    ∃ s, (network Bool).exec twoVehicles oneBroadcast = some s ∧ NoAmplification s ∧
      relays s false 0 = 1 ∧ s.link.length = 1 := by
  have hinit : (network Bool).init twoVehicles := ⟨fun _ => ⟨rfl, rfl, rfl⟩, rfl⟩
  obtain ⟨s, hs, hreach, hgoal⟩ := Machine.Reachable.exec_any (.init hinit) oneBroadcast
    (fun s => relays s false 0 = 1 ∧ s.link.length = 1) (by decide +kernel)
  exact ⟨s, hs, noAmplification hreach, of_decide_eq_true hgoal⟩

end CommunicationAPI.Relay
