import CommunicationAPI.ComponentFleet

/-!
# The latency test in a fleet

A component measures the time from its own PING to the ECHO that names it,
through the buses, the gateways and the link, and whatever else is sent.
-/

namespace CommunicationAPI.LatencyTest
open Octets ShmEngine TransitionSystem Relay ComponentFleet

theorem receiverDispatch_control {mySenderId : UInt64} {heap : Memory} {m : MessageObject}
    (hm : m.type = MsgType.control.code) :
    receiverDispatch mySenderId heap m = controlHandling mySenderId heap m := by
  unfold receiverDispatch
  rw [hm, if_neg (by decide), if_pos rfl]

/-- Other messages are never echoed and never measured. -/
theorem receiverDispatch_teds {mySenderId : UInt64} {heap : Memory} {m : MessageObject}
    (hm : m.type ≠ MsgType.control.code) :
    (∀ dst timestamp senderId, (receiverDispatch mySenderId heap m).effect ≠
      some (.sendEcho dst timestamp senderId)) ∧
    ∀ timestamp source, (receiverDispatch mySenderId heap m).effect ≠
      some (.computeRtt timestamp source) := by
  unfold receiverDispatch
  rw [if_neg hm]
  unfold tedsHandling
  dsimp only
  unfold applyValueFromPayload
  dsimp only
  split_ifs <;> simp

section Log
variable {ι κ : Type*} (station : κ → Station ι)

structure IsPing (x : Sent κ) (timestamp : UInt64) : Prop where
  cause : x.cause = .ping
  port : x.dst.port = 1000
  segment : ∃ padding, x.segment =
    Packet.segment ⟨.ping, padding, (station x.station).senderId, timestamp⟩

/-- The message is the ECHO that came of handling a PING. -/
structure Answers (fleet : Relay.State ι) (e : Sent κ) (h : Handled κ) (g : Sent κ)
    (timestamp : UInt64) : Prop where
  cause : e.cause = .echo h.read
  answers : e.station = h.station
  port : e.dst.port = 1000
  segment : ∃ padding, e.segment =
    Packet.segment ⟨.echo, padding, (station g.station).senderId, timestamp⟩
  answerer : (station h.station).port = 1000
  ping : IsPing station g timestamp
  copy : h.Copy station fleet g

/-- The component has measured the time since the PING that the ECHO names. -/
structure Measures (fleet : Relay.State ι) (h : Handled κ) (e : Sent κ)
    (timestamp : UInt64) : Prop where
  effect : h.effect = some (.computeRtt timestamp h.message.source)
  port : (station h.station).port = 1000
  segment : ∃ padding, e.segment =
    Packet.segment ⟨.echo, padding, (station h.station).senderId, timestamp⟩
  copy : h.Copy station fleet e

inductive Reason (s : State ι κ) (x : Sent κ) : Prop
  | ping (timestamp : UInt64) (h : IsPing station x timestamp)
      (hpast : timestamp ≤ s.clock (station x.station).vehicle)
  | echo (h : Handled κ) (hh : h ∈ s.handled) (g : Sent κ) (hg : g ∈ s.sent)
      (timestamp : UInt64) (h : Answers station s.fleet x h g timestamp)
  | teds (hcause : x.cause = .interest ∨ x.cause = .response) (htype : x.segment.type = .teds)

/-- What the answers and the measurements rest on. -/
structure Basis (s : State ι κ) (h : Handled κ) : Prop where
  echo : ∀ dst timestamp senderId, h.effect = some (.sendEcho dst timestamp senderId) →
    dst.port = 1000 ∧ (station h.station).port = 1000 ∧ ∃ g ∈ s.sent,
      IsPing station g timestamp ∧ (station g.station).senderId = senderId ∧
        h.Copy station s.fleet g
  rtt : ∀ timestamp source, h.effect = some (.computeRtt timestamp source) →
    ∃ e ∈ s.sent, Measures station s.fleet h e timestamp ∧
      ∃ h' ∈ s.handled, ∃ g ∈ s.sent, Answers station s.fleet e h' g timestamp ∧
        g.station = h.station ∧ timestamp ≤ h.now

variable {station} {s s' : State ι κ} {x e g : Sent κ} {h h' : Handled κ} {timestamp : UInt64}

theorem Answers.grows (hgrows : Grows s s')
    (ha : Answers station s.fleet e h g timestamp) :
    Answers station s'.fleet e h g timestamp :=
  { ha with copy := hgrows.copy ha.copy }

theorem Measures.grows (hgrows : Grows s s')
    (hm : Measures station s.fleet h e timestamp) :
    Measures station s'.fleet h e timestamp :=
  { hm with copy := hgrows.copy hm.copy }

theorem Reason.grows (hgrows : Grows s s') (hx : Reason station s x) :
    Reason station s' x := by
  cases hx with
  | ping timestamp h hpast => exact .ping timestamp h (UInt64.le_trans hpast (hgrows.clock _))
  | echo h hh g hg timestamp ha =>
    exact .echo h (hgrows.handled.subset hh) g (hgrows.sent.subset hg) timestamp (ha.grows hgrows)
  | teds hcause htype => exact .teds hcause htype

theorem Basis.grows (hgrows : Grows s s') (hh : Basis station s h) :
    Basis station s' h := by
  constructor
  · intro dst timestamp senderId heffect
    obtain ⟨hdst, hport, g, hg, hping, hsender, hcopy⟩ := hh.echo dst timestamp senderId heffect
    exact ⟨hdst, hport, g, hgrows.sent.subset hg, hping, hsender, hgrows.copy hcopy⟩
  · intro timestamp source heffect
    obtain ⟨e, he, hmeasures, h', hh', g, hg, hanswers, hown⟩ := hh.rtt timestamp source heffect
    exact ⟨e, hgrows.sent.subset he, hmeasures.grows hgrows, h', hgrows.handled.subset hh', g,
      hgrows.sent.subset hg, hanswers.grows hgrows, hown⟩

/-- Messages to port 1000 reach only those that listen there. -/
theorem port_of_copy (hcopy : h.Copy station s.fleet x) (hport : x.dst.port = 1000) :
    (station h.station).port = 1000 := by
  have hreceived := hcopy.received
  unfold Station.Receives at hreceived
  rw [hport, if_neg (by decide)] at hreceived
  exact hreceived.symm

/-- The packet arrives whole. -/
theorem payload_of_copy {q : Packet} (hcopy : h.Copy station s.fleet x)
    (hsegment : x.segment = q.segment) : h.message.payload.toList = q.controlPayload := by
  have hwhole : q.segment.payload.length ≤ messageCapacity - segmentHeaderSize := by
    change q.controlPayload.length ≤ _
    rw [length_controlPayload]
    decide
  rw [hcopy.message.payload, hsegment, List.take_of_length_le hwhole]
  rfl

theorem timestamp_le (hping : IsPing station g timestamp) (hg : Reason station s g) :
    timestamp ≤ s.clock (station g.station).vehicle := by
  obtain ⟨padding, hsegment⟩ := hping.segment
  cases hg with
  | ping timestamp' hping' hpast =>
    obtain ⟨padding', hsegment'⟩ := hping'.segment
    have htime : timestamp = timestamp' := (fields_of_segment (hsegment.symm.trans hsegment')).2.2
    rw [htime]
    exact hpast
  | echo h hh g' hg' timestamp' ha =>
    have hcause := hping.cause
    rw [ha.cause] at hcause
    cases hcause
  | teds hcause htype =>
    rw [hping.cause] at hcause
    rcases hcause with hcause | hcause <;> cases hcause

variable [DecidableEq ι] [Fintype ι]

theorem basis_of_new (hids : Function.Injective fun c => (station c).senderId)
    (hrecorded : Recorded station s) (hsent : ∀ x ∈ s.sent, Reason station s x)
    (hnew : h.New station s) : Basis station s h := by
  obtain ⟨heap, heffect⟩ := hnew.effect
  by_cases hcontrol : h.message.type = MsgType.control.code
  · obtain ⟨x, hx, hcopy⟩ :=
      hrecorded.copy_of_hears hnew.hears (.inl hcontrol) h.now h.effect
    change h.Copy station s.fleet x at hcopy
    rw [receiverDispatch_control hcontrol] at heffect
    cases hsent x hx with
    | ping timestamp hping hpast =>
      obtain ⟨padding, hsegment⟩ := hping.segment
      rw [controlHandling_ping _ _ (payload_of_copy hcopy hsegment) rfl] at heffect
      constructor
      · intro dst timestamp' senderId heffect'
        rw [heffect] at heffect'
        cases heffect'
        exact ⟨rfl, port_of_copy hcopy hping.port, x, hx, hping, rfl, hcopy⟩
      · intro timestamp' source heffect'
        rw [heffect] at heffect'
        cases heffect'
    | echo h' hh' g hg timestamp hanswers =>
      obtain ⟨padding, hsegment⟩ := hanswers.segment
      rw [controlHandling_echo _ _ (payload_of_copy hcopy hsegment) rfl] at heffect
      split_ifs at heffect with hown
      · have hsame : (station g.station).senderId = (station h.station).senderId := hown
        have hstation : g.station = h.station := hids hsame
        constructor
        · intro dst timestamp' senderId heffect'
          rw [heffect] at heffect'
          cases heffect'
        · intro timestamp' source heffect'
          have hboth := heffect'
          rw [heffect] at hboth
          cases hboth
          rw [hsame] at hsegment
          refine ⟨x, hx, ⟨heffect, port_of_copy hcopy hanswers.port, ⟨padding, hsegment⟩, hcopy⟩,
            h', hh', g, hg, hanswers, hstation, ?_⟩
          rw [hnew.now, ← hstation]
          exact timestamp_le hanswers.ping (hsent g hg)
      · constructor
        · intro dst timestamp' senderId heffect'
          rw [heffect] at heffect'
          cases heffect'
        · intro timestamp' source heffect'
          rw [heffect] at heffect'
          cases heffect'
    | teds hcause htype =>
      rw [hcopy.message.type, htype] at hcontrol
      exact absurd hcontrol (by decide)
  · obtain ⟨hecho, hrtt⟩ := @receiverDispatch_teds (station h.station).senderId heap _ hcontrol
    rw [← heffect] at hecho hrtt
    exact ⟨fun _ _ _ h' => absurd h' (hecho _ _ _), fun _ _ h' => absurd h' (hrtt _ _)⟩

omit [DecidableEq ι] [Fintype ι] in
theorem reason_of_new (hgrows : Grows s s')
    (hhandled : ∀ h ∈ s'.handled, Basis station s' h) (hnew : x.New station s s') :
    Reason station s' x := by
  cases hnew with
  | ping y hcause hport hsegment =>
    exact .ping _ ⟨hcause, hport, y.padding, hsegment⟩ (hgrows.clock _)
  | interest unitTag interval hcause hrole hport hsegment =>
    refine .teds (.inl hcause) ?_
    rw [hsegment]
    rfl
  | response timestamp value hcause hjoinable hvalue hport hsegment =>
    refine .teds (.inr hcause) ?_
    rw [hsegment]
    rfl
  | echo h hh y timestamp senderId hstation hcause heffect hsegment =>
    obtain ⟨hdst, hport, g, hg, hping, rfl, hcopy⟩ := (hhandled h hh).echo _ _ _ heffect
    exact .echo h hh g hg timestamp
      ⟨hcause, hstation, hdst, ⟨y.padding, hsegment⟩, hport, hping, hcopy⟩

theorem reasons_of_reachable [DecidableEq κ]
    (hids : Function.Injective fun c => (station c).senderId)
    (hs : (machine station).Reachable s) :
    (∀ x ∈ s.sent, Reason station s x) ∧ ∀ h ∈ s.handled, Basis station s h :=
  records_of_reachable Reason.grows Basis.grows
    (fun hreach hsent hnew => basis_of_new hids (recorded_of_reachable hreach) hsent hnew)
    (fun _ hgrows hhandled hnew => reason_of_new hgrows hhandled hnew) hs

def isSendEcho : Option CommunicationAPI.Effect → Bool
  | some (.sendEcho ..) => true
  | _ => false

def isComputeRtt : Option CommunicationAPI.Effect → Bool
  | some (.computeRtt ..) => true
  | _ => false

def isEcho : Cause → Bool
  | .echo _ => true
  | _ => false

def pings (s : State ι κ) : List (Sent κ) := s.sent.filter fun x => x.cause = .ping

def echoes (s : State ι κ) : List (Sent κ) := s.sent.filter fun x => isEcho x.cause

def answered (s : State ι κ) : List (Handled κ) := s.handled.filter fun h => isSendEcho h.effect

def samples (s : State ι κ) : List (Handled κ) := s.handled.filter fun h => isComputeRtt h.effect

omit [DecidableEq ι] [Fintype ι] in
@[simp] theorem mem_answered : h ∈ answered s ↔ h ∈ s.handled ∧
    ∃ dst timestamp senderId, h.effect = some (.sendEcho dst timestamp senderId) := by
  unfold answered isSendEcho
  rw [List.mem_filter]
  split <;> simp_all

omit [DecidableEq ι] [Fintype ι] in
@[simp] theorem mem_samples : h ∈ samples s ↔
    h ∈ s.handled ∧ ∃ timestamp source, h.effect = some (.computeRtt timestamp source) := by
  unfold samples isComputeRtt
  rw [List.mem_filter]
  split <;> simp_all

omit [Fintype ι] in
theorem echoes_send {c : κ} {y : Context} {cause : Cause} {dst : Address} {segment : Segment} :
    (echoes (s.send station c y cause dst segment)).length ≤
      (echoes s).length + if isEcho cause then 1 else 0 := by
  rcases send_cases s c y cause dst segment with heq | ⟨fleet, -, heq⟩
  · rw [heq]
    exact Nat.le_add_right _ _
  · rw [heq]
    unfold echoes
    rw [List.filter_append, List.length_append, List.filter_singleton]
    cases isEcho cause <;> simp

omit [Fintype ι] in
theorem echoes_answer {c : κ} {p : ℕ} {y : Context} {effect : Option CommunicationAPI.Effect} :
    (echoes (s.answer station c p y effect)).length ≤
      (echoes s).length + if isSendEcho effect then 1 else 0 := by
  unfold State.answer isSendEcho
  split
  · exact echoes_send
  · exact Nat.le_add_right _ _

omit [DecidableEq ι] [Fintype ι] in
theorem answered_handle [DecidableEq κ] {c : κ} {p : ℕ} {m : MessageObject}
    {effect : Option CommunicationAPI.Effect} :
    (answered (s.handle station c p m effect)).length =
      (answered s).length + if isSendEcho effect then 1 else 0 := by
  change (List.filter _ (s.handled ++ [_])).length = _
  rw [List.filter_append, List.length_append, List.filter_singleton]
  unfold answered
  cases isSendEcho effect <;> simp

omit [Fintype ι] in
/-- No ECHO is sent but for a PING that is handled. -/
theorem echoes_le_answered [DecidableEq κ] (hs : (machine station).Reachable s) :
    (echoes s).length ≤ (answered s).length := by
  refine hs.invariant (P := fun s => (echoes s).length ≤ (answered s).length) ?_ ?_
  · intro s hinit
    obtain ⟨-, hsent, -⟩ := hinit
    unfold echoes
    rw [hsent]
    exact Nat.zero_le _
  intro s a s' _ hle hstep _
  have hsilent {c : κ} {y : Context} {cause : Cause} {dst : Address} {segment : Segment}
      (hcause : isEcho cause = false) : (echoes (s.send station c y cause dst segment)).length ≤
        (answered (s.send station c y cause dst segment)).length := by
    refine (echoes_send.trans_eq ?_).trans (hle.trans_eq ?_)
    · rw [hcause]
      rfl
    · unfold answered
      rw [send_handled]
  cases step_change hstep with
  | traffic | tick | cleanup | same | read => exact hle
  | ping | interest | response => exact hsilent rfl
  | dispatch c p y m hp hlive hm =>
    unfold State.dispatch
    dsimp only
    generalize (receiverDispatch (station c).senderId y.heap m).effect = effect
    have hsame : answered (((s.readTo c p).handle station c p m effect).answer station c p y
        effect) = answered ((s.readTo c p).handle station c p m effect) := by
      unfold answered
      rw [answer_handled]
    rw [hsame, answered_handle]
    exact echoes_answer.trans (Nat.add_le_add_right hle _)

theorem echoes_le [DecidableEq κ] [Fintype κ]
    (hids : Function.Injective fun c => (station c).senderId)
    (hs : (machine station).Reachable s) : (echoes s).length ≤
      (Finset.univ.filter fun c => (station c).port = 1000).card * (pings s).length := by
  refine (echoes_le_answered hs).trans ((recorded_of_reachable hs).length_le List.filter_sublist ?_)
  intro h hh
  obtain ⟨hmem, dst, timestamp, senderId, heffect⟩ := mem_answered.mp hh
  obtain ⟨-, hport, g, hg, hping, -, hcopy⟩ :=
    ((reasons_of_reachable hids hs).2 h hmem).echo dst timestamp senderId heffect
  refine ⟨Finset.mem_filter.mpr ⟨Finset.mem_univ _, hport⟩, g, ?_, hcopy⟩
  exact List.mem_filter.mpr ⟨hg, decide_eq_true hping.cause⟩

/-- An ECHO is measured once, since it is clear by whom. -/
theorem samples_le [DecidableEq κ] (hids : Function.Injective fun c => (station c).senderId)
    (hs : (machine station).Reachable s) : (samples s).length ≤ (echoes s).length := by
  have hrecorded := recorded_of_reachable hs
  have hfaithful := faithful_of_reachable hrecorded.fleet
  have hmeasures : ∀ h ∈ samples s, ∃ timestamp, ∃ e ∈ echoes s,
      Measures station s.fleet h e timestamp := by
    intro h hh
    obtain ⟨hmem, timestamp, source, heffect⟩ := mem_samples.mp hh
    obtain ⟨e, he, hmeasures, h', -, g, -, hanswers, -⟩ :=
      ((reasons_of_reachable hids hs).2 h hmem).rtt timestamp source heffect
    refine ⟨timestamp, e, List.mem_filter.mpr ⟨he, ?_⟩, hmeasures⟩
    rw [hanswers.cause]
    rfl
  set places := ((echoes s).map fun e => some ((station e.station).vehicle, e.entry)).toFinset
  have hnodup : ((samples s).map fun h =>
      original s.fleet (station h.station).vehicle h.read).Nodup := by
    unfold List.Nodup
    rw [List.pairwise_map]
    apply (hrecorded.readOrder.order.sublist List.filter_sublist).imp_of_mem
    intro h h' hh hh' hlt heq
    obtain ⟨timestamp, e, he, hm⟩ := hmeasures h hh
    obtain ⟨timestamp', e', he', hm'⟩ := hmeasures h' hh'
    have hplace := hm.copy.original.symm.trans (heq.trans hm'.copy.original)
    rw [Option.some_inj, Prod.mk.injEq] at hplace
    have hsame : e = e' := hrecorded.sentOrder.unique (List.mem_filter.mp he).1
      (List.mem_filter.mp he').1 hplace.1 hplace.2
    have hstation : h.station = h'.station := by
      obtain ⟨padding, hsegment⟩ := hm.segment
      obtain ⟨padding', hsegment'⟩ := hm'.segment
      rw [hsame] at hsegment
      exact hids (fields_of_segment (hsegment.symm.trans hsegment')).2.1
    rw [hstation] at heq
    exact (hlt hstation).ne (hfaithful.once _ _ _ _ (heq.trans hm'.copy.original)
      hm'.copy.original)
  calc (samples s).length ≤ places.card := by
        refine length_le_card hnodup fun h hh => ?_
        obtain ⟨timestamp, e, he, hm⟩ := hmeasures h hh
        rw [hm.copy.original, List.mem_toFinset]
        exact List.mem_map.mpr ⟨e, he, rfl⟩
    _ ≤ (echoes s).length := (List.toFinset_card_le _).trans_eq (List.length_map _)

end Log

def twoStations (i : Bool) : Station Bool := ⟨i, 1000, .sensor 0, if i then 1 else 2⟩

def zeroContext : Context :=
  ⟨fun _ => 0, fun _ => 0, fun _ => 0, 0, .replicate 4 0, .north, 7⟩

def pingRun : List (ComponentFleet.Action Bool Bool) :=
  [.sendPing true true zeroContext, .traffic (.readBus true fun _ => 0),
    .traffic (.receive false 0 fun _ => 0), .receive false 0 zeroContext,
    .traffic (.readBus false fun _ => 0), .traffic (.readBus false fun _ => 0),
    .traffic (.receive true 1 fun _ => 0), .tick true 5, .receive true 1 zeroContext]

end CommunicationAPI.LatencyTest
