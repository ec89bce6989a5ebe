import CommunicationAPI.ComponentFleet
import CommunicationAPI.TedsService

/-!
# Publishing and subscribing in a fleet

An actuator applies what a sensor of its type has sent, and the sensor sends it
because an actuator has asked. In a component, passes of the cleanup thread and
calls of the handler come one at a time, for which the source has no lock.
-/

namespace CommunicationAPI.TedsFleet
open Octets ShmEngine TransitionSystem Relay ComponentFleet

section
variable {timestamp : UInt64} {type : TedsType} {content : UInt32}

def tedsSegment (timestamp : UInt64) (type : TedsType) (content : UInt32) : Segment :=
  ⟨.teds, timestamp, Teds.payload type content⟩

theorem tedsType_tedsSegment : tedsType (tedsSegment timestamp type content) = type := by
  have hbytes := load_store (fun _ => 0) 0 (tedsSegment timestamp type content).getBytes
  have hlength : (tedsSegment timestamp type content).getBytes.length = segmentHeaderSize + 8 :=
    length_getBytes_teds timestamp type content
  have hsplit : (tedsSegment timestamp type content).getBytes =
      (MsgType.teds.code :: encode 8 timestamp.toNat) ++ Teds.payload type content := rfl
  set m := store (fun _ => 0) 0 (tedsSegment timestamp type content).getBytes
  rw [hlength] at hbytes
  have hfirst : m 0 = MsgType.teds.code := by
    rw [← headD_load m 0 (by unfold segmentHeaderSize; omega : 0 < segmentHeaderSize + 8) 0, hbytes]
    rfl
  have hpayload : load (fun i => m (segmentHeaderSize + i)) 0 8 = Teds.payload type content := by
    rw [load_append, hsplit] at hbytes
    rw [load_shift, Nat.add_zero]
    simpa using (List.append_inj hbytes (by simp [segmentHeaderSize])).2
  have hsize : (tedsSegment timestamp type content).payload.length = 8 := Teds.length_payload _ _
  unfold tedsType Teds.extractType
  rw [hsize, if_neg (by simpa using hfirst), if_neg (by decide)]
  exact (Teds.payload_fields hpayload).1

theorem getBaseType_idem (t : TedsType) :
    Teds.makeRequestType (Teds.getBaseType t) = Teds.getBaseType t := by
  unfold Teds.makeRequestType Teds.getBaseType
  rw [UInt32.and_assoc, UInt32.and_self]

theorem and_or_distrib (a b m : UInt32) : (a ||| b) &&& m = a &&& m ||| b &&& m :=
  UInt32.eq_of_toBitVec_eq BitVec.and_or_distrib_right

/-- The base type of a response. -/
theorem getBaseType_response (t : TedsType) :
    Teds.getBaseType (Teds.makeResponseType (Teds.getBaseType t)) = Teds.getBaseType t := by
  have hmasks : Teds.purposeMask &&& Teds.typeMask = 0 := by decide
  unfold Teds.makeResponseType Teds.getBaseType
  rw [and_or_distrib, hmasks, UInt32.or_zero, UInt32.and_assoc, UInt32.and_self]

theorem isRequest_makeResponseType (t : TedsType) :
    Teds.isRequest (Teds.makeResponseType t) = false := by
  have hbit : (Teds.makeResponseType t &&& Teds.purposeMask).toBitVec.getLsbD 31 = true := by
    unfold Teds.makeResponseType
    rw [UInt32.toBitVec_and, UInt32.toBitVec_or, BitVec.getLsbD_and, BitVec.getLsbD_or]
    have hpurpose : Teds.purposeMask.toBitVec.getLsbD 31 = true := by decide
    rw [hpurpose, Bool.or_true, Bool.and_self]
  unfold Teds.isRequest
  rw [decide_eq_false_iff_not]
  intro hzero
  rw [hzero] at hbit
  exact absurd hbit (by decide)

/-- What a component does with a TEDS message. -/
theorem receiverDispatch_teds {mySenderId : UInt64} {heap : Memory} {m : MessageObject}
    (htype : m.type = MsgType.teds.code) (hpayload : m.payload.toList = Teds.payload type content) :
    (receiverDispatch mySenderId heap m).effect =
      if Teds.isRequest type then some (.interest type content m.source)
      else some (.apply content) := by
  have hsize : m.payload.size = 8 := by
    rw [← CharVector.length_toList, hpayload, Teds.length_payload]
  have hload : load m.payload.storage 0 8 = Teds.payload type content := by
    rw [← hsize]
    exact hpayload
  obtain ⟨hheader, hcontent⟩ := Teds.payload_fields hload
  unfold receiverDispatch tedsHandling
  rw [if_pos htype]
  dsimp only
  rw [hheader, hcontent]
  unfold applyValueFromPayload
  dsimp only
  rw [hcontent]
  split_ifs <;> rfl

/-- Other messages never count as interests or responses. -/
theorem receiverDispatch_other {mySenderId : UInt64} {heap : Memory} {m : MessageObject}
    (hm : m.type ≠ MsgType.teds.code) :
    (∀ type period source, (receiverDispatch mySenderId heap m).effect ≠
      some (.interest type period source)) ∧
    ∀ value, (receiverDispatch mySenderId heap m).effect ≠ some (.apply value) := by
  unfold receiverDispatch
  rw [if_neg hm]
  unfold controlHandling
  dsimp only
  split_ifs <;> simp

end

section Roles
variable {ι : Type*}

def Senses (c : Station ι) (base : TedsType) : Prop :=
  ∃ unitTag, c.role = .sensor unitTag ∧ Teds.getBaseType unitTag = base

def Acts (c : Station ι) (base : TedsType) (interval : Period) : Prop :=
  ∃ unitTag, c.role = .actuator unitTag interval ∧ Teds.getBaseType unitTag = base

variable {c d : Station ι} {base : TedsType} {interval : Period}

theorem listens_sensor {unitTag : TedsType} (hrole : c.role = .sensor unitTag) :
    c.listens = Teds.getBaseType unitTag := by
  unfold Station.listens
  rw [hrole]
  exact getBaseType_idem unitTag

theorem listens_actuator {unitTag : TedsType} (hrole : c.role = .actuator unitTag interval) :
    c.listens = Teds.makeResponseType (Teds.getBaseType unitTag) := by
  unfold Station.listens
  rw [hrole]

theorem Senses.listens_eq (h : Senses c base) : c.listens = base := by
  obtain ⟨unitTag, hrole, rfl⟩ := h
  exact listens_sensor hrole

/-- A request reaches only sensors of its type. -/
theorem Acts.senses (hd : Acts d base interval) (h : Teds.makeRequestType base = c.listens) :
    Senses c base := by
  obtain ⟨unitTag, -, rfl⟩ := hd
  cases hrole : c.role with
  | actuator unitTag' interval' =>
    have hrequest := Teds.isRequest_makeRequestType (Teds.getBaseType unitTag)
    rw [h, listens_actuator hrole, isRequest_makeResponseType] at hrequest
    cases hrequest
  | sensor unitTag' =>
    rw [getBaseType_idem, listens_sensor hrole] at h
    exact ⟨unitTag', hrole, h.symm⟩

/-- A response reaches only actuators of its type. -/
theorem Senses.acts (hd : Senses d base) (h : Teds.makeResponseType base = c.listens) :
    ∃ interval, Acts c base interval := by
  obtain ⟨unitTag, -, rfl⟩ := hd
  cases hrole : c.role with
  | actuator unitTag' interval =>
    rw [listens_actuator hrole] at h
    refine ⟨interval, unitTag', hrole, ?_⟩
    rw [← getBaseType_response, ← h, getBaseType_response]
  | sensor unitTag' =>
    have hresponse := isRequest_makeResponseType (Teds.getBaseType unitTag)
    rw [h, listens_sensor hrole, ← getBaseType_idem, Teds.isRequest_makeRequestType] at hresponse
    cases hresponse

end Roles

section Runs
variable {ι κ : Type*} (station : κ → Station ι)

def Takes (s : State ι κ) (c : κ) (type : TedsType) (period : Period) (source : Address) : Prop :=
  ∃ h ∈ s.handled, h.station = c ∧ h.effect = some (.interest type period source)

/-- The message that is handled is the interest of an actuator, and the component is a sensor
for it. -/
structure Interest (s : State ι κ) (h : Handled κ) (x : Sent κ) (base : TedsType)
    (period : Period) : Prop where
  senses : Senses (station h.station) base
  acts : Acts (station x.station) base period
  segment : x.segment = interestSegment base period
  copy : h.Copy station s.fleet x

/-- The message that is handled is the response of a sensor that has been asked for it, and the
component is an actuator for it. -/
structure Response (s : State ι κ) (h : Handled κ) (x : Sent κ) (base : TedsType)
    (value : Reading) : Prop where
  acts : ∃ interval, Acts (station h.station) base interval
  senses : Senses (station x.station) base
  cause : x.cause = .response
  segment : ∃ timestamp, x.segment = responseSegment timestamp base value
  isTrue : value.isTrue = true
  asked : ∃ period source, Takes s x.station base period source
  copy : h.Copy station s.fleet x

inductive Reason (s : State ι κ) (x : Sent κ) : Prop
  | interest (base : TedsType) (interval : Period) (hacts : Acts (station x.station) base interval)
      (hport : x.dst.port = typeBasedRoutingPort)
      (hsegment : x.segment = interestSegment base interval)
  | response (base : TedsType) (timestamp : UInt64) (value : Reading) (hcause : x.cause = .response)
      (hsenses : Senses (station x.station) base) (hport : x.dst.port = typeBasedRoutingPort)
      (hsegment : x.segment = responseSegment timestamp base value) (hvalue : value.isTrue = true)
      (hasked : ∃ period source, Takes s x.station base period source)
  | control (htype : x.segment.type = .control)

/-- What a component does with TEDS messages. -/
structure Basis (s : State ι κ) (h : Handled κ) : Prop where
  interest : ∀ type period source, h.effect = some (.interest type period source) →
    source = h.message.source ∧ ∃ x ∈ s.sent, Interest station s h x type period
  apply : ∀ value, h.effect = some (.apply value) →
    ∃ base, ∃ x ∈ s.sent, Response station s h x base value

variable {station} {s s' : State ι κ} {x : Sent κ} {h : Handled κ} {base type : TedsType}
  {period : Period} {source : Address} {value : Reading} {c : κ}

theorem Takes.grows (hgrows : Grows s s') (ht : Takes s c type period source) :
    Takes s' c type period source := by
  obtain ⟨h, hh, hrest⟩ := ht
  exact ⟨h, hgrows.handled.subset hh, hrest⟩

theorem Interest.grows (hgrows : Grows s s') (hi : Interest station s h x base period) :
    Interest station s' h x base period :=
  ⟨hi.senses, hi.acts, hi.segment, hgrows.copy hi.copy⟩

theorem Response.grows (hgrows : Grows s s') (hr : Response station s h x base value) :
    Response station s' h x base value := by
  obtain ⟨period, source, hasked⟩ := hr.asked
  exact ⟨hr.acts, hr.senses, hr.cause, hr.segment, hr.isTrue, ⟨period, source, hasked.grows hgrows⟩,
    hgrows.copy hr.copy⟩

theorem Reason.grows (hgrows : Grows s s') (hx : Reason station s x) : Reason station s' x := by
  cases hx with
  | interest base interval hacts hport hsegment =>
    exact .interest base interval hacts hport hsegment
  | response base timestamp value hcause hsenses hport hsegment hvalue hasked =>
    obtain ⟨period, source, hasked⟩ := hasked
    exact .response base timestamp value hcause hsenses hport hsegment hvalue
      ⟨period, source, hasked.grows hgrows⟩
  | control htype => exact .control htype

theorem Basis.grows (hgrows : Grows s s') (hh : Basis station s h) : Basis station s' h := by
  constructor
  · intro type period source heffect
    obtain ⟨hsource, x, hx, hinterest⟩ := hh.interest type period source heffect
    exact ⟨hsource, x, hgrows.sent.subset hx, hinterest.grows hgrows⟩
  · intro value heffect
    obtain ⟨base, x, hx, hresponse⟩ := hh.apply value heffect
    exact ⟨base, x, hgrows.sent.subset hx, hresponse.grows hgrows⟩

/-- A TEDS message arrives whole, at a component that listens for its type. -/
theorem teds_of_copy {timestamp : UInt64} {content : UInt32} (hcopy : h.Copy station s.fleet x)
    (hport : x.dst.port = typeBasedRoutingPort)
    (hsegment : x.segment = tedsSegment timestamp type content) :
    h.message.payload.toList = Teds.payload type content ∧ type = (station h.station).listens := by
  constructor
  · have hwhole : (Teds.payload type content).length ≤ messageCapacity - segmentHeaderSize := by
      rw [Teds.length_payload]
      decide
    rw [hcopy.message.payload, hsegment]
    exact List.take_of_length_le hwhole
  · have hreceived := hcopy.received
    unfold Station.Receives at hreceived
    rw [if_pos hport, hsegment, tedsType_tedsSegment] at hreceived
    exact hreceived

variable [DecidableEq ι] [Fintype ι]

theorem basis_of_new (hrecorded : Recorded station s)
    (hsent : ∀ x ∈ s.sent, Reason station s x) (hnew : h.New station s) : Basis station s h := by
  obtain ⟨heap, heffect⟩ := hnew.effect
  by_cases hteds : h.message.type = MsgType.teds.code
  · obtain ⟨x, hx, hcopy⟩ := hrecorded.copy_of_hears hnew.hears (.inr hteds) h.now h.effect
    change h.Copy station s.fleet x at hcopy
    cases hsent x hx with
    | interest base interval hacts hport hsegment =>
      obtain ⟨hpayload, hlistens⟩ := teds_of_copy hcopy hport hsegment
      have hbase : Teds.makeRequestType base = base := by
        obtain ⟨unitTag, -, rfl⟩ := hacts
        exact getBaseType_idem unitTag
      rw [receiverDispatch_teds hteds hpayload, if_pos (Teds.isRequest_makeRequestType base),
        hbase] at heffect
      constructor
      · intro type period source heffect'
        rw [heffect] at heffect'
        cases heffect'
        exact ⟨rfl, x, hx, hacts.senses hlistens, hacts, hsegment, hcopy⟩
      · intro value heffect'
        rw [heffect] at heffect'
        cases heffect'
    | response base timestamp value hcause hsenses hport hsegment hvalue hasked =>
      obtain ⟨hpayload, hlistens⟩ := teds_of_copy hcopy hport hsegment
      rw [receiverDispatch_teds hteds hpayload, isRequest_makeResponseType,
        if_neg Bool.false_ne_true] at heffect
      constructor
      · intro type period source heffect'
        rw [heffect] at heffect'
        cases heffect'
      · intro value' heffect'
        rw [heffect] at heffect'
        cases heffect'
        exact ⟨base, x, hx, hsenses.acts hlistens, hsenses, hcause, ⟨timestamp, hsegment⟩, hvalue,
          hasked, hcopy⟩
    | control htype =>
      rw [hcopy.message.type, htype] at hteds
      exact absurd hteds (by decide)
  · obtain ⟨hinterest, happly⟩ :=
      @receiverDispatch_other (station h.station).senderId heap _ hteds
    rw [← heffect] at hinterest happly
    exact ⟨fun _ _ _ h' => absurd h' (hinterest _ _ _), fun _ h' => absurd h' (happly _)⟩

variable [DecidableEq κ]

omit [Fintype ι] in
theorem takes_init (hs : (machine station).init s) (c : κ) :
    (s.process c).Asked (Takes s c) := by
  obtain ⟨-, -, -, hprocess⟩ := hs
  obtain ⟨uninitialized, heq⟩ := hprocess c
  rw [heq]
  exact ⟨nofun, nofun⟩

/-- All that a process serves, a component has asked for. -/
theorem asked_of_reachable (hs : (machine station).Reachable s) (c : κ) :
    (s.process c).Asked (Takes s c) := by
  refine hs.invariant (P := fun s => ∀ c, (s.process c).Asked (Takes s c))
    (fun s => takes_init) ?_ c
  intro s a s' hreach hold hstep _ c
  have hchange := step_change hstep
  have hgrows := (recorded_of_reachable hreach).grows hchange
  have hasked := (hold c).mono fun type period source => Takes.grows hgrows
  rcases hchange.process c with hsame | ⟨-, ⟨nearby, hclean⟩ | ⟨h, hh, hstation, hafter⟩⟩
  · rw [hsame]
    exact hasked
  · rw [hclean]
    exact hasked.cleanup nearby
  · rw [hafter]
    exact hasked.after fun type period source heffect => ⟨h, hh, hstation, heffect⟩

theorem reason_of_new (hreach : (machine station).Reachable s) (hgrows : Grows s s')
    (hhandled : ∀ h ∈ s'.handled, Basis station s' h) (hnew : x.New station s s') :
    Reason station s' x := by
  cases hnew with
  | ping y hcause hport hsegment =>
    refine .control ?_
    rw [hsegment]
    rfl
  | interest unitTag interval hcause hrole hport hsegment =>
    exact .interest _ interval ⟨unitTag, hrole, rfl⟩ hport hsegment
  | response timestamp value hcause hjoinable hvalue hport hsegment =>
    obtain ⟨period, source, h, hh, hstation, heffect⟩ :=
      (asked_of_reachable hreach x.station).responseType hjoinable
    have hnow := hgrows.handled.subset hh
    obtain ⟨-, y, -, hinterest⟩ := (hhandled h hnow).interest _ period source heffect
    have hsenses := hinterest.senses
    rw [hstation] at hsenses
    exact .response _ timestamp value hcause hsenses hport hsegment hvalue
      ⟨period, source, h, hnow, hstation, heffect⟩
  | echo h hh y timestamp senderId hstation hcause heffect hsegment =>
    refine .control ?_
    rw [hsegment]
    rfl

theorem reasons_of_reachable (hs : (machine station).Reachable s) :
    (∀ x ∈ s.sent, Reason station s x) ∧ ∀ h ∈ s.handled, Basis station s h :=
  records_of_reachable Reason.grows Basis.grows
    (fun hreach hsent hnew => basis_of_new (recorded_of_reachable hreach) hsent hnew)
    (fun hreach hgrows hhandled hnew => reason_of_new hreach hgrows hhandled hnew) hs

/-- No actuator asks for the period 0. -/
theorem serves_of_reachable
    (hperiods : ∀ c base interval, Acts (station c) base interval → interval ≠ 0)
    (hs : (machine station).Reachable s) (c : κ) :
    (s.process c).Serves (station c).listens := by
  refine hs.invariant (P := fun s => ∀ c, (s.process c).Serves (station c).listens) ?_ ?_ c
  · intro s hinit c
    obtain ⟨-, -, -, hprocess⟩ := hinit
    obtain ⟨uninitialized, heq⟩ := hprocess c
    rw [heq]
    exact .idle rfl rfl rfl
  intro s a s' hreach hserves hstep _ c
  have hbasis := (reasons_of_reachable (hreach.step hstep trivial)).2
  rcases (step_change hstep).process c with
    hsame | ⟨hlive, ⟨nearby, hclean⟩ | ⟨h, hh, hstation, hafter⟩⟩
  · rw [hsame]
    exact hserves c
  · rw [hclean]
    exact (hserves c).cleanup hlive nearby
  · rw [hafter]
    cases heffect : h.effect with
    | none => exact hserves c
    | some effect =>
      cases effect with
      | apply | sendEcho | computeRtt => exact hserves c
      | interest type period source =>
        obtain ⟨-, x, -, hinterest⟩ := (hbasis h hh).interest type period source heffect
        have hlistens := hinterest.senses.listens_eq
        rw [hstation] at hlistens
        rw [← hlistens]
        exact (hserves c).after hlive (hperiods _ _ _ hinterest.acts)

def isApply : Option CommunicationAPI.Effect → Bool
  | some (.apply _) => true
  | _ => false

def responses (s : State ι κ) : List (Sent κ) := s.sent.filter fun x => x.cause = .response

def applied (s : State ι κ) : List (Handled κ) := s.handled.filter fun h => isApply h.effect

def isActuator : Role → Bool
  | .actuator .. => true
  | .sensor _ => false

theorem applied_le [Fintype κ] (hs : (machine station).Reachable s) : (applied s).length ≤
    (Finset.univ.filter fun c => isActuator (station c).role).card * (responses s).length := by
  refine (recorded_of_reachable hs).length_le List.filter_sublist fun h hh => ?_
  obtain ⟨hmem, happly⟩ := List.mem_filter.mp hh
  unfold isApply at happly
  split at happly
  · rename_i value heffect
    obtain ⟨base, x, hx, hresponse⟩ := ((reasons_of_reachable hs).2 h hmem).apply value heffect
    obtain ⟨interval, unitTag, hrole, -⟩ := hresponse.acts
    refine ⟨Finset.mem_filter.mpr ⟨Finset.mem_univ _, ?_⟩, x, ?_, hresponse.copy⟩
    · rw [hrole]
      rfl
    · exact List.mem_filter.mpr ⟨hx, decide_eq_true hresponse.cause⟩
  · cases happly

end Runs

def pairStations (i : Bool) : Station Bool :=
  ⟨i, 1000, if i then .actuator 5 2000 else .sensor 5, if i then 1 else 2⟩

def emptyContext : Context :=
  ⟨fun _ => 0, fun _ => 0, fun _ => 0, 0, .replicate 4 0, .north, 7⟩

def interestRun : List (ComponentFleet.Action Bool Bool) :=
  [.sendInterest true emptyContext, .traffic (.readBus true fun _ => 0),
    .traffic (.receive false 0 fun _ => 0), .receive false 0 emptyContext,
    .sendResponse false 9 1 emptyContext, .traffic (.readBus false fun _ => 0),
    .traffic (.readBus false fun _ => 0), .traffic (.receive true 1 fun _ => 0),
    .receive true 1 emptyContext]

end CommunicationAPI.TedsFleet
