import CommunicationAPI.PtpExchange

/-!
# The slave does not wait in vain

As long as no leg of the exchange is lost for good, a waiting slave always has a
message in flight that will take it further.
-/

namespace CommunicationAPI.PtpExchange
open Octets ShmEngine TransitionSystem
variable {n : ℕ} {s s' : State n} {f : WireFrame}

def replyTo : SyncType → SyncType
  | .start => .sync
  | _ => .delayResponse

theorem master_handle {g : Gateway} {clock : SystemClock} {payload : Memory} {source : Address}
    {type : SyncType} (htype : type = .start ∨ type = .delayRequest) (hp : payload 0 = type.code) :
    (MasterSynchronizer.handlePtpMessage g clock payload TimePayload.headerSize source).sent =
      (MasterSynchronizer.answer g clock (replyTo type) source).sent := by
  have hno : SyncType.delayRequest.code ≠ SyncType.start.code := by decide
  unfold MasterSynchronizer.handlePtpMessage
  rw [if_neg (lt_irrefl _), hp]
  rcases htype with rfl | rfl
  · rw [if_pos rfl, if_neg (lt_irrefl _)]
    rfl
  · rw [if_neg hno, if_pos rfl, if_neg (lt_irrefl _)]
    rfl

/-- A master puts one answer on the link, which the slave will get. -/
theorem Sound.master_answers (h : Sound s) (i : Fin n) (clock : SystemClock) (sp : Port)
    {type : SyncType} (htype : type = .sync ∨ type = .delayResponse) :
    ∃ f, outputLinks (MasterSynchronizer.answer (s.gateway (.master i)) clock type
        ⟨(s.gateway .slave).address.1, sp⟩).sent.toList = [f] ∧
      f.header.dhost = (s.gateway .slave).address.1 ∧ syncType f = some type.code ∧
      Expected s ⟨.slave, f⟩ := by
  have hown : (s.gateway .slave).address.1 ≠ (s.gateway (.master i)).address.1 := by
    intro heq
    exact h.distinct i (Subtype.ext heq.symm)
  have hsize : overhead + (TimePayload.stamped type (clock.reading 0)).length ≤ mtu := by
    simp only [TimePayload.stamped, List.length_cons, length_encode]
    decide
  obtain ⟨f, hf, hsent⟩ := Gateway.outputLinks_send (g := s.gateway (.master i))
    (s := ⟨.ptp, clock.reading 0, TimePayload.stamped type (clock.reading 0)⟩)
    (s.gateway (.master i)).externalAddress ⟨(s.gateway .slave).address.1, sp⟩ hown
    (h.external .slave) hsize
  exact ⟨f, hf, hsent.dhost, syncType_of_has hsent.has rfl,
    .toSlave i f type _ _ _ _ htype hsent.length_le hsent.shost hsent.has⟩

section
variable {h : SlaveSynchronizer} {g : Gateway} {clock : SystemClock} {payload : Memory}
  {source dest : Address}

theorem slave_handle_sync (hp : payload 0 = SyncType.sync.code) :
    h.handlePtpMessage g clock payload TimePayload.stampedSize source dest =
      h.receiveSync g clock payload source dest := by
  unfold SlaveSynchronizer.handlePtpMessage
  rw [if_neg (by decide), hp, if_pos rfl, if_neg (lt_irrefl _)]

theorem slave_handle_delayResp (hp : payload 0 = SyncType.delayResponse.code) :
    h.handlePtpMessage g clock payload TimePayload.stampedSize source dest =
      h.receiveDelayResp clock payload := by
  have hno : SyncType.delayResponse.code ≠ SyncType.sync.code := by decide
  unfold SlaveSynchronizer.handlePtpMessage
  rw [if_neg (by decide), hp, if_neg hno, if_pos rfl, if_neg (lt_irrefl _)]

theorem receiveDelayResp_state (clock : SystemClock) (payload : Memory)
    (hstate : h.state = .awaitingDelayResp) :
    (h.receiveDelayResp clock payload).state.state =
      if clock.settable then .synchronized else .awaitingDelayResp := by
  unfold SlaveSynchronizer.receiveDelayResp SlaveSynchronizer.synchronize
  rw [if_neg (by simp [hstate])]
  cases clock.settable with
  | false => simp [hstate]
  | true => simp

end

structure Inv (s : State n) : Prop where
  sound : Sound s
  leg : Leg s

/-- The slave asks the master whose SYNC it has accepted for the second leg. -/
theorem Sound.slave_asks (h : Sound s) (i : Fin n) (clock : SystemClock) (payload : Memory)
    (sp : Port) (dest : Address) (hstate : s.sync.state = .awaitingSync) :
    ∃ f, outputLinks (s.sync.receiveSync (s.gateway .slave) clock payload
        ⟨(s.gateway (.master i)).address.1, sp⟩ dest).sent.toList = [f] ∧
      f.header.dhost = (s.gateway (.master i)).address.1 ∧
      syncType f = some SyncType.delayRequest.code ∧
      (∀ j, Expected s ⟨.master j, f⟩) ∧
      (s.sync.receiveSync (s.gateway .slave) clock payload
        ⟨(s.gateway (.master i)).address.1, sp⟩ dest).state.state = .awaitingDelayResp := by
  have hown : (s.gateway (.master i)).address.1 ≠ (s.gateway .slave).address.1 := by
    intro heq
    exact h.distinct i (Subtype.ext heq)
  have hsize : overhead + (TimePayload.plain .delayRequest).length ≤ mtu := by decide
  obtain ⟨f, hf, hsent⟩ := Gateway.outputLinks_send (g := s.gateway .slave)
    (s := ⟨.ptp, clock.reading 1, TimePayload.plain .delayRequest⟩)
    dest ⟨(s.gateway (.master i)).address.1, sp⟩ hown (h.external (.master i)) hsize
  have haccepted : ¬ s.sync.state ≠ .awaitingSync := fun hno => hno hstate
  unfold SlaveSynchronizer.receiveSync
  rw [if_neg haccepted]
  refine ⟨f, hf, hsent.dhost, syncType_of_has hsent.has rfl, fun j => ?_, rfl⟩
  exact .toMaster j f .delayRequest _ _ _ (.inr rfl) hsent.length_le hsent.shost hsent.has

theorem SyncType.code_inj {t t' : SyncType} : t.code = t'.code ↔ t = t' := by
  cases t <;> cases t' <;> decide

/-- A copy on its way to a master is awaited if it is the request of the state. -/
theorem awaited_master {state : SlaveState} {i : Fin n} {type : SyncType}
    (hf : syncType f = some type.code) : awaited state (⟨.master i, f⟩ : Copy n) = true ↔
      (state = .awaitingSync ∧ type = .start) ∨
        (state = .awaitingDelayResp ∧ type = .delayRequest) := by
  unfold awaited
  cases state <;> simp [hf, SyncType.code_inj]

/-- A copy on its way to the slave is awaited if it is the answer to that request. -/
theorem awaited_slave {state : SlaveState} {type : SyncType}
    (hf : syncType f = some type.code) : awaited state (⟨.slave, f⟩ : Copy n) = true ↔
      (state = .awaitingSync ∧ type = .sync) ∨
        (state = .awaitingDelayResp ∧ type = .delayResponse) := by
  unfold awaited
  cases state <;> simp [hf, SyncType.code_inj]

theorem awaited_reply {state : SlaveState} {i : Fin n} {f f' : WireFrame} {type : SyncType}
    (hf : syncType f = some type.code) (hf' : syncType f' = some (replyTo type).code)
    (ha : awaited state (⟨.master i, f⟩ : Copy n) = true) :
    awaited state (⟨.slave, f'⟩ : Copy n) = true := by
  rw [awaited_slave hf']
  rcases (awaited_master hf).mp ha with ⟨hstate, rfl⟩ | ⟨hstate, rfl⟩
  · exact .inl ⟨hstate, rfl⟩
  · exact .inr ⟨hstate, rfl⟩

/-- A master has received a request. -/
theorem Sound.handle_master (h : Sound s) {i : Fin n} {clock : SystemClock} {rest : Memory}
    {type : SyncType} {sp dp : Port} {stamp : UInt64} {dest : Address}
    (htype : type = .start ∨ type = .delayRequest) (hsize : f.data.length ≤ mtu)
    (hhas : f.Has sp dp ⟨.ptp, stamp, TimePayload.plain type⟩)
    (hfrom : f.header.shost = (s.gateway .slave).address.1)
    (hleg : awaited s.sync.state (⟨.master i, f⟩ : Copy n) = false → Leg s) :
    Inv (s.handle (.master i) clock (f.payload rest) f.payloadSize ⟨f.header.shost, sp⟩ dest) := by
  have hreply : replyTo type = .sync ∨ replyTo type = .delayResponse := by
    rcases htype with rfl | rfl
    · exact .inl rfl
    · exact .inr rfl
  have hlength : f.payloadSize = TimePayload.headerSize := hhas.payloadSize_eq hsize
  have hcode : f.payload rest 0 = type.code := hhas.payload_zero rest rfl
  obtain ⟨f', hf', hdhost, hcode', hexpected⟩ := h.master_answers i clock sp hreply
  unfold State.handle
  simp only
  rw [hlength, master_handle htype hcode, hfrom]
  have hmem : ∀ c, c ∈ (s.transmit (.master i) (MasterSynchronizer.answer (s.gateway (.master i))
      clock (replyTo type) ⟨(s.gateway .slave).address.1, sp⟩).sent).flight ↔
        c ∈ s.flight ∨ c = ⟨.slave, f'⟩ := by
    intro c
    rw [mem_transmit, hf']
    simp [h.copies_master hdhost]
  constructor
  · refine h.congr (fun _ => rfl) ?_
    intro c hc
    rcases (hmem c).mp hc with hold | rfl
    · exact .inl hold
    · exact .inr hexpected
  · cases ha : awaited s.sync.state (⟨.master i, f⟩ : Copy n) with
    | false => exact (hleg ha).grow rfl rfl fun c hc => (hmem c).mpr (.inl hc)
    | true =>
      intro _
      right
      exact ⟨_, (hmem _).mpr (.inr rfl),
        awaited_reply (syncType_of_has hhas rfl) hcode' ha⟩

/-- The slave has received a SYNC. -/
theorem Sound.handle_sync (h : Sound s) {i : Fin n} {clock : SystemClock} {rest : Memory}
    {sp dp : Port} {stamp t : UInt64} {dest : Address} (hsize : f.data.length ≤ mtu)
    (hhas : f.Has sp dp ⟨.ptp, stamp, TimePayload.stamped .sync t⟩)
    (hfrom : f.header.shost = (s.gateway (.master i)).address.1)
    (hleg : awaited s.sync.state (⟨.slave, f⟩ : Copy n) = false → Leg s) :
    Inv (s.handle .slave clock (f.payload rest) f.payloadSize ⟨f.header.shost, sp⟩ dest) := by
  have hlength : f.payloadSize = TimePayload.stampedSize := by
    rw [hhas.payloadSize_eq hsize]
    simp [TimePayload.stamped, TimePayload.stampedSize]
  have hcode : f.payload rest 0 = SyncType.sync.code := hhas.payload_zero rest rfl
  unfold State.handle
  simp only
  rw [hlength, slave_handle_sync hcode, hfrom]
  by_cases hstate : s.sync.state = .awaitingSync
  · obtain ⟨f', hf', hdhost, hcode', hexpected, hnext⟩ := h.slave_asks i clock
      (f.payload rest) sp dest hstate
    constructor
    · refine h.congr (fun _ => rfl) ?_
      intro c hc
      rcases mem_transmit.mp hc with hold | ⟨f'', hf'', hcopy⟩
      · exact .inl hold
      · rw [hf', List.mem_singleton] at hf''
        subst f''
        obtain ⟨j, rfl⟩ := copies_slave hcopy
        exact .inr (hexpected j)
    · intro _
      right
      refine ⟨⟨.master i, f'⟩, mem_transmit.mpr (.inr ⟨f', ?_, ?_⟩), ?_⟩
      · rw [hf']
        exact List.mem_singleton_self f'
      · exact mem_copies.mpr ⟨by simp, .inl hdhost, rfl⟩
      · have hgoal : awaited .awaitingDelayResp (⟨.master i, f'⟩ : Copy n) = true := by
          simp [awaited, hcode']
        rw [← hnext] at hgoal
        exact hgoal
  · have hthrow : s.sync.receiveSync (s.gateway .slave) clock (f.payload rest)
        ⟨(s.gateway (.master i)).address.1, sp⟩ dest =
          .throw s.sync "Slave was not waiting for SYNC" := by
      unfold SlaveSynchronizer.receiveSync
      rw [if_pos hstate]
    have hnot : awaited s.sync.state (⟨.slave, f⟩ : Copy n) = false := by
      rw [← Bool.not_eq_true, awaited_slave (syncType_of_has hhas rfl)]
      simp [hstate]
    rw [hthrow]
    constructor
    · refine h.congr (fun _ => rfl) ?_
      intro c hc
      exact .inl (by simpa [SyncOutcome.throw, mem_transmit, outputLinks] using hc)
    · exact (hleg hnot).grow rfl rfl fun c hc => mem_transmit.mpr (.inl hc)

/-- The slave has received a DELAY_RESPONSE. -/
theorem Sound.handle_delayResp (h : Sound s) {clock : SystemClock} {rest : Memory}
    {sp dp : Port} {stamp t : UInt64} {source dest : Address} (hsize : f.data.length ≤ mtu)
    (hhas : f.Has sp dp ⟨.ptp, stamp, TimePayload.stamped .delayResponse t⟩)
    (hleg : awaited s.sync.state (⟨.slave, f⟩ : Copy n) = false ∨ clock.settable = false → Leg s) :
    Inv (s.handle .slave clock (f.payload rest) f.payloadSize source dest) := by
  have hlength : f.payloadSize = TimePayload.stampedSize := by
    rw [hhas.payloadSize_eq hsize]
    simp [TimePayload.stamped, TimePayload.stampedSize]
  have hcode : f.payload rest 0 = SyncType.delayResponse.code := hhas.payload_zero rest rfl
  unfold State.handle
  simp only
  rw [hlength, slave_handle_delayResp hcode, SlaveSynchronizer.receiveDelayResp_sent]
  have hflight : ∀ sync c,
      c ∈ ({ s with sync := sync }.transmit .slave none).flight ↔ c ∈ s.flight := by
    intro sync c
    simp [mem_transmit, outputLinks]
  constructor
  · refine h.congr (fun _ => rfl) ?_
    intro c hc
    exact .inl ((hflight _ c).mp hc)
  · by_cases hstate : s.sync.state = .awaitingDelayResp
    · have hnext := receiveDelayResp_state clock (f.payload rest) hstate
      cases hsettable : clock.settable with
      | true =>
        rw [hsettable, if_pos rfl] at hnext
        exact fun hno => absurd hnext hno
      | false =>
        rw [hsettable] at hnext
        exact (hleg (.inr hsettable)).grow (hnext.trans hstate.symm) rfl
          fun c hc => (hflight _ c).mpr hc
    · have hthrow : s.sync.receiveDelayResp clock (f.payload rest) =
          .throw s.sync "Slave was not waiting for DELAY_RESP" := by
        unfold SlaveSynchronizer.receiveDelayResp
        rw [if_pos hstate]
      have hnot : awaited s.sync.state (⟨.slave, f⟩ : Copy n) = false := by
        rw [← Bool.not_eq_true, awaited_slave (syncType_of_has hhas rfl)]
        simp [hstate]
      rw [hthrow]
      exact (hleg (.inl hnot)).grow rfl rfl fun c hc => (hflight _ c).mpr hc

theorem Sound.setGateway (h : Sound s) (st : Station n) {g : Gateway}
    (hg : g.address = (s.gateway st).address) : Sound (s.setGateway st g) :=
  h.congr (address_setGateway hg) fun _ hc => .inl hc

theorem Sound.dropCopy (h : Sound s) (k : ℕ) : Sound (s.dropCopy k) :=
  h.congr (fun _ => rfl) fun _ hc => .inl (List.mem_of_mem_eraseIdx hc)

/-- A copy that is refused is lost; the others are handled. -/
theorem Inv.deliver (h : Inv s) {k : ℕ} {c : Copy n} {rest : Memory} {clock : SystemClock}
    (hk : s.flight[k]? = some c) (hok : Served s k clock ∨ Spare s k) :
    Inv ((s.dropCopy k).receive c.dest c.frame rest clock) := by
  have hsound := (h.sound.dropCopy k).setGateway c.dest
    ((s.gateway c.dest).handleReceive_address rest c.frame)
  have haddress : ∀ st, (((s.dropCopy k).setGateway c.dest
      ((s.gateway c.dest).handleReceive rest c.frame).1).gateway st).address =
        (s.gateway st).address :=
    address_setGateway ((s.gateway c.dest).handleReceive_address rest c.frame)
  have hset : ∀ {t : State n} {st : Station n} {g : Gateway}, Leg t → Leg (t.setGateway st g) :=
    fun hleg => hleg.grow rfl rfl fun _ hc => hc
  have hleg : awaited s.sync.state c = false → Leg (s.dropCopy k) :=
    h.leg.erase_of_not_awaited hk
  have hlost : ¬ Served s k clock → Leg (s.dropCopy k) := fun hno =>
    h.leg.erase (hok.resolve_left hno)
  have hrefused : ∀ {sp dp segment}, c.frame.Has sp dp segment →
      ¬ (s.gateway c.dest).Accepts c.frame →
      Inv ((s.dropCopy k).receive c.dest c.frame rest clock) := by
    intro sp dp segment hhas haccepts
    have hnone := (Gateway.system_refused rest haccepts hhas).ptp
    have hgateway : (s.dropCopy k).gateway = s.gateway := rfl
    unfold State.receive
    simp only [hgateway, hnone]
    exact ⟨hsound, hset (hlost fun hserved => haccepts (hserved c hk).1)⟩
  cases h.sound.expected c (List.mem_of_getElem? hk) with
  | toMaster i f type sp dp stamp htype hsize hfrom hhas =>
    by_cases haccepts : (s.gateway (.master i)).Accepts f
    · have hsome := (Gateway.system_received rest haccepts hhas).2 rfl
      have hgateway : (s.dropCopy k).gateway = s.gateway := rfl
      unfold State.receive
      simp only [hgateway, hsome]
      refine hsound.handle_master htype hsize hhas ?_ fun hno => hset (hleg hno)
      rw [hfrom]
      exact congrArg Subtype.val (haddress _).symm
    · exact hrefused hhas haccepts
  | toSlave i f type sp dp stamp t htype hsize hfrom hhas =>
    by_cases haccepts : (s.gateway .slave).Accepts f
    · have hsome := (Gateway.system_received rest haccepts hhas).2 rfl
      have hgateway : (s.dropCopy k).gateway = s.gateway := rfl
      unfold State.receive
      simp only [hgateway, hsome]
      rcases htype with rfl | rfl
      · refine hsound.handle_sync (i := i) hsize hhas ?_ fun hno => hset (hleg hno)
        rw [hfrom]
        exact congrArg Subtype.val (haddress _).symm
      · refine hsound.handle_delayResp hsize hhas fun hno => hset ?_
        rcases hno with hnot | hclock
        · exact hleg hnot
        · apply hlost
          intro hserved
          have hsettable := (hserved _ hk).2 (syncType_of_has hhas rfl)
          rw [hclock] at hsettable
          cases hsettable
    · exact hrefused hhas haccepts

theorem start_sent (g : Gateway) (clock : SystemClock) :
    ∃ f, outputLinks (SlaveSynchronizer.sendStart g clock g.externalAddress).toList = [f] ∧
      g.Sent g.externalAddress ⟨broadcastAddr, 0⟩
        ⟨.ptp, clock.reading 0, TimePayload.plain .start⟩ f := by
  have hsize : overhead + (TimePayload.plain .start).length ≤ mtu := by decide
  exact Gateway.outputLinks_send g.externalAddress ⟨broadcastAddr, 0⟩ g.address.2.symm
    localAddr_ne_broadcastAddr.symm hsize

/-- The timer thread sends its START to all masters. -/
theorem Inv.sendStart (h : Inv s) (clock : SystemClock)
    (hok : 0 < n ∨ ∃ c ∈ s.flight, awaited s.sync.state c = true) :
    Inv ({ s with starting := false }.transmit .slave
      (SlaveSynchronizer.sendStart (s.gateway .slave) clock
        (s.gateway .slave).externalAddress)) := by
  obtain ⟨f, hf, hsent⟩ := start_sent (s.gateway .slave) clock
  have hmem : ∀ c, c ∈ ({ s with starting := false }.transmit .slave
      (SlaveSynchronizer.sendStart (s.gateway .slave) clock
        (s.gateway .slave).externalAddress)).flight ↔ c ∈ s.flight ∨ c ∈ s.copies .slave f := by
    intro c
    rw [mem_transmit, hf]
    simp only [List.mem_singleton, exists_eq_left]
    rfl
  constructor
  · refine h.sound.congr (fun _ => rfl) ?_
    intro c hc
    rcases (hmem c).mp hc with hold | hnew
    · exact .inl hold
    · obtain ⟨i, rfl⟩ := copies_slave hnew
      exact .inr (.toMaster i f .start _ _ _ (.inl rfl) hsent.length_le hsent.shost hsent.has)
  · intro hstate
    right
    have hkept : (∃ c ∈ s.flight, awaited s.sync.state c = true) → ∃ c ∈ ({ s with
        starting := false }.transmit .slave (SlaveSynchronizer.sendStart (s.gateway .slave) clock
          (s.gateway .slave).externalAddress)).flight, awaited s.sync.state c = true := by
      rintro ⟨c, hc, ha⟩
      exact ⟨c, (hmem c).mpr (.inl hc), ha⟩
    rcases hok with hpos | hsome
    · rcases h.leg hstate with ⟨-, hawaiting⟩ | hsome
      · have hcopy : (⟨.master ⟨0, hpos⟩, f⟩ : Copy n) ∈ s.copies .slave f :=
          mem_copies.mpr ⟨by simp, .inr hsent.dhost, rfl⟩
        refine ⟨_, (hmem _).mpr (.inr hcopy), ?_⟩
        have hgoal : awaited .awaitingSync (⟨.master ⟨0, hpos⟩, f⟩ : Copy n) = true := by
          simp [awaited, syncType_of_has (f := f) hsent.has rfl]
        rw [← hawaiting] at hgoal
        exact hgoal
      · exact hkept hsome
    · exact hkept hsome

theorem Inv.step {a : Action n} (h : Inv s) (hs : (ptp n).step s a = some s')
    (hok : LegKept s a s') : Inv s' := by
  cases a with
  | request =>
    simp only [ptp, State.step] at hs
    split_ifs at hs with hstarting hstate
    · cases hs
      exact ⟨h.sound.congr (fun _ => rfl) fun _ hc => .inl hc, fun _ => .inl ⟨rfl, rfl⟩⟩
    · cases hs
      exact h
  | sendStart clock =>
    simp only [ptp, State.step] at hs
    split_ifs at hs with hstarting
    cases hs
    exact h.sendStart clock hok
  | deliver k rest clock =>
    obtain ⟨c, hk, rfl⟩ := Option.map_eq_some_iff.mp hs
    exact h.deliver hk hok
  | lose k =>
    obtain ⟨c, hk, rfl⟩ := Option.map_eq_some_iff.mp hs
    exact ⟨h.sound.dropCopy k, h.leg.erase hok⟩
  | move st quadrant shared =>
    cases hs
    exact ⟨h.sound.setGateway st rfl, h.leg.grow rfl rfl fun _ hc => hc⟩

theorem Inv.init (h : (ptp n).init s) : Inv s := by
  obtain ⟨hexternal, hdistinct, hsync, -, hflight⟩ := h
  constructor
  · refine ⟨hexternal, hdistinct, ?_⟩
    intro c hc
    rw [hflight] at hc
    cases hc
  · intro hstate
    rw [hsync] at hstate
    exact absurd rfl hstate

theorem requestSends_of_synchronized (h : s.sync.state = .synchronized) : RequestSends s := by
  intro clock
  obtain ⟨f, hf, hsent⟩ := start_sent (s.gateway .slave) clock
  unfold SlaveSynchronizer.requestSynchronization
  rw [if_pos h]
  exact ⟨f, hf, hsent.dhost, hsent.has⟩

/-- In every run in which no leg of an exchange is lost for good, the slave is
synchronized again whenever nothing is in flight, and its next request sends a START. -/
theorem notWedged (hs : (ptp n).Reaches LegKept s) : NotWedged s := by
  have h : Inv s := hs.invariant (fun _ => Inv.init) fun _ _ _ _ hinv hstep hok =>
    hinv.step hstep hok
  intro hflight hstarting
  apply requestSends_of_synchronized
  by_contra hstate
  rcases h.leg hstate with ⟨hno, -⟩ | ⟨c, hc, -⟩
  · rw [hstarting] at hno
    cases hno
  · rw [hflight] at hc
    cases hc

def accepts (g : Gateway) (f : WireFrame) : Bool :=
  f.header.shost ≠ g.address.1 ∧ f.stamp = some g.quadrant.code ∧
    (f.header.dhost = g.address.1 ∨ f.header.dhost = broadcastAddr)

/-- Every START meets a master, and every copy is delivered to a station that serves it. -/
def served (s : State n) (a : Action n) (_ : State n) : Bool :=
  match a with
  | .sendStart _ => 0 < n
  | .lose _ => false
  | .deliver k _ clock => s.flight[k]?.all fun c => accepts (s.gateway c.dest) c.frame &&
      (syncType c.frame ≠ some SyncType.delayResponse.code || clock.settable)
  | .request | .move .. => true

theorem served_legKept (s : State n) (a : Action n) (s' : State n)
    (h : served s a s' = true) : LegKept s a s' := by
  cases a with
  | request | move => trivial
  | sendStart => exact .inl (of_decide_eq_true h)
  | lose => cases h
  | deliver k rest clock =>
    left
    intro c hk
    simp only [served, hk, Option.all_some, Bool.and_eq_true, Bool.or_eq_true,
      decide_eq_true_eq] at h
    obtain ⟨haccepts, hclock⟩ := h
    obtain ⟨hforeign, hquadrant, hdest⟩ := of_decide_eq_true haccepts
    exact ⟨⟨hforeign, hquadrant, hdest⟩, fun htype => hclock.resolve_left fun hno => hno htype⟩

def pair (quadrant : Quadrant) : State 1 where
  gateway st := match st with
    | .slave => northGateway 2 7
    | .master _ => { northGateway 1 7 with quadrant := quadrant }
  sync := .construct
  starting := false
  flight := []

theorem pair_init (quadrant : Quadrant) : (ptp 1).init (pair quadrant) := by
  refine ⟨?_, ?_, rfl, rfl, rfl⟩
  · intro st
    cases st <;> simp [pair, northGateway, localAddr]
  · intro i
    change (northGateway 1 7).address ≠ (northGateway 2 7).address
    exact northGateway_address_inj.not.mpr (by decide)

def steadyClock : SystemClock := ⟨fun i => UInt64.ofNat i, true⟩

def exchangeRun : List (Action 1) :=
  [.request, .sendStart steadyClock, .deliver 0 (fun _ => 0) steadyClock,
    .deliver 0 (fun _ => 0) steadyClock, .deliver 0 (fun _ => 0) steadyClock,
    .deliver 0 (fun _ => 0) steadyClock]

theorem notWedged_of_exchangeRun :
    ∃ s, (ptp 1).execIf served (pair .north) exchangeRun = some s ∧ s.flight.length = 0 ∧
      NotWedged s := by
  have hrun : ((ptp 1).execIf served (pair .north) exchangeRun).any
      (fun s => s.flight.length = 0) = true := by decide +kernel
  obtain ⟨s, hs, hgoal⟩ := (Option.any_eq_true _ _).mp hrun
  have hreach := Machine.Reaches.execIf served_legKept (.init (pair_init .north)) hs
  exact ⟨s, hs, of_decide_eq_true hgoal, notWedged hreach⟩

def unansweredRun : List (Action 1) :=
  [.request, .sendStart steadyClock, .deliver 0 (fun _ => 0) steadyClock]

theorem wedged_unansweredRun :
    ∃ s, (ptp 1).exec (pair .south) unansweredRun = some s ∧ (ptp 1).Reachable s ∧
      ¬ NotWedged s := by
  obtain ⟨s, hexec, hs, hgoal⟩ := Machine.Reachable.exec_any (.init (pair_init .south))
    unansweredRun (fun s => s.flight.length = 0 ∧ s.starting = false ∧
      s.sync.state = .awaitingSync) (by decide +kernel)
  obtain ⟨hflight, hstarting, hstate⟩ := of_decide_eq_true hgoal
  refine ⟨s, hexec, hs, fun hnot => ?_⟩
  obtain ⟨f, hf, -⟩ := hnot (List.length_eq_zero_iff.mp hflight) hstarting steadyClock
  unfold SlaveSynchronizer.requestSynchronization at hf
  rw [if_neg (by simp [hstate])] at hf
  cases hf

end CommunicationAPI.PtpExchange
