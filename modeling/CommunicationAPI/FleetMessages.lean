import CommunicationAPI.MessageObject
import CommunicationAPI.RelayBounds

/-!
# Where the messages of a fleet come from

Any number of vehicles on one link. Every frame on a bus and every frame of the
link is followed back to the component or the handler that wrote its segment,
and from there to what a Communicator makes of it.
-/

namespace CommunicationAPI.Relay
open Octets ShmEngine TransitionSystem

/-- The call sends a segment as `_send_frame` frames it. -/
def Framed (c : SendCall) (src dst : Address) (segment : Segment) : Prop :=
  ∃ loc key h, c = packetCall loc key src dst segment.getBytes h

variable {ι : Type*}

def FromComponent (s : State ι) (j : ι) (k : ℕ) (src dst : Address) (segment : Segment) : Prop :=
  ∃ b, (s.bus j)[k]? = some b ∧ b.origin = .component ∧ segment.type.IsData ∧
    Framed b.call src dst segment

/-- What the gateway of vehicle `j` put on the link with the mark `o`: a segment that a component
broadcast on its bus, or a system message. -/
def Stems (s : State ι) (j : ι) (sport dport : Port) (segment : Segment) : LinkOrigin → Prop
  | .forward k => ∃ mac, FromComponent s j k ⟨mac, sport⟩ ⟨broadcastAddr, dport⟩ segment
  | .system => ¬ segment.type.IsData

/-- A frame of the link holds a segment of its origin under the name of its sender. -/
def LinkEntry.Known (s : State ι) (e : LinkEntry ι) : Prop :=
  ∃ c sport dst segment, Framed c ⟨(s.gateway e.sender).address.1, sport⟩ dst segment ∧
    e.frame = rawSend (s.gateway e.sender).address c ∧
    Stems s e.sender sport dst.port segment e.origin

def Relayed (s : State ι) (c : SendCall) (n : ℕ) : Prop :=
  ∃ e sport dport segment, s.link[n]? = some e ∧
    Framed c ⟨(s.gateway e.sender).address.1, sport⟩ ⟨localAddr, dport⟩ segment ∧
    Stems s e.sender sport dport segment e.origin

def BusEntry.Known (s : State ι) (b : BusEntry) : Prop :=
  match b.origin with
  | .component => ∃ src dst segment, segment.type.IsData ∧ Framed b.call src dst segment
  | .relay n => Relayed s b.call n
  | .system => ∃ src dst segment, ¬ segment.type.IsData ∧ Framed b.call src dst segment

structure Extends (s s' : State ι) : Prop where
  bus : ∀ i, s.bus i <+: s'.bus i
  link : s.link <+: s'.link
  address : ∀ i, (s'.gateway i).address = (s.gateway i).address

variable {s s' : State ι}

theorem Extends.fromComponent (h : Extends s s') {j : ι} {k : ℕ} {src dst : Address}
    {segment : Segment} (hk : FromComponent s j k src dst segment) :
    FromComponent s' j k src dst segment := by
  obtain ⟨b, hb, horigin⟩ := hk
  exact ⟨b, getElem?_mono (h.bus j) hb, horigin⟩

theorem Extends.stems (h : Extends s s') {j : ι} {sport dport : Port} {segment : Segment}
    {o : LinkOrigin} (ho : Stems s j sport dport segment o) :
    Stems s' j sport dport segment o := by
  cases o with
  | forward k =>
    obtain ⟨mac, hk⟩ := ho
    exact ⟨mac, h.fromComponent hk⟩
  | system => exact ho

theorem Extends.link_known (h : Extends s s') {e : LinkEntry ι} (he : e.Known s) : e.Known s' := by
  obtain ⟨c, sport, dst, segment, hframed, hframe, hstems⟩ := he
  unfold LinkEntry.Known
  rw [h.address]
  exact ⟨c, sport, dst, segment, hframed, hframe, h.stems hstems⟩

theorem Extends.bus_known (h : Extends s s') {b : BusEntry} (hb : b.Known s) : b.Known s' := by
  unfold BusEntry.Known at hb ⊢
  cases horigin : b.origin with
  | component | system => rwa [horigin] at hb
  | relay n =>
    rw [horigin] at hb
    obtain ⟨e, sport, dport, segment, he, hframed, hstems⟩ := hb
    refine ⟨e, sport, dport, segment, getElem?_mono h.link he, ?_, h.stems hstems⟩
    rwa [h.address]

section Steps
variable [DecidableEq ι] {i : ι}

theorem Effect.extends (h : Effect s i s') : Extends s s' := by
  have happend : ∀ bs ls, Extends s (s.append i bs ls) := by
    intro bs ls
    refine ⟨fun j => ?_, ?_, fun _ => rfl⟩
    · rw [append_bus]
      exact List.prefix_append _ _
    · exact List.prefix_append _ _
  refine ⟨fun j => ?_, ?_, h.address⟩
  · cases h with
    | gateway | skip => exact List.prefix_rfl
    | emit bs ls => exact (happend bs ls).bus j
    | forward b f => exact (happend [] [⟨f, i, .forward (s.cursor i)⟩]).bus j
    | receive n e bs => exact (happend bs []).bus j
  · cases h with
    | gateway | skip => exact List.prefix_rfl
    | emit bs ls => exact (happend bs ls).link
    | forward b f => exact (happend [] [⟨f, i, .forward (s.cursor i)⟩]).link
    | receive n e bs => exact (happend bs []).link

end Steps

section Gateways
variable {g : Gateway} {src dst : Address} {segment : Segment} {c : SendCall}

theorem framed_sendFrame {loc : Quadrant} {key : SessionKey}
    (h : (sendFrame loc key src dst segment.getBytes).call = some c) :
    Framed c src dst segment := by
  rw [call_sendFrame] at h
  split_ifs at h with hsize
  · cases h
    exact ⟨loc, key, hsize, rfl⟩

theorem mem_outputBuses_bus {x : Sending} {c : SendCall} :
    c ∈ outputBuses (x.output Output.bus).toList ↔ x.call = some c := by
  rw [outputBuses_bus, Option.mem_toList]

/-- Whatever the gateway is, all that it can put on its bus for a frame of the link is the segment
of the frame, under the address of the station that sent it. -/
theorem framed_handleReceive (rest : Memory) {sender : InterfaceAddress} {c' : SendCall}
    (hc : Framed c src dst segment)
    (h : c' ∈ outputBuses (g.handleReceive rest (rawSend sender c)).2) :
    Framed c' ⟨sender.1, src.port⟩ ⟨localAddr, dst.port⟩ segment := by
  obtain ⟨loc, key, hsize, rfl⟩ := hc
  set f := rawSend sender (packetCall loc key src dst segment.getBytes hsize) with hf
  have hholds : Packet.Holds (Gateway.receivedFrame rest f).data loc src.port dst.port
      segment.getBytes key := Packet.holds_store rest
  have hlength : (Gateway.receivedFrame rest f).dataLength - packetHeaderSize - macSize =
      segment.getBytes.length := by
    have heq : (Gateway.receivedFrame rest f).dataLength =
        packetHeaderSize + segment.getBytes.length + macSize := length_packetCall hsize
    omega
  have hexternal : c' ∈ outputBuses (g.updateExternal (Gateway.receivedFrame rest f)).2 := by
    unfold Gateway.handleReceive at h
    simp only at h
    split_ifs at h
    · cases h
    · cases h
    · exact h
    · cases h
  unfold Gateway.updateExternal at hexternal
  simp only [hholds.dport_eq, hholds.sport_eq] at hexternal
  by_cases hshort : (Gateway.receivedFrame rest f).dataLength < packetHeaderSize + macSize
  · rw [if_pos hshort] at hexternal
    cases hexternal
  · rw [if_neg hshort] at hexternal
    split at hexternal
    · rename_i message hmessage
      rw [(filterSystemMessages_quiet hmessage).2] at hexternal
      cases hexternal
    · split_ifs at hexternal with hmac
      · cases hexternal
      · rw [hlength, hholds.segment_eq, Gateway.send_local rfl] at hexternal
        exact framed_sendFrame (mem_outputBuses_bus.mp hexternal)

end Gateways

/-- The message has the header of the segment, and of its payload what the buffer of the
message could hold. -/
structure Copies (m : MessageObject) (n : ℕ) (segment : Segment) : Prop where
  type : m.type = segment.type.code
  timestamp : m.timestamp = segment.timestamp
  payload : m.payload.toList = segment.payload.take (n - segmentHeaderSize)

theorem receive_framed {c : SendCall} {src dst : Address} {segment : Segment}
    (hc : Framed c src dst segment) {rest memory : Memory} {t : UInt64} {n : ℕ} {m : MessageObject}
    (hn : n < uint32)
    (hreceive : (MessageObject.ofSize memory t n).receive (busFrame rest c) = (true, m)) :
    m.source = src ∧ ⟨(busFrame rest c).header.dhost, Packet.dport (busFrame rest c).data⟩ = dst ∧
      Copies m n segment := by
  obtain ⟨loc, key, hsize, rfl⟩ := hc
  set frame := busFrame rest (packetCall loc key src dst segment.getBytes hsize)
  have hholds : Packet.Holds frame.data loc src.port dst.port segment.getBytes key :=
    busFrame_packetCall_holds hsize rest
  have hcarries : frame.Carries segment.getBytes := busFrame_carries hsize rest
  have hcopied : (MessageObject.ofSize memory t n).copied segment.getBytes =
      min n segment.getBytes.length := by
    unfold MessageObject.copied
    rw [MessageObject.ofSize_capacity, Nat.mod_eq_of_lt hn]
  have hle : segmentHeaderSize ≤ (MessageObject.ofSize memory t n).copied segment.getBytes := by
    by_contra hlt
    have hrefused := MessageObject.receive_of_lt hcarries (Nat.lt_of_not_le hlt)
    rw [hreceive] at hrefused
    cases hrefused
  rw [MessageObject.receive_of_le hcarries hle] at hreceive
  cases hreceive
  have hraw : RawSegment.ofBytes segment.getBytes = segment.raw :=
    RawSegment.ofBytes_getBytes segment.raw
  obtain ⟨htype, htimestamp⟩ := @MessageObject.unpack_header _ frame _ hle
  rw [hraw] at htype htimestamp
  refine ⟨?_, ?_, htype, htimestamp, ?_⟩
  · change (⟨src.paddr, Packet.sport frame.data⟩ : Address) = src
    rw [hholds.sport_eq]
  · change (⟨dst.paddr, Packet.dport frame.data⟩ : Address) = dst
    rw [hholds.dport_eq]
  · have hpayload : segment.getBytes.drop segmentHeaderSize = segment.payload :=
      congrArg RawSegment.payload hraw
    have hzeros : min n segment.getBytes.length - segmentHeaderSize - n = 0 := by omega
    rw [MessageObject.unpack_payload, hpayload, hcopied, MessageObject.ofSize_size, hzeros,
      List.replicate_zero, List.append_nil, List.take_take, List.take_eq_take_iff,
      Segment.length_getBytes]
    omega

theorem getBytes_injective : Function.Injective Segment.getBytes := by
  intro a b h
  have hraw : a.raw = b.raw := by
    rw [← RawSegment.ofBytes_getBytes a.raw, ← RawSegment.ofBytes_getBytes b.raw]
    exact congrArg RawSegment.ofBytes h
  obtain ⟨type, timestamp, payload⟩ := a
  obtain ⟨type', timestamp', payload'⟩ := b
  obtain ⟨hcode, rfl, rfl⟩ : type.code = type'.code ∧ timestamp = timestamp' ∧
      payload = payload' := by simpa [Segment.raw] using hraw
  have htype : type = type' := by
    cases type <;> cases type' <;> first | rfl | exact absurd hcode (by decide)
  rw [htype]

/-- A call sends one segment, from one address to another. -/
theorem Framed.unique {c : SendCall} {src src' dst dst' : Address} {segment segment' : Segment}
    (h : Framed c src dst segment) (h' : Framed c src' dst' segment') :
    src = src' ∧ dst = dst' ∧ segment = segment' := by
  obtain ⟨loc, key, hsize, hc⟩ := h
  obtain ⟨loc', key', hsize', hc'⟩ := h'
  have hd : c.Delivers src.port dst.port segment.getBytes := by
    rw [hc]
    exact packetCall_delivers hsize
  have hd' : c.Delivers src'.port dst'.port segment'.getBytes := by
    rw [hc']
    exact packetCall_delivers hsize'
  have hsegment := (hd.segment_eq fun _ => 0).symm.trans (hd'.segment_eq fun _ => 0)
  have hsport := (hd.sport_eq fun _ => 0).symm.trans (hd'.sport_eq fun _ => 0)
  have hdport := (hd.dport_eq fun _ => 0).symm.trans (hd'.dport_eq fun _ => 0)
  have hsrc : some src.paddr = some src'.paddr := congrArg SendCall.srcMac (hc.symm.trans hc')
  have hdst : dst.paddr = dst'.paddr := congrArg SendCall.dstMac (hc.symm.trans hc')
  obtain ⟨paddr, port⟩ := src
  obtain ⟨paddr', port'⟩ := dst
  cases hsrc
  cases hdst
  cases hsport
  cases hdport
  exact ⟨rfl, rfl, getBytes_injective hsegment⟩

def original (s : State ι) (i : ι) (p : ℕ) : Option (ι × ℕ) :=
  (s.bus i)[p]?.bind fun b =>
    match b.origin with
    | .component => some (i, p)
    | .relay n => s.link[n]?.bind fun e =>
      match e.origin with
      | .forward k => some (e.sender, k)
      | .system => none
    | .system => none

theorem code_isData (t : MsgType) :
    t.code = MsgType.control.code ∨ t.code = MsgType.teds.code ↔ t.IsData := by
  cases t <;> decide

/-- A segment on the bus of vehicle `i`, from `src'` to `dst'`, that a component of vehicle `j` sent
from `src` to `dst`. Its own bus has the frame as it was sent. -/
structure CopyOf (s : State ι) (i j : ι) (k : ℕ) (src dst src' dst' : Address)
    (segment : Segment) : Prop where
  sent : FromComponent s j k src dst segment
  port : dst'.port = dst.port
  own : i = j → (src', dst') = (src, dst)
  /-- Elsewhere a broadcast comes from the address of its vehicle. -/
  other : i ≠ j → src' = ⟨(s.gateway j).address.1, src.port⟩ ∧ dst.paddr = broadcastAddr

/-- What components receive is what components sent. -/
structure Faithful (s : State ι) : Prop where
  /-- A data message copied from a frame of a bus is that of a component, at its port. -/
  received : ∀ (i : ι) (p : ℕ) (b : BusEntry) (rest memory : Memory) (t : UInt64) (n : ℕ)
    (m : MessageObject), (s.bus i)[p]? = some b → n < uint32 →
    (MessageObject.ofSize memory t n).receive (busFrame rest b.call) = (true, m) →
    (m.type = MsgType.control.code ∨ m.type = MsgType.teds.code) →
    ∃ j k src dst segment, original s i p = some (j, k) ∧
      CopyOf s i j k src dst m.source ⟨(busFrame rest b.call).header.dhost,
        Packet.dport (busFrame rest b.call).data⟩ segment ∧ Copies m n segment
  /-- No bus holds two frames of one original. -/
  once : ∀ (i : ι) (p q : ℕ) (o : ι × ℕ), original s i p = some o → original s i q = some o → p = q

theorem Extends.original (h : Extends s s') {i : ι} {p : ℕ} {o : ι × ℕ}
    (ho : original s i p = some o) : original s' i p = some o := by
  unfold Relay.original at ho ⊢
  obtain ⟨b, hb, ho⟩ := Option.bind_eq_some_iff.mp ho
  rw [getElem?_mono (h.bus i) hb, Option.bind_some]
  cases horigin : b.origin with
  | component | system => rwa [horigin] at ho
  | relay n =>
    rw [horigin] at ho
    obtain ⟨e, he, ho⟩ := Option.bind_eq_some_iff.mp ho
    simp only [getElem?_mono h.link he, Option.bind_some]
    exact ho

/-- An entry with an original is that of a component, or a frame of another vehicle's. -/
theorem original_cases {i : ι} {p : ℕ} {o : ι × ℕ} (h : original s i p = some o) :
    (o = (i, p)) ∨ ∃ b n e, (s.bus i)[p]? = some b ∧ b.origin = .relay n ∧
      s.link[n]? = some e ∧ e.sender = o.1 ∧ e.origin = .forward o.2 := by
  unfold original at h
  obtain ⟨b, hb, h⟩ := Option.bind_eq_some_iff.mp h
  cases horigin : b.origin with
  | component =>
    rw [horigin] at h
    exact .inl (Option.some_inj.mp h).symm
  | system =>
    rw [horigin] at h
    cases h
  | relay n =>
    rw [horigin] at h
    obtain ⟨e, he, h⟩ := Option.bind_eq_some_iff.mp h
    cases hforward : e.origin with
    | system =>
      rw [hforward] at h
      cases h
    | forward k =>
      rw [hforward] at h
      cases h
      exact .inr ⟨b, n, e, hb, horigin, he, rfl, hforward⟩

/-- All that the logs of `s'` hold is known in `s`. -/
structure TracedIn (s s' : State ι) : Prop where
  buses : ∀ i, ∀ b ∈ s'.bus i, b.Known s
  link : ∀ e ∈ s'.link, e.Known s

def Traced (s : State ι) : Prop := TracedIn s s

theorem TracedIn.traced (h : TracedIn s s') (hextends : Extends s s') : Traced s' where
  buses i b hb := hextends.bus_known (h.buses i b hb)
  link e he := hextends.link_known (h.link e he)

variable [DecidableEq ι] {i : ι}

theorem Traced.emit (h : Traced s) {b : BusOrigin} {l : LinkOrigin} {outputs : List Output}
    (hbus : ∀ c ∈ outputBuses outputs, BusEntry.Known s ⟨c, b⟩)
    (hlink : ∀ f ∈ outputLinks outputs, LinkEntry.Known s ⟨f, i, l⟩) :
    TracedIn s (s.emit i b l outputs) := by
  constructor
  · intro j entry hentry
    unfold State.emit at hentry
    rw [append_bus, List.mem_append] at hentry
    rcases hentry with hold | hnew
    · exact h.buses j entry hold
    · split_ifs at hnew
      · obtain ⟨c, hc, rfl⟩ := List.mem_map.mp hnew
        exact hbus c hc
      · cases hnew
  · intro entry hentry
    rcases List.mem_append.mp hentry with hold | hnew
    · exact h.link entry hold
    · obtain ⟨f, hf, rfl⟩ := List.mem_map.mp hnew
      exact hlink f hf

theorem Traced.readBus (h : Traced s) (rest : Memory) {b : BusEntry}
    (hb : (s.bus i)[s.cursor i]? = some b) (hsound : b.Sound) :
    TracedIn s (s.emit i .system (.forward (s.cursor i))
      ((s.gateway i).receiveLocal rest b.call)) := by
  by_cases hdst : b.call.dstMac = broadcastAddr
  · cases hsound with
    | internal _ _ hno => exact absurd hdst hno
    | component loc key src dst segment htype hsize =>
      obtain ⟨hbuses, hlinks⟩ := Gateway.outputs_broadcast (g := s.gateway i) loc key src rest
        hdst hsize
      apply h.emit
      · rw [hbuses]
        simp
      · rw [hlinks]
        intro f hf
        rw [List.mem_singleton] at hf
        subst f
        have hdst' : dst = ⟨broadcastAddr, dst.port⟩ := by rw [← hdst]; rfl
        have hfrom : FromComponent s i (s.cursor i) ⟨src.paddr, src.port⟩
            ⟨broadcastAddr, dst.port⟩ segment :=
          ⟨_, hb, rfl, htype, loc, key, hsize, by rw [← hdst']⟩
        exact ⟨_, src.port, dst, segment, ⟨_, _, hsize, rfl⟩, rfl, src.paddr, hfrom⟩
  · obtain ⟨hbuses, hlinks⟩ := receiveLocal_internal (g := s.gateway i) rest hdst
    apply h.emit
    · rw [hbuses]
      simp
    · rw [hlinks]
      simp

theorem Traced.receive (h : Traced s) (rest : Memory) {n : ℕ} {e : LinkEntry ι}
    (he : s.link[n]? = some e) :
    TracedIn s (s.emit i (.relay n) .system ((s.gateway i).handleReceive rest e.frame).2) := by
  apply h.emit
  · intro c hc
    obtain ⟨call, sport, dst, segment, hframed, hframe, hstems⟩ :=
      h.link e (List.mem_of_getElem? he)
    rw [hframe] at hc
    exact ⟨e, sport, dst.port, segment, he, framed_handleReceive rest hframed hc, hstems⟩
  · rw [(handleReceive_relaysOnly rest e.frame).links]
    simp

theorem Traced.system (h : Traced s) (src dst : Address) {segment : Segment}
    (ht : ¬ segment.type.IsData) :
    TracedIn s (s.emit i .system .system
      ((s.gateway i).send src dst segment.getBytes).toList) := by
  unfold Gateway.send
  apply h.emit
  · intro c hc
    split_ifs at hc
    · rw [outputBuses_link] at hc
      cases hc
    · exact ⟨src, dst, segment, ht, framed_sendFrame (mem_outputBuses_bus.mp hc)⟩
  · intro f hf
    split_ifs at hf
    · rw [outputLinks_link, call_sendFrame] at hf
      split_ifs at hf with hsize
      · cases List.mem_singleton.mp hf
        exact ⟨packetCall _ _ ⟨(s.gateway i).address.1, src.port⟩ dst segment.getBytes hsize,
          src.port, dst, segment, ⟨_, _, hsize, rfl⟩, rfl, ht⟩
      · cases hf
    · rw [outputLinks_bus] at hf
      cases hf

variable [Fintype ι]

theorem Inv.extends {a : Action ι} (h : Inv s) (hs : s.step a = some s') : Extends s s' := by
  obtain ⟨_, heffect⟩ := step_effect h.buses (fun e hmem => (h.link e hmem).1) hs
  exact heffect.extends

theorem Traced.step {a : Action ι} (h : Traced s) (hinv : Inv s) (hs : s.step a = some s') :
    Traced s' := by
  suffices hin : TracedIn s s' from hin.traced (hinv.extends hs)
  cases a with
  | component i loc key src dst segment =>
    simp only [State.step] at hs
    split_ifs at hs with ht
    obtain ⟨c, hc, rfl⟩ := Option.map_eq_some_iff.mp hs
    apply h.emit
    · intro c' hc'
      simp only [outputBuses, List.filterMap_cons, List.filterMap_nil, List.mem_singleton] at hc'
      subst c'
      exact ⟨src, dst, segment, ht, framed_sendFrame hc⟩
    · simp [outputLinks]
  | readBus i rest =>
    obtain ⟨b, hb, rfl⟩ := Option.map_eq_some_iff.mp hs
    obtain ⟨hbuses, hlink⟩ := h.readBus rest hb (hinv.buses i b (List.mem_of_getElem? hb))
    exact ⟨hbuses, hlink⟩
  | receive i n rest =>
    simp only [State.step] at hs
    split_ifs at hs with hn
    obtain ⟨e, he, rfl⟩ := Option.map_eq_some_iff.mp hs
    obtain ⟨hbuses, hlink⟩ := h.receive (i := i) rest he
    exact ⟨hbuses, hlink⟩
  | system i src dst segment =>
    simp only [State.step] at hs
    split_ifs at hs with ht
    cases hs
    exact h.system src dst ht
  | environment i quadrant shared =>
    cases hs
    exact ⟨h.buses, h.link⟩

theorem traced_of_reachable (hs : (network ι).Reachable s) : Traced s := by
  refine hs.invariant ?_ fun _ _ _ hr h hstep _ => h.step (inv_of_reachable hr) hstep
  intro s hinit
  constructor
  · intro i b hb
    rw [(hinit.1 i).1] at hb
    cases hb
  · intro e he
    rw [hinit.2] at he
    cases he

theorem sender_ne (h : Inv s) {p n : ℕ} {b : BusEntry} {e : LinkEntry ι}
    (hb : (s.bus i)[p]? = some b) (horigin : b.origin = .relay n) (he : s.link[n]? = some e) :
    e.sender ≠ i := by
  have hrelayed : relays s i n ≠ 0 := by
    unfold relays
    rw [← Nat.pos_iff_ne_zero, List.countP_pos_iff]
    exact ⟨b, List.mem_of_getElem? hb, by simp [horigin]⟩
  exact (h.relayed.handed i n hrelayed).2 e he

theorem transmissions_le_one (h : Inv s) (j : ι) (k : ℕ) : transmissions s j k ≤ 1 := by
  rw [h.forwarded j k]
  unfold due
  split_ifs <;> omega

omit [DecidableEq ι] [Fintype ι] in
theorem Traced.framed (h : Traced s) {p : ℕ} {b : BusEntry} (hb : (s.bus i)[p]? = some b) :
    ∃ src dst segment, Framed b.call src dst segment := by
  have hknown := h.buses i b (List.mem_of_getElem? hb)
  unfold BusEntry.Known at hknown
  cases horigin : b.origin with
  | component =>
    rw [horigin] at hknown
    obtain ⟨src, dst, segment, -, hframed⟩ := hknown
    exact ⟨src, dst, segment, hframed⟩
  | relay n =>
    rw [horigin] at hknown
    obtain ⟨e, sport, dport, segment, -, hframed, -⟩ := hknown
    exact ⟨_, _, segment, hframed⟩
  | system =>
    rw [horigin] at hknown
    obtain ⟨src, dst, segment, -, hframed⟩ := hknown
    exact ⟨src, dst, segment, hframed⟩

/-- A data segment on a bus has an original. -/
theorem Traced.provenance (h : Traced s) (hinv : Inv s) {p : ℕ} {b : BusEntry} {src' dst' : Address}
    {segment : Segment} (hb : (s.bus i)[p]? = some b) (hframed : Framed b.call src' dst' segment)
    (htype : segment.type.IsData) : ∃ j k src dst, original s i p = some (j, k) ∧
      CopyOf s i j k src dst src' dst' segment := by
  have hknown := h.buses i b (List.mem_of_getElem? hb)
  unfold BusEntry.Known at hknown
  cases horigin : b.origin with
  | component =>
    exact ⟨i, p, src', dst', by simp [original, hb, horigin], ⟨b, hb, horigin, htype, hframed⟩, rfl,
      fun _ => rfl, fun hne => absurd rfl hne⟩
  | relay k =>
    rw [horigin] at hknown
    obtain ⟨e, sport, dport, segment', he, hframed', hstems⟩ := hknown
    obtain ⟨rfl, rfl, rfl⟩ := hframed.unique hframed'
    cases hforward : e.origin with
    | system =>
      rw [hforward] at hstems
      exact absurd htype hstems
    | forward l =>
      rw [hforward] at hstems
      obtain ⟨mac, hfrom⟩ := hstems
      refine ⟨e.sender, l, _, _, by simp [original, hb, horigin, he, hforward], hfrom, rfl,
        fun heq => ?_, fun _ => ⟨rfl, rfl⟩⟩
      exact absurd heq.symm (sender_ne hinv hb horigin he)
  | system =>
    rw [horigin] at hknown
    obtain ⟨src, dst, segment', hno, hframed'⟩ := hknown
    obtain ⟨rfl, rfl, rfl⟩ := hframed.unique hframed'
    exact absurd htype hno

theorem Traced.received (h : Traced s) (hinv : Inv s) {p : ℕ} {b : BusEntry}
    {rest memory : Memory} {t : UInt64} {n : ℕ} {m : MessageObject} (hb : (s.bus i)[p]? = some b)
    (hn : n < uint32)
    (hreceive : (MessageObject.ofSize memory t n).receive (busFrame rest b.call) = (true, m))
    (htype : m.type = MsgType.control.code ∨ m.type = MsgType.teds.code) :
    ∃ j k src dst segment, original s i p = some (j, k) ∧
      CopyOf s i j k src dst m.source ⟨(busFrame rest b.call).header.dhost,
        Packet.dport (busFrame rest b.call).data⟩ segment ∧ Copies m n segment := by
  obtain ⟨src', dst', segment, hframed⟩ := h.framed hb
  obtain ⟨rfl, hdst, hcopies⟩ := receive_framed hframed hn hreceive
  rw [hcopies.type, code_isData] at htype
  obtain ⟨j, k, src, dst, horiginal, hcopy⟩ := h.provenance hinv hb hframed htype
  rw [← hdst] at hcopy
  exact ⟨j, k, src, dst, segment, horiginal, hcopy, hcopies⟩

theorem original_unique (h : Inv s) {p q : ℕ} {o : ι × ℕ} (hp : original s i p = some o)
    (hq : original s i q = some o) : p = q := by
  rcases original_cases hp with rfl | ⟨b, n, e, hb, horigin, he, hsender, hforward⟩
  · rcases original_cases hq with heq | ⟨b, n, e, hb, horigin, he, hsender, -⟩
    · exact (Prod.ext_iff.mp heq).2
    · exact absurd hsender (sender_ne h hb horigin he)
  · rcases original_cases hq with rfl | ⟨b', n', e', hb', horigin', he', hsender', hforward'⟩
    · exact absurd hsender (sender_ne h hb horigin he)
    · have hsame : n = n' :=
        index_unique (transmissions_le_one h o.1 o.2) he (by simp [hsender, hforward]) he'
          (by simp [hsender', hforward'])
      subst hsame
      exact index_unique (h.relayed.relays_le i n) hb (by simp [horigin]) hb' (by simp [horigin'])

/-- Whatever the components, the gateways and the link do, and in any order. -/
theorem faithful_of_reachable (hs : (network ι).Reachable s) : Faithful s where
  received _ _ _ _ _ _ _ _ hb hn hreceive htype :=
    (traced_of_reachable hs).received (inv_of_reachable hs) hb hn hreceive htype
  once _ _ _ _ hp hq := original_unique (inv_of_reachable hs) hp hq

theorem faithful_of_oneBroadcast :
    ∃ s, (network Bool).exec twoVehicles oneBroadcast = some s ∧ Faithful s ∧
      original s false 0 = some (true, 0) := by
  have hinit : (network Bool).init twoVehicles := ⟨fun _ => ⟨rfl, rfl, rfl⟩, rfl⟩
  obtain ⟨s, hs, hreach, hgoal⟩ := Machine.Reachable.exec_any (.init hinit) oneBroadcast
    (fun s => original s false 0 = some (true, 0)) (by decide +kernel)
  exact ⟨s, hs, faithful_of_reachable hreach, of_decide_eq_true hgoal⟩

end CommunicationAPI.Relay
