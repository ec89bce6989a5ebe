import CommunicationAPI.ShmWakeup

/-!
# No writer is left asleep

Under the conditions of `KeepsWakeups`, at most one writer is parked, and for
a parked writer without a token the blocked flag is set and either a post is
certain to come or a client is left that has yet to compare.
-/

namespace CommunicationAPI.ShmEngine
open TransitionSystem

def ReleasePc.Posts (s : State) : ReleasePc → Prop
  | .scanActive _ m todo slowest =>
    m ≤ slowest ∧ ∀ j ∈ todo, s.isActive j = true → m ≤ s.lastRead j
  | .scanLastRead _ m j todo slowest =>
    m ≤ slowest ∧ m ≤ s.lastRead j ∧ ∀ k ∈ todo, s.isActive k = true → m ≤ s.lastRead k
  | .store _ slowest => slowest = true
  | .signal => True
  | .testBlocked _ | .readMine _ => False

theorem ReleasePc.Posts.mono {s s' : State} {x : ReleasePc} (h : x.Posts s)
    (hactive : ∀ j, s'.isActive j = s.isActive j) (hread : ∀ j, s.lastRead j ≤ s'.lastRead j) :
    x.Posts s' := by
  cases x with
  | scanActive v m todo slowest =>
    exact ⟨h.1, fun j hj ha => (h.2 j hj (hactive j ▸ ha)).trans (hread j)⟩
  | scanLastRead v m j todo slowest =>
    exact ⟨h.1, h.2.1.trans (hread j),
      fun k hk ha => (h.2.2 k hk (hactive k ▸ ha)).trans (hread k)⟩
  | _ => exact h

theorem ReleaseMove.posts {s : State} {i : ClientSlot} {x x' : ReleasePc}
    (hm : ReleaseMove s i x x') (h : x.Posts s) : x'.Posts s := by
  cases hm with
  | scanHit v m j todo slowest ha =>
    exact ⟨h.1, h.2 j List.mem_cons_self ha, fun k hk => h.2 k (List.mem_cons_of_mem j hk)⟩
  | scanSkip v m j todo slowest ha => exact ⟨h.1, fun k hk => h.2 k (List.mem_cons_of_mem j hk)⟩
  | scanRead v m j todo slowest => exact ⟨le_min h.1 h.2.1, h.2.2⟩
  | decide v m slowest => exact decide_eq_true h.1
  | _ => exact h.elim

/-- Someone will post, or the bus is not at rest. -/
inductive Awaited (s : State) : Prop
  | orphan (i) : s.isActive i = true → (∀ p, (s.process p).engine ≠ .running i) → Awaited s
  | untested (p i) : Untested s p i → Awaited s
  | posts (p i x) : (s.process p).engine = .running i → x ∈ (s.process p).releasing →
      x.Posts s → Awaited s

structure Watched (s : State) : Prop where
  unique : ∀ v w, Parked s v → Parked s w → v = w
  awaited : ∀ w, Parked s w → s.sem.writerWait = 0 → s.block.writerIsBlocked = true ∧ Awaited s

theorem Awaited.excludes_stuck {s : State} (h : Awaited s) (hreg : Registry s)
    (ho : ∀ p, Orderly s p) : ¬ Stuck s := by
  rintro ⟨-, -, hidle⟩
  cases h with
  | orphan i ha hnone =>
    obtain ⟨p, hp, -⟩ := hidle i ha
    exact hnone p hp
  | untested p i hu =>
    have howned : (s.process p).engine.owned = some i := by rw [hu.running]; rfl
    obtain ⟨q, hq, -, -, -, hall⟩ := hidle i (hreg.active p i howned)
    obtain rfl : q = p := hreg.unique q p i (by rw [hq]; rfl) howned
    obtain ⟨hjoined, -, hreleased⟩ := (ho q).settled i (.inr hq)
    have hbehind := hu.behind
    have := hreleased _ (hall s.block.publishSequenceId (by omega) le_rfl)
    omega
  | posts p i x hp hx =>
    have howned : (s.process p).engine.owned = some i := by rw [hp]; rfl
    obtain ⟨q, hq, -, -, hempty, -⟩ := hidle i (hreg.active p i howned)
    obtain rfl : q = p := hreg.unique q p i (by rw [hq]; rfl) howned
    rw [hempty] at hx
    cases hx

/-- A step that leaves the registry and the calls in progress as they are. -/
theorem Awaited.grow {s s' : State} (h : Awaited s) (ho : ∀ p, Orderly s p)
    (hregistry : s'.block.clientRegistry = s.block.clientRegistry)
    (hpublish : s.block.publishSequenceId ≤ s'.block.publishSequenceId)
    (hengine : ∀ p, (s'.process p).engine = (s.process p).engine)
    (hkeep : ∀ p x, x ∈ (s.process p).releasing → x ∈ (s'.process p).releasing)
    (hnew : ∀ p x, x ∈ (s'.process p).releasing →
      x ∈ (s.process p).releasing ∨ x.compared = none) : Awaited s' := by
  have hactive (j : ClientSlot) : s'.isActive j = s.isActive j := by simp [hregistry]
  have hread (j : ClientSlot) : s'.lastRead j = s.lastRead j := by simp [hregistry]
  cases h with
  | orphan i ha hnone =>
    exact .orphan i (by rw [hactive, ha]) fun p => by rw [hengine]; exact hnone p
  | untested p i hu =>
    refine .untested p i ⟨by rw [hengine, hu.running], ?_, fun x hx v hv => ?_⟩
    · rw [hread]
      exact hu.behind.trans_le hpublish
    · rcases hnew p x hx with hx | hx
      · have hle := (((ho p).calls i hu.running x hx).1 v (ReleasePc.pending_of_compared hv)).2
        have hne := hu.compared x hx v hv
        omega
      · rw [hx] at hv
        cases hv
  | posts p i x hp hx hposts =>
    exact .posts p i x (by rw [hengine, hp]) (hkeep p x hx)
      (hposts.mono hactive fun j => (hread j).ge)

theorem LocalMove.parks {s : State} {pc pc' : SendPc} (h : LocalMove s pc pc') {c : SendCall}
    {t : ℕ} (hpc : pc' = .waitWriter c t) :
    ∃ slowest any, pc = .scanActive c t [] slowest any ∧ hasRoom t slowest any = false := by
  cases h with
  | block d u slowest any hr =>
    cases hpc
    exact ⟨slowest, any, rfl, hr⟩
  | _ => simp [startScan] at hpc

/-- Only the end of a scan and giving up change the flag. -/
theorem LocalMove.flag {s : State} {pc pc' : SendPc} (h : LocalMove s pc pc') (b : Bool) :
    (∃ c t slowest any, pc = .scanActive c t [] slowest any) ∨ (∃ c t, pc = .giveUp c t) ∨
      pc.flagAfter b pc' = b ∧ ∀ c t, pc' ≠ .waitWriter c t := by
  cases h with
  | pass c t slowest any | block c t slowest any => exact .inl ⟨c, t, slowest, any, rfl⟩
  | giveUp c t => exact .inr (.inl ⟨c, t, rfl⟩)
  | _ => exact .inr (.inr ⟨rfl, by simp [startScan]⟩)

/-- A process is in one call of `release_frame` at most. -/
theorem releasing_eq {s : State} (ho : ∀ p, Orderly s p) {p : ℕ} {x : ReleasePc}
    (hx : x ∈ (s.process p).releasing) : (s.process p).releasing = [x] := by
  rcases (ho p).single with hl | ⟨y, hl⟩
  · rw [hl] at hx
    cases hx
  · rw [hl, List.mem_singleton] at hx
    rw [hl, hx]

namespace ReleaseEffect
variable {s s' : State} {p q : ℕ} {i j : ClientSlot} {x : ReleasePc}

theorem releasing_of_ne (he : ReleaseEffect s p i x s') (hqp : q ≠ p) :
    (s'.process q).releasing = (s.process q).releasing := by
  cases he <;> simp [hqp]

theorem lastRead_of_ne (he : ReleaseEffect s p i x s') (hj : j ≠ i) :
    s'.lastRead j = s.lastRead j := by
  cases he <;> simp [hj]

theorem lastRead_mono (he : ReleaseEffect s p i x s') (ho : ∀ p, Orderly s p)
    (hi : (s.process p).engine = .running i) (hx : x ∈ (s.process p).releasing)
    (j : ClientSlot) : s.lastRead j ≤ s'.lastRead j := by
  by_cases hj : j = i
  · subst j
    rcases he.acknowledges with ⟨v, slowest, rfl, -, hread⟩ | ⟨-, -, hregistry⟩
    · have := (((ho p).calls i hi _ hx).1 v rfl).1
      omega
    · simp [hregistry]
  · exact (he.lastRead_of_ne hj).ge

theorem orphan (he : ReleaseEffect s p i x s') (ha : s.isActive j = true)
    (hnone : ∀ q, (s.process q).engine ≠ .running j) : Awaited s' :=
  .orphan j (by rw [he.engineSide.isActive, ha]) fun q => by
    rw [he.engineSide.engine]
    exact hnone q

theorem untested (he : ReleaseEffect s p i x s') (hreg : Registry s)
    (hi : (s.process p).engine = .running i) (hqp : q ≠ p) (hu : Untested s q j) :
    Awaited s' := by
  have hji : j ≠ i := by
    rintro rfl
    exact hqp (hreg.unique q p j (by rw [hu.running]; rfl) (by rw [hi]; rfl))
  refine .untested q j ⟨by rw [he.engineSide.engine, hu.running], ?_, ?_⟩
  · rw [he.lastRead_of_ne hji, he.senderSide.publish]
    exact hu.behind
  · rw [he.releasing_of_ne hqp, he.senderSide.publish]
    exact hu.compared

/-- The witness of another process stays one. -/
theorem witness (he : ReleaseEffect s p i x s') (hreg : Registry s) (ho : ∀ p, Orderly s p)
    (hi : (s.process p).engine = .running i) (hx : x ∈ (s.process p).releasing)
    (ha : Awaited s) : Awaited s' ∨ Untested s p i ∨ x.Posts s := by
  cases ha with
  | orphan j ha hnone => exact .inl (he.orphan ha hnone)
  | untested q j hu =>
    by_cases hqp : q = p
    · subst q
      obtain rfl : i = j := by
        have := hu.running
        rw [hi] at this
        cases this
        rfl
      exact .inr (.inl hu)
    · exact .inl (he.untested hreg hi hqp hu)
  | posts q j y hq hy hposts =>
    by_cases hqp : q = p
    · subst q
      rw [releasing_eq ho hx, List.mem_singleton] at hy
      exact .inr (.inr (hy ▸ hposts))
    · exact .inl (.posts q j y (by rw [he.engineSide.engine, hq])
        (by rwa [he.releasing_of_ne hqp]) (hposts.mono he.engineSide.isActive
          (he.lastRead_mono ho hi hx)))

end ReleaseEffect

namespace Watched
variable {s s' : State}

theorem carry (h : Watched s) (hparked : ∀ w, Parked s' w → Parked s w)
    (hwait : (∃ w, Parked s' w) → s'.sem.writerWait = 0 → s.sem.writerWait = 0)
    (hflag : s'.block.writerIsBlocked = s.block.writerIsBlocked)
    (hawaited : s.sem.writerWait = 0 → s.block.writerIsBlocked = true → Awaited s →
      (∃ w, Parked s' w) → s'.sem.writerWait = 0 → Awaited s') : Watched s' := by
  refine ⟨fun v w hv hw => h.unique v w (hparked v hv) (hparked w hw), fun w hw hzero => ?_⟩
  have hs := hwait ⟨w, hw⟩ hzero
  obtain ⟨hblocked, ha⟩ := h.awaited w (hparked w hw) hs
  exact ⟨by rw [hflag, hblocked], hawaited hs hblocked ha ⟨w, hw⟩ hzero⟩

theorem sender (h : Watched s) (ht : Tickets s) (ho : ∀ p, Orderly s p) {w : ℕ}
    (he : SenderEffect s w s') (hok : DecidesAlone s w) : Watched s' := by
  have hside := he.readerSide
  have hgrow (ha : Awaited s) : Awaited s' :=
    ha.grow ho hside.registry (he.publish_mono ht) (fun p => by rw [hside.process])
      (fun p x hx => by rwa [hside.process]) (fun p x hx => .inl (by rwa [hside.process] at hx))
  have hparked (pc' : SendPc) (hpc : ∀ c t, pc' ≠ .waitWriter c t) (v : ℕ)
      (hv : ∃ c t, Function.update s.sender w pc' v = .waitWriter c t) :
      v ≠ w ∧ Parked s v := by
    obtain ⟨c, t, hv⟩ := hv
    have hvw : v ≠ w := by
      rintro rfl
      exact hpc c t (by simpa using hv)
    exact ⟨hvw, c, t, by simpa [hvw] using hv⟩
  cases he with
  | stutter => exact h
  | move pc' b hm hb =>
    have falling (hnone : ∀ v, ¬ Parked s v) (huntested : ∀ c t slowest any,
        s.sender w = .scanActive c t [] slowest any → hasRoom t slowest any = false →
          ∃ p i, Untested s p i) : Watched ((s.setBlocked b).setSender w pc') := by
      have hself (v : ℕ) (hv : Parked ((s.setBlocked b).setSender w pc') v) :
          v = w ∧ ∃ c t, pc' = .waitWriter c t := by
        obtain ⟨c, t, hv⟩ := hv
        by_cases hvw : v = w
        · subst v
          exact ⟨rfl, c, t, by simpa using hv⟩
        · exact absurd ⟨c, t, by simpa [hvw] using hv⟩ (hnone v)
      refine ⟨fun v u hv hu => (hself v hv).1.trans (hself u hu).1.symm, fun v hv _ => ?_⟩
      obtain ⟨-, c, t, rfl⟩ := hself v hv
      obtain ⟨slowest, any, hpc, hr⟩ := hm.parks rfl
      obtain ⟨p, i, hu⟩ := huntested c t slowest any hpc hr
      rw [hpc] at hb
      exact ⟨hb, hgrow (.untested p i hu)⟩
    rcases hm.flag s.block.writerIsBlocked with ⟨c, t, slowest, any, hpc⟩ | ⟨c, t, hpc⟩ |
        ⟨hflag, hpc⟩
    · simp only [DecidesAlone, hpc] at hok
      refine falling hok.1 fun c' t' slowest' any' hpc' hr => hok.2 ?_
      rw [hpc] at hpc'
      cases hpc'
      exact hr
    · simp only [DecidesAlone, hpc] at hok
      refine falling hok fun c' t' slowest' any' hpc' => ?_
      rw [hpc] at hpc'
      cases hpc'
    · exact h.carry (fun v hv => (hparked pc' hpc v hv).2) (fun _ hz => hz) (hb.trans hflag)
        fun _ _ ha _ _ => hgrow ha
  | wake c t hpc hs =>
    refine h.carry (fun v hv => (hparked _ (by simp [startScan]) v hv).2) ?_ rfl
      fun _ _ ha _ _ => hgrow ha
    rintro ⟨v, hv⟩
    obtain ⟨hvw, hv⟩ := hparked _ (by simp [startScan]) v hv
    exact absurd (h.unique v w hv ⟨c, t, hpc⟩) hvw
  | acquire | draw | release | store | publish | notify =>
    exact h.carry (fun v hv => (hparked _ (by simp [startScan]) v hv).2) (fun _ hz => hz) rfl
      fun _ _ ha _ _ => hgrow ha

/-- A step of a process whose effect on the registry and the calls is small. -/
theorem process (h : Watched s) (hs : SenderSide s s') (hwait : s'.sem.writerWait = s.sem.writerWait)
    (hflag : s'.block.writerIsBlocked = s.block.writerIsBlocked)
    (hawaited : Awaited s → Awaited s') : Watched s' :=
  h.carry (fun w hw => by rwa [Parked, hs.sender] at hw) (fun _ hz => by rwa [hwait] at hz) hflag
    fun _ _ ha _ _ => hawaited ha

theorem construct (h : Watched s) {p : ℕ} (hp : (s.process p).engine = .unattached)
    (he : EngineEffect s p s') : Watched s' := by
  have hne (q : ℕ) (i : ClientSlot) (hq : (s.process q).engine = .running i) : q ≠ p := by
    rintro rfl
    rw [hp] at hq
    cases hq
  cases he with
  | move pc' hm =>
    refine h.process ⟨rfl, rfl, rfl, rfl, rfl, rfl, rfl⟩ rfl rfl fun ha => ?_
    cases ha with
    | orphan i ha hnone =>
      refine .orphan i ha fun q hq => ?_
      rw [engine_setEngine] at hq
      split_ifs at hq with hqp
      · subst hq
        cases hm
      · exact hnone q hq
    | untested q i hu =>
      have hqp := hne q i hu.running
      exact .untested q i ⟨by simpa [hqp] using hu.running, hu.behind,
        by simpa [hqp] using hu.compared⟩
    | posts q i x hq hx hposts =>
      have hqp := hne q i hq
      exact .posts q i x (by simpa [hqp] using hq) (by simpa [hqp] using hx)
        (hposts.mono (fun _ => rfl) fun _ => le_rfl)
  | lock pc' hpc => simp [hp] at hpc
  | unlock pc' hpc => simp [hp] at hpc
  | activate i hpc | processId i hpc | clear i hpc => simp [hp] at hpc
  | store i v hpc => simp [hp] at hpc

theorem destroy (h : Watched s) (hreg : Registry s) {p : ℕ} {i : ClientSlot}
    (hp : (s.process p).engine = .running i) (he : EngineEffect s p s') : Watched s' := by
  have howned : (s.process p).engine.owned = some i := by rw [hp]; rfl
  cases he with
  | move pc' hm =>
    refine h.process ⟨rfl, rfl, rfl, rfl, rfl, rfl, rfl⟩ rfl rfl fun _ => ?_
    -- the entry stays active and has lost its running process
    refine .orphan i (hreg.active p i howned) fun q hq => ?_
    rw [engine_setEngine] at hq
    split_ifs at hq with hqp
    · subst hq
      cases hm
    · exact hqp (hreg.unique q p i (by rw [hq]; rfl) howned)
  | lock pc' hpc => simp [hp] at hpc
  | unlock pc' hpc => simp [hp] at hpc
  | activate i hpc | processId i hpc | clear i hpc => simp [hp] at hpc
  | store i v hpc => simp [hp] at hpc

theorem receiver (h : Watched s) (ho : ∀ p, Orderly s p) {p : ℕ} {i : ClientSlot}
    (he : ReceiverEffect s p i s') : Watched s' := by
  have hreleasing (q : ℕ) : (s'.process q).releasing = (s.process q).releasing := by
    by_cases hqp : q = p
    · subst q
      cases he <;> simp
    · cases he <;> simp [hqp]
  have hengine := he.engineSide.engine
  have hs := he.senderSide
  have hgrow (hregistry : s'.block.clientRegistry = s.block.clientRegistry) (ha : Awaited s) :
      Awaited s' :=
    ha.grow ho hregistry hs.publish.ge hengine (fun q x hx => by rwa [hreleasing])
      (fun q x hx => .inl (by rwa [hreleasing] at hx))
  cases he with
  | move | wait | handUp => exact h.process hs rfl rfl (hgrow rfl)

theorem release (h : Watched s) (ho : ∀ p, Orderly s p) (p : ℕ) (v : View) :
    Watched (s.setProcess p { s.process p with
      held := (s.process p).held.erase v
      releasing := .testBlocked v :: (s.process p).releasing }) := by
  refine h.process ⟨rfl, rfl, rfl, rfl, rfl, rfl, rfl⟩ rfl rfl fun ha => ?_
  refine ha.grow ho rfl le_rfl (engineSide_setProcess s p _ (by rfl)).engine (fun q x hx => ?_)
    fun q x hx => ?_
  · by_cases hqp : q = p
    · subst q
      simp [hx]
    · simpa [hqp] using hx
  · by_cases hqp : q = p
    · subst q
      have hx' : x = .testBlocked v ∨ x ∈ (s.process p).releasing := by simpa using hx
      rcases hx' with rfl | hx'
      · exact .inr rfl
      · exact .inl hx'
    · exact .inl (by simpa [hqp] using hx)

theorem stop (h : Watched s) (ho : ∀ p, Orderly s p) (p : ℕ) :
    Watched (s.setProcess p { s.process p with isRunning := false }) := by
  have hreleasing (q : ℕ) : ((s.setProcess p { s.process p with isRunning := false }).process
      q).releasing = (s.process q).releasing := by
    by_cases hqp : q = p
    · subst q
      simp
    · simp [hqp]
  refine h.process ⟨rfl, rfl, rfl, rfl, rfl, rfl, rfl⟩ rfl rfl fun ha => ?_
  exact ha.grow ho rfl le_rfl (engineSide_setProcess s p _ (by rfl)).engine
    (fun q x hx => by rwa [hreleasing]) fun q x hx => .inl (by rwa [hreleasing] at hx)

/-- When the last client that had to compare reads its own acknowledgement, all
other active clients are at least as far. -/
theorem last_compares {p : ℕ} {i : ClientSlot} {v : View}
    (ho : ∀ p, Orderly s p) (hv : v.sequenceId = s.lastRead i + 1)
    (hnewest : v.sequenceId = s.block.publishSequenceId)
    (horphan : ∀ j, s.isActive j = true → ∃ q, (s.process q).engine = .running j)
    (hnone : ∀ q j, q ≠ p → ¬ Untested s q j) (hi : (s.process p).engine = .running i) :
    (ReleasePc.scanActive v (s.lastRead i) (allClients.filter (· ≠ i))
      (s.lastRead i + 1)).Posts s := by
  refine ⟨Nat.le_succ _, fun j hj ha => ?_⟩
  have hji : j ≠ i := by simpa using (List.mem_filter.mp hj).2
  obtain ⟨q, hq⟩ := horphan j ha
  have hqp : q ≠ p := by
    rintro rfl
    rw [hi] at hq
    cases hq
    exact hji rfl
  by_contra hlt
  refine hnone q j hqp ⟨hq, by omega, fun x hx u hu hne => ?_⟩
  have := (((ho q).calls j hq x hx).1 u (ReleasePc.pending_of_compared hu)).1
  omega

theorem releaser (h : Watched s) (hreg : Registry s) (ho : ∀ p, Orderly s p) {p : ℕ}
    {i : ClientSlot} {x : ReleasePc} (hi : (s.process p).engine = .running i)
    (hx : x ∈ (s.process p).releasing) (he : ReleaseEffect s p i x s')
    (hsignal : x = .signal → s'.sem.writerWait = s.sem.writerWait + 1) : Watched s' := by
  have hs := he.senderSide
  have hlist := releasing_eq ho hx
  obtain ⟨hpending, -⟩ := (ho p).calls i hi x hx
  have hother := he.witness hreg ho hi hx
  have huntested := fun q j => he.untested hreg (q := q) (j := j) hi
  have horphan := fun j => he.orphan (j := j)
  cases he with
  | signal hv | signalFail hv =>
    refine h.carry (fun w hw => by rwa [Parked, hs.sender] at hw) (fun _ hz => ?_) rfl
      fun _ _ _ _ hz => ?_ <;>
    · have := hsignal hv
      omega
  | store v slowest hv =>
    subst hv
    refine h.process hs rfl rfl fun ha => ?_
    rcases hother ha with ha | hu | hposts
    · exact ha
    · have hne := hu.compared _ hx v rfl
      have hle := (hpending v rfl).2
      refine .untested p i ⟨by simp [hi], ?_, ?_⟩
      · simpa using lt_of_le_of_ne hle hne
      · intro y hy u hyu
        cases slowest with
        | false => simp [hlist] at hy
        | true =>
          obtain rfl : y = .signal := by simpa [hlist] using hy
          cases hyu
    · have hslowest : slowest = true := hposts
      subst hslowest
      exact .posts p i .signal (by simp [hi]) (by simp) trivial
  | move x' hm =>
    have hmem : x' ∈ ((s.setReleasing p x (some x')).process p).releasing := by simp
    have hrunning : ((s.setReleasing p x (some x')).process p).engine = .running i := by simp [hi]
    refine h.carry (fun w hw => hw) (fun _ hz => hz) rfl fun _ hblocked ha _ _ => ?_
    rcases hother ha with ha | hu | hposts
    · exact ha
    · have hstill (hcomp : ∀ v, x'.compared = some v → v.sequenceId ≠
          s.block.publishSequenceId) : Awaited (s.setReleasing p x (some x')) := by
        refine .untested p i ⟨hrunning, by simpa using hu.behind, fun y hy v hv => ?_⟩
        obtain rfl : y = x' := by simpa [hlist] using hy
        exact hcomp v hv
      cases hm with
      | blocked v => exact hstill fun u hu => by cases hu
      | free v hfree => rw [hfree] at hblocked; cases hblocked
      | readMine v =>
        by_cases hnewest : v.sequenceId = s.block.publishSequenceId
        · by_cases hall : ∀ j, s.isActive j = true → ∃ q, (s.process q).engine = .running j
          · by_cases hnone : ∀ q j, q ≠ p → ¬ Untested s q j
            · have hposts := last_compares ho (hpending v rfl).1 hnewest hall hnone hi
              exact .posts p i _ hrunning hmem (hposts.mono (fun _ => rfl) fun _ => le_rfl)
            · push Not at hnone
              obtain ⟨q, j, hqp, huq⟩ := hnone
              exact huntested q j hqp huq
          · push Not at hall
            obtain ⟨j, ha, hnone⟩ := hall
            exact horphan j ha hnone
        · exact hstill fun u hu => by cases hu; exact hnewest
      | _ => exact hstill fun u hcomp => hu.compared _ hx u hcomp
    · exact .posts p i x' hrunning hmem ((hm.posts hposts).mono (fun _ => rfl) fun _ => le_rfl)

end Watched

theorem watched_of_reaches {s : State} (h : machine.Reaches KeepsWakeups s) : Watched s := by
  refine h.invariant (fun s hs => ?_) fun s a s' hr ih hs hok => ?_
  · cases hs
    have hnone (w : ℕ) : ¬ Parked initial w := by simp [Parked, initial]
    exact ⟨fun v w hv => (hnone v hv).elim, fun w hw => (hnone w hw).elim⟩
  have ho := orderly_of_reaches hr
  have hreg := registry_of_reaches hr
  cases step_effect hs with
  | send hpc he => exact ih.sender (tickets_of_reaches hr) ho he (by simp [DecidesAlone, hpc])
  | sender he => exact ih.sender (tickets_of_reaches hr) ho he hok
  | construct hpc he => exact ih.construct hpc he
  | destroy hpc he => exact ih.destroy hreg hpc he
  | engine he =>
    have hs := he.senderSide
    have hnone (w : ℕ) (hw : Parked s' w) : False := hok w (by rwa [Parked, hs.sender] at hw)
    exact ⟨fun v w hv => (hnone v hv).elim, fun w hw => (hnone w hw).elim⟩
  | stop => exact ih.stop ho _
  | receiver _ he => exact ih.receiver ho he
  | release => exact ih.release ho _ _
  | releaser hi hx he hsignal =>
    refine ih.releaser hreg ho hi hx he fun hpc => ?_
    subst hpc
    exact hsignal rfl hok

/-- Under the conditions of `KeepsWakeups` no writer sleeps on an idle bus. -/
theorem not_stuck {s : State} (h : machine.Reaches KeepsWakeups s) : ¬ Stuck s := by
  rintro ⟨⟨w, hw⟩, hwait, hidle⟩
  obtain ⟨-, hawaited⟩ := (watched_of_reaches h).awaited w hw hwait
  exact hawaited.excludes_stuck (registry_of_reaches h) (orderly_of_reaches h)
    ⟨⟨w, hw⟩, hwait, hidle⟩

def parkedTest (s : State) (w : ℕ) : Bool :=
  match s.sender w with
  | .waitWriter _ _ => true
  | _ => false

theorem parkedTest_iff {s : State} {w : ℕ} : parkedTest s w = true ↔ Parked s w := by
  simp only [parkedTest, Parked]
  split <;> simp_all

def untestedTest (s : State) (p : ℕ) : Bool :=
  match (s.process p).engine with
  | .running i => decide (s.lastRead i < s.block.publishSequenceId) &&
      (s.process p).releasing.isEmpty
  | _ => false

theorem untestedTest_ok {s : State} {p : ℕ} (h : untestedTest s p = true) :
    ∃ p i, Untested s p i := by
  simp only [untestedTest] at h
  split at h
  · rename_i i hi
    rw [Bool.and_eq_true, decide_eq_true_eq, List.isEmpty_iff] at h
    exact ⟨p, i, hi, h.1, by simp [h.2]⟩
  · cases h

def soleWriterTest (s : State) (a : Action) (_ : State) : Bool :=
  match a with
  | .send w _ => decide (w = 1)
  | .sender w _ => decide (w = 1) && match s.sender w with
    | .scanActive _ t [] slowest any => hasRoom t slowest any || untestedTest s 0
    | _ => true
  | .engine _ _ => !parkedTest s 1
  | .release p v => (s.process p).releasing.isEmpty && match (s.process p).engine with
    | .running i =>
      decide (v.sequenceId = s.lastRead i + 1 ∧ v.sequenceId ≤ s.block.publishSequenceId)
    | _ => true
  | .releaser _ .signal o => decide (o = .ok)
  | _ => true

theorem soleWriterTest_ok {s s' : State} {a : Action} (hsole : ∀ v, v ≠ 1 → s.sender v = .idle)
    (hs : machine.step s a = some s') (h : soleWriterTest s a s' = true) :
    KeepsWakeups s a s' ∧ ∀ v, v ≠ 1 → s'.sender v = .idle := by
  have hparked (w : ℕ) (hw : Parked s w) : w = 1 := by
    by_contra hne
    obtain ⟨c, t, hw⟩ := hw
    rw [hsole w hne] at hw
    cases hw
  have sole (he : SenderEffect s 1 s') (v : ℕ) (hv : v ≠ 1) : s'.sender v = .idle := by
    cases he <;> simpa [hv] using hsole v hv
  have side (hside : SenderSide s s') (v : ℕ) (hv : v ≠ 1) : s'.sender v = .idle := by
    rw [hside.sender]
    exact hsole v hv
  have he := step_effect hs
  cases a with
  | send w c =>
    obtain rfl : w = 1 := by simpa [soleWriterTest] using h
    cases he with
    | send hpc he => exact ⟨trivial, sole he⟩
  | sender w o =>
    simp only [soleWriterTest, Bool.and_eq_true, decide_eq_true_eq] at h
    obtain ⟨rfl, h⟩ := h
    cases he with
    | sender he =>
      refine ⟨?_, sole he⟩
      have hself (hpc : parkedTest s 1 = false) (v : ℕ) (hv : Parked s v) : False := by
        rw [hparked v hv, ← parkedTest_iff, hpc] at hv
        cases hv
      show DecidesAlone s 1
      simp only [DecidesAlone]
      split
      · rename_i c t slowest any hpc
        rw [hpc] at h
        refine ⟨hself (by simp [parkedTest, hpc]), fun hr => ?_⟩
        simp only [hr, Bool.false_or] at h
        exact untestedTest_ok h
      · rename_i hpc
        exact hself (by simp [parkedTest, hpc])
      · trivial
  | construct p => exact ⟨trivial, side (he.senderSide rfl)⟩
  | stop p => exact ⟨trivial, side (he.senderSide rfl)⟩
  | destroy p => exact ⟨trivial, side (he.senderSide rfl)⟩
  | receiver p o => exact ⟨trivial, side (he.senderSide rfl)⟩
  | engine p o =>
    refine ⟨fun v hv => ?_, side (he.senderSide rfl)⟩
    rw [hparked v hv, ← parkedTest_iff] at hv
    simp [soleWriterTest, hv] at h
  | release p v =>
    refine ⟨?_, side (he.senderSide rfl)⟩
    simp only [soleWriterTest, Bool.and_eq_true, List.isEmpty_iff] at h
    refine ⟨h.1, fun i hi => ?_⟩
    obtain ⟨-, h⟩ := h
    rw [hi] at h
    exact of_decide_eq_true h
  | releaser p x o =>
    refine ⟨?_, side (he.senderSide rfl)⟩
    cases x with
    | signal =>
      show o = .ok
      exact of_decide_eq_true h
    | _ => trivial

def ReceiverPc.inWait : ReceiverPc → Bool
  | .wait => true
  | _ => false

theorem ReceiverPc.inWait_iff {pc : ReceiverPc} : pc.inWait = true ↔ pc = .wait := by
  cases pc <;> simp [ReceiverPc.inWait]

/-- The reader has 31 frames to release and the writer of ticket 32 is asleep. -/
theorem not_stuck_of_full_ring : ∃ s, Parked s 1 ∧ s.sem.writerWait = 0 ∧
    s.isActive 0 = true ∧ s.lastRead 0 = 0 ∧ ¬ Stuck s := by
  obtain ⟨s, hexec, hgoal⟩ := (Option.any_eq_true (fun s => parkedTest s 1 &&
      decide (s.sem.writerWait = 0 ∧ s.isActive 0 = true ∧ s.lastRead 0 = 0))
    (machine.execIf soleWriterTest initial (registerActions 0 0 ++
      (List.replicate 31 (sendActions 1 45 emptyCall)).flatten ++ sendActions 1 22 emptyCall))).mp
    (by decide +kernel)
  rw [Bool.and_eq_true, decide_eq_true_eq, parkedTest_iff] at hgoal
  obtain ⟨hparked, hwait, hactive, hread⟩ := hgoal
  have hreaches : machine.Reaches KeepsWakeups s :=
    TransitionSystem.Machine.Reaches.execIf_of (fun _ _ _ => soleWriterTest_ok) (.init rfl)
      (fun _ _ => rfl) hexec
  exact ⟨s, hparked, hwait, hactive, hread, not_stuck hreaches⟩

def lateFlagRun : List Action :=
  registerActions 0 0 ++ (List.replicate 31 (sendActions 1 45 emptyCall)).flatten ++
    sendActions 1 21 emptyCall ++
    (List.range' 1 31).flatMap (fun k => receiveActions 0 ++ releaseActions 0 k) ++
    [.receiver 0 .ok, .sender 1 .ok]

theorem stuck_lateFlagRun : ∃ s, machine.exec initial lateFlagRun = some s ∧
    machine.Reachable s ∧ Stuck s := by
  obtain ⟨s, hexec, hs, hgoal⟩ := reachable_initial.exec_any lateFlagRun
    (fun s => parkedTest s 1 && (s.process 0).engine.runsIn 0 &&
      (s.process 0).receiver.inWait && decide (s.sem.writerWait = 0 ∧ (∀ i, s.isActive i = true → i = 0) ∧
        s.sem.client 0 = 0 ∧ (s.process 0).releasing = [] ∧ s.block.publishSequenceId = 31 ∧
        s.history.released 0 = List.range' 1 31)) (by decide +kernel)
  rw [Bool.and_eq_true, Bool.and_eq_true, Bool.and_eq_true, decide_eq_true_eq, parkedTest_iff,
    EnginePc.runsIn_iff, ReceiverPc.inWait_iff] at hgoal
  obtain ⟨⟨⟨hparked, hengine⟩, hreceiver⟩, hwait, hsole, hsem, hreleasing, hpublish, hreleased⟩ :=
    hgoal
  refine ⟨s, hexec, hs, ⟨1, hparked⟩, hwait, fun j hj => ?_⟩
  obtain rfl := hsole j hj
  refine ⟨0, hengine, hreceiver, hsem, hreleasing, fun k hk hle => ?_⟩
  rw [hreleased, List.mem_range'_1]
  omega

end CommunicationAPI.ShmEngine
