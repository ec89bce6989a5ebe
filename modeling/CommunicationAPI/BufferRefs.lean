import CommunicationAPI.Machine
import CommunicationAPI.RefCount
import Mathlib.Data.UInt

/-!
# The reference counts of `Buffer`

Variables of type `Buffer` and the control blocks they share. The constructors,
assignments and the destructor update five fields and one counter. The counter is
an `int`: fewer than 2^31 variables own one block at a time.
-/

namespace CommunicationAPI.BufferRefs
open RefCount TransitionSystem

/-- A variable. Blocks are numbered in the order of their allocation; a view points to
data outside all blocks. -/
structure Buffer where
  block : Option ℕ
  viewPtr : Option ℕ
  isView : Bool
  isQuadrantChange : Bool
  sequenceId : UInt64

namespace Buffer

def ofBlock (block : ℕ) : Buffer := ⟨some block, none, false, false, 0⟩

def ofView (dataPtr : Option ℕ) (seqId : UInt64) : Buffer := ⟨none, dataPtr, true, false, seqId⟩

def empty : Buffer := ⟨none, none, false, false, 0⟩

def invalidated (buf : Buffer) : Buffer := { buf with block := none, viewPtr := none }

/-- `release`: the pointer stays set when the count stays positive. -/
def release (buf : Buffer) (h : Heap ℕ) : Buffer × Heap ℕ :=
  match buf.block with
  | none => (buf, h)
  | some b => ({ buf with block := if h.refCount b - 1 = 0 then none else some b }, h.drop b)

def share (buf : Buffer) (h : Heap ℕ) : Heap ℕ := if buf.isView then h else h.share buf.block

end Buffer

structure State where
  live : Finset ℕ
  vars : ℕ → Buffer
  heap : Heap ℕ
  next : ℕ

namespace State
variable (s : State) (x y : ℕ)

def setVar (buf : Buffer) : State := { s with vars := Function.update s.vars x buf }

def declare (buf : Buffer) : State :=
  { s with live := insert x s.live, vars := Function.update s.vars x buf }

def release : State :=
  { s.setVar x ((s.vars x).release s.heap).1 with heap := ((s.vars x).release s.heap).2 }

def copyFrom : State := { s.setVar x (s.vars y) with heap := (s.vars y).share s.heap }

def moveFrom : State := (s.setVar x (s.vars y)).setVar y (s.vars y).invalidated

end State

inductive Op
  | alloc (x : ℕ)
  | view (x : ℕ) (dataPtr : Option ℕ) (seqId : UInt64)
  | default (x : ℕ)
  | copyConstruct (x y : ℕ)
  | moveConstruct (x y : ℕ)
  | copyAssign (x y : ℕ)
  | moveAssign (x y : ℕ)
  | markAsQuadrantChange (x : ℕ)
  | destroy (x : ℕ)

/-- A constructor needs a variable that does not exist yet, every other operation
variables that do. A variable under construction holds nothing. -/
def step (s : State) : Op → Option State
  | .alloc x =>
    if x ∉ s.live then
      some { s.declare x (.ofBlock s.next) with heap := s.heap.new s.next, next := s.next + 1 }
    else none
  | .view x dataPtr seqId =>
    if x ∉ s.live then some (s.declare x (.ofView dataPtr seqId)) else none
  | .default x => if x ∉ s.live then some (s.declare x .empty) else none
  | .copyConstruct x y =>
    if x ∉ s.live ∧ y ∈ s.live then some ((s.declare x .empty).copyFrom x y) else none
  | .moveConstruct x y =>
    if x ∉ s.live ∧ y ∈ s.live then some ((s.declare x .empty).moveFrom x y) else none
  | .copyAssign x y =>
    if x ∈ s.live ∧ y ∈ s.live then
      if x ≠ y then some ((s.release x).copyFrom x y) else some s
    else none
  | .moveAssign x y =>
    if x ∈ s.live ∧ y ∈ s.live then
      if x ≠ y then some ((s.release x).moveFrom x y) else some s
    else none
  | .markAsQuadrantChange x =>
    if x ∈ s.live then some (s.setVar x { s.vars x with isQuadrantChange := true }) else none
  | .destroy x =>
    if x ∈ s.live then some { s.release x with live := s.live.erase x } else none

def start : State := ⟨∅, fun _ => .empty, ⟨fun _ => 0, ∅, []⟩, 0⟩

def machine : Machine State Op where
  init s := s = start
  step := step

def State.owner (s : State) (x : ℕ) : Option ℕ := (s.vars x).block

/-- The heap is right for the variables when they own what `owner` says. -/
structure Sound (s : State) (owner : ℕ → Option ℕ) : Prop where
  counted : Counted s.live owner s.heap
  known : ∀ b, s.heap.Known b ↔ b < s.next

def ViewsEmpty (s : State) : Prop := ∀ x ∈ s.live, (s.vars x).isView = true → s.owner x = none

structure Consistent (s : State) : Prop where
  sound : Sound s s.owner
  views : ViewsEmpty s

section Primitives

variable {s : State} {owner : ℕ → Option ℕ} {x y : ℕ}

theorem owner_setVar (s : State) (x : ℕ) (buf : Buffer) :
    (s.setVar x buf).owner = Function.update s.owner x buf.block :=
  Function.comp_update Buffer.block s.vars x buf

theorem release_heap (s : State) (x : ℕ) : (s.release x).heap = s.heap.release (s.owner x) := by
  unfold State.release Buffer.release State.owner
  cases (s.vars x).block <;> rfl

theorem release_vars_of_ne (s : State) {x z : ℕ} (hne : z ≠ x) :
    (s.release x).vars z = s.vars z :=
  Function.update_of_ne hne _ _

/-- A variable that receives no view with a block leaves the views without one. -/
theorem ViewsEmpty.update {t : State} {buf : Buffer} (hviews : ViewsEmpty s)
    (hvars : t.vars = Function.update s.vars x buf) (hlive : ∀ z ∈ t.live, z ≠ x → z ∈ s.live)
    (hbuf : buf.isView = true → buf.block = none) : ViewsEmpty t := by
  intro z hz hview
  unfold State.owner
  rw [hvars] at hview ⊢
  rcases eq_or_ne z x with rfl | hne
  · rw [Function.update_self] at hview ⊢
    exact hbuf hview
  · rw [Function.update_of_ne hne] at hview ⊢
    exact hviews z (hlive z hz hne) hview

theorem share_heap {buf : Buffer} (hview : buf.isView = true → buf.block = none) (h : Heap ℕ) :
    buf.share h = h.share buf.block := by
  unfold Buffer.share
  by_cases hv : buf.isView = true
  · rw [if_pos hv, hview hv]
    rfl
  · rw [if_neg hv]

theorem Sound.release (hs : Sound s s.owner) (hx : x ∈ s.live) :
    Sound (s.release x) (Function.update s.owner x none) := by
  refine ⟨?_, fun b => ?_⟩
  · rw [release_heap]
    exact hs.counted.release hx
  · rw [release_heap, Heap.known_release _ (hs.counted.alive x hx)]
    exact hs.known b

theorem Sound.copyFrom (hs : Sound s owner) (hx : x ∈ s.live) (hnone : owner x = none)
    (hy : y ∈ s.live) (howner : owner y = s.owner y)
    (hview : (s.vars y).isView = true → s.owner y = none) :
    Sound (s.copyFrom x y) (Function.update owner x (s.owner y)) := by
  have hheap : (s.copyFrom x y).heap = s.heap.share (s.owner y) := share_heap hview s.heap
  refine ⟨?_, fun b => ?_⟩
  · rw [hheap, ← howner]
    exact hs.counted.share hx hnone hy
  · rw [hheap, Heap.known_share]
    exact hs.known b

theorem Sound.moveFrom (hs : Sound s owner) (hx : x ∈ s.live) (hnone : owner x = none)
    (hy : y ∈ s.live) (howner : owner y = s.owner y) (hne : x ≠ y) :
    Sound (s.moveFrom x y) (Function.update (Function.update owner x (s.owner y)) y none) := by
  refine ⟨?_, hs.known⟩
  rw [← howner]
  exact hs.counted.transfer hx hnone hy hne

/-- A variable that does not exist yet may be declared with no block. -/
theorem Sound.declare (hs : Sound s s.owner) (hx : x ∉ s.live) {buf : Buffer}
    (hbuf : buf.block = none) : Sound (s.declare x buf) (s.declare x buf).owner := by
  have howner : (s.declare x buf).owner = Function.update s.owner x none := by
    rw [← hbuf]
    exact owner_setVar s x buf
  rw [howner]
  exact ⟨hs.counted.construct hx, hs.known⟩

theorem update_owner_release (s : State) (x : ℕ) (o : Option ℕ) :
    Function.update (s.release x).owner x o = Function.update s.owner x o := by
  funext z
  rcases eq_or_ne z x with rfl | hne
  · rw [Function.update_self, Function.update_self]
  · rw [Function.update_of_ne hne, Function.update_of_ne hne]
    exact congrArg Buffer.block (release_vars_of_ne s hne)

/-- A variable that holds a block at most for itself receives a copy. -/
theorem Consistent.copy (hs : Sound s (Function.update s.owner x none)) (hviews : ViewsEmpty s)
    (hx : x ∈ s.live) (hy : y ∈ s.live) (hne : x ≠ y) : Consistent (s.copyFrom x y) := by
  have howner : (s.copyFrom x y).owner = Function.update s.owner x (s.owner y) :=
    owner_setVar s x (s.vars y)
  refine ⟨?_, hviews.update rfl (fun z hz _ => hz) (hviews y hy)⟩
  rw [howner, ← Function.update_idem (a := x) none]
  exact hs.copyFrom hx (Function.update_self x none s.owner) hy
    (Function.update_of_ne hne.symm _ _) (hviews y hy)

theorem Consistent.move (hs : Sound s (Function.update s.owner x none)) (hviews : ViewsEmpty s)
    (hx : x ∈ s.live) (hy : y ∈ s.live) (hne : x ≠ y) : Consistent (s.moveFrom x y) := by
  have howner : (s.moveFrom x y).owner =
      Function.update (Function.update s.owner x (s.owner y)) y none := by
    unfold State.moveFrom
    rw [owner_setVar, owner_setVar]
    rfl
  have hcopied : ViewsEmpty (s.setVar x (s.vars y)) :=
    hviews.update rfl (fun z hz _ => hz) (hviews y hy)
  refine ⟨?_, hcopied.update rfl (fun z hz _ => hz) fun _ => rfl⟩
  rw [howner, ← Function.update_idem (a := x) none]
  exact hs.moveFrom hx (Function.update_self x none s.owner) hy
    (Function.update_of_ne hne.symm _ _) hne

theorem release_isView (buf : Buffer) (h : Heap ℕ)
    (hview : buf.isView = true → buf.block = none) :
    (buf.release h).1.isView = true → (buf.release h).1.block = none := by
  unfold Buffer.release
  cases hb : buf.block with
  | none => exact fun _ => hb
  | some b =>
    intro hv
    rw [hview hv] at hb
    cases hb

theorem ViewsEmpty.release (hviews : ViewsEmpty s) (hx : x ∈ s.live) :
    ViewsEmpty (s.release x) :=
  hviews.update rfl (fun _ hz _ => hz) (release_isView _ s.heap (hviews x hx))

theorem Consistent.declare (hs : Consistent s) (hx : x ∉ s.live) {buf : Buffer}
    (hbuf : buf.block = none) : Consistent (s.declare x buf) where
  sound := hs.sound.declare hx hbuf
  views := hs.views.update rfl (fun _ => Finset.mem_of_mem_insert_of_ne) fun _ => hbuf

/-- After a release the variable counts as one that owns nothing, whatever its pointer. -/
theorem Consistent.release (hs : Consistent s) (hx : x ∈ s.live) :
    Sound (s.release x) (Function.update (s.release x).owner x none) ∧
      ViewsEmpty (s.release x) := by
  rw [update_owner_release]
  exact ⟨hs.sound.release hx, hs.views.release hx⟩

theorem Consistent.declared (hs : Consistent s) (hx : x ∉ s.live) :
    Sound (s.declare x .empty) (Function.update (s.declare x .empty).owner x none) ∧
      ViewsEmpty (s.declare x .empty) := by
  have hempty : Buffer.empty.block = none := rfl
  have hdeclared := hs.declare hx hempty
  have hnone : (s.declare x .empty).owner x = none := by
    have howner : (s.declare x .empty).owner = Function.update s.owner x none :=
      owner_setVar s x .empty
    rw [howner, Function.update_self]
  refine ⟨?_, hdeclared.views⟩
  rw [← hnone, Function.update_eq_self]
  exact hdeclared.sound

theorem Consistent.alloc (hs : Consistent s) (hx : x ∉ s.live) :
    Consistent { s.declare x (.ofBlock s.next) with
      heap := s.heap.new s.next, next := s.next + 1 } := by
  have hdeclared := hs.declared hx
  have hfresh : ¬ s.heap.Known s.next := fun h => Nat.lt_irrefl _ ((hs.sound.known _).mp h)
  have howner : (s.declare x (.ofBlock s.next)).owner =
      Function.update (Function.update (s.declare x .empty).owner x none) x (some s.next) := by
    have hempty : (s.declare x .empty).owner = Function.update s.owner x none :=
      owner_setVar s x .empty
    rw [hempty, Function.update_idem, Function.update_idem]
    exact owner_setVar s x (.ofBlock s.next)
  have hself : x ∈ (s.declare x .empty).live := Finset.mem_insert_self x s.live
  refine ⟨⟨?_, fun b => ?_⟩, ?_⟩
  · change Counted _ (s.declare x (.ofBlock s.next)).owner _
    rw [howner]
    exact hdeclared.1.counted.new hself (by rw [Function.update_self])
      (fun h => hfresh (.inl h)) fun h => hfresh (.inr h)
  · change (s.heap.new s.next).Known b ↔ b < s.next + 1
    rw [Heap.known_new, hs.sound.known]
    omega
  · exact hs.views.update rfl (fun _ => Finset.mem_of_mem_insert_of_ne) fun hview => by cases hview

theorem Consistent.mark (hs : Consistent s) (hx : x ∈ s.live) :
    Consistent (s.setVar x { s.vars x with isQuadrantChange := true }) := by
  have howner : (s.setVar x { s.vars x with isQuadrantChange := true }).owner = s.owner := by
    rw [owner_setVar]
    exact Function.update_eq_self x s.owner
  refine ⟨?_, hs.views.update rfl (fun _ hz _ => hz) (hs.views x hx)⟩
  rw [howner]
  exact ⟨hs.sound.counted, hs.sound.known⟩

theorem Consistent.destroy (hs : Consistent s) (hx : x ∈ s.live) :
    Consistent { s.release x with live := s.live.erase x } := by
  have hreleased := hs.release hx
  have herased := hreleased.1.counted.erase hx (by rw [Function.update_self])
  refine ⟨⟨herased.congr fun z hz => ?_, hreleased.1.known⟩, fun z hz => ?_⟩
  · exact Function.update_of_ne (Finset.ne_of_mem_erase hz) _ _
  · exact hreleased.2 z (Finset.mem_of_mem_erase hz)

end Primitives

theorem consistent_start : Consistent start := by
  have hsound : Sound start start.owner := by
    refine ⟨⟨?_, ?_, ?_, fun b => Nat.zero_le 1, ?_⟩, fun b => ?_⟩
    · exact fun b hb => absurd hb (Finset.notMem_empty b)
    · exact fun b hb => absurd hb (Finset.notMem_empty b)
    · exact fun x hx => absurd hx (Finset.notMem_empty x)
    · exact fun b hb => absurd hb List.not_mem_nil
    · refine ⟨?_, fun h => absurd h (Nat.not_lt_zero b)⟩
      rintro (hb | hb)
      · exact absurd hb (Finset.notMem_empty b)
      · exact absurd hb List.not_mem_nil
  exact ⟨hsound, fun x hx => absurd hx (Finset.notMem_empty x)⟩

theorem consistent_step {s s' : State} {op : Op} (hs : Consistent s) (h : step s op = some s') :
    Consistent s' := by
  cases op with
  | alloc x =>
    simp only [step] at h
    split_ifs at h with hx
    cases h
    exact hs.alloc hx
  | view x dataPtr seqId =>
    simp only [step] at h
    split_ifs at h with hx
    cases h
    exact hs.declare hx rfl
  | default x =>
    simp only [step] at h
    split_ifs at h with hx
    cases h
    exact hs.declare hx rfl
  | copyConstruct x y =>
    simp only [step] at h
    split_ifs at h with hxy
    cases h
    exact .copy (hs.declared hxy.1).1 (hs.declared hxy.1).2 (Finset.mem_insert_self x _)
      (Finset.mem_insert_of_mem hxy.2) (ne_of_mem_of_not_mem hxy.2 hxy.1).symm
  | moveConstruct x y =>
    simp only [step] at h
    split_ifs at h with hxy
    cases h
    exact .move (hs.declared hxy.1).1 (hs.declared hxy.1).2 (Finset.mem_insert_self x _)
      (Finset.mem_insert_of_mem hxy.2) (ne_of_mem_of_not_mem hxy.2 hxy.1).symm
  | copyAssign x y =>
    simp only [step] at h
    split_ifs at h with hxy hne
    · cases h
      exact .copy (hs.release hxy.1).1 (hs.release hxy.1).2 hxy.1 hxy.2 hne
    · cases h
      exact hs
  | moveAssign x y =>
    simp only [step] at h
    split_ifs at h with hxy hne
    · cases h
      exact .move (hs.release hxy.1).1 (hs.release hxy.1).2 hxy.1 hxy.2 hne
    · cases h
      exact hs
  | markAsQuadrantChange x =>
    simp only [step] at h
    split_ifs at h with hx
    cases h
    exact hs.mark hx
  | destroy x =>
    simp only [step] at h
    split_ifs at h with hx
    cases h
    exact hs.destroy hx

theorem consistent_of_reachable {s : State} (hs : machine.Reachable s) : Consistent s := by
  refine hs.invariant ?_ ?_
  · rintro s rfl
    exact consistent_start
  · intro s op s' _ hP hstep _
    exact consistent_step hP hstep

def heapAfter (s : State) : Op → Heap ℕ
  | .alloc _ => s.heap.new s.next
  | .view _ _ _ | .default _ | .moveConstruct _ _ | .markAsQuadrantChange _ => s.heap
  | .copyConstruct _ y => (s.vars y).share s.heap
  | .copyAssign x y =>
    if x ≠ y then (s.vars y).share (s.heap.release (s.owner x)) else s.heap
  | .moveAssign x y => if x ≠ y then s.heap.release (s.owner x) else s.heap
  | .destroy x => s.heap.release (s.owner x)

theorem step_heap {s s' : State} {op : Op} (h : step s op = some s') :
    s'.heap = heapAfter s op := by
  cases op with
  | copyConstruct x y =>
    simp only [step] at h
    split_ifs at h with hxy
    cases h
    have hvars : (s.declare x .empty).vars y = s.vars y :=
      Function.update_of_ne (ne_of_mem_of_not_mem hxy.2 hxy.1) _ _
    change ((s.declare x .empty).vars y).share s.heap = (s.vars y).share s.heap
    rw [hvars]
  | copyAssign x y =>
    simp only [step] at h
    simp only [heapAfter]
    split_ifs at h with hxy hne
    · cases h
      rw [if_pos hne]
      change ((s.release x).vars y).share (s.release x).heap = _
      rw [release_vars_of_ne s (Ne.symm hne), release_heap]
    · cases h
      rw [if_neg hne]
  | moveAssign x y =>
    simp only [step] at h
    simp only [heapAfter]
    split_ifs at h with hxy hne
    · cases h
      rw [if_pos hne]
      exact release_heap s x
    · cases h
      rw [if_neg hne]
  | destroy x =>
    simp only [step] at h
    split_ifs at h with hx
    cases h
    exact release_heap s x
  | alloc x | view x dataPtr seqId | default x | moveConstruct x y | markAsQuadrantChange x =>
    simp only [step] at h
    split_ifs at h
    cases h
    rfl

def Op.operands : Op → List ℕ
  | .alloc _ | .view _ _ _ | .default _ => []
  | .copyConstruct _ y | .moveConstruct _ y => [y]
  | .copyAssign x y | .moveAssign x y => [x, y]
  | .markAsQuadrantChange x | .destroy x => [x]

theorem mem_live_of_step {s s' : State} {op : Op} (h : step s op = some s') :
    ∀ x ∈ op.operands, x ∈ s.live := by
  cases op with
  | alloc x | view x dataPtr seqId | default x => exact fun y hy => absurd hy List.not_mem_nil
  | copyConstruct x y | moveConstruct x y =>
    simp only [step] at h
    split_ifs at h with hxy
    exact List.forall_mem_singleton.mpr hxy.2
  | copyAssign x y | moveAssign x y =>
    simp only [step] at h
    split_ifs at h with hxy hne
    · exact List.forall_mem_cons.mpr ⟨hxy.1, List.forall_mem_singleton.mpr hxy.2⟩
    · exact List.forall_mem_cons.mpr ⟨hxy.1, List.forall_mem_singleton.mpr hxy.2⟩
  | markAsQuadrantChange x | destroy x =>
    simp only [step] at h
    split_ifs at h with hx
    exact List.forall_mem_singleton.mpr hx

/-- A copy of a view takes nothing. -/
theorem share_view {s : State} {y : ℕ} (hview : (s.vars y).isView = true) (h : Heap ℕ) :
    (s.vars y).share h = h := if_pos hview

/-- An operation on views alone leaves every counter as it is. -/
theorem heap_of_views {s s' : State} (hs : Consistent s) {op : Op} (h : step s op = some s')
    (halloc : ∀ x, op ≠ .alloc x) (hviews : ∀ x ∈ op.operands, (s.vars x).isView = true) :
    s'.heap = s.heap := by
  have hnone : ∀ x ∈ op.operands, s.heap.release (s.owner x) = s.heap := fun x hx => by
    rw [hs.views x (mem_live_of_step h x hx) (hviews x hx)]
    rfl
  rw [step_heap h]
  cases op with
  | alloc x => exact absurd rfl (halloc x)
  | view x dataPtr seqId | default x | moveConstruct x y | markAsQuadrantChange x => rfl
  | copyConstruct x y => exact share_view (hviews y (List.mem_singleton_self y)) _
  | copyAssign x y =>
    simp only [heapAfter]
    split_ifs
    · rw [hnone x List.mem_cons_self,
        share_view (hviews y (List.mem_cons_of_mem x (List.mem_singleton_self y)))]
    · rfl
  | moveAssign x y =>
    simp only [heapAfter]
    split_ifs
    · exact hnone x List.mem_cons_self
    · rfl
  | destroy x => exact hnone x (List.mem_singleton_self x)

/-- A view assigned to a variable does to the heap what the end of that variable does. -/
theorem heap_of_assigned_view {s s' t : State} {x y : ℕ} (hne : x ≠ y)
    (hview : (s.vars y).isView = true)
    (h : step s (.copyAssign x y) = some s' ∨ step s (.moveAssign x y) = some s')
    (hend : step s (.destroy x) = some t) : s'.heap = t.heap := by
  rw [step_heap hend]
  rcases h with h | h
  · rw [step_heap h]
    simp only [heapAfter]
    rw [if_pos hne, share_view hview]
  · rw [step_heap h]
    simp only [heapAfter]
    rw [if_pos hne]

/-- The number of live owning variables that refer to block `b`. -/
def State.owning (s : State) (b : ℕ) : ℕ :=
  {x ∈ s.live | (s.vars x).isView = false ∧ (s.vars x).block = some b}.card

theorem Consistent.owning_eq {s : State} (hs : Consistent s) (b : ℕ) :
    s.owning b = owners s.live s.owner b := by
  unfold State.owning owners
  congr 1
  refine Finset.filter_congr fun x hx => ?_
  constructor
  · exact And.right
  · intro hblock
    refine ⟨Bool.eq_false_iff.mpr fun hview => ?_, hblock⟩
    rw [hs.views x hx hview] at hblock
    cases hblock

/-- In every state of every run the counter of a block that exists is the number of
owning buffers that refer to it, which is positive; a block has been destroyed once
if that number is zero and not at all otherwise; no buffer refers to a destroyed
block; and views leave the counters alone. -/
theorem refCount_eq_owning {s : State} (hs : machine.Reachable s) :
    (∀ b ∈ s.heap.live, s.heap.refCount b = s.owning b ∧ 0 < s.owning b) ∧
      (∀ b < s.next, s.heap.destroyed.count b = if s.owning b = 0 then 1 else 0) ∧
      (∀ x ∈ s.live, ∀ b, (s.vars x).block = some b →
        b ∈ s.heap.live ∧ b ∉ s.heap.destroyed) ∧
      (∀ op s', step s op = some s' → (∀ x, op ≠ .alloc x) →
        (∀ x ∈ op.operands, (s.vars x).isView = true) → s'.heap = s.heap) ∧
      ∀ x y s' t, x ≠ y → (s.vars y).isView = true →
        (step s (.copyAssign x y) = some s' ∨ step s (.moveAssign x y) = some s') →
        step s (.destroy x) = some t → s'.heap = t.heap := by
  have hc := consistent_of_reachable hs
  have hcounted := hc.sound.counted
  refine ⟨fun b hb => ?_, fun b hb => ?_, fun x hx b hxb => ?_, ?_, ?_⟩
  · rw [hc.owning_eq]
    exact ⟨hcounted.count b hb, hcounted.positive b hb⟩
  · rw [hc.owning_eq]
    rcases (hc.sound.known b).mpr hb with hlive | hdead
    · rw [if_neg (hcounted.positive b hlive).ne']
      exact List.count_eq_zero_of_not_mem fun hdead => hcounted.dead b hdead hlive
    · rw [if_pos (hcounted.owners_of_destroyed hdead)]
      exact Nat.le_antisymm (hcounted.once b) (List.one_le_count_iff.mpr hdead)
  · have hlive := hcounted.alive x hx b hxb
    exact ⟨hlive, fun hdead => hcounted.dead b hdead hlive⟩
  · exact fun op s' h halloc hviews => heap_of_views hc h halloc hviews
  · exact fun x y s' t hne hview h hend => heap_of_assigned_view hne hview h hend

def sharingRun : List Op :=
  [.alloc 0, .copyConstruct 1 0, .view 2 (some 7) 3, .moveConstruct 3 1, .copyAssign 1 3,
    .copyAssign 0 2, .moveAssign 3 3]

theorem refCount_eq_owning_of_sharingRun :
    ∃ s, machine.exec start sharingRun = some s ∧ s.owning 0 = 2 ∧
      s.heap.refCount 0 = s.owning 0 := by
  obtain ⟨s, hs, hreachable, hgoal⟩ := Machine.Reachable.exec_any (M := machine)
    (s := start) (.init rfl) sharingRun
    (fun s => decide (0 ∈ s.heap.live ∧ s.owning 0 = 2)) (by decide)
  obtain ⟨hlive, htwo⟩ := of_decide_eq_true hgoal
  exact ⟨s, hs, htwo, ((refCount_eq_owning hreachable).1 0 hlive).1⟩

end CommunicationAPI.BufferRefs
