import Mathlib.Data.List.Sort
import Mathlib.Logic.Function.Basic

/-!
# Ordered multimaps with stable iterators

The nodes of a multimap in key order. An iterator is the number of a node;
numbers are never used again, so an iterator is live as long as its node is
there. Erasing through a dead iterator has no meaning.
-/

structure Multimap.Node (κ α : Type*) where
  iterator : ℕ
  key : κ
  value : α
  deriving DecidableEq

structure Multimap (κ α : Type*) [LinearOrder κ] where
  nodes : List (Multimap.Node κ α)
  nextIterator : ℕ
  nodup : (nodes.map Multimap.Node.iterator).Nodup
  lt_next : ∀ n ∈ nodes, n.iterator < nextIterator
  sorted : nodes.Pairwise fun n n' => n.key ≤ n'.key

namespace Multimap
variable {κ α : Type*} [LinearOrder κ] (m : Multimap κ α)

def empty : Multimap κ α := ⟨[], 0, List.nodup_nil, by simp, .nil⟩

/-- Insertion behind all nodes whose key is not greater. -/
def insertNode (n : Node κ α) (l : List (Node κ α)) : List (Node κ α) :=
  l.orderedInsert (fun a b => a.key < b.key) n

theorem insertNode_perm (n : Node κ α) (l : List (Node κ α)) : (insertNode n l).Perm (n :: l) :=
  List.perm_orderedInsert _ n l

theorem insertNode_sorted (n : Node κ α) {l : List (Node κ α)}
    (h : l.Pairwise fun n n' => n.key ≤ n'.key) :
    (insertNode n l).Pairwise fun n n' => n.key ≤ n'.key := by
  induction l with
  | nil => simp [insertNode]
  | cons b l ih =>
      obtain ⟨hb, hl⟩ := List.pairwise_cons.mp h
      unfold insertNode
      rw [List.orderedInsert_cons]
      split_ifs with hlt
      · apply List.Pairwise.cons
        · intro c hc
          rcases List.mem_cons.mp hc with rfl | hc
          · exact hlt.le
          · exact hlt.le.trans (hb c hc)
        · exact h
      · apply List.Pairwise.cons
        · intro c hc
          rcases List.mem_cons.mp ((insertNode_perm n l).mem_iff.mp hc) with rfl | hc
          · exact not_lt.mp hlt
          · exact hb c hc
        · exact ih hl

/-- `emplace`. The iterator of the new node is the old `nextIterator`. -/
def emplace (k : κ) (v : α) : Multimap κ α where
  nodes := insertNode ⟨m.nextIterator, k, v⟩ m.nodes
  nextIterator := m.nextIterator + 1
  nodup := by
    rw [((insertNode_perm _ _).map _).nodup_iff, List.map_cons, List.nodup_cons]
    constructor
    · intro hmem
      obtain ⟨n, hn, heq⟩ := List.mem_map.mp hmem
      exact absurd (m.lt_next n hn) (heq ▸ lt_irrefl _)
    · exact m.nodup
  lt_next := by
    intro n hn
    rcases List.mem_cons.mp ((insertNode_perm _ _).mem_iff.mp hn) with rfl | hn
    · exact Nat.lt_succ_self _
    · exact (m.lt_next n hn).trans (Nat.lt_succ_self _)
  sorted := insertNode_sorted _ m.sorted

def erase (it : ℕ) : Option (Multimap κ α) :=
  if it ∈ m.nodes.map Node.iterator then
    some {
      nodes := m.nodes.filter fun n => n.iterator ≠ it
      nextIterator := m.nextIterator
      nodup := m.nodup.sublist (List.filter_sublist.map _)
      lt_next := fun n hn => m.lt_next n (List.mem_of_mem_filter hn)
      sorted := m.sorted.sublist List.filter_sublist }
  else none

def begin : Option (Node κ α) := m.nodes.head?

variable {m} {m' : Multimap κ α} {n n' : Node κ α} {it : ℕ}

theorem mem_emplace {k : κ} {v : α} :
    n ∈ (m.emplace k v).nodes ↔ n = ⟨m.nextIterator, k, v⟩ ∨ n ∈ m.nodes := by
  unfold emplace
  rw [(insertNode_perm _ _).mem_iff, List.mem_cons]

theorem erase_of_mem (hn : n ∈ m.nodes) : ∃ m', m.erase n.iterator = some m' := by
  unfold erase
  rw [if_pos (List.mem_map_of_mem hn)]
  exact ⟨_, rfl⟩

theorem mem_erase (h : m.erase it = some m') : n ∈ m'.nodes ↔ n ∈ m.nodes ∧ n.iterator ≠ it := by
  unfold erase at h
  split_ifs at h
  cases h
  simp

theorem mem_of_begin (h : m.begin = some n) : n ∈ m.nodes := List.mem_of_head? h

/-- An iterator denotes one node. -/
theorem eq_of_iterator_eq (hn : n ∈ m.nodes) (hn' : n' ∈ m.nodes)
    (h : n.iterator = n'.iterator) : n = n' := List.inj_on_of_nodup_map m.nodup hn hn' h

/-- The lookup holds the iterator of each node under the node's value, and nothing else. -/
def Indexed (m : Multimap κ α) (lookup : α → Option ℕ) : Prop :=
  ∀ v it, lookup v = some it ↔ ∃ n ∈ m.nodes, n.iterator = it ∧ n.value = v

variable {lookup : α → Option ℕ} {v : α}

theorem Indexed.of_mem (h : Indexed m lookup) (hn : n ∈ m.nodes) :
    lookup n.value = some n.iterator := (h _ _).mpr ⟨n, hn, rfl, rfl⟩

theorem Indexed.unique (h : Indexed m lookup) (hv : lookup v = some it) :
    ∃! n, n ∈ m.nodes ∧ n.value = v := by
  obtain ⟨n, hn, -, hvalue⟩ := (h v it).mp hv
  refine ⟨n, ⟨hn, hvalue⟩, ?_⟩
  rintro n' ⟨hn', hvalue'⟩
  apply eq_of_iterator_eq hn' hn
  have hfirst := h.of_mem hn
  have hsecond := h.of_mem hn'
  rw [hvalue] at hfirst
  rw [hvalue', hfirst] at hsecond
  exact (Option.some.inj hsecond).symm

variable [DecidableEq α]

theorem Indexed.emplace (h : Indexed m lookup) (hv : lookup v = none) (k : κ) :
    Indexed (m.emplace k v) (Function.update lookup v (some m.nextIterator)) := by
  intro v' it
  by_cases hvv : v' = v
  · subst v'
    rw [Function.update_self]
    constructor
    · intro hit
      exact ⟨_, mem_emplace.mpr (.inl rfl), Option.some.inj hit, rfl⟩
    · rintro ⟨n, hn, rfl, hvalue⟩
      rcases mem_emplace.mp hn with rfl | hn
      · rfl
      · have hsome := h.of_mem hn
        rw [hvalue, hv] at hsome
        cases hsome
  · rw [Function.update_of_ne hvv, h v' it]
    constructor
    · rintro ⟨n, hn, hit, hvalue⟩
      exact ⟨n, mem_emplace.mpr (.inr hn), hit, hvalue⟩
    · rintro ⟨n, hn, hit, hvalue⟩
      rcases mem_emplace.mp hn with rfl | hn
      · exact absurd hvalue.symm hvv
      · exact ⟨n, hn, hit, hvalue⟩

theorem Indexed.erase (h : Indexed m lookup) (hv : lookup v = some it) :
    ∃ m', m.erase it = some m' ∧ Indexed m' (Function.update lookup v none) := by
  obtain ⟨n, hn, rfl, hvalue⟩ := (h v it).mp hv
  obtain ⟨m', hm'⟩ := erase_of_mem hn
  refine ⟨m', hm', fun v' it' => ?_⟩
  by_cases hvv : v' = v
  · subst v'
    rw [Function.update_self]
    constructor
    · rintro ⟨⟩
    · rintro ⟨n', hn', -, hvalue'⟩
      obtain ⟨hold, hne⟩ := (mem_erase hm').mp hn'
      have hsome := h.of_mem hold
      rw [hvalue', hv] at hsome
      exact absurd (Option.some.inj hsome).symm hne
  · rw [Function.update_of_ne hvv, h v' it']
    constructor
    · rintro ⟨n', hn', hit, hvalue'⟩
      refine ⟨n', (mem_erase hm').mpr ⟨hn', fun heq => hvv ?_⟩, hit, hvalue'⟩
      rw [← hvalue', ← hvalue, eq_of_iterator_eq hn' hn heq]
    · rintro ⟨n', hn', hit, hvalue'⟩
      exact ⟨n', ((mem_erase hm').mp hn').1, hit, hvalue'⟩

end Multimap
