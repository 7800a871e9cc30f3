import Mathlib.Tactic
import Mathlib.Logic.Relation

/-!
# Graph search with an unordered backlog

A search keeps the nodes it still has to visit and those it has visited, and
visits any node of the backlog next.  Whatever the order, the nodes visited
when the backlog runs empty are those that can be reached from the start.
-/

namespace StellarCore.Lib

structure Worklist (α : Type) where
  backlog : Finset α
  visited : Finset α

namespace Worklist

variable {α : Type} [DecidableEq α] {next : α → Finset α} {start : α}

def begin (start : α) : Worklist α :=
  { backlog := {start}, visited := ∅ }

def visit (next : α → Finset α) (work : Worklist α) (node : α) :
    Worklist α :=
  { backlog := work.backlog.erase node ∪ (next node \ insert node work.visited)
    visited := insert node work.visited }

def Reaches (next : α → Finset α) : α → α → Prop :=
  Relation.ReflTransGen (fun here there => there ∈ next here)

/-- What holds between two visits. -/
structure Searching (next : α → Finset α) (start : α) (work : Worklist α) :
    Prop where
  started : start ∈ work.backlog ∪ work.visited
  reached : ∀ node ∈ work.backlog ∪ work.visited, Reaches next start node
  closed : ∀ node ∈ work.visited, next node ⊆ work.backlog ∪ work.visited
  apart : Disjoint work.backlog work.visited

theorem Searching.begin (next : α → Finset α) (start : α) :
    Searching next start (begin start) := by
  refine ⟨by simp [Worklist.begin], ?_, by simp [Worklist.begin],
    by simp [Worklist.begin]⟩
  intro node listed
  have same : node = start := by
    simpa [Worklist.begin] using listed
  rw [same]
  exact .refl

theorem mem_visit {work : Worklist α} {chosen node : α}
    (pending : chosen ∈ work.backlog) :
    node ∈ (work.visit next chosen).backlog ∪
        (work.visit next chosen).visited ↔
      node ∈ work.backlog ∪ work.visited ∨ node ∈ next chosen := by
  simp only [visit, Finset.mem_union, Finset.mem_erase, Finset.mem_sdiff,
    Finset.mem_insert]
  by_cases same : node = chosen
  · simp [same, pending]
  · simp only [same]
    tauto

theorem Searching.visit {work : Worklist α} {chosen : α}
    (searching : Searching next start work)
    (pending : chosen ∈ work.backlog) :
    Searching next start (work.visit next chosen) := by
  have here : Reaches next start chosen :=
    searching.reached chosen (Finset.mem_union_left _ pending)
  refine ⟨?_, ?_, ?_, ?_⟩
  · exact (mem_visit pending).mpr (.inl searching.started)
  · intro node listed
    rcases (mem_visit pending).mp listed with known | added
    · exact searching.reached node known
    · exact .tail here added
  · intro node seen there found
    rw [mem_visit pending]
    rcases Finset.mem_insert.mp seen with same | before
    · exact .inr (same ▸ found)
    · exact .inl (searching.closed node before found)
  · rw [Finset.disjoint_left]
    intro node listed seen
    rcases Finset.mem_union.mp listed with kept | added
    · rcases Finset.mem_insert.mp seen with same | before
      · exact Finset.ne_of_mem_erase kept same
      · exact Finset.disjoint_left.mp searching.apart
          (Finset.mem_of_mem_erase kept) before
    · exact (Finset.mem_sdiff.mp added).2 seen

theorem Searching.visited_iff {work : Worklist α} {node : α}
    (searching : Searching next start work) (finished : work.backlog = ∅) :
    node ∈ work.visited ↔ Reaches next start node := by
  constructor
  · intro seen
    exact searching.reached node (Finset.mem_union_right _ seen)
  · intro reaches
    induction reaches with
    | refl => simpa [finished] using searching.started
    | tail _ edge seen =>
        simpa [finished] using searching.closed _ seen edge

/-- Each visit uses up a node. -/
theorem Searching.card_lt {work : Worklist α} {chosen : α}
    {within : Finset α} (searching : Searching next start work)
    (pending : chosen ∈ work.backlog)
    (inside : ∀ node, Reaches next start node → node ∈ within) :
    (within \ (work.visit next chosen).visited).card <
      (within \ work.visited).card := by
  apply Finset.card_lt_card
  have fresh : chosen ∉ work.visited :=
    Finset.disjoint_left.mp searching.apart pending
  have member : chosen ∈ within :=
    inside chosen (searching.reached chosen
      (Finset.mem_union_left _ pending))
  have fewer : within \ (work.visit next chosen).visited ⊆
      within \ work.visited :=
    Finset.sdiff_subset_sdiff le_rfl (Finset.subset_insert _ _)
  refine (Finset.ssubset_iff_of_subset fewer).mpr
    ⟨chosen, Finset.mem_sdiff.mpr ⟨member, fresh⟩, ?_⟩
  simp [Worklist.visit]

end Worklist

end StellarCore.Lib
