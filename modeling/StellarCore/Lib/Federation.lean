import Mathlib.Data.Set.Basic

/-!
# Quorums of a federation

Every node of a federation chooses its own slices.  A set of nodes is a
quorum when each of its well-behaved members has a slice inside; nothing is
asked of the other members.

A property of nodes may hold throughout such a set.  The nodes that belong to
one are found by coinduction, and two properties that exclude each other
cannot both be found in a federation whose quorums intersect.
-/

namespace StellarCore.Lib

structure Federation (α : Type) where
  wellBehaved : Set α
  slices : α → Set (Set α)

namespace Federation

variable {α β : Type} (federation : Federation α)

/-- Every well-behaved member has a slice inside the set. -/
def Supported (nodes : Set α) : Prop :=
  ∀ node ∈ nodes, node ∈ federation.wellBehaved →
    ∃ slice ∈ federation.slices node, slice ⊆ nodes

/-- A supported set with a well-behaved member. -/
structure IsQuorum (nodes : Set α) : Prop where
  inhabited : ∃ node ∈ nodes, node ∈ federation.wellBehaved
  supported : federation.Supported nodes

/-- Every two quorums share a well-behaved node. -/
def Intersects : Prop :=
  ∀ left right, federation.IsQuorum left → federation.IsQuorum right →
    ∃ node ∈ federation.wellBehaved, node ∈ left ∧ node ∈ right

/-- The members of the supported sets whose well-behaved members have the
property. -/
def Backed (holds : α → Prop) : Set α :=
  { node | ∃ nodes, node ∈ nodes ∧ federation.Supported nodes ∧
      ∀ member ∈ nodes, member ∈ federation.wellBehaved → holds member }

variable {federation} {holds : α → Prop} {node : α}

theorem holds_of_backed (backed : node ∈ federation.Backed holds)
    (behaved : node ∈ federation.wellBehaved) : holds node := by
  obtain ⟨nodes, member, _, all⟩ := backed
  exact all node member behaved

theorem backed_supported (holds : α → Prop) :
    federation.Supported (federation.Backed holds) := by
  intro node backed behaved
  obtain ⟨nodes, member, supported, all⟩ := backed
  obtain ⟨slice, chosen, inside⟩ := supported node member behaved
  refine ⟨slice, chosen, ?_⟩
  intro other member'
  exact ⟨nodes, inside member', supported, all⟩

theorem backed_mono {weaker : α → Prop}
    (implies : ∀ node, holds node → weaker node) :
    federation.Backed holds ⊆ federation.Backed weaker := by
  rintro node ⟨nodes, member, supported, all⟩
  refine ⟨nodes, member, supported, ?_⟩
  intro other inside behaved
  exact implies other (all other inside behaved)

/-- The coinduction rule: a set is backed when its well-behaved members have
the property and lean on the set or on backed nodes. -/
theorem subset_backed {nodes : Set α}
    (closed : ∀ node ∈ nodes, node ∈ federation.wellBehaved →
      holds node ∧ ∃ slice ∈ federation.slices node,
        slice ⊆ nodes ∪ federation.Backed holds) :
    nodes ⊆ federation.Backed holds := by
  intro node member
  refine ⟨nodes ∪ federation.Backed holds, .inl member, ?_, ?_⟩
  · intro other inside behaved
    rcases inside with here | backed
    · exact (closed other here behaved).2
    · obtain ⟨slice, chosen, within⟩ := backed_supported holds other backed
        behaved
      exact ⟨slice, chosen, fun _ found => .inr (within found)⟩
  · intro other inside behaved
    rcases inside with here | backed
    · exact (closed other here behaved).1
    · exact holds_of_backed backed behaved

/-- Well-behaved nodes that hold at most one value each back at most one
value together. -/
theorem agreement {claims : α → β → Prop} {left right : α} {value other : β}
    (intersects : federation.Intersects)
    (unique : ∀ node ∈ federation.wellBehaved, ∀ first second,
      claims node first → claims node second → first = second)
    (leftBehaved : left ∈ federation.wellBehaved)
    (leftBacked : left ∈ federation.Backed (claims · value))
    (rightBehaved : right ∈ federation.wellBehaved)
    (rightBacked : right ∈ federation.Backed (claims · other)) :
    value = other := by
  obtain ⟨node, behaved, inLeft, inRight⟩ := intersects _ _
    ⟨⟨left, leftBacked, leftBehaved⟩, backed_supported _⟩
    ⟨⟨right, rightBacked, rightBehaved⟩, backed_supported _⟩
  have first := holds_of_backed inLeft behaved
  have second := holds_of_backed inRight behaved
  exact unique node behaved value other first second

end Federation

end StellarCore.Lib
