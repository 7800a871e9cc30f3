import StellarCore.Quorum.Enumeration
import StellarCore.Quorum.InferredQuorum

/-!
# The slices that the enumeration reaches

A slice takes as many entries of a quorum set as its threshold says, and a
slice of each.  Of the chosen entries the first runs through its slices; of
the later ones a single one is free, those before it show their last slice
and those after it their first.
-/

namespace StellarCore.Quorum

open StellarCore.Lib
open StellarCore.Scp
open Enumerator

inductive Entry where
  | node (nodeID : NodeID)
  | set (qSet : SCPQuorumSet)

def entries (qSet : SCPQuorumSet) : List Entry :=
  qSet.validators.map Entry.node ++ qSet.innerSets.map Entry.set

mutual

/-- The slice that takes the entries `choose` takes, on every level. -/
def edgeSlice (choose : ℕ → List (List NodeID) → List (List NodeID)) :
    SCPQuorumSet → List NodeID
  | ⟨threshold, validators, innerSets⟩ =>
      (choose threshold.val (validators.map (fun validator => [validator]) ++
        edgeSlices choose innerSets)).flatten

def edgeSlices (choose : ℕ → List (List NodeID) → List (List NodeID)) :
    List SCPQuorumSet → List (List NodeID)
  | [] => []
  | inner :: innerSets =>
      edgeSlice choose inner :: edgeSlices choose innerSets

end

def Entry.edge (choose : ℕ → List (List NodeID) → List (List NodeID)) :
    Entry → List NodeID
  | .node nodeID => [nodeID]
  | .set qSet => edgeSlice choose qSet

def takeLast {α : Type} (count : ℕ) (xs : List α) : List α :=
  xs.drop (xs.length - count)

def Entry.first (entry : Entry) : List NodeID :=
  entry.edge List.take

def Entry.last (entry : Entry) : List NodeID :=
  entry.edge takeLast

mutual

/-- The slices that an entry is seen to have. -/
inductive Reached : Entry → List NodeID → Prop
  | node (nodeID : NodeID) : Reached (.node nodeID) [nodeID]
  | set {qSet : SCPQuorumSet} {entry : Entry} {others : List Entry}
      {slice rest : List NodeID}
      (chosen : (entry :: others).Sublist (entries qSet))
      (count : (entry :: others).length = qSet.threshold.val)
      (first : Reached entry slice) (later : Turn others rest) :
      Reached (.set qSet) (slice ++ rest)

/-- What the chosen entries after the first show together. -/
inductive Turn : List Entry → List NodeID → Prop
  | nil : Turn [] []
  | here {entry : Entry} {others : List Entry} {slice : List NodeID}
      (reached : Reached entry slice) :
      Turn (entry :: others) (slice ++ (others.map Entry.first).flatten)
  | later {entry : Entry} {others : List Entry} {rest : List NodeID}
      (turn : Turn others rest) :
      Turn (entry :: others) (entry.last ++ rest)

end

/-! ## The values of an enumerator -/

def nodeBits (nodes : List NodeID) (node : NodeID) : Bitset :=
  BitVec.ofNat 64 (2 ^ nodes.idxOf node)

def bitsOf (nodes : List NodeID) : List NodeID → Bitset
  | [] => 0
  | node :: slice => nodeBits nodes node ||| bitsOf nodes slice

mutual

def qsetValues (nodes : List NodeID) : SCPQuorumSet → List Bitset
  | ⟨threshold, validators, innerSets⟩ =>
      selectionValues
        (validators.map (fun validator => [nodeBits nodes validator]) ++
          innerValues nodes innerSets)
        ((combinations threshold.val
          (validators.length + innerSets.length)).map (BitVec.ofNat 64))

def innerValues (nodes : List NodeID) :
    List SCPQuorumSet → List (List Bitset)
  | [] => []
  | inner :: innerSets =>
      qsetValues nodes inner :: innerValues nodes innerSets

end

def Entry.values (nodes : List NodeID) : Entry → List Bitset
  | .node nodeID => [nodeBits nodes nodeID]
  | .set qSet => qsetValues nodes qSet

/-- A quorum set whose enumerator can be built. -/
inductive Fits (nodes : List NodeID) : SCPQuorumSet → Prop
  | mk {threshold : Uint32} {validators : List NodeID}
      {innerSets : List SCPQuorumSet} (positive : 0 < threshold.val)
      (enough : threshold.val ≤ validators.length + innerSets.length)
      (few : validators.length + innerSets.length < 64)
      (known : validators ⊆ nodes)
      (inner : ∀ inner ∈ innerSets, Fits nodes inner) :
      Fits nodes ⟨threshold, validators, innerSets⟩

section Values

variable {nodes : List NodeID}

theorem bitsOf_append (few many : List NodeID) :
    bitsOf nodes (few ++ many) = bitsOf nodes few ||| bitsOf nodes many := by
  induction few with
  | nil => exact (BitVec.zero_or).symm
  | cons node few ih => rw [List.cons_append, bitsOf, bitsOf, ih,
      BitVec.or_assoc]

theorem innerValues_eq_map (innerSets : List SCPQuorumSet) :
    innerValues nodes innerSets = innerSets.map (qsetValues nodes) := by
  induction innerSets with
  | nil => rfl
  | cons inner innerSets ih => rw [innerValues, ih, List.map_cons]

theorem edgeSlices_eq_map
    (choose : ℕ → List (List NodeID) → List (List NodeID))
    (innerSets : List SCPQuorumSet) :
    edgeSlices choose innerSets = innerSets.map (edgeSlice choose) := by
  induction innerSets with
  | nil => rfl
  | cons inner innerSets ih => rw [edgeSlices, ih, List.map_cons]

theorem qsetValues_eq (qSet : SCPQuorumSet) :
    qsetValues nodes qSet =
      selectionValues ((entries qSet).map (Entry.values nodes))
        ((combinations qSet.threshold.val (entries qSet).length).map
          (BitVec.ofNat 64)) := by
  obtain ⟨threshold, validators, innerSets⟩ := qSet
  rw [qsetValues, innerValues_eq_map, entries, List.map_append,
    List.map_map, List.map_map, List.length_append, List.length_map,
    List.length_map]
  rfl

theorem edgeSlice_eq
    (choose : ℕ → List (List NodeID) → List (List NodeID))
    (qSet : SCPQuorumSet) :
    edgeSlice choose qSet =
      (choose qSet.threshold.val
        ((entries qSet).map (Entry.edge choose))).flatten := by
  obtain ⟨threshold, validators, innerSets⟩ := qSet
  rw [edgeSlice, edgeSlices_eq_map, entries, List.map_append,
    List.map_map, List.map_map]
  rfl

end Values

/-! ## Products of lists of values -/

section Columns

variable {v : Bitset} {left : List Bitset} {lists : List (List Bitset)}

theorem final_mem (v : Bitset) (left : List Bitset) :
    final v left ∈ v :: left := by
  unfold final
  rw [List.getLastD_eq_getLast?]
  cases last : left.getLast? with
  | none => exact List.mem_cons_self
  | some w =>
      exact List.mem_cons_of_mem v (List.mem_of_mem_getLast? last)

theorem getLast_cons (v : Bitset) (left : List Bitset) :
    (v :: left).getLast? = some (final v left) := by
  rw [List.getLast?_cons, final, List.getLastD_eq_getLast?]

theorem mem_columns_cons {c : Bitset} :
    c ∈ columns ((v :: left) :: lists) ↔
      (∃ y ∈ v :: left, c = y ||| current (lists.map wheel)) ∨
        ∃ d ∈ columns lists, c = final v left ||| d := by
  simp only [columns, List.map_cons, wheel, current, turns, List.mem_cons,
    List.mem_append, List.mem_map]
  constructor
  · rintro (rfl | ⟨y, member, rfl⟩ | ⟨d, member, rfl⟩)
    · exact .inl ⟨v, .inl rfl, rfl⟩
    · exact .inl ⟨y, .inr member, rfl⟩
    · exact .inr ⟨d, .inr member, rfl⟩
  · rintro (⟨y, rfl | member, rfl⟩ | ⟨d, rfl | member, rfl⟩)
    · exact .inl rfl
    · exact .inr (.inl ⟨y, member, rfl⟩)
    · rcases List.mem_cons.mp (final_mem v left) with same | member
      · rw [same]
        exact .inl rfl
      · exact .inr (.inl ⟨_, member, rfl⟩)
    · exact .inr (.inr ⟨d, member, rfl⟩)

theorem columns_getLast {d : Bitset}
    (last : (columns lists).getLast? = some d) :
    (columns ((v :: left) :: lists)).getLast? =
      some (final v left ||| d) := by
  have now : ((v :: left).map (· ||| current (lists.map wheel))).getLast? =
      some (final v left ||| current (lists.map wheel)) := by
    rw [List.getLast?_map, getLast_cons, Option.map_some]
  have split : columns ((v :: left) :: lists) =
      (v :: left).map (· ||| current (lists.map wheel)) ++
        (turns (lists.map wheel)).map (final v left ||| ·) := rfl
  rw [split, List.getLast?_append, List.getLast?_map, now]
  rw [columns, List.getLast?_cons, Option.some.injEq] at last
  cases later : (turns (lists.map wheel)).getLast? with
  | none =>
      rw [later, Option.getD_none] at last
      rw [← last]
      rfl
  | some w =>
      rw [later, Option.getD_some] at last
      rw [← last]
      rfl

theorem mem_productValues_cons {values : List Bitset} {x : Bitset} :
    x ∈ productValues (values :: lists) ↔
      ∃ y ∈ values, ∃ c ∈ columns lists, x = y ||| c := by
  simp only [productValues, List.mem_flatMap, List.mem_map]
  constructor
  · rintro ⟨c, column, y, member, rfl⟩
    exact ⟨y, member, c, column, rfl⟩
  · rintro ⟨y, member, c, column, rfl⟩
    exact ⟨c, column, y, member, rfl⟩

theorem productValues_head :
    (productValues ((v :: left) :: lists)).head? =
      some (v ||| current (lists.map wheel)) := by
  rfl

theorem productValues_getLast {d : Bitset}
    (last : (columns lists).getLast? = some d) :
    (productValues ((v :: left) :: lists)).getLast? =
      some (final v left ||| d) := by
  obtain ⟨others, split⟩ := List.getLast?_eq_some_iff.mp last
  rw [productValues, split, List.flatMap_append, List.getLast?_append]
  simp only [List.flatMap_cons, List.flatMap_nil, List.append_nil,
    List.getLast?_map, getLast_cons, Option.map_some, Option.some_or]

end Columns

/-- The values of an entry stand for the slices it is seen to have. -/
structure Described (nodes : List NodeID) (entry : Entry) : Prop where
  head : (entry.values nodes).head? = some (bitsOf nodes entry.first)
  last : (entry.values nodes).getLast? = some (bitsOf nodes entry.last)
  members : ∀ x, x ∈ entry.values nodes ↔
    ∃ slice, Reached entry slice ∧ x = bitsOf nodes slice

section Described

variable {nodes : List NodeID} {others : List Entry}

theorem Described.values_eq {entry : Entry}
    (described : Described nodes entry) :
    ∃ left, entry.values nodes = bitsOf nodes entry.first :: left ∧
      final (bitsOf nodes entry.first) left = bitsOf nodes entry.last := by
  obtain ⟨left, values⟩ := List.head?_eq_some_iff.mp described.head
  have last := described.last
  rw [values, getLast_cons, Option.some.injEq] at last
  exact ⟨left, values, last⟩

theorem current_described (all : ∀ entry ∈ others, Described nodes entry) :
    current ((others.map (Entry.values nodes)).map wheel) =
      bitsOf nodes (others.map Entry.first).flatten := by
  induction others with
  | nil => rfl
  | cons entry others ih =>
      obtain ⟨left, values, -⟩ :=
        (all entry List.mem_cons_self).values_eq
      have rest := ih (fun other member =>
        all other (List.mem_cons_of_mem entry member))
      rw [List.map_cons, List.map_cons, values, wheel, current, rest,
        List.map_cons, List.flatten_cons, bitsOf_append]

theorem columns_getLast_described
    (all : ∀ entry ∈ others, Described nodes entry) :
    (columns (others.map (Entry.values nodes))).getLast? =
      some (bitsOf nodes (others.map Entry.last).flatten) := by
  induction others with
  | nil => rfl
  | cons entry others ih =>
      obtain ⟨left, values, last⟩ :=
        (all entry List.mem_cons_self).values_eq
      have rest := ih (fun other member =>
        all other (List.mem_cons_of_mem entry member))
      rw [List.map_cons, values, columns_getLast rest, last, List.map_cons,
        List.flatten_cons, bitsOf_append]

theorem mem_columns_described
    (all : ∀ entry ∈ others, Described nodes entry) {c : Bitset} :
    c ∈ columns (others.map (Entry.values nodes)) ↔
      ∃ rest, Turn others rest ∧ c = bitsOf nodes rest := by
  induction others generalizing c with
  | nil =>
      constructor
      · intro member
        exact ⟨[], Turn.nil, List.mem_singleton.mp member⟩
      · rintro ⟨rest, turn, rfl⟩
        cases turn
        exact List.mem_singleton.mpr rfl
  | cons entry others ih =>
      have described := all entry List.mem_cons_self
      obtain ⟨left, values, last⟩ := described.values_eq
      have later : ∀ entry ∈ others, Described nodes entry :=
        fun other member => all other (List.mem_cons_of_mem entry member)
      have members := described.members
      rw [values] at members
      rw [List.map_cons, values, mem_columns_cons, last,
        current_described later]
      constructor
      · rintro (⟨y, member, rfl⟩ | ⟨d, member, rfl⟩)
        · obtain ⟨slice, reached, rfl⟩ := (members y).mp member
          exact ⟨_, Turn.here reached, (bitsOf_append _ _).symm⟩
        · obtain ⟨rest, turn, rfl⟩ := (ih later).mp member
          exact ⟨_, Turn.later turn, (bitsOf_append _ _).symm⟩
      · rintro ⟨rest, turn, rfl⟩
        cases turn with
        | here reached =>
            exact .inl ⟨_, (members _).mpr ⟨_, reached, rfl⟩,
              bitsOf_append _ _⟩
        | later turn =>
            exact .inr ⟨_, (ih later).mpr ⟨_, turn, rfl⟩,
              bitsOf_append _ _⟩

section Set

variable {qSet : SCPQuorumSet}

theorem qsetValues_eq_flatMap (few : (entries qSet).length < 64) :
    qsetValues nodes qSet =
      (combinations qSet.threshold.val (entries qSet).length).flatMap
        (fun bits => productValues
          ((pick bits (entries qSet)).map (Entry.values nodes))) := by
  rw [qsetValues_eq, selectionValues, List.flatMap_map]
  apply List.flatMap_congr
  intro bits member
  have bound : bits < 2 ^ 64 :=
    (combinations_lt member).trans
      (Nat.pow_lt_pow_right (by norm_num) few)
  rw [BitVec.toNat_ofNat, Nat.mod_eq_of_lt bound, pick_map]

private theorem chosen_cons (positive : 0 < qSet.threshold.val)
    {chosen : List Entry} (count : chosen.length = qSet.threshold.val) :
    ∃ entry others, chosen = entry :: others := by
  cases chosen with
  | nil =>
      rw [List.length_nil] at count
      omega
  | cons entry others => exact ⟨entry, others, rfl⟩

variable (positive : 0 < qSet.threshold.val)
  (enough : qSet.threshold.val ≤ (entries qSet).length)
  (few : (entries qSet).length < 64)
  (all : ∀ entry ∈ entries qSet, Described nodes entry)

include positive few all in
private theorem set_members (x : Bitset) :
    x ∈ qsetValues nodes qSet ↔
      ∃ slice, Reached (.set qSet) slice ∧ x = bitsOf nodes slice := by
  rw [qsetValues_eq_flatMap few, List.mem_flatMap]
  constructor
  · rintro ⟨bits, place, member⟩
    obtain ⟨sublist, count⟩ := mem_pick_combinations.mp ⟨bits, place, rfl⟩
    obtain ⟨entry, others, split⟩ := chosen_cons positive count
    rw [split] at sublist count member
    rw [List.map_cons, mem_productValues_cons] at member
    obtain ⟨y, first, c, column, rfl⟩ := member
    have inside : ∀ other ∈ others, Described nodes other :=
      fun other later => all other
        (sublist.subset (List.mem_cons_of_mem entry later))
    have described := all entry (sublist.subset List.mem_cons_self)
    obtain ⟨slice, reached, rfl⟩ := (described.members y).mp first
    obtain ⟨rest, turn, rfl⟩ := (mem_columns_described inside).mp column
    exact ⟨_, Reached.set sublist count reached turn,
      (bitsOf_append _ _).symm⟩
  · rintro ⟨slice, reached, rfl⟩
    cases reached with
    | @set _ entry others slice rest sublist count reached turn =>
        obtain ⟨bits, place, chosen⟩ :=
          mem_pick_combinations.mpr ⟨sublist, count⟩
        have inside : ∀ other ∈ others, Described nodes other :=
          fun other later => all other
            (sublist.subset (List.mem_cons_of_mem entry later))
        have described := all entry (sublist.subset List.mem_cons_self)
        refine ⟨bits, place, ?_⟩
        rw [chosen, List.map_cons, mem_productValues_cons]
        exact ⟨_, (described.members _).mpr ⟨_, reached, rfl⟩,
          _, (mem_columns_described inside).mpr ⟨_, turn, rfl⟩,
          bitsOf_append _ _⟩

include positive enough few all in
private theorem set_head :
    (qsetValues nodes qSet).head? =
      some (bitsOf nodes (edgeSlice List.take qSet)) := by
  obtain ⟨places, split⟩ :=
    List.head?_eq_some_iff.mp (combinations_head enough)
  have count : ((entries qSet).take qSet.threshold.val).length =
      qSet.threshold.val := by
    rw [List.length_take]
    omega
  obtain ⟨entry, others, chosen⟩ := chosen_cons positive count
  have subset : entry :: others ⊆ entries qSet := by
    rw [← chosen]
    exact List.take_subset _ _
  have described := all entry (subset List.mem_cons_self)
  obtain ⟨left, values, -⟩ := described.values_eq
  rw [qsetValues_eq_flatMap few, split, List.flatMap_cons,
    List.head?_append, pick_first, chosen, List.map_cons, values,
    productValues_head, current_described, Option.some_or, edgeSlice_eq,
    ← List.map_take, chosen, ← bitsOf_append]
  · rfl
  · intro other later
    exact all other (subset (List.mem_cons_of_mem entry later))

include positive enough few all in
private theorem set_last :
    (qsetValues nodes qSet).getLast? =
      some (bitsOf nodes (edgeSlice takeLast qSet)) := by
  obtain ⟨places, split⟩ :=
    List.getLast?_eq_some_iff.mp (combinations_getLast enough)
  have count : (takeLast qSet.threshold.val (entries qSet)).length =
      qSet.threshold.val := by
    rw [takeLast, List.length_drop]
    omega
  obtain ⟨entry, others, chosen⟩ := chosen_cons positive count
  have subset : entry :: others ⊆ entries qSet := by
    rw [← chosen]
    exact List.drop_subset _ _
  have described := all entry (subset List.mem_cons_self)
  obtain ⟨left, values, last⟩ := described.values_eq
  have inside : ∀ other ∈ others, Described nodes other :=
    fun other later => all other
      (subset (List.mem_cons_of_mem entry later))
  have picked : pick (2 ^ ((entries qSet).length - qSet.threshold.val) *
      (2 ^ qSet.threshold.val - 1)) (entries qSet) = entry :: others := by
    rw [pick_last _ _ _ (by omega)]
    exact chosen
  have edge : edgeSlice takeLast qSet =
      ((entry :: others).map Entry.last).flatten := by
    rw [edgeSlice_eq, ← chosen, takeLast, takeLast, List.map_drop,
      List.length_map]
    rfl
  rw [qsetValues_eq_flatMap few, split, List.flatMap_append,
    List.getLast?_append, List.flatMap_cons, List.flatMap_nil,
    List.append_nil, picked, List.map_cons, values,
    productValues_getLast (columns_getLast_described inside), last, edge,
    List.map_cons, List.flatten_cons, bitsOf_append]
  rfl

include positive enough few all in
theorem described_set : Described nodes (.set qSet) where
  head := set_head positive enough few all
  last := set_last positive enough few all
  members := set_members positive few all

end Set

theorem bitsOf_singleton (nodeID : NodeID) :
    bitsOf nodes [nodeID] = nodeBits nodes nodeID :=
  BitVec.or_zero

theorem described_node (nodeID : NodeID) :
    Described nodes (.node nodeID) where
  head := congrArg some (bitsOf_singleton nodeID).symm
  last := congrArg some (bitsOf_singleton nodeID).symm
  members := by
    intro x
    rw [Entry.values, List.mem_singleton]
    constructor
    · rintro rfl
      exact ⟨_, Reached.node nodeID, (bitsOf_singleton nodeID).symm⟩
    · rintro ⟨slice, reached, rfl⟩
      cases reached
      exact bitsOf_singleton nodeID

theorem Fits.described {qSet : SCPQuorumSet} (fits : Fits nodes qSet) :
    Described nodes (.set qSet) := by
  induction fits with
  | @mk threshold validators innerSets positive enough few known inner ih =>
      have length : (entries ⟨threshold, validators, innerSets⟩).length =
          validators.length + innerSets.length := by
        rw [entries, List.length_append, List.length_map, List.length_map]
      apply described_set positive
      · rw [length]
        exact enough
      · rw [length]
        exact few
      · intro entry member
        rw [entries, List.mem_append, List.mem_map, List.mem_map] at member
        rcases member with ⟨validator, _, rfl⟩ | ⟨inner, member, rfl⟩
        · exact described_node validator
        · exact ih inner member

end Described

/-! ## The enumerators that are built -/

section Build

variable {nodes : List NodeID} (small : nodes.length ≤ 64)

theorem idxOf?_of_mem {node : NodeID} (known : node ∈ nodes) :
    nodes.idxOf? node = some (nodes.idxOf node) := by
  induction nodes with
  | nil => cases known
  | cons other nodes ih =>
      rw [List.idxOf?_cons, List.idxOf_cons]
      by_cases same : other = node
      · simp [same]
      · have later : node ∈ nodes := by
          rcases List.mem_cons.mp known with here | later
          · exact absurd here.symm same
          · exact later
        have different : (other == node) = false :=
          beq_eq_false_iff_ne.mpr same
        rw [different, ih later]
        rfl

include small in
theorem nodeBit_lists {node : NodeID} (known : node ∈ nodes) :
    ∃ e, nodeBit nodes node = some e ∧ Lists e [nodeBits nodes node] := by
  have inside := List.idxOf_lt_length_iff.mpr known
  have found : nodeNumber nodes node = some (nodes.idxOf node) :=
    idxOf?_of_mem known
  refine ⟨_, ?_, constant_lists (nodeBits nodes node) false⟩
  have bound : nodes.idxOf node < 64 := by omega
  simp [nodeBit, found, bitNumber, bound, nodeBits]

include small in
private theorem nodeBits_lists {validators : List NodeID}
    (known : validators ⊆ nodes) :
    ∃ enums, validators.mapM (nodeBit nodes) = some enums ∧
      List.Forall₂ Lists enums
        (validators.map (fun validator => [nodeBits nodes validator])) := by
  induction validators with
  | nil => exact ⟨[], rfl, List.Forall₂.nil⟩
  | cons validator validators ih =>
      obtain ⟨first, built, lists⟩ :=
        nodeBit_lists small (known List.mem_cons_self)
      obtain ⟨enums, builtRest, listsRest⟩ :=
        ih (fun node member => known (List.mem_cons_of_mem _ member))
      refine ⟨first :: enums, ?_, List.Forall₂.cons lists listsRest⟩
      rw [List.mapM_cons, built, builtRest]
      rfl

private theorem makeQsetEnumerators_lists {innerSets : List SCPQuorumSet}
    (all : ∀ inner ∈ innerSets, ∃ e, makeQsetEnumerator nodes inner =
      some e ∧ Lists e (qsetValues nodes inner)) :
    ∃ enums, makeQsetEnumerators nodes innerSets = some enums ∧
      List.Forall₂ Lists enums (innerSets.map (qsetValues nodes)) := by
  induction innerSets with
  | nil => exact ⟨[], rfl, List.Forall₂.nil⟩
  | cons inner innerSets ih =>
      obtain ⟨first, built, lists⟩ := all inner List.mem_cons_self
      obtain ⟨enums, builtRest, listsRest⟩ :=
        ih (fun other member => all other (List.mem_cons_of_mem _ member))
      refine ⟨first :: enums, ?_, List.Forall₂.cons lists listsRest⟩
      rw [makeQsetEnumerators, built, builtRest]
      rfl

include small in
theorem Fits.makeQsetEnumerator_lists {qSet : SCPQuorumSet}
    (fits : Fits nodes qSet) :
    ∃ e, makeQsetEnumerator nodes qSet = some e ∧
      Lists e (qsetValues nodes qSet) := by
  induction fits with
  | @mk threshold validators innerSets positive enough few known inner ih =>
      obtain ⟨constants, builtConstants, listsConstants⟩ :=
        nodeBits_lists small known
      obtain ⟨sets, builtSets, listsSets⟩ := makeQsetEnumerators_lists ih
      have lists : List.Forall₂ Lists (constants ++ sets)
          (validators.map (fun validator => [nodeBits nodes validator]) ++
            innerSets.map (qsetValues nodes)) :=
        List.rel_append listsConstants listsSets
      have length : (constants ++ sets).length =
          validators.length + innerSets.length := by
        rw [lists.length_eq, List.length_append, List.length_map,
          List.length_map]
      have index : newPermutation threshold.val (constants ++ sets).length =
          some (permutation (lowestBits threshold.val 0) threshold.val
            (validators.length + innerSets.length)) := by
        rw [length]
        simp [newPermutation, positive, enough, few.le,
          enough.trans few.le, positive.trans_le enough]
      refine ⟨newSelection (permutation (lowestBits threshold.val 0)
        threshold.val (validators.length + innerSets.length))
        (constants ++ sets), ?_, ?_⟩
      · rw [makeQsetEnumerator, builtConstants, builtSets]
        simp only [Option.bind_eq_bind, Option.bind_some, index]
        rfl
      · rw [qsetValues, innerValues_eq_map]
        have visits : Visits Finished
            (reset (permutation (lowestBits threshold.val 0) threshold.val
              (validators.length + innerSets.length)))
            ((combinations threshold.val
              (validators.length + innerSets.length)).map
                (BitVec.ofNat 64)) :=
          permutation_visits positive enough few
        apply selection_lists lists visits
        intro bits member
        obtain ⟨place, inside, rfl⟩ := List.mem_map.mp member
        have bound : place < 2 ^ 64 :=
          (combinations_lt inside).trans
            (Nat.pow_lt_pow_right (by norm_num) few)
        rw [BitVec.toNat_ofNat, Nat.mod_eq_of_lt bound]
        rw [← length, lists.length_eq] at inside
        have count := (mem_pick_combinations.mp ⟨place, inside, rfl⟩).2
        intro empty
        rw [empty, List.length_nil] at count
        omega

end Build

end StellarCore.Quorum
