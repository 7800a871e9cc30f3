import StellarCore.Lib.Worklist
import StellarCore.Scp.SliceDuality

/-!
# Nodes in the quorum

`LocalNode::isNodeInQuorum` searches the nodes that the quorum sets of known
statements lead to, starting with the local node.  The backlog is an unordered
set, so any of its nodes may come next; the answer is the same for every order.
-/

namespace StellarCore.Scp

open StellarCore.Lib

inductive TriBool where
  | tbTrue
  | tbFalse
  | tbMaybe
  deriving DecidableEq, Repr

/-- The local variables of `isNodeInQuorum`. -/
structure QuorumSearch where
  backlog : Finset NodeID
  visited : Finset NodeID
  res : TriBool

/-- `forAllNodes` runs over each node once. -/
def forAllNodes (qset : SCPQuorumSet) : List NodeID :=
  qset.allNodes.eraseDups

section Search

variable {Statement : Type} (qfun : Statement → Option SCPQuorumSet)
  (map : AList (fun _ : NodeID => List Statement))

namespace QuorumSearch

def start (mNodeID : NodeID) : QuorumSearch :=
  { backlog := {mNodeID}, visited := ∅, res := .tbFalse }

/-- The lambda given to `forAllNodes`. -/
def enqueue (search : QuorumSearch) (n : NodeID) : QuorumSearch :=
  if n ∈ search.visited then search
  else { search with backlog := insert n search.backlog }

def explore (search : QuorumSearch) (st : Statement) : QuorumSearch :=
  match qfun st with
  | none => { search with res := .tbMaybe }
  | some qset => (forAllNodes qset).foldl enqueue search

/-- One turn of the loop for a node `c` that is not the one asked for. -/
def visit (search : QuorumSearch) (c : NodeID) : QuorumSearch :=
  let search :=
    { search with
      backlog := search.backlog.erase c
      visited := insert c search.visited }
  match map.lookup c with
  | none => { search with res := .tbMaybe }
  | some statements => statements.foldl (explore qfun) search

/-- The loop may come from one state to another in one turn. -/
inductive Turn (node : NodeID) : QuorumSearch → QuorumSearch → Prop
  | visit {search : QuorumSearch} {c : NodeID} (pending : c ∈ search.backlog)
      (other : c ≠ node) : Turn node search (search.visit qfun map c)

/-- The loop may return an answer. -/
inductive Returns (node : NodeID) : QuorumSearch → TriBool → Prop
  | empty {search : QuorumSearch} (finished : search.backlog = ∅) :
      Returns node search search.res
  | found {search : QuorumSearch} (pending : node ∈ search.backlog) :
      Returns node search .tbTrue
  | turn {search after : QuorumSearch} {res : TriBool}
      (next : Turn qfun map node search after)
      (rest : Returns node after res) : Returns node search res

end QuorumSearch

/-! ## What the answer says -/

/-- The nodes of the quorum set of a statement, if it is known. -/
def statementNodes (st : Statement) : List NodeID :=
  match qfun st with
  | none => []
  | some qset => qset.allNodes

/-- The nodes that the known statements of a node lead to. -/
def trusted (node : NodeID) : Finset NodeID :=
  match map.lookup node with
  | none => ∅
  | some statements => (statements.flatMap (statementNodes qfun)).toFinset

/-- A node without an entry, or with a statement whose quorum set is not
known. -/
def unknown (node : NodeID) : Bool :=
  match map.lookup node with
  | none => true
  | some statements => statements.any (fun st => (qfun st).isNone)

open Classical in
noncomputable def quorumAnswer (mNodeID node : NodeID) : TriBool :=
  if Worklist.Reaches (trusted qfun map) mNodeID node then .tbTrue
  else if ∃ reached, Worklist.Reaches (trusted qfun map) mNodeID reached ∧
      unknown qfun map reached then .tbMaybe
  else .tbFalse

/-! ## One turn -/

namespace QuorumSearch

def toWorklist (search : QuorumSearch) : Worklist NodeID :=
  { backlog := search.backlog, visited := search.visited }

theorem foldl_enqueue (nodes : List NodeID) (search : QuorumSearch) :
    nodes.foldl enqueue search =
      { search with
        backlog := search.backlog ∪ (nodes.toFinset \ search.visited) } := by
  induction nodes generalizing search with
  | nil => simp
  | cons n nodes ih =>
      rw [List.foldl_cons, ih]
      unfold enqueue
      split
      case isTrue seen =>
          rw [List.toFinset_cons, Finset.insert_sdiff_of_mem _ seen]
      case isFalse fresh =>
          rw [List.toFinset_cons, Finset.insert_sdiff_of_notMem _ fresh,
            Finset.union_insert, Finset.insert_union]

theorem foldl_explore (statements : List Statement) (search : QuorumSearch) :
    statements.foldl (explore qfun) search =
      { search with
        backlog := search.backlog ∪
          ((statements.flatMap (statementNodes qfun)).toFinset \
            search.visited)
        res := if statements.any (fun st => (qfun st).isNone) then .tbMaybe
          else search.res } := by
  induction statements generalizing search with
  | nil => simp
  | cons st statements ih =>
      rw [List.foldl_cons, ih]
      unfold explore statementNodes
      cases known : qfun st with
      | none => simp [known]
      | some qset =>
          have same : (forAllNodes qset).toFinset =
              qset.allNodes.toFinset := by
            ext n
            simp [forAllNodes]
          simp [known, foldl_enqueue, same, Finset.union_sdiff_distrib,
            Finset.union_assoc]

theorem visit_eq (search : QuorumSearch) (c : NodeID) :
    (search.visit qfun map c).toWorklist =
        search.toWorklist.visit (trusted qfun map) c ∧
      (search.visit qfun map c).res =
        if unknown qfun map c then .tbMaybe else search.res := by
  unfold visit trusted unknown toWorklist Worklist.visit
  cases known : map.lookup c with
  | none => simp [known]
  | some statements => simp only [foldl_explore, known, and_self]

/-! ## Whole searches -/

/-- What holds between two turns of the loop. -/
structure Looping (mNodeID node : NodeID) (search : QuorumSearch) : Prop where
  searching : Worklist.Searching (trusted qfun map) mNodeID search.toWorklist
  avoids : node ∉ search.visited
  res : search.res =
    if ∃ seen ∈ search.visited, unknown qfun map seen then .tbMaybe
    else .tbFalse

variable {qfun map} {mNodeID node : NodeID} {search after : QuorumSearch}

theorem Looping.start (mNodeID node : NodeID) :
    Looping qfun map mNodeID node (start mNodeID) :=
  ⟨.begin _ _, by simp [QuorumSearch.start], by simp [QuorumSearch.start]⟩

theorem Looping.turn (looping : Looping qfun map mNodeID node search)
    (next : Turn qfun map node search after) :
    Looping qfun map mNodeID node after := by
  cases next with
  | @visit c pending other =>
      obtain ⟨work, res⟩ := visit_eq qfun map search c
      have visited : (search.visit qfun map c).visited =
          insert c search.visited :=
        congrArg Worklist.visited work
      refine ⟨?_, ?_, ?_⟩
      · rw [work]
        exact looping.searching.visit pending
      · rw [visited, Finset.mem_insert, not_or]
        exact ⟨other.symm, looping.avoids⟩
      · rw [res, looping.res, visited]
        by_cases lacking : unknown qfun map c
        · simp [lacking]
        · simp [lacking]

open Classical in
/-- When the backlog is empty every node that can be reached has been
visited. -/
theorem Looping.answer (looping : Looping qfun map mNodeID node search)
    (finished : search.backlog = ∅) :
    search.res = quorumAnswer qfun map mNodeID node := by
  have visited : ∀ seen, seen ∈ search.visited ↔
      Worklist.Reaches (trusted qfun map) mNodeID seen := by
    intro seen
    exact looping.searching.visited_iff finished
  have missed : ¬ Worklist.Reaches (trusted qfun map) mNodeID node := by
    rw [← visited]
    exact looping.avoids
  have lacking : (∃ seen ∈ search.visited, unknown qfun map seen) ↔
      ∃ reached, Worklist.Reaches (trusted qfun map) mNodeID reached ∧
        unknown qfun map reached :=
    exists_congr (fun seen => and_congr_left' (visited seen))
  rw [looping.res, quorumAnswer, if_neg missed]
  exact if_congr lacking rfl rfl

theorem Looping.returns {res : TriBool}
    (looping : Looping qfun map mNodeID node search)
    (returns : Returns qfun map node search res) :
    res = quorumAnswer qfun map mNodeID node := by
  induction returns with
  | empty finished => exact looping.answer finished
  | found pending =>
      have reached : Worklist.Reaches (trusted qfun map) mNodeID node :=
        looping.searching.reached node (Finset.mem_union_left _ pending)
      rw [quorumAnswer, if_pos reached]
  | turn next rest ih => exact ih (looping.turn next)

/-- The nodes a search can come to. -/
def allTrusted (qfun : Statement → Option SCPQuorumSet)
    (map : AList (fun _ : NodeID => List Statement)) (mNodeID : NodeID) :
    Finset NodeID :=
  insert mNodeID (map.keys.toFinset.biUnion (trusted qfun map))

theorem reaches_mem {reached : NodeID}
    (reaches : Worklist.Reaches (trusted qfun map) mNodeID reached) :
    reached ∈ allTrusted qfun map mNodeID := by
  rcases Relation.ReflTransGen.cases_tail reaches with same | ⟨c, _, edge⟩
  · rw [same]
    exact Finset.mem_insert_self _ _
  · apply Finset.mem_insert_of_mem
    have listed : c ∈ map.keys := by
      by_contra absent
      have missing : map.lookup c = none := AList.lookup_eq_none.mpr absent
      simp [trusted, missing] at edge
    exact Finset.mem_biUnion.mpr ⟨c, List.mem_toFinset.mpr listed, edge⟩

/-- Each turn visits a new node, so the loop ends. -/
theorem Looping.terminates (looping : Looping qfun map mNodeID node search) :
    Acc (fun after before => Turn qfun map node before after) search := by
  induction size : (allTrusted qfun map mNodeID \ search.visited).card
    using Nat.strong_induction_on generalizing search with
  | _ size ih =>
      constructor
      intro after next
      refine ih _ ?_ (looping.turn next) rfl
      rw [← size]
      cases next with
      | @visit c pending other =>
          have visited : (search.visit qfun map c).visited =
              (search.toWorklist.visit (trusted qfun map) c).visited :=
            congrArg Worklist.visited (visit_eq qfun map search c).1
          rw [visited]
          exact looping.searching.card_lt pending (fun _ => reaches_mem)

/-- The loop never stops without an answer. -/
theorem returns_of_acc
    (ends : Acc (fun after before => Turn qfun map node before after) search) :
    ∃ res, Returns qfun map node search res := by
  induction ends with
  | intro search _ ih =>
      rcases search.backlog.eq_empty_or_nonempty with finished | ⟨c, pending⟩
      · exact ⟨_, .empty finished⟩
      · by_cases same : c = node
        · exact ⟨_, .found (same ▸ pending)⟩
        · have next : Turn qfun map node search (search.visit qfun map c) :=
            .visit pending same
          obtain ⟨res, rest⟩ := ih _ next
          exact ⟨res, .turn next rest⟩

end QuorumSearch

/-- The search ends in every order, and with the same answer. -/
theorem isNodeInQuorum_eq (mNodeID node : NodeID) :
    Acc (fun after before => QuorumSearch.Turn qfun map node before after)
        (.start mNodeID) ∧
      ∀ res, QuorumSearch.Returns qfun map node (.start mNodeID) res ↔
        res = quorumAnswer qfun map mNodeID node := by
  have looping : QuorumSearch.Looping qfun map mNodeID node
      (.start mNodeID) :=
    .start mNodeID node
  have ends := looping.terminates
  refine ⟨ends, fun res => ⟨looping.returns, ?_⟩⟩
  rintro rfl
  obtain ⟨res, returns⟩ := QuorumSearch.returns_of_acc ends
  rwa [← looping.returns returns]

end Search

end StellarCore.Scp
