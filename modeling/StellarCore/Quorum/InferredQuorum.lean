import StellarCore.Quorum.BitsetEnumerator
import StellarCore.Scp.LocalNode

/-!
# The quorum inferred from history

`InferredQuorum::checkQuorumIntersection` and the functions it uses.  The
hash maps are association lists in the order in which they are iterated.
Loops over an enumerator take fuel; a failed assertion, or a loop that runs
out of fuel, gives no answer.  Logging, and the configuration that only
logging reads, are left out.
-/

namespace StellarCore.Quorum

open StellarCore.Scp
open Enumerator

structure InferredQuorum where
  mQsets : AList (fun _ : Hash => SCPQuorumSet)
  mQsetHashes : List (NodeID × Hash)
  mPubKeys : AList (fun _ : NodeID => ℕ)

/-- `nodeNumbers`, the inverse of the vector `revNodeNumbers`. -/
def nodeNumber (revNodeNumbers : List NodeID) (pk : NodeID) : Option ℕ :=
  revNodeNumbers.idxOf? pk

def nodeBit (revNodeNumbers : List NodeID) (pk : NodeID) :
    Option Enumerator := do
  let i ← nodeNumber revNodeNumbers pk
  bitNumber i

mutual

def makeQsetEnumerator (revNodeNumbers : List NodeID) :
    SCPQuorumSet → Option Enumerator
  | ⟨threshold, validators, innerSets⟩ => do
      let constants ← validators.mapM (nodeBit revNodeNumbers)
      let inner ← makeQsetEnumerators revNodeNumbers innerSets
      let index ← newPermutation threshold.val (constants ++ inner).length
      return newSelection index (constants ++ inner)

def makeQsetEnumerators (revNodeNumbers : List NodeID) :
    List SCPQuorumSet → Option (List Enumerator)
  | [] => some []
  | s :: innerSets => do
      let e ← makeQsetEnumerator revNodeNumbers s
      let enums ← makeQsetEnumerators revNodeNumbers innerSets
      return e :: enums

end

/-- The loop over slices: whether one of them lies inside `q`. -/
def containsSlice (q : Bitset) : ℕ → Enumerator → Option Bool
  | 0, _ => none
  | fuel + 1, e =>
      if !isLive e then some false
      else if q ||| value e = q then some true
      else containsSlice q fuel (next e)

namespace InferredQuorum

/-- The quorum set under the hash that is found first for a node. -/
def qsetOf (iq : InferredQuorum) (pk : NodeID) : Option SCPQuorumSet := do
  let qsh ← iq.mQsetHashes.find? (fun entry => entry.1 = pk)
  iq.mQsets.lookup qsh.2

def makeSliceEnumerator (iq : InferredQuorum) (revNodeNumbers : List NodeID)
    (pk : NodeID) : Option Enumerator := do
  let self ← nodeBit revNodeNumbers pk
  let qs ← iq.qsetOf pk
  let inner ← makeQsetEnumerator revNodeNumbers qs
  return newProduct [self, inner]

/-- The loop of `isQuorum`, over the given bits. -/
def isQuorumAt (iq : InferredQuorum) (revNodeNumbers : List NodeID)
    (fuel : ℕ) (q : Bitset) : List ℕ → Option Bool
  | [] => some true
  | i :: places =>
      if q.getLsbD i then do
        let pk ← revNodeNumbers[i]?
        let e ← iq.makeSliceEnumerator revNodeNumbers pk
        let containsSliceForE ← containsSlice q fuel e
        if containsSliceForE then
          iq.isQuorumAt revNodeNumbers fuel q places
        else some false
      else iq.isQuorumAt revNodeNumbers fuel q places

def isQuorum (iq : InferredQuorum) (revNodeNumbers : List NodeID)
    (fuel : ℕ) (q : Bitset) : Option Bool :=
  iq.isQuorumAt revNodeNumbers fuel q (List.range 64)

/-- The loop over candidates; `allQuorums` is a set. -/
def scanQuorums (iq : InferredQuorum) (revNodeNumbers : List NodeID)
    (fuel : ℕ) : ℕ → Enumerator → List Bitset → Option (List Bitset)
  | 0, _, _ => none
  | steps + 1, e, allQuorums =>
      if !isLive e then some allQuorums
      else do
        let found ← iq.isQuorum revNodeNumbers fuel (value e)
        iq.scanQuorums revNodeNumbers fuel steps (next e)
          (if found then List.insert (value e) allQuorums else allQuorums)

/-- The number of a node with a known quorum set. -/
def numberWithQset (iq : InferredQuorum) (revNodeNumbers : List NodeID)
    (entry : NodeID × Hash) : Option ℕ := do
  guard (iq.mQsets.lookup entry.2).isSome
  nodeNumber revNodeNumbers entry.1

def checkQuorumIntersection (iq : InferredQuorum) (fuel : ℕ) :
    Option Bool := do
  let revNodeNumbers := iq.mPubKeys.keys
  let numbers ← iq.mQsetHashes.mapM (iq.numberWithQset revNodeNumbers)
  let nodesWithQsets := numbers.dedup
  let nodeEnumerators ← nodesWithQsets.mapM bitNumber
  let index ← newPowerset nodeEnumerators.length
  let allQuorums ← iq.scanQuorums revNodeNumbers fuel fuel
    (newSelection index nodeEnumerators) []
  return allQuorums.all (fun q =>
    allQuorums.all (fun v => q == v || q &&& v != 0))

end InferredQuorum

end StellarCore.Quorum
