import StellarCore.Transactions.SignatureChecker

/-!
# A pass over the signers

A check walks over the signers in three passes, one for each type of key.  A
pass credits a signer with a signature, and no signer and no signature twice.
If a signature verifies for one key at most, the pass finds every signer that
can be matched.
-/

namespace StellarCore.Transactions

open StellarCore.Lib

namespace SignatureChecker

/-- The weight of a list of signers, without bounds. -/
def weightOf (signers : List Signer) : ℤ :=
  (signers.map (fun signer => (signer.weight : ℤ))).sum

@[simp] theorem weightOf_nil : weightOf [] = 0 :=
  rfl

@[simp] theorem weightOf_cons (signer : Signer) (signers : List Signer) :
    weightOf (signer :: signers) = signer.weight + weightOf signers := by
  simp [weightOf]

@[simp] theorem weightOf_append (first second : List Signer) :
    weightOf (first ++ second) = weightOf first + weightOf second := by
  simp [weightOf]

theorem weightOf_nonneg (signers : List Signer) : 0 ≤ weightOf signers := by
  induction signers with
  | nil => exact le_rfl
  | cons signer signers ih =>
      rw [weightOf_cons]
      omega

theorem weightOf_le_of_sublist {few many : List Signer}
    (sublist : few.Sublist many) : weightOf few ≤ weightOf many := by
  induction sublist with
  | slnil => exact le_rfl
  | cons signer _ ih =>
      rw [weightOf_cons]
      omega
  | cons_cons signer _ ih =>
      rw [weightOf_cons, weightOf_cons]
      omega

theorem weightOf_le_of_subset {few many : List Signer} (nodup : few.Nodup)
    (subset : few ⊆ many) : weightOf few ≤ weightOf many := by
  obtain ⟨same, perm, sublist⟩ := nodup.subperm subset
  have weight : weightOf same = weightOf few := (perm.map _).sum_eq
  rw [← weight]
  exact weightOf_le_of_sublist sublist

/-- The weights that `SetOptions` lets a signer have. -/
def WeightsFit (signers : List Signer) : Prop :=
  ∀ signer ∈ signers, 1 ≤ signer.weight ∧ signer.weight ≤ 255

theorem weightOf_le {signers : List Signer} (fit : WeightsFit signers) :
    weightOf signers ≤ 255 * signers.length := by
  induction signers with
  | nil => exact le_rfl
  | cons signer signers ih =>
      have weight := (fit signer List.mem_cons_self).2
      have rest := ih
        (fun other member => fit other (List.mem_cons_of_mem signer member))
      rw [weightOf_cons, List.length_cons]
      push_cast
      omega

theorem addWeight_eq {totalWeight : ℤ} {signer : Signer}
    (positive : 0 ≤ totalWeight)
    (bound : totalWeight + signer.weight < 2 ^ 31) :
    addWeight totalWeight signer = totalWeight + signer.weight := by
  unfold addWeight wrap32
  apply Int.bmod_eq_of_le
  · omega
  · omega

/-- How a pass ends that credits the signers: with the weight reached, or
with the sum of the weights. -/
def Outcome (neededWeight totalWeight : ℤ) (credited : List Signer) :
    Option ℤ → Prop
  | none => credited ≠ [] ∧ neededWeight ≤ totalWeight + weightOf credited
  | some weight =>
      weight = totalWeight + weightOf credited ∧
        (credited ≠ [] → weight < neededWeight)

theorem Outcome.start (neededWeight totalWeight : ℤ) :
    Outcome neededWeight totalWeight [] (some totalWeight) :=
  ⟨(add_zero _).symm, fun some => absurd rfl some⟩

/-- The first signer does not reach the weight. -/
theorem Outcome.cons {neededWeight totalWeight : ℤ} {signer : Signer}
    {credited : List Signer} {result : Option ℤ}
    (missing : totalWeight + signer.weight < neededWeight)
    (outcome : Outcome neededWeight (totalWeight + signer.weight) credited
      result) :
    Outcome neededWeight totalWeight (signer :: credited) result := by
  cases result with
  | none =>
      obtain ⟨_, enough⟩ := outcome
      refine ⟨List.cons_ne_nil _ _, ?_⟩
      rw [weightOf_cons]
      omega
  | some weight =>
      obtain ⟨sum, more⟩ := outcome
      refine ⟨?_, ?_⟩
      · rw [weightOf_cons, sum]
        omega
      · intro _
        cases credited with
        | nil =>
            rw [weightOf_nil] at sum
            omega
        | cons other credited => exact more (List.cons_ne_nil _ _)

theorem Outcome.last {neededWeight totalWeight : ℤ} {signer : Signer}
    (reached : neededWeight ≤ totalWeight + signer.weight) :
    Outcome neededWeight totalWeight [signer] none := by
  refine ⟨List.cons_ne_nil _ _, ?_⟩
  rw [weightOf_cons, weightOf_nil]
  omega

/-- Two passes, of which the first does not reach the weight. -/
theorem Outcome.append {neededWeight totalWeight weight : ℤ}
    {first second : List Signer} {result : Option ℤ}
    (before : Outcome neededWeight totalWeight first (some weight))
    (after : Outcome neededWeight weight second result) :
    Outcome neededWeight totalWeight (first ++ second) result := by
  obtain ⟨sum, missing⟩ := before
  cases result with
  | none =>
      obtain ⟨some, enough⟩ := after
      refine ⟨List.append_ne_nil_of_right_ne_nil _ some, ?_⟩
      rw [weightOf_append]
      omega
  | some total =>
      obtain ⟨sum', missing'⟩ := after
      refine ⟨?_, ?_⟩
      · rw [weightOf_append]
        omega
      · intro some
        cases second with
        | nil =>
            rw [List.append_nil] at some
            have less := missing some
            rw [weightOf_nil] at sum'
            omega
        | cons signer second => exact missing' (List.cons_ne_nil _ _)

theorem Outcome.isNone_iff {neededWeight : ℤ} {credited : List Signer}
    {result : Option ℤ} (outcome : Outcome neededWeight 0 credited result) :
    result = none ↔
      credited ≠ [] ∧ neededWeight ≤ weightOf credited := by
  cases result with
  | none =>
      obtain ⟨some, enough⟩ := outcome
      rw [zero_add] at enough
      exact ⟨fun _ => ⟨some, enough⟩, fun _ => rfl⟩
  | some weight =>
      obtain ⟨sum, missing⟩ := outcome
      constructor
      · intro impossible
        cases impossible
      · rintro ⟨some, enough⟩
        have less := missing some
        omega

/-! ## The pass over the pre-authorized transactions -/

/-- The signers that the transaction itself matches. -/
def preAuthorized (contentsHash : Hash) (signers : List Signer) :
    List Signer :=
  signers.filter (fun signer => signer.key = .preAuthTx contentsHash)

theorem checkPreAuth_credits {contentsHash : Hash} (accountID : AccountID)
    (neededWeight : ℤ) {totalWeight : ℤ}
    (used : List (AccountID × List SignerKey)) {signers : List Signer}
    (fit : WeightsFit signers) (positive : 0 ≤ totalWeight)
    (bound : totalWeight +
      255 * (preAuthorized contentsHash signers).length < 2 ^ 31) :
    ∃ credited, credited.Sublist (preAuthorized contentsHash signers) ∧
      Outcome neededWeight totalWeight credited
        (checkPreAuth contentsHash accountID neededWeight totalWeight used
          signers).1 ∧
      ((checkPreAuth contentsHash accountID neededWeight totalWeight used
          signers).1 ≠ none →
        credited = preAuthorized contentsHash signers) := by
  induction signers generalizing totalWeight used with
  | nil =>
      exact ⟨[], List.Sublist.refl _, Outcome.start _ _, fun _ => rfl⟩
  | cons signer signers ih =>
      have rest : WeightsFit signers :=
        fun other member => fit other (List.mem_cons_of_mem signer member)
      rw [checkPreAuth]
      by_cases same : signer.key = .preAuthTx contentsHash
      · have picked : preAuthorized contentsHash (signer :: signers) =
            signer :: preAuthorized contentsHash signers :=
          List.filter_cons_of_pos (by simpa using same)
        rw [picked] at bound ⊢
        rw [List.length_cons] at bound
        push_cast at bound
        have weight := (fit signer List.mem_cons_self).2
        have sum : addWeight totalWeight signer =
            totalWeight + signer.weight :=
          addWeight_eq positive (by omega)
        simp only [same, if_true, sum]
        by_cases reached : totalWeight + signer.weight ≥ neededWeight
        · rw [if_pos reached]
          refine ⟨[signer], ?_, Outcome.last reached, ?_⟩
          · exact (List.nil_sublist _).cons_cons signer
          · exact fun impossible => absurd rfl impossible
        · rw [if_neg reached]
          obtain ⟨credited, sublist, outcome, all⟩ :=
            ih (insertUsed accountID (.preAuthTx contentsHash) used) rest
              (by omega : 0 ≤ totalWeight + signer.weight) (by omega)
          refine ⟨signer :: credited, sublist.cons_cons signer,
            outcome.cons (not_le.mp reached), ?_⟩
          intro done
          rw [all done]
      · have passed : preAuthorized contentsHash (signer :: signers) =
            preAuthorized contentsHash signers :=
          List.filter_cons_of_neg (by simpa using same)
        rw [passed] at bound ⊢
        rw [if_neg same]
        exact ih used rest positive bound

/-! ## A pass over the signatures -/

/-- A signer with the place of the signature it is credited with. -/
abbrev SignatureCredit := ℕ × Signer

structure Pass (verify : DecoratedSignature → Signer → Bool)
    (sigs : List (DecoratedSignature × Bool)) (signers : List Signer)
    (credits : List SignatureCredit) : Prop where
  verified : ∀ credit ∈ credits, ∃ sig, sigs[credit.1]? = some sig ∧
    verify sig.1 credit.2 = true
  signers : ∀ credit ∈ credits, credit.2 ∈ signers
  once : (credits.map Prod.snd).Nodup
  places : (credits.map Prod.fst).Nodup

/-- The credits of a pass that starts one signature later. -/
def later (credits : List SignatureCredit) : List SignatureCredit :=
  credits.map (fun credit => (credit.1 + 1, credit.2))

theorem later_snd (credits : List SignatureCredit) :
    (later credits).map Prod.snd = credits.map Prod.snd := by
  rw [later, List.map_map]
  rfl

theorem later_fst (credits : List SignatureCredit) :
    (later credits).map Prod.fst =
      (credits.map Prod.fst).map Nat.succ := by
  rw [later, List.map_map, List.map_map]
  rfl

/-- The flags after a pass. -/
def marked (sigs : List (DecoratedSignature × Bool))
    (credits : List SignatureCredit) : List (DecoratedSignature × Bool) :=
  sigs.mapIdx (fun i sig =>
    (sig.1, sig.2 || (credits.map Prod.fst).contains i))

theorem contains_succ (places : List ℕ) (i : ℕ) :
    (places.map Nat.succ).contains (i + 1) = places.contains i := by
  rw [Bool.eq_iff_iff, List.contains_iff_mem, List.contains_iff_mem,
    List.mem_map_of_injective Nat.succ_injective]

theorem marked_cons_later (sig : DecoratedSignature × Bool)
    (sigs : List (DecoratedSignature × Bool))
    (credits : List SignatureCredit) :
    marked (sig :: sigs) (later credits) = sig :: marked sigs credits := by
  unfold marked
  rw [List.mapIdx_cons, later_fst]
  simp only [contains_succ]
  simp

theorem marked_cons_taken (sig : DecoratedSignature × Bool)
    (sigs : List (DecoratedSignature × Bool)) (signer : Signer)
    (credits : List SignatureCredit) :
    marked (sig :: sigs) ((0, signer) :: later credits) =
      (sig.1, true) :: marked sigs credits := by
  unfold marked
  rw [List.mapIdx_cons, List.map_cons, later_fst]
  simp only [List.contains_cons, contains_succ]
  simp

theorem marked_nil (sigs : List (DecoratedSignature × Bool)) :
    marked sigs [] = sigs := by
  induction sigs with
  | nil => rfl
  | cons sig sigs ih =>
      have step := marked_cons_later sig sigs []
      rw [ih] at step
      exact step

section Passes

variable {verify : DecoratedSignature → Signer → Bool}
  {sigs : List (DecoratedSignature × Bool)} {signers : List Signer}
  {credits : List SignatureCredit}

theorem Pass.nil : Pass verify sigs signers [] where
  verified _ member := by cases member
  signers _ member := by cases member
  once := List.Pairwise.nil
  places := List.Pairwise.nil

theorem Pass.skip (pass : Pass verify sigs signers credits)
    (sig : DecoratedSignature × Bool) :
    Pass verify (sig :: sigs) signers (later credits) where
  verified := by
    intro credit member
    obtain ⟨before, inside, rfl⟩ := List.mem_map.mp member
    exact pass.verified before inside
  signers := by
    intro credit member
    obtain ⟨before, inside, rfl⟩ := List.mem_map.mp member
    exact pass.signers before inside
  once := by
    rw [later_snd]
    exact pass.once
  places := by
    rw [later_fst]
    exact pass.places.map Nat.succ_injective

/-- The first signature takes a signer, the others what is left. -/
theorem Pass.take {sig : DecoratedSignature × Bool} {signer : Signer}
    (verified : verify sig.1 signer = true) (member : signer ∈ signers)
    {left : List Signer} (sublist : left.Sublist signers)
    (taken : signer ∉ left) (pass : Pass verify sigs left credits) :
    Pass verify (sig :: sigs) signers ((0, signer) :: later credits) where
  verified := by
    intro credit inside
    rcases List.mem_cons.mp inside with rfl | inside
    · exact ⟨sig, rfl, verified⟩
    · exact (pass.skip sig).verified credit inside
  signers := by
    intro credit inside
    rcases List.mem_cons.mp inside with rfl | inside
    · exact member
    · exact sublist.subset ((pass.skip sig).signers credit inside)
  once := by
    rw [List.map_cons, later_snd]
    refine List.nodup_cons.mpr ⟨?_, pass.once⟩
    intro again
    obtain ⟨credit, inside, same⟩ := List.mem_map.mp again
    have left := pass.signers credit inside
    rw [same] at left
    exact taken left
  places := by
    rw [List.map_cons, later_fst]
    refine List.nodup_cons.mpr ⟨?_, pass.places.map Nat.succ_injective⟩
    simp

/-- A signature verifies for one of the signers at most. -/
def OneKey (verify : DecoratedSignature → Signer → Bool)
    (sigs : List DecoratedSignature) (signers : List Signer) : Prop :=
  ∀ sig ∈ sigs, ∀ first ∈ signers, ∀ second ∈ signers,
    verify sig first = true → verify sig second = true → first = second

theorem OneKey.tail {sig : DecoratedSignature}
    {rest : List DecoratedSignature} {few many : List Signer}
    (one : OneKey verify (sig :: rest) many) (sublist : few.Sublist many) :
    OneKey verify rest few :=
  fun sig' member first inFirst second inSecond =>
    one sig' (List.mem_cons_of_mem _ member) first (sublist.subset inFirst)
      second (sublist.subset inSecond)

theorem not_mem_eraseP {signer : Signer} {sig : DecoratedSignature}
    (nodup : signers.Nodup)
    (found : signers.find? (verify sig) = some signer) :
    signer ∉ signers.eraseP (verify sig) := by
  obtain ⟨verified, before, after, rfl, none⟩ :=
    List.find?_eq_some_iff_append.mp found
  have none' : ∀ other ∈ before, ¬ verify sig other = true := by
    intro other member
    simpa using none other member
  rw [List.eraseP_append_right _ none', List.eraseP_cons_of_pos verified]
  exact (List.nodup_middle.mp nodup).notMem

variable (verify sigs) in
theorem verifyAll_credits (neededWeight : ℤ) {totalWeight : ℤ}
    (nodup : signers.Nodup) (fit : WeightsFit signers)
    (positive : 0 ≤ totalWeight)
    (bound : totalWeight + 255 * sigs.length < 2 ^ 31) :
    ∃ credits, Pass verify sigs signers credits ∧
      (verifyAll verify neededWeight sigs signers totalWeight).2 =
        marked sigs credits ∧
      Outcome neededWeight totalWeight (credits.map Prod.snd)
        (verifyAll verify neededWeight sigs signers totalWeight).1 ∧
      (OneKey verify (sigs.map Prod.fst) signers →
        (verifyAll verify neededWeight sigs signers totalWeight).1 ≠ none →
        ∀ signer ∈ signers, (∃ sig ∈ sigs.map Prod.fst,
          verify sig signer = true) → signer ∈ credits.map Prod.snd) := by
  induction sigs generalizing signers totalWeight with
  | nil =>
      refine ⟨[], Pass.nil, rfl, Outcome.start _ _, ?_⟩
      rintro _ _ signer _ ⟨sig, member, _⟩
      cases member
  | cons head rest ih =>
      obtain ⟨sig, used⟩ := head
      rw [List.length_cons] at bound
      push_cast at bound
      rw [verifyAll]
      cases found : signers.find? (verify sig) with
      | none =>
          obtain ⟨credits, pass, flags, outcome, all⟩ :=
            ih nodup fit positive (by omega)
          refine ⟨later credits, pass.skip _, ?_, ?_, ?_⟩
          · rw [marked_cons_later, ← flags]
          · rw [later_snd]
            exact outcome
          · intro one done signer member verified
            obtain ⟨sig', place, verified⟩ := verified
            rw [later_snd]
            refine all (one.tail (List.Sublist.refl _)) done signer member ?_
            rcases List.mem_cons.mp place with rfl | place
            · exact absurd verified
                (List.find?_eq_none.mp found signer member)
            · exact ⟨sig', place, verified⟩
      | some signer =>
          have verified := List.find?_some found
          have member := List.mem_of_find?_eq_some found
          have sublist : (signers.eraseP (verify sig)).Sublist signers :=
            List.eraseP_sublist
          have taken := not_mem_eraseP nodup found
          have weight := (fit signer member).2
          have sum : addWeight totalWeight signer =
              totalWeight + signer.weight :=
            addWeight_eq positive (by omega)
          simp only [sum]
          by_cases reached : totalWeight + signer.weight ≥ neededWeight
          · rw [if_pos reached]
            refine ⟨[(0, signer)],
              Pass.nil.take verified member (List.nil_sublist _)
                List.not_mem_nil, ?_, Outcome.last reached, ?_⟩
            · have flags := marked_cons_taken (sig, used) rest signer []
              rw [marked_nil] at flags
              exact flags.symm
            · exact fun _ impossible => absurd rfl impossible
          · rw [if_neg reached]
            obtain ⟨credits, pass, flags, outcome, all⟩ :=
              ih (nodup.sublist sublist)
                (fun other inside => fit other (sublist.subset inside))
                (by omega : 0 ≤ totalWeight + signer.weight) (by omega)
            refine ⟨(0, signer) :: later credits,
              pass.take verified member sublist taken, ?_, ?_, ?_⟩
            · rw [marked_cons_taken, ← flags]
            · rw [List.map_cons, later_snd]
              exact outcome.cons (not_le.mp reached)
            · intro one done other inside matching
              obtain ⟨sig', place, matching⟩ := matching
              rw [List.map_cons, later_snd, List.mem_cons]
              by_cases same : other = signer
              · exact .inl same
              -- the signature is for the signer alone
              have apart : ¬ verify sig other = true := by
                intro both
                exact same (one sig List.mem_cons_self other inside signer
                  member both verified)
              refine .inr (all (one.tail sublist) done other
                ((List.mem_eraseP_of_neg apart).mpr inside) ?_)
              rcases List.mem_cons.mp place with rfl | place
              · exact absurd matching apart
              · exact ⟨sig', place, matching⟩

theorem marked_map_fst (sigs : List (DecoratedSignature × Bool))
    (credits : List SignatureCredit) :
    (marked sigs credits).map Prod.fst = sigs.map Prod.fst := by
  apply List.ext_getElem?
  intro i
  simp only [marked, List.getElem?_map, List.getElem?_mapIdx,
    Option.map_map]
  rfl

theorem Pass.unmark {verify : DecoratedSignature → Signer → Bool}
    {sigs : List (DecoratedSignature × Bool)}
    {before credits : List SignatureCredit}
    (pass : Pass verify (marked sigs before) signers credits) :
    Pass verify sigs signers credits where
  verified := by
    intro credit member
    obtain ⟨sig, here, verified⟩ := pass.verified credit member
    unfold marked at here
    rw [List.getElem?_mapIdx, Option.map_eq_some_iff] at here
    obtain ⟨sig', there, rfl⟩ := here
    exact ⟨sig', there, verified⟩
  signers := pass.signers
  once := pass.once
  places := pass.places

theorem Pass.length_le {verify : DecoratedSignature → Signer → Bool}
    {sigs : List (DecoratedSignature × Bool)}
    {credits : List SignatureCredit}
    (pass : Pass verify sigs signers credits) :
    credits.length ≤ sigs.length := by
  have inside : credits.map Prod.fst ⊆ List.range sigs.length := by
    intro place member
    obtain ⟨credit, here, rfl⟩ := List.mem_map.mp member
    obtain ⟨sig, found, _⟩ := pass.verified credit here
    exact List.mem_range.mpr (List.getElem?_eq_some_iff.mp found).1
  have length := (pass.places.subperm inside).length_le
  rwa [List.length_map, List.length_range] at length

theorem Pass.weightOf_le {verify : DecoratedSignature → Signer → Bool}
    {sigs : List (DecoratedSignature × Bool)}
    {credits : List SignatureCredit} (fit : WeightsFit signers)
    (pass : Pass verify sigs signers credits) :
    weightOf (credits.map Prod.snd) ≤ 255 * sigs.length := by
  have creditsFit : WeightsFit (credits.map Prod.snd) := by
    intro signer member
    obtain ⟨credit, here, rfl⟩ := List.mem_map.mp member
    exact fit _ (pass.signers credit here)
  have weight := SignatureChecker.weightOf_le creditsFit
  have length := pass.length_le
  rw [List.length_map] at weight
  omega

end Passes

end SignatureChecker

end StellarCore.Transactions
