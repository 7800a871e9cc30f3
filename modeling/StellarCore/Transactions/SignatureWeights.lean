import StellarCore.Transactions.SignaturePasses

/-!
# The weight of signatures

The three passes together: a check finds the needed weight if there is a
matching of signers that has it, with the hash of the transaction or with
signatures.  A signature may serve two signers if one of them is a hash.
-/

namespace StellarCore.Transactions

open StellarCore.Lib

namespace SignatureChecker

/-! ## The whole check -/

/-- A signer with the place of a signature, or with none if it is the
transaction that matches it. -/
abbrev Credit := Option ℕ × Signer

def Verified (crypto : Crypto) (checker : SignatureChecker) : Credit → Prop
  | (none, signer) => signer.key = .preAuthTx checker.contentsHash
  | (some place, signer) => ∃ sig, checker.signatures[place]? = some sig ∧
      (verifyHashX crypto sig.1 signer = true ∨
        verifyEd25519 crypto checker.contentsHash sig.1 signer = true)

/-- No signer is credited twice, and a signature only if one of the two
signers is a hash and the other is not. -/
structure Matching (crypto : Crypto) (checker : SignatureChecker)
    (signers : List Signer) (credits : List Credit) : Prop where
  signers : ∀ credit ∈ credits, credit.2 ∈ signers
  verified : ∀ credit ∈ credits, Verified crypto checker credit
  once : (credits.map Prod.snd).Nodup
  apart : credits.Pairwise (fun first second => first.1 = second.1 →
    isHashX first.2 ≠ isHashX second.2)

def placed (credits : List SignatureCredit) : List Credit :=
  credits.map (fun credit => (some credit.1, credit.2))

def unplaced (signers : List Signer) : List Credit :=
  signers.map (fun signer => (none, signer))

theorem placed_snd (credits : List SignatureCredit) :
    (placed credits).map Prod.snd = credits.map Prod.snd := by
  rw [placed, List.map_map]
  rfl

theorem unplaced_snd (signers : List Signer) :
    (unplaced signers).map Prod.snd = signers := by
  rw [unplaced, List.map_map]
  exact List.map_id signers

theorem isHashX_of_verify {crypto : Crypto} {sig : DecoratedSignature}
    {signer : Signer} (verified : verifyHashX crypto sig signer = true) :
    signer.key = .hashX (crypto.sha256 sig.signature) := by
  unfold verifyHashX SignatureUtils.verifyHashX at verified
  split at verified
  next hash key =>
    rw [Bool.and_eq_true, decide_eq_true_eq] at verified
    rw [key, verified.2]
  next => cases verified

theorem eq_of_key {signers : List Signer}
    (keys : (signers.map Signer.key).Nodup) {first second : Signer}
    (one : first ∈ signers) (two : second ∈ signers)
    (same : first.key = second.key) : first = second :=
  List.inj_on_of_nodup_map keys one two same

/-- A signature is the preimage of one hash alone. -/
theorem oneKey_hashX (crypto : Crypto) (sigs : List DecoratedSignature)
    {signers : List Signer} (keys : (signers.map Signer.key).Nodup) :
    OneKey (verifyHashX crypto) sigs signers := by
  intro sig _ first one second two verified verified'
  exact eq_of_key keys one two
    ((isHashX_of_verify verified).trans (isHashX_of_verify verified').symm)

theorem preAuthorized_length {signers : List Signer}
    (keys : (signers.map Signer.key).Nodup) (contentsHash : Hash) :
    (preAuthorized contentsHash signers).length ≤ 1 := by
  have keys' : ((preAuthorized contentsHash signers).map
      Signer.key).Nodup := keys.sublist (List.filter_sublist.map _)
  have same : ∀ key ∈ (preAuthorized contentsHash signers).map Signer.key,
      key = .preAuthTx contentsHash := by
    intro key member
    obtain ⟨signer, inside, rfl⟩ := List.mem_map.mp member
    simpa using (List.mem_filter.mp inside).2
  have once := List.nodup_iff_count_le_one.mp keys' (.preAuthTx contentsHash)
  rw [List.count_eq_length.mpr (fun key member => (same key member).symm),
    List.length_map] at once
  exact once

section Check

variable {crypto : Crypto} {checker : SignatureChecker}
  {signers : List Signer}

theorem Pass.matching_apart {verify : DecoratedSignature → Signer → Bool}
    {credits : List SignatureCredit}
    (pass : Pass verify checker.signatures signers credits) :
    (placed credits).Pairwise (fun first second =>
      first.1 = second.1 → isHashX first.2 ≠ isHashX second.2) := by
  have places := List.pairwise_map.mp pass.places
  refine List.pairwise_map.mpr (places.imp ?_)
  intro first second differ same
  exact absurd (Option.some.inj same) differ

theorem matching_passes (keys : (signers.map Signer.key).Nodup)
    {first : List Signer} {second third : List SignatureCredit}
    (pre : first.Sublist (preAuthorized checker.contentsHash signers))
    (hashes : Pass (verifyHashX crypto) checker.signatures
      (signers.filter isHashX) second)
    (sigs : Pass (verifyEd25519 crypto checker.contentsHash)
      checker.signatures (signers.filter isEd25519) third) :
    Matching crypto checker signers
      (unplaced first ++ (placed second ++ placed third)) := by
  have preKey : ∀ signer ∈ first,
      signer ∈ signers ∧ signer.key = .preAuthTx checker.contentsHash := by
    intro signer member
    simpa using List.mem_filter.mp (pre.subset member)
  have hashKey : ∀ credit ∈ second,
      credit.2 ∈ signers ∧ isHashX credit.2 = true :=
    fun credit member => List.mem_filter.mp (hashes.signers credit member)
  have sigKey : ∀ credit ∈ third,
      credit.2 ∈ signers ∧ isEd25519 credit.2 = true :=
    fun credit member => List.mem_filter.mp (sigs.signers credit member)
  have notHash : ∀ signer : Signer, isEd25519 signer = true →
      isHashX signer = false := by
    intro signer ed25519
    unfold isEd25519 at ed25519
    unfold isHashX
    cases key : signer.key with
    | ed25519 _ => rfl
    | preAuthTx _ => rfl
    | hashX _ =>
        rw [key] at ed25519
        cases ed25519
  constructor
  · intro credit member
    simp only [List.mem_append, unplaced, placed, List.mem_map] at member
    rcases member with ⟨signer, inside, rfl⟩ | ⟨before, inside, rfl⟩ |
      ⟨before, inside, rfl⟩
    · exact (preKey signer inside).1
    · exact (hashKey before inside).1
    · exact (sigKey before inside).1
  · intro credit member
    simp only [List.mem_append, unplaced, placed, List.mem_map] at member
    rcases member with ⟨signer, inside, rfl⟩ | ⟨before, inside, rfl⟩ |
      ⟨before, inside, rfl⟩
    · exact (preKey signer inside).2
    · obtain ⟨sig, here, verified⟩ := hashes.verified before inside
      exact ⟨sig, here, .inl verified⟩
    · obtain ⟨sig, here, verified⟩ := sigs.verified before inside
      exact ⟨sig, here, .inr verified⟩
  · rw [List.map_append, List.map_append, unplaced_snd, placed_snd,
      placed_snd, List.nodup_append, List.nodup_append]
    have nodup : (preAuthorized checker.contentsHash signers).Nodup :=
      (keys.of_map _).filter _
    refine ⟨nodup.sublist pre, ⟨hashes.once, sigs.once, ?_⟩, ?_⟩
    · intro one inSecond other inThird same
      obtain ⟨credit, inside, rfl⟩ := List.mem_map.mp inSecond
      obtain ⟨credit', inside', rfl⟩ := List.mem_map.mp inThird
      have hash := (hashKey credit inside).2
      rw [same, notHash _ (sigKey credit' inside').2] at hash
      cases hash
    · intro one inFirst other inLater same
      have key := (preKey one inFirst).2
      rw [same] at key
      rcases List.mem_append.mp inLater with inside | inside
      · obtain ⟨credit, place, rfl⟩ := List.mem_map.mp inside
        have hash := (hashKey credit place).2
        rw [isHashX, key] at hash
        cases hash
      · obtain ⟨credit, place, rfl⟩ := List.mem_map.mp inside
        have ed25519 := (sigKey credit place).2
        rw [isEd25519, key] at ed25519
        cases ed25519
  · rw [List.pairwise_append, List.pairwise_append]
    refine ⟨?_, ⟨hashes.matching_apart, sigs.matching_apart, ?_⟩, ?_⟩
    · -- the transaction matches one key alone
      have one := pre.length_le.trans
        (preAuthorized_length keys checker.contentsHash)
      rcases first with _ | ⟨signer, _ | ⟨other, rest⟩⟩
      · exact List.Pairwise.nil
      · exact List.pairwise_singleton _ _
      · rw [List.length_cons, List.length_cons] at one
        omega
    · intro one inSecond other inThird _ same
      obtain ⟨credit, inside, rfl⟩ := List.mem_map.mp inSecond
      obtain ⟨credit', inside', rfl⟩ := List.mem_map.mp inThird
      rw [(hashKey credit inside).2,
        notHash _ (sigKey credit' inside').2] at same
      cases same
    · intro one inFirst other inLater same
      obtain ⟨signer, _, rfl⟩ := List.mem_map.mp inFirst
      rcases List.mem_append.mp inLater with inside | inside
      · obtain ⟨credit, _, rfl⟩ := List.mem_map.mp inside
        cases same
      · obtain ⟨credit, _, rfl⟩ := List.mem_map.mp inside
        cases same

/-- The flags once the credited signatures are marked. -/
def flagged (sigs : List (DecoratedSignature × Bool))
    (credits : List Credit) : List (DecoratedSignature × Bool) :=
  sigs.mapIdx (fun i sig =>
    (sig.1, sig.2 || (credits.map Prod.fst).contains (some i)))

theorem contains_placed (credits : List SignatureCredit) (i : ℕ) :
    ((placed credits).map Prod.fst).contains (some i) =
      (credits.map Prod.fst).contains i := by
  rw [Bool.eq_iff_iff, List.contains_iff_mem, List.contains_iff_mem, placed,
    List.map_map]
  simp

theorem contains_unplaced (first : List Signer) (i : ℕ) :
    ((unplaced first).map Prod.fst).contains (some i) = false := by
  rw [Bool.eq_false_iff, Ne, List.contains_iff_mem, unplaced, List.map_map]
  simp

theorem flagged_passes (sigs : List (DecoratedSignature × Bool))
    (first : List Signer) (second third : List SignatureCredit) :
    flagged sigs (unplaced first ++ (placed second ++ placed third)) =
      marked (marked sigs second) third := by
  unfold flagged marked
  rw [List.mapIdx_mapIdx]
  congr 1
  funext i sig
  simp only [List.map_append, List.contains_append, contains_unplaced,
    contains_placed, Function.comp_apply, Bool.false_or, Bool.or_assoc]

/-- The signers that can be matched at all. -/
def Matchable (crypto : Crypto) (checker : SignatureChecker)
    (signer : Signer) : Prop :=
  ∃ place, Verified crypto checker (place, signer)

theorem passes_snd (first : List Signer)
    (second third : List SignatureCredit) :
    (unplaced first ++ (placed second ++ placed third)).map Prod.snd =
      first ++ second.map Prod.snd ++ third.map Prod.snd := by
  rw [List.map_append, List.map_append, unplaced_snd, placed_snd,
    placed_snd, List.append_assoc]

/-- What a check has credited: the marks, the answer and, if the weight was
not reached, every signer that can be matched. -/
structure Checked (crypto : Crypto) (checker : SignatureChecker)
    (signers : List Signer) (neededWeight : ℤ)
    (result : Bool × SignatureChecker) (credits : List Credit) : Prop where
  matching : Matching crypto checker signers credits
  flags : result.2.signatures = flagged checker.signatures credits
  answer : result.1 = true ↔
    credits ≠ [] ∧ neededWeight ≤ weightOf (credits.map Prod.snd)
  all : OneKey (verifyEd25519 crypto checker.contentsHash)
      (checker.signatures.map Prod.fst) signers → result.1 = false →
    ∀ signer ∈ signers, Matchable crypto checker signer →
      signer ∈ credits.map Prod.snd

theorem checked_of_outcome {neededWeight : ℤ}
    {result : Bool × SignatureChecker} {last : Option ℤ}
    {first : List Signer} {second third : List SignatureCredit}
    (keys : (signers.map Signer.key).Nodup)
    (pre : first.Sublist (preAuthorized checker.contentsHash signers))
    (hashes : Pass (verifyHashX crypto) checker.signatures
      (signers.filter isHashX) second)
    (sigs : Pass (verifyEd25519 crypto checker.contentsHash)
      checker.signatures (signers.filter isEd25519) third)
    (flags : result.2.signatures =
      marked (marked checker.signatures second) third)
    (outcome : Outcome neededWeight 0
      (first ++ second.map Prod.snd ++ third.map Prod.snd) last)
    (answer : result.1 = last.isNone)
    (all : OneKey (verifyEd25519 crypto checker.contentsHash)
        (checker.signatures.map Prod.fst) signers → result.1 = false →
      ∀ signer ∈ signers, Matchable crypto checker signer →
        signer ∈ first ++ second.map Prod.snd ++ third.map Prod.snd) :
    Checked crypto checker signers neededWeight result
      (unplaced first ++ (placed second ++ placed third)) where
  matching := matching_passes keys pre hashes sigs
  flags := by rw [flagged_passes, flags]
  answer := by
    rw [answer, Option.isNone_iff_eq_none, outcome.isNone_iff, passes_snd,
      ← passes_snd, Ne, Ne, List.map_eq_nil_iff]
  all := by
    rw [passes_snd]
    exact all

theorem isEd25519_of_verify {contentsHash : Hash} {sig : DecoratedSignature}
    {signer : Signer}
    (verified : verifyEd25519 crypto contentsHash sig signer = true) :
    isEd25519 signer = true := by
  unfold verifyEd25519 at verified
  unfold isEd25519
  cases key : signer.key with
  | ed25519 _ => rfl
  | preAuthTx _ =>
      rw [key] at verified
      cases verified
  | hashX _ =>
      rw [key] at verified
      cases verified

theorem checkSignature_checked (accountID : AccountID) (neededWeight : ℤ)
    (protocol : checker.protocolVersion ≠ 7)
    (keys : (signers.map Signer.key).Nodup) (fit : WeightsFit signers)
    (few : checker.signatures.length ≤ 20) :
    ∃ credits, Checked crypto checker signers neededWeight
      (checker.checkSignature crypto accountID signers neededWeight)
      credits := by
  have nodup : signers.Nodup := keys.of_map _
  have few' : (checker.signatures.length : ℤ) ≤ 20 := by omega
  have fitted : ∀ p : Signer → Bool, WeightsFit (signers.filter p) :=
    fun p signer member => fit signer (List.mem_of_mem_filter member)
  have one := preAuthorized_length keys checker.contentsHash
  obtain ⟨first, pre, outcome, all⟩ := checkPreAuth_credits accountID
    neededWeight checker.usedOneTimeSignerKeys fit le_rfl
    (by omega : (0 : ℤ) + 255 *
      (preAuthorized checker.contentsHash signers).length < 2 ^ 31)
  unfold checkSignature
  rw [if_neg protocol]
  generalize checkPreAuth checker.contentsHash accountID neededWeight 0
    checker.usedOneTimeSignerKeys signers = run at outcome all ⊢
  obtain ⟨result, used⟩ := run
  cases result with
  | none =>
      have outcome' : Outcome neededWeight 0
          (first ++ ([] : List SignatureCredit).map Prod.snd ++
            ([] : List SignatureCredit).map Prod.snd) none := by
        rw [List.map_nil, List.append_nil, List.append_nil]
        exact outcome
      refine ⟨_, checked_of_outcome keys pre Pass.nil Pass.nil ?_ outcome'
        rfl ?_⟩
      · rw [marked_nil, marked_nil]
      · intro _ impossible
        cases impossible
  | some weight =>
      have firstWeight : weightOf first ≤ 255 := by
        have firstFits : WeightsFit first :=
          fun signer member => fitted _ signer (pre.subset member)
        have weight := SignatureChecker.weightOf_le firstFits
        have length := pre.length_le
        omega
      have firstPositive := weightOf_nonneg first
      have sum : weight = 0 + weightOf first := outcome.1
      obtain ⟨second, hashes, flags, outcome', all'⟩ :=
        verifyAll_credits (verifyHashX crypto) checker.signatures
          neededWeight (nodup.filter isHashX) (fitted isHashX)
          (by omega : 0 ≤ weight) (by omega)
      have both := outcome.append outcome'
      dsimp only
      generalize verifyAll (verifyHashX crypto) neededWeight
        checker.signatures (signers.filter isHashX) weight = run
        at flags outcome' all' both ⊢
      obtain ⟨result, signatures⟩ := run
      dsimp only at flags
      subst flags
      cases result with
      | none =>
          have both' : Outcome neededWeight 0
              (first ++ second.map Prod.snd ++
                ([] : List SignatureCredit).map Prod.snd) none := by
            rw [List.map_nil, List.append_nil]
            exact both
          refine ⟨_, checked_of_outcome keys pre hashes Pass.nil ?_ both'
            rfl ?_⟩
          · rw [marked_nil]
          · intro _ impossible
            cases impossible
      | some weight' =>
          have secondWeight := hashes.weightOf_le (fitted isHashX)
          have secondPositive := weightOf_nonneg (second.map Prod.snd)
          have sum' : weight' = weight + weightOf (second.map Prod.snd) :=
            outcome'.1
          have length : (marked checker.signatures second).length =
              checker.signatures.length := List.length_mapIdx
          obtain ⟨third, sigs, flags, outcome'', all''⟩ :=
            verifyAll_credits (verifyEd25519 crypto checker.contentsHash)
              (marked checker.signatures second) neededWeight
              (nodup.filter isEd25519) (fitted isEd25519)
              (by omega : 0 ≤ weight') (by omega)
          have three := both.append outcome''
          dsimp only
          generalize verifyAll (verifyEd25519 crypto checker.contentsHash)
            neededWeight (marked checker.signatures second)
            (signers.filter isEd25519) weight' = run
            at flags outcome'' all'' three ⊢
          obtain ⟨result, signatures⟩ := run
          dsimp only at flags
          subst flags
          cases result with
          | none =>
              refine ⟨_, checked_of_outcome keys pre hashes sigs.unmark rfl
                three rfl ?_⟩
              intro _ impossible
              cases impossible
          | some total =>
              refine ⟨_, checked_of_outcome keys pre hashes sigs.unmark rfl
                three rfl ?_⟩
              rintro one' - signer member ⟨place, verified⟩
              rw [List.mem_append, List.mem_append]
              cases place with
              | none =>
                  rw [all (Option.some_ne_none weight)]
                  exact .inl (.inl (List.mem_filter.mpr
                    ⟨member, decide_eq_true verified⟩))
              | some place =>
                  obtain ⟨sig, here, matching⟩ := verified
                  have known : sig.1 ∈ checker.signatures.map Prod.fst :=
                    List.mem_map_of_mem (List.mem_of_getElem? here)
                  rcases matching with verified | verified
                  · have hash : isHashX signer = true := by
                      rw [isHashX, isHashX_of_verify verified]
                    exact .inl (.inr (all'
                      (oneKey_hashX crypto _
                        (keys.sublist (List.filter_sublist.map _)))
                      (Option.some_ne_none weight') signer
                      (List.mem_filter.mpr ⟨member, hash⟩)
                      ⟨sig.1, known, verified⟩))
                  · have ed25519 := isEd25519_of_verify verified
                    rw [marked_map_fst] at all''
                    exact .inr (all''
                      (fun sig inside first one second two =>
                        one' sig inside first (List.mem_of_mem_filter one)
                          second (List.mem_of_mem_filter two))
                      (Option.some_ne_none total) signer
                      (List.mem_filter.mpr ⟨member, ed25519⟩)
                      ⟨sig.1, known, verified⟩)

theorem flagged_true {sigs : List (DecoratedSignature × Bool)}
    {credits : List Credit} {place : ℕ} {sig : DecoratedSignature}
    (marked : (flagged sigs credits)[place]? = some (sig, true)) :
    sigs[place]? = some (sig, true) ∨
      ∃ signer, (some place, signer) ∈ credits := by
  unfold flagged at marked
  rw [List.getElem?_mapIdx, Option.map_eq_some_iff] at marked
  obtain ⟨⟨sig', used⟩, here, same⟩ := marked
  obtain ⟨rfl, either⟩ := Prod.mk.inj same
  cases used with
  | true => exact .inl here
  | false =>
      rw [Bool.false_or, List.contains_iff_mem] at either
      obtain ⟨⟨_, signer⟩, member, rfl⟩ := List.mem_map.mp either
      exact .inr ⟨signer, member⟩

/-- A check finds the weight if there is a matching that has it, and counts
the weights of one matching only. -/
theorem checkSignature_weight (crypto : Crypto) (checker : SignatureChecker)
    (accountID : AccountID) (signers : List Signer) (neededWeight : ℤ)
    (protocol : checker.protocolVersion ≠ 7)
    (keys : (signers.map Signer.key).Nodup) (fit : WeightsFit signers)
    (few : checker.signatures.length ≤ 20) :
    (OneKey (verifyEd25519 crypto checker.contentsHash)
        (checker.signatures.map Prod.fst) signers →
      ((checker.checkSignature crypto accountID signers neededWeight).1 =
          true ↔
        ∃ credits, Matching crypto checker signers credits ∧ credits ≠ [] ∧
          neededWeight ≤ weightOf (credits.map Prod.snd))) ∧
    (∃ credits, Matching crypto checker signers credits ∧
      ((checker.checkSignature crypto accountID signers neededWeight).1 =
          true ↔
        credits ≠ [] ∧ neededWeight ≤ weightOf (credits.map Prod.snd)) ∧
      (checker.checkSignature crypto accountID signers
          neededWeight).2.signatures =
        flagged checker.signatures credits) ∧
    ∀ place sig, (checker.checkSignature crypto accountID signers
        neededWeight).2.signatures[place]? = some (sig, true) →
      checker.signatures[place]? = some (sig, true) ∨
        ∃ signer ∈ signers,
          Verified crypto checker (some place, signer) := by
  obtain ⟨credits, checked⟩ := checkSignature_checked accountID neededWeight
    protocol keys fit few
  refine ⟨?_, ⟨credits, checked.matching, checked.answer, checked.flags⟩, ?_⟩
  · intro one
    constructor
    · intro reached
      exact ⟨credits, checked.matching, checked.answer.mp reached⟩
    · rintro ⟨others, matching, some, enough⟩
      by_contra missed
      -- every signer of the other matching was credited as well
      have subset : others.map Prod.snd ⊆ credits.map Prod.snd := by
        intro signer member
        obtain ⟨credit, inside, rfl⟩ := List.mem_map.mp member
        exact checked.all one (Bool.eq_false_iff.mpr missed) _
          (matching.signers credit inside)
          ⟨credit.1, matching.verified credit inside⟩
      have more := weightOf_le_of_subset matching.once subset
      refine missed (checked.answer.mpr ⟨?_, enough.trans more⟩)
      rintro rfl
      rw [List.map_nil, List.subset_nil, List.map_eq_nil_iff] at subset
      exact some subset
  · intro place sig marked
    rw [checked.flags] at marked
    rcases flagged_true marked with before | ⟨signer, member⟩
    · exact .inl before
    · exact .inr ⟨signer, checked.matching.signers _ member,
        checked.matching.verified _ member⟩

end Check

/-! ## One signature for two signers -/

/-- The signature is the preimage of the hash and verifies for the key, and
both end in the same four bytes. -/
def doubleCrypto : Crypto where
  verifySig key signature hash :=
    key = 0x700000009 ∧ signature = [1] ∧ hash = 3
  sha256 bytes := if bytes = [1] then 0x500000009 else 0

def doubleChecker : SignatureChecker :=
  .start 9 3 [{ hint := 9, signature := [1] }]

def doubleSigners : List Signer :=
  [{ key := .hashX 0x500000009, weight := 1 },
    { key := .ed25519 0x700000009, weight := 1 }]

theorem doubleSigners_oneKey :
    OneKey (verifyEd25519 doubleCrypto 3)
      (doubleChecker.signatures.map Prod.fst) doubleSigners := by
  intro sig _ first one second two verified verified'
  have both : ∀ signer ∈ doubleSigners,
      verifyEd25519 doubleCrypto 3 sig signer = true →
        signer = { key := .ed25519 0x700000009, weight := 1 } := by
    intro signer member found
    have ed25519 := isEd25519_of_verify found
    simp only [doubleSigners, List.mem_cons, List.not_mem_nil, or_false]
      at member
    rcases member with rfl | rfl
    · cases ed25519
    · rfl
  rw [both first one verified, both second two verified']

/-- The needed weight is reached with one signature, though no signers with
signatures of their own have it. -/
theorem doubleSigners_reached :
    (doubleChecker.checkSignature doubleCrypto 0x700000009 doubleSigners
        2).1 = true ∧
      OneKey (verifyEd25519 doubleCrypto 3)
        (doubleChecker.signatures.map Prod.fst) doubleSigners ∧
      ¬ ∃ credits, Matching doubleCrypto doubleChecker doubleSigners credits ∧
        credits.Pairwise (fun first second =>
          first.1 = second.1 → first.1 = none) ∧
        2 ≤ weightOf (credits.map Prod.snd) := by
  refine ⟨by decide +kernel, doubleSigners_oneKey, ?_⟩
  rintro ⟨credits, matching, differ, enough⟩
  have first : ∀ credit ∈ credits,
      credit.1 = some 0 ∧ credit.2.weight = 1 := by
    rintro ⟨place, signer⟩ member
    have known := matching.signers _ member
    have verified := matching.verified _ member
    simp only [doubleSigners, List.mem_cons, List.not_mem_nil, or_false]
      at known
    have weight : signer.weight = 1 := by
      rcases known with rfl | rfl
      · rfl
      · rfl
    refine ⟨?_, weight⟩
    cases place with
    | none =>
        rcases known with rfl | rfl
        · cases verified
        · cases verified
    | some place =>
        obtain ⟨sig, here, _⟩ := verified
        have inside := (List.getElem?_eq_some_iff.mp here).1
        exact congrArg some (Nat.lt_one_iff.mp inside)
  rcases credits with _ | ⟨one, _ | ⟨two, rest⟩⟩
  · exact absurd enough (by decide)
  · rw [List.map_cons, List.map_nil, weightOf_cons, weightOf_nil,
      (first one List.mem_cons_self).2] at enough
    exact absurd enough (by decide)
  · have same := (first one List.mem_cons_self).1
    have same' := (first two (List.mem_cons_of_mem one List.mem_cons_self)).1
    have none := (List.pairwise_cons.mp differ).1 two List.mem_cons_self
      (same.trans same'.symm)
    rw [same] at none
    cases none

theorem checkSignature_weight_double :
    ((doubleChecker.checkSignature doubleCrypto 0x700000009 doubleSigners
        2).1 = true ↔
      ∃ credits, Matching doubleCrypto doubleChecker doubleSigners credits ∧
        credits ≠ [] ∧ 2 ≤ weightOf (credits.map Prod.snd)) :=
  (checkSignature_weight doubleCrypto doubleChecker 0x700000009
    doubleSigners 2 (by decide) (by decide) (by unfold WeightsFit; decide)
    (by decide)).1 doubleSigners_oneKey

end SignatureChecker

end StellarCore.Transactions
