import StellarCore.Ledger.DeltaMerge

/-!
# Trees of nested deltas

Deltas are opened on other ones and end by being committed or rolled back.
While a delta is open those around it can be written too; a log lists the
operations that survive, each with the delta that holds it by now.  As long as
no delta writes a key that an open one inside or beside it has changed, every
open delta shows what its part of the log does.
-/

namespace StellarCore.Ledger

open StellarCore.Lib

variable {κ ε η : Type} [LinearOrder κ]

/-! ## Open deltas -/

/-- Where a delta was opened: `n :: place` on the delta at `place`. -/
abbrev Place := List ℕ

/-- The deltas that are open, and how many have been opened so far. -/
structure DeltaTree (κ ε η : Type) where
  deltas : Place → Option (LedgerDelta κ ε η)
  opened : ℕ

inductive DeltaStep (κ ε η : Type) where
  | op (place : Place) (entryOp : EntryOp κ ε)
  | header (place : Place) (header : η)
  | nest (place : Place)
  | commit (number : ℕ) (outer : Place)
  | rollback (place : Place)

namespace DeltaTree

def start (header : η) : DeltaTree κ ε η where
  deltas place := if place = [] then some (.start header) else none
  opened := 0

def checkState (tree : DeltaTree κ ε η) (place : Place) :
    Except DeltaFailure (LedgerDelta κ ε η) :=
  match tree.deltas place with
  | some delta => .ok delta
  | none => .error .alreadyCommitted

def set (tree : DeltaTree κ ε η) (place : Place)
    (delta : Option (LedgerDelta κ ε η)) : DeltaTree κ ε η :=
  { tree with deltas := Function.update tree.deltas place delta }

section Set

variable {tree : DeltaTree κ ε η} {place other : Place}
  {delta : Option (LedgerDelta κ ε η)}

omit [LinearOrder κ] in
@[simp] theorem set_self : (tree.set place delta).deltas place = delta :=
  Function.update_self ..

omit [LinearOrder κ] in
theorem set_of_ne (different : other ≠ place) :
    (tree.set place delta).deltas other = tree.deltas other :=
  Function.update_of_ne different ..

end Set

omit [LinearOrder κ] in
theorem checkState_cases (tree : DeltaTree κ ε η) (place : Place) :
    (∃ delta, tree.deltas place = some delta ∧
      tree.checkState place = .ok delta) ∨
      tree.checkState place = .error .alreadyCommitted := by
  unfold checkState
  cases tree.deltas place with
  | none => exact .inr rfl
  | some delta => exact .inl ⟨delta, rfl, rfl⟩

end DeltaTree

namespace DeltaStep

variable (keyOf : ε → κ)

/-- A delta that is rolled back takes those with it that are open inside it:
they cannot be committed any more. -/
def run [DecidableEq η] (tree : DeltaTree κ ε η) :
    DeltaStep κ ε η → Except DeltaFailure (DeltaTree κ ε η)
  | .op place entryOp => do
      let delta ← tree.checkState place
      let after ← entryOp.apply keyOf delta
      return tree.set place (some after)
  | .header place current => do
      let delta ← tree.checkState place
      return tree.set place (some { delta with mCurrentHeader := current })
  | .nest place => do
      let delta ← tree.checkState place
      let inner := { tree with opened := tree.opened + 1 }
      return inner.set (tree.opened :: place) (some delta.nested)
  | .commit number outer => do
      let inner ← tree.checkState (number :: outer)
      let delta ← tree.checkState outer
      let after ← delta.commit keyOf inner
      return (tree.set (number :: outer) none).set outer (some after)
  | .rollback place => do
      let _ ← tree.checkState place
      return { tree with
        deltas := fun other =>
          if place <:+ other then none else tree.deltas other }

end DeltaStep

/-! ## The log -/

/-- The operations that survive, each with the delta that holds it. -/
abbrev DeltaLog (κ ε : Type) := List (Place × EntryOp κ ε)

/-- The operations held by some of the deltas. -/
def DeltaLog.held (log : DeltaLog κ ε) (inside : Place → Prop)
    [DecidablePred inside] : List (EntryOp κ ε) :=
  (log.filter (fun entry => inside entry.1)).map Prod.snd

/-- A delta that is committed passes its operations on. -/
def passOn (number : ℕ) (outer : Place) (place : Place) : Place :=
  if place = number :: outer then outer else place

namespace DeltaStep

def track (log : DeltaLog κ ε) : DeltaStep κ ε η → DeltaLog κ ε
  | .op place entryOp => log ++ [(place, entryOp)]
  | .header _ _ => log
  | .nest _ => log
  | .commit number outer =>
      log.map (fun entry => (passOn number outer entry.1, entry.2))
  | .rollback place => log.filter (fun entry => ¬ place <:+ entry.1)

section Legal

variable (keyOf : ε → κ)

/-- Of the open deltas only this one and those around it have changed the
key. -/
def Clear (log : DeltaLog κ ε) (place : Place) (entryOp : EntryOp κ ε) :
    Prop :=
  ∀ entry ∈ log, ∀ key, entry.2.key? keyOf = some key →
    entryOp.key? keyOf = some key → entry.1 <:+ place

/-- Operations are legal in the state they meet, which is that of all
operations before, whichever delta holds them. -/
def Legal (base : Entries κ ε) (log : DeltaLog κ ε) :
    DeltaStep κ ε η → Prop
  | .op _ entryOp =>
      entryOp.Legal keyOf (EntryOp.performAll keyOf base (log.map Prod.snd))
  | _ => True

/-- An operation is clear of the deltas inside and beside its own. -/
def Separate (log : DeltaLog κ ε) : DeltaStep κ ε η → Prop
  | .op place entryOp => Clear keyOf log place entryOp
  | _ => True

end Legal

end DeltaStep

variable {keyOf : ε → κ} {base : Entries κ ε}

/-! ## Operations on one key -/

namespace EntryOp

theorem performAll_append (state : Entries κ ε)
    (first second : List (EntryOp κ ε)) :
    performAll keyOf state (first ++ second) =
      performAll keyOf (performAll keyOf state first) second :=
  List.foldl_append

theorem legalList_append {state : Entries κ ε}
    {first second : List (EntryOp κ ε)} :
    LegalList keyOf state (first ++ second) ↔
      LegalList keyOf state first ∧
        LegalList keyOf (performAll keyOf state first) second := by
  induction first generalizing state with
  | nil => exact ⟨fun rest => ⟨trivial, rest⟩, fun both => both.2⟩
  | cons op first ih =>
      show op.Legal keyOf state ∧ LegalList keyOf _ (first ++ second) ↔ _
      rw [ih]
      exact and_assoc.symm

/-- What an operation does to a key only depends on the key. -/
theorem perform_congr (op : EntryOp κ ε) {state other : Entries κ ε}
    {key : κ} (same : state key = other key) :
    op.perform keyOf state key = op.perform keyOf other key := by
  have update : ∀ (changed : κ) (value : Option ε),
      Function.update state changed value key =
        Function.update other changed value key := by
    intro changed value
    by_cases here : key = changed
    · subst here
      rw [Function.update_self, Function.update_self]
    · rw [Function.update_of_ne here, Function.update_of_ne here, same]
  cases op with
  | add entry => exact update _ _
  | modify entry => exact update _ _
  | delete changed => exact update _ _
  | record entry => exact same

end EntryOp

namespace DeltaLog

variable {log : DeltaLog κ ε} {inside outside : Place → Prop}
  [DecidablePred inside] [DecidablePred outside]

omit [LinearOrder κ] in
theorem held_append (first second : DeltaLog κ ε) :
    held (first ++ second) inside =
      held first inside ++ held second inside := by
  unfold held
  rw [List.filter_append, List.map_append]

omit [LinearOrder κ] in
theorem held_congr (same : ∀ entry ∈ log,
    (inside entry.1 ↔ outside entry.1)) :
    log.held inside = log.held outside := by
  unfold held
  congr 1
  apply List.filter_congr
  intro entry member
  exact decide_eq_decide.mpr (same entry member)

omit [LinearOrder κ] in
theorem held_true : log.held (fun _ => True) = log.map Prod.snd := by
  unfold held
  congr 1
  simp

theorem performAll_held_of_eq {state other : Entries κ ε} {key : κ}
    (start : state key = other key)
    (same : ∀ entry ∈ log, entry.2.key? keyOf = some key →
      (inside entry.1 ↔ outside entry.1)) :
    EntryOp.performAll keyOf state (log.held inside) key =
      EntryOp.performAll keyOf other (log.held outside) key := by
  induction log generalizing state other with
  | nil => exact start
  | cons entry log ih =>
      have rest : ∀ later ∈ log, later.2.key? keyOf = some key →
          (inside later.1 ↔ outside later.1) :=
        fun later member => same later (List.mem_cons_of_mem _ member)
      have added : ∀ (chosen : Place → Prop) [DecidablePred chosen],
          held (entry :: log) chosen =
            (if chosen entry.1 then [entry.2] else []) ++
              held log chosen := by
        intro chosen _
        by_cases taken : chosen entry.1
        · simp [held, taken]
        · simp [held, taken]
      rw [added, added, EntryOp.performAll_append, EntryOp.performAll_append]
      apply ih _ rest
      by_cases changes : entry.2.key? keyOf = some key
      · have both := same entry List.mem_cons_self changes
        by_cases taken : inside entry.1
        · rw [if_pos taken, if_pos (both.mp taken)]
          exact entry.2.perform_congr start
        · rw [if_neg taken, if_neg (fun other => taken (both.mpr other))]
          exact start
      · have kept : ∀ (chosen : Prop) [Decidable chosen]
            (before : Entries κ ε), EntryOp.performAll keyOf before
              (if chosen then [entry.2] else []) key = before key := by
          intro chosen _ before
          by_cases taken : chosen
          · rw [if_pos taken]
            exact EntryOp.perform_of_ne changes
          · rw [if_neg taken]
            rfl
        rw [kept, kept]
        exact start

/-- Which deltas are counted only matters for those that change the key. -/
theorem performAll_held {key : κ}
    (same : ∀ entry ∈ log, entry.2.key? keyOf = some key →
      (inside entry.1 ↔ outside entry.1)) :
    EntryOp.performAll keyOf base (log.held inside) key =
      EntryOp.performAll keyOf base (log.held outside) key :=
  performAll_held_of_eq rfl same

/-- Of two operations on a key the later one is held by the same delta or one
inside it. -/
def Nested (keyOf : ε → κ) (log : DeltaLog κ ε) : Prop :=
  log.Pairwise (fun first second => ∀ key,
    first.2.key? keyOf = some key → second.2.key? keyOf = some key →
      first.1 <:+ second.1)

/-- What a delta and those around it hold is legal without the rest. -/
theorem legal_held (nested : log.Nested keyOf)
    (legal : EntryOp.LegalList keyOf base (log.map Prod.snd))
    (around : ∀ place other : Place, place <:+ other → inside other →
      inside place) :
    EntryOp.LegalList keyOf base (log.held inside) := by
  induction log using List.reverseRecOn with
  | nil => trivial
  | append_singleton log last ih =>
      obtain ⟨earlier, -, before⟩ := List.pairwise_append.mp nested
      rw [List.map_append, EntryOp.legalList_append] at legal
      rw [held_append, EntryOp.legalList_append]
      refine ⟨ih earlier legal.1, ?_⟩
      by_cases taken : inside last.1
      · have single : held [last] inside = [last.2] := by
          simp [held, taken]
        rw [single]
        refine ⟨legal.2.1.congr ?_, trivial⟩
        intro key changes
        have same : ∀ entry ∈ log, entry.2.key? keyOf = some key →
            (inside entry.1 ↔ True) := by
          intro entry member changed
          have suffix := before entry member last List.mem_cons_self key
            changed changes
          exact iff_of_true (around _ _ suffix taken) trivial
        rw [← held_true]
        exact performAll_held same
      · have none : held [last] inside = [] := by
          simp [held, taken]
        rw [none]
        trivial

end DeltaLog

/-- The base and the current state may change where the delta has not changed
anything, as long as they agree there. -/
theorem LedgerDelta.Reflects.beside {delta : LedgerDelta κ ε η}
    {base base' current current' : Entries κ ε} {touched : κ → Prop}
    (reflects : delta.Reflects keyOf base current touched)
    (here : ∀ key, touched key →
      base' key = base key ∧ current' key = current key)
    (elsewhere : ∀ key, ¬ touched key → current' key = base' key) :
    delta.Reflects keyOf base' current' touched := by
  refine ⟨?_, elsewhere, reflects.newKey, reflects.modKey⟩
  intro key
  by_cases written : touched key
  · rw [(here key written).1, (here key written).2]
    exact reflects.shows key
  · have untouched : ∀ {value other : Option ε}, other = value →
        Change.of value other (touched key) = .untouched := by
      intro value other same
      rw [same, Change.of_eq_untouched (fun _ => rfl)]
      exact .inr written
    have shown := reflects.shows key
    rw [untouched (reflects.steady key written)] at shown
    rw [untouched (elsewhere key written)]
    exact shown

/-! ## What the open deltas show -/

/-- The deltas around one, without itself. -/
def Around (place other : Place) : Prop :=
  other <:+ place ∧ other ≠ place

instance (place : Place) : DecidablePred (Around place) :=
  fun other => inferInstanceAs (Decidable (other <:+ place ∧ other ≠ place))

theorem around_cons {number : ℕ} {outer place : Place} :
    Around (number :: outer) place ↔ place <:+ outer := by
  unfold Around
  rw [List.suffix_cons_iff]
  constructor
  · rintro ⟨same | inside, different⟩
    · exact absurd same different
    · exact inside
  · intro inside
    refine ⟨.inr inside, ?_⟩
    rintro rfl
    have length := inside.length_le
    rw [List.length_cons] at length
    omega

section Shown

variable (keyOf) (base) (log : DeltaLog κ ε) (place : Place)

/-- The state a delta starts from. -/
def before : Entries κ ε :=
  EntryOp.performAll keyOf base (log.held (Around place))

/-- The state it leads to. -/
def after : Entries κ ε :=
  EntryOp.performAll keyOf base (log.held (· <:+ place))

def Changed (key : κ) : Prop :=
  ∃ entry ∈ log, entry.1 = place ∧ entry.2.key? keyOf = some key

end Shown

/-- What holds of the open deltas and the log. -/
structure Sound (keyOf : ε → κ) (base : Entries κ ε)
    (tree : DeltaTree κ ε η) (log : DeltaLog κ ε) : Prop where
  legal : EntryOp.LegalList keyOf base (log.map Prod.snd)
  nested : log.Nested keyOf
  live : ∀ entry ∈ log, tree.deltas entry.1 ≠ none
  numbered : ∀ place, tree.deltas place ≠ none →
    ∀ number ∈ place, number < tree.opened
  reflects : ∀ place delta, tree.deltas place = some delta →
    delta.Reflects keyOf (before keyOf base log place)
      (after keyOf base log place) (Changed keyOf log place)

/-- Where a delta has changed nothing it leads to the state it starts from. -/
theorem after_eq_before {log : DeltaLog κ ε} {place : Place} {key : κ}
    (none : ¬ Changed keyOf log place key) :
    after keyOf base log place key = before keyOf base log place key := by
  apply DeltaLog.performAll_held
  intro entry member changes
  refine ⟨fun inside => ⟨inside, fun same => ?_⟩, fun around => around.1⟩
  exact none ⟨entry, member, same, changes⟩

theorem reflects_of_same {log log' : DeltaLog κ ε} {place : Place}
    {delta : LedgerDelta κ ε η}
    (reflects : delta.Reflects keyOf (before keyOf base log place)
      (after keyOf base log place) (Changed keyOf log place))
    (changed : ∀ key, Changed keyOf log' place key ↔
      Changed keyOf log place key)
    (same : ∀ key, Changed keyOf log place key →
      before keyOf base log' place key = before keyOf base log place key ∧
        after keyOf base log' place key = after keyOf base log place key) :
    delta.Reflects keyOf (before keyOf base log' place)
      (after keyOf base log' place) (Changed keyOf log' place) := by
  have touched : Changed keyOf log' place = Changed keyOf log place :=
    funext (fun key => propext (changed key))
  rw [touched]
  refine reflects.beside same ?_
  intro key none
  exact after_eq_before (fun written => none ((changed key).mp written))

namespace Sound

variable {header : η} {tree : DeltaTree κ ε η} {log : DeltaLog κ ε}
  {place : Place} {delta : LedgerDelta κ ε η}

theorem start (header : η) (base : Entries κ ε) :
    Sound keyOf base (DeltaTree.start header : DeltaTree κ ε η) [] where
  legal := trivial
  nested := List.Pairwise.nil
  live entry member := by cases member
  numbered place found := by
    unfold DeltaTree.start at found
    by_cases outermost : place = []
    · rw [outermost]
      exact fun number member => by cases member
    · simp [outermost] at found
  reflects place delta found := by
    unfold DeltaTree.start at found
    by_cases outermost : place = []
    · simp only [outermost, if_true] at found
      obtain rfl := Option.some.inj found
      have none : Changed keyOf ([] : DeltaLog κ ε) place =
          fun _ => False := by
        funext key
        simp [Changed]
      rw [none]
      exact LedgerDelta.start_reflects header base
    · simp [outermost] at found

/-! ### Operations -/

theorem numbered_set (sound : Sound keyOf base tree log)
    (found : tree.deltas place = some delta)
    {next : Option (LedgerDelta κ ε η)} {other : Place}
    (isOpen : (tree.set place next).deltas other ≠ none) :
    ∀ number ∈ other, number < tree.opened := by
  by_cases same : other = place
  · rw [same]
    exact sound.numbered place (by simp [found])
  · rw [DeltaTree.set_of_ne same] at isOpen
    exact sound.numbered other isOpen

theorem live_set (sound : Sound keyOf base tree log)
    {next : LedgerDelta κ ε η} {entry : Place × EntryOp κ ε}
    (member : entry ∈ log) :
    (tree.set place (some next)).deltas entry.1 ≠ none := by
  by_cases same : entry.1 = place
  · simp [same]
  · rw [DeltaTree.set_of_ne same]
    exact sound.live entry member

omit [LinearOrder κ] in
theorem held_concat {entry : Place × EntryOp κ ε} {inside : Place → Prop}
    [DecidablePred inside] :
    DeltaLog.held (log ++ [entry]) inside =
      log.held inside ++ (if inside entry.1 then [entry.2] else []) := by
  rw [DeltaLog.held_append]
  congr 1
  by_cases taken : inside entry.1
  · simp [DeltaLog.held, taken]
  · simp [DeltaLog.held, taken]

theorem performAll_concat {entry : Place × EntryOp κ ε}
    {inside : Place → Prop} [DecidablePred inside] {key : κ}
    (beside : entry.2.key? keyOf = some key → ¬ inside entry.1) :
    EntryOp.performAll keyOf base (DeltaLog.held (log ++ [entry]) inside)
        key =
      EntryOp.performAll keyOf base (log.held inside) key := by
  rw [held_concat]
  by_cases taken : inside entry.1
  · rw [if_pos taken, EntryOp.performAll_append]
    exact EntryOp.perform_of_ne (fun changes => beside changes taken)
  · rw [if_neg taken, List.append_nil]

omit [LinearOrder κ] in
theorem changed_concat {entry : Place × EntryOp κ ε} {key : κ} :
    Changed keyOf (log ++ [entry]) place key ↔
      Changed keyOf log place key ∨
        (entry.1 = place ∧ entry.2.key? keyOf = some key) := by
  unfold Changed
  simp only [List.mem_append, List.mem_singleton, or_and_right, exists_or,
    exists_eq_left]

theorem op (sound : Sound keyOf base tree log)
    (found : tree.deltas place = some delta) {entryOp : EntryOp κ ε}
    (legal : entryOp.Legal keyOf
      (EntryOp.performAll keyOf base (log.map Prod.snd)))
    (clear : DeltaStep.Clear keyOf log place entryOp) :
    ∃ next, entryOp.apply keyOf delta = .ok next ∧
      Sound keyOf base (tree.set place (some next))
        (log ++ [(place, entryOp)]) := by
  have here : entryOp.Legal keyOf (after keyOf base log place) := by
    refine legal.congr ?_
    intro key changes
    have same : ∀ entry ∈ log, entry.2.key? keyOf = some key →
        (entry.1 <:+ place ↔ True) := fun entry member changed =>
      iff_of_true (clear entry member key changed changes) trivial
    rw [← DeltaLog.held_true]
    exact DeltaLog.performAll_held same
  obtain ⟨next, applied, -, -, reflects⟩ :=
    EntryOp.apply_reflects (sound.reflects place delta found) here
  refine ⟨next, applied, ?_, ?_, ?_, ?_, ?_⟩
  · rw [List.map_append, EntryOp.legalList_append]
    exact ⟨sound.legal, legal, trivial⟩
  · refine List.pairwise_append.mpr
      ⟨sound.nested, List.pairwise_singleton _ _, ?_⟩
    intro entry member last isLast key changed changes
    obtain rfl := List.mem_singleton.mp isLast
    exact clear entry member key changed changes
  · intro entry member
    rcases List.mem_append.mp member with earlier | isLast
    · exact sound.live_set earlier
    · rw [List.mem_singleton.mp isLast, DeltaTree.set_self]
      exact Option.some_ne_none next
  · exact fun other isOpen => sound.numbered_set found isOpen
  · intro other shown isOther
    by_cases same : other = place
    · subst same
      rw [DeltaTree.set_self] at isOther
      obtain rfl := Option.some.inj isOther
      have base' : before keyOf base (log ++ [(other, entryOp)]) other =
          before keyOf base log other := by
        unfold before
        rw [held_concat, if_neg (fun around => around.2 rfl),
          List.append_nil]
      have current : after keyOf base (log ++ [(other, entryOp)]) other =
          entryOp.perform keyOf (after keyOf base log other) := by
        unfold after
        rw [held_concat, if_pos (List.suffix_refl _),
          EntryOp.performAll_append]
        rfl
      have touched : Changed keyOf (log ++ [(other, entryOp)]) other =
          fun key => Changed keyOf log other key ∨
            entryOp.key? keyOf = some key := by
        funext key
        rw [changed_concat]
        simp
      rw [base', current, touched]
      exact reflects
    · rw [DeltaTree.set_of_ne same] at isOther
      refine reflects_of_same (sound.reflects other shown isOther) ?_ ?_
      · intro key
        rw [changed_concat]
        simp [Ne.symm same]
      · intro key written
        -- the delta has changed the key, so it lies around the one written
        have apart : entryOp.key? keyOf = some key → ¬ place <:+ other := by
          intro changes inside
          obtain ⟨entry, member, isThere, changed⟩ := written
          have around := clear entry member key changed changes
          rw [isThere] at around
          exact same (around.eq_of_length_le inside.length_le)
        exact ⟨performAll_concat (fun changes around =>
            apart changes around.1),
          performAll_concat apart⟩

theorem setHeader (sound : Sound keyOf base tree log)
    (found : tree.deltas place = some delta) (current : η) :
    Sound keyOf base
      (tree.set place (some { delta with mCurrentHeader := current }))
      log where
  legal := sound.legal
  nested := sound.nested
  live _ member := sound.live_set member
  numbered _ isOpen := sound.numbered_set found isOpen
  reflects other shown isOther := by
    by_cases same : other = place
    · subst same
      rw [DeltaTree.set_self] at isOther
      obtain rfl := Option.some.inj isOther
      exact (sound.reflects other delta found).of_same_sets rfl rfl rfl
    · rw [DeltaTree.set_of_ne same] at isOther
      exact sound.reflects other shown isOther

/-! ### Opening and ending -/

/-- A delta that is opened has a place of its own. -/
theorem nest (sound : Sound keyOf base tree log)
    (found : tree.deltas place = some delta) :
    Sound keyOf base
      (DeltaTree.set { tree with opened := tree.opened + 1 }
        (tree.opened :: place) (some delta.nested)) log := by
  have fresh : tree.deltas (tree.opened :: place) = none := by
    by_contra isOpen
    exact absurd (sound.numbered _ isOpen _ List.mem_cons_self)
      (Nat.lt_irrefl _)
  have unseen : ∀ entry ∈ log, entry.1 ≠ tree.opened :: place := by
    intro entry member same
    exact sound.live entry member (same ▸ fresh)
  refine ⟨sound.legal, sound.nested, ?_, ?_, ?_⟩
  · intro entry member
    rw [DeltaTree.set_of_ne (unseen entry member)]
    exact sound.live entry member
  · intro other isOpen number member
    by_cases same : other = tree.opened :: place
    · subst same
      rcases List.mem_cons.mp member with rfl | inside
      · exact Nat.lt_succ_self _
      · exact Nat.lt_succ_of_lt
          (sound.numbered place (by simp [found]) number inside)
    · rw [DeltaTree.set_of_ne same] at isOpen
      exact Nat.lt_succ_of_lt (sound.numbered other isOpen number member)
  · intro other shown isOther
    by_cases same : other = tree.opened :: place
    · subst same
      rw [DeltaTree.set_self] at isOther
      obtain rfl := Option.some.inj isOther
      have none : ∀ key, ¬ Changed keyOf log (tree.opened :: place) key := by
        rintro key ⟨entry, member, isThere, -⟩
        exact unseen entry member isThere
      have unchanged : after keyOf base log (tree.opened :: place) =
          before keyOf base log (tree.opened :: place) :=
        funext (fun key => after_eq_before (none key))
      have untouched : Changed keyOf log (tree.opened :: place) =
          fun _ => False :=
        funext (fun key => eq_false (none key))
      rw [unchanged, untouched]
      exact LedgerDelta.start_reflects _ _
    · rw [DeltaTree.set_of_ne same] at isOther
      exact sound.reflects other shown isOther

/-! ### Committing -/

omit [LinearOrder κ] in
theorem passOn_suffix {number : ℕ} {outer first second : Place}
    (suffix : first <:+ second) :
    passOn number outer first <:+ passOn number outer second := by
  unfold passOn
  by_cases last : second = number :: outer
  · rw [if_pos last]
    by_cases same : first = number :: outer
    · rw [if_pos same]
    · rw [if_neg same]
      exact around_cons.mp ⟨last ▸ suffix, same⟩
  · rw [if_neg last]
    by_cases same : first = number :: outer
    · rw [if_pos same]
      exact (List.suffix_cons number outer).trans (same ▸ suffix)
    · rw [if_neg same]
      exact suffix

omit [LinearOrder κ] in
/-- Operations that a delta passes on are counted where it ends. -/
theorem held_passOn {number : ℕ} {outer : Place} {inside : Place → Prop}
    [DecidablePred inside] :
    DeltaLog.held ((DeltaStep.commit number outer :
        DeltaStep κ ε η).track log) inside =
      log.held (fun place => inside (passOn number outer place)) := by
  unfold DeltaLog.held DeltaStep.track
  rw [List.filter_map, List.map_map]
  rfl

omit [LinearOrder κ] in
theorem changed_passOn {number : ℕ} {outer : Place} {key : κ} :
    Changed keyOf ((DeltaStep.commit number outer :
        DeltaStep κ ε η).track log) place key ↔
      ∃ entry ∈ log, passOn number outer entry.1 = place ∧
        entry.2.key? keyOf = some key := by
  unfold Changed DeltaStep.track
  simp only [List.mem_map, exists_exists_and_eq_and]

/-- Two deltas that have changed a key lie one inside the other. -/
theorem comparable (sound : Sound keyOf base tree log) {other : Place}
    {key : κ} (first : Changed keyOf log place key)
    (second : Changed keyOf log other key) :
    place <:+ other ∨ other <:+ place := by
  obtain ⟨entry, member, rfl, changes⟩ := first
  obtain ⟨later, laterMember, rfl, laterChanges⟩ := second
  let Related (first second : Place × EntryOp κ ε) : Prop :=
    ∀ key, first.2.key? keyOf = some key →
      second.2.key? keyOf = some key →
        first.1 <:+ second.1 ∨ second.1 <:+ first.1
  have itself : ∀ entry ∈ log, Related entry entry :=
    fun _ _ _ _ _ => .inl (List.suffix_refl _)
  have forward : log.Pairwise Related :=
    sound.nested.imp (fun nested key one two => .inl (nested key one two))
  have backward : log.Pairwise (flip Related) :=
    sound.nested.imp (fun nested key one two => .inr (nested key two one))
  exact List.Pairwise.forall_of_forall_of_flip itself forward backward
    member laterMember key changes laterChanges

section PassOn

variable {number : ℕ} {outer other : Place}

omit [LinearOrder κ] in
theorem passOn_eq (notOuter : other ≠ outer)
    (notInner : other ≠ number :: outer) :
    passOn number outer place = other ↔ place = other := by
  unfold passOn
  by_cases passed : place = number :: outer
  · rw [if_pos passed, passed]
    exact iff_of_false (Ne.symm notOuter) (Ne.symm notInner)
  · rw [if_neg passed]

/-- A delta that lies inside or around the one committed sees the same
operations. -/
theorem passOn_suffix_iff (notOuter : other ≠ outer)
    (notInner : other ≠ number :: outer)
    (related : place = number :: outer →
      other <:+ number :: outer ∨ number :: outer <:+ other) :
    passOn number outer place <:+ other ↔ place <:+ other := by
  unfold passOn
  by_cases passed : place = number :: outer
  · rw [if_pos passed, passed]
    rcases related passed with around | inside
    · have short := around_cons.mp ⟨around, notInner⟩
      constructor
      · intro suffix
        exact absurd (short.eq_of_length_le suffix.length_le) notOuter
      · intro suffix
        exact absurd (around.eq_of_length_le suffix.length_le) notInner
    · exact iff_of_true ((List.suffix_cons number outer).trans inside) inside
  · rw [if_neg passed]

end PassOn

section Commit

variable {number : ℕ} {outer : Place} {inner : LedgerDelta κ ε η}

/-- The outer delta leads to where the committed one led. -/
theorem commit_outer [DecidableEq η] (sound : Sound keyOf base tree log)
    (foundInner : tree.deltas (number :: outer) = some inner)
    (found : tree.deltas outer = some delta)
    (sameHeader : inner.mPreviousHeaderValue = delta.mCurrentHeader) :
    ∃ next, delta.commit keyOf inner = .ok next ∧
      next.Reflects keyOf
        (before keyOf base ((DeltaStep.commit number outer :
          DeltaStep κ ε η).track log) outer)
        (after keyOf base ((DeltaStep.commit number outer :
          DeltaStep κ ε η).track log) outer)
        (Changed keyOf ((DeltaStep.commit number outer :
          DeltaStep κ ε η).track log) outer) := by
  have continues : before keyOf base log (number :: outer) =
      after keyOf base log outer := by
    unfold before after
    congr 1
    exact DeltaLog.held_congr (fun _ _ => around_cons)
  have inside := sound.reflects _ inner foundInner
  rw [continues] at inside
  obtain ⟨next, committed, -, reflects⟩ := LedgerDelta.commit_reflects
    (sound.reflects outer delta found) inside sameHeader
  refine ⟨next, committed, ?_⟩
  have base' : before keyOf base ((DeltaStep.commit number outer :
      DeltaStep κ ε η).track log) outer = before keyOf base log outer := by
    unfold before
    rw [held_passOn]
    congr 1
    apply DeltaLog.held_congr
    intro entry _
    unfold passOn
    by_cases passed : entry.1 = number :: outer
    · rw [if_pos passed, passed]
      refine iff_of_false (fun around => around.2 rfl) (fun around => ?_)
      have length := around.1.length_le
      rw [List.length_cons] at length
      omega
    · rw [if_neg passed]
  have current : after keyOf base ((DeltaStep.commit number outer :
      DeltaStep κ ε η).track log) outer =
        after keyOf base log (number :: outer) := by
    unfold after
    rw [held_passOn]
    congr 1
    apply DeltaLog.held_congr
    intro entry _
    unfold passOn
    rw [List.suffix_cons_iff]
    by_cases passed : entry.1 = number :: outer
    · rw [if_pos passed]
      exact iff_of_true (List.suffix_refl _) (.inl passed)
    · rw [if_neg passed]
      exact (or_iff_right passed).symm
  have touched : Changed keyOf ((DeltaStep.commit number outer :
      DeltaStep κ ε η).track log) outer =
        fun key => Changed keyOf log outer key ∨
          Changed keyOf log (number :: outer) key := by
    funext key
    apply propext
    rw [changed_passOn]
    unfold Changed
    rw [← exists_or]
    apply exists_congr
    intro entry
    unfold passOn
    by_cases passed : entry.1 = number :: outer
    · simp [passed]
    · simp [passed]
  rw [base', current, touched]
  exact reflects

theorem commit [DecidableEq η] (sound : Sound keyOf base tree log)
    (foundInner : tree.deltas (number :: outer) = some inner)
    (found : tree.deltas outer = some delta)
    (sameHeader : inner.mPreviousHeaderValue = delta.mCurrentHeader) :
    ∃ next, delta.commit keyOf inner = .ok next ∧
      Sound keyOf base
        ((tree.set (number :: outer) none).set outer (some next))
        ((DeltaStep.commit number outer : DeltaStep κ ε η).track log) := by
  obtain ⟨next, committed, reflects⟩ :=
    sound.commit_outer foundInner found sameHeader
  refine ⟨next, committed, ?_, ?_, ?_, ?_, ?_⟩
  · unfold DeltaStep.track
    rw [List.map_map]
    exact sound.legal
  · refine List.pairwise_map.mpr (sound.nested.imp ?_)
    intro first second nested key one two
    exact passOn_suffix (nested key one two)
  · intro entry member
    obtain ⟨earlier, isEarlier, rfl⟩ := List.mem_map.mp member
    dsimp only
    by_cases same : passOn number outer earlier.1 = outer
    · rw [same, DeltaTree.set_self]
      exact Option.some_ne_none next
    · have stays : earlier.1 ≠ number :: outer := by
        intro passed
        exact same (if_pos passed)
      have here : passOn number outer earlier.1 = earlier.1 := if_neg stays
      rw [here] at same ⊢
      rw [DeltaTree.set_of_ne same, DeltaTree.set_of_ne stays]
      exact sound.live earlier isEarlier
  · intro other isOpen
    by_cases isOuter : other = outer
    · rw [isOuter]
      exact sound.numbered outer (by simp [found])
    · rw [DeltaTree.set_of_ne isOuter] at isOpen
      exact sound.numbered_set foundInner isOpen
  · intro other shown isOther
    by_cases isOuter : other = outer
    · subst isOuter
      rw [DeltaTree.set_self] at isOther
      obtain rfl := Option.some.inj isOther
      exact reflects
    · rw [DeltaTree.set_of_ne isOuter] at isOther
      by_cases isInner : other = number :: outer
      · rw [isInner, DeltaTree.set_self] at isOther
        cases isOther
      · rw [DeltaTree.set_of_ne isInner] at isOther
        refine reflects_of_same (sound.reflects other shown isOther) ?_ ?_
        · intro key
          rw [changed_passOn]
          unfold Changed
          simp only [passOn_eq isOuter isInner]
        · intro key written
          have suffix : ∀ entry ∈ log, entry.2.key? keyOf = some key →
              (passOn number outer entry.1 <:+ other ↔
                entry.1 <:+ other) := by
            intro entry member changes
            apply passOn_suffix_iff isOuter isInner
            intro passed
            exact sound.comparable written ⟨entry, member, passed, changes⟩
          unfold before after
          rw [held_passOn, held_passOn]
          constructor
          · apply DeltaLog.performAll_held
            intro entry member changes
            exact and_congr (suffix entry member changes)
              (not_congr (passOn_eq isOuter isInner))
          · exact DeltaLog.performAll_held suffix

end Commit

/-! ### Rolling back -/

omit [LinearOrder κ] in
theorem held_rollback {inside : Place → Prop} [DecidablePred inside]
    (outside : ∀ other, inside other → ¬ place <:+ other) :
    DeltaLog.held ((DeltaStep.rollback place :
        DeltaStep κ ε η).track log) inside = log.held inside := by
  unfold DeltaLog.held DeltaStep.track
  rw [List.filter_filter]
  congr 1
  apply List.filter_congr
  intro entry _
  have kept := outside entry.1
  by_cases taken : inside entry.1
  · simp [taken, kept taken]
  · simp [taken]

theorem rollback (sound : Sound keyOf base tree log) (place : Place) :
    Sound keyOf base
      { tree with
        deltas := fun other =>
          if place <:+ other then none else tree.deltas other }
      ((DeltaStep.rollback place : DeltaStep κ ε η).track log) := by
  have kept : ∀ {other : Place} {shown : Option (LedgerDelta κ ε η)},
      (if place <:+ other then none else tree.deltas other) = shown →
        shown ≠ none → ¬ place <:+ other ∧ tree.deltas other = shown := by
    intro other shown isOther isOpen
    by_cases inside : place <:+ other
    · rw [if_pos inside] at isOther
      exact absurd isOther.symm isOpen
    · rw [if_neg inside] at isOther
      exact ⟨inside, isOther⟩
  refine ⟨?_, sound.nested.filter _, ?_, ?_, ?_⟩
  · show EntryOp.LegalList keyOf base
      (log.held (fun other => ¬ place <:+ other))
    refine DeltaLog.legal_held sound.nested sound.legal ?_
    intro other inner around outside inside
    exact outside (inside.trans around)
  · intro entry member
    obtain ⟨inLog, outside⟩ := List.mem_filter.mp member
    dsimp only
    rw [if_neg (of_decide_eq_true outside)]
    exact sound.live entry inLog
  · intro other isOpen
    have here := kept rfl isOpen
    exact sound.numbered other (here.2 ▸ isOpen)
  · intro other shown isOther
    obtain ⟨outside, found⟩ := kept isOther (Option.some_ne_none shown)
    have apart : ∀ around : Place, around <:+ other →
        ¬ place <:+ around :=
      fun around suffix inside => outside (inside.trans suffix)
    refine reflects_of_same (sound.reflects other shown found) ?_ ?_
    · intro key
      unfold Changed DeltaStep.track
      constructor
      · rintro ⟨entry, member, here, changes⟩
        exact ⟨entry, List.mem_of_mem_filter member, here, changes⟩
      · rintro ⟨entry, member, here, changes⟩
        refine ⟨entry, List.mem_filter.mpr ⟨member, ?_⟩, here, changes⟩
        exact decide_eq_true (here ▸ outside)
    · intro key _
      unfold before after
      rw [held_rollback (fun around inside => apart around inside.1),
        held_rollback apart]
      exact ⟨rfl, rfl⟩

/-! ### Runs -/

/-- A legal, separate step does not fail but on a delta that is not open or on
one whose outer header has moved. -/
theorem run [DecidableEq η] (sound : Sound keyOf base tree log)
    {step : DeltaStep κ ε η} (legal : step.Legal keyOf base log)
    (separate : step.Separate keyOf log) :
    (∃ next, step.run keyOf tree = .ok next ∧
      Sound keyOf base next (step.track log)) ∨
      step.run keyOf tree = .error .alreadyCommitted ∨
      step.run keyOf tree = .error .unexpectedHeaderState := by
  cases step with
  | op place entryOp =>
      simp only [DeltaStep.run]
      rcases tree.checkState_cases place with ⟨delta, found, isOpen⟩ | ended
      · obtain ⟨next, applied, kept⟩ := sound.op found legal separate
        rw [isOpen]
        refine .inl ⟨_, ?_, kept⟩
        show (entryOp.apply keyOf delta >>= _) = _
        rw [applied]
        rfl
      · rw [ended]
        exact .inr (.inl rfl)
  | header place current =>
      simp only [DeltaStep.run]
      rcases tree.checkState_cases place with ⟨delta, found, isOpen⟩ | ended
      · rw [isOpen]
        exact .inl ⟨_, rfl, sound.setHeader found current⟩
      · rw [ended]
        exact .inr (.inl rfl)
  | nest place =>
      simp only [DeltaStep.run]
      rcases tree.checkState_cases place with ⟨delta, found, isOpen⟩ | ended
      · rw [isOpen]
        exact .inl ⟨_, rfl, sound.nest found⟩
      · rw [ended]
        exact .inr (.inl rfl)
  | commit number outer =>
      simp only [DeltaStep.run]
      rcases tree.checkState_cases (number :: outer) with
        ⟨inner, foundInner, innerOpen⟩ | ended
      · rcases tree.checkState_cases outer with
          ⟨delta, found, isOpen⟩ | ended
        · rw [innerOpen, isOpen]
          by_cases sameHeader :
              inner.mPreviousHeaderValue = delta.mCurrentHeader
          · obtain ⟨next, committed, kept⟩ :=
              sound.commit foundInner found sameHeader
            refine .inl ⟨_, ?_, kept⟩
            show (delta.commit keyOf inner >>= _) = _
            rw [committed]
            rfl
          · have refused : delta.commit keyOf inner =
                .error .unexpectedHeaderState := if_pos sameHeader
            refine .inr (.inr ?_)
            show (delta.commit keyOf inner >>= _) = _
            rw [refused]
            rfl
        · rw [innerOpen, ended]
          exact .inr (.inl rfl)
      · rw [ended]
        exact .inr (.inl rfl)
  | rollback place =>
      simp only [DeltaStep.run]
      rcases tree.checkState_cases place with ⟨delta, found, isOpen⟩ | ended
      · rw [isOpen]
        exact .inl ⟨_, rfl, sound.rollback place⟩
      · rw [ended]
        exact .inr (.inl rfl)

/-- The outermost delta stands for the operations that it holds. -/
theorem outermost (sound : Sound keyOf base tree log)
    (found : tree.deltas [] = some delta) :
    delta.Reflects keyOf base
      (EntryOp.performAll keyOf base (log.held (· = [])))
      (EntryOp.Touches keyOf (log.held (· = []))) := by
  have start : before keyOf base log [] = base := by
    have none : log.held (Around []) = [] := by
      unfold DeltaLog.held
      rw [List.map_eq_nil_iff, List.filter_eq_nil_iff]
      intro entry _ around
      have inside := of_decide_eq_true around
      exact inside.2 (List.suffix_nil.mp inside.1)
    unfold before
    rw [none]
    rfl
  have current : after keyOf base log [] =
      EntryOp.performAll keyOf base (log.held (· = [])) := by
    unfold after
    congr 1
    exact DeltaLog.held_congr (fun _ _ => List.suffix_nil)
  have touched : EntryOp.Touches keyOf (log.held (· = [])) =
      Changed keyOf log [] := by
    funext key
    unfold EntryOp.Touches DeltaLog.held Changed
    simp [and_assoc]
  have reflects := sound.reflects [] delta found
  rw [start, current] at reflects
  rw [touched]
  exact reflects

end Sound

namespace DeltaStep

end DeltaStep

end StellarCore.Ledger
