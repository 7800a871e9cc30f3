import Mathlib.Tactic

/-!
# Layers over a history of writes

At each time at most one record is written to a key.  A layer covers the
writes of an interval of times: it holds no key that was not written in the
interval, and it holds the last record of every key that was not written
again later.  About keys that were written again later it may be wrong, so
layers are read from the newest to the oldest and the first record counts.
-/

namespace StellarCore.Lib

variable {κ ρ : Type}

/-- The last record written to a key at the times after `lo` up to `hi`. -/
def lastWrite (writes : ℕ → κ → Option ρ) (lo hi : ℕ) (key : κ) :
    Option ρ :=
  match hi with
  | 0 => none
  | hi + 1 =>
      if lo ≤ hi then
        (writes (hi + 1) key).or (lastWrite writes lo hi key)
      else none

section LastWrite

variable {writes : ℕ → κ → Option ρ} {key : κ}

theorem lastWrite_of_le {lo hi : ℕ} (empty : hi ≤ lo) :
    lastWrite writes lo hi key = none := by
  cases hi with
  | zero => rfl
  | succ hi =>
      have notBelow : ¬ lo ≤ hi := by omega
      rw [lastWrite, if_neg notBelow]

theorem lastWrite_succ {lo hi : ℕ} (below : lo ≤ hi) :
    lastWrite writes lo (hi + 1) key =
      (writes (hi + 1) key).or (lastWrite writes lo hi key) := by
  rw [lastWrite, if_pos below]

theorem lastWrite_append {lo mid hi : ℕ} (lower : lo ≤ mid)
    (upper : mid ≤ hi) :
    lastWrite writes lo hi key =
      (lastWrite writes mid hi key).or (lastWrite writes lo mid key) := by
  induction hi, upper using Nat.le_induction with
  | base => rw [lastWrite_of_le le_rfl, Option.none_or]
  | succ hi upper ih =>
      rw [lastWrite_succ (lower.trans upper), lastWrite_succ upper, ih,
        Option.or_assoc]

/-- Writes to the first `now` times are all that such an interval sees. -/
theorem lastWrite_congr {other : ℕ → κ → Option ρ} {lo hi : ℕ}
    (same : ∀ time ≤ hi, writes time = other time) :
    lastWrite writes lo hi key = lastWrite other lo hi key := by
  induction hi with
  | zero => rfl
  | succ hi ih =>
      have earlier : ∀ time ≤ hi, writes time = other time :=
        fun time le => same time (by omega)
      rw [lastWrite, lastWrite, ih earlier, same (hi + 1) le_rfl]

/-- An interval has what is written at one time only if the time is in it. -/
theorem lastWrite_of_only {time lo hi : ℕ}
    (only : ∀ other, other ≠ time → writes other key = none) :
    lastWrite writes lo hi key =
      if lo < time ∧ time ≤ hi then writes time key else none := by
  induction hi with
  | zero =>
      rw [if_neg (by omega)]
      rfl
  | succ hi ih =>
      rw [lastWrite]
      by_cases here : hi + 1 = time
      · subst here
        rw [ih]
        by_cases below : lo ≤ hi
        · rw [if_pos below, if_neg (by omega), if_pos (by omega),
            Option.or_none]
        · rw [if_neg below, if_neg (by omega)]
      · rw [only _ here, ih, Option.none_or]
        by_cases inside : lo < time ∧ time ≤ hi
        · rw [if_pos (by omega), if_pos inside, if_pos (by omega)]
        · rw [if_neg inside, if_neg (by omega : ¬ (lo < time ∧
            time ≤ hi + 1)), ite_self]

end LastWrite

@[simp] theorem filter_always (found : Option ρ) :
    found.filter (fun _ => true) = found := by
  cases found with
  | none => rfl
  | some record => rfl

/-- At time `now`, the layer covers the writes after `lo` up to `hi`, and
leaves out records that `keep` rejects. -/
structure Covers (writes : ℕ → κ → Option ρ) (now lo hi : ℕ)
    (keep : ρ → Bool) (layer : κ → Option ρ) : Prop where
  lo_le : lo ≤ hi
  hi_le : hi ≤ now
  written : ∀ key, lastWrite writes lo hi key = none → layer key = none
  newest : ∀ key, lastWrite writes hi now key = none →
    layer key = (lastWrite writes lo hi key).filter keep

namespace Covers

variable {writes : ℕ → κ → Option ρ} {now lo mid hi : ℕ}
  {keep : ρ → Bool}

theorem empty (le : lo ≤ now) :
    Covers writes now lo lo keep (fun _ => none) where
  lo_le := le_rfl
  hi_le := le
  written := fun _ _ => rfl
  newest := fun key _ => by rw [lastWrite_of_le le_rfl, Option.filter_none]

/-- A single time is covered by what is written at it. -/
theorem single {layer : κ → Option ρ}
    (same : ∀ key, layer key = writes (now + 1) key) :
    Covers writes (now + 1) now (now + 1) (fun _ => true) layer where
  lo_le := Nat.le_succ now
  hi_le := le_rfl
  written := by
    intro key none
    rw [lastWrite_succ le_rfl, lastWrite_of_le le_rfl, Option.or_none]
      at none
    rw [same, none]
  newest := by
    intro key _
    rw [lastWrite_succ le_rfl, lastWrite_of_le le_rfl, Option.or_none,
      same]
    simp

theorem later {layer : κ → Option ρ} {next : ℕ}
    (covers : Covers writes now lo hi keep layer) (le : now ≤ next) :
    Covers writes next lo hi keep layer where
  lo_le := covers.lo_le
  hi_le := covers.hi_le.trans le
  written := covers.written
  newest := by
    intro key none
    apply covers.newest key
    rw [lastWrite_append covers.hi_le le] at none
    exact (Option.or_eq_none_iff.mp none).2

/-- Two adjacent layers merge to a layer, although keys of newer layers are
left out of it. -/
theorem merge {older newer merged : κ → Option ρ} {hidden : κ → Prop}
    [DecidablePred hidden]
    (old : Covers writes now lo mid keep older)
    (new : Covers writes now mid hi (fun _ => true) newer)
    (hiddenWritten : ∀ key, hidden key →
      lastWrite writes hi now key ≠ none)
    (same : ∀ key, merged key =
      if hidden key then none
      else ((newer key).or (older key)).filter keep) :
    Covers writes now lo hi keep merged where
  lo_le := old.lo_le.trans new.lo_le
  hi_le := new.hi_le
  written := by
    intro key none
    rw [lastWrite_append old.lo_le new.lo_le] at none
    obtain ⟨noneNew, noneOld⟩ := Option.or_eq_none_iff.mp none
    rw [same, new.written key noneNew, old.written key noneOld]
    simp
  newest := by
    intro key none
    have shown : ¬ hidden key := fun hit => hiddenWritten key hit none
    have foundNew := new.newest key none
    rw [same, if_neg shown, lastWrite_append old.lo_le new.lo_le]
    cases last : lastWrite writes mid hi key with
    | some record =>
        rw [last] at foundNew
        simp [foundNew]
    | none =>
        have noneLater : lastWrite writes mid now key = Option.none := by
          rw [lastWrite_append new.lo_le new.hi_le, none, last]
          rfl
        rw [new.written key last, old.newest key noneLater]
        simp

/-- What is written at one time only is in the layer of that time. -/
theorem of_only {layer : κ → Option ρ} {key : κ} {time : ℕ} {written : ρ}
    (covers : Covers writes now lo hi keep layer)
    (wrote : writes time key = some written) (kept : keep written = true)
    (only : ∀ other, other ≠ time → writes other key = none) :
    layer key = if lo < time ∧ time ≤ hi then some written else none := by
  by_cases inside : lo < time ∧ time ≤ hi
  · have noLater : lastWrite writes hi now key = none := by
      rw [lastWrite_of_only only, if_neg (by omega)]
    rw [covers.newest key noLater, lastWrite_of_only only, if_pos inside,
      if_pos inside, wrote, Option.filter_some, if_pos kept]
  · rw [if_neg inside]
    apply covers.written
    rw [lastWrite_of_only only, if_neg inside]

theorem ne_none_of_layer {layer : κ → Option ρ} {key : κ}
    (covers : Covers writes now lo hi keep layer) (le : mid ≤ lo)
    (found : layer key ≠ none) :
    lastWrite writes mid now key ≠ none := by
  intro none
  apply found
  apply covers.written key
  rw [lastWrite_append (le.trans covers.lo_le) covers.hi_le] at none
  have upTo := (Option.or_eq_none_iff.mp none).2
  rw [lastWrite_append le covers.lo_le] at upTo
  exact (Option.or_eq_none_iff.mp upTo).1

end Covers

/-- The layers, from the newest on, cover adjacent intervals from `hi` down
to `lo`. -/
def Tiles (writes : ℕ → κ → Option ρ) (now : ℕ) :
    ℕ → List (κ → Option ρ) → ℕ → Prop
  | hi, [], lo => hi = lo
  | hi, layer :: layers, lo =>
      ∃ mid, Covers writes now mid hi (fun _ => true) layer ∧
        Tiles writes now mid layers lo

namespace Tiles

variable {writes : ℕ → κ → Option ρ} {now : ℕ}

theorem le {hi lo : ℕ} {layers : List (κ → Option ρ)}
    (tiles : Tiles writes now hi layers lo) : lo ≤ hi := by
  induction layers generalizing hi with
  | nil => exact tiles.ge
  | cons layer layers ih =>
      obtain ⟨mid, covers, rest⟩ := tiles
      exact (ih rest).trans covers.lo_le

theorem append {hi mid lo : ℕ} {newer older : List (κ → Option ρ)}
    (upper : Tiles writes now hi newer mid)
    (lower : Tiles writes now mid older lo) :
    Tiles writes now hi (newer ++ older) lo := by
  induction newer generalizing hi with
  | nil =>
      have same : hi = mid := upper
      rw [same]
      exact lower
  | cons layer newer ih =>
      obtain ⟨next, covers, rest⟩ := upper
      exact ⟨next, covers, ih rest⟩

theorem findSome_eq {hi lo : ℕ} {layers : List (κ → Option ρ)}
    (tiles : Tiles writes now hi layers lo) (key : κ)
    (last : lastWrite writes hi now key = none) :
    layers.findSome? (fun layer => layer key) =
      lastWrite writes lo hi key := by
  induction layers generalizing hi with
  | nil =>
      have same : hi = lo := tiles
      rw [same, lastWrite_of_le le_rfl]
      rfl
  | cons layer layers ih =>
      obtain ⟨mid, covers, rest⟩ := tiles
      have found := covers.newest key last
      rw [lastWrite_append rest.le covers.lo_le, List.findSome?_cons]
      cases here : lastWrite writes mid hi key with
      | some record =>
          rw [here] at found
          simp [found]
      | none =>
          have noneLater : lastWrite writes mid now key = none := by
            rw [lastWrite_append covers.lo_le covers.hi_le, last, here]
            rfl
          rw [covers.written key here, ih rest noneLater]
          rfl

/-- Above a last layer that leaves records out, the first record found is
the last one written, unless it is one of those. -/
theorem findSome_append {lo : ℕ} {layers : List (κ → Option ρ)}
    {bottom : κ → Option ρ} {keep : ρ → Bool}
    (tiles : Tiles writes now now layers lo)
    (covers : Covers writes now 0 lo keep bottom) (key : κ) :
    (layers ++ [bottom]).findSome? (fun layer => layer key) =
        lastWrite writes 0 now key ∨
      (layers ++ [bottom]).findSome? (fun layer => layer key) = none ∧
        ∃ record, lastWrite writes 0 now key = some record ∧
          keep record = false := by
  have top := tiles.findSome_eq key (lastWrite_of_le le_rfl)
  rw [List.findSome?_append, top,
    lastWrite_append (Nat.zero_le lo) tiles.le]
  cases newer : lastWrite writes lo now key with
  | some record => exact Or.inl rfl
  | none =>
      have found := covers.newest key newer
      simp only [Option.none_or, List.findSome?_cons,
        List.findSome?_nil]
      cases older : lastWrite writes 0 lo key with
      | none =>
          rw [older] at found
          simp [found]
      | some record =>
          rw [older, Option.filter_some] at found
          cases kept : keep record with
          | true => simp [found, kept]
          | false =>
              right
              simp [found, kept]

end Tiles

end StellarCore.Lib
