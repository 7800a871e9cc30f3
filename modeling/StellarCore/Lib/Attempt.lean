import StellarCore.Lib.Program

/-!
# Attempts

A program that may also be rejected: it ends early with a result of its own,
which is not a failure.  `Attempts` states a postcondition for the three ends.
-/

namespace StellarCore.Lib

variable {ε σ ρ α β : Type}

/-- A program over states `σ` that fails with `ε` or is rejected with `ρ`. -/
abbrev Attempt (ε σ ρ : Type) := ExceptT ρ (EStateM ε σ)

def reject (result : ρ) : Attempt ε σ ρ α :=
  ExceptT.mk (pure (.error result))

/-- Started in `start`, the program ends normally as `done` says, is rejected
as `rejected` says or fails as `failed` says. -/
def Attempts (program : Attempt ε σ ρ α) (start : σ) (done : α → σ → Prop)
    (rejected : ρ → σ → Prop) (failed : ε → σ → Prop) : Prop :=
  Ends program.run start
    (fun outcome finish =>
      match outcome with
      | .ok value => done value finish
      | .error result => rejected result finish)
    failed

/-- Leaves no trace unless the program ends normally. -/
def transactional (program : Attempt ε σ ρ α) : Attempt ε σ ρ α :=
  ExceptT.mk (fun start =>
    match program.run start with
    | .ok (.ok value) finish => .ok (.ok value) finish
    | .ok (.error result) _ => .ok (.error result) start
    | .error reason _ => .error reason start)

namespace Attempts

variable {program : Attempt ε σ ρ α} {start : σ} {done : α → σ → Prop}
  {rejected : ρ → σ → Prop} {failed : ε → σ → Prop}

@[simp] theorem pure_iff {value : α} :
    Attempts (pure value : Attempt ε σ ρ α) start done rejected failed ↔
      done value start :=
  Iff.rfl

@[simp] theorem reject_iff {result : ρ} :
    Attempts (reject result : Attempt ε σ ρ α) start done rejected failed ↔
      rejected result start :=
  Iff.rfl

@[simp] theorem bind_iff {next : α → Attempt ε σ ρ β} {done : β → σ → Prop} :
    Attempts (program >>= next) start done rejected failed ↔
      Attempts program start
        (fun value middle =>
          Attempts (next value) middle done rejected failed)
        rejected failed := by
  unfold Attempts
  rw [ExceptT.run_bind, Ends.bind_iff]
  unfold Ends
  cases program.run start with
  | error reason finish => exact Iff.rfl
  | ok outcome middle =>
      cases outcome with
      | ok value => exact Iff.rfl
      | error result => exact Iff.rfl

/-- A program that cannot be rejected, as a step of one that can. -/
@[simp] theorem lift_iff {step : EStateM ε σ α} :
    Attempts (liftM step : Attempt ε σ ρ α) start done rejected failed ↔
      Ends step start done failed := by
  show Ends (ExceptT.run (ExceptT.lift step)) start _ _ ↔ _
  rw [ExceptT.run_lift, Ends.map_iff]

@[simp] theorem ite_iff {condition : Prop} [Decidable condition]
    {other : Attempt ε σ ρ α} :
    Attempts (if condition then program else other) start done rejected
        failed ↔
      (condition → Attempts program start done rejected failed) ∧
        (¬ condition → Attempts other start done rejected failed) := by
  by_cases chosen : condition
  · simp [chosen]
  · simp [chosen]

@[simp] theorem transactional_iff :
    Attempts (transactional program) start done rejected failed ↔
      Attempts program start done (fun result _ => rejected result start)
        (fun reason _ => failed reason start) := by
  have run : (transactional program).run start =
      match program.run start with
      | .ok (.ok value) finish => .ok (.ok value) finish
      | .ok (.error result) _ => .ok (.error result) start
      | .error reason _ => .error reason start := rfl
  unfold Attempts Ends
  rw [run]
  cases program.run start with
  | error reason finish => exact Iff.rfl
  | ok outcome finish =>
      cases outcome with
      | ok value => exact Iff.rfl
      | error result => exact Iff.rfl

theorem mono {done' : α → σ → Prop} {rejected' : ρ → σ → Prop}
    {failed' : ε → σ → Prop}
    (attempts : Attempts program start done rejected failed)
    (doneWeaker : ∀ value finish, done value finish → done' value finish)
    (rejectedWeaker : ∀ result finish,
      rejected result finish → rejected' result finish)
    (failedWeaker : ∀ reason finish,
      failed reason finish → failed' reason finish) :
    Attempts program start done' rejected' failed' := by
  refine Ends.mono attempts ?_ failedWeaker
  intro outcome finish ended
  cases outcome with
  | ok value => exact doneWeaker value finish ended
  | error result => exact rejectedWeaker result finish ended

/-- What every step of a loop keeps holds after the loop. -/
theorem foldlM {step : α → β → Attempt ε σ ρ α} {holds : α → σ → Prop}
    {items : List β} {value : α}
    (kept : ∀ value item state, item ∈ items → holds value state →
      Attempts (step value item) state holds rejected failed)
    (begins : holds value start) :
    Attempts (items.foldlM step value) start holds rejected failed := by
  induction items generalizing value start with
  | nil => exact begins
  | cons item items ih =>
      rw [List.foldlM_cons, bind_iff]
      refine (kept value item start List.mem_cons_self begins).mono ?_
        (fun _ _ => id) (fun _ _ => id)
      intro next middle reached
      exact ih (fun value item state member =>
        kept value item state (List.mem_cons_of_mem _ member)) reached

end Attempts

end StellarCore.Lib
