import Mathlib.Tactic

/-!
# Programs with state and failure

An `EStateM` program ends either with a value or with a failure, and in both
cases with a state.  `Ends` states a postcondition for the two ends at once;
a failure does not undo what the program did before it.  The rules below take
a program apart along `do` notation, and `Ends.mono` replaces a call by the
postcondition proved for it.
-/

namespace StellarCore.Lib

variable {ε σ α β : Type}

/-- Started in `start`, the program ends normally as `done` says or fails as
`failed` says. -/
def Ends (program : EStateM ε σ α) (start : σ)
    (done : α → σ → Prop) (failed : ε → σ → Prop) : Prop :=
  match program start with
  | .ok value finish => done value finish
  | .error reason finish => failed reason finish

namespace Ends

variable {program : EStateM ε σ α} {start : σ}
  {done : α → σ → Prop} {failed : ε → σ → Prop}

@[simp] theorem pure_iff {value : α} :
    Ends (pure value : EStateM ε σ α) start done failed ↔
      done value start :=
  Iff.rfl

@[simp] theorem bind_iff {next : α → EStateM ε σ β}
    {done : β → σ → Prop} :
    Ends (program >>= next) start done failed ↔
      Ends program start
        (fun value middle => Ends (next value) middle done failed)
        failed := by
  unfold Ends
  show (match EStateM.bind program next start with
    | .ok value finish => done value finish
    | .error reason finish => failed reason finish) ↔ _
  unfold EStateM.bind
  cases program start with
  | ok value middle => exact Iff.rfl
  | error reason middle => exact Iff.rfl

@[simp] theorem map_iff {change : α → β} {done : β → σ → Prop} :
    Ends (change <$> program) start done failed ↔
      Ends program start (fun value => done (change value)) failed := by
  unfold Ends
  show (match EStateM.map change program start with
    | .ok value finish => done value finish
    | .error reason finish => failed reason finish) ↔ _
  unfold EStateM.map
  cases program start with
  | ok value finish => exact Iff.rfl
  | error reason finish => exact Iff.rfl

@[simp] theorem get_iff {done : σ → σ → Prop} :
    Ends (get : EStateM ε σ σ) start done failed ↔ done start start :=
  Iff.rfl

@[simp] theorem modify_iff {change : σ → σ} {done : PUnit → σ → Prop} :
    Ends (modify change : EStateM ε σ PUnit) start done failed ↔
      done ⟨⟩ (change start) :=
  Iff.rfl

@[simp] theorem set_iff {next : σ} {done : PUnit → σ → Prop} :
    Ends (set next : EStateM ε σ PUnit) start done failed ↔ done ⟨⟩ next :=
  Iff.rfl

@[simp] theorem throw_iff {reason : ε} :
    Ends (throw reason : EStateM ε σ α) start done failed ↔
      failed reason start :=
  Iff.rfl

@[simp] theorem tryCatch_iff {handler : ε → EStateM ε σ α} :
    Ends (tryCatch program handler) start done failed ↔
      Ends program start done
        (fun reason middle => Ends (handler reason) middle done failed) := by
  unfold Ends
  show (match EStateM.tryCatch program handler start with
    | .ok value finish => done value finish
    | .error reason finish => failed reason finish) ↔ _
  unfold EStateM.tryCatch
  cases program start with
  | ok value finish => exact Iff.rfl
  | error reason middle => exact Iff.rfl

@[simp] theorem ite_iff {condition : Prop} [Decidable condition]
    {other : EStateM ε σ α} :
    Ends (if condition then program else other) start done failed ↔
      (condition → Ends program start done failed) ∧
        (¬ condition → Ends other start done failed) := by
  by_cases chosen : condition
  · simp [chosen]
  · simp [chosen]

/-- The rule of consequence: a proved postcondition stands in for a call. -/
theorem mono {done' : α → σ → Prop} {failed' : ε → σ → Prop}
    (ends : Ends program start done failed)
    (doneWeaker : ∀ value finish, done value finish → done' value finish)
    (failedWeaker : ∀ reason finish,
      failed reason finish → failed' reason finish) :
    Ends program start done' failed' := by
  unfold Ends at ends ⊢
  cases result : program start with
  | ok value finish =>
      rw [result] at ends
      exact doneWeaker value finish ends
  | error reason finish =>
      rw [result] at ends
      exact failedWeaker reason finish ends

theorem of_always (normally : ∀ value finish, done value finish)
    (otherwise : ∀ reason finish, failed reason finish) :
    Ends program start done failed := by
  unfold Ends
  cases program start with
  | ok value finish => exact normally value finish
  | error reason finish => exact otherwise reason finish

theorem of_ok {value : α} {finish : σ}
    (ends : Ends program start done failed)
    (result : program start = .ok value finish) : done value finish := by
  unfold Ends at ends
  rwa [result] at ends

theorem of_run {finish : σ} {value : α}
    (run : program start = .ok value finish) (holds : done value finish) :
    Ends program start done failed := by
  unfold Ends
  rw [run]
  exact holds

theorem run_iff {finish : σ} {value : α}
    (run : program start = .ok value finish) :
    Ends program start done failed ↔ done value finish := by
  unfold Ends
  rw [run]

theorem run_error_iff {finish : σ} {reason : ε}
    (run : program start = .error reason finish) :
    Ends program start done failed ↔ failed reason finish := by
  unfold Ends
  rw [run]

theorem and {done' : α → σ → Prop} {failed' : ε → σ → Prop}
    (first : Ends program start done failed)
    (second : Ends program start done' failed') :
    Ends program start (fun value finish =>
        done value finish ∧ done' value finish)
      (fun reason finish => failed reason finish ∧ failed' reason finish) := by
  unfold Ends at first second ⊢
  cases result : program start with
  | ok value finish =>
      rw [result] at first second
      exact ⟨first, second⟩
  | error reason finish =>
      rw [result] at first second
      exact ⟨first, second⟩

/-- A program that can end in one way only has that result. -/
theorem eq_ok {value : α} {finish : σ}
    (ends : Ends program start
      (fun value' finish' => value' = value ∧ finish' = finish)
      (fun _ _ => False)) : program start = .ok value finish := by
  unfold Ends at ends
  cases result : program start with
  | ok value' finish' =>
      rw [result] at ends
      rw [ends.1, ends.2]
  | error reason finish' =>
      rw [result] at ends
      exact ends.elim

theorem of_error {reason : ε} {finish : σ}
    (ends : Ends program start done failed)
    (result : program start = .error reason finish) :
    failed reason finish := by
  unfold Ends at ends
  rwa [result] at ends

end Ends

/-- Started in `start`, the program comes without a failure to a state that
is as `there` says, and goes on as `rest` does from that state. -/
def Arrives (program : EStateM ε σ α) (start : σ) (rest : EStateM ε σ α)
    (there : σ → Prop) : Prop :=
  ∃ middle, there middle ∧ program start = rest middle

namespace Arrives

variable {program : EStateM ε σ α} {start : σ} {there : σ → Prop}

theorem here (reached : there start) :
    Arrives program start program there :=
  ⟨start, reached, rfl⟩

/-- The first part of a program that cannot fail is passed over. -/
theorem bind {next : α → EStateM ε σ β} {rest : EStateM ε σ β}
    (ends : Ends program start
      (fun value middle => Arrives (next value) middle rest there)
      (fun _ _ => False)) :
    Arrives (program >>= next) start rest there := by
  unfold Ends at ends
  show ∃ middle, there middle ∧
    EStateM.bind program next start = rest middle
  unfold EStateM.bind
  cases result : program start with
  | ok value middle =>
      rw [result] at ends
      exact ends
  | error reason middle =>
      rw [result] at ends
      exact ends.elim

/-- A program that goes on as `rest` does so in front of a further part. -/
theorem append {rest : EStateM ε σ α} {next : α → EStateM ε σ β}
    (arrives : Arrives program start rest there) :
    Arrives (program >>= next) start (rest >>= next) there := by
  obtain ⟨middle, reached, equal⟩ := arrives
  refine ⟨middle, reached, ?_⟩
  show EStateM.bind program next start = EStateM.bind rest next middle
  unfold EStateM.bind
  rw [equal]

end Arrives

/-- Whatever state it is started in, the program does not fail for this
reason. -/
def Avoids (program : EStateM ε σ α) (reason : ε) : Prop :=
  ∀ start, Ends program start (fun _ _ => True)
    (fun reason' _ => reason' ≠ reason)

namespace Avoids

variable {program : EStateM ε σ α} {reason : ε}

theorem of_pure {value : α} :
    Avoids (pure value : EStateM ε σ α) reason :=
  fun _ => trivial

theorem of_get : Avoids (get : EStateM ε σ σ) reason :=
  fun _ => trivial

theorem of_modify {change : σ → σ} :
    Avoids (modify change : EStateM ε σ PUnit) reason :=
  fun _ => trivial

theorem of_throw {other : ε} (differs : other ≠ reason) :
    Avoids (throw other : EStateM ε σ α) reason :=
  fun _ => differs

theorem bind {next : α → EStateM ε σ β} (first : Avoids program reason)
    (second : ∀ value, Avoids (next value) reason) :
    Avoids (program >>= next) reason := by
  intro start
  rw [Ends.bind_iff]
  exact (first start).mono (fun value middle _ => second value middle)
    (fun _ _ avoided => avoided)

theorem ite {condition : Prop} [Decidable condition]
    {other : EStateM ε σ α} (yes : Avoids program reason)
    (no : Avoids other reason) :
    Avoids (if condition then program else other) reason := by
  intro start
  rw [Ends.ite_iff]
  exact ⟨fun _ => yes start, fun _ => no start⟩

end Avoids

/-- Whatever state it is started in and however it ends, the program relates
its last state to the first one. -/
def Keeps (program : EStateM ε σ α) (relation : σ → σ → Prop) : Prop :=
  ∀ start, Ends program start (fun _ finish => relation start finish)
    (fun _ finish => relation start finish)

namespace Keeps

variable {program : EStateM ε σ α} {relation : σ → σ → Prop}

theorem of_modify {change : σ → σ} (step : ∀ state, relation state
    (change state)) : Keeps (modify change : EStateM ε σ PUnit) relation :=
  step

section Reflexive

variable [Std.Refl relation]

theorem of_pure {value : α} :
    Keeps (pure value : EStateM ε σ α) relation :=
  fun state => Std.Refl.refl state

theorem of_get : Keeps (get : EStateM ε σ σ) relation :=
  fun state => Std.Refl.refl state

theorem of_throw {reason : ε} :
    Keeps (throw reason : EStateM ε σ α) relation :=
  fun state => Std.Refl.refl state

end Reflexive

theorem bind [IsTrans σ relation] {next : α → EStateM ε σ β}
    (first : Keeps program relation)
    (second : ∀ value, Keeps (next value) relation) :
    Keeps (program >>= next) relation := by
  intro start
  rw [Ends.bind_iff]
  refine (first start).mono ?_ (fun _ _ related => related)
  intro value middle related
  exact (second value middle).mono
    (fun _ _ later => IsTrans.trans _ _ _ related later)
    (fun _ _ later => IsTrans.trans _ _ _ related later)

theorem ite {condition : Prop} [Decidable condition]
    {other : EStateM ε σ α} (yes : Keeps program relation)
    (no : Keeps other relation) :
    Keeps (if condition then program else other) relation := by
  intro start
  rw [Ends.ite_iff]
  exact ⟨fun _ => yes start, fun _ => no start⟩

end Keeps

/-- What every step of a loop keeps, the loop keeps. -/
theorem foldlM_keeps {step : σ → α → Option σ} {holds : σ → Prop}
    (kept : ∀ state item next, holds state → step state item = some next →
      holds next)
    {items : List α} {start finish : σ} (begins : holds start)
    (result : items.foldlM step start = some finish) : holds finish := by
  induction items generalizing start with
  | nil =>
      cases result
      exact begins
  | cons item items ih =>
      rw [List.foldlM_cons] at result
      obtain ⟨next, first, rest⟩ := Option.bind_eq_some_iff.mp result
      exact ih (kept start item next begins first) rest

/-- A loop over the parts of items is a loop over the items. -/
theorem foldlM_flatMap {ι : Type} {step : σ → α → Except ε σ}
    {parts : ι → List α} (items : List ι) (start : σ) :
    (items.flatMap parts).foldlM step start =
      items.foldlM (fun state item => (parts item).foldlM step state)
        start := by
  induction items generalizing start with
  | nil => rfl
  | cons item items ih =>
      rw [List.flatMap_cons, List.foldlM_append, List.foldlM_cons]
      congr 1
      funext state
      exact ih state

/-! ## Programs that only read -/

/-- The program leaves the state as it is, and fails for the given reasons
only. -/
def Reads (reasons : ε → Prop) (program : EStateM ε σ α) : Prop :=
  ∀ start, Ends program start (fun _ finish => finish = start)
    (fun reason finish => reasons reason ∧ finish = start)

namespace Reads

variable {reasons : ε → Prop} {program : EStateM ε σ α}

theorem pure (value : α) :
    Reads reasons (Pure.pure value : EStateM ε σ α) :=
  fun _ => rfl

theorem bind {next : α → EStateM ε σ β} (first : Reads reasons program)
    (later : ∀ value, Reads reasons (next value)) :
    Reads reasons (program >>= next) := by
  intro start
  rw [Ends.bind_iff]
  refine (first start).mono ?_ (fun _ _ failed => failed)
  rintro value _ rfl
  exact later value _

theorem ite {condition : Prop} [Decidable condition]
    {other : EStateM ε σ α} (yes : Reads reasons program)
    (no : Reads reasons other) :
    Reads reasons (if condition then program else other) := by
  by_cases chosen : condition
  · rw [if_pos chosen]
    exact yes
  · rw [if_neg chosen]
    exact no

theorem get : Reads reasons (MonadState.get : EStateM ε σ σ) :=
  fun _ => rfl

theorem throw {reason : ε} (known : reasons reason) :
    Reads reasons (MonadExcept.throw reason : EStateM ε σ α) :=
  fun _ => ⟨known, rfl⟩

/-- Where the program does not fail, it has a value. -/
theorem cases (reads : Reads reasons program) (start : σ) :
    (∃ value, program start = .ok value start) ∨
      ∃ reason, program start = .error reason start ∧ reasons reason := by
  have ends := reads start
  unfold Ends at ends
  cases result : program start with
  | ok value finish =>
      rw [result] at ends
      exact .inl ⟨value, congrArg (EStateM.Result.ok value) ends⟩
  | error reason finish =>
      rw [result] at ends
      exact .inr ⟨reason, congrArg (EStateM.Result.error reason) ends.2,
        ends.1⟩

end Reads

end StellarCore.Lib
