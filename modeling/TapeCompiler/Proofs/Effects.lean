/-!
# Computations that fail and keep their state

Compiles in place and tasks on files are computations of one kind: they change
a state and may fail, and a failure keeps the changes made before it.  The
lemmas say what such a computation comes to from a given state, one for each
way to put computations together.

Two results can be compared even if they are not the same: values by one
relation and errors by another.
-/

namespace TapeCompiler
namespace Effects

variable {ε σ α β : Type}

theorem run_throw (error : ε) (state : σ) :
    (throw error : ExceptT ε (StateM σ) α).run state = (.error error, state) := rfl

theorem run_get (state : σ) : (get : ExceptT ε (StateM σ) σ).run state = (.ok state, state) := rfl

theorem run_modify (change : σ → σ) (state : σ) :
    (modify change : ExceptT ε (StateM σ) PUnit).run state = (.ok ⟨⟩, change state) := rfl

/-- What follows a computation is carried out if that succeeds. -/
theorem run_bind (first : ExceptT ε (StateM σ) α) (next : α → ExceptT ε (StateM σ) β) (state : σ) :
    (first >>= next).run state =
      match first.run state with
      | (.ok value, after) => (next value).run after
      | (.error error, after) => (.error error, after) := by
  change (match first.run state with
    | (result, after) => ExceptT.bindCont next result after) = _
  rcases first.run state with ⟨result, after⟩
  cases result <;> rfl

/-- A handler is carried out if the computation fails, from the state in which
it has failed. -/
theorem run_tryCatch (first : ExceptT ε (StateM σ) α) (handle : ε → ExceptT ε (StateM σ) α)
    (state : σ) :
    (tryCatch first handle).run state =
      match first.run state with
      | (.ok value, after) => (.ok value, after)
      | (.error error, after) => (handle error).run after := by
  change (ExceptT.tryCatch first handle).run state = _
  change (match first.run state with
    | (result, after) => (match result with
      | .ok value => pure (.ok value)
      | .error error => (handle error).run : StateM σ (Except ε α)) after) = _
  rcases first.run state with ⟨result, after⟩
  cases result <;> rfl

/-- What is returned on the result of a computation leaves the state behind it. -/
theorem run_result_bind {γ : Type} (first : ExceptT ε (StateM σ) α) {next : Except ε α → StateM σ γ}
    {value : Except ε α → γ} (hnext : ∀ result, next result = pure (value result)) (state : σ) :
    (first.run >>= next).run state = (value (first.run state).1, (first.run state).2) := by
  obtain rfl : next = fun result => pure (value result) := funext hnext
  rfl

theorem ok_bind (value : α) (next : α → Except ε β) :
    (.ok value : Except ε α) >>= next = next value := rfl

theorem ok_mapError {δ : Type} (report : ε → δ) (value : α) :
    (.ok value : Except ε α).mapError report = .ok value := rfl

/-- A computation that succeeds in two parts has succeeded in each. -/
theorem bind_eq_ok {first : Except ε α} {second : α → Except ε β} {result : β}
    (h : first >>= second = .ok result) :
    ∃ value, first = .ok value ∧ second value = .ok result := by
  cases first with
  | error fault => cases h
  | ok value => exact ⟨value, rfl, h⟩

theorem ok_of_mapError {δ : Type} {report : ε → δ} {first : Except ε α} {value : α}
    (h : first.mapError report = .ok value) : first = .ok value := by
  cases first with
  | error fault => cases h
  | ok result => exact congrArg _ (Except.ok.inj h)

theorem ok_of_toOption {first : Except ε α} {value : α} (h : first.toOption = some value) :
    first = .ok value := by
  cases first with
  | error fault => cases h
  | ok result => exact congrArg _ (Option.some.inj h)

theorem error_of_map {first : Except ε α} {change : α → β} {error : ε}
    (h : first.map change = .error error) : first = .error error := by
  cases first with
  | error fault => exact congrArg _ (Except.error.inj h)
  | ok value => cases h

/-- Results that agree: two values that are related, or two errors that are. -/
def Agree (values : α → α → Prop) (errors : ε → ε → Prop) : Except ε α → Except ε α → Prop
  | .ok first, .ok second => values first second
  | .error first, .error second => errors first second
  | _, _ => False

/-- Results that agree go on agreeing if they are continued alike. -/
theorem Agree.bind {values : α → α → Prop} {errors : ε → ε → Prop} {next : β → β → Prop}
    {first second : Except ε α} {continueFirst continueSecond : α → Except ε β}
    (hagree : Agree values errors first second)
    (hcontinue : ∀ one other, values one other →
      Agree next errors (continueFirst one) (continueSecond other)) :
    Agree next errors (first >>= continueFirst) (second >>= continueSecond) := by
  cases first with
  | ok one =>
      cases second with
      | ok other => exact hcontinue one other hagree
      | error error => exact hagree.elim
  | error error =>
      cases second with
      | ok other => exact hagree.elim
      | error other => exact hagree

/-- Results that agree still do when their errors are reported in another way. -/
theorem Agree.mapError {values : α → α → Prop} {errors : ε → ε → Prop} {δ : Type}
    {failures : δ → δ → Prop} {report : ε → δ} {first second : Except ε α}
    (hagree : Agree values errors first second)
    (hreport : ∀ one other, errors one other → failures (report one) (report other)) :
    Agree values failures (first.mapError report) (second.mapError report) := by
  cases first with
  | ok one =>
      cases second with
      | ok other => exact hagree
      | error error => exact hagree.elim
  | error one =>
      cases second with
      | ok other => exact hagree.elim
      | error other => exact hreport one other hagree

end Effects
end TapeCompiler
