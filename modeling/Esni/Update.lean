/-!
# Updates

An operation on a value that somebody keeps goes step by step: a step looks at the value, changes
it, or refuses to go on. A refusal ends the operation, and what was changed before it stays. So
where the checks of an operation stand decides whether a refusal leaves the value as it was.

## Main definitions

- `Update` — steps that may change a value and may refuse to go on
- `Update.require`, `Update.attempt` and `Update.replace` — checks, and what something else has
  come to
- `Update.outcome` and `Update.result` — the value after the steps, with the refusal that ended them
-/

namespace Esni

/-- Steps that may change a value and may refuse to go on. -/
abbrev Update (σ ε : Type) := ExceptT ε (StateM σ)

namespace Update

variable {σ ε α : Type}

/-- A check that leaves the value alone. -/
def require (holds : Bool) (refusal : ε) : Update σ ε Unit :=
  if holds then pure () else throw refusal

/-- What something else has come to. Its error is the refusal. -/
def attempt : Except ε α → Update σ ε α
  | .ok found => pure found
  | .error refusal => throw refusal

/-- Puts what something else has come to in the place of the value. -/
def replace (found : Except ε σ) : Update σ ε Unit := do
  let next ← attempt found
  set next

/-- The value after the steps, and the refusal that ended them before their end. -/
def outcome (steps : Update σ ε Unit) (value : σ) : σ × Option ε :=
  match steps.run.run value with
  | (.ok (), next) => (next, none)
  | (.error refusal, next) => (next, some refusal)

/-- The value after the steps, if none of them was refused. -/
def result (steps : Update σ ε Unit) (value : σ) : Except ε σ :=
  match outcome steps value with
  | (next, none) => .ok next
  | (_, some refusal) => .error refusal

variable {value : σ}

theorem outcome_get_bind (next : σ → Update σ ε Unit) :
    outcome (do let current ← get; next current) value = outcome (next value) value := rfl

theorem outcome_throw (refusal : ε) :
    outcome (throw refusal : Update σ ε Unit) value = (value, some refusal) := rfl

theorem outcome_set (next : σ) : outcome (set next : Update σ ε Unit) value = (next, none) := rfl

/-- Steps that are not refused are followed by the next ones, on the value that they left. -/
theorem outcome_bind_of_none {first next : Update σ ε Unit} {left : σ}
    (h : outcome first value = (left, none)) :
    outcome (do first; next) value = outcome next left := by
  show outcome (first >>= fun _ => next) value = _
  unfold outcome at h ⊢
  rw [ExceptT.run_bind, StateT.run_bind]
  cases hrun : first.run.run value with
  | mk result after =>
    rw [hrun] at h
    cases result with
    | ok done =>
      cases h
      rfl
    | error refusal => cases h

/-- Nothing follows a refusal. -/
theorem outcome_bind_of_some {first next : Update σ ε Unit} {left : σ} {refusal : ε}
    (h : outcome first value = (left, some refusal)) :
    outcome (do first; next) value = (left, some refusal) := by
  show outcome (first >>= fun _ => next) value = _
  unfold outcome at h ⊢
  rw [ExceptT.run_bind, StateT.run_bind]
  cases hrun : first.run.run value with
  | mk result after =>
    rw [hrun] at h
    cases result with
    | ok done => cases h
    | error refusal' =>
      cases h
      rfl

theorem outcome_require_bind (holds : Bool) (refusal : ε) (next : Update σ ε Unit) :
    outcome (do require holds refusal; next) value =
      if holds then outcome next value else (value, some refusal) := by
  cases holds with
  | true => rfl
  | false => rfl

theorem outcome_attempt_bind_of_ok {outcome' : Except ε α} {found : α} (h : outcome' = .ok found)
    (next : α → Update σ ε Unit) :
    outcome (do let found ← attempt outcome'; next found) value = outcome (next found) value := by
  rw [h]
  rfl

/-- What something else could not do changes nothing. -/
theorem outcome_attempt_bind_of_error {outcome' : Except ε α} {refusal : ε}
    (h : outcome' = .error refusal) (next : α → Update σ ε Unit) :
    outcome (do let found ← attempt outcome'; next found) value = (value, some refusal) := by
  rw [h]
  rfl

theorem result_of_none {steps : Update σ ε Unit} {left : σ}
    (h : outcome steps value = (left, none)) : result steps value = .ok left := by
  rw [result, h]

theorem result_of_some {steps : Update σ ε Unit} {left : σ} {refusal : ε}
    (h : outcome steps value = (left, some refusal)) : result steps value = .error refusal := by
  rw [result, h]

theorem outcome_replace_of_ok {found : Except ε σ} {next : σ} (h : found = .ok next) :
    outcome (replace found) value = (next, none) :=
  outcome_attempt_bind_of_ok h set

theorem outcome_replace_of_error {found : Except ε σ} {refusal : ε} (h : found = .error refusal) :
    outcome (replace found) value = (value, some refusal) :=
  outcome_attempt_bind_of_error h set

end Update

end Esni
