import ScopedLisp.Proofs.Evaluation.Behavior

-- What `and` and `or` have to do with `if` and `not`. Both evaluate their arguments one after the
-- other, up to the first one that decides, and so do conditionals within conditionals.
-- Main statement: `Evaluator.ends_connectives`.

namespace ScopedLisp

open Behavior

def Failure.SameKind (f g : Failure) : Prop :=
  f.kind = g.kind

theorem Failure.SameKind.refl (f : Failure) : f.SameKind f :=
  rfl

-- Conditionals within conditionals, for the first of the forms whose truth value is the given one.
def Value.decision (deciding : Bool) : List Form → Form
  | [] => boolean !deciding
  | form :: forms =>
    let others := decision deciding forms
    list (symbol "if" :: form ::
      if deciding then [boolean true, others] else [others, boolean false])

-- What becomes of the value of an argument of `not`.
def Behavior.negate : Value → Behavior Value
  | .boolean b => pure (.boolean !b)
  | other => .fail (Cause.notBoolean "not" other.kind other.literal)

variable {e : Evaluator} (he : e.keywords = .standard) (s : Scope)

include he in
theorem Steps.ends_settle_cons (keyword : String) (deciding : Bool) (form : Form)
    (forms : List Form) :
    (settle keyword deciding (form :: forms)).Ends e s =
      e.Ends s form >>= fun
        | .boolean b =>
          if b = deciding then pure (.boolean deciding) else (settle keyword deciding forms).Ends e s
        | other => .fail (Cause.notBoolean keyword other.kind other.literal) := by
  rw [settle, ends_evaluateBoolean s (Evaluator.steady_standard he)]
  refine bind_congr fun v => ?_
  cases v
  case boolean b =>
    by_cases hb : b = deciding
    case pos => simp only [if_pos hb, ends_done]
    case neg => simp only [if_neg hb]
  all_goals rfl

namespace Evaluator

-- The case that is left of a conditional which decides, and the one that goes on.
include he in
theorem ends_decision_cons (deciding : Bool) (form : Form) (forms : List Form) :
    e.Ends s (Value.decision deciding (form :: forms)) =
      e.Ends s form >>= fun
        | .boolean b =>
          if b = deciding then pure (.boolean deciding)
          else e.Ends s (Value.decision deciding forms)
        | other => .fail (Cause.notBoolean "if" other.kind other.literal) := by
  rw [Value.decision, ends_standard s he "if" .conditional rfl]
  cases deciding
  all_goals
    simp only [Bool.false_eq_true, if_true, if_false, Builtin.steps, Steps.conditional]
    rw [Steps.ends_evaluateBoolean s (steady_standard he)]
    refine bind_congr fun v => ?_
    rcases v with _ | _ | _ | (_ | _) | _ | _ | _
    case boolean.false | boolean.true =>
      simp [Steps.ends_evaluate_done s (steady_standard he), ends_boolean]
    all_goals rfl

include he in
theorem ends_negation (form : Form) :
    e.Ends s (.list [.symbol "not", form]) = e.Ends s form >>= negate := by
  rw [ends_standard s he "not" .negation rfl, Builtin.steps, Steps.negation,
    Steps.ends_evaluateBoolean s (steady_standard he)]
  refine bind_congr fun v => ?_
  cases v
  case boolean b => exact Steps.ends_done s _
  all_goals rfl

-- The arguments of the keyword and the nested conditionals are evaluated in step.
include he in
theorem settle_like_decision (keyword : String) (deciding : Bool) (forms : List Form) :
    ((Steps.settle keyword deciding forms).Ends e s).Like Failure.SameKind
      (e.Ends s (Value.decision deciding forms)) := by
  induction forms
  case nil =>
    rw [Steps.settle, Steps.ends_done, Value.decision, ends_boolean]
    exact .refl .refl _
  case cons form forms hi =>
    rw [Steps.ends_settle_cons he, ends_decision_cons he s]
    refine .bind .refl _ fun v => ?_
    cases v
    case boolean b =>
      by_cases hb : b = deciding
      case pos => simp only [if_pos hb]; exact .refl .refl _
      case neg => simp only [if_neg hb]; exact hi
    all_goals exact .fail rfl

-- The first false argument is the one whose negation is the first true one.
include he in
theorem negate_settle_like (forms : List Form) :
    ((Steps.settle "and" false forms).Ends e s >>= negate).Like Failure.SameKind
      ((Steps.settle "or" true (forms.map fun form => .list [.symbol "not", form])).Ends e s) := by
  induction forms
  case nil =>
    simp only [Steps.settle, Steps.ends_done, pure_bind, negate, List.map_nil]
    exact .refl .refl _
  case cons form forms hi =>
    rw [List.map_cons, Steps.ends_settle_cons he, Steps.ends_settle_cons he, ends_negation he s,
      bind_assoc, bind_assoc]
    refine .bind .refl _ fun v => ?_
    rcases v with _ | _ | _ | (_ | _) | _ | _ | _
    case boolean.false =>
      simp only [if_true, negate, pure_bind]
      exact .refl .refl _
    case boolean.true =>
      simp only [negate, pure_bind]
      exact hi
    all_goals
      simp only [negate, fail_bind]
      exact .fail rfl

-- `and` and `or` are conditionals within conditionals, and duals of each other. Whatever their
-- arguments do, they end if and only if the other form ends, with the same value or a failure of
-- the same kind, and they leave the machine the same.
theorem ends_connectives (sink : Sink) (retention : Retention) (s : Scope) (args : List Form) :
    let e : Evaluator := { sink, retention }
    (e.Ends s (.list (.symbol "and" :: args))).Like Failure.SameKind
        (e.Ends s (Value.decision false args)) ∧
      (e.Ends s (.list (.symbol "or" :: args))).Like Failure.SameKind
        (e.Ends s (Value.decision true args)) ∧
      (e.Ends s (.list [.symbol "not", .list (.symbol "and" :: args)])).Like Failure.SameKind
        (e.Ends s (.list (.symbol "or" :: args.map fun arg => .list [.symbol "not", arg]))) := by
  intro e
  have hand (forms : List Form) :
      e.Ends s (.list (.symbol "and" :: forms)) = (Steps.settle "and" false forms).Ends e s :=
    ends_standard s rfl "and" .conjunction rfl forms
  have hor (forms : List Form) :
      e.Ends s (.list (.symbol "or" :: forms)) = (Steps.settle "or" true forms).Ends e s :=
    ends_standard s rfl "or" .disjunction rfl forms
  rw [ends_negation rfl s, hand, hor, hor]
  exact ⟨settle_like_decision rfl s "and" false args,
    settle_like_decision rfl s "or" true args, negate_settle_like rfl s args⟩

-- The other forms that are meant.
example (a b : Form) :
    Value.decision false [a, b] =
      .list [.symbol "if", a, .list [.symbol "if", b, .boolean true, .boolean false],
        .boolean false] :=
  rfl

end Evaluator
end ScopedLisp
