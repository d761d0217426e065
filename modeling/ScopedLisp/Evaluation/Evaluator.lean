import ScopedLisp.Keywords.Standard

-- Evaluation of forms. A list is a use of a keyword or a call, a symbol stands for what it is bound
-- to, and all else stands for itself.

namespace ScopedLisp

open Evaluation

-- What evaluation depends on besides the machine.
structure Evaluator where
  keywords  : Keywords := .standard
  sink      : Sink := {}
  retention : Retention := .whenCaptured

namespace Evaluator

variable (e : Evaluator)

-- What handlers are given, if forms are evaluated in the given way.
def contextOf (evaluate : Scope → Form → Evaluation Value) : Context :=
  { evaluate, reserved := e.keywords.reserves, sink := e.sink, retention := e.retention }

-- A form that starts with a name: keywords come first, and cannot be hidden by bindings.
def evaluateNamed (c : Context) (s : Scope) (name : String) (args : List Form) :
    Evaluation Value := do
  match e.keywords.find? name with
  | some handler => handler c s args
  | none =>
    match ← find? s name with
    | some (.procedure p) => c.call p args s
    | some other => fail (.namedNoProcedure name other.kind)
    | none => fail (.unboundProcedure name)

-- A form that starts with a list: the list has to yield the procedure.
def evaluateHeaded (c : Context) (s : Scope) (head : Form) (args : List Form) :
    Evaluation Value := do
  match ← c.evaluate s head with
  | .procedure p => c.call p args s
  | other => fail (.headNoProcedure head.display other.kind)

-- The value of a form, given how to evaluate the forms that it depends on.
def evaluateWith (c : Context) (s : Scope) (form : Form) : Evaluation Value :=
  match form with
  | .list (.symbol name :: args) => e.evaluateNamed c s name args
  | .list (.list items :: args) => evaluateHeaded c s (.list items) args
  | .list _ => fail (.notCallable form.display)
  | .symbol name => do
    match ← find? s name with
    | some v => return v
    | none => fail (.unboundValue name)
  | atom => return atom

-- The value of a form in a scope. Forms that are evaluated for others nest at most `depth` deep.
def evaluate : (depth : Nat) → Scope → Form → Evaluation Value
  | 0 => fun _ _ => throw .tooDeep
  | depth + 1 => e.evaluateWith (e.contextOf (evaluate depth))

def context (depth : Nat) : Context :=
  e.contextOf (e.evaluate depth)

theorem evaluate_succ (depth : Nat) (s : Scope) (form : Form) :
    e.evaluate (depth + 1) s form = e.evaluateWith (e.context depth) s form := rfl

end Evaluator
end ScopedLisp
