import ScopedLisp.Evaluation.Machine
import ScopedLisp.Value.Written

-- What the handler of a keyword may use: the evaluation of forms, which it is given, and the calls
-- and finished scopes that are made from it.

namespace ScopedLisp

open Evaluation

-- What is said against a text, if anything. That may depend on all that has been printed so far.
structure Refusal where
  reason? : (printed text : String) → Option String

-- The same is said against every text.
instance : Coe (Option String) Refusal :=
  ⟨fun reason? => ⟨fun _ _ => reason?⟩⟩

-- Where printed text goes. A sink may refuse to take text, or to pass it on once it has taken it.
structure Sink where
  refusesText  : Refusal := (none : Option String)
  refusesFlush : Refusal := (none : Option String)
  -- What has been taken of a text by the time that it is refused.
  begins       : (printed text : String) → String := fun _ _ => ""

-- When the frame of a call or a `let` keeps its bindings after the end. To keep them always is what
-- nested scopes are expected to mean. To keep them only if the result captures the scope lets
-- frames that bind procedures of their own be given up.
inductive Retention
  | always
  | whenCaptured
deriving DecidableEq

-- The frame of a scope that has finished with the outcome gives up its bindings.
def Retention.gives (r : Retention) (s : Scope) : Except Stop Value → Bool
  | .ok v => r = .whenCaptured && !v.captures s
  | .error _ => r = .whenCaptured

def Store.release (σ : Store) (r : Retention) (s : Scope) (outcome : Except Stop Value) : Store :=
  if r.gives s outcome then σ.clear s else σ

-- What handlers are given: how to evaluate a form in a scope, and what surrounds the evaluation.
structure Context where
  evaluate  : Scope → Form → Evaluation Value
  reserved  : String → Bool
  sink      : Sink := {}
  retention : Retention := .whenCaptured

-- Handlers get the arguments of their keyword as they stand in the program. They decide which ones
-- to evaluate, and when.
abbrev Handler := Context → Scope → List Form → Evaluation Value

namespace Context

variable (c : Context)

-- Evaluation after which a scope has finished, whether it succeeds or not.
def finishing (s : Scope) (x : Evaluation Value) : Evaluation Value :=
  ExceptT.mk do
    let outcome ← x.run
    modify fun m => { m with store := m.store.release c.retention s outcome }
    return outcome

def evaluateAll (s : Scope) (forms : List Form) : Evaluation (List Value) :=
  forms.mapM (c.evaluate s)

-- Evaluates the forms in order for the value of the last one.
def evaluateBody (s : Scope) (forms : List Form) : Evaluation Value :=
  forms.foldlM (fun _ form => c.evaluate s form) .nil

-- Evaluates the body in a new scope inside of the home, in which the parameters are bound. If a
-- parameter occurs twice, the last value is the one that counts.
def apply (p : Procedure) (values : List Value) : Evaluation Value := do
  let inner ← onStore (·.child p.home (NameMap.insertAll {} (p.parameters.zip values)))
  c.finishing inner (c.evaluate inner p.body)

-- Arguments are evaluated in the scope of the caller, and only if their number is right.
def call (p : Procedure) (args : List Form) (caller : Scope) : Evaluation Value := do
  if p.arity = args.length then c.apply p (← c.evaluateAll caller args)
  else fail (.callArguments p.arity args.length)

end Context
end ScopedLisp
