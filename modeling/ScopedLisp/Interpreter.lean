import ScopedLisp.Evaluation.Evaluator
import ScopedLisp.Form.Program
import ScopedLisp.Library

-- Interpreters and their sessions. An interpreter has a root scope with the bindings of a library,
-- and programs run in sessions, which are scopes directly inside of the root. The root is frozen:
-- sessions read it, but cannot change it.

namespace ScopedLisp

open Evaluation

structure Interpreter where
  evaluator : Evaluator
  root      : Scope

-- A scope for programs, in which each one finds what earlier ones have bound.
structure Session where
  scope : Scope

-- A session that is over gives up its bindings. Procedures that outlive it no longer find them.
def Session.close (session : Session) (σ : Store) : Store :=
  σ.clear session.scope

namespace Evaluator

variable (e : Evaluator)

def read (source : String) : Except Failure Form :=
  Program.read e.keywords.grouping e.keywords.reserves source

-- Reads a program, and evaluates it in a scope. Nothing is evaluated unless all of it is read.
def run (depth : Nat) (source : String) (s : Scope) : Evaluation Value := do
  e.evaluate depth s (← ofExcept (e.read source))

end Evaluator

namespace Interpreter

-- The depth to which evaluation may nest where nothing else is asked for.
def standardDepth : Nat := 100000

-- Evaluates a library in a root scope of its own, and freezes that scope.
def buildWith (e : Evaluator) (library : Scope → Evaluation Value) : Evaluation Interpreter := do
  let root ← onStore (·.root)
  let _ ← within (.named "in standard library") (library root)
  onStore fun σ => ((), σ.freeze root)
  return { evaluator := e, root }

-- The library is a program.
def build (e : Evaluator) (depth : Nat) (library : String := standardLibrary) :
    Evaluation Interpreter :=
  buildWith e (e.run depth library)

variable (i : Interpreter)

def session : Evaluation Session := do
  return { scope := ← onStore (·.child i.root) }

def read (source : String) : Except Failure Form :=
  i.evaluator.read source

def evaluate (depth : Nat) (form : Form) (s : Scope) : Evaluation Value :=
  i.evaluator.evaluate depth s form

def run (depth : Nat) (source : String) (s : Scope) : Evaluation Value :=
  i.evaluator.run depth source s

-- Runs a program in a scope, if that is a session of the interpreter.
def runInSession (depth : Nat) (source : String) (s : Scope) : Evaluation Value :=
  if s.parent? = some i.root then i.run depth source s else fail .foreignScope

-- An interpreter that is given up takes the bindings of its library along.
def close (σ : Store) : Store :=
  σ.clear i.root

end Interpreter
end ScopedLisp
