import ScopedLisp.Evaluation.Context

-- The checks on arguments that handlers share.

namespace ScopedLisp

open Evaluation

-- A form of so many parts was given other ones.
def Cause.wrongCount (form : String) (expected : Nat) (given : List Form) : Cause :=
  .argumentCount form expected given.length (Value.list given).display

-- The name of a form that has to be a symbol.
def nameOf (keyword role : String) (form : Form) : Except Failure String :=
  match form with
  | .symbol name => .ok name
  | other => .error (Cause.notSymbol keyword role other.display)

-- The items of a form that has to be a list.
def itemsOf (keyword role : String) (form : Form) : Except Failure (List Form) :=
  match form with
  | .list items => .ok items
  | other => .error (Cause.notList keyword role other.display)

namespace Context

variable (c : Context)

-- The name that a binding form binds: a symbol that is no keyword.
def bindable (keyword : String) (form : Form) : Except Failure String := do
  let name ← nameOf keyword "binding name" form
  if c.reserved name then .error (Cause.reservedName keyword name) else return name

-- The value of a form that has to be a truth value.
def evaluateBoolean (s : Scope) (keyword : String) (form : Form) : Evaluation Bool := do
  match ← c.evaluate s form with
  | .boolean b => return b
  | other => fail (.notBoolean keyword other.kind other.literal)

-- The value of a form that has to be an integer.
def evaluateInteger (s : Scope) (keyword : String) (form : Form) : Evaluation Integer := do
  match ← c.evaluate s form with
  | .integer i => return i
  | other => fail (.notInteger keyword other.kind other.literal)

-- The values of forms that have to be integers. Each value is checked before the next form.
def evaluateIntegers (s : Scope) (keyword : String) (forms : List Form) :
    Evaluation (List Integer) :=
  forms.mapM (c.evaluateInteger s keyword)

end Context
end ScopedLisp
