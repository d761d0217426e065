import ScopedLisp.Integer
import ScopedLisp.Scope

-- Values. Programs are values, too: a form is an atom, or a list of forms.

namespace ScopedLisp

mutual

-- Nil and procedures only come from evaluation. The reader builds all else.
inductive Value
  | nil
  | integer (i : Integer)
  | text (s : String)
  | boolean (b : Bool)
  | symbol (name : String)
  | list (items : List Value)
  | procedure (p : Procedure)

-- Procedures that look the same are told apart by their identity. The home is the scope that the
-- body sees outside of the parameters.
structure Procedure where
  identity   : Nat
  parameters : List String
  body       : Value
  home       : Scope

end

-- A value that is meant to be evaluated.
abbrev Form := Value

def Procedure.arity (p : Procedure) : Nat :=
  p.parameters.length

namespace Value

instance : Inhabited Value := ⟨nil⟩

def kind : Value → String
  | nil         => "nil"
  | integer _   => "integer"
  | text _      => "text"
  | boolean _   => "boolean"
  | symbol _    => "symbol"
  | list _      => "list"
  | procedure _ => "procedure"

def name? : Value → Option String
  | symbol name => some name
  | _ => none

def items? : Value → Option (List Value)
  | list items => some items
  | _ => none

mutual

-- Equality as programs see it: lists by their items, and procedures by their identity.
def same : Value → Value → Bool
  | nil, nil => true
  | integer a, integer b => a == b
  | text a, text b => a == b
  | boolean a, boolean b => a == b
  | symbol a, symbol b => a == b
  | list as, list bs => sameItems as bs
  | procedure p, procedure q => p.identity == q.identity
  | _, _ => false

def sameItems : List Value → List Value → Bool
  | [], [] => true
  | a :: as, b :: bs => a.same b && sameItems as bs
  | _, _ => false

end

mutual

-- The value holds a procedure whose home is the scope or lies in it.
def captures (scope : Scope) : Value → Bool
  | procedure p => p.home.liesIn scope
  | list items => anyCaptures scope items
  | _ => false

def anyCaptures (scope : Scope) : List Value → Bool
  | [] => false
  | v :: vs => v.captures scope || anyCaptures scope vs

end

end Value
end ScopedLisp
