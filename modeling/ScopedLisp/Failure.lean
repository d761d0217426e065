import ScopedLisp.Text.Quoted
import ScopedLisp.Token

-- Why a program is rejected. A failure is a cause, together with the places it was passed through
-- on its way out. Values at fault are kept as they print, so that a failure says nothing about
-- where in the store they live.

namespace ScopedLisp

-- The rule that a failing program has broken.
inductive Failure.Kind
  | lexical
  | syntactic
  | name
  | type
  | arity
  | arithmetic
  | output
deriving DecidableEq

-- How messages introduce a failure of the kind.
def Failure.Kind.title : Kind → String
  | lexical    => "lexical error"
  | syntactic  => "syntax error"
  | name       => "name error"
  | type       => "type error"
  | arity      => "arity error"
  | arithmetic => "arithmetic error"
  | output     => "i/o error"

-- What went wrong. The words for it are those of `text`.
inductive Cause
  -- A numeral is outside of the 64 bit range.
  | numeralOutOfRange (token : String)
  -- The characters behind a backslash are no escape.
  | unknownEscape (escape : String)
  | textBehindLiteral (rest token : String)
  | unclosedLiteral (token : String)
  | unknownToken (token : String)
  | endOfTokens
  -- The tokens end inside of the list that was opened at the position.
  | unclosedList (opened : Position)
  | unmatchedParenthesis
  | readOnly (name : String)
  | unboundValue (name : String)
  | unboundProcedure (name : String)
  | foreignScope
  | namedNoProcedure (name kind : String)
  | headNoProcedure (head kind : String)
  | notCallable (form : String)
  | notSymbol (keyword role shown : String)
  | notList (keyword role shown : String)
  | reservedName (keyword name : String)
  | reservedParameter (name : String)
  | repeatedParameter (name : String)
  | notBoolean (keyword kind literal : String)
  | notInteger (keyword kind literal : String)
  -- A value cannot be added to values of the other kind.
  | cannotAdd (kind literal target : String)
  | argumentCount (form : String) (expected given : Nat) (shown : String)
  | tooFewArguments (keyword : String) (least given : Nat)
  | conditionalArguments (given : Nat)
  | callArguments (expected given : Nat)
  | overflow (keyword : String)
  | divisionByZero (dividend : Int64)
  | outputRefused (reason : String)
  -- A failure that an extension of the language words itself.
  | stated (kind : Failure.Kind) (text : String)
deriving DecidableEq

namespace Cause

def kind : Cause → Failure.Kind
  | numeralOutOfRange .. | unknownEscape .. | textBehindLiteral .. | unclosedLiteral ..
  | unknownToken .. => .lexical
  | endOfTokens | unclosedList .. | unmatchedParenthesis => .syntactic
  | readOnly .. | unboundValue .. | unboundProcedure .. | foreignScope => .name
  | namedNoProcedure .. | headNoProcedure .. | notCallable .. | notSymbol .. | notList ..
  | reservedName .. | reservedParameter .. | repeatedParameter .. | notBoolean .. | notInteger ..
  | cannotAdd .. => .type
  | argumentCount .. | tooFewArguments .. | conditionalArguments .. | callArguments .. => .arity
  | overflow .. | divisionByZero .. => .arithmetic
  | outputRefused .. => .output
  | stated kind _ => kind

def text : Cause → String
  | numeralOutOfRange token =>
    let side := if token.toList.head? = some '-' then "small" else "large"
    s!"failed to convert {quoted token} into integer: number too {side} to fit in target type"
  | unknownEscape escape => s!"invalid escape sequence '\\{escape}'"
  | textBehindLiteral rest token => s!"unexpected {quoted rest} after string literal: {token}"
  | unclosedLiteral token => s!"unterminated string literal: {token}"
  | unknownToken token => s!"invalid token: {token}"
  | endOfTokens => "EOF while reading"
  | unclosedList opened => s!"EOF while reading list started {opened.description}"
  | unmatchedParenthesis => "unmatched right paren"
  | readOnly name => s!"cannot define {name}: environment is read-only"
  | unboundValue name => s!"value not found for symbol: {name}"
  | unboundProcedure name => s!"proc not found for symbol: {name}"
  | foreignScope => "environment is not a session of this interpreter"
  | namedNoProcedure name kind => s!"symbol: {name} is not a proc; it is a {kind}"
  | headNoProcedure head kind => s!"call head {head} evaluated to a {kind}, not a proc"
  | notCallable form =>
    s!"first element of a call must be a symbol or a procedure-valued expression: {form}"
  | notSymbol keyword role shown => s!"{keyword}: {role} must be a symbol, got {shown}"
  | notList keyword role shown => s!"{keyword}: {role} must be a list, got {shown}"
  | reservedName keyword name => s!"{keyword}: cannot bind reserved keyword {name}"
  | reservedParameter name => s!"fn: reserved keyword {name} cannot be a parameter"
  | repeatedParameter name => s!"fn: duplicate parameter {name}"
  | notBoolean keyword kind literal => s!"{keyword}: expected a boolean, got {kind} {literal}"
  | notInteger keyword kind literal => s!"{keyword}: expected an integer, got {kind} {literal}"
  | cannotAdd kind literal target =>
    s!"incompatible arguments: cannot add {kind} {literal} to {target}"
  | argumentCount form expected given shown =>
    s!"{form} takes {expected} arguments, got {given}: {shown}"
  | tooFewArguments keyword least given =>
    let noun := if least = 1 then "argument" else "arguments"
    s!"{keyword} takes at least {least} {noun}, got {given}"
  | conditionalArguments given =>
    "if takes a predicate, a positive case, and an optional negative case; " ++
      s!"got {given} arguments"
  | callArguments expected given =>
    s!"invalid arg count: procedure takes {expected} arguments, got {given}"
  | overflow keyword => s!"{keyword}: integer overflow"
  | divisionByZero dividend => s!"/: division by zero: {dividend.toInt} / 0"
  | outputRefused reason => reason
  | stated _ text => text

end Cause

-- Where a failure was passed through: a position in a text, or a text with a name.
inductive Failure.Place
  | position (p : Position)
  | named (name : String)
deriving DecidableEq

def Failure.Place.description : Place → String
  | position p => p.description
  | named name => name

-- A cause with the places it was passed through, outermost first.
structure Failure where
  cause  : Cause
  places : List Failure.Place := []
deriving DecidableEq

namespace Failure

-- The failure is passed out of a place.
def within (f : Failure) (place : Place) : Failure :=
  { f with places := place :: f.places }

def kind (f : Failure) : Kind :=
  f.cause.kind

-- The places, from the outside in, and the words for the cause.
def message (f : Failure) : String :=
  f.places.foldr (fun place text => place.description ++ ": " ++ text) f.cause.text

-- The message with the kind of the failure in front.
def titled (f : Failure) : String :=
  f.kind.title ++ ": " ++ f.message

end Failure

instance : Coe Cause Failure where
  coe cause := { cause }

end ScopedLisp
