import ScopedLisp.Keywords.Arguments

-- The keyword that prints.

namespace ScopedLisp

open Evaluation

-- What is said against a text, if anything, and what has been printed once the sink has dealt with
-- it: the sink takes the text, and then passes on all that it has.
def Sink.receive (sink : Sink) (printed text : String) : Option String × String :=
  match sink.refusesText.reason? printed text with
  | some reason => (some reason, printed ++ sink.begins printed text)
  | none => (sink.refusesFlush.reason? printed text, printed ++ text)

-- Hands a text to the sink.
def Sink.write (sink : Sink) (text : String) : Evaluation Unit :=
  ExceptT.mk fun m =>
    match sink.receive m.printed text with
    | (none, printed) => (.ok (), { m with printed })
    | (some reason, printed) => (.error (.failed (Cause.outputRefused reason)), { m with printed })

namespace Keywords

-- The values with spaces between them, as a line.
def line (values : List Value) : String :=
  " ".intercalate (values.map Value.display) ++ "\n"

-- `(print expr...)` prints the values on a line of their own. All of them are evaluated first, so
-- that a failure leaves no part of a line.
def print : Handler := fun c s args => do
  let values ← c.evaluateAll s args
  c.sink.write (line values)
  return .nil

end Keywords
end ScopedLisp
