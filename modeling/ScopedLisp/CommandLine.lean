import ScopedLisp.Batch

-- The command line. Files are run in order, in one session. Without files, standard input is run.

namespace ScopedLisp.CommandLine

inductive Input
  | files (files : List SourceFile)
  | stream (bytes : ByteArray)

-- What is left of a run when it is over.
structure Result where
  succeeded : Bool
  output    : String
  errors    : String

def batch (depth : Nat) (input : Input) : Batch Value := do
  let i ← .ofEvaluation (Interpreter.build {} depth)
  match input with
  | .files files => i.runFiles depth files
  | .stream bytes => i.runStream depth bytes

-- The value of a run is not shown, but a failure is.
def run (depth : Nat) (input : Input) : Result :=
  match (batch depth input).run {} with
  | (.ok _, m) => { succeeded := true, output := m.printed, errors := "" }
  | (.error fault, m) =>
    { succeeded := false, output := m.printed, errors := s!"error: {fault.text}\n" }

end ScopedLisp.CommandLine
