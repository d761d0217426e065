import ScopedLisp.CommandLine

-- The program: it reads what the command line names, and writes what the run leaves.

namespace ScopedLisp

-- The number of a fault, which some calls report negated.
def ReadFault.number (code : UInt32) : UInt32 :=
  min code (-code)

def ReadFault.ofError : IO.Error → ReadFault
  | .noFileOrDirectory .. => .missing
  | .inappropriateType _ code _ => if number code = 21 then .directory else .notDirectory
  | error@(.invalidArgument _ code _) =>
    if number code = 36 then .nameTooLong else .other (toString error)
  | .permissionDenied .. => .other "Permission denied (os error 13)"
  | error => .other (toString error)

def SourceFile.read (path : String) : IO SourceFile := do
  match ← (IO.FS.readBinFile path).toBaseIO with
  | .ok bytes => return { path, bytes := .ok bytes }
  | .error error => return { path, bytes := .error (.ofError error) }

-- The files that are named, or all of standard input.
def CommandLine.Input.read (paths : List String) : IO CommandLine.Input := do
  if paths.isEmpty then return .stream (← (← IO.getStdin).readBinToEnd)
  else return .files (← paths.mapM SourceFile.read)

end ScopedLisp

-- The exit code is 1 if the run fails, and 0 otherwise.
def main (args : List String) : IO UInt32 := do
  let input ← ScopedLisp.CommandLine.Input.read args
  let result := ScopedLisp.CommandLine.run ScopedLisp.Interpreter.standardDepth input
  IO.print result.output
  IO.eprint result.errors
  return if result.succeeded then 0 else 1
