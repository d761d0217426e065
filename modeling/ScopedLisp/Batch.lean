import ScopedLisp.Interpreter
import ScopedLisp.SourceFile

-- Running programs from files and from standard input.

namespace ScopedLisp

open Evaluation

-- Why a batch ends without a value: something cannot be read, or evaluation stops. Without a path,
-- it is standard input that cannot be read.
inductive BatchFault
  | unreadable (path : Option String) (fault : ReadFault)
  | stopped (stop : Stop)

-- The words for a fault. Refused output speaks for itself. Other failures tell of their kind.
def BatchFault.text : BatchFault → String
  | unreadable (some path) fault => s!"could not read {path}: {fault.text}"
  | unreadable none fault => fault.text
  | stopped (.failed failure) =>
    if failure.kind = .output then failure.message else failure.titled
  | stopped .tooDeep => "evaluation nests too deeply"

abbrev Batch (α : Type) := ExceptT BatchFault (StateM Machine) α

namespace Batch

def ofEvaluation {α : Type} (x : Evaluation α) : Batch α :=
  x.adapt BatchFault.stopped

-- Ends the session after the batch, whether it succeeds or not.
def ending (session : Session) (x : Batch Value) : Batch Value :=
  ExceptT.mk do
    let outcome ← x.run
    modify fun m => { m with store := session.close m.store }
    return outcome

end Batch

namespace Interpreter

variable (i : Interpreter) (depth : Nat)

-- Runs the program of a file in a session. Failures name the path.
def runFile (session : Session) (file : SourceFile) : Batch Value :=
  match file.source with
  | .error fault => throw (.unreadable file.path fault)
  | .ok source => .ofEvaluation (within (.named file.path) (i.run depth source session.scope))

-- Runs the files in order, in one session, for the value of the last one. The first failure is the
-- end, so that what later files hold does not matter then.
def runFiles (files : List SourceFile) : Batch Value := do
  let session ← .ofEvaluation i.session
  .ending session (files.foldlM (fun _ file => i.runFile depth session file) .nil)

-- Runs a single program in a new session.
def runStream (bytes : ByteArray) : Batch Value :=
  match SourceFile.decode bytes with
  | .error fault => throw (.unreadable none fault)
  | .ok source => do
    let session ← .ofEvaluation i.session
    .ending session (.ofEvaluation (i.run depth source session.scope))

end Interpreter
end ScopedLisp
