import ScopedLisp.Main
import ScopedLisp.Proofs.Evaluation.Arithmetic
import ScopedLisp.Proofs.Evaluation.Connectives
import ScopedLisp.Proofs.Evaluation.Let
import ScopedLisp.Proofs.Interpreter.Retention
import ScopedLisp.Proofs.Interpreter.Acyclic
import ScopedLisp.Proofs.Interpreter.Extended
import ScopedLisp.Proofs.Interpreter.Joined
import ScopedLisp.Proofs.Form.Balance
import ScopedLisp.Proofs.Form.LineBreaks
import ScopedLisp.Proofs.Form.Literal
import ScopedLisp.Proofs.Form.Front
import ScopedLisp.Proofs.Form.Unclosed
import ScopedLisp.Proofs.Form.Quotes
import ScopedLisp.Proofs.Interpreter.Isolation
import ScopedLisp.Proofs.Interpreter.Parity
import ScopedLisp.Proofs.Interpreter.Renamed
import ScopedLisp.Proofs.Store.Operations
import ScopedLisp.Store.Inspected
import ScopedLisp.Value.Inspected
