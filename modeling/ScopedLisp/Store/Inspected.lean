import ScopedLisp.Store
import ScopedLisp.Text.Quoted

-- Scopes as text for whoever embeds the language.

namespace ScopedLisp.Store

def inspectedFrame (f : Frame) (parent : String) : String :=
  "Env \x7b names: " ++ quotedList f.bindings.names ++ ", frozen: " ++
    (if f.frozen then "true" else "false") ++ ", parent: " ++ parent ++ " \x7d"

-- The frames around a frame, from the inside out.
def inspectedAround (σ : Store) : List FrameId → String
  | [] => "None"
  | id :: around => "Some(" ++ inspectedFrame (σ.frame id) (σ.inspectedAround around) ++ ")"

def inspected (σ : Store) (s : Scope) : String :=
  inspectedFrame (σ.frame s.frame) (σ.inspectedAround s.around)

-- Of a session, only the names show.
def inspectedSession (σ : Store) (s : Scope) : String :=
  "Session(" ++ quotedList (σ.locals s).names ++ ")"

end ScopedLisp.Store
