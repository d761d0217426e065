import ScopedLisp.Text.Quoted
import ScopedLisp.Value

-- Values as text for whoever embeds the language. All of the structure shows, except that a
-- procedure hides its home: the home may bind the procedure, and the text would not end.

namespace ScopedLisp.Value

def inspectedNames (names : List String) : String :=
  ", ".intercalate (names.map fun name => "Symbol(" ++ name ++ ")")

mutual

def inspected : Value → String
  | nil => "Nil"
  | integer i => "Integer(" ++ String.ofList i.written ++ ")"
  | text s => "Text(" ++ quoted s ++ ")"
  | boolean b => "Boolean(" ++ (if b then "true" else "false") ++ ")"
  | symbol name => "Symbol(Symbol(" ++ name ++ "))"
  | list items => "List([" ++ inspectedItems items ++ "])"
  | procedure ⟨_, parameters, body, _⟩ =>
    "Procedure(Procedure \x7b params: [" ++ inspectedNames parameters ++ "], body: " ++
      body.inspected ++ ", .. \x7d)"

def inspectedItems : List Value → String
  | [] => ""
  | [v] => v.inspected
  | v :: vs => v.inspected ++ ", " ++ inspectedItems vs

end

end ScopedLisp.Value
