import ScopedLisp.Form.Literal
import ScopedLisp.Value

-- Values as text. What is written for a form is read back as that form.

namespace ScopedLisp.Value

def writtenNames (names : List String) : List Char :=
  " ".toList.intercalate (names.map String.toList)

mutual

-- The value as it stands in a program. Nil and procedures only look similar to a form.
def written : Value → List Char
  | nil => "nil".toList
  | integer i => i.written
  | text s => Literal.written s.toList
  | boolean true => "true".toList
  | boolean false => "false".toList
  | symbol name => name.toList
  | list items => '(' :: writtenItems items ++ [')']
  | procedure p => "<fn (".toList ++ writtenNames p.parameters ++ ")>".toList

def writtenItems : List Value → List Char
  | [] => []
  | [v] => v.written
  | v :: vs => v.written ++ ' ' :: writtenItems vs

end

def literal (v : Value) : String :=
  String.ofList v.written

-- The value as it is printed. A text by itself has no quotes then.
def display : Value → String
  | text s => s
  | v => v.literal

@[simp] theorem toList_literal (v : Value) : v.literal.toList = v.written := by
  simp [literal]

end ScopedLisp.Value
