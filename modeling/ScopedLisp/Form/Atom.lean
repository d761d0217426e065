import ScopedLisp.Form.Literal
import ScopedLisp.Value

-- The meaning of a token that is not a parenthesis.

namespace ScopedLisp
namespace Atom

-- The characters of symbols that need not be keywords.
def isSymbolChar (c : Char) : Bool :=
  c.isAlphanum || c == '_' || c == '+' || c == '-'

-- The token is a symbol, whatever the keywords are.
def isPlainSymbol (token : String) : Bool :=
  token.toList ≠ [] && token.toList.all isSymbolChar

def integer (token : String) (negative : Bool) (digits : List Char) : Except Cause Value :=
  match Integer.ofInt? (Integer.valueOf negative digits) with
  | some i => .ok (.integer i)
  | none => .error (.numeralOutOfRange token)

def text (body : List Char) : Except Cause Value :=
  (fun content => .text (String.ofList content)) <$> Literal.decode body

-- Why a token means nothing.
def fault (token : String) : Cause :=
  match token.toList with
  | '"' :: rest =>
    match Literal.behind? rest with
    | some behind => .textBehindLiteral (String.ofList behind) token
    | none => .unclosedLiteral token
  | _ => .unknownToken token

-- The value that a token stands for, by the first rule that applies: numerals, tokens in quotes,
-- truth values, and symbols. A keyword is a symbol even if it is made of other characters.
def read (reserved : String → Bool) (token : String) : Except Cause Value :=
  match Integer.numeral? token.toList, Literal.body? token.toList with
  | some (negative, digits), _ => integer token negative digits
  | none, some body => text body
  | none, none =>
    if token = "true" then .ok (.boolean true)
    else if token = "false" then .ok (.boolean false)
    else if isPlainSymbol token || reserved token then .ok (.symbol token)
    else .error (fault token)

end Atom
end ScopedLisp
