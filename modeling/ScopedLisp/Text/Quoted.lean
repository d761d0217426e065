import ScopedLisp.Text.Unprintable

-- Text in quotes that shows every character: what does not print by itself is written as an escape.
-- Messages and inspected values show text this way. It is not the literal of a text, which is meant
-- to be read back (see `Literal`).

namespace ScopedLisp
namespace Quoted

-- The shortest hexadecimal form of a code point, in lower case.
def hexadecimal (c : Char) : String :=
  String.ofList (Nat.toDigits 16 c.toNat)

-- A character as it stands between the quotes. The single quote stands for itself.
def char (c : Char) : String :=
  match c with
  | '\x00' => "\\0"
  | '\t' => "\\t"
  | '\n' => "\\n"
  | '\r' => "\\r"
  | '\\' => "\\\\"
  | '"' => "\\\""
  | c =>
    if isUnprintable c then "\\u\x7b" ++ hexadecimal c ++ "\x7d"
    else c.toString

end Quoted

-- The text in double quotes.
def quoted (text : String) : String :=
  "\"" ++ String.join (text.toList.map Quoted.char) ++ "\""

-- Quoted texts in brackets, with commas between them.
def quotedList (texts : List String) : String :=
  "[" ++ ", ".intercalate (texts.map quoted) ++ "]"

end ScopedLisp
