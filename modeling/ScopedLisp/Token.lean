-- Tokens and where they stand in a text.

namespace ScopedLisp

-- A place in a text. Lines and columns are counted from one, and columns count characters.
structure Position where
  line   : Nat
  column : Nat
deriving DecidableEq

namespace Position

def start : Position := ⟨1, 1⟩

-- The place behind a character. A line feed ends its line.
def after (p : Position) (c : Char) : Position :=
  if c = '\n' then ⟨p.line + 1, 1⟩ else ⟨p.line, p.column + 1⟩

def right (p : Position) (n : Nat) : Position :=
  { p with column := p.column + n }

def description (p : Position) : String :=
  s!"at line {p.line} column {p.column}"

theorem after_lineFeed (p : Position) : p.after '\n' = ⟨p.line + 1, 1⟩ := rfl

end Position

-- A piece of a text and the place of its first character.
structure Token where
  text     : String
  position : Position
deriving DecidableEq

namespace Token

-- The place behind the last character, if the token were all on one line.
def behind (t : Token) : Position :=
  t.position.right t.text.length

end Token
end ScopedLisp
