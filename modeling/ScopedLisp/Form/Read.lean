import ScopedLisp.Form.Atom
import ScopedLisp.Token

-- Reading forms from tokens. A form is an atom, or forms between parentheses.

namespace ScopedLisp

-- The outcome of an attempt to read a form, and the tokens that are left after it.
abbrev Reading := Except Failure Form × List Token

-- A list that is being read: where it was opened, and its items so far, latest first.
structure OpenList where
  opened : Position
  items  : List Form := []

namespace Form

-- What the end of the tokens means, given the lists that are still open, innermost first.
def endOfTokens : List OpenList → Cause
  | [] => .endOfTokens
  | inner :: _ => .unclosedList inner.opened

-- Reads on until the outermost open list is closed; without open lists, until a form is complete. A
-- failure leaves the tokens behind the one that caused it.
def readIn (reserved : String → Bool) : List OpenList → List Token → Reading
  | lists, [] => (.error (endOfTokens lists), [])
  | lists, t :: rest =>
    if t.text = "(" then readIn reserved ({ opened := t.position } :: lists) rest
    else if t.text = ")" then
      match lists with
      | [] => (.error (.within Cause.unmatchedParenthesis (.position t.position)), rest)
      | [outermost] => (.ok (.list outermost.items.reverse), rest)
      | inner :: outer :: lists =>
        let outer := { outer with items := .list inner.items.reverse :: outer.items }
        readIn reserved (outer :: lists) rest
    else
      match Atom.read reserved t.text, lists with
      | .error cause, _ => (.error (.within cause (.position t.position)), rest)
      | .ok form, [] => (.ok form, rest)
      | .ok form, inner :: lists =>
        readIn reserved ({ inner with items := form :: inner.items } :: lists) rest

-- Reads a single form and looks no further.
def read (reserved : String → Bool) (tokens : List Token) : Reading :=
  readIn reserved [] tokens

-- Reads the given number of forms, each from where the one before has stopped.
def readMany (reserved : String → Bool) : Nat → List Token → List (Except Failure Form) × List Token
  | 0, tokens => ([], tokens)
  | n + 1, tokens =>
    let (first, tokens) := read reserved tokens
    let (others, tokens) := readMany reserved n tokens
    (first :: others, tokens)

end Form
end ScopedLisp
