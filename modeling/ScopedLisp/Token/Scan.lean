import ScopedLisp.Text.Blank
import ScopedLisp.Token

-- Cutting a text into tokens.
--
-- * Blanks separate tokens, and so do comments, which run from `;` to the end of the line.
-- * A parenthesis is a token of its own.
-- * A span between double quotes is part of one token, whatever it holds. A backslash in a span
--   takes the character behind it along, so that `\"` does not end the span.
-- * A line feed in a span is kept as a space.
--
-- No text is rejected: a span that is never closed reaches to the end of the text, and it is left
-- to the reader of the token to complain.

namespace ScopedLisp

-- What the characters before the current one have begun. Text under way is kept in reverse.
inductive Scanner.Mode
  | gap
  | comment
  | atom (start : Position) (text : List Char)
  | span (start : Position) (text : List Char) (escaped : Bool)

namespace Scanner.Mode

-- The token under way, as if it ended here.
def pending? : Mode → Option Token
  | gap | comment => none
  | atom start text | span start text _ => some ⟨String.ofList text.reverse, start⟩

-- Outside of spans, a character that belongs to a token starts one or continues it.
def extend (mode : Mode) (p : Position) (c : Char) : Mode :=
  let (start, text) := match mode with
    | atom start text | span start text _ => (start, text)
    | gap | comment => (p, [])
  if c = '"' then span start (c :: text) false else atom start (c :: text)

-- What a character of a span means for the span: it may escape the next one or end the span.
def inside (start : Position) (text : List Char) (escaped : Bool) (c : Char) : Mode :=
  let text := (if c = '\n' then ' ' else c) :: text
  if escaped then span start text false
  else if c = '\\' then span start text true
  else if c = '"' then atom start text
  else span start text false

end Scanner.Mode

-- How far a scan has come: the place of the next character, and the tokens found, latest first.
structure Scanner where
  position : Position := .start
  mode     : Scanner.Mode := .gap
  found    : List Token := []

namespace Scanner

-- Ends the token under way, if there is one, and goes on in another mode.
def cut (s : Scanner) (next : Mode) : Scanner :=
  { s with mode := next, found := s.mode.pending?.toList ++ s.found }

-- The effect of a character outside of spans and comments.
def separate (s : Scanner) (c : Char) : Scanner :=
  if c = ';' then s.cut .comment
  else if c = '(' ∨ c = ')' then
    let s := s.cut .gap
    { s with found := ⟨String.singleton c, s.position⟩ :: s.found }
  else if isBlank c then s.cut .gap
  else { s with mode := s.mode.extend s.position c }

-- The effect of a character on mode and tokens.
def feed (s : Scanner) (c : Char) : Scanner :=
  match s.mode with
  | .comment => if c = '\n' then { s with mode := .gap } else s
  | .span start text escaped => { s with mode := .inside start text escaped c }
  | .gap | .atom .. => s.separate c

def step (s : Scanner) (c : Char) : Scanner :=
  { s.feed c with position := s.position.after c }

-- The tokens in order, when the text ends here.
def finish (s : Scanner) : List Token :=
  (s.cut .gap).found.reverse

def run (s : Scanner) (cs : List Char) : Scanner :=
  cs.foldl step s

theorem run_append (s : Scanner) (cs ds : List Char) : s.run (cs ++ ds) = (s.run cs).run ds :=
  List.foldl_append

theorem run_position (s : Scanner) (cs : List Char) :
    (s.run cs).position = cs.foldl Position.after s.position := by
  induction cs generalizing s
  case nil => rfl
  case cons hi => exact hi _

end Scanner

namespace Token

def scan (source : String) : List Token :=
  (Scanner.run {} source.toList).finish

end Token
end ScopedLisp
