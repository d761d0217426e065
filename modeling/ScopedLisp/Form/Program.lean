import ScopedLisp.Form.Read
import ScopedLisp.Token.Scan

-- Reading a whole text. A program is read as the one list that it becomes when `(` and a grouping
-- word are put in front of its tokens and `)` behind them.

namespace ScopedLisp
namespace Program

-- The first closing parenthesis that closes nothing, with so many lists open at the start.
def unmatched? : Nat → List Token → Option Token
  | _, [] => none
  | depth, t :: rest =>
    if t.text = "(" then unmatched? (depth + 1) rest
    else if t.text = ")" then
      match depth with
      | 0 => some t
      | depth + 1 => unmatched? depth rest
    else unmatched? depth rest

-- The place behind the last token.
def close (tokens : List Token) : Position :=
  (tokens.getLast?.map Token.behind).getD .start

-- The tokens of the list that a program is read as.
def wrapped (grouping : String) (tokens : List Token) : List Token :=
  ⟨"(", .start⟩ :: ⟨grouping, .start⟩ :: tokens ++ [⟨")", close tokens⟩]

-- The form of the tokens of a program. A closing parenthesis that closes nothing is refused before
-- all else: it would close the list around the program, and leave the rest of the tokens unread.
def ofTokens (grouping : String) (reserved : String → Bool) (tokens : List Token) :
    Except Failure Form :=
  match unmatched? 0 tokens with
  | some t => .error (.within Cause.unmatchedParenthesis (.position t.position))
  | none => (Form.read reserved (wrapped grouping tokens)).1

def read (grouping : String) (reserved : String → Bool) (source : String) : Except Failure Form :=
  ofTokens grouping reserved (Token.scan source)

end Program
end ScopedLisp
