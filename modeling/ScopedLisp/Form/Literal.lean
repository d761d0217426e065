import ScopedLisp.Failure

-- The literals of texts: a text in double quotes, in which a backslash starts an escape.

namespace ScopedLisp
namespace Literal

-- A hexadecimal digit of either case.
def isHexDigit (c : Char) : Bool :=
  c.isDigit || ('a' ≤ c && c ≤ 'f') || ('A' ≤ c && c ≤ 'F')

def hexValue (c : Char) : Nat :=
  if c.isDigit then c.toNat - '0'.toNat
  else if 'a' ≤ c then c.toNat - 'a'.toNat + 10
  else c.toNat - 'A'.toNat + 10

-- How a character is written in a literal. Controls are written by their code point.
def encodeChar (c : Char) : List Char :=
  if c = '\\' ∨ c = '"' then ['\\', c]
  else if c = '\n' then ['\\', 'n']
  else if c = '\t' then ['\\', 't']
  else if c.toNat < 0x20 ∨ c.toNat = 0x7F then
    ['\\', 'x', Nat.digitChar (c.toNat / 16), Nat.digitChar (c.toNat % 16)]
  else [c]

-- The characters between the quotes of the literal of a text.
def encode (content : List Char) : List Char :=
  content.flatMap encodeChar

def written (content : List Char) : List Char :=
  '"' :: encode content ++ ['"']

-- The text that is meant by the characters between the quotes of a literal. An escape by code point
-- takes up to two characters along, and shows them when they are not two digits.
def decode : List Char → Except Cause (List Char)
  | [] => .ok []
  | '\\' :: '\\' :: rest => ('\\' :: ·) <$> decode rest
  | '\\' :: '"' :: rest => ('"' :: ·) <$> decode rest
  | '\\' :: '\'' :: rest => ('\'' :: ·) <$> decode rest
  | '\\' :: 'n' :: rest => ('\n' :: ·) <$> decode rest
  | '\\' :: 't' :: rest => ('\t' :: ·) <$> decode rest
  | '\\' :: 'x' :: high :: low :: rest =>
    if isHexDigit high && isHexDigit low then
      (Char.ofNat (16 * hexValue high + hexValue low) :: ·) <$> decode rest
    else .error (.unknownEscape (String.ofList ['x', high, low]))
  | '\\' :: 'x' :: rest => .error (.unknownEscape (String.ofList ('x' :: rest)))
  | '\\' :: c :: _ => .error (.unknownEscape (String.singleton c))
  | ['\\'] => .error (.unknownEscape "")
  | c :: rest => (c :: ·) <$> decode rest

-- What stands between the first and the last character of a token, if these are two quotes.
def body? : List Char → Option (List Char)
  | '"' :: rest => if rest.getLast? = some '"' then some rest.dropLast else none
  | _ => none

-- What stands behind the quote that ends a literal, given what stands behind the first one.
def behind? : List Char → Option (List Char)
  | [] => none
  | '"' :: rest => some rest
  | '\\' :: _ :: rest => behind? rest
  | _ :: rest => behind? rest

theorem hexValue_digitChar {n : Nat} (h : n < 16) :
    isHexDigit (Nat.digitChar n) ∧ hexValue (Nat.digitChar n) = n := by
  revert n
  decide

theorem decode_cons {c : Char} {rest : List Char} (h : c ≠ '\\') :
    decode (c :: rest) = (c :: ·) <$> decode rest := by
  rw [decode.eq_def]
  split <;> simp_all

theorem decode_encodeChar_append (c : Char) (rest : List Char) :
    decode (encodeChar c ++ rest) = (c :: ·) <$> decode rest := by
  unfold encodeChar
  split
  case isTrue h => rcases h with rfl | rfl <;> rfl
  split
  case isTrue h => subst h; rfl
  split
  case isTrue h => subst h; rfl
  split
  case isTrue h =>
    have h₁ := hexValue_digitChar (show c.toNat / 16 < 16 by omega)
    have h₂ := hexValue_digitChar (show c.toNat % 16 < 16 by omega)
    simp [decode, h₁, h₂, Nat.div_add_mod]
  case isFalse h => exact decode_cons (by simp_all)

-- Every text has a literal that means it.
theorem decode_encode (content : List Char) : decode (encode content) = .ok content := by
  induction content
  case nil => rfl
  case cons hd tl hi =>
    have h := decode_encodeChar_append hd (encode tl)
    rw [hi] at h
    exact h

end Literal
end ScopedLisp
