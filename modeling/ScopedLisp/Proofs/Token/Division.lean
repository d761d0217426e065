import ScopedLisp.Token.Scan

-- Texts as tokens with gaps between them. Nothing here says how tokens are found: a division of a
-- text is judged by what its tokens and gaps are made of.

namespace ScopedLisp

-- The place behind a text that stands at the start.
def Position.behind (text : List Char) : Position :=
  ⟨1 + text.count '\n', 1 + (text.reverse.takeWhile (· ≠ '\n')).length⟩

-- What may stand between tokens: blanks, and comments that go on to the next line feed. Only if no
-- text is left behind the gap, its last comment may go on to the end.
inductive Gap (rest : List Char) : List Char → Prop
  | nil : Gap rest []
  | blank {c : Char} {cs : List Char} (h : isBlank c) : Gap rest cs → Gap rest (c :: cs)
  | comment {text cs : List Char} (h : '\n' ∉ text) :
    Gap rest cs → Gap rest (';' :: text ++ '\n' :: cs)
  | lastComment {text : List Char} (h : '\n' ∉ text) (hr : rest = []) : Gap rest (';' :: text)

-- A character that belongs to tokens, and means nothing to their division.
def isPlain (c : Char) : Bool :=
  !isBlank c && c != '(' && c != ')' && c != ';' && c != '"'

-- What may stand between the quotes of a span: characters other than the quote and the backslash,
-- and any character behind a backslash.
inductive Inside : List Char → Prop
  | nil : Inside []
  | char {c : Char} {cs : List Char} (hq : c ≠ '"') (hb : c ≠ '\\') : Inside cs → Inside (c :: cs)
  | escape {c : Char} {cs : List Char} : Inside cs → Inside ('\\' :: c :: cs)

-- Plain characters and spans.
inductive Word : List Char → Prop
  | nil : Word []
  | plain {c : Char} {cs : List Char} (h : isPlain c) : Word cs → Word (c :: cs)
  | span {body cs : List Char} (h : Inside body) : Word cs → Word ('"' :: body ++ '"' :: cs)

-- A word, and a span that has not come to its end. The last character of it may be a backslash.
def UnclosedWord (cs : List Char) : Prop :=
  ∃ word body last, Word word ∧ Inside body ∧ (last = [] ∨ last = ['\\']) ∧
    cs = word ++ '"' :: body ++ last

def IsParenthesis (cs : List Char) : Prop :=
  cs = ['('] ∨ cs = [')']

def IsLexeme (cs : List Char) : Prop :=
  IsParenthesis cs ∨ cs ≠ [] ∧ Word cs

-- The text with spaces for line feeds.
def onOneLine (cs : List Char) : List Char :=
  cs.map fun c => if c = '\n' then ' ' else c

-- The characters of a token, and those of the gap behind it.
structure Part where
  lexeme : List Char
  gap    : List Char

namespace Part

def text (p : Part) : List Char :=
  p.lexeme ++ p.gap

def textOf (parts : List Part) : List Char :=
  parts.flatMap text

-- The parts are those of some text. Parentheses may stand next to other tokens, but between two
-- other tokens there has to be something. Only at the end there may be an unclosed word.
inductive Proper : List Part → Prop
  | nil : Proper []
  | cons {p : Part} {parts : List Part} (hl : IsLexeme p.lexeme) (hg : Gap (textOf parts) p.gap)
    (ha : p.gap = [] → ∀ q ∈ parts.head?, IsParenthesis p.lexeme ∨ IsParenthesis q.lexeme) :
    Proper parts → Proper (p :: parts)
  | unclosed {lexeme : List Char} (h : UnclosedWord lexeme) : Proper [⟨lexeme, []⟩]

-- The token of a part that stands behind the given text.
def token (before : List Char) (p : Part) : Token :=
  ⟨String.ofList (onOneLine p.lexeme), .behind before⟩

def tokens (before : List Char) : List Part → List Token
  | [] => []
  | p :: parts => p.token before :: tokens (before ++ p.text) parts

end Part

-- The gap in front of the first token, and the tokens with the gaps behind them.
structure Division where
  gap   : List Char
  parts : List Part

namespace Division

def text (d : Division) : List Char :=
  d.gap ++ Part.textOf d.parts

structure Proper (d : Division) : Prop where
  gap   : Gap (Part.textOf d.parts) d.gap
  parts : Part.Proper d.parts

def tokens (d : Division) : List Token :=
  Part.tokens d.gap d.parts

end Division

namespace Position

theorem behind_append_singleton (text : List Char) (c : Char) :
    behind (text ++ [c]) = (behind text).after c := by
  by_cases h : c = '\n'
  case pos => simp [behind, after, h, Nat.add_assoc]
  case neg => simp [behind, after, h, Nat.add_assoc]

theorem behind_append (text cs : List Char) :
    behind (text ++ cs) = cs.foldl after (behind text) := by
  induction cs generalizing text
  case nil => simp
  case cons c cs hi =>
    have h := hi (text ++ [c])
    rw [List.append_assoc, List.singleton_append, behind_append_singleton] at h
    exact h

-- Places move on with each character.
theorem behind_append_ne (text : List Char) {cs : List Char} (h : cs ≠ []) :
    behind (text ++ cs) ≠ behind text := by
  intro he
  have ⟨hl, hc⟩ := Position.mk.inj he
  have hn : '\n' ∉ cs := List.count_eq_zero.mp (by simpa using hl)
  have ht : ∀ c ∈ cs.reverse, decide (c ≠ '\n') = true :=
    fun c hm => decide_eq_true fun hc => hn (hc ▸ List.mem_reverse.mp hm)
  have hp := List.length_pos_iff.mpr h
  rw [List.reverse_append, List.takeWhile_append_of_pos ht, List.length_append,
    List.length_reverse] at hc
  omega

-- So in one text, different beginnings end at different places.
theorem eq_of_behind_eq {text₁ text₂ cs₁ cs₂ : List Char} (h : text₁ ++ cs₁ = text₂ ++ cs₂)
    (hb : behind text₁ = behind text₂) : text₁ = text₂ := by
  rcases List.append_eq_append_iff.mp h with ⟨cs, rfl, _⟩ | ⟨cs, rfl, _⟩
  all_goals
    by_cases hn : cs = []
    case pos => simp [hn]
    case neg => exact absurd hb (by simpa [eq_comm] using behind_append_ne _ hn)

end Position

namespace Part

-- Tokens with their places say how a text is divided.
theorem eq_of_tokens_eq {before₁ before₂ : List Char} {parts₁ parts₂ : List Part}
    (ht : tokens before₁ parts₁ = tokens before₂ parts₂)
    (h : before₁ ++ textOf parts₁ = before₂ ++ textOf parts₂) :
    before₁ = before₂ ∧ parts₁ = parts₂ := by
  induction parts₁ generalizing before₁ before₂ parts₂
  case nil =>
    cases parts₂
    case nil  => exact ⟨by simpa [textOf] using h, rfl⟩
    case cons => cases ht
  case cons p₁ parts₁ hi =>
    cases parts₂
    case nil => cases ht
    case cons p₂ parts₂ =>
      have ⟨hp, ht'⟩ := List.cons.inj ht
      have ⟨htext, hplace⟩ := Token.mk.inj hp
      obtain rfl := Position.eq_of_behind_eq h hplace
      have ⟨hb, hparts⟩ := hi ht' (by simpa [textOf] using h)
      have hl : p₁.lexeme.length = p₂.lexeme.length := by
        simpa [onOneLine] using congrArg List.length (String.ofList_injective htext)
      have ⟨hlexeme, hgap⟩ := List.append_inj (List.append_cancel_left hb) hl
      refine ⟨rfl, ?_⟩
      rw [hparts, show p₁ = p₂ by cases p₁; cases p₂; simp_all]

end Part

theorem Division.eq_of_tokens_eq {d₁ d₂ : Division} (ht : d₁.tokens = d₂.tokens)
    (h : d₁.text = d₂.text) : d₁ = d₂ := by
  have ⟨hg, hp⟩ := Part.eq_of_tokens_eq ht h
  cases d₁; cases d₂; simp_all

end ScopedLisp
