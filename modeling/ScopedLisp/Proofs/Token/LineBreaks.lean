import ScopedLisp.Proofs.Token.Scan

-- Lines that end with a carriage return and a line feed. A text is divided like before when its
-- line ends are written that way, and each token stays where it is. What is left of a carriage
-- return is a character of its token if the line ends inside of a span, and nothing otherwise.
-- Main statement: `Division.scan_withReturns`.

namespace ScopedLisp

-- The text with a carriage return in front of each line feed.
def withReturns (cs : List Char) : List Char :=
  cs.flatMap fun c => if c = '\n' then ['\r', '\n'] else [c]

section

variable {c : Char} {cs ds : List Char}

theorem withReturns_append (cs ds : List Char) :
    withReturns (cs ++ ds) = withReturns cs ++ withReturns ds :=
  List.flatMap_append

theorem withReturns_lineFeed (cs : List Char) :
    withReturns ('\n' :: cs) = '\r' :: '\n' :: withReturns cs :=
  rfl

theorem withReturns_cons (h : c ≠ '\n') (cs : List Char) :
    withReturns (c :: cs) = c :: withReturns cs := by
  simp [withReturns, h]

theorem withReturns_eq (h : '\n' ∉ cs) : withReturns cs = cs := by
  induction cs
  case nil => rfl
  case cons c cs hi =>
    have ⟨hc, hcs⟩ : '\n' ≠ c ∧ '\n' ∉ cs := by simpa using h
    rw [withReturns_cons hc.symm, hi hcs]

theorem length_withReturns (cs : List Char) :
    (withReturns cs).length = cs.length + cs.count '\n' := by
  induction cs
  case nil => rfl
  case cons c cs hi =>
    by_cases hc : c = '\n'
    case pos =>
      simp only [hc, withReturns_lineFeed, List.length_cons, List.count_cons_self, hi]
      omega
    case neg =>
      simp only [withReturns_cons hc, List.length_cons, List.count_cons_of_ne hc, hi]
      omega

theorem lineFeed_mem_withReturns_iff : '\n' ∈ withReturns cs ↔ '\n' ∈ cs := by
  induction cs
  case nil => rfl
  case cons c cs hi =>
    by_cases hc : c = '\n'
    case pos => simp [hc, withReturns_lineFeed]
    case neg => rw [withReturns_cons hc, List.mem_cons, List.mem_cons, hi]

theorem withReturns_eq_nil_iff : withReturns cs = [] ↔ cs = [] := by
  simp only [← List.length_eq_zero_iff, length_withReturns]
  refine ⟨fun h => by omega, fun h => ?_⟩
  have := List.count_le_length (a := '\n') (l := cs)
  omega

-- A text that is put on one line shows whether it came with carriage returns.
theorem onOneLine_withReturns_eq_iff :
    onOneLine (withReturns cs) = onOneLine cs ↔ '\n' ∉ cs := by
  refine ⟨fun h => ?_, fun h => by rw [withReturns_eq h]⟩
  have hl := congrArg List.length h
  simp only [onOneLine, List.length_map, length_withReturns] at hl
  exact List.count_eq_zero.mp (by omega)

end

namespace Position

-- A line feed ends its line wherever in the line it stands.
theorem foldl_after_withReturns (p : Position) (cs : List Char) :
    (withReturns cs).foldl after p = cs.foldl after p := by
  induction cs generalizing p
  case nil => rfl
  case cons c cs hi =>
    by_cases hc : c = '\n'
    case pos =>
      rw [hc, withReturns_lineFeed]
      exact hi _
    case neg =>
      rw [withReturns_cons hc]
      exact hi _

theorem behind_withReturns (cs : List Char) : behind (withReturns cs) = behind cs :=
  calc behind (withReturns cs)
    _ = (withReturns cs).foldl after (behind []) := behind_append [] _
    _ = cs.foldl after (behind [])               := foldl_after_withReturns _ cs
    _ = behind cs                                := (behind_append [] cs).symm

end Position

section Divided

variable {rest cs : List Char}

theorem Gap.returned (h : Gap rest cs) :
    Gap (withReturns rest) (withReturns cs) := by
  induction h
  case nil => exact .nil
  case blank c cs hb _ hi =>
    by_cases hc : c = '\n'
    case pos =>
      rw [hc, withReturns_lineFeed]
      exact .blank (by decide) <| .blank (by decide) hi
    case neg =>
      rw [withReturns_cons hc]
      exact .blank hb hi
  case comment text cs hn _ hi =>
    -- The comment takes the carriage return along.
    have hr : '\n' ∉ text ++ ['\r'] := by simpa using hn
    have he : withReturns (';' :: text ++ '\n' :: cs) =
        ';' :: (text ++ ['\r']) ++ '\n' :: withReturns cs := by
      rw [withReturns_append, withReturns_cons (by decide), withReturns_eq hn,
        withReturns_lineFeed]
      simp
    rw [he]
    exact .comment hr hi
  case lastComment text hn hr =>
    rw [withReturns_cons (by decide), withReturns_eq hn]
    exact .lastComment hn (withReturns_eq_nil_iff.mpr hr)

theorem Inside.returned (h : Inside cs) : Inside (withReturns cs) := by
  induction h
  case nil => exact .nil
  case char c cs hq hb _ hi =>
    by_cases hc : c = '\n'
    case pos =>
      rw [hc, withReturns_lineFeed]
      exact .char (by decide) (by decide) <| .char (by decide) (by decide) hi
    case neg =>
      rw [withReturns_cons hc]
      exact .char hq hb hi
  case escape c cs _ hi =>
    rw [withReturns_cons (by decide)]
    by_cases hc : c = '\n'
    case pos =>
      -- The backslash escapes the carriage return in place of the line feed.
      rw [hc, withReturns_lineFeed]
      exact .escape <| .char (by decide) (by decide) hi
    case neg =>
      rw [withReturns_cons hc]
      exact .escape hi

theorem withReturns_span (body cs : List Char) :
    withReturns ('"' :: body ++ '"' :: cs) =
      '"' :: withReturns body ++ '"' :: withReturns cs := by
  rw [withReturns_append, withReturns_cons (by decide), withReturns_cons (by decide)]

theorem Word.returned (h : Word cs) : Word (withReturns cs) := by
  induction h
  case nil => exact .nil
  case plain c cs hp _ hi =>
    rw [withReturns_cons <| Scanner.ne_lineFeed_of_not_blank (Scanner.isPlain_iff.mp hp).left]
    exact .plain hp hi
  case span body cs hb _ hi =>
    rw [withReturns_span]
    exact .span hb.returned hi

theorem UnclosedWord.returned (h : UnclosedWord cs) :
    UnclosedWord (withReturns cs) := by
  obtain ⟨word, body, last, hw, hb, hl, rfl⟩ := h
  refine ⟨_, _, last, hw.returned, hb.returned, hl, ?_⟩
  have hn : withReturns last = last := by rcases hl with rfl | rfl <;> rfl
  rw [withReturns_append, withReturns_append, withReturns_cons (by decide), hn]

theorem IsParenthesis.returned (h : IsParenthesis cs) :
    IsParenthesis (withReturns cs) := by
  rcases h with rfl | rfl
  case inl => exact .inl rfl
  case inr => exact .inr rfl

theorem IsLexeme.returned (h : IsLexeme cs) : IsLexeme (withReturns cs) :=
  h.imp (·.returned) fun ⟨hn, hw⟩ => ⟨hn ∘ withReturns_eq_nil_iff.mp, hw.returned⟩

end Divided

namespace Part

def returned (p : Part) : Part :=
  ⟨withReturns p.lexeme, withReturns p.gap⟩

variable {p : Part} {parts : List Part} {before : List Char}

theorem text_returned : p.returned.text = withReturns p.text :=
  (withReturns_append _ _).symm

theorem textOf_returned (parts : List Part) :
    textOf (parts.map returned) = withReturns (textOf parts) := by
  induction parts
  case nil => rfl
  case cons p parts hi =>
    simp only [textOf, List.map_cons, List.flatMap_cons, withReturns_append, text_returned]
    exact congrArg _ hi

theorem Proper.returned (h : Proper parts) : Proper (parts.map Part.returned) := by
  induction h
  case nil => exact .nil
  case unclosed hu => exact .unclosed hu.returned
  case cons p parts hl hg ha _ hi =>
    refine .cons hl.returned (textOf_returned parts ▸ hg.returned) (fun hn q hq => ?_) hi
    obtain ⟨r, hr, rfl⟩ : ∃ r, parts.head? = some r ∧ r.returned = q := by simpa using hq
    exact (ha (withReturns_eq_nil_iff.mp hn) r hr).imp (·.returned) (·.returned)

theorem position_token_returned :
    (p.returned.token (withReturns before)).position = (p.token before).position :=
  Position.behind_withReturns before

theorem positions_returned (before : List Char) (parts : List Part) :
    (tokens (withReturns before) (parts.map returned)).map (·.position) =
      (tokens before parts).map (·.position) := by
  induction parts generalizing before
  case nil => rfl
  case cons p parts hi =>
    simp only [List.map_cons, tokens, position_token_returned, text_returned,
      ← withReturns_append, hi]

theorem texts_tokens (before : List Char) (parts : List Part) :
    (tokens before parts).map (·.text) =
      parts.map fun p => String.ofList (onOneLine p.lexeme) := by
  induction parts generalizing before
  case nil         => rfl
  case cons p _ hi => simp [tokens, token, hi]

theorem token_returned_eq_iff :
    p.returned.token (withReturns before) = p.token before ↔ '\n' ∉ p.lexeme := by
  rw [← onOneLine_withReturns_eq_iff, ← String.ofList_inj]
  simp [token, returned, Position.behind_withReturns]

theorem tokens_returned_eq_iff :
    tokens (withReturns before) (parts.map returned) = tokens before parts ↔
      ∀ p ∈ parts, '\n' ∉ p.lexeme := by
  induction parts generalizing before
  case nil => simp [tokens]
  case cons p parts hi =>
    rw [List.map_cons, tokens, tokens, List.cons.injEq, token_returned_eq_iff,
      text_returned, ← withReturns_append, hi, List.forall_mem_cons]

end Part

namespace Division

def returned (d : Division) : Division :=
  ⟨withReturns d.gap, d.parts.map Part.returned⟩

variable {d : Division}

theorem text_returned : d.returned.text = withReturns d.text := by
  rw [text, text, withReturns_append, ← Part.textOf_returned]
  rfl

theorem Proper.returned (h : d.Proper) : d.returned.Proper where
  gap   := Part.textOf_returned d.parts ▸ h.gap.returned
  parts := h.parts.returned

-- The tokens of the text with carriage returns are those of the same division.
theorem scan_withReturns (h : d.Proper) :
    Token.scan (String.ofList (withReturns d.text)) = d.returned.tokens := by
  rw [← text_returned, scan_text h.returned]

end Division
end ScopedLisp
