import ScopedLisp.Proofs.Token.Division

-- The tokens that are found in a text are those of its division, and every text has exactly one.
-- Main statement: `Division.existsUnique_scan`.

namespace ScopedLisp

-- A character with which a word starts, or goes on.
def startsWord (c : Char) : Bool :=
  isPlain c || c == '"'

-- The word that the text stands behind is over.
def EndsWord (cs : List Char) : Prop :=
  ∀ c ∈ cs.head?, ¬startsWord c

namespace Scanner

variable {p start : Position} {found : List Token} {text cs : List Char} {c : Char}

-- The tokens found in the end, if the text goes on like this.
def tokens (s : Scanner) (cs : List Char) : List Token :=
  (s.run cs).finish

theorem run_cons (s : Scanner) (c : Char) (cs : List Char) : s.run (c :: cs) = (s.step c).run cs :=
  rfl

theorem tokens_cons (s : Scanner) (c : Char) (cs : List Char) :
    s.tokens (c :: cs) = (s.step c).tokens cs :=
  rfl

theorem tokens_append (s : Scanner) (cs ds : List Char) :
    s.tokens (cs ++ ds) = (s.run cs).tokens ds := by
  unfold tokens
  rw [run_append]

section Step

theorem isPlain_iff :
    isPlain c ↔ ¬isBlank c ∧ c ≠ '(' ∧ c ≠ ')' ∧ c ≠ ';' ∧ c ≠ '"' := by
  simp [isPlain, and_assoc]

theorem ne_lineFeed_of_not_blank (h : ¬isBlank c) : c ≠ '\n' := by
  rintro rfl
  exact h (by decide)

theorem step_plain (h : isPlain c) :
    step ⟨p, .atom start text, found⟩ c = ⟨p.after c, .atom start (c :: text), found⟩ := by
  have ⟨hb, ho, hc, hs, hq⟩ := isPlain_iff.mp h
  simp [step, feed, separate, Mode.extend, hb, ho, hc, hs, hq]

theorem step_quote :
    step ⟨p, .atom start text, found⟩ '"' = ⟨p.after '"', .span start ('"' :: text) false, found⟩ :=
  rfl

-- A word starts as if an empty one were under way.
theorem step_gap (h : startsWord c) :
    step ⟨p, .gap, found⟩ c = step ⟨p, .atom p [], found⟩ c := by
  unfold startsWord at h
  by_cases hp : isPlain c
  case pos =>
    have ⟨hb, ho, hc, hs, hq⟩ := isPlain_iff.mp hp
    simp [step, feed, separate, Mode.extend, hb, ho, hc, hs, hq]
  case neg =>
    obtain rfl : c = '"' := by simpa [hp] using h
    rfl

theorem step_blank (h : isBlank c) : step ⟨p, .gap, found⟩ c = ⟨p.after c, .gap, found⟩ := by
  have hn : c ≠ ';' ∧ c ≠ '(' ∧ c ≠ ')' :=
    ⟨fun he => absurd h (by simp [he]; decide), fun he => absurd h (by simp [he]; decide),
      fun he => absurd h (by simp [he]; decide)⟩
  simp [step, feed, separate, cut, Mode.pending?, h, hn]

-- Outside of words, a word that is under way comes to its end first.
theorem step_end (h : ¬startsWord c) :
    step ⟨p, .atom start text, found⟩ c =
      step ⟨p, .gap, ⟨String.ofList text.reverse, start⟩ :: found⟩ c := by
  have ⟨hp, hq⟩ : ¬isPlain c ∧ c ≠ '"' := by simpa [startsWord] using h
  by_cases hs : c = ';'
  case pos => simp [step, feed, separate, cut, Mode.pending?, hs]
  by_cases hc : c = '(' ∨ c = ')'
  case pos => simp [step, feed, separate, cut, Mode.pending?, hs, hc]
  case neg =>
    have hb : isBlank c := by simpa [isPlain_iff, hs, hq, not_or.mp hc] using hp
    simp [step, feed, separate, cut, Mode.pending?, hs, hc, hb]

end Step

section Run

theorem run_inside (h : Inside cs) :
    run ⟨p, .span start text false, found⟩ cs =
      ⟨cs.foldl Position.after p, .span start ((onOneLine cs).reverse ++ text) false, found⟩ := by
  induction h generalizing p text
  case nil => rfl
  case char c cs hq hb _ hi =>
    have hs : step ⟨p, .span start text false, found⟩ c =
        ⟨p.after c, .span start ((if c = '\n' then ' ' else c) :: text) false, found⟩ := by
      simp [step, feed, Mode.inside, hq, hb]
    rw [run_cons, hs]
    simpa [onOneLine] using hi
  case escape c cs _ hi =>
    have hs : step (step ⟨p, .span start text false, found⟩ '\\') c =
        ⟨(p.after '\\').after c,
          .span start ((if c = '\n' then ' ' else c) :: '\\' :: text) false, found⟩ := by
      simp [step, feed, Mode.inside]
    rw [run_cons, run_cons, hs]
    simpa [onOneLine] using hi

theorem run_word (h : Word cs) :
    run ⟨p, .atom start text, found⟩ cs =
      ⟨cs.foldl Position.after p, .atom start ((onOneLine cs).reverse ++ text), found⟩ := by
  induction h generalizing p text
  case nil => rfl
  case plain c cs hc _ hi =>
    have hn := ne_lineFeed_of_not_blank (isPlain_iff.mp hc).left
    rw [run_cons, step_plain hc]
    simpa [onOneLine, hn] using hi
  case span body cs hb _ hi =>
    have hs (p : Position) (text : List Char) : step ⟨p, .span start text false, found⟩ '"' =
        ⟨p.after '"', .atom start ('"' :: text), found⟩ := rfl
    rw [List.cons_append, run_cons, step_quote, run_append, run_inside hb, run_cons, hs]
    simpa [onOneLine] using hi

theorem run_comment (h : '\n' ∉ cs) :
    run ⟨p, .comment, found⟩ cs = ⟨cs.foldl Position.after p, .comment, found⟩ := by
  induction cs generalizing p
  case nil => rfl
  case cons c cs hi =>
    have ⟨hc, hcs⟩ : '\n' ≠ c ∧ '\n' ∉ cs := by simpa using h
    have hs : step ⟨p, .comment, found⟩ c = ⟨p.after c, .comment, found⟩ := by
      simp [step, feed, hc.symm]
    rw [run_cons, hs]
    exact hi hcs

end Run

section Tokens

theorem tokens_gap {rest : List Char} (h : Gap rest cs) :
    tokens ⟨p, .gap, found⟩ (cs ++ rest) =
      tokens ⟨cs.foldl Position.after p, .gap, found⟩ rest := by
  have hs (p : Position) : step ⟨p, .gap, found⟩ ';' = ⟨p.after ';', .comment, found⟩ := rfl
  induction h generalizing p
  case nil => rfl
  case blank c cs hb _ hi =>
    rw [List.cons_append, tokens_cons, step_blank hb]
    exact hi
  case comment text cs hn _ hi =>
    have hl (p : Position) : step ⟨p, .comment, found⟩ '\n' = ⟨p.after '\n', .gap, found⟩ := rfl
    rw [List.append_assoc, List.cons_append, tokens_cons, hs, tokens_append, run_comment hn,
      List.cons_append, tokens_cons, hl, hi]
    simp
  case lastComment text hn hr =>
    rw [hr, List.cons_append, tokens_cons, hs, tokens_append, run_comment hn]
    rfl

theorem tokens_parenthesis (h : IsParenthesis cs) (rest : List Char) :
    tokens ⟨p, .gap, found⟩ (cs ++ rest) =
      tokens ⟨cs.foldl Position.after p, .gap, ⟨.ofList (onOneLine cs), p⟩ :: found⟩ rest := by
  rcases h with rfl | rfl <;> rfl

theorem exists_startsWord (h : Word cs) (hn : cs ≠ []) : ∃ c ds, cs = c :: ds ∧ startsWord c := by
  cases h
  case nil     => exact absurd rfl hn
  case plain hc _ => exact ⟨_, _, rfl, Bool.or_eq_true_iff.mpr (.inl hc)⟩
  case span       => exact ⟨_, _, rfl, rfl⟩

theorem exists_startsWord_of_unclosed (h : UnclosedWord cs) :
    ∃ c ds, cs = c :: ds ∧ startsWord c := by
  obtain ⟨word, body, last, hw, _, _, rfl⟩ := h
  by_cases hn : word = []
  case pos => exact ⟨'"', body ++ last, by simp [hn], rfl⟩
  case neg =>
    obtain ⟨c, ds, rfl, hc⟩ := exists_startsWord hw hn
    exact ⟨c, ds ++ '"' :: body ++ last, by simp, hc⟩

-- A word takes its place from its first character.
theorem run_start (h : ∃ c ds, cs = c :: ds ∧ startsWord c) :
    run ⟨p, .gap, found⟩ cs = run ⟨p, .atom p [], found⟩ cs := by
  obtain ⟨c, ds, rfl, hc⟩ := h
  rw [run_cons, step_gap hc, run_cons]

theorem tokens_word (h : Word cs) (hn : cs ≠ []) {rest : List Char} (hr : EndsWord rest) :
    tokens ⟨p, .gap, found⟩ (cs ++ rest) =
      tokens ⟨cs.foldl Position.after p, .gap, ⟨.ofList (onOneLine cs), p⟩ :: found⟩ rest := by
  rw [tokens_append, run_start (exists_startsWord h hn), run_word h]
  cases rest
  case nil => simp [tokens, run, finish, cut, Mode.pending?]
  case cons d rest =>
    rw [tokens_cons, step_end (hr d rfl), tokens_cons]
    simp

theorem tokens_unclosedWord (h : UnclosedWord cs) :
    tokens ⟨p, .gap, found⟩ cs = found.reverse ++ [⟨String.ofList (onOneLine cs), p⟩] := by
  rw [tokens, run_start (exists_startsWord_of_unclosed h)]
  obtain ⟨word, body, last, hw, hb, hl, rfl⟩ := h
  rw [List.append_assoc, run_append, run_word hw, List.cons_append, run_cons, step_quote,
    run_append, run_inside hb]
  rcases hl with rfl | rfl
  all_goals
    simp [run, step, feed, Mode.inside, finish, cut, Mode.pending?, onOneLine]

theorem not_isParenthesis (h : ∃ c ds, cs = c :: ds ∧ startsWord c) : ¬IsParenthesis cs := by
  obtain ⟨c, ds, rfl, hc⟩ := h
  rintro (h | h)
  all_goals
    obtain ⟨rfl, _⟩ := List.cons.inj h
    exact absurd hc (by decide)

-- In front of blanks, comments, parentheses, and the end, a word is over.
theorem endsWord_of_gap {gap : List Char} {parts : List Part} (hg : Gap (Part.textOf parts) gap)
    (ha : gap = [] → ∀ q ∈ parts.head?, IsParenthesis q.lexeme) :
    EndsWord (gap ++ Part.textOf parts) := by
  intro c hc
  cases hg
  case nil =>
    cases parts
    case nil => cases hc
    case cons q parts =>
      rcases ha rfl q rfl with hq | hq
      all_goals
        obtain rfl : _ = c := by simpa [Part.textOf, Part.text, hq] using hc
        decide
  case blank b _ hb _ =>
    obtain rfl := Option.some.inj hc
    have hq : b ≠ '"' := fun hq => absurd hb (by rw [hq]; decide)
    simp [startsWord, isPlain, hb, hq]
  case comment | lastComment =>
    obtain rfl := Option.some.inj hc
    decide

theorem tokens_parts {parts : List Part} (h : Part.Proper parts) (before : List Char) :
    tokens ⟨.behind before, .gap, found⟩ (Part.textOf parts) =
      found.reverse ++ Part.tokens before parts := by
  induction h generalizing found before
  case nil => simp [Part.tokens, Part.textOf, tokens, run, finish, cut, Mode.pending?]
  case unclosed lexeme h =>
    simp [Part.tokens, Part.textOf, Part.text, Part.token, tokens_unclosedWord h]
  case cons part parts hl hg ha hp hi =>
    have h : tokens ⟨.behind before, .gap, found⟩ (part.lexeme ++ (part.gap ++ Part.textOf parts)) =
        tokens ⟨part.lexeme.foldl Position.after (.behind before), .gap,
          part.token before :: found⟩ (part.gap ++ Part.textOf parts) := by
      rcases hl with hl | ⟨hn, hl⟩
      case inl => exact tokens_parenthesis hl _
      case inr =>
        have hw := not_isParenthesis (exists_startsWord hl hn)
        exact tokens_word hl hn <| endsWord_of_gap hg fun h q hq => (ha h q hq).resolve_left hw
    rw [Part.textOf, List.flatMap_cons, ← Part.textOf, Part.text, List.append_assoc, h,
      tokens_gap hg, ← List.foldl_append, ← Part.text, ← Position.behind_append, hi, Part.tokens]
    simp

end Tokens

end Scanner

-- The tokens of a text are those of its division.
theorem Division.scan_text {d : Division} (h : d.Proper) :
    Token.scan (String.ofList d.text) = d.tokens := by
  have hp : Scanner.tokens ⟨.behind [], .gap, []⟩ d.text =
      Scanner.tokens ⟨.behind d.gap, .gap, []⟩ (Part.textOf d.parts) := by
    rw [text, Scanner.tokens_gap h.gap, ← Position.behind_append, List.nil_append]
  rw [Token.scan, String.toList_ofList]
  exact hp.trans <| Scanner.tokens_parts h.parts d.gap

section Exists

-- A text behind the quote that opens a span, up to the quote that closes it.
theorem exists_inside (cs : List Char) :
    (∃ body rest, cs = body ++ '"' :: rest ∧ Inside body) ∨
      ∃ body last, cs = body ++ last ∧ Inside body ∧ (last = [] ∨ last = ['\\']) := by
  match cs with
  | [] => exact .inr ⟨[], [], rfl, .nil, .inl rfl⟩
  | c :: cs =>
    by_cases hq : c = '"'
    case pos => exact .inl ⟨[], cs, by rw [hq]; rfl, .nil⟩
    by_cases hb : c = '\\'
    case neg =>
      rcases exists_inside cs with ⟨body, rest, rfl, hi⟩ | ⟨body, last, rfl, hi, hl⟩
      case inl => exact .inl ⟨c :: body, rest, rfl, .char hq hb hi⟩
      case inr => exact .inr ⟨c :: body, last, rfl, .char hq hb hi, hl⟩
    case pos =>
    subst hb
    match cs with
    | [] => exact .inr ⟨[], ['\\'], rfl, .nil, .inr rfl⟩
    | c :: cs =>
      rcases exists_inside cs with ⟨body, rest, rfl, hi⟩ | ⟨body, last, rfl, hi, hl⟩
      case inl => exact .inl ⟨'\\' :: c :: body, rest, rfl, .escape hi⟩
      case inr => exact .inr ⟨'\\' :: c :: body, last, rfl, .escape hi, hl⟩
termination_by cs.length

-- A text up to the end of the word that it starts with, which may be empty.
theorem exists_word (cs : List Char) :
    (∃ word rest, cs = word ++ rest ∧ Word word ∧ EndsWord rest) ∨ UnclosedWord cs := by
  match cs with
  | [] => exact .inl ⟨[], [], rfl, .nil, nofun⟩
  | c :: cs =>
    by_cases hp : isPlain c
    case pos =>
      rcases exists_word cs with ⟨word, rest, rfl, hw, he⟩ | ⟨word, body, last, hw, hb, hl, rfl⟩
      case inl => exact .inl ⟨c :: word, rest, rfl, .plain hp hw, he⟩
      case inr => exact .inr ⟨c :: word, body, last, .plain hp hw, hb, hl, rfl⟩
    by_cases hq : c = '"'
    case neg => exact .inl ⟨[], c :: cs, rfl, .nil, fun d hd => by simp_all [startsWord]⟩
    case pos =>
    subst hq
    rcases exists_inside cs with ⟨body, rest, rfl, hb⟩ | ⟨body, last, rfl, hb, hl⟩
    case inr => exact .inr ⟨[], body, last, .nil, hb, hl, rfl⟩
    case inl =>
    rcases exists_word rest with ⟨word, rest, rfl, hw, he⟩ | ⟨word, body', last, hw, hb', hl, rfl⟩
    case inl => exact .inl ⟨'"' :: body ++ '"' :: word, rest, by simp, .span hb hw, he⟩
    case inr =>
      exact .inr ⟨'"' :: body ++ '"' :: word, body', last, .span hb hw, hb', hl, by simp⟩
termination_by cs.length

-- A text up to the first character that belongs to a token.
theorem exists_gap (cs : List Char) :
    ∃ gap rest, cs = gap ++ rest ∧ Gap rest gap ∧ ∀ c ∈ rest.head?, ¬isBlank c ∧ c ≠ ';' := by
  match cs with
  | [] => exact ⟨[], [], rfl, .nil, nofun⟩
  | c :: cs =>
    by_cases hb : isBlank c
    case pos =>
      obtain ⟨gap, rest, rfl, hg, hr⟩ := exists_gap cs
      exact ⟨c :: gap, rest, rfl, .blank hb hg, hr⟩
    by_cases hs : c = ';'
    case neg => exact ⟨[], c :: cs, rfl, .nil, fun d hd => by simp_all⟩
    case pos =>
    subst hs
    by_cases hl : '\n' ∈ cs
    case neg => exact ⟨';' :: cs, [], by simp, .lastComment hl rfl, nofun⟩
    case pos =>
      obtain ⟨text, ds, rfl, hn⟩ := List.eq_append_cons_of_mem hl
      obtain ⟨gap, rest, rfl, hg, hr⟩ := exists_gap ds
      exact ⟨';' :: text ++ '\n' :: gap, rest, by simp, .comment hn hg, hr⟩
termination_by cs.length

-- Where a word is over, only a parenthesis may come next.
theorem isParenthesis_of_endsWord {parts : List Part} (hp : Part.Proper parts)
    (he : EndsWord (Part.textOf parts)) : ∀ q ∈ parts.head?, IsParenthesis q.lexeme := by
  have hn {q : Part} {parts : List Part} (he : EndsWord (Part.textOf (q :: parts)))
      (hs : ∃ c ds, q.lexeme = c :: ds ∧ startsWord c) : False := by
    obtain ⟨c, ds, hq, hc⟩ := hs
    exact he c (by simp [Part.textOf, Part.text, hq]) hc
  intro q hq
  cases hp
  case nil => cases hq
  case unclosed h => exact (hn he <| Scanner.exists_startsWord_of_unclosed h).elim
  case cons hl _ _ _ =>
    obtain rfl := Option.some.inj hq
    rcases hl with hl | ⟨hne, hw⟩
    case inl => exact hl
    case inr => exact (hn he <| Scanner.exists_startsWord hw hne).elim

-- A text up to the end of the token that it starts with.
theorem exists_lexeme {cs : List Char} (hn : cs ≠ []) (h : ∀ c ∈ cs.head?, ¬isBlank c ∧ c ≠ ';') :
    (∃ lexeme rest, cs = lexeme ++ rest ∧ IsLexeme lexeme ∧
      (IsParenthesis lexeme ∨ EndsWord rest)) ∨ UnclosedWord cs := by
  obtain ⟨c, cs, rfl⟩ := List.exists_cons_of_ne_nil hn
  by_cases hp : c = '(' ∨ c = ')'
  case pos =>
    have hl : IsParenthesis [c] := hp.imp (by rw [·]) (by rw [·])
    exact .inl ⟨[c], cs, rfl, .inl hl, .inl hl⟩
  case neg =>
    have hs : startsWord c := by
      have ⟨hb, hs⟩ := h c rfl
      by_cases hq : c = '"' <;> simp [startsWord, isPlain, hb, hs, not_or.mp hp, hq]
    rcases exists_word (c :: cs) with ⟨word, rest, he, hw, hr⟩ | hu
    case inr => exact .inr hu
    case inl =>
      have hne : word ≠ [] := by
        rintro rfl
        exact hr c (congrArg List.head? he.symm) hs
      exact .inl ⟨word, rest, he, .inr ⟨hne, hw⟩, .inr hr⟩

theorem exists_proper (cs : List Char) : ∃ d : Division, d.Proper ∧ d.text = cs := by
  have ⟨gap, tail, hcs, hg, ht⟩ := exists_gap cs
  by_cases hn : tail = []
  case pos => exact ⟨⟨gap, []⟩, ⟨by rwa [hn] at hg, .nil⟩, by rw [hcs, hn]; rfl⟩
  rcases exists_lexeme hn ht with ⟨lexeme, rest, he, hl, hr⟩ | hu
  case inl =>
    have hne : lexeme ≠ [] := by
      rcases hl with (rfl | rfl) | ⟨hne, _⟩
      case inr => exact hne
      all_goals simp
    have hlt : rest.length < cs.length := by
      have := List.length_pos_iff.mpr hne
      simp only [hcs, he, List.length_append]
      omega
    have ⟨d, hd, htext⟩ := exists_proper rest
    have hp : Part.Proper (⟨lexeme, d.gap⟩ :: d.parts) := by
      refine .cons hl hd.gap (fun hgap q hq => hr.imp_right fun hr => ?_) hd.parts
      have hgap : d.gap = [] := hgap
      rw [← htext, Division.text, hgap] at hr
      exact isParenthesis_of_endsWord hd.parts hr q hq
    have hparts : Part.textOf (⟨lexeme, d.gap⟩ :: d.parts) = tail := by
      rw [he, ← htext]
      simp [Part.textOf, Part.text, Division.text]
    exact ⟨⟨gap, _⟩, ⟨by rwa [hparts], hp⟩, by rw [Division.text, hparts, hcs]⟩
  case inr =>
    have hparts : Part.textOf [⟨tail, []⟩] = tail := by simp [Part.textOf, Part.text]
    exact ⟨⟨gap, _⟩, ⟨by rwa [hparts], .unclosed hu⟩, by rw [Division.text, hparts, hcs]⟩
termination_by cs.length

end Exists

-- Every text is divided in exactly one way, and its tokens are those that are found.
theorem Division.existsUnique_scan (source : String) :
    ∃ d : Division, (∀ d' : Division, d'.Proper ∧ d'.text = source.toList ↔ d' = d) ∧
      Token.scan source = d.tokens := by
  obtain ⟨d, hd, ht⟩ := exists_proper source.toList
  have hs {d : Division} (hd : d.Proper) (ht : d.text = source.toList) :
      Token.scan source = d.tokens := by
    rw [← scan_text hd, ht, String.ofList_toList]
  refine ⟨d, fun d' => ⟨fun ⟨hd', ht'⟩ => ?_, ?_⟩, hs hd ht⟩
  case refine_1 => exact eq_of_tokens_eq ((hs hd' ht').symm.trans (hs hd ht)) (ht'.trans ht.symm)
  case refine_2 =>
    rintro rfl
    exact ⟨hd, ht⟩

end ScopedLisp
